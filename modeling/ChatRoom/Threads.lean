import Mathlib.Algebra.BigOperators.Fin
import Mathlib.Algebra.BigOperators.Group.Finset.Piecewise
import Mathlib.Algebra.Order.BigOperators.Group.Finset
import Mathlib.Logic.Function.Basic
/-!
# Threads — a lock, and how many are of a kind

Over any family of threads.  `Mutex.Guarded owner inside`: the thread inside its critical section is exactly the owner
of the lock, so there is one at most (`Guarded.unique`).  Taking the lock, giving it back, and a move that does neither
keep this.

`Tally.tally p f` counts the indices whose value meets `p`.  One index moved changes it by that index alone
(`tally_update`); it is zero when no value meets `p` (`tally_eq_zero`), and at most one index is of a kind that is
tallied once (`eq_of_tally_le_one`).  Where the values have weights, `total` is their sum (`total_update`).
-/
namespace Mutex

variable {θ : Type*}

/-- Inside is the owner of the lock, if it has one, and nobody else. -/
def Guarded (owner : Option θ) (inside : θ → Bool) : Prop := ∀ t, inside t = true ↔ owner = some t

variable {owner : Option θ} {inside : θ → Bool}

theorem Guarded.owner_eq (h : Guarded owner inside) {t : θ} (ht : inside t = true) : owner = some t := (h t).1 ht

/-- **At most one thread is inside.** -/
theorem Guarded.unique (h : Guarded owner inside) {t t' : θ} (ht : inside t = true) (ht' : inside t' = true) : t = t' :=
  Option.some.inj ((h.owner_eq ht).symm.trans (h.owner_eq ht'))

variable [DecidableEq θ]

theorem Guarded.acquire (h : Guarded none inside) (t : θ) : Guarded (some t) (Function.update inside t true) := by
  intro t'
  by_cases ht : t' = t
  · subst ht; simp
  · have hout := h t'
    rw [Function.update_of_ne ht, hout]
    simp [Ne.symm ht]

theorem Guarded.release (h : Guarded owner inside) {t : θ} (ht : inside t = true) :
    Guarded none (Function.update inside t false) := by
  intro t'
  by_cases htt : t' = t
  · subst htt; simp
  · rw [Function.update_of_ne htt]
    simp only [reduceCtorEq, iff_false]
    exact fun ht' => htt (h.unique ht' ht)

/-- A move that neither enters nor leaves. -/
theorem Guarded.move (h : Guarded owner inside) {t : θ} {b : Bool} (ht : inside t = b) :
    Guarded owner (Function.update inside t b) := by
  rw [← ht, Function.update_eq_self]
  exact h

end Mutex

namespace Tally

variable {ι α : Type*} [Fintype ι]

def tally (p : α → Bool) (f : ι → α) : Nat := (Finset.univ.filter (fun i => p (f i) = true)).card

theorem tally_eq_sum (p : α → Bool) (f : ι → α) : tally p f = ∑ i, (p (f i)).toNat := by
  unfold tally
  rw [Finset.card_filter]
  exact Finset.sum_congr rfl (fun i _ => by cases p (f i) <;> rfl)

/-- **One index moves**: the tally loses what it was and gains what it is. -/
theorem tally_update [DecidableEq ι] (p : α → Bool) (f : ι → α) (i : ι) (x : α) :
    tally p (Function.update f i x) + (p (f i)).toNat = tally p f + (p x).toNat := by
  have hothers : ∑ j ∈ Finset.univ.erase i, (p (Function.update f i x j)).toNat =
      ∑ j ∈ Finset.univ.erase i, (p (f j)).toNat :=
    Finset.sum_congr rfl (fun j hj => by rw [Function.update_of_ne (Finset.ne_of_mem_erase hj)])
  rw [tally_eq_sum, tally_eq_sum, ← Finset.add_sum_erase _ _ (Finset.mem_univ i), hothers, Function.update_self,
    ← Finset.add_sum_erase Finset.univ (fun j => (p (f j)).toNat) (Finset.mem_univ i)]
  omega

theorem tally_eq_zero {p : α → Bool} {f : ι → α} (h : ∀ i, p (f i) = false) : tally p f = 0 := by
  rw [tally, Finset.card_eq_zero, Finset.filter_eq_empty_iff]
  exact fun i _ => by simp [h i]

theorem eq_false_of_tally_eq_zero {p : α → Bool} {f : ι → α} (h : tally p f = 0) (i : ι) : p (f i) = false := by
  rw [tally, Finset.card_eq_zero, Finset.filter_eq_empty_iff] at h
  exact Bool.eq_false_iff.2 (h (Finset.mem_univ i))

theorem eq_of_tally_le_one {p : α → Bool} {f : ι → α} (h : tally p f ≤ 1) {i j : ι} (hi : p (f i) = true)
    (hj : p (f j) = true) : i = j :=
  Finset.card_le_one.1 h i (Finset.mem_filter.2 ⟨Finset.mem_univ i, hi⟩) j (Finset.mem_filter.2 ⟨Finset.mem_univ j, hj⟩)

/-! ## Weights -/

/-- What the family weighs. -/
def total (μ : α → Nat) (f : ι → α) : Nat := ∑ i, μ (f i)

theorem total_update [DecidableEq ι] (μ : α → Nat) (f : ι → α) (i : ι) (x : α) :
    total μ (Function.update f i x) + μ (f i) = total μ f + μ x := by
  have hothers : ∑ j ∈ Finset.univ.erase i, μ (Function.update f i x j) = ∑ j ∈ Finset.univ.erase i, μ (f j) :=
    Finset.sum_congr rfl (fun j hj => by rw [Function.update_of_ne (Finset.ne_of_mem_erase hj)])
  rw [total, total, ← Finset.add_sum_erase _ _ (Finset.mem_univ i), hothers, Function.update_self,
    ← Finset.add_sum_erase Finset.univ (fun j => μ (f j)) (Finset.mem_univ i)]
  omega

theorem total_le_add {μ : α → Nat} {f g : ι → α} {c : Nat} (h : ∀ i, μ (g i) ≤ μ (f i) + c) :
    total μ g ≤ total μ f + Fintype.card ι * c := by
  have hsum := Finset.sum_le_sum (fun i (_ : i ∈ Finset.univ) => h i)
  rwa [Finset.sum_add_distrib, Finset.sum_const, Finset.card_univ] at hsum

end Tally
