import Mathlib.Data.List.Basic
import Mathlib.Logic.Function.Basic
/-!
# Intake — items in the hands of those who took them

Items are numbered in the order in which they are taken.  Any reader takes the next one, holds it, and settles it before
it takes another.  `Ledger taken hand settled` says that it was so: an item is in the hand of the reader who took it or
was settled by that one, and every reader settled what it took in that order.

Where at most one hand holds an item at a time, what went out is what came in but for that one: `InFlight.Lags` says so
of two lists, and is kept when a free set of hands takes an item (`Lags.take`) and when the hand that holds one gives it
on (`Lags.give`).
-/
namespace Intake

variable {ρ : Type*} {taken : List ρ}

theorem lt_of_taken {r : ρ} {i : Nat} (h : taken[i]? = some r) : i < taken.length := (List.getElem?_eq_some_iff.1 h).1

theorem getElem?_concat {i : Nat} {r : ρ} (h : taken[i]? = some r) (r' : ρ) : (taken ++ [r'])[i]? = some r := by
  rw [List.getElem?_append_left (lt_of_taken h), h]

theorem of_concat {i : Nat} {r r' : ρ} (h : (taken ++ [r'])[i]? = some r) :
    taken[i]? = some r ∨ i = taken.length ∧ r = r' := by
  rw [List.getElem?_append] at h
  split at h
  · exact .inl h
  · rename_i hi
    obtain ⟨hlt, rfl⟩ := List.getElem?_eq_some_iff.1 h
    rw [List.length_singleton] at hlt
    exact .inr ⟨by omega, by simp⟩

variable [DecidableEq ρ]

/-- The items a reader settled. -/
def settledBy (r : ρ) (settled : List (Nat × ρ)) : List Nat :=
  settled.filterMap (fun e => if e.2 = r then some e.1 else none)

structure Ledger (taken : List ρ) (hand : ρ → Option Nat) (settled : List (Nat × ρ)) : Prop where
  held : ∀ r i, hand r = some i → taken[i]? = some r
  done : ∀ i r, (i, r) ∈ settled → taken[i]? = some r
  accounted : ∀ i r, taken[i]? = some r → hand r = some i ∨ (i, r) ∈ settled
  order : ∀ r, (settledBy r settled ++ (hand r).toList).Pairwise (· < ·)

theorem ledger_nil : Ledger [] (fun _ : ρ => none) [] := ⟨nofun, nofun, nofun, fun _ => .nil⟩

variable {hand : ρ → Option Nat} {settled : List (Nat × ρ)}

theorem settledBy_concat (r r' : ρ) (i : Nat) (settled : List (Nat × ρ)) :
    settledBy r (settled ++ [(i, r')]) = if r' = r then settledBy r settled ++ [i] else settledBy r settled := by
  unfold settledBy
  rw [List.filterMap_append]
  by_cases hr : r' = r
  · simp [hr]
  · simp [hr]

theorem mem_settledBy {r : ρ} {i : Nat} : i ∈ settledBy r settled ↔ (i, r) ∈ settled := by
  unfold settledBy
  rw [List.mem_filterMap]
  constructor
  · rintro ⟨⟨j, r'⟩, he, hi⟩
    split at hi
    · rename_i hr
      cases hi
      exact hr ▸ he
    · cases hi
  · exact fun h => ⟨(i, r), h, if_pos rfl⟩

/-- **A reader with nothing in hand takes the next item.** -/
theorem Ledger.take (h : Ledger taken hand settled) {r : ρ} (hr : hand r = none) :
    Ledger (taken ++ [r]) (Function.update hand r (some taken.length)) settled where
  held := by
    intro r' i hi
    by_cases hr' : r' = r
    · subst hr'
      rw [Function.update_self] at hi
      cases hi
      exact List.getElem?_concat_length
    · rw [Function.update_of_ne hr'] at hi
      exact getElem?_concat (h.held r' i hi) r
  done := fun i r' hi => getElem?_concat (h.done i r' hi) r
  accounted := by
    intro i r' hi
    rcases of_concat hi with hi | ⟨rfl, rfl⟩
    · rcases h.accounted i r' hi with hhand | hsettled
      · have hne : r' ≠ r := by
          rintro rfl
          rw [hr] at hhand
          cases hhand
        exact .inl (by rw [Function.update_of_ne hne, hhand])
      · exact .inr hsettled
    · exact .inl (Function.update_self ..)
  order := by
    intro r'
    by_cases hr' : r' = r
    · subst hr'
      have horder := h.order r'
      rw [hr, Option.toList_none, List.append_nil] at horder
      rw [Function.update_self, Option.toList_some, List.pairwise_append]
      refine ⟨horder, List.pairwise_singleton .., fun i hi j hj => ?_⟩
      rw [List.mem_singleton.1 hj]
      exact lt_of_taken (h.done i r' (mem_settledBy.1 hi))
    · rw [Function.update_of_ne hr']
      exact h.order r'

/-- **A reader settles what it holds.** -/
theorem Ledger.settle (h : Ledger taken hand settled) {r : ρ} {i : Nat} (hr : hand r = some i) :
    Ledger taken (Function.update hand r none) (settled ++ [(i, r)]) where
  held := by
    intro r' j hj
    by_cases hr' : r' = r
    · subst hr'
      rw [Function.update_self] at hj
      cases hj
    · rw [Function.update_of_ne hr'] at hj
      exact h.held r' j hj
  done := by
    intro j r' hj
    rcases List.mem_append.1 hj with hj | hj
    · exact h.done j r' hj
    · cases List.mem_singleton.1 hj
      exact h.held r i hr
  accounted := by
    intro j r' hj
    rcases h.accounted j r' hj with hhand | hsettled
    · by_cases hr' : r' = r
      · subst hr'
        rw [hr] at hhand
        cases hhand
        exact .inr (List.mem_append_right _ (List.mem_singleton.2 rfl))
      · exact .inl (by rw [Function.update_of_ne hr', hhand])
    · exact .inr (List.mem_append_left _ hsettled)
  order := by
    intro r'
    have horder := h.order r'
    rw [settledBy_concat]
    by_cases hr' : r' = r
    · subst hr'
      rw [hr, Option.toList_some] at horder
      rw [if_pos rfl, Function.update_self, Option.toList_none, List.append_nil]
      exact horder
    · rw [if_neg (Ne.symm hr'), Function.update_of_ne hr']
      exact horder

/-- What a reader settled, it settled in the order of the items. -/
theorem Ledger.settledBy_sorted (h : Ledger taken hand settled) (r : ρ) : (settledBy r settled).Pairwise (· < ·) :=
  (List.pairwise_append.1 (h.order r)).1

end Intake

namespace InFlight

variable {ι β : Type*}

def Lags (hand : ι → Option β) (ahead behind : List β) : Prop :=
  (∀ i b, hand i = some b → ahead = behind ++ [b]) ∧ ((∀ i, hand i = none) → ahead = behind)

theorem lags_nil {hand : ι → Option β} (h : ∀ i, hand i = none) : Lags hand [] [] :=
  ⟨fun i b hb => absurd hb (by rw [h i]; exact nofun), fun _ => rfl⟩

variable [DecidableEq ι] {hand : ι → Option β} {ahead behind : List β} {i : ι} {b : β}

theorem Lags.take (h : Lags hand ahead behind) (hfree : ∀ j, hand j = none) :
    Lags (Function.update hand i (some b)) (ahead ++ [b]) behind := by
  rw [h.2 hfree]
  refine ⟨fun j c hc => ?_, fun hnone => absurd (hnone i) (by rw [Function.update_self]; exact nofun)⟩
  by_cases hj : j = i
  · subst hj
    rw [Function.update_self, Option.some.injEq] at hc
    rw [hc]
  · rw [Function.update_of_ne hj, hfree j] at hc
    cases hc

theorem Lags.give (h : Lags hand ahead behind) (hi : hand i = some b) (halone : ∀ j ≠ i, hand j = none) :
    Lags (Function.update hand i none) ahead (behind ++ [b]) := by
  have hnone : ∀ j, Function.update hand i none j = none := by
    intro j
    by_cases hj : j = i
    · subst hj; exact Function.update_self ..
    · rw [Function.update_of_ne hj, halone j hj]
  exact ⟨fun j c hc => absurd hc (by rw [hnone j]; exact nofun), fun _ => h.1 i b hi⟩

/-- A hand that holds nothing stays so. -/
theorem Lags.idle (h : Lags hand ahead behind) (hi : hand i = none) :
    Lags (Function.update hand i none) ahead behind := by
  rw [← hi, Function.update_eq_self]
  exact h

end InFlight
