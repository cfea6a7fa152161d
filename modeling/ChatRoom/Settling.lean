import ChatRoom.Machine
/-!
# Settling — machines whose own steps come to an end

For scheduled machines.  Some of the steps are the machine's own, in the states where `ok` says so, the others its
environment's.  Where each step of its own makes a measure smaller, its runs are bounded (`length_le_of_exec`) and one
of them leads to a state in which it has no step left (`Settled`, `exists_settled`).  Where only the steps of one kind
do, in every run there are no more of that kind than the measure (`countP_le_of_exec`).  An invariant of these steps may
help.
-/
namespace Machine

variable {σ α : Type*} {step : σ → α → Option σ} {ok : σ → α → Prop} {μ : σ → Nat}

/-- The machine has no step of its own. -/
def Settled (step : σ → α → Option σ) (ok : σ → α → Prop) (s : σ) : Prop := ∀ a, ok s a → step s a = none

/-- **Steps that each take from a measure are no more than it**, where no other step adds to it. -/
theorem countP_le_of_exec {I : σ → Prop} {kind : α → Bool}
    (hstep : ∀ s a t, I s → ok s a → step s a = some t → I t ∧ if kind a then μ t < μ s else μ t ≤ μ s) :
    ∀ (as : List α) {s t : σ}, I s → Meets step ok s as → exec step s as = some t →
      I t ∧ as.countP kind + μ t ≤ μ s
  | [], _, _, hs, _, h => by cases h; exact ⟨hs, Nat.le_of_eq (Nat.zero_add _)⟩
  | a :: as, s, t, hs, hok, h => by
    rw [exec, Option.bind_eq_some_iff] at h
    obtain ⟨u, hu, ht⟩ := h
    obtain ⟨hI, hfirst⟩ := hstep s a u hs hok.1 hu
    obtain ⟨hI, hrest⟩ := countP_le_of_exec hstep as hI (hok.2 u hu) ht
    refine ⟨hI, ?_⟩
    rw [List.countP_cons]
    by_cases hkind : kind a = true
    · rw [if_pos hkind] at hfirst ⊢; omega
    · rw [if_neg hkind] at hfirst ⊢; omega

section Invariant
variable {I : σ → Prop}

/-- **A run is no longer than its measure.** -/
theorem length_le_under (hdecrease : ∀ s a t, I s → ok s a → step s a = some t → I t ∧ μ t < μ s) (as : List α)
    {s t : σ} (hs : I s) (hok : Meets step ok s as) (h : exec step s as = some t) : as.length + μ t ≤ μ s := by
  have hall : as.countP (fun _ => true) + μ t ≤ μ s := by
    refine (countP_le_of_exec (fun s a t hs ha hstep => ?_) as hs hok h).2
    rw [if_pos rfl]
    exact hdecrease s a t hs ha hstep
  rwa [List.countP_true] at hall

/-- **Every state leads to a settled one.** -/
theorem exists_settled_under (hdecrease : ∀ s a t, I s → ok s a → step s a = some t → I t ∧ μ t < μ s) {s : σ}
    (hs : I s) : ∃ as t, Meets step ok s as ∧ exec step s as = some t ∧ Settled step ok t := by
  induction hμ : μ s using Nat.strongRecOn generalizing s with
  | ind m ih =>
    by_cases hsettled : Settled step ok s
    · exact ⟨[], s, trivial, rfl, hsettled⟩
    · simp only [Settled, not_forall] at hsettled
      obtain ⟨a, hok, hstep⟩ := hsettled
      obtain ⟨u, hu⟩ := Option.ne_none_iff_exists'.1 hstep
      obtain ⟨hI, hless⟩ := hdecrease s a u hs hok hu
      obtain ⟨as, t, hmeets, ht, hsettled⟩ := ih (μ u) (hμ ▸ hless) hI rfl
      refine ⟨a :: as, t, ⟨hok, fun u' hu' => ?_⟩, by rw [exec, hu]; exact ht, hsettled⟩
      rw [hu] at hu'
      cases hu'
      exact hmeets

end Invariant

section
variable (hdecrease : ∀ s a t, ok s a → step s a = some t → μ t < μ s)
include hdecrease

theorem length_le_of_exec (as : List α) {s t : σ} (hok : Meets step ok s as) (h : exec step s as = some t) :
    as.length + μ t ≤ μ s :=
  length_le_under (I := fun _ => True) (fun s a t _ ha hstep => ⟨trivial, hdecrease s a t ha hstep⟩) as trivial hok h

theorem exists_settled (s : σ) : ∃ as t, Meets step ok s as ∧ exec step s as = some t ∧ Settled step ok t :=
  exists_settled_under (I := fun _ => True) (fun s a t _ ha hstep => ⟨trivial, hdecrease s a t ha hstep⟩) trivial

end

end Machine
