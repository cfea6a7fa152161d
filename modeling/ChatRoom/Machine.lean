import Mathlib.Data.List.Basic
/-!
# Machine — runs of a step function

Two kinds of system.  A *served* one answers every input (`final`, `trace`); a *scheduled* one moves by labels, each
enabled in some states only (`exec`, `ReachIf`).  For the served kind: what a state component that keeps its last write,
or its first, holds after a run (`final_lastWrite`, `final_firstWrite`), the simulation rule (`simulates`) and
the purge rule (`view_purge`).  For the scheduled kind: the invariant rule, over every run or over those whose steps all
meet a condition (`ReachIf.invariant`).
-/
namespace Machine

/-! ## Served: every input is answered -/

section Served
variable {σ τ ι κ ο π β : Type*}

def final (step : σ → ι → σ × ο) (s : σ) (is : List ι) : σ := is.foldl (fun t i => (step t i).1) s

def trace (step : σ → ι → σ × ο) : σ → List ι → List (ι × ο)
  | _, [] => []
  | s, i :: is => (i, (step s i).2) :: trace step (step s i).1 is

variable (step : σ → ι → σ × ο)

@[simp] theorem final_nil (s : σ) : final step s [] = s := rfl

@[simp] theorem final_cons (s : σ) (i : ι) (is : List ι) : final step s (i :: is) = final step (step s i).1 is := rfl

@[simp] theorem final_append (s : σ) (is js : List ι) : final step s (is ++ js) = final step (final step s is) js := by
  unfold final
  rw [List.foldl_append]

@[simp] theorem trace_nil (s : σ) : trace step s [] = [] := rfl

@[simp] theorem trace_cons (s : σ) (i : ι) (is : List ι) :
    trace step s (i :: is) = (i, (step s i).2) :: trace step (step s i).1 is := rfl

theorem trace_append : ∀ (is js : List ι) (s : σ),
    trace step s (is ++ js) = trace step s is ++ trace step (final step s is) js
  | [], _, _ => rfl
  | i :: is, js, s => by
    rw [List.cons_append, trace_cons, trace_cons, trace_append is js, List.cons_append, final_cons]

theorem map_fst_trace : ∀ (is : List ι) (s : σ), (trace step s is).map Prod.fst = is
  | [], _ => rfl
  | i :: is, s => by rw [trace_cons, List.map_cons, map_fst_trace is]

/-- **What an input keeps, a run keeps.** -/
theorem final_invariant (I : σ → Prop) (h : ∀ s i, I s → I (step s i).1) :
    ∀ (is : List ι) (s : σ), I s → I (final step s is)
  | [], _, hs => hs
  | i :: is, s, hs => final_invariant I h is (step s i).1 (h s i hs)

/-- Every answer of a run was given in a state that the invariant holds of. -/
theorem answered_under (I : σ → Prop) (h : ∀ s i, I s → I (step s i).1) :
    ∀ (is : List ι) (s : σ), I s → ∀ e ∈ trace step s is, ∃ t, I t ∧ e.2 = (step t e.1).2
  | [], _, _, _, he => by cases he
  | i :: is, s, hs, e, he => by
    rcases List.mem_cons.1 he with rfl | he
    · exact ⟨s, hs, rfl⟩
    · exact answered_under I h is (step s i).1 (h s i hs) e he

/-- The invariant rule for a state with the trace so far. -/
theorem trace_invariant (I : List (ι × ο) → σ → Prop)
    (h : ∀ t s i, I t s → I (t ++ [(i, (step s i).2)]) (step s i).1) :
    ∀ (is : List ι) {t : List (ι × ο)} {s : σ}, I t s → I (t ++ trace step s is) (final step s is)
  | [], t, s, hs => by rw [trace_nil, List.append_nil]; exact hs
  | i :: is, t, s, hs => by
    rw [trace_cons, final_cons, ← List.singleton_append, ← List.append_assoc]
    exact trace_invariant I h is (h t s i hs)

/-- A trace is cut where its run is. -/
theorem trace_eq_append {is : List ι} {s : σ} {t₁ t₂ : List (ι × ο)} (h : trace step s is = t₁ ++ t₂) :
    ∃ is₁ is₂, is = is₁ ++ is₂ ∧ trace step s is₁ = t₁ ∧ trace step (final step s is₁) is₂ = t₂ := by
  have his : is = t₁.map Prod.fst ++ t₂.map Prod.fst := by rw [← map_fst_trace step is s, h, List.map_append]
  refine ⟨_, _, his, ?_⟩
  rw [his, trace_append] at h
  exact List.append_inj h (by rw [← List.length_map Prod.fst, map_fst_trace, List.length_map])

theorem trace_split (is : List ι) (s : σ) (t₁ t₂ : List (ι × ο)) (x : ι × ο)
    (h : trace step s is = t₁ ++ x :: t₂) :
    is = t₁.map Prod.fst ++ x.1 :: t₂.map Prod.fst ∧ t₁ = trace step s (t₁.map Prod.fst) ∧
      x.2 = (step (final step s (t₁.map Prod.fst)) x.1).2 ∧
      t₂ = trace step (step (final step s (t₁.map Prod.fst)) x.1).1 (t₂.map Prod.fst) := by
  have his : is = t₁.map Prod.fst ++ x.1 :: t₂.map Prod.fst := by
    rw [← map_fst_trace step is s, h, List.map_append, List.map_cons]
  have htr := h
  rw [his, trace_append, trace_cons] at htr
  have hlen : (trace step s (t₁.map Prod.fst)).length = t₁.length := by
    rw [← List.length_map Prod.fst, map_fst_trace, List.length_map]
  obtain ⟨h1, h2⟩ := List.append_inj htr hlen
  obtain ⟨hx, h3⟩ := List.cons.inj h2
  exact ⟨his, h1.symm, by rw [← hx], h3.symm⟩

/-- **The last write wins**: a component that every input writes or leaves alone holds the last write of the run. -/
theorem final_lastWrite (obs : σ → β) (write : ι × ο → Option β)
    (h : ∀ s i, obs (step s i).1 = (write (i, (step s i).2)).getD (obs s)) :
    ∀ (is : List ι) (s : σ), obs (final step s is) = (((trace step s is).filterMap write).getLast?).getD (obs s)
  | [], _ => rfl
  | i :: is, s => by
    rw [final_cons, trace_cons, final_lastWrite obs write h is, h s i, List.filterMap_cons]
    cases write (i, (step s i).2) with
    | none => rfl
    | some b =>
      simp only [Option.getD_some, List.getLast?_cons]

/-- **The first write wins**: a component that inputs only write while it is empty holds the first write of the run. -/
theorem final_firstWrite (obs : σ → Option β) (write : ι → Option β)
    (h : ∀ s i, obs (step s i).1 = (obs s).or (write i)) :
    ∀ (is : List ι) (s : σ), obs (final step s is) = (obs s).or (is.findSome? write)
  | [], s => by simp
  | i :: is, s => by
    rw [final_cons, final_firstWrite obs write h is, h s i, List.findSome?_cons]
    cases obs s <;> cases write i <;> rfl

/-- **Simulation**: where every input of one machine is an input of the other, answered alike, or nothing to it, the
histories agree and the final states are related. -/
theorem simulates (step' : τ → κ → τ × π) (R : σ → τ → Prop) (ok : ι → Prop) (f : ι → Option κ)
    (g : ι × ο → Option (κ × π))
    (h : ∀ s t i, R s t → ok i → match f i with
      | none => R (step s i).1 t ∧ g (i, (step s i).2) = none
      | some k => R (step s i).1 (step' t k).1 ∧ g (i, (step s i).2) = some (k, (step' t k).2)) :
    ∀ (is : List ι) (s : σ) (t : τ), R s t → (∀ i ∈ is, ok i) →
      R (final step s is) (final step' t (is.filterMap f)) ∧
        (trace step s is).filterMap g = trace step' t (is.filterMap f)
  | [], _, _, hR, _ => ⟨hR, rfl⟩
  | i :: is, s, t, hR, hok => by
    have hi := h s t i hR (hok i List.mem_cons_self)
    have hok' : ∀ j ∈ is, ok j := fun j hj => hok j (List.mem_cons_of_mem i hj)
    rw [final_cons, trace_cons, List.filterMap_cons, List.filterMap_cons]
    cases hf : f i with
    | none =>
      rw [hf] at hi
      rw [hi.2]
      exact simulates step' R ok f g h is _ t hi.1 hok'
    | some k =>
      rw [hf] at hi
      obtain ⟨h1, h2⟩ := simulates step' R ok f g h is _ _ hi.1 hok'
      rw [hi.2]
      exact ⟨h1, by simp only [h2, trace_cons]⟩

/-- **Purge**: when every removed input leaves the view alone where it stands, and a kept one acts on the view alone,
the removed inputs do not show in the view.  What is removed may depend on how it was answered. -/
theorem view_purge (view : σ → β) (keep : ι × ο → Bool)
    (hkeep : ∀ s t i, keep (i, (step s i).2) = true → view s = view t → view (step s i).1 = view (step t i).1) :
    ∀ (is : List ι) (s t : σ), view s = view t →
      (∀ (pre : List ι) (i : ι) (post : List ι), is = pre ++ i :: post →
        keep (i, (step (final step s pre) i).2) = false →
          view (step (final step s pre) i).1 = view (final step s pre)) →
      view (final step s is) = view (final step t (((trace step s is).filter keep).map Prod.fst))
  | [], _, _, hv, _ => hv
  | i :: is, s, t, hv, hdrop => by
    have htail : ∀ (pre : List ι) (j : ι) (post : List ι), is = pre ++ j :: post →
        keep (j, (step (final step (step s i).1 pre) j).2) = false →
          view (step (final step (step s i).1 pre) j).1 = view (final step (step s i).1 pre) :=
      fun pre j post hs hj => hdrop (i :: pre) j post (by rw [hs]; rfl) hj
    rw [trace_cons, List.filter_cons, final_cons]
    by_cases hi : keep (i, (step s i).2) = true
    · rw [if_pos hi, List.map_cons, final_cons]
      exact view_purge view keep hkeep is _ _ (hkeep s t i hi hv) htail
    · rw [if_neg hi]
      have hs := hdrop [] i is rfl (by simpa using hi)
      exact view_purge view keep hkeep is _ _ (hs.trans hv) htail

end Served

/-! ## Scheduled: a label may not be enabled -/

section Scheduled
variable {σ α : Type*}

def exec (step : σ → α → Option σ) : σ → List α → Option σ
  | s, [] => some s
  | s, a :: as => (step s a).bind (fun t => exec step t as)

/-- Every step of a run meets `ok`, a condition on its label and the state before it. -/
def Meets (step : σ → α → Option σ) (ok : σ → α → Prop) : σ → List α → Prop
  | _, [] => True
  | s, a :: as => ok s a ∧ ∀ t ∈ step s a, Meets step ok t as

def Meets.decide (step : σ → α → Option σ) (ok : σ → α → Prop) [∀ s a, Decidable (ok s a)] :
    ∀ (s : σ) (as : List α), Decidable (Meets step ok s as)
  | _, [] => isTrue trivial
  | s, a :: as =>
    match h : step s a, (inferInstance : Decidable (ok s a)) with
    | _, isFalse hno => isFalse (fun hm => hno hm.1)
    | none, isTrue hok => isTrue ⟨hok, fun t ht => by rw [h] at ht; cases ht⟩
    | some t, isTrue hok =>
      match Meets.decide step ok t as with
      | isTrue hm => isTrue ⟨hok, fun t' ht => by rw [h] at ht; cases ht; exact hm⟩
      | isFalse hno => isFalse (fun hm => hno (hm.2 t h))

instance (step : σ → α → Option σ) (ok : σ → α → Prop) [∀ s a, Decidable (ok s a)] (s : σ) (as : List α) :
    Decidable (Meets step ok s as) := Meets.decide step ok s as

/-- The states that runs lead to whose every step meets `ok`. -/
inductive ReachIf (init : σ → Prop) (step : σ → α → Option σ) (ok : σ → α → Prop) : σ → Prop
  | start {s : σ} : init s → ReachIf init step ok s
  | next {s t : σ} {a : α} : ReachIf init step ok s → ok s a → step s a = some t → ReachIf init step ok t

abbrev Reach (init : σ → Prop) (step : σ → α → Option σ) : σ → Prop := ReachIf init step (fun _ _ => True)

variable {init : σ → Prop} {step : σ → α → Option σ} {ok : σ → α → Prop}

theorem ReachIf.after {s t : σ} {a : α} (hs : Reach init step s) (h : step s a = some t) : Reach init step t :=
  .next hs trivial h

/-- **The invariant rule.** -/
theorem ReachIf.invariant {I : σ → Prop} (h0 : ∀ s, init s → I s)
    (hstep : ∀ s t a, I s → ok s a → step s a = some t → I t) {s : σ} (hs : ReachIf init step ok s) : I s := by
  induction hs with
  | start h => exact h0 _ h
  | next _ hok h ih => exact hstep _ _ _ ih hok h

theorem ReachIf.reach {s : σ} (hs : ReachIf init step ok s) : Reach init step s :=
  hs.invariant (I := Reach init step) (fun _ => .start) (fun _ _ _ hs _ h => hs.after h)

/-- The invariant rule for an invariant that rests on another. -/
theorem ReachIf.invariant_under {J I : σ → Prop} (hJ : ∀ s, ReachIf init step ok s → J s) (h0 : ∀ s, init s → I s)
    (hstep : ∀ s t a, J s → I s → ok s a → step s a = some t → I t) {s : σ} (hs : ReachIf init step ok s) : I s := by
  induction hs with
  | start h => exact h0 _ h
  | next hs hok h ih => exact hstep _ _ _ (hJ _ hs) ih hok h

theorem exec_singleton {s t : σ} {a : α} (h : step s a = some t) : exec step s [a] = some t := by
  rw [exec, h]; rfl

theorem exec_append : ∀ (as bs : List α) (s : σ),
    exec step s (as ++ bs) = (exec step s as).bind (fun t => exec step t bs)
  | [], _, _ => rfl
  | a :: as, bs, s => by
    rw [List.cons_append, exec, exec, Option.bind_assoc]
    congr 1
    funext t
    exact exec_append as bs t

theorem exec_append_eq_some {as bs : List α} {s t : σ} :
    exec step s (as ++ bs) = some t ↔ ∃ u, exec step s as = some u ∧ exec step u bs = some t := by
  rw [exec_append, Option.bind_eq_some_iff]

theorem exec_concat_eq_some {as : List α} {a : α} {s t : σ} :
    exec step s (as ++ [a]) = some t ↔ ∃ u, exec step s as = some u ∧ step u a = some t := by
  rw [exec_append_eq_some]
  simp only [exec, Option.bind_fun_some]

theorem ReachIf.exec : ∀ (as : List α) {s t : σ}, Reach init step s → exec step s as = some t → Reach init step t
  | [], _, _, hs, h => by cases h; exact hs
  | a :: as, s, t, hs, h => by
    rw [Machine.exec, Option.bind_eq_some_iff] at h
    obtain ⟨u, hu, ht⟩ := h
    exact ReachIf.exec as (hs.after hu) ht

theorem meets_append : ∀ (as bs : List α) (s : σ), Meets step ok s (as ++ bs) →
    Meets step ok s as ∧ ∀ t, exec step s as = some t → Meets step ok t bs
  | [], _, s, h => ⟨trivial, fun t ht => by cases ht; exact h⟩
  | a :: as, bs, s, h => by
    refine ⟨⟨h.1, fun t ht => (meets_append as bs t (h.2 t ht)).1⟩, fun t ht => ?_⟩
    rw [exec, Option.bind_eq_some_iff] at ht
    obtain ⟨u, hu, ht⟩ := ht
    exact (meets_append as bs u (h.2 u hu)).2 t ht

/-- A condition that the labels of a run meet in any state. -/
theorem meets_of_forall : ∀ (as : List α) (s : σ), (∀ a ∈ as, ∀ s, ok s a) → Meets step ok s as
  | [], _, _ => trivial
  | a :: as, s, h =>
    ⟨h a List.mem_cons_self s, fun t _ => meets_of_forall as t (fun b hb => h b (List.mem_cons_of_mem a hb))⟩

theorem meets_imp {ok' : σ → α → Prop} (h : ∀ s a, ok s a → ok' s a) : ∀ (as : List α) (s : σ), Meets step ok s as →
    Meets step ok' s as
  | [], _, _ => trivial
  | a :: as, s, hm => ⟨h s a hm.1, fun t ht => meets_imp h as t (hm.2 t ht)⟩

/-- What is true of every label of a run is a condition that its steps meet. -/
theorem meets_and {q : α → Prop} : ∀ (as : List α) (s : σ), Meets step ok s as → (∀ a ∈ as, q a) →
    Meets step (fun s a => ok s a ∧ q a) s as
  | [], _, _, _ => trivial
  | a :: as, _, h, hq =>
    ⟨⟨h.1, hq a List.mem_cons_self⟩, fun t ht =>
      meets_and as t (h.2 t ht) (fun b hb => hq b (List.mem_cons_of_mem a hb))⟩

/-- **The invariant rule along a run** whose steps meet the condition. -/
theorem exec_invariant {I : σ → Prop} (hstep : ∀ s t a, I s → ok s a → step s a = some t → I t) :
    ∀ (as : List α) {s t : σ}, I s → Meets step ok s as → exec step s as = some t → I t
  | [], _, _, hs, _, h => by cases h; exact hs
  | a :: as, s, t, hs, hok, h => by
    rw [exec, Option.bind_eq_some_iff] at h
    obtain ⟨u, hu, ht⟩ := h
    exact exec_invariant hstep as (hstep s u a hs hok.1 hu) (hok.2 u hu) ht

theorem ReachIf.along {ok' : σ → α → Prop} (hok : ∀ s a, ok' s a → ok s a) (as : List α) {s t : σ}
    (hs : ReachIf init step ok s) (hmeets : Meets step ok' s as) (h : Machine.exec step s as = some t) :
    ReachIf init step ok t :=
  exec_invariant (fun s _ a hs ha hstep => .next hs (hok s a ha) hstep) as hs hmeets h

end Scheduled

end Machine
