import ChatRoom.Machine
/-!
# Refinement — what a run shows, and machines that show no more than others

For scheduled machines.  A step shows an event or nothing (`history`); a machine refines another when each of its steps
is a run of the other that shows the same (`Matched`), which then holds of whole runs (`refines`).
-/
namespace Machine

variable {σ τ α β ε : Type*}

/-- What the steps of a run show, in order. -/
def history (step : σ → α → Option σ) (shows : σ → α → Option ε) : σ → List α → List ε
  | _, [] => []
  | s, a :: as => match step s a with
    | some t => (shows s a).toList ++ history step shows t as
    | none => []

variable {step : σ → α → Option σ} {shows : σ → α → Option ε}

theorem history_cons {s t : σ} {a : α} (h : step s a = some t) (as : List α) :
    history step shows s (a :: as) = (shows s a).toList ++ history step shows t as := by
  rw [history, h]

theorem history_singleton {s t : σ} {a : α} (h : step s a = some t) :
    history step shows s [a] = (shows s a).toList := by
  rw [history_cons h, history, List.append_nil]

theorem history_append : ∀ (as bs : List α) {s t : σ}, exec step s as = some t →
    history step shows s (as ++ bs) = history step shows s as ++ history step shows t bs
  | [], _, _, _, h => by cases h; rfl
  | a :: as, bs, s, t, h => by
    rw [exec, Option.bind_eq_some_iff] at h
    obtain ⟨u, hu, ht⟩ := h
    rw [List.cons_append, history_cons hu, history_cons hu, history_append as bs ht, List.append_assoc]

/-- **The invariant rule for a state with what was shown so far.** -/
theorem history_invariant {I : List ε → σ → Prop}
    (hstep : ∀ h s a t, I h s → step s a = some t → I (h ++ (shows s a).toList) t) (as : List α) :
    ∀ {h : List ε} {s t : σ}, I h s → exec step s as = some t → I (h ++ history step shows s as) t := by
  induction as with
  | nil =>
    intro h s t hI hexec
    cases hexec
    rw [history, List.append_nil]
    exact hI
  | cons a as ih =>
    intro h s t hI hexec
    rw [exec, Option.bind_eq_some_iff] at hexec
    obtain ⟨u, hu, ht⟩ := hexec
    rw [history_cons hu, ← List.append_assoc]
    exact ih (hstep h s a u hI hu) ht

/-- **A history is cut where its run is.** -/
theorem history_split : ∀ (as : List α) {s t : σ} {pre post : List ε} {e : ε}, exec step s as = some t →
    history step shows s as = pre ++ e :: post →
    ∃ before a after u v, as = before ++ a :: after ∧ exec step s before = some u ∧ step u a = some v ∧
      exec step v after = some t ∧ shows u a = some e ∧ history step shows s before = pre ∧
      history step shows v after = post
  | [], _, _, pre, post, e, _, h => by cases pre <;> cases h
  | a :: as, s, t, pre, post, e, hexec, h => by
    rw [exec, Option.bind_eq_some_iff] at hexec
    obtain ⟨u, hu, ht⟩ := hexec
    rw [history_cons hu] at h
    cases hs : shows s a with
    | none =>
      rw [hs] at h
      obtain ⟨before, b, after, v, w, has, hv, hw, ht', hshow, hpre, hpost⟩ := history_split as ht h
      refine ⟨a :: before, b, after, v, w, by rw [has]; rfl, by rw [exec, hu]; exact hv, hw, ht', hshow, ?_, hpost⟩
      rw [history_cons hu, hs, hpre]
      rfl
    | some d =>
      rw [hs, Option.toList_some, List.singleton_append] at h
      cases pre with
      | nil =>
        cases h
        exact ⟨[], a, as, s, u, rfl, rfl, hu, ht, hs, rfl, rfl⟩
      | cons d' pre =>
        rw [List.cons_append, List.cons.injEq] at h
        obtain ⟨rfl, hrest⟩ := h
        obtain ⟨before, b, after, v, w, has, hv, hw, ht', hshow, hpre, hpost⟩ := history_split as ht hrest
        refine ⟨a :: before, b, after, v, w, by rw [has]; rfl, by rw [exec, hu]; exact hv, hw, ht', hshow, ?_, hpost⟩
        rw [history_cons hu, hs, hpre]
        rfl

/-- A step that led to `s'` and showed `e` is a run from `t` that shows the same. -/
def Matched (step' : τ → β → Option τ) (shows' : τ → β → Option ε) (R : σ → τ → Prop) (s' : σ) (t : τ) (e : Option ε) :
    Prop :=
  ∃ bs t', exec step' t bs = some t' ∧ R s' t' ∧ history step' shows' t bs = e.toList

variable {step' : τ → β → Option τ} {shows' : τ → β → Option ε} {ok : σ → α → Prop} {R : σ → τ → Prop}

theorem Matched.stutter {s' : σ} {t : τ} (h : R s' t) : Matched step' shows' R s' t none := ⟨[], t, rfl, h, rfl⟩

theorem Matched.one {s' : σ} {t t' : τ} {b : β} (hb : step' t b = some t') (h : R s' t') :
    Matched step' shows' R s' t (shows' t b) :=
  ⟨[b], t', exec_singleton hb, h, history_singleton hb⟩

theorem meets_true (as : List α) (s : σ) : Meets step (fun _ _ => True) s as :=
  meets_of_forall as s (fun _ _ _ => trivial)

/-- **The refinement rule**: where each step is matched, each run is. -/
theorem refines
    (h : ∀ s t a s', R s t → ok s a → step s a = some s' → Matched step' shows' R s' t (shows s a)) :
    ∀ (as : List α) {s s' : σ} {t : τ}, R s t → Meets step ok s as → exec step s as = some s' →
      ∃ bs t', exec step' t bs = some t' ∧ R s' t' ∧ history step' shows' t bs = history step shows s as
  | [], _, _, t, hR, _, hs => by cases hs; exact ⟨[], t, rfl, hR, rfl⟩
  | a :: as, s, s', t, hR, hok, hs => by
    rw [exec, Option.bind_eq_some_iff] at hs
    obtain ⟨u, hu, hs⟩ := hs
    obtain ⟨bs, v, hv, hRu, hfirst⟩ := h s t a u hR hok.1 hu
    obtain ⟨cs, t', ht', hR', hrest⟩ := refines h as hRu (hok.2 u hu) hs
    refine ⟨bs ++ cs, t', exec_append_eq_some.2 ⟨v, hv, ht'⟩, hR', ?_⟩
    rw [history_append bs cs hv, hfirst, hrest, history_cons hu]

end Machine
