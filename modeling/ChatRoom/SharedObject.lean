import ChatRoom.Refinement
import Mathlib.Logic.Function.Basic
/-!
# SharedObject — an object that many clients call

Each client makes one call at a time.  A call is carried out in moments, at each of which it reads or changes the object
at once, and the last of which answers it; between them the calls of the others go on.  An object whose calls have one
moment each is atomic, and a history of calls and returns that an atomic object can show is linearizable.  What an
answer says for good is true of the object from then on (`recorded`) and shows in the answers of later calls
(`answered_after`); a token that is given once is claimed by one return at most (`claimed_once`).
-/
namespace SharedObject

variable {κ δ ο ψ ρ : Type*}

/-- Where a client is: in no call, in one that is so far along, or in one that is answered and did not return yet. -/
inductive Phase (ο ψ ρ : Type*)
  | idle
  | working (op : ο) (progress : ψ)
  | answered (op : ο) (result : ρ)

structure Shared (κ δ ο ψ ρ : Type*) where
  object : δ
  phase : κ → Phase ο ψ ρ

inductive Act (κ ο : Type*)
  | call (c : κ) (op : ο)
  | moment (c : κ)
  | ret (c : κ)

/-- What the clients see. -/
inductive Event (κ ο ρ : Type*)
  | called (c : κ) (op : ο)
  | returned (c : κ) (op : ο) (result : ρ)

def start (d : δ) : Shared κ δ ο ψ ρ := ⟨d, fun _ => .idle⟩

/-- Where a moment leaves its call. -/
def outcome (op : ο) : ψ ⊕ ρ → Phase ο ψ ρ := Sum.elim (.working op) (.answered op)

def shows (s : Shared κ δ ο ψ ρ) : Act κ ο → Option (Event κ ο ρ)
  | .call c op => some (.called c op)
  | .moment _ => none
  | .ret c =>
    match s.phase c with
    | .answered op r => some (.returned c op r)
    | _ => none

theorem answered_of_shows {s : Shared κ δ ο ψ ρ} {a : Act κ ο} {c : κ} {op : ο} {r : ρ}
    (h : shows s a = some (.returned c op r)) :
    s.phase c = .answered op r := by
  cases a with
  | call c' op' => cases h
  | moment c' => cases h
  | ret c' =>
    simp only [shows] at h
    split at h
    · rename_i hc
      cases h
      exact hc
    · cases h

variable [DecidableEq κ]

def Shared.goto (s : Shared κ δ ο ψ ρ) (c : κ) (ph : Phase ο ψ ρ) : Shared κ δ ο ψ ρ :=
  { s with phase := Function.update s.phase c ph }

variable (begins : ψ) (moment : δ → κ × ο → ψ → δ × (ψ ⊕ ρ))

def step (s : Shared κ δ ο ψ ρ) : Act κ ο → Option (Shared κ δ ο ψ ρ)
  | .call c op =>
    match s.phase c with
    | .idle => some (s.goto c (.working op begins))
    | _ => none
  | .moment c =>
    match s.phase c with
    | .working op p =>
      some (Shared.goto { s with object := (moment s.object (c, op) p).1 } c (outcome op (moment s.object (c, op) p).2))
    | _ => none
  | .ret c =>
    match s.phase c with
    | .answered _ _ => some (s.goto c .idle)
    | _ => none

/-- What each step needs, does and shows. -/
inductive Step (s : Shared κ δ ο ψ ρ) : Act κ ο → Shared κ δ ο ψ ρ → List (Event κ ο ρ) → Prop
  | call (c : κ) (op : ο) (hc : s.phase c = .idle) : Step s (.call c op) (s.goto c (.working op begins)) [.called c op]
  | moment (c : κ) (op : ο) (p : ψ) (hc : s.phase c = .working op p) :
    Step s (.moment c)
      (Shared.goto { s with object := (moment s.object (c, op) p).1 } c (outcome op (moment s.object (c, op) p).2)) []
  | ret (c : κ) (op : ο) (r : ρ) (hc : s.phase c = .answered op r) :
    Step s (.ret c) (s.goto c .idle) [.returned c op r]

variable {begins moment}

theorem step_cases {s t : Shared κ δ ο ψ ρ} {a : Act κ ο} (h : step begins moment s a = some t) :
    Step begins moment s a t (shows s a).toList := by
  cases a with
  | call c op =>
    simp only [step] at h
    split at h
    · rename_i hc; cases h; exact .call c op hc
    · cases h
  | moment c =>
    simp only [step] at h
    split at h
    · rename_i op p hc; cases h; exact .moment c op p hc
    · cases h
  | ret c =>
    simp only [step] at h
    split at h
    · rename_i op r hc
      cases h
      have hshow : shows s (.ret c) = some (.returned c op r) := by simp only [shows, hc]
      rw [hshow]
      exact .ret c op r hc
    · cases h

theorem goto_phase_self (s : Shared κ δ ο ψ ρ) (c : κ) (ph : Phase ο ψ ρ) : (s.goto c ph).phase c = ph :=
  Function.update_self ..

theorem goto_phase_of_ne (s : Shared κ δ ο ψ ρ) {c c' : κ} (h : c' ≠ c) (ph : Phase ο ψ ρ) :
    (s.goto c ph).phase c' = s.phase c' := Function.update_of_ne h ..

/-! ## What answers say for good -/

/-- The call `op` of client `c` was answered `r`, whether it returned yet or not. -/
def Told (h : List (Event κ ο ρ)) (s : Shared κ δ ο ψ ρ) (c : κ) (op : ο) (r : ρ) : Prop :=
  .returned c op r ∈ h ∨ s.phase c = .answered op r

theorem outcome_eq_answered {op op' : ο} {o : ψ ⊕ ρ} {r : ρ} (h : outcome op o = .answered op' r) :
    op = op' ∧ o = .inr r := by
  cases o with
  | inl p => cases h
  | inr r' => cases h; exact ⟨rfl, rfl⟩

/-- **An answer was given before, or at this moment.** -/
theorem told_step {h : List (Event κ ο ρ)} {s t : Shared κ δ ο ψ ρ} {a : Act κ ο} {es : List (Event κ ο ρ)}
    (hstep : Step begins moment s a t es) {c : κ} {op : ο} {r : ρ} (ht : Told (h ++ es) t c op r) :
    Told h s c op r ∨
      ∃ p, (moment s.object (c, op) p).2 = .inr r ∧ t.object = (moment s.object (c, op) p).1 := by
  cases hstep with
  | call c' op' hc =>
    rcases ht with hmem | hphase
    · simp only [List.mem_append, List.mem_singleton, reduceCtorEq, or_false] at hmem
      exact .inl (.inl hmem)
    · by_cases hcc : c = c'
      · subst hcc; rw [goto_phase_self] at hphase; cases hphase
      · rw [goto_phase_of_ne s hcc] at hphase; exact .inl (.inr hphase)
  | moment c' op' p hc =>
    rw [List.append_nil] at ht
    rcases ht with hmem | hphase
    · exact .inl (.inl hmem)
    · by_cases hcc : c = c'
      · subst hcc
        rw [goto_phase_self] at hphase
        obtain ⟨rfl, hr⟩ := outcome_eq_answered hphase
        exact .inr ⟨p, hr, rfl⟩
      · rw [goto_phase_of_ne _ hcc] at hphase; exact .inl (.inr hphase)
  | ret c' op' r' hc =>
    rcases ht with hmem | hphase
    · rcases List.mem_append.1 hmem with hmem | hmem
      · exact .inl (.inl hmem)
      · cases List.mem_singleton.1 hmem; exact .inl (.inr hc)
    · by_cases hcc : c = c'
      · subst hcc; rw [goto_phase_self] at hphase; cases hphase
      · rw [goto_phase_of_ne s hcc] at hphase; exact .inl (.inr hphase)

/-- **What no moment undoes**, no step does. -/
theorem object_step {P : δ → Prop} (hkeep : ∀ d x p, P d → P (moment d x p).1) {s t : Shared κ δ ο ψ ρ} {a : Act κ ο}
    {es : List (Event κ ο ρ)} (hs : P s.object) (hstep : Step begins moment s a t es) : P t.object := by
  cases hstep with
  | call c op hc => exact hs
  | moment c op p hc => exact hkeep s.object (c, op) p hs
  | ret c op r hc => exact hs

variable {I P : δ → Prop}

/-- **What an answer says for good** is true of the object ever after. -/
theorem recorded {c : κ} {op : ο} {r : ρ} (hI : ∀ d x p, I d → I (moment d x p).1)
    (hP : ∀ d x p, I d → P d → P (moment d x p).1)
    (hgives : ∀ d p, I d → (moment d (c, op) p).2 = .inr r → P (moment d (c, op) p).1) (as : List (Act κ ο)) {d : δ}
    (hd : I d) {s : Shared κ δ ο ψ ρ} (hs : Machine.exec (step begins moment) (start d) as = some s)
    (ht : Told (Machine.history (step begins moment) shows (start d) as) s c op r) : P s.object := by
  have hstart : I (start d : Shared κ δ ο ψ ρ).object ∧ (Told [] (start d : Shared κ δ ο ψ ρ) c op r → P d) := by
    refine ⟨hd, fun ht => ?_⟩
    rcases ht with hmem | hphase
    · cases hmem
    · cases hphase
  refine (Machine.history_invariant (h := []) (I := fun h s => I s.object ∧ (Told h s c op r → P s.object))
    (fun h s a t hs hstep => ⟨object_step hI hs.1 (step_cases hstep), fun ht => ?_⟩) as hstart hs).2 ht
  rcases told_step (step_cases hstep) ht with ht | ⟨p, hr, hobject⟩
  · exact (object_step (P := fun d => I d ∧ P d) (fun d x p h => ⟨hI d x p h.1, hP d x p h.1 h.2⟩) ⟨hs.1, hs.2 ht⟩
      (step_cases hstep)).2
  · rw [hobject]
    exact hgives s.object p hs.1 hr

/-! ## A token that is given once -/

/-- A return that claims the token. -/
def Claims (claim : κ → ο → ρ → Prop) : Event κ ο ρ → Prop
  | .called _ _ => False
  | .returned c op r => claim c op r

/-- The claims so far: any means that the token is taken, and those that did not return are of one client, after no
other. -/
structure Claimed (claim : κ → ο → ρ → Prop) (taken : δ → Prop) (h : List (Event κ ο ρ)) (s : Shared κ δ ο ψ ρ) :
    Prop where
  taken : ∀ c op r, Told h s c op r → claim c op r → taken s.object
  first : ∀ c op r, s.phase c = .answered op r → claim c op r → ∀ e ∈ h, ¬ Claims claim e
  alone : ∀ c op r c' op' r', s.phase c = .answered op r → claim c op r → s.phase c' = .answered op' r' →
    claim c' op' r' → c = c'
  once : h.Pairwise (fun e e' => ¬ (Claims claim e ∧ Claims claim e'))

variable {claim : κ → ο → ρ → Prop} {taken : δ → Prop}

theorem claimed_step (hclaim : ∀ d c op p r, (moment d (c, op) p).2 = .inr r → claim c op r →
      ¬ taken d ∧ taken (moment d (c, op) p).1)
    (hkeep : ∀ d x p, taken d → taken (moment d x p).1) {h : List (Event κ ο ρ)} {s t : Shared κ δ ο ψ ρ} {a : Act κ ο}
    {es : List (Event κ ο ρ)} (hs : Claimed claim taken h s) (hstep : Step begins moment s a t es) :
    Claimed claim taken (h ++ es) t := by
  have htaken : ∀ c op r, Told (h ++ es) t c op r → claim c op r → taken t.object := by
    intro c op r ht hc
    rcases told_step hstep ht with ht | ⟨p, hr, hobject⟩
    · exact object_step hkeep (hs.taken c op r ht hc) hstep
    · rw [hobject]; exact (hclaim s.object c op p r hr hc).2
  cases hstep with
  | call c' op' hc' =>
    have hphase : ∀ c op r, (s.goto c' (.working op' begins)).phase c = .answered op r →
        s.phase c = .answered op r := by
      intro c op r hc
      by_cases hcc : c = c'
      · subst hcc; rw [goto_phase_self] at hc; cases hc
      · rwa [goto_phase_of_ne s hcc] at hc
    refine ⟨htaken, fun c op r hc hclaims e he => ?_, fun c op r c₂ op₂ r₂ hc hclaims hc₂ => ?_, ?_⟩
    · rcases List.mem_append.1 he with he | he
      · exact hs.first c op r (hphase c op r hc) hclaims e he
      · cases List.mem_singleton.1 he; exact id
    · exact hs.alone c op r c₂ op₂ r₂ (hphase c op r hc) hclaims (hphase c₂ op₂ r₂ hc₂)
    · refine List.pairwise_append.2 ⟨hs.once, List.pairwise_singleton .., fun e _ e' he' hboth => ?_⟩
      cases List.mem_singleton.1 he'
      exact hboth.2
  | moment c' op' p hc' =>
    rw [List.append_nil] at htaken ⊢
    -- an answer given now claims a token that nobody has claimed
    have hnow : ∀ c op r, Phase.answered op r =
        (Shared.goto { s with object := (moment s.object (c', op') p).1 } c'
          (outcome op' (moment s.object (c', op') p).2)).phase c → claim c op r →
        (s.phase c = .answered op r ∧ c ≠ c') ∨ (c = c' ∧ ¬ taken s.object) := by
      intro c op r hc hclaims
      by_cases hcc : c = c'
      · subst hcc
        rw [goto_phase_self] at hc
        obtain ⟨rfl, hr⟩ := outcome_eq_answered hc.symm
        exact .inr ⟨rfl, (hclaim s.object c op' p r hr hclaims).1⟩
      · rw [goto_phase_of_ne _ hcc] at hc
        exact .inl ⟨hc.symm, hcc⟩
    refine ⟨htaken, fun c op r hc hclaims e he => ?_, fun c op r c₂ op₂ r₂ hc hclaims hc₂ hclaims₂ => ?_, hs.once⟩
    · rcases hnow c op r hc.symm hclaims with ⟨hc, -⟩ | ⟨-, hfree⟩
      · exact hs.first c op r hc hclaims e he
      · cases e with
        | called => exact id
        | returned c₂ op₂ r₂ => exact fun hclaims₂ => hfree (hs.taken c₂ op₂ r₂ (.inl he) hclaims₂)
    · rcases hnow c op r hc.symm hclaims with ⟨hold, -⟩ | ⟨rfl, hfree⟩
      · rcases hnow c₂ op₂ r₂ hc₂.symm hclaims₂ with ⟨hold₂, -⟩ | ⟨rfl, hfree⟩
        · exact hs.alone c op r c₂ op₂ r₂ hold hclaims hold₂ hclaims₂
        · exact absurd (hs.taken c op r (.inr hold) hclaims) hfree
      · rcases hnow c₂ op₂ r₂ hc₂.symm hclaims₂ with ⟨hold₂, -⟩ | ⟨rfl, -⟩
        · exact absurd (hs.taken c₂ op₂ r₂ (.inr hold₂) hclaims₂) hfree
        · rfl
  | ret c' op' r' hc' =>
    have hphase : ∀ c op r, (s.goto c' .idle).phase c = .answered op r → s.phase c = .answered op r ∧ c ≠ c' := by
      intro c op r hc
      by_cases hcc : c = c'
      · subst hcc; rw [goto_phase_self] at hc; cases hc
      · rw [goto_phase_of_ne s hcc] at hc; exact ⟨hc, hcc⟩
    refine ⟨htaken, fun c op r hc hclaims e he => ?_, fun c op r c₂ op₂ r₂ hc hclaims hc₂ => ?_, ?_⟩
    · obtain ⟨hc, hne⟩ := hphase c op r hc
      rcases List.mem_append.1 he with he | he
      · exact hs.first c op r hc hclaims e he
      · cases List.mem_singleton.1 he
        exact fun hclaims' => hne (hs.alone c op r c' op' r' hc hclaims hc' hclaims')
    · exact hs.alone c op r c₂ op₂ r₂ (hphase c op r hc).1 hclaims (hphase c₂ op₂ r₂ hc₂).1
    · refine List.pairwise_append.2 ⟨hs.once, List.pairwise_singleton .., fun e he e' he' hboth => ?_⟩
      cases List.mem_singleton.1 he'
      exact hs.first c' op' r' hc' hboth.2 e he hboth.1

/-- **A token that is given once is claimed by one return at most.** -/
theorem claimed_once (hclaim : ∀ d c op p r, (moment d (c, op) p).2 = .inr r → claim c op r →
      ¬ taken d ∧ taken (moment d (c, op) p).1)
    (hkeep : ∀ d x p, taken d → taken (moment d x p).1) (as : List (Act κ ο)) {d : δ} {s : Shared κ δ ο ψ ρ}
    (hs : Machine.exec (step begins moment) (start d) as = some s) :
    (Machine.history (step begins moment) shows (start d) as).Pairwise
      (fun e e' => ¬ (Claims claim e ∧ Claims claim e')) := by
  have hstart : Claimed claim taken [] (start d : Shared κ δ ο ψ ρ) := by
    refine ⟨fun c op r ht => ?_, nofun, nofun, List.Pairwise.nil⟩
    rcases ht with hmem | hphase
    · cases hmem
    · cases hphase
  exact (Machine.history_invariant (h := []) (I := Claimed claim taken)
    (fun h s a t hI hstep => claimed_step hclaim hkeep hI (step_cases hstep)) as hstart hs).once

/-! ## What holds when a call is made -/

/-- The call `op` goes on as `Q` says, or is answered well. -/
def OnCourse (Q : ψ → Prop) (good : ρ → Prop) (op : ο) : Phase ο ψ ρ → Prop
  | .idle => False
  | .working op' p => op' = op ∧ Q p
  | .answered op' r => op' = op ∧ good r

variable {Q : ψ → Prop} {good : ρ → Prop} {c : κ} {op : ο}

/-- **A call stays on course until it returns.** -/
theorem onCourse_step (hmoment : ∀ d p, P d → Q p → (∀ p', (moment d (c, op) p).2 = .inl p' → Q p') ∧
      ∀ r, (moment d (c, op) p).2 = .inr r → good r)
    {s t : Shared κ δ ο ψ ρ} {a : Act κ ο} {es : List (Event κ ο ρ)} (hP : P s.object)
    (hs : OnCourse Q good op (s.phase c)) (hstep : Step begins moment s a t es) :
    OnCourse Q good op (t.phase c) ∨ ∃ op' r', .returned c op' r' ∈ es := by
  cases hstep with
  | call c' op' hc' =>
    have hne : c ≠ c' := by
      rintro rfl
      rw [hc'] at hs
      exact hs
    rw [goto_phase_of_ne s hne]
    exact .inl hs
  | moment c' op' p hc' =>
    by_cases hcc : c = c'
    · subst hcc
      rw [hc'] at hs
      obtain ⟨rfl, hQ⟩ := hs
      have hnow := hmoment s.object p hP hQ
      rw [goto_phase_self]
      cases ho : (moment s.object (c, op') p).2 with
      | inl p' => exact .inl ⟨rfl, hnow.1 p' ho⟩
      | inr r => exact .inl ⟨rfl, hnow.2 r ho⟩
    · rw [goto_phase_of_ne _ hcc]
      exact .inl hs
  | ret c' op' r' hc' =>
    by_cases hcc : c = c'
    · subst hcc
      exact .inr ⟨op', r', List.mem_singleton_self _⟩
    · rw [goto_phase_of_ne s hcc]
      exact .inl hs

/-- **What holds for good when a call is made shows in its answer.** -/
theorem answered_under (hkeep : ∀ d x p, P d → P (moment d x p).1) (hbegins : Q begins)
    (hmoment : ∀ d p, P d → Q p → (∀ p', (moment d (c, op) p).2 = .inl p' → Q p') ∧
      ∀ r, (moment d (c, op) p).2 = .inr r → good r)
    (as : List (Act κ ο)) {s u t : Shared κ δ ο ψ ρ} (hP : P s.object)
    (hcall : step begins moment s (.call c op) = some u) (ht : Machine.exec (step begins moment) u as = some t)
    {mid post : List (Event κ ο ρ)} {op' : ο} {r : ρ}
    (hh : Machine.history (step begins moment) shows u as = mid ++ .returned c op' r :: post)
    (hmid : ∀ op' r', .returned c op' r' ∉ mid) : op' = op ∧ good r := by
  obtain ⟨before, a, after, v, w, -, hv, -, -, hshow, hpre, -⟩ := Machine.history_split as ht hh
  have hu : OnCourse Q good op (u.phase c) := by
    cases step_cases hcall with
    | call _ _ hc => rw [goto_phase_self]; exact ⟨rfl, hbegins⟩
  have hcourse : P v.object ∧ (OnCourse Q good op (v.phase c) ∨ ∃ op' r', Event.returned c op' r' ∈ [] ++ mid) := by
    rw [← hpre]
    refine Machine.history_invariant
      (I := fun h v => P v.object ∧ (OnCourse Q good op (v.phase c) ∨ ∃ op' r', Event.returned c op' r' ∈ h))
      (fun h s a t hI hstep => ⟨object_step hkeep hI.1 (step_cases hstep), ?_⟩) before
      ⟨object_step hkeep hP (step_cases hcall), .inl hu⟩ hv
    rcases hI.2 with hs | ⟨op', r', hmem⟩
    · rcases onCourse_step hmoment hI.1 hs (step_cases hstep) with ht | ⟨op', r', hmem⟩
      · exact .inl ht
      · exact .inr ⟨op', r', List.mem_append_right _ hmem⟩
    · exact .inr ⟨op', r', List.mem_append_left _ hmem⟩
  rcases hcourse.2 with hs | ⟨op', r', hmem⟩
  · rw [answered_of_shows hshow] at hs
    exact hs
  · exact absurd hmem (hmid op' r')

/-- **What one answer says for good shows in every call made after it.** -/
theorem answered_after {c' : κ} {op' : ο} {r' : ρ} (hI : ∀ d x p, I d → I (moment d x p).1)
    (hP : ∀ d x p, I d → P d → P (moment d x p).1)
    (hgives : ∀ d p, I d → (moment d (c', op') p).2 = .inr r' → P (moment d (c', op') p).1) (hbegins : Q begins)
    (hmoment : ∀ d p, I d → P d → Q p → (∀ p', (moment d (c, op) p).2 = .inl p' → Q p') ∧
      ∀ r, (moment d (c, op) p).2 = .inr r → good r)
    (as : List (Act κ ο)) {d : δ} (hd : I d) {t : Shared κ δ ο ψ ρ}
    (ht : Machine.exec (step begins moment) (start d) as = some t) {pre mid mid' post : List (Event κ ο ρ)}
    {op'' : ο} {r : ρ}
    (hh : Machine.history (step begins moment) shows (start d) as =
      pre ++ .returned c' op' r' :: mid ++ .called c op :: mid' ++ .returned c op'' r :: post)
    (hmid : ∀ op r, .returned c op r ∉ mid') : op'' = op ∧ good r := by
  rw [List.append_assoc, List.cons_append] at hh
  obtain ⟨before, a, after, u, v, has, hu, hv, ht, hshow, hpre, hpost⟩ := Machine.history_split as ht hh
  have hkept : I u.object ∧ P u.object := by
    refine ⟨?_, recorded hI hP hgives before hd hu (.inl ?_)⟩
    · exact Machine.exec_invariant (I := fun s => I s.object)
        (fun _ _ _ hs _ hstep => object_step hI hs (step_cases hstep)) before hd (Machine.meets_true before _) hu
    · rw [hpre]
      exact List.mem_append_right _ List.mem_cons_self
  obtain rfl : a = .call c op := by
    cases a with
    | call c₂ op₂ => cases hshow; rfl
    | moment c₂ => cases hshow
    | ret c₂ =>
      simp only [shows] at hshow
      split at hshow <;> cases hshow
  exact answered_under (P := fun d => I d ∧ P d) (fun d x p h => ⟨hI d x p h.1, hP d x p h.1 h.2⟩) hbegins
    (fun d p h => hmoment d p h.1 h.2) after hkept hv ht hpost hmid

/-! ## Atomic objects -/

/-- A call that is carried out at one moment. -/
def atomic (apply : δ → κ × ο → δ × ρ) (d : δ) (x : κ × ο) (_ : Unit) : δ × (Unit ⊕ ρ) :=
  ((apply d x).1, .inr (apply d x).2)

/-- The history of an object whose calls are atomic: each takes effect at one moment between its call and its return. -/
def Linearizable (apply : δ → κ × ο → δ × ρ) (d : δ) (h : List (Event κ ο ρ)) : Prop :=
  ∃ as s, Machine.exec (step () (atomic apply)) (start d) as = some s ∧
    Machine.history (step () (atomic apply)) shows (start d) as = h

end SharedObject
