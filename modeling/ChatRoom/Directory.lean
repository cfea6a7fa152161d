import ChatRoom.Machine
import Mathlib.Logic.Function.Basic
/-!
# Directory — who is enrolled, with what secret, and where

The abstract component: names enrol once with a secret, enter at an endpoint by showing it, leave, and are asked for.
Over arbitrary names, secrets and endpoints.  Its state is characterised by its history alone: a name's secret is that
of its first enrolment (`final_secretOf`), its presence that of the last successful entering or leaving
(`final_presenceOf`), and every answer follows from the two (`trace_answers`).
-/
namespace Directory

variable {ν π ε : Type*}

/-- What is held of an enrolled name: its secret and, while it is present, its endpoint. -/
structure Account (π ε : Type*) where
  secret : π
  presence : Option ε

abbrev Dir (ν π ε : Type*) := ν → Option (Account π ε)

inductive Op (ν π ε : Type*)
  | enrol (n : ν) (p : π)
  | enter (n : ν) (p : π) (e : ε)
  | leave (n : ν)
  | ask (n : ν)

inductive Answer (ε : Type*)
  | done (ok : Bool)
  | found (e : Option ε)
  deriving DecidableEq

def Dir.empty : Dir ν π ε := fun _ => none

def secretOf (d : Dir ν π ε) (n : ν) : Option π := (d n).map Account.secret

def presenceOf (d : Dir ν π ε) (n : ν) : Option ε := (d n).bind Account.presence

variable [DecidableEq ν]

theorem secretOf_update (d : Dir ν π ε) (n m : ν) (acc : Account π ε) :
    secretOf (Function.update d n (some acc)) m = if n = m then some acc.secret else secretOf d m := by
  unfold secretOf
  by_cases h : n = m
  · subst h; simp
  · rw [Function.update_of_ne (Ne.symm h), if_neg h]

theorem presenceOf_update (d : Dir ν π ε) (n m : ν) (acc : Account π ε) :
    presenceOf (Function.update d n (some acc)) m = if n = m then acc.presence else presenceOf d m := by
  unfold presenceOf
  by_cases h : n = m
  · subst h; simp
  · rw [Function.update_of_ne (Ne.symm h), if_neg h]

/-- The secret an operation would give a name that has none. -/
def enrolment (n : ν) : Op ν π ε → Option π
  | .enrol n' p => if n' = n then some p else none
  | _ => none

/-- What an answered operation makes of a name's presence. -/
def movement (n : ν) : Op ν π ε × Answer ε → Option (Option ε)
  | (.enter n' _ e, .done true) => if n' = n then some (some e) else none
  | (.leave n', .done true) => if n' = n then some none else none
  | _ => none

theorem enter_of_movement {n : ν} {op : Op ν π ε} {a : Answer ε} {e : ε} (h : movement n (op, a) = some (some e)) :
    ∃ p, op = .enter n p e := by
  unfold movement at h
  split at h
  · rename_i heq
    split at h
    · rename_i hn
      subst hn
      cases heq
      cases h
      exact ⟨_, rfl⟩
    · cases h
  · split at h <;> cases h
  · cases h

theorem leave_of_movement {n : ν} {op : Op ν π ε} {a : Answer ε} (h : movement n (op, a) = some none) :
    op = .leave n ∧ a = .done true := by
  unfold movement at h
  split at h
  · split at h <;> cases h
  · rename_i heq
    split at h
    · rename_i hn
      subst hn
      cases heq
      exact ⟨rfl, rfl⟩
    · cases h
  · cases h

variable [DecidableEq π]

def step (d : Dir ν π ε) : Op ν π ε → Dir ν π ε × Answer ε
  | .enrol n p =>
    match d n with
    | some _ => (d, .done false)
    | none => (Function.update d n (some ⟨p, none⟩), .done true)
  | .enter n p e =>
    match d n with
    | some acc =>
      if acc.secret = p then (Function.update d n (some ⟨acc.secret, some e⟩), .done true) else (d, .done false)
    | none => (d, .done false)
  | .leave n =>
    match d n with
    | some ⟨p, some _⟩ => (Function.update d n (some ⟨p, none⟩), .done true)
    | _ => (d, .done false)
  | .ask n => (d, .found (presenceOf d n))

/-! ## The two components, step by step -/

/-- **A secret is given once.** -/
theorem secretOf_step (d : Dir ν π ε) (op : Op ν π ε) (n : ν) :
    secretOf (step d op).1 n = (secretOf d n).or (enrolment n op) := by
  have hnone : ∀ m, d m = none → secretOf d m = none := fun m hm => by unfold secretOf; rw [hm]; rfl
  have hsome : ∀ m acc, d m = some acc → secretOf d m = some acc.secret := fun m acc hm => by
    unfold secretOf
    rw [hm]
    rfl
  cases op with
  | enrol m p =>
    simp only [step, enrolment]
    by_cases hmn : m = n
    · subst hmn
      cases hm : d m with
      | none => simp [secretOf_update, hnone m hm]
      | some acc => simp [hsome m acc hm]
    · cases hm : d m with
      | none => simp [secretOf_update, hmn]
      | some acc => simp [hmn]
  | enter m p e =>
    simp only [step, enrolment, Option.or_none]
    cases hm : d m with
    | none => rfl
    | some acc =>
      dsimp only
      split
      · rw [secretOf_update]
        split
        · rename_i hmn; rw [← hmn, hsome m acc hm]
        · rfl
      · rfl
  | leave m =>
    simp only [step, enrolment, Option.or_none]
    split
    · rename_i p e hm
      rw [secretOf_update]
      split
      · rename_i hmn; rw [← hmn, hsome m _ hm]
      · rfl
    · rfl
  | ask m => simp [step, enrolment]

/-- **Presence changes at a successful entering or leaving, and at nothing else.** -/
theorem presenceOf_step (d : Dir ν π ε) (op : Op ν π ε) (n : ν) :
    presenceOf (step d op).1 n = (movement n (op, (step d op).2)).getD (presenceOf d n) := by
  cases op with
  | enrol m p =>
    simp only [step]
    cases hm : d m with
    | some acc => rfl
    | none =>
      simp only [movement, Option.getD_none]
      rw [presenceOf_update]
      split
      · rename_i hmn; rw [← hmn]; unfold presenceOf; rw [hm]; rfl
      · rfl
  | enter m p e =>
    simp only [step]
    cases hm : d m with
    | none => rfl
    | some acc =>
      dsimp only
      split
      · rw [presenceOf_update]
        by_cases hmn : m = n <;> simp [movement, hmn]
      · rfl
  | leave m =>
    simp only [step]
    split
    · rw [presenceOf_update]
      by_cases hmn : m = n <;> simp [movement, hmn]
    · rfl
  | ask m => rfl

/-! ## By history -/

def firstSecret (n : ν) (past : List (Op ν π ε × Answer ε)) : Option π := (past.map Prod.fst).findSome? (enrolment n)

def lastPresence (n : ν) (past : List (Op ν π ε × Answer ε)) : Option ε :=
  ((past.filterMap (movement n)).getLast?).getD none

/-- What the history says an operation is answered. -/
def answer (past : List (Op ν π ε × Answer ε)) : Op ν π ε → Answer ε
  | .enrol n _ => .done (firstSecret n past).isNone
  | .enter n p _ => .done (firstSecret n past = some p)
  | .leave n => .done (lastPresence n past).isSome
  | .ask n => .found (lastPresence n past)

theorem final_secretOf (ops : List (Op ν π ε)) (n : ν) :
    secretOf (Machine.final step Dir.empty ops) n = firstSecret n (Machine.trace step Dir.empty ops) := by
  rw [Machine.final_firstWrite step (fun d => secretOf d n) (enrolment n) (fun d op => secretOf_step d op n)]
  unfold firstSecret
  rw [Machine.map_fst_trace]
  rfl

theorem final_presenceOf (ops : List (Op ν π ε)) (n : ν) :
    presenceOf (Machine.final step Dir.empty ops) n = lastPresence n (Machine.trace step Dir.empty ops) :=
  Machine.final_lastWrite step (fun d => presenceOf d n) (movement n) (fun d op => presenceOf_step d op n) ops Dir.empty

theorem step_answer (d : Dir ν π ε) (op : Op ν π ε) :
    (step d op).2 = match op with
      | .enrol n _ => .done (secretOf d n).isNone
      | .enter n p _ => .done (secretOf d n = some p)
      | .leave n => .done (presenceOf d n).isSome
      | .ask n => .found (presenceOf d n) := by
  cases op with
  | enrol n p => simp only [step, secretOf]; cases d n <;> rfl
  | enter n p e =>
    cases hn : d n with
    | none => simp [step, secretOf, hn]
    | some acc => by_cases h : acc.secret = p <;> simp [step, secretOf, hn, h]
  | leave n =>
    simp only [step, presenceOf]
    rcases d n with _ | ⟨p, _ | e⟩ <;> rfl
  | ask n => rfl

/-- **A directory answers by its history alone.** -/
theorem trace_answers (ops : List (Op ν π ε)) (op : Op ν π ε) :
    (step (Machine.final step Dir.empty ops) op).2 = answer (Machine.trace step Dir.empty ops) op := by
  rw [step_answer]
  cases op <;> simp only [answer, final_secretOf, final_presenceOf]

end Directory
