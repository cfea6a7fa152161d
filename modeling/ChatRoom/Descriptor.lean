import ChatRoom.Machine
import ChatRoom.Interleaving
import Mathlib.Logic.Function.Basic
/-!
# Descriptor — numbers the system gives out and takes back

A log of operations on descriptor numbers of any kind.  A number is given out while it is not open, used while it is,
and closed once; after that it may be given out again.  `Tracked log isOpen`: every number was treated so, and `isOpen`
tells which are open now.  Numbers that are all closed in the end were each closed once for every time they were given
out (`ClosedOnce`).  The table of a process says what each of its numbers stands for, and gives out the lowest free one
(`lowest`, `allocate`).
-/
namespace Descriptor

inductive Op
  | opened
  | used
  | closed
  deriving DecidableEq, Repr

/-- One operation on a number that is open or not; none where it must not happen. -/
def step : Bool → Op → Option Bool
  | false, .opened => some true
  | true, .used => some true
  | true, .closed => some false
  | _, _ => none

section
variable {ν : Type*} [DecidableEq ν]

def opsOn (d : ν) (log : List (ν × Op)) : List Op := log.filterMap (Machine.pick d)

/-- Each time the number was given out it was closed exactly once, and not used or closed after that. -/
def ClosedOnce (d : ν) (log : List (ν × Op)) : Prop := Machine.exec step false (opsOn d log) = some false

instance (d : ν) (log : List (ν × Op)) : Decidable (ClosedOnce d log) := inferInstanceAs (Decidable (_ = _))

/-- The number was used and closed only while it was open. -/
def WhileOpen (d : ν) (log : List (ν × Op)) : Prop := Machine.exec step false (opsOn d log) ≠ none

instance (d : ν) (log : List (ν × Op)) : Decidable (WhileOpen d log) := inferInstanceAs (Decidable (_ ≠ _))

def Tracked (log : List (ν × Op)) (isOpen : ν → Bool) : Prop :=
  ∀ d, Machine.exec step false (opsOn d log) = some (isOpen d)

theorem Tracked.closedOnce_iff {log : List (ν × Op)} {isOpen : ν → Bool} (h : Tracked log isOpen) (d : ν) :
    ClosedOnce d log ↔ isOpen d = false := by
  unfold ClosedOnce
  rw [h d, Option.some.injEq]

/-- A number that was never given out is not open. -/
theorem Tracked.isOpen_of_unused {log : List (ν × Op)} {isOpen : ν → Bool} (h : Tracked log isOpen) {d : ν}
    (hd : ∀ op, (d, op) ∉ log) : isOpen d = false := by
  have hnone : opsOn d log = [] := by
    refine List.filterMap_eq_nil_iff.2 (fun e he => ?_)
    have hne : e.1 ≠ d := by
      rintro rfl
      exact hd e.2 he
    simp [Machine.pick, hne]
  have htracked := h d
  rw [hnone] at htracked
  exact (Option.some.inj htracked).symm

theorem tracked_nil : Tracked ([] : List (ν × Op)) (fun _ => false) := fun _ => rfl

theorem opsOn_concat (d d' : ν) (op : Op) (log : List (ν × Op)) :
    opsOn d (log ++ [(d', op)]) = if d' = d then opsOn d log ++ [op] else opsOn d log := by
  unfold opsOn Machine.pick
  rw [List.filterMap_append]
  by_cases hd : d' = d
  · simp [hd]
  · simp [hd]

/-- **An operation that may happen where it does** keeps track. -/
theorem Tracked.concat {log : List (ν × Op)} {isOpen : ν → Bool} (h : Tracked log isOpen) (d : ν) (op : Op) {b : Bool}
    (hstep : step (isOpen d) op = some b) : Tracked (log ++ [(d, op)]) (Function.update isOpen d b) := by
  intro d'
  rw [opsOn_concat]
  by_cases hd : d = d'
  · subst hd
    rw [if_pos rfl, Function.update_self, Machine.exec_concat_eq_some]
    exact ⟨isOpen d, h d, hstep⟩
  · rw [if_neg hd, Function.update_of_ne (Ne.symm hd)]
    exact h d'

theorem Tracked.whileOpen {log : List (ν × Op)} {isOpen : ν → Bool} (h : Tracked log isOpen) (d : ν) :
    WhileOpen d log := by
  unfold WhileOpen
  rw [h d]
  exact Option.some_ne_none _

/-- An operation that must not happen where it does is told by the log from then on. -/
theorem Tracked.not_whileOpen {log : List (ν × Op)} {isOpen : ν → Bool} (h : Tracked log isOpen) {d : ν} {op : Op}
    (hstep : step (isOpen d) op = none) (rest : List (ν × Op)) : ¬ WhileOpen d (log ++ (d, op) :: rest) := by
  unfold WhileOpen opsOn
  rw [List.filterMap_append, List.filterMap_cons_some (b := op) (by simp [Machine.pick]), Machine.exec_append,
    show Machine.exec step false (log.filterMap (Machine.pick d)) = some (isOpen d) from h d, Option.bind_some,
    Machine.exec, hstep]
  exact fun hne => hne rfl

theorem WhileOpen.of_append {log rest : List (ν × Op)} {d : ν} (h : WhileOpen d (log ++ rest)) : WhileOpen d log := by
  intro hnone
  apply h
  unfold opsOn at hnone ⊢
  rw [List.filterMap_append, Machine.exec_append, hnone]
  rfl

theorem Tracked.used {log : List (ν × Op)} {isOpen : ν → Bool} (h : Tracked log isOpen) {d : ν} (hd : isOpen d = true) :
    Tracked (log ++ [(d, .used)]) isOpen := by
  have := h.concat d .used (b := true) (by rw [hd]; rfl)
  rwa [← hd, Function.update_eq_self] at this

end

/-! ## The table of one process -/

section
variable {α : Type*}

def holder (table : List (Option α)) (d : Nat) : Option α := table[d]?.join

/-- The lowest number that stands for nothing. -/
def lowest : List (Option α) → Nat
  | [] => 0
  | none :: _ => 0
  | some _ :: table => lowest table + 1

/-- The table after the lowest free number was given to `x`. -/
def allocate (x : α) : List (Option α) → List (Option α)
  | [] => [some x]
  | none :: table => some x :: table
  | some y :: table => some y :: allocate x table

def release (table : List (Option α)) (d : Nat) : List (Option α) := table.set d none

theorem lowest_least : ∀ table : List (Option α),
    holder table (lowest table) = none ∧ ∀ d < lowest table, holder table d ≠ none
  | [] => ⟨rfl, fun d hd => absurd hd (Nat.not_lt_zero d)⟩
  | none :: _ => ⟨rfl, fun d hd => absurd hd (Nat.not_lt_zero d)⟩
  | some y :: table => by
    obtain ⟨hfree, hleast⟩ := lowest_least table
    refine ⟨hfree, fun d hd => ?_⟩
    cases d with
    | zero => exact Option.some_ne_none y
    | succ d => exact hleast d (Nat.lt_of_succ_lt_succ hd)

/-- **The lowest free number is given out**, the others stand for what they stood for. -/
theorem holder_allocate (x : α) : ∀ (table : List (Option α)) (d : Nat),
    holder (allocate x table) d = if d = lowest table then some x else holder table d
  | [], 0 => rfl
  | [], _ + 1 => rfl
  | none :: _, 0 => rfl
  | none :: _, _ + 1 => rfl
  | some _ :: _, 0 => rfl
  | some _ :: table, d + 1 => by
    have := holder_allocate x table d
    simp only [lowest, Nat.add_right_cancel_iff]
    exact this

theorem holder_release (table : List (Option α)) (d d' : Nat) :
    holder (release table d) d' = if d' = d then none else holder table d' := by
  unfold holder release
  rw [List.getElem?_set]
  by_cases hd : d = d'
  · subst hd
    rw [if_pos rfl, if_pos rfl]
    split <;> rfl
  · rw [if_neg hd, if_neg (Ne.symm hd)]

end

end Descriptor
