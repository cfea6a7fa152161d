import ChatRoom.Machine
import ChatRoom.Threads
import Mathlib.Data.Fintype.Basic
/-!
# ThreadPool — workers, enqueuing threads and the destructor, step by step

The pool at the grain of its pthread calls: each lock, unlock, test, entry into `pthread_cond_wait`, wake-up, signal,
broadcast, and store to `stop_` is one step, of any thread, in any order (`step`).  `numThreads` workers run
`workerLoop`, any number of threads `ε` call `enqueue`, one runs the destructor.  `Step` says what each step needs and
does; the workers in the critical section are its owner (`Inv.guarded`) and still know there what they tested
(`Inv.knows`).
-/
namespace ChatRoom

/-- Where a worker is in `workerLoop`. -/
inductive WorkerPc (τ : Type)
  | lock -- at `pthread_mutex_lock`
  | test -- at the condition of the inner loop
  | wait -- at `pthread_cond_wait`, the mutex still held
  | asleep -- in `pthread_cond_wait`, asleep and not signalled
  | woken -- in `pthread_cond_wait`, woken, the mutex not reacquired yet
  | checkStop -- at `if (stop_)`
  | pop -- at `front()` and `pop()`
  | unlock (task : τ) -- at `pthread_mutex_unlock` with the task it popped
  | run (task : τ) -- at `task()`
  | running (task : τ) -- in `task()`
  | unlockStop -- at `pthread_mutex_unlock` before `break`
  | exited

/-- Where a thread is in `enqueue`. -/
inductive EnqueuerPc (τ : Type)
  | idle -- not in `enqueue`
  | lock (task : τ)
  | push (task : τ)
  | unlock
  | signal

/-- Where the destructor is; `store` is also before it. -/
inductive DestructorPc
  | store
  | broadcast
  | joining (i : Nat) -- `threads_[i]` is joined next
  | destroyed

def WorkerPc.holds {τ : Type} : WorkerPc τ → Bool
  | .test => true
  | .wait => true
  | .checkStop => true
  | .pop => true
  | .unlock _ => true
  | .unlockStop => true
  | _ => false

def WorkerPc.isAsleep {τ : Type} : WorkerPc τ → Bool
  | .asleep => true
  | _ => false

def WorkerPc.isExited {τ : Type} : WorkerPc τ → Bool
  | .exited => true
  | _ => false

/-- What a broadcast makes of a worker. -/
def WorkerPc.wake {τ : Type} : WorkerPc τ → WorkerPc τ
  | .asleep => .woken
  | pc => pc

def EnqueuerPc.holds {τ : Type} : EnqueuerPc τ → Bool
  | .push _ => true
  | .unlock => true
  | _ => false

/-- The pool, its threads, and what happened so far: the tasks in the order of their pushes, and who popped and who
started which. -/
structure ThreadPool (numThreads : Nat) (ε τ : Type) where
  taskQueue : List τ
  stop : Bool
  queueMutex : Option (Fin numThreads ⊕ ε)
  worker : Fin numThreads → WorkerPc τ
  enqueuer : ε → EnqueuerPc τ
  destructor : DestructorPc
  pushed : List τ
  popped : List (Fin numThreads × τ)
  started : List (Fin numThreads × τ)

namespace ThreadPool

variable {n : Nat} {ε τ : Type}

/-- One step, and whose; `signal` with the worker it wakes, if one is asleep. -/
inductive Act (n : Nat) (ε τ : Type)
  | worker (w : Fin n)
  | spurious (w : Fin n)
  | enqueue (e : ε) (task : τ)
  | enqueuer (e : ε)
  | signal (e : ε) (wakes : Option (Fin n))
  | destructor

def start : ThreadPool n ε τ where
  taskQueue := []
  stop := false
  queueMutex := none
  worker := fun _ => .lock
  enqueuer := fun _ => .idle
  destructor := .store
  pushed := []
  popped := []
  started := []

def moveWorker (s : ThreadPool n ε τ) (w : Fin n) (pc : WorkerPc τ) : ThreadPool n ε τ :=
  { s with worker := Function.update s.worker w pc }

def workerLoop (s : ThreadPool n ε τ) (w : Fin n) : Option (ThreadPool n ε τ) :=
  match s.worker w with
  | .lock => if s.queueMutex.isNone then some ({ s with queueMutex := some (.inl w) }.moveWorker w .test) else none
  | .test => some (s.moveWorker w (if !s.stop && s.taskQueue.isEmpty then .wait else .checkStop))
  | .wait => some ({ s with queueMutex := none }.moveWorker w .asleep)
  | .asleep => none
  | .woken => if s.queueMutex.isNone then some ({ s with queueMutex := some (.inl w) }.moveWorker w .test) else none
  | .checkStop => some (s.moveWorker w (if s.stop then .unlockStop else .pop))
  | .pop =>
    match s.taskQueue with
    | task :: rest => some ({ s with taskQueue := rest, popped := s.popped ++ [(w, task)] }.moveWorker w (.unlock task))
    | [] => none
  | .unlock task => some ({ s with queueMutex := none }.moveWorker w (.run task))
  | .run task => some ({ s with started := s.started ++ [(w, task)] }.moveWorker w (.running task))
  | .running _ => some (s.moveWorker w .lock)
  | .unlockStop => some ({ s with queueMutex := none }.moveWorker w .exited)
  | .exited => none

def destroy (s : ThreadPool n ε τ) : Option (ThreadPool n ε τ) :=
  match s.destructor with
  | .store => some { s with stop := true, destructor := .broadcast }
  | .broadcast => some { s with worker := fun w => (s.worker w).wake, destructor := .joining 0 }
  | .joining i =>
    if h : i < n then
      if (s.worker ⟨i, h⟩).isExited then some { s with destructor := .joining (i + 1) } else none
    else some { s with destructor := .destroyed }
  | .destroyed => none

section Steps
variable [DecidableEq ε]

def moveEnqueuer (s : ThreadPool n ε τ) (e : ε) (pc : EnqueuerPc τ) : ThreadPool n ε τ :=
  { s with enqueuer := Function.update s.enqueuer e pc }

/-- `enqueue`, up to its `pthread_cond_signal`. -/
def enqueueNext (s : ThreadPool n ε τ) (e : ε) : Option (ThreadPool n ε τ) :=
  match s.enqueuer e with
  | .lock task =>
    if s.queueMutex.isNone then some ({ s with queueMutex := some (.inr e) }.moveEnqueuer e (.push task)) else none
  | .push task =>
    some ({ s with taskQueue := s.taskQueue ++ [task], pushed := s.pushed ++ [task] }.moveEnqueuer e .unlock)
  | .unlock => some ({ s with queueMutex := none }.moveEnqueuer e .signal)
  | _ => none

/-- `pthread_cond_signal`: it wakes one of the sleepers, and is lost only when there is none. -/
def condSignal (s : ThreadPool n ε τ) (e : ε) : Option (Fin n) → Option (ThreadPool n ε τ)
  | some w => if (s.worker w).isAsleep then some ((s.moveWorker w .woken).moveEnqueuer e .idle) else none
  | none => if ∀ w, (s.worker w).isAsleep = false then some (s.moveEnqueuer e .idle) else none

def step (s : ThreadPool n ε τ) : Act n ε τ → Option (ThreadPool n ε τ)
  | .worker w => s.workerLoop w
  | .spurious w => if (s.worker w).isAsleep then some (s.moveWorker w .woken) else none
  | .enqueue e task =>
    match s.enqueuer e with
    | .idle => some (s.moveEnqueuer e (.lock task))
    | _ => none
  | .enqueuer e => s.enqueueNext e
  | .signal e wakes =>
    match s.enqueuer e with
    | .signal => s.condSignal e wakes
    | _ => none
  | .destructor => s.destroy

/-! ## What a step does -/

/-- What each step needs, and the state it leads to. -/
inductive Step (s : ThreadPool n ε τ) : Act n ε τ → ThreadPool n ε τ → Prop
  | lock (w : Fin n) (hpc : s.worker w = .lock ∨ s.worker w = .woken) (hfree : s.queueMutex = none) :
    Step s (.worker w) ({ s with queueMutex := some (.inl w) }.moveWorker w .test)
  | wait (w : Fin n) (hpc : s.worker w = .test) (hstop : s.stop = false) (hempty : s.taskQueue = []) :
    Step s (.worker w) (s.moveWorker w .wait)
  | proceed (w : Fin n) (hpc : s.worker w = .test) (hready : s.stop = true ∨ s.taskQueue ≠ []) :
    Step s (.worker w) (s.moveWorker w .checkStop)
  | sleep (w : Fin n) (hpc : s.worker w = .wait) :
    Step s (.worker w) ({ s with queueMutex := none }.moveWorker w .asleep)
  | leave (w : Fin n) (hpc : s.worker w = .checkStop) (hstop : s.stop = true) :
    Step s (.worker w) (s.moveWorker w .unlockStop)
  | take (w : Fin n) (hpc : s.worker w = .checkStop) (hstop : s.stop = false) :
    Step s (.worker w) (s.moveWorker w .pop)
  | pop (w : Fin n) (task : τ) (rest : List τ) (hpc : s.worker w = .pop) (hqueue : s.taskQueue = task :: rest) :
    Step s (.worker w) ({ s with taskQueue := rest, popped := s.popped ++ [(w, task)] }.moveWorker w (.unlock task))
  | unlock (w : Fin n) (task : τ) (hpc : s.worker w = .unlock task) :
    Step s (.worker w) ({ s with queueMutex := none }.moveWorker w (.run task))
  | run (w : Fin n) (task : τ) (hpc : s.worker w = .run task) :
    Step s (.worker w) ({ s with started := s.started ++ [(w, task)] }.moveWorker w (.running task))
  | finish (w : Fin n) (task : τ) (hpc : s.worker w = .running task) : Step s (.worker w) (s.moveWorker w .lock)
  | exit (w : Fin n) (hpc : s.worker w = .unlockStop) :
    Step s (.worker w) ({ s with queueMutex := none }.moveWorker w .exited)
  | spurious (w : Fin n) (hpc : s.worker w = .asleep) : Step s (.spurious w) (s.moveWorker w .woken)
  | enqueue (e : ε) (task : τ) (hpc : s.enqueuer e = .idle) : Step s (.enqueue e task) (s.moveEnqueuer e (.lock task))
  | enqueueLock (e : ε) (task : τ) (hpc : s.enqueuer e = .lock task) (hfree : s.queueMutex = none) :
    Step s (.enqueuer e) ({ s with queueMutex := some (.inr e) }.moveEnqueuer e (.push task))
  | push (e : ε) (task : τ) (hpc : s.enqueuer e = .push task) :
    Step s (.enqueuer e)
      ({ s with taskQueue := s.taskQueue ++ [task], pushed := s.pushed ++ [task] }.moveEnqueuer e .unlock)
  | enqueueUnlock (e : ε) (hpc : s.enqueuer e = .unlock) :
    Step s (.enqueuer e) ({ s with queueMutex := none }.moveEnqueuer e .signal)
  | signal (e : ε) (w : Fin n) (hpc : s.enqueuer e = .signal) (hasleep : s.worker w = .asleep) :
    Step s (.signal e (some w)) ((s.moveWorker w .woken).moveEnqueuer e .idle)
  | signalNone (e : ε) (hpc : s.enqueuer e = .signal) (hnone : ∀ w, s.worker w ≠ .asleep) :
    Step s (.signal e none) (s.moveEnqueuer e .idle)
  | store (hpc : s.destructor = .store) : Step s .destructor { s with stop := true, destructor := .broadcast }
  | broadcast (hpc : s.destructor = .broadcast) :
    Step s .destructor { s with worker := fun w => (s.worker w).wake, destructor := .joining 0 }
  | join (i : Fin n) (hpc : s.destructor = .joining i) (hexited : s.worker i = .exited) :
    Step s .destructor { s with destructor := .joining (i + 1) }
  | destroyed (i : Nat) (hpc : s.destructor = .joining i) (hall : n ≤ i) :
    Step s .destructor { s with destructor := .destroyed }

theorem isAsleep_iff (pc : WorkerPc τ) : pc.isAsleep = true ↔ pc = .asleep := by
  cases pc <;> simp [WorkerPc.isAsleep]

theorem isExited_iff (pc : WorkerPc τ) : pc.isExited = true ↔ pc = .exited := by
  cases pc <;> simp [WorkerPc.isExited]

theorem workerLoop_cases {s t : ThreadPool n ε τ} {w : Fin n} (h : s.workerLoop w = some t) : Step s (.worker w) t := by
  unfold workerLoop at h
  split at h
  · rename_i hpc
    split at h
    · rename_i hfree; cases h; exact .lock w (.inl hpc) (Option.isNone_iff_eq_none.1 hfree)
    · cases h
  · rename_i hpc
    cases h
    split
    · rename_i hwait
      rw [Bool.and_eq_true, Bool.not_eq_true', List.isEmpty_iff] at hwait
      exact .wait w hpc hwait.1 hwait.2
    · rename_i hready
      refine .proceed w hpc ?_
      rw [Bool.and_eq_true, Bool.not_eq_true', List.isEmpty_iff, not_and_or, Bool.not_eq_false] at hready
      exact hready
  · rename_i hpc; cases h; exact .sleep w hpc
  · cases h
  · rename_i hpc
    split at h
    · rename_i hfree; cases h; exact .lock w (.inr hpc) (Option.isNone_iff_eq_none.1 hfree)
    · cases h
  · rename_i hpc
    cases h
    split
    · rename_i hstop; exact .leave w hpc hstop
    · rename_i hstop; exact .take w hpc (Bool.eq_false_iff.2 hstop)
  · rename_i hpc
    split at h
    · rename_i task rest hqueue; cases h; exact .pop w task rest hpc hqueue
    · cases h
  · rename_i task hpc; cases h; exact .unlock w task hpc
  · rename_i task hpc; cases h; exact .run w task hpc
  · rename_i task hpc; cases h; exact .finish w task hpc
  · rename_i hpc; cases h; exact .exit w hpc
  · cases h

theorem enqueueNext_cases {s t : ThreadPool n ε τ} {e : ε} (h : s.enqueueNext e = some t) : Step s (.enqueuer e) t := by
  unfold enqueueNext at h
  split at h
  · rename_i task hpc
    split at h
    · rename_i hfree; cases h; exact .enqueueLock e task hpc (Option.isNone_iff_eq_none.1 hfree)
    · cases h
  · rename_i task hpc; cases h; exact .push e task hpc
  · rename_i hpc; cases h; exact .enqueueUnlock e hpc
  · cases h

theorem destroy_cases {s t : ThreadPool n ε τ} (h : s.destroy = some t) : Step s .destructor t := by
  unfold destroy at h
  split at h
  · rename_i hpc; cases h; exact .store hpc
  · rename_i hpc; cases h; exact .broadcast hpc
  · rename_i i hpc
    split at h
    · rename_i hi
      split at h
      · rename_i hexited; cases h; exact .join ⟨i, hi⟩ hpc ((isExited_iff _).1 hexited)
      · cases h
    · rename_i hi; cases h; exact .destroyed i hpc (Nat.le_of_not_lt hi)
  · cases h

/-- **Every step is one of `Step`.** -/
theorem step_cases {s t : ThreadPool n ε τ} {a : Act n ε τ} (h : step s a = some t) : Step s a t := by
  cases a with
  | worker w => exact workerLoop_cases h
  | enqueuer e => exact enqueueNext_cases h
  | destructor => exact destroy_cases h
  | spurious w =>
    simp only [step] at h
    split at h
    · rename_i hpc; cases h; exact .spurious w ((isAsleep_iff _).1 hpc)
    · cases h
  | enqueue e task =>
    simp only [step] at h
    split at h
    · rename_i hpc; cases h; exact .enqueue e task hpc
    · cases h
  | signal e wakes =>
    simp only [step] at h
    split at h
    · rename_i hpc
      cases wakes with
      | some w =>
        simp only [condSignal] at h
        split at h
        · rename_i hasleep; cases h; exact .signal e w hpc ((isAsleep_iff _).1 hasleep)
        · cases h
      | none =>
        simp only [condSignal] at h
        split at h
        · rename_i hnone
          cases h
          exact .signalNone e hpc (fun w hw => by have := hnone w; rw [hw] at this; cases this)
        · cases h
    · cases h

/-- **A worker moves by its own steps**, or is woken. -/
theorem worker_step {s t : ThreadPool n ε τ} {a : Act n ε τ} (h : Step s a t) (w : Fin n) :
    t.worker w = s.worker w ∨ a = .worker w ∨ (s.worker w = .asleep ∧ t.worker w = .woken) := by
  have hself : ∀ (w' : Fin n) (pc : WorkerPc τ),
      (s.moveWorker w' pc).worker w = s.worker w ∨ (Act.worker w' : Act n ε τ) = .worker w := by
    intro w' pc
    by_cases hw : w = w'
    · exact .inr (by rw [hw])
    · exact .inl (Function.update_of_ne hw ..)
  have hwoken : ∀ w' : Fin n, s.worker w' = .asleep → (s.moveWorker w' .woken).worker w = s.worker w ∨
      (s.worker w = .asleep ∧ (s.moveWorker w' .woken).worker w = .woken) := by
    intro w' hw'
    by_cases hw : w = w'
    · subst hw
      exact .inr ⟨hw', Function.update_self ..⟩
    · exact .inl (Function.update_of_ne hw ..)
  cases h with
  | spurious w' hpc => exact (hwoken w' hpc).imp id .inr
  | signal e w' hpc hasleep => exact (hwoken w' hasleep).imp id .inr
  | broadcast hpc =>
    cases hw : s.worker w with
    | asleep => exact .inr (.inr ⟨rfl, by show (s.worker w).wake = .woken; rw [hw]; rfl⟩)
    | _ => exact .inl (by show (s.worker w).wake = _; rw [hw]; rfl)
  | lock w' => exact (hself w' _).imp id .inl
  | wait w' => exact (hself w' _).imp id .inl
  | proceed w' => exact (hself w' _).imp id .inl
  | sleep w' => exact (hself w' _).imp id .inl
  | leave w' => exact (hself w' _).imp id .inl
  | take w' => exact (hself w' _).imp id .inl
  | pop w' => exact (hself w' _).imp id .inl
  | unlock w' => exact (hself w' _).imp id .inl
  | run w' => exact (hself w' _).imp id .inl
  | finish w' => exact (hself w' _).imp id .inl
  | exit w' => exact (hself w' _).imp id .inl
  | _ => exact .inl rfl

/-- Nobody else moves the destructor. -/
theorem destructor_step {s t : ThreadPool n ε τ} {a : Act n ε τ} (h : Step s a t) (ha : a ≠ .destructor) :
    t.destructor = s.destructor := by
  cases h with
  | store => exact absurd rfl ha
  | broadcast => exact absurd rfl ha
  | join => exact absurd rfl ha
  | destroyed => exact absurd rfl ha
  | _ => rfl

end Steps

/-! ## The critical section -/

/-- The threads that hold `queueMutex_`. -/
def holding (s : ThreadPool n ε τ) : Fin n ⊕ ε → Bool :=
  Sum.elim (fun w => (s.worker w).holds) (fun e => (s.enqueuer e).holds)

/-- What a worker in the critical section has found out there. -/
def knows (s : ThreadPool n ε τ) : WorkerPc τ → Prop
  | .wait => s.taskQueue = []
  | .checkStop => s.stop = true ∨ s.taskQueue ≠ []
  | .pop => s.taskQueue ≠ []
  | _ => True

theorem knows_of_out (s : ThreadPool n ε τ) {pc : WorkerPc τ} (h : pc.holds = false) : s.knows pc := by
  cases pc with
  | wait => cases h
  | checkStop => cases h
  | pop => cases h
  | _ => trivial

structure Inv (s : ThreadPool n ε τ) : Prop where
  guarded : Mutex.Guarded s.queueMutex s.holding
  knows : ∀ w, s.knows (s.worker w)

theorem Inv.out {s : ThreadPool n ε τ} (h : s.Inv) {t : Fin n ⊕ ε} (ht : s.holding t = true) {w : Fin n}
    (hw : .inl w ≠ t) : (s.worker w).holds = false := by
  by_contra hholds
  exact hw (h.guarded.unique (Bool.eq_true_of_not_eq_false hholds) ht)

/-- What holds of the worker that moves, where it goes, and of the others, where they are, holds of all. -/
theorem forall_moveWorker (s : ThreadPool n ε τ) {w : Fin n} {pc : WorkerPc τ} {P : Fin n → WorkerPc τ → Prop}
    (hw : P w pc) (hothers : ∀ w', w' ≠ w → P w' (s.worker w')) : ∀ w', P w' ((s.moveWorker w pc).worker w') := by
  intro w'
  show P w' (Function.update s.worker w pc w')
  by_cases hw' : w' = w
  · subst hw'; rw [Function.update_self]; exact hw
  · rw [Function.update_of_ne hw']; exact hothers w' hw'

theorem knows_moveWorker {s : ThreadPool n ε τ} {w : Fin n} {pc : WorkerPc τ} (hw : s.knows pc)
    (hothers : ∀ w', w' ≠ w → s.knows (s.worker w')) :
    ∀ w', (s.moveWorker w pc).knows ((s.moveWorker w pc).worker w') :=
  forall_moveWorker s (P := fun _ pc => s.knows pc) hw hothers

theorem inv_start : (start : ThreadPool n ε τ).Inv where
  guarded := by rintro (w | e) <;> simp [holding, start, WorkerPc.holds, EnqueuerPc.holds]
  knows := fun _ => trivial

variable [DecidableEq ε]

theorem holding_moveWorker (s : ThreadPool n ε τ) (w : Fin n) (pc : WorkerPc τ) :
    (s.moveWorker w pc).holding = Function.update s.holding (.inl w) pc.holds := by
  unfold holding
  rw [Sum.update_elim_inl]
  congr 1
  exact Function.comp_update WorkerPc.holds s.worker w pc

theorem holding_moveEnqueuer (s : ThreadPool n ε τ) (e : ε) (pc : EnqueuerPc τ) :
    (s.moveEnqueuer e pc).holding = Function.update s.holding (.inr e) pc.holds := by
  unfold holding
  rw [Sum.update_elim_inr]
  congr 1
  exact Function.comp_update EnqueuerPc.holds s.enqueuer e pc

theorem guarded_moveWorker {s : ThreadPool n ε τ} (hs : Mutex.Guarded s.queueMutex s.holding) {w : Fin n}
    {pc pc' : WorkerPc τ} (hpc : s.worker w = pc) (hholds : pc.holds = pc'.holds) :
    Mutex.Guarded s.queueMutex (s.moveWorker w pc').holding := by
  rw [holding_moveWorker]
  exact hs.move (by rw [← hholds, ← hpc]; rfl)

theorem guarded_moveEnqueuer {s : ThreadPool n ε τ} (hs : Mutex.Guarded s.queueMutex s.holding) {e : ε}
    {pc pc' : EnqueuerPc τ} (hpc : s.enqueuer e = pc) (hholds : pc.holds = pc'.holds) :
    Mutex.Guarded s.queueMutex (s.moveEnqueuer e pc').holding := by
  rw [holding_moveEnqueuer]
  exact hs.move (by rw [← hholds, ← hpc]; rfl)

theorem guarded_unlockWorker {s : ThreadPool n ε τ} (hs : Mutex.Guarded s.queueMutex s.holding) {w : Fin n}
    {pc pc' : WorkerPc τ} (hpc : s.worker w = pc) (hin : pc.holds = true) (hout : pc'.holds = false) :
    Mutex.Guarded none (s.moveWorker w pc').holding := by
  rw [holding_moveWorker, hout]
  exact hs.release (by rw [← hin, ← hpc]; rfl)

/-- **The lock is held by the thread in the critical section.** -/
theorem guarded_step {s t : ThreadPool n ε τ} {a : Act n ε τ} (hs : Mutex.Guarded s.queueMutex s.holding)
    (h : Step s a t) : Mutex.Guarded t.queueMutex t.holding := by
  cases h with
  | lock w hpc hfree => rw [holding_moveWorker]; exact (hfree ▸ hs).acquire (.inl w)
  | wait w hpc => exact guarded_moveWorker hs hpc rfl
  | proceed w hpc => exact guarded_moveWorker hs hpc rfl
  | sleep w hpc => exact guarded_unlockWorker hs hpc rfl rfl
  | leave w hpc => exact guarded_moveWorker hs hpc rfl
  | take w hpc => exact guarded_moveWorker hs hpc rfl
  | pop w task rest hpc => exact guarded_moveWorker hs hpc rfl
  | unlock w task hpc => exact guarded_unlockWorker hs hpc rfl rfl
  | run w task hpc => exact guarded_moveWorker hs hpc rfl
  | finish w task hpc => exact guarded_moveWorker hs hpc rfl
  | exit w hpc => exact guarded_unlockWorker hs hpc rfl rfl
  | spurious w hpc => exact guarded_moveWorker hs hpc rfl
  | enqueue e task hpc => exact guarded_moveEnqueuer hs hpc rfl
  | enqueueLock e task hpc hfree => rw [holding_moveEnqueuer]; exact (hfree ▸ hs).acquire (.inr e)
  | push e task hpc => exact guarded_moveEnqueuer hs hpc rfl
  | enqueueUnlock e hpc =>
    rw [holding_moveEnqueuer]
    exact hs.release (by show (s.enqueuer e).holds = true; rw [hpc]; rfl)
  | signal e w hpc hasleep =>
    have hwoken : Mutex.Guarded s.queueMutex (s.moveWorker w .woken).holding := guarded_moveWorker hs hasleep rfl
    exact guarded_moveEnqueuer (s := s.moveWorker w .woken) hwoken hpc rfl
  | signalNone e hpc => exact guarded_moveEnqueuer hs hpc rfl
  | broadcast hpc =>
    have hwake : ∀ pc : WorkerPc τ, pc.wake.holds = pc.holds := fun pc => by cases pc <;> rfl
    show Mutex.Guarded s.queueMutex (Sum.elim (fun w => (s.worker w).wake.holds) (fun e => (s.enqueuer e).holds))
    simp only [hwake]
    exact hs
  | _ => exact hs

/-- **What a worker found out stays true while it holds the lock.** -/
theorem knows_step {s t : ThreadPool n ε τ} {a : Act n ε τ} (hs : s.Inv) (h : Step s a t) :
    ∀ w, t.knows (t.worker w) := by
  have hrest : ∀ w w', w' ≠ w → s.knows (s.worker w') := fun _ w' _ => hs.knows w'
  cases h with
  | lock w hpc hfree => exact knows_moveWorker trivial (hrest w)
  | wait w hpc hstop hempty => exact knows_moveWorker hempty (hrest w)
  | proceed w hpc hready => exact knows_moveWorker hready (hrest w)
  | sleep w hpc => exact knows_moveWorker trivial (hrest w)
  | leave w hpc hstop => exact knows_moveWorker trivial (hrest w)
  | take w hpc hstop =>
    have hready := hs.knows w
    rw [hpc] at hready
    exact knows_moveWorker (hready.resolve_left (by simp [hstop])) (hrest w)
  | pop w task rest hpc hqueue =>
    have hin : s.holding (.inl w) = true := by show (s.worker w).holds = true; rw [hpc]; rfl
    exact knows_moveWorker trivial (fun w' hw' => knows_of_out _ (hs.out hin (by simpa using hw')))
  | unlock w task hpc => exact knows_moveWorker trivial (hrest w)
  | run w task hpc => exact knows_moveWorker trivial (hrest w)
  | finish w task hpc => exact knows_moveWorker trivial (hrest w)
  | exit w hpc => exact knows_moveWorker trivial (hrest w)
  | spurious w hpc => exact knows_moveWorker trivial (hrest w)
  | push e task hpc =>
    have hin : s.holding (.inr e) = true := by show (s.enqueuer e).holds = true; rw [hpc]; rfl
    exact fun w => knows_of_out _ (hs.out hin (by simp))
  | signal e w hpc hasleep => exact knows_moveWorker (s := s) trivial (hrest w)
  | store hpc =>
    intro w
    have hw := hs.knows w
    show ThreadPool.knows _ (s.worker w)
    cases hpc' : s.worker w with
    | checkStop => exact .inl rfl
    | _ => rw [hpc'] at hw; exact hw
  | broadcast hpc =>
    intro w
    have hw := hs.knows w
    show ThreadPool.knows _ (s.worker w).wake
    cases hpc' : s.worker w with
    | asleep => trivial
    | _ => rw [hpc'] at hw; exact hw
  | _ => exact hs.knows

theorem inv_step {s t : ThreadPool n ε τ} {a : Act n ε τ} (hs : s.Inv) (h : Step s a t) : t.Inv :=
  ⟨guarded_step hs.guarded h, knows_step hs h⟩

/-- **The invariant of every run.** -/
theorem inv_reach {s : ThreadPool n ε τ} (h : Machine.Reach (· = start) step s) : s.Inv :=
  h.invariant (by rintro _ rfl; exact inv_start) (fun _ _ _ hs _ hstep => inv_step hs (step_cases hstep))

end ThreadPool

end ChatRoom
