import ChatRoom.ThreadPool
import Mathlib.Data.Fin.Basic
/-!
# ThreadPoolFifo — no task is lost, duplicated or reordered

The tasks pushed are those popped and those still queued, in order; a worker starts what it popped, in order, and holds
at most the last one (`Ledger`).  Every step keeps the two accounts (`ledger_step`).
-/
namespace ChatRoom
namespace ThreadPool

variable {n : Nat} {ε τ : Type}

/-- A worker's tasks in a log. -/
def tasksOf (w : Fin n) (log : List (Fin n × τ)) : List τ := log.filterMap (fun e => if e.1 = w then some e.2 else none)

/-- The task a worker has popped and not started. -/
def inHand : WorkerPc τ → List τ
  | .unlock task => [task]
  | .run task => [task]
  | _ => []

structure Ledger (s : ThreadPool n ε τ) : Prop where
  order : s.pushed = s.popped.map Prod.snd ++ s.taskQueue
  hands : ∀ w, tasksOf w s.popped = tasksOf w s.started ++ inHand (s.worker w)

theorem tasksOf_append_self (w : Fin n) (log : List (Fin n × τ)) (task : τ) :
    tasksOf w (log ++ [(w, task)]) = tasksOf w log ++ [task] := by
  simp [tasksOf]

theorem tasksOf_append_of_ne {w w' : Fin n} (h : w' ≠ w) (log : List (Fin n × τ)) (task : τ) :
    tasksOf w' (log ++ [(w, task)]) = tasksOf w' log := by
  simp [tasksOf, Ne.symm h]

theorem hands_moveWorker {s : ThreadPool n ε τ} (hs : s.Ledger) {w : Fin n} {pc pc' : WorkerPc τ}
    (hpc : s.worker w = pc)
    (hhand : inHand pc = inHand pc') :
    ∀ w', tasksOf w' s.popped = tasksOf w' s.started ++ inHand ((s.moveWorker w pc').worker w') := by
  apply forall_moveWorker s (P := fun w' pc => tasksOf w' s.popped = tasksOf w' s.started ++ inHand pc)
  · rw [← hhand, ← hpc]; exact hs.hands w
  · exact fun w' _ => hs.hands w'

/-- A worker takes a task in its hand. -/
theorem hands_pop {s : ThreadPool n ε τ} (hs : s.Ledger) {w : Fin n} (hpc : s.worker w = .pop) (task : τ) :
    ∀ w', tasksOf w' (s.popped ++ [(w, task)]) =
      tasksOf w' s.started ++ inHand ((s.moveWorker w (.unlock task)).worker w') := by
  apply forall_moveWorker s (P := fun w' pc => tasksOf w' (s.popped ++ [(w, task)]) = tasksOf w' s.started ++ inHand pc)
  · have hbefore := hs.hands w
    rw [hpc] at hbefore
    rw [tasksOf_append_self, hbefore]
    simp [inHand]
  · intro w' hw'
    rw [tasksOf_append_of_ne hw']
    exact hs.hands w'

/-- A worker starts the task in its hand. -/
theorem hands_run {s : ThreadPool n ε τ} (hs : s.Ledger) {w : Fin n} {task : τ} (hpc : s.worker w = .run task) :
    ∀ w', tasksOf w' s.popped =
      tasksOf w' (s.started ++ [(w, task)]) ++ inHand ((s.moveWorker w (.running task)).worker w') := by
  apply forall_moveWorker s (P := fun w' pc => tasksOf w' s.popped = tasksOf w' (s.started ++ [(w, task)]) ++ inHand pc)
  · have hbefore := hs.hands w
    rw [hpc] at hbefore
    rw [tasksOf_append_self, hbefore]
    simp [inHand]
  · intro w' hw'
    rw [tasksOf_append_of_ne hw']
    exact hs.hands w'

variable [DecidableEq ε]

/-- **Every step keeps the accounts.** -/
theorem ledger_step {s t : ThreadPool n ε τ} {a : Act n ε τ} (hs : s.Ledger) (h : Step s a t) : t.Ledger := by
  cases h with
  | lock w hpc hfree =>
    rcases hpc with hpc | hpc
    · exact ⟨hs.order, hands_moveWorker hs hpc rfl⟩
    · exact ⟨hs.order, hands_moveWorker hs hpc rfl⟩
  | wait w hpc => exact ⟨hs.order, hands_moveWorker hs hpc rfl⟩
  | proceed w hpc => exact ⟨hs.order, hands_moveWorker hs hpc rfl⟩
  | sleep w hpc => exact ⟨hs.order, hands_moveWorker hs hpc rfl⟩
  | leave w hpc => exact ⟨hs.order, hands_moveWorker hs hpc rfl⟩
  | take w hpc => exact ⟨hs.order, hands_moveWorker hs hpc rfl⟩
  | pop w task rest hpc hqueue =>
    constructor
    · have horder := hs.order
      rw [hqueue] at horder
      show s.pushed = (s.popped ++ [(w, task)]).map Prod.snd ++ rest
      simpa using horder
    · exact hands_pop hs hpc task
  | unlock w task hpc => exact ⟨hs.order, hands_moveWorker hs hpc rfl⟩
  | run w task hpc => exact ⟨hs.order, hands_run hs hpc⟩
  | finish w task hpc => exact ⟨hs.order, hands_moveWorker hs hpc rfl⟩
  | exit w hpc => exact ⟨hs.order, hands_moveWorker hs hpc rfl⟩
  | spurious w hpc => exact ⟨hs.order, hands_moveWorker hs hpc rfl⟩
  | push e task hpc =>
    constructor
    · show s.pushed ++ [task] = s.popped.map Prod.snd ++ (s.taskQueue ++ [task])
      rw [hs.order, List.append_assoc]
    · exact hs.hands
  | signal e w hpc hasleep => exact ⟨hs.order, hands_moveWorker hs hasleep rfl⟩
  | broadcast hpc =>
    have hwake : ∀ pc : WorkerPc τ, inHand pc.wake = inHand pc := fun pc => by cases pc <;> rfl
    constructor
    · exact hs.order
    · intro w
      show _ = _ ++ inHand (s.worker w).wake
      rw [hwake]
      exact hs.hands w
  | _ => exact ⟨hs.order, hs.hands⟩

theorem ledger_reach {s : ThreadPool n ε τ} (h : Machine.Reach (· = start) step s) : s.Ledger :=
  h.invariant (by rintro _ rfl; exact ⟨rfl, fun _ => rfl⟩) (fun _ _ _ hs _ hstep => ledger_step hs (step_cases hstep))

/-- **No task is lost, duplicated or reordered.**  In every reachable state the pushed tasks are the popped ones
followed by the queue; what a worker popped is what it started followed by the task in its hand, so its k-th start is
its k-th pop; and a worker at `front()` and `pop()` has a task there. -/
theorem no_task_lost {s : ThreadPool n ε τ} (h : Machine.Reach (· = start) step s) :
    s.pushed = s.popped.map Prod.snd ++ s.taskQueue ∧
      (∀ w, tasksOf w s.popped = tasksOf w s.started ++ inHand (s.worker w)) ∧
      ∀ w, s.worker w = .pop → s.taskQueue ≠ [] := by
  refine ⟨(ledger_reach h).order, (ledger_reach h).hands, fun w hw => ?_⟩
  have hknows := (inv_reach h).knows w
  rw [hw] at hknows
  exact hknows

/-- A worker that slept is signalled for a task and starts it. -/
theorem no_task_lost_signalled : ∃ s : ThreadPool 1 Unit Nat,
    Machine.exec step start [.worker 0, .worker 0, .worker 0, .enqueue () 7, .enqueuer (), .enqueuer (), .enqueuer (),
      .signal () (some 0), .worker 0, .worker 0, .worker 0, .worker 0, .worker 0, .worker 0] = some s ∧
    s.started = [(0, 7)] ∧ tasksOf 0 s.popped = tasksOf 0 s.started ++ inHand (s.worker 0) := by
  obtain ⟨s, hs, hstarted⟩ : ∃ s : ThreadPool 1 Unit Nat,
      Machine.exec step start [.worker 0, .worker 0, .worker 0, .enqueue () 7, .enqueuer (), .enqueuer (), .enqueuer (),
        .signal () (some 0), .worker 0, .worker 0, .worker 0, .worker 0, .worker 0, .worker 0] = some s ∧
      s.started = [(0, 7)] := ⟨_, rfl, rfl⟩
  exact ⟨s, hs, hstarted, (no_task_lost (.exec _ (.start rfl) hs)).2.1 0⟩

end ThreadPool
end ChatRoom
