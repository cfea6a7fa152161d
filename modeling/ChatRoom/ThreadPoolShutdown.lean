import ChatRoom.ThreadPool
/-!
# ThreadPoolShutdown — the broadcast of the destructor

The destructor stores `stop_` and broadcasts without `queueMutex_`.  A worker that tested its predicate before the store
and comes to `pthread_cond_wait` after the broadcast sleeps through both, and is joined asleep (`Stuck`).  That takes a
worker at `pthread_cond_wait` in the moment of the broadcast: without one no stuck state is reached, and with one a
stuck state is two steps away (`shutdown_unless_missed`).
-/
namespace ChatRoom

def WorkerPc.isUp {τ : Type} : WorkerPc τ → Bool
  | .wait => false
  | .asleep => false
  | _ => true

namespace ThreadPool

variable {n : Nat} {ε τ : Type}

/-- The destructor has broadcast and joins, and a worker is asleep with no wake-up on its way. -/
def Stuck (s : ThreadPool n ε τ) : Prop := (∃ i, s.destructor = .joining i) ∧ ∃ w, s.worker w = .asleep

/-- No worker is between its test and its `pthread_cond_wait` when the destructor broadcasts. -/
def BroadcastHeard (s : ThreadPool n ε τ) : Act n ε τ → Prop
  | .destructor => s.destructor = .broadcast → ∀ w, s.worker w ≠ .wait
  | _ => True

structure Alarmed (s : ThreadPool n ε τ) : Prop where
  stopped : s.destructor ≠ .store → s.stop = true
  up : ∀ i, s.destructor = .joining i → ∀ w, (s.worker w).isUp = true

theorem Alarmed.not_stuck {s : ThreadPool n ε τ} (hs : s.Alarmed) : ¬ s.Stuck := by
  rintro ⟨⟨i, hi⟩, w, hw⟩
  have hup := hs.up i hi w
  rw [hw] at hup
  cases hup

theorem up_moveWorker {s : ThreadPool n ε τ} (hs : s.Alarmed) (w : Fin n) {pc : WorkerPc τ} (hpc : pc.isUp = true) :
    ∀ i, s.destructor = .joining i → ∀ w', ((s.moveWorker w pc).worker w').isUp = true := by
  intro i hi
  apply forall_moveWorker s (P := fun _ pc => pc.isUp = true) hpc
  exact fun w' _ => hs.up i hi w'

variable [DecidableEq ε]

/-- **Every step keeps the alarm**, if the broadcast is heard. -/
theorem alarmed_step {s t : ThreadPool n ε τ} {a : Act n ε τ} (hs : s.Alarmed) (hheard : s.BroadcastHeard a)
    (h : Step s a t) : t.Alarmed := by
  cases h with
  | lock w hpc hfree => exact ⟨hs.stopped, up_moveWorker hs w rfl⟩
  | wait w hpc hstop hempty =>
    -- the test found `stop_` unset, so the destructor has not begun
    have hstore : s.destructor = .store := by
      by_contra hbegun
      rw [hs.stopped hbegun] at hstop
      cases hstop
    exact ⟨hs.stopped, fun i hi => by rw [show s.destructor = .joining i from hi] at hstore; cases hstore⟩
  | proceed w hpc hready => exact ⟨hs.stopped, up_moveWorker hs w rfl⟩
  | sleep w hpc =>
    constructor
    · exact hs.stopped
    · intro i hi
      have hup := hs.up i hi w
      rw [hpc] at hup
      cases hup
  | leave w hpc hstop => exact ⟨hs.stopped, up_moveWorker hs w rfl⟩
  | take w hpc hstop => exact ⟨hs.stopped, up_moveWorker hs w rfl⟩
  | pop w task rest hpc hqueue =>
    exact ⟨hs.stopped, up_moveWorker hs w rfl⟩
  | unlock w task hpc => exact ⟨hs.stopped, up_moveWorker hs w rfl⟩
  | run w task hpc => exact ⟨hs.stopped, up_moveWorker hs w rfl⟩
  | finish w task hpc => exact ⟨hs.stopped, up_moveWorker hs w rfl⟩
  | exit w hpc => exact ⟨hs.stopped, up_moveWorker hs w rfl⟩
  | spurious w hpc => exact ⟨hs.stopped, up_moveWorker hs w rfl⟩
  | signal e w hpc hasleep => exact ⟨hs.stopped, up_moveWorker hs w rfl⟩
  | store hpc => exact ⟨fun _ => rfl, fun i hi => by cases hi⟩
  | broadcast hpc =>
    constructor
    · exact fun _ => hs.stopped (by rw [hpc]; simp)
    · intro i _ w
      have hnowait := hheard hpc w
      show (s.worker w).wake.isUp = true
      cases hw : s.worker w with
      | wait => exact absurd hw hnowait
      | _ => rfl
  | join i hpc hexited => exact ⟨fun _ => hs.stopped (by rw [hpc]; simp), fun _ _ => hs.up i hpc⟩
  | destroyed i hpc hall => exact ⟨fun _ => hs.stopped (by rw [hpc]; simp), fun _ hi => by cases hi⟩
  | _ => exact ⟨hs.stopped, hs.up⟩

theorem alarmed_reach {s : ThreadPool n ε τ} (h : Machine.ReachIf (· = start) step BroadcastHeard s) : s.Alarmed :=
  h.invariant (by rintro _ rfl; exact ⟨fun hne => absurd rfl hne, fun i hi => by cases hi⟩)
    (fun _ _ _ hs hheard hstep => alarmed_step hs hheard (step_cases hstep))

/-- A worker at `pthread_cond_wait` misses the broadcast and falls asleep. -/
theorem exec_missed {s : ThreadPool n ε τ} (hpc : s.destructor = .broadcast) {w : Fin n} (hw : s.worker w = .wait) :
    ∃ t, Machine.exec step s [.destructor, .worker w] = some t ∧ t.Stuck := by
  refine ⟨ThreadPool.moveWorker
    { s with worker := fun w => (s.worker w).wake, destructor := .joining 0, queueMutex := none }
    w .asleep, ?_, ⟨0, rfl⟩, w, Function.update_self ..⟩
  simp [Machine.exec, step, destroy, hpc, workerLoop, hw, WorkerPc.wake, moveWorker]

/-- **Shutdown, unless a worker misses the broadcast.**  No stuck state is reached when every broadcast finds no worker
at `pthread_cond_wait`; from one that does, a stuck state is reached. -/
theorem shutdown_unless_missed :
    (∀ s : ThreadPool n ε τ, Machine.ReachIf (· = start) step BroadcastHeard s → ¬ s.Stuck) ∧
      ∀ (s : ThreadPool n ε τ) (w : Fin n), Machine.Reach (· = start) step s → s.destructor = .broadcast →
        s.worker w = .wait → ∃ t : ThreadPool n ε τ, Machine.Reach (· = start) step t ∧ t.Stuck := by
  refine ⟨fun s h => (alarmed_reach h).not_stuck, fun s w h hpc hw => ?_⟩
  obtain ⟨t, hexec, ht⟩ := exec_missed hpc hw
  exact ⟨t, .exec _ h hexec, ht⟩

/-- One worker, no task: it tests, the destructor stores and broadcasts, and it goes to sleep. -/
theorem shutdown_missed :
    ¬ ∀ (n : Nat) (s : ThreadPool n Empty Unit), Machine.Reach (· = start) step s → ¬ s.Stuck := by
  intro h
  obtain ⟨s, hs, hpc, hw⟩ : ∃ s : ThreadPool 1 Empty Unit,
      Machine.exec step start [.worker 0, .worker 0, .destructor] = some s ∧ s.destructor = .broadcast ∧
        s.worker 0 = .wait := ⟨_, rfl, rfl, rfl⟩
  obtain ⟨t, hexec, ht⟩ := exec_missed hpc hw
  exact h 1 t (.exec _ (.exec _ (.start rfl) hs) hexec) ht

end ThreadPool
end ChatRoom
