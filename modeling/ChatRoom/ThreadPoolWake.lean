import ChatRoom.ThreadPool
/-!
# ThreadPoolWake — no wake-up is lost while the pool runs

While a worker sleeps, every queued task is covered: by a worker that will come to the queue, or by an `enqueue` whose
signal is still to come (`Covered`).  A push brings its own cover; a signal turns it into a woken worker; a pop takes
one task and one worker; and a worker falls asleep on an empty queue only (`covered_step`).
-/
namespace ChatRoom

/-- Neither asleep nor with a popped task: signalled, starting, or between tasks. -/
def WorkerPc.isAvailable {τ : Type} : WorkerPc τ → Bool
  | .lock => true
  | .test => true
  | .wait => true
  | .woken => true
  | .checkStop => true
  | .pop => true
  | _ => false

/-- In an `enqueue` that has pushed and not signalled. -/
def EnqueuerPc.isPending {τ : Type} : EnqueuerPc τ → Bool
  | .unlock => true
  | .signal => true
  | _ => false

namespace ThreadPool

open Tally (tally tally_update tally_eq_zero)

variable {n : Nat} {ε τ : Type}

theorem asleep_of_moveWorker {s : ThreadPool n ε τ} {w : Fin n} {pc : WorkerPc τ} (hpc : pc.isAsleep = false)
    (h : ∃ w', (s.moveWorker w pc).worker w' = .asleep) : ∃ w', s.worker w' = .asleep := by
  obtain ⟨w', hw'⟩ := h
  have hupdate : Function.update s.worker w pc w' = .asleep := hw'
  by_cases hw : w' = w
  · rw [hw, Function.update_self] at hupdate
    rw [hupdate] at hpc
    cases hpc
  · rw [Function.update_of_ne hw] at hupdate
    exact ⟨w', hupdate⟩

variable [Fintype ε]

/-- While the pool runs and a worker sleeps, there is cover for each task in the queue. -/
def Covered (s : ThreadPool n ε τ) : Prop :=
  s.stop = false → (∃ w, s.worker w = .asleep) →
    s.taskQueue.length ≤ tally WorkerPc.isAvailable s.worker + tally EnqueuerPc.isPending s.enqueuer

theorem covered_moveWorker {s : ThreadPool n ε τ} (hs : s.Covered) {w : Fin n} {pc pc' : WorkerPc τ}
    (hpc : s.worker w = pc) (hawake : pc'.isAsleep = false) (hmore : pc.isAvailable.toNat ≤ pc'.isAvailable.toNat) :
    (s.moveWorker w pc').Covered := by
  intro hstop hasleep
  have hbefore := hs hstop (asleep_of_moveWorker hawake hasleep)
  have htally := tally_update WorkerPc.isAvailable s.worker w pc'
  rw [hpc] at htally
  show s.taskQueue.length ≤ tally WorkerPc.isAvailable (Function.update s.worker w pc') + _
  show _ ≤ _ + tally EnqueuerPc.isPending s.enqueuer
  omega

variable [DecidableEq ε]

theorem covered_moveEnqueuer {s : ThreadPool n ε τ} (hs : s.Covered) {e : ε} {pc pc' : EnqueuerPc τ}
    (hpc : s.enqueuer e = pc) (hmore : pc.isPending.toNat ≤ pc'.isPending.toNat) : (s.moveEnqueuer e pc').Covered := by
  intro hstop hasleep
  have hbefore := hs hstop hasleep
  have htally := tally_update EnqueuerPc.isPending s.enqueuer e pc'
  rw [hpc] at htally
  show s.taskQueue.length ≤ _ + tally EnqueuerPc.isPending (Function.update s.enqueuer e pc')
  show _ ≤ tally WorkerPc.isAvailable s.worker + _
  omega

/-- **Every step keeps the queue covered.** -/
theorem covered_step {s t : ThreadPool n ε τ} {a : Act n ε τ} (hinv : s.Inv) (hs : s.Covered) (h : Step s a t) :
    t.Covered := by
  cases h with
  | lock w hpc hfree =>
    rcases hpc with hpc | hpc
    · exact covered_moveWorker (s := { s with queueMutex := _ }) hs hpc rfl le_rfl
    · exact covered_moveWorker (s := { s with queueMutex := _ }) hs hpc rfl le_rfl
  | wait w hpc hstop hempty => exact covered_moveWorker hs hpc rfl le_rfl
  | proceed w hpc hready => exact covered_moveWorker hs hpc rfl le_rfl
  | sleep w hpc =>
    intro _ _
    have hempty := hinv.knows w
    rw [hpc] at hempty
    show s.taskQueue.length ≤ _
    rw [show s.taskQueue = [] from hempty]
    exact Nat.zero_le _
  | leave w hpc hstop => intro hrun; exact absurd hstop (by rw [show s.stop = false from hrun]; simp)
  | take w hpc hstop => exact covered_moveWorker hs hpc rfl le_rfl
  | pop w task rest hpc hqueue =>
    intro hstop hasleep
    have hbefore := hs hstop (asleep_of_moveWorker (s := s) rfl hasleep)
    have htally := tally_update WorkerPc.isAvailable s.worker w (.unlock task)
    rw [hpc] at htally
    rw [hqueue] at hbefore
    simp only [WorkerPc.isAvailable, Bool.toNat_true, Bool.toNat_false, List.length_cons] at htally hbefore
    show rest.length ≤ tally WorkerPc.isAvailable (Function.update s.worker w (.unlock task)) +
      tally EnqueuerPc.isPending s.enqueuer
    omega
  | unlock w task hpc => exact covered_moveWorker (s := { s with queueMutex := _ }) hs hpc rfl le_rfl
  | run w task hpc => exact covered_moveWorker (s := { s with started := _ }) hs hpc rfl le_rfl
  | finish w task hpc => exact covered_moveWorker hs hpc rfl (Nat.zero_le _)
  | exit w hpc => exact covered_moveWorker (s := { s with queueMutex := _ }) hs hpc rfl le_rfl
  | spurious w hpc => exact covered_moveWorker hs hpc rfl (Nat.zero_le _)
  | enqueue e task hpc => exact covered_moveEnqueuer hs hpc le_rfl
  | enqueueLock e task hpc hfree => exact covered_moveEnqueuer (s := { s with queueMutex := _ }) hs hpc le_rfl
  | push e task hpc =>
    intro hstop hasleep
    have hbefore := hs hstop hasleep
    have htally := tally_update EnqueuerPc.isPending s.enqueuer e .unlock
    rw [hpc] at htally
    simp only [EnqueuerPc.isPending, Bool.toNat_true, Bool.toNat_false] at htally
    show (s.taskQueue ++ [task]).length ≤ tally WorkerPc.isAvailable s.worker +
      tally EnqueuerPc.isPending (Function.update s.enqueuer e .unlock)
    rw [List.length_append, List.length_singleton]
    omega
  | enqueueUnlock e hpc => exact covered_moveEnqueuer (s := { s with queueMutex := _ }) hs hpc le_rfl
  | signal e w hpc hasleep =>
    -- the cover that the signal was is now the worker it woke
    intro hstop _
    have hbefore := hs hstop ⟨w, hasleep⟩
    have hworker := tally_update WorkerPc.isAvailable s.worker w .woken
    have henqueuer := tally_update EnqueuerPc.isPending s.enqueuer e .idle
    rw [hasleep] at hworker
    rw [hpc] at henqueuer
    simp only [WorkerPc.isAvailable, EnqueuerPc.isPending, Bool.toNat_true, Bool.toNat_false] at hworker henqueuer
    show s.taskQueue.length ≤ tally WorkerPc.isAvailable (Function.update s.worker w .woken) +
      tally EnqueuerPc.isPending (Function.update s.enqueuer e .idle)
    omega
  | signalNone e hpc hnone => rintro _ ⟨w, hw⟩; exact absurd hw (hnone w)
  | store hpc => intro hrun; cases hrun
  | broadcast hpc =>
    rintro _ ⟨w, hw⟩
    have hwake : ∀ pc : WorkerPc τ, pc.wake ≠ .asleep := fun pc => by cases pc <;> simp [WorkerPc.wake]
    exact absurd hw (hwake _)
  | join i hpc hexited => exact hs
  | destroyed i hpc hall => exact hs

theorem covered_reach {s : ThreadPool n ε τ} (h : Machine.Reach (· = start) step s) : s.Covered :=
  h.invariant_under (J := Inv) (fun _ => inv_reach) (by rintro _ rfl _ ⟨w, hw⟩; cases hw)
    (fun _ _ _ hinv hs _ hstep => covered_step hinv hs (step_cases hstep))

/-- **No wake-up is lost.**  While the pool runs and a worker sleeps, the queued tasks are no more than the workers that
will come to the queue and the signals still to come; so the workers do not all sleep on a queued task with no signal to
come. -/
theorem no_lost_wakeup {s : ThreadPool n ε τ} (h : Machine.Reach (· = start) step s) (hstop : s.stop = false)
    {w : Fin n} (hw : s.worker w = .asleep) :
    s.taskQueue.length ≤ tally WorkerPc.isAvailable s.worker + tally EnqueuerPc.isPending s.enqueuer ∧
      ¬ ((∀ w', s.worker w' = .asleep) ∧ s.taskQueue ≠ [] ∧ ∀ e, (s.enqueuer e).isPending = false) := by
  have hcovered := covered_reach h hstop ⟨w, hw⟩
  refine ⟨hcovered, fun ⟨hasleep, hqueue, hpending⟩ => hqueue ?_⟩
  have hworkers : tally WorkerPc.isAvailable s.worker = 0 := tally_eq_zero (fun w' => by rw [hasleep w']; rfl)
  rw [hworkers, tally_eq_zero hpending] at hcovered
  exact List.length_eq_zero_iff.1 (Nat.le_zero.1 hcovered)

/-- One of two workers sleeps while a task waits, with its signal to come. -/
theorem no_lost_wakeup_signal_to_come : ∃ s : ThreadPool 2 Unit Nat,
    Machine.exec step start [.worker 0, .worker 0, .worker 0, .worker 1, .worker 1, .worker 1, .enqueue () 7,
      .enqueuer (), .enqueuer (), .enqueuer ()] = some s ∧ s.taskQueue = [7] ∧ s.worker 0 = .asleep ∧
    s.taskQueue.length ≤ tally WorkerPc.isAvailable s.worker + tally EnqueuerPc.isPending s.enqueuer := by
  obtain ⟨s, hs, hqueue, hstop, hw⟩ : ∃ s : ThreadPool 2 Unit Nat,
      Machine.exec step start [.worker 0, .worker 0, .worker 0, .worker 1, .worker 1, .worker 1, .enqueue () 7,
        .enqueuer (), .enqueuer (), .enqueuer ()] = some s ∧ s.taskQueue = [7] ∧ s.stop = false ∧
      s.worker 0 = .asleep := ⟨_, rfl, rfl, rfl, rfl⟩
  exact ⟨s, hs, hqueue, hw, (no_lost_wakeup (.exec _ (.start rfl) hs) hstop hw).1⟩

end ThreadPool
end ChatRoom
