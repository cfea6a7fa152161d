import ChatRoom.Settling
import ChatRoom.ThreadPoolFifo
import ChatRoom.ThreadPoolShutdown
import ChatRoom.ThreadPoolStop
import ChatRoom.ThreadPoolWake
/-!
# ThreadPoolProgress — the pool gets its work done

What the pool's threads do by themselves, between one call from outside and the next, comes to an end: every step takes
some of the `work` that is left (`work_step`).  It ends with every worker asleep, or in a task that does not return, and
with a task in the queue only when they all are in such tasks (`tasks_settle`).  Once the destructor has broadcast, and
was heard, it ends with the destructor returned, unless a worker is in such a task (`shutdown_completes`).
-/
namespace ChatRoom

/-- The steps a worker has before it, and those it makes others take. -/
def WorkerPc.work {τ : Type} : WorkerPc τ → Nat
  | .lock => 4
  | .test => 3
  | .wait => 1
  | .asleep => 0
  | .woken => 4
  | .checkStop => 2
  | .pop => 1
  | .unlock _ => 7
  | .run _ => 6
  | .running _ => 5
  | .unlockStop => 1
  | .exited => 0

def EnqueuerPc.work {τ : Type} : EnqueuerPc τ → Nat
  | .idle => 0
  | .lock _ => 15
  | .push _ => 14
  | .unlock => 6
  | .signal => 5

/-- A broadcast may wake them all. -/
def DestructorPc.work (numThreads : Nat) : DestructorPc → Nat
  | .store => 5 * numThreads + 3
  | .broadcast => 5 * numThreads + 2
  | .joining i => numThreads - i + 1
  | .destroyed => 0

theorem WorkerPc.work_wake_le {τ : Type} (pc : WorkerPc τ) : pc.wake.work ≤ pc.work + 4 := by
  cases pc <;> simp [WorkerPc.wake, WorkerPc.work]

/-- On its way out of `workerLoop`, or out. -/
def WorkerPc.isLeaving {τ : Type} : WorkerPc τ → Bool
  | .unlockStop => true
  | .exited => true
  | _ => false

namespace ThreadPool

open Tally (total total_update total_le_add)

variable {n : Nat} {ε τ : Type}

/-- The steps of the pool's own threads: all but new calls of `enqueue`, spurious wake-ups, the return of a task that
blocks, and, while it is not `closing`, the destructor. -/
def Internal (blocks : Fin n → τ → Prop) (closing : Prop) (s : ThreadPool n ε τ) : Act n ε τ → Prop
  | .worker w => ∀ task, s.worker w = .running task → ¬ blocks w task
  | .spurious _ => False
  | .enqueue _ _ => False
  | .enqueuer _ => True
  | .signal _ _ => True
  | .destructor => closing

section Work
variable [Fintype ε]

/-- A task in the queue is worth the steps of the worker that will run it. -/
def work (s : ThreadPool n ε τ) : Nat :=
  total WorkerPc.work s.worker + total EnqueuerPc.work s.enqueuer + 7 * s.taskQueue.length + s.destructor.work n

theorem work_moveWorker (s : ThreadPool n ε τ) (w : Fin n) (pc : WorkerPc τ) :
    (s.moveWorker w pc).work + (s.worker w).work = s.work + pc.work := by
  have := total_update WorkerPc.work s.worker w pc
  unfold work moveWorker
  dsimp only
  omega

theorem work_queue (s : ThreadPool n ε τ) (queue pushed : List τ) (popped : List (Fin n × τ)) :
    ThreadPool.work { s with taskQueue := queue, pushed := pushed, popped := popped } + 7 * s.taskQueue.length =
      s.work + 7 * queue.length := by
  unfold work
  dsimp only
  omega

variable [DecidableEq ε]

theorem work_moveEnqueuer (s : ThreadPool n ε τ) (e : ε) (pc : EnqueuerPc τ) :
    (s.moveEnqueuer e pc).work + (s.enqueuer e).work = s.work + pc.work := by
  have := total_update EnqueuerPc.work s.enqueuer e pc
  unfold work moveEnqueuer
  dsimp only
  omega

/-- **Every step of the pool's own takes work away.** -/
theorem work_step {blocks : Fin n → τ → Prop} {closing : Prop} {s t : ThreadPool n ε τ} {a : Act n ε τ}
    (ha : s.Internal blocks closing a) (h : Step s a t) : t.work < s.work := by
  -- a worker moves, or an enqueuing thread, and the rest weighs the same
  have hworker : ∀ {s' : ThreadPool n ε τ} {w : Fin n} {pc : WorkerPc τ}, s'.work = s.work → s'.worker = s.worker →
      pc.work < (s.worker w).work → (s'.moveWorker w pc).work < s.work := by
    intro s' w pc hwork hsame hless
    have := work_moveWorker s' w pc
    rw [hsame] at this
    omega
  have henqueuer : ∀ {s' : ThreadPool n ε τ} {e : ε} {pc : EnqueuerPc τ}, s'.work = s.work → s'.enqueuer = s.enqueuer →
      pc.work < (s.enqueuer e).work → (s'.moveEnqueuer e pc).work < s.work := by
    intro s' e pc hwork hsame hless
    have := work_moveEnqueuer s' e pc
    rw [hsame] at this
    omega
  cases h with
  | lock w hpc hfree =>
    refine hworker rfl rfl ?_
    rcases hpc with hpc | hpc <;> simp [hpc, WorkerPc.work]
  | wait w hpc => exact hworker rfl rfl (by simp [hpc, WorkerPc.work])
  | proceed w hpc => exact hworker rfl rfl (by simp [hpc, WorkerPc.work])
  | sleep w hpc => exact hworker rfl rfl (by simp [hpc, WorkerPc.work])
  | leave w hpc => exact hworker rfl rfl (by simp [hpc, WorkerPc.work])
  | take w hpc => exact hworker rfl rfl (by simp [hpc, WorkerPc.work])
  | pop w task rest hpc hqueue =>
    have hqueue' := work_queue s rest s.pushed (s.popped ++ [(w, task)])
    have hmove := work_moveWorker { s with taskQueue := rest, popped := s.popped ++ [(w, task)] } w (.unlock task)
    simp only [hpc, hqueue, List.length_cons, WorkerPc.work] at hmove hqueue'
    omega
  | unlock w task hpc => exact hworker rfl rfl (by simp [hpc, WorkerPc.work])
  | run w task hpc => exact hworker rfl rfl (by simp [hpc, WorkerPc.work])
  | finish w task hpc => exact hworker rfl rfl (by simp [hpc, WorkerPc.work])
  | exit w hpc => exact hworker rfl rfl (by simp [hpc, WorkerPc.work])
  | spurious w hpc => exact ha.elim
  | enqueue e task hpc => exact ha.elim
  | enqueueLock e task hpc hfree => exact henqueuer rfl rfl (by simp [hpc, EnqueuerPc.work])
  | push e task hpc =>
    have hqueue := work_queue s (s.taskQueue ++ [task]) (s.pushed ++ [task]) s.popped
    have hmove :=
      work_moveEnqueuer { s with taskQueue := s.taskQueue ++ [task], pushed := s.pushed ++ [task] } e .unlock
    simp only [hpc, List.length_append, List.length_singleton, EnqueuerPc.work] at hmove hqueue
    omega
  | enqueueUnlock e hpc => exact henqueuer rfl rfl (by simp [hpc, EnqueuerPc.work])
  | signal e w hpc hasleep =>
    have hwoken := work_moveWorker s w .woken
    have hidle := work_moveEnqueuer (s.moveWorker w .woken) e .idle
    have hsame : (s.moveWorker w .woken).enqueuer e = .signal := hpc
    simp only [hasleep, hsame, WorkerPc.work, EnqueuerPc.work] at hwoken hidle
    omega
  | signalNone e hpc hnone => exact henqueuer rfl rfl (by simp [hpc, EnqueuerPc.work])
  | store hpc =>
    unfold work
    rw [hpc]
    simp only [DestructorPc.work]
    omega
  | broadcast hpc =>
    have hwake := total_le_add (f := s.worker) (g := fun w => (s.worker w).wake) (fun w => (s.worker w).work_wake_le)
    rw [Fintype.card_fin] at hwake
    unfold work
    rw [hpc]
    simp only [DestructorPc.work]
    omega
  | join i hpc hexited =>
    have := i.isLt
    unfold work
    rw [hpc]
    simp only [DestructorPc.work]
    omega
  | destroyed i hpc hall =>
    unfold work
    rw [hpc]
    simp only [DestructorPc.work]
    omega

end Work

/-! ## Where the steps end -/

variable [DecidableEq ε]

section Settled
variable {blocks : Fin n → τ → Prop} {closing : Prop} {s : ThreadPool n ε τ}

/-- The thread in the critical section has a step. -/
theorem settled_unlocked (hinv : s.Inv) (h : Machine.Settled step (Internal blocks closing) s) :
    s.queueMutex = none := by
  cases howner : s.queueMutex with
  | none => rfl
  | some t =>
    have hin := (hinv.guarded t).2 howner
    cases t with
    | inl w =>
      have hholds : (s.worker w).holds = true := hin
      have hok : s.Internal blocks closing (.worker w) := by
        intro task htask
        rw [htask] at hholds
        cases hholds
      have hnone := h (.worker w) hok
      have hknows := hinv.knows w
      simp only [step, workerLoop] at hnone
      split at hnone
      · rename_i hpc; rw [hpc] at hholds; cases hholds
      · cases hnone
      · cases hnone
      · rename_i hpc; rw [hpc] at hholds; cases hholds
      · rename_i hpc; rw [hpc] at hholds; cases hholds
      · cases hnone
      · -- at `front()` there is a task
        rename_i hpc
        rw [hpc] at hknows
        split at hnone
        · cases hnone
        · rename_i hempty; exact absurd hempty hknows
      · cases hnone
      · cases hnone
      · cases hnone
      · cases hnone
      · rename_i hpc; rw [hpc] at hholds; cases hholds
    | inr e =>
      have hholds : (s.enqueuer e).holds = true := hin
      have hnone := h (.enqueuer e) trivial
      simp only [step, enqueueNext] at hnone
      split at hnone
      · rename_i hpc; rw [hpc] at hholds; cases hholds
      · cases hnone
      · cases hnone
      · rename_i hpush hunlock
        cases hpc : s.enqueuer e with
        | push task => exact absurd hpc (hpush task)
        | unlock => exact absurd hpc hunlock
        | _ => rw [hpc] at hholds; cases hholds

/-- A worker with no step sleeps, has left, or is in a task that does not return. -/
theorem settled_worker (hinv : s.Inv) (h : Machine.Settled step (Internal blocks closing) s) (w : Fin n) :
    s.worker w = .asleep ∨ s.worker w = .exited ∨ ∃ task, blocks w task ∧ s.worker w = .running task := by
  have hfree := settled_unlocked hinv h
  have hmove : (∀ task, s.worker w ≠ .running task) → s.workerLoop w = none :=
    fun hout => h (.worker w) (fun task htask => absurd htask (hout task))
  have hout : (s.worker w).holds = false := by
    by_contra hin
    have := (hinv.guarded (.inl w)).1 (Bool.eq_true_of_not_eq_false hin)
    rw [hfree] at this
    cases this
  cases hpc : s.worker w with
  | asleep => exact .inl rfl
  | exited => exact .inr (.inl rfl)
  | running task =>
    by_cases hblocks : blocks w task
    · exact .inr (.inr ⟨task, hblocks, rfl⟩)
    · have hnone := h (.worker w) (fun task' htask' => by rw [hpc] at htask'; cases htask'; exact hblocks)
      simp only [step, workerLoop, hpc] at hnone
      cases hnone
  | run task =>
    have hnone := hmove (by simp [hpc])
    simp only [workerLoop, hpc] at hnone
    cases hnone
  | lock =>
    have hnone := hmove (by simp [hpc])
    simp [workerLoop, hpc, hfree] at hnone
  | woken =>
    have hnone := hmove (by simp [hpc])
    simp [workerLoop, hpc, hfree] at hnone
  | _ => rw [hpc] at hout; cases hout

theorem settled_enqueuer (hinv : s.Inv) (h : Machine.Settled step (Internal blocks closing) s) (e : ε) :
    s.enqueuer e = .idle := by
  have hfree := settled_unlocked hinv h
  have hnone : s.enqueueNext e = none := h (.enqueuer e) trivial
  cases hpc : s.enqueuer e with
  | idle => rfl
  | lock task => simp [enqueueNext, hpc, hfree] at hnone
  | push task => simp [enqueueNext, hpc] at hnone
  | unlock => simp [enqueueNext, hpc] at hnone
  | signal =>
    -- a sleeper is woken, or there is none
    by_cases hasleep : ∃ w, s.worker w = .asleep
    · obtain ⟨w, hw⟩ := hasleep
      have hnone := h (.signal e (some w)) trivial
      simp [step, condSignal, hpc, hw, WorkerPc.isAsleep] at hnone
    · have hnone := h (.signal e none) trivial
      have hawake : ∀ w, (s.worker w).isAsleep = false := fun w =>
        Bool.eq_false_iff.2 (fun hw => hasleep ⟨w, (isAsleep_iff _).1 hw⟩)
      simp [step, condSignal, hpc, hawake] at hnone

end Settled

/-- **Workers leave only after the store of `stop_`.** -/
theorem leaving_step {s t : ThreadPool n ε τ} {a : Act n ε τ}
    (hs : ∀ w, (s.worker w).isLeaving = true → s.stop = true) (h : Step s a t) :
    ∀ w, (t.worker w).isLeaving = true → t.stop = true := by
  have hmove : ∀ (w : Fin n) (pc : WorkerPc τ), (pc.isLeaving = true → s.stop = true) →
      ∀ w', ((s.moveWorker w pc).worker w').isLeaving = true → s.stop = true :=
    fun w pc hpc => forall_moveWorker s (P := fun _ pc => pc.isLeaving = true → s.stop = true) hpc (fun w' _ => hs w')
  cases h with
  | lock w hpc hfree => exact hmove w .test nofun
  | wait w hpc => exact hmove w .wait nofun
  | proceed w hpc => exact hmove w .checkStop nofun
  | sleep w hpc => exact hmove w .asleep nofun
  | leave w hpc hstop => exact hmove w .unlockStop (fun _ => hstop)
  | take w hpc => exact hmove w .pop nofun
  | pop w task rest hpc => exact hmove w (.unlock task) nofun
  | unlock w task hpc => exact hmove w (.run task) nofun
  | run w task hpc => exact hmove w (.running task) nofun
  | finish w task hpc => exact hmove w .lock nofun
  | exit w hpc => exact hmove w .exited (fun _ => hs w (by rw [hpc]; rfl))
  | spurious w hpc => exact hmove w .woken nofun
  | signal e w hpc hasleep => exact hmove w .woken nofun
  | store hpc => exact fun _ _ => rfl
  | broadcast hpc =>
    have hwake : ∀ pc : WorkerPc τ, pc.wake.isLeaving = pc.isLeaving := fun pc => by cases pc <;> rfl
    intro w hw
    exact hs w (by rw [← hwake]; exact hw)
  | _ => exact hs

theorem leaving_reach {s : ThreadPool n ε τ} (h : Machine.Reach (· = start) step s) :
    ∀ w, (s.worker w).isLeaving = true → s.stop = true :=
  h.invariant (by rintro _ rfl w hw; cases hw) (fun _ _ _ hs _ hstep => leaving_step hs (step_cases hstep))

/-- Only the destructor sets `stop_`. -/
theorem stop_of_ne {s t : ThreadPool n ε τ} {a : Act n ε τ} (ha : a ≠ .destructor) (h : Step s a t) :
    t.stop = s.stop := by
  cases h with
  | store hpc => exact absurd rfl ha
  | _ => rfl

/-- What was pushed is what was started and what is in the queue, when no worker has a task in hand. -/
theorem perm_started {s : ThreadPool n ε τ} (h : Machine.Reach (· = start) step s)
    (hhands : ∀ w, inHand (s.worker w) = []) : s.pushed.Perm (s.started.map Prod.snd ++ s.taskQueue) := by
  have hledger := ledger_reach h
  rw [hledger.order]
  refine List.Perm.append_right _ (List.Perm.map _ (perm_of_tasksOf (fun w => ?_)))
  rw [hledger.hands w, hhands w, List.append_nil]

variable [Fintype ε]

/-- Where the pool has no step left while it runs. -/
theorem settled_running {blocks : Fin n → τ → Prop} {s : ThreadPool n ε τ} (h : Machine.Reach (· = start) step s)
    (hstop : s.stop = false) (hsettled : Machine.Settled step (Internal blocks False) s) :
    (∀ w, s.worker w = .asleep ∨ ∃ task, blocks w task ∧ s.worker w = .running task) ∧
      (s.taskQueue = [] ∨ ∀ w, ∃ task, blocks w task ∧ s.worker w = .running task) := by
  have hinv := inv_reach h
  have hworker : ∀ w, s.worker w = .asleep ∨ ∃ task, blocks w task ∧ s.worker w = .running task := by
    intro w
    rcases settled_worker hinv hsettled w with hasleep | hexited | hrunning
    · exact .inl hasleep
    · have hleft := leaving_reach h w (by rw [hexited]; rfl)
      rw [hstop] at hleft
      cases hleft
    · exact .inr hrunning
  refine ⟨hworker, ?_⟩
  by_cases hasleep : ∃ w, s.worker w = .asleep
  · -- a worker sleeps, and nobody is there to cover a task
    have hcovered := covered_reach h hstop hasleep
    have hnone : Tally.tally WorkerPc.isAvailable s.worker = 0 := by
      refine Tally.tally_eq_zero (fun w => ?_)
      rcases hworker w with hw | ⟨task, -, hw⟩ <;> rw [hw] <;> rfl
    have hnobody : Tally.tally EnqueuerPc.isPending s.enqueuer = 0 :=
      Tally.tally_eq_zero (fun e => by rw [settled_enqueuer hinv hsettled e]; rfl)
    rw [hnone, hnobody] at hcovered
    exact .inl (List.length_eq_zero_iff.1 (Nat.le_zero.1 hcovered))
  · exact .inr (fun w => (hworker w).resolve_left (fun hw => hasleep ⟨w, hw⟩))

/-- **The pool gets its work done.**  From any reachable state with `stop_` unset, whichever tasks block: a run of the
pool's own steps is no longer than the work that is left, and one of them leads to a state with no step left.  There
every `enqueue` has returned, each worker sleeps or is in a task that blocks, every task that was pushed is started or
in the queue, and if one is in the queue all the workers are in tasks that block. -/
theorem tasks_settle (blocks : Fin n → τ → Prop) {s : ThreadPool n ε τ} (h : Machine.Reach (· = start) step s)
    (hstop : s.stop = false) :
    (∀ as t, Machine.Meets step (Internal blocks False) s as → Machine.exec step s as = some t → as.length ≤ s.work) ∧
      (∃ as t, Machine.Meets step (Internal blocks False) s as ∧ Machine.exec step s as = some t ∧
        Machine.Settled step (Internal blocks False) t) ∧
      ∀ as t, Machine.Meets step (Internal blocks False) s as → Machine.exec step s as = some t →
        Machine.Settled step (Internal blocks False) t →
          (∀ e, t.enqueuer e = .idle) ∧
          (∀ w, t.worker w = .asleep ∨ ∃ task, blocks w task ∧ t.worker w = .running task) ∧
          t.pushed.Perm (t.started.map Prod.snd ++ t.taskQueue) ∧
          (t.taskQueue = [] ∨ ∀ w, ∃ task, blocks w task ∧ t.worker w = .running task) := by
  have hdecrease : ∀ (s : ThreadPool n ε τ) (a : Act n ε τ) (t : ThreadPool n ε τ), s.Internal blocks False a →
      step s a = some t → t.work < s.work := fun s a t ha hstep => work_step ha (step_cases hstep)
  refine ⟨fun as t hok hexec => ?_, Machine.exists_settled hdecrease s, fun as t hok hexec hsettled => ?_⟩
  · have := Machine.length_le_of_exec hdecrease as hok hexec
    omega
  · have hreach : Machine.Reach (· = start) step t := .exec as h hexec
    have hrun : t.stop = false :=
      Machine.exec_invariant (I := fun s => s.stop = false)
        (fun s t a hs ha hstep => (stop_of_ne (by rintro rfl; exact ha) (step_cases hstep)).trans hs) as hstop hok hexec
    obtain ⟨hworker, hqueue⟩ := settled_running hreach hrun hsettled
    refine ⟨settled_enqueuer (inv_reach hreach) hsettled, hworker, perm_started hreach (fun w => ?_), hqueue⟩
    rcases hworker w with hasleep | ⟨task, -, hrunning⟩
    · rw [hasleep]; rfl
    · rw [hrunning]; rfl

/-- One worker, and a task that does not return: the next one stays in the queue. -/
theorem tasks_settle_one : ∃ s t : ThreadPool 1 Unit Nat,
    Machine.exec step start
      [.enqueue () 7, .enqueuer (), .enqueuer (), .enqueuer (), .signal () none, .enqueue () 8, .enqueuer (),
        .enqueuer (), .enqueuer (), .signal () none, .worker 0, .worker 0, .worker 0, .worker 0, .worker 0] = some s ∧
    Machine.exec step s [.worker 0] = some t ∧ 1 ≤ s.work ∧ t.worker 0 = .running 7 ∧
    t.pushed.Perm (t.started.map Prod.snd ++ [8]) ∧ ∀ w, ∃ task, task = 7 ∧ t.worker w = .running task := by
  obtain ⟨s, t, hs, hstop, ht, hmeets, hrunning, hqueue, hsettled⟩ : ∃ s t : ThreadPool 1 Unit Nat,
      Machine.exec step start
        [.enqueue () 7, .enqueuer (), .enqueuer (), .enqueuer (), .signal () none, .enqueue () 8, .enqueuer (),
          .enqueuer (), .enqueuer (), .signal () none, .worker 0, .worker 0, .worker 0, .worker 0, .worker 0] = some s ∧
      s.stop = false ∧ Machine.exec step s [.worker 0] = some t ∧
      Machine.Meets step (Internal (fun _ task => task = 7) False) s [.worker 0] ∧ t.worker 0 = .running 7 ∧
      t.taskQueue = [8] ∧ Machine.Settled step (Internal (fun _ task => task = 7) False) t := by
    refine ⟨_, _, rfl, rfl, rfl, ⟨nofun, fun _ _ => trivial⟩, rfl, rfl, fun a ha => ?_⟩
    cases a with
    | worker w =>
      rw [Fin.eq_zero w] at ha
      exact absurd rfl (ha 7 rfl)
    | spurious w => exact ha.elim
    | enqueue e task => exact ha.elim
    | enqueuer e => rfl
    | signal e wakes => rfl
    | destructor => exact ha.elim
  obtain ⟨hbound, -, hall⟩ := tasks_settle (fun _ task => task = 7) (.exec _ (.start rfl) hs) hstop
  obtain ⟨-, -, hperm, hempty | hblocked⟩ := hall _ t hmeets ht hsettled
  · rw [hqueue] at hempty
    cases hempty
  · rw [hqueue] at hperm
    exact ⟨s, t, hs, ht, hbound _ t hmeets ht, hrunning, hperm, hblocked⟩

/-! ## Shutdown -/

/-- The steps of the pool's own while it is destroyed, in which the broadcast is heard. -/
def Closing (blocks : Fin n → τ → Prop) (s : ThreadPool n ε τ) (a : Act n ε τ) : Prop :=
  s.Internal blocks True a ∧ s.BroadcastHeard a

omit [Fintype ε] in
/-- Where the pool has no step left and is to be destroyed. -/
theorem settled_closing {blocks : Fin n → τ → Prop} {s : ThreadPool n ε τ}
    (h : Machine.ReachIf (· = start) step BroadcastHeard s) (hsettled : Machine.Settled step (Closing blocks) s) :
    s.destructor = .destroyed ∨ ∃ w task, blocks w task ∧ s.worker w = .running task := by
  have hpool : Machine.Settled step (Internal blocks False) s := fun a ha => by
    cases a with
    | destructor => exact ha.elim
    | _ => exact hsettled _ ⟨ha, trivial⟩
  have hworker := settled_worker (inv_reach h.reach) hpool
  have hdestroy : s.BroadcastHeard .destructor → s.destroy = none :=
    fun hheard => hsettled .destructor ⟨trivial, hheard⟩
  cases hpc : s.destructor with
  | destroyed => exact .inl rfl
  | store =>
    have hnone := hdestroy (fun hb => by rw [hpc] at hb; cases hb)
    simp [destroy, hpc] at hnone
  | broadcast =>
    have hnone := hdestroy (fun _ w hw => by
      rcases hworker w with hw' | hw' | ⟨task, -, hw'⟩ <;> rw [hw] at hw' <;> cases hw')
    simp [destroy, hpc] at hnone
  | joining i =>
    have hnone := hdestroy (fun hb => by rw [hpc] at hb; cases hb)
    by_cases hi : i < n
    · -- the worker that is joined was woken, and has not left
      rcases hworker ⟨i, hi⟩ with hw | hw | ⟨task, hblocks, hw⟩
      · have hup := (alarmed_reach h).up i hpc ⟨i, hi⟩
        rw [hw] at hup
        cases hup
      · simp [destroy, hpc, hi, hw, WorkerPc.isExited] at hnone
      · exact .inr ⟨⟨i, hi⟩, task, hblocks, hw⟩
    · simp [destroy, hpc, hi] at hnone

/-- **The destructor returns, unless a task blocks.**  In every run whose broadcasts are heard, whichever tasks block:
what is left of the run is bounded by the work that is left, one continuation leads to a state with no step left, and in
every such state the destructor has returned or a worker is in a task that blocks. -/
theorem shutdown_completes (blocks : Fin n → τ → Prop) {s : ThreadPool n ε τ}
    (h : Machine.ReachIf (· = start) step BroadcastHeard s) :
    (∀ as t, Machine.Meets step (Closing blocks) s as → Machine.exec step s as = some t → as.length ≤ s.work) ∧
      (∃ as t, Machine.Meets step (Closing blocks) s as ∧ Machine.exec step s as = some t ∧
        Machine.Settled step (Closing blocks) t) ∧
      ∀ as t, Machine.Meets step (Closing blocks) s as → Machine.exec step s as = some t →
        Machine.Settled step (Closing blocks) t →
          t.destructor = .destroyed ∨ ∃ w task, blocks w task ∧ t.worker w = .running task := by
  have hdecrease : ∀ (s : ThreadPool n ε τ) (a : Act n ε τ) (t : ThreadPool n ε τ), s.Closing blocks a →
      step s a = some t → t.work < s.work := fun s a t ha hstep => work_step ha.1 (step_cases hstep)
  refine ⟨fun as t hok hexec => ?_, Machine.exists_settled hdecrease s, fun as t hok hexec hsettled => ?_⟩
  · have := Machine.length_le_of_exec hdecrease as hok hexec
    omega
  · exact settled_closing (.along (fun _ _ ha => ha.2) as h hok hexec) hsettled

/-- One worker asleep, and tasks that all return: the destructor comes to its end. -/
theorem shutdown_completes_asleep : ∃ s t : ThreadPool 1 Unit Nat,
    Machine.exec step start [.worker 0, .worker 0, .worker 0] = some s ∧
    (∃ as, Machine.Meets step (Closing (fun _ _ => False)) s as ∧ Machine.exec step s as = some t) ∧
    t.destructor = .destroyed := by
  let falls : List (Act 1 Unit Nat) := [.worker 0, .worker 0, .worker 0]
  obtain ⟨s, hs⟩ : ∃ s, Machine.exec step start falls = some s := ⟨_, rfl⟩
  have hreach : Machine.ReachIf (· = start) step BroadcastHeard s := by
    refine .along (fun _ _ ha => ha) falls (.start rfl) (Machine.meets_of_forall falls _ (fun a ha _ => ?_)) hs
    simp only [falls, List.mem_cons, List.not_mem_nil, or_false, or_self] at ha
    rw [ha]
    trivial
  obtain ⟨-, ⟨as, t, hok, hexec, hsettled⟩, hall⟩ := shutdown_completes (fun _ _ => False) hreach
  rcases hall as t hok hexec hsettled with hdestroyed | ⟨w, task, hno, -⟩
  · exact ⟨s, t, hs, ⟨as, hok, hexec⟩, hdestroyed⟩
  · exact hno.elim

end ThreadPool

end ChatRoom
