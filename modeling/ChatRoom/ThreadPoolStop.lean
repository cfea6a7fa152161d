import ChatRoom.ThreadPoolFifo
import Mathlib.Data.List.Perm.Basic
/-!
# ThreadPoolStop — what the pool has done when its destructor returns

Once `stop_` is set a worker that comes to `if (stop_)` leaves, so each starts at most the one task it was already on
its way to (`stop_step`).  The destructor returns when every worker has left (`Joined`).  With the log of the tasks that
returned kept beside the pool (`Watched`), what the workers started is then what they finished, and what they popped
(`graceful_stop`).
-/
namespace ChatRoom

/-- A worker past `if (stop_)` that has not started its task yet. -/
def WorkerPc.committed {τ : Type} : WorkerPc τ → Nat
  | .pop => 1
  | .unlock _ => 1
  | .run _ => 1
  | _ => 0

theorem WorkerPc.committed_le_one {τ : Type} (pc : WorkerPc τ) : pc.committed ≤ 1 := by
  cases pc <;> simp [WorkerPc.committed]

namespace ThreadPool

variable {n : Nat} {ε τ : Type}

/-! ## After the store -/

/-- A worker starts nothing that it is not on its way to. -/
def StartsLeft (s t : ThreadPool n ε τ) : Prop :=
  ∀ w, ∃ more, tasksOf w t.started = tasksOf w s.started ++ more ∧
    more.length + (t.worker w).committed ≤ (s.worker w).committed

theorem StartsLeft.refl (s : ThreadPool n ε τ) : s.StartsLeft s := fun _ => ⟨[], by simp, by simp⟩

theorem StartsLeft.trans {s t u : ThreadPool n ε τ} (hst : s.StartsLeft t) (htu : t.StartsLeft u) : s.StartsLeft u := by
  intro w
  obtain ⟨more, hmore, hlen⟩ := hst w
  obtain ⟨more', hmore', hlen'⟩ := htu w
  refine ⟨more ++ more', by rw [hmore', hmore, List.append_assoc], ?_⟩
  rw [List.length_append]
  omega

/-- A worker moves and starts nothing. -/
theorem startsLeft_moveWorker {s t : ThreadPool n ε τ} {w : Fin n} {pc : WorkerPc τ} (hstarted : t.started = s.started)
    (hworker : t.worker = (s.moveWorker w pc).worker)
    (hpc : pc.committed ≤ (s.worker w).committed) : s.StartsLeft t := by
  have hle : ∀ w', ((s.moveWorker w pc).worker w').committed ≤ (s.worker w').committed :=
    forall_moveWorker s (P := fun w' pc => pc.committed ≤ (s.worker w').committed) hpc (fun _ _ => Nat.le_refl _)
  intro w'
  refine ⟨[], by rw [hstarted, List.append_nil], ?_⟩
  rw [hworker, List.length_nil, Nat.zero_add]
  exact hle w'

/-- No worker moves. -/
theorem startsLeft_of_eq {s t : ThreadPool n ε τ} (hstarted : t.started = s.started) (hworker : t.worker = s.worker) :
    s.StartsLeft t := fun _ => ⟨[], by rw [hstarted, List.append_nil], by rw [hworker, List.length_nil, Nat.zero_add]⟩

section Stopping
variable [DecidableEq ε]

/-- **After the store of `stop_`** a step starts only what a worker was committed to. -/
theorem stop_step {s t : ThreadPool n ε τ} {a : Act n ε τ} (hstop : s.stop = true) (h : Step s a t) :
    t.stop = true ∧ s.StartsLeft t := by
  cases h with
  | lock w hpc hfree => exact ⟨hstop, startsLeft_moveWorker rfl rfl (Nat.zero_le _)⟩
  | wait w hpc hstop' => rw [hstop] at hstop'; cases hstop'
  | proceed w hpc hready => exact ⟨hstop, startsLeft_moveWorker rfl rfl (Nat.zero_le _)⟩
  | sleep w hpc => exact ⟨hstop, startsLeft_moveWorker rfl rfl (Nat.zero_le _)⟩
  | leave w hpc hstop' => exact ⟨hstop, startsLeft_moveWorker rfl rfl (Nat.zero_le _)⟩
  | take w hpc hstop' => rw [hstop] at hstop'; cases hstop'
  | pop w task rest hpc hqueue => exact ⟨hstop, startsLeft_moveWorker rfl rfl (by rw [hpc]; exact Nat.le_refl 1)⟩
  | unlock w task hpc => exact ⟨hstop, startsLeft_moveWorker rfl rfl (by rw [hpc]; exact Nat.le_refl 1)⟩
  | run w task hpc =>
    refine ⟨hstop, ?_⟩
    apply forall_moveWorker s (P := fun w' pc => ∃ more, tasksOf w' (s.started ++ [(w, task)]) =
      tasksOf w' s.started ++ more ∧ more.length + pc.committed ≤ (s.worker w').committed)
    · exact ⟨[task], tasksOf_append_self w s.started task, by rw [hpc]; exact Nat.le_refl 1⟩
    · intro w' hw
      refine ⟨[], ?_, by simp⟩
      rw [tasksOf_append_of_ne hw, List.append_nil]
  | finish w task hpc => exact ⟨hstop, startsLeft_moveWorker rfl rfl (Nat.zero_le _)⟩
  | exit w hpc => exact ⟨hstop, startsLeft_moveWorker rfl rfl (Nat.zero_le _)⟩
  | spurious w hpc => exact ⟨hstop, startsLeft_moveWorker rfl rfl (Nat.zero_le _)⟩
  | signal e w hpc hasleep =>
    have hworker : ((s.moveWorker w .woken).moveEnqueuer e .idle).worker = (s.moveWorker w .woken).worker := rfl
    exact ⟨hstop, startsLeft_moveWorker rfl hworker (Nat.zero_le _)⟩
  | store hpc => exact ⟨rfl, startsLeft_of_eq rfl rfl⟩
  | broadcast hpc =>
    have hwake : ∀ pc : WorkerPc τ, pc.wake.committed = pc.committed := fun pc => by cases pc <;> rfl
    refine ⟨hstop, fun w => ⟨[], by rw [List.append_nil], ?_⟩⟩
    rw [hwake, List.length_nil, Nat.zero_add]
  | _ => exact ⟨hstop, startsLeft_of_eq rfl rfl⟩

/-- **After the store each worker starts one task more at most.** -/
theorem one_more_start : ∀ (as : List (Act n ε τ)) {s t : ThreadPool n ε τ}, s.stop = true →
    Machine.exec step s as = some t →
    ∀ w, ∃ more, tasksOf w t.started = tasksOf w s.started ++ more ∧ more.length ≤ 1 := by
  have hrun : ∀ (as : List (Act n ε τ)) {s t : ThreadPool n ε τ}, s.stop = true → Machine.exec step s as = some t →
      s.StartsLeft t := by
    intro as
    induction as with
    | nil => intro s t _ h; cases h; exact .refl s
    | cons a as ih =>
      intro s t hstop h
      rw [Machine.exec, Option.bind_eq_some_iff] at h
      obtain ⟨u, hu, ht⟩ := h
      obtain ⟨hstop', hleft⟩ := stop_step hstop (step_cases hu)
      exact hleft.trans (ih hstop' ht)
  intro as s t hstop h w
  obtain ⟨more, hmore, hlen⟩ := hrun as hstop h w
  have hone := (s.worker w).committed_le_one
  exact ⟨more, hmore, by omega⟩

/-! ## The joins -/

/-- The workers that the destructor has joined have left. -/
def Joined (s : ThreadPool n ε τ) : Prop :=
  match s.destructor with
  | .joining i => ∀ w : Fin n, w < i → s.worker w = .exited
  | .destroyed => ∀ w, s.worker w = .exited
  | _ => True

/-- A worker that has left takes no step. -/
theorem exited_step {s t : ThreadPool n ε τ} {a : Act n ε τ} (h : Step s a t) {w : Fin n} (hw : s.worker w = .exited) :
    t.worker w = .exited := by
  rcases worker_step h w with hsame | rfl | ⟨hsleep, -⟩
  · rw [hsame, hw]
  · cases h with
    | lock _ hpc => rcases hpc with hpc | hpc <;> rw [hw] at hpc <;> cases hpc
    | wait _ hpc => rw [hw] at hpc; cases hpc
    | proceed _ hpc => rw [hw] at hpc; cases hpc
    | sleep _ hpc => rw [hw] at hpc; cases hpc
    | leave _ hpc => rw [hw] at hpc; cases hpc
    | take _ hpc => rw [hw] at hpc; cases hpc
    | pop _ _ _ hpc => rw [hw] at hpc; cases hpc
    | unlock _ _ hpc => rw [hw] at hpc; cases hpc
    | run _ _ hpc => rw [hw] at hpc; cases hpc
    | finish _ _ hpc => rw [hw] at hpc; cases hpc
    | exit _ hpc => rw [hw] at hpc; cases hpc
  · rw [hw] at hsleep
    cases hsleep

/-- **The destructor has joined what it says.** -/
theorem joined_step {s t : ThreadPool n ε τ} {a : Act n ε τ} (hs : s.Joined) (h : Step s a t) : t.Joined := by
  have hexited : ∀ w, s.worker w = .exited → t.worker w = .exited := fun _ hw => exited_step h hw
  have hkeep : t.destructor = s.destructor → t.Joined := by
    intro hd
    unfold Joined at hs ⊢
    rw [hd]
    cases hpc : s.destructor with
    | joining i =>
      rw [hpc] at hs
      exact fun w hw => hexited w (hs w hw)
    | destroyed =>
      rw [hpc] at hs
      exact fun w => hexited w (hs w)
    | _ => trivial
  cases h with
  | store hpc => trivial
  | broadcast hpc => exact fun w hw => absurd hw (Nat.not_lt_zero _)
  | join i hpc hleft =>
    unfold Joined at hs
    rw [hpc] at hs
    intro w hw
    rcases Nat.lt_succ_iff_lt_or_eq.1 hw with hlt | heq
    · exact hs w hlt
    · rw [Fin.ext heq]
      exact hleft
  | destroyed i hpc hall =>
    unfold Joined at hs
    rw [hpc] at hs
    exact fun w => hs w (Nat.lt_of_lt_of_le w.isLt hall)
  | _ => exact hkeep rfl

theorem joined_reach {s : ThreadPool n ε τ} (h : Machine.Reach (· = start) step s) : s.Joined :=
  h.invariant (by rintro _ rfl; trivial) (fun _ _ _ hs _ hstep => joined_step hs (step_cases hstep))

end Stopping

/-! ## The tasks that returned -/

/-- The pool, and who finished which task. -/
structure Watched (n : Nat) (ε τ : Type) where
  pool : ThreadPool n ε τ
  finished : List (Fin n × τ)

/-- The task that returns in a step. -/
def returned (s : ThreadPool n ε τ) : Act n ε τ → List (Fin n × τ)
  | .worker w =>
    match s.worker w with
    | .running task => [(w, task)]
    | _ => []
  | _ => []

def Watched.start : Watched n ε τ := ⟨ThreadPool.start, []⟩

/-- The task a worker is in. -/
def inTask : WorkerPc τ → List τ
  | .running task => [task]
  | _ => []

/-- A worker's tasks are those it finished and the one it is in. -/
def Accounted (s : ThreadPool n ε τ) (finished : List (Fin n × τ)) : Prop :=
  ∀ w, tasksOf w s.started = tasksOf w finished ++ inTask (s.worker w)

theorem accounted_moveWorker {s : ThreadPool n ε τ} {finished : List (Fin n × τ)} (hs : s.Accounted finished)
    {w : Fin n}
    {pc pc' : WorkerPc τ} (hpc : s.worker w = pc) (hin : inTask pc = inTask pc') :
    ∀ w', tasksOf w' s.started = tasksOf w' finished ++ inTask ((s.moveWorker w pc').worker w') := by
  apply forall_moveWorker s (P := fun w' pc => tasksOf w' s.started = tasksOf w' finished ++ inTask pc)
  · rw [← hin, ← hpc]; exact hs w
  · exact fun w' _ => hs w'

theorem accounted_run {s : ThreadPool n ε τ} {finished : List (Fin n × τ)} (hs : s.Accounted finished) {w : Fin n}
    {task : τ} (hpc : s.worker w = .run task) :
    ∀ w', tasksOf w' (s.started ++ [(w, task)]) =
      tasksOf w' finished ++ inTask ((s.moveWorker w (.running task)).worker w') := by
  apply forall_moveWorker s (P := fun w' pc => tasksOf w' (s.started ++ [(w, task)]) = tasksOf w' finished ++ inTask pc)
  · have hbefore := hs w
    rw [hpc] at hbefore
    rw [tasksOf_append_self, hbefore]
    simp [inTask]
  · intro w' hw'
    rw [tasksOf_append_of_ne hw']
    exact hs w'

theorem accounted_finish {s : ThreadPool n ε τ} {finished : List (Fin n × τ)} (hs : s.Accounted finished) {w : Fin n}
    {task : τ} (hpc : s.worker w = .running task) :
    ∀ w', tasksOf w' s.started = tasksOf w' (finished ++ [(w, task)]) ++ inTask ((s.moveWorker w .lock).worker w') := by
  apply forall_moveWorker s (P := fun w' pc => tasksOf w' s.started = tasksOf w' (finished ++ [(w, task)]) ++ inTask pc)
  · have hbefore := hs w
    rw [hpc] at hbefore
    rw [tasksOf_append_self, hbefore]
    simp [inTask]
  · intro w' hw'
    rw [tasksOf_append_of_ne hw']
    exact hs w'

/-- Logs in which every worker has the same tasks hold the same tasks. -/
theorem perm_of_tasksOf {l l' : List (Fin n × τ)} (h : ∀ w, tasksOf w l = tasksOf w l') : l.Perm l' := by
  classical
  have hcount : ∀ (w : Fin n) (task : τ) (l : List (Fin n × τ)), l.count (w, task) = (tasksOf w l).count task := by
    intro w task l
    rw [tasksOf, List.count_filterMap, List.count_eq_countP]
    apply List.countP_congr
    rintro ⟨w', task'⟩ -
    by_cases hw : w' = w
    · simp [hw]
    · simp [hw]
  rw [List.perm_iff_count]
  rintro ⟨w, task⟩
  rw [hcount, hcount, h w]

variable [DecidableEq ε]

def Watched.step (s : Watched n ε τ) (a : Act n ε τ) : Option (Watched n ε τ) :=
  (ThreadPool.step s.pool a).map (fun pool => ⟨pool, s.finished ++ returned s.pool a⟩)

/-- **Every step keeps the account of finished tasks.** -/
theorem accounted_step {s t : ThreadPool n ε τ} {a : Act n ε τ} {finished : List (Fin n × τ)}
    (hs : s.Accounted finished) (h : Step s a t) : t.Accounted (finished ++ returned s a) := by
  have hnone : returned s a = [] → finished ++ returned s a = finished := fun h => by rw [h, List.append_nil]
  cases h with
  | lock w hpc hfree =>
    rw [hnone (by rcases hpc with hpc | hpc <;> simp [returned, hpc])]
    rcases hpc with hpc | hpc
    · exact accounted_moveWorker hs hpc rfl
    · exact accounted_moveWorker hs hpc rfl
  | wait w hpc => rw [hnone (by simp [returned, hpc])]; exact accounted_moveWorker hs hpc rfl
  | proceed w hpc => rw [hnone (by simp [returned, hpc])]; exact accounted_moveWorker hs hpc rfl
  | sleep w hpc => rw [hnone (by simp [returned, hpc])]; exact accounted_moveWorker hs hpc rfl
  | leave w hpc => rw [hnone (by simp [returned, hpc])]; exact accounted_moveWorker hs hpc rfl
  | take w hpc => rw [hnone (by simp [returned, hpc])]; exact accounted_moveWorker hs hpc rfl
  | pop w task rest hpc => rw [hnone (by simp [returned, hpc])]; exact accounted_moveWorker hs hpc rfl
  | unlock w task hpc => rw [hnone (by simp [returned, hpc])]; exact accounted_moveWorker hs hpc rfl
  | run w task hpc => rw [hnone (by simp [returned, hpc])]; exact accounted_run hs hpc
  | finish w task hpc =>
    have hone : returned s (.worker w) = [(w, task)] := by simp [returned, hpc]
    rw [hone]
    exact accounted_finish hs hpc
  | exit w hpc => rw [hnone (by simp [returned, hpc])]; exact accounted_moveWorker hs hpc rfl
  | spurious w hpc => rw [hnone rfl]; exact accounted_moveWorker hs hpc rfl
  | signal e w hpc hasleep => rw [hnone rfl]; exact accounted_moveWorker hs hasleep rfl
  | broadcast hpc =>
    have hwake : ∀ pc : WorkerPc τ, inTask pc.wake = inTask pc := fun pc => by cases pc <;> rfl
    rw [hnone rfl]
    intro w
    show _ = _ ++ inTask (s.worker w).wake
    rw [hwake]
    exact hs w
  | _ => rw [hnone rfl]; exact hs

/-- What is watched is a run of the pool. -/
theorem watched_reach {s : Watched n ε τ} (h : Machine.Reach (· = Watched.start) Watched.step s) :
    Machine.Reach (· = ThreadPool.start) ThreadPool.step s.pool ∧ s.pool.Accounted s.finished := by
  refine h.invariant (I := fun s => Machine.Reach (· = ThreadPool.start) ThreadPool.step s.pool ∧
    s.pool.Accounted s.finished) ?_ ?_
  · rintro _ rfl
    exact ⟨.start rfl, fun _ => rfl⟩
  · intro s t a ⟨hreach, hacc⟩ _ hstep
    obtain ⟨pool, hpool, rfl⟩ := Option.map_eq_some_iff.1 hstep
    exact ⟨hreach.after hpool, accounted_step hacc (step_cases hpool)⟩

theorem exec_pool : ∀ (as : List (Act n ε τ)) {s t : Watched n ε τ}, Machine.exec Watched.step s as = some t →
    Machine.exec ThreadPool.step s.pool as = some t.pool
  | [], _, _, h => by cases h; rfl
  | a :: as, s, t, h => by
    rw [Machine.exec, Option.bind_eq_some_iff] at h ⊢
    obtain ⟨u, hu, ht⟩ := h
    obtain ⟨pool, hpool, rfl⟩ := Option.map_eq_some_iff.1 hu
    exact ⟨pool, hpool, exec_pool as ht⟩

/-- **Graceful stop.**  After `stop_` is set each worker starts one task more at most.  When the destructor has
returned, what a worker started is what it finished, in order; every worker has left its loop and does not hold the
lock; and the tasks pushed are those started and those still in the queue. -/
theorem graceful_stop {s : Watched n ε τ} (h : Machine.Reach (· = Watched.start) Watched.step s) :
    (s.pool.stop = true → ∀ (as : List (Act n ε τ)) (t : Watched n ε τ), Machine.exec Watched.step s as = some t →
      ∀ w, ∃ more, tasksOf w t.pool.started = tasksOf w s.pool.started ++ more ∧ more.length ≤ 1) ∧
    (s.pool.destructor = .destroyed →
      (∀ w, tasksOf w s.pool.started = tasksOf w s.finished) ∧
      (∀ w, s.pool.worker w = .exited ∧ s.pool.queueMutex ≠ some (.inl w)) ∧
      s.pool.pushed.Perm (s.pool.started.map Prod.snd ++ s.pool.taskQueue)) := by
  obtain ⟨hreach, hacc⟩ := watched_reach h
  constructor
  · intro hstop as t hexec
    apply one_more_start as hstop
    exact exec_pool as hexec
  · intro hdestroyed
    have hexited : ∀ w, s.pool.worker w = .exited := by
      have := joined_reach hreach
      unfold Joined at this
      rw [hdestroyed] at this
      exact this
    refine ⟨fun w => ?_, fun w => ⟨hexited w, fun howner => ?_⟩, ?_⟩
    · have := hacc w
      rw [hexited w] at this
      simpa [inTask] using this
    · -- the owner of the lock is in the critical section
      have hin := ((inv_reach hreach).guarded (.inl w)).2 howner
      have hout : s.pool.holding (.inl w) = false := by
        show (s.pool.worker w).holds = false
        rw [hexited w]
        rfl
      rw [hout] at hin
      cases hin
    · obtain ⟨horder, hhands⟩ := ledger_reach hreach
      rw [horder]
      apply List.Perm.append_right
      apply List.Perm.map
      apply perm_of_tasksOf
      intro w
      have := hhands w
      rw [hexited w] at this
      simpa [inHand] using this

/-- One worker: a task in progress at the store is finished, then the pool is gone. -/
theorem graceful_stop_one_task : ∃ s : Watched 1 Unit Nat,
    Machine.exec Watched.step Watched.start
      [.enqueue () 7, .enqueuer (), .enqueuer (), .enqueuer (), .signal () none, .enqueue () 8, .enqueuer (),
        .enqueuer (), .enqueuer (), .signal () none, .worker 0, .worker 0, .worker 0, .worker 0, .worker 0, .worker 0,
        .destructor, .destructor, .worker 0, .worker 0, .worker 0, .worker 0, .worker 0, .destructor,
        .destructor] = some s ∧
    s.pool.destructor = .destroyed ∧ s.finished = [(0, 7)] ∧ tasksOf 0 s.pool.started = tasksOf 0 s.finished ∧
    s.pool.pushed.Perm (s.pool.started.map Prod.snd ++ [8]) := by
  obtain ⟨s, hs, hdestroyed, hfinished, hqueue⟩ : ∃ s : Watched 1 Unit Nat, Machine.exec Watched.step Watched.start
      [.enqueue () 7, .enqueuer (), .enqueuer (), .enqueuer (), .signal () none, .enqueue () 8, .enqueuer (),
        .enqueuer (), .enqueuer (), .signal () none, .worker 0, .worker 0, .worker 0, .worker 0, .worker 0, .worker 0,
        .destructor, .destructor, .worker 0, .worker 0, .worker 0, .worker 0, .worker 0, .destructor,
        .destructor] = some s ∧
      s.pool.destructor = .destroyed ∧ s.finished = [(0, 7)] ∧ s.pool.taskQueue = [8] := ⟨_, rfl, rfl, rfl, rfl⟩
  obtain ⟨hsame, -, hperm⟩ := (graceful_stop (.exec _ (.start rfl) hs)).2 hdestroyed
  rw [hqueue] at hperm
  exact ⟨s, hs, hdestroyed, hfinished, hsame 0, hperm⟩

end ThreadPool
end ChatRoom
