import ChatRoom.ServerStop
/-!
# ServerFifo — clients are served in the order in which they came

The sockets that `accept` returned are, in order, those that workers popped, those in the queue, and the one on its way
there.  A worker serves what it popped one after the other: the connection it is in is that of the last task it started
(`served_in_order`).
-/
namespace ChatRoom

namespace ThreadPool

variable {n : Nat} {τ : Type}

/-- The tasks handed to `enqueue`: pushed, or still in the hand of the enqueuing thread. -/
def handedOver (s : ThreadPool n Unit τ) : List τ := s.pushed ++ (s.enqueuer ()).hand

theorem handedOver_step {s t : ThreadPool n Unit τ} {a : Act n Unit τ} (h : Step s a t) :
    t.handedOver = s.handedOver ++ brought a := by
  cases h with
  | enqueue e task hpc => simp [handedOver, moveEnqueuer, brought, hpc, EnqueuerPc.hand]
  | enqueueLock e task hpc hfree => simp [handedOver, moveEnqueuer, brought, hpc, EnqueuerPc.hand]
  | push e task hpc => simp [handedOver, moveEnqueuer, brought, hpc, EnqueuerPc.hand]
  | enqueueUnlock e hpc => simp [handedOver, moveEnqueuer, brought, hpc, EnqueuerPc.hand]
  | signal e w hpc hasleep => simp [handedOver, moveEnqueuer, moveWorker, brought, hpc, EnqueuerPc.hand]
  | signalNone e hpc hnone => simp [handedOver, moveEnqueuer, brought, hpc, EnqueuerPc.hand]
  | _ => exact (List.append_nil _).symm

/-- A step that starts no task. -/
theorem started_step {s t : ThreadPool n Unit τ} {a : Act n Unit τ} (h : Step s a t)
    (hno : ∀ w, a = .worker w → ∀ task, s.worker w ≠ .run task) : t.started = s.started := by
  cases h with
  | run w task hpc => exact absurd hpc (hno w rfl task)
  | _ => rfl

end ThreadPool

namespace Server

open ThreadPool (tasksOf inHand)

variable {n : Nat}

/-- The sockets that `accept` returned, in order. -/
def opened (log : List (Int × Descriptor.Op)) : List Int :=
  log.filterMap (fun e => if e.2 = .opened then some e.1 else none)

theorem opened_append_of_ne (log : List (Int × Descriptor.Op)) (fd : Int) {op : Descriptor.Op} (h : op ≠ .opened) :
    opened (log ++ [(fd, op)]) = opened log := by
  simp [opened, h]

theorem opened_closeAll : ∀ (events : List Event) (s : Server n), opened (s.closeAll events).log = opened s.log
  | [], _ => rfl
  | .close fd :: events, s => by
    rw [closeAll, opened_closeAll events]
    exact opened_append_of_ne s.log fd (by decide)
  | .call _ :: events, s => opened_closeAll events s
  | .sent _ :: events, s => opened_closeAll events s

/-- The last task that the worker started is for this socket. -/
def LastStarted (s : Server n) (w : Fin n) (fd : Int) : Prop :=
  ((tasksOf w s.pool.started).getLast?).map ClientTask.clientSocket = some fd

structure InOrder (s : Server n) : Prop where
  came : opened s.log = (s.pool.handedOver ++ s.acceptLoop.hand).map ClientTask.clientSocket
  serving : ∀ w fd, (s.task w).owns fd = true → s.LastStarted w fd

/-- A worker goes on with its connection, or leaves it. -/
theorem InOrder.move {s t : Server n} (hs : s.InOrder) {w : Fin n} {pc : TaskPc} (hpool : t.pool = s.pool)
    (haccept : t.acceptLoop = s.acceptLoop) (hlog : opened t.log = opened s.log)
    (htask : t.task = Function.update s.task w pc) (hpc : ∀ fd, pc.owns fd = true → (s.task w).owns fd = true) :
    t.InOrder := by
  refine ⟨by rw [hlog, hpool, haccept]; exact hs.came, fun w' fd howns => ?_⟩
  have hbefore : (s.task w').owns fd = true := by
    rw [htask] at howns
    by_cases hw : w' = w
    · subst hw
      rw [Function.update_self] at howns
      exact hpc fd howns
    · rwa [Function.update_of_ne hw] at howns
  unfold LastStarted
  rw [hpool]
  exact hs.serving w' fd hbefore

/-- A step of the pool that starts no task. -/
theorem InOrder.withPool {s : Server n} (hs : s.InOrder) {a : ThreadPool.Act n Unit ClientTask}
    {pool : ThreadPool n Unit ClientTask} (hpool : ThreadPool.step s.pool a = some pool)
    (hbrought : ThreadPool.brought a = [])
    (hno : ∀ w, a = .worker w → ∀ task, s.pool.worker w ≠ .run task) : (s.withPool pool).InOrder := by
  have hstep := ThreadPool.step_cases hpool
  refine ⟨?_, fun w fd howns => ?_⟩
  · show opened s.log = (pool.handedOver ++ s.acceptLoop.hand).map _
    rw [ThreadPool.handedOver_step hstep, hbrought, List.append_nil]
    exact hs.came
  · show ((tasksOf w pool.started).getLast?).map _ = _
    rw [ThreadPool.started_step hstep hno]
    exact hs.serving w fd howns

theorem inOrder_run {s : Server n} (hs : s.InOrder) {w : Fin n} {task : ClientTask}
    {pool : ThreadPool n Unit ClientTask}
    (hpc : s.pool.worker w = .run task) (hpool : ThreadPool.step s.pool (.worker w) = some pool) :
    ((s.withPool pool).moveTask w (.construct task)).InOrder := by
  have hstarted : pool.started = s.pool.started ++ [(w, task)] := by
    have h : s.pool.workerLoop w = some pool := hpool
    unfold ThreadPool.workerLoop at h
    rw [hpc] at h
    cases h
    rfl
  refine ⟨?_, fun w' fd howns => ?_⟩
  · show opened s.log = (pool.handedOver ++ s.acceptLoop.hand).map _
    have hbrought : ThreadPool.brought (.worker w : ThreadPool.Act n Unit ClientTask) = [] := rfl
    rw [ThreadPool.handedOver_step (ThreadPool.step_cases hpool), hbrought, List.append_nil]
    exact hs.came
  · show ((tasksOf w' pool.started).getLast?).map _ = _
    rw [hstarted]
    by_cases hw : w' = w
    · subst hw
      rw [ThreadPool.tasksOf_append_self, List.getLast?_concat]
      have hfd : (TaskPc.construct task).owns fd = true := by simpa [moveTask] using howns
      simpa [TaskPc.owns] using hfd
    · rw [ThreadPool.tasksOf_append_of_ne hw]
      refine hs.serving w' fd ?_
      simpa [moveTask, withPool, Function.update_of_ne hw] using howns

/-- A step of the accept loop. -/
theorem InOrder.accept {s t : Server n} (hs : s.InOrder) (htask : t.task = s.task)
    (hstarted : t.pool.started = s.pool.started)
    (hcame : opened t.log = (t.pool.handedOver ++ t.acceptLoop.hand).map ClientTask.clientSocket) : t.InOrder := by
  refine ⟨hcame, fun w fd howns => ?_⟩
  unfold LastStarted
  rw [hstarted]
  exact hs.serving w fd (htask ▸ howns)

theorem inOrder_step {s t : Server n} {a : Act n} (hs : s.InOrder) (h : Step s a t) : t.InOrder := by
  have hcame := hs.came
  -- nothing is in the hand of the accept loop, before the step or after it
  have hempty : ∀ pc : AcceptPc, s.acceptLoop.hand = [] → pc.hand = [] →
      opened s.log = (s.pool.handedOver ++ pc.hand).map ClientTask.clientSocket := by
    intro pc hbefore hafter
    rw [hafter, ← hbefore]
    exact hcame
  have hused : ∀ fd, opened (s.log ++ [(fd, .used)]) = opened s.log := fun fd =>
    opened_append_of_ne s.log fd (by decide)
  cases h with
  | begin incoming hpc => exact hs.accept rfl rfl (hempty .test (by rw [hpc]; rfl) rfl)
  | loop incoming hpc => exact hs.accept rfl rfl (hempty _ (by rw [hpc]; rfl) (by split <;> rfl))
  | accept incoming hpc => exact hs.accept rfl rfl (hempty _ (by rw [hpc]; rfl) (by split <;> rfl))
  | acceptFailed hpc => exact hs.accept rfl rfl (hempty .test (by rw [hpc]; rfl) rfl)
  | enqueued incoming hpc hidle => exact hs.accept rfl rfl (hempty .test (by rw [hpc]; rfl) rfl)
  | accepted task hpc hfree =>
    refine hs.accept rfl rfl ?_
    rw [hpc] at hcame
    simp only [AcceptPc.hand, List.append_nil] at hcame
    simp only [opened, AcceptPc.hand, List.filterMap_append, List.map_append] at hcame ⊢
    rw [hcame]
    rfl
  | enqueue incoming task pool hpc hpool =>
    have hstep := ThreadPool.step_cases hpool
    refine hs.accept rfl (ThreadPool.started_step hstep (fun w hw => by cases hw)) ?_
    rw [hpc] at hcame
    rw [ThreadPool.handedOver_step hstep]
    simp only [AcceptPc.hand, ThreadPool.brought, List.append_nil] at hcame ⊢
    exact hcame
  | run w task pool hpc hpool => exact inOrder_run hs hpc hpool
  | finish w task pool hpc hidle hpool =>
    refine hs.withPool hpool rfl (fun w' hw' task' => ?_)
    cases hw'
    simp [hpc]
  | pool a pool hother hworker hbrought hpool =>
    exact hs.withPool hpool hbrought (fun w hw task => (hworker w hw task).1)
  | destroyPool pool hpc hpool => exact hs.withPool hpool rfl (fun w hw => by cases hw)
  | construct w received task hpc =>
    exact hs.move rfl rfl rfl rfl (fun fd howns => by rw [hpc]; exact howns)
  | receive w conn bytes hpc hsize => exact hs.move rfl rfl (hused _) rfl (fun fd howns => by rw [hpc]; exact howns)
  | hangUp w received conn hpc => exact hs.move rfl rfl (hused _) rfl (fun fd howns => by rw [hpc]; exact howns)
  | notConnected w received conn hpc hno => exact hs.move rfl rfl rfl rfl (fun fd howns => by rw [hpc]; exact howns)
  | process w received conn data m hpc hm => exact hs.move rfl rfl rfl rfl (fun fd howns => by rw [hpc]; exact howns)
  | processUnknown w received conn data hpc hm hno =>
    exact hs.move rfl rfl rfl rfl (fun fd howns => by rw [hpc]; exact howns)
  | send w received conn reply hpc => exact hs.move rfl rfl (hused _) rfl (fun fd howns => by rw [hpc]; exact howns)
  | sendFailed w conn reply hpc => exact hs.move rfl rfl (hused _) rfl (fun fd howns => by rw [hpc]; exact howns)
  | killed w conn reply hpc => exact ⟨(hused _).trans hs.came, hs.serving⟩
  | close w received conn hpc =>
    exact hs.move (closeAll_cases _ s (fun _ _ => rfl)) (closeAll_cases _ s (fun _ _ => rfl)) (opened_closeAll _ s)
      (closeAll_cases _ s (fun _ _ => rfl)) (fun fd howns => by cases howns)
  | destruct w received conn hpc =>
    exact hs.move (closeAll_cases _ s (fun _ _ => rfl)) (closeAll_cases _ s (fun _ _ => rfl)) (opened_closeAll _ s)
      (closeAll_cases _ s (fun _ _ => rfl)) (fun fd howns => by cases howns)
  | stop running listening stopper hlistening => exact ⟨hs.came, hs.serving⟩
  | shutdown running listening destructor hpc hlistening hclosed hon => exact ⟨hs.came, hs.serving⟩
  | destroyUserManager hpc => exact ⟨hs.came, hs.serving⟩

theorem inOrder_reach {s : Server n} (h : Machine.Reach (· = start) step s) : s.InOrder :=
  h.invariant (by rintro _ rfl; exact ⟨rfl, fun _ _ howns => by cases howns⟩)
    (fun _ _ _ hs _ hstep => inOrder_step hs (step_cases hstep))

/-- **Clients are served in the order in which they came**: the sockets that `accept` returned are those that workers
popped, then those in the queue, then the one that the accept loop is handing over, all in order; and a worker that has
a connection has it from the last of the tasks it popped, which it starts in the order in which it pops them. -/
theorem served_in_order {s : Server n} (h : Machine.Reach (· = start) step s) :
    opened s.log = (s.pool.popped.map Prod.snd ++ s.pool.taskQueue ++ (s.pool.enqueuer ()).hand ++
        s.acceptLoop.hand).map ClientTask.clientSocket ∧
      ((s.pool.enqueuer ()).hand ++ s.acceptLoop.hand).length ≤ 1 ∧
      ∀ w fd, (s.task w).owns fd = true →
        ((tasksOf w s.pool.popped).getLast?).map ClientTask.clientSocket = some fd := by
  have hledger := ThreadPool.ledger_reach (pool_reach h)
  refine ⟨?_, ?_, fun w fd howns => ?_⟩
  · rw [(inOrder_reach h).came, ThreadPool.handedOver, hledger.order]
  · have hparked : s.Parked :=
      h.invariant (by rintro _ rfl; exact fun _ => rfl) (fun _ _ _ hs _ hstep => parked_step hs (step_cases hstep))
    have hle := handed_le hparked
    unfold handed ThreadPool.handedIn at hle
    rw [List.length_append]
    omega
  · -- the worker is in its task, so nothing that it popped waits to be started
    have hrunning : ∃ task, s.pool.worker w = .running task := by
      by_contra hno
      rw [not_exists] at hno
      rw [(inv_reach h).idle w hno] at howns
      cases howns
    obtain ⟨task, hpc⟩ := hrunning
    have hnone : inHand (.running task) = [] := rfl
    rw [hledger.hands w, hpc, hnone, List.append_nil]
    exact (inOrder_reach h).serving w fd howns

/-- One worker: it has socket 5, accepted first, and socket 6 waits. -/
theorem served_in_order_two : ∃ s : Server 1,
    Machine.exec step start (starts ++ accepts 5 ++ accepts 6 ++ takes) = some s ∧ opened s.log = [5, 6] ∧
      (s.task 0).owns 5 = true ∧ ((tasksOf 0 s.pool.popped).getLast?).map ClientTask.clientSocket = some 5 := by
  obtain ⟨s, hs, hopened, howns⟩ : ∃ s : Server 1,
      Machine.exec step start (starts ++ accepts 5 ++ accepts 6 ++ takes) = some s ∧ opened s.log = [5, 6] ∧
        (s.task 0).owns 5 = true := ⟨_, rfl, rfl, rfl⟩
  exact ⟨s, hs, hopened, howns, (served_in_order (.exec _ (.start rfl) hs)).2.2 0 5 howns⟩

end Server

end ChatRoom
