import ChatRoom.Server
/-!
# ServerSockets — who closes the accepted sockets

An accepted socket has one owner as long as it is open: the accept loop, the pool with a pending task, or the connection
of a worker in its task (`Inv.owned`).  The owner uses it, hands it on, or closes it.  So when `~ThreadPool` has
returned every socket has been closed once, but for those of the tasks that no worker popped and one that `accept`
returned later (`closed_iff`): nothing closes these.
-/
namespace ChatRoom

def AcceptPc.hand : AcceptPc → List ClientTask
  | .enqueue task => [task]
  | _ => []

/-- The task is to close this socket. -/
def TaskPc.owns (fd : Int) : TaskPc → Bool
  | .construct task => task.clientSocket = fd
  | .receive conn => conn.socketFd = fd
  | .process conn _ => conn.socketFd = fd
  | .send conn _ => conn.socketFd = fd
  | .close conn => conn.socketFd = fd
  | _ => false

/-- The connection is open up to the `closeConnection` of `handleClient`, and not after. -/
def TaskPc.Ok : TaskPc → Prop
  | .receive conn => conn.connected = true ∧ 0 ≤ conn.socketFd
  | .process conn _ => conn.connected = true ∧ 0 ≤ conn.socketFd
  | .send conn _ => conn.connected = true ∧ 0 ≤ conn.socketFd
  | .close conn => conn.connected = true ∧ 0 ≤ conn.socketFd
  | .destruct conn => conn.connected = false
  | _ => True

theorem closeConnection_open {conn : Connection} (h : conn.connected = true ∧ 0 ≤ conn.socketFd) :
    conn.closeConnection = ({ conn with socketFd := -1, connected := false }, [.close conn.socketFd]) := by
  unfold Connection.closeConnection
  rw [h.1, if_neg (by decide), if_pos h.2]

theorem closeConnection_closed {conn : Connection} (h : conn.connected = false) :
    conn.closeConnection = (conn, []) := by
  unfold Connection.closeConnection
  rw [h, if_pos (by decide)]

namespace Server

variable {n : Nat}

def isAt (fd : Int) (task : ClientTask) : Bool := task.clientSocket = fd

/-- How many have this socket. -/
def owners (s : Server n) (fd : Int) : Nat :=
  s.acceptLoop.hand.countP (isAt fd) + s.pool.pending (isAt fd) + Tally.tally (TaskPc.owns fd) s.task

structure Inv (s : Server n) : Prop where
  idle : ∀ w, (∀ task, s.pool.worker w ≠ .running task) → s.task w = .idle
  ok : ∀ w, (s.task w).Ok
  tracked : Descriptor.Tracked s.log s.isOpen
  owned : ∀ fd, s.owners fd = (s.isOpen fd).toNat

/-! ## One step -/

theorem inv_start : (start : Server n).Inv where
  idle := fun _ _ => rfl
  ok := fun _ => trivial
  tracked := Descriptor.tracked_nil
  owned := by
    intro fd
    have hpool : Tally.tally (fun pc => (ThreadPool.inHand pc).any (isAt fd))
        (fun _ : Fin n => (WorkerPc.lock : WorkerPc ClientTask)) = 0 := Tally.tally_eq_zero (fun _ => rfl)
    have htask : Tally.tally (TaskPc.owns fd) (fun _ : Fin n => TaskPc.idle) = 0 := Tally.tally_eq_zero (fun _ => rfl)
    unfold owners ThreadPool.pending start ThreadPool.start
    rw [hpool, htask]
    rfl

theorem Inv.ok_of {s : Server n} (hs : s.Inv) {w : Fin n} {pc : TaskPc} (hpc : s.task w = pc) : pc.Ok := hpc ▸ hs.ok w

theorem Inv.isOpen_of_owns {s : Server n} (hs : s.Inv) {w : Fin n} {fd : Int} (h : (s.task w).owns fd = true) :
    s.isOpen fd = true := by
  by_contra hclosed
  have howned := hs.owned fd
  have hzero : Tally.tally (TaskPc.owns fd) s.task = 0 := by
    rw [Bool.eq_false_iff.2 hclosed, Bool.toNat_false] at howned
    unfold owners at howned
    omega
  have := Tally.eq_false_of_tally_eq_zero hzero w
  rw [h] at this
  cases this

theorem ok_moveTask {s : Server n} (hs : s.Inv) (w : Fin n) {pc : TaskPc} (hpc : pc.Ok) :
    ∀ w', (Function.update s.task w pc w').Ok := by
  intro w'
  by_cases hw : w' = w
  · subst hw; rw [Function.update_self]; exact hpc
  · rw [Function.update_of_ne hw]; exact hs.ok w'

/-- A worker in its task stays in it. -/
theorem idle_moveTask {s : Server n} (hs : s.Inv) {w : Fin n} (hbusy : s.task w ≠ .idle) (pc : TaskPc) :
    ∀ w', (∀ task, s.pool.worker w' ≠ .running task) → Function.update s.task w pc w' = .idle := by
  intro w' hw'
  have hww : w' ≠ w := by
    rintro rfl
    exact hbusy (hs.idle w' hw')
  rw [Function.update_of_ne hww]
  exact hs.idle w' hw'

/-- A task moves on and keeps its socket. -/
theorem owners_moveTask {s : Server n} {w : Fin n} {pc : TaskPc} (fd : Int)
    (howns : pc.owns fd = (s.task w).owns fd) : (s.moveTask w pc).owners fd = s.owners fd := by
  have := Tally.tally_update (TaskPc.owns fd) s.task w pc
  unfold owners moveTask
  dsimp only
  rw [howns] at this
  omega

theorem inv_moveTask {s : Server n} (hs : s.Inv) {w : Fin n} (hbusy : s.task w ≠ .idle) {pc : TaskPc} (hok : pc.Ok)
    (howns : ∀ fd, pc.owns fd = (s.task w).owns fd) : (s.moveTask w pc).Inv where
  idle := idle_moveTask hs hbusy pc
  ok := ok_moveTask hs w hok
  tracked := hs.tracked
  owned := fun fd => (owners_moveTask fd (howns fd)).trans (hs.owned fd)

/-- A `recv` or `send` of the owner, which keeps the socket. -/
theorem inv_use {s : Server n} (hs : s.Inv) {w : Fin n} {fd : Int} {pc : TaskPc} (howner : (s.task w).owns fd = true)
    (hok : pc.Ok) (howns : ∀ fd', pc.owns fd' = (s.task w).owns fd') : ((s.use fd).moveTask w pc).Inv := by
  have hbusy : s.task w ≠ .idle := by
    intro hidle
    rw [hidle] at howner
    cases howner
  exact ⟨idle_moveTask hs hbusy pc, ok_moveTask hs w hok, hs.tracked.used (hs.isOpen_of_owns howner),
    fun fd' => (owners_moveTask fd' (howns fd')).trans (hs.owned fd')⟩

theorem inv_withPool {s : Server n} (hs : s.Inv) {a : ThreadPool.Act n Unit ClientTask}
    {pool : ThreadPool n Unit ClientTask} (hpool : ThreadPool.step s.pool a = some pool)
    (ha : ∀ w task, s.pool.worker w = .running task → a = .worker w → s.task w = .idle)
    (hstarting : s.pool.starting a = []) (hbrought : ThreadPool.brought a = []) : (s.withPool pool).Inv where
  idle := by
    intro w hw
    by_cases hrunning : ∃ task, s.pool.worker w = .running task ∧ a = .worker w
    · obtain ⟨task, ht, haw⟩ := hrunning
      exact ha w task ht haw
    · apply hs.idle w
      intro task ht
      apply hw task
      exact ThreadPool.running_step (ThreadPool.step_cases hpool) ht (fun haw => hrunning ⟨task, ht, haw⟩)
  ok := hs.ok
  tracked := hs.tracked
  owned := by
    intro fd
    have := ThreadPool.pending_step (isAt fd) (ThreadPool.step_cases hpool)
    rw [hstarting, hbrought] at this
    refine Eq.trans ?_ (hs.owned fd)
    unfold owners withPool
    dsimp only
    rw [Nat.add_right_cancel this]

/-- A step that leaves the sockets and who has them alone. -/
theorem inv_of_eq {s t : Server n} (hs : s.Inv) (hpool : t.pool = s.pool) (htask : t.task = s.task)
    (hopen : t.isOpen = s.isOpen) (hlog : t.log = s.log) (hhand : t.acceptLoop.hand = s.acceptLoop.hand) : t.Inv where
  idle := by rw [hpool, htask]; exact hs.idle
  ok := by rw [htask]; exact hs.ok
  tracked := by rw [hlog, hopen]; exact hs.tracked
  owned := by
    intro fd
    unfold owners
    rw [hpool, htask, hopen, hhand]
    exact hs.owned fd

theorem inv_accepted {s : Server n} (hs : s.Inv) {task : ClientTask} (hpc : s.acceptLoop = .accepting)
    (hfree : s.isOpen task.clientSocket = false) :
    ({ s with
      isOpen := Function.update s.isOpen task.clientSocket true
      log := s.log ++ [(task.clientSocket, .opened)]
      acceptLoop := .enqueue task } : Server n).Inv where
  idle := hs.idle
  ok := hs.ok
  tracked := hs.tracked.concat _ _ (by rw [hfree]; rfl)
  owned := by
    intro fd
    have howned := hs.owned fd
    have hhand : s.acceptLoop.hand = [] := by rw [hpc]; rfl
    unfold owners at howned ⊢
    rw [hhand, List.countP_nil] at howned
    by_cases hfd : fd = task.clientSocket
    · subst hfd
      have hone : [task].countP (isAt task.clientSocket) = 1 := by simp [isAt]
      rw [hfree, Bool.toNat_false] at howned
      simp only [AcceptPc.hand, hone, Function.update_self, Bool.toNat_true]
      omega
    · have hnone : [task].countP (isAt fd) = 0 := by simp [isAt, Ne.symm hfd]
      simp only [AcceptPc.hand, hnone, Function.update_of_ne hfd]
      exact howned

theorem inv_enqueue {s : Server n} (hs : s.Inv) {task : ClientTask} {pool : ThreadPool n Unit ClientTask}
    (hpc : s.acceptLoop = .enqueue task) (hpool : ThreadPool.step s.pool (.enqueue () task) = some pool) :
    ({ s with pool := pool, acceptLoop := .enqueuing } : Server n).Inv where
  idle := by
    intro w hw
    apply hs.idle w
    intro task' ht
    exact hw task' (ThreadPool.running_step (ThreadPool.step_cases hpool) ht nofun)
  ok := hs.ok
  tracked := hs.tracked
  owned := by
    intro fd
    have hpending := ThreadPool.pending_step (isAt fd) (ThreadPool.step_cases hpool)
    have hhand : s.acceptLoop.hand = [task] := by rw [hpc]; rfl
    have howned := hs.owned fd
    unfold owners at howned ⊢
    rw [hhand] at howned
    simp only [ThreadPool.starting, ThreadPool.brought, AcceptPc.hand, List.countP_nil] at hpending ⊢
    omega

/-- The task gets from the pool into the connection. -/
theorem inv_run {s : Server n} (hs : s.Inv) {w : Fin n} {task : ClientTask} {pool : ThreadPool n Unit ClientTask}
    (hpc : s.pool.worker w = .run task) (hpool : ThreadPool.step s.pool (.worker w) = some pool) :
    ((s.withPool pool).moveTask w (.construct task)).Inv where
  idle := by
    intro w' hw'
    have hrunning : pool.worker w = .running task := by
      have h : s.pool.workerLoop w = some pool := hpool
      unfold ThreadPool.workerLoop at h
      rw [hpc] at h
      cases h
      exact Function.update_self ..
    by_cases hww : w' = w
    · subst hww
      exact absurd hrunning (hw' task)
    · refine Eq.trans (Function.update_of_ne hww ..) (hs.idle w' ?_)
      intro task' ht
      exact hw' task' (ThreadPool.running_step (ThreadPool.step_cases hpool) ht (fun ha => hww (by cases ha; rfl)))
  ok := ok_moveTask hs w trivial
  tracked := hs.tracked
  owned := by
    intro fd
    have hpending := ThreadPool.pending_step (isAt fd) (ThreadPool.step_cases hpool)
    have hstarting : s.pool.starting (.worker w) = [task] := by unfold ThreadPool.starting; dsimp only; rw [hpc]
    have hidle : s.task w = .idle := hs.idle w (fun task' => by rw [hpc]; exact nofun)
    have htally := Tally.tally_update (TaskPc.owns fd) s.task w (.construct task)
    have howned := hs.owned fd
    unfold owners at howned
    unfold owners moveTask withPool
    rw [hstarting] at hpending
    rw [hidle] at htally
    simp only [ThreadPool.brought, List.countP_nil, List.countP_cons, isAt, TaskPc.owns, Bool.toNat_false]
      at hpending htally howned ⊢
    rw [← howned]
    by_cases hfd : task.clientSocket = fd
    · simp only [hfd, decide_true, if_true, Bool.toNat_true] at hpending htally ⊢
      omega
    · simp only [hfd, decide_false, Bool.toNat_false, if_neg (by decide : ¬ false = true)] at hpending htally ⊢
      omega

/-- The `closeConnection` of `handleClient` closes the socket, and nobody has it then. -/
theorem inv_close {s : Server n} (hs : s.Inv) {w : Fin n} {conn : Connection} (hpc : s.task w = .close conn) :
    ((s.closeAll conn.closeConnection.2).moveTask w (.destruct conn.closeConnection.1)).Inv := by
  have hok : conn.connected = true ∧ 0 ≤ conn.socketFd := hs.ok_of hpc
  have hopen : s.isOpen conn.socketFd = true := hs.isOpen_of_owns (w := w) (by rw [hpc]; simp [TaskPc.owns])
  rw [closeConnection_open hok]
  refine ⟨idle_moveTask hs (by rw [hpc]; exact nofun) _, ok_moveTask hs w rfl, ?_, ?_⟩
  · exact hs.tracked.concat _ _ (by rw [hopen]; rfl)
  · intro fd
    have htally := Tally.tally_update (TaskPc.owns fd) s.task w
      (.destruct { conn with socketFd := -1, connected := false })
    have howned := hs.owned fd
    unfold owners at howned
    unfold owners moveTask closeAll closeAll closeSocket
    rw [hpc] at htally
    simp only [TaskPc.owns, Bool.toNat_false] at htally howned ⊢
    by_cases hfd : conn.socketFd = fd
    · subst hfd
      rw [hopen, Bool.toNat_true] at howned
      rw [Function.update_self, Bool.toNat_false]
      simp only [decide_true, Bool.toNat_true] at htally
      omega
    · rw [Function.update_of_ne (Ne.symm hfd)]
      simp only [hfd, decide_false, Bool.toNat_false] at htally
      omega

/-- The one of the destructor finds it closed. -/
theorem inv_destruct {s : Server n} (hs : s.Inv) {w : Fin n} {conn : Connection} (hpc : s.task w = .destruct conn) :
    ((s.closeAll conn.closeConnection.2).moveTask w .idle).Inv := by
  have hok : conn.connected = false := hs.ok_of hpc
  rw [closeConnection_closed hok]
  exact inv_moveTask hs (by rw [hpc]; exact nofun) trivial (fun fd => by rw [hpc]; rfl)

/-- **A step keeps the owners.** -/
theorem inv_step {s t : Server n} {a : Act n} (hs : s.Inv) (h : Step s a t) : t.Inv := by
  cases h with
  | begin incoming hpc => exact inv_of_eq hs rfl rfl rfl rfl (by rw [hpc]; rfl)
  | loop incoming hpc =>
    refine inv_of_eq hs rfl rfl rfl rfl ?_
    rw [hpc]
    dsimp only
    split <;> rfl
  | accept incoming hpc =>
    refine inv_of_eq hs rfl rfl rfl rfl ?_
    rw [hpc]
    dsimp only
    split <;> rfl
  | acceptFailed hpc => exact inv_of_eq hs rfl rfl rfl rfl (by rw [hpc]; rfl)
  | accepted task hpc hfree => exact inv_accepted hs hpc hfree
  | enqueue incoming task pool hpc hpool => exact inv_enqueue hs hpc hpool
  | enqueued incoming hpc hidle => exact inv_of_eq hs rfl rfl rfl rfl (by rw [hpc]; rfl)
  | run w task pool hpc hpool => exact inv_run hs hpc hpool
  | finish w task pool hpc hidle hpool =>
    refine inv_withPool hs hpool (fun w' task' ht ha => by cases ha; exact hidle) (ThreadPool.starting_eq_nil ?_) rfl
    intro w' hw' task'
    cases hw'
    rw [hpc]
    exact nofun
  | pool a pool hother hworker hbrought hpool =>
    refine inv_withPool hs hpool ?_ (ThreadPool.starting_eq_nil (fun w hw task => (hworker w hw task).1)) hbrought
    intro w task ht hw
    exact absurd ht (hworker w hw task).2
  | construct w received task hpc =>
    exact inv_moveTask hs (by rw [hpc]; exact nofun) ⟨rfl, task.accepted⟩ (fun fd => by rw [hpc]; rfl)
  | receive w conn bytes hpc hsize =>
    have hok : conn.connected = true ∧ 0 ≤ conn.socketFd := hs.ok_of hpc
    exact inv_use hs (by rw [hpc]; simp [TaskPc.owns]) hok (fun fd => by rw [hpc]; rfl)
  | hangUp w received conn hpc =>
    have hok : conn.connected = true ∧ 0 ≤ conn.socketFd := hs.ok_of hpc
    exact inv_use hs (by rw [hpc]; simp [TaskPc.owns]) hok (fun fd => by rw [hpc]; rfl)
  | notConnected w received conn hpc hno =>
    exact absurd (hs.ok_of hpc).1 (by simp [hno])
  | process w received conn data m hpc hm =>
    have hok : conn.connected = true ∧ 0 ≤ conn.socketFd := hs.ok_of hpc
    have hsend : (s.moveTask w (.send conn (processData conn.clientAddr m data).reply)).Inv :=
      inv_moveTask hs (by rw [hpc]; exact nofun) hok (fun fd => by rw [hpc]; rfl)
    exact inv_of_eq hsend rfl rfl rfl rfl rfl
  | processUnknown w received conn data hpc hm hno =>
    have hok : conn.connected = true ∧ 0 ≤ conn.socketFd := hs.ok_of hpc
    exact inv_moveTask hs (by rw [hpc]; exact nofun) hok (fun fd => by rw [hpc]; rfl)
  | send w received conn reply hpc =>
    have hok : conn.connected = true ∧ 0 ≤ conn.socketFd := hs.ok_of hpc
    exact inv_use hs (by rw [hpc]; simp [TaskPc.owns]) hok (fun fd => by rw [hpc]; rfl)
  | sendFailed w conn reply hpc =>
    have hok : conn.connected = true ∧ 0 ≤ conn.socketFd := hs.ok_of hpc
    exact inv_use hs (by rw [hpc]; simp [TaskPc.owns]) hok (fun fd => by rw [hpc]; rfl)
  | killed w conn reply hpc =>
    have hopen : s.isOpen conn.socketFd = true := hs.isOpen_of_owns (w := w) (by rw [hpc]; simp [TaskPc.owns])
    exact ⟨hs.idle, hs.ok, hs.tracked.used hopen, hs.owned⟩
  | close w received conn hpc => exact inv_close hs hpc
  | destruct w received conn hpc => exact inv_destruct hs hpc
  | stop running listening stopper hlistening => exact inv_of_eq hs rfl rfl rfl rfl rfl
  | shutdown running listening destructor hpc => exact inv_of_eq hs rfl rfl rfl rfl rfl
  | destroyUserManager hpc => exact inv_of_eq hs rfl rfl rfl rfl rfl
  | destroyPool pool hpc hpool => exact inv_withPool hs hpool nofun rfl rfl

theorem inv_reach {s : Server n} (h : Machine.Reach (· = start) step s) : s.Inv :=
  h.invariant (by rintro _ rfl; exact inv_start) (fun _ _ _ hs _ hstep => inv_step hs (step_cases hstep))

/-! ## When `~ThreadPool` has returned -/

/-- The accepted sockets that no worker took. -/
def leftOver (s : Server n) : List ClientTask := s.acceptLoop.hand ++ s.pool.unpopped

/-- The sockets still open are those left over. -/
theorem isOpen_destroyed {s : Server n} (h : Machine.Reach (· = start) step s)
    (hdestroyed : s.pool.destructor = .destroyed) (fd : Int) : (s.isOpen fd).toNat = s.leftOver.countP (isAt fd) := by
  have hinv := inv_reach h
  have hjoined := ThreadPool.joined_reach (pool_reach h)
  have hexited : ∀ w, s.pool.worker w = .exited := by
    unfold ThreadPool.Joined at hjoined
    rw [hdestroyed] at hjoined
    exact hjoined
  have hidle : ∀ w, s.task w = .idle := fun w => hinv.idle w (fun task => by rw [hexited w]; exact nofun)
  have hnone : Tally.tally (TaskPc.owns fd) s.task = 0 := Tally.tally_eq_zero (fun w => by rw [hidle w]; rfl)
  rw [← hinv.owned fd, owners, ThreadPool.pending_destroyed hjoined hdestroyed, hnone, leftOver, List.countP_append,
    Nat.add_zero]

/-- Every socket is closed once just when none is left over. -/
theorem closed_iff {s : Server n} (h : Machine.Reach (· = start) step s) (hdestroyed : s.pool.destructor = .destroyed) :
    (∀ fd, Descriptor.ClosedOnce fd s.log) ↔ s.leftOver = [] := by
  have htracked := (inv_reach h).tracked
  constructor
  · intro hclosed
    rw [List.eq_nil_iff_forall_not_mem]
    intro task htask
    have hopen := (htracked.closedOnce_iff _).1 (hclosed task.clientSocket)
    have hcount := isOpen_destroyed h hdestroyed task.clientSocket
    rw [hopen, Bool.toNat_false] at hcount
    exact List.countP_eq_zero.1 hcount.symm task htask (by simp [isAt])
  · intro hleft fd
    have hcount := isOpen_destroyed h hdestroyed fd
    rw [hleft, List.countP_nil] at hcount
    exact (htracked.closedOnce_iff fd).2 (by simpa using hcount)

/-- When `~ThreadPool` returns, no socket is left over, and `accept` returns none after that. -/
def Drained (s : Server n) : Act n → Prop
  | .destructor => s.destructor = .threadPool → ∀ i, s.pool.destructor = .joining i → n ≤ i → s.leftOver = []
  | .acceptLoop (some _) => s.acceptLoop = .accepting → s.pool.destructor ≠ .destroyed
  | _ => True

/-- **A step leaves no socket over**, if `~ThreadPool` returns so. -/
theorem leftOver_step {s t : Server n} {a : Act n} (hs : s.pool.destructor = .destroyed → s.leftOver = [])
    (hok : s.Drained a) (h : Step s a t) :
    t.pool.destructor = .destroyed → t.leftOver = [] := by
  -- a step of the pool other than its destructor's
  have hpool : ∀ {a : ThreadPool.Act n Unit ClientTask} {pool : ThreadPool n Unit ClientTask},
      ThreadPool.step s.pool a = some pool → a ≠ .destructor → ThreadPool.brought a = [] →
        pool.destructor = .destroyed → s.acceptLoop.hand ++ pool.unpopped = [] := by
    intro a pool hpool ha hbrought hdestroyed
    rw [ThreadPool.destructor_step (ThreadPool.step_cases hpool) ha] at hdestroyed
    obtain ⟨hhand, hunpopped⟩ := List.append_eq_nil_iff.1 (hs hdestroyed)
    rw [hhand, ThreadPool.unpopped_step (ThreadPool.step_cases hpool) hbrought hunpopped]
    rfl
  -- a step of the accept loop that takes and hands on no socket
  have hhand : ∀ pc : AcceptPc, pc.hand = [] → s.pool.destructor = .destroyed → pc.hand ++ s.pool.unpopped = [] := by
    intro pc hpc hdestroyed
    rw [hpc, (List.append_eq_nil_iff.1 (hs hdestroyed)).2]
    rfl
  cases h with
  | begin incoming hpc => exact hhand .test rfl
  | loop incoming hpc => exact hhand _ (by split <;> rfl)
  | accept incoming hpc => exact hhand _ (by split <;> rfl)
  | acceptFailed hpc => exact hhand .test rfl
  | enqueued incoming hpc hidle => exact hhand .test rfl
  | accepted task hpc hfree => exact fun hdestroyed => absurd hdestroyed (hok hpc)
  | enqueue incoming task pool hpc hpool =>
    intro hdestroyed
    have hleft := hs ((ThreadPool.destructor_step (ThreadPool.step_cases hpool) nofun).symm.trans hdestroyed)
    rw [leftOver, hpc] at hleft
    cases hleft
  | run w task pool hpc h => exact hpool h nofun rfl
  | finish w task pool hpc hidle h => exact hpool h nofun rfl
  | pool a pool hother hworker hbrought h => exact hpool h hother hbrought
  | destroyPool pool hpc h =>
    have hstep := ThreadPool.step_cases h
    cases hstep with
    | destroyed i hjoining hall => exact fun _ => hok hpc i hjoining hall
    | store => exact nofun
    | broadcast => exact nofun
    | join => exact nofun
  | close w received conn hpc => exact closeAll_cases _ s (fun _ _ => hs)
  | destruct w received conn hpc => exact closeAll_cases _ s (fun _ _ => hs)
  | _ => exact hs

theorem leftOver_reach {s : Server n} (h : Machine.ReachIf (· = start) step Drained s) :
    s.pool.destructor = .destroyed → s.leftOver = [] :=
  h.invariant (by rintro _ rfl; exact nofun) (fun _ _ _ hs hok hstep => leftOver_step hs hok (step_cases hstep))

/-- **Any other step** leaves a socket over. -/
theorem leftOver_of_not_drained {s t : Server n} {a : Act n} (hno : ¬ s.Drained a) (h : step s a = some t) :
    t.pool.destructor = .destroyed ∧ t.leftOver ≠ [] := by
  have h := (step_eq_some.1 h).2
  cases a with
  | destructor =>
    simp only [Drained, not_forall] at hno
    obtain ⟨hpc, i, hjoining, hall, hleft⟩ := hno
    have h : s.destroyNext = some t := h
    simp only [destroyNext, hpc, hjoining, ThreadPool.step, ThreadPool.destroy, dif_neg (Nat.not_lt.2 hall),
      Option.map_some] at h
    cases h
    exact ⟨rfl, hleft⟩
  | acceptLoop incoming =>
    cases incoming with
    | none => exact absurd trivial hno
    | some incoming =>
      simp only [Drained, not_forall, not_not] at hno
      obtain ⟨hpc, hdestroyed⟩ := hno
      have h : s.acceptNext (some incoming) = some t := h
      simp only [acceptNext, hpc] at h
      split at h
      · split at h
        · cases h
          exact ⟨hdestroyed, List.cons_ne_nil _ _⟩
        · cases h
      · cases h
  | _ => exact absurd trivial hno

/-- **Every accepted socket is closed once, unless one is left over.**  In a run in which `~ThreadPool` returns with no
task unpopped and none in the hand of the accept loop, and `accept` returns no connection after that, every socket has
been closed once and not used after that; any other step of any run leaves one open. -/
theorem sockets_closed :
    (∀ s : Server n, Machine.ReachIf (· = start) step Drained s → s.pool.destructor = .destroyed →
      ∀ fd, Descriptor.ClosedOnce fd s.log) ∧
      ∀ (s t : Server n) (a : Act n), Machine.Reach (· = start) step s → step s a = some t → ¬ s.Drained a →
        t.pool.destructor = .destroyed ∧ ¬ ∀ fd, Descriptor.ClosedOnce fd t.log := by
  refine ⟨fun s h hdestroyed => (closed_iff h.reach hdestroyed).2 (leftOver_reach h hdestroyed), ?_⟩
  intro s t a h hstep hno
  obtain ⟨hdestroyed, hleft⟩ := leftOver_of_not_drained hno hstep
  exact ⟨hdestroyed, fun hclosed => hleft ((closed_iff (h.after hstep) hdestroyed).1 hclosed)⟩

/-- One worker: a connection is accepted and enqueued, `stop()` is called and `start()` returns, and the destructor sets
`stop_` before the worker gets the mutex: nobody closes descriptor 5. -/
theorem socket_left_open : ¬ ∀ (n : Nat) (s : Server n), Machine.Reach (· = start) step s →
    s.pool.destructor = .destroyed → ∀ fd, Descriptor.ClosedOnce fd s.log := by
  intro h
  obtain ⟨s, hs, hdestroyed, hopen⟩ : ∃ s : Server 1, Machine.exec step start
      [.acceptLoop none, .acceptLoop none, .acceptLoop none, .acceptLoop (some (5, inaddrAny)), .acceptLoop none,
        .pool (.enqueuer ()),
        .pool (.enqueuer ()), .pool (.enqueuer ()), .pool (.signal () none), .acceptLoop none,
        .stop, .stop, .stop, .stop, .acceptLoop none,
        .destructor, .destructor, .destructor, .destructor, .destructor, .destructor,
        .pool (.worker 0), .pool (.worker 0), .pool (.worker 0), .pool (.worker 0),
        .destructor, .destructor] = some s ∧
      s.pool.destructor = .destroyed ∧ ¬ Descriptor.ClosedOnce 5 s.log := ⟨_, rfl, rfl, by decide⟩
  exact hopen (h 1 s (.exec _ (.start rfl) hs) hdestroyed 5)

end Server

end ChatRoom
