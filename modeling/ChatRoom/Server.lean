import ChatRoom.Connection
import ChatRoom.Descriptor
import ChatRoom.ThreadPoolPending
/-!
# Server — accept loop, connections and destructor, step by step

The accept loop hands each accepted socket to the pool as a task; a worker in the task makes a `Connection` of it and
runs `handleClient`: each `recv`, `processData`, `send` and `close` is one step.  A `send` may never return, may fail,
and may end the process, where the client is gone, for nothing handles SIGPIPE.  `stop()` may be called by any thread at
any time; an `accept` that was called before it closes the listening socket may still return a connection.  The
destructor runs `stop()` and `cleanup()` and then destroys the members, the last declared first: the user database goes
before `~ThreadPool` joins the workers.
-/
namespace ChatRoom

/-- What the lambda given to `enqueue` captures: the socket `accept` returned, which is not negative. -/
structure ClientTask where
  clientSocket : Int
  clientAddr : InAddr
  accepted : 0 ≤ clientSocket
  deriving DecidableEq

/-- Where the accept loop is. -/
inductive AcceptPc
  | start -- in `start()`
  | test -- at `while (running_)`
  | accept -- at `accept`
  | accepting -- in it
  | enqueue (task : ClientTask) -- at `threadPool_->enqueue`
  | enqueuing -- in it
  | returned

/-- Where a worker is in the lambda. -/
inductive TaskPc
  | idle -- not in it
  | construct (task : ClientTask) -- at the constructor of the connection
  | receive (conn : Connection) -- in the loop of `handleClient`, at `recv`
  | process (conn : Connection) (data : Bytes) -- at `processData`
  | send (conn : Connection) (reply : Bytes) -- at or in `send`
  | close (conn : Connection) -- at the `closeConnection` after the loop
  | destruct (conn : Connection) -- at the one in the destructor

/-- Where a call of `stop()` is. -/
inductive StopPc
  | idle -- not called
  | test
  | store
  | close

/-- Where the destructor is; `alive` is before it. -/
inductive ServerPc
  | alive
  | stopTest
  | stopStore
  | stopClose
  | cleanup
  | userManager -- at the destructor of `userManager_`
  | threadPool -- at that of `threadPool_`, or in it
  | destroyed

/-- The destructor has closed the listening socket. -/
def ServerPc.cleanedUp : ServerPc → Bool
  | .userManager => true
  | .threadPool => true
  | .destroyed => true
  | _ => false

/-- A server, and what was done to client sockets so far.  The listening socket is closed and its number forgotten in
one step, so that nobody uses the number once it may be a client's: `listening` is all there is to it. -/
structure Server (threadCount : Nat) where
  pool : ThreadPool threadCount Unit ClientTask
  running : Bool
  listening : Bool
  userManager : Option UserManager -- none once it is destroyed
  acceptLoop : AcceptPc
  stopper : StopPc
  destructor : ServerPc
  task : Fin threadCount → TaskPc
  isOpen : Int → Bool
  log : List (Int × Descriptor.Op)
  killed : Bool -- by SIGPIPE

namespace Server

variable {n : Nat}

/-- One step, and whose: the accept loop with what `accept` returns if it is there, a worker in its task with what
`recv` returns if it is there, or the `send` of a worker that fails. -/
inductive Act (n : Nat)
  | acceptLoop (incoming : Option (Int × InAddr))
  | pool (a : ThreadPool.Act n Unit ClientTask)
  | task (w : Fin n) (received : Received)
  | sendFails (w : Fin n) (sigpipe : Bool)
  | stop
  | destructor

def start : Server n where
  pool := ThreadPool.start
  running := false
  listening := true
  userManager := some UserManager.empty
  acceptLoop := .start
  stopper := .idle
  destructor := .alive
  task := fun _ => .idle
  isOpen := fun _ => false
  log := []
  killed := false

def withPool (s : Server n) (pool : ThreadPool n Unit ClientTask) : Server n := { s with pool := pool }

def moveTask (s : Server n) (w : Fin n) (pc : TaskPc) : Server n := { s with task := Function.update s.task w pc }

/-- A `recv` or `send` on a client socket. -/
def use (s : Server n) (fd : Int) : Server n := { s with log := s.log ++ [(fd, .used)] }

def closeSocket (s : Server n) (fd : Int) : Server n :=
  { s with isOpen := Function.update s.isOpen fd false, log := s.log ++ [(fd, .closed)] }

/-- The `close` calls among the events. -/
def closeAll (s : Server n) : List Event → Server n
  | [] => s
  | .close fd :: events => (s.closeSocket fd).closeAll events
  | _ :: events => s.closeAll events

def acceptNext (s : Server n) (incoming : Option (Int × InAddr)) : Option (Server n) :=
  match s.acceptLoop with
  | .start => some { s with running := true, acceptLoop := .test }
  | .test => some { s with acceptLoop := if s.running then .accept else .returned }
  | .accept => some { s with acceptLoop := if s.listening then .accepting else .test }
  | .accepting =>
    -- the call has the socket, which may be closed by now
    match incoming with
    | none => some { s with acceptLoop := .test }
    | some (clientSocket, clientAddr) =>
      if h : 0 ≤ clientSocket then
        -- the system gives out a number that is not open
        if !s.isOpen clientSocket then
          some { s with
            isOpen := Function.update s.isOpen clientSocket true
            log := s.log ++ [(clientSocket, .opened)]
            acceptLoop := .enqueue ⟨clientSocket, clientAddr, h⟩ }
        else none
      else none
  | .enqueue task =>
    -- nothing here looks at whether the pool is still there
    (ThreadPool.step s.pool (.enqueue () task)).map (fun pool => { s with pool := pool, acceptLoop := .enqueuing })
  | .enqueuing =>
    match s.pool.enqueuer () with
    | .idle => some { s with acceptLoop := .test }
    | _ => none
  | .returned => none

/-- A step in the pool, of a worker outside its task or of the accept loop in `enqueue`. -/
def poolNext (s : Server n) (a : ThreadPool.Act n Unit ClientTask) : Option (Server n) :=
  match a with
  | .enqueue _ _ => none
  | .destructor => none
  | .worker w =>
    match s.pool.worker w, s.task w with
    | .run task, _ =>
      (ThreadPool.step s.pool (.worker w)).map (fun pool => (s.withPool pool).moveTask w (.construct task))
    | .running _, .idle => (ThreadPool.step s.pool (.worker w)).map s.withPool
    | .running _, _ => none
    | _, _ => (ThreadPool.step s.pool (.worker w)).map s.withPool
  | a => (ThreadPool.step s.pool a).map s.withPool

def taskNext (s : Server n) (w : Fin n) (received : Received) : Option (Server n) :=
  match s.task w with
  | .idle => none
  | .construct task => some (s.moveTask w (.receive ⟨task.clientSocket, task.clientAddr, true⟩))
  | .receive conn =>
    if conn.connected then
      match received with
      | .data bytes =>
        if bytes.length = 0 then some ((s.use conn.socketFd).moveTask w (.close conn))
        else if bytes.length ≤ bufferSize then some ((s.use conn.socketFd).moveTask w (.process conn bytes))
        else none
      | _ => some ((s.use conn.socketFd).moveTask w (.close conn))
    else some (s.moveTask w (.close conn))
  | .process conn data =>
    match s.userManager with
    | some m =>
      let o := processData conn.clientAddr m data
      some ({ s with userManager := some o.manager }.moveTask w (.send conn o.reply))
    | none =>
      -- a call of the destroyed database has no defined effect: no step
      if (asked conn.clientAddr data).isNone then some (s.moveTask w (.send conn errUnknownCommand)) else none
  | .send conn _ => some ((s.use conn.socketFd).moveTask w (.receive conn))
  | .close conn => some ((s.closeAll conn.closeConnection.2).moveTask w (.destruct conn.closeConnection.1))
  | .destruct conn => some ((s.closeAll conn.closeConnection.2).moveTask w .idle)

/-- `sendData` tells of a failure and goes on; the default action of SIGPIPE ends the process. -/
def sendFails (s : Server n) (w : Fin n) (sigpipe : Bool) : Option (Server n) :=
  match s.task w with
  | .send conn _ =>
    if sigpipe then some { s.use conn.socketFd with killed := true }
    else some ((s.use conn.socketFd).moveTask w (.receive conn))
  | _ => none

def stopNext (s : Server n) : Server n :=
  match s.stopper with
  | .idle => { s with stopper := .test }
  | .test => { s with stopper := if s.running then .store else .idle }
  | .store => { s with running := false, stopper := .close }
  | .close => { s with listening := false, stopper := .idle }

def destroyNext (s : Server n) : Option (Server n) :=
  match s.destructor with
  | .alive => some { s with destructor := .stopTest }
  | .stopTest => some { s with destructor := if s.running then .stopStore else .cleanup }
  | .stopStore => some { s with running := false, destructor := .stopClose }
  | .stopClose => some { s with listening := false, destructor := .cleanup }
  | .cleanup => some { s with listening := false, destructor := .userManager }
  | .userManager => some { s with userManager := none, destructor := .threadPool }
  | .threadPool =>
    match s.pool.destructor with
    | .destroyed => some { s with destructor := .destroyed }
    | _ => (ThreadPool.step s.pool .destructor).map s.withPool
  | .destroyed => none

def next (s : Server n) : Act n → Option (Server n)
  | .acceptLoop incoming => s.acceptNext incoming
  | .pool a => s.poolNext a
  | .task w received => s.taskNext w received
  | .sendFails w sigpipe => s.sendFails w sigpipe
  | .stop => some s.stopNext
  | .destructor => s.destroyNext

def step (s : Server n) (a : Act n) : Option (Server n) := if s.killed then none else s.next a

/-! ## What a step does -/

/-- What each step needs, and the state it leads to. -/
inductive Step (s : Server n) : Act n → Server n → Prop
  | begin (incoming) (hpc : s.acceptLoop = .start) :
    Step s (.acceptLoop incoming) { s with running := true, acceptLoop := .test }
  | loop (incoming) (hpc : s.acceptLoop = .test) :
    Step s (.acceptLoop incoming) { s with acceptLoop := if s.running then .accept else .returned }
  | accept (incoming) (hpc : s.acceptLoop = .accept) :
    Step s (.acceptLoop incoming) { s with acceptLoop := if s.listening then .accepting else .test }
  | acceptFailed (hpc : s.acceptLoop = .accepting) : Step s (.acceptLoop none) { s with acceptLoop := .test }
  | accepted (task : ClientTask) (hpc : s.acceptLoop = .accepting) (hfree : s.isOpen task.clientSocket = false) :
    Step s (.acceptLoop (some (task.clientSocket, task.clientAddr))) { s with
      isOpen := Function.update s.isOpen task.clientSocket true
      log := s.log ++ [(task.clientSocket, .opened)]
      acceptLoop := .enqueue task }
  | enqueue (incoming) (task : ClientTask) (pool : ThreadPool n Unit ClientTask) (hpc : s.acceptLoop = .enqueue task)
    (hpool : ThreadPool.step s.pool (.enqueue () task) = some pool) :
    Step s (.acceptLoop incoming) { s with pool := pool, acceptLoop := .enqueuing }
  | enqueued (incoming) (hpc : s.acceptLoop = .enqueuing) (hidle : s.pool.enqueuer () = .idle) :
    Step s (.acceptLoop incoming) { s with acceptLoop := .test }
  | run (w : Fin n) (task : ClientTask) (pool : ThreadPool n Unit ClientTask) (hpc : s.pool.worker w = .run task)
    (hpool : ThreadPool.step s.pool (.worker w) = some pool) :
    Step s (.pool (.worker w)) ((s.withPool pool).moveTask w (.construct task))
  | finish (w : Fin n) (task : ClientTask) (pool : ThreadPool n Unit ClientTask)
    (hpc : s.pool.worker w = .running task) (hidle : s.task w = .idle)
    (hpool : ThreadPool.step s.pool (.worker w) = some pool) : Step s (.pool (.worker w)) (s.withPool pool)
  | pool (a : ThreadPool.Act n Unit ClientTask) (pool : ThreadPool n Unit ClientTask) (hother : a ≠ .destructor)
    (hworker : ∀ w, a = .worker w → ∀ task, s.pool.worker w ≠ .run task ∧ s.pool.worker w ≠ .running task)
    (henqueue : ThreadPool.brought a = []) (hpool : ThreadPool.step s.pool a = some pool) :
    Step s (.pool a) (s.withPool pool)
  | construct (w : Fin n) (received) (task : ClientTask) (hpc : s.task w = .construct task) :
    Step s (.task w received) (s.moveTask w (.receive ⟨task.clientSocket, task.clientAddr, true⟩))
  | receive (w : Fin n) (conn : Connection) (bytes : Bytes) (hpc : s.task w = .receive conn)
    (hsize : 0 < bytes.length ∧ bytes.length ≤ bufferSize) :
    Step s (.task w (.data bytes)) ((s.use conn.socketFd).moveTask w (.process conn bytes))
  | hangUp (w : Fin n) (received) (conn : Connection) (hpc : s.task w = .receive conn) :
    Step s (.task w received) ((s.use conn.socketFd).moveTask w (.close conn))
  | notConnected (w : Fin n) (received) (conn : Connection) (hpc : s.task w = .receive conn)
    (hno : conn.connected = false) : Step s (.task w received) (s.moveTask w (.close conn))
  | process (w : Fin n) (received) (conn : Connection) (data : Bytes) (m : UserManager)
    (hpc : s.task w = .process conn data) (hm : s.userManager = some m) :
    Step s (.task w received)
      ({ s with userManager := some (processData conn.clientAddr m data).manager }.moveTask w
        (.send conn (processData conn.clientAddr m data).reply))
  | processUnknown (w : Fin n) (received) (conn : Connection) (data : Bytes) (hpc : s.task w = .process conn data)
    (hm : s.userManager = none) (hno : asked conn.clientAddr data = none) :
    Step s (.task w received) (s.moveTask w (.send conn errUnknownCommand))
  | send (w : Fin n) (received) (conn : Connection) (reply : Bytes) (hpc : s.task w = .send conn reply) :
    Step s (.task w received) ((s.use conn.socketFd).moveTask w (.receive conn))
  | sendFailed (w : Fin n) (conn : Connection) (reply : Bytes) (hpc : s.task w = .send conn reply) :
    Step s (.sendFails w false) ((s.use conn.socketFd).moveTask w (.receive conn))
  | killed (w : Fin n) (conn : Connection) (reply : Bytes) (hpc : s.task w = .send conn reply) :
    Step s (.sendFails w true) { s.use conn.socketFd with killed := true }
  | close (w : Fin n) (received) (conn : Connection) (hpc : s.task w = .close conn) :
    Step s (.task w received) ((s.closeAll conn.closeConnection.2).moveTask w (.destruct conn.closeConnection.1))
  | destruct (w : Fin n) (received) (conn : Connection) (hpc : s.task w = .destruct conn) :
    Step s (.task w received) ((s.closeAll conn.closeConnection.2).moveTask w .idle)
  | stop (running listening : Bool) (stopper : StopPc) (hlistening : s.listening = false → listening = false) :
    Step s .stop { s with running := running, listening := listening, stopper := stopper }
  | shutdown (running listening : Bool) (destructor : ServerPc) (hpc : s.destructor ≠ .userManager)
    (hlistening : s.listening = false → listening = false)
    (hclosed : destructor.cleanedUp = true → s.destructor.cleanedUp = true ∨ listening = false)
    (hon : s.destructor.cleanedUp = true → destructor.cleanedUp = true) :
    Step s .destructor { s with running := running, listening := listening, destructor := destructor }
  | destroyUserManager (hpc : s.destructor = .userManager) :
    Step s .destructor { s with userManager := none, destructor := .threadPool }
  | destroyPool (pool : ThreadPool n Unit ClientTask) (hpc : s.destructor = .threadPool)
    (hpool : ThreadPool.step s.pool .destructor = some pool) : Step s .destructor (s.withPool pool)

theorem acceptNext_cases {s t : Server n} {incoming : Option (Int × InAddr)} (h : s.acceptNext incoming = some t) :
    Step s (.acceptLoop incoming) t := by
  unfold acceptNext at h
  split at h
  · rename_i hpc; cases h; exact .begin incoming hpc
  · rename_i hpc; cases h; exact .loop incoming hpc
  · rename_i hpc; cases h; exact .accept incoming hpc
  · rename_i hpc
    split at h
    · cases h; exact .acceptFailed hpc
    · rename_i clientSocket clientAddr
      split at h
      · rename_i hfd
        split at h
        · rename_i hopen
          cases h
          exact .accepted ⟨clientSocket, clientAddr, hfd⟩ hpc (Bool.not_eq_true' _ ▸ hopen)
        · cases h
      · cases h
  · rename_i task hpc
    obtain ⟨pool, hpool, rfl⟩ := Option.map_eq_some_iff.1 h
    exact .enqueue incoming task pool hpc hpool
  · rename_i hpc
    split at h
    · rename_i hidle; cases h; exact .enqueued incoming hpc hidle
    · cases h
  · cases h

theorem poolNext_cases {s t : Server n} {a : ThreadPool.Act n Unit ClientTask} (h : s.poolNext a = some t) :
    Step s (.pool a) t := by
  unfold poolNext at h
  split at h
  · cases h
  · cases h
  · rename_i w
    split at h
    · rename_i task hpc
      obtain ⟨pool, hpool, rfl⟩ := Option.map_eq_some_iff.1 h
      exact .run w task pool hpc hpool
    · rename_i task hpc hidle
      obtain ⟨pool, hpool, rfl⟩ := Option.map_eq_some_iff.1 h
      exact .finish w task pool hpc hidle hpool
    · cases h
    · rename_i hrun hrunning _
      obtain ⟨pool, hpool, rfl⟩ := Option.map_eq_some_iff.1 h
      refine .pool (.worker w) pool (by simp) (fun w' hw' task => ?_) rfl hpool
      cases hw'
      exact ⟨hrun task, hrunning task⟩
  · rename_i henqueue hother hworker
    obtain ⟨pool, hpool, rfl⟩ := Option.map_eq_some_iff.1 h
    refine .pool a pool (fun ha => hother ha) (fun w hw => absurd hw (hworker w)) ?_ hpool
    cases a with
    | enqueue e task => exact absurd rfl (henqueue e task)
    | _ => rfl

theorem taskNext_cases {s t : Server n} {w : Fin n} {received : Received} (h : s.taskNext w received = some t) :
    Step s (.task w received) t := by
  unfold taskNext at h
  split at h
  · cases h
  · rename_i task hpc; cases h; exact .construct w received task hpc
  · rename_i conn hpc
    split at h
    · split at h
      · rename_i bytes
        split at h
        · cases h; exact .hangUp w _ conn hpc
        · rename_i hne
          split at h
          · rename_i hsize; cases h; exact .receive w conn bytes hpc ⟨Nat.pos_of_ne_zero hne, hsize⟩
          · cases h
      · cases h; exact .hangUp w _ conn hpc
    · rename_i hno
      cases h
      exact .notConnected w received conn hpc (Bool.eq_false_iff.2 hno)
  · rename_i conn data hpc
    split at h
    · rename_i m hm; cases h; exact .process w received conn data m hpc hm
    · rename_i hm
      split at h
      · rename_i hno; cases h; exact .processUnknown w received conn data hpc hm (Option.isNone_iff_eq_none.1 hno)
      · cases h
  · rename_i conn reply hpc; cases h; exact .send w received conn reply hpc
  · rename_i conn hpc; cases h; exact .close w received conn hpc
  · rename_i conn hpc; cases h; exact .destruct w received conn hpc

theorem sendFails_cases {s t : Server n} {w : Fin n} {sigpipe : Bool} (h : s.sendFails w sigpipe = some t) :
    Step s (.sendFails w sigpipe) t := by
  unfold sendFails at h
  split at h
  · rename_i conn reply hpc
    cases sigpipe with
    | true => cases h; exact .killed w conn reply hpc
    | false => cases h; exact .sendFailed w conn reply hpc
  · cases h

theorem destroyNext_cases {s t : Server n} (h : s.destroyNext = some t) : Step s .destructor t := by
  unfold destroyNext at h
  split at h
  · rename_i hpc
    cases h
    exact .shutdown s.running s.listening _ (by simp [hpc]) id nofun (by simp [hpc, ServerPc.cleanedUp])
  · rename_i hpc
    cases h
    refine .shutdown s.running s.listening _ (by simp [hpc]) id ?_ (by simp [hpc, ServerPc.cleanedUp])
    intro hcleaned
    split at hcleaned <;> cases hcleaned
  · rename_i hpc
    cases h
    exact .shutdown false s.listening _ (by simp [hpc]) id nofun (by simp [hpc, ServerPc.cleanedUp])
  · rename_i hpc
    cases h
    exact .shutdown s.running false _ (by simp [hpc]) (fun _ => rfl) (fun _ => .inr rfl)
      (by simp [hpc, ServerPc.cleanedUp])
  · rename_i hpc
    cases h
    exact .shutdown s.running false _ (by simp [hpc]) (fun _ => rfl) (fun _ => .inr rfl) (fun _ => rfl)
  · rename_i hpc; cases h; exact .destroyUserManager hpc
  · rename_i hpc
    split at h
    · cases h
      exact .shutdown s.running s.listening _ (by simp [hpc]) id (fun _ => .inl (by rw [hpc]; rfl)) (fun _ => rfl)
    · obtain ⟨pool, hpool, rfl⟩ := Option.map_eq_some_iff.1 h
      exact .destroyPool pool hpc hpool
  · cases h

theorem step_eq_some {s t : Server n} {a : Act n} : step s a = some t ↔ s.killed = false ∧ s.next a = some t := by
  unfold step
  cases s.killed <;> simp

/-- **Every step is one of `Step`.** -/
theorem step_cases {s t : Server n} {a : Act n} (h : step s a = some t) : Step s a t := by
  replace h := (step_eq_some.1 h).2
  cases a with
  | acceptLoop incoming => exact acceptNext_cases h
  | pool a => exact poolNext_cases h
  | task w received => exact taskNext_cases h
  | sendFails w sigpipe => exact sendFails_cases h
  | stop =>
    cases h
    unfold stopNext
    cases hpc : s.stopper with
    | idle => exact .stop s.running s.listening .test id
    | test => exact .stop s.running s.listening _ id
    | store => exact .stop false s.listening .close id
    | close => exact .stop s.running false .idle (fun _ => rfl)
  | destructor => exact destroyNext_cases h

/-- The `close` calls change nothing but the sockets. -/
@[elab_as_elim]
theorem closeAll_cases {motive : Server n → Prop} : ∀ (events : List Event) (s : Server n),
    (∀ isOpen log, motive { s with isOpen := isOpen, log := log }) → motive (s.closeAll events)
  | [], s, h => h s.isOpen s.log
  | .close fd :: events, s, h => closeAll_cases events (s.closeSocket fd) h
  | .call _ :: events, s, h => closeAll_cases events s h
  | .sent _ :: events, s, h => closeAll_cases events s h

/-- The pool of a server runs as a pool does. -/
theorem pool_reach {s : Server n} (h : Machine.Reach (· = start) step s) :
    Machine.Reach (· = ThreadPool.start) ThreadPool.step s.pool := by
  refine h.invariant (I := fun s => Machine.Reach (· = ThreadPool.start) ThreadPool.step s.pool) ?_ ?_
  · rintro _ rfl
    exact .start rfl
  · intro s t a hs _ hstep
    cases step_cases hstep with
    | enqueue incoming task pool hpc hpool => exact hs.after hpool
    | run w task pool hpc hpool => exact hs.after hpool
    | finish w task pool hpc hidle hpool => exact hs.after hpool
    | pool a pool hother hworker henqueue hpool => exact hs.after hpool
    | destroyPool pool hpc hpool => exact hs.after hpool
    | close w received conn hpc => exact closeAll_cases _ s (fun _ _ => hs)
    | destruct w received conn hpc => exact closeAll_cases _ s (fun _ _ => hs)
    | _ => exact hs

/-! ## Pieces of runs with one worker -/

/-- `start()` is called, and is in `accept`. -/
abbrev starts : List (Act 1) := List.replicate 3 (.acceptLoop none)

/-- `accept` returns a connection, which is handed to the pool. -/
abbrev accepts (clientSocket : Int) : List (Act 1) :=
  [.acceptLoop (some (clientSocket, inaddrAny)), .acceptLoop none, .pool (.enqueuer ()), .pool (.enqueuer ()),
    .pool (.enqueuer ()), .pool (.signal () none)] ++ List.replicate 3 (.acceptLoop none)

/-- The worker takes a task. -/
abbrev takes : List (Act 1) := List.replicate 6 (.pool (.worker 0))

/-- Socket 5 is accepted, and the one worker is at its `recv`. -/
abbrev served : List (Act 1) := starts ++ accepts 5 ++ takes ++ [.task 0 .closed]

end Server

end ChatRoom
