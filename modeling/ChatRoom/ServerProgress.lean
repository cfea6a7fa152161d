import ChatRoom.ServerSockets
import ChatRoom.ThreadPoolProgress
/-!
# ServerProgress — how many clients the server serves

A worker serves one connection until its client hangs up.  What the server does by itself, between one thing that a
client does and the next, comes to an end: unless SIGPIPE ends the process, with every worker asleep or waiting for its
client, in `recv` or in a `send` that is not read, and with a connection in the queue only when they all wait
(`clients_settle`).  And while no client of theirs hangs up the queue is not served: what is in it stays there, whatever
else happens (`queue_starves`).
-/
namespace ChatRoom

/-- What the accept loop is to bring the pool and a worker. -/
def AcceptPc.work : AcceptPc → Nat
  | .enqueue _ => 75
  | _ => 0

/-- The steps of a task whose client hangs up. -/
def TaskPc.work : TaskPc → Nat
  | .idle => 0
  | .construct _ => 4
  | .receive _ => 3
  | .process _ _ => 5
  | .send _ _ => 4
  | .close _ => 2
  | .destruct _ => 1

namespace Server

open Tally (total total_update)

variable {n : Nat}

def load (s : Server n) : Nat := 5 * s.pool.work + total TaskPc.work s.task + s.acceptLoop.work

/-- A process that is killed has nothing left to do. -/
def work (s : Server n) : Nat := if s.killed then 0 else s.load + 1

/-- The steps of the accept loop up to its next `accept`, or to its end. -/
def spin (s : Server n) : Nat :=
  match s.acceptLoop with
  | .start => 3
  | .test => if s.running then 2 else 1
  | .accept => if s.listening then 1 else 2
  | .enqueue _ => 4
  | .enqueuing => 3
  | _ => 0

/-- The steps of the server's own threads: all but what `accept` and `recv` return, a `send` to a client that does not
read, spurious wake-ups, calls of `stop()` and the destructor. -/
def Internal (unread : Int → Prop) (s : Server n) : Act n → Prop
  | .acceptLoop _ => s.acceptLoop ≠ .accepting
  | .pool (.spurious _) => False
  | .pool _ => True
  | .task w _ => (∀ conn, s.task w ≠ .receive conn) ∧ ∀ conn reply, s.task w = .send conn reply → ¬ unread conn.socketFd
  | .sendFails w _ => ∀ conn reply, s.task w = .send conn reply → ¬ unread conn.socketFd
  | .stop => False
  | .destructor => False

/-- The same with clients that hang up: `recv` may return, but no data, and `accept`, but no connection. -/
def Quiet (s : Server n) : Act n → Prop
  | .acceptLoop incoming => s.acceptLoop = .accepting → incoming = none
  | .pool (.spurious _) => False
  | .pool _ => True
  | .task w received => ∀ conn, s.task w = .receive conn → ∀ bytes, received ≠ .data bytes
  | .sendFails _ _ => True
  | .stop => False
  | .destructor => False

def Act.isAcceptLoop : Act n → Bool
  | .acceptLoop _ => true
  | _ => false

theorem quiet_of_internal {unread : Int → Prop} {s : Server n} {a : Act n} (ha : s.Internal unread a) : s.Quiet a := by
  cases a with
  | acceptLoop incoming => exact fun hpc => absurd hpc ha
  | task w received => exact fun conn hconn => absurd hconn (ha.1 conn)
  | sendFails w sigpipe => trivial
  | pool a => cases a <;> exact ha
  | stop => exact ha
  | destructor => exact ha

theorem Quiet.ne_destructor {s : Server n} {a : Act n} (ha : s.Quiet a) : a ≠ .destructor := by
  rintro rfl
  exact ha

theorem load_moveTask (s : Server n) (w : Fin n) (pc : TaskPc) :
    (s.moveTask w pc).load + (s.task w).work = s.load + pc.work := by
  have := total_update TaskPc.work s.task w pc
  unfold load moveTask
  dsimp only
  omega

theorem load_closeAll (s : Server n) (events : List Event) (w : Fin n) (pc : TaskPc) :
    ((s.closeAll events).moveTask w pc).load = (s.moveTask w pc).load :=
  closeAll_cases events s (fun _ _ => rfl)

/-- A step of the pool takes work away. -/
theorem pool_work_step {pool pool' : ThreadPool n Unit ClientTask} {a : ThreadPool.Act n Unit ClientTask}
    (ha : a ≠ .destructor) (hspurious : ∀ w, a ≠ .spurious w) (hbrought : ThreadPool.brought a = [])
    (h : ThreadPool.step pool a = some pool') : pool'.work < pool.work := by
  have hinternal : pool.Internal (fun _ _ => False) False a := by
    cases a with
    | worker w => exact fun _ _ => id
    | spurious w => exact absurd rfl (hspurious w)
    | enqueue e task => cases hbrought
    | destructor => exact absurd rfl ha
    | _ => trivial
  exact ThreadPool.work_step hinternal (ThreadPool.step_cases h)

/-- A call of `enqueue` brings in the work of a task. -/
theorem pool_work_enqueue {pool pool' : ThreadPool n Unit ClientTask} {task : ClientTask}
    (h : ThreadPool.step pool (.enqueue () task) = some pool') : pool'.work = pool.work + 15 := by
  cases ThreadPool.step_cases h with
  | enqueue e task hpc =>
    have := ThreadPool.work_moveEnqueuer pool () (.lock task)
    simp only [hpc, EnqueuerPc.work] at this
    omega

/-- The accept loop brings in what it has, and no more. -/
theorem load_acceptLoop {s t : Server n} {incoming : Option (Int × InAddr)} (ha : s.Quiet (.acceptLoop incoming))
    (h : Step s (.acceptLoop incoming) t) : t.load ≤ s.load := by
  have hempty : ∀ {p : AcceptPc}, p.work = 0 → load { s with acceptLoop := p } ≤ s.load := by
    intro p hpc
    unfold load
    dsimp only
    omega
  cases h with
  | begin incoming hpc => exact hempty (p := .test) rfl
  | loop incoming hpc => exact hempty (by split <;> rfl)
  | accept incoming hpc => exact hempty (by split <;> rfl)
  | acceptFailed hpc => exact hempty rfl
  | accepted task hpc hfree => cases ha hpc
  | enqueue incoming task pool hpc hpool =>
    have hpool' := pool_work_enqueue hpool
    simp only [load, hpc, AcceptPc.work]
    omega
  | enqueued incoming hpc hidle => exact hempty rfl

/-- **Every other step of the server's own takes work away.** -/
theorem load_step {s t : Server n} {a : Act n} (ha : s.Quiet a) (hother : a.isAcceptLoop = false)
    (halive : t.killed = s.killed) (h : step s a = some t) : t.load < s.load := by
  have hnot : s.killed = false := (step_eq_some.1 h).1
  -- a step of a task that leaves the pool and the accept loop alone
  have hmove : ∀ (s' : Server n) {w : Fin n} {pc : TaskPc}, s'.load = s.load → s'.task = s.task →
      pc.work < (s.task w).work → (s'.moveTask w pc).load < s.load := by
    intro s' w pc hload htask hless
    have := load_moveTask s' w pc
    rw [htask] at this
    omega
  cases step_cases h with
  | begin => cases hother
  | loop => cases hother
  | accept => cases hother
  | acceptFailed => cases hother
  | accepted => cases hother
  | enqueue => cases hother
  | enqueued => cases hother
  | run w task pool hpc hpool =>
    have hpool' := pool_work_step (by simp) (by simp) rfl hpool
    have hconstruct := load_moveTask (s.withPool pool) w (.construct task)
    simp only [load, withPool, moveTask, TaskPc.work] at hconstruct ⊢
    omega
  | finish w task pool hpc hidle hpool =>
    have hpool' := pool_work_step (by simp) (by simp) rfl hpool
    simp only [load, withPool]
    omega
  | pool a pool hne hworker hbrought hpool =>
    have hpool' := pool_work_step hne (fun w hw => by subst hw; exact ha) hbrought hpool
    simp only [load, withPool]
    omega
  | construct w received task hpc => exact hmove s rfl rfl (by simp [hpc, TaskPc.work])
  | receive w conn bytes hpc hsize => exact absurd rfl (ha conn hpc bytes)
  | hangUp w received conn hpc => exact hmove (s.use conn.socketFd) rfl rfl (by simp [hpc, TaskPc.work])
  | notConnected w received conn hpc => exact hmove s rfl rfl (by simp [hpc, TaskPc.work])
  | process w received conn data m hpc hm =>
    exact hmove { s with userManager := _ } rfl rfl (by simp [hpc, TaskPc.work])
  | processUnknown w received conn data hpc hm hno => exact hmove s rfl rfl (by simp [hpc, TaskPc.work])
  | send w received conn reply hpc => exact hmove (s.use conn.socketFd) rfl rfl (by simp [hpc, TaskPc.work])
  | sendFailed w conn reply hpc => exact hmove (s.use conn.socketFd) rfl rfl (by simp [hpc, TaskPc.work])
  | killed w conn reply hpc =>
    rw [hnot] at halive
    cases halive
  | close w received conn hpc =>
    rw [load_closeAll]
    exact hmove s rfl rfl (by simp [hpc, TaskPc.work])
  | destruct w received conn hpc =>
    rw [load_closeAll]
    exact hmove s rfl rfl (by simp [hpc, TaskPc.work])
  | stop => exact ha.elim
  | shutdown => exact ha.elim
  | destroyUserManager => exact ha.elim
  | destroyPool => exact ha.elim

theorem work_of_alive {s : Server n} (h : s.killed = false) : s.work = s.load + 1 := by simp [work, h]

theorem work_of_killed {s : Server n} (h : s.killed = true) : s.work = 0 := by simp [work, h]

theorem killed_acceptNext {s t : Server n} {incoming : Option (Int × InAddr)} (h : Step s (.acceptLoop incoming) t) :
    t.killed = s.killed := by
  cases h <;> rfl

theorem work_step {s t : Server n} {a : Act n} (ha : s.Quiet a) (h : step s a = some t) :
    if a.isAcceptLoop then t.work ≤ s.work else t.work < s.work := by
  have hnot : s.killed = false := (step_eq_some.1 h).1
  cases hkind : a.isAcceptLoop with
  | true =>
    rw [if_pos rfl]
    cases a with
    | acceptLoop incoming =>
      have hstep := step_cases h
      have hload := load_acceptLoop ha hstep
      rw [work_of_alive hnot, work_of_alive ((killed_acceptNext hstep).trans hnot)]
      omega
    | _ => cases hkind
  | false =>
    rw [if_neg (by decide), work_of_alive hnot]
    cases hkilled : t.killed with
    | true =>
      rw [work_of_killed hkilled]
      exact Nat.succ_pos _
    | false =>
      have hload := load_step ha hkind (hkilled.trans hnot.symm) h
      rw [work_of_alive hkilled]
      omega

/-! ## Who stops the server -/

/-- `start()` has stored to `running_`, and it was reset after that. -/
def Halted (s : Server n) : Prop := s.running = false ∧ s.acceptLoop ≠ .start

/-- Up to the destructor's `cleanup` the listening socket is closed only behind a reset of `running_`. -/
structure Halting (s : Server n) : Prop where
  started : s.running = true → s.acceptLoop ≠ .start
  stopper : s.stopper = .store → s.acceptLoop ≠ .start
  stopperClose : s.stopper = .close → s.Halted
  destructor : s.destructor = .stopStore → s.acceptLoop ≠ .start
  destructorClose : s.destructor = .stopClose → s.Halted
  closed : s.destructor.cleanedUp = false → s.listening = false → s.Halted

/-- A step that leaves the flags to the others. -/
theorem halting_of_eq {s t : Server n} (hs : s.Halting) (hrunning : t.running = s.running)
    (hlistening : t.listening = s.listening) (hstopper : t.stopper = s.stopper)
    (hdestructor : t.destructor = s.destructor)
    (haccept : s.acceptLoop ≠ .start → t.acceptLoop ≠ .start) : t.Halting where
  started := fun h => haccept (hs.started (hrunning ▸ h))
  stopper := fun h => haccept (hs.stopper (hstopper ▸ h))
  stopperClose := fun h => (hs.stopperClose (hstopper ▸ h)).imp (hrunning.trans) haccept
  destructor := fun h => haccept (hs.destructor (hdestructor ▸ h))
  destructorClose := fun h => (hs.destructorClose (hdestructor ▸ h)).imp (hrunning.trans) haccept
  closed := fun h hl => (hs.closed (hdestructor ▸ h) (hlistening ▸ hl)).imp (hrunning.trans) haccept

theorem halting_stopNext {s : Server n} (hs : s.Halting) : s.stopNext.Halting := by
  unfold stopNext
  cases hpc : s.stopper with
  | idle => exact ⟨hs.started, nofun, nofun, hs.destructor, hs.destructorClose, hs.closed⟩
  | test =>
    cases hrunning : s.running with
    | true =>
      exact ⟨fun _ => hs.started hrunning, fun _ => hs.started hrunning, nofun, hs.destructor,
        fun h => hrunning ▸ hs.destructorClose h, fun h hl => hrunning ▸ hs.closed h hl⟩
    | false =>
      exact ⟨nofun, nofun, nofun, hs.destructor, fun h => hrunning ▸ hs.destructorClose h,
        fun h hl => hrunning ▸ hs.closed h hl⟩
  | store =>
    have hstarted := hs.stopper hpc
    exact ⟨nofun, nofun, fun _ => ⟨rfl, hstarted⟩, hs.destructor, fun _ => ⟨rfl, hstarted⟩, fun _ _ => ⟨rfl, hstarted⟩⟩
  | close =>
    have hhalted := hs.stopperClose hpc
    exact ⟨hs.started, nofun, nofun, hs.destructor, hs.destructorClose, fun _ _ => hhalted⟩

theorem halting_destroyNext {s t : Server n} (hs : s.Halting) (h : s.destroyNext = some t) : t.Halting := by
  unfold destroyNext at h
  split at h
  · rename_i hpc
    cases h
    exact ⟨hs.started, hs.stopper, hs.stopperClose, nofun, nofun, fun _ => hs.closed (by rw [hpc]; rfl)⟩
  · rename_i hpc
    have hbefore : s.destructor.cleanedUp = false := by rw [hpc]; rfl
    cases h
    cases hrunning : s.running with
    | true =>
      exact ⟨fun _ => hs.started hrunning, hs.stopper, fun h => hrunning ▸ hs.stopperClose h,
        fun _ => hs.started hrunning, nofun, fun _ hl => hrunning ▸ hs.closed hbefore hl⟩
    | false =>
      exact ⟨nofun, hs.stopper, fun h => hrunning ▸ hs.stopperClose h, nofun, nofun,
        fun _ hl => hrunning ▸ hs.closed hbefore hl⟩
  · rename_i hpc
    have hstarted := hs.destructor hpc
    cases h
    exact ⟨nofun, hs.stopper, fun _ => ⟨rfl, hstarted⟩, nofun, fun _ => ⟨rfl, hstarted⟩, fun _ _ => ⟨rfl, hstarted⟩⟩
  · rename_i hpc
    have hhalted := hs.destructorClose hpc
    cases h
    exact ⟨hs.started, hs.stopper, hs.stopperClose, nofun, nofun, fun _ _ => hhalted⟩
  · cases h; exact ⟨hs.started, hs.stopper, hs.stopperClose, nofun, nofun, nofun⟩
  · cases h; exact ⟨hs.started, hs.stopper, hs.stopperClose, nofun, nofun, nofun⟩
  · rename_i hpc
    split at h
    · cases h; exact ⟨hs.started, hs.stopper, hs.stopperClose, nofun, nofun, nofun⟩
    · obtain ⟨pool, -, rfl⟩ := Option.map_eq_some_iff.1 h
      exact halting_of_eq hs rfl rfl rfl rfl id
  · cases h

/-- `start()` stores to `running_`: nobody has reset it yet. -/
theorem halting_begin {s : Server n} (hs : s.Halting) (hpc : s.acceptLoop = .start) :
    ({ s with running := true, acceptLoop := .test } : Server n).Halting where
  started := nofun
  stopper := nofun
  stopperClose := fun h => absurd hpc (hs.stopperClose h).2
  destructor := nofun
  destructorClose := fun h => absurd hpc (hs.destructorClose h).2
  closed := fun h hl => absurd hpc (hs.closed h hl).2

theorem halting_step {s t : Server n} {a : Act n} (hs : s.Halting) (h : step s a = some t) : t.Halting := by
  have hnext := (step_eq_some.1 h).2
  cases step_cases h with
  | begin incoming hpc => exact halting_begin hs hpc
  | loop incoming hpc => exact halting_of_eq hs rfl rfl rfl rfl (fun _ => by dsimp only; split <;> nofun)
  | accept incoming hpc => exact halting_of_eq hs rfl rfl rfl rfl (fun _ => by dsimp only; split <;> nofun)
  | acceptFailed hpc => exact halting_of_eq hs rfl rfl rfl rfl (fun _ => nofun)
  | accepted task hpc hfree => exact halting_of_eq hs rfl rfl rfl rfl (fun _ => nofun)
  | enqueue incoming task pool hpc hpool => exact halting_of_eq hs rfl rfl rfl rfl (fun _ => nofun)
  | enqueued incoming hpc hidle => exact halting_of_eq hs rfl rfl rfl rfl (fun _ => nofun)
  | stop =>
    have hstop : s.stopNext = _ := Option.some.inj hnext
    rw [← hstop]
    exact halting_stopNext hs
  | shutdown => exact halting_destroyNext hs hnext
  | destroyUserManager => exact halting_destroyNext hs hnext
  | destroyPool => exact halting_destroyNext hs hnext
  | close w received conn hpc => exact closeAll_cases _ s (fun _ _ => halting_of_eq hs rfl rfl rfl rfl id)
  | destruct w received conn hpc => exact closeAll_cases _ s (fun _ _ => halting_of_eq hs rfl rfl rfl rfl id)
  | _ => exact halting_of_eq hs rfl rfl rfl rfl id

theorem halting_reach {s : Server n} (h : Machine.Reach (· = start) step s) : s.Halting :=
  h.invariant (by rintro _ rfl; exact ⟨nofun, nofun, nofun, nofun, nofun, nofun⟩)
    (fun _ _ _ hs _ hstep => halting_step hs hstep)

/-- Before that `cleanup` the accept loop comes nearer to `accept`, or to its end. -/
theorem spin_acceptLoop {s t : Server n} {incoming : Option (Int × InAddr)} (hs : s.Halting)
    (hserving : s.destructor.cleanedUp = false) (ha : s.acceptLoop ≠ .accepting) (h : Step s (.acceptLoop incoming) t) :
    t.spin < s.spin := by
  cases h with
  | begin incoming hpc => simp [spin, hpc]
  | loop incoming hpc =>
    cases hrunning : s.running with
    | false => simp [spin, hpc, hrunning]
    | true =>
      have hlistening : s.listening = true := by
        by_contra hclosed
        rw [(hs.closed hserving (Bool.eq_false_iff.2 hclosed)).1] at hrunning
        cases hrunning
      simp [spin, hpc, hrunning, hlistening]
  | accept incoming hpc =>
    cases hlistening : s.listening with
    | true => simp [spin, hpc, hlistening]
    | false => simp [spin, hpc, hlistening, (hs.closed hserving hlistening).1]
  | acceptFailed hpc => exact absurd hpc ha
  | accepted task hpc => exact absurd hpc ha
  | enqueue incoming task pool hpc hpool => simp [spin, hpc]
  | enqueued incoming hpc hidle =>
    simp only [spin, hpc]
    split <;> decide

theorem spin_of_ne {s t : Server n} {a : Act n} (ha : s.Quiet a) (hother : a.isAcceptLoop = false) (h : Step s a t) :
    t.spin = s.spin := by
  cases h with
  | begin => cases hother
  | loop => cases hother
  | accept => cases hother
  | acceptFailed => cases hother
  | accepted => cases hother
  | enqueue => cases hother
  | enqueued => cases hother
  | stop => exact ha.elim
  | shutdown => exact ha.elim
  | destroyUserManager => exact ha.elim
  | destroyPool => exact ha.elim
  | close w received conn hpc => exact closeAll_cases _ s (fun _ _ => rfl)
  | destruct w received conn hpc => exact closeAll_cases _ s (fun _ _ => rfl)
  | _ => rfl

/-! ## Where the steps end -/

/-- Until the destructor has cleaned up, the database is there and the pool runs. -/
def Serving (s : Server n) : Prop := s.destructor.cleanedUp = false → s.userManager ≠ none ∧ s.pool.stop = false

theorem serving_step {s t : Server n} {a : Act n} (hs : s.Serving) (h : Step s a t) : t.Serving := by
  have hpool : ∀ {a : ThreadPool.Act n Unit ClientTask} {pool : ThreadPool n Unit ClientTask},
      ThreadPool.step s.pool a = some pool → a ≠ .destructor → s.destructor.cleanedUp = false →
        s.userManager ≠ none ∧ pool.stop = false := by
    intro a pool hpool ha hbefore
    rw [ThreadPool.stop_of_ne ha (ThreadPool.step_cases hpool)]
    exact hs hbefore
  cases h with
  | enqueue incoming task pool hpc h => exact hpool h (by simp)
  | run w task pool hpc h => exact hpool h (by simp)
  | finish w task pool hpc hidle h => exact hpool h (by simp)
  | pool a pool hother hworker hbrought h => exact hpool h hother
  | process w received conn data m hpc hm => exact fun hbefore => ⟨Option.some_ne_none _, (hs hbefore).2⟩
  | close w received conn hpc => exact closeAll_cases _ s (fun _ _ => hs)
  | destruct w received conn hpc => exact closeAll_cases _ s (fun _ _ => hs)
  | shutdown running listening destructor hpc hlistening hclosed hon =>
    intro hbefore
    refine hs (Bool.eq_false_iff.2 (fun hdone => ?_))
    rw [hon hdone] at hbefore
    cases hbefore
  | destroyUserManager hpc => exact nofun
  | destroyPool pool hpc h =>
    intro hbefore
    have hafter : s.destructor.cleanedUp = true := by rw [hpc]; rfl
    rw [show s.destructor.cleanedUp = false from hbefore] at hafter
    cases hafter
  | _ => exact hs

theorem serving_reach {s : Server n} (h : Machine.Reach (· = start) step s) : s.Serving :=
  h.invariant (by rintro _ rfl _; exact ⟨Option.some_ne_none _, rfl⟩)
    (fun _ _ _ hs _ hstep => serving_step hs (step_cases hstep))

/-- The destructor moves by its own steps only, in `~ThreadPool` too. -/
theorem destructor_of_ne {s t : Server n} {a : Act n} (ha : a ≠ .destructor) (h : Step s a t) :
    t.destructor = s.destructor ∧ t.pool.destructor = s.pool.destructor := by
  cases h with
  | enqueue incoming task pool hpc hpool =>
    exact ⟨rfl, ThreadPool.destructor_step (ThreadPool.step_cases hpool) (by simp)⟩
  | run w task pool hpc hpool => exact ⟨rfl, ThreadPool.destructor_step (ThreadPool.step_cases hpool) (by simp)⟩
  | finish w task pool hpc hidle hpool =>
    exact ⟨rfl, ThreadPool.destructor_step (ThreadPool.step_cases hpool) (by simp)⟩
  | pool a pool hother hworker hbrought hpool =>
    exact ⟨rfl, ThreadPool.destructor_step (ThreadPool.step_cases hpool) hother⟩
  | shutdown => exact absurd rfl ha
  | destroyUserManager => exact absurd rfl ha
  | destroyPool => exact absurd rfl ha
  | close w received conn hpc => exact closeAll_cases _ s (fun _ _ => ⟨rfl, rfl⟩)
  | destruct w received conn hpc => exact closeAll_cases _ s (fun _ _ => ⟨rfl, rfl⟩)
  | _ => exact ⟨rfl, rfl⟩

/-- The worker waits for its client. -/
def Waits (unread : Int → Prop) (s : Server n) (w : Fin n) : Prop :=
  (∃ conn, s.task w = .receive conn) ∨ ∃ conn reply, s.task w = .send conn reply ∧ unread conn.socketFd

theorem next_of_step {s : Server n} {a : Act n} (halive : s.killed = false) (h : step s a = none) :
    s.next a = none := by
  simpa [step, halive] using h

/-- Where the server has no step left the pool has none, but for tasks that go on. -/
theorem settled_pool {s : Server n} (h : ∀ a, (∀ w, a ≠ .spurious w) → s.poolNext a = none) :
    Machine.Settled ThreadPool.step (ThreadPool.Internal (fun w _ => s.task w ≠ .idle) False) s.pool := by
  intro a ha
  cases a with
  | worker w =>
    have hnone := h (.worker w) (by simp)
    simp only [poolNext] at hnone
    split at hnone
    · exact Option.map_eq_none_iff.1 hnone
    · exact Option.map_eq_none_iff.1 hnone
    · rename_i task hpc hbusy
      exact absurd hbusy (ha task hpc)
    · exact Option.map_eq_none_iff.1 hnone
  | spurious w => exact ha.elim
  | enqueue e task => exact ha.elim
  | enqueuer e =>
    exact Option.map_eq_none_iff.1 (h (.enqueuer e) (by simp))
  | signal e wakes =>
    exact Option.map_eq_none_iff.1 (h (.signal e wakes) (by simp))
  | destructor => exact ha.elim

/-- A task with no step left waits for its client. -/
theorem settled_task {unread : Int → Prop} {s : Server n} (h : Machine.Settled step (Internal unread) s)
    (halive : s.killed = false) (hm : s.userManager ≠ none) {w : Fin n} (hbusy : s.task w ≠ .idle) :
    s.Waits unread w := by
  by_contra hno
  obtain ⟨hrecv, hsend⟩ := not_or.1 hno
  have hinternal : s.Internal unread (.task w .closed) :=
    ⟨fun conn hconn => hrecv ⟨conn, hconn⟩, fun conn reply hpc hunread => hsend ⟨conn, reply, hpc, hunread⟩⟩
  have hnone : s.taskNext w .closed = none := next_of_step halive (h (.task w .closed) hinternal)
  obtain ⟨m, hm⟩ := Option.ne_none_iff_exists'.1 hm
  cases hpc : s.task w with
  | idle => exact hbusy hpc
  | receive conn => exact hrecv ⟨conn, hpc⟩
  | _ => simp [taskNext, hpc, hm] at hnone

theorem settled_acceptLoop {unread : Int → Prop} {s : Server n} (h : Machine.Settled step (Internal unread) s)
    (halive : s.killed = false) (hidle : s.pool.enqueuer () = .idle) :
    s.acceptLoop = .accepting ∨ s.acceptLoop = .returned := by
  have hnone : s.acceptLoop ≠ .accepting → s.acceptNext none = none := fun hpc =>
    next_of_step halive (h (.acceptLoop none) hpc)
  cases hpc : s.acceptLoop with
  | accepting => exact .inl rfl
  | returned => exact .inr rfl
  | enqueue task =>
    have := hnone (by simp [hpc])
    simp [acceptNext, hpc, ThreadPool.step, hidle] at this
  | _ =>
    have := hnone (by simp [hpc])
    simp [acceptNext, hpc, hidle] at this

/-- Every step of the server's own takes from what is left, before the destructor's `cleanup`. -/
theorem own_step {unread : Int → Prop} {s t : Server n} {a : Act n} (hs : s.Halting ∧ s.destructor.cleanedUp = false)
    (ha : s.Internal unread a) (h : step s a = some t) :
    (t.Halting ∧ t.destructor.cleanedUp = false) ∧ t.work + t.spin < s.work + s.spin := by
  have hquiet := quiet_of_internal ha
  have hwork := work_step hquiet h
  have hkept := (destructor_of_ne hquiet.ne_destructor (step_cases h)).1
  refine ⟨⟨halting_step hs.1 h, by rw [hkept]; exact hs.2⟩, ?_⟩
  cases hkind : a.isAcceptLoop with
  | true =>
    cases a with
    | acceptLoop incoming =>
      have hspin := spin_acceptLoop hs.1 hs.2 ha (step_cases h)
      rw [hkind, if_pos rfl] at hwork
      omega
    | _ => cases hkind
  | false =>
    have hspin := spin_of_ne hquiet hkind (step_cases h)
    rw [hkind, if_neg (by decide)] at hwork
    omega

/-- **The server serves as many clients as it has workers.**  From any reachable state before the destructor has cleaned
up, whichever clients do not read what they are sent: a run of the server's own steps is no longer than the work that is
left, and one of them leads to a state with no step left.  There SIGPIPE has ended the process; or the accept loop is in
`accept` or has returned, each worker sleeps or waits for its client, in `recv` or in a `send` that is not read, and if
a connection is in the queue all the workers wait. -/
theorem clients_settle (unread : Int → Prop) {s : Server n} (h : Machine.Reach (· = start) step s)
    (hserving : s.destructor.cleanedUp = false) :
    (∀ as t, Machine.Meets step (Internal unread) s as → Machine.exec step s as = some t →
        as.length ≤ s.work + s.spin) ∧
      (∃ as t, Machine.Meets step (Internal unread) s as ∧ Machine.exec step s as = some t ∧
        Machine.Settled step (Internal unread) t) ∧
      ∀ as t, Machine.Meets step (Internal unread) s as → Machine.exec step s as = some t →
        Machine.Settled step (Internal unread) t → t.killed = true ∨
          (t.acceptLoop = .accepting ∨ t.acceptLoop = .returned) ∧
          (∀ w, t.pool.worker w = .asleep ∨ t.Waits unread w) ∧
          (t.pool.taskQueue = [] ∨ ∀ w, t.Waits unread w) := by
  have hs : s.Halting ∧ s.destructor.cleanedUp = false := ⟨halting_reach h, hserving⟩
  have hdecrease : ∀ (s : Server n) (a : Act n) (t : Server n), s.Halting ∧ s.destructor.cleanedUp = false →
      s.Internal unread a → step s a = some t →
        (t.Halting ∧ t.destructor.cleanedUp = false) ∧ t.work + t.spin < s.work + s.spin :=
    fun s a t hs ha hstep => own_step hs ha hstep
  refine ⟨fun as t hok hexec => ?_, Machine.exists_settled_under hdecrease hs, fun as t hok hexec hsettled => ?_⟩
  · have := Machine.length_le_under hdecrease as hs hok hexec
    omega
  · have hreach : Machine.Reach (· = start) step t := .exec as h hexec
    cases halive : t.killed with
    | true => exact .inl rfl
    | false =>
      have hbefore : t.destructor.cleanedUp = false :=
        Machine.exec_invariant (I := fun s => s.destructor.cleanedUp = false)
          (fun s t a hs ha hstep => by
            rw [(destructor_of_ne (quiet_of_internal ha).ne_destructor (step_cases hstep)).1]
            exact hs) as hserving hok hexec
      obtain ⟨hm, hstop⟩ := serving_reach hreach hbefore
      have hpool : Machine.Settled ThreadPool.step
          (ThreadPool.Internal (fun w _ => t.task w ≠ .idle) False) t.pool := by
        refine settled_pool (fun a ha => next_of_step halive (hsettled (.pool a) ?_))
        cases a with
        | spurious w => exact absurd rfl (ha w)
        | _ => trivial
      obtain ⟨hworker, hqueue⟩ := ThreadPool.settled_running (pool_reach hreach) hstop hpool
      have hwaits : ∀ w, (∃ task, t.task w ≠ .idle ∧ t.pool.worker w = .running task) → t.Waits unread w :=
        fun w ⟨_, hbusy, _⟩ => settled_task hsettled halive hm hbusy
      refine .inr ⟨settled_acceptLoop hsettled halive ?_, fun w => (hworker w).imp id (hwaits w),
        hqueue.imp id (fun hall w => hwaits w (hall w))⟩
      exact ThreadPool.settled_enqueuer (ThreadPool.inv_reach (pool_reach hreach)) hpool ()

/-- One worker, which has taken the connection of socket 5: it comes to `recv`, where the server has no step left. -/
theorem clients_settle_one : ∃ s t : Server 1,
    Machine.exec step start (starts ++ accepts 5 ++ takes) = some s ∧ Machine.exec step s [.task 0 .closed] = some t ∧
    Machine.Settled step (Internal (fun _ => False)) t ∧ t.acceptLoop = .accepting ∧
    t.task 0 = .receive ⟨5, inaddrAny, true⟩ ∧ t.pool.taskQueue = [] ∧ t.Waits (fun _ => False) 0 := by
  obtain ⟨s, t, hs, ht, hserving, hconstruct, halive, haccept, hrecv, hqueue, hrunning, hidle⟩ :
      ∃ s t : Server 1, Machine.exec step start (starts ++ accepts 5 ++ takes) = some s ∧
        Machine.exec step s [.task 0 .closed] = some t ∧
        s.destructor.cleanedUp = false ∧ s.task 0 = .construct ⟨5, inaddrAny, by decide⟩ ∧ t.killed = false ∧
        t.acceptLoop = .accepting ∧ t.task 0 = .receive ⟨5, inaddrAny, true⟩ ∧ t.pool.taskQueue = [] ∧
        t.pool.worker 0 = .running ⟨5, inaddrAny, by decide⟩ ∧ t.pool.enqueuer () = .idle :=
    ⟨_, _, rfl, rfl, rfl, rfl, rfl, rfl, rfl, rfl, rfl, rfl⟩
  have hown : Machine.Meets step (Internal (fun _ => False)) s [.task 0 .closed] :=
    ⟨⟨fun conn hconn => (by rw [hconstruct] at hconn; cases hconn), fun _ _ _ => id⟩, fun _ _ => trivial⟩
  have hsettled : Machine.Settled step (Internal (fun _ => False)) t := by
    intro a ha
    have hnone : t.next a = none := by
      cases a with
      | acceptLoop incoming => exact absurd haccept ha
      | pool a =>
        cases a with
        | worker w => rw [Fin.eq_zero w]; simp [next, poolNext, hrunning, hrecv]
        | spurious w => exact ha.elim
        | enqueue e task => rfl
        | enqueuer e => simp [next, poolNext, ThreadPool.step, ThreadPool.enqueueNext, hidle]
        | signal e wakes => simp [next, poolNext, ThreadPool.step, hidle]
        | destructor => rfl
      | task w received => rw [Fin.eq_zero w] at ha; exact absurd hrecv (ha.1 _)
      | sendFails w sigpipe => rw [Fin.eq_zero w]; simp [next, sendFails, hrecv]
      | stop => exact ha.elim
      | destructor => exact ha.elim
    unfold step
    rw [halive]
    exact hnone
  obtain ⟨-, -, hall⟩ := clients_settle (fun _ => False) (.exec _ (.start rfl) hs) hserving
  rcases hall _ t hown ht hsettled with hkilled | ⟨-, hworker, -⟩
  · rw [halive] at hkilled
    cases hkilled
  · refine ⟨s, t, hs, ht, hsettled, haccept, hrecv, hqueue, (hworker 0).resolve_left (fun hasleep => ?_)⟩
    rw [hrunning] at hasleep
    cases hasleep

/-! ## While no client hangs up -/

/-- The task is in the loop of `handleClient`. -/
def InLoop (conn : Connection) : TaskPc → Prop
  | .receive conn' => conn' = conn
  | .process conn' _ => conn' = conn
  | .send conn' _ => conn' = conn
  | _ => False

/-- What `recv` returns on a connection that is served is a chunk. -/
def Stays (s : Server n) : Act n → Prop
  | .task w received => ∀ conn, s.task w = .receive conn → ∃ bytes, received = .data bytes ∧ bytes.length ≠ 0
  | _ => True

/-- **Nobody but a worker takes from the queue.** -/
theorem queue_step {pool pool' : ThreadPool n Unit ClientTask} {a : ThreadPool.Act n Unit ClientTask}
    (ha : ∀ w, a ≠ .worker w) (h : ThreadPool.Step pool a pool') :
    pool.taskQueue <+: pool'.taskQueue ∧ pool'.popped = pool.popped := by
  cases h with
  | push e task hpc => exact ⟨List.prefix_append _ _, rfl⟩
  | lock w => exact absurd rfl (ha w)
  | wait w => exact absurd rfl (ha w)
  | proceed w => exact absurd rfl (ha w)
  | sleep w => exact absurd rfl (ha w)
  | leave w => exact absurd rfl (ha w)
  | take w => exact absurd rfl (ha w)
  | pop w => exact absurd rfl (ha w)
  | unlock w => exact absurd rfl (ha w)
  | run w => exact absurd rfl (ha w)
  | finish w => exact absurd rfl (ha w)
  | exit w => exact absurd rfl (ha w)
  | _ => exact ⟨List.prefix_rfl, rfl⟩

theorem inLoop_task {s t : Server n} (hinv : s.Inv) {w : Fin n} {received : Received} {conn : Connection}
    (hloop : InLoop conn (s.task w)) (hstays : s.Stays (.task w received)) (hstep : s.taskNext w received = some t) :
    ∃ pc, InLoop conn pc ∧ t.task = Function.update s.task w pc ∧ t.pool = s.pool := by
  cases hpc : s.task w with
  | receive conn' =>
    rw [hpc] at hloop
    obtain rfl : conn' = conn := hloop
    obtain ⟨bytes, rfl, hne⟩ := hstays _ hpc
    have hconnected : conn'.connected = true := (hinv.ok_of hpc).1
    simp only [taskNext, hpc, if_pos hconnected, if_neg hne] at hstep
    split at hstep
    · cases hstep
      exact ⟨.process conn' bytes, rfl, rfl, rfl⟩
    · cases hstep
  | process conn' data =>
    rw [hpc] at hloop
    obtain rfl : conn' = conn := hloop
    simp only [taskNext, hpc] at hstep
    split at hstep
    · cases hstep
      exact ⟨.send conn' _, rfl, rfl, rfl⟩
    · split at hstep
      · cases hstep
        exact ⟨.send conn' _, rfl, rfl, rfl⟩
      · cases hstep
  | send conn' reply =>
    rw [hpc] at hloop
    obtain rfl : conn' = conn := hloop
    simp only [taskNext, hpc] at hstep
    cases hstep
    exact ⟨.receive conn', rfl, rfl, rfl⟩
  | _ =>
    rw [hpc] at hloop
    exact hloop.elim

/-- A `send` that fails ends the process or goes back to `recv`. -/
theorem inLoop_sendFails {s t : Server n} {w : Fin n} {sigpipe : Bool} {conn : Connection}
    (hloop : InLoop conn (s.task w)) (hstep : s.sendFails w sigpipe = some t) :
    InLoop conn (t.task w) ∧ t.pool = s.pool := by
  unfold sendFails at hstep
  split at hstep
  · rename_i conn' reply hpc
    split at hstep
    · cases hstep
      exact ⟨hloop, rfl⟩
    · cases hstep
      rw [hpc] at hloop
      have htask : Function.update s.task w (.receive conn') w = .receive conn' := Function.update_self ..
      refine ⟨?_, rfl⟩
      unfold moveTask
      dsimp only
      rw [show (s.use conn'.socketFd).task = s.task from rfl, htask]
      exact hloop
  · cases hstep

/-- A worker's task moves by the worker's own steps only. -/
theorem task_of_ne {s t : Server n} {a : Act n} {w : Fin n} (ha : ∀ received, a ≠ .task w received)
    (hfails : ∀ sigpipe, a ≠ .sendFails w sigpipe) (hw : ∀ task, s.pool.worker w ≠ .run task) (h : Step s a t) :
    t.task w = s.task w := by
  have hother : ∀ {w' : Fin n} {received : Received} {pc : TaskPc}, a = .task w' received →
      Function.update s.task w' pc w = s.task w := by
    intro w' received pc hact
    refine Function.update_of_ne ?_ ..
    rintro rfl
    exact ha received hact
  cases h with
  | run w' task pool hpc hpool =>
    refine Function.update_of_ne ?_ ..
    rintro rfl
    exact hw task hpc
  | construct w' received task hpc => exact hother rfl
  | receive w' conn bytes hpc hsize => exact hother rfl
  | hangUp w' received conn hpc => exact hother rfl
  | notConnected w' received conn hpc hno => exact hother rfl
  | process w' received conn data m hpc hm => exact hother rfl
  | processUnknown w' received conn data hpc hm hno => exact hother rfl
  | send w' received conn reply hpc => exact hother rfl
  | sendFailed w' conn reply hpc =>
    refine Function.update_of_ne ?_ ..
    rintro rfl
    exact hfails false rfl
  | close w' received conn hpc => exact closeAll_cases _ s (fun _ _ => hother rfl)
  | destruct w' received conn hpc => exact closeAll_cases _ s (fun _ _ => hother rfl)
  | _ => rfl

/-- What `recv` returns on the connection of this worker is a chunk. -/
def StaysOn (w : Fin n) (s : Server n) : Act n → Prop
  | .task w' received => w' = w → s.Stays (.task w received)
  | _ => True

/-- In the loop a worker is in its task. -/
theorem running_of_inLoop {s : Server n} (hinv : s.Inv) {w : Fin n} {conn : Connection}
    (hloop : InLoop conn (s.task w)) : s.task w ≠ .idle ∧ ∃ task, s.pool.worker w = .running task := by
  have hbusy : s.task w ≠ .idle := fun hidle => by rw [hidle] at hloop; exact hloop
  refine ⟨hbusy, ?_⟩
  by_contra hout
  exact hbusy (hinv.idle w (fun task hpc => hout ⟨task, hpc⟩))

/-- **A client that stays keeps its worker**, whatever the other threads do. -/
theorem inLoop_step {s t : Server n} {a : Act n} (hinv : s.Inv) {w : Fin n} {conn : Connection}
    (hloop : InLoop conn (s.task w)) (hstays : StaysOn w s a) (h : step s a = some t) : InLoop conn (t.task w) := by
  obtain ⟨-, task, hrunning⟩ := running_of_inLoop hinv hloop
  by_cases ha : ∃ received, a = .task w received
  · obtain ⟨received, rfl⟩ := ha
    obtain ⟨pc, hpc, htask, -⟩ := inLoop_task hinv hloop (hstays rfl) (step_eq_some.1 h).2
    rw [htask, Function.update_self]
    exact hpc
  by_cases hfails : ∃ sigpipe, a = .sendFails w sigpipe
  · obtain ⟨sigpipe, rfl⟩ := hfails
    exact (inLoop_sendFails hloop (step_eq_some.1 h).2).1
  · rw [task_of_ne (fun received hact => ha ⟨received, hact⟩) (fun sigpipe hact => hfails ⟨sigpipe, hact⟩)
      (fun task' hpc => by rw [hrunning] at hpc; cases hpc) (step_cases h)]
    exact hloop

/-- All workers stay in their loops, and the queue as it is, but for what is pushed. -/
def Held (conn : Fin n → Connection) (queue : List ClientTask) (popped : List (Fin n × ClientTask)) (s : Server n) :
    Prop :=
  (∀ w, InLoop (conn w) (s.task w)) ∧ queue <+: s.pool.taskQueue ∧ s.pool.popped = popped

/-- **A step keeps them held**, when no client hangs up. -/
theorem held_step {conn : Fin n → Connection} {queue : List ClientTask} {popped : List (Fin n × ClientTask)}
    {s t : Server n} {a : Act n} (hinv : s.Inv) (hs : Held conn queue popped s) (hstays : s.Stays a)
    (h : step s a = some t) : Held conn queue popped t := by
  obtain ⟨hloop, hqueue, hpopped⟩ := hs
  have hloop' : ∀ w, InLoop (conn w) (t.task w) := by
    refine fun w => inLoop_step hinv (hloop w) ?_ h
    cases a with
    | task w' received => rintro rfl; exact hstays
    | _ => trivial
  have hpool : ∀ {a : ThreadPool.Act n Unit ClientTask} {pool : ThreadPool n Unit ClientTask}, (∀ w, a ≠ .worker w) →
      ThreadPool.step s.pool a = some pool → queue <+: pool.taskQueue ∧ pool.popped = popped := by
    intro a pool ha hpool
    have hkept := queue_step ha (ThreadPool.step_cases hpool)
    exact ⟨hqueue.trans hkept.1, hkept.2.trans hpopped⟩
  refine ⟨hloop', ?_⟩
  cases a with
  | task w received =>
    obtain ⟨pc, -, -, hsame⟩ := inLoop_task hinv (hloop w) hstays (step_eq_some.1 h).2
    rw [hsame]
    exact ⟨hqueue, hpopped⟩
  | sendFails w sigpipe =>
    rw [(inLoop_sendFails (hloop w) (step_eq_some.1 h).2).2]
    exact ⟨hqueue, hpopped⟩
  | pool a =>
    -- every worker is in its task
    cases step_cases h with
    | run w task pool hpc =>
      obtain ⟨-, task', hrunning⟩ := running_of_inLoop hinv (hloop w)
      rw [hpc] at hrunning
      cases hrunning
    | finish w task pool hpc hidle => exact absurd hidle (running_of_inLoop hinv (hloop w)).1
    | pool _ pool hother hworker hbrought hstep =>
      refine hpool (fun w hw => ?_) hstep
      obtain ⟨-, task', hrunning⟩ := running_of_inLoop hinv (hloop w)
      exact (hworker w hw task').2 hrunning
  | acceptLoop incoming =>
    cases step_cases h with
    | enqueue _ task pool hpc hstep => exact hpool (by simp) hstep
    | _ => exact ⟨hqueue, hpopped⟩
  | stop =>
    cases step_cases h
    exact ⟨hqueue, hpopped⟩
  | destructor =>
    cases step_cases h with
    | destroyPool pool hpc hstep => exact hpool (by simp) hstep
    | _ => exact ⟨hqueue, hpopped⟩

/-- **While no client hangs up the queue is not served.**  Once every worker is in the loop of `handleClient`, in every
run in which `recv` returns a chunk wherever it returns, every worker stays with its connection, no task is popped, and
the connections in the queue stay there, in order, whatever the other threads do, `stop()` and the destructor included.
-/
theorem queue_starves {s : Server n} (h : Machine.Reach (· = start) step s) {conn : Fin n → Connection}
    (hloop : ∀ w, InLoop (conn w) (s.task w)) (as : List (Act n)) {t : Server n}
    (hstays : Machine.Meets step Stays s as) (hexec : Machine.exec step s as = some t) :
    (∀ w, InLoop (conn w) (t.task w)) ∧ s.pool.taskQueue <+: t.pool.taskQueue ∧ t.pool.popped = s.pool.popped := by
  have hheld : Held conn s.pool.taskQueue s.pool.popped t ∧ t.Inv := by
    refine Machine.exec_invariant (I := fun t => Held conn s.pool.taskQueue s.pool.popped t ∧ t.Inv)
      (fun s t a hs hok hstep => ?_) as ⟨⟨hloop, List.prefix_rfl, rfl⟩, inv_reach h⟩ hstays hexec
    exact ⟨held_step hs.2 hs.1 hok hstep, inv_step hs.2 (step_cases hstep)⟩
  exact hheld.1

/-- One worker: socket 6 waits while a chunk of socket 5 is served. -/
theorem queue_starves_second : ∃ s t : Server 1,
    Machine.exec step start (starts ++ accepts 5 ++ accepts 6 ++ takes ++ [.task 0 .closed]) = some s ∧
      Machine.exec step s [.task 0 (.data (lit "LOGOUT u")), .task 0 .closed, .task 0 .closed] = some t ∧
      t.task 0 = .receive ⟨5, inaddrAny, true⟩ ∧ [⟨6, inaddrAny, by decide⟩] <+: t.pool.taskQueue := by
  obtain ⟨s, t, hs, ht, hloop, hqueue, hstays, hrecv⟩ : ∃ s t : Server 1,
      Machine.exec step start (starts ++ accepts 5 ++ accepts 6 ++ takes ++ [.task 0 .closed]) = some s ∧
      Machine.exec step s [.task 0 (.data (lit "LOGOUT u")), .task 0 .closed, .task 0 .closed] = some t ∧
      (∀ w, InLoop ⟨5, inaddrAny, true⟩ (s.task w)) ∧ s.pool.taskQueue = [⟨6, inaddrAny, by decide⟩] ∧
      Machine.Meets step Stays s [.task 0 (.data (lit "LOGOUT u")), .task 0 .closed, .task 0 .closed] ∧
      t.task 0 = .receive ⟨5, inaddrAny, true⟩ := by
    refine ⟨_, _, rfl, rfl, fun w => by rw [Fin.eq_zero w]; rfl, rfl, ?_, rfl⟩
    refine ⟨fun _ _ => ⟨_, rfl, by decide⟩, fun u hu => ?_⟩
    cases hu
    refine ⟨fun _ hconn => (nomatch hconn), fun u hu => ?_⟩
    cases hu
    exact ⟨fun _ hconn => (nomatch hconn), fun _ _ => trivial⟩
  have hstarves := queue_starves (.exec _ (.start rfl) hs) hloop _ hstays ht
  rw [hqueue] at hstarves
  exact ⟨s, t, hs, ht, hrecv, hstarves.2.1⟩

end Server

end ChatRoom
