import ChatRoom.ServerProgress
import Mathlib.Data.Fintype.EquivFin
/-!
# ServerStop — connections after `stop()` has returned

One call of `start()` and one of `stop()`, interleaved, and no destructor.  `stop()` acts only when it finds `running_`
set: then it closes the listening socket, and after it has returned the accept loop hands over at most the connection it
has in hand (`handed_step`).  When `stop()` makes its test before `start()` stores to `running_`, it does nothing and
the server runs on, and takes as many connections as come.
-/
namespace ChatRoom

namespace Server

variable {n : Nat}

/-- How many connections the accept loop has got: handed to `enqueue`, or still in its hand. -/
def handed (s : Server n) : Nat := s.pool.handedIn + s.acceptLoop.hand.length

/-- The accept loop is the only thread that is ever in `enqueue`. -/
def Parked (s : Server n) : Prop := s.acceptLoop ≠ .enqueuing → s.pool.enqueuer () = .idle

theorem handed_withPool {s : Server n} {a : ThreadPool.Act n Unit ClientTask} {pool : ThreadPool n Unit ClientTask}
    (hpool : ThreadPool.step s.pool a = some pool) (hbrought : ThreadPool.brought a = []) :
    pool.handedIn = s.pool.handedIn := by
  rw [ThreadPool.handedIn_step (ThreadPool.step_cases hpool), hbrought]
  rfl

/-- **Only a connection that `accept` returns is added.** -/
theorem handed_step {s t : Server n} {a : Act n} (h : Step s a t)
    (ha : s.acceptLoop = .accepting → ∀ incoming, a ≠ .acceptLoop (some incoming)) : t.handed = s.handed := by
  unfold handed
  cases h with
  | begin incoming hpc => simp [hpc, AcceptPc.hand]
  | loop incoming hpc => cases s.running <;> simp [hpc, AcceptPc.hand]
  | accept incoming hpc => cases s.listening <;> simp [hpc, AcceptPc.hand]
  | acceptFailed hpc => simp [hpc, AcceptPc.hand]
  | accepted task hpc hfree => exact absurd rfl (ha hpc _)
  | enqueue incoming task pool hpc hpool =>
    have := ThreadPool.handedIn_step (ThreadPool.step_cases hpool)
    simp [hpc, AcceptPc.hand, this, ThreadPool.brought]
  | enqueued incoming hpc hidle => simp [hpc, AcceptPc.hand]
  | run w task pool hpc hpool => exact congrArg (· + _) (handed_withPool hpool rfl)
  | finish w task pool hpc hidle hpool => exact congrArg (· + _) (handed_withPool hpool rfl)
  | pool a pool hother hworker hbrought hpool => exact congrArg (· + _) (handed_withPool hpool hbrought)
  | destroyPool pool hpc hpool => exact congrArg (· + _) (handed_withPool hpool rfl)
  | close w received conn hpc => exact closeAll_cases _ s (fun _ _ => rfl)
  | destruct w received conn hpc => exact closeAll_cases _ s (fun _ _ => rfl)
  | _ => rfl

theorem listening_step {s t : Server n} {a : Act n} (h : Step s a t) (hclosed : s.listening = false) :
    t.listening = false := by
  cases h with
  | stop running listening stopper hlistening => exact hlistening hclosed
  | shutdown running listening destructor hpc hlistening => exact hlistening hclosed
  | close w received conn hpc => exact closeAll_cases _ s (fun _ _ => hclosed)
  | destruct w received conn hpc => exact closeAll_cases _ s (fun _ _ => hclosed)
  | _ => exact hclosed

theorem parked_withPool {s : Server n} (hs : s.Parked) {a : ThreadPool.Act n Unit ClientTask}
    {pool : ThreadPool n Unit ClientTask} (hpool : ThreadPool.step s.pool a = some pool)
    (hbrought : ThreadPool.brought a = []) : (s.withPool pool).Parked :=
  fun hpc => ThreadPool.enqueuer_idle_step (ThreadPool.step_cases hpool) (hs hpc) hbrought

theorem parked_step {s t : Server n} {a : Act n} (hs : s.Parked) (h : Step s a t) : t.Parked := by
  cases h with
  | begin incoming hpc => exact fun _ => hs (by rw [hpc]; exact nofun)
  | loop incoming hpc => exact fun _ => hs (by rw [hpc]; exact nofun)
  | accept incoming hpc => exact fun _ => hs (by rw [hpc]; exact nofun)
  | acceptFailed hpc => exact fun _ => hs (by rw [hpc]; exact nofun)
  | accepted task hpc hfree => exact fun _ => hs (by rw [hpc]; exact nofun)
  | enqueue incoming task pool hpc hpool => exact fun hno => absurd rfl hno
  | enqueued incoming hpc hidle => exact fun _ => hidle
  | run w task pool hpc hpool => exact parked_withPool hs hpool rfl
  | finish w task pool hpc hidle hpool => exact parked_withPool hs hpool rfl
  | pool a pool hother hworker hbrought hpool => exact parked_withPool hs hpool hbrought
  | destroyPool pool hpc hpool => exact parked_withPool hs hpool rfl
  | close w received conn hpc => exact closeAll_cases _ s (fun _ _ => hs)
  | destruct w received conn hpc => exact closeAll_cases _ s (fun _ _ => hs)
  | _ => exact hs

theorem length_hand_le (pc : AcceptPc) : pc.hand.length ≤ 1 := by
  cases pc <;> simp [AcceptPc.hand]

theorem length_enqueuer_hand_le (pc : EnqueuerPc ClientTask) : pc.hand.length ≤ 1 := by
  cases pc <;> simp [EnqueuerPc.hand]

/-- At most one connection is on its way to the queue. -/
theorem handed_le {s : Server n} (hs : s.Parked) : s.handed ≤ s.pool.pushed.length + 1 := by
  have hhand := length_hand_le s.acceptLoop
  have henqueuer := length_enqueuer_hand_le (s.pool.enqueuer ())
  unfold handed ThreadPool.handedIn
  by_cases hpc : s.acceptLoop = .enqueuing
  · have : s.acceptLoop.hand.length = 0 := by rw [hpc]; rfl
    omega
  · have : (s.pool.enqueuer ()).hand.length = 0 := by rw [hs hpc]; rfl
    omega

theorem pushed_le_handed (s : Server n) : s.pool.pushed.length ≤ s.handed := by
  unfold handed ThreadPool.handedIn
  omega

/-- `start()` is about to set `running_` or has set it, and nothing has stopped the server. -/
structure Up (s : Server n) : Prop where
  set : s.acceptLoop = .start ∨ s.running = true
  listening : s.listening = true
  looping : s.acceptLoop ≠ .returned

theorem Up.move {s : Server n} (hs : s.Up) {pc : AcceptPc} (hpc : s.acceptLoop ≠ .start) (hlooping : pc ≠ .returned) :
    ({ s with acceptLoop := pc } : Server n).Up :=
  ⟨.inr (hs.set.resolve_left hpc), hs.listening, hlooping⟩

/-- **Only `stop()` and the destructor stop a server.** -/
theorem up_step {s t : Server n} {a : Act n} (hs : s.Up) (h : Step s a t) (ha : a ≠ .stop ∧ a ≠ .destructor) :
    t.Up := by
  cases h with
  | begin incoming hpc => exact ⟨.inr rfl, hs.listening, nofun⟩
  | loop incoming hpc =>
    have hrunning : s.running = true := hs.set.resolve_left (by rw [hpc]; exact nofun)
    rw [if_pos hrunning]
    exact hs.move (by rw [hpc]; exact nofun) nofun
  | accept incoming hpc =>
    rw [if_pos hs.listening]
    exact hs.move (by rw [hpc]; exact nofun) nofun
  | acceptFailed hpc => exact hs.move (by rw [hpc]; exact nofun) nofun
  | accepted task hpc hfree =>
    exact ⟨.inr (hs.set.resolve_left (by rw [hpc]; exact nofun)), hs.listening, nofun⟩
  | enqueue incoming task pool hpc hpool =>
    exact ⟨.inr (hs.set.resolve_left (by rw [hpc]; exact nofun)), hs.listening, nofun⟩
  | enqueued incoming hpc hidle => exact hs.move (by rw [hpc]; exact nofun) nofun
  | stop running listening stopper hlistening => exact absurd rfl ha.1
  | shutdown running listening destructor hpc hlistening => exact absurd rfl ha.2
  | destroyUserManager hpc => exact absurd rfl ha.2
  | destroyPool pool hpc hpool => exact absurd rfl ha.2
  | close w received conn hpc => exact closeAll_cases _ s (fun _ _ => ⟨hs.set, hs.listening, hs.looping⟩)
  | destruct w received conn hpc => exact closeAll_cases _ s (fun _ _ => ⟨hs.set, hs.listening, hs.looping⟩)
  | _ => exact ⟨hs.set, hs.listening, hs.looping⟩

/-- The task steps and the pool's leave `stopper` alone. -/
theorem stopper_step {s t : Server n} {a : Act n} (h : Step s a t) (ha : a ≠ .stop) : t.stopper = s.stopper := by
  cases h with
  | stop running listening stopper hlistening => exact absurd rfl ha
  | close w received conn hpc => exact closeAll_cases _ s (fun _ _ => rfl)
  | destruct w received conn hpc => exact closeAll_cases _ s (fun _ _ => rfl)
  | _ => rfl

end Server

/-- Where the one call of `stop()` is; when it returned, how many connections had been enqueued by then. -/
inductive StopCall
  | notCalled
  | running
  | returned (pushed : Nat)
  deriving DecidableEq, Repr

structure StopRun (threadCount : Nat) where
  server : Server threadCount
  call : StopCall

namespace StopRun

variable {n : Nat}

def start : StopRun n := ⟨Server.start, .notCalled⟩

def stopNext (s : StopRun n) : StopRun n :=
  ⟨s.server.stopNext, match s.server.stopNext.stopper with
    | .idle => .returned s.server.pool.pushed.length
    | _ => .running⟩

/-- A step of the server, of which `stop()` runs once and the destructor not at all, in a process that is not killed:
`accept` fails once the listening socket is closed. -/
def step (s : StopRun n) : Server.Act n → Option (StopRun n)
  | .destructor => none
  | .stop =>
    match s.call with
    | .returned _ => none
    | _ => some s.stopNext
  | .sendFails _ true => none
  | .acceptLoop (some incoming) =>
    if s.server.listening then
      (Server.step s.server (.acceptLoop (some incoming))).map (fun server => { s with server := server })
    else none
  | a => (Server.step s.server a).map (fun server => { s with server := server })

/-- `stop()` makes its test after `start()` has stored to `running_`: it finds it set. -/
def FindsRunning (s : StopRun n) : Server.Act n → Prop
  | .stop =>
    match s.server.stopper with
    | .test => s.server.running = true
    | _ => True
  | _ => True

structure Inv (s : StopRun n) : Prop where
  parked : s.server.Parked
  closed : ∀ k, s.call = .returned k → s.server.listening = false ∧ s.server.handed ≤ k + 1

theorem inv_stop {s : StopRun n} (hs : s.Inv) (hok : s.FindsRunning .stop) : s.stopNext.Inv := by
  unfold stopNext Server.stopNext
  unfold FindsRunning at hok
  cases hpc : s.server.stopper with
  | idle => exact ⟨hs.parked, nofun⟩
  | test =>
    rw [hpc] at hok
    have hrunning : s.server.running = true := hok
    simp only [hrunning, if_true]
    exact ⟨hs.parked, nofun⟩
  | store => exact ⟨hs.parked, nofun⟩
  | close =>
    refine ⟨hs.parked, fun k hk => ⟨rfl, ?_⟩⟩
    cases hk
    exact Server.handed_le (s := s.server) hs.parked

theorem inv_server {s : StopRun n} (hs : s.Inv) {server : Server n} {a : Server.Act n}
    (hopen : ∀ incoming, a = .acceptLoop (some incoming) → s.server.listening = true)
    (h : Server.step s.server a = some server) : Inv { s with server := server } := by
  have hstep := Server.step_cases h
  refine ⟨Server.parked_step hs.parked hstep, fun k hk => ?_⟩
  obtain ⟨hclosed, hhanded⟩ := hs.closed k hk
  refine ⟨Server.listening_step hstep hclosed, (Server.handed_step hstep (fun _ incoming ha => ?_)).le.trans hhanded⟩
  rw [hopen incoming ha] at hclosed
  cases hclosed

/-- A step is one of `stop()`, which has not returned, or one of the server's others. -/
theorem step_cases {s t : StopRun n} {a : Server.Act n} (h : step s a = some t) :
    (a = .stop ∧ (∀ k, s.call ≠ .returned k) ∧ t = s.stopNext) ∨
      ((a ≠ .stop ∧ a ≠ .destructor) ∧ (∀ incoming, a = .acceptLoop (some incoming) → s.server.listening = true) ∧
        ∃ server, Server.step s.server a = some server ∧ t = { s with server := server }) := by
  have hserver : ∀ {a : Server.Act n}, a ≠ .stop ∧ a ≠ .destructor →
      (∀ incoming, a = .acceptLoop (some incoming) → s.server.listening = true) →
      (Server.step s.server a).map (fun server => { s with server := server }) = some t →
      (a ≠ .stop ∧ a ≠ .destructor) ∧ (∀ incoming, a = .acceptLoop (some incoming) → s.server.listening = true) ∧
        ∃ server, Server.step s.server a = some server ∧ t = { s with server := server } := by
    intro a hne hopen h
    obtain ⟨server, hserver, rfl⟩ := Option.map_eq_some_iff.1 h
    exact ⟨hne, hopen, server, hserver, rfl⟩
  cases a with
  | destructor => cases h
  | stop =>
    simp only [step] at h
    split at h
    · cases h
    · rename_i hcall
      cases h
      exact .inl ⟨rfl, hcall, rfl⟩
  | sendFails w sigpipe =>
    cases sigpipe with
    | true => cases h
    | false => exact .inr (hserver ⟨nofun, nofun⟩ nofun h)
  | acceptLoop incoming =>
    cases incoming with
    | none => exact .inr (hserver ⟨nofun, nofun⟩ nofun h)
    | some incoming =>
      simp only [step] at h
      split at h
      · rename_i hopen
        exact .inr (hserver ⟨nofun, nofun⟩ (fun _ _ => hopen) h)
      · cases h
  | _ => exact .inr (hserver ⟨nofun, nofun⟩ nofun h)

theorem inv_step {s t : StopRun n} {a : Server.Act n} (hs : s.Inv) (hok : s.FindsRunning a) (h : step s a = some t) :
    t.Inv := by
  obtain ⟨rfl, -, rfl⟩ | ⟨-, hopen, server, hserver, rfl⟩ := step_cases h
  · exact inv_stop hs hok
  · exact inv_server hs hopen hserver

theorem inv_reach {s : StopRun n} (h : Machine.ReachIf (· = start) step FindsRunning s) : s.Inv := by
  refine h.invariant (I := Inv) ?_ (fun _ _ _ hs hok hstep => inv_step hs hok hstep)
  rintro _ rfl
  exact ⟨fun _ => rfl, nofun⟩

/-! ## A `stop()` that comes too early -/

/-- Up to the store of `stop()` the server is up. -/
def Unstopped (s : StopRun n) : Prop :=
  match s.call with
  | .notCalled => s.server.stopper = .idle ∧ s.server.Up
  | .running => (s.server.stopper = .test ∧ s.server.Up) ∨ s.server.stopper = .store ∨ s.server.stopper = .close
  | .returned _ => s.server.stopper = .idle

theorem unstopped_stop {s : StopRun n} (hs : s.Unstopped) (hcall : ∀ k, s.call ≠ .returned k) :
    s.stopNext.Unstopped := by
  unfold Unstopped at hs
  unfold stopNext Server.stopNext
  cases hc : s.call with
  | returned k => exact absurd hc (hcall k)
  | notCalled =>
    rw [hc] at hs
    rw [hs.1]
    exact .inl ⟨rfl, hs.2.set, hs.2.listening, hs.2.looping⟩
  | running =>
    rw [hc] at hs
    rcases hs with ⟨hpc, hup⟩ | hpc | hpc
    · rw [hpc]
      dsimp only
      cases s.server.running with
      | false => exact rfl
      | true => exact .inr (.inl rfl)
    · rw [hpc]
      exact .inr (.inr rfl)
    · rw [hpc]
      exact rfl

theorem unstopped_step {s t : StopRun n} {a : Server.Act n} (hs : s.Unstopped) (h : step s a = some t) :
    t.Unstopped := by
  obtain ⟨-, hcall, rfl⟩ | ⟨ha, -, server, hserver, rfl⟩ := step_cases h
  · exact unstopped_stop hs hcall
  · have hstep := Server.step_cases hserver
    have hstopper := Server.stopper_step hstep ha.1
    unfold Unstopped at hs ⊢
    dsimp only
    rw [hstopper]
    cases hc : s.call with
    | returned k => rw [hc] at hs; exact hs
    | notCalled =>
      rw [hc] at hs
      exact ⟨hs.1, Server.up_step hs.2 hstep ha⟩
    | running =>
      rw [hc] at hs
      exact hs.imp_left (fun htest => ⟨htest.1, Server.up_step htest.2 hstep ha⟩)

theorem unstopped_reach {s : StopRun n} (h : Machine.Reach (· = start) step s) : s.Unstopped := by
  refine h.invariant (I := Unstopped) ?_ (fun _ _ _ hs _ hstep => unstopped_step hs hstep)
  rintro _ rfl
  exact ⟨rfl, .inl rfl, rfl, nofun⟩

/-- **A `stop()` that does not find `running_` set is lost**: it returns, and the server is up. -/
theorem up_of_missed {s t : StopRun n} (h : Machine.Reach (· = start) step s) (hmissed : ¬ s.FindsRunning .stop)
    (hstop : step s .stop = some t) : (∃ k, t.call = .returned k) ∧ t.server.Up := by
  have hs := unstopped_reach h
  unfold FindsRunning at hmissed
  obtain ⟨-, hcall, rfl⟩ | ⟨ha, -⟩ := step_cases hstop
  · cases hpc : s.server.stopper with
    | test =>
      rw [hpc, Bool.not_eq_true] at hmissed
      have hup : s.server.Up := by
        unfold Unstopped at hs
        cases hc : s.call with
        | returned k => exact absurd hc (hcall k)
        | notCalled => rw [hc] at hs; exact hs.2
        | running =>
          rw [hc, hpc] at hs
          exact hs.elim And.right nofun
      have hnext : s.server.stopNext = { s.server with stopper := .idle } := by
        simp only [Server.stopNext, hpc, if_neg (Bool.eq_false_iff.1 hmissed)]
      unfold stopNext
      rw [hnext]
      exact ⟨⟨_, rfl⟩, hup.set, hup.listening, hup.looping⟩
    | _ => rw [hpc] at hmissed; exact absurd trivial hmissed
  · exact absurd rfl ha.1

/-- After that nothing stops it. -/
theorem up_reach {t u : StopRun n} (hreturned : ∃ k, t.call = .returned k) (hup : t.server.Up)
    (hu : Machine.Reach (· = t) step u) : u.call = t.call ∧ u.server.Up := by
  refine hu.invariant (I := fun u : StopRun n => u.call = t.call ∧ u.server.Up) ?_ ?_
  · rintro _ rfl
    exact ⟨rfl, hup⟩
  · rintro v w a ⟨hcall, hup⟩ - hstep
    obtain ⟨-, hno, -⟩ | ⟨ha, -, server, hserver, rfl⟩ := step_cases hstep
    · obtain ⟨k, hk⟩ := hreturned
      exact absurd (hcall.trans hk) (hno k)
    · exact ⟨hcall, Server.up_step hup (Server.step_cases hserver) ha⟩

/-! ## A server that is up -/

/-- The server of such a run: `stop()` and its own steps leave the destructor where it is, and nothing kills it. -/
theorem server_reach {s : StopRun n} (h : Machine.Reach (· = start) step s) :
    Machine.Reach (· = Server.start) Server.step s.server ∧ s.server.killed = false ∧ s.server.destructor = .alive := by
  refine h.invariant (I := fun s : StopRun n => Machine.Reach (· = Server.start) Server.step s.server ∧
    s.server.killed = false ∧ s.server.destructor = .alive) ?_ ?_
  · rintro _ rfl
    exact ⟨.start rfl, rfl, rfl⟩
  · rintro s t a ⟨hs, halive, hdestructor⟩ - hstep
    obtain ⟨rfl, -, rfl⟩ | ⟨ha, -, server, hserver, rfl⟩ := step_cases hstep
    · have hstop : Server.step s.server .stop = some s.server.stopNext := Server.step_eq_some.2 ⟨halive, rfl⟩
      refine ⟨hs.after hstop, ?_, ?_⟩
      · unfold stopNext Server.stopNext
        cases s.server.stopper <;> exact halive
      · unfold stopNext Server.stopNext
        cases s.server.stopper <;> exact hdestructor
    · refine ⟨hs.after hserver, ?_, (Server.destructor_of_ne ha.2 (Server.step_cases hserver)).1.trans hdestructor⟩
      cases Server.step_cases hserver with
      | killed w conn reply hpc => cases hstep
      | close w received conn hpc => exact Server.closeAll_cases _ s.server (fun _ _ => halive)
      | destruct w received conn hpc => exact Server.closeAll_cases _ s.server (fun _ _ => halive)
      | _ => exact halive

/-- The server's own steps, with clients that read nothing. -/
def Own (s : StopRun n) (a : Server.Act n) : Prop := s.server.Internal (fun _ => True) a

theorem settled_server {s : StopRun n} (h : Machine.Settled step Own s) :
    Machine.Settled Server.step (Server.Internal (fun _ => True)) s.server := by
  intro a ha
  have hnone : step s a = none := h a ha
  cases a with
  | stop => exact ha.elim
  | destructor => exact ha.elim
  | acceptLoop incoming =>
    cases incoming with
    | none => exact Option.map_eq_none_iff.1 hnone
    | some incoming =>
      -- outside `accept` the loop does not look at what `accept` returns
      have hother := Option.map_eq_none_iff.1 (h (.acceptLoop none) ha)
      have hsame : s.server.acceptNext (some incoming) = s.server.acceptNext none := by
        unfold Server.acceptNext
        cases hpc : s.server.acceptLoop with
        | accepting => exact absurd hpc ha
        | _ => rfl
      simp only [Server.step, Server.next, hsame] at hother ⊢
      exact hother
  | pool a => exact Option.map_eq_none_iff.1 hnone
  | task w received => exact Option.map_eq_none_iff.1 hnone
  | sendFails w sigpipe =>
    have hno : s.server.sendFails w sigpipe = none := by
      unfold Server.sendFails
      split
      · rename_i conn reply hpc
        exact absurd trivial (ha conn reply hpc)
      · rfl
    simp [Server.step, Server.next, hno]

/-- **A server that is up comes back to `accept`**, with what it had got pushed. -/
theorem exists_accepting {s : StopRun n} (h : Machine.Reach (· = start) step s) (hup : s.server.Up) :
    ∃ t, Machine.Reach (· = s) step t ∧ t.server.acceptLoop = .accepting ∧
      t.server.pool.pushed.length = s.server.handed := by
  have hdecrease : ∀ (s : StopRun n) (a : Server.Act n) (t : StopRun n),
      s.server.Halting ∧ s.server.destructor.cleanedUp = false → s.Own a → step s a = some t →
        (t.server.Halting ∧ t.server.destructor.cleanedUp = false) ∧
          t.server.work + t.server.spin < s.server.work + s.server.spin := by
    intro s a t hs ha hstep
    obtain ⟨rfl, -⟩ | ⟨-, -, server, hserver, rfl⟩ := step_cases hstep
    · exact ha.elim
    · exact Server.own_step hs ha hserver
  obtain ⟨hserver, -, hdestructor⟩ := server_reach h
  obtain ⟨as, t, hok, hexec, hsettled⟩ := Machine.exists_settled_under
    (I := fun s : StopRun n => s.server.Halting ∧ s.server.destructor.cleanedUp = false)
    (μ := fun s : StopRun n => s.server.work + s.server.spin) hdecrease
    ⟨Server.halting_reach hserver, by rw [hdestructor]; rfl⟩
  have hkept : t.server.handed = s.server.handed ∧ t.server.Up ∧ t.server.Parked := by
    refine Machine.exec_invariant
      (I := fun t : StopRun n => t.server.handed = s.server.handed ∧ t.server.Up ∧ t.server.Parked) ?_ as ⟨rfl, hup, ?_⟩
      hok hexec
    · rintro t u a ⟨hhanded, hup, hparked⟩ ha hstep
      obtain ⟨rfl, -⟩ | ⟨hne, -, server, hserver, rfl⟩ := step_cases hstep
      · exact ha.elim
      · have hstep := Server.step_cases hserver
        refine ⟨(Server.handed_step hstep (fun hpc incoming hact => ?_)).trans hhanded, Server.up_step hup hstep hne,
          Server.parked_step hparked hstep⟩
        subst hact
        exact ha hpc
    · exact hserver.invariant (I := Server.Parked) (by rintro _ rfl; exact fun _ => rfl)
        (fun _ _ _ hs _ hstep => Server.parked_step hs (Server.step_cases hstep))
  obtain ⟨hreach, halive, -⟩ := server_reach (.exec as h hexec)
  have hserved := settled_server hsettled
  have hpool : Machine.Settled ThreadPool.step (ThreadPool.Internal (fun w _ => t.server.task w ≠ .idle) False)
      t.server.pool := by
    refine Server.settled_pool (fun a ha => Server.next_of_step halive (hserved (.pool a) ?_))
    cases a with
    | spurious w => exact absurd rfl (ha w)
    | _ => trivial
  have hidle := ThreadPool.settled_enqueuer (ThreadPool.inv_reach (Server.pool_reach hreach)) hpool ()
  have haccept := (Server.settled_acceptLoop hserved halive hidle).resolve_right hkept.2.1.looping
  refine ⟨t, .exec as (.start rfl) hexec, haccept, ?_⟩
  rw [← hkept.1, Server.handed, ThreadPool.handedIn, hidle, haccept]
  rfl

/-- A connection that comes is taken: the system has a number for it. -/
theorem exists_accepted {s : StopRun n} (h : Machine.Reach (· = start) step s)
    (haccept : s.server.acceptLoop = .accepting)
    (hlistening : s.server.listening = true) :
    ∃ a t, step s a = some t ∧ t.server.handed = s.server.pool.handedIn + 1 := by
  obtain ⟨hserver, halive, -⟩ := server_reach h
  obtain ⟨clientSocket, hfree⟩ := Infinite.exists_notMem_finset (s.server.log.map (fun e => e.1.toNat)).toFinset
  have hopen : s.server.isOpen clientSocket = false := by
    refine (Server.inv_reach hserver).tracked.isOpen_of_unused (fun op hop => hfree ?_)
    rw [List.mem_toFinset, List.mem_map]
    exact ⟨_, hop, Int.toNat_natCast clientSocket⟩
  have hnext : ∃ server, Server.step s.server (.acceptLoop (some (clientSocket, inaddrAny))) = some server ∧
      server.handed = s.server.pool.handedIn + 1 := by
    simp [Server.step, halive, Server.next, Server.acceptNext, haccept, hopen, Server.handed, AcceptPc.hand]
  obtain ⟨server, hserver, hhanded⟩ := hnext
  refine ⟨.acceptLoop (some (clientSocket, inaddrAny)), { s with server := server }, ?_, hhanded⟩
  simp only [step, if_pos hlistening, hserver, Option.map_some]

/-- **Connections that come are enqueued, without end.** -/
theorem exists_pushed {s : StopRun n} (h : Machine.Reach (· = start) step s)
    (hup : ∀ t, Machine.Reach (· = s) step t → t.server.Up) (m : Nat) :
    ∃ t, Machine.Reach (· = s) step t ∧ t.server.acceptLoop = .accepting ∧ m ≤ t.server.pool.pushed.length := by
  have hthen : ∀ {t u v : StopRun n}, Machine.Reach (· = t) step u → Machine.Reach (· = u) step v →
      Machine.Reach (· = t) step v := fun hu hv =>
    hv.invariant (by rintro _ rfl; exact hu) (fun _ _ _ hs _ hstep => hs.after hstep)
  have hfrom : ∀ {t}, Machine.Reach (· = s) step t → Machine.Reach (· = start) step t := fun ht =>
    ht.invariant (by rintro _ rfl; exact h) (fun _ _ _ hs _ hstep => hs.after hstep)
  induction m with
  | zero =>
    obtain ⟨t, ht, haccept, -⟩ := exists_accepting h (hup s (.start rfl))
    exact ⟨t, ht, haccept, Nat.zero_le _⟩
  | succ m ih =>
    obtain ⟨t, ht, haccept, hm⟩ := ih
    obtain ⟨a, u, hstep, hhanded⟩ := exists_accepted (hfrom ht) haccept (hup t ht).listening
    have hu := ht.after hstep
    obtain ⟨v, hv, haccept', hpushed⟩ := exists_accepting (hfrom hu) (hup u hu)
    refine ⟨v, hthen hu hv, haccept', ?_⟩
    unfold ThreadPool.handedIn at hhanded
    omega

/-- **A `stop()` is lost exactly when it makes its test before `start()` has stored to `running_`.**  In a run in which
it finds `running_` set, at most one more connection is enqueued after it has returned; in a run in which it does not,
it returns, the server listens and loops ever after, and it can enqueue any number of connections. -/
theorem stop_lost_iff_missed :
    (∀ (s : StopRun n) (k : Nat), Machine.ReachIf (· = start) step FindsRunning s → s.call = .returned k →
      s.server.pool.pushed.length ≤ k + 1) ∧
    ∀ s t : StopRun n, Machine.Reach (· = start) step s → ¬ s.FindsRunning .stop → step s .stop = some t →
      (∃ k, t.call = .returned k) ∧
      (∀ u, Machine.Reach (· = t) step u → u.server.listening = true ∧ u.server.acceptLoop ≠ .returned) ∧
      ∀ m, ∃ u, Machine.Reach (· = t) step u ∧ u.call = t.call ∧ m ≤ u.server.pool.pushed.length := by
  constructor
  · intro s k h hk
    exact (Server.pushed_le_handed s.server).trans ((inv_reach h).closed k hk).2
  · intro s t h hmissed hstop
    obtain ⟨hreturned, hup⟩ := up_of_missed h hmissed hstop
    have hafter : ∀ u, Machine.Reach (· = t) step u → u.call = t.call ∧ u.server.Up := fun u hu =>
      up_reach hreturned hup hu
    refine ⟨hreturned, fun u hu => ⟨(hafter u hu).2.listening, (hafter u hu).2.looping⟩, fun m => ?_⟩
    obtain ⟨u, hu, -, hm⟩ := exists_pushed (h.after hstop) (fun u hu => (hafter u hu).2) m
    exact ⟨u, hu, (hafter u hu).1, hm⟩

/-- One worker: `stop()` returns before `start()` has stored to `running_`, and two connections are enqueued after it.
-/
theorem stop_lost : ¬ ∀ (n : Nat) (s : StopRun n) (k : Nat), Machine.Reach (· = start) step s → s.call = .returned k →
    s.server.pool.pushed.length ≤ k + 1 := by
  intro h
  obtain ⟨s, hs, hk, htwo⟩ : ∃ s : StopRun 1, Machine.exec step start
      ([.stop, .stop] ++ Server.starts ++ Server.accepts 5 ++ Server.accepts 6) = some s ∧
      s.call = .returned 0 ∧ s.server.pool.pushed.length = 2 := ⟨_, rfl, rfl, rfl⟩
  have := h 1 s 0 (.exec _ (.start rfl) hs) hk
  omega

end StopRun

end ChatRoom
