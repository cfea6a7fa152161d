import ChatRoom.ServerProgress
import ChatRoom.ServerTeardown
/-!
# ServerShutdown — when the destructor of the server returns

The destructor joins the workers, and a worker leaves only between two tasks.  Once the clients hang up, it comes to its
end, unless the broadcast is missed, SIGPIPE ends the process or a worker is left with a request for the destroyed
database (`destructor_returns`).  The accept loop may go on after that: where `start()` stores to `running_` behind
`cleanup()`, it tests the flag and fails in `accept` for ever.  While a client that is served does not hang up, the
destructor does not return (`destructor_waits`).
-/
namespace ChatRoom

/-- The steps the destructor has before it, those in `~ThreadPool` aside. -/
def ServerPc.work : ServerPc → Nat
  | .alive => 7
  | .stopTest => 6
  | .stopStore => 5
  | .stopClose => 4
  | .cleanup => 3
  | .userManager => 2
  | .threadPool => 1
  | .destroyed => 0

namespace Server

variable {n : Nat}

/-- No worker is about to wait when `~ThreadPool` broadcasts. -/
def BroadcastHeard (s : Server n) : Act n → Prop
  | .destructor => s.destructor = .threadPool → s.pool.BroadcastHeard .destructor
  | _ => True

/-- The server's own steps and the destructor's, with clients that hang up. -/
def Ending (s : Server n) (a : Act n) : Prop := (s.Quiet a ∨ a = .destructor) ∧ s.BroadcastHeard a

/-- The accept loop's aside. -/
def OthersEnding (s : Server n) (a : Act n) : Prop := s.Ending a ∧ a.isAcceptLoop = false

/-- The broadcasts of the pool are those of the destructor. -/
theorem pool_reachIf {s : Server n} (h : Machine.ReachIf (· = start) step BroadcastHeard s) :
    Machine.ReachIf (· = ThreadPool.start) ThreadPool.step ThreadPool.BroadcastHeard s.pool := by
  refine h.invariant
    (I := fun s => Machine.ReachIf (· = ThreadPool.start) ThreadPool.step ThreadPool.BroadcastHeard s.pool) ?_ ?_
  · rintro _ rfl
    exact .start rfl
  · intro s t a hs hheard hstep
    have hother : ∀ {a : ThreadPool.Act n Unit ClientTask} {pool : ThreadPool n Unit ClientTask},
        ThreadPool.step s.pool a = some pool → a ≠ .destructor →
          Machine.ReachIf (· = ThreadPool.start) ThreadPool.step ThreadPool.BroadcastHeard pool := by
      intro a pool hpool ha
      refine .next hs ?_ hpool
      cases a with
      | destructor => exact absurd rfl ha
      | _ => trivial
    cases step_cases hstep with
    | enqueue incoming task pool hpc hpool => exact hother hpool (by simp)
    | run w task pool hpc hpool => exact hother hpool (by simp)
    | finish w task pool hpc hidle hpool => exact hother hpool (by simp)
    | pool a pool hne hworker henqueue hpool => exact hother hpool hne
    | destroyPool pool hpc hpool => exact .next hs (hheard hpc) hpool
    | close w received conn hpc => exact closeAll_cases _ s (fun _ _ => hs)
    | destruct w received conn hpc => exact closeAll_cases _ s (fun _ _ => hs)
    | _ => exact hs

/-! ## The end -/

/-- **Every step of the destructor takes work away.** -/
theorem load_destroyNext {s t : Server n} (h : s.destroyNext = some t) :
    t.load + t.destructor.work < s.load + s.destructor.work := by
  have hmove : t.load = s.load → t.destructor.work < s.destructor.work →
      t.load + t.destructor.work < s.load + s.destructor.work := by omega
  unfold destroyNext at h
  split at h
  · rename_i hpc; cases h; exact hmove rfl (by simp [hpc, ServerPc.work])
  · rename_i hpc
    cases h
    refine hmove rfl ?_
    rw [hpc]
    dsimp only
    split <;> decide
  · rename_i hpc; cases h; exact hmove rfl (by simp [hpc, ServerPc.work])
  · rename_i hpc; cases h; exact hmove rfl (by simp [hpc, ServerPc.work])
  · rename_i hpc; cases h; exact hmove rfl (by simp [hpc, ServerPc.work])
  · rename_i hpc; cases h; exact hmove rfl (by simp [hpc, ServerPc.work])
  · rename_i hpc
    split at h
    · cases h; exact hmove rfl (by simp [hpc, ServerPc.work])
    · obtain ⟨pool, hpool, rfl⟩ := Option.map_eq_some_iff.1 h
      have hinternal : s.pool.Internal (fun _ _ => False) True .destructor := trivial
      have hless := ThreadPool.work_step hinternal (ThreadPool.step_cases hpool)
      simp only [load, withPool]
      omega
  · cases h

theorem killed_destructor {s t : Server n} (h : Step s .destructor t) : t.killed = s.killed := by
  cases h <;> rfl

/-- **A step towards the end takes work away**, unless it is the accept loop's. -/
theorem work_ending {s t : Server n} {a : Act n} (ha : s.Ending a) (h : step s a = some t) :
    if !a.isAcceptLoop then t.work + t.destructor.work < s.work + s.destructor.work
    else t.work + t.destructor.work ≤ s.work + s.destructor.work := by
  have hnot : s.killed = false := (step_eq_some.1 h).1
  rcases ha.1 with hquiet | rfl
  · have hwork := work_step hquiet h
    rw [(destructor_of_ne hquiet.ne_destructor (step_cases h)).1]
    cases hkind : a.isAcceptLoop with
    | true =>
      rw [hkind, if_pos rfl] at hwork
      exact Nat.add_le_add_right hwork _
    | false =>
      rw [hkind, if_neg (by decide)] at hwork
      exact Nat.add_lt_add_right hwork _
  · have hload := load_destroyNext (step_eq_some.1 h).2
    rw [work_of_alive hnot, work_of_alive ((killed_destructor (step_cases h)).trans hnot)]
    exact (by omega : t.load + 1 + t.destructor.work < s.load + 1 + s.destructor.work)

/-- A task with no step left, when its client has hung up, has a request for a database that is gone. -/
theorem settled_request {s : Server n} (h : Machine.Settled step OthersEnding s) (halive : s.killed = false) {w : Fin n}
    (hbusy : s.task w ≠ .idle) : s.CallsDestroyed := by
  have hquiet : s.Quiet (.task w .closed) := fun _ _ _ => by simp
  have hnone : s.taskNext w .closed = none := next_of_step halive (h (.task w .closed) ⟨⟨.inl hquiet, trivial⟩, rfl⟩)
  cases hpc : s.task w with
  | idle => exact absurd hpc hbusy
  | process conn data =>
    simp only [taskNext, hpc] at hnone
    split at hnone
    · cases hnone
    · rename_i hm
      split at hnone
      · cases hnone
      · rename_i hasked
        exact ⟨hm, w, conn, data, hpc, fun hno => hasked (by rw [hno]; rfl)⟩
  | receive conn =>
    simp only [taskNext, hpc] at hnone
    split at hnone <;> cases hnone
  | _ =>
    simp only [taskNext, hpc] at hnone
    cases hnone

theorem settled_ending {s : Server n} (h : Machine.ReachIf (· = start) step BroadcastHeard s)
    (hsettled : Machine.Settled step OthersEnding s) :
    s.destructor = .destroyed ∨ s.CallsDestroyed ∨ s.killed = true := by
  cases halive : s.killed with
  | true => exact .inr (.inr rfl)
  | false =>
    have hnone : s.BroadcastHeard .destructor → s.destroyNext = none :=
      fun hheard => next_of_step halive (hsettled .destructor ⟨⟨.inr rfl, hheard⟩, rfl⟩)
    have hpoolNone : ∀ a, (∀ w, a ≠ .spurious w) → s.poolNext a = none := by
      refine fun a ha => next_of_step halive (hsettled (.pool a) ⟨⟨.inl ?_, trivial⟩, rfl⟩)
      cases a with
      | spurious w => exact absurd rfl (ha w)
      | _ => trivial
    cases hpc : s.destructor with
    | destroyed => exact .inl rfl
    | threadPool =>
      have hpool : Machine.Settled ThreadPool.step (ThreadPool.Closing (fun w _ => s.task w ≠ .idle)) s.pool := by
        intro a ha
        cases a with
        | destructor =>
          have hjoining := hnone (fun _ => ha.2)
          simp only [destroyNext, hpc] at hjoining
          split at hjoining
          · cases hjoining
          · exact Option.map_eq_none_iff.1 hjoining
        | _ => exact settled_pool hpoolNone _ ha.1
      rcases ThreadPool.settled_closing (pool_reachIf h) hpool with hdestroyed | ⟨w, task, hbusy, -⟩
      · have hlast := hnone (fun _ hb => by rw [hdestroyed] at hb; cases hb)
        simp [destroyNext, hpc, hdestroyed] at hlast
      · exact .inr (.inl (settled_request hsettled halive hbusy))
    | _ =>
      have hnext := hnone (fun hb => by rw [hpc] at hb; cases hb)
      simp [destroyNext, hpc] at hnext

/-- **The destructor returns once the clients hang up.**  From every state of a run whose broadcasts are heard, with
clients that send nothing more and hang up: the workers and the destructor have a bounded number of steps left, whatever
the accept loop does between them; one continuation leads to a state in which they have none; and in every such state
the destructor has returned, a worker is to call the destroyed database, or SIGPIPE has ended the process. -/
theorem destructor_returns {s : Server n} (h : Machine.ReachIf (· = start) step BroadcastHeard s) :
    (∀ as t, Machine.Meets step Ending s as → Machine.exec step s as = some t →
        as.countP (fun a => !a.isAcceptLoop) ≤ s.work + s.destructor.work) ∧
      (∃ as t, Machine.Meets step Ending s as ∧ Machine.exec step s as = some t ∧
        Machine.Settled step OthersEnding t) ∧
      ∀ as t, Machine.Meets step Ending s as → Machine.exec step s as = some t → Machine.Settled step OthersEnding t →
        t.destructor = .destroyed ∨ t.CallsDestroyed ∨ t.killed = true := by
  refine ⟨fun as t hok hexec => ?_, ?_, fun as t hok hexec hsettled => ?_⟩
  · have hcount : as.countP (fun a => !a.isAcceptLoop) + (t.work + t.destructor.work) ≤
        s.work + s.destructor.work :=
      (Machine.countP_le_of_exec (μ := fun s : Server n => s.work + s.destructor.work) (I := fun _ => True)
        (fun s a t _ ha hstep => ⟨trivial, work_ending ha hstep⟩) as trivial hok hexec).2
    omega
  · have hdecrease : ∀ (s : Server n) (a : Act n) (t : Server n), s.OthersEnding a → step s a = some t →
        t.work + t.destructor.work < s.work + s.destructor.work := by
      intro s a t ha hstep
      have hwork := work_ending ha.1 hstep
      rwa [ha.2, if_pos (by decide)] at hwork
    obtain ⟨as, t, hok, hexec, hsettled⟩ := Machine.exists_settled hdecrease s
    exact ⟨as, t, Machine.meets_imp (fun _ _ ha => ha.1) as s hok, hexec, hsettled⟩
  · exact settled_ending (.along (fun _ _ ha => ha.2) as h hok hexec) hsettled

/-- No worker has a request or a reply in hand. -/
def Unasked (s : Server n) : Prop :=
  s.killed = false ∧ ∀ w, (∀ conn data, s.task w ≠ .process conn data) ∧ ∀ conn reply, s.task w ≠ .send conn reply

theorem unasked_moveTask {s : Server n} (hs : s.Unasked) (w : Fin n) {pc : TaskPc}
    (hpc : (∀ conn data, pc ≠ .process conn data) ∧ ∀ conn reply, pc ≠ .send conn reply) :
    (s.moveTask w pc).Unasked := by
  refine ⟨hs.1, fun w' => ?_⟩
  by_cases hw : w' = w
  · subst hw
    rw [show (s.moveTask w' pc).task w' = pc from Function.update_self ..]
    exact hpc
  · rw [show (s.moveTask w pc).task w' = s.task w' from Function.update_of_ne hw ..]
    exact hs.2 w'

/-- Clients that hang up ask nothing. -/
theorem unasked_step {s t : Server n} {a : Act n} (hs : s.Unasked) (ha : s.Ending a) (h : step s a = some t) :
    t.Unasked := by
  cases step_cases h with
  | run w task pool hpc hpool => exact unasked_moveTask (s := s.withPool pool) hs w ⟨nofun, nofun⟩
  | construct w received task hpc => exact unasked_moveTask hs w ⟨nofun, nofun⟩
  | receive w conn bytes hpc hsize =>
    rcases ha.1 with hquiet | hdestructor
    · exact absurd rfl (hquiet conn hpc bytes)
    · cases hdestructor
  | hangUp w received conn hpc => exact unasked_moveTask (s := s.use conn.socketFd) hs w ⟨nofun, nofun⟩
  | notConnected w received conn hpc hno => exact unasked_moveTask hs w ⟨nofun, nofun⟩
  | process w received conn data m hpc hm => exact absurd hpc ((hs.2 w).1 conn data)
  | processUnknown w received conn data hpc hm hno => exact absurd hpc ((hs.2 w).1 conn data)
  | send w received conn reply hpc => exact absurd hpc ((hs.2 w).2 conn reply)
  | sendFailed w conn reply hpc => exact absurd hpc ((hs.2 w).2 conn reply)
  | killed w conn reply hpc => exact absurd hpc ((hs.2 w).2 conn reply)
  | close w received conn hpc =>
    exact closeAll_cases conn.closeConnection.2 s (fun isOpen log =>
      unasked_moveTask (s := { s with isOpen := isOpen, log := log }) hs w ⟨nofun, nofun⟩)
  | destruct w received conn hpc =>
    exact closeAll_cases conn.closeConnection.2 s (fun isOpen log =>
      unasked_moveTask (s := { s with isOpen := isOpen, log := log }) hs w ⟨nofun, nofun⟩)
  | _ => exact hs

/-- The client of socket 5 hangs up, the destructor is called, and it returns. -/
theorem destructor_returns_served :
    ∃ (s t : Server 1) (as : List (Act 1)), Machine.exec step start served = some s ∧ s.destructor = .alive ∧
      s.task 0 = .receive ⟨5, inaddrAny, true⟩ ∧ Machine.Meets step Ending s as ∧ Machine.exec step s as = some t ∧
      t.destructor = .destroyed := by
  obtain ⟨s, hs, halive, hrecv, hkilled⟩ : ∃ s : Server 1, Machine.exec step start served = some s ∧
      s.destructor = .alive ∧ s.task 0 = .receive ⟨5, inaddrAny, true⟩ ∧ s.killed = false := ⟨_, rfl, rfl, rfl, rfl⟩
  have hheard : Machine.Meets step BroadcastHeard (start : Server 1) served := by
    refine Machine.meets_of_forall served _ (fun a ha _ => ?_)
    cases a with
    | destructor => simp [served] at ha
    | _ => trivial
  obtain ⟨-, ⟨as, t, hok, hexec, hsettled⟩, hall⟩ :=
    destructor_returns (.along (fun _ _ ha => ha) served (.start rfl) hheard hs)
  have hunasked : t.Unasked := by
    refine Machine.exec_invariant (fun s t a hs ha hstep => unasked_step hs ha hstep) as ⟨hkilled, fun w => ?_⟩ hok
      hexec
    rw [Fin.eq_zero w, hrecv]
    exact ⟨nofun, nofun⟩
  refine ⟨s, t, as, hs, halive, hrecv, hok, hexec, ?_⟩
  rcases hall as t hok hexec hsettled with hdestroyed | ⟨-, w, conn, data, hprocess, -⟩ | hdied
  · exact hdestroyed
  · exact absurd hprocess ((hunasked.2 w).1 conn data)
  · rw [hunasked.1] at hdied
    cases hdied

/-! ## While a client stays -/

theorem destroyed_step {s t : Server n} {a : Act n} (hs : s.destructor = .destroyed → s.pool.destructor = .destroyed)
    (h : step s a = some t) : t.destructor = .destroyed → t.pool.destructor = .destroyed := by
  by_cases ha : a = .destructor
  · subst ha
    have h : s.destroyNext = some t := (step_eq_some.1 h).2
    unfold destroyNext at h
    split at h
    · cases h; exact fun hd => by cases hd
    · cases h
      dsimp only
      split
      · exact fun hd => by cases hd
      · exact fun hd => by cases hd
    · cases h; exact fun hd => by cases hd
    · cases h; exact fun hd => by cases hd
    · cases h; exact fun hd => by cases hd
    · cases h; exact fun hd => by cases hd
    · rename_i hpc
      split at h
      · rename_i hdestroyed; cases h; exact fun _ => hdestroyed
      · obtain ⟨pool, -, rfl⟩ := Option.map_eq_some_iff.1 h
        intro hd
        rw [show s.destructor = .destroyed from hd] at hpc
        cases hpc
    · cases h
  · obtain ⟨hkept, hpool⟩ := destructor_of_ne ha (step_cases h)
    rw [hkept, hpool]
    exact hs

theorem destroyed_reach {s : Server n} (h : Machine.Reach (· = start) step s) :
    s.destructor = .destroyed → s.pool.destructor = .destroyed :=
  h.invariant (by rintro _ rfl hd; cases hd) (fun _ _ _ hs _ hstep => destroyed_step hs hstep)

/-- **The destructor waits for every client that is served.**  A worker is in the loop of `handleClient`: in every run
in which `recv` returns a chunk wherever it returns to this worker, the worker stays with its connection, and the
destructor does not get past it, whatever the other threads do. -/
theorem destructor_waits {s : Server n} (h : Machine.Reach (· = start) step s) {w : Fin n} {conn : Connection}
    (hloop : InLoop conn (s.task w)) (as : List (Act n)) {t : Server n} (hstays : Machine.Meets step (StaysOn w) s as)
    (hexec : Machine.exec step s as = some t) :
    InLoop conn (t.task w) ∧ t.destructor ≠ .destroyed ∧ ∀ i, t.pool.destructor = .joining i → i ≤ w := by
  have hreach : Machine.Reach (· = start) step t := .exec as h hexec
  have hinLoop : InLoop conn (t.task w) ∧ t.Inv :=
    Machine.exec_invariant (I := fun t => InLoop conn (t.task w) ∧ t.Inv)
      (fun s t a hs hok hstep => ⟨inLoop_step hs.2 hs.1 hok hstep, inv_step hs.2 (step_cases hstep)⟩) as
      ⟨hloop, inv_reach h⟩ hstays hexec
  obtain ⟨-, task, hrunning⟩ := running_of_inLoop hinLoop.2 hinLoop.1
  have hjoined := ThreadPool.joined_reach (pool_reach hreach)
  unfold ThreadPool.Joined at hjoined
  refine ⟨hinLoop.1, fun hdestroyed => ?_, fun i hi => ?_⟩
  · rw [destroyed_reach hreach hdestroyed] at hjoined
    have hexited := hjoined w
    rw [hrunning] at hexited
    cases hexited
  · rw [hi] at hjoined
    by_contra hpast
    have hexited := hjoined w (by omega)
    rw [hrunning] at hexited
    cases hexited

/-- The destructor has stopped the pool and is at the join, and a line of the client arrives. -/
theorem destructor_waits_served :
    ∃ t : Server 1,
      Machine.exec step start (served ++ List.replicate 8 .destructor ++ [.task 0 (.data [10])]) = some t ∧
      t.pool.destructor = .joining 0 ∧ InLoop ⟨5, inaddrAny, true⟩ (t.task 0) ∧ t.destructor ≠ .destroyed := by
  let closing : List (Act 1) := List.replicate 8 .destructor ++ [.task 0 (.data [10])]
  obtain ⟨s, t, hs, ht, hloop, hjoining⟩ : ∃ s t : Server 1, Machine.exec step start served = some s ∧
      Machine.exec step s closing = some t ∧ InLoop ⟨5, inaddrAny, true⟩ (s.task 0) ∧ t.pool.destructor = .joining 0 :=
    ⟨_, _, rfl, rfl, rfl, rfl⟩
  have hstays : Machine.Meets step (StaysOn 0) s closing := by
    refine Machine.meets_of_forall closing s (fun a ha s => ?_)
    rcases List.mem_append.1 ha with hdestructor | hdata
    · rw [List.eq_of_mem_replicate hdestructor]
      trivial
    · rw [List.mem_singleton.1 hdata]
      exact fun _ _ _ => ⟨[10], rfl, by decide⟩
  obtain ⟨hkept, hdestroyed, -⟩ := destructor_waits (.exec _ (.start rfl) hs) hloop closing hstays ht
  rw [List.append_assoc]
  exact ⟨t, Machine.exec_append_eq_some.2 ⟨s, hs, ht⟩, hjoining, hkept, hdestroyed⟩

end Server

end ChatRoom
