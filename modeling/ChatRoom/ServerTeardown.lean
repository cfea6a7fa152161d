import ChatRoom.ServerSockets
/-!
# ServerTeardown — requests after the user database

`userManager_` is declared after `threadPool_`, so it is destroyed first, while the workers still run.  A worker that
then has a request in hand calls a database that is gone (`CallsDestroyed`).  This happens just when a request is in
hand at that moment or received later (`no_call_after_teardown`).
-/
namespace ChatRoom.Server

variable {n : Nat}

/-- A worker is to call an operation of the destroyed database. -/
def CallsDestroyed (s : Server n) : Prop :=
  s.userManager = none ∧ ∃ w conn data, s.task w = .process conn data ∧ asked conn.clientAddr data ≠ none

/-- No request is in hand when the database is destroyed, and none is received later. -/
def NoRequest (s : Server n) : Act n → Prop
  | .destructor =>
    s.destructor = .userManager → ∀ w conn data, s.task w = .process conn data → asked conn.clientAddr data = none
  | .task w (.data bytes) =>
    s.userManager = none → ∀ conn, s.task w = .receive conn → asked conn.clientAddr bytes = none
  | _ => True

/-- A worker gets to where it calls nothing. -/
theorem callsDestroyed_moveTask {s : Server n} (hs : ¬ s.CallsDestroyed) (w : Fin n) {pc : TaskPc}
    (hpc : ∀ conn data, pc = .process conn data → asked conn.clientAddr data = none) :
    ¬ (s.moveTask w pc).CallsDestroyed := by
  rintro ⟨hm, w', conn, data, hprocess, hasked⟩
  have hprocess : Function.update s.task w pc w' = .process conn data := hprocess
  by_cases hw : w' = w
  · subst hw
    rw [Function.update_self] at hprocess
    exact hasked (hpc conn data hprocess)
  · rw [Function.update_of_ne hw] at hprocess
    exact hs ⟨hm, w', conn, data, hprocess, hasked⟩

/-- **A step of a run without such requests** calls nothing that is gone. -/
theorem callsDestroyed_step {s t : Server n} {a : Act n} (hs : ¬ s.CallsDestroyed) (hok : s.NoRequest a)
    (h : Step s a t) : ¬ t.CallsDestroyed := by
  cases h with
  | run w task pool hpc hpool =>
    exact callsDestroyed_moveTask (s := s.withPool pool) hs w nofun
  | construct w received task hpc => exact callsDestroyed_moveTask hs w nofun
  | receive w conn bytes hpc hsize =>
    intro hcalls
    refine callsDestroyed_moveTask (s := s.use conn.socketFd) hs w ?_ hcalls
    intro conn' data heq
    cases heq
    exact hok hcalls.1 conn hpc
  | hangUp w received conn hpc => exact callsDestroyed_moveTask (s := s.use conn.socketFd) hs w nofun
  | notConnected w received conn hpc hno => exact callsDestroyed_moveTask hs w nofun
  | process w received conn data m hpc hm => exact fun h => nomatch h.1
  | processUnknown w received conn data hpc hm hno => exact callsDestroyed_moveTask hs w nofun
  | send w received conn reply hpc => exact callsDestroyed_moveTask (s := s.use conn.socketFd) hs w nofun
  | sendFailed w conn reply hpc => exact callsDestroyed_moveTask (s := s.use conn.socketFd) hs w nofun
  | close w received conn hpc =>
    exact closeAll_cases conn.closeConnection.2 s (fun isOpen log =>
      callsDestroyed_moveTask (s := { s with isOpen := isOpen, log := log }) hs w nofun)
  | destruct w received conn hpc =>
    exact closeAll_cases conn.closeConnection.2 s (fun isOpen log =>
      callsDestroyed_moveTask (s := { s with isOpen := isOpen, log := log }) hs w nofun)
  | destroyUserManager hpc =>
    rintro ⟨-, w, conn, data, hprocess, hasked⟩
    exact hasked (hok hpc w conn data hprocess)
  | _ => exact hs

theorem asked_nil (clientAddr : InAddr) : asked clientAddr [] = none := rfl

/-- **Any other step** leads a worker to call the destroyed database. -/
theorem callsDestroyed_of_request {s t : Server n} {a : Act n} (hs : s.Inv) (h : step s a = some t)
    (hrequest : ¬ s.NoRequest a) : t.CallsDestroyed := by
  replace h := (step_eq_some.1 h).2
  cases a with
  | destructor =>
    simp only [NoRequest, not_forall] at hrequest
    obtain ⟨hpc, w, conn, data, hprocess, hasked⟩ := hrequest
    have h : s.destroyNext = some t := h
    unfold destroyNext at h
    rw [hpc] at h
    cases h
    exact ⟨rfl, w, conn, data, hprocess, hasked⟩
  | task w received =>
    cases received with
    | data bytes =>
      simp only [NoRequest, not_forall] at hrequest
      obtain ⟨hm, conn, hpc, hasked⟩ := hrequest
      have hok : conn.connected = true ∧ 0 ≤ conn.socketFd := hs.ok_of hpc
      have hne : bytes.length ≠ 0 := by
        intro hlength
        rw [List.eq_nil_of_length_eq_zero hlength] at hasked
        exact hasked (asked_nil _)
      have h : s.taskNext w (.data bytes) = some t := h
      unfold taskNext at h
      rw [hpc] at h
      simp only [hok.1, if_true, if_neg hne] at h
      split at h
      · cases h
        exact ⟨hm, w, conn, bytes, Function.update_self .., hasked⟩
      · cases h
    | _ => exact absurd trivial hrequest
  | _ => exact absurd trivial hrequest

/-- **No call after the teardown, unless a request is in hand or comes.**  In a run whose steps meet `NoRequest` no
worker calls the destroyed database; every other step of any run leads one to do so. -/
theorem no_call_after_teardown :
    (∀ s : Server n, Machine.ReachIf (· = start) step NoRequest s → ¬ s.CallsDestroyed) ∧
      ∀ (s t : Server n) (a : Act n), Machine.Reach (· = start) step s → step s a = some t → ¬ s.NoRequest a →
        t.CallsDestroyed := by
  refine ⟨fun s h => ?_, fun s t a h hstep => callsDestroyed_of_request (inv_reach h) hstep⟩
  refine h.invariant (I := fun s => ¬ s.CallsDestroyed) ?_
    (fun _ _ _ hs hok hstep => callsDestroyed_step hs hok (step_cases hstep))
  rintro _ rfl ⟨hm, -⟩
  cases hm

/-- One worker in a connection: the server is destroyed up to `userManager_`, and the client asks to log out. -/
theorem call_after_teardown : ¬ ∀ (n : Nat) (s : Server n), Machine.Reach (· = start) step s → ¬ s.CallsDestroyed := by
  intro h
  obtain ⟨s, hs, hm, conn, data, hprocess, hasked⟩ : ∃ s : Server 1, Machine.exec step start
      (starts ++ accepts 5 ++ takes ++ [.task 0 .error] ++ List.replicate 6 .destructor ++
        [.task 0 (.data (lit "LOGOUT alice\n"))]) = some s ∧
      s.userManager = none ∧ ∃ conn data, s.task 0 = .process conn data ∧ asked conn.clientAddr data ≠ none :=
    ⟨_, rfl, rfl, _, _, rfl, by decide⟩
  exact h 1 s (.exec _ (.start rfl) hs) ⟨hm, 0, conn, data, hprocess, hasked⟩

end ChatRoom.Server
