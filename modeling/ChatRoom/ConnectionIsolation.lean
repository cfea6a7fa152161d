import ChatRoom.ConnectionPresence
/-!
# ConnectionIsolation — whose requests reach a user's record

A chunk reaches the record of the user its call names, and what it makes of it depends on that record alone
(`find_serve_of_ne`, `find_serve_congr`).  A connection whose LOGINs of a user all fail can therefore change the user's
record by REGISTER and by a LOGOUT that is answered OK only: LOGOUT takes a name and no password.
-/
namespace ChatRoom

open UserManager (Call)

variable {κ : Type} (peer : κ → InAddr)

theorem find_serve_of_ne (m : UserManager) (x : κ × Bytes) (u : Bytes)
    (h : ∀ c, asked (peer x.1) x.2 = some c → u ≠ c.user) : (serve peer m x).1.find u = m.find u := by
  rw [serve_eq]
  cases hc : asked (peer x.1) x.2 with
  | none => rfl
  | some c => exact UserManager.find_call_of_ne m (h c hc)

theorem find_serve_congr {m m' : UserManager} (x : κ × Bytes) {u : Bytes} (h : m.find u = m'.find u) :
    (serve peer m x).1.find u = (serve peer m' x).1.find u := by
  rw [serve_eq, serve_eq]
  cases asked (peer x.1) x.2 with
  | none => exact h
  | some c => exact UserManager.find_call_congr c h

theorem find_serve_of_refused (m : UserManager) (x : κ × Bytes) {u p ip port : Bytes}
    (hreq : readRequest x.2 = .login u p ip port) (hno : (serve peer m x).2 ≠ okLogin) :
    (serve peer m x).1.find u = m.find u := by
  rw [serve_eq, asked, hreq] at hno ⊢
  simp only [Request.call, UserManager.call, replyTo, UserManager.loginUser_snd, UserManager.find_loginUser,
    if_true] at hno ⊢
  cases hu : m.find u with
  | none => rfl
  | some r =>
    rw [hu] at hno
    by_cases hp : UserManager.hashPassword p = r.passwordHash
    · simp [hp] at hno
    · simp [hp]

/-! ## Purging a run -/

def isRegister (u data : Bytes) : Bool :=
  match readRequest data with
  | .register v _ => v = u
  | _ => false

theorem find_serve_of_absent (m : UserManager) (x : κ × Bytes) {u : Bytes} (hreq : readRequest x.2 = .logout u)
    (hno : (serve peer m x).2 ≠ okLogout) : (serve peer m x).1.find u = m.find u := by
  rw [serve_eq, asked, hreq] at hno ⊢
  simp only [Request.call, UserManager.call, replyTo, UserManager.logoutUser_snd, UserManager.find_logoutUser,
    if_true] at hno ⊢
  cases hu : m.find u with
  | none => rfl
  | some r =>
    rw [hu] at hno
    cases hin : r.isLoggedIn with
    | false => simp [hin]
    | true => simp [hin] at hno

/-- A request other than REGISTER, and an OK LOGOUT or LOGIN, of `u` leaves the record of `u` alone. -/
theorem find_serve_of_dropped (m : UserManager) (x : κ × Bytes) (u : Bytes)
    (hlogin : isOkLogin u (x, (serve peer m x).2) = false) (hregister : isRegister u x.2 = false)
    (hlogout : isOkLogout u (x, (serve peer m x).2) = false) : (serve peer m x).1.find u = m.find u := by
  have hother : ∀ v, v ≠ u → (∀ c, asked (peer x.1) x.2 = some c → c.user = v) →
      (serve peer m x).1.find u = m.find u := fun v hv hnames =>
    find_serve_of_ne peer m x u (fun c hc => by rw [hnames c hc]; exact Ne.symm hv)
  unfold isOkLogin at hlogin
  unfold isRegister at hregister
  unfold isOkLogout at hlogout
  cases hreq : readRequest x.2 with
  | unknown => rw [serve_eq, asked, hreq]; rfl
  | getinfo v => rw [serve_eq, asked, hreq]; rfl
  | register v p =>
    rw [hreq] at hregister
    apply hother v (by simpa using hregister)
    intro c hc
    rw [asked, hreq] at hc
    cases hc
    rfl
  | logout v =>
    by_cases hv : v = u
    · subst hv
      rw [hreq] at hlogout
      exact find_serve_of_absent peer m x hreq (by simpa using hlogout)
    · apply hother v hv
      intro c hc
      rw [asked, hreq] at hc
      cases hc
      rfl
  | login v p ip port =>
    by_cases hv : v = u
    · subst hv
      rw [hreq] at hlogin
      exact find_serve_of_refused peer m x hreq (by simpa using hlogin)
    · apply hother v hv
      intro c hc
      rw [asked, hreq] at hc
      cases hc
      rfl

variable [DecidableEq κ]

/-- The connection had a LOGIN of `u` answered OK. -/
def provedPassword (u : Bytes) (past : List ((κ × Bytes) × Bytes)) (c : κ) : Bool :=
  past.any (fun e => e.1.1 = c ∧ isOkLogin u e = true)

/-- **Without a user's password a connection reaches the user's record by REGISTER and an OK LOGOUT only**: deleting all
its other requests from a run leaves the final record as it was. -/
theorem find_purged (reqs : List (κ × Bytes)) (u : Bytes) :
    let past := Machine.trace (serve peer) UserManager.empty reqs
    (Machine.final (serve peer) UserManager.empty ((past.filter (fun e =>
      provedPassword u past e.1.1 || isRegister u e.1.2 || isOkLogout u e)).map Prod.fst)).find u =
      (Machine.final (serve peer) UserManager.empty reqs).find u := by
  intro past
  refine (Machine.view_purge (serve peer) (fun m => m.find u) _
    (fun m m' x _ h => find_serve_congr peer x h) reqs UserManager.empty UserManager.empty rfl ?_).symm
  intro pre x post hsplit hkeep
  simp only [Bool.or_eq_false_iff] at hkeep
  obtain ⟨⟨hpass, hregister⟩, hlogout⟩ := hkeep
  generalize hm : Machine.final (serve peer) UserManager.empty pre = m at hlogout ⊢
  -- the request stands in the history with the reply it got here
  have hmem : (x, (serve peer m x).2) ∈ past := by
    simp only [past]
    rw [hsplit, Machine.trace_append, hm, Machine.trace_cons]
    simp
  have hlogin : isOkLogin u (x, (serve peer m x).2) = false := by
    have := List.any_eq_false.1 hpass _ hmem
    simpa using this
  exact find_serve_of_dropped peer m x u hlogin hregister hlogout

/-- A stranger's LOGOUT: connection 1 never logs in, and its request shows in the final record of `alice`. -/
theorem stranger_logs_out :
    ¬ ∀ (peer : Nat → InAddr) (reqs : List (Nat × Bytes)) (u : Bytes),
      let past := Machine.trace (serve peer) UserManager.empty reqs
      let view := fun m : UserManager => (m.find u).map (fun r => (r.isLoggedIn, r.ipAddress, r.port))
      view (Machine.final (serve peer) UserManager.empty (reqs.filter (fun x =>
        provedPassword u past x.1 || isRegister u x.2))) =
      view (Machine.final (serve peer) UserManager.empty reqs) := by
  intro h
  exact absurd (h (fun _ => ⟨127, 0, 0, 1⟩)
    [(0, lit "REGISTER alice pw\n"), (0, lit "LOGIN alice pw 0.0.0.0 5001\n"), (1, lit "LOGOUT alice\n")]
    (lit "alice")) (by decide)

end ChatRoom
