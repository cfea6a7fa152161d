import ChatRoom.ConnectionPresence
/-!
# ConnectionPort — the port of a LOGIN, from its text to the reply to GETINFO

The text goes through `atoi` to an `int` and from there into a `uint16_t`, without a check.  A port of more than 65535
given with the right password is therefore stored as another one (`port_kept_iff`); every other port is stored and
advertised as given, until the user's next successful login or logout (`advertised_of_okLogin`).
-/
namespace ChatRoom

open UserManager (hashPassword)

variable {κ : Type} (peer : κ → InAddr)

/-- `p` is the password of the account `u`. -/
def Credentials (m : UserManager) (u p : Bytes) : Prop :=
  ∃ user, m.find u = some user ∧ hashPassword p = user.passwordHash

/-- What the chunk `x`, a LOGIN of `u` with a port of value `n`, should do: keep the port, or refuse. -/
structure PortKept (m : UserManager) (x : κ × Bytes) (u : Bytes) (n : Nat) : Prop where
  stored : (serve peer m x).2 = okLogin → ∃ user, (serve peer m x).1.find u = some user ∧ user.port.toNat = n
  advertised : (serve peer m x).2 = okLogin → ∀ later y,
    (∀ e ∈ Machine.trace (serve peer) (serve peer m x).1 later, presenceWrite peer u e = none) →
    readRequest y.2 = .getinfo u →
    ∃ ip, (serve peer (Machine.final (serve peer) (serve peer m x).1 later) y).2 =
      lit "OK " ++ ip ++ lit ":" ++ stdToString n
  refused : 65535 < n → (serve peer m x).2 ≠ okLogin ∧ (serve peer m x).1 = m

section Login
variable {peer} {m : UserManager} {x : κ × Bytes} {u p ip port : Bytes}

theorem serve_login (hreq : readRequest x.2 = .login u p ip port) :
    serve peer m x = ((m.loginUser u p (inetNtoa (peer x.1)) (toUint16 (atoi (cStr port)))).1,
      if (m.loginUser u p (inetNtoa (peer x.1)) (toUint16 (atoi (cStr port)))).2 then okLogin
      else errInvalidCredentials) := by
  rw [serve_eq, asked, hreq]
  rfl

theorem okLogin_iff (hreq : readRequest x.2 = .login u p ip port) :
    (serve peer m x).2 = okLogin ↔ Credentials m u p := by
  rw [serve_login hreq]
  dsimp only
  rw [UserManager.loginUser_snd]
  unfold Credentials
  cases m.find u with
  | none => simp [okLogin_ne]
  | some user => by_cases h : hashPassword p = user.passwordHash <;> simp [h, okLogin_ne]

/-- A LOGIN that is refused leaves the database as it was. -/
theorem unchanged_of_refused (hreq : readRequest x.2 = .login u p ip port) (hno : ¬ Credentials m u p) :
    (serve peer m x).1 = m := by
  rw [serve_login hreq]
  unfold UserManager.loginUser
  cases hu : m.find u with
  | none => rfl
  | some user =>
    have hp : hashPassword p ≠ user.passwordHash := fun hp => hno ⟨user, hu, hp⟩
    simp [hp]

theorem stored_of_okLogin (hreq : readRequest x.2 = .login u p ip port) (hok : (serve peer m x).2 = okLogin) :
    ∃ user, (serve peer m x).1.find u = some user ∧ user.port = toUint16 (atoi (cStr port)) := by
  obtain ⟨user, hu, hp⟩ := (okLogin_iff hreq).1 hok
  rw [serve_login hreq]
  refine ⟨_, (UserManager.find_loginUser m u p _ _ u).trans (by rw [if_pos rfl, hu]; rfl), ?_⟩
  simp [hp]

/-- **What an OK LOGIN stores, GETINFO advertises** until the user logs in or out again. -/
theorem advertised_of_okLogin (hreq : readRequest x.2 = .login u p ip port) (hok : (serve peer m x).2 = okLogin)
    (later : List (κ × Bytes))
    (hquiet : ∀ e ∈ Machine.trace (serve peer) (serve peer m x).1 later, presenceWrite peer u e = none)
    (y : κ × Bytes) (hy : readRequest y.2 = .getinfo u) :
    (serve peer (Machine.final (serve peer) (serve peer m x).1 later) y).2 =
      okInfo (inetNtoa (peer x.1)) (toUint16 (atoi (cStr port))) := by
  have hin : (serve peer m x).1.presence u = some (inetNtoa (peer x.1), toUint16 (atoi (cStr port))) := by
    rw [serve_presence, presenceWrite, hreq]
    simp [hok]
  have hkeep : (Machine.final (serve peer) (serve peer m x).1 later).presence u = (serve peer m x).1.presence u := by
    rw [serve_presence_final, List.filterMap_eq_nil_iff.2 hquiet]
    rfl
  rw [serve_getinfo peer _ y u hy, hkeep, hin]

/-- **The port is kept exactly when it fits a port or the LOGIN is refused for its credentials.** -/
theorem port_kept_iff (hreq : readRequest x.2 = .login u p ip port) (hne : port ≠ [])
    (hdig : ∀ b ∈ port, Numeral.isDigit b = true) (hint : Numeral.value port ≤ 2147483647) :
    PortKept peer m x u (Numeral.value port) ↔ Numeral.value port ≤ 65535 ∨ ¬ Credentials m u p := by
  have hatoi := atoi_digits hne hdig hint
  constructor
  · intro h
    by_contra hno
    rw [not_or, Nat.not_le, not_not] at hno
    exact (h.refused hno.1).1 ((okLogin_iff hreq).2 hno.2)
  · rintro (hfits | hrefused)
    · have hport := toNat_toUint16_of_le hfits
      refine ⟨fun hok => ?_, fun hok later y hquiet hy => ?_, fun hbig => absurd hfits (Nat.not_le.2 hbig)⟩
      · obtain ⟨user, hu, hstored⟩ := stored_of_okLogin hreq hok
        exact ⟨user, hu, by rw [hstored, hatoi, hport]⟩
      · refine ⟨inetNtoa (peer x.1), ?_⟩
        rw [advertised_of_okLogin hreq hok later hquiet y hy, okInfo, hatoi, hport]
    · have hno : (serve peer m x).2 ≠ okLogin := fun hok => hrefused ((okLogin_iff hreq).1 hok)
      exact ⟨fun hok => absurd hok hno, fun hok => absurd hok hno, fun _ => ⟨hno, unchanged_of_refused hreq hrefused⟩⟩

end Login

/-- One connection, from 127.0.0.1, and the database after alice registered on it. -/
def loopback : Unit → InAddr := fun _ => ⟨127, 0, 0, 1⟩

def aliceRegistered : UserManager :=
  Machine.final (serve loopback) UserManager.empty [((), lit "REGISTER alice password123\n")]

theorem port_kept_iff_5000 :
    PortKept loopback aliceRegistered ((), lit "LOGIN alice password123 0.0.0.0 5000\n") (lit "alice")
      (Numeral.value (lit "5000")) := by
  have hreq : readRequest (lit "LOGIN alice password123 0.0.0.0 5000\n") =
      .login (lit "alice") (lit "password123") (lit "0.0.0.0") (lit "5000") := by decide
  have hdig : ∀ b ∈ lit "5000", Numeral.isDigit b = true := List.all_eq_true.1 (by decide)
  exact (port_kept_iff (x := ((), _)) hreq (by decide) hdig (by decide)).2 (.inl (by decide))

/-- 70000 is accepted, and advertised as 4464. -/
theorem port_lost :
    readRequest (lit "LOGIN alice password123 0.0.0.0 70000\n") =
      .login (lit "alice") (lit "password123") (lit "0.0.0.0") (lit "70000") ∧
    Numeral.value (lit "70000") = 70000 ∧
    (serve loopback (serve loopback aliceRegistered ((), lit "LOGIN alice password123 0.0.0.0 70000\n")).1
      ((), lit "GETINFO alice\n")).2 = lit "OK 127.0.0.1:4464" ∧
    ¬ PortKept loopback aliceRegistered ((), lit "LOGIN alice password123 0.0.0.0 70000\n") (lit "alice") 70000 := by
  refine ⟨by decide, by decide, by decide, fun h => ?_⟩
  exact (h.refused (by decide)).1 (by decide)

end ChatRoom
