import ChatRoom.Connection
/-!
# ConnectionPresence — who is logged in, as the wire shows it

Over runs of chunks on any connections, served one at a time from an empty database.  A reply tells what its request did
to a user's presence (`presenceWrite`), so the presence after a run is the last such change (`serve_presence_final`):
what GETINFO and LOGOUT of that user are answered, and what a logged-out record holds, follow (`presence_by_history`).
-/
namespace ChatRoom

open UserManager (Call Returned Represents)

variable {κ : Type} (peer : κ → InAddr)

/-- A request and the reply to it: LOGIN of `u`, answered OK. -/
def isOkLogin (u : Bytes) (e : (κ × Bytes) × Bytes) : Bool :=
  match readRequest e.1.2 with
  | .login v _ _ _ => v = u ∧ e.2 = okLogin
  | _ => false

def isOkLogout (u : Bytes) (e : (κ × Bytes) × Bytes) : Bool := readRequest e.1.2 = .logout u ∧ e.2 = okLogout

/-- What an answered request makes of `u`'s presence: an OK LOGIN puts `u` at the peer address of the connection and the
port of the request, an OK LOGOUT nowhere. -/
def presenceWrite (u : Bytes) (e : (κ × Bytes) × Bytes) : Option (Option Endpoint) :=
  match readRequest e.1.2 with
  | .login v _ _ port =>
    if v = u ∧ e.2 = okLogin then some (some (inetNtoa (peer e.1.1), toUint16 (atoi (cStr port)))) else none
  | .logout v => if v = u ∧ e.2 = okLogout then some none else none
  | _ => none

/-- Where the last OK LOGIN or OK LOGOUT of `u` put it. -/
def lastPresence (u : Bytes) (past : List ((κ × Bytes) × Bytes)) : Option Endpoint :=
  ((past.filterMap (presenceWrite peer u)).getLast?).getD none

/-- Only an OK LOGIN of `u` puts `u` somewhere. -/
theorem okLogin_of_presenceWrite {u : Bytes} {e : (κ × Bytes) × Bytes} {x : Endpoint}
    (h : presenceWrite peer u e = some (some x)) : ∃ p ip port, readRequest e.1.2 = .login u p ip port ∧ e.2 = okLogin ∧
      x = (inetNtoa (peer e.1.1), toUint16 (atoi (cStr port))) := by
  unfold presenceWrite at h
  split at h
  · rename_i v p ip port hreq
    split at h
    · rename_i hok
      cases h
      exact ⟨p, ip, port, by rw [hreq, hok.1], hok.2, rfl⟩
    · cases h
  · split at h <;> cases h
  · cases h

theorem isOkLogin_of_presenceWrite {u : Bytes} {e : (κ × Bytes) × Bytes} {x : Endpoint}
    (h : presenceWrite peer u e = some (some x)) : isOkLogin u e = true := by
  obtain ⟨p, ip, port, hreq, hok, -⟩ := okLogin_of_presenceWrite peer h
  unfold isOkLogin
  rw [hreq]
  simp [hok]

theorem isOkLogout_iff (u : Bytes) (e : (κ × Bytes) × Bytes) :
    isOkLogout u e = true ↔ readRequest e.1.2 = .logout u ∧ e.2 = okLogout := decide_eq_true_iff

theorem presenceWrite_of_okLogout {u : Bytes} {e : (κ × Bytes) × Bytes} (h : isOkLogout u e = true) :
    presenceWrite peer u e = some none := by
  obtain ⟨hreq, hok⟩ := (isOkLogout_iff u e).1 h
  unfold presenceWrite
  rw [hreq, hok]
  simp

/-! ## One chunk -/

theorem okLogin_ne : errInvalidCredentials ≠ okLogin := by decide

theorem okLogout_ne : errNotLoggedIn ≠ okLogout := by decide

theorem serve_presence (m : UserManager) (x : κ × Bytes) (u : Bytes) :
    (serve peer m x).1.presence u = (presenceWrite peer u (x, (serve peer m x).2)).getD (m.presence u) := by
  rw [serve_eq]
  unfold presenceWrite asked
  cases readRequest x.2 with
  | unknown => rfl
  | register v p => exact UserManager.presence_call m (.registerUser v p) u
  | getinfo v => exact UserManager.presence_call m (.findUser v) u
  | login v p ip port =>
    dsimp only [Request.call]
    rw [UserManager.presence_call]
    simp only [UserManager.call, Call.op, Returned.answer, replyTo, Directory.movement]
    rcases Bool.eq_false_or_eq_true (m.loginUser v p (inetNtoa (peer x.1)) (toUint16 (atoi (cStr port)))).2 with h | h
    · by_cases hv : v = u
      · subst hv; simp [h]
      · simp [h, hv]
    · simp [h, okLogin_ne]
  | logout v =>
    dsimp only [Request.call]
    rw [UserManager.presence_call]
    simp only [UserManager.call, Call.op, Returned.answer, replyTo, Directory.movement]
    rcases Bool.eq_false_or_eq_true (m.logoutUser v).2 with h | h
    · by_cases hv : v = u
      · subst hv; simp [h]
      · simp [h, hv]
    · simp [h, okLogout_ne]

theorem serve_getinfo (m : UserManager) (x : κ × Bytes) (u : Bytes) (h : readRequest x.2 = .getinfo u) :
    (serve peer m x).2 = match m.presence u with
      | some (ip, port) => okInfo ip port
      | none => errUserNotFound := by
  rw [serve_eq, asked, h]
  simp only [Request.call, UserManager.call, UserManager.presence, UserManager.findUser_eq]
  cases m.find u with
  | none => rfl
  | some r => cases hl : r.isLoggedIn <;> simp [Option.filter_some, replyTo, hl]

theorem serve_logout (m : UserManager) (x : κ × Bytes) (u : Bytes) (h : readRequest x.2 = .logout u) :
    (serve peer m x).2 = okLogout ↔ (m.presence u).isSome := by
  rw [serve_eq, asked, h, UserManager.presence_eq]
  simp only [Request.call, UserManager.call, UserManager.logoutUser_snd, replyTo]
  cases m.find u with
  | none => simp [okLogout_ne]
  | some r => cases hl : r.isLoggedIn <;> simp [hl, okLogout_ne]

/-! ## A run -/

/-- **The presence after a run is the last one its replies tell of.** -/
theorem serve_presence_final (m : UserManager) (reqs : List (κ × Bytes)) (u : Bytes) :
    (Machine.final (serve peer) m reqs).presence u =
      (((Machine.trace (serve peer) m reqs).filterMap (presenceWrite peer u)).getLast?).getD (m.presence u) :=
  Machine.final_lastWrite (serve peer) (fun m => m.presence u) (presenceWrite peer u)
    (fun m x => serve_presence peer m x u) reqs m

theorem represents_serve (reqs : List (κ × Bytes)) :
    ∃ d, Represents (Machine.final (serve peer) UserManager.empty reqs) d := by
  refine Machine.final_invariant (serve peer) (fun m => ∃ d, Represents m d) (fun m x hm => ?_) reqs
    UserManager.empty ⟨_, UserManager.represents_empty⟩
  obtain ⟨d, hd⟩ := hm
  rw [serve_eq]
  cases asked (peer x.1) x.2 with
  | none => exact ⟨d, hd⟩
  | some c => exact ⟨_, (UserManager.represents_call hd c).1⟩

/-- Between two OK LOGOUTs of a user lies an OK LOGIN: the first leaves no presence, the second needs one. -/
theorem okLogin_between (reqs : List (κ × Bytes)) (u : Bytes) (t₁ t₂ t₃ : List ((κ × Bytes) × Bytes))
    (e₁ e₂ : (κ × Bytes) × Bytes)
    (htr : Machine.trace (serve peer) UserManager.empty reqs = t₁ ++ e₁ :: (t₂ ++ e₂ :: t₃))
    (h₁ : isOkLogout u e₁ = true) (h₂ : isOkLogout u e₂ = true) : ∃ e ∈ t₂, isOkLogin u e = true := by
  obtain ⟨-, -, hout₁, htail⟩ := Machine.trace_split _ _ _ _ _ _ htr
  generalize Machine.final (serve peer) UserManager.empty (t₁.map Prod.fst) = m₁ at hout₁ htail
  have hnone : (serve peer m₁ e₁.1).1.presence u = none := by
    rw [serve_presence, ← hout₁, presenceWrite_of_okLogout peer h₁]
    rfl
  obtain ⟨-, ht₂, hout₂, -⟩ := Machine.trace_split _ _ _ _ _ _ htail.symm
  obtain ⟨hreq₂, hok₂⟩ := (isOkLogout_iff u e₂).1 h₂
  have hsome := (serve_logout peer _ e₂.1 u hreq₂).1 (hout₂.symm.trans hok₂)
  rw [serve_presence_final, ← ht₂, hnone] at hsome
  cases hl : (t₂.filterMap (presenceWrite peer u)).getLast? with
  | none => rw [hl] at hsome; cases hsome
  | some w =>
    rw [hl, Option.getD_some] at hsome
    obtain ⟨x, rfl⟩ := Option.isSome_iff_exists.1 hsome
    obtain ⟨e, he, hw⟩ := List.mem_filterMap.1 (List.mem_of_getLast? hl)
    exact ⟨e, he, isOkLogin_of_presenceWrite peer hw⟩

/-- **Presence and endpoint over whole histories.**  GETINFO of a user is answered OK exactly when the last OK LOGIN or
OK LOGOUT of it is a LOGIN, and then with the address and port of that one; LOGOUT is answered OK exactly when GETINFO
would be; so an OK LOGIN lies between two OK LOGOUTs; and a registered user who is not logged in has a blank record. -/
theorem presence_by_history (reqs : List (κ × Bytes)) (u : Bytes) :
    let m := Machine.final (serve peer) UserManager.empty reqs
    let past := Machine.trace (serve peer) UserManager.empty reqs
    (∀ x, readRequest x.2 = .getinfo u →
      ((∃ ip port, (serve peer m x).2 = okInfo ip port) ↔ (lastPresence peer u past).isSome) ∧
      ∀ ip port, lastPresence peer u past = some (ip, port) → (serve peer m x).2 = okInfo ip port) ∧
    (∀ x y, readRequest x.2 = .logout u → readRequest y.2 = .getinfo u →
      ((serve peer m x).2 = okLogout ↔ ∃ ip port, (serve peer m y).2 = okInfo ip port)) ∧
    (∀ t₁ e₁ t₂ e₂ t₃, past = t₁ ++ e₁ :: (t₂ ++ e₂ :: t₃) → isOkLogout u e₁ = true → isOkLogout u e₂ = true →
      ∃ e ∈ t₂, isOkLogin u e = true) ∧
    (∀ r, m.find u = some r → r.isLoggedIn = false → r.ipAddress = [] ∧ r.port = 0) := by
  intro m past
  have hpres : m.presence u = lastPresence peer u past := serve_presence_final peer UserManager.empty reqs u
  have hinfo : ∀ x : κ × Bytes, readRequest x.2 = .getinfo u →
      ((∃ ip port, (serve peer m x).2 = okInfo ip port) ↔ (m.presence u).isSome) := by
    intro x hx
    rw [serve_getinfo peer m x u hx]
    cases m.presence u with
    | none => simp [okInfo_ne]
    | some e => simp only [Option.isSome_some, iff_true]; exact ⟨e.1, e.2, rfl⟩
  refine ⟨fun x hx => ⟨hpres ▸ hinfo x hx, fun ip port hlast => ?_⟩, fun x y hx hy => ?_, ?_, ?_⟩
  · rw [serve_getinfo peer m x u hx, hpres, hlast]
  · rw [serve_logout peer m x u hx, hinfo y hy]
  · intro t₁ e₁ t₂ e₂ t₃ htr h₁ h₂
    exact okLogin_between peer reqs u t₁ t₂ t₃ e₁ e₂ htr h₁ h₂
  · intro r hr hl
    obtain ⟨d, hd⟩ := represents_serve peer reqs
    exact hd.blank hr hl

end ChatRoom
