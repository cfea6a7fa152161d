import ChatRoom.Lines
import ChatRoom.ConnectionPresence
/-!
# ConnectionReplies — the reply stream can be cut into replies

Replies have no length and no end mark, and one may start like another.  Still a stream of them can be cut in one way
only: `firstReply` finds the reply a stream starts with (`reads_replies`), because an endpoint reply goes on as long as
there are digits, dots and colons, and no reply starts with one of these.
-/
namespace ChatRoom

open UserManager (Call Returned)

/-- The replies that are one literal. -/
def fixedReplies : List Bytes :=
  [okRegistered, errUserExists, okLogin, errInvalidCredentials, okLogout, errNotLoggedIn, errUserNotFound,
    errUnknownCommand]

/-- What a server whose records hold `inet_ntoa` addresses may send. -/
def IsReply (w : Bytes) : Prop := w ∈ fixedReplies ∨ ∃ (x : InAddr) (port : UInt16), w = okInfo (inetNtoa x) port

/-! ## Cutting the stream -/

/-- A digit, a dot or a colon. -/
def isEndpointByte (b : UInt8) : Bool := Numeral.isDigit b || b == 46 || b == 58

/-- The reply that a stream of replies starts with. -/
def firstReply (stream : Bytes) : Bytes :=
  match fixedReplies.find? (fun w => w.isPrefixOf stream) with
  | some w => w
  | none => lit "OK " ++ (stream.drop 3).takeWhile isEndpointByte

theorem firstReply_fixed {w : Bytes} (hw : w ∈ fixedReplies) (rest : Bytes) : firstReply (w ++ rest) = w := by
  simp only [fixedReplies, List.mem_cons, List.not_mem_nil, or_false] at hw
  rcases hw with rfl | rfl | rfl | rfl | rfl | rfl | rfl | rfl <;> rfl

theorem isDigit_head_inetNtoa (x : InAddr) : ∃ b l, inetNtoa x = b :: l ∧ Numeral.isDigit b = true := by
  cases hx : stdToString x.a.toNat with
  | nil => exact absurd hx (Numeral.numeral_ne_nil _)
  | cons b l =>
    refine ⟨b, _, by rw [inetNtoa, hx]; rfl, ?_⟩
    apply Numeral.isDigit_of_mem_numeral x.a.toNat
    rw [stdToString] at hx
    rw [hx]
    exact List.mem_cons_self

theorem isEndpointByte_of_isDigit {b : UInt8} (h : Numeral.isDigit b = true) : isEndpointByte b = true := by
  rw [isEndpointByte, h]
  rfl

/-- What stands in an endpoint reply after `"OK "`. -/
theorem isEndpointByte_of_mem (x : InAddr) (port : UInt16) :
    ∀ b ∈ inetNtoa x ++ lit ":" ++ stdToString port.toNat, isEndpointByte b = true := by
  intro b hb
  simp only [List.mem_append] at hb
  rcases hb with (hb | hb) | hb
  · rcases mem_inetNtoa x b hb with hd | rfl
    · exact isEndpointByte_of_isDigit hd
    · rfl
  · rw [List.mem_singleton.1 hb]
    rfl
  · exact isEndpointByte_of_isDigit (Numeral.isDigit_of_mem_numeral _ b hb)

theorem firstReply_okInfo (x : InAddr) (port : UInt16) (rest : Bytes)
    (hrest : ∀ b ∈ rest.head?, isEndpointByte b = false) :
    firstReply (okInfo (inetNtoa x) port ++ rest) = okInfo (inetNtoa x) port := by
  have hstream : okInfo (inetNtoa x) port ++ rest =
      lit "OK " ++ ((inetNtoa x ++ lit ":" ++ stdToString port.toNat) ++ rest) := by
    simp only [okInfo, List.append_assoc]
  -- the byte after `"OK "` is a digit, so no literal fits
  have hnone : fixedReplies.find? (fun w => w.isPrefixOf (okInfo (inetNtoa x) port ++ rest)) = none := by
    obtain ⟨b, l, hb, hd⟩ := isDigit_head_inetNtoa x
    have hR : b ≠ 82 := by rintro rfl; exact absurd hd (by decide)
    have hL : b ≠ 76 := by rintro rfl; exact absurd hd (by decide)
    rw [hstream, hb]
    simp [fixedReplies, okRegistered, errUserExists, okLogin, errInvalidCredentials, okLogout, errNotLoggedIn,
      errUserNotFound, errUnknownCommand, sendLiteral, lit, hR.symm, hL.symm]
  have hrun : (rest.takeWhile isEndpointByte) = [] := by
    cases rest with
    | nil => rfl
    | cons b rest => exact List.takeWhile_cons_of_neg (by rw [hrest b rfl]; decide)
  have hdrop : ∀ s : Bytes, (lit "OK " ++ s).drop 3 = s := fun _ => rfl
  unfold firstReply
  rw [hnone]
  dsimp only
  rw [hstream, hdrop, List.takeWhile_append_of_pos (isEndpointByte_of_mem x port), hrun, List.append_nil]
  simp only [okInfo, List.append_assoc]

/-- Every reply starts with `O` or `E`. -/
theorem head_reply {w : Bytes} (hw : IsReply w) : ∃ b l, w = b :: l ∧ isEndpointByte b = false := by
  rcases hw with hw | ⟨x, port, rfl⟩
  · simp only [fixedReplies, List.mem_cons, List.not_mem_nil, or_false] at hw
    rcases hw with rfl | rfl | rfl | rfl | rfl | rfl | rfl | rfl <;> exact ⟨_, _, rfl, rfl⟩
  · exact ⟨79, _, rfl, rfl⟩

/-- **`firstReply` reads every stream of replies.** -/
theorem reads_replies : Codebook.Reads IsReply firstReply := by
  intro w ws hw hws
  rcases hw with hw | ⟨x, port, rfl⟩
  · exact firstReply_fixed hw ws.flatten
  · apply firstReply_okInfo
    exact Codebook.head_flatten (fun b => isEndpointByte b = false) (fun v hv => head_reply hv) ws hws

/-! ## What the server sends -/

/-- Whoever is logged in is at a dotted address. -/
def Dotted (m : UserManager) : Prop := ∀ u ip port, m.presence u = some (ip, port) → ∃ addr, ip = inetNtoa addr

variable {κ : Type} (peer : κ → InAddr)

/-- **The server sees to it that addresses are dotted**: a LOGIN brings the one of its own connection. -/
theorem dotted_serve {m : UserManager} (h : Dotted m) (x : κ × Bytes) : Dotted (serve peer m x).1 := by
  intro u ip port hpres
  rw [serve_presence] at hpres
  cases hw : presenceWrite peer u (x, (serve peer m x).2) with
  | none =>
    rw [hw] at hpres
    exact h u ip port hpres
  | some e =>
    rw [hw, Option.getD_some] at hpres
    rw [hpres] at hw
    obtain ⟨_, _, _, _, _, heq⟩ := okLogin_of_presenceWrite peer hw
    exact ⟨peer x.1, congrArg Prod.fst heq⟩

theorem dotted_final (reqs : List (κ × Bytes)) : Dotted (Machine.final (serve peer) UserManager.empty reqs) :=
  Machine.final_invariant (serve peer) Dotted (fun _ x h => dotted_serve peer h x) reqs UserManager.empty
    (fun _ _ _ h => by cases h)

theorem isReply_serve {m : UserManager} (h : Dotted m) (x : κ × Bytes) : IsReply (serve peer m x).2 := by
  cases hreq : readRequest x.2 with
  | getinfo u =>
    rw [serve_getinfo peer m x u hreq]
    cases hu : m.presence u with
    | none => exact .inl (by decide)
    | some e =>
      obtain ⟨y, hy⟩ := h u e.1 e.2 hu
      exact .inr ⟨y, e.2, by rw [← hy]⟩
  | unknown =>
    rw [serve_eq, asked, hreq]
    dsimp only [Request.call]
    exact .inl (by decide)
  | register u p =>
    rw [serve_eq, asked, hreq]
    dsimp only [Request.call, UserManager.call, replyTo]
    split <;> exact .inl (by decide)
  | login u p ip port =>
    rw [serve_eq, asked, hreq]
    dsimp only [Request.call, UserManager.call, replyTo]
    split <;> exact .inl (by decide)
  | logout u =>
    rw [serve_eq, asked, hreq]
    dsimp only [Request.call, UserManager.call, replyTo]
    split <;> exact .inl (by decide)

/-- The buffers passed to `sendData`, in order. -/
def sentData (events : List Event) : List Bytes :=
  events.filterMap (fun
    | .sent data => some data
    | _ => none)

theorem sentData_append (es fs : List Event) : sentData (es ++ fs) = sentData es ++ sentData fs :=
  List.filterMap_append

theorem sentData_closeConnection (conn : Connection) : sentData conn.closeConnection.2 = [] := by
  unfold Connection.closeConnection
  split
  · rfl
  · split <;> rfl

theorem sentData_events (clientAddr : InAddr) (m : UserManager) (data : Bytes) :
    sentData (processData clientAddr m data).events = [(processData clientAddr m data).reply] := by
  rw [processData_eq]
  cases asked clientAddr data <;> rfl

/-- **A connection sends replies only**, whatever it receives. -/
theorem isReply_receiveLoop (conn : Connection) : ∀ (received : List Received) (m : UserManager), Dotted m →
    ∀ w ∈ sentData (conn.receiveLoop m received).2.2, IsReply w
  | [], _, _, _, hw => by cases hw
  | .closed :: _, m, _, w, hw => by
    simp only [Connection.receiveLoop, sentData_closeConnection] at hw
    cases hw
  | .error :: _, m, _, w, hw => by
    simp only [Connection.receiveLoop, sentData_closeConnection] at hw
    cases hw
  | .data bytes :: rest, m, h, w, hw => by
    rw [Connection.receiveLoop] at hw
    split at hw
    · rw [sentData_closeConnection] at hw
      cases hw
    · dsimp only at hw
      rw [sentData_append, sentData_events, List.mem_append, List.mem_singleton] at hw
      rcases hw with rfl | hw
      · exact isReply_serve (fun _ : Unit => conn.clientAddr) h ((), bytes)
      · exact isReply_receiveLoop conn rest _ (dotted_serve (fun _ : Unit => conn.clientAddr) h ((), bytes)) w hw

theorem isReply_handleClient (conn : Connection) (received : List Received) {m : UserManager} (h : Dotted m) :
    ∀ w ∈ sentData (conn.handleClient m received).2.2, IsReply w := by
  unfold Connection.handleClient
  split
  · exact isReply_receiveLoop conn received m h
  · intro w hw
    rw [sentData_closeConnection] at hw
    cases hw

/-- **The reply stream is uniquely decodable**: two connections, on databases grown from empty ones, that send the same
bytes have sent the same replies. -/
theorem replies_of_stream {κ' : Type} (peer' : κ' → InAddr) (past : List (κ × Bytes)) (past' : List (κ' × Bytes))
    (conn conn' : Connection) (received received' : List Received) :
    let sent := sentData (conn.handleClient (Machine.final (serve peer) UserManager.empty past) received).2.2
    let sent' := sentData (conn'.handleClient (Machine.final (serve peer') UserManager.empty past') received').2.2
    sent.flatten = sent'.flatten → sent = sent' := by
  intro sent sent' h
  apply Codebook.flatten_inj reads_replies _ sent sent'
  · exact isReply_handleClient conn received (dotted_final peer past)
  · exact isReply_handleClient conn' received' (dotted_final peer' past')
  · exact h
  · rintro w hw rfl
    obtain ⟨b, l, hnil, -⟩ := head_reply hw
    cases hnil

theorem replies_of_stream_alice_bob :
    let home : Unit → InAddr := fun _ => ⟨127, 0, 0, 1⟩
    let conn : Connection := ⟨4, ⟨127, 0, 0, 1⟩, true⟩
    let alice := Machine.final (serve home) UserManager.empty [((), lit "REGISTER alice pw\n")]
    let bob := Machine.final (serve home) UserManager.empty [((), lit "REGISTER bob pw\n")]
    let received := [Received.data (lit "LOGIN alice pw 0.0.0.0 80\n"), .data (lit "GETINFO alice\n"), .closed]
    let received' := [Received.data (lit "LOGIN bob pw 0.0.0.0 80\n"), .data (lit "GETINFO bob\n"), .error]
    sentData (conn.handleClient alice received).2.2 = sentData (conn.handleClient bob received').2.2 :=
  replies_of_stream (fun _ : Unit => ⟨127, 0, 0, 1⟩) (fun _ : Unit => ⟨127, 0, 0, 1⟩) [((), lit "REGISTER alice pw\n")]
    [((), lit "REGISTER bob pw\n")] ⟨4, ⟨127, 0, 0, 1⟩, true⟩ ⟨4, ⟨127, 0, 0, 1⟩, true⟩
    [.data (lit "LOGIN alice pw 0.0.0.0 80\n"), .data (lit "GETINFO alice\n"), .closed]
    [.data (lit "LOGIN bob pw 0.0.0.0 80\n"), .data (lit "GETINFO bob\n"), .error] (by decide)

end ChatRoom
