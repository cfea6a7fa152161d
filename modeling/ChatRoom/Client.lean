import ChatRoom.ConnectionReplies
/-!
# Client — a client and the server it is connected to

Each method of `Client` that talks to the server sends one command and decodes one reply (`Exchange`).  `callServer`
puts it against the server's `processData`, every command and every reply arriving in one `recv`.  The two ends agree
(`callServer_eq`): a method is one call of the user database, and returns what that call returned, as long as the
addresses in the database are dotted ones (`Dotted`), which the server itself sees to.
-/
namespace ChatRoom

open UserManager (Call Returned)

/-! ## The methods -/

structure SockAddrIn where
  sinPort : UInt16
  sinAddr : InAddr
  deriving DecidableEq, Repr

structure Client where
  listenerAddr : SockAddrIn
  deriving DecidableEq, Repr

/-- One `send` on the server's socket, and what is made of the `recv` after it. -/
structure Exchange (ρ : Type) where
  command : Bytes
  decode : Received → Except StdException ρ

def Exchange.map {ρ ρ' : Type} (f : ρ → ρ') (e : Exchange ρ) : Exchange ρ' :=
  ⟨e.command, fun received => (e.decode received).map f⟩

/-- `std::string(buffer).substr(0, 2) == "OK"`, after a `recv` that returned something. -/
def repliedOk : Received → Except StdException Bool
  | .data buffer =>
    if buffer.length = 0 then .ok false
    else do
      let status ← substr (cStr buffer) 0 2
      return status == lit "OK"
  | _ => .ok false

namespace Client

/-- The listener's address as `initializeListener` fills it in. -/
def initializeListener (listenPort : UInt16) : Client := ⟨⟨htons listenPort, inaddrAny⟩⟩

def registerWithServer (username password : Bytes) : Exchange Bool :=
  ⟨lit "REGISTER " ++ username ++ lit " " ++ password ++ lit "\n", repliedOk⟩

def loginToServer (client : Client) (username password : Bytes) : Exchange Bool :=
  let localIP := inetNtoa client.listenerAddr.sinAddr
  ⟨lit "LOGIN " ++ username ++ lit " " ++ password ++ lit " " ++ localIP ++ lit " " ++
    stdToString (ntohs client.listenerAddr.sinPort).toNat ++ lit "\n", repliedOk⟩

def logoutFromServer : Exchange Bool := ⟨lit "LOGOUT\n", repliedOk⟩

def decodeInfo : Received → Except StdException Endpoint
  | .data buffer =>
    if buffer.length = 0 then .ok ([], 0)
    else do
      let response := cStr buffer
      if (← substr response 0 3) = lit "OK " then
        let colonPos := strFind response 58
        let ip ← substr response 3 (colonPos - 3)
        let port ← stoi (← substr response (colonPos + 1) npos)
        return (ip, toUint16 port)
      else return ([], 0)
  | _ => .ok ([], 0)

def getClientInfo (username : Bytes) : Exchange Endpoint := ⟨lit "GETINFO " ++ username ++ lit "\n", decodeInfo⟩

end Client

/-- A username or password that `client.cpp` passes on: it read it with `>>` and found it not empty. -/
abbrev Word := { w : Bytes // Scan.IsWord isspace w }

inductive ClientCall
  | registerWithServer (username password : Word)
  | loginToServer (username password : Word)
  | logoutFromServer
  | getClientInfo (username : Word)
  deriving DecidableEq, Repr

inductive ClientResult
  | bool (ok : Bool)
  | info (e : Endpoint)
  deriving DecidableEq, Repr

def Client.exchange (client : Client) : ClientCall → Exchange ClientResult
  | .registerWithServer username password => (registerWithServer username password).map .bool
  | .loginToServer username password => (client.loginToServer username password).map .bool
  | .logoutFromServer => logoutFromServer.map .bool
  | .getClientInfo username => (getClientInfo username).map .info

variable {κ : Type} (peer : κ → InAddr) (listenPort : κ → UInt16)

/-- A call on the client `x.1`, whose connection the server sees at `peer x.1`. -/
def callServer (m : UserManager) (x : κ × ClientCall) : UserManager × Except StdException ClientResult :=
  let exchange := (Client.initializeListener (listenPort x.1)).exchange x.2
  let (m, reply) := serve peer m (x.1, exchange.command.take bufferSize)
  (m, exchange.decode (.data (reply.take (1024 - 1))))

/-- The command arrives whole in one `recv` of the server. -/
def Fits (x : κ × ClientCall) : Prop :=
  ((Client.initializeListener (listenPort x.1)).exchange x.2).command.length ≤ bufferSize

instance (x : κ × ClientCall) : Decidable (Fits listenPort x) := inferInstanceAs (Decidable (_ ≤ _))

/-! ## What the server reads -/

/-- What follows the first word of a command: a blank before each further word, and the newline. -/
def fields : List Word → Bytes
  | [] => lit "\n"
  | w :: ws => 32 :: (w.1 ++ fields ws)

theorem isspace_head_fields (ws : List Word) : ∀ b ∈ (fields ws).head?, isspace b = true := by
  cases ws <;> simp [fields, lit, isspace]

theorem extract_command (w : Word) (ws : List Word) : extract (w.1 ++ fields ws) = (w.1, fields ws) :=
  Scan.word_append isspace w.1 _ w.2 (isspace_head_fields ws)

theorem extract_fields (w : Word) (ws : List Word) : extract (fields (w :: ws)) = (w.1, fields ws) :=
  Scan.word_sep_append isspace 32 w.1 _ rfl w.2 (isspace_head_fields ws)

def portWord (port : UInt16) : Word := ⟨stdToString port.toNat, isWord_stdToString port.toNat⟩

/-- The wildcard address, which the client sends as its own. -/
def localIPWord : Word := ⟨inetNtoa inaddrAny, by decide⟩

theorem readRequest_register (u p : Word) : readRequest (lit "REGISTER" ++ fields [u, p]) = .register u p := by
  have hcmd := extract_command ⟨lit "REGISTER", by decide⟩ [u, p]
  unfold readRequest
  simp only [hcmd, extract_fields, if_true]

theorem readRequest_login (u p ip port : Word) :
    readRequest (lit "LOGIN" ++ fields [u, p, ip, port]) = .login u p ip port := by
  have hcmd := extract_command ⟨lit "LOGIN", by decide⟩ [u, p, ip, port]
  unfold readRequest
  simp only [hcmd, extract_fields, if_true, if_neg (by decide : lit "LOGIN" ≠ lit "REGISTER")]

theorem readRequest_getinfo (u : Word) : readRequest (lit "GETINFO" ++ fields [u]) = .getinfo u := by
  have hcmd := extract_command ⟨lit "GETINFO", by decide⟩ [u]
  unfold readRequest
  simp only [hcmd, extract_fields, if_true, if_neg (by decide : lit "GETINFO" ≠ lit "REGISTER"),
    if_neg (by decide : lit "GETINFO" ≠ lit "LOGIN"), if_neg (by decide : lit "GETINFO" ≠ lit "LOGOUT")]

/-- The request of each method, as the server reads it: LOGOUT comes without a name. -/
def ClientCall.request (listenPort : UInt16) : ClientCall → Request
  | .registerWithServer u p => .register u p
  | .loginToServer u p => .login u p (inetNtoa inaddrAny) (stdToString listenPort.toNat)
  | .logoutFromServer => .logout []
  | .getClientInfo u => .getinfo u

/-- **The server reads what the client asked.** -/
theorem readRequest_command (port : UInt16) (c : ClientCall) :
    readRequest ((Client.initializeListener port).exchange c).command = c.request port := by
  cases c with
  | registerWithServer u p =>
    have hline : (Client.registerWithServer u p).command = lit "REGISTER" ++ fields [u, p] := by
      simp [Client.registerWithServer, lit, fields]
    exact (congrArg readRequest hline).trans (readRequest_register u p)
  | loginToServer u p =>
    have hline : ((Client.initializeListener port).loginToServer u p).command =
        lit "LOGIN" ++ fields [u, p, localIPWord, portWord port] := by
      simp [Client.loginToServer, Client.initializeListener, ntohs_htons, localIPWord, portWord, lit, fields]
    exact (congrArg readRequest hline).trans (readRequest_login u p localIPWord (portWord port))
  | logoutFromServer => rfl
  | getClientInfo u =>
    have hline : (Client.getClientInfo u).command = lit "GETINFO" ++ fields [u] := by
      simp [Client.getClientInfo, lit, fields]
    exact (congrArg readRequest hline).trans (readRequest_getinfo u)

theorem toUint16_atoi_stdToString (port : UInt16) : toUint16 (atoi (cStr (stdToString port.toNat))) = port := by
  have hlt := port.toNat_lt
  have hvalue : Numeral.value (stdToString port.toNat) = port.toNat := Numeral.value_numeral port.toNat
  rw [atoi_digits (isWord_stdToString port.toNat).1 (Numeral.isDigit_of_mem_numeral _) (by rw [hvalue]; omega), hvalue,
    toUint16_natCast]

/-- The call of the database that a method comes down to. -/
def ClientCall.call (addr : InAddr) (listenPort : UInt16) : ClientCall → Call
  | .registerWithServer u p => .registerUser u p
  | .loginToServer u p => .loginUser u p (inetNtoa addr) listenPort
  | .logoutFromServer => .logoutUser []
  | .getClientInfo u => .findUser u

theorem asked_command (addr : InAddr) (port : UInt16) (c : ClientCall) :
    asked addr ((Client.initializeListener port).exchange c).command = some (c.call addr port) := by
  rw [asked, readRequest_command]
  cases c <;> simp [ClientCall.request, ClientCall.call, Request.call, toUint16_atoi_stdToString]

/-! ## What the client makes of the reply -/

theorem okInfo_cStr (addr : InAddr) (port : UInt16) :
    cStr (okInfo (inetNtoa addr) port) = okInfo (inetNtoa addr) port := by
  refine cStr_of_ne_zero _ (fun b hb => ?_)
  have hok : lit "OK " = [79, 75, 32] := rfl
  have hcolon : lit ":" = [58] := rfl
  simp only [okInfo, hok, hcolon, List.mem_append, List.mem_cons, List.not_mem_nil, or_false] at hb
  rcases hb with (((rfl | rfl | rfl) | hb) | rfl) | hb
  · decide
  · decide
  · decide
  · rcases mem_inetNtoa addr b hb with hd | rfl
    · exact ne_zero_of_isDigit b hd
    · decide
  · decide
  · exact ne_zero_of_isDigit b (Numeral.isDigit_of_mem_numeral _ b hb)

theorem colon_not_mem_inetNtoa (addr : InAddr) : 58 ∉ inetNtoa addr := by
  intro h
  rcases mem_inetNtoa addr 58 h with hd | hd
  · exact absurd hd (by decide)
  · exact absurd hd (by decide)

theorem length_port_le (port : UInt16) : (stdToString port.toNat).length ≤ 5 :=
  Numeral.length_numeral_le 4 port.toNat (by have := port.toNat_lt; omega)

theorem length_okInfo_le (addr : InAddr) (port : UInt16) : (okInfo (inetNtoa addr) port).length ≤ 24 := by
  have h1 := length_inetNtoa_le addr
  have h2 := length_port_le port
  have hok : (lit "OK ").length = 3 := rfl
  have hcolon : (lit ":").length = 1 := rfl
  simp only [okInfo, List.length_append, hok, hcolon]
  omega

theorem stoi_port (port : UInt16) : stoi (stdToString port.toNat) = .ok (port.toNat : Int) := by
  have hlt := port.toNat_lt
  have hdig : ∀ b ∈ stdToString port.toNat, b ≠ 0 := fun b hb =>
    ne_zero_of_isDigit b (Numeral.isDigit_of_mem_numeral _ b hb)
  rw [stoi, cStr_of_ne_zero _ hdig, strtol_stdToString]
  exact if_pos (by omega)

theorem okInfo_eq (ip : Bytes) (port : UInt16) : okInfo ip port = lit "OK " ++ ip ++ 58 :: stdToString port.toNat := by
  simp [okInfo, lit]

/-- **What is decoded of a reply with a colon in it**: the address before the first, the number behind it. -/
theorem decodeInfo_colon {buffer ip rest : Bytes} (hr : cStr buffer = lit "OK " ++ ip ++ 58 :: rest) (hip : 58 ∉ ip)
    (hlen : buffer.length ≤ 1023) :
    Client.decodeInfo (.data buffer) = (stoi rest).map (fun v => (ip, toUint16 v)) := by
  have hok : (lit "OK ").length = 3 := rfl
  have hshort : (cStr buffer).length ≤ 1023 := (isPrefix_cStr buffer).length_le.trans hlen
  have hsum : (cStr buffer).length = 3 + ip.length + (rest.length + 1) := by
    rw [hr, List.length_append, List.length_append, hok, List.length_cons]
  have hne : buffer.length ≠ 0 := length_ne_zero_of_cStr (by rw [hr]; exact nofun)
  have hcolon : strFind (cStr buffer) 58 = UInt64.ofNat (3 + ip.length) := by
    rw [hr, strFind_append _ _ (by simpa [lit] using hip), List.length_append]
    rfl
  -- positions stay far below `npos`
  have hpos : (UInt64.ofNat (3 + ip.length)).toNat = 3 + ip.length :=
    UInt64.toNat_ofNat_of_lt' (by simp only [UInt64.size]; omega)
  have hstatus : substr (cStr buffer) 0 3 = .ok (lit "OK ") := by
    rw [hr, List.append_assoc]
    exact substr_append [] (lit "OK ") _ rfl rfl
  have hip : substr (cStr buffer) 3 (UInt64.ofNat (3 + ip.length) - 3) = .ok ip := by
    have hn : (UInt64.ofNat (3 + ip.length) - 3).toNat = ip.length := by
      rw [UInt64.toNat_sub, hpos, show (3 : UInt64).toNat = 3 from rfl]
      omega
    rw [hr]
    exact substr_append (lit "OK ") ip _ rfl hn
  have hrest : substr (cStr buffer) (UInt64.ofNat (3 + ip.length) + 1) npos = .ok rest := by
    have hn : (UInt64.ofNat (3 + ip.length) + 1).toNat = (lit "OK " ++ ip ++ [58]).length := by
      rw [UInt64.toNat_add, hpos, show (1 : UInt64).toNat = 1 from rfl, List.length_append, List.length_append, hok,
        List.length_singleton]
      omega
    have hline : cStr buffer = (lit "OK " ++ ip ++ [58]) ++ rest := by
      rw [hr, List.append_assoc _ [58]]; rfl
    have hnpos : rest.length ≤ npos.toNat := le_trans (by omega : rest.length ≤ 1023) (by decide)
    rw [hline]
    exact substr_rest _ _ hn hnpos
  simp only [Client.decodeInfo, if_neg hne, hstatus, hcolon, hip, hrest, bind, Except.bind, if_true, pure, Except.pure]
  cases stoi rest <;> rfl

/-- **The client reads back the endpoint that the server wrote.** -/
theorem decodeInfo_okInfo (addr : InAddr) (port : UInt16) :
    Client.decodeInfo (.data (okInfo (inetNtoa addr) port)) = .ok (inetNtoa addr, port) := by
  have hlen := length_okInfo_le addr port
  rw [decodeInfo_colon ((okInfo_cStr addr port).trans (okInfo_eq _ _)) (colon_not_mem_inetNtoa addr) (by omega),
    stoi_port, Except.map, toUint16_natCast]

/-- What a method returns, from what its call of the database was answered. -/
def ClientResult.ofAnswer : Directory.Answer Endpoint → ClientResult
  | .done ok => .bool ok
  | .found e => .info (e.getD ([], 0))

theorem decode_reply {m : UserManager} (hm : Dotted m) (addr : InAddr) (port : UInt16) (c : ClientCall) :
    ((Client.initializeListener port).exchange c).decode
      (.data ((replyTo (c.call addr port) (m.call (c.call addr port)).2).take (1024 - 1))) =
      .ok (.ofAnswer (m.call (c.call addr port)).2.answer) := by
  cases c with
  | registerWithServer u p =>
    simp only [ClientCall.call, UserManager.call, replyTo]
    cases (m.registerUser u p).2 <;> rfl
  | loginToServer u p =>
    simp only [ClientCall.call, UserManager.call, replyTo]
    cases (m.loginUser u p (inetNtoa addr) port).2 <;> rfl
  | logoutFromServer =>
    simp only [ClientCall.call, UserManager.call, replyTo]
    cases (m.logoutUser []).2 <;> rfl
  | getClientInfo u =>
    simp only [ClientCall.call, UserManager.call]
    have hpres : m.presence u = (m.findUser u).map (fun r => (r.ipAddress, r.port)) := rfl
    cases hu : m.findUser u with
    | none => rfl
    | some r =>
      have hl : r.isLoggedIn = true := by
        rw [UserManager.findUser_eq] at hu
        exact (Option.filter_eq_some_iff.1 hu).2
      rw [hu] at hpres
      obtain ⟨a, ha⟩ := hm u r.ipAddress r.port hpres
      have hlen := length_okInfo_le a r.port
      rw [replyTo, if_pos hl, ha, List.take_of_length_le (by omega)]
      simp only [Client.exchange, Exchange.map, Client.getClientInfo, decodeInfo_okInfo, Returned.answer,
        ClientResult.ofAnswer, Except.map, Option.map_some, Option.getD_some, ha]

/-- **A method call is one call of the database, and returns what that was answered.** -/
theorem callServer_eq {m : UserManager} (hm : Dotted m) {x : κ × ClientCall} (hfit : Fits listenPort x) :
    callServer peer listenPort m x = ((m.call (x.2.call (peer x.1) (listenPort x.1))).1,
      .ok (.ofAnswer (m.call (x.2.call (peer x.1) (listenPort x.1))).2.answer)) := by
  simp only [callServer]
  rw [List.take_of_length_le hfit, serve_eq, asked_command]
  simp only [decode_reply hm]

theorem dotted_callServer {m : UserManager} (hm : Dotted m) (x : κ × ClientCall) :
    Dotted (callServer peer listenPort m x).1 :=
  dotted_serve peer hm _

end ChatRoom
