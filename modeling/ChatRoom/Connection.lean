import ChatRoom.UserDirectory
/-!
# Connection — one client's connection to the server

`readRequest` takes the words of a received chunk in the order `processData` extracts them; `processData` dispatches on
the first; `handleClient` does that for every chunk `recv` returns.  What one chunk does is one call of the user
database, or none (`asked`), and one reply (`processData_eq`), which is what every result about chunks starts from.
-/
namespace ChatRoom

open UserManager (Call Returned)

/-! ## The request in a chunk -/

/-- What a chunk asks for: the command, and the words its branch extracts. -/
inductive Request
  | register (username password : Bytes)
  | login (username password ip port : Bytes)
  | logout (username : Bytes)
  | getinfo (targetUsername : Bytes)
  | unknown
  deriving DecidableEq, Repr

def readRequest (received : Bytes) : Request :=
  let (command, iss) := extract received
  if command = lit "REGISTER" then
    let (username, iss) := extract iss
    let (password, _) := extract iss
    .register username password
  else if command = lit "LOGIN" then
    let (username, iss) := extract iss
    let (password, iss) := extract iss
    let (ip, iss) := extract iss
    let (port, _) := extract iss
    .login username password ip port
  else if command = lit "LOGOUT" then
    let (username, _) := extract iss
    .logout username
  else if command = lit "GETINFO" then
    let (targetUsername, _) := extract iss
    .getinfo targetUsername
  else .unknown

/-! ## The replies -/

/-- `sendData("...", size)`: the first `size` bytes of the literal, its terminating NUL included. -/
def sendLiteral (s : String) (size : Nat) : Bytes := (lit s ++ [0]).take size

def okRegistered : Bytes := sendLiteral "OK REGISTERED" 13
def errUserExists : Bytes := sendLiteral "ERR USER_EXISTS" 16
def okLogin : Bytes := sendLiteral "OK LOGIN" 8
def errInvalidCredentials : Bytes := sendLiteral "ERR INVALID_CREDENTIALS" 24
def okLogout : Bytes := sendLiteral "OK LOGOUT" 9
def errNotLoggedIn : Bytes := sendLiteral "ERR NOT_LOGGED_IN" 17
def errUserNotFound : Bytes := sendLiteral "ERR USER_NOT_FOUND" 18
def errUnknownCommand : Bytes := sendLiteral "ERR UNKNOWN_COMMAND" 20

/-- `"OK " + user->ipAddress + ":" + std::to_string(user->port)` -/
def okInfo (ipAddress : Bytes) (port : UInt16) : Bytes :=
  lit "OK " ++ ipAddress ++ lit ":" ++ stdToString port.toNat

theorem colon_not_mem_stdToString (n : Nat) : 58 ∉ stdToString n := fun h =>
  absurd (Numeral.isDigit_of_mem_numeral n 58 h) (by decide)

theorem stdToString_inj {n k : Nat} (h : stdToString n = stdToString k) : n = k := by
  rw [← Numeral.value_numeral n, ← Numeral.value_numeral k]
  exact congrArg Numeral.value h

/-- **An endpoint reply tells its endpoint**: no colon follows the last one. -/
theorem okInfo_inj {ip ip' : Bytes} {port port' : UInt16} (h : okInfo ip port = okInfo ip' port') :
    ip = ip' ∧ port = port' := by
  have hrev : ∀ (a : Bytes) (p : UInt16), (okInfo a p).reverse.takeWhile (fun b => b != 58) =
      (stdToString p.toNat).reverse := by
    intro a p
    have hpos : ∀ b ∈ (stdToString p.toNat).reverse, (b != 58) = true := fun b hb => by
      rw [List.mem_reverse] at hb
      simpa using ne_of_mem_of_not_mem hb (colon_not_mem_stdToString p.toNat)
    rw [okInfo, List.reverse_append, List.append_assoc, List.reverse_append, List.takeWhile_append_of_pos hpos]
    simp [lit]
  have hport : stdToString port.toNat = stdToString port'.toNat := by
    rw [← List.reverse_inj, ← hrev ip port, ← hrev ip' port', h]
  unfold okInfo at h
  rw [hport, List.append_left_inj, List.append_left_inj, List.append_right_inj] at h
  exact ⟨h, UInt16.toNat_inj.1 (stdToString_inj hport)⟩

theorem okInfo_ne (ip : Bytes) (port : UInt16) : errUserNotFound ≠ okInfo ip port := by
  intro h
  have := congrArg List.head? h
  simp [errUserNotFound, okInfo, sendLiteral, lit] at this

/-! ## One chunk -/

/-- What one `processData` does: the database after it, the calls it makes on `userManager_`, the bytes it sends. -/
structure Outcome where
  manager : UserManager
  calls : List Call
  reply : Bytes

def processData (clientAddr : InAddr) (userManager : UserManager) (data : Bytes) : Outcome :=
  match readRequest data with
  | .register username password =>
    let (manager, ok) := userManager.registerUser username password
    ⟨manager, [.registerUser username password], if ok then okRegistered else errUserExists⟩
  | .login username password _ port =>
    let clientIP := inetNtoa clientAddr
    let listenPort := toUint16 (atoi (cStr port))
    let (manager, ok) := userManager.loginUser username password clientIP listenPort
    ⟨manager, [.loginUser username password clientIP listenPort], if ok then okLogin else errInvalidCredentials⟩
  | .logout username =>
    let (manager, ok) := userManager.logoutUser username
    ⟨manager, [.logoutUser username], if ok then okLogout else errNotLoggedIn⟩
  | .getinfo targetUsername =>
    let reply := match userManager.findUser targetUsername with
      | some user => if user.isLoggedIn then okInfo user.ipAddress user.port else errUserNotFound
      | none => errUserNotFound
    ⟨userManager, [.findUser targetUsername], reply⟩
  | .unknown => ⟨userManager, [], errUnknownCommand⟩

def Request.call (clientAddr : InAddr) : Request → Option Call
  | .register username password => some (.registerUser username password)
  | .login username password _ port =>
    some (.loginUser username password (inetNtoa clientAddr) (toUint16 (atoi (cStr port))))
  | .logout username => some (.logoutUser username)
  | .getinfo targetUsername => some (.findUser targetUsername)
  | .unknown => none

def asked (clientAddr : InAddr) (data : Bytes) : Option Call := (readRequest data).call clientAddr

/-- The reply to a call that returned. -/
def replyTo : Call → Returned → Bytes
  | .registerUser .., .bool ok => if ok then okRegistered else errUserExists
  | .loginUser .., .bool ok => if ok then okLogin else errInvalidCredentials
  | .logoutUser _, .bool ok => if ok then okLogout else errNotLoggedIn
  | .findUser _, .user (some user) => if user.isLoggedIn then okInfo user.ipAddress user.port else errUserNotFound
  | _, _ => errUserNotFound

/-- **A chunk is one call and its reply**, or the reply to an unknown command. -/
theorem processData_eq (clientAddr : InAddr) (m : UserManager) (data : Bytes) :
    processData clientAddr m data = match asked clientAddr data with
      | none => ⟨m, [], errUnknownCommand⟩
      | some c => ⟨(m.call c).1, [c], replyTo c (m.call c).2⟩ := by
  unfold processData asked
  cases readRequest data with
  | getinfo u =>
    simp only [Request.call, UserManager.call]
    cases m.findUser u <;> rfl
  | _ => rfl

theorem processData_of_none {clientAddr : InAddr} {data : Bytes} (h : asked clientAddr data = none) (m : UserManager) :
    processData clientAddr m data = ⟨m, [], errUnknownCommand⟩ := by
  rw [processData_eq, h]

theorem processData_of_some {clientAddr : InAddr} {data : Bytes} {c : Call} (h : asked clientAddr data = some c)
    (m : UserManager) : processData clientAddr m data = ⟨(m.call c).1, [c], replyTo c (m.call c).2⟩ := by
  rw [processData_eq, h]

/-! ## The connection -/

structure Connection where
  socketFd : Int
  clientAddr : InAddr
  connected : Bool := true
  deriving DecidableEq, Repr

def bufferSize : Nat := 1024

/-- What a `recv` returns: some bytes, 0 for a closed peer, or an error. -/
inductive Received
  | data (bytes : Bytes)
  | closed
  | error
  deriving DecidableEq, Repr

/-- What a connection does to the world: a call of the database, a `send`, a `close`. -/
inductive Event
  | call (c : Call)
  | sent (data : Bytes)
  | close (fd : Int)
  deriving DecidableEq, Repr

def Connection.closeConnection (conn : Connection) : Connection × List Event :=
  if !conn.connected then (conn, [])
  else if 0 ≤ conn.socketFd then ({ conn with socketFd := -1, connected := false }, [.close conn.socketFd])
  else ({ conn with connected := false }, [])

def Outcome.events (o : Outcome) : List Event := o.calls.map Event.call ++ [.sent o.reply]

/-- The loop of `handleClient`, on what the successive `recv` calls return; it is still waiting when they run out. -/
def Connection.receiveLoop (conn : Connection) : UserManager → List Received → UserManager × Connection × List Event
  | m, [] => (m, conn, [])
  | m, .data bytes :: rest =>
    if bytes.length = 0 then (m, conn.closeConnection.1, conn.closeConnection.2)
    else
      let o := processData conn.clientAddr m bytes
      let (m', conn', events) := conn.receiveLoop o.manager rest
      (m', conn', o.events ++ events)
  | m, _ :: _ => (m, conn.closeConnection.1, conn.closeConnection.2)

def Connection.handleClient (conn : Connection) (m : UserManager) (received : List Received) :
    UserManager × Connection × List Event :=
  if conn.connected then conn.receiveLoop m received
  else (m, conn.closeConnection.1, conn.closeConnection.2)

/-- One chunk on the connection `x.1`, whose peer is at `peer x.1`: the database after it, and the reply. -/
def serve {κ : Type} (peer : κ → InAddr) (m : UserManager) (x : κ × Bytes) : UserManager × Bytes :=
  ((processData (peer x.1) m x.2).manager, (processData (peer x.1) m x.2).reply)

theorem serve_eq {κ : Type} (peer : κ → InAddr) (m : UserManager) (x : κ × Bytes) :
    serve peer m x = match asked (peer x.1) x.2 with
      | none => (m, errUnknownCommand)
      | some c => ((m.call c).1, replyTo c (m.call c).2) := by
  unfold serve
  rw [processData_eq]
  cases asked (peer x.1) x.2 <;> rfl

end ChatRoom
