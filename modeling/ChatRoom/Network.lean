import ChatRoom.ClientLogout
import ChatRoom.ConnectionRace
import ChatRoom.SharedObject
/-!
# Network — any number of clients and their server, all running at once

Each client has its connection, with the bytes on the way in either direction; a method of `Client` sends its command
and waits for one `recv`.  The server's side of the connections is `Race`, at the grain of critical sections and field
reads: the read of a field is one step, also of the address, a string that no lock protects while it is copied.  Every
`recv` may return any part of what has arrived (`step`); `Whole` says that one message arrives in one `recv`, as the
methods take for granted.  What the clients see is their calls and what these return (`shows`).
-/
namespace ChatRoom

variable {κ : Type}

/-- The server, the method each client is in, and the bytes sent and not received yet. -/
structure Network (κ : Type) where
  server : Race κ
  inCall : κ → Option ClientCall
  toServer : κ → Bytes
  toClient : κ → Bytes

namespace Network

/-- One step: a client calls a method, which sends its command; a step of the server; the `recv` of a client's method
returns `size` bytes, and the method returns. -/
inductive Act (κ : Type)
  | call (c : κ) (call : ClientCall)
  | server (a : ChatRoom.Act κ)
  | recv (c : κ) (size : Nat)

def start : Network κ := ⟨Race.start, fun _ => none, fun _ => [], fun _ => []⟩

variable (peer : κ → InAddr) (listenPort : κ → UInt16)

def exchange (c : κ) (call : ClientCall) : Exchange ClientResult :=
  (Client.initializeListener (listenPort c)).exchange call

variable [DecidableEq κ]

/-- A step of the server, with its `recv` and `send` on the connection. -/
def serverNext (s : Network κ) (a : ChatRoom.Act κ) : Option (Network κ) :=
  match a with
  | .recv c data =>
    if data ≠ [] ∧ data.length ≤ bufferSize ∧ data <+: s.toServer c then
      (Race.step peer s.server a).map (fun server => { s with
        server := server
        toServer := Function.update s.toServer c ((s.toServer c).drop data.length) })
    else none
  | .send c =>
    match s.server.stage c with
    | .replying reply => (Race.step peer s.server a).map (fun server => { s with
        server := server
        toClient := Function.update s.toClient c (s.toClient c ++ reply) })
    | _ => none
  | _ => (Race.step peer s.server a).map (fun server => { s with server := server })

def step (s : Network κ) : Act κ → Option (Network κ)
  | .call c call =>
    match s.inCall c with
    | none => some { s with
        inCall := Function.update s.inCall c (some call)
        toServer := Function.update s.toServer c (s.toServer c ++ (exchange listenPort c call).command) }
    | some _ => none
  | .server a => s.serverNext peer a
  | .recv c size =>
    match s.inCall c with
    | some _ =>
      if 0 < size ∧ size ≤ 1024 - 1 ∧ size ≤ (s.toClient c).length then some { s with
        inCall := Function.update s.inCall c none
        toClient := Function.update s.toClient c ((s.toClient c).drop size) }
      else none
    | none => none

/-- What the clients see of a step. -/
def shows (s : Network κ) : Act κ → Option (SharedObject.Event κ ClientCall (Except StdException ClientResult))
  | .call c call => some (.called c call)
  | .server _ => none
  | .recv c size =>
    (s.inCall c).map (fun call =>
      .returned c call ((exchange listenPort c call).decode (.data ((s.toClient c).take size))))

/-- Every command fits the server's buffer, and every `recv` returns all that was sent. -/
def Whole (s : Network κ) : Act κ → Prop
  | .call c call => Fits listenPort (c, call)
  | .server (.recv c data) => data = s.toServer c
  | .server _ => True
  | .recv c size => size = (s.toClient c).length

instance (s : Network κ) : (a : Act κ) → Decidable (Whole listenPort s a)
  | .call c call => inferInstanceAs (Decidable (Fits listenPort (c, call)))
  | .server (.recv c data) => inferInstanceAs (Decidable (data = s.toServer c))
  | .server (.call _) => isTrue trivial
  | .server (.readIsLoggedIn _) => isTrue trivial
  | .server (.readIpAddress _) => isTrue trivial
  | .server (.readPort _) => isTrue trivial
  | .server (.send _) => isTrue trivial
  | .recv c size => inferInstanceAs (Decidable (size = (s.toClient c).length))

/-! ## What a step does -/

/-- What each step needs, and the state it leads to. -/
inductive Step (s : Network κ) : Act κ → Network κ → Prop
  | call (c : κ) (call : ClientCall) (hc : s.inCall c = none) :
    Step s (.call c call) { s with
      inCall := Function.update s.inCall c (some call)
      toServer := Function.update s.toServer c (s.toServer c ++ (exchange listenPort c call).command) }
  | receive (c : κ) (data : Bytes) (server : Race κ) (hne : data ≠ [])
    (hserver : Race.step peer s.server (.recv c data) = some server) :
    Step s (.server (.recv c data)) { s with
      server := server
      toServer := Function.update s.toServer c ((s.toServer c).drop data.length) }
  | send (c : κ) (reply : Bytes) (server : Race κ) (hc : s.server.stage c = .replying reply)
    (hserver : Race.step peer s.server (.send c) = some server) :
    Step s (.server (.send c)) { s with
      server := server
      toClient := Function.update s.toClient c (s.toClient c ++ reply) }
  | inside (a : ChatRoom.Act κ) (server : Race κ) (ha : (∀ c data, a ≠ .recv c data) ∧ ∀ c, a ≠ .send c)
    (hserver : Race.step peer s.server a = some server) : Step s (.server a) { s with server := server }
  | recv (c : κ) (size : Nat) (call : ClientCall) (hc : s.inCall c = some call)
    (hsize : 0 < size ∧ size ≤ 1024 - 1 ∧ size ≤ (s.toClient c).length) :
    Step s (.recv c size) { s with
      inCall := Function.update s.inCall c none
      toClient := Function.update s.toClient c ((s.toClient c).drop size) }

theorem serverNext_cases {s t : Network κ} {a : ChatRoom.Act κ} (h : s.serverNext peer a = some t) :
    Step peer listenPort s (.server a) t := by
  unfold serverNext at h
  split at h
  · rename_i c data
    split at h
    · rename_i hdata
      obtain ⟨server, hserver, rfl⟩ := Option.map_eq_some_iff.1 h
      exact .receive c data server hdata.1 hserver
    · cases h
  · rename_i c
    split at h
    · rename_i reply hc
      obtain ⟨server, hserver, rfl⟩ := Option.map_eq_some_iff.1 h
      exact .send c reply server hc hserver
    · cases h
  · rename_i hrecv hsend
    obtain ⟨server, hserver, rfl⟩ := Option.map_eq_some_iff.1 h
    exact .inside a server ⟨fun c data => hrecv c data, fun c => hsend c⟩ hserver

/-- **Every step is one of `Step`.** -/
theorem step_cases {s t : Network κ} {a : Act κ} (h : step peer listenPort s a = some t) :
    Step peer listenPort s a t := by
  cases a with
  | call c call =>
    simp only [step] at h
    split at h
    · rename_i hc; cases h; exact .call c call hc
    · cases h
  | server a => exact serverNext_cases peer listenPort h
  | recv c size =>
    simp only [step] at h
    split at h
    · rename_i call hc
      split at h
      · rename_i hsize; cases h; exact .recv c size call hc hsize
      · cases h
    · cases h

end Network

end ChatRoom
