import ChatRoom.Client
import ChatRoom.CommandLine
import ChatRoom.Descriptor
/-!
# Chat — a client process and its chat sessions, step by step

The command loop of `main` with `chatWithClient` in it, `listenerLoop`, and for each chat session the thread of
`startChatSession` and its send and receive threads.  All of them share the descriptors of the process and its standard
input.  A line that was typed is taken by any thread at `std::getline`; each call on a socket is one step, on whatever
its number stands for then, and a `recv` two: its call, and its return, from what the number stood for when it was
called, closed since or not.  A `send` to a peer that is gone may end the process, by SIGPIPE; a run ends where it does.
`Step` says what each step needs and does.
-/
namespace ChatRoom

/-- What a descriptor number stands for. -/
inductive Holder
  | process -- a standard stream, the listening socket or the server's
  | session (k : Nat)
  deriving DecidableEq, Repr

/-- How far a session is launched: by `chatWithClient` or `listenerLoop`, then by `startChatSession`. -/
inductive LaunchStage
  | connect
  | create -- at `pthread_create` of the session's thread
  | drop -- at `close` after a failure
  | dropped
  | createSend
  | createReceive
  | joinSend
  | joinReceive
  | returned
  deriving DecidableEq, Repr

/-- Where a send thread is; a line comes with its number, counting all that were typed. -/
inductive SenderPc
  | idle -- not created
  | getline
  | send (i : Nat) (message : Bytes)
  | close (i : Nat)
  | exited
  deriving DecidableEq, Repr

/-- Where a receive thread is. -/
inductive ReceiverPc
  | idle
  | recv
  | blocked (on : Option Holder) -- in `recv`, on what the number stood for
  | close
  | exited
  deriving DecidableEq, Repr

structure ChatSession where
  socket : Nat
  stage : LaunchStage
  sender : SenderPc
  receiver : ReceiverPc
  deriving DecidableEq, Repr

/-- `startChatSession` has not created a thread. -/
def LaunchStage.unstarted : LaunchStage → Bool
  | .createReceive => false
  | .joinSend => false
  | .joinReceive => false
  | .returned => false
  | _ => true

/-- A thread that is not created is nowhere, and the others are somewhere. -/
structure ChatSession.Ok (c : ChatSession) : Prop where
  unstarted : c.stage.unstarted = true → c.sender = .idle ∧ c.receiver = .idle
  started : c.stage.unstarted = false → (c.receiver = .idle ↔ c.stage = .createReceive)

/-- Where `main` is. -/
inductive MainPc
  | getline
  | command (i : Nat) (line : Bytes)
  | getClientInfo (username : Bytes) -- in `chatWithClient`
  | socket
  | session (k : Nat) -- launching it
  | detach (k : Nat)
  | returned
  deriving DecidableEq, Repr

/-- Where `listenerLoop` is. -/
inductive ListenerPc
  | accept
  | session (k : Nat)
  deriving DecidableEq, Repr

/-- What became of a line: `main` ran it as a command, or a send thread sent a message or closed its socket for it, with
what the socket's number stood for. -/
inductive Fate
  | executed
  | sent (k : Nat) (message : Bytes) (reached : Option Holder)
  | quit (k : Nat) (reached : Option Holder)
  deriving DecidableEq, Repr

/-- A call of a session on its socket, with what the number stood for; of a `recv` its return too. -/
structure SocketCall where
  session : Nat
  op : Descriptor.Op
  reached : Option Holder
  deriving DecidableEq, Repr

/-- A thread that reads standard input. -/
inductive Reader
  | main
  | sender (k : Nat)
  deriving DecidableEq, Repr

/-- The process, and what happened so far: the lines typed, who took each of them, the sessions `chatWithClient`
returned `true` for with the number of lines typed by then, the calls on sockets, and what became of the lines.  The
lines are those that `std::getline` makes of the input, one for each time it returns: what the user typed while one
thread reads it, and where several do the pieces that they get. -/
structure ClientProcess where
  table : List (Option Holder)
  sessions : List ChatSession
  main : MainPc
  listener : ListenerPc
  typed : List Bytes
  taken : List Reader
  chats : List (Nat × Nat)
  calls : List SocketCall
  fates : List (Nat × Fate)

namespace ClientProcess

/-- One step, and whose: `main` with what `recv` returns if it is there, and whether the call it makes succeeds. -/
inductive Act
  | type (line : Bytes)
  | getline (reader : Reader)
  | main (received : Received) (ok : Bool)
  | listener (ok : Bool)
  | chat (k : Nat)
  | send (k : Nat)
  | receive (k : Nat) (received : Received)
  deriving DecidableEq, Repr

def start : ClientProcess where
  table := List.replicate 5 (some .process)
  sessions := []
  main := .getline
  listener := .accept
  typed := []
  taken := []
  chats := []
  calls := []
  fates := []

/-- What the number of a session's socket stands for. -/
def reached (s : ClientProcess) (c : ChatSession) : Option Holder := Descriptor.holder s.table c.socket

def setSession (s : ClientProcess) (k : Nat) (c : ChatSession) : ClientProcess :=
  { s with sessions := s.sessions.set k c }

/-- A session with the number that `socket` or `accept` returned. -/
def openSession (s : ClientProcess) (stage : LaunchStage) : ClientProcess :=
  { s with
    table := Descriptor.allocate (.session s.sessions.length) s.table
    sessions := s.sessions ++ [⟨Descriptor.lowest s.table, stage, .idle, .idle⟩]
    calls := s.calls ++ [⟨s.sessions.length, .opened, some (.session s.sessions.length)⟩] }

def useOn (s : ClientProcess) (k : Nat) (reached : Option Holder) : ClientProcess :=
  { s with calls := s.calls ++ [⟨k, .used, reached⟩] }

/-- `connect`, `send` or `recv`. -/
def use (s : ClientProcess) (k : Nat) (c : ChatSession) : ClientProcess := s.useOn k (s.reached c)

def close (s : ClientProcess) (k : Nat) (c : ChatSession) : ClientProcess :=
  { s with
    table := Descriptor.release s.table c.socket
    calls := s.calls ++ [⟨k, .closed, s.reached c⟩] }

def settle (s : ClientProcess) (i : Nat) (fate : Fate) : ClientProcess := { s with fates := s.fates ++ [(i, fate)] }

/-- What `chatWithClient` and `listenerLoop` do with a new socket. -/
def launch (s : ClientProcess) (k : Nat) (ok : Bool) : Option ClientProcess :=
  match s.sessions[k]? with
  | none => none
  | some c =>
    match c.stage with
    | .connect => some ((s.use k c).setSession k { c with stage := if ok then .create else .drop })
    | .create => some (s.setSession k { c with stage := if ok then .createSend else .drop })
    | .drop => some ((s.close k c).setSession k { c with stage := .dropped })
    | _ => none

def stage (s : ClientProcess) (k : Nat) : Option LaunchStage := s.sessions[k]?.map ChatSession.stage

/-- Where `main` goes after a line; the calls of the server for the other commands touch nothing of the chats. -/
def afterCommand (line : Bytes) : MainPc :=
  match readCommand line with
  | .chatWithClient username => .getClientInfo username
  | .exit => .returned
  | _ => .getline

def mainNext (s : ClientProcess) (received : Received) (ok : Bool) : Option ClientProcess :=
  match s.main with
  | .getline => none
  | .command i line => some { s.settle i .executed with main := afterCommand line }
  | .getClientInfo _ =>
    match Client.decodeInfo received with
    | .error _ => some { s with main := .returned }
    | .ok (ip, port) => some { s with main := if ip = [] ∨ port = 0 then .getline else .socket }
  | .socket =>
    if ok then some { s.openSession .connect with main := .session s.sessions.length }
    else some { s with main := .getline }
  | .session k =>
    (s.launch k ok).map (fun t =>
      match t.stage k with
      | some .createSend => { t with main := .detach k }
      | some .dropped => { t with main := .getline }
      | _ => t)
  | .detach k => some { s with main := .getline, chats := s.chats ++ [(k, s.typed.length)] }
  | .returned => none

def listenerLoop (s : ClientProcess) (ok : Bool) : Option ClientProcess :=
  match s.listener with
  | .accept =>
    if ok then some { s.openSession .create with listener := .session s.sessions.length } else some s
  | .session k =>
    (s.launch k ok).map (fun t =>
      match t.stage k with
      | some .createSend => { t with listener := .accept }
      | some .dropped => { t with listener := .accept }
      | _ => t)

def startChatSession (s : ClientProcess) (k : Nat) (c : ChatSession) : Option ClientProcess :=
  match c.stage with
  | .createSend => some (s.setSession k { c with stage := .createReceive, sender := .getline })
  | .createReceive => some (s.setSession k { c with stage := .joinSend, receiver := .recv })
  | .joinSend => if c.sender = .exited then some (s.setSession k { c with stage := .joinReceive }) else none
  | .joinReceive => if c.receiver = .exited then some (s.setSession k { c with stage := .returned }) else none
  | _ => none

/-- What a send thread does with the line it took. -/
def takeMessage (i : Nat) (message : Bytes) : SenderPc := if message = lit "quit" then .close i else .send i message

def sendMessages (s : ClientProcess) (k : Nat) (c : ChatSession) : Option ClientProcess :=
  match c.sender with
  | .send i message =>
    some (((s.use k c).settle i (.sent k message (s.reached c))).setSession k { c with sender := .getline })
  | .close i => some (((s.close k c).settle i (.quit k (s.reached c))).setSession k { c with sender := .exited })
  | _ => none

def receiveMessages (s : ClientProcess) (k : Nat) (c : ChatSession) (received : Received) : Option ClientProcess :=
  match c.receiver with
  | .recv => some ((s.use k c).setSession k { c with receiver := .blocked (s.reached c) })
  | .blocked on =>
    match received with
    | .data buffer =>
      if buffer.length = 0 then some ((s.useOn k on).setSession k { c with receiver := .close })
      -- nothing is received on a number that stood for nothing
      else if buffer.length ≤ 1024 - 1 ∧ on ≠ none then some ((s.useOn k on).setSession k { c with receiver := .recv })
      else none
    | _ => some ((s.useOn k on).setSession k { c with receiver := .close })
  | .close => some ((s.close k c).setSession k { c with receiver := .exited })
  | _ => none

/-- `std::getline` of a thread that is at it, once there is a line. -/
def getline (s : ClientProcess) (reader : Reader) : Option ClientProcess :=
  match s.typed[s.taken.length]? with
  | none => none
  | some line =>
    match reader with
    | .main =>
      match s.main with
      | .getline => some { s with taken := s.taken ++ [Reader.main], main := .command s.taken.length line }
      | _ => none
    | .sender k =>
      match s.sessions[k]? with
      | none => none
      | some c =>
        match c.sender with
        | .getline =>
          some ({ s with taken := s.taken ++ [Reader.sender k] }.setSession k
            { c with sender := takeMessage s.taken.length line })
        | _ => none

def step (s : ClientProcess) : Act → Option ClientProcess
  | .type line => some { s with typed := s.typed ++ [line] }
  | .getline reader => s.getline reader
  | .main received ok => s.mainNext received ok
  | .listener ok => s.listenerLoop ok
  | .chat k => s.sessions[k]?.bind (s.startChatSession k)
  | .send k => s.sessions[k]?.bind (s.sendMessages k)
  | .receive k received => s.sessions[k]?.bind (fun c => s.receiveMessages k c received)

/-! ## What a step does -/

/-- What each step of a launching thread needs, and the state it leads to. -/
inductive Launch (s : ClientProcess) (k : Nat) : ClientProcess → Prop
  | connect (c : ChatSession) (stage : LaunchStage) (hc : s.sessions[k]? = some c) (hpc : c.stage = .connect)
    (hnext : stage = .create ∨ stage = .drop) : Launch s k ((s.use k c).setSession k { c with stage := stage })
  | create (c : ChatSession) (stage : LaunchStage) (hc : s.sessions[k]? = some c) (hpc : c.stage = .create)
    (hnext : stage = .createSend ∨ stage = .drop) : Launch s k (s.setSession k { c with stage := stage })
  | drop (c : ChatSession) (hc : s.sessions[k]? = some c) (hpc : c.stage = .drop) :
    Launch s k ((s.close k c).setSession k { c with stage := .dropped })

/-- What each step needs, and the state it leads to. -/
inductive Step (s : ClientProcess) : Act → ClientProcess → Prop
  | type (line : Bytes) : Step s (.type line) { s with typed := s.typed ++ [line] }
  | takeCommand (line : Bytes) (hline : s.typed[s.taken.length]? = some line) (hpc : s.main = .getline) :
    Step s (.getline .main) { s with taken := s.taken ++ [Reader.main], main := .command s.taken.length line }
  | takeMessage (k : Nat) (c : ChatSession) (line : Bytes) (hline : s.typed[s.taken.length]? = some line)
    (hc : s.sessions[k]? = some c) (hpc : c.sender = .getline) :
    Step s (.getline (.sender k))
      ({ s with taken := s.taken ++ [Reader.sender k] }.setSession k
        { c with sender := ClientProcess.takeMessage s.taken.length line })
  | execute (received ok) (i : Nat) (line : Bytes) (hpc : s.main = .command i line) :
    Step s (.main received ok) { s.settle i .executed with main := afterCommand line }
  | mainMoves (received ok) (main : MainPc) (hpc : s.main = .socket ∨ ∃ username, s.main = .getClientInfo username)
    (hmain : main = .getline ∨ main = .socket ∨ main = .returned) : Step s (.main received ok) { s with main := main }
  | socket (received ok) (hpc : s.main = .socket) :
    Step s (.main received ok) { s.openSession .connect with main := .session s.sessions.length }
  | mainLaunches (received ok) (k : Nat) (t : ClientProcess) (main : MainPc) (hpc : s.main = .session k)
    (hlaunch : Launch s k t) (hmain : main = .session k ∨ main = .detach k ∨ main = .getline) :
    Step s (.main received ok) { t with main := main }
  | detach (received ok) (k : Nat) (hpc : s.main = .detach k) :
    Step s (.main received ok) { s with main := .getline, chats := s.chats ++ [(k, s.typed.length)] }
  | acceptFailed (ok) (hpc : s.listener = .accept) : Step s (.listener ok) s
  | accepted (ok) (hpc : s.listener = .accept) :
    Step s (.listener ok) { s.openSession .create with listener := .session s.sessions.length }
  | listenerLaunches (ok) (k : Nat) (t : ClientProcess) (listener : ListenerPc) (hpc : s.listener = .session k)
    (hlaunch : Launch s k t) : Step s (.listener ok) { t with listener := listener }
  | createSend (k : Nat) (c : ChatSession) (hc : s.sessions[k]? = some c) (hpc : c.stage = .createSend) :
    Step s (.chat k) (s.setSession k { c with stage := .createReceive, sender := .getline })
  | createReceive (k : Nat) (c : ChatSession) (hc : s.sessions[k]? = some c) (hpc : c.stage = .createReceive) :
    Step s (.chat k) (s.setSession k { c with stage := .joinSend, receiver := .recv })
  | join (k : Nat) (c : ChatSession) (stage : LaunchStage) (hc : s.sessions[k]? = some c)
    (hpc : c.stage = .joinSend ∨ c.stage = .joinReceive) (hnext : stage = .joinReceive ∨ stage = .returned) :
    Step s (.chat k) (s.setSession k { c with stage := stage })
  | send (k : Nat) (c : ChatSession) (i : Nat) (message : Bytes) (hc : s.sessions[k]? = some c)
    (hpc : c.sender = .send i message) :
    Step s (.send k) (((s.use k c).settle i (.sent k message (s.reached c))).setSession k { c with sender := .getline })
  | quit (k : Nat) (c : ChatSession) (i : Nat) (hc : s.sessions[k]? = some c) (hpc : c.sender = .close i) :
    Step s (.send k) (((s.close k c).settle i (.quit k (s.reached c))).setSession k { c with sender := .exited })
  | recv (k : Nat) (received) (c : ChatSession) (hc : s.sessions[k]? = some c) (hpc : c.receiver = .recv) :
    Step s (.receive k received) ((s.use k c).setSession k { c with receiver := .blocked (s.reached c) })
  | received (k : Nat) (buffer : Bytes) (c : ChatSession) (on : Option Holder) (hc : s.sessions[k]? = some c)
    (hpc : c.receiver = .blocked on) (hsize : buffer.length ≠ 0) :
    Step s (.receive k (.data buffer)) ((s.useOn k on).setSession k { c with receiver := .recv })
  | hangUp (k : Nat) (received) (c : ChatSession) (on : Option Holder) (hc : s.sessions[k]? = some c)
    (hpc : c.receiver = .blocked on) (hsize : ∀ buffer, received = .data buffer → buffer.length = 0) :
    Step s (.receive k received) ((s.useOn k on).setSession k { c with receiver := .close })
  | hungUp (k : Nat) (received) (c : ChatSession) (hc : s.sessions[k]? = some c) (hpc : c.receiver = .close) :
    Step s (.receive k received) ((s.close k c).setSession k { c with receiver := .exited })

theorem launch_cases {s t : ClientProcess} {k : Nat} {ok : Bool} (h : s.launch k ok = some t) : Launch s k t := by
  unfold launch at h
  split at h
  · cases h
  · rename_i c hc
    split at h
    · rename_i hpc; cases h; exact .connect c _ hc hpc (by cases ok <;> simp)
    · rename_i hpc; cases h; exact .create c _ hc hpc (by cases ok <;> simp)
    · rename_i hpc; cases h; exact .drop c hc hpc
    · cases h

theorem afterCommand_ne_command (line : Bytes) : ∀ i line', afterCommand line ≠ .command i line' := by
  unfold afterCommand
  split <;> exact nofun

theorem mainNext_cases {s t : ClientProcess} {received : Received} {ok : Bool} (h : s.mainNext received ok = some t) :
    Step s (.main received ok) t := by
  unfold mainNext at h
  split at h
  · cases h
  · rename_i i line hpc; cases h; exact .execute received ok i line hpc
  · rename_i username hpc
    split at h
    · cases h; exact .mainMoves received ok .returned (.inr ⟨username, hpc⟩) (.inr (.inr rfl))
    · cases h; exact .mainMoves received ok _ (.inr ⟨username, hpc⟩) (by split <;> simp)
  · rename_i hpc
    split at h
    · cases h; exact .socket received _ hpc
    · cases h; exact .mainMoves received _ .getline (.inl hpc) (.inl rfl)
  · rename_i k hpc
    obtain ⟨u, hu, rfl⟩ := Option.map_eq_some_iff.1 h
    have hlaunch := launch_cases hu
    have hkeep : u.main = .session k := by cases hlaunch <;> exact hpc
    split
    · exact .mainLaunches received ok k u _ hpc hlaunch (.inr (.inl rfl))
    · exact .mainLaunches received ok k u _ hpc hlaunch (.inr (.inr rfl))
    · exact .mainLaunches received ok k u u.main hpc hlaunch (.inl hkeep)
  · rename_i k hpc; cases h; exact .detach received ok k hpc
  · cases h

theorem listenerLoop_cases {s t : ClientProcess} {ok : Bool} (h : s.listenerLoop ok = some t) :
    Step s (.listener ok) t := by
  unfold listenerLoop at h
  split at h
  · rename_i hpc
    split at h
    · cases h; exact .accepted _ hpc
    · cases h; exact .acceptFailed _ hpc
  · rename_i k hpc
    obtain ⟨u, hu, rfl⟩ := Option.map_eq_some_iff.1 h
    split
    · exact .listenerLaunches ok k u _ hpc (launch_cases hu)
    · exact .listenerLaunches ok k u _ hpc (launch_cases hu)
    · exact .listenerLaunches ok k u u.listener hpc (launch_cases hu)

theorem startChatSession_cases {s t : ClientProcess} {k : Nat} {c : ChatSession} (hc : s.sessions[k]? = some c)
    (h : s.startChatSession k c = some t) : Step s (.chat k) t := by
  unfold startChatSession at h
  split at h
  · rename_i hpc; cases h; exact .createSend k c hc hpc
  · rename_i hpc; cases h; exact .createReceive k c hc hpc
  · rename_i hpc
    split at h
    · cases h; exact .join k c .joinReceive hc (.inl hpc) (.inl rfl)
    · cases h
  · rename_i hpc
    split at h
    · cases h; exact .join k c .returned hc (.inr hpc) (.inr rfl)
    · cases h
  · cases h

theorem sendMessages_cases {s t : ClientProcess} {k : Nat} {c : ChatSession} (hc : s.sessions[k]? = some c)
    (h : s.sendMessages k c = some t) : Step s (.send k) t := by
  unfold sendMessages at h
  split at h
  · rename_i i message hpc; cases h; exact .send k c i message hc hpc
  · rename_i i hpc; cases h; exact .quit k c i hc hpc
  · cases h

theorem receiveMessages_cases {s t : ClientProcess} {k : Nat} {c : ChatSession} {received : Received}
    (hc : s.sessions[k]? = some c) (h : s.receiveMessages k c received = some t) : Step s (.receive k received) t := by
  unfold receiveMessages at h
  split at h
  · rename_i hpc; cases h; exact .recv k received c hc hpc
  · rename_i on hpc
    split at h
    · rename_i buffer
      split at h
      · rename_i hsize
        cases h
        refine .hangUp k _ c on hc hpc (fun buffer' heq => ?_)
        cases heq
        exact hsize
      · rename_i hsize
        split at h
        · cases h; exact .received k buffer c on hc hpc hsize
        · cases h
    · rename_i hdata; cases h; exact .hangUp k _ c on hc hpc (fun buffer heq => absurd heq (hdata buffer))
  · rename_i hpc; cases h; exact .hungUp k received c hc hpc
  · cases h

theorem getline_cases {s t : ClientProcess} {reader : Reader} (h : s.getline reader = some t) :
    Step s (.getline reader) t := by
  unfold getline at h
  split at h
  · cases h
  · rename_i line hline
    split at h
    · split at h
      · rename_i hpc; cases h; exact .takeCommand line hline hpc
      · cases h
    · split at h
      · cases h
      · rename_i c hc
        split at h
        · rename_i hpc; cases h; exact .takeMessage _ c line hline hc hpc
        · cases h

/-- **Every step is one of `Step`.** -/
theorem step_cases {s t : ClientProcess} {a : Act} (h : step s a = some t) : Step s a t := by
  cases a with
  | type line => cases h; exact .type line
  | getline reader => exact getline_cases h
  | main received ok => exact mainNext_cases h
  | listener ok => exact listenerLoop_cases h
  | chat k =>
    obtain ⟨c, hc, h⟩ := Option.bind_eq_some_iff.1 h
    exact startChatSession_cases hc h
  | send k =>
    obtain ⟨c, hc, h⟩ := Option.bind_eq_some_iff.1 h
    exact sendMessages_cases hc h
  | receive k received =>
    obtain ⟨c, hc, h⟩ := Option.bind_eq_some_iff.1 h
    exact receiveMessages_cases hc h

/-! ## The sessions after a move -/

theorem sessions_setSession {s : ClientProcess} {k : Nat} {c : ChatSession} (hc : s.sessions[k]? = some c)
    (c' : ChatSession) (j : Nat) : (s.setSession k c').sessions[j]? = if k = j then some c' else s.sessions[j]? := by
  have hk : k < s.sessions.length := (List.getElem?_eq_some_iff.1 hc).1
  unfold setSession
  rw [List.getElem?_set, if_pos hk]

theorem forall_setSession {s : ClientProcess} {k : Nat} {c c' : ChatSession} (hc : s.sessions[k]? = some c)
    {P : Nat → ChatSession → Prop} (hself : P k c') (hrest : ∀ j d, j ≠ k → s.sessions[j]? = some d → P j d) :
    ∀ j d, (s.setSession k c').sessions[j]? = some d → P j d := by
  intro j d hd
  rw [sessions_setSession hc] at hd
  by_cases hj : k = j
  · rw [if_pos hj] at hd
    cases hd
    exact hj ▸ hself
  · rw [if_neg hj] at hd
    exact hrest j d (Ne.symm hj) hd

theorem forall_openSession {s : ClientProcess} {stage : LaunchStage} {P : Nat → ChatSession → Prop}
    (hself : P s.sessions.length ⟨Descriptor.lowest s.table, stage, .idle, .idle⟩)
    (hrest : ∀ j d, s.sessions[j]? = some d → P j d) : ∀ j d, (s.openSession stage).sessions[j]? = some d → P j d := by
  intro j d hd
  have hd : (s.sessions ++ [⟨Descriptor.lowest s.table, stage, .idle, .idle⟩])[j]? = some d := hd
  rw [List.getElem?_append] at hd
  split at hd
  · exact hrest j d hd
  · obtain ⟨hj, rfl⟩ := List.getElem?_eq_some_iff.1 hd
    have hj' : j = s.sessions.length := by
      rw [List.length_singleton] at hj
      omega
    subst hj'
    simpa using hself

/-! ## What runs at a stage -/

end ClientProcess

namespace ChatSession

/-- The send thread moves. -/
theorem Ok.sender {c : ChatSession} (h : c.Ok) (hrun : c.sender ≠ .idle) (pc : SenderPc) :
    ({ c with sender := pc } : ChatSession).Ok where
  unstarted := fun hstage => absurd (h.unstarted hstage).1 hrun
  started := h.started

/-- The receive thread moves. -/
theorem Ok.receiver {c : ChatSession} (h : c.Ok) (hrun : c.receiver ≠ .idle) {pc : ReceiverPc} (hpc : pc ≠ .idle) :
    ({ c with receiver := pc } : ChatSession).Ok where
  unstarted := fun hstage => absurd (h.unstarted hstage).2 hrun
  started := fun hstage => ⟨fun hidle => absurd hidle hpc, fun hhalf => absurd ((h.started hstage).2 hhalf) hrun⟩

/-- A session with a thread running was not dropped. -/
theorem Ok.stage {c : ChatSession} (h : c.Ok) (hrun : c.sender ≠ .idle ∨ c.receiver ≠ .idle) : c.stage ≠ .dropped := by
  intro hstage
  obtain ⟨hsender, hreceiver⟩ := h.unstarted (by rw [hstage]; rfl)
  rcases hrun with hrun | hrun
  · exact hrun hsender
  · exact hrun hreceiver

/-- An unstarted session goes on to a stage at which it is unstarted. -/
theorem Ok.launch {c : ChatSession} (h : c.Ok) (hstage : c.stage.unstarted = true) {stage : LaunchStage}
    (hnext : stage.unstarted = true) : ({ c with stage := stage } : ChatSession).Ok :=
  ⟨fun _ => h.unstarted hstage, fun hno => absurd hnext (by rw [show stage.unstarted = false from hno]; decide)⟩

end ChatSession

namespace ClientProcess

def SessionsOk (s : ClientProcess) : Prop := ∀ (k : Nat) (c : ChatSession), s.sessions[k]? = some c → c.Ok

theorem ok_setSession {s t : ClientProcess} {k : Nat} {c c' : ChatSession} (hs : s.SessionsOk)
    (ht : t.sessions = s.sessions) (hc : s.sessions[k]? = some c) (hok : c'.Ok) : (t.setSession k c').SessionsOk :=
  forall_setSession (ht ▸ hc) hok (fun j d _ hd => hs j d (ht ▸ hd))

theorem ok_launch {s t : ClientProcess} {k : Nat} (hs : s.SessionsOk) (h : Launch s k t) : t.SessionsOk := by
  cases h with
  | connect c stage hc hpc hnext =>
    refine ok_setSession hs rfl hc ((hs k c hc).launch (by rw [hpc]; rfl) ?_)
    rcases hnext with rfl | rfl <;> rfl
  | create c stage hc hpc hnext =>
    refine ok_setSession hs rfl hc ((hs k c hc).launch (by rw [hpc]; rfl) ?_)
    rcases hnext with rfl | rfl <;> rfl
  | drop c hc hpc => exact ok_setSession hs rfl hc ((hs k c hc).launch (by rw [hpc]; rfl) rfl)

theorem ok_step {s t : ClientProcess} {a : Act} (hs : s.SessionsOk) (h : Step s a t) : t.SessionsOk := by
  cases h with
  | socket => exact forall_openSession ⟨fun _ => ⟨rfl, rfl⟩, nofun⟩ hs
  | accepted => exact forall_openSession ⟨fun _ => ⟨rfl, rfl⟩, nofun⟩ hs
  | mainLaunches received ok k t main hpc hlaunch hmain =>
    have ht : t.SessionsOk := ok_launch hs hlaunch
    exact ht
  | listenerLaunches ok k t listener hpc hlaunch =>
    have ht : t.SessionsOk := ok_launch hs hlaunch
    exact ht
  | takeMessage k c line hline hc hpc =>
    exact ok_setSession hs rfl hc ((hs k c hc).sender (by rw [hpc]; exact nofun) _)
  | createSend k c hc hpc =>
    have hidle := (hs k c hc).unstarted (by rw [hpc]; rfl)
    exact ok_setSession hs rfl hc ⟨nofun, fun _ => ⟨fun _ => rfl, fun _ => hidle.2⟩⟩
  | createReceive k c hc hpc => exact ok_setSession hs rfl hc ⟨nofun, fun _ => ⟨nofun, nofun⟩⟩
  | join k c stage hc hpc hnext =>
    -- the receive thread was created before
    have hrun : c.receiver ≠ .idle := by
      intro hidle
      rcases hpc with hpc | hpc
      · exact absurd (((hs k c hc).started (by rw [hpc]; rfl)).1 hidle) (by rw [hpc]; exact nofun)
      · exact absurd (((hs k c hc).started (by rw [hpc]; rfl)).1 hidle) (by rw [hpc]; exact nofun)
    refine ok_setSession hs rfl hc ?_
    rcases hnext with rfl | rfl <;> exact ⟨nofun, fun _ => ⟨fun hidle => absurd hidle hrun, nofun⟩⟩
  | send k c i message hc hpc => exact ok_setSession hs rfl hc ((hs k c hc).sender (by rw [hpc]; exact nofun) _)
  | quit k c i hc hpc => exact ok_setSession hs rfl hc ((hs k c hc).sender (by rw [hpc]; exact nofun) _)
  | recv k received c hc hpc => exact ok_setSession hs rfl hc ((hs k c hc).receiver (by rw [hpc]; exact nofun) nofun)
  | received k buffer c on hc hpc hsize =>
    exact ok_setSession hs rfl hc ((hs k c hc).receiver (by rw [hpc]; exact nofun) nofun)
  | hangUp k received c on hc hpc hsize =>
    exact ok_setSession hs rfl hc ((hs k c hc).receiver (by rw [hpc]; exact nofun) nofun)
  | hungUp k received c hc hpc => exact ok_setSession hs rfl hc ((hs k c hc).receiver (by rw [hpc]; exact nofun) nofun)
  | _ => exact hs

/-- **A thread that is not created yet is nowhere.** -/
theorem ok_reach {ok : ClientProcess → Act → Prop} {s : ClientProcess} (h : Machine.ReachIf (· = start) step ok s) :
    s.SessionsOk :=
  h.invariant (by rintro _ rfl; exact nofun) (fun _ _ _ hs _ hstep => ok_step hs (step_cases hstep))

end ClientProcess

end ChatRoom
