import ChatRoom.ChatLines
import ChatRoom.ChatMessages
import ChatRoom.ChatSockets
/-!
# ChatStream — what goes over the socket of a chat, and how a chat ends

A send thread gets its lines from `std::getline`, whoever else reads along.  While the lines and what the peer sends
come in turn, what is written on the socket of a session is the lines that its send thread got, in that order, and the
peer prints just this, cut up as it arrives (`chat_stream`).  A send thread ends for a `quit` that it got, which is the
last line it got, and for nothing else, whatever the peer does (`chat_ends_by_quit`).
-/
namespace ChatRoom

/-- What is written on the socket of session `k`, by whatever thread. -/
def Fate.writtenOn (k : Nat) : Fate → Option Bytes
  | .sent _ message (some (.session j)) => if j = k then some message else none
  | _ => none

/-- The line that the send thread of session `k` is done with. -/
def Fate.lineOf (k : Nat) : Fate → Option Bytes
  | .executed => none
  | .sent j message _ => if j = k then some message else none
  | .quit j _ => if j = k then some (lit "quit") else none

/-- The thread of a session is past a join only when the thread that it joins has ended. -/
structure ChatSession.Joined (c : ChatSession) : Prop where
  sender : c.stage = .joinReceive ∨ c.stage = .returned → c.sender = .exited
  receiver : c.stage = .returned → c.receiver = .exited

namespace ClientProcess

def stream (s : ClientProcess) (k : Nat) : List Bytes := s.fates.filterMap (fun e => e.2.writtenOn k)

/-- The lines that the send thread of session `k` got and is done with. -/
def linesOf (s : ClientProcess) (k : Nat) : List Bytes :=
  (Intake.settledBy (.sender k) s.settled).filterMap (fun i => s.typed[i]?)

/-! ## What is written -/

/-- Each send thread's calls reach its own socket. -/
def FatesOwn (s : ClientProcess) : Prop :=
  ∀ i f k, (i, f) ∈ s.fates → f.reader = .sender k → f.reached = some (.session k)

theorem fatesOwn_settle {s t : ClientProcess} {i : Nat} {f : Fate} (hs : s.FatesOwn)
    (hfates : t.fates = s.fates ++ [(i, f)])
    (hf : ∀ k, f.reader = .sender k → f.reached = some (.session k)) : t.FatesOwn := by
  intro j g k hg hreader
  rw [hfates] at hg
  rcases List.mem_append.1 hg with hg | hg
  · exact hs j g k hg hreader
  · cases List.mem_singleton.1 hg
    exact hf k hreader

theorem fatesOwn_step {s t : ClientProcess} {a : Act} (hok : s.SessionsOk) (hinv : s.Inv) (hs : s.FatesOwn)
    (halone : s.Alone a) (h : Step s a t) : t.FatesOwn := by
  -- a send thread that runs has its socket
  have hheld : ∀ {k : Nat} {c : ChatSession}, s.sessions[k]? = some c → c.sender ≠ .idle → c.sender ≠ .exited →
      c.receiver ≠ .exited → s.reached c = some (.session k) := by
    intro k c hc hidle hexited hreceiver
    exact hinv.held k c hc (c.isOpen_iff.2 ⟨(hok k c hc).stage (.inl hidle), hexited, hreceiver⟩)
  cases h with
  | execute received ok i line hpc => exact fatesOwn_settle (f := .executed) hs rfl nofun
  | send k c i message hc hpc =>
    refine fatesOwn_settle (f := .sent k message (s.reached c)) hs rfl (fun j hj => ?_)
    cases hj
    exact hheld hc (by simp [hpc]) (by simp [hpc]) (halone c hc)
  | quit k c i hc hpc =>
    refine fatesOwn_settle (f := .quit k (s.reached c)) hs rfl (fun j hj => ?_)
    cases hj
    exact hheld hc (by simp [hpc]) (by simp [hpc]) (halone c hc)
  | mainLaunches received ok k u main hpc hlaunch hmain => cases hlaunch <;> exact hs
  | listenerLaunches ok k u listener hpc hlaunch => cases hlaunch <;> exact hs
  | _ => exact hs

theorem fatesOwn_reach {s : ClientProcess} (h : Machine.ReachIf (· = start) step Alone s) : s.FatesOwn :=
  h.invariant_under (J := fun s => s.SessionsOk ∧ s.Inv) (fun _ h => ⟨ok_reach h, inv_reach h⟩)
    (by rintro _ rfl; exact nofun)
    (fun _ _ _ hJ hs halone hstep => fatesOwn_step hJ.1 hJ.2 hs halone (step_cases hstep))

/-- **The socket of a chat carries the lines of its send thread**, and nothing else. -/
theorem stream_eq {s : ClientProcess} (h : Machine.ReachIf (· = start) step Alone s) (k : Nat) :
    s.stream k = (s.linesOf k).filter (· ≠ lit "quit") := by
  unfold stream linesOf Intake.settledBy settled
  rw [List.filterMap_map, List.filterMap_filterMap, List.filter_filterMap]
  refine List.filterMap_congr (fun e he => ?_)
  obtain ⟨i, f⟩ := e
  have hreads := (lines_reach h).fateReads i f he
  have hown := fatesOwn_reach h i f
  cases f with
  | executed => rfl
  | sent j message reached =>
    obtain ⟨hmessage, hne⟩ := hreads
    cases hown j he rfl
    by_cases hj : j = k
    · subst hj
      simp [Fate.writtenOn, Fate.reader, hmessage, hne, Option.filter_some]
    · simp [Fate.writtenOn, Fate.reader, hj]
  | quit j reached =>
    have hquit : s.typed[i]? = some (lit "quit") := hreads
    by_cases hj : j = k
    · subst hj
      simp [Fate.writtenOn, Fate.reader, hquit, Option.filter_some]
    · simp [Fate.writtenOn, Fate.reader, hj]

/-- **What the send thread of a session gets is what the peer sees.**  While the lines and what the peers send come in
turn: the lines that a send thread is done with are those it got, in the order in which `std::getline` returned; the
socket carries these, but for `quit`, and nothing that another thread sends; and however its bytes arrive, the peer
prints them, behind a mark for each `recv`, if no line has a NUL. -/
theorem chat_stream {s : ClientProcess} (h : Machine.ReachIf (· = start) step InTurn s) (k : Nat)
    (arrival : Arrival (s.stream k).flatten) :
    (Intake.settledBy (.sender k) s.settled).Pairwise (· < ·) ∧
      (∀ i, i ∈ Intake.settledBy (.sender k) s.settled ∨ s.hand (.sender k) = some i ↔
        s.taken[i]? = some (.sender k)) ∧
      s.stream k = (s.linesOf k).filter (· ≠ lit "quit") ∧
      ((∀ line ∈ s.linesOf k, 0 ∉ line) → ∃ pieces : List Bytes,
        receiveLoop (arrival.pieces.map .data) = pieces.map (fun piece => lit "[Peer]: " ++ piece) ∧
          pieces.flatten = ((s.linesOf k).filter (· ≠ lit "quit")).flatten) := by
  have hlines := lines_reach h
  have hstream := stream_eq (alone_reach h) k
  refine ⟨hlines.ledger.settledBy_sorted (.sender k), fun i => ⟨?_, fun hi => ?_⟩, hstream, fun hnul => ?_⟩
  · rintro (hi | hi)
    · exact hlines.ledger.done i _ (Intake.mem_settledBy.1 hi)
    · exact hlines.ledger.held _ i hi
  · rcases hlines.ledger.accounted i _ hi with hhand | hsettled
    · exact .inr hhand
    · exact .inl (Intake.mem_settledBy.2 hsettled)
  · refine ⟨arrival.pieces, ?_, by rw [arrival.flatten_eq, hstream]⟩
    rw [receiveLoop_data (fun piece hpiece => (arrival.size piece hpiece).1)]
    refine List.map_congr_left (fun piece hpiece => ?_)
    have hclean : 0 ∉ piece := by
      intro h0
      have hmem : (0 : UInt8) ∈ (s.stream k).flatten :=
        arrival.flatten_eq ▸ List.mem_flatten_of_mem hpiece h0
      obtain ⟨line, hline, h0⟩ := List.mem_flatten.1 hmem
      rw [hstream] at hline
      exact hnul line (List.mem_of_mem_filter hline) h0
    rw [entry, cStr_eq_self.2 hclean]

/-- A session is accepted, and its send thread has sent one line, which arrives in two pieces. -/
theorem chat_stream_hello : ∃ s, Machine.exec step start
      [.listener true, .listener true, .chat 0, .chat 0, .type (lit "hello"), .getline (.sender 0), .send 0] = some s ∧
    s.stream 0 = [lit "hello"] ∧ ∃ pieces : List Bytes,
      receiveLoop [.data (lit "hel"), .data (lit "lo")] = pieces.map (fun piece => lit "[Peer]: " ++ piece) ∧
        pieces.flatten = lit "hello" := by
  let launched : List Act := [.listener true, .listener true, .chat 0, .chat 0, .type (lit "hello")]
  obtain ⟨s, t, hs, ht, hrecv, hnext, hstream, hlines⟩ : ∃ s t, Machine.exec step start launched = some s ∧
      Machine.exec step s [.getline (.sender 0), .send 0] = some t ∧
      (∀ c, s.sessions[0]? = some c → c.receiver = .recv) ∧ s.typed[s.taken.length]? = some (lit "hello") ∧
      t.stream 0 = [lit "hello"] ∧
      t.linesOf 0 = [lit "hello"] := by
    refine ⟨_, _, rfl, rfl, fun c hc => ?_, rfl, rfl, rfl⟩
    cases hc
    rfl
  have hmeets : Machine.Meets step InTurn start launched := by
    refine Machine.meets_of_forall launched _ (fun a ha _ => ?_)
    cases a with
    | getline r => simp [launched] at ha
    | receive k received => simp [launched] at ha
    | _ => trivial
  have hturn : Machine.Meets step InTurn s [.getline (.sender 0), .send 0] := by
    refine ⟨fun c hc => ?_, fun _ _ => ⟨trivial, fun _ _ => trivial⟩⟩
    rw [hrecv c hc, hnext]
    exact ⟨nofun, nofun, nofun⟩
  have h : Machine.ReachIf (· = start) step InTurn t :=
    .along (fun _ _ ha => ha) _ (.along (fun _ _ ha => ha) launched (.start rfl) hmeets hs) hturn ht
  have hflatten : [lit "hel", lit "lo"].flatten = (t.stream 0).flatten := by rw [hstream]; decide
  obtain ⟨-, -, -, hprinted⟩ := chat_stream h 0 ⟨[lit "hel", lit "lo"], hflatten, by decide⟩
  obtain ⟨pieces, hpieces, htext⟩ := hprinted (by rw [hlines]; decide)
  rw [hlines] at htext
  exact ⟨t, Machine.exec_append_eq_some.2 ⟨s, hs, ht⟩, hstream, pieces, hpieces, htext⟩

/-! ## How a chat ends -/

def toldTo (s : ClientProcess) (k : Nat) : List Bytes := s.fates.filterMap (fun e => e.2.lineOf k)

/-- A send thread was told everything that it got. -/
theorem linesOf_eq {s : ClientProcess} (hs : s.Lines) (k : Nat) : s.linesOf k = s.toldTo k := by
  unfold toldTo linesOf Intake.settledBy settled
  rw [List.filterMap_map, List.filterMap_filterMap]
  refine List.filterMap_congr (fun e he => ?_)
  obtain ⟨i, f⟩ := e
  have hreads := hs.fateReads i f he
  cases f with
  | executed => rfl
  | sent j message reached =>
    by_cases hj : j = k
    · simp [Fate.reader, Fate.lineOf, hj, hreads.1]
    · simp [Fate.reader, Fate.lineOf, hj]
  | quit j reached =>
    have hquit : s.typed[i]? = some (lit "quit") := hreads
    by_cases hj : j = k
    · simp [Fate.reader, Fate.lineOf, hj, hquit]
    · simp [Fate.reader, Fate.lineOf, hj]

/-- A send thread ends for the first `quit` that it is told. -/
def EndsByQuit (s : ClientProcess) : Prop := ∀ k,
  (s.sender k = .exited → ∃ before, s.toldTo k = before ++ [lit "quit"] ∧ lit "quit" ∉ before) ∧
    (s.sender k ≠ .exited → lit "quit" ∉ s.toldTo k)

theorem endsByQuit_of_eq {s t : ClientProcess} (hs : s.EndsByQuit) (hfates : t.fates = s.fates)
    (hsender : t.sender = s.sender) : t.EndsByQuit := by
  unfold EndsByQuit toldTo
  rw [hfates, hsender]
  exact hs

/-- A send thread moves that has not ended and does not end. -/
theorem endsByQuit_move {s t : ClientProcess} {k : Nat} {pc : SenderPc} (hs : s.EndsByQuit) (hfates : t.fates = s.fates)
    (hsender : t.sender = Function.update s.sender k pc) (hbefore : s.sender k ≠ .exited) (hafter : pc ≠ .exited) :
    t.EndsByQuit := by
  intro j
  unfold toldTo
  rw [hfates, hsender]
  by_cases hj : j = k
  · subst hj
    rw [Function.update_self]
    exact ⟨fun hexited => absurd hexited hafter, fun _ => (hs j).2 hbefore⟩
  · rw [Function.update_of_ne hj]
    exact hs j

/-- A send thread is told a line, and ends if it is `quit`. -/
theorem endsByQuit_settle {s t : ClientProcess} {k i : Nat} {f : Fate} {pc : SenderPc} {line : Bytes}
    (hs : s.EndsByQuit)
    (hfates : t.fates = s.fates ++ [(i, f)]) (hline : ∀ j, f.lineOf j = if k = j then some line else none)
    (hsender : t.sender = Function.update s.sender k pc) (hbefore : s.sender k ≠ .exited)
    (hpc : pc = .exited ↔ line = lit "quit") : t.EndsByQuit := by
  intro j
  unfold toldTo
  rw [hfates, hsender, List.filterMap_append]
  by_cases hj : j = k
  · subst hj
    have hnew : [(i, f)].filterMap (fun e => e.2.lineOf j) = [line] := by simp [hline]
    have hno := (hs j).2 hbefore
    rw [Function.update_self, hnew]
    refine ⟨fun hexited => ⟨s.toldTo j, by rw [hpc.1 hexited]; rfl, hno⟩, fun hrun hmem => ?_⟩
    rcases List.mem_append.1 hmem with hmem | hmem
    · exact hno hmem
    · exact hrun (hpc.2 (List.mem_singleton.1 hmem).symm)
  · have hnew : [(i, f)].filterMap (fun e => e.2.lineOf j) = [] := by simp [hline, Ne.symm hj]
    rw [Function.update_of_ne hj, hnew, List.append_nil]
    exact hs j

theorem endsByQuit_step {s t : ClientProcess} {a : Act} (hok : s.SessionsOk) (hl : s.Lines) (hs : s.EndsByQuit)
    (h : Step s a t) : t.EndsByQuit := by
  have hlaunch : ∀ {k : Nat} {u : ClientProcess}, Launch s k u → u.EndsByQuit := by
    intro k u hu
    refine endsByQuit_of_eq hs ?_ (sender_launch hu)
    cases hu <;> rfl
  cases h with
  | socket received ok hpc => exact endsByQuit_of_eq hs rfl (sender_openSession s _)
  | accepted ok hpc => exact endsByQuit_of_eq hs rfl (sender_openSession s _)
  | mainLaunches received ok k u main hpc hu hmain =>
    have hu := hlaunch hu
    exact hu
  | listenerLaunches ok k u listener hpc hu =>
    have hu := hlaunch hu
    exact hu
  | execute received ok i line hpc =>
    have hsame : ∀ k,
        ({ s.settle i .executed with main := afterCommand line } : ClientProcess).toldTo k = s.toldTo k := by
      intro k
      simp [toldTo, settle, Fate.lineOf]
    intro k
    rw [hsame]
    exact hs k
  | takeMessage k c line hline hc hpc =>
    refine endsByQuit_move (s := s) hs rfl
      (sender_setSession (s := { s with taken := s.taken ++ [Reader.sender k] }) hc _)
      (by simp [sender_eq hc, hpc]) ?_
    unfold takeMessage
    split <;> simp
  | createSend k c hc hpc =>
    have hidle := (hok k c hc).unstarted (by rw [hpc]; rfl)
    exact endsByQuit_move hs rfl (sender_setSession hc _) (by simp [sender_eq hc, hidle.1]) (by simp)
  | createReceive k c hc hpc => exact endsByQuit_of_eq hs rfl (sender_setSession_same hc rfl)
  | join k c stage hc hpc hnext => exact endsByQuit_of_eq hs rfl (sender_setSession_same hc rfl)
  | send k c i message hc hpc =>
    have hreads := hl.reads k
    rw [sender_eq hc, hpc] at hreads
    refine endsByQuit_settle (s := s) hs rfl (fun _ => rfl)
      (sender_setSession (s := (s.use k c).settle i (.sent k message (s.reached c))) hc _)
      (by simp [sender_eq hc, hpc]) ⟨by simp, fun hquit => absurd hquit hreads.2⟩
  | quit k c i hc hpc =>
    exact endsByQuit_settle (s := s) hs rfl (fun _ => rfl)
      (sender_setSession (s := (s.close k c).settle i (.quit k (s.reached c))) hc _)
      (by simp [sender_eq hc, hpc]) ⟨fun _ => rfl, fun _ => rfl⟩
  | recv k received c hc hpc => exact endsByQuit_of_eq hs rfl (sender_setSession_same (s := s.use k c) hc rfl)
  | received k buffer c on hc hpc hsize =>
    exact endsByQuit_of_eq hs rfl (sender_setSession_same (s := s.useOn k on) hc rfl)
  | hangUp k received c on hc hpc hsize =>
    exact endsByQuit_of_eq hs rfl (sender_setSession_same (s := s.useOn k on) hc rfl)
  | hungUp k received c hc hpc => exact endsByQuit_of_eq hs rfl (sender_setSession_same (s := s.close k c) hc rfl)
  | _ => exact hs

theorem endsByQuit_reach {s : ClientProcess} (h : Machine.Reach (· = start) step s) : s.EndsByQuit :=
  h.invariant_under (J := fun s => s.SessionsOk ∧ s.Lines) (fun _ h => ⟨ok_reach h, lines_reach h⟩)
    (by rintro _ rfl k; exact ⟨nofun, fun _ => nofun⟩)
    (fun _ _ _ hJ hs _ hstep => endsByQuit_step hJ.1 hJ.2 hs (step_cases hstep))

/-- Every session joined what it is past. -/
def AllJoined (s : ClientProcess) : Prop := ∀ (k : Nat) (c : ChatSession), s.sessions[k]? = some c → c.Joined

theorem allJoined_launch {s t : ClientProcess} {k : Nat} (hs : s.AllJoined) (h : Launch s k t) : t.AllJoined := by
  cases h with
  | connect c stage hc hpc hnext =>
    refine forall_setSession (s := s.use k c) hc ⟨?_, ?_⟩ (fun j d _ => hs j d)
    · rcases hnext with rfl | rfl <;> simp
    · rcases hnext with rfl | rfl <;> simp
  | create c stage hc hpc hnext =>
    refine forall_setSession hc ⟨?_, ?_⟩ (fun j d _ => hs j d)
    · rcases hnext with rfl | rfl <;> simp
    · rcases hnext with rfl | rfl <;> simp
  | drop c hc hpc => exact forall_setSession (s := s.close k c) hc ⟨by simp, by simp⟩ (fun j d _ => hs j d)

theorem allJoined_chat {s t : ClientProcess} {k : Nat} {c : ChatSession} (hs : s.AllJoined)
    (hc : s.sessions[k]? = some c) (h : s.startChatSession k c = some t) : t.AllJoined := by
  have hjoined := hs k c hc
  unfold startChatSession at h
  split at h
  · cases h; exact forall_setSession hc ⟨by simp, by simp⟩ (fun j d _ => hs j d)
  · cases h; exact forall_setSession hc ⟨by simp, by simp⟩ (fun j d _ => hs j d)
  · split at h
    · rename_i hexited
      cases h
      exact forall_setSession hc ⟨fun _ => hexited, by simp⟩ (fun j d _ => hs j d)
    · cases h
  · rename_i hpc
    split at h
    · rename_i hexited
      cases h
      exact forall_setSession hc ⟨fun _ => hjoined.sender (.inl hpc), fun _ => hexited⟩ (fun j d _ => hs j d)
    · cases h
  · cases h

theorem allJoined_step {s t : ClientProcess} {a : Act} (hs : s.AllJoined) (h : step s a = some t) : t.AllJoined := by
  -- a send thread that moves has not ended, nor has a receive thread
  have hsender : ∀ {k : Nat} {c : ChatSession} {s' : ClientProcess} (pc : SenderPc), s.sessions[k]? = some c →
      c.sender ≠ .exited → s'.sessions = s.sessions → (s'.setSession k { c with sender := pc }).AllJoined := by
    intro k c s' pc hc hrun hsame
    refine forall_setSession (hsame ▸ hc) ⟨fun hpast => ?_, (hs k c hc).receiver⟩ (fun j d _ hd => hs j d (hsame ▸ hd))
    exact absurd ((hs k c hc).sender hpast) hrun
  have hreceiver : ∀ {k : Nat} {c : ChatSession} {s' : ClientProcess} (pc : ReceiverPc), s.sessions[k]? = some c →
      c.receiver ≠ .exited → s'.sessions = s.sessions → (s'.setSession k { c with receiver := pc }).AllJoined := by
    intro k c s' pc hc hrun hsame
    refine forall_setSession (hsame ▸ hc) ⟨(hs k c hc).sender, fun hpast => ?_⟩ (fun j d _ hd => hs j d (hsame ▸ hd))
    exact absurd ((hs k c hc).receiver hpast) hrun
  by_cases hchat : ∃ k, a = .chat k
  · obtain ⟨k, rfl⟩ := hchat
    obtain ⟨c, hc, h⟩ := Option.bind_eq_some_iff.1 h
    exact allJoined_chat hs hc h
  · cases step_cases h with
    | socket received ok hpc => exact forall_openSession ⟨by simp, by simp⟩ hs
    | accepted ok hpc => exact forall_openSession ⟨by simp, by simp⟩ hs
    | mainLaunches received ok k u main hpc hu hmain =>
      have hu := allJoined_launch hs hu
      exact hu
    | listenerLaunches ok k u listener hpc hu =>
      have hu := allJoined_launch hs hu
      exact hu
    | takeMessage k c line hline hc hpc => exact hsender _ hc (by simp [hpc]) rfl
    | send k c i message hc hpc => exact hsender _ hc (by simp [hpc]) rfl
    | quit k c i hc hpc => exact hsender _ hc (by simp [hpc]) rfl
    | recv k received c hc hpc => exact hreceiver _ hc (by simp [hpc]) rfl
    | received k buffer c on hc hpc hsize => exact hreceiver _ hc (by simp [hpc]) rfl
    | hangUp k received c on hc hpc hsize => exact hreceiver _ hc (by simp [hpc]) rfl
    | hungUp k received c hc hpc => exact hreceiver _ hc (by simp [hpc]) rfl
    | createSend k c hc hpc => exact absurd ⟨k, rfl⟩ hchat
    | createReceive k c hc hpc => exact absurd ⟨k, rfl⟩ hchat
    | join k c stage hc hpc hnext => exact absurd ⟨k, rfl⟩ hchat
    | _ => exact hs

theorem allJoined_reach {s : ClientProcess} (h : Machine.Reach (· = start) step s) : s.AllJoined :=
  h.invariant (by rintro _ rfl; exact nofun) (fun _ _ _ hs _ hstep => allJoined_step hs hstep)

/-- **A chat ends for a `quit` here**: the thread of a session returns only after its send and its receive thread have
ended, and the send thread has ended just when `std::getline` has given it `quit`, which is the last line that it got,
whatever the peer and the other sessions do. -/
theorem chat_ends_by_quit {s : ClientProcess} (h : Machine.Reach (· = start) step s) {k : Nat} {c : ChatSession}
    (hc : s.sessions[k]? = some c) :
    (c.stage = .returned → c.sender = .exited ∧ c.receiver = .exited) ∧
      (c.sender = .exited → ∃ before, s.linesOf k = before ++ [lit "quit"] ∧ lit "quit" ∉ before) ∧
      (c.sender ≠ .exited → lit "quit" ∉ s.linesOf k) := by
  have hjoined := allJoined_reach h k c hc
  have hends := endsByQuit_reach h k
  rw [linesOf_eq (lines_reach h), ← sender_eq hc]
  refine ⟨fun hreturned => ⟨?_, hjoined.receiver hreturned⟩, hends⟩
  exact (sender_eq hc).trans (hjoined.sender (.inr hreturned))

/-- The peer has hung up; the chat is over when `quit` is typed here. -/
theorem chat_ends_by_quit_one : ∃ (s : ClientProcess) (c : ChatSession) (before : List Bytes),
    Machine.exec step start
      [.listener true, .listener true, .chat 0, .chat 0, .receive 0 .closed, .receive 0 .closed, .receive 0 .closed,
        .type (lit "bye"), .getline (.sender 0), .send 0, .type (lit "quit"), .getline (.sender 0), .send 0, .chat 0,
        .chat 0] = some s ∧
      s.sessions[0]? = some c ∧ c.stage = .returned ∧ s.linesOf 0 = before ++ [lit "quit"] ∧ lit "quit" ∉ before := by
  obtain ⟨s, c, hs, hc, hreturned⟩ : ∃ (s : ClientProcess) (c : ChatSession), Machine.exec step start
      [.listener true, .listener true, .chat 0, .chat 0, .receive 0 .closed, .receive 0 .closed, .receive 0 .closed,
        .type (lit "bye"), .getline (.sender 0), .send 0, .type (lit "quit"), .getline (.sender 0), .send 0, .chat 0,
        .chat 0] = some s ∧ s.sessions[0]? = some c ∧ c.stage = .returned := ⟨_, _, rfl, rfl, rfl⟩
  obtain ⟨hended, hquit, -⟩ := chat_ends_by_quit (.exec _ (.start rfl) hs) hc
  obtain ⟨before, hlines, hno⟩ := hquit (hended hreturned).1
  exact ⟨s, c, before, hs, hc, hreturned, hlines, hno⟩

end ClientProcess

end ChatRoom
