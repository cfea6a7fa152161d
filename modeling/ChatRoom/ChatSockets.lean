import ChatRoom.Chat
/-!
# ChatSockets — the send and the receive thread of a session, and its socket

Each of the two threads of a session leaves its loop by closing the socket, and neither knows of the other.  `InTurn`:
the send thread takes no line once the peer has hung up, and takes `quit` only while the receive thread is in a `recv`
that never returns.  Then one of them closes, once, and nobody uses the number after that; any other line or return of
`recv` lets the session use or close a number that it no longer has (`sockets_owned`).
-/
namespace ChatRoom

def SocketCall.on (e : SocketCall) : Nat × Descriptor.Op := (e.session, e.op)

/-- Nobody has closed the socket of the session. -/
def ChatSession.isOpen (c : ChatSession) : Bool := c.stage ≠ .dropped ∧ c.sender ≠ .exited ∧ c.receiver ≠ .exited

/-- A thread has closed the socket of the session. -/
def ChatSession.Over (c : ChatSession) : Prop := c.stage = .dropped ∨ c.sender = .exited ∨ c.receiver = .exited

namespace ChatSession

theorem isOpen_iff (c : ChatSession) :
    c.isOpen = true ↔ c.stage ≠ .dropped ∧ c.sender ≠ .exited ∧ c.receiver ≠ .exited := by
  unfold isOpen
  rw [decide_eq_true_iff]

theorem isOpen_of_over {c : ChatSession} (h : c.Over) : c.isOpen = false := by
  rw [Bool.eq_false_iff, Ne, isOpen_iff]
  rintro ⟨hstage, hsender, hreceiver⟩
  rcases h with h | h | h
  · exact hstage h
  · exact hsender h
  · exact hreceiver h

end ChatSession

namespace ClientProcess

/-- The calls on sockets, by session. -/
def ops (s : ClientProcess) : List (Nat × Descriptor.Op) := s.calls.map SocketCall.on

def isOpen (s : ClientProcess) (k : Nat) : Bool := (s.sessions[k]?.map ChatSession.isOpen).getD false

/-- Every session calls on its socket while it is open, and reaches it, and has closed it once when it is over. -/
structure SocketsOwned (s : ClientProcess) : Prop where
  whileOpen : ∀ k, Descriptor.WhileOpen k s.ops
  own : ∀ e ∈ s.calls, e.reached = some (.session e.session)
  closedOnce : ∀ (k : Nat) (c : ChatSession), s.sessions[k]? = some c → c.Over → Descriptor.ClosedOnce k s.ops

/-- What a session is sent by its user and its peer: a line comes while the peer has not hung up, and `quit` while the
receive thread is in `recv`; that returns nothing after the `quit`, and the peer hangs up when no line is in hand. -/
def InTurn (s : ClientProcess) : Act → Prop
  | .getline (.sender k) => ∀ c, s.sessions[k]? = some c → c.receiver ≠ .close ∧ c.receiver ≠ .exited ∧
      (s.typed[s.taken.length]? = some (lit "quit") → ∃ on, c.receiver = .blocked on)
  | .receive k received => ∀ c on, s.sessions[k]? = some c → c.receiver = .blocked on →
      c.sender ≠ .exited ∧ (∀ i, c.sender ≠ .close i) ∧
      ((∃ buffer, received = .data buffer ∧ buffer.length ≠ 0) ∨ ∀ i message, c.sender ≠ .send i message)
  | _ => True

/-- A send or receive thread calls on the socket only while the other has not ended. -/
def Alone (s : ClientProcess) : Act → Prop
  | .send k => ∀ c, s.sessions[k]? = some c → c.receiver ≠ .exited
  | .receive k _ => ∀ c, s.sessions[k]? = some c → c.sender ≠ .exited
  | _ => True

structure Inv (s : ClientProcess) : Prop where
  notBoth : ∀ (k : Nat) (c : ChatSession), s.sessions[k]? = some c → ¬ (c.sender = .exited ∧ c.receiver = .exited)
  blocked : ∀ (k : Nat) (c : ChatSession), s.sessions[k]? = some c → ∀ on, c.receiver = .blocked on →
    on = some (.session k)
  held : ∀ (k : Nat) (c : ChatSession), s.sessions[k]? = some c → c.isOpen = true → s.reached c = some (.session k)
  tracked : Descriptor.Tracked s.ops s.isOpen
  own : ∀ e ∈ s.calls, e.reached = some (.session e.session)

/-! ## One session moves -/

theorem isOpen_setSession {s : ClientProcess} {k : Nat} {c : ChatSession} (hc : s.sessions[k]? = some c)
    (c' : ChatSession) : (s.setSession k c').isOpen = Function.update s.isOpen k c'.isOpen := by
  funext j
  unfold isOpen
  rw [sessions_setSession hc]
  by_cases hj : k = j
  · subst hj
    rw [if_pos rfl, Function.update_self]
    rfl
  · rw [if_neg hj, Function.update_of_ne (Ne.symm hj)]

theorem isOpen_eq {s : ClientProcess} {k : Nat} {c : ChatSession} (hc : s.sessions[k]? = some c) :
    s.isOpen k = c.isOpen := by
  unfold isOpen
  rw [hc]
  rfl

/-- A step that leaves the sockets alone. -/
theorem inv_of_eq {s t : ClientProcess} (hs : s.Inv) (htable : t.table = s.table) (hsessions : t.sessions = s.sessions)
    (hcalls : t.calls = s.calls) : t.Inv where
  notBoth := by rw [hsessions]; exact hs.notBoth
  blocked := by rw [hsessions]; exact hs.blocked
  held := by unfold reached; rw [hsessions, htable]; exact hs.held
  tracked := by unfold ops isOpen; rw [hcalls, hsessions]; exact hs.tracked
  own := by rw [hcalls]; exact hs.own

theorem inv_setSession {s : ClientProcess} (hs : s.Inv) {k : Nat} {c c' : ChatSession} (hc : s.sessions[k]? = some c)
    (hsocket : c'.socket = c.socket) (hboth : ¬ (c'.sender = .exited ∧ c'.receiver = .exited))
    (hblocked : ∀ on, c'.receiver = .blocked on → on = some (.session k)) (hopen : c'.isOpen = c.isOpen) :
    (s.setSession k c').Inv where
  notBoth := forall_setSession hc hboth (fun j d _ => hs.notBoth j d)
  blocked := forall_setSession hc hblocked (fun j d _ => hs.blocked j d)
  held := by
    refine forall_setSession hc (fun ho => ?_) (fun j d _ => hs.held j d)
    unfold reached
    rw [hsocket]
    exact hs.held k c hc (hopen ▸ ho)
  tracked := by
    rw [isOpen_setSession hc, hopen, ← isOpen_eq hc, Function.update_eq_self]
    exact hs.tracked
  own := hs.own

theorem ops_concat (calls : List SocketCall) (k : Nat) (op : Descriptor.Op) (reached : Option Holder) :
    (calls ++ [(⟨k, op, reached⟩ : SocketCall)]).map SocketCall.on = calls.map SocketCall.on ++ [(k, op)] := by
  rw [List.map_append]
  rfl

theorem own_concat {calls : List SocketCall} (hcalls : ∀ e ∈ calls, e.reached = some (.session e.session)) {k : Nat}
    {reached : Option Holder} (hreached : reached = some (.session k)) (op : Descriptor.Op) :
    ∀ e ∈ calls ++ [⟨k, op, reached⟩], e.reached = some (.session e.session) := by
  intro e he
  rcases List.mem_append.1 he with he | he
  · exact hcalls e he
  · rw [List.mem_singleton.1 he]
    exact hreached

/-- A call on the socket while it is open. -/
theorem inv_useOn {s : ClientProcess} (hs : s.Inv) {k : Nat} {c : ChatSession} (hc : s.sessions[k]? = some c)
    (hopen : c.isOpen = true) {reached : Option Holder} (hreached : reached = some (.session k)) :
    (s.useOn k reached).Inv where
  notBoth := hs.notBoth
  blocked := hs.blocked
  held := hs.held
  tracked := by
    unfold ops useOn
    rw [ops_concat]
    exact hs.tracked.used ((isOpen_eq hc).trans hopen)
  own := own_concat hs.own hreached _

theorem inv_use {s : ClientProcess} (hs : s.Inv) {k : Nat} {c : ChatSession} (hc : s.sessions[k]? = some c)
    (hopen : c.isOpen = true) : (s.use k c).Inv := inv_useOn hs hc hopen (hs.held k c hc hopen)

/-- The close of an open socket. -/
theorem inv_close {s : ClientProcess} (hs : s.Inv) {k : Nat} {c c' : ChatSession} (hc : s.sessions[k]? = some c)
    (hopen : c.isOpen = true) (hboth : ¬ (c'.sender = .exited ∧ c'.receiver = .exited))
    (hblocked : ∀ on, c'.receiver = .blocked on → on = some (.session k)) (hclosed : c'.isOpen = false) :
    ((s.close k c).setSession k c').Inv where
  notBoth := forall_setSession (s := s.close k c) hc hboth (fun j d _ => hs.notBoth j d)
  blocked := forall_setSession (s := s.close k c) hc hblocked (fun j d _ => hs.blocked j d)
  held := by
    refine forall_setSession (s := s.close k c) hc (fun ho => absurd ho (by simp [hclosed])) (fun j d hj hd ho => ?_)
    have hheld := hs.held j d hd ho
    -- two open sockets have two numbers
    have hne : d.socket ≠ c.socket := by
      intro heq
      have hself := hs.held k c hc hopen
      unfold reached at hheld hself
      rw [heq, hself] at hheld
      cases hheld
      exact hj rfl
    show Descriptor.holder (Descriptor.release s.table c.socket) d.socket = some (.session j)
    rw [Descriptor.holder_release, if_neg hne]
    exact hheld
  tracked := by
    rw [isOpen_setSession (s := s.close k c) hc, hclosed]
    unfold ops setSession close
    dsimp only
    rw [ops_concat]
    exact hs.tracked.concat k .closed (by rw [isOpen_eq hc, hopen]; rfl)
  own := own_concat hs.own (hs.held k c hc hopen) _

theorem isOpen_openSession (s : ClientProcess) {stage : LaunchStage} (hstage : stage ≠ .dropped) :
    (s.openSession stage).isOpen = Function.update s.isOpen s.sessions.length true := by
  funext j
  unfold isOpen openSession
  dsimp only
  by_cases hj : j = s.sessions.length
  · subst hj
    rw [List.getElem?_concat_length, Function.update_self]
    simp [ChatSession.isOpen, hstage]
  · rw [Function.update_of_ne hj]
    congr 2
    rw [List.getElem?_append]
    split
    · rfl
    · rw [List.getElem?_eq_none (by simp; omega), List.getElem?_eq_none (by omega)]

/-- A new session gets a number that no other has. -/
theorem inv_open {s : ClientProcess} (hs : s.Inv) {stage : LaunchStage} (hstage : stage = .connect ∨ stage = .create) :
    (s.openSession stage).Inv where
  notBoth := forall_openSession (fun hboth => nomatch hboth.1) hs.notBoth
  blocked := forall_openSession nofun hs.blocked
  held := by
    refine forall_openSession (fun _ => ?_) (fun j d hd ho => ?_)
    · show Descriptor.holder (Descriptor.allocate _ s.table) (Descriptor.lowest s.table) = _
      rw [Descriptor.holder_allocate, if_pos rfl]
    · have hheld := hs.held j d hd ho
      have hne : d.socket ≠ Descriptor.lowest s.table := by
        intro heq
        unfold reached at hheld
        rw [heq, (Descriptor.lowest_least s.table).1] at hheld
        cases hheld
      show Descriptor.holder (Descriptor.allocate _ s.table) d.socket = _
      rw [Descriptor.holder_allocate, if_neg hne]
      exact hheld
  tracked := by
    have hnew : s.isOpen s.sessions.length = false := by
      unfold isOpen
      rw [List.getElem?_eq_none (Nat.le_refl _)]
      rfl
    rw [isOpen_openSession s (by rcases hstage with rfl | rfl <;> exact nofun)]
    unfold ops openSession
    dsimp only
    rw [ops_concat]
    exact hs.tracked.concat _ .opened (by rw [hnew]; rfl)
  own := own_concat hs.own rfl _

/-! ## One step -/

theorem inv_start : start.Inv := ⟨nofun, nofun, nofun, Descriptor.tracked_nil, nofun⟩

theorem inv_launch {s t : ClientProcess} {k : Nat} (hok : s.SessionsOk) (hs : s.Inv) (h : Launch s k t) : t.Inv := by
  cases h with
  | connect c stage hc hpc hnext =>
    have hidle := (hok k c hc).unstarted (by rw [hpc]; rfl)
    have hopen : c.isOpen = true := by simp [ChatSession.isOpen, hpc, hidle.1, hidle.2]
    refine inv_setSession (inv_use hs hc hopen) hc rfl (hs.notBoth k c hc) (hs.blocked k c hc) ?_
    rw [hopen, ChatSession.isOpen_iff, hidle.1, hidle.2]
    exact ⟨by rcases hnext with rfl | rfl <;> exact nofun, nofun, nofun⟩
  | create c stage hc hpc hnext =>
    refine inv_setSession hs hc rfl (hs.notBoth k c hc) (hs.blocked k c hc) ?_
    rcases hnext with rfl | rfl <;> simp [ChatSession.isOpen, hpc]
  | drop c hc hpc =>
    have hidle := (hok k c hc).unstarted (by rw [hpc]; rfl)
    exact inv_close hs hc (by simp [ChatSession.isOpen, hpc, hidle.1, hidle.2]) (hs.notBoth k c hc) (hs.blocked k c hc)
      rfl

/-- **A step keeps the sockets owned**, if its thread is alone with the socket. -/
theorem inv_step {s t : ClientProcess} {a : Act} (hok : s.SessionsOk) (hs : s.Inv) (halone : s.Alone a)
    (h : Step s a t) : t.Inv := by
  cases h with
  | socket received ok hpc => exact inv_of_eq (inv_open hs (.inl rfl)) rfl rfl rfl
  | mainLaunches received ok k t main hpc hlaunch hmain => exact inv_of_eq (inv_launch hok hs hlaunch) rfl rfl rfl
  | accepted ok hpc => exact inv_of_eq (inv_open hs (.inr rfl)) rfl rfl rfl
  | listenerLaunches ok k t listener hpc hlaunch => exact inv_of_eq (inv_launch hok hs hlaunch) rfl rfl rfl
  | takeMessage k c line hline hc hpc =>
    have hne : takeMessage s.taken.length line ≠ .exited := by unfold takeMessage; split <;> exact nofun
    have htaken : ({ s with taken := s.taken ++ [Reader.sender k] } : ClientProcess).Inv := inv_of_eq hs rfl rfl rfl
    exact inv_setSession htaken hc rfl (fun hboth => hne hboth.1) (hs.blocked k c hc)
      (by simp [ChatSession.isOpen, hpc, hne])
  | createSend k c hc hpc =>
    have hidle := (hok k c hc).unstarted (by rw [hpc]; rfl)
    exact inv_setSession hs hc rfl (fun hboth => nomatch hboth.1) (hs.blocked k c hc)
      (by simp [ChatSession.isOpen, hpc, hidle.1])
  | createReceive k c hc hpc =>
    have hidle := ((hok k c hc).started (by rw [hpc]; rfl)).2 hpc
    exact inv_setSession hs hc rfl (fun hboth => nomatch hboth.2) nofun (by simp [ChatSession.isOpen, hpc, hidle])
  | join k c stage hc hpc hnext =>
    refine inv_setSession hs hc rfl (hs.notBoth k c hc) (hs.blocked k c hc) ?_
    rcases hpc with hpc | hpc <;> rcases hnext with rfl | rfl <;> simp [ChatSession.isOpen, hpc]
  | send k c i message hc hpc =>
    have hstage := (hok k c hc).stage (.inl (by rw [hpc]; exact nofun))
    have hopen : c.isOpen = true := c.isOpen_iff.2 ⟨hstage, by rw [hpc]; exact nofun, halone c hc⟩
    have hsent : ((s.use k c).settle i (.sent k message (s.reached c))).Inv :=
      inv_of_eq (inv_use hs hc hopen) rfl rfl rfl
    exact inv_setSession hsent hc rfl (fun hboth => nomatch hboth.1) (hs.blocked k c hc)
      (by simp [ChatSession.isOpen, hpc])
  | quit k c i hc hpc =>
    have hstage := (hok k c hc).stage (.inl (by rw [hpc]; exact nofun))
    have hopen : c.isOpen = true := c.isOpen_iff.2 ⟨hstage, by rw [hpc]; exact nofun, halone c hc⟩
    have hclose : ((s.close k c).setSession k { c with sender := .exited }).Inv :=
      inv_close hs hc hopen (fun hboth => halone c hc hboth.2) (hs.blocked k c hc) (by simp [ChatSession.isOpen])
    exact inv_of_eq hclose rfl rfl rfl
  | recv k received c hc hpc =>
    have hstage := (hok k c hc).stage (.inr (by rw [hpc]; exact nofun))
    have hopen : c.isOpen = true := c.isOpen_iff.2 ⟨hstage, halone c hc, by rw [hpc]; exact nofun⟩
    refine inv_setSession (inv_use hs hc hopen) hc rfl (fun hboth => nomatch hboth.2) (fun on hon => ?_)
      (by simp [ChatSession.isOpen, hpc])
    cases hon
    exact hs.held k c hc hopen
  | received k buffer c on hc hpc hsize =>
    have hstage := (hok k c hc).stage (.inr (by rw [hpc]; exact nofun))
    have hopen : c.isOpen = true := c.isOpen_iff.2 ⟨hstage, halone c hc, by rw [hpc]; exact nofun⟩
    exact inv_setSession (inv_useOn hs hc hopen (hs.blocked k c hc on hpc)) hc rfl (fun hboth => nomatch hboth.2) nofun
      (by simp [ChatSession.isOpen, hpc])
  | hangUp k received c on hc hpc hsize =>
    have hstage := (hok k c hc).stage (.inr (by rw [hpc]; exact nofun))
    have hopen : c.isOpen = true := c.isOpen_iff.2 ⟨hstage, halone c hc, by rw [hpc]; exact nofun⟩
    exact inv_setSession (inv_useOn hs hc hopen (hs.blocked k c hc on hpc)) hc rfl (fun hboth => nomatch hboth.2) nofun
      (by simp [ChatSession.isOpen, hpc])
  | hungUp k received c hc hpc =>
    have hstage := (hok k c hc).stage (.inr (by rw [hpc]; exact nofun))
    have hopen : c.isOpen = true := c.isOpen_iff.2 ⟨hstage, halone c hc, by rw [hpc]; exact nofun⟩
    exact inv_close hs hc hopen (fun hboth => halone c hc hboth.1) nofun (by simp [ChatSession.isOpen])
  | _ => exact inv_of_eq hs rfl rfl rfl

theorem inv_reach {s : ClientProcess} (h : Machine.ReachIf (· = start) step Alone s) : s.Inv :=
  h.invariant_under (J := SessionsOk) (fun _ => ok_reach) (by rintro _ rfl; exact inv_start)
    (fun _ _ _ hok hs halone hstep => inv_step hok hs halone (step_cases hstep))

/-! ## Every run -/

theorem Inv.socketsOwned {s : ClientProcess} (hs : s.Inv) : s.SocketsOwned where
  whileOpen := hs.tracked.whileOpen
  own := hs.own
  closedOnce := by
    intro k c hc hover
    rw [hs.tracked.closedOnce_iff, isOpen_eq hc]
    exact ChatSession.isOpen_of_over hover

/-- Calls are not forgotten. -/
theorem ops_step {s t : ClientProcess} {a : Act} (h : Step s a t) : ∃ rest, t.ops = s.ops ++ rest := by
  have hsame : t.calls = s.calls → ∃ rest, t.ops = s.ops ++ rest := fun heq => ⟨[], by simp [ops, heq]⟩
  have hmore : ∀ e, t.calls = s.calls ++ [e] → ∃ rest, t.ops = s.ops ++ rest := fun e heq =>
    ⟨[e.on], by simp [ops, heq]⟩
  have hlaunch : ∀ {k : Nat} {u : ClientProcess}, Launch s k u → t.calls = u.calls → ∃ rest, t.ops = s.ops ++ rest := by
    intro k u hu heq
    cases hu with
    | connect => exact hmore _ heq
    | create => exact hsame heq
    | drop => exact hmore _ heq
  cases h with
  | socket => exact hmore _ rfl
  | accepted => exact hmore _ rfl
  | mainLaunches received ok k u main hpc h => exact hlaunch h rfl
  | listenerLaunches ok k u listener hpc h => exact hlaunch h rfl
  | send => exact hmore _ rfl
  | quit => exact hmore _ rfl
  | recv => exact hmore _ rfl
  | received => exact hmore _ rfl
  | hangUp => exact hmore _ rfl
  | hungUp => exact hmore _ rfl
  | _ => exact hsame rfl

/-- **The first call of a thread that is not alone** is one on a socket that is closed. -/
theorem not_whileOpen_step {s t : ClientProcess} {a : Act} (hs : s.Inv) (halone : ¬ s.Alone a) (h : Step s a t) :
    ∃ k, ¬ Descriptor.WhileOpen k t.ops := by
  have hcall : ∀ {k : Nat} {c : ChatSession} {op : Descriptor.Op} {reached : Option Holder}, s.sessions[k]? = some c →
      c.sender = .exited ∨ c.receiver = .exited → t.calls = s.calls ++ [⟨k, op, reached⟩] → op ≠ .opened →
      ∃ k, ¬ Descriptor.WhileOpen k t.ops := by
    intro k c op reached hc hclosed hcalls hop
    refine ⟨k, ?_⟩
    have hopen : s.isOpen k = false := by
      rw [isOpen_eq hc, Bool.eq_false_iff, Ne, ChatSession.isOpen_iff]
      rintro ⟨-, hsender, hreceiver⟩
      exact hclosed.elim hsender hreceiver
    unfold ops
    rw [hcalls, ops_concat]
    refine hs.tracked.not_whileOpen ?_ []
    rw [hopen]
    cases op with
    | opened => exact absurd rfl hop
    | used => rfl
    | closed => rfl
  have hexited : ∀ {k : Nat} {c : ChatSession} {P : ChatSession → Prop}, s.sessions[k]? = some c →
      (¬ ∀ d, s.sessions[k]? = some d → ¬ P d) → P c := by
    intro k c P hc hnot
    by_contra hP
    apply hnot
    intro d hd
    rw [hc] at hd
    cases hd
    exact hP
  cases h with
  | send k c i message hc hpc => exact hcall hc (.inr (hexited hc halone)) rfl nofun
  | quit k c i hc hpc => exact hcall hc (.inr (hexited hc halone)) rfl nofun
  | recv k received c hc hpc => exact hcall hc (.inl (hexited hc halone)) rfl nofun
  | received k buffer c on hc hpc hsize => exact hcall hc (.inl (hexited hc halone)) rfl nofun
  | hangUp k received c on hc hpc hsize => exact hcall hc (.inl (hexited hc halone)) rfl nofun
  | hungUp k received c hc hpc => exact hcall hc (.inl (hexited hc halone)) rfl nofun
  | _ => exact absurd trivial halone

/-- Either every thread was alone so far, or a call on a closed socket was made. -/
theorem alone_or_broken {s : ClientProcess} (h : Machine.Reach (· = start) step s) :
    Machine.ReachIf (· = start) step Alone s ∨ ∃ k, ¬ Descriptor.WhileOpen k s.ops := by
  refine h.invariant (I := fun s => Machine.ReachIf (· = start) step Alone s ∨ ∃ k, ¬ Descriptor.WhileOpen k s.ops)
    (fun s hs => .inl (.start hs)) ?_
  rintro s t a (hs | ⟨k, hk⟩) - hstep
  · by_cases halone : s.Alone a
    · exact .inl (.next hs halone hstep)
    · exact .inr (not_whileOpen_step (inv_reach hs) halone (step_cases hstep))
  · obtain ⟨rest, hrest⟩ := ops_step (step_cases hstep)
    exact .inr ⟨k, fun hwhile => hk (by rw [hrest] at hwhile; exact hwhile.of_append)⟩

/-! ## Sessions whose lines and replies come in turn -/

end ClientProcess

/-- Once one thread of the session is to leave its loop, the other waits for what does not come. -/
structure ChatSession.Paired (c : ChatSession) : Prop where
  quit : (c.sender = .exited ∨ ∃ i, c.sender = .close i) → ∃ on, c.receiver = .blocked on
  hungUp : (c.receiver = .close ∨ c.receiver = .exited) → c.sender = .idle ∨ c.sender = .getline

namespace ClientProcess

def AllPaired (s : ClientProcess) : Prop := ∀ (k : Nat) (c : ChatSession), s.sessions[k]? = some c → c.Paired

theorem paired_launch {s t : ClientProcess} {k : Nat} (hs : s.AllPaired) (h : Launch s k t) : t.AllPaired := by
  cases h with
  | connect c stage hc hpc hnext =>
    have hpaired := hs k c hc
    exact forall_setSession (s := s.use k c) hc ⟨hpaired.quit, hpaired.hungUp⟩ (fun j d _ => hs j d)
  | create c stage hc hpc hnext =>
    have hpaired := hs k c hc
    exact forall_setSession hc ⟨hpaired.quit, hpaired.hungUp⟩ (fun j d _ => hs j d)
  | drop c hc hpc =>
    have hpaired := hs k c hc
    exact forall_setSession (s := s.close k c) hc ⟨hpaired.quit, hpaired.hungUp⟩ (fun j d _ => hs j d)

theorem paired_takeMessage {s : ClientProcess} (hs : s.AllPaired) {k : Nat} {c : ChatSession} {line : Bytes}
    (hline : s.typed[s.taken.length]? = some line) (hc : s.sessions[k]? = some c)
    (hok : s.InTurn (.getline (.sender k))) :
    (({ s with taken := s.taken ++ [Reader.sender k] } : ClientProcess).setSession k
      { c with sender := takeMessage s.taken.length line }).AllPaired := by
  obtain ⟨hclose, hexited, hquit⟩ := hok c hc
  refine forall_setSession (s := { s with taken := s.taken ++ [Reader.sender k] }) hc
    ⟨fun hleaves => ?_, fun hover => ?_⟩
    (fun j d _ => hs j d)
  · apply hquit
    dsimp only at hleaves
    unfold takeMessage at hleaves
    by_cases heq : line = lit "quit"
    · rw [hline, heq]
    · simp [if_neg heq] at hleaves
  · exact absurd hover (not_or.2 ⟨hclose, hexited⟩)

/-- **A step in turn keeps the threads of each session paired.** -/
theorem paired_step {s t : ClientProcess} {a : Act} (hok : s.SessionsOk) (hs : s.AllPaired) (hturn : s.InTurn a)
    (h : Step s a t) : t.AllPaired := by
  cases h with
  | socket received ok hpc => exact forall_openSession ⟨nofun, nofun⟩ hs
  | accepted ok hpc => exact forall_openSession ⟨nofun, nofun⟩ hs
  | mainLaunches received ok k u main hpc hlaunch hmain =>
    have hu := paired_launch hs hlaunch
    exact hu
  | listenerLaunches ok k u listener hpc hlaunch =>
    have hu := paired_launch hs hlaunch
    exact hu
  | takeMessage k c line hline hc hpc => exact paired_takeMessage hs hline hc hturn
  | createSend k c hc hpc => exact forall_setSession hc ⟨nofun, fun _ => .inr rfl⟩ (fun j d _ => hs j d)
  | createReceive k c hc hpc =>
    have hidle := ((hok k c hc).started (by rw [hpc]; rfl)).2 hpc
    refine forall_setSession hc ⟨fun hleaves => ?_, nofun⟩ (fun j d _ => hs j d)
    obtain ⟨on, hon⟩ := (hs k c hc).quit hleaves
    rw [hidle] at hon
    cases hon
  | join k c stage hc hpc hnext =>
    exact forall_setSession hc ⟨(hs k c hc).quit, (hs k c hc).hungUp⟩ (fun j d _ => hs j d)
  | send k c i message hc hpc =>
    exact forall_setSession (s := (s.use k c).settle i _) hc ⟨nofun, fun _ => .inr rfl⟩ (fun j d _ => hs j d)
  | quit k c i hc hpc =>
    have hblocked := (hs k c hc).quit (.inr ⟨i, hpc⟩)
    refine forall_setSession (s := (s.close k c).settle i _) hc ⟨fun _ => hblocked, fun hover => ?_⟩
      (fun j d _ => hs j d)
    rcases (hs k c hc).hungUp hover with hsender | hsender <;> (rw [hpc] at hsender; cases hsender)
  | recv k received c hc hpc =>
    refine forall_setSession (s := s.use k c) hc ⟨fun _ => ⟨_, rfl⟩, nofun⟩ (fun j d _ => hs j d)
  | received k buffer c on hc hpc hsize =>
    obtain ⟨hexited, hclose, -⟩ := hturn c on hc hpc
    exact forall_setSession (s := s.useOn k on) hc
      ⟨fun hleaves => absurd hleaves (not_or.2 ⟨hexited, not_exists.2 hclose⟩), nofun⟩ (fun j d _ => hs j d)
  | hangUp k received c on hc hpc hsize =>
    obtain ⟨hexited, hclose, hdata⟩ := hturn c on hc hpc
    refine forall_setSession (s := s.useOn k on) hc
      ⟨fun hleaves => absurd hleaves (not_or.2 ⟨hexited, not_exists.2 hclose⟩), fun _ => ?_⟩ (fun j d _ => hs j d)
    rcases hdata with ⟨buffer, hbuffer, hne⟩ | hsend
    · exact absurd (hsize buffer hbuffer) hne
    · cases hsender : c.sender with
      | idle => exact .inl rfl
      | getline => exact .inr rfl
      | send i message => exact absurd hsender (hsend i message)
      | close i => exact absurd hsender (hclose i)
      | exited => exact absurd hsender hexited
  | hungUp k received c hc hpc =>
    have hwaits := (hs k c hc).hungUp (.inl hpc)
    refine forall_setSession (s := s.close k c) hc ⟨fun hleaves => ?_, fun _ => hwaits⟩ (fun j d _ => hs j d)
    obtain ⟨on, hon⟩ := (hs k c hc).quit hleaves
    rw [hpc] at hon
    cases hon
  | _ => exact hs

theorem paired_reach {s : ClientProcess} (h : Machine.ReachIf (· = start) step InTurn s) : s.AllPaired :=
  h.invariant_under (J := SessionsOk) (fun _ => ok_reach) (by rintro _ rfl; exact nofun)
    (fun _ _ _ hok hs hturn hstep => paired_step hok hs hturn (step_cases hstep))

/-- **In turn, each thread is alone with the socket.** -/
theorem alone_of_inTurn {s t : ClientProcess} {a : Act} (hs : s.AllPaired) (hturn : s.InTurn a) (h : Step s a t) :
    s.Alone a := by
  have hsender : ∀ {k : Nat} {c : ChatSession}, s.sessions[k]? = some c → c.sender ≠ .idle → c.sender ≠ .getline →
      s.Alone (.send k) := by
    intro k c hc hidle hgetline d hd hexited
    rw [hc] at hd
    cases hd
    rcases (hs k c hc).hungUp (.inr hexited) with h | h
    · exact hidle h
    · exact hgetline h
  have hreceiver : ∀ {k : Nat} {c : ChatSession} {received : Received}, s.sessions[k]? = some c →
      (∀ on, c.receiver ≠ .blocked on) → s.Alone (.receive k received) := by
    intro k c received hc hnot d hd hexited
    rw [hc] at hd
    cases hd
    obtain ⟨on, hon⟩ := (hs k c hc).quit (.inl hexited)
    exact hnot on hon
  have hreturn : ∀ {k : Nat} {c : ChatSession} {on : Option Holder} {received : Received}, s.sessions[k]? = some c →
      c.receiver = .blocked on → s.InTurn (.receive k received) → s.Alone (.receive k received) := by
    intro k c on received hc hon hturn d hd
    rw [hc] at hd
    cases hd
    exact (hturn c on hc hon).1
  cases h with
  | send k c i message hc hpc => exact hsender hc (by simp [hpc]) (by simp [hpc])
  | quit k c i hc hpc => exact hsender hc (by simp [hpc]) (by simp [hpc])
  | recv k received c hc hpc => exact hreceiver hc (by simp [hpc])
  | received k buffer c on hc hpc hsize => exact hreturn hc hpc hturn
  | hangUp k received c on hc hpc hsize => exact hreturn hc hpc hturn
  | hungUp k received c hc hpc => exact hreceiver hc (by simp [hpc])
  | _ => trivial

theorem alone_reach {s : ClientProcess} (h : Machine.ReachIf (· = start) step InTurn s) :
    Machine.ReachIf (· = start) step Alone s := by
  induction h with
  | start h => exact .start h
  | next hs hturn hstep ih => exact .next ih (alone_of_inTurn (paired_reach hs) hturn (step_cases hstep)) hstep

/-! ## Sessions whose lines and replies do not -/

/-- A thread of session `k` is to step. -/
def Act.OfSession (k : Nat) : Act → Prop
  | .chat j => j = k
  | .send j => j = k
  | .receive j _ => j = k
  | _ => False

/-- The threads of session `k`, left to themselves, may come to call on a socket that is closed. -/
def Doomed (k : Nat) (s : ClientProcess) : Prop :=
  ∃ as t, (∀ a ∈ as, a.OfSession k) ∧ Machine.exec step s as = some t ∧ ∃ j, ¬ Descriptor.WhileOpen j t.ops

theorem Doomed.of_step {s t : ClientProcess} {k : Nat} {a : Act} (ha : a.OfSession k) (h : step s a = some t)
    (ht : t.Doomed k) : s.Doomed k := by
  obtain ⟨as, u, has, hu, hbroken⟩ := ht
  refine ⟨a :: as, u, fun b hb => ?_, by rw [Machine.exec, h]; exact hu, hbroken⟩
  rcases List.mem_cons.1 hb with rfl | hb
  · exact ha
  · exact has b hb

/-- A thread steps that is not alone. -/
theorem broken_of_not_alone {s t : ClientProcess} (h : Machine.Reach (· = start) step s) {a : Act}
    (hstep : step s a = some t) (halone : ¬ s.Alone a) : ∃ j, ¬ Descriptor.WhileOpen j t.ops := by
  rcases alone_or_broken h with hs | ⟨j, hj⟩
  · exact not_whileOpen_step (inv_reach hs) halone (step_cases hstep)
  · obtain ⟨rest, hrest⟩ := ops_step (step_cases hstep)
    exact ⟨j, fun hwhile => hj (by rw [hrest] at hwhile; exact hwhile.of_append)⟩

theorem doomed_of_not_alone {s t : ClientProcess} (h : Machine.Reach (· = start) step s) {k : Nat} {a : Act}
    (ha : a.OfSession k) (hstep : step s a = some t) (halone : ¬ s.Alone a) : s.Doomed k :=
  ⟨[a], t, by simpa using ha, Machine.exec_singleton hstep, broken_of_not_alone h hstep halone⟩

/-- A line in hand, and the peer has hung up. -/
theorem doomed_of_hand {s : ClientProcess} (h : Machine.Reach (· = start) step s) {k : Nat} {c : ChatSession}
    (hc : s.sessions[k]? = some c) (hhand : (∃ i message, c.sender = .send i message) ∨ ∃ i, c.sender = .close i)
    (hreceiver : c.receiver = .close ∨ c.receiver = .exited) : s.Doomed k := by
  -- the send thread uses the socket after the receive thread has ended
  have hsend : ∀ {s : ClientProcess} {c : ChatSession}, Machine.Reach (· = start) step s → s.sessions[k]? = some c →
      ((∃ i message, c.sender = .send i message) ∨ ∃ i, c.sender = .close i) → c.receiver = .exited → s.Doomed k := by
    intro s c h hc hhand hexited
    have hno : ¬ s.Alone (.send k) := fun halone => halone c hc hexited
    rcases hhand with ⟨i, message, hpc⟩ | ⟨i, hpc⟩
    · exact doomed_of_not_alone h (a := .send k) rfl
        (by simp only [step, hc, Option.bind_some, sendMessages, hpc]; rfl) hno
    · exact doomed_of_not_alone h (a := .send k) rfl
        (by simp only [step, hc, Option.bind_some, sendMessages, hpc]; rfl) hno
  rcases hreceiver with hclose | hexited
  · have hstep : step s (.receive k .closed) = some ((s.close k c).setSession k { c with receiver := .exited }) := by
      simp only [step, hc, Option.bind_some, receiveMessages, hclose]
    refine .of_step (a := .receive k .closed) rfl hstep (hsend (h.after hstep) (c := { c with receiver := .exited }) ?_
      hhand rfl)
    rw [sessions_setSession (s := s.close k c) hc, if_pos rfl]
  · exact hsend h hc hhand hexited

/-- The user has quit, and the receive thread is not in `recv`. -/
theorem doomed_of_quit {s : ClientProcess} (h : Machine.Reach (· = start) step s) {k : Nat} {c : ChatSession}
    (hc : s.sessions[k]? = some c) {i : Nat} (hquit : c.sender = .close i)
    (hreceiver : ∀ on, c.receiver ≠ .blocked on) :
    s.Doomed k := by
  have hok := ok_reach h k c hc
  by_cases hover : c.receiver = .close ∨ c.receiver = .exited
  · exact doomed_of_hand h hc (.inr ⟨i, hquit⟩) hover
  · obtain ⟨hclose, hexited⟩ := not_or.1 hover
    -- the send thread closes, and then the receive thread calls `recv`
    have hstep : step s (.send k) = some (((s.close k c).settle i (.quit k (s.reached c))).setSession k
        { c with sender := .exited }) := by
      simp only [step, hc, Option.bind_some, sendMessages, hquit]
    have ht := h.after hstep
    have hc' :=
      sessions_setSession (s := (s.close k c).settle i (.quit k (s.reached c))) hc { c with sender := .exited } k
    rw [if_pos rfl] at hc'
    generalize ((s.close k c).settle i (.quit k (s.reached c))).setSession k { c with sender := .exited } = t
      at hstep ht hc'
    have hrecv : ∀ {t : ClientProcess} {d : ChatSession}, Machine.Reach (· = start) step t → t.sessions[k]? = some d →
        d.sender = .exited → d.receiver = .recv → t.Doomed k := by
      intro t d ht hd hexited hpc
      exact doomed_of_not_alone ht (a := .receive k .closed) rfl
        (by simp only [step, hd, Option.bind_some, receiveMessages, hpc]; rfl) (fun halone => halone d hd hexited)
    refine .of_step (a := .send k) rfl hstep ?_
    cases hpc : c.receiver with
    | recv => exact hrecv ht hc' rfl hpc
    | blocked on => exact absurd hpc (hreceiver on)
    | close => exact absurd hpc hclose
    | exited => exact absurd hpc hexited
    | idle =>
      -- it is not created yet
      have hstage : c.stage = .createReceive := by
        refine (hok.started ?_).1 hpc
        by_contra hunstarted
        rw [(hok.unstarted (Bool.not_eq_false _ ▸ hunstarted)).1] at hquit
        cases hquit
      have hcreate : step t (.chat k) = some (t.setSession k
          { c with stage := .joinSend, sender := .exited, receiver := .recv }) := by
        simp only [step, hc', Option.bind_some, startChatSession, hstage]
      refine .of_step (a := .chat k) rfl hcreate (hrecv (ht.after hcreate)
        (d := { c with stage := .joinSend, sender := .exited, receiver := .recv }) ?_ rfl rfl)
      rw [sessions_setSession hc', if_pos rfl]

theorem doomed_takeMessage {s : ClientProcess} {k : Nat} {c : ChatSession} {line : Bytes}
    (hline : s.typed[s.taken.length]? = some line) (hc : s.sessions[k]? = some c)
    (hno : ¬ s.InTurn (.getline (.sender k)))
    (ht : Machine.Reach (· = start) step
      (({ s with taken := s.taken ++ [Reader.sender k] } : ClientProcess).setSession k
      { c with sender := takeMessage s.taken.length line })) :
    Doomed k (({ s with taken := s.taken ++ [Reader.sender k] } : ClientProcess).setSession k
      { c with sender := takeMessage s.taken.length line }) := by
  have hc' := sessions_setSession (s := { s with taken := s.taken ++ [Reader.sender k] }) hc
    { c with sender := takeMessage s.taken.length line } k
  rw [if_pos rfl] at hc'
  by_cases hover : c.receiver = .close ∨ c.receiver = .exited
  · refine doomed_of_hand ht hc' ?_ hover
    dsimp only
    unfold takeMessage
    split
    · exact .inr ⟨_, rfl⟩
    · exact .inl ⟨_, _, rfl⟩
  · obtain ⟨hclose, hexited⟩ := not_or.1 hover
    have hquit : line = lit "quit" ∧ ∀ on, c.receiver ≠ .blocked on := by
      by_contra hfine
      refine hno (fun d hd => ?_)
      rw [hc] at hd
      cases hd
      refine ⟨hclose, hexited, fun heq => ?_⟩
      rw [hline, Option.some.injEq] at heq
      by_contra hnot
      exact hfine ⟨heq, not_exists.1 hnot⟩
    exact doomed_of_quit ht hc' (i := s.taken.length) (by simp [takeMessage, hquit.1]) hquit.2

/-- What is wrong with a return of `recv` that is not in turn. -/
theorem of_not_inTurn {s : ClientProcess} {k : Nat} {c : ChatSession} {received : Received}
    (hc : s.sessions[k]? = some c) (hno : ¬ s.InTurn (.receive k received)) :
    c.sender = .exited ∨ (∃ i, c.sender = .close i) ∨
      (∀ buffer, received = .data buffer → buffer.length = 0) ∧ ∃ i message, c.sender = .send i message := by
  by_contra hfine
  obtain ⟨hexited, hclose, hsend⟩ : c.sender ≠ .exited ∧ (¬ ∃ i, c.sender = .close i) ∧ _ := by
    simpa only [not_or] using hfine
  refine hno (fun d on' hd _ => ?_)
  rw [hc] at hd
  cases hd
  refine ⟨hexited, not_exists.1 hclose, ?_⟩
  by_contra hneither
  obtain ⟨hdata, hhand⟩ := not_or.1 hneither
  refine hsend ⟨fun buffer hbuffer => ?_, ?_⟩
  · by_contra hne
    exact hdata ⟨buffer, hbuffer, hne⟩
  · by_contra hnone
    exact hhand (fun i message heq => hnone ⟨i, message, heq⟩)

/-- **A step that is not in turn** leaves the threads of its session to call on a socket that is closed. -/
theorem doomed_of_not_inTurn {s t : ClientProcess} (h : Machine.Reach (· = start) step s) {a : Act}
    (hstep : step s a = some t) (hno : ¬ s.InTurn a) : ∃ k, t.Doomed k := by
  have ht := h.after hstep
  have hbroken : ∀ {k : Nat} {c : ChatSession} {received : Received}, s.sessions[k]? = some c →
      a = .receive k received →
      c.sender = .exited → t.Doomed k := by
    rintro k c received hc rfl hexited
    exact ⟨[], t, nofun, rfl, broken_of_not_alone h hstep (fun halone => halone c hc hexited)⟩
  cases step_cases hstep with
  | takeMessage k c line hline hc hpc => exact ⟨k, doomed_takeMessage hline hc hno ht⟩
  | received k buffer c on hc hpc hsize =>
    have hc' := sessions_setSession (s := s.useOn k on) hc { c with receiver := .recv } k
    rw [if_pos rfl] at hc'
    rcases of_not_inTurn hc hno with hexited | ⟨i, hclose⟩ | ⟨hnone, -⟩
    · exact ⟨k, hbroken hc rfl hexited⟩
    · exact ⟨k, doomed_of_quit ht hc' hclose nofun⟩
    · exact absurd (hnone buffer rfl) hsize
  | hangUp k received c on hc hpc hsize =>
    have hc' := sessions_setSession (s := s.useOn k on) hc { c with receiver := .close } k
    rw [if_pos rfl] at hc'
    rcases of_not_inTurn hc hno with hexited | ⟨i, hclose⟩ | ⟨-, hsend⟩
    · exact ⟨k, hbroken hc rfl hexited⟩
    · exact ⟨k, doomed_of_quit ht hc' hclose nofun⟩
    · exact ⟨k, doomed_of_hand ht hc' (.inl hsend) (.inl rfl)⟩
  | recv k received c hc hpc =>
    refine absurd (fun d on hd hon => ?_) hno
    rw [hc] at hd
    cases hd
    rw [hpc] at hon
    cases hon
  | hungUp k received c hc hpc =>
    refine absurd (fun d on hd hon => ?_) hno
    rw [hc] at hd
    cases hd
    rw [hpc] at hon
    cases hon
  | _ => exact absurd trivial hno

/-- **Every session owns its socket as long as its lines and what its peer sends come in turn.**  In a run whose steps
meet `InTurn` every session calls on its own socket only, while it is open, and has closed it exactly once when it is
over; after every other step of any run the threads of a session, left to themselves, may come to a state in which it
does not. -/
theorem sockets_owned (s : ClientProcess) :
    (Machine.ReachIf (· = start) step InTurn s → s.SocketsOwned) ∧
      ∀ (t : ClientProcess) (a : Act), Machine.Reach (· = start) step s → step s a = some t → ¬ s.InTurn a →
        ∃ k as u, (∀ b ∈ as, b.OfSession k) ∧ Machine.exec step t as = some u ∧ ¬ u.SocketsOwned := by
  refine ⟨fun h => (inv_reach (alone_reach h)).socketsOwned, fun t a h hstep hno => ?_⟩
  obtain ⟨k, as, u, has, hu, j, hbroken⟩ := doomed_of_not_inTurn h hstep hno
  exact ⟨k, as, u, has, hu, fun howned => hbroken (howned.whileOpen j)⟩

-- the user quits while the receive thread is in `recv`: the session is over, and its socket is closed once
example : ∃ s, Machine.ReachIf (· = start) step InTurn s ∧ s.sessions.map ChatSession.sender = [.exited] ∧
    Descriptor.ClosedOnce 0 s.ops := by
  let run : List Act := [.listener true, .listener true, .chat 0, .chat 0, .receive 0 .closed, .type (lit "quit"),
    .getline (.sender 0), .send 0]
  have hmeets : Machine.Meets step InTurn start run := by
    refine ⟨trivial, fun _ h => ?_⟩; cases h
    refine ⟨trivial, fun _ h => ?_⟩; cases h
    refine ⟨trivial, fun _ h => ?_⟩; cases h
    refine ⟨trivial, fun _ h => ?_⟩; cases h
    refine ⟨fun c on hc hon => ?_, fun _ h => ?_⟩
    · cases hc; cases hon
    cases h
    refine ⟨trivial, fun _ h => ?_⟩; cases h
    refine ⟨fun c hc => ?_, fun _ h => ?_⟩
    · cases hc; exact ⟨nofun, nofun, fun _ => ⟨_, rfl⟩⟩
    cases h
    exact ⟨trivial, fun _ _ => trivial⟩
  exact ⟨_, .along (fun _ _ h => h) run (.start rfl) hmeets rfl, rfl, rfl⟩

/-- The peer of session 0 hangs up, so the receive thread closes descriptor 5; session 1 is accepted and gets it; the
user types `quit`, and the send thread of session 0 closes it again. -/
theorem other_session_closed : ¬ ∀ s, Machine.Reach (· = start) step s → s.SocketsOwned := by
  intro h
  obtain ⟨s, hs, hcall⟩ : ∃ s, Machine.exec step start
      [.listener true, .listener true, .chat 0, .chat 0, .receive 0 .closed, .receive 0 .closed, .receive 0 .closed,
        .listener true, .type (lit "quit"), .getline (.sender 0), .send 0] = some s ∧
      (⟨0, .closed, some (.session 1)⟩ : SocketCall) ∈ s.calls := ⟨_, rfl, by decide⟩
  have := (h s (.exec _ (.start rfl) hs)).own _ hcall
  cases this

end ClientProcess

end ChatRoom
