import ChatRoom.ChatLines
/-!
# ChatRouting — where a typed line goes

Whoever is at `std::getline` may get the next line.  `Attended`: when a line of a chat is taken nobody but its send
thread is there, nobody else closes the socket of the chat before its send thread has ended, and nobody is in `recv` on
it when that closes it for the `quit`.  In a run where this is so all lines of a chat are sent to it, in order, up to
the first `quit`, which ends it; where it is not, a line may go astray, or the connection stays behind the `quit`
(`lines_routed`).
-/
namespace ChatRoom.ClientProcess

/-- Line `i` was typed after `chatWithClient` returned `true` for the session, and no `quit` was since, but for the line
itself. -/
def InChat (s : ClientProcess) (k i : Nat) : Prop :=
  ∃ p, (k, p) ∈ s.chats ∧ p ≤ i ∧ ∀ j, p ≤ j → j < i → s.typed[j]? ≠ some (lit "quit")

/-- What is to become of a line of a chat. -/
def ownFate (k : Nat) (line : Bytes) : Fate :=
  if line = lit "quit" then .quit k (some (.session k)) else .sent k line (some (.session k))

/-- The connection of the session is closed: no number stands for it, and no `recv` holds it open. -/
structure Released (s : ClientProcess) (k : Nat) : Prop where
  closed : ∀ d, Descriptor.holder s.table d ≠ some (.session k)
  idle : ∀ (j : Nat) (c : ChatSession), s.sessions[j]? = some c → c.receiver ≠ .blocked (some (.session k))

/-- A line of a chat that was taken is with the send thread of the chat or was sent to it, and nothing else became of
it; lines are sent in the order typed; `quit` ends the send thread and the connection. -/
structure LinesRouted (s : ClientProcess) : Prop where
  handled : ∀ k i line, s.InChat k i → s.typed[i]? = some line → i < s.taken.length →
    s.hand (.sender k) = some i ∨ (i, ownFate k line) ∈ s.fates
  fate : ∀ k i line f, s.InChat k i → s.typed[i]? = some line → (i, f) ∈ s.fates → f = ownFate k line
  order : ∀ k, (Intake.settledBy (.sender k) s.settled).Pairwise (· < ·)
  ended : ∀ k i reached, s.InChat k i → (i, .quit k reached) ∈ s.fates → s.sender k = .exited ∧ s.Released k

def AtGetline (s : ClientProcess) : Reader → Prop
  | .main => s.main = .getline
  | .sender k => s.sender k = .getline

/-- `chatWithClient` has the session, or had it and returned `true`. -/
def Outgoing (s : ClientProcess) (k : Nat) : Prop := (∃ p, (k, p) ∈ s.chats) ∨ s.main = .session k ∨ s.main = .detach k

/-- The step is a close of this session. -/
def Closes (s : ClientProcess) (c : ChatSession) : Act → Nat → Prop
  | .main _ _, j => s.main = .session j ∧ c.stage = .drop
  | .listener _, j => s.listener = .session j ∧ c.stage = .drop
  | .send k, j => j = k ∧ ∃ i, c.sender = .close i
  | .receive k _, j => j = k ∧ c.receiver = .close
  | _, _ => False

/-- A line of a chat is taken while only the send thread of the chat is at `std::getline`; the socket of a chat that its
send thread has not left is closed by that thread only, or where it is dropped; and when that thread closes it for the
`quit` of the chat nobody is in `recv` on it. -/
structure Attended (s : ClientProcess) (a : Act) : Prop where
  alone : ∀ r k, a = .getline r → s.InChat k s.taken.length → ∀ r', s.AtGetline r' → r' = .sender k
  kept : ∀ (j : Nat) (c : ChatSession), s.sessions[j]? = some c → s.Closes c a j → ∀ k,
    s.reached c = some (.session k) → s.Outgoing k → s.sender k = .exited ∨ j = k ∧ ∀ received, a ≠ .receive k received
  idle : ∀ (k i : Nat) (c : ChatSession), a = .send k → s.sessions[k]? = some c → c.sender = .close i → s.InChat k i →
    ∀ (j : Nat) (d : ChatSession), s.sessions[j]? = some d → d.receiver ≠ .blocked (some (.session k))

/-! ## Whose the numbers are -/

/-- A number that stands for a session is the session's. -/
def Numbered (s : ClientProcess) : Prop := ∀ d k, Descriptor.holder s.table d = some (.session k) →
  ∃ c, s.sessions[k]? = some c ∧ c.socket = d

theorem numbered_setSession {s : ClientProcess} (hs : s.Numbered) {k : Nat} {c c' : ChatSession}
    (hc : s.sessions[k]? = some c) (hsocket : c'.socket = c.socket) : (s.setSession k c').Numbered := by
  intro d j hd
  obtain ⟨e, he, hsock⟩ := hs d j hd
  rw [sessions_setSession hc]
  by_cases hj : k = j
  · subst hj
    rw [hc] at he
    cases he
    exact ⟨c', if_pos rfl, hsocket.trans hsock⟩
  · exact ⟨e, (if_neg hj).trans he, hsock⟩

theorem numbered_close {s : ClientProcess} (hs : s.Numbered) (k : Nat) (c : ChatSession) : (s.close k c).Numbered := by
  intro d j hd
  have hd : Descriptor.holder (Descriptor.release s.table c.socket) d = some (.session j) := hd
  rw [Descriptor.holder_release] at hd
  split at hd
  · cases hd
  · exact hs d j hd

theorem numbered_openSession {s : ClientProcess} (hs : s.Numbered) (stage : LaunchStage) :
    (s.openSession stage).Numbered := by
  intro d j hd
  have hd : Descriptor.holder (Descriptor.allocate (.session s.sessions.length) s.table) d = some (.session j) := hd
  rw [Descriptor.holder_allocate] at hd
  unfold openSession
  dsimp only
  split at hd
  · rename_i heq
    cases hd
    exact ⟨_, List.getElem?_concat_length, heq.symm⟩
  · obtain ⟨c, hc, hsocket⟩ := hs d j hd
    exact ⟨c, by rw [List.getElem?_append_left (List.getElem?_eq_some_iff.1 hc).1, hc], hsocket⟩

theorem numbered_launch {s t : ClientProcess} {k : Nat} (hs : s.Numbered) (h : Launch s k t) : t.Numbered := by
  cases h with
  | connect c stage hc hpc hnext => exact numbered_setSession (s := s.use k c) hs hc rfl
  | create c stage hc hpc hnext => exact numbered_setSession hs hc rfl
  | drop c hc hpc => exact numbered_setSession (s := s.close k c) (numbered_close hs k c) hc rfl

theorem numbered_step {s t : ClientProcess} {a : Act} (hs : s.Numbered) (h : Step s a t) : t.Numbered := by
  cases h with
  | socket received ok hpc => exact numbered_openSession hs _
  | accepted ok hpc => exact numbered_openSession hs _
  | mainLaunches received ok k u main hpc hlaunch hmain =>
    have hu := numbered_launch hs hlaunch
    exact hu
  | listenerLaunches ok k u listener hpc hlaunch =>
    have hu := numbered_launch hs hlaunch
    exact hu
  | takeMessage k c line hline hc hpc =>
    exact numbered_setSession (s := { s with taken := s.taken ++ [Reader.sender k] }) hs hc rfl
  | createSend k c hc hpc => exact numbered_setSession hs hc rfl
  | createReceive k c hc hpc => exact numbered_setSession hs hc rfl
  | join k c stage hc hpc hnext => exact numbered_setSession hs hc rfl
  | send k c i message hc hpc => exact numbered_setSession (s := (s.use k c).settle i _) hs hc rfl
  | quit k c i hc hpc => exact numbered_setSession (s := (s.close k c).settle i _) (numbered_close hs k c) hc rfl
  | recv k received c hc hpc => exact numbered_setSession (s := s.use k c) hs hc rfl
  | received k buffer c on hc hpc hsize => exact numbered_setSession (s := s.useOn k on) hs hc rfl
  | hangUp k received c on hc hpc hsize => exact numbered_setSession (s := s.useOn k on) hs hc rfl
  | hungUp k received c hc hpc => exact numbered_setSession (s := s.close k c) (numbered_close hs k c) hc rfl
  | _ => exact hs

theorem numbered_start : start.Numbered := by
  intro d k hd
  have hmem : some (Holder.session k) ∈ start.table := by
    unfold Descriptor.holder at hd
    rw [Option.join_eq_some_iff] at hd
    exact List.mem_of_getElem? hd
  simp [start] at hmem

theorem numbered_reach {ok : ClientProcess → Act → Prop} {s : ClientProcess}
    (h : Machine.ReachIf (· = start) step ok s) : s.Numbered :=
  h.invariant (by rintro _ rfl; exact numbered_start) (fun _ _ _ hs _ hstep => numbered_step hs (step_cases hstep))

/-- The socket of a chat that its send thread has not left is the chat's. -/
def Kept (s : ClientProcess) : Prop := ∀ (k : Nat) (c : ChatSession), s.sessions[k]? = some c → s.Outgoing k →
  c.sender ≠ .exited → c.stage ≠ .dropped → s.reached c = some (.session k)

theorem kept_of_eq {s t : ClientProcess} (hs : s.Kept) (htable : t.table = s.table)
    (hsessions : t.sessions = s.sessions)
    (houtgoing : ∀ k, t.Outgoing k → s.Outgoing k) : t.Kept := by
  intro k c hc hk hsender hstage
  rw [hsessions] at hc
  unfold reached
  rw [htable]
  exact hs k c hc (houtgoing k hk) hsender hstage

theorem kept_setSession {s : ClientProcess} (hs : s.Kept) {k : Nat} {c c' : ChatSession} (hc : s.sessions[k]? = some c)
    (hsocket : c'.socket = c.socket) (hsender : c'.sender ≠ .exited → c.sender ≠ .exited)
    (hstage : c'.stage ≠ .dropped → c.stage ≠ .dropped) : (s.setSession k c').Kept := by
  refine forall_setSession hc (fun hk hsender' hstage' => ?_) (fun j d _ hd => hs j d hd)
  unfold reached
  rw [hsocket]
  exact hs k c hc hk (hsender hsender') (hstage hstage')

/-- A close that spares the chats, and what its thread comes to. -/
theorem kept_close {s : ClientProcess} (hs : s.Kept) {j : Nat} {c c' : ChatSession} (hc : s.sessions[j]? = some c)
    (hover : s.Outgoing j → s.reached c = some (.session j) → c'.sender = .exited ∨ c'.stage = .dropped)
    (hleft : c'.sender ≠ .exited → c'.stage ≠ .dropped → c.sender ≠ .exited ∧ c.stage ≠ .dropped)
    (hspared : ∀ k ≠ j, s.reached c = some (.session k) → s.Outgoing k → s.sender k = .exited) :
    ((s.close j c).setSession j c').Kept := by
  refine forall_setSession (s := s.close j c) hc (fun hk hsender hstage => ?_) (fun k d hk hd hout hsender hstage => ?_)
  · obtain ⟨hsender', hstage'⟩ := hleft hsender hstage
    rcases hover hk (hs j c hc hk hsender' hstage') with h | h
    · exact absurd h hsender
    · exact absurd h hstage
  · have hheld := hs k d hd hout hsender hstage
    have hne : d.socket ≠ c.socket := by
      intro heq
      unfold reached at hheld hspared
      rw [heq] at hheld
      have hexited := hspared k hk hheld hout
      rw [sender_eq (s := s) hd] at hexited
      exact hsender hexited
    show Descriptor.holder (Descriptor.release s.table c.socket) d.socket = some (.session k)
    rw [Descriptor.holder_release, if_neg hne]
    exact hheld

theorem kept_openSession {s : ClientProcess} (hs : s.Kept) (stage : LaunchStage) {t : ClientProcess}
    (htable : t.table = (s.openSession stage).table) (hsessions : t.sessions = (s.openSession stage).sessions)
    (houtgoing : ∀ k, k < s.sessions.length → t.Outgoing k → s.Outgoing k) : t.Kept := by
  unfold Kept reached
  rw [htable, hsessions]
  refine forall_openSession (fun _ _ _ => ?_) (fun k d hd hout hsender hstage => ?_)
  · show Descriptor.holder (Descriptor.allocate _ s.table) (Descriptor.lowest s.table) = _
    rw [Descriptor.holder_allocate, if_pos rfl]
  · have hheld := hs k d hd (houtgoing k (List.getElem?_eq_some_iff.1 hd).1 hout) hsender hstage
    have hne : d.socket ≠ Descriptor.lowest s.table := by
      intro heq
      unfold reached at hheld
      rw [heq, (Descriptor.lowest_least s.table).1] at hheld
      cases hheld
    show Descriptor.holder (Descriptor.allocate _ s.table) d.socket = _
    rw [Descriptor.holder_allocate, if_neg hne]
    exact hheld

/-- A session that is launched has no thread yet. -/
theorem kept_launch {s t : ClientProcess} {k : Nat} (hs : s.Kept) (h : Launch s k t)
    (hspared : ∀ c, s.sessions[k]? = some c → c.stage = .drop → ∀ j ≠ k, s.reached c = some (.session j) →
      s.Outgoing j → s.sender j = .exited) : t.Kept := by
  cases h with
  | connect c stage hc hpc hnext =>
    exact kept_setSession (s := s.use k c) hs hc rfl id (fun _ => by rw [hpc]; exact nofun)
  | create c stage hc hpc hnext => exact kept_setSession hs hc rfl id (fun _ => by rw [hpc]; exact nofun)
  | drop c hc hpc => exact kept_close hs hc (fun _ _ => .inr rfl) (fun _ hno => absurd rfl hno) (hspared c hc hpc)

/-- A close that attends to the chats spares those of the other sessions. -/
theorem Attended.spared {s : ClientProcess} {a : Act} (hatt : s.Attended a) {k : Nat} {c : ChatSession}
    (hc : s.sessions[k]? = some c) (hcloses : s.Closes c a k) :
    ∀ j ≠ k, s.reached c = some (.session j) → s.Outgoing j → s.sender j = .exited := by
  intro j hj hreached hout
  rcases hatt.kept k c hc hcloses j hreached hout with hexited | ⟨heq, -⟩
  · exact hexited
  · exact absurd heq.symm hj

/-- Past the launch `main` has no session in hand but the one it launched. -/
theorem outgoing_of_launched {s : ClientProcess} {k : Nat} {main : MainPc} (hpc : s.main = .session k)
    (hmain : main = .session k ∨ main = .detach k ∨ main = .getline) :
    ∀ j, ((∃ p, (j, p) ∈ s.chats) ∨ main = .session j ∨ main = .detach j) → s.Outgoing j := by
  rintro j (hout | rfl | rfl)
  · exact .inl hout
  · rcases hmain with hmain | hmain | hmain
    · exact .inr (.inl (hpc.trans hmain.symm))
    · cases hmain
    · cases hmain
  · rcases hmain with hmain | hmain | hmain
    · cases hmain
    · cases hmain
      exact .inr (.inl hpc)
    · cases hmain

/-- **A step that attends to the chats keeps their sockets.** -/
theorem kept_step {s t : ClientProcess} {a : Act} (hok : s.SessionsOk) (hs : s.Kept) (hatt : s.Attended a)
    (h : Step s a t) : t.Kept := by
  -- `main` has no session in hand after the step
  have hfree : ∀ {main : MainPc}, (∀ k, main ≠ .session k ∧ main ≠ .detach k) →
      ∀ k, ((∃ p, (k, p) ∈ s.chats) ∨ main = .session k ∨ main = .detach k) → s.Outgoing k := by
    rintro main hmain k (hk | hk | hk)
    · exact .inl hk
    · exact absurd hk (hmain k).1
    · exact absurd hk (hmain k).2
  cases h with
  | type line => exact kept_of_eq hs rfl rfl (fun _ => id)
  | takeCommand line hline hpc => exact kept_of_eq hs rfl rfl (hfree (fun _ => ⟨nofun, nofun⟩))
  | takeMessage k c line hline hc hpc =>
    exact kept_setSession (s := { s with taken := s.taken ++ [Reader.sender k] }) hs hc rfl
      (fun _ => by rw [hpc]; exact nofun) id
  | execute received ok i line hpc =>
    refine kept_of_eq hs rfl rfl (hfree (fun k => ?_))
    unfold afterCommand
    split <;> exact ⟨nofun, nofun⟩
  | mainMoves received ok main hpc hmain =>
    exact kept_of_eq hs rfl rfl (hfree (fun _ => by rcases hmain with rfl | rfl | rfl <;> exact ⟨nofun, nofun⟩))
  | socket received ok hpc =>
    refine kept_openSession hs .connect rfl rfl (fun k hk => ?_)
    rintro (hout | hout | hout)
    · exact .inl hout
    · cases hout
      exact absurd hk (Nat.lt_irrefl _)
    · cases hout
  | mainLaunches received ok k u main hpc hlaunch hmain =>
    have hu := kept_launch hs hlaunch (fun c hc hdrop => hatt.spared hc ⟨hpc, hdrop⟩)
    have hmain' : u.main = .session k := by cases hlaunch <;> exact hpc
    exact kept_of_eq hu rfl rfl (outgoing_of_launched hmain' hmain)
  | detach received ok k hpc =>
    refine kept_of_eq hs rfl rfl (fun j hout => ?_)
    rcases hout with ⟨p, hp⟩ | hout | hout
    · rcases List.mem_append.1 hp with hp | hp
      · exact .inl ⟨p, hp⟩
      · cases List.mem_singleton.1 hp
        exact .inr (.inr hpc)
    · cases hout
    · cases hout
  | acceptFailed ok hpc => exact hs
  | accepted ok hpc => exact kept_openSession hs .create rfl rfl (fun _ _ => id)
  | listenerLaunches ok k u listener hpc hlaunch =>
    have hu := kept_launch hs hlaunch (fun c hc hdrop => hatt.spared hc ⟨hpc, hdrop⟩)
    exact hu
  | createSend k c hc hpc =>
    exact kept_setSession hs hc rfl (fun _ => by rw [((hok k c hc).unstarted (by rw [hpc]; rfl)).1]; exact nofun)
      (fun _ => by rw [hpc]; exact nofun)
  | createReceive k c hc hpc => exact kept_setSession hs hc rfl id (fun _ => by rw [hpc]; exact nofun)
  | join k c stage hc hpc hnext =>
    exact kept_setSession hs hc rfl id (fun _ => by rcases hpc with hpc | hpc <;> (rw [hpc]; exact nofun))
  | send k c i message hc hpc =>
    exact kept_setSession (s := (s.use k c).settle i _) hs hc rfl (fun _ => by rw [hpc]; exact nofun) id
  | quit k c i hc hpc =>
    have hclose : ((s.close k c).setSession k { c with sender := .exited }).Kept :=
      kept_close hs hc (fun _ _ => .inl rfl) (fun hno _ => absurd rfl hno) (hatt.spared hc ⟨rfl, i, hpc⟩)
    exact hclose
  | recv k received c hc hpc => exact kept_setSession (s := s.use k c) hs hc rfl id id
  | received k buffer c on hc hpc hsize => exact kept_setSession (s := s.useOn k on) hs hc rfl id id
  | hangUp k received c on hc hpc hsize => exact kept_setSession (s := s.useOn k on) hs hc rfl id id
  | hungUp k received c hc hpc =>
    refine kept_close hs hc (fun hout hreached => .inl ?_) (fun h h' => ⟨h, h'⟩) (hatt.spared hc ⟨rfl, hpc⟩)
    rcases hatt.kept k c hc ⟨rfl, hpc⟩ k hreached hout with hexited | ⟨-, hno⟩
    · exact (sender_eq hc).symm.trans hexited
    · exact absurd rfl (hno received)

/-! ## Connections that are closed -/

theorem released_setSession {s : ClientProcess} {k j : Nat} {c c' : ChatSession} (hs : s.Released k)
    (hc : s.sessions[j]? = some c) (hidle : c'.receiver ≠ .blocked (some (.session k))) :
    (s.setSession j c').Released k where
  closed := hs.closed
  idle := forall_setSession hc hidle (fun i d _ hd => hs.idle i d hd)

theorem released_close {s : ClientProcess} {k : Nat} (hs : s.Released k) (j : Nat) (c : ChatSession) :
    (s.close j c).Released k where
  closed := by
    intro d hd
    have hd : Descriptor.holder (Descriptor.release s.table c.socket) d = some (.session k) := hd
    rw [Descriptor.holder_release] at hd
    split at hd
    · cases hd
    · exact hs.closed d hd
  idle := hs.idle

theorem released_openSession {s : ClientProcess} {k : Nat} (hk : k < s.sessions.length) (hs : s.Released k)
    (stage : LaunchStage) : (s.openSession stage).Released k where
  closed := by
    intro d hd
    have hd : Descriptor.holder (Descriptor.allocate (.session s.sessions.length) s.table) d = some (.session k) := hd
    rw [Descriptor.holder_allocate] at hd
    split at hd
    · cases hd
      exact absurd hk (Nat.lt_irrefl _)
    · exact hs.closed d hd
  idle := forall_openSession nofun (fun j d hd => hs.idle j d hd)

theorem released_launch {s t : ClientProcess} {k j : Nat} (hs : s.Released k) (h : Launch s j t) : t.Released k := by
  cases h with
  | connect c stage hc hpc hnext =>
    exact released_setSession (s := s.use j c) ⟨hs.closed, hs.idle⟩ hc (hs.idle j c hc)
  | create c stage hc hpc hnext => exact released_setSession hs hc (hs.idle j c hc)
  | drop c hc hpc => exact released_setSession (released_close hs j c) hc (hs.idle j c hc)

/-- **A connection that is closed stays closed.** -/
theorem released_step {s t : ClientProcess} {a : Act} {k : Nat} (hk : k < s.sessions.length) (hs : s.Released k)
    (h : Step s a t) : t.Released k := by
  cases h with
  | socket received ok hpc =>
    have hopen := released_openSession hk hs .connect
    exact ⟨hopen.closed, hopen.idle⟩
  | accepted ok hpc =>
    have hopen := released_openSession hk hs .create
    exact ⟨hopen.closed, hopen.idle⟩
  | mainLaunches received ok j u main hpc hlaunch hmain =>
    have hu := released_launch hs hlaunch
    exact ⟨hu.closed, hu.idle⟩
  | listenerLaunches ok j u listener hpc hlaunch =>
    have hu := released_launch hs hlaunch
    exact ⟨hu.closed, hu.idle⟩
  | takeMessage j c line hline hc hpc =>
    exact released_setSession (s := { s with taken := s.taken ++ [Reader.sender j] }) ⟨hs.closed, hs.idle⟩ hc
      (hs.idle j c hc)
  | createSend j c hc hpc => exact released_setSession hs hc (hs.idle j c hc)
  | createReceive j c hc hpc => exact released_setSession hs hc nofun
  | join j c stage hc hpc hnext => exact released_setSession hs hc (hs.idle j c hc)
  | send j c i message hc hpc =>
    exact released_setSession (s := (s.use j c).settle i _) ⟨hs.closed, hs.idle⟩ hc (hs.idle j c hc)
  | quit j c i hc hpc =>
    have hclose := released_close hs j c
    exact released_setSession (s := (s.close j c).settle i _) ⟨hclose.closed, hclose.idle⟩ hc (hs.idle j c hc)
  | recv j received c hc hpc =>
    refine released_setSession (s := s.use j c) ⟨hs.closed, hs.idle⟩ hc (fun hblocked => ?_)
    exact hs.closed c.socket (ReceiverPc.blocked.inj hblocked)
  | received j buffer c on hc hpc hsize =>
    exact released_setSession (s := s.useOn j on) ⟨hs.closed, hs.idle⟩ hc nofun
  | hangUp j received c on hc hpc hsize =>
    exact released_setSession (s := s.useOn j on) ⟨hs.closed, hs.idle⟩ hc nofun
  | hungUp j received c hc hpc => exact released_setSession (released_close hs j c) hc nofun
  | _ => exact ⟨hs.closed, hs.idle⟩

/-- **The close of its number closes the connection** that nobody is in `recv` on. -/
theorem released_of_close {s : ClientProcess} (hs : s.Numbered) {k : Nat} {c : ChatSession}
    (hc : s.sessions[k]? = some c)
    (hidle : ∀ (j : Nat) (d : ChatSession), s.sessions[j]? = some d → d.receiver ≠ .blocked (some (.session k))) :
    (s.close k c).Released k where
  closed := by
    intro d hd
    have hd : Descriptor.holder (Descriptor.release s.table c.socket) d = some (.session k) := hd
    rw [Descriptor.holder_release] at hd
    split at hd
    · cases hd
    · rename_i hne
      obtain ⟨c', hc', hsocket⟩ := hs d k hd
      rw [hc] at hc'
      cases hc'
      exact hne hsocket.symm
  idle := hidle

/-! ## Runs in which every chat is attended -/

structure Heard (s : ClientProcess) : Prop where
  taker : ∀ k i r, s.InChat k i → s.taken[i]? = some r → r = .sender k
  own : ∀ k i f, s.InChat k i → (i, f) ∈ s.fates → f.reader = .sender k → f.reached = some (.session k)
  released : ∀ k i reached, s.InChat k i → (i, .quit k reached) ∈ s.fates → s.Released k

/-- A line that was typed gets into no chat later. -/
theorem inChat_step {s t : ClientProcess} {a : Act} (h : Step s a t) {k i : Nat} (hi : i < s.typed.length)
    (ht : t.InChat k i) : s.InChat k i := by
  cases h with
  | type line =>
    obtain ⟨p, hp, hle, hno⟩ := ht
    refine ⟨p, hp, hle, fun j hpj hji => ?_⟩
    have hsame : (s.typed ++ [line])[j]? = s.typed[j]? := List.getElem?_append_left (Nat.lt_trans hji hi)
    rw [← hsame]
    exact hno j hpj hji
  | detach received ok k' hpc =>
    obtain ⟨p, hp, hle, hno⟩ := ht
    rcases List.mem_append.1 hp with hp | hp
    · exact ⟨p, hp, hle, hno⟩
    · cases List.mem_singleton.1 hp
      exact absurd hi (Nat.not_lt.2 hle)
  | mainLaunches received ok k' u main hpc hlaunch hmain => cases hlaunch <;> exact ht
  | listenerLaunches ok k' u listener hpc hlaunch => cases hlaunch <;> exact ht
  | _ => exact ht

theorem Lines.lt_sessions {s : ClientProcess} (hs : s.Lines) {k i : Nat} {reached : Option Holder}
    (h : (i, .quit k reached) ∈ s.fates) : k < s.sessions.length := by
  by_contra hk
  have hexited := hs.ended k i reached h
  unfold sender at hexited
  rw [List.getElem?_eq_none (Nat.le_of_not_lt hk)] at hexited
  cases hexited

theorem heard_of_eq {s t : ClientProcess} {a : Act} (hl : s.Lines) (hs : s.Heard) (h : Step s a t)
    (htaken : t.taken = s.taken) (hfates : t.fates = s.fates) : t.Heard where
  taker := by
    intro k i r hchat hr
    rw [htaken] at hr
    exact hs.taker k i r (inChat_step h (hl.lt_typed hr) hchat) hr
  own := by
    intro k i f hchat hf
    rw [hfates] at hf
    exact hs.own k i f (inChat_step h (hl.lt_typed (hl.taken_of_fate hf)) hchat) hf
  released := by
    intro k i reached hchat hf
    rw [hfates] at hf
    have hbefore := hs.released k i reached (inChat_step h (hl.lt_typed (hl.taken_of_fate hf)) hchat) hf
    exact released_step (hl.lt_sessions hf) hbefore h

theorem heard_take {s t : ClientProcess} {a : Act} {r : Reader} {line : Bytes} (hl : s.Lines) (hs : s.Heard)
    (h : Step s a t) (htaken : t.taken = s.taken ++ [r]) (hfates : t.fates = s.fates)
    (hline : s.typed[s.taken.length]? = some line) (hr : ∀ k, s.InChat k s.taken.length → r = .sender k) : t.Heard where
  taker := by
    intro k i r' hchat hr'
    rw [htaken] at hr'
    rcases Intake.of_concat hr' with hr' | ⟨rfl, rfl⟩
    · exact hs.taker k i r' (inChat_step h (hl.lt_typed hr') hchat) hr'
    · exact hr k (inChat_step h (Intake.lt_of_taken hline) hchat)
  own := by
    intro k i f hchat hf
    rw [hfates] at hf
    exact hs.own k i f (inChat_step h (hl.lt_typed (hl.taken_of_fate hf)) hchat) hf
  released := by
    intro k i reached hchat hf
    rw [hfates] at hf
    have hbefore := hs.released k i reached (inChat_step h (hl.lt_typed (hl.taken_of_fate hf)) hchat) hf
    exact released_step (hl.lt_sessions hf) hbefore h

theorem heard_settle {s t : ClientProcess} {a : Act} {i : Nat} {f : Fate} (hl : s.Lines) (hs : s.Heard) (h : Step s a t)
    (htaken : t.taken = s.taken) (hfates : t.fates = s.fates ++ [(i, f)]) (hhand : s.hand f.reader = some i)
    (hf : ∀ k, s.InChat k i → f.reader = .sender k → f.reached = some (.session k))
    (hquit : ∀ k reached, s.InChat k i → f = .quit k reached → t.Released k) : t.Heard where
  taker := by
    intro k j r hchat hr
    rw [htaken] at hr
    exact hs.taker k j r (inChat_step h (hl.lt_typed hr) hchat) hr
  own := by
    intro k j g hchat hg
    rw [hfates] at hg
    rcases List.mem_append.1 hg with hg | hg
    · exact hs.own k j g (inChat_step h (hl.lt_typed (hl.taken_of_fate hg)) hchat) hg
    · cases List.mem_singleton.1 hg
      exact hf k (inChat_step h (hl.lt_typed (hl.ledger.held _ _ hhand)) hchat)
  released := by
    intro k j reached hchat hg
    rw [hfates] at hg
    rcases List.mem_append.1 hg with hg | hg
    · have hbefore := hs.released k j reached (inChat_step h (hl.lt_typed (hl.taken_of_fate hg)) hchat) hg
      exact released_step (hl.lt_sessions hg) hbefore h
    · cases List.mem_singleton.1 hg
      exact hquit k reached (inChat_step h (hl.lt_typed (hl.ledger.held _ _ hhand)) hchat) rfl

theorem InChat.outgoing {s : ClientProcess} {k i : Nat} (h : s.InChat k i) : s.Outgoing k := by
  obtain ⟨p, hp, -⟩ := h
  exact .inl ⟨p, hp⟩

/-- **A step keeps the chats heard**, if they are attended. -/
theorem heard_step {s t : ClientProcess} {a : Act} (hok : s.SessionsOk) (hn : s.Numbered) (hk : s.Kept) (hl : s.Lines)
    (hs : s.Heard) (hatt : s.Attended a) (h : Step s a t) : t.Heard := by
  have hstep := h
  -- a send thread that runs has its chat's socket
  have hheld : ∀ {k i : Nat} {c : ChatSession}, s.sessions[k]? = some c → c.sender ≠ .idle → c.sender ≠ .exited →
      s.InChat k i → s.reached c = some (.session k) :=
    fun hc hidle hexited hchat => hk _ _ hc hchat.outgoing hexited ((hok _ _ hc).stage (.inl hidle))
  cases h with
  | takeCommand line hline hpc =>
    exact heard_take hl hs hstep rfl rfl hline (fun k hchat => hatt.alone .main k rfl hchat .main hpc)
  | takeMessage k c line hline hc hpc =>
    exact heard_take hl hs hstep rfl rfl hline
      (fun j hchat => hatt.alone (.sender k) j rfl hchat (.sender k) ((sender_eq hc).trans hpc))
  | execute received ok i line hpc =>
    exact heard_settle (f := .executed) hl hs hstep rfl rfl (congrArg MainPc.hand hpc) nofun nofun
  | send k c i message hc hpc =>
    have hhand : c.sender.hand = some i := by rw [hpc]; rfl
    refine heard_settle (f := .sent k message (s.reached c)) hl hs hstep rfl rfl
      ((congrArg SenderPc.hand (sender_eq hc)).trans hhand) (fun j hchat hj => ?_) nofun
    cases hj
    exact hheld hc (by rw [hpc]; exact nofun) (by rw [hpc]; exact nofun) hchat
  | quit k c i hc hpc =>
    have hhand : c.sender.hand = some i := by rw [hpc]; rfl
    refine heard_settle (f := .quit k (s.reached c)) hl hs hstep rfl rfl
      ((congrArg SenderPc.hand (sender_eq hc)).trans hhand) (fun j hchat hj => ?_) (fun j reached hchat hj => ?_)
    · cases hj
      exact hheld hc (by rw [hpc]; exact nofun) (by rw [hpc]; exact nofun) hchat
    · cases hj
      have hidle := hatt.idle k i c rfl hc hpc hchat
      have hclose := released_of_close hn hc hidle
      exact released_setSession (s := (s.close k c).settle i _) ⟨hclose.closed, hclose.idle⟩ hc (hidle k c hc)
  | mainLaunches received ok k u main hpc hlaunch hmain =>
    refine heard_of_eq hl hs hstep ?_ ?_ <;> cases hlaunch <;> rfl
  | listenerLaunches ok k u listener hpc hlaunch =>
    refine heard_of_eq hl hs hstep ?_ ?_ <;> cases hlaunch <;> rfl
  | _ => exact heard_of_eq hl hs hstep rfl rfl

theorem kept_reach {s : ClientProcess} (h : Machine.ReachIf (· = start) step Attended s) : s.Kept :=
  h.invariant_under (J := SessionsOk) (fun _ => ok_reach) (by rintro _ rfl; exact nofun)
    (fun _ _ _ hok hs hatt hstep => kept_step hok hs hatt (step_cases hstep))

theorem heard_reach {s : ClientProcess} (h : Machine.ReachIf (· = start) step Attended s) : s.Heard :=
  h.invariant_under (J := fun s => s.SessionsOk ∧ s.Numbered ∧ s.Kept ∧ s.Lines)
    (fun _ h => ⟨ok_reach h, numbered_reach h, kept_reach h, lines_reach h⟩)
    (by rintro _ rfl; exact ⟨nofun, nofun, nofun⟩)
    (fun _ _ _ hJ hs hatt hstep => heard_step hJ.1 hJ.2.1 hJ.2.2.1 hJ.2.2.2 hs hatt (step_cases hstep))

theorem eq_ownFate {typed : List Bytes} {k i : Nat} {line : Bytes} {f : Fate} (hline : typed[i]? = some line)
    (hreader : f.reader = .sender k) (hreached : f.reached = some (.session k)) (hreads : f.Reads typed i) :
    f = ownFate k line := by
  unfold ownFate
  cases f with
  | executed => cases hreader
  | sent j message reached =>
    obtain ⟨hmessage, hne⟩ := hreads
    rw [hline] at hmessage
    cases hmessage
    cases hreader
    cases hreached
    rw [if_neg hne]
  | quit j reached =>
    have hquit : typed[i]? = some (lit "quit") := hreads
    rw [hline] at hquit
    cases hquit
    cases hreader
    cases hreached
    rw [if_pos rfl]

theorem Heard.linesRouted {s : ClientProcess} (hl : s.Lines) (hs : s.Heard) : s.LinesRouted := by
  have hfate : ∀ k i line f, s.InChat k i → s.typed[i]? = some line → (i, f) ∈ s.fates → f = ownFate k line := by
    intro k i line f hchat hline hf
    have hreader := hs.taker k i _ hchat (hl.taken_of_fate hf)
    exact eq_ownFate hline hreader (hs.own k i f hchat hf hreader) (hl.fateReads i f hf)
  refine ⟨fun k i line hchat hline hi => ?_, hfate, fun k => hl.ledger.settledBy_sorted (.sender k),
    fun k i reached hchat hf => ⟨hl.ended k i reached hf, hs.released k i reached hchat hf⟩⟩
  have htaken := List.getElem?_eq_getElem hi
  have hreader := hs.taker k i _ hchat htaken
  rw [hreader] at htaken
  rcases hl.ledger.accounted i _ htaken with hhand | hsettled
  · exact .inl hhand
  · obtain ⟨⟨j, f⟩, hf, heq⟩ := List.mem_map.1 hsettled
    obtain ⟨rfl, -⟩ := Prod.mk.inj heq
    exact .inr (hfate k j line f hchat hline hf ▸ hf)

theorem reached_ownFate (k : Nat) (line : Bytes) : (ownFate k line).reached = some (.session k) := by
  unfold ownFate
  split <;> rfl

/-- A line taken by another thread is not with the send thread of the chat. -/
theorem not_routed_take {s t : ClientProcess} {r : Reader} {line : Bytes} {k : Nat} (hl : s.Lines)
    (hchat : t.InChat k s.taken.length) (hline : t.typed[s.taken.length]? = some line)
    (htaken : t.taken = s.taken ++ [r]) (hfates : t.fates = s.fates) (hhand : t.hand (.sender k) = s.hand (.sender k)) :
    ¬ t.LinesRouted := by
  intro hrouted
  have hnew : s.taken[s.taken.length]? = none := List.getElem?_eq_none (Nat.le_refl _)
  rcases hrouted.handled k s.taken.length line hchat hline (by rw [htaken]; simp) with hheld | hfate
  · rw [hhand] at hheld
    have := hl.ledger.held _ _ hheld
    rw [hnew] at this
    cases this
  · rw [hfates] at hfate
    have := hl.taken_of_fate hfate
    rw [hnew] at this
    cases this

/-- A line of a chat that was sent or closed for on another number is misrouted. -/
theorem not_routed_fate {t : ClientProcess} {k i : Nat} {line : Bytes} {f : Fate} (hchat : t.InChat k i)
    (hline : t.typed[i]? = some line) (hf : (i, f) ∈ t.fates) (hne : f.reached ≠ some (.session k)) :
    ¬ t.LinesRouted := by
  intro hrouted
  rw [hrouted.fate k i line f hchat hline hf] at hne
  exact hne (reached_ownFate k line)

/-- The step, not one of its send thread, closes the socket of a chat that that has not left. -/
def Robs (s : ClientProcess) (a : Act) (t : ClientProcess) : Prop := ∃ (k : Nat) (c : ChatSession),
  s.sessions[k]? = some c ∧ s.Outgoing k ∧ c.sender ≠ .exited ∧ a ≠ .send k ∧
    s.reached c = some (.session k) ∧ t.reached c = none

/-- Somebody else is at `std::getline` for a line of a chat, and may get it. -/
theorem misrouted_of_reader {s : ClientProcess} (hl : s.Lines) {k : Nat} {line : Bytes}
    (hchat : s.InChat k s.taken.length) (hline : s.typed[s.taken.length]? = some line) {r : Reader} (hr : s.AtGetline r)
    (hne : r ≠ .sender k) : ∃ u, step s (.getline r) = some u ∧ ¬ u.LinesRouted := by
  cases r with
  | main =>
    have hpc : s.main = .getline := hr
    exact ⟨{ s with taken := s.taken ++ [Reader.main], main := .command s.taken.length line },
      by simp only [step, getline, hline, hpc], not_routed_take hl hchat hline rfl rfl rfl⟩
  | sender j =>
    obtain ⟨c, hc⟩ : ∃ c, s.sessions[j]? = some c := by
      by_contra hnone
      have hr : s.sender j = .getline := hr
      unfold sender at hr
      rw [Option.eq_none_iff_forall_ne_some.2 (fun c hc => hnone ⟨c, hc⟩)] at hr
      cases hr
    have hpc : c.sender = .getline := (sender_eq hc).symm.trans hr
    refine ⟨({ s with taken := s.taken ++ [Reader.sender j] } : ClientProcess).setSession j
      { c with sender := takeMessage s.taken.length line }, by simp only [step, getline, hline, hc, hpc],
      not_routed_take hl hchat hline rfl rfl (congrArg SenderPc.hand ?_)⟩
    rw [sender_setSession (s := { s with taken := s.taken ++ [Reader.sender j] }) hc]
    exact Function.update_of_ne (fun hk => hne (by rw [hk])) ..

/-- The close of a step frees the number. -/
theorem reached_closes {s t : ClientProcess} {a : Act} {j : Nat} {c : ChatSession} (hc : s.sessions[j]? = some c)
    (hcloses : s.Closes c a j) (h : Step s a t) {d : ChatSession} (hsocket : d.socket = c.socket) :
    t.reached d = none := by
  have hfreed : Descriptor.holder (Descriptor.release s.table c.socket) d.socket = none := by
    rw [Descriptor.holder_release, if_pos hsocket]
  have hlaunch : ∀ {u : ClientProcess}, Launch s j u → c.stage = .drop → u.reached d = none := by
    intro u hu hdrop
    cases hu with
    | connect c' stage hc' hpc => rw [hc] at hc'; cases hc'; rw [hdrop] at hpc; cases hpc
    | create c' stage hc' hpc => rw [hc] at hc'; cases hc'; rw [hdrop] at hpc; cases hpc
    | drop c' hc' hpc => rw [hc] at hc'; cases hc'; exact hfreed
  cases h with
  | execute received ok i line hpc => have := hcloses.1; rw [hpc] at this; cases this
  | mainMoves received ok main hpc hmain =>
    have := hcloses.1
    rcases hpc with hpc | ⟨username, hpc⟩ <;> (rw [hpc] at this; cases this)
  | socket received ok hpc => have := hcloses.1; rw [hpc] at this; cases this
  | detach received ok k hpc => have := hcloses.1; rw [hpc] at this; cases this
  | mainLaunches received ok k u main hpc hu hmain =>
    obtain ⟨hsession, hdrop⟩ := hcloses
    rw [hpc] at hsession
    cases hsession
    have hfreed' := hlaunch hu hdrop
    exact hfreed'
  | acceptFailed ok hpc => have := hcloses.1; rw [hpc] at this; cases this
  | accepted ok hpc => have := hcloses.1; rw [hpc] at this; cases this
  | listenerLaunches ok k u listener hpc hu =>
    obtain ⟨hsession, hdrop⟩ := hcloses
    rw [hpc] at hsession
    cases hsession
    have hfreed' := hlaunch hu hdrop
    exact hfreed'
  | send k c' i message hc' hpc =>
    obtain ⟨rfl, i', hclose⟩ := hcloses
    rw [hc] at hc'; cases hc'; rw [hclose] at hpc; cases hpc
  | quit k c' i hc' hpc =>
    obtain ⟨rfl, -⟩ := hcloses
    rw [hc] at hc'; cases hc'; exact hfreed
  | recv k received c' hc' hpc =>
    obtain ⟨rfl, hclose⟩ := hcloses
    rw [hc] at hc'; cases hc'; rw [hclose] at hpc; cases hpc
  | received k buffer c' on hc' hpc hsize =>
    obtain ⟨rfl, hclose⟩ := hcloses
    rw [hc] at hc'; cases hc'; rw [hclose] at hpc; cases hpc
  | hangUp k received c' on hc' hpc hsize =>
    obtain ⟨rfl, hclose⟩ := hcloses
    rw [hc] at hc'; cases hc'; rw [hclose] at hpc; cases hpc
  | hungUp k received c' hc' hpc =>
    obtain ⟨rfl, -⟩ := hcloses
    rw [hc] at hc'; cases hc'; exact hfreed
  | _ => exact hcloses.elim

/-- `quit` leaves a connection that somebody is in `recv` on. -/
theorem misrouted_of_recv {s : ClientProcess} {k i : Nat} {c : ChatSession} (hc : s.sessions[k]? = some c)
    (hpc : c.sender = .close i) (hchat : s.InChat k i) {j : Nat} {d : ChatSession} (hd : s.sessions[j]? = some d)
    (hblocked : d.receiver = .blocked (some (.session k))) : ∃ u, step s (.send k) = some u ∧ ¬ u.LinesRouted := by
  let u := ((s.close k c).settle i (.quit k (s.reached c))).setSession k { c with sender := .exited }
  refine ⟨u, by simp only [step, hc, Option.bind_some, sendMessages, hpc]; rfl, fun hrouted => ?_⟩
  have hfate : (i, Fate.quit k (s.reached c)) ∈ u.fates := List.mem_append_right _ (List.mem_singleton_self _)
  have hreleased := (hrouted.ended k i _ hchat hfate).2
  -- that thread is where it was
  obtain ⟨e, he, hreceiver⟩ : ∃ e, u.sessions[j]? = some e ∧ e.receiver = d.receiver := by
    rw [sessions_setSession (s := (s.close k c).settle i (.quit k (s.reached c))) hc]
    by_cases hj : k = j
    · subst hj
      rw [hc] at hd
      cases hd
      exact ⟨_, if_pos rfl, rfl⟩
    · exact ⟨d, (if_neg hj).trans hd, rfl⟩
  exact hreleased.idle j e he (hreceiver.trans hblocked)

/-- **Lines typed in a chat reach it as long as it is attended.**  In the states of the runs whose steps meet `Attended`
they do; any other step of any run closes the socket of a chat that its send thread has not left, or is at a state where
a step misroutes a line or leaves the connection open behind the `quit`. -/
theorem lines_routed (s : ClientProcess) :
    (Machine.ReachIf (· = start) step Attended s → s.LinesRouted) ∧
      ∀ (t : ClientProcess) (a : Act), Machine.Reach (· = start) step s → step s a = some t → ¬ s.Attended a →
        s.Robs a t ∨ ∃ b u, step s b = some u ∧ ¬ u.LinesRouted := by
  refine ⟨fun h => (heard_reach h).linesRouted (lines_reach h), fun t a h hstep hno => ?_⟩
  have hl := lines_reach h
  by_contra hneither
  obtain ⟨hrobs, hrouted⟩ := not_or.1 hneither
  refine hno ⟨fun r k ha hchat r' hr' => ?_, fun j c hc hcloses k hreached hout => ?_,
    fun k i c ha hc hpc hchat j d hd hblocked => ?_⟩
  · by_contra hne
    subst ha
    obtain ⟨line, hline⟩ : ∃ line, s.typed[s.taken.length]? = some line := by
      cases step_cases hstep with
      | takeCommand line hline => exact ⟨line, hline⟩
      | takeMessage k c line hline => exact ⟨line, hline⟩
    obtain ⟨u, hu, hbad⟩ := misrouted_of_reader hl hchat hline hr' hne
    exact hrouted ⟨_, u, hu, hbad⟩
  · by_contra hspared
    obtain ⟨hexited, hother⟩ := not_or.1 hspared
    obtain ⟨d, hd, hsocket⟩ := numbered_reach h _ k hreached
    refine hrobs ⟨k, d, hd, hout, fun hd' => hexited ((sender_eq hd).trans hd'), fun ha => ?_, ?_,
      reached_closes hc hcloses (step_cases hstep) hsocket⟩
    · subst ha
      exact hother ⟨hcloses.1, nofun⟩
    unfold reached at hreached ⊢
    rwa [hsocket]
  · obtain ⟨u, hu, hbad⟩ := misrouted_of_recv hc hpc hchat hd hblocked
    exact hrouted ⟨_, u, hu, hbad⟩

/-- `CHAT bob` succeeds, and `main` is back at its prompt before the chat's threads are created: it takes the next line,
meant for bob, and runs it as a command. -/
theorem message_executed : ¬ ∀ s, Machine.Reach (· = start) step s → s.LinesRouted := by
  intro h
  obtain ⟨s, hs, hchats, hline, hfate⟩ : ∃ s, Machine.exec step start
      [.type (lit "CHAT bob"), .getline .main, .main .closed true, .main (.data (lit "OK 10.0.0.2:8088")) true,
        .main .closed true, .main .closed true, .main .closed true, .main .closed true,
        .type (lit "hello"), .getline .main, .main .closed true] = some s ∧
      (0, 1) ∈ s.chats ∧ s.typed[1]? = some (lit "hello") ∧ (1, .executed) ∈ s.fates :=
    ⟨_, rfl, by decide, rfl, by decide⟩
  have hchat : s.InChat 0 1 := ⟨1, hchats, Nat.le_refl _, fun j hj hlt => absurd hlt (Nat.not_lt.2 hj)⟩
  exact not_routed_fate hchat hline hfate nofun (h s (.exec _ (.start rfl) hs))

end ChatRoom.ClientProcess
