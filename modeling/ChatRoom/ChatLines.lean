import ChatRoom.Chat
import ChatRoom.Intake
/-!
# ChatLines — who has each typed line

`main` and every send thread read the same standard input.  Whoever takes a line has it in hand until it is run as a
command, sent, or a socket is closed for it; `Lines` says so, of every line that was taken.
-/
namespace ChatRoom

def MainPc.hand : MainPc → Option Nat
  | .command i _ => some i
  | _ => none

def SenderPc.hand : SenderPc → Option Nat
  | .send i _ => some i
  | .close i => some i
  | _ => none

/-- The line in hand is what was typed. -/
def SenderPc.Reads (typed : List Bytes) : SenderPc → Prop
  | .send i message => typed[i]? = some message ∧ message ≠ lit "quit"
  | .close i => typed[i]? = some (lit "quit")
  | _ => True

def Fate.reader : Fate → Reader
  | .executed => .main
  | .sent k _ _ => .sender k
  | .quit k _ => .sender k

def Fate.reached : Fate → Option Holder
  | .executed => none
  | .sent _ _ reached => reached
  | .quit _ reached => reached

/-- A line is sent as it was typed, unless it is `quit`, which a socket is closed for. -/
def Fate.Reads (typed : List Bytes) (i : Nat) : Fate → Prop
  | .executed => True
  | .sent _ message _ => typed[i]? = some message ∧ message ≠ lit "quit"
  | .quit _ _ => typed[i]? = some (lit "quit")

theorem SenderPc.Reads.concat {typed : List Bytes} {pc : SenderPc} (h : pc.Reads typed) (line : Bytes) :
    pc.Reads (typed ++ [line]) := by
  cases pc with
  | send i message => exact ⟨Intake.getElem?_concat h.1 line, h.2⟩
  | close i => exact Intake.getElem?_concat h line
  | _ => trivial

theorem Fate.Reads.concat {typed : List Bytes} {i : Nat} {f : Fate} (h : f.Reads typed i) (line : Bytes) :
    f.Reads (typed ++ [line]) i := by
  cases f with
  | executed => trivial
  | sent k message reached => exact ⟨Intake.getElem?_concat h.1 line, h.2⟩
  | quit k reached => exact Intake.getElem?_concat h line

theorem hand_takeMessage (i : Nat) (line : Bytes) : (ClientProcess.takeMessage i line).hand = some i := by
  unfold ClientProcess.takeMessage
  split <;> rfl

theorem reads_takeMessage {typed : List Bytes} {i : Nat} {line : Bytes} (h : typed[i]? = some line) :
    (ClientProcess.takeMessage i line).Reads typed := by
  unfold ClientProcess.takeMessage
  split
  · rename_i hquit
    rw [hquit] at h
    exact h
  · rename_i hne
    exact ⟨h, hne⟩

namespace ClientProcess

def sender (s : ClientProcess) (k : Nat) : SenderPc := (s.sessions[k]?.map ChatSession.sender).getD .idle

/-- The line a thread has taken and done nothing with. -/
def hand (s : ClientProcess) : Reader → Option Nat
  | .main => s.main.hand
  | .sender k => (s.sender k).hand

def settled (s : ClientProcess) : List (Nat × Reader) := s.fates.map (fun e => (e.1, e.2.reader))

/-! ## Every run -/

structure Lines (s : ClientProcess) : Prop where
  ledger : Intake.Ledger s.taken s.hand s.settled
  within : s.taken.length ≤ s.typed.length
  reads : ∀ k, (s.sender k).Reads s.typed
  fateReads : ∀ i f, (i, f) ∈ s.fates → f.Reads s.typed i
  ended : ∀ k i reached, (i, .quit k reached) ∈ s.fates → s.sender k = .exited

theorem sender_eq {s : ClientProcess} {k : Nat} {c : ChatSession} (hc : s.sessions[k]? = some c) :
    s.sender k = c.sender := by
  unfold sender
  rw [hc]
  rfl

theorem sender_setSession {s : ClientProcess} {k : Nat} {c : ChatSession} (hc : s.sessions[k]? = some c)
    (c' : ChatSession) : (s.setSession k c').sender = Function.update s.sender k c'.sender := by
  funext j
  unfold sender
  rw [sessions_setSession hc]
  by_cases hj : k = j
  · subst hj
    rw [if_pos rfl, Function.update_self]
    rfl
  · rw [if_neg hj, Function.update_of_ne (Ne.symm hj)]

/-- The send thread stays where it is. -/
theorem sender_setSession_same {s : ClientProcess} {k : Nat} {c c' : ChatSession} (hc : s.sessions[k]? = some c)
    (hsender : c'.sender = c.sender) : (s.setSession k c').sender = s.sender := by
  rw [sender_setSession hc, hsender, ← sender_eq hc, Function.update_eq_self]

theorem sender_openSession (s : ClientProcess) (stage : LaunchStage) : (s.openSession stage).sender = s.sender := by
  funext j
  unfold sender openSession
  dsimp only
  rw [List.getElem?_append]
  split
  · rfl
  · rename_i hj
    rw [List.getElem?_eq_none (Nat.le_of_not_lt hj)]
    cases hd : [(⟨Descriptor.lowest s.table, stage, .idle, .idle⟩ : ChatSession)][j - s.sessions.length]? with
    | none => rfl
    | some d =>
      obtain ⟨hlt, rfl⟩ := List.getElem?_eq_some_iff.1 hd
      simp

theorem sender_launch {s t : ClientProcess} {k : Nat} (h : Launch s k t) : t.sender = s.sender := by
  cases h with
  | connect c stage hc hpc hnext => exact sender_setSession_same (s := s.use k c) hc rfl
  | create c stage hc hpc hnext => exact sender_setSession_same hc rfl
  | drop c hc hpc => exact sender_setSession_same (s := s.close k c) hc rfl

/-- A step that leaves the lines and who has them alone. -/
theorem lines_of_eq {s t : ClientProcess} (hs : s.Lines) (htyped : t.typed = s.typed) (htaken : t.taken = s.taken)
    (hfates : t.fates = s.fates) (hmain : t.main.hand = s.main.hand) (hsender : t.sender = s.sender) : t.Lines where
  ledger := by
    have hhand : t.hand = s.hand := by
      funext r
      cases r with
      | main => exact hmain
      | sender k => unfold hand; rw [hsender]
    unfold settled
    rw [htaken, hhand, hfates]
    exact hs.ledger
  within := by rw [htaken, htyped]; exact hs.within
  reads := by rw [hsender, htyped]; exact hs.reads
  fateReads := by rw [hfates, htyped]; exact hs.fateReads
  ended := by rw [hfates, hsender]; exact hs.ended

theorem hand_main {s t : ClientProcess} (hsender : t.sender = s.sender) :
    t.hand = Function.update s.hand Reader.main t.main.hand := by
  funext r
  cases r with
  | main => exact (Function.update_self Reader.main t.main.hand s.hand).symm
  | sender k =>
    have hne : Reader.sender k ≠ .main := nofun
    rw [Function.update_of_ne hne]
    exact congrArg SenderPc.hand (congrFun hsender k)

theorem hand_sender {s t : ClientProcess} {k : Nat} {pc : SenderPc} (hsender : t.sender = Function.update s.sender k pc)
    (hmain : t.main = s.main) : t.hand = Function.update s.hand (Reader.sender k) pc.hand := by
  funext r
  cases r with
  | main =>
    have hne : Reader.main ≠ .sender k := nofun
    rw [Function.update_of_ne hne]
    exact congrArg MainPc.hand hmain
  | sender j =>
    have hj : t.hand (.sender j) = (Function.update s.sender k pc j).hand := congrArg SenderPc.hand (congrFun hsender j)
    rw [hj]
    by_cases hjk : j = k
    · subst hjk
      rw [Function.update_self, Function.update_self]
    · have hne : Reader.sender j ≠ .sender k := fun h => hjk (by cases h; rfl)
      rw [Function.update_of_ne hjk, Function.update_of_ne hne]
      rfl

/-- A send thread moves; the others have in hand what they had. -/
theorem reads_moveSender {s t : ClientProcess} {k : Nat} {pc : SenderPc} (hs : s.Lines)
    (hsender : t.sender = Function.update s.sender k pc) (hpc : pc.Reads s.typed) :
    ∀ j, (t.sender j).Reads s.typed := by
  intro j
  rw [hsender]
  by_cases hj : j = k
  · subst hj
    rw [Function.update_self]
    exact hpc
  · rw [Function.update_of_ne hj]
    exact hs.reads j

/-- A send thread that has not ended moves; those that have ended stay. -/
theorem ended_moveSender {s t : ClientProcess} {k : Nat} {pc : SenderPc} (hs : s.Lines)
    (hsender : t.sender = Function.update s.sender k pc) (hrun : s.sender k ≠ .exited) :
    ∀ j i reached, (i, .quit j reached) ∈ s.fates → t.sender j = .exited := by
  intro j i reached hf
  have hexited := hs.ended j i reached hf
  have hj : j ≠ k := by
    rintro rfl
    exact hrun hexited
  rw [hsender, Function.update_of_ne hj]
  exact hexited

theorem lines_takeCommand {s : ClientProcess} (hs : s.Lines) {line : Bytes}
    (hline : s.typed[s.taken.length]? = some line) (hpc : s.main = .getline) :
    ({ s with taken := s.taken ++ [Reader.main], main := .command s.taken.length line } : ClientProcess).Lines where
  ledger := by
    have hhand : s.hand .main = none := congrArg MainPc.hand hpc
    rw [hand_main (s := s)
      (t := { s with taken := s.taken ++ [Reader.main], main := .command s.taken.length line }) rfl]
    exact hs.ledger.take hhand
  within := by
    dsimp only
    rw [List.length_append, List.length_singleton]
    exact Intake.lt_of_taken hline
  reads := hs.reads
  fateReads := hs.fateReads
  ended := hs.ended

theorem lines_takeMessage {s : ClientProcess} (hs : s.Lines) {k : Nat} {c : ChatSession} {line : Bytes}
    (hline : s.typed[s.taken.length]? = some line) (hc : s.sessions[k]? = some c) (hpc : c.sender = .getline) :
    (({ s with taken := s.taken ++ [Reader.sender k] } : ClientProcess).setSession k
      { c with sender := takeMessage s.taken.length line }).Lines := by
  have hsender := sender_setSession (s := { s with taken := s.taken ++ [Reader.sender k] }) hc
    { c with sender := takeMessage s.taken.length line }
  have hgetline : s.sender k = .getline := (sender_eq hc).trans hpc
  refine ⟨?_, ?_, reads_moveSender (s := s) hs hsender (reads_takeMessage hline), hs.fateReads,
    ended_moveSender (s := s) hs hsender (by rw [hgetline]; exact nofun)⟩
  · have hhand : s.hand (.sender k) = none := congrArg SenderPc.hand hgetline
    rw [hand_sender (s := s) hsender rfl, hand_takeMessage]
    exact hs.ledger.take hhand
  · show (s.taken ++ [Reader.sender k]).length ≤ s.typed.length
    rw [List.length_append, List.length_singleton]
    exact Intake.lt_of_taken hline

theorem lines_execute {s : ClientProcess} (hs : s.Lines) {i : Nat} {line : Bytes} (hpc : s.main = .command i line) :
    ({ s.settle i .executed with main := afterCommand line } : ClientProcess).Lines where
  ledger := by
    have hnone : (afterCommand line).hand = none := by
      cases hmain : afterCommand line with
      | command j line' => exact absurd hmain (afterCommand_ne_command line j line')
      | _ => rfl
    have hsettled : ({ s.settle i .executed with main := afterCommand line } : ClientProcess).settled =
        s.settled ++ [(i, .main)] := by simp [settled, settle, Fate.reader]
    have hhand : s.hand .main = some i := congrArg MainPc.hand hpc
    rw [hand_main (s := s) (t := { s.settle i .executed with main := afterCommand line }) rfl, hsettled, hnone]
    exact hs.ledger.settle hhand
  within := hs.within
  reads := hs.reads
  fateReads := by
    intro j f hf
    rcases List.mem_append.1 hf with hf | hf
    · exact hs.fateReads j f hf
    · cases List.mem_singleton.1 hf
      trivial
  ended := by
    intro k j reached hf
    rcases List.mem_append.1 hf with hf | hf
    · exact hs.ended k j reached hf
    · cases List.mem_singleton.1 hf

/-- A send thread is done with the line in its hand. -/
theorem lines_settle {s t : ClientProcess} (hs : s.Lines) {k i : Nat} {f : Fate} {pc : SenderPc}
    (hhand : (s.sender k).hand = some i) (hreader : f.reader = .sender k) (hreads : f.Reads s.typed i)
    (hpc : pc = .getline ∨ pc = .exited) (hquit : ∀ j reached, f = .quit j reached → pc = .exited)
    (htyped : t.typed = s.typed) (htaken : t.taken = s.taken) (hfates : t.fates = s.fates ++ [(i, f)])
    (hmain : t.main = s.main) (hsender : t.sender = Function.update s.sender k pc) : t.Lines where
  ledger := by
    have hnone : pc.hand = none := by rcases hpc with rfl | rfl <;> rfl
    have hsettled : t.settled = s.settled ++ [(i, .sender k)] := by simp [settled, hfates, hreader]
    rw [hand_sender hsender hmain, htaken, hsettled, hnone]
    exact hs.ledger.settle hhand
  within := by rw [htaken, htyped]; exact hs.within
  reads := by
    rw [htyped]
    exact reads_moveSender hs hsender (by rcases hpc with rfl | rfl <;> trivial)
  fateReads := by
    intro j g hg
    rw [hfates] at hg
    rw [htyped]
    rcases List.mem_append.1 hg with hg | hg
    · exact hs.fateReads j g hg
    · cases List.mem_singleton.1 hg
      exact hreads
  ended := by
    intro j i' reached hg
    rw [hfates] at hg
    rcases List.mem_append.1 hg with hg | hg
    · have hrun : s.sender k ≠ .exited := by
        intro hexited
        rw [hexited] at hhand
        cases hhand
      exact ended_moveSender hs hsender hrun j i' reached hg
    · cases List.mem_singleton.1 hg
      cases hreader
      rw [hsender, Function.update_self]
      exact hquit _ _ rfl

/-- The send thread is created. -/
theorem lines_createSend {s : ClientProcess} (hs : s.Lines) {k : Nat} {c : ChatSession} (hc : s.sessions[k]? = some c)
    (hidle : c.sender = .idle) :
    (s.setSession k { c with stage := .createReceive, sender := .getline }).Lines := by
  have hsender := sender_setSession hc { c with stage := .createReceive, sender := .getline }
  have hbefore : s.sender k = .idle := (sender_eq hc).trans hidle
  refine ⟨?_, hs.within, reads_moveSender (s := s) hs hsender trivial, hs.fateReads,
    ended_moveSender (s := s) hs hsender (by rw [hbefore]; exact nofun)⟩
  have hhand : s.hand (.sender k) = none := congrArg SenderPc.hand hbefore
  have hsame : Function.update s.hand (Reader.sender k) SenderPc.getline.hand = s.hand := by
    rw [Function.update_eq_iff]
    exact ⟨hhand.symm, fun _ _ => rfl⟩
  rw [hand_sender (s := s) hsender rfl, hsame]
  exact hs.ledger

theorem lines_start : start.Lines where
  ledger := by
    have hhand : start.hand = fun _ => none := by
      funext r
      cases r <;> rfl
    rw [hhand]
    exact Intake.ledger_nil
  within := Nat.le_refl _
  reads := fun _ => trivial
  fateReads := nofun
  ended := nofun

theorem lines_launch {s t : ClientProcess} {k : Nat} (hs : s.Lines) (h : Launch s k t) : t.main = s.main ∧ t.Lines := by
  have hsender := sender_launch h
  cases h with
  | connect => exact ⟨rfl, lines_of_eq hs rfl rfl rfl rfl hsender⟩
  | create => exact ⟨rfl, lines_of_eq hs rfl rfl rfl rfl hsender⟩
  | drop => exact ⟨rfl, lines_of_eq hs rfl rfl rfl rfl hsender⟩

/-- **A step keeps the lines accounted for.** -/
theorem lines_step {s t : ClientProcess} {a : Act} (hok : s.SessionsOk) (hs : s.Lines) (h : Step s a t) : t.Lines := by
  cases h with
  | type line =>
    exact ⟨hs.ledger, Nat.le_trans hs.within (by simp), fun k => (hs.reads k).concat line,
      fun i f hf => (hs.fateReads i f hf).concat line, hs.ended⟩
  | takeCommand line hline hpc => exact lines_takeCommand hs hline hpc
  | takeMessage k c line hline hc hpc => exact lines_takeMessage hs hline hc hpc
  | execute received ok i line hpc => exact lines_execute hs hpc
  | mainMoves received ok main hpc hmain =>
    have hbefore : s.main.hand = none := by rcases hpc with hpc | ⟨username, hpc⟩ <;> rw [hpc] <;> rfl
    have hafter : main.hand = none := by rcases hmain with rfl | rfl | rfl <;> rfl
    exact lines_of_eq hs rfl rfl rfl (hafter.trans hbefore.symm) rfl
  | socket received ok hpc => exact lines_of_eq hs rfl rfl rfl (by rw [hpc]; rfl) (sender_openSession s _)
  | mainLaunches received ok k t main hpc hlaunch hmain =>
    obtain ⟨hkeep, ht⟩ := lines_launch hs hlaunch
    have hnone : main.hand = none := by rcases hmain with rfl | rfl | rfl <;> rfl
    exact lines_of_eq ht rfl rfl rfl (by rw [hkeep, hpc]; exact hnone) rfl
  | detach received ok k hpc => exact lines_of_eq hs rfl rfl rfl (by rw [hpc]; rfl) rfl
  | acceptFailed ok hpc => exact hs
  | accepted ok hpc => exact lines_of_eq hs rfl rfl rfl rfl (sender_openSession s _)
  | listenerLaunches ok k t listener hpc hlaunch => exact lines_of_eq (lines_launch hs hlaunch).2 rfl rfl rfl rfl rfl
  | createSend k c hc hpc =>
    exact lines_createSend hs hc ((hok k c hc).unstarted (by rw [hpc]; rfl)).1
  | createReceive k c hc hpc => exact lines_of_eq hs rfl rfl rfl rfl (sender_setSession_same hc rfl)
  | join k c stage hc hpc hnext => exact lines_of_eq hs rfl rfl rfl rfl (sender_setSession_same hc rfl)
  | send k c i message hc hpc =>
    have hhand : (s.sender k).hand = some i := by rw [sender_eq hc, hpc]; rfl
    have hreads := hs.reads k
    rw [sender_eq hc, hpc] at hreads
    exact lines_settle (f := .sent k message (s.reached c)) hs hhand rfl hreads (.inl rfl) nofun rfl rfl rfl rfl
      (sender_setSession (s := (s.use k c).settle i (.sent k message (s.reached c))) hc _)
  | quit k c i hc hpc =>
    have hhand : (s.sender k).hand = some i := by rw [sender_eq hc, hpc]; rfl
    have hreads := hs.reads k
    rw [sender_eq hc, hpc] at hreads
    exact lines_settle (f := .quit k (s.reached c)) hs hhand rfl hreads (.inr rfl) (fun _ _ _ => rfl) rfl rfl rfl rfl
      (sender_setSession (s := (s.close k c).settle i (.quit k (s.reached c))) hc _)
  | recv k received c hc hpc => exact lines_of_eq hs rfl rfl rfl rfl (sender_setSession_same (s := s.use k c) hc rfl)
  | received k buffer c on hc hpc hsize =>
    exact lines_of_eq hs rfl rfl rfl rfl (sender_setSession_same (s := s.useOn k on) hc rfl)
  | hangUp k received c on hc hpc hsize =>
    exact lines_of_eq hs rfl rfl rfl rfl (sender_setSession_same (s := s.useOn k on) hc rfl)
  | hungUp k received c hc hpc =>
    exact lines_of_eq hs rfl rfl rfl rfl (sender_setSession_same (s := s.close k c) hc rfl)

theorem lines_reach {ok : ClientProcess → Act → Prop} {s : ClientProcess} (h : Machine.ReachIf (· = start) step ok s) :
    s.Lines :=
  h.invariant_under (J := SessionsOk) (fun _ => ok_reach) (by rintro _ rfl; exact lines_start)
    (fun _ _ _ hok hs _ hstep => lines_step hok hs (step_cases hstep))

theorem Lines.lt_typed {s : ClientProcess} (hs : s.Lines) {i : Nat} {r : Reader} (h : s.taken[i]? = some r) :
    i < s.typed.length := Nat.lt_of_lt_of_le (Intake.lt_of_taken h) hs.within

/-- What became of a line is the doing of the thread that took it. -/
theorem Lines.taken_of_fate {s : ClientProcess} (hs : s.Lines) {i : Nat} {f : Fate} (h : (i, f) ∈ s.fates) :
    s.taken[i]? = some f.reader :=
  hs.ledger.done i _ (List.mem_map_of_mem (f := fun e : Nat × Fate => (e.1, e.2.reader)) h)

end ClientProcess

end ChatRoom
