import ChatRoom.Client
import ChatRoom.CommandGrammar
import ChatRoom.Lines
import Mathlib.Logic.Function.Iterate
/-!
# CommandLoop — the loop of `main` in `client.cpp` over its standard input

One pass prompts, reads a line with `std::getline` and runs it; nothing looks at the state of the stream.  At the end of
the input `getline` leaves the string as it is, and the loop runs it again, for ever.  The send threads of the chat
sessions read the same `std::cin`, and two threads at `getline` share out its characters one by one; a call to the
server may not return, and SIGPIPE may end the process.  So the input is executed once and the loop ends only where
nobody reads along, every call returns, and an `EXIT` stops the loop, or the end of the very last command does
(`consumesOnce_iff`).
-/
namespace ChatRoom

/-- `std::cin`: what is left to read, and whether the stream is still good. -/
structure Stdin where
  rest : Bytes
  good : Bool
  deriving DecidableEq, Repr

/-- Other threads read this many characters, or find the end. -/
def Stdin.readByOthers (cin : Stdin) (count : Nat) : Stdin :=
  if count ≤ cin.rest.length then { cin with rest := cin.rest.drop count } else ⟨[], false⟩

/-- What `std::getline` reads, whether it has read a newline, and what is left; `others` tells of each character whether
another thread gets it. -/
def readLine : (others : List Bool) → Bytes → Bytes × Bool × Bytes
  | _, [] => ([], false, [])
  | others, b :: rest =>
    if others.headD false then readLine others.tail rest
    else if b = 10 then ([], true, rest)
    else
      let (line, newline, rest) := readLine others.tail rest
      (b :: line, newline, rest)

/-- The characters of a line that was read. -/
def taken (line : Bytes) (newline : Bool) : Bytes := if newline then line ++ [10] else line

/-- `std::getline(std::cin, str)`: the stream and the string after it, and the characters it has read. -/
def Stdin.getline (cin : Stdin) (others : List Bool) (str : Bytes) : Stdin × Bytes × Bytes :=
  if !cin.good then (cin, str, [])
  else
    let (line, newline, rest) := readLine others cin.rest
    (⟨rest, newline⟩, line, taken line newline)

/-- What comes of the calls that a command makes. -/
inductive Answer
  | returns (received : Received)
  | never -- one does not return
  | killed -- by SIGPIPE

/-- What a pass comes to. -/
inductive Progress
  | goesOn
  | ends
  | hangs
  deriving DecidableEq, Repr

/-- A command with a call: an exception leaves the loop for the handler in `main`. -/
def Answer.afterCall {α : Type} (answer : Answer) (decode : Received → Except StdException α) : Progress :=
  match answer with
  | .returns received => if (decode received).isOk then .goesOn else .ends
  | .never => .hangs
  | .killed => .ends

/-- A command without. -/
def Answer.afterNone : Answer → Progress
  | .killed => .ends
  | _ => .goesOn

def Command.run (client : Client) (answer : Answer) : Command → Progress
  | .registerWithServer username password => answer.afterCall (Client.registerWithServer username password).decode
  | .loginToServer username password => answer.afterCall (client.loginToServer username password).decode
  | .logoutFromServer => answer.afterCall Client.logoutFromServer.decode
  | .chatWithClient username => answer.afterCall (Client.getClientInfo username).decode
  | .exit => .ends
  | .usage => answer.afterNone
  | .unknown => answer.afterNone

/-- What the rest of the world does in a pass: the characters that other threads read before `getline` and in it, and
the answer to the command. -/
structure Turn where
  before : Nat
  within : List Bool
  answer : Answer

/-- The loop between two passes, with the lines it has run and the characters it has read. -/
structure CommandLoop where
  cin : Stdin
  command : Bytes
  executed : List Bytes
  read : Bytes
  progress : Progress
  deriving DecidableEq, Repr

namespace CommandLoop

def start (input : Bytes) : CommandLoop := ⟨⟨input, true⟩, [], [], [], .goesOn⟩

variable (client : Client) (turns : Nat → Turn)

/-- One pass, each with its own turn. -/
def pass (s : CommandLoop) : CommandLoop :=
  if s.progress ≠ .goesOn then s
  else
    let turn := turns s.executed.length
    let (cin, command, read) := (s.cin.readByOthers turn.before).getline turn.within s.command
    ⟨cin, command, s.executed ++ [command], s.read ++ read, (readCommand command).run client turn.answer⟩

/-- The lines up to and including the first `EXIT`. -/
def upToExit : List Bytes → List Bytes
  | [] => []
  | line :: rest => if line = lit "EXIT" then [line] else line :: upToExit rest

/-- The loop ends, having read the input from its start on and executed its lines once each, in order, up to the first
`EXIT`. -/
def ConsumesOnce (input : Bytes) : Prop :=
  ∃ n, ((pass client turns)^[n] (start input)).progress = .ends ∧
    ((pass client turns)^[n] (start input)).executed = upToExit (Lines.lines 10 input) ∧
    ((pass client turns)^[n] (start input)).read ++ ((pass client turns)^[n] (start input)).cin.rest = input

/-- The characters of the first line, its newline included. -/
def lineLength (rest : Bytes) : Nat := ((Lines.cut 10 rest).map (fun p => p.1.length + 1)).getD rest.length

/-- Nobody else reads, every command returns, and something stops the loop in time: an `EXIT`, or else an exception or
SIGPIPE at the last line. -/
def EndsInTime : Nat → Bytes → List Bytes → Prop
  | _, _, [] => False
  | n, rest, line :: lines =>
    (turns n).before = 0 ∧ true ∉ (turns n).within.take (lineLength rest) ∧
      match (readCommand line).run client (turns n).answer with
      | .goesOn => EndsInTime (n + 1) (rest.drop (lineLength rest)) lines
      | .ends => line = lit "EXIT" ∨ lines = []
      | .hangs => False

/-! ## Reading -/

/-- The lines the stream still gives. -/
def pending (cin : Stdin) : List Bytes := if cin.good then Lines.lines 10 cin.rest else []

theorem lineLength_append {w : Bytes} (hw : (10 : UInt8) ∉ w) (rest : Bytes) :
    lineLength (w ++ 10 :: rest) = w.length + 1 := by
  simp [lineLength, Lines.cut_append hw]

theorem lineLength_last {w : Bytes} (hw : (10 : UInt8) ∉ w) : lineLength w = w.length := by
  simp [lineLength, Lines.cut_eq_none.2 hw]

theorem lineLength_cons {b : UInt8} (hb : b ≠ 10) (rest : Bytes) : lineLength (b :: rest) = lineLength rest + 1 := by
  unfold lineLength
  rw [Lines.cut, if_neg hb]
  cases Lines.cut 10 rest <;> simp

@[simp] theorem taken_cons (b : UInt8) (line : Bytes) (newline : Bool) :
    taken (b :: line) newline = b :: taken line newline := by
  cases newline <;> rfl

/-- What another thread gets is lost to the reader. -/
theorem length_readLine_le : ∀ (others : List Bool) (rest : Bytes),
    (taken (readLine others rest).1 (readLine others rest).2.1).length + (readLine others rest).2.2.length ≤ rest.length
  | _, [] => Nat.le_refl 0
  | others, b :: rest => by
    have ih := length_readLine_le others.tail rest
    rw [readLine]
    split
    · exact Nat.le_succ_of_le ih
    · split
      · simp [taken, Nat.add_comm]
      · generalize readLine others.tail rest = p at ih
        obtain ⟨line, newline, rest'⟩ := p
        simp only [taken_cons, List.length_cons] at ih ⊢
        omega

theorem length_readLine_lt : ∀ (others : List Bool) (rest : Bytes), true ∈ others.take (lineLength rest) →
    (taken (readLine others rest).1 (readLine others rest).2.1).length + (readLine others rest).2.2.length < rest.length
  | others, [], h => by simp [lineLength, Lines.cut] at h
  | [], b :: rest, h => by simp at h
  | other :: others, b :: rest, h => by
    rw [readLine, List.headD_cons, List.tail_cons]
    cases other with
    | true => exact Nat.lt_succ_of_le (length_readLine_le others rest)
    | false =>
      by_cases hb : b = 10
      · subst hb
        rw [lineLength, Lines.cut, if_pos rfl] at h
        simp at h
      · rw [lineLength_cons hb, List.take_succ_cons, List.mem_cons] at h
        have ih := length_readLine_lt others rest (h.resolve_left (by decide))
        rw [if_neg (by decide), if_neg hb]
        generalize readLine others rest = p at ih
        obtain ⟨line, newline, rest'⟩ := p
        simp only [taken_cons, List.length_cons] at ih ⊢
        omega

/-- **A reader that is alone** reads the first line. -/
theorem readLine_alone : ∀ (others : List Bool) {w : Bytes}, (10 : UInt8) ∉ w → ∀ rest : Bytes,
    true ∉ others.take (w.length + 1) → readLine others (w ++ 10 :: rest) = (w, true, rest)
  | [], [], _, rest, _ => by simp [readLine]
  | other :: others, [], _, rest, h => by
    have hother : other = false := by simpa using h
    simp [readLine, hother]
  | [], b :: w, hw, rest, h => by
    rw [List.mem_cons, not_or] at hw
    have ih := readLine_alone [] hw.2 rest (by simp)
    simp [readLine, Ne.symm hw.1, ih]
  | other :: others, b :: w, hw, rest, h => by
    rw [List.mem_cons, not_or] at hw
    rw [List.length_cons, List.take_succ_cons, List.mem_cons, not_or] at h
    have hother : other = false := by simpa using h.1
    have ih := readLine_alone others hw.2 rest h.2
    simp [readLine, hother, Ne.symm hw.1, ih]

theorem readLine_last : ∀ (others : List Bool) {w : Bytes}, (10 : UInt8) ∉ w →
    true ∉ others.take w.length → readLine others w = (w, false, [])
  | _, [], _, _ => rfl
  | [], b :: w, hw, h => by
    rw [List.mem_cons, not_or] at hw
    have ih := readLine_last [] hw.2 (by simp)
    simp [readLine, Ne.symm hw.1, ih]
  | other :: others, b :: w, hw, h => by
    rw [List.mem_cons, not_or] at hw
    rw [List.length_cons, List.take_succ_cons, List.mem_cons, not_or] at h
    have hother : other = false := by simpa using h.1
    have ih := readLine_last others hw.2 h.2
    simp [readLine, hother, Ne.symm hw.1, ih]

/-- **Alone at the stream**, `getline` takes the first line off, with its newline. -/
theorem getline_alone {cin : Stdin} {line : Bytes} {lines : List Bytes} (h : pending cin = line :: lines)
    {others : List Bool} (halone : true ∉ others.take (lineLength cin.rest)) (str : Bytes) :
    ∃ good, (cin.readByOthers 0).getline others str =
        (⟨cin.rest.drop (lineLength cin.rest), good⟩, line, cin.rest.take (lineLength cin.rest)) ∧
      pending ⟨cin.rest.drop (lineLength cin.rest), good⟩ = lines := by
  obtain ⟨rest, good⟩ := cin
  cases good with
  | false => cases h
  | true =>
    rw [show Stdin.readByOthers ⟨rest, true⟩ 0 = ⟨rest, true⟩ by simp [Stdin.readByOthers]]
    change Lines.lines 10 rest = line :: lines at h
    dsimp only at halone ⊢
    by_cases hcut : (10 : UInt8) ∈ rest
    · obtain ⟨w, tail, rfl, hw⟩ := List.eq_append_cons_of_mem hcut
      rw [Lines.lines_append hw] at h
      cases h
      rw [lineLength_append hw] at halone ⊢
      refine ⟨true, ?_, ?_⟩
      · simp [Stdin.getline, readLine_alone others hw tail halone, taken, List.take_append]
      · simp [pending]
    · have hne : rest ≠ [] := by
        rintro rfl
        cases h
      rw [Lines.lines_last hcut hne] at h
      cases h
      rw [lineLength_last hcut] at halone ⊢
      refine ⟨false, ?_, rfl⟩
      simp [Stdin.getline, readLine_last others hcut halone, taken]

theorem length_readByOthers_le (cin : Stdin) (count : Nat) :
    (cin.readByOthers count).rest.length ≤ cin.rest.length := by
  unfold Stdin.readByOthers
  split
  · exact (List.length_drop ..).trans_le (Nat.sub_le ..)
  · exact Nat.zero_le _

theorem length_getline_le (cin : Stdin) (others : List Bool) (str : Bytes) :
    (cin.getline others str).2.2.length + (cin.getline others str).1.rest.length ≤ cin.rest.length := by
  unfold Stdin.getline
  split
  · exact (Nat.zero_add _).le
  · exact length_readLine_le others cin.rest

theorem length_getline_lt {cin : Stdin} (hgood : cin.good = true) {others : List Bool}
    (h : true ∈ others.take (lineLength cin.rest)) (str : Bytes) :
    (cin.getline others str).2.2.length + (cin.getline others str).1.rest.length < cin.rest.length := by
  rw [Stdin.getline, hgood]
  exact length_readLine_lt others cin.rest h

/-! ## One pass -/

variable {client turns}

theorem pass_of_stopped {s : CommandLoop} (h : s.progress ≠ .goesOn) : pass client turns s = s := if_pos h

theorem iterate_of_stopped {s : CommandLoop} (h : s.progress ≠ .goesOn) (n : Nat) : (pass client turns)^[n] s = s :=
  Function.iterate_fixed (pass_of_stopped h) n

/-- The `getline` of a pass. -/
def lineOf (turns : Nat → Turn) (s : CommandLoop) : Stdin × Bytes × Bytes :=
  (s.cin.readByOthers (turns s.executed.length).before).getline (turns s.executed.length).within s.command

theorem pass_of_running {s : CommandLoop} (h : s.progress = .goesOn) :
    pass client turns s =
      ⟨(lineOf turns s).1, (lineOf turns s).2.1, s.executed ++ [(lineOf turns s).2.1], s.read ++ (lineOf turns s).2.2,
        (readCommand (lineOf turns s).2.1).run client (turns s.executed.length).answer⟩ :=
  if_neg (not_not.2 h)

theorem executed_grows_pass (s : CommandLoop) : s.executed <+: (pass client turns s).executed := by
  by_cases h : s.progress = .goesOn
  · rw [pass_of_running h]
    exact List.prefix_append _ _
  · exact ⟨[], by rw [pass_of_stopped h, List.append_nil]⟩

theorem executed_grows (n : Nat) (s : CommandLoop) : s.executed <+: ((pass client turns)^[n] s).executed := by
  induction n generalizing s with
  | zero => exact List.prefix_refl _
  | succ n ih =>
    rw [Function.iterate_succ_apply]
    exact (executed_grows_pass s).trans (ih _)

/-- The characters that no other thread has got. -/
def size (s : CommandLoop) : Nat := s.read.length + s.cin.rest.length

theorem size_pass_le (s : CommandLoop) : size (pass client turns s) ≤ size s := by
  by_cases h : s.progress = .goesOn
  · rw [pass_of_running h]
    have hothers := length_readByOthers_le s.cin (turns s.executed.length).before
    have hline := length_getline_le (s.cin.readByOthers (turns s.executed.length).before)
      (turns s.executed.length).within s.command
    simp only [size, lineOf, List.length_append]
    omega
  · rw [pass_of_stopped h]

theorem size_le (n : Nat) (s : CommandLoop) : size ((pass client turns)^[n] s) ≤ size s := by
  induction n generalizing s with
  | zero => exact Nat.le_refl _
  | succ n ih =>
    rw [Function.iterate_succ_apply]
    exact (ih _).trans (size_pass_le s)

/-- **Whoever reads along gets something**, which the loop then lacks. -/
theorem size_pass_lt {s : CommandLoop} (hrun : s.progress = .goesOn) (hgood : pending s.cin ≠ [])
    (hothers : (turns s.executed.length).before ≠ 0 ∨
      true ∈ (turns s.executed.length).within.take (lineLength s.cin.rest)) :
    size (pass client turns s) < size s := by
  obtain ⟨hcin, hne⟩ : s.cin.good = true ∧ s.cin.rest ≠ [] := by
    unfold pending at hgood
    split at hgood
    · rename_i hcin
      exact ⟨hcin, fun hnil => hgood (Lines.lines_eq_nil.2 hnil)⟩
    · exact absurd rfl hgood
  have hpos := List.length_pos_iff.2 hne
  rw [pass_of_running hrun]
  simp only [size, lineOf, List.length_append]
  by_cases hbefore : (turns s.executed.length).before = 0
  · have hline := length_getline_lt hcin (hothers.resolve_left (not_not.2 hbefore)) s.command
    have hsame : s.cin.readByOthers 0 = s.cin := by simp [Stdin.readByOthers]
    rw [hbefore, hsame]
    omega
  · have hline := length_getline_le (s.cin.readByOthers (turns s.executed.length).before)
      (turns s.executed.length).within s.command
    have hlost : (s.cin.readByOthers (turns s.executed.length).before).rest.length < s.cin.rest.length := by
      unfold Stdin.readByOthers
      split
      · rw [List.length_drop]; omega
      · exact hpos
    omega

/-! ## A whole run -/

theorem upToExit_eq_nil {lines : List Bytes} : upToExit lines = [] ↔ lines = [] := by
  cases lines with
  | nil => exact iff_of_true rfl rfl
  | cons line rest =>
    rw [upToExit]
    split <;> simp

/-- A loop that has run out of lines runs another one all the same. -/
theorem no_end_without_line {s : CommandLoop} (hrun : s.progress = .goesOn) (n : Nat)
    (hend : ((pass client turns)^[n] s).progress = .ends) : ((pass client turns)^[n] s).executed ≠ s.executed := by
  cases n with
  | zero => rw [Function.iterate_zero_apply, hrun] at hend; cases hend
  | succ n =>
    intro heq
    have hgrow : (pass client turns s).executed.length ≤ ((pass client turns)^[n + 1] s).executed.length :=
      (executed_grows n (pass client turns s)).length_le
    rw [heq, pass_of_running hrun, List.length_append, List.length_singleton] at hgrow
    omega

/-- A running loop makes one pass before it ends. -/
theorem ends_iff_pass_ends {s : CommandLoop} (hrun : s.progress = .goesOn) (P : CommandLoop → Prop) :
    (∃ n, ((pass client turns)^[n] s).progress = .ends ∧ P ((pass client turns)^[n] s)) ↔
      ∃ n, ((pass client turns)^[n] (pass client turns s)).progress = .ends ∧
        P ((pass client turns)^[n] (pass client turns s)) := by
  constructor
  · rintro ⟨_ | n, hend, h⟩
    · rw [Function.iterate_zero_apply, hrun] at hend; cases hend
    · exact ⟨n, hend, h⟩
  · rintro ⟨n, h⟩
    exact ⟨n + 1, h⟩

/-- A loop that shares its input does not read it all. -/
theorem lost_of_others {s : CommandLoop} (hrun : s.progress = .goesOn) (hlines : pending s.cin ≠ [])
    (hothers : (turns s.executed.length).before ≠ 0 ∨
      true ∈ (turns s.executed.length).within.take (lineLength s.cin.rest)) (n : Nat) :
    ((pass client turns)^[n] (pass client turns s)).read ++ ((pass client turns)^[n] (pass client turns s)).cin.rest ≠
      s.read ++ s.cin.rest := by
  intro hread
  have hlost : size (pass client turns s) < size s := size_pass_lt hrun hlines hothers
  have hle : size ((pass client turns)^[n] (pass client turns s)) ≤ size (pass client turns s) := size_le n _
  have hsame := congrArg List.length hread
  simp only [size, List.length_append] at hle hlost hsame
  omega

/-- **A pass that has the input to itself** runs the next line. -/
theorem pass_alone {s : CommandLoop} {line : Bytes} {lines : List Bytes} (hrun : s.progress = .goesOn)
    (hlines : pending s.cin = line :: lines) (hbefore : (turns s.executed.length).before = 0)
    (hwithin : true ∉ (turns s.executed.length).within.take (lineLength s.cin.rest)) :
    (pass client turns s).executed = s.executed ++ [line] ∧
      (pass client turns s).progress = (readCommand line).run client (turns s.executed.length).answer ∧
      (pass client turns s).read ++ (pass client turns s).cin.rest = s.read ++ s.cin.rest ∧
      (pass client turns s).cin.rest = s.cin.rest.drop (lineLength s.cin.rest) ∧
      pending (pass client turns s).cin = lines := by
  obtain ⟨good, hline, hrest⟩ := getline_alone hlines hwithin s.command
  have hpass : pass client turns s = _ := pass_of_running hrun
  rw [lineOf, hbefore, hline] at hpass
  rw [hpass]
  exact ⟨rfl, rfl, by rw [List.append_assoc, List.take_append_drop], rfl, hrest⟩

/-- **From any pass on**, by induction on the lines that are left. -/
theorem consumes_iff (lines : List Bytes) : ∀ s : CommandLoop, s.progress = .goesOn → pending s.cin = lines →
    ((∃ n, ((pass client turns)^[n] s).progress = .ends ∧
      ((pass client turns)^[n] s).executed = s.executed ++ upToExit lines ∧
      ((pass client turns)^[n] s).read ++ ((pass client turns)^[n] s).cin.rest = s.read ++ s.cin.rest) ↔
        EndsInTime client turns s.executed.length s.cin.rest lines) := by
  induction lines with
  | nil =>
    intro s hrun _
    refine iff_of_false (fun ⟨n, hend, hexec, _⟩ => ?_) id
    exact no_end_without_line hrun n hend (by rw [hexec, upToExit, List.append_nil])
  | cons line rest ih =>
    intro s hrun hlines
    rw [ends_iff_pass_ends hrun (fun t => t.executed = s.executed ++ upToExit (line :: rest) ∧
      t.read ++ t.cin.rest = s.read ++ s.cin.rest), EndsInTime]
    by_cases hothers : (turns s.executed.length).before ≠ 0 ∨
        true ∈ (turns s.executed.length).within.take (lineLength s.cin.rest)
    · have hne : pending s.cin ≠ [] := by rw [hlines]; exact List.cons_ne_nil line rest
      refine iff_of_false (fun ⟨n, _, _, hread⟩ => lost_of_others hrun hne hothers n hread) ?_
      exact fun ⟨hbefore, hwithin, _⟩ => hothers.elim (fun h => h hbefore) hwithin
    · rw [not_or, not_not] at hothers
      obtain ⟨hbefore, hwithin⟩ := hothers
      obtain ⟨hexec, hprogress, hread, hcin, hrest⟩ := pass_alone hrun hlines hbefore hwithin
      generalize pass client turns s = s' at hexec hprogress hread hcin hrest
      simp only [hbefore, hwithin, not_false_eq_true, true_and]
      cases hran : (readCommand line).run client (turns s.executed.length).answer with
      | goesOn =>
        have hexit : line ≠ lit "EXIT" := by
          intro h
          rw [(readCommand_exit line).2 h] at hran
          cases hran
        have hlater := ih s' (hprogress.trans hran) hrest
        rw [hread, hcin, hexec, List.length_append, List.length_singleton, List.append_assoc,
          List.singleton_append] at hlater
        rw [upToExit, if_neg hexit]
        exact hlater
      | ends =>
        have hend : s'.progress = .ends := hprogress.trans hran
        simp only [iterate_of_stopped (by rw [hend]; exact nofun), hend, hexec, hread, true_and, and_true, exists_const,
          List.append_cancel_left_eq, upToExit]
        split
        · rename_i hexit
          exact iff_of_true rfl (.inl hexit)
        · rename_i hexit
          rw [List.cons.injEq, eq_comm (a := []), upToExit_eq_nil]
          exact ⟨fun h => .inr h.2, fun h => ⟨rfl, h.resolve_left hexit⟩⟩
      | hangs =>
        have hend : s'.progress = .hangs := hprogress.trans hran
        simp [iterate_of_stopped (s := s') (by rw [hend]; exact nofun), hend]

/-- **The loop consumes its input once and ends exactly when something stops it in time**, with nobody reading along. -/
theorem consumesOnce_iff (client : Client) (turns : Nat → Turn) (input : Bytes) :
    ConsumesOnce client turns input ↔ EndsInTime client turns 0 input (Lines.lines 10 input) :=
  consumes_iff (Lines.lines 10 input) (start input) rfl rfl

/-- One LOGOUT and the end of the input, and nobody reads along: the server is sent LOGOUT again with every pass. -/
theorem logout_repeated :
    ((pass (Client.initializeListener 5000) (fun _ => ⟨0, [], .returns (.data okLogout)⟩))^[3]
      (start (lit "LOGOUT"))).executed = [lit "LOGOUT", lit "LOGOUT", lit "LOGOUT"] ∧
    ¬ ConsumesOnce (Client.initializeListener 5000) (fun _ => ⟨0, [], .returns (.data okLogout)⟩) (lit "LOGOUT") := by
  refine ⟨by decide, fun h => ?_⟩
  have hends := (consumes_iff (Lines.lines 10 (lit "LOGOUT")) (start (lit "LOGOUT")) rfl rfl).1 h
  exact hends.2.2

end CommandLoop

end ChatRoom
