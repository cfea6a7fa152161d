import ChatRoom.Bytes
import ChatRoom.Lines
import ChatRoom.Machine
import Mathlib.Data.List.Induction
/-!
# ArchiveUserDB — the file database of the stage-1 server

The file holds a line `username|password` for each registration, and is read from the start at every call.  The first
line whose part before the first `|` is the name decides (`entryOf`).  What a client sends may contain `|`, and newlines
where it ends its message with `\r\n`; a record with one of them in the wrong place is read back as something else.  The
file answers as a map of credentials exactly while no such record is written (`implementsMap_iff`).
-/
namespace ChatRoom
namespace Stage1

/-! ## The network reader -/

def maxMsgLen : Nat := 128

/-- `strstr(buf, "\r\n")`: what is before it. -/
def beforeCrLf : Bytes → Option Bytes
  | [] => none
  | [_] => none
  | a :: b :: rest => if a = 13 ∧ b = 10 then some [] else (beforeCrLf (b :: rest)).map (fun msg => a :: msg)

/-- The message in what `read` put into the zeroed buffer; `none` where no terminator is found in it, which is undefined
behaviour. -/
def readFromClient (received : Bytes) : Option Bytes :=
  let buf := cStr received
  match beforeCrLf buf with
  | some msg => some msg
  | none => if buf.length < maxMsgLen then (Lines.cut 10 buf).map Prod.fst else none

/-- A username or password: something `readFromClient` returned. -/
abbrev Message := { msg : Bytes // ∃ received, received.length ≤ maxMsgLen ∧ readFromClient received = some msg }

/-! ## The database -/

/-- The bytes of the file. -/
abbrev UserDB := Bytes

def userExist (db : UserDB) (username : Bytes) : Bool :=
  (Lines.lines 10 db).any (fun line => match Lines.cut 124 line with
    | some (dbUsername, _) => dbUsername = username
    | none => false)

/-- `username << '|' << passwd << '\n'` -/
def record (username passwd : Bytes) : Bytes := username ++ lit "|" ++ passwd ++ lit "\n"

def registerUser (db : UserDB) (username passwd : Bytes) : UserDB × Int :=
  if userExist db username then (db, 0) else (db ++ record username passwd, 1)

/-- The loop of `loginUser` over the lines of the file. -/
def loginLoop (username passwd : Bytes) : List Bytes → Int
  | [] => 0
  | line :: rest =>
    match Lines.cut 124 line with
    | some (dbUsername, dbPassword) =>
      if dbUsername = username then (if dbPassword = passwd then 1 else -1) else loginLoop username passwd rest
    | none => loginLoop username passwd rest

def loginUser (db : UserDB) (username passwd : Bytes) : Int := loginLoop username passwd (Lines.lines 10 db)

inductive Call
  | registerUser (username passwd : Message)
  | loginUser (username passwd : Message)

def call (db : UserDB) : Call → UserDB × Int
  | .registerUser username passwd => registerUser db username.1 passwd.1
  | .loginUser username passwd => (db, loginUser db username.1 passwd.1)

/-! ## The map it stands for -/

/-- The password that a call would register for the user `u`. -/
def Call.registration (u : Bytes) : Call → Option Bytes
  | .registerUser username passwd => if username.1 = u then some passwd.1 else none
  | .loginUser .. => none

/-- The password of a user's first registration among the calls. -/
def firstPassword (u : Bytes) (past : List Call) : Option Bytes := past.findSome? (Call.registration u)

/-- What a call should return after the calls `past`. -/
def expected (past : List Call) : Call → Int
  | .registerUser username _ => if (firstPassword username.1 past).isNone then 1 else 0
  | .loginUser username passwd =>
    match firstPassword username.1 past with
    | some q => if q = passwd.1 then 1 else -1
    | none => 0

/-- Every call of the run returns what it should. -/
def ImplementsMap (calls : List Call) : Prop :=
  ∀ past c later, calls = past ++ c :: later → (call (Machine.final call [] past) c).2 = expected past c

/-- A record that is read back as it was written. -/
def CleanRecord (username passwd : Bytes) : Prop := 124 ∉ username ∧ 10 ∉ username ∧ 10 ∉ passwd

/-- Every first registration of a user writes a clean record. -/
def Clean (calls : List Call) : Prop :=
  ∀ past username passwd later, calls = past ++ .registerUser username passwd :: later →
    firstPassword username.1 past = none → CleanRecord username.1 passwd.1

/-! ## What the file is read as -/

/-- The password on the first line of the user. -/
def entryOf (db : UserDB) (u : Bytes) : Option Bytes :=
  (Lines.lines 10 db).findSome? (fun line => match Lines.cut 124 line with
    | some (dbUsername, dbPassword) => if dbUsername = u then some dbPassword else none
    | none => none)

theorem userExist_eq (db : UserDB) (u : Bytes) : userExist db u = (entryOf db u).isSome := by
  unfold userExist entryOf
  induction Lines.lines 10 db with
  | nil => rfl
  | cons line rest ih =>
    rw [List.any_cons, List.findSome?_cons, ih]
    cases Lines.cut 124 line with
    | none => rfl
    | some pair => by_cases h : pair.1 = u <;> simp [h]

theorem loginUser_eq (db : UserDB) (u p : Bytes) :
    loginUser db u p = match entryOf db u with
      | some q => if q = p then 1 else -1
      | none => 0 := by
  unfold loginUser entryOf
  induction Lines.lines 10 db with
  | nil => rfl
  | cons line rest ih =>
    rw [loginLoop, List.findSome?_cons, ih]
    cases Lines.cut 124 line with
    | none => rfl
    | some pair => by_cases h : pair.1 = u <;> simp [h]

/-- **No name with a separator in it is ever read.** -/
theorem entryOf_eq_none {u : Bytes} (h : 124 ∈ u ∨ 10 ∈ u) (db : UserDB) : entryOf db u = none := by
  unfold entryOf
  rw [List.findSome?_eq_none_iff]
  intro line hline
  cases hcut : Lines.cut 124 line with
  | none => rfl
  | some pair =>
    obtain ⟨heq, hname⟩ := Lines.cut_eq_some.1 hcut
    have hnl : (10 : UInt8) ∉ pair.1 := fun hmem =>
      Lines.not_mem_of_mem_lines hline (heq ▸ List.mem_append_left _ hmem)
    refine if_neg ?_
    rintro rfl
    exact h.elim hname hnl

/-- A record at the front of a file: its first line carries the password up to its first newline. -/
theorem entryOf_cons {u q : Bytes} (hu : 124 ∉ u) (hnl : 10 ∉ u) (hq : 10 ∉ q) (rest v : Bytes) :
    entryOf (u ++ 124 :: q ++ 10 :: rest) v = if u = v then some q else entryOf rest v := by
  have hline : (10 : UInt8) ∉ u ++ 124 :: q := by simp [hnl, hq]
  unfold entryOf
  rw [Lines.lines_append hline, List.findSome?_cons, Lines.cut_append hu]
  by_cases h : u = v <;> simp [h]

theorem entryOf_record {u p : Bytes} (h : CleanRecord u p) (v : Bytes) :
    entryOf (record u p) v = if u = v then some p else none := by
  have hrec : record u p = u ++ 124 :: p ++ 10 :: [] := by simp [record, lit]
  rw [hrec, entryOf_cons h.1 h.2.1 h.2.2]
  rfl

/-- The file ends behind a newline. -/
def Terminated (db : UserDB) : Prop := db = [] ∨ ∃ l, db = l ++ [10]

theorem entryOf_append {db : UserDB} (h : Terminated db) (rest : Bytes) (v : Bytes) :
    entryOf (db ++ rest) v = (entryOf db v).or (entryOf rest v) := by
  unfold entryOf
  rcases h with rfl | ⟨l, rfl⟩
  · rfl
  · rw [Lines.lines_terminated, List.findSome?_append]

theorem terminated_call (db : UserDB) (c : Call) (h : Terminated db) : Terminated (call db c).1 := by
  cases c with
  | loginUser username passwd => exact h
  | registerUser username passwd =>
    unfold call registerUser
    dsimp only
    split
    · exact h
    · exact .inr ⟨db ++ (username.1 ++ lit "|" ++ passwd.1), by simp [record, lit]⟩

theorem terminated_final (calls : List Call) : Terminated (Machine.final call [] calls) :=
  Machine.final_invariant call Terminated terminated_call calls [] (.inl rfl)

/-- A registration writes its record where the name is not read yet, and nothing where it is. -/
theorem entryOf_registerUser {db : UserDB} (h : Terminated db) (u p v : Bytes) :
    entryOf (registerUser db u p).1 v =
      if (entryOf db u).isSome then entryOf db v else (entryOf db v).or (entryOf (record u p) v) := by
  unfold registerUser
  rw [userExist_eq]
  split
  · rfl
  · exact entryOf_append h (record u p) v

/-- What a name is read as stays, whatever is appended. -/
theorem entryOf_kept {db : UserDB} (h : Terminated db) {u q : Bytes} (hu : entryOf db u = some q) (later : List Call) :
    entryOf (Machine.final call db later) u = some q := by
  refine (Machine.final_invariant call (fun db => Terminated db ∧ entryOf db u = some q) (fun db c hdb => ?_) later db
    ⟨h, hu⟩).2
  refine ⟨terminated_call db c hdb.1, ?_⟩
  cases c with
  | loginUser username passwd => exact hdb.2
  | registerUser username passwd =>
    rw [call, entryOf_registerUser hdb.1, hdb.2, Option.some_or, ite_self]

/-! ## By history -/

theorem firstPassword_append (u : Bytes) (past later : List Call) :
    firstPassword u (past ++ later) = (firstPassword u past).or (firstPassword u later) := List.findSome?_append

/-- A call is answered from what its user is read as. -/
theorem answered {db : UserDB} {past : List Call} (h : ∀ u, entryOf db u = firstPassword u past) (c : Call) :
    (call db c).2 = expected past c := by
  cases c with
  | registerUser username passwd =>
    simp only [call, registerUser, expected, userExist_eq, h]
    cases firstPassword username.1 past <;> rfl
  | loginUser username passwd => simp only [call, expected, loginUser_eq, h]

theorem Clean.of_append {past later : List Call} (h : Clean (past ++ later)) : Clean past :=
  fun before u p after heq hfirst => h before u p (after ++ later) (by rw [heq]; simp) hfirst

/-- **One call that writes no unclean record.** -/
theorem entryOf_call {db : UserDB} (h : Terminated db) (c : Call)
    (hclean : ∀ u p, c = .registerUser u p → entryOf db u.1 = none → CleanRecord u.1 p.1) (v : Bytes) :
    entryOf (call db c).1 v = (entryOf db v).or (c.registration v) := by
  cases c with
  | loginUser username passwd => exact (Option.or_none).symm
  | registerUser username passwd =>
    rw [call, entryOf_registerUser h, Call.registration]
    cases hu : entryOf db username.1 with
    | none => rw [if_neg (by simp), entryOf_record (hclean username passwd rfl hu)]
    | some q =>
      -- the name is there already: nothing is written
      rw [if_pos (by simp)]
      split
      · rename_i hv
        rw [← hv, hu, Option.some_or]
      · rw [Option.or_none]

/-- **A clean run is read back as the map**, by induction on the calls. -/
theorem entryOf_final (calls : List Call) (h : Clean calls) (v : Bytes) :
    entryOf (Machine.final call [] calls) v = firstPassword v calls := by
  induction calls using List.reverseRecOn generalizing v with
  | nil => rfl
  | append_singleton calls c ih =>
    have ih := ih h.of_append
    have hlast : firstPassword v [c] = c.registration v := List.findSome?_singleton
    rw [Machine.final_append, Machine.final_cons, Machine.final_nil, firstPassword_append, hlast, ← ih v]
    refine entryOf_call (terminated_final calls) c (fun u p hc hnone => ?_) v
    subst hc
    exact h calls u p [] rfl (by rw [← ih u.1, hnone])

/-! ## When the file implements the map -/

/-- What the first registration of a name must be for the calls that follow it to be answered right. -/
theorem cleanRecord_of_answers {past later : List Call} {username passwd : Message}
    (hregister : (call (Machine.final call [] past) (.registerUser username passwd)).2 = 1)
    (hlogin :
      loginUser (Machine.final call [] (past ++ .registerUser username passwd :: later)) username.1 passwd.1 = 1) :
    CleanRecord username.1 passwd.1 := by
  have hnew : entryOf (Machine.final call [] past) username.1 = none := by
    simp only [call, registerUser, userExist_eq] at hregister
    cases hu : entryOf (Machine.final call [] past) username.1 with
    | none => rfl
    | some q => rw [hu] at hregister; cases hregister
  have hread : entryOf (Machine.final call [] (past ++ .registerUser username passwd :: later)) username.1 =
      some passwd.1 := by
    rw [loginUser_eq] at hlogin
    split at hlogin
    · rename_i q hq
      split at hlogin
      · rename_i hsame
        rw [hq, hsame]
      · cases hlogin
    · cases hlogin
  have hname : ¬ (124 ∈ username.1 ∨ 10 ∈ username.1) := by
    intro hsep
    rw [entryOf_eq_none hsep] at hread
    cases hread
  rw [not_or] at hname
  refine ⟨hname.1, hname.2, fun hnl => ?_⟩
  -- a newline in the password: only what is before it is read back
  obtain ⟨q, tail, hpasswd, hq⟩ := List.eq_append_cons_of_mem hnl
  have hrec : record username.1 passwd.1 = username.1 ++ 124 :: q ++ 10 :: (tail ++ [10]) := by
    simp [record, lit, hpasswd]
  have hwritten :
      entryOf (call (Machine.final call [] past) (.registerUser username passwd)).1 username.1 = some q := by
    rw [call, entryOf_registerUser (terminated_final past), hnew, if_neg (by simp), Option.none_or, hrec,
      entryOf_cons hname.1 hname.2 hq, if_pos rfl]
  have hkept := entryOf_kept (terminated_call _ _ (terminated_final past)) hwritten later
  rw [Machine.final_append, Machine.final_cons, hkept, Option.some.injEq, hpasswd] at hread
  simp at hread

/-- **The file answers a run, and any call after it, as a map of credentials exactly when every first registration of a
user writes a clean record.** -/
theorem implementsMap_iff (calls : List Call) : (∀ c, ImplementsMap (calls ++ [c])) ↔ Clean calls := by
  constructor
  · intro h past username passwd later heq hfirst
    have hlast := h (.loginUser username passwd)
    have hfirstOf : firstPassword username.1 calls = some passwd.1 := by
      rw [heq, firstPassword_append, hfirst, Option.none_or]
      simp [firstPassword, Call.registration]
    have hregister := hlast past (.registerUser username passwd) (later ++ [.loginUser username passwd])
      (by rw [heq]; simp)
    have hlogin := hlast calls (.loginUser username passwd) [] rfl
    rw [expected, hfirst] at hregister
    rw [expected, hfirstOf, heq] at hlogin
    exact cleanRecord_of_answers hregister (by simpa [call] using hlogin)
  · intro h c past c' later heq
    have hprefix : past <+: calls := by
      have hlen := congrArg List.length heq
      simp only [List.length_append, List.length_cons, List.length_nil] at hlen
      exact List.prefix_of_prefix_length_le ⟨c' :: later, heq.symm⟩ (List.prefix_append calls [c]) (by omega)
    obtain ⟨rest, rfl⟩ := hprefix
    exact answered (entryOf_final past h.of_append) c'

/-- What is typed as one line. -/
def typed (msg : String) (h : ((lit msg) ++ lit "\r\n").length ≤ maxMsgLen ∧
    readFromClient (lit msg ++ lit "\r\n") = some (lit msg)) : Message := ⟨lit msg, _, h⟩

/-- A name with a `|` in it: its owner is told that it is not registered. -/
theorem separator_in_name :
    ¬ ImplementsMap [.registerUser (typed "a|b" (by decide)) (typed "pw" (by decide)),
      .loginUser (typed "a|b" (by decide)) (typed "pw" (by decide))] := by
  intro h
  have hlogin := h [.registerUser (typed "a|b" (by decide)) (typed "pw" (by decide))] _ [] rfl
  exact absurd hlogin (by decide)

end Stage1
end ChatRoom
