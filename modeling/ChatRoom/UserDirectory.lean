import ChatRoom.UserManager
/-!
# UserDirectory — the user database is a directory

A database *represents* a directory when each record is the one its account stands for (`Represents`): the key, the hash
of the secret, the endpoint while present and otherwise `""` and 0.  Every call keeps this and answers as the directory
does (`represents_call`), so a database grown from an empty one represents a directory (`represents_final`), and what a
history of calls says of credentials is the directory's law (`authentication_by_history`).
-/
namespace ChatRoom

abbrev Endpoint := Bytes × UInt16

namespace UserManager

open Directory (Account Dir Op Answer)

/-- The record that an account stands for. -/
def accountUser (u : Bytes) (acc : Account Bytes Endpoint) : User :=
  { username := u
    passwordHash := hashPassword acc.secret
    ipAddress := (acc.presence.map Prod.fst).getD []
    port := (acc.presence.map Prod.snd).getD 0
    isLoggedIn := acc.presence.isSome }

def Represents (m : UserManager) (d : Dir Bytes Bytes Endpoint) : Prop := ∀ u, m.find u = (d u).map (accountUser u)

/-- What a call asks of the directory. -/
def Call.op : Call → Op Bytes Bytes Endpoint
  | .registerUser username password => .enrol username password
  | .loginUser username password ipAddress port => .enter username password (ipAddress, port)
  | .logoutUser username => .leave username
  | .findUser username => .ask username

def Returned.answer : Returned → Answer Endpoint
  | .bool b => .done b
  | .user it => .found (it.map (fun r => (r.ipAddress, r.port)))

theorem represents_empty : Represents empty Dir.empty := fun _ => rfl

theorem Represents.update {m m' : UserManager} {d : Dir Bytes Bytes Endpoint} (h : Represents m d) (u : Bytes)
    (acc : Account Bytes Endpoint)
    (hm : ∀ v, m'.find v = if v = u then some (accountUser u acc) else m.find v) :
    Represents m' (Function.update d u (some acc)) := by
  intro v
  rw [hm v]
  by_cases hv : v = u
  · subst hv; simp
  · rw [if_neg hv, Function.update_of_ne hv, h v]

theorem Represents.keep {m m' : UserManager} {d : Dir Bytes Bytes Endpoint} (h : Represents m d) (u : Bytes)
    (hm : ∀ v, m'.find v = if v = u then m.find u else m.find v) : Represents m' d := by
  intro v
  rw [hm v]
  split
  · rename_i hv; rw [hv]; exact h u
  · exact h v

theorem Represents.find {m : UserManager} {d : Dir Bytes Bytes Endpoint} (h : Represents m d) {u : Bytes}
    {x : Option (Account Bytes Endpoint)} (hd : d u = x) : m.find u = x.map (accountUser u) := by
  rw [h u, hd]

/-- **A call does to the database what it asks of the directory, and returns the directory's answer.** -/
theorem represents_call {m : UserManager} {d : Dir Bytes Bytes Endpoint} (h : Represents m d) (c : Call) :
    Represents (m.call c).1 (Directory.step d c.op).1 ∧ (m.call c).2.answer = (Directory.step d c.op).2 := by
  cases c with
  | registerUser u p =>
    simp only [call, Call.op, Directory.step, Returned.answer, registerUser_snd]
    cases hd : d u with
    | none =>
      have hu := h.find hd
      exact ⟨h.update u ⟨p, none⟩ (fun v => by rw [find_registerUser, hu]; rfl), by rw [hu]; rfl⟩
    | some acc =>
      have hu := h.find hd
      exact ⟨h.keep u (fun v => by rw [find_registerUser, hu]; rfl), by rw [hu]; rfl⟩
  | loginUser u p ip port =>
    have hash : ∀ q, hashPassword p = hashPassword q ↔ q = p := fun q => hashPassword_inj.trans eq_comm
    simp only [call, Call.op, Directory.step, Returned.answer, loginUser_snd]
    cases hd : d u with
    | none =>
      have hu := h.find hd
      exact ⟨h.keep u (fun v => by rw [find_loginUser, hu]; rfl), by rw [hu]; rfl⟩
    | some acc =>
      have hu := h.find hd
      by_cases hp : acc.secret = p
      · simp only [if_pos hp]
        refine ⟨h.update u ⟨acc.secret, some (ip, port)⟩ (fun v => ?_), ?_⟩
        · rw [find_loginUser, hu]; simp [accountUser, hp]
        · rw [hu]; simp [accountUser, hp]
      · simp only [if_neg hp]
        refine ⟨h.keep u (fun v => ?_), ?_⟩
        · rw [find_loginUser, hu]; simp [accountUser, hash, hp]
        · rw [hu]; simp [accountUser, hash, hp]
  | logoutUser u =>
    simp only [call, Call.op, Directory.step, Returned.answer, logoutUser_snd]
    rcases hd : d u with _ | ⟨p, _ | e⟩
    · have hu := h.find hd
      exact ⟨h.keep u (fun v => by rw [find_logoutUser, hu]; rfl), by rw [hu]; rfl⟩
    · have hu := h.find hd
      exact ⟨h.keep u (fun v => by rw [find_logoutUser, hu]; rfl), by rw [hu]; rfl⟩
    · have hu := h.find hd
      exact ⟨h.update u ⟨p, none⟩ (fun v => by rw [find_logoutUser, hu]; rfl), by rw [hu]; rfl⟩
  | findUser u =>
    refine ⟨h, ?_⟩
    simp only [call, Call.op, Directory.step, Returned.answer, findUser_eq, Directory.presenceOf]
    rcases hd : d u with _ | ⟨p, _ | e⟩ <;> rw [h.find hd] <;> rfl

/-- Where a user is, as far as `findUser` tells. -/
def presence (m : UserManager) (u : Bytes) : Option Endpoint := (m.findUser u).map (fun r => (r.ipAddress, r.port))

theorem presence_eq (m : UserManager) (u : Bytes) :
    m.presence u = (m.find u).bind (fun r => if r.isLoggedIn then some (r.ipAddress, r.port) else none) := by
  rw [presence, findUser_eq]
  cases m.find u with
  | none => rfl
  | some r => cases h : r.isLoggedIn <;> simp [Option.filter_some, h]

/-- **What a call does to a user's presence**, on any database: it shows in what it returns. -/
theorem presence_call (m : UserManager) (c : Call) (u : Bytes) :
    (m.call c).1.presence u = (Directory.movement u (c.op, (m.call c).2.answer)).getD (m.presence u) := by
  rw [presence_eq, presence_eq]
  cases c with
  | registerUser v p =>
    simp only [call, Call.op, Returned.answer, Directory.movement, Option.getD_none, find_registerUser]
    split
    · rename_i hu; rw [hu]; cases m.find v <;> rfl
    · rfl
  | loginUser v p ip port =>
    simp only [call, Call.op, Returned.answer, loginUser_snd, find_loginUser]
    by_cases hu : u = v
    · subst hu
      rw [if_pos rfl]
      cases m.find u with
      | none => rfl
      | some r => by_cases hp : hashPassword p = r.passwordHash <;> simp [Directory.movement, hp]
    · rw [if_neg hu]
      cases (m.find v).any (fun r => decide (hashPassword p = r.passwordHash)) <;>
        simp [Directory.movement, Ne.symm hu]
  | logoutUser v =>
    simp only [call, Call.op, Returned.answer, logoutUser_snd, find_logoutUser]
    by_cases hu : u = v
    · subst hu
      rw [if_pos rfl]
      cases m.find u with
      | none => rfl
      | some r => cases hl : r.isLoggedIn <;> simp [Directory.movement, hl]
    · rw [if_neg hu]
      cases (m.find v).any User.isLoggedIn <;> simp [Directory.movement, Ne.symm hu]
  | findUser v => rfl

/-- **A record out of presence is blank** in a database that represents a directory. -/
theorem Represents.blank {m : UserManager} {d : Dir Bytes Bytes Endpoint} (h : Represents m d) {u : Bytes} {r : User}
    (hr : m.find u = some r) (hl : r.isLoggedIn = false) : r.ipAddress = [] ∧ r.port = 0 := by
  rw [h u] at hr
  obtain ⟨⟨p, _ | e⟩, -, rfl⟩ := Option.map_eq_some_iff.1 hr
  · exact ⟨rfl, rfl⟩
  · cases hl

def heard (e : Call × Returned) : Op Bytes Bytes Endpoint × Answer Endpoint := (e.1.op, e.2.answer)

/-- **A database grown from an empty one represents a directory**, and the two have the same history. -/
theorem represents_final (past : List Call) :
    Represents (Machine.final call empty past) (Machine.final Directory.step Dir.empty (past.map Call.op)) ∧
      (Machine.trace call empty past).map heard = Machine.trace Directory.step Dir.empty (past.map Call.op) := by
  have := Machine.simulates call Directory.step Represents (fun _ => True) (fun c => some c.op)
    (fun e => some (heard e))
    (fun m d c hR _ => ⟨(represents_call hR c).1, by rw [heard, (represents_call hR c).2]⟩)
    past empty Dir.empty represents_empty (fun _ _ => trivial)
  simpa only [List.filterMap_eq_map'] using this

/-! ## Credentials -/

/-- The password of a user's first registration among the calls. -/
def firstPassword (u : Bytes) (past : List Call) : Option Bytes :=
  past.findSome? (fun
    | .registerUser username password => if username = u then some password else none
    | _ => none)

theorem firstPassword_eq_none (u : Bytes) (past : List Call) :
    firstPassword u past = none ↔ ∀ q, Call.registerUser u q ∉ past := by
  unfold firstPassword
  rw [List.findSome?_eq_none_iff]
  constructor
  · intro h q hq
    have := h _ hq
    simp at this
  · intro h c hc
    cases c with
    | registerUser v q =>
      simp only [ite_eq_right_iff, reduceCtorEq, imp_false]
      rintro rfl
      exact h q hc
    | _ => rfl

theorem firstSecret_heard (u : Bytes) (past : List Call) (m : UserManager) :
    Directory.firstSecret u ((Machine.trace call m past).map heard) = firstPassword u past := by
  have hfst : ((Machine.trace call m past).map heard).map Prod.fst = past.map Call.op := by
    rw [List.map_map, ← Machine.map_fst_trace call past m, List.map_map, Machine.map_fst_trace]
    rfl
  unfold Directory.firstSecret firstPassword
  rw [hfst, List.findSome?_map]
  congr 1
  funext c
  cases c <;> rfl

/-- A registered user's record holds the hash of the password of its first registration, whatever was called since. -/
theorem passwordHash_by_history (past : List Call) (u : Bytes) :
    ((Machine.final call empty past).find u).map User.passwordHash = (firstPassword u past).map hashPassword := by
  obtain ⟨hR, htr⟩ := represents_final past
  have hsec := Directory.final_secretOf (past.map Call.op) u
  rw [← htr, firstSecret_heard] at hsec
  rw [hR u, Option.map_map, ← hsec, Directory.secretOf, Option.map_map]
  rfl

theorem firstPassword_append (u : Bytes) (past later : List Call) :
    firstPassword u (past ++ later) = (firstPassword u past).or (firstPassword u later) := by
  unfold firstPassword
  rw [List.findSome?_append]

theorem find_isNone_by_history (past : List Call) (u : Bytes) :
    ((Machine.final call empty past).find u).isNone = true ↔ firstPassword u past = none := by
  have hash := passwordHash_by_history past u
  rw [← Option.isNone_map (f := User.passwordHash), hash, Option.isNone_map, Option.isNone_iff_eq_none]

/-- **Credentials stay**: whatever is called later, a record keeps its key and its hash. -/
theorem passwordHash_kept (past later : List Call) (u : Bytes) {r : User}
    (hr : (Machine.final call empty past).find u = some r) :
    ∃ r', (Machine.final call (Machine.final call empty past) later).find u = some r' ∧ r'.username = u ∧
      r'.passwordHash = r.passwordHash := by
  -- the later state is that of the whole history, whose first registration lies in `past`
  have hash := passwordHash_by_history past u
  have hlater := passwordHash_by_history (past ++ later) u
  obtain ⟨hR, -⟩ := represents_final (past ++ later)
  rw [Machine.final_append] at hlater hR
  rw [hr, Option.map_some] at hash
  cases hf : firstPassword u past with
  | none => rw [hf] at hash; cases hash
  | some q =>
    rw [hf, Option.map_some] at hash
    rw [firstPassword_append, hf, Option.some_or, Option.map_some, ← hash] at hlater
    obtain ⟨r', hr', hsame⟩ := Option.map_eq_some_iff.1 hlater
    refine ⟨r', hr', ?_, hsame⟩
    rw [hR u] at hr'
    obtain ⟨acc, -, hacc⟩ := Option.map_eq_some_iff.1 hr'
    rw [← hacc]
    rfl

/-- **Authentication is sound and complete over whole histories**: a registration succeeds exactly when the user was
never registered before, a login exactly with the password of the first registration, and whatever is called later the
user's credentials stay. -/
theorem authentication_by_history (past : List Call) (u : Bytes) :
    let m := Machine.final call empty past
    (∀ p, (m.registerUser u p).2 = true ↔ ∀ q, Call.registerUser u q ∉ past) ∧
    (∀ p ip port, (m.loginUser u p ip port).2 = true ↔ firstPassword u past = some p) ∧
    (∀ r, m.find u = some r → ∀ later, ∃ r', (Machine.final call m later).find u = some r' ∧
      r'.username = u ∧ r'.passwordHash = r.passwordHash) := by
  intro m
  have hash := passwordHash_by_history past u
  have hnone := find_isNone_by_history past u
  refine ⟨fun p => ?_, fun p ip port => ?_, fun r hr later => passwordHash_kept past later u hr⟩
  · rw [registerUser_snd, hnone, firstPassword_eq_none]
  · rw [loginUser_snd]
    cases hm : m.find u with
    | none =>
      rw [hm] at hnone
      simp [hnone.1 rfl]
    | some r =>
      rw [hm, Option.map_some] at hash
      cases hf : firstPassword u past with
      | none => rw [hf] at hash; cases hash
      | some q =>
        rw [hf, Option.map_some, Option.some.injEq] at hash
        simp [hash, hashPassword_inj, eq_comm]

end UserManager

end ChatRoom
