import ChatRoom.Bytes
import ChatRoom.Directory
import Mathlib.Data.List.AList
/-!
# UserManager — the user database and its operations

`User`, `UserManager` and the operations that hold `userMutex_`, each one a function of the database.  The database is
an `AList`: one entry for each key, as in a `std::unordered_map`.  Each operation has two lemmas: what it returns, and
what `find` gives after it.
-/
namespace ChatRoom

structure User where
  username : Bytes
  passwordHash : Bytes
  ipAddress : Bytes
  port : UInt16
  isLoggedIn : Bool := false
  deriving DecidableEq, Repr

structure UserManager where
  userDatabase : AList (fun _ : Bytes => User)
  deriving DecidableEq

namespace UserManager

def empty : UserManager := ⟨∅⟩

def find (m : UserManager) (username : Bytes) : Option User := m.userDatabase.lookup username

/-- `userDatabase_[username] = user`, and what assigning to the fields of `it->second` amounts to. -/
def put (m : UserManager) (username : Bytes) (user : User) : UserManager := ⟨m.userDatabase.insert username user⟩

def hashPassword (password : Bytes) : Bytes := lit "hashed_" ++ password

def registerUser (m : UserManager) (username password : Bytes) : UserManager × Bool :=
  match m.find username with
  | some _ => (m, false)
  | none => (m.put username ⟨username, hashPassword password, [], 0, false⟩, true)

def loginUser (m : UserManager) (username password ipAddress : Bytes) (port : UInt16) : UserManager × Bool :=
  match m.find username with
  | none => (m, false)
  | some it =>
    if hashPassword password ≠ it.passwordHash then (m, false)
    else (m.put username { it with isLoggedIn := true, ipAddress := ipAddress, port := port }, true)

def logoutUser (m : UserManager) (username : Bytes) : UserManager × Bool :=
  match m.find username with
  | none => (m, false)
  | some it =>
    if !it.isLoggedIn then (m, false)
    else (m.put username { it with isLoggedIn := false, ipAddress := [], port := 0 }, true)

/-- The loop over `userDatabase_`, in the order `iteration` in which it visits the entries. -/
def getActiveUsers (iteration : List (Sigma (fun _ : Bytes => User))) : List User :=
  (iteration.filter (fun entry => entry.2.isLoggedIn)).map Sigma.snd

/-- The user that the returned pointer points to; `none` is the null pointer. -/
def findUser (m : UserManager) (username : Bytes) : Option User :=
  match m.find username with
  | some it => if it.isLoggedIn then some it else none
  | none => none

/-! ## What each operation does -/

@[simp] theorem find_empty (u : Bytes) : empty.find u = none := rfl

@[simp] theorem find_put (m : UserManager) (u v : Bytes) (r : User) :
    (m.put u r).find v = if v = u then some r else m.find v := by
  unfold find put
  by_cases h : v = u
  · subst h; rw [AList.lookup_insert, if_pos rfl]
  · rw [AList.lookup_insert_ne h, if_neg h]

theorem hashPassword_inj {p q : Bytes} : hashPassword p = hashPassword q ↔ p = q :=
  List.append_right_inj (lit "hashed_")

theorem registerUser_snd (m : UserManager) (u p : Bytes) : (m.registerUser u p).2 = (m.find u).isNone := by
  unfold registerUser
  cases m.find u <;> rfl

theorem find_registerUser (m : UserManager) (u p v : Bytes) :
    (m.registerUser u p).1.find v =
      if v = u then (m.find u).or (some ⟨u, hashPassword p, [], 0, false⟩) else m.find v := by
  unfold registerUser
  cases hu : m.find u with
  | none => simp
  | some r => by_cases h : v = u <;> simp [h, hu]

theorem loginUser_snd (m : UserManager) (u p ip : Bytes) (port : UInt16) :
    (m.loginUser u p ip port).2 = (m.find u).any (fun r => hashPassword p = r.passwordHash) := by
  unfold loginUser
  cases m.find u with
  | none => rfl
  | some r => by_cases h : hashPassword p = r.passwordHash <;> simp [h]

theorem find_loginUser (m : UserManager) (u p ip : Bytes) (port : UInt16) (v : Bytes) :
    (m.loginUser u p ip port).1.find v =
      if v = u then (m.find u).map (fun r =>
        if hashPassword p = r.passwordHash then { r with isLoggedIn := true, ipAddress := ip, port := port } else r)
      else m.find v := by
  unfold loginUser
  cases hu : m.find u with
  | none => by_cases h : v = u <;> simp [h, hu]
  | some r =>
    by_cases hp : hashPassword p = r.passwordHash
    · simp [hp]
    · by_cases h : v = u <;> simp [h, hu, hp]

theorem logoutUser_snd (m : UserManager) (u : Bytes) : (m.logoutUser u).2 = (m.find u).any User.isLoggedIn := by
  unfold logoutUser
  cases m.find u with
  | none => rfl
  | some r => cases h : r.isLoggedIn <;> simp [h]

theorem find_logoutUser (m : UserManager) (u v : Bytes) :
    (m.logoutUser u).1.find v =
      if v = u then (m.find u).map (fun r =>
        if r.isLoggedIn then { r with isLoggedIn := false, ipAddress := [], port := 0 } else r)
      else m.find v := by
  unfold logoutUser
  cases hu : m.find u with
  | none => by_cases h : v = u <;> simp [h, hu]
  | some r =>
    cases hl : r.isLoggedIn with
    | true => simp [hl]
    | false => by_cases h : v = u <;> simp [h, hu, hl]

theorem findUser_eq (m : UserManager) (u : Bytes) : m.findUser u = (m.find u).filter User.isLoggedIn := by
  unfold findUser
  cases m.find u with
  | none => rfl
  | some r => rw [Option.filter_some]

/-! ## Calls -/

inductive Call
  | registerUser (username password : Bytes)
  | loginUser (username password ipAddress : Bytes) (port : UInt16)
  | logoutUser (username : Bytes)
  | findUser (username : Bytes)
  deriving DecidableEq, Repr

inductive Returned
  | bool (b : Bool)
  | user (user : Option User)
  deriving DecidableEq, Repr

/-- One critical section: the call, whole, under `userMutex_`. -/
def call (m : UserManager) : Call → UserManager × Returned
  | .registerUser username password =>
    ((m.registerUser username password).1, .bool (m.registerUser username password).2)
  | .loginUser username password ipAddress port =>
    ((m.loginUser username password ipAddress port).1, .bool (m.loginUser username password ipAddress port).2)
  | .logoutUser username => ((m.logoutUser username).1, .bool (m.logoutUser username).2)
  | .findUser username => (m, .user (m.findUser username))

def Call.user : Call → Bytes
  | .registerUser username _ => username
  | .loginUser username .. => username
  | .logoutUser username => username
  | .findUser username => username

/-- **A call touches the record of the user it names only.** -/
theorem find_call_of_ne (m : UserManager) {c : Call} {u : Bytes} (h : u ≠ c.user) : (m.call c).1.find u = m.find u := by
  cases c with
  | registerUser v p => exact (find_registerUser m v p u).trans (if_neg h)
  | loginUser v p ip port => exact (find_loginUser m v p ip port u).trans (if_neg h)
  | logoutUser v => exact (find_logoutUser m v u).trans (if_neg h)
  | findUser v => rfl

/-- **What a call makes of a record depends on that record only.** -/
theorem find_call_congr {m m' : UserManager} (c : Call) {u : Bytes} (h : m.find u = m'.find u) :
    (m.call c).1.find u = (m'.call c).1.find u := by
  by_cases hu : u = c.user
  · subst hu
    cases c with
    | registerUser v p =>
      simp only [Call.user] at h
      simp only [call, Call.user, find_registerUser, h]
    | loginUser v p ip port =>
      simp only [Call.user] at h
      simp only [call, Call.user, find_loginUser, h]
    | logoutUser v =>
      simp only [Call.user] at h
      simp only [call, Call.user, find_logoutUser, h]
    | findUser v => exact h
  · rw [find_call_of_ne m hu, find_call_of_ne m' hu, h]

end UserManager

end ChatRoom
