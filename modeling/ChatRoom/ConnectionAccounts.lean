import ChatRoom.ConnectionPresence
/-!
# ConnectionAccounts — which accounts a run of chunks makes

`client.cpp` sends no REGISTER without a username and a password.  The server does not look: where a chunk has no such
word, the extraction leaves the string empty and the account is made with it.  What it does keep is that a record sits
under its own username, a word, with the password of the first REGISTER of it (`account_of_register`).
-/
namespace ChatRoom

open UserManager (Call Represents)

/-! ## The words of a REGISTER -/

theorem extract_nil : extract [] = ([], []) := rfl

/-- **The arguments of a REGISTER**: the username has no whitespace, and without a username there is no password. -/
theorem register_words {data u p : Bytes} (h : readRequest data = .register u p) :
    (∀ b ∈ u, isspace b = false) ∧ (u = [] → p = []) := by
  unfold readRequest at h
  dsimp only at h
  split at h
  · simp only [Request.register.injEq] at h
    obtain ⟨rfl, rfl⟩ := h
    refine ⟨fun b hb => Scan.sep_of_mem_word isspace hb, fun hnil => ?_⟩
    have hrest : (extract (extract data).2).2 = [] := Scan.word_snd_of_nil isspace hnil
    rw [hrest, extract_nil]
  · split at h
    · cases h
    · split at h
      · cases h
      · split at h <;> cases h

/-! ## A run -/

variable {κ : Type} (peer : κ → InAddr)

/-- The password word of a REGISTER of `u`. -/
def registerWrite (u : Bytes) (x : κ × Bytes) : Option Bytes :=
  match readRequest x.2 with
  | .register v p => if v = u then some p else none
  | _ => none

/-- The password word of the first REGISTER of `u` in a run. -/
def firstRegister (u : Bytes) (reqs : List (κ × Bytes)) : Option Bytes := reqs.findSome? (registerWrite u)

theorem registerWrite_eq_some {u p : Bytes} {x : κ × Bytes} :
    registerWrite u x = some p ↔ readRequest x.2 = .register u p := by
  unfold registerWrite
  cases readRequest x.2 with
  | register v q =>
    by_cases hv : v = u
    · simp [hv]
    · simp [hv]
  | _ => simp

theorem mem_of_firstRegister {u p : Bytes} {reqs : List (κ × Bytes)} (h : firstRegister u reqs = some p) :
    ∃ x ∈ reqs, readRequest x.2 = .register u p := by
  obtain ⟨x, hx, hw⟩ := List.exists_of_findSome?_eq_some h
  exact ⟨x, hx, registerWrite_eq_some.1 hw⟩

theorem serve_passwordHash (m : UserManager) (x : κ × Bytes) (u : Bytes) :
    ((serve peer m x).1.find u).map User.passwordHash =
      ((m.find u).map User.passwordHash).or ((registerWrite u x).map UserManager.hashPassword) := by
  rw [serve_eq]
  unfold registerWrite asked
  cases readRequest x.2 with
  | unknown => simp only [Request.call, Option.map_none, Option.or_none]
  | getinfo v => simp only [Request.call, UserManager.call, Option.map_none, Option.or_none]
  | register v p =>
    simp only [Request.call, UserManager.call, UserManager.find_registerUser]
    by_cases hv : u = v
    · subst hv
      cases m.find u <;> simp
    · rw [if_neg hv, if_neg (Ne.symm hv), Option.map_none, Option.or_none]
  | login v p ip port =>
    simp only [Request.call, UserManager.call, UserManager.find_loginUser, Option.map_none, Option.or_none]
    by_cases hv : u = v
    · subst hv
      simp only [if_true, Option.map_map, Function.comp_def, apply_ite User.passwordHash, ite_self]
    · rw [if_neg hv]
  | logout v =>
    simp only [Request.call, UserManager.call, UserManager.find_logoutUser, Option.map_none, Option.or_none]
    by_cases hv : u = v
    · subst hv
      simp only [if_true, Option.map_map, Function.comp_def, apply_ite User.passwordHash, ite_self]
    · rw [if_neg hv]

/-- **The account of a user is the one its first REGISTER made.** -/
theorem account_of_register (reqs : List (κ × Bytes)) (u : Bytes) :
    ((Machine.final (serve peer) UserManager.empty reqs).find u).map User.passwordHash =
        (firstRegister u reqs).map UserManager.hashPassword ∧
      ∀ r, (Machine.final (serve peer) UserManager.empty reqs).find u = some r → r.username = u := by
  constructor
  · have := Machine.final_firstWrite (serve peer) (fun m => (m.find u).map User.passwordHash)
      (fun x => (registerWrite u x).map UserManager.hashPassword) (fun m x => serve_passwordHash peer m x u) reqs
      UserManager.empty
    rw [this, firstRegister, UserManager.find_empty, Option.map_none, Option.none_or]
    exact (List.map_findSome? ..).symm
  · intro r hr
    obtain ⟨d, hd⟩ := represents_serve peer reqs
    rw [hd u] at hr
    obtain ⟨acc, -, rfl⟩ := Option.map_eq_some_iff.1 hr
    rfl

/-- A record of `u` as `client.cpp` would have it registered. -/
structure WellFormed (reqs : List (κ × Bytes)) (u : Bytes) (r : User) : Prop where
  nonempty : u ≠ []
  noSpace : ∀ b ∈ u, isspace b = false
  key : r.username = u
  password : ∃ p, p ≠ [] ∧ r.passwordHash = UserManager.hashPassword p ∧ ∃ x ∈ reqs, readRequest x.2 = .register u p

/-- **When every account is well formed**: exactly when the first REGISTER of each username has a password word. -/
theorem accounts_wellFormed (reqs : List (κ × Bytes)) :
    (∀ u r, (Machine.final (serve peer) UserManager.empty reqs).find u = some r → WellFormed reqs u r) ↔
      ∀ u, firstRegister u reqs ≠ some [] := by
  constructor
  · intro h u hfirst
    have hash := (account_of_register peer reqs u).1
    rw [hfirst, Option.map_some] at hash
    obtain ⟨r, hr, hr'⟩ := Option.map_eq_some_iff.1 hash
    obtain ⟨p, hp, hsame, -⟩ := (h u r hr).password
    rw [hr', UserManager.hashPassword_inj] at hsame
    exact hp hsame.symm
  · intro h u r hr
    obtain ⟨hash, hkey⟩ := account_of_register peer reqs u
    rw [hr, Option.map_some] at hash
    obtain ⟨p, hfirst, hp⟩ := Option.map_eq_some_iff.1 hash.symm
    have hne : p ≠ [] := by
      rintro rfl
      exact h u hfirst
    obtain ⟨x, hx, hreq⟩ := mem_of_firstRegister hfirst
    obtain ⟨hspace, hnil⟩ := register_words hreq
    exact ⟨fun hu => hne (hnil hu), hspace, hkey r hr, p, hne, hp.symm, x, hx, hreq⟩

/-- A REGISTER without arguments makes an account with an empty name. -/
theorem account_without_name :
    ¬ ∀ (peer : Nat → InAddr) (reqs : List (Nat × Bytes)) (u : Bytes) (r : User),
      (Machine.final (serve peer) UserManager.empty reqs).find u = some r → WellFormed reqs u r := by
  intro h
  exact (h (fun _ => ⟨127, 0, 0, 1⟩) [(0, lit "REGISTER\n")] []
    ⟨[], UserManager.hashPassword [], [], 0, false⟩ (by decide)).nonempty rfl

end ChatRoom
