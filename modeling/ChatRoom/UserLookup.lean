import ChatRoom.ConnectionPresence
/-!
# UserLookup — what `findUser` and `getActiveUsers` show of the database

Both rest on the record of a user carrying the user's name (`Represents.named`).  `findUser` shows the users that are
logged in and no others, against its header (`findsUser_iff`).  `getActiveUsers` shows the same users, whatever order it
visits the entries in, with what GETINFO answers for them (`getActiveUsers_agrees`).
-/
namespace ChatRoom

open UserManager (Call Returned Represents heard presence)

namespace UserManager

theorem Represents.named {m : UserManager} {d : Directory.Dir Bytes Bytes Endpoint} (h : Represents m d) {u : Bytes}
    {r : User} (hr : m.find u = some r) : r.username = u := by
  rw [h u] at hr
  obtain ⟨acc, -, rfl⟩ := Option.map_eq_some_iff.1 hr
  rfl

theorem named_final (past : List Call) {u : Bytes} {r : User} (hr : (Machine.final call empty past).find u = some r) :
    r.username = u :=
  (represents_final past).1.named hr

theorem findUser_eq_some {m : UserManager} {u : Bytes} {r : User} :
    m.findUser u = some r ↔ m.find u = some r ∧ r.isLoggedIn = true := by
  rw [findUser_eq, Option.filter_eq_some_iff]

/-! ## By the history of calls -/

/-- Where the last successful `loginUser` or `logoutUser` of `u` put it. -/
def whereabouts (u : Bytes) (past : List (Call × Returned)) : Option Endpoint :=
  Directory.lastPresence u (past.map heard)

theorem presence_final (past : List Call) (u : Bytes) :
    (Machine.final call empty past).presence u = whereabouts u (Machine.trace call empty past) := by
  unfold whereabouts Directory.lastPresence
  rw [List.filterMap_map]
  exact Machine.final_lastWrite call (fun m => m.presence u) (Directory.movement u ∘ heard)
    (fun m c => presence_call m c u) past empty

/-- What the header says of `findUser u` after the calls: the registered users are found, each with its record. -/
structure FindsUser (past : List Call) (u : Bytes) : Prop where
  found : ((Machine.final call empty past).findUser u).isSome ↔ ∃ p, Call.registerUser u p ∈ past
  record : ∀ it, (Machine.final call empty past).findUser u = some it → it.username = u ∧
    (it.isLoggedIn = true ↔ (whereabouts u (Machine.trace call empty past)).isSome) ∧
    (it.isLoggedIn = true → whereabouts u (Machine.trace call empty past) = some (it.ipAddress, it.port)) ∧
    (it.isLoggedIn = false → it.ipAddress = [] ∧ it.port = 0)

theorem findUser_isSome (past : List Call) (u : Bytes) :
    ((Machine.final call empty past).findUser u).isSome = (whereabouts u (Machine.trace call empty past)).isSome := by
  rw [← presence_final, presence, Option.isSome_map]

theorem registered_of_findUser (past : List Call) {u : Bytes} {it : User}
    (h : (Machine.final call empty past).findUser u = some it) : ∃ p, Call.registerUser u p ∈ past := by
  by_contra hno
  have hnone := (find_isNone_by_history past u).2 ((firstPassword_eq_none u past).2 (not_exists.1 hno))
  rw [(findUser_eq_some.1 h).1] at hnone
  cases hnone

/-- **A user that is found is found with its record.** -/
theorem findUser_record (past : List Call) {u : Bytes} {it : User}
    (h : (Machine.final call empty past).findUser u = some it) :
    it.username = u ∧ it.isLoggedIn = true ∧
      whereabouts u (Machine.trace call empty past) = some (it.ipAddress, it.port) := by
  obtain ⟨hfind, hin⟩ := findUser_eq_some.1 h
  refine ⟨named_final past hfind, hin, ?_⟩
  rw [← presence_final, presence, h, Option.map_some]

/-- **`findUser` does what its header says exactly of the users that are logged in or were never registered.** -/
theorem findsUser_iff (past : List Call) (u : Bytes) :
    FindsUser past u ↔
      ((∃ p, Call.registerUser u p ∈ past) → (whereabouts u (Machine.trace call empty past)).isSome) := by
  constructor
  · intro h hreg
    rw [← findUser_isSome]
    exact h.found.2 hreg
  · intro hin
    refine ⟨⟨fun hsome => ?_, fun hreg => ?_⟩, fun it hit => ?_⟩
    · obtain ⟨it, hit⟩ := Option.isSome_iff_exists.1 hsome
      exact registered_of_findUser past hit
    · rw [findUser_isSome]
      exact hin hreg
    · obtain ⟨hname, hlogged, hlast⟩ := findUser_record past hit
      refine ⟨hname, ?_, fun _ => hlast, fun hno => ?_⟩
      · simp [hlogged, hlast]
      · rw [hlogged] at hno
        cases hno

/-- A registered user is not found before its first login. -/
theorem registered_not_found : ¬ FindsUser [.registerUser (lit "alice") (lit "password123")] (lit "alice") := by
  intro h
  have hsome := h.found.2 ⟨lit "password123", List.mem_singleton_self _⟩
  exact absurd hsome (by decide)

/-! ## `getActiveUsers` -/

/-- The loop visits every entry once, in any order. -/
def Iterates (m : UserManager) (iteration : List (Sigma (fun _ : Bytes => User))) : Prop :=
  iteration.Perm m.userDatabase.entries

theorem Iterates.mem {m : UserManager} {iteration : List (Sigma (fun _ : Bytes => User))} (h : Iterates m iteration)
    {entry : Sigma (fun _ : Bytes => User)} : entry ∈ iteration ↔ m.find entry.1 = some entry.2 := by
  rw [List.Perm.mem_iff h]
  exact AList.mem_lookup_iff.symm

theorem mem_getActiveUsers {m : UserManager} {iteration : List (Sigma (fun _ : Bytes => User))}
    (h : Iterates m iteration) (r : User) : r ∈ getActiveUsers iteration ↔ ∃ u, m.findUser u = some r := by
  simp only [getActiveUsers, List.mem_map, List.mem_filter, findUser_eq_some]
  constructor
  · rintro ⟨entry, ⟨hmem, hin⟩, rfl⟩
    exact ⟨entry.1, h.mem.1 hmem, hin⟩
  · rintro ⟨u, hfind, hin⟩
    exact ⟨⟨u, r⟩, ⟨h.mem.2 hfind, hin⟩, rfl⟩

/-- The names that are shown are keys, so none is shown twice. -/
theorem nodup_getActiveUsers {m : UserManager} {iteration : List (Sigma (fun _ : Bytes => User))}
    (h : Iterates m iteration) (hnamed : ∀ u r, m.find u = some r → r.username = u) :
    ((getActiveUsers iteration).map User.username).Nodup := by
  have hkeys : (iteration.map Sigma.fst).Nodup :=
    (h.map Sigma.fst).nodup_iff.2 m.userDatabase.nodupKeys
  have hsame : (getActiveUsers iteration).map User.username =
      (iteration.filter (fun entry => entry.2.isLoggedIn)).map Sigma.fst := by
    rw [getActiveUsers, List.map_map]
    apply List.map_congr_left
    intro entry hmem
    exact hnamed entry.1 entry.2 (h.mem.1 (List.mem_filter.1 hmem).1)
  rw [hsame]
  exact (List.filter_sublist.map Sigma.fst).nodup hkeys

end UserManager

open UserManager

/-- The GETINFO branch of `processData`, for a name of any bytes. -/
def getinfo (m : UserManager) (targetUsername : Bytes) : Bytes :=
  match m.findUser targetUsername with
  | some user => if user.isLoggedIn then okInfo user.ipAddress user.port else errUserNotFound
  | none => errUserNotFound

theorem processData_getinfo (clientAddr : InAddr) (m : UserManager) {data u : Bytes}
    (h : readRequest data = .getinfo u) : (processData clientAddr m data).reply = getinfo m u := by
  unfold processData
  rw [h]
  rfl

theorem getinfo_of_some {m : UserManager} {u : Bytes} {r : User} (h : m.findUser u = some r) :
    getinfo m u = okInfo r.ipAddress r.port := by
  unfold getinfo
  rw [h]
  exact if_pos (findUser_eq_some.1 h).2

theorem ok_okInfo (ip : Bytes) (port : UInt16) : lit "OK " <+: okInfo ip port :=
  ⟨ip ++ lit ":" ++ stdToString port.toNat, by simp [okInfo]⟩

theorem not_ok_errUserNotFound : ¬ lit "OK " <+: errUserNotFound := by decide

theorem getinfo_ok (m : UserManager) (u : Bytes) : lit "OK " <+: getinfo m u ↔ (m.findUser u).isSome := by
  cases hu : m.findUser u with
  | none => simp [getinfo, hu, not_ok_errUserNotFound]
  | some r => simp [getinfo_of_some hu, ok_okInfo]

/-- **`getActiveUsers` agrees with GETINFO**, after any calls and whatever order the entries come in: no name twice, the
names GETINFO answers OK for, and for each the address and the port of that answer. -/
theorem getActiveUsers_agrees (past : List Call) (iteration : List (Sigma (fun _ : Bytes => User)))
    (h : Iterates (Machine.final call empty past) iteration) :
    let m := Machine.final call empty past
    ((getActiveUsers iteration).map User.username).Nodup ∧
    (∀ u, (∃ user ∈ getActiveUsers iteration, user.username = u) ↔ lit "OK " <+: getinfo m u) ∧
    (∀ user ∈ getActiveUsers iteration, getinfo m user.username = okInfo user.ipAddress user.port) ∧
    (∀ clientAddr data u, readRequest data = .getinfo u → (processData clientAddr m data).reply = getinfo m u) := by
  intro m
  have hnamed : ∀ u r, m.findUser u = some r → r.username = u := fun u r hr =>
    named_final past (findUser_eq_some.1 hr).1
  refine ⟨nodup_getActiveUsers h (fun u r => named_final past), fun u => ?_, fun user hmem => ?_, ?_⟩
  · rw [getinfo_ok, Option.isSome_iff_exists]
    constructor
    · rintro ⟨user, hmem, rfl⟩
      obtain ⟨v, hv⟩ := (mem_getActiveUsers h user).1 hmem
      rw [hnamed v user hv]
      exact ⟨user, hv⟩
    · rintro ⟨user, hu⟩
      exact ⟨user, (mem_getActiveUsers h user).2 ⟨u, hu⟩, hnamed u user hu⟩
  · obtain ⟨v, hv⟩ := (mem_getActiveUsers h user).1 hmem
    rw [hnamed v user hv]
    exact getinfo_of_some hv
  · intro clientAddr data u hreq
    exact processData_getinfo clientAddr m hreq

/-- Two users registered and one logged in, the entries visited in the order of the database. -/
theorem getActiveUsers_agrees_alice :
    let m := Machine.final call empty [.registerUser (lit "alice") (lit "password123"),
      .registerUser (lit "bob") (lit "securepass"),
      .loginUser (lit "alice") (lit "password123") (lit "192.168.1.2") 5001]
    (getActiveUsers m.userDatabase.entries).map User.username = [lit "alice"] ∧
      ∀ user ∈ getActiveUsers m.userDatabase.entries, getinfo m user.username = okInfo user.ipAddress user.port := by
  intro m
  exact ⟨by decide, (getActiveUsers_agrees _ m.userDatabase.entries (.refl _)).2.2.1⟩

end ChatRoom
