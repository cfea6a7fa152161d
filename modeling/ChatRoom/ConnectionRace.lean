import Mathlib.Data.Fintype.Basic
import Mathlib.Data.List.Induction
import ChatRoom.ConnectionPresence
/-!
# ConnectionRace — GETINFO against the other connections

The same `processData`, at the grain at which connections interleave: a call of the database is one step, and so is each
field that the GETINFO branch reads through the pointer `findUser` gave it, after `userMutex_` is released.  C++ leaves
open whether the address or the port of the reply is read first; here it is the address.  One connection by itself
computes `processData` (`exec_solo`).  Among others, its reply can join fields of different moments (`torn_getinfo`); it
is that of one moment in every run where no call takes the user out of presence, or to another address, under a GETINFO
that has begun to read (`getinfo_atomic`).
-/
namespace ChatRoom

open UserManager (Call Returned)

/-- Where a connection stands. -/
inductive Stage
  | idle -- in `recv`
  | received (data : Bytes) -- a chunk came; `userManager_` is not called yet
  | found (u : Bytes) -- GETINFO: `findUser` returned the user's node
  | loggedIn (u : Bytes) -- GETINFO: `user->isLoggedIn` was true
  | addressed (u ipAddress : Bytes) -- GETINFO: `user->ipAddress` was read
  | replying (reply : Bytes) -- the reply is made; `sendData` comes next
  deriving DecidableEq, Repr

structure Race (κ : Type) where
  manager : UserManager
  stage : κ → Stage

/-- One step, of the connection it names. -/
inductive Act (κ : Type)
  | recv (c : κ) (data : Bytes)
  | call (c : κ)
  | readIsLoggedIn (c : κ)
  | readIpAddress (c : κ)
  | readPort (c : κ)
  | send (c : κ)
  deriving DecidableEq, Repr

def Act.conn {κ : Type} : Act κ → κ
  | .recv c _ => c
  | .call c => c
  | .readIsLoggedIn c => c
  | .readIpAddress c => c
  | .readPort c => c
  | .send c => c

namespace Race

variable {κ : Type} (peer : κ → InAddr)

def start : Race κ := ⟨UserManager.empty, fun _ => .idle⟩

/-- The critical section of a chunk, and where it leaves its connection. -/
def dispatch (clientAddr : InAddr) (m : UserManager) (data : Bytes) : UserManager × Stage :=
  match asked clientAddr data with
  | none => (m, .replying errUnknownCommand)
  | some c => ((m.call c).1, match c, (m.call c).2 with
    | .findUser u, .user (some _) => .found u
    | c, returned => .replying (replyTo c returned))

variable [DecidableEq κ]

def goto (s : Race κ) (c : κ) (st : Stage) : Race κ := { s with stage := Function.update s.stage c st }

@[simp] theorem goto_manager (s : Race κ) (c : κ) (st : Stage) : (s.goto c st).manager = s.manager := rfl

@[simp] theorem goto_stage_self (s : Race κ) (c : κ) (st : Stage) : (s.goto c st).stage c = st :=
  Function.update_self ..

theorem goto_stage_of_ne (s : Race κ) {c c' : κ} (h : c' ≠ c) (st : Stage) : (s.goto c st).stage c' = s.stage c' :=
  Function.update_of_ne h ..

/-- A read through the pointer, which is the user's node in the database. -/
def readThrough (s : Race κ) (c : κ) (u : Bytes) (next : User → Stage) : Option (Race κ) :=
  (s.manager.find u).map (fun user => s.goto c (next user))

def step (s : Race κ) : Act κ → Option (Race κ)
  | .recv c data =>
    match s.stage c with
    | .idle => some (s.goto c (.received data))
    | _ => none
  | .call c =>
    match s.stage c with
    | .received data =>
      let (manager, next) := dispatch (peer c) s.manager data
      some ({ s with manager := manager }.goto c next)
    | _ => none
  | .readIsLoggedIn c =>
    match s.stage c with
    | .found u => s.readThrough c u (fun user => if user.isLoggedIn then .loggedIn u else .replying errUserNotFound)
    | _ => none
  | .readIpAddress c =>
    match s.stage c with
    | .loggedIn u => s.readThrough c u (fun user => .addressed u user.ipAddress)
    | _ => none
  | .readPort c =>
    match s.stage c with
    | .addressed u ipAddress => s.readThrough c u (fun user => .replying (okInfo ipAddress user.port))
    | _ => none
  | .send c =>
    match s.stage c with
    | .replying _ => some (s.goto c .idle)
    | _ => none

/-! ## What a step does -/

theorem readThrough_eq_some {s t : Race κ} {c : κ} {u : Bytes} {next : User → Stage}
    (h : s.readThrough c u next = some t) : ∃ user, s.manager.find u = some user ∧ t = s.goto c (next user) := by
  obtain ⟨user, hu, ht⟩ := Option.map_eq_some_iff.1 h
  exact ⟨user, hu, ht.symm⟩

theorem step_recv {s t : Race κ} {c : κ} {data : Bytes} (h : step peer s (.recv c data) = some t) :
    s.stage c = .idle ∧ t = s.goto c (.received data) := by
  simp only [step] at h
  split at h
  · rename_i hs; exact ⟨hs, (Option.some.inj h).symm⟩
  · cases h

theorem step_call {s t : Race κ} {c : κ} (h : step peer s (.call c) = some t) :
    ∃ data, s.stage c = .received data ∧
      t = Race.goto { s with manager := (dispatch (peer c) s.manager data).1 } c
        (dispatch (peer c) s.manager data).2 := by
  simp only [step] at h
  split at h
  · rename_i data hs; exact ⟨data, hs, (Option.some.inj h).symm⟩
  · cases h

theorem step_readIsLoggedIn {s t : Race κ} {c : κ} (h : step peer s (.readIsLoggedIn c) = some t) :
    ∃ u user, s.stage c = .found u ∧ s.manager.find u = some user ∧
      t = s.goto c (if user.isLoggedIn then .loggedIn u else .replying errUserNotFound) := by
  simp only [step] at h
  split at h
  · rename_i u hs; obtain ⟨user, hu, ht⟩ := readThrough_eq_some h; exact ⟨u, user, hs, hu, ht⟩
  · cases h

theorem step_readIpAddress {s t : Race κ} {c : κ} (h : step peer s (.readIpAddress c) = some t) :
    ∃ u user, s.stage c = .loggedIn u ∧ s.manager.find u = some user ∧ t = s.goto c (.addressed u user.ipAddress) := by
  simp only [step] at h
  split at h
  · rename_i u hs; obtain ⟨user, hu, ht⟩ := readThrough_eq_some h; exact ⟨u, user, hs, hu, ht⟩
  · cases h

theorem step_readPort {s t : Race κ} {c : κ} (h : step peer s (.readPort c) = some t) :
    ∃ u ip user, s.stage c = .addressed u ip ∧ s.manager.find u = some user ∧
      t = s.goto c (.replying (okInfo ip user.port)) := by
  simp only [step] at h
  split at h
  · rename_i u ip hs; obtain ⟨user, hu, ht⟩ := readThrough_eq_some h; exact ⟨u, ip, user, hs, hu, ht⟩
  · cases h

theorem step_send {s t : Race κ} {c : κ} (h : step peer s (.send c) = some t) :
    (∃ reply, s.stage c = .replying reply) ∧ t = s.goto c .idle := by
  simp only [step] at h
  split at h
  · rename_i reply hs; exact ⟨⟨reply, hs⟩, (Option.some.inj h).symm⟩
  · cases h

/-- **A step moves its own connection only.** -/
theorem stage_of_ne {s t : Race κ} {a : Act κ} (h : step peer s a = some t) {c : κ} (hc : c ≠ a.conn) :
    t.stage c = s.stage c := by
  cases a with
  | recv c' data => obtain ⟨-, rfl⟩ := step_recv peer h; exact goto_stage_of_ne s hc _
  | call c' => obtain ⟨data, -, rfl⟩ := step_call peer h; exact goto_stage_of_ne _ hc _
  | readIsLoggedIn c' => obtain ⟨u, user, -, -, rfl⟩ := step_readIsLoggedIn peer h; exact goto_stage_of_ne s hc _
  | readIpAddress c' => obtain ⟨u, user, -, -, rfl⟩ := step_readIpAddress peer h; exact goto_stage_of_ne s hc _
  | readPort c' => obtain ⟨u, ip, user, -, -, rfl⟩ := step_readPort peer h; exact goto_stage_of_ne s hc _
  | send c' => obtain ⟨-, rfl⟩ := step_send peer h; exact goto_stage_of_ne s hc _

/-- **Only a call changes the database.** -/
theorem manager_of_step {s t : Race κ} {a : Act κ} (h : step peer s a = some t) :
    t.manager = s.manager ∨ ∃ c data, a = .call c ∧ s.stage c = .received data ∧
      t.manager = (dispatch (peer c) s.manager data).1 := by
  cases a with
  | recv c data => obtain ⟨-, rfl⟩ := step_recv peer h; exact .inl rfl
  | call c => obtain ⟨data, hs, rfl⟩ := step_call peer h; exact .inr ⟨c, data, rfl, hs, rfl⟩
  | readIsLoggedIn c => obtain ⟨u, user, -, -, rfl⟩ := step_readIsLoggedIn peer h; exact .inl rfl
  | readIpAddress c => obtain ⟨u, user, -, -, rfl⟩ := step_readIpAddress peer h; exact .inl rfl
  | readPort c => obtain ⟨u, ip, user, -, -, rfl⟩ := step_readPort peer h; exact .inl rfl
  | send c => obtain ⟨-, rfl⟩ := step_send peer h; exact .inl rfl

/-! ## One connection by itself -/

/-- A chunk is answered in its critical section, unless it is the GETINFO of a user who is logged in. -/
theorem dispatch_cases (addr : InAddr) (m : UserManager) (data : Bytes) :
    dispatch addr m data = ((processData addr m data).manager, .replying (processData addr m data).reply) ∨
    ∃ u user, asked addr data = some (.findUser u) ∧ m.find u = some user ∧ user.isLoggedIn = true ∧
      dispatch addr m data = (m, .found u) ∧
      processData addr m data = ⟨m, [.findUser u], okInfo user.ipAddress user.port⟩ := by
  rw [processData_eq, dispatch]
  rcases asked addr data with _ | c
  · exact .inl rfl
  · cases c with
    | findUser u =>
      simp only [UserManager.call, UserManager.findUser_eq]
      cases hu : m.find u with
      | none => exact .inl rfl
      | some user =>
        by_cases hl : user.isLoggedIn = true
        · exact .inr ⟨u, user, rfl, hu, hl, by rw [Option.filter_some, if_pos hl],
            by rw [Option.filter_some, if_pos hl, replyTo, if_pos hl]⟩
        · exact .inl (by rw [Option.filter_some, if_neg hl])
    | _ => exact .inl rfl

/-- **The steps of a connection that runs by itself compute `processData`.** -/
theorem exec_solo (s : Race κ) (c : κ) (data : Bytes) (hs : s.stage c = .received data) :
    ∃ as : List (Act κ), (∀ a ∈ as, a.conn = c) ∧ ∃ t, Machine.exec (step peer) s as = some t ∧
      t.manager = (processData (peer c) s.manager data).manager ∧
      t.stage c = .replying (processData (peer c) s.manager data).reply := by
  have hcall : step peer s (.call c) = some (Race.goto { s with manager := (dispatch (peer c) s.manager data).1 } c
      (dispatch (peer c) s.manager data).2) := by simp only [step, hs]
  rcases dispatch_cases (peer c) s.manager data with hd | ⟨u, user, -, hu, hl, hd, hp⟩
  · rw [hd] at hcall
    exact ⟨[.call c], by simp [Act.conn], _, Machine.exec_singleton hcall, rfl, goto_stage_self ..⟩
  · refine ⟨[.call c, .readIsLoggedIn c, .readIpAddress c, .readPort c], by simp [Act.conn],
      s.goto c (.replying (okInfo user.ipAddress user.port)), ?_, by rw [hp]; rfl, by rw [hp]; exact goto_stage_self ..⟩
    simp [Machine.exec, step, hs, hd, readThrough, hu, hl, goto]

/-! ## The endpoint in a reply -/

/-- The run has an OK LOGIN of `u` that installed the endpoint. -/
def InstalledBy (run : List (Act κ)) (u : Bytes) (e : Endpoint) : Prop :=
  ∃ before c after s data password ip port, run = before ++ .call c :: after ∧
    Machine.exec (step peer) start before = some s ∧ s.stage c = .received data ∧
    readRequest data = .login u password ip port ∧ e = (inetNtoa (peer c), toUint16 (atoi (cStr port))) ∧
    (s.manager.loginUser u password e.1 e.2).2 = true

/-- Every GETINFO that is answered OK has a moment, after its chunk came, at which the user was logged in with exactly
the address and port of the reply, which one OK LOGIN had installed. -/
def InfoAtomic (run : List (Act κ)) : Prop :=
  ∀ pre c data mid s u ip port, run = pre ++ .recv c data :: mid → (∀ d, Act.recv c d ∉ mid) →
    Machine.exec (step peer) start run = some s → readRequest data = .getinfo u →
    s.stage c = .replying (okInfo ip port) →
    ∃ mid₁ mid₂ s₁, mid = mid₁ ++ mid₂ ∧ Machine.exec (step peer) start (pre ++ .recv c data :: mid₁) = some s₁ ∧
      s₁.manager.presence u = some (ip, port) ∧ InstalledBy peer (pre ++ .recv c data :: mid₁) u (ip, port)

def afterCall (s : Race κ) (c : κ) : UserManager :=
  match s.stage c with
  | .received data => (dispatch (peer c) s.manager data).1
  | _ => s.manager

/-- A GETINFO at this stage does not mind the database `m` giving way to `m'`: the user stays present once `isLoggedIn`
was read, and at its address once the address was read. -/
def undisturbed (m m' : UserManager) : Stage → Prop
  | .loggedIn u => (m.presence u).isSome = true → (m'.presence u).isSome = true
  | .addressed u _ => (m'.presence u).map Prod.fst = (m.presence u).map Prod.fst
  | _ => True

instance (m m' : UserManager) : (st : Stage) → Decidable (undisturbed m m' st)
  | .loggedIn u => inferInstanceAs (Decidable ((m.presence u).isSome = true → (m'.presence u).isSome = true))
  | .addressed u _ => inferInstanceAs (Decidable ((m'.presence u).map Prod.fst = (m.presence u).map Prod.fst))
  | .idle => isTrue trivial
  | .received _ => isTrue trivial
  | .found _ => isTrue trivial
  | .replying _ => isTrue trivial

/-- A call that disturbs no GETINFO in progress; the other steps call nothing. -/
def Calm (s : Race κ) : Act κ → Prop
  | .call c => ∀ c', undisturbed s.manager (s.afterCall peer c) (s.stage c')
  | _ => True

instance [Fintype κ] (s : Race κ) : (a : Act κ) → Decidable (Calm peer s a)
  | .call c => inferInstanceAs (Decidable (∀ c', undisturbed s.manager (s.afterCall peer c) (s.stage c')))
  | .recv _ _ => isTrue trivial
  | .readIsLoggedIn _ => isTrue trivial
  | .readIpAddress _ => isTrue trivial
  | .readPort _ => isTrue trivial
  | .send _ => isTrue trivial

/-- What a GETINFO in progress has read still holds. -/
def settled (m : UserManager) : Stage → Prop
  | .loggedIn u => (m.presence u).isSome = true
  | .addressed u ip => ∃ port, m.presence u = some (ip, port)
  | _ => True

def Settled (s : Race κ) : Prop := ∀ c, settled s.manager (s.stage c)

theorem settled_of_undisturbed {m m' : UserManager} {st : Stage} (h : settled m st) (hu : undisturbed m m' st) :
    settled m' st := by
  cases st with
  | loggedIn u => exact hu h
  | addressed u ip =>
    obtain ⟨port, hp⟩ := h
    have haddr : (m'.presence u).map Prod.fst = some ip := hu.trans (by rw [hp]; rfl)
    obtain ⟨e, he, rfl⟩ := Option.map_eq_some_iff.1 haddr
    exact ⟨e.2, he⟩
  | _ => trivial

theorem presence_of_find {m : UserManager} {u : Bytes} {user : User} (h : m.find u = some user) :
    m.presence u = if user.isLoggedIn then some (user.ipAddress, user.port) else none := by
  rw [UserManager.presence_eq, h]
  rfl

/-- **Calm steps keep what was read.** -/
theorem settled_step {s t : Race κ} {a : Act κ} (hs : Settled s) (hcalm : Calm peer s a)
    (h : step peer s a = some t) : Settled t := by
  intro c
  by_cases hc : c = a.conn
  · subst hc
    cases a with
    | recv c data => obtain ⟨-, rfl⟩ := step_recv peer h; rw [Act.conn, goto_stage_self]; trivial
    | call c =>
      obtain ⟨data, -, rfl⟩ := step_call peer h
      rw [Act.conn, goto_stage_self]
      rcases dispatch_cases (peer c) s.manager data with hd | ⟨u, user, -, -, -, hd, -⟩ <;> rw [hd] <;> trivial
    | readIsLoggedIn c =>
      obtain ⟨u, user, -, hu, rfl⟩ := step_readIsLoggedIn peer h
      rw [Act.conn, goto_stage_self, goto_manager]
      split
      · rename_i hl
        show (s.manager.presence u).isSome = true
        rw [presence_of_find hu, if_pos hl]
        rfl
      · trivial
    | readIpAddress c =>
      obtain ⟨u, user, hst, hu, rfl⟩ := step_readIpAddress peer h
      have hin := hs c
      rw [hst] at hin
      have hpres := presence_of_find hu
      rw [Act.conn, goto_stage_self, goto_manager]
      split at hpres
      · exact ⟨user.port, hpres⟩
      · rw [settled, hpres] at hin; cases hin
    | readPort c => obtain ⟨u, ip, user, -, -, rfl⟩ := step_readPort peer h; rw [Act.conn, goto_stage_self]; trivial
    | send c => obtain ⟨-, rfl⟩ := step_send peer h; rw [Act.conn, goto_stage_self]; trivial
  · rw [stage_of_ne peer h hc]
    rcases manager_of_step peer h with hm | ⟨c', data, rfl, hst, hm⟩
    · rw [hm]; exact hs c
    · have hafter : s.afterCall peer c' = t.manager := by rw [hm, afterCall, hst]
      exact settled_of_undisturbed (hs c) (hafter ▸ hcalm c)

/-- **A presence in a run was installed by one OK LOGIN of it.** -/
theorem presence_installed (run : List (Act κ)) : ∀ (s : Race κ) (u : Bytes) (e : Endpoint),
    Machine.exec (step peer) start run = some s → s.manager.presence u = some e → InstalledBy peer run u e := by
  induction run using List.reverseRecOn with
  | nil =>
    intro s u e h hp
    cases h
    cases hp
  | append_singleton run a ih =>
    intro t u e h hp
    obtain ⟨s, hs, hstep⟩ := Machine.exec_concat_eq_some.1 h
    have hback : s.manager.presence u = some e → InstalledBy peer (run ++ [a]) u e := by
      intro hp
      obtain ⟨before, c, after, s', data, p, ip, port, hrun, hrest⟩ := ih s u e hs hp
      exact ⟨before, c, after ++ [a], s', data, p, ip, port, by rw [hrun]; simp, hrest⟩
    rcases manager_of_step peer hstep with hm | ⟨c, data, rfl, hst, hm⟩
    · exact hback (hm ▸ hp)
    · have hserve : t.manager = (serve peer s.manager (c, data)).1 := by
        rw [hm]
        rcases dispatch_cases (peer c) s.manager data with hd | ⟨v, user, -, -, -, hd, hpd⟩
        · rw [hd]; rfl
        · rw [hd, serve, hpd]
      rw [hserve, serve_presence] at hp
      cases hw : presenceWrite peer u ((c, data), (serve peer s.manager (c, data)).2) with
      | none => rw [hw] at hp; exact hback hp
      | some w =>
        rw [hw, Option.getD_some] at hp
        obtain ⟨p, ip, port, hreq, hok, rfl⟩ := okLogin_of_presenceWrite peer (hw.trans (congrArg some hp))
        rw [serve_eq, asked, hreq] at hok
        refine ⟨run, c, [], s, data, p, ip, port, rfl, hs, hst, hreq, rfl, ?_⟩
        by_contra hno
        rw [Bool.not_eq_true] at hno
        simp only [Request.call, UserManager.call, hno, replyTo] at hok
        exact okLogin_ne hok

/-! ## The reply of a GETINFO -/

/-- How far the GETINFO of `u` in `data` is; `seen` are the endpoints that `u` was at since the chunk came. -/
def Along (u data : Bytes) (seen : Endpoint → Prop) : Stage → Prop
  | .idle => True
  | .received d => d = data
  | .found v => v = u
  | .loggedIn v => v = u
  | .addressed v _ => v = u
  | .replying reply => ∀ ip port, reply = okInfo ip port → seen (ip, port)

theorem Along.mono {u data : Bytes} {seen seen' : Endpoint → Prop} (h : ∀ e, seen e → seen' e) {st : Stage}
    (hst : Along u data seen st) : Along u data seen' st := by
  cases st with
  | replying reply => exact fun ip port heq => h _ (hst ip port heq)
  | _ => exact hst

/-- A GETINFO answered in its critical section is answered with where the user is. -/
theorem processData_seen {addr : InAddr} {m : UserManager} {u data ip : Bytes} {port : UInt16}
    (hreq : readRequest data = .getinfo u) (h : (processData addr m data).reply = okInfo ip port) :
    m.presence u = some (ip, port) := by
  have hserve := serve_getinfo (fun _ : Unit => addr) m ((), data) u hreq
  rw [serve, h] at hserve
  cases hp : m.presence u with
  | none => rw [hp] at hserve; exact absurd hserve.symm (okInfo_ne ip port)
  | some e =>
    rw [hp] at hserve
    obtain ⟨hip, hport⟩ := okInfo_inj hserve
    rw [hip, hport]

/-- **A step of the run keeps a GETINFO along**, where what it has read still holds: the read of the port completes a
reply that holds at that moment. -/
theorem along_step {s t : Race κ} {a : Act κ} {c : κ} {u data : Bytes} {seen : Endpoint → Prop}
    (hreq : readRequest data = .getinfo u) (hset : settled s.manager (s.stage c)) (hnot : ∀ d, a ≠ .recv c d)
    (hal : Along u data seen (s.stage c)) (h : step peer s a = some t) :
    Along u data (fun e => seen e ∨ s.manager.presence u = some e) (t.stage c) := by
  by_cases hc : c = a.conn
  · subst hc
    cases a with
    | recv c d => exact absurd rfl (hnot d)
    | call c =>
      obtain ⟨d, hst, rfl⟩ := step_call peer h
      rw [Act.conn] at hal
      rw [hst] at hal
      obtain rfl : d = data := hal
      rw [Act.conn, goto_stage_self]
      rcases dispatch_cases (peer c) s.manager d with hd | ⟨v, user, hask, -, -, hd, -⟩
      · rw [hd]
        exact fun ip port heq => .inr (processData_seen hreq heq)
      · rw [asked, hreq] at hask
        cases hask
        rw [hd]
        rfl
    | readIsLoggedIn c =>
      obtain ⟨v, user, hst, -, rfl⟩ := step_readIsLoggedIn peer h
      rw [Act.conn, hst] at hal
      rw [Act.conn, goto_stage_self]
      split
      · exact hal
      · exact fun ip port heq => absurd heq (okInfo_ne ip port)
    | readIpAddress c =>
      obtain ⟨v, user, hst, -, rfl⟩ := step_readIpAddress peer h
      rw [Act.conn, hst] at hal
      rw [Act.conn, goto_stage_self]
      exact hal
    | readPort c =>
      obtain ⟨v, ip, user, hst, hu, rfl⟩ := step_readPort peer h
      rw [Act.conn, hst] at hal hset
      obtain rfl : v = u := hal
      obtain ⟨port, hp⟩ := hset
      rw [Act.conn, goto_stage_self]
      intro ip' port' heq
      obtain ⟨rfl, rfl⟩ := okInfo_inj heq
      -- the address read before is still the user's, so it goes with the port read now
      have hnow := presence_of_find hu
      rw [hp] at hnow
      split at hnow
      · cases hnow; exact .inr hp
      · cases hnow
    | send c => obtain ⟨-, rfl⟩ := step_send peer h; rw [Act.conn, goto_stage_self]; trivial
  · rw [stage_of_ne peer h hc]
    exact hal.mono (fun e he => .inl he)

/-- The endpoints that `u` was at in the states that `mid` passes after `pre`. -/
def SeenDuring (pre mid : List (Act κ)) (u : Bytes) (e : Endpoint) : Prop :=
  ∃ mid₁ mid₂ s, mid = mid₁ ++ mid₂ ∧ Machine.exec (step peer) start (pre ++ mid₁) = some s ∧
    s.manager.presence u = some e

theorem settled_run {run : List (Act κ)} (hcalm : Machine.Meets (step peer) (Calm peer) start run) {s : Race κ}
    (h : Machine.exec (step peer) start run = some s) : Settled s :=
  Machine.exec_invariant (fun _ _ _ => settled_step peer) run
    (show Settled start from fun _ => trivial) hcalm h

/-- **A calm run keeps a GETINFO along**, from the step that received it on. -/
theorem along_run (pre : List (Act κ)) (c : κ) {u data : Bytes} (hreq : readRequest data = .getinfo u)
    (mid : List (Act κ)) : ∀ s, Machine.Meets (step peer) (Calm peer) start (pre ++ .recv c data :: mid) →
    (∀ d, Act.recv c d ∉ mid) → Machine.exec (step peer) start (pre ++ .recv c data :: mid) = some s →
    Along u data (SeenDuring peer (pre ++ [.recv c data]) mid u) (s.stage c) := by
  induction mid using List.reverseRecOn with
  | nil =>
    intro t _ _ h
    obtain ⟨s, -, hstep⟩ := Machine.exec_concat_eq_some.1 h
    obtain ⟨-, rfl⟩ := step_recv peer hstep
    rw [goto_stage_self]
    rfl
  | append_singleton mid a ih =>
    intro t hcalm hnot h
    have hsplit : pre ++ .recv c data :: (mid ++ [a]) = (pre ++ .recv c data :: mid) ++ [a] := by simp
    rw [hsplit] at hcalm h
    obtain ⟨s, hs, hstep⟩ := Machine.exec_concat_eq_some.1 h
    have hcalm' := (Machine.meets_append _ _ _ hcalm).1
    have hal := ih s hcalm' (fun d hd => hnot d (List.mem_append_left _ hd)) hs
    have hnow := along_step peer hreq (settled_run peer hcalm' hs c)
      (fun d hd => hnot d (List.mem_append_right _ (by rw [hd]; exact List.mem_singleton_self _))) hal hstep
    refine hnow.mono (fun e he => ?_)
    rcases he with ⟨mid₁, mid₂, s', hmid, hexec, hp⟩ | hp
    · exact ⟨mid₁, mid₂ ++ [a], s', by rw [hmid, List.append_assoc], hexec, hp⟩
    · exact ⟨mid, [a], s, rfl, by rw [List.append_assoc]; exact hs, hp⟩

/-- **In a calm run GETINFO is atomic.** -/
theorem getinfo_atomic (run : List (Act κ)) (hcalm : Machine.Meets (step peer) (Calm peer) start run) :
    InfoAtomic peer run := by
  intro pre c data mid s u ip port hrun hnot h hreq hst
  rw [hrun] at hcalm h
  have hal := along_run peer pre c hreq mid s hcalm hnot h
  rw [hst] at hal
  obtain ⟨mid₁, mid₂, s₁, hmid, hexec, hp⟩ := hal ip port rfl
  have hjoin : pre ++ [.recv c data] ++ mid₁ = pre ++ .recv c data :: mid₁ := by simp
  rw [hjoin] at hexec
  exact ⟨mid₁, mid₂, s₁, hmid, hexec, hp, presence_installed peer _ s₁ u _ hexec hp⟩

/-- A calm run: while connection 0 reads where `alice` is, connection 1 registers `bob`. -/
theorem getinfo_atomic_beside_register :
    InfoAtomic (κ := Fin 2) (fun _ => ⟨127, 0, 0, 1⟩)
      [.recv 1 (lit "REGISTER alice pw\n"), .call 1, .send 1, .recv 1 (lit "LOGIN alice pw 0.0.0.0 5001\n"), .call 1,
        .send 1, .recv 0 (lit "GETINFO alice\n"), .call 0, .readIsLoggedIn 0, .recv 1 (lit "REGISTER bob pw\n"),
        .readIpAddress 0, .call 1, .readPort 0] :=
  getinfo_atomic _ _ (by decide)

/-- The run that tears: `alice` logs out between the reads of her address and of her port, and connection 2 is told
`OK 127.0.0.1:0`, where she never was.  Of the two orders that C++ permits for these reads it is about the first. -/
theorem torn_getinfo : ¬ ∀ (peer : Nat → InAddr) (run : List (Act Nat)), InfoAtomic peer run := by
  intro hall
  obtain ⟨mid₁, mid₂, s₁, hmid, hexec, hp, -⟩ := hall (fun _ => ⟨127, 0, 0, 1⟩) _
    [.recv 1 (lit "REGISTER alice pw\n"), .call 1, .send 1, .recv 1 (lit "LOGIN alice pw 0.0.0.0 5001\n"), .call 1,
      .send 1]
    2 (lit "GETINFO alice\n")
    [.call 2, .readIsLoggedIn 2, .readIpAddress 2, .recv 1 (lit "LOGOUT alice\n"), .call 1, .readPort 2]
    _ (lit "alice") (lit "127.0.0.1") 0 rfl (by simp) rfl (by decide) rfl
  have hnever : ∀ l ∈ List.inits [Act.call 2, .readIsLoggedIn 2, .readIpAddress 2, .recv 1 (lit "LOGOUT alice\n"),
      .call 1, .readPort 2],
      (Machine.exec (step fun _ => ⟨127, 0, 0, 1⟩) start
        ([.recv 1 (lit "REGISTER alice pw\n"), .call 1, .send 1, .recv 1 (lit "LOGIN alice pw 0.0.0.0 5001\n"), .call 1,
          .send 1] ++ .recv 2 (lit "GETINFO alice\n") :: l)).bind (fun s => s.manager.presence (lit "alice")) ≠
        some (lit "127.0.0.1", 0) := by decide
  exact hnever mid₁ ((List.mem_inits _ _).2 ⟨mid₂, hmid.symm⟩) (by rw [hexec]; exact hp)

end Race

end ChatRoom
