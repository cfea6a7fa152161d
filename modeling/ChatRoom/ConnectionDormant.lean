import ChatRoom.ConnectionIndependence
/-!
# ConnectionDormant — an account nobody logs in to

Two databases side by side: one without the user `u`, the other with `u` registered and logged out, otherwise the same.
Every request but a REGISTER of `u` and a LOGIN of `u` with its password keeps them so and is answered alike
(`serve_beside`), so nothing shows that the account is there (`dormant_invisible`).
-/
namespace ChatRoom

open UserManager (Call)

/-- The record that registering `u` with `p` installs. -/
def dormantUser (u p : Bytes) : User := ⟨u, UserManager.hashPassword p, [], 0, false⟩

/-- `m'` is `m` with the dormant account of `u` added. -/
structure Beside (u p : Bytes) (m m' : UserManager) : Prop where
  others : ∀ v, v ≠ u → m'.find v = m.find v
  absent : m.find u = none
  dormant : m'.find u = some (dormantUser u p)

/-- Neither a REGISTER of `u` nor a LOGIN of `u` with password `p`. -/
def Quiet (u p data : Bytes) : Prop :=
  (∀ q, readRequest data ≠ .register u q) ∧ ∀ ip port, readRequest data ≠ .login u p ip port

instance (u p data : Bytes) : Decidable (Quiet u p data) :=
  decidable_of_iff ((match readRequest data with
    | .register v _ => decide (v ≠ u)
    | .login v q _ _ => decide (v = u → q ≠ p)
    | _ => true) = true) (by
      unfold Quiet
      cases readRequest data with
      | login v q ip port =>
        simp only [decide_eq_true_eq, ne_eq, reduceCtorEq, not_false_eq_true, implies_true, true_and,
          Request.login.injEq]
        grind
      | _ => simp)

/-- **The calls of a quiet request on `u` itself**: none changes a record, and each returns the same whether `u` is
absent or dormant. -/
theorem call_beside {u p : Bytes} {m m' : UserManager} (h : Beside u p m m') (c : Call) (hc : c.user = u)
    (hregister : ∀ q, c ≠ .registerUser u q) (hlogin : ∀ ip port, c ≠ .loginUser u p ip port) :
    (m.call c).1.find u = none ∧ (m'.call c).1.find u = some (dormantUser u p) ∧ (m.call c).2 = (m'.call c).2 := by
  cases c with
  | registerUser v q =>
    simp only [Call.user] at hc
    exact absurd (hc ▸ rfl) (hregister q)
  | loginUser v q ip port =>
    simp only [Call.user] at hc
    subst hc
    have hq : UserManager.hashPassword q ≠ (dormantUser v p).passwordHash := by
      intro hash
      apply hlogin ip port
      rw [UserManager.hashPassword_inj.1 hash]
    simp only [UserManager.call, UserManager.find_loginUser, UserManager.loginUser_snd, if_true, h.absent, h.dormant,
      Option.map_none, Option.map_some, if_neg hq, Option.any_none, Option.any_some, decide_eq_false hq, and_self]
  | logoutUser v =>
    simp only [Call.user] at hc
    subst hc
    simp only [UserManager.call, UserManager.find_logoutUser, UserManager.logoutUser_snd, if_true, h.absent, h.dormant]
    exact ⟨rfl, rfl, rfl⟩
  | findUser v =>
    simp only [Call.user] at hc
    subst hc
    simp only [UserManager.call, UserManager.findUser_eq, h.absent, h.dormant]
    exact ⟨trivial, trivial, rfl⟩

variable {κ : Type} (peer : κ → InAddr)

/-- **A quiet request keeps the two databases side by side and is answered alike.** -/
theorem serve_beside {u p : Bytes} {m m' : UserManager} (h : Beside u p m m') (x : κ × Bytes) (hx : Quiet u p x.2) :
    Beside u p (serve peer m x).1 (serve peer m' x).1 ∧ (serve peer m x).2 = (serve peer m' x).2 := by
  have hothers : ∀ v, v ≠ u → (serve peer m' x).1.find v = (serve peer m x).1.find v :=
    fun v hv => find_serve_congr peer x (h.others v hv)
  by_cases hu : ∃ c, asked (peer x.1) x.2 = some c ∧ c.user = u
  · obtain ⟨c, hc, hcu⟩ := hu
    obtain ⟨habsent, hdormant, hsame⟩ := call_beside h c hcu
      (fun q hq => hx.1 q (by
        unfold asked at hc
        cases hreq : readRequest x.2 <;> rw [hreq, hq] at hc <;> cases hc
        rfl))
      (fun ip port hq => by
        unfold asked at hc
        cases hreq : readRequest x.2 <;> rw [hreq, hq] at hc <;> cases hc
        exact hx.2 _ _ hreq)
    have hserve : ∀ n : UserManager, serve peer n x = ((n.call c).1, replyTo c (n.call c).2) := fun n => by
      rw [serve_eq, hc]
    rw [hserve m, hserve m'] at hothers ⊢
    exact ⟨⟨hothers, habsent, hdormant⟩, by rw [hsame]⟩
  · have hne : ∀ c, asked (peer x.1) x.2 = some c → u ≠ c.user := fun c hc he => hu ⟨c, hc, he.symm⟩
    refine ⟨⟨hothers, ?_, ?_⟩, reply_serve_congr peer x (fun c hc => (h.others _ (Ne.symm (hne c hc))).symm)⟩
    · rw [find_serve_of_ne peer m x u hne, h.absent]
    · rw [find_serve_of_ne peer m' x u hne, h.dormant]

theorem trace_beside {u p : Bytes} {m m' : UserManager} (h : Beside u p m m') (reqs : List (κ × Bytes))
    (hreqs : ∀ x ∈ reqs, Quiet u p x.2) :
    Beside u p (Machine.final (serve peer) m reqs) (Machine.final (serve peer) m' reqs) ∧
      Machine.trace (serve peer) m reqs = Machine.trace (serve peer) m' reqs := by
  have := Machine.simulates (serve peer) (serve peer) (Beside u p) (fun x => Quiet u p x.2) some some
    (fun m m' x hR hx => ⟨(serve_beside peer hR x hx).1, by rw [(serve_beside peer hR x hx).2]⟩) reqs m m' h hreqs
  simpa only [List.filterMap_some] using this

theorem beside_register {u p : Bytes} {m : UserManager} (hu : m.find u = none) (x : κ × Bytes)
    (hx : readRequest x.2 = .register u p) :
    Beside u p m (serve peer m x).1 ∧ (serve peer m x).2 = okRegistered := by
  rw [serve_eq, asked, hx]
  simp only [Request.call, UserManager.call, replyTo, UserManager.registerUser_snd, hu, Option.isNone_none, if_true,
    and_true]
  constructor
  · intro v hv
    rw [UserManager.find_registerUser, if_neg hv]
  · exact hu
  · rw [UserManager.find_registerUser, if_pos rfl, hu]
    rfl

/-- **A dormant account is invisible**: registering `u` at any point of a run that neither registers `u` nor logs in to
it with its password changes no other reply, and leaves a logged-out blank record of `u` as the only difference. -/
theorem dormant_invisible (m : UserManager) (u p : Bytes) (hu : m.find u = none) (pre post : List (κ × Bytes))
    (hquiet : ∀ x ∈ pre ++ post, Quiet u p x.2) (inserted : κ × Bytes)
    (hinserted : readRequest inserted.2 = .register u p) :
    (∃ rest, Machine.trace (serve peer) m (pre ++ post) = Machine.trace (serve peer) m pre ++ rest ∧
      Machine.trace (serve peer) m (pre ++ inserted :: post) =
        Machine.trace (serve peer) m pre ++ (inserted, okRegistered) :: rest) ∧
    (∀ v, v ≠ u → (Machine.final (serve peer) m (pre ++ inserted :: post)).find v =
      (Machine.final (serve peer) m (pre ++ post)).find v) ∧
    (Machine.final (serve peer) m (pre ++ post)).find u = none ∧
    (Machine.final (serve peer) m (pre ++ inserted :: post)).find u =
      some ⟨u, UserManager.hashPassword p, [], 0, false⟩ := by
  -- up to the insertion point there is one run, and `u` stays absent in it: any database beside it will do
  have hbeside : Beside u p m (m.put u (dormantUser u p)) :=
    ⟨fun v hv => by rw [UserManager.find_put, if_neg hv], hu, by rw [UserManager.find_put, if_pos rfl]⟩
  have habsent := (trace_beside peer hbeside pre (fun x hx => hquiet x (List.mem_append_left post hx))).1.absent
  obtain ⟨hstart, hreply⟩ := beside_register peer habsent inserted hinserted
  obtain ⟨hend, htrace⟩ := trace_beside peer hstart post (fun x hx => hquiet x (List.mem_append_right pre hx))
  rw [Machine.final_append, Machine.final_append, Machine.final_cons]
  refine ⟨⟨_, Machine.trace_append _ pre post m, ?_⟩, hend.others, hend.absent, hend.dormant⟩
  rw [Machine.trace_append, Machine.trace_cons, hreply, htrace]

theorem dormant_invisible_alice :
    let home : Nat → InAddr := fun _ => ⟨127, 0, 0, 1⟩
    let pre := [(0, lit "REGISTER bob pw\n"), (0, lit "LOGIN alice secret 0.0.0.0 5001\n")]
    let post := [(1, lit "LOGOUT alice\n"), (0, lit "GETINFO alice\n"), (1, lit "LOGIN bob pw 0.0.0.0 5002\n")]
    let inserted := (2, lit "REGISTER alice pw\n")
    (∃ rest, Machine.trace (serve home) .empty (pre ++ post) = Machine.trace (serve home) .empty pre ++ rest ∧
      Machine.trace (serve home) .empty (pre ++ inserted :: post) =
        Machine.trace (serve home) .empty pre ++ (inserted, okRegistered) :: rest) ∧
    (∀ v, v ≠ lit "alice" → (Machine.final (serve home) .empty (pre ++ inserted :: post)).find v =
      (Machine.final (serve home) .empty (pre ++ post)).find v) ∧
    (Machine.final (serve home) .empty (pre ++ post)).find (lit "alice") = none ∧
    (Machine.final (serve home) .empty (pre ++ inserted :: post)).find (lit "alice") =
      some ⟨lit "alice", UserManager.hashPassword (lit "pw"), [], 0, false⟩ :=
  dormant_invisible _ .empty (lit "alice") (lit "pw") rfl _ _ (by decide) _ (by decide)

end ChatRoom
