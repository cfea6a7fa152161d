import ChatRoom.Interleaving
import ChatRoom.ConnectionIsolation
/-!
# ConnectionIndependence — users do not meet

What a request is answered depends on the record of the user it names, and it leaves the other records alone.  So the
order in which requests of different users are served shows in no reply and in no record (`users_independent`).
-/
namespace ChatRoom

open UserManager (Call Returned)

/-- The user a request names. -/
def Request.user : Request → Option Bytes
  | .register username _ => some username
  | .login username .. => some username
  | .logout username => some username
  | .getinfo targetUsername => some targetUsername
  | .unknown => none

/-- A chunk of a user's sequence: it names that user, or its command is unknown. -/
def BelongsTo (u data : Bytes) : Prop := ∀ v ∈ (readRequest data).user, v = u

instance (u data : Bytes) : Decidable (BelongsTo u data) :=
  inferInstanceAs (Decidable (∀ v ∈ (readRequest data).user, v = u))

theorem call_user (addr : InAddr) (q : Request) : (q.call addr).map Call.user = q.user := by
  cases q <;> rfl

theorem BelongsTo.asked {u data : Bytes} (h : BelongsTo u data) {addr : InAddr} {c : Call}
    (hc : asked addr data = some c) : c.user = u := by
  apply h
  rw [← call_user addr]
  exact Option.mem_map_of_mem Call.user hc

namespace UserManager

/-- **What a call returns depends on the record of the user it names only.** -/
theorem returned_congr {m m' : UserManager} (c : Call) (h : m.find c.user = m'.find c.user) :
    (m.call c).2 = (m'.call c).2 := by
  cases c with
  | registerUser v p =>
    simp only [Call.user] at h
    simp only [call, registerUser_snd, h]
  | loginUser v p ip port =>
    simp only [Call.user] at h
    simp only [call, loginUser_snd, h]
  | logoutUser v =>
    simp only [Call.user] at h
    simp only [call, logoutUser_snd, h]
  | findUser v =>
    simp only [Call.user] at h
    simp only [call, findUser_eq, h]

end UserManager

variable {κ : Type} (peer : κ → InAddr)

/-- **A reply depends on the record of the user its request names only.** -/
theorem reply_serve_congr {m m' : UserManager} (x : κ × Bytes)
    (h : ∀ c, asked (peer x.1) x.2 = some c → m.find c.user = m'.find c.user) :
    (serve peer m x).2 = (serve peer m' x).2 := by
  rw [serve_eq, serve_eq]
  cases hc : asked (peer x.1) x.2 with
  | none => rfl
  | some c =>
    have := UserManager.returned_congr c (h c hc)
    simp only [this]

/-- A chunk of `u`'s sequence sees, and touches, the record of `u` only. -/
theorem serve_belongsTo {u : Bytes} {x : κ × Bytes} (hx : BelongsTo u x.2) :
    (∀ m m' : UserManager, m.find u = m'.find u →
      (serve peer m x).1.find u = (serve peer m' x).1.find u ∧ (serve peer m x).2 = (serve peer m' x).2) ∧
    ∀ (m : UserManager) (v : Bytes), u ≠ v → (serve peer m x).1.find v = m.find v := by
  constructor
  · intro m m' h
    refine ⟨find_serve_congr peer x h, reply_serve_congr peer x (fun c hc => ?_)⟩
    rw [hx.asked hc]
    exact h
  · intro m v hv
    apply find_serve_of_ne peer m x v
    intro c hc
    rw [hx.asked hc]
    exact Ne.symm hv

/-- A user's sequence, wherever its chunks stand among those of other users, is answered as it would be by itself. -/
theorem serve_interleaved (m : UserManager) (fam : Bytes → List (κ × Bytes)) (hfam : ∀ u, ∀ x ∈ fam u, BelongsTo u x.2)
    (w : List (Bytes × (κ × Bytes))) (hw : Machine.Interleaves fam w) (u : Bytes) :
    Machine.historyOf u (Machine.trace (Machine.keyed (serve peer)) m w) = Machine.trace (serve peer) m (fam u) ∧
      (Machine.final (Machine.keyed (serve peer)) m w).find u = (Machine.final (serve peer) m (fam u)).find u :=
  Machine.interleaving_served (serve peer) (fun v m => m.find v) fam
    (fun v m m' x hx h => (serve_belongsTo peer (hfam v x hx)).1 m m' h)
    (fun v v' m x hx hv => (serve_belongsTo peer (hfam v x hx)).2 m v' hv) w hw m u

/-- **Users are independent**: two interleavings of the same sequences answer each request alike and end with the same
records. -/
theorem users_independent (m : UserManager) (fam : Bytes → List (κ × Bytes))
    (hfam : ∀ u, ∀ x ∈ fam u, BelongsTo u x.2) (w w' : List (Bytes × (κ × Bytes)))
    (hw : Machine.Interleaves fam w) (hw' : Machine.Interleaves fam w') :
    (∀ u, Machine.historyOf u (Machine.trace (Machine.keyed (serve peer)) m w) =
      Machine.historyOf u (Machine.trace (Machine.keyed (serve peer)) m w')) ∧
    ∀ u, (Machine.final (Machine.keyed (serve peer)) m w).find u =
      (Machine.final (Machine.keyed (serve peer)) m w').find u := by
  constructor
  · intro u
    rw [(serve_interleaved peer m fam hfam w hw u).1, (serve_interleaved peer m fam hfam w' hw' u).1]
  · intro u
    rw [(serve_interleaved peer m fam hfam w hw u).2, (serve_interleaved peer m fam hfam w' hw' u).2]

/-- Two users and a noise chunk, and the same with bob's requests served first. -/
def aliceThenBob : List (Bytes × (Nat × Bytes)) :=
  [(lit "alice", (0, lit "REGISTER alice pw\n")), (lit "alice", (1, lit "LOGIN alice pw 0.0.0.0 5001\n")),
    (lit "bob", (1, lit "LOGOUT bob\n")), (lit "bob", (2, lit "PING\n")), (lit "bob", (0, lit "REGISTER bob pw\n"))]

def bobThenAlice : List (Bytes × (Nat × Bytes)) := aliceThenBob.drop 2 ++ aliceThenBob.take 2

theorem users_independent_alice_bob :
    (∀ u, Machine.historyOf u (Machine.trace (Machine.keyed (serve (fun _ => ⟨127, 0, 0, 1⟩))) .empty aliceThenBob) =
      Machine.historyOf u (Machine.trace (Machine.keyed (serve (fun _ => ⟨127, 0, 0, 1⟩))) .empty bobThenAlice)) ∧
    ∀ u, (Machine.final (Machine.keyed (serve (fun _ => ⟨127, 0, 0, 1⟩))) .empty aliceThenBob).find u =
      (Machine.final (Machine.keyed (serve (fun _ => ⟨127, 0, 0, 1⟩))) .empty bobThenAlice).find u := by
  refine users_independent (fun _ => ⟨127, 0, 0, 1⟩) .empty (fun u => aliceThenBob.filterMap (Machine.pick u)) ?_
    aliceThenBob bobThenAlice (fun _ => rfl) ?_
  · have hall : ∀ x ∈ aliceThenBob, BelongsTo x.1 x.2.2 := by decide
    intro u x hx
    obtain ⟨⟨v, y⟩, hmem, hy⟩ := List.mem_filterMap.1 hx
    obtain ⟨rfl, rfl⟩ := (Machine.pick_eq_some u _ x).1 hy
    exact hall _ hmem
  · intro u
    by_cases ha : lit "alice" = u
    · subst ha; decide
    · by_cases hb : lit "bob" = u
      · subst hb; decide
      · simp [aliceThenBob, bobThenAlice, Machine.pick, ha, hb]

end ChatRoom
