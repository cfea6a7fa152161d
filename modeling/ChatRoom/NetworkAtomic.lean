import ChatRoom.NetworkDirectory
/-!
# NetworkAtomic — clients of one machine share an atomic directory

Where all clients are at one address, which is how `client.cpp` runs them, the two moments of a lookup are as good as
one (`moment_cases`, `moment_looking`), and every history of the network is linearizable (`linearizable`).
-/
namespace ChatRoom

open Directory (Dir presenceOf)
open SharedObject (Shared Phase)

namespace Network

variable {κ : Type} (peer : κ → InAddr) (listenPort : κ → UInt16)

/-- A call carried out at one moment. -/
def serviceApply (d : Dir Bytes Bytes Endpoint) (x : κ × ClientCall) :
    Dir Bytes Bytes Endpoint × Except StdException ClientResult :=
  ((Directory.step d (clientOp peer listenPort x)).1, .ok (.ofAnswer (Directory.step d (clientOp peer listenPort x)).2))

/-! ## One address -/

variable (addr : InAddr)

/-- Everybody is at the one address. -/
abbrev AtAddress (d : Dir Bytes Bytes Endpoint) : Prop := Within (fun e => e.1 = inetNtoa addr) d

variable {peer listenPort addr}

variable (addr) in
/-- A client in the object whose lookups have two moments, and in the atomic one. -/
inductive Same (d : Dir Bytes Bytes Endpoint) : Phase ClientCall (Option Bytes) (Except StdException ClientResult) →
    Phase ClientCall Unit (Except StdException ClientResult) → Prop
  | idle : Same d .idle .idle
  | working (call : ClientCall) : Same d (.working call none) (.working call ())
  | looking (u : Word) (hu : (presenceOf d u).isSome = true) :
    Same d (.working (.getClientInfo u) (some (inetNtoa addr))) (.working (.getClientInfo u) ())
  | answered (call : ClientCall) (r : Except StdException ClientResult) : Same d (.answered call r) (.answered call r)

theorem Same.mono {d d' : Dir Bytes Bytes Endpoint}
    {ph : Phase ClientCall (Option Bytes) (Except StdException ClientResult)}
    {ph' : Phase ClientCall Unit (Except StdException ClientResult)}
    (hpresent : ∀ u, (presenceOf d u).isSome = true → (presenceOf d' u).isSome = true) (h : Same addr d ph ph') :
    Same addr d' ph ph' := by
  cases h with
  | idle => exact .idle
  | working call => exact .working call
  | looking u hu => exact .looking u (hpresent u hu)
  | answered call r => exact .answered call r

section Places
variable {d : Dir Bytes Bytes Endpoint} {ph' : Phase ClientCall Unit (Except StdException ClientResult)}

theorem Same.of_idle (h : Same addr d .idle ph') : ph' = .idle := by
  cases h
  rfl

theorem Same.of_working {call : ClientCall} {p : Option Bytes} (h : Same addr d (.working call p) ph') :
    ph' = .working call () ∧ (p = none ∨
      ∃ u, call = .getClientInfo u ∧ (presenceOf d u).isSome = true ∧ p = some (inetNtoa addr)) := by
  cases h with
  | working => exact ⟨rfl, .inl rfl⟩
  | looking u hu => exact ⟨rfl, .inr ⟨u, rfl, hu, rfl⟩⟩

theorem Same.of_answered {call : ClientCall} {r : Except StdException ClientResult}
    (h : Same addr d (.answered call r) ph') : ph' = .answered call r := by
  cases h
  rfl

end Places

variable (addr) in
/-- The two objects hold the same, and everybody is at the one address. -/
structure Agree (s : Shared κ (Dir Bytes Bytes Endpoint) ClientCall (Option Bytes) (Except StdException ClientResult))
    (t : Shared κ (Dir Bytes Bytes Endpoint) ClientCall Unit (Except StdException ClientResult)) : Prop where
  object : s.object = t.object
  unnamed : Unnamed s.object
  atAddress : AtAddress addr s.object
  same : ∀ c, Same addr s.object (s.phase c) (t.phase c)

variable (peer listenPort) in
/-- A first moment of a lookup, of a user who is present, only reads the address. -/
theorem moment_cases {d : Dir Bytes Bytes Endpoint} (hd : AtAddress addr d)
    (x : κ × ClientCall) :
    serviceMoment peer listenPort d x none =
        ((serviceApply peer listenPort d x).1, .inr (serviceApply peer listenPort d x).2) ∨
      ∃ u, x.2 = .getClientInfo u ∧ (presenceOf d u).isSome = true ∧
        serviceMoment peer listenPort d x none = (d, .inl (some (inetNtoa addr))) := by
  obtain ⟨c, call⟩ := x
  cases call with
  | getClientInfo u =>
    cases hu : presenceOf d u with
    | none =>
      refine .inl ?_
      simp only [serviceMoment, hu, serviceApply, clientOp, ClientCall.call, UserManager.Call.op, Directory.step,
        ClientResult.ofAnswer, Option.getD_none]
    | some e =>
      refine .inr ⟨u, rfl, by rw [hu]; rfl, ?_⟩
      simp only [serviceMoment, hu, hd u e hu]
  | _ => exact .inl rfl

/-- The second moment of a lookup answers what the one moment of the atomic lookup does. -/
theorem moment_looking {d : Dir Bytes Bytes Endpoint} (hd : AtAddress addr d) (c : κ) {u : Word}
    (hu : (presenceOf d u).isSome = true) :
    serviceMoment peer listenPort d (c, .getClientInfo u) (some (inetNtoa addr)) =
      ((serviceApply peer listenPort d (c, .getClientInfo u)).1,
        .inr (serviceApply peer listenPort d (c, .getClientInfo u)).2) := by
  obtain ⟨⟨ip, port⟩, he⟩ := Option.isSome_iff_exists.1 hu
  have hip : ip = inetNtoa addr := hd u _ he
  simp only [serviceMoment, serviceApply, clientOp, ClientCall.call, UserManager.Call.op, Directory.step, he, hip,
    ClientResult.ofAnswer, Option.map_some, Option.getD_some]

theorem agree_start : Agree addr (SharedObject.start Dir.empty : Shared κ _ ClientCall (Option Bytes) _)
    (SharedObject.start Dir.empty) :=
  ⟨rfl, rfl, fun _ _ he => (Option.some_ne_none _ he.symm).elim, fun _ => .idle⟩

variable [DecidableEq κ]

variable (peer listenPort) in
abbrev atomicStep := SharedObject.step () (SharedObject.atomic (serviceApply peer listenPort))

variable {s s' : Shared κ (Dir Bytes Bytes Endpoint) ClientCall (Option Bytes) (Except StdException ClientResult)}
  {t t' : Shared κ (Dir Bytes Bytes Endpoint) ClientCall Unit (Except StdException ClientResult)}

variable (peer listenPort) in
/-- A step that changes one client and carries out at most one call. -/
theorem Agree.move (hpeer : ∀ c, peer c = addr) (h : Agree addr s t) (c : κ)
    (hobject : s'.object = s.object ∨ ∃ call, s'.object = (serviceApply peer listenPort s.object (c, call)).1)
    (ht : s'.object = t'.object)
    (hother : ∀ c' ≠ c, s'.phase c' = s.phase c' ∧ t'.phase c' = t.phase c')
    (hself : (∀ u, (presenceOf s.object u).isSome = true → (presenceOf s'.object u).isSome = true) →
      Same addr s'.object (s'.phase c) (t'.phase c)) : Agree addr s' t' := by
  have hkept : Unnamed s'.object ∧ AtAddress addr s'.object ∧
      ∀ u, (presenceOf s.object u).isSome = true → (presenceOf s'.object u).isSome = true := by
    rcases hobject with hobject | ⟨call, hobject⟩
    · rw [hobject]
      exact ⟨h.unnamed, h.atAddress, fun u hu => hu⟩
    · have hmoment := object_serviceMoment peer listenPort s.object (c, call) none
      rw [hobject, serviceApply, ← hmoment]
      exact ⟨unnamed_moment peer listenPort h.unnamed _ _,
        within_moment peer listenPort (fun c => congrArg inetNtoa (hpeer c)) h.atAddress _ _,
        fun u hu => present_moment peer listenPort h.unnamed hu _ _⟩
  refine ⟨ht, hkept.1, hkept.2.1, fun c' => ?_⟩
  by_cases hc : c' = c
  · rw [hc]
    exact hself hkept.2.2
  · rw [(hother c' hc).1, (hother c' hc).2]
    exact (h.same c').mono hkept.2.2

theorem agree_call (hpeer : ∀ c, peer c = addr) (h : Agree addr s t) {c : κ} {call : ClientCall}
    (hc : s.phase c = .idle) :
    Machine.Matched (atomicStep peer listenPort) SharedObject.shows (Agree addr) (s.goto c (.working call none)) t
      (some (.called c call)) := by
  have hsame := h.same c
  rw [hc] at hsame
  have hb : atomicStep peer listenPort t (.call c call) = some (t.goto c (.working call ())) := by
    simp only [atomicStep, SharedObject.step, hsame.of_idle]
  refine Machine.Matched.one hb (h.move peer listenPort hpeer c (.inl rfl) h.object
    (fun c' hne => ⟨SharedObject.goto_phase_of_ne s hne _, SharedObject.goto_phase_of_ne t hne _⟩) (fun _ => ?_))
  rw [SharedObject.goto_phase_self, SharedObject.goto_phase_self]
  exact .working call

theorem agree_ret (hpeer : ∀ c, peer c = addr) (h : Agree addr s t) {c : κ} {call : ClientCall}
    {r : Except StdException ClientResult} (hc : s.phase c = .answered call r) :
    Machine.Matched (atomicStep peer listenPort) SharedObject.shows (Agree addr) (s.goto c .idle) t
      (some (.returned c call r)) := by
  have hsame := h.same c
  rw [hc] at hsame
  have hb : atomicStep peer listenPort t (.ret c) = some (t.goto c .idle) := by
    simp only [atomicStep, SharedObject.step, hsame.of_answered]
  have hshow : some (.returned c call r) = SharedObject.shows t (.ret c) := by
    simp only [SharedObject.shows, hsame.of_answered]
  rw [hshow]
  refine Machine.Matched.one hb (h.move peer listenPort hpeer c (.inl rfl) h.object
    (fun c' hne => ⟨SharedObject.goto_phase_of_ne s hne _, SharedObject.goto_phase_of_ne t hne _⟩) (fun _ => ?_))
  rw [SharedObject.goto_phase_self, SharedObject.goto_phase_self]
  exact .idle

/-- The moment at which the atomic call is carried out. -/
theorem agree_apply (hpeer : ∀ c, peer c = addr) (h : Agree addr s t) {c : κ} {call : ClientCall}
    (hc : t.phase c = .working call ()) {p : Option Bytes}
    (hmoment : serviceMoment peer listenPort s.object (c, call) p =
      ((serviceApply peer listenPort s.object (c, call)).1, .inr (serviceApply peer listenPort s.object (c, call)).2)) :
    Machine.Matched (atomicStep peer listenPort) SharedObject.shows (Agree addr)
      (Shared.goto { s with object := (serviceMoment peer listenPort s.object (c, call) p).1 } c
        (SharedObject.outcome call (serviceMoment peer listenPort s.object (c, call) p).2)) t none := by
  rw [hmoment]
  have hb : atomicStep peer listenPort t (.moment c) =
      some (Shared.goto { t with object := (serviceApply peer listenPort t.object (c, call)).1 } c
        (.answered call (serviceApply peer listenPort t.object (c, call)).2)) := by
    simp only [atomicStep, SharedObject.step, hc]
    rfl
  refine Machine.Matched.one hb (h.move peer listenPort hpeer c (.inr ⟨call, rfl⟩) (by rw [← h.object]; rfl)
    (fun c' hne => ⟨SharedObject.goto_phase_of_ne _ hne _, SharedObject.goto_phase_of_ne _ hne _⟩) (fun _ => ?_))
  rw [SharedObject.goto_phase_self, SharedObject.goto_phase_self, ← h.object]
  exact .answered call _

theorem agree_moment (hpeer : ∀ c, peer c = addr) (h : Agree addr s t) {c : κ} {call : ClientCall} {p : Option Bytes}
    (hc : s.phase c = .working call p) :
    Machine.Matched (atomicStep peer listenPort) SharedObject.shows (Agree addr)
      (Shared.goto { s with object := (serviceMoment peer listenPort s.object (c, call) p).1 } c
        (SharedObject.outcome call (serviceMoment peer listenPort s.object (c, call) p).2)) t none := by
  have hsame := h.same c
  rw [hc] at hsame
  obtain ⟨ht, rfl | ⟨u, rfl, hu, rfl⟩⟩ := hsame.of_working
  · rcases moment_cases peer listenPort h.atAddress (c, call) with hmoment | ⟨u, hcall, hu, hmoment⟩
    · exact agree_apply hpeer h ht hmoment
    · -- the address is read, which is the one address: the atomic lookup is still to come
      obtain rfl : call = .getClientInfo u := hcall
      rw [hmoment]
      refine Machine.Matched.stutter (h.move peer listenPort hpeer c (.inl rfl) h.object
        (fun c' hne => ⟨SharedObject.goto_phase_of_ne _ hne _, rfl⟩) (fun _ => ?_))
      rw [SharedObject.goto_phase_self, ht]
      exact .looking u hu
  · exact agree_apply hpeer h ht (moment_looking h.atAddress c hu)

/-- **Each step of the object is one of the atomic object**, but for the first moment of a lookup. -/
theorem agree_step (hpeer : ∀ c, peer c = addr) {a : SharedObject.Act κ ClientCall} (h : Agree addr s t)
    (hstep : objectStep peer listenPort s a = some s') :
    Machine.Matched (atomicStep peer listenPort) SharedObject.shows (Agree addr) s' t (SharedObject.shows s a) := by
  have hcases := SharedObject.step_cases hstep
  generalize he : (SharedObject.shows s a).toList = es at hcases
  cases hcases with
  | call c call hc =>
    rw [Option.toList_eq_singleton_iff] at he
    rw [he]
    exact agree_call hpeer h hc
  | moment c call p hc =>
    rw [Option.toList_eq_nil_iff] at he
    rw [he]
    exact agree_moment hpeer h hc
  | ret c call r hc =>
    rw [Option.toList_eq_singleton_iff] at he
    rw [he]
    exact agree_ret hpeer h hc

variable (peer listenPort) in
/-- **Clients of one address see an atomic directory**: every history of the network is linearizable. -/
theorem linearizable {addr : InAddr} (hpeer : ∀ c, peer c = addr) (run : List (Act κ))
    (hwhole : Machine.Meets (step peer listenPort) (Whole listenPort) start run) {s : Network κ}
    (h : Machine.exec (step peer listenPort) start run = some s) :
    SharedObject.Linearizable (serviceApply peer listenPort) Dir.empty
      (Machine.history (step peer listenPort) (shows listenPort) start run) := by
  obtain ⟨moments, t, ht, -, hh⟩ := exists_moments run hwhole h
  obtain ⟨as, u, hu, -, hatomic⟩ :=
    Machine.refines (fun _ _ _ _ hagree _ hstep => agree_step hpeer hagree hstep) moments
    agree_start (Machine.meets_true _ _) ht
  exact ⟨as, u, hu, hatomic.trans hh⟩

/-- A lookup finds the user of a login that has not returned yet. -/
theorem linearizable_race :
    let peer : Fin 2 → InAddr := fun _ => ⟨127, 0, 0, 1⟩
    SharedObject.Linearizable (serviceApply peer (fun _ => 7)) Dir.empty
      (Machine.history (step peer (fun _ => 7)) (shows (fun _ => 7)) start
        [.call 0 (.registerWithServer bob pw0), .server (.recv 0 (lit "REGISTER bob pw0\n")), .server (.call 0),
          .server (.send 0), .recv 0 13, .call 0 (.getClientInfo bob), .server (.recv 0 (lit "GETINFO bob\n")),
          .call 1 (.loginToServer bob pw0), .server (.recv 1 (lit "LOGIN bob pw0 0.0.0.0 7\n")), .server (.call 1),
          .server (.call 0), .server (.readIsLoggedIn 0), .server (.readIpAddress 0), .server (.readPort 0),
          .server (.send 0), .recv 0 14]) := by
  intro peer
  exact linearizable peer (fun _ => 7) (fun _ => rfl) _ (by decide) (Option.eq_some_of_isSome (by decide))

end Network

end ChatRoom
