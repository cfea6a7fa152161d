import ChatRoom.NetworkDirectory
/-!
# NetworkService — what clients that run at once can rely on

Read off the object that the network refines, whatever the interleaving.  A name is registered by one call, and no other
password than that call's is ever accepted for it (`registered_once`).  A user whose login has returned is found by
every lookup that is called after it (`found_after_login`).
-/
namespace ChatRoom

open Directory (Dir presenceOf secretOf)
open SharedObject (Shared Phase)

namespace Network

variable {κ : Type} {peer : κ → InAddr} {listenPort : κ → UInt16}

/-- A call or a return that the clients see. -/
abbrev Seen (κ : Type) := SharedObject.Event κ ClientCall (Except StdException ClientResult)

/-! ## The moment of a registration, of a login -/

theorem moment_register (d : Dir Bytes Bytes Endpoint) (c : κ) (u p : Word) (address : Option Bytes) :
    serviceMoment peer listenPort d (c, .registerWithServer u p) address =
      ((Directory.step d (.enrol u p)).1, .inr (.ok (.bool (secretOf d u).isNone))) := by
  rw [serviceMoment]
  · rw [Directory.step_answer]
    rfl
  · rintro u ⟨⟩
  · rintro u ip ⟨⟩

theorem moment_login (d : Dir Bytes Bytes Endpoint) (c : κ) (u p : Word) (address : Option Bytes) :
    serviceMoment peer listenPort d (c, .loginToServer u p) address =
      ((Directory.step d (.enter u p (inetNtoa (peer c), listenPort c))).1,
        .inr (.ok (.bool (secretOf d u = some p.1)))) := by
  rw [serviceMoment]
  · rw [Directory.step_answer]
    rfl
  · rintro u ⟨⟩
  · rintro u ip ⟨⟩

/-! ## One registration, one password -/

/-- A registration of `u` that returned `true`. -/
def Registered (u : Word) (_ : κ) (call : ClientCall) (r : Except StdException ClientResult) : Prop :=
  (∃ p, call = .registerWithServer u p) ∧ r = .ok (.bool true)

/-- The call registered `u` with the password `p`, or logged in with it. -/
def Accepted (u p : Word) (e : Seen κ) : Prop :=
  ∃ c call, (call = .registerWithServer u p ∨ call = .loginToServer u p) ∧ e = .returned c call (.ok (.bool true))

theorem registered_moment {u : Word} {d : Dir Bytes Bytes Endpoint} {c : κ} {call : ClientCall} {address : Option Bytes}
    {r : Except StdException ClientResult} (hr : (serviceMoment peer listenPort d (c, call) address).2 = .inr r)
    (hclaim : Registered u c call r) :
    ¬ (secretOf d u).isSome = true ∧
      (secretOf (serviceMoment peer listenPort d (c, call) address).1 u).isSome = true := by
  obtain ⟨⟨p, rfl⟩, rfl⟩ := hclaim
  rw [moment_register] at hr ⊢
  simp only [Sum.inr.injEq, Except.ok.injEq, ClientResult.bool.injEq, Option.isNone_iff_eq_none] at hr
  rw [Directory.secretOf_step, hr]
  exact ⟨nofun, by rw [Option.none_or, Directory.enrolment, if_pos rfl]; rfl⟩

/-- A password that is accepted is the one on record. -/
theorem accepted_moment {u p : Word} {d : Dir Bytes Bytes Endpoint} {c : κ} {call : ClientCall} {address : Option Bytes}
    (hcall : call = .registerWithServer u p ∨ call = .loginToServer u p)
    (hr : (serviceMoment peer listenPort d (c, call) address).2 = .inr (.ok (.bool true))) :
    secretOf (serviceMoment peer listenPort d (c, call) address).1 u = some p.1 := by
  rcases hcall with rfl | rfl
  · rw [moment_register] at hr ⊢
    simp only [Sum.inr.injEq, Except.ok.injEq, ClientResult.bool.injEq, Option.isNone_iff_eq_none] at hr
    rw [Directory.secretOf_step, hr, Option.none_or, Directory.enrolment, if_pos rfl]
  · rw [moment_login] at hr ⊢
    simp only [Sum.inr.injEq, Except.ok.injEq, ClientResult.bool.injEq, decide_eq_true_eq] at hr
    rw [Directory.secretOf_step, hr, Option.some_or]

variable [DecidableEq κ]

theorem accepted_recorded {moments : List (SharedObject.Act κ ClientCall)}
    {t : Shared κ (Dir Bytes Bytes Endpoint) ClientCall (Option Bytes) (Except StdException ClientResult)}
    (ht : Machine.exec (objectStep peer listenPort) (SharedObject.start Dir.empty) moments = some t) {u p : Word}
    {e : Seen κ}
    (he : e ∈ Machine.history (objectStep peer listenPort) SharedObject.shows (SharedObject.start Dir.empty) moments)
    (haccepted : Accepted u p e) : secretOf t.object u = some p.1 := by
  obtain ⟨c, call, hcall, rfl⟩ := haccepted
  exact SharedObject.recorded (I := fun _ => True) (P := fun d : Dir Bytes Bytes Endpoint => secretOf d u = some p.1)
    (fun _ _ _ _ => trivial) (fun d x address _ h => secret_moment peer listenPort h x address)
    (fun d address _ hr => accepted_moment hcall hr) moments trivial ht (.inl he)

variable (peer listenPort) in
/-- **A name is given once**: whatever the interleaving, at most one registration of it returns `true`, and every
password that a registration or a login of it returned `true` for is the same. -/
theorem registered_once (run : List (Act κ))
    (hwhole : Machine.Meets (step peer listenPort) (Whole listenPort) start run) {s : Network κ}
    (h : Machine.exec (step peer listenPort) start run = some s) (u : Word) :
    (Machine.history (step peer listenPort) (shows listenPort) start run).Pairwise
        (fun e e' => ¬ (SharedObject.Claims (Registered u) e ∧ SharedObject.Claims (Registered u) e')) ∧
      ∀ e ∈ Machine.history (step peer listenPort) (shows listenPort) start run,
        ∀ e' ∈ Machine.history (step peer listenPort) (shows listenPort) start run,
          ∀ p p', Accepted u p e → Accepted u p' e' → p = p' := by
  obtain ⟨moments, t, ht, -, hh⟩ := exists_moments run hwhole h
  rw [← hh]
  refine ⟨SharedObject.claimed_once (fun d c call address r hr hclaim => registered_moment hr hclaim)
    (fun d x address hd => ?_) moments ht, ?_⟩
  · obtain ⟨p, hp⟩ := Option.isSome_iff_exists.1 hd
    rw [secret_moment peer listenPort hp]
    rfl
  · intro e he e' he' p p' haccepted haccepted'
    have hp := accepted_recorded ht he haccepted
    rw [accepted_recorded ht he' haccepted'] at hp
    exact Subtype.ext (Option.some.inj hp).symm

/-- Of two registrations at once the second to be served fails, and a login with its password too. -/
theorem registered_once_race :
    let seen : List (Seen (Fin 2)) :=
      [.called 0 (.registerWithServer bob pw0), .called 1 (.registerWithServer bob pw1),
        .returned 1 (.registerWithServer bob pw1) (.ok (.bool true)),
        .returned 0 (.registerWithServer bob pw0) (.ok (.bool false)), .called 0 (.loginToServer bob pw0),
        .returned 0 (.loginToServer bob pw0) (.ok (.bool false))]
    seen.Pairwise (fun e e' => ¬ (SharedObject.Claims (Registered bob) e ∧ SharedObject.Claims (Registered bob) e')) ∧
      ∀ e ∈ seen, ∀ e' ∈ seen, ∀ p p', Accepted bob p e → Accepted bob p' e' → p = p' := by
  intro seen
  let run : List (Act (Fin 2)) :=
    [.call 0 (.registerWithServer bob pw0), .call 1 (.registerWithServer bob pw1),
      .server (.recv 0 (lit "REGISTER bob pw0\n")), .server (.recv 1 (lit "REGISTER bob pw1\n")), .server (.call 1),
      .server (.call 0), .server (.send 1), .recv 1 13, .server (.send 0), .recv 0 16, .call 0 (.loginToServer bob pw0),
      .server (.recv 0 (lit "LOGIN bob pw0 0.0.0.0 7\n")), .server (.call 0), .server (.send 0), .recv 0 24]
  have hh : Machine.history (step (fun _ => ⟨127, 0, 0, 1⟩) (fun _ => 7)) (shows (fun _ => 7)) start run = seen := rfl
  have hrun := registered_once (fun _ => ⟨127, 0, 0, 1⟩) (fun _ => 7) run (by decide)
    (Option.eq_some_of_isSome (by decide)) bob
  rwa [hh] at hrun

/-! ## A login and the lookups after it -/

/-- The empty name is nobody's, and everybody is at a dotted address. -/
def Sound (d : Dir Bytes Bytes Endpoint) : Prop := Unnamed d ∧ Within (fun e => ∃ addr, e.1 = inetNtoa addr) d

omit [DecidableEq κ] in
theorem sound_moment {d : Dir Bytes Bytes Endpoint} (h : Sound d) (x : κ × ClientCall) (address : Option Bytes) :
    Sound (serviceMoment peer listenPort d x address).1 :=
  ⟨unnamed_moment peer listenPort h.1 x address, within_moment peer listenPort (fun c => ⟨peer c, rfl⟩) h.2 x address⟩

omit [DecidableEq κ] in
/-- Neither moment of a lookup misses a user who is present. -/
theorem lookup_moment {d : Dir Bytes Bytes Endpoint} (h : Sound d) {u : Word} (hu : (presenceOf d u).isSome = true)
    (c : κ) {address : Option Bytes} (haddress : ∀ ip, address = some ip → ∃ addr, ip = inetNtoa addr) :
    (∀ address', (serviceMoment peer listenPort d (c, .getClientInfo u) address).2 = .inl address' →
        ∀ ip, address' = some ip → ∃ addr, ip = inetNtoa addr) ∧
      ∀ r, (serviceMoment peer listenPort d (c, .getClientInfo u) address).2 = .inr r →
        ∃ addr port, r = .ok (.info (inetNtoa addr, port)) := by
  obtain ⟨e, he⟩ := Option.isSome_iff_exists.1 hu
  cases address with
  | none =>
    simp only [serviceMoment, he, Sum.inl.injEq, reduceCtorEq, false_implies, implies_true, and_true]
    rintro _ rfl ip hip
    cases hip
    exact h.2 u e he
  | some ip =>
    obtain ⟨addr, rfl⟩ := haddress ip rfl
    simp only [serviceMoment, reduceCtorEq, false_implies, implies_true, true_and, Sum.inr.injEq]
    rintro r rfl
    exact ⟨addr, _, rfl⟩

/-- A lookup of the object that is called after a login of the user returned `true`. -/
theorem found_moments {moments : List (SharedObject.Act κ ClientCall)}
    {t : Shared κ (Dir Bytes Bytes Endpoint) ClientCall (Option Bytes) (Except StdException ClientResult)}
    (ht : Machine.exec (objectStep peer listenPort) (SharedObject.start Dir.empty) moments = some t) {c c' : κ}
    {u p : Word}
    {call : ClientCall} {r : Except StdException ClientResult} {pre mid mid' post : List (Seen κ)}
    (hh : Machine.history (objectStep peer listenPort) SharedObject.shows (SharedObject.start Dir.empty) moments =
      pre ++ .returned c (.loginToServer u p) (.ok (.bool true)) :: mid ++ .called c' (.getClientInfo u) ::
        mid' ++ .returned c' call r :: post)
    (hmid : ∀ call r, .returned c' call r ∉ mid') :
    call = .getClientInfo u ∧ ∃ addr port, r = .ok (.info (inetNtoa addr, port)) := by
  have hempty : Sound Dir.empty := ⟨rfl, fun _ _ he => (Option.some_ne_none _ he.symm).elim⟩
  refine SharedObject.answered_after (I := Sound) (P := fun d => (presenceOf d u).isSome = true)
    (Q := fun address => ∀ ip, address = some ip → ∃ addr, ip = inetNtoa addr)
    (fun d x address hd => sound_moment hd x address)
    (fun d x address hd hu => present_moment peer listenPort hd.1 hu x address) (fun d address hd hr => ?_)
    (fun ip hip => (Option.some_ne_none ip hip.symm).elim)
    (fun d address hd hu haddress => lookup_moment hd hu c' haddress) moments hempty ht hh hmid
  rw [moment_login] at hr ⊢
  simp only [Sum.inr.injEq, Except.ok.injEq, ClientResult.bool.injEq, decide_eq_true_eq] at hr
  have hanswer : (Directory.step d (.enter u.1 p.1 (inetNtoa (peer c), listenPort c))).2 = .done true := by
    rw [Directory.step_answer]
    simp only [hr, decide_true]
  rw [Directory.presenceOf_step, hanswer, Directory.movement, if_pos rfl]
  rfl

variable (peer listenPort) in
/-- **Who has logged in is found**: whatever the interleaving, a lookup that is called after a login of the user
returned `true` returns an address and a port. -/
theorem found_after_login (run : List (Act κ))
    (hwhole : Machine.Meets (step peer listenPort) (Whole listenPort) start run) {s : Network κ}
    (h : Machine.exec (step peer listenPort) start run = some s) {c c' : κ} {u p : Word} {call : ClientCall}
    {r : Except StdException ClientResult} {pre mid mid' post : List (Seen κ)}
    (hh : Machine.history (step peer listenPort) (shows listenPort) start run =
      pre ++ .returned c (.loginToServer u p) (.ok (.bool true)) :: mid ++ .called c' (.getClientInfo u) ::
        mid' ++ .returned c' call r :: post)
    (hmid : ∀ call r, .returned c' call r ∉ mid') :
    call = .getClientInfo u ∧ ∃ addr port, r = .ok (.info (inetNtoa addr, port)) := by
  obtain ⟨moments, t, ht, -, hmoments⟩ := exists_moments run hwhole h
  rw [← hmoments] at hh
  exact found_moments ht hh hmid

/-- While the lookup is on its way the user logs in again. -/
theorem found_after_login_race :
    let run : List (Act (Fin 2)) :=
      [.call 0 (.registerWithServer bob pw0), .server (.recv 0 (lit "REGISTER bob pw0\n")), .server (.call 0),
        .server (.send 0), .recv 0 13, .call 0 (.loginToServer bob pw0),
        .server (.recv 0 (lit "LOGIN bob pw0 0.0.0.0 7\n")), .server (.call 0), .server (.send 0), .recv 0 8,
        .call 1 (.getClientInfo bob), .server (.recv 1 (lit "GETINFO bob\n")), .server (.call 1),
        .call 0 (.loginToServer bob pw0), .server (.recv 0 (lit "LOGIN bob pw0 0.0.0.0 7\n")),
        .server (.readIsLoggedIn 1),
        .server (.readIpAddress 1), .server (.call 0), .server (.readPort 1), .server (.send 1), .recv 1 14]
    ∃ r, .returned 1 (.getClientInfo bob) r ∈
        Machine.history (step (fun _ => ⟨127, 0, 0, 1⟩) (fun _ => 7)) (shows (fun _ => 7)) start run ∧
      ∃ addr port, r = .ok (.info (inetNtoa addr, port)) := by
  intro run
  have hh : Machine.history (step (fun _ => ⟨127, 0, 0, 1⟩) (fun _ => 7)) (shows (fun _ => 7)) start run =
      [.called 0 (.registerWithServer bob pw0), .returned 0 (.registerWithServer bob pw0) (.ok (.bool true)),
        .called 0 (.loginToServer bob pw0)] ++ .returned 0 (.loginToServer bob pw0) (.ok (.bool true)) :: [] ++
        .called 1 (.getClientInfo bob) :: [.called 0 (.loginToServer bob pw0)] ++
        .returned 1 (.getClientInfo bob) (.ok (.info (lit "127.0.0.1", 7))) :: [] := rfl
  have hfound := found_after_login (fun _ => ⟨127, 0, 0, 1⟩) (fun _ => 7) run (by decide)
    (Option.eq_some_of_isSome (by decide)) hh (by simp)
  exact ⟨_, hh ▸ List.mem_append_right _ List.mem_cons_self, hfound.2⟩

/-! ## Where a lookup's answer comes from -/

/-- Client `a` has called a login of `u`. -/
def Caller (h : List (Seen κ)) (u : Bytes) (a : κ) : Prop := ∃ v p : Word, v.1 = u ∧ .called a (.loginToServer v p) ∈ h

variable (peer listenPort) in
/-- Nobody is found, or the address is of a client that called a login of `u`, and the port of one that did. -/
def FromLogins (h : List (Seen κ)) (u : Bytes) (r : Except StdException ClientResult) : Prop :=
  r = .ok (.info ([], 0)) ∨ ∃ a b, Caller h u a ∧ Caller h u b ∧ r = .ok (.info (inetNtoa (peer a), listenPort b))

variable (peer listenPort) in
/-- What a call has seen was said before. -/
inductive Place (h : List (Seen κ)) (d : Dir Bytes Bytes Endpoint) (c : κ) :
    Phase ClientCall (Option Bytes) (Except StdException ClientResult) → Prop
  | idle : Place h d c .idle
  | working (call : ClientCall) (hcalled : .called c call ∈ h) : Place h d c (.working call none)
  | looking (u : Word) (a : κ) (hcalled : .called c (.getClientInfo u) ∈ h) (hu : (presenceOf d u).isSome = true)
    (ha : Caller h u a) : Place h d c (.working (.getClientInfo u) (some (inetNtoa (peer a))))
  | answered (call : ClientCall) (r : Except StdException ClientResult)
    (hr : ∀ u, call = .getClientInfo u → FromLogins peer listenPort h u r) : Place h d c (.answered call r)

variable (peer listenPort) in
/-- Every endpoint in the directory, and all that calls have seen, is of a login that was called. -/
structure Traced (h : List (Seen κ))
    (t : Shared κ (Dir Bytes Bytes Endpoint) ClientCall (Option Bytes) (Except StdException ClientResult)) : Prop where
  unnamed : Unnamed t.object
  present : ∀ u e, presenceOf t.object u = some e → ∃ a, Caller h u a ∧ e = (inetNtoa (peer a), listenPort a)
  place : ∀ c, Place peer listenPort h t.object c (t.phase c)

omit [DecidableEq κ]

theorem Caller.mono {h h' : List (Seen κ)} (hh : h ⊆ h') {u : Bytes} {a : κ} (ha : Caller h u a) : Caller h' u a := by
  obtain ⟨v, p, hv, hmem⟩ := ha
  exact ⟨v, p, hv, hh hmem⟩

theorem FromLogins.mono {h h' : List (Seen κ)} (hh : h ⊆ h') {u : Bytes} {r : Except StdException ClientResult}
    (hr : FromLogins peer listenPort h u r) : FromLogins peer listenPort h' u r := by
  rcases hr with hr | ⟨a, b, ha, hb, hr⟩
  · exact .inl hr
  · exact .inr ⟨a, b, ha.mono hh, hb.mono hh, hr⟩

theorem Place.mono {h h' : List (Seen κ)} (hh : h ⊆ h') {d d' : Dir Bytes Bytes Endpoint} {c : κ}
    {ph : Phase ClientCall (Option Bytes) (Except StdException ClientResult)}
    (hpresent : ∀ u, (presenceOf d u).isSome = true → (presenceOf d' u).isSome = true)
    (hp : Place peer listenPort h d c ph) : Place peer listenPort h' d' c ph := by
  cases hp with
  | idle => exact .idle
  | working call hcalled => exact .working call (hh hcalled)
  | looking u a hcalled hu ha => exact .looking u a (hh hcalled) (hpresent u hu) (ha.mono hh)
  | answered call r hr => exact .answered call r (fun u hu => (hr u hu).mono hh)

theorem Place.called {h : List (Seen κ)} {d : Dir Bytes Bytes Endpoint} {c : κ} {call : ClientCall}
    {address : Option Bytes} (hp : Place peer listenPort h d c (.working call address)) : .called c call ∈ h := by
  cases hp with
  | working _ hcalled => exact hcalled
  | looking u a hcalled hu ha => exact hcalled

theorem Place.of_answered {h : List (Seen κ)} {d : Dir Bytes Bytes Endpoint} {c : κ} {u : Word}
    {r : Except StdException ClientResult} (hp : Place peer listenPort h d c (.answered (.getClientInfo u) r)) :
    FromLogins peer listenPort h u r := by
  cases hp with
  | answered _ _ hr => exact hr u rfl

/-- The only endpoint that a moment can add is the caller's own. -/
theorem present_of_moment {h : List (Seen κ)} {d : Dir Bytes Bytes Endpoint}
    (hd : ∀ u e, presenceOf d u = some e → ∃ a, Caller h u a ∧ e = (inetNtoa (peer a), listenPort a)) {c : κ}
    {call : ClientCall} (hcalled : .called c call ∈ h) (address : Option Bytes) {u : Bytes} {e : Endpoint}
    (he : presenceOf (serviceMoment peer listenPort d (c, call) address).1 u = some e) :
    ∃ a, Caller h u a ∧ e = (inetNtoa (peer a), listenPort a) := by
  rw [object_serviceMoment, Directory.presenceOf_step] at he
  cases hm : Directory.movement u (clientOp peer listenPort (c, call),
      (Directory.step d (clientOp peer listenPort (c, call))).2) with
  | none =>
    rw [hm] at he
    exact hd u e he
  | some o =>
    rw [hm, Option.getD_some] at he
    subst he
    obtain ⟨p, hop⟩ := Directory.enter_of_movement hm
    cases call with
    | loginToServer v q =>
      cases hop
      exact ⟨c, ⟨v, q, rfl, hcalled⟩, rfl⟩
    | _ => cases hop

/-- Where a moment leaves its call. -/
theorem place_outcome {h : List (Seen κ)} {d : Dir Bytes Bytes Endpoint}
    (hd : ∀ u e, presenceOf d u = some e → ∃ a, Caller h u a ∧ e = (inetNtoa (peer a), listenPort a)) {c : κ}
    {call : ClientCall} {address : Option Bytes} (hp : Place peer listenPort h d c (.working call address)) :
    Place peer listenPort h (serviceMoment peer listenPort d (c, call) address).1 c
      (SharedObject.outcome call (serviceMoment peer listenPort d (c, call) address).2) := by
  cases hp with
  | working _ hcalled =>
    cases call with
    | getClientInfo u =>
      cases hu : presenceOf d u with
      | none =>
        simp only [serviceMoment, hu]
        exact .answered _ _ (fun _ _ => .inl rfl)
      | some e =>
        obtain ⟨a, ha, rfl⟩ := hd u e hu
        simp only [serviceMoment, hu]
        exact .looking u a hcalled (by rw [hu]; rfl) ha
    | _ => exact .answered _ _ (fun u hu => by cases hu)
  | looking u a _ hu ha =>
    obtain ⟨e, he⟩ := Option.isSome_iff_exists.1 hu
    obtain ⟨b, hb, rfl⟩ := hd u e he
    simp only [serviceMoment, he]
    refine .answered _ _ (fun w hw => .inr ⟨a, b, ?_, ?_, rfl⟩)
    · cases hw; exact ha
    · cases hw; exact hb

variable [DecidableEq κ]

/-- A step that changes one client and does nothing to the object that its call does not. -/
theorem Traced.move {h h' : List (Seen κ)}
    {s t : Shared κ (Dir Bytes Bytes Endpoint) ClientCall (Option Bytes) (Except StdException ClientResult)}
    (hs : Traced peer listenPort h s) (hh : h ⊆ h') (c : κ)
    (hobject : t.object = s.object ∨
      ∃ call address, .called c call ∈ h ∧ t.object = (serviceMoment peer listenPort s.object (c, call) address).1)
    (hother : ∀ c' ≠ c, t.phase c' = s.phase c') (hself : Place peer listenPort h' t.object c (t.phase c)) :
    Traced peer listenPort h' t := by
  have hkept : Unnamed t.object ∧ (∀ u, (presenceOf s.object u).isSome = true → (presenceOf t.object u).isSome = true) ∧
      ∀ u e, presenceOf t.object u = some e → ∃ a, Caller h u a ∧ e = (inetNtoa (peer a), listenPort a) := by
    rcases hobject with hobject | ⟨call, address, hcalled, hobject⟩
    · rw [hobject]
      exact ⟨hs.unnamed, fun u hu => hu, hs.present⟩
    · rw [hobject]
      exact ⟨unnamed_moment peer listenPort hs.unnamed _ _,
        fun u hu => present_moment peer listenPort hs.unnamed hu _ _,
        fun u e he => present_of_moment hs.present hcalled address he⟩
  refine ⟨hkept.1, fun u e he => ?_, fun c' => ?_⟩
  · obtain ⟨a, ha, he⟩ := hkept.2.2 u e he
    exact ⟨a, ha.mono hh, he⟩
  · by_cases hc : c' = c
    · rw [hc]
      exact hself
    · rw [hother c' hc]
      exact (hs.place c').mono hh hkept.2.1

theorem traced_step {h : List (Seen κ)}
    {s t : Shared κ (Dir Bytes Bytes Endpoint) ClientCall (Option Bytes) (Except StdException ClientResult)}
    {a : SharedObject.Act κ ClientCall} {es : List (Seen κ)} (hs : Traced peer listenPort h s)
    (hstep : SharedObject.Step none (serviceMoment peer listenPort) s a t es) : Traced peer listenPort (h ++ es) t := by
  cases hstep with
  | call c call hc =>
    refine hs.move (List.subset_append_left ..) c (.inl rfl) (fun c' hne => SharedObject.goto_phase_of_ne s hne _) ?_
    rw [SharedObject.goto_phase_self]
    exact .working call (List.mem_append_right _ (List.mem_singleton_self _))
  | moment c call p hc =>
    have hplace := hs.place c
    rw [hc] at hplace
    rw [List.append_nil]
    refine hs.move (List.Subset.refl h) c (.inr ⟨call, p, hplace.called, rfl⟩)
      (fun c' hne => SharedObject.goto_phase_of_ne _ hne _) ?_
    rw [SharedObject.goto_phase_self]
    exact place_outcome hs.present hplace
  | ret c call r hc =>
    refine hs.move (List.subset_append_left ..) c (.inl rfl) (fun c' hne => SharedObject.goto_phase_of_ne s hne _) ?_
    rw [SharedObject.goto_phase_self]
    exact .idle

/-- What the object returns to a lookup. -/
theorem fromLogins_moments {moments : List (SharedObject.Act κ ClientCall)}
    {t : Shared κ (Dir Bytes Bytes Endpoint) ClientCall (Option Bytes) (Except StdException ClientResult)}
    (ht : Machine.exec (objectStep peer listenPort) (SharedObject.start Dir.empty) moments = some t) {c : κ} {u : Word}
    {r : Except StdException ClientResult} {pre post : List (Seen κ)}
    (hh : Machine.history (objectStep peer listenPort) SharedObject.shows (SharedObject.start Dir.empty) moments =
      pre ++ .returned c (.getClientInfo u) r :: post) : FromLogins peer listenPort pre u r := by
  obtain ⟨before, a, after, v, w, -, hv, -, -, hshow, hpre, -⟩ := Machine.history_split moments ht hh
  have hstart : Traced peer listenPort [] (SharedObject.start Dir.empty) :=
    ⟨rfl, fun _ _ he => (Option.some_ne_none _ he.symm).elim, fun _ => .idle⟩
  have htraced := (Machine.history_invariant (h := []) (I := Traced peer listenPort)
    (fun h s a t hs hstep => traced_step hs (SharedObject.step_cases hstep)) before hstart hv).place c
  rw [List.nil_append, hpre, SharedObject.answered_of_shows hshow] at htraced
  exact htraced.of_answered

variable (peer listenPort) in
/-- **A lookup returns only what logins said**: whatever the interleaving, the address it returns is of a client that
had called a login of the user, and the port of one that had. -/
theorem info_of_logins (run : List (Act κ))
    (hwhole : Machine.Meets (step peer listenPort) (Whole listenPort) start run) {s : Network κ}
    (h : Machine.exec (step peer listenPort) start run = some s) {c : κ} {u : Word}
    {r : Except StdException ClientResult} {pre post : List (Seen κ)}
    (hh : Machine.history (step peer listenPort) (shows listenPort) start run =
      pre ++ .returned c (.getClientInfo u) r :: post) : FromLogins peer listenPort pre u r := by
  obtain ⟨moments, t, ht, -, hmoments⟩ := exists_moments run hwhole h
  rw [← hmoments] at hh
  exact fromLogins_moments ht hh

/-- The lookup is called before the login, and served after it. -/
theorem info_of_logins_race :
    FromLogins (fun _ : Fin 2 => ⟨127, 0, 0, 1⟩) (fun _ => 7)
      [.called 0 (.registerWithServer bob pw0), .returned 0 (.registerWithServer bob pw0) (.ok (.bool true)),
        .called 0 (.getClientInfo bob), .called 1 (.loginToServer bob pw0)] bob (.ok (.info (lit "127.0.0.1", 7))) := by
  let run : List (Act (Fin 2)) :=
    [.call 0 (.registerWithServer bob pw0), .server (.recv 0 (lit "REGISTER bob pw0\n")), .server (.call 0),
      .server (.send 0), .recv 0 13, .call 0 (.getClientInfo bob), .server (.recv 0 (lit "GETINFO bob\n")),
      .call 1 (.loginToServer bob pw0), .server (.recv 1 (lit "LOGIN bob pw0 0.0.0.0 7\n")), .server (.call 1),
      .server (.call 0), .server (.readIsLoggedIn 0), .server (.readIpAddress 0), .server (.readPort 0),
      .server (.send 0), .recv 0 14]
  have hh : Machine.history (step (fun _ => ⟨127, 0, 0, 1⟩) (fun _ => 7)) (shows (fun _ => 7)) start run =
      [.called 0 (.registerWithServer bob pw0), .returned 0 (.registerWithServer bob pw0) (.ok (.bool true)),
        .called 0 (.getClientInfo bob), .called 1 (.loginToServer bob pw0),
        .returned 0 (.getClientInfo bob) (.ok (.info (lit "127.0.0.1", 7)))] := rfl
  exact info_of_logins (fun _ => ⟨127, 0, 0, 1⟩) (fun _ => 7) run (by decide)
    (Option.eq_some_of_isSome (by decide)) hh

end Network

end ChatRoom
