import ChatRoom.Network
/-!
# NetworkDirectory — the network as a directory that many clients share

Seen by its clients, the server is a directory.  A `registerWithServer`, `loginToServer` or `logoutFromServer` takes
effect at one moment of its call; a `getClientInfo` that finds the user reads the address at one moment and the port at
a later one (`serviceMoment`).  Whatever the interleaving, a history of calls and returns that the network shows is one
of that object (`history_refines`).
-/
namespace ChatRoom

open UserManager (Call Represents)
open Directory (Dir presenceOf)
open SharedObject (Shared Phase)

namespace Network

variable {κ : Type} (peer : κ → InAddr) (listenPort : κ → UInt16)

/-- One moment of a call: of a lookup the first, and the second with the address it read at the first. -/
def serviceMoment (d : Dir Bytes Bytes Endpoint) (x : κ × ClientCall) (address : Option Bytes) :
    Dir Bytes Bytes Endpoint × (Option Bytes ⊕ Except StdException ClientResult) :=
  match x.2, address with
  | .getClientInfo u, none =>
    match presenceOf d u with
    | some e => (d, .inl (some e.1))
    | none => (d, .inr (.ok (.info ([], 0))))
  | .getClientInfo u, some ip => (d, .inr (.ok (.info (ip, ((presenceOf d u).map Prod.snd).getD 0))))
  | _, _ => ((Directory.step d (clientOp peer listenPort x)).1,
      .inr (.ok (.ofAnswer (Directory.step d (clientOp peer listenPort x)).2)))

/-! ## What no moment undoes -/

theorem object_serviceMoment (d : Dir Bytes Bytes Endpoint) (x : κ × ClientCall) (address : Option Bytes) :
    (serviceMoment peer listenPort d x address).1 = (Directory.step d (clientOp peer listenPort x)).1 := by
  obtain ⟨c, call⟩ := x
  cases call with
  | getClientInfo u =>
    cases address with
    | none => simp only [serviceMoment]; cases presenceOf d u <;> rfl
    | some ip => rfl
  | _ => rfl

/-- The empty name, which no client can register, is not enrolled. -/
def Unnamed (d : Dir Bytes Bytes Endpoint) : Prop := d [] = none

theorem unnamed_moment {d : Dir Bytes Bytes Endpoint} (h : Unnamed d) (x : κ × ClientCall) (address : Option Bytes) :
    Unnamed (serviceMoment peer listenPort d x address).1 := by
  have hsecret : Directory.secretOf d [] = none := by rw [Directory.secretOf, h]; rfl
  have hno : Directory.enrolment [] (clientOp peer listenPort x) = none := by
    obtain ⟨c, call⟩ := x
    cases call with
    | registerWithServer u p => exact if_neg u.2.1
    | _ => rfl
  rw [object_serviceMoment]
  have hstep := Directory.secretOf_step d (clientOp peer listenPort x) []
  rw [hsecret, hno, Directory.secretOf] at hstep
  exact Option.map_eq_none_iff.1 hstep

/-- **Among clients a user who is present stays present**: the only LOGOUT they send is for the empty name. -/
theorem present_moment {d : Dir Bytes Bytes Endpoint} (hd : Unnamed d) {u : Bytes} (h : (presenceOf d u).isSome = true)
    (x : κ × ClientCall) (address : Option Bytes) :
    (presenceOf (serviceMoment peer listenPort d x address).1 u).isSome = true := by
  rw [object_serviceMoment, Directory.presenceOf_step]
  cases hm : Directory.movement u (clientOp peer listenPort x, (Directory.step d (clientOp peer listenPort x)).2) with
  | none => exact h
  | some o =>
    cases o with
    | some e => rfl
    | none =>
      -- a leaving that is answered: of the empty name, which nobody has
      obtain ⟨hop, hanswer⟩ := Directory.leave_of_movement hm
      obtain ⟨c, call⟩ := x
      cases call with
      | logoutFromServer =>
        rw [Directory.step_answer] at hanswer
        simp only [clientOp, ClientCall.call, Call.op, presenceOf, Option.bind] at hanswer
        rw [hd] at hanswer
        cases hanswer
      | _ => cases hop

/-- Everybody who is present is at such an endpoint. -/
def Within (A : Endpoint → Prop) (d : Dir Bytes Bytes Endpoint) : Prop := ∀ u e, presenceOf d u = some e → A e

/-- **Users are where clients are**: at the address and the port of one of them. -/
theorem within_moment {A : Endpoint → Prop} (hA : ∀ c, A (inetNtoa (peer c), listenPort c))
    {d : Dir Bytes Bytes Endpoint} (h : Within A d) (x : κ × ClientCall) (address : Option Bytes) :
    Within A (serviceMoment peer listenPort d x address).1 := by
  intro u e he
  rw [object_serviceMoment, Directory.presenceOf_step] at he
  cases hm : Directory.movement u (clientOp peer listenPort x, (Directory.step d (clientOp peer listenPort x)).2) with
  | none =>
    rw [hm] at he
    exact h u e he
  | some o =>
    rw [hm, Option.getD_some] at he
    subst he
    obtain ⟨p, hop⟩ := Directory.enter_of_movement hm
    obtain ⟨c, call⟩ := x
    cases call with
    | loginToServer v q =>
      cases hop
      exact hA c
    | _ => cases hop

/-- **A secret is given for good.** -/
theorem secret_moment {d : Dir Bytes Bytes Endpoint} {u p : Bytes} (h : Directory.secretOf d u = some p)
    (x : κ × ClientCall) (address : Option Bytes) :
    Directory.secretOf (serviceMoment peer listenPort d x address).1 u = some p := by
  rw [object_serviceMoment, Directory.secretOf_step, h]
  rfl

/-! ## The refinement -/

/-- A reply that arrives whole and is decoded as `r`. -/
structure Decodes (c : κ) (call : ClientCall) (reply : Bytes) (r : Except StdException ClientResult) : Prop where
  size : 0 < reply.length ∧ reply.length ≤ 1024 - 1
  decode : (exchange listenPort c call).decode (.data reply) = r

/-- How far a call is on the client, on the way, at the server and in the object. -/
inductive Link (d : Dir Bytes Bytes Endpoint) (c : κ) : Option ClientCall → Bytes → Stage → Bytes →
    Phase ClientCall (Option Bytes) (Except StdException ClientResult) → Prop
  | idle : Link d c none [] .idle [] .idle
  | sent (call : ClientCall) (hfit : Fits listenPort (c, call)) :
    Link d c (some call) (exchange listenPort c call).command .idle [] (.working call none)
  | received (call : ClientCall) :
    Link d c (some call) [] (.received (exchange listenPort c call).command) [] (.working call none)
  | found (u : Word) (hu : (presenceOf d u).isSome = true) :
    Link d c (some (.getClientInfo u)) [] (.found u) [] (.working (.getClientInfo u) none)
  | loggedIn (u : Word) (hu : (presenceOf d u).isSome = true) :
    Link d c (some (.getClientInfo u)) [] (.loggedIn u) [] (.working (.getClientInfo u) none)
  | addressed (u : Word) (addr : InAddr) (hu : (presenceOf d u).isSome = true) :
    Link d c (some (.getClientInfo u)) [] (.addressed u (inetNtoa addr)) []
      (.working (.getClientInfo u) (some (inetNtoa addr)))
  | replying (call : ClientCall) (reply : Bytes) (r : Except StdException ClientResult)
    (hr : Decodes listenPort c call reply r) : Link d c (some call) [] (.replying reply) [] (.answered call r)
  | replied (call : ClientCall) (reply : Bytes) (r : Except StdException ClientResult)
    (hr : Decodes listenPort c call reply r) : Link d c (some call) [] .idle reply (.answered call r)

structure Refines (s : Network κ)
    (t : Shared κ (Dir Bytes Bytes Endpoint) ClientCall (Option Bytes) (Except StdException ClientResult)) : Prop where
  serves : Serves s.server.manager t.object
  unnamed : Unnamed t.object
  link : ∀ c, Link listenPort t.object c (s.inCall c) (s.toServer c) (s.server.stage c) (s.toClient c) (t.phase c)

variable {listenPort} in
theorem Link.mono {d d' : Dir Bytes Bytes Endpoint} {c : κ} {call : Option ClientCall} {toServer toClient : Bytes}
    {stage : Stage} {ph : Phase ClientCall (Option Bytes) (Except StdException ClientResult)}
    (hpresent : ∀ u, (presenceOf d u).isSome = true → (presenceOf d' u).isSome = true)
    (h : Link listenPort d c call toServer stage toClient ph) :
    Link listenPort d' c call toServer stage toClient ph := by
  cases h with
  | idle => exact .idle
  | sent call hfit => exact .sent call hfit
  | received call => exact .received call
  | found u hu => exact .found u (hpresent u hu)
  | loggedIn u hu => exact .loggedIn u (hpresent u hu)
  | addressed u addr hu => exact .addressed u addr (hpresent u hu)
  | replying call reply r hr => exact .replying call reply r hr
  | replied call _ r hr => exact .replied call _ r hr

theorem presence_represents {m : UserManager} {d : Dir Bytes Bytes Endpoint} (h : Represents m d) (u : Bytes) :
    m.presence u = presenceOf d u := Directory.Answer.found.inj (UserManager.represents_call h (.findUser u)).2

variable {listenPort} in
/-- A step that concerns one client only. -/
theorem Refines.move [DecidableEq κ] {s s' : Network κ}
    {t t' : Shared κ (Dir Bytes Bytes Endpoint) ClientCall (Option Bytes) (Except StdException ClientResult)}
    (h : Refines listenPort s t) (c : κ) (hserves : Serves s'.server.manager t'.object) (hunnamed : Unnamed t'.object)
    (hpresent : ∀ u, (presenceOf t.object u).isSome = true → (presenceOf t'.object u).isSome = true)
    (hother : ∀ c' ≠ c, s'.inCall c' = s.inCall c' ∧ s'.toServer c' = s.toServer c' ∧
      s'.server.stage c' = s.server.stage c' ∧ s'.toClient c' = s.toClient c' ∧ t'.phase c' = t.phase c')
    (hself :
      Link listenPort t'.object c (s'.inCall c) (s'.toServer c) (s'.server.stage c) (s'.toClient c) (t'.phase c)) :
    Refines listenPort s' t' := by
  refine ⟨hserves, hunnamed, fun c' => ?_⟩
  by_cases hc : c' = c
  · rw [hc]; exact hself
  · obtain ⟨h1, h2, h3, h4, h5⟩ := hother c' hc
    rw [h1, h2, h3, h4, h5]
    exact (h.link c').mono hpresent

/-- **What the server replies in its critical section** is what the object answers at that moment. -/
theorem decodes_reply {m : UserManager} {d : Dir Bytes Bytes Endpoint} (h : Serves m d) (c : κ) (call : ClientCall)
    (hcall : ∀ u, call = .getClientInfo u → presenceOf d u = none) :
    Decodes listenPort c call
        (replyTo (call.call (peer c) (listenPort c)) (m.call (call.call (peer c) (listenPort c))).2)
        (.ok (.ofAnswer (Directory.step d (clientOp peer listenPort (c, call))).2)) := by
  have hanswer := (UserManager.represents_call h.1 (call.call (peer c) (listenPort c))).2
  have hdecode := decode_reply h.2 (peer c) (listenPort c) call
  have hsize : 0 < (replyTo (call.call (peer c) (listenPort c)) (m.call (call.call (peer c) (listenPort c))).2).length ∧
      (replyTo (call.call (peer c) (listenPort c)) (m.call (call.call (peer c) (listenPort c))).2).length ≤
        1024 - 1 := by
    cases call with
    | registerWithServer u p =>
      simp only [ClientCall.call, UserManager.call, replyTo]
      cases (m.registerUser u p).2 <;> decide
    | loginToServer u p =>
      simp only [ClientCall.call, UserManager.call, replyTo]
      cases (m.loginUser u p (inetNtoa (peer c)) (listenPort c)).2 <;> decide
    | logoutFromServer =>
      simp only [ClientCall.call, UserManager.call, replyTo]
      cases (m.logoutUser []).2 <;> decide
    | getClientInfo u =>
      have hnone : m.presence u = none := (presence_represents h.1 u).trans (hcall u rfl)
      have hfind : m.findUser u = none := Option.map_eq_none_iff.1 hnone
      simp only [ClientCall.call, UserManager.call, hfind, replyTo]
      decide
  refine ⟨hsize, ?_⟩
  rw [List.take_of_length_le hsize.2] at hdecode
  rw [exchange, hdecode, hanswer]
  rfl

/-! ### What is known of a call at each place -/

section Places
variable {listenPort}
variable {d : Dir Bytes Bytes Endpoint} {c : κ} {toServer toClient : Bytes} {stage : Stage}
  {inCall : Option ClientCall} {ph : Phase ClientCall (Option Bytes) (Except StdException ClientResult)}

theorem Link.of_none (h : Link listenPort d c none toServer stage toClient ph) :
    toServer = [] ∧ stage = .idle ∧ toClient = [] ∧ ph = .idle := by
  cases h
  exact ⟨rfl, rfl, rfl, rfl⟩

theorem Link.of_toServer (h : Link listenPort d c inCall toServer .idle toClient ph) (hne : toServer ≠ []) :
    ∃ call, inCall = some call ∧ toServer = (exchange listenPort c call).command ∧ toClient = [] ∧
      ph = .working call none := by
  cases h with
  | sent call hfit => exact ⟨call, rfl, rfl, rfl, rfl⟩
  | _ => exact absurd rfl hne

theorem Link.of_received {data : Bytes} (h : Link listenPort d c inCall toServer (.received data) toClient ph) :
    ∃ call, inCall = some call ∧ toServer = [] ∧ data = (exchange listenPort c call).command ∧ toClient = [] ∧
      ph = .working call none := by
  cases h with
  | received call => exact ⟨call, rfl, rfl, rfl, rfl, rfl⟩

theorem Link.of_found {u : Bytes} (h : Link listenPort d c inCall toServer (.found u) toClient ph) :
    ∃ w : Word, u = w ∧ inCall = some (.getClientInfo w) ∧ toServer = [] ∧ toClient = [] ∧
      ph = .working (.getClientInfo w) none ∧ (presenceOf d u).isSome = true := by
  cases h with
  | found w hu => exact ⟨w, rfl, rfl, rfl, rfl, rfl, hu⟩

theorem Link.of_loggedIn {u : Bytes} (h : Link listenPort d c inCall toServer (.loggedIn u) toClient ph) :
    ∃ w : Word, u = w ∧ inCall = some (.getClientInfo w) ∧ toServer = [] ∧ toClient = [] ∧
      ph = .working (.getClientInfo w) none ∧ (presenceOf d u).isSome = true := by
  cases h with
  | loggedIn w hu => exact ⟨w, rfl, rfl, rfl, rfl, rfl, hu⟩

theorem Link.of_addressed {u ip : Bytes} (h : Link listenPort d c inCall toServer (.addressed u ip) toClient ph) :
    ∃ (w : Word) (addr : InAddr), u = w ∧ ip = inetNtoa addr ∧ inCall = some (.getClientInfo w) ∧ toServer = [] ∧
      toClient = [] ∧ ph = .working (.getClientInfo w) (some ip) ∧ (presenceOf d u).isSome = true := by
  cases h with
  | addressed w addr hu => exact ⟨w, addr, rfl, rfl, rfl, rfl, rfl, rfl, hu⟩

theorem Link.of_replying {reply : Bytes} (h : Link listenPort d c inCall toServer (.replying reply) toClient ph) :
    ∃ call r, inCall = some call ∧ toServer = [] ∧ toClient = [] ∧ ph = .answered call r ∧
      Decodes listenPort c call reply r := by
  cases h with
  | replying call reply r hr => exact ⟨call, r, rfl, rfl, rfl, rfl, hr⟩

theorem Link.of_toClient (h : Link listenPort d c inCall toServer stage toClient ph) (hne : toClient ≠ []) :
    ∃ call r, inCall = some call ∧ toServer = [] ∧ stage = .idle ∧ ph = .answered call r ∧
      Decodes listenPort c call toClient r := by
  cases h with
  | replied call _ r hr => exact ⟨call, r, rfl, rfl, rfl, rfl, hr⟩
  | _ => exact absurd rfl hne

end Places

variable {peer listenPort}

/-- The lookup of a user who is present: nothing is read in the critical section. -/
theorem dispatch_present {m : UserManager} {d : Dir Bytes Bytes Endpoint} (h : Represents m d) (c : κ) {u : Word}
    (hu : (presenceOf d u).isSome = true) :
    Race.dispatch (peer c) m (exchange listenPort c (.getClientInfo u)).command = (m, .found u) := by
  have hasked : asked (peer c) (exchange listenPort c (.getClientInfo u)).command = some (.findUser u) :=
    asked_command (peer c) (listenPort c) (.getClientInfo u)
  rw [← presence_represents h, UserManager.presence, Option.isSome_map] at hu
  obtain ⟨user, hfound⟩ := Option.isSome_iff_exists.1 hu
  unfold Race.dispatch
  rw [hasked]
  simp only [UserManager.call, hfound]

/-- Any other command is carried out in its critical section. -/
theorem dispatch_atomic {m : UserManager} {d : Dir Bytes Bytes Endpoint} (h : Represents m d) (c : κ)
    {call : ClientCall} (hcall : ∀ u, call = .getClientInfo u → presenceOf d u = none) :
    Race.dispatch (peer c) m (exchange listenPort c call).command =
      ((m.call (call.call (peer c) (listenPort c))).1,
        .replying (replyTo (call.call (peer c) (listenPort c)) (m.call (call.call (peer c) (listenPort c))).2)) := by
  have hasked : asked (peer c) (exchange listenPort c call).command = some (call.call (peer c) (listenPort c)) :=
    asked_command (peer c) (listenPort c) call
  rcases Race.dispatch_cases (peer c) m (exchange listenPort c call).command with hd | ⟨u, user, hask, hu, hl, -, -⟩
  · rw [hd, processData_of_some hasked]
  · -- a lookup that finds somebody
    rw [hasked] at hask
    cases call with
    | getClientInfo w =>
      cases hask
      have hpresence := (presence_represents h w.1).trans (hcall w rfl)
      rw [Race.presence_of_find hu, if_pos hl] at hpresence
      cases hpresence
    | _ => cases hask

/-- What is read of a user who is present is where it is. -/
theorem presence_of_read {s : Network κ}
    {t : Shared κ (Dir Bytes Bytes Endpoint) ClientCall (Option Bytes) (Except StdException ClientResult)}
    (h : Refines listenPort s t) {u : Bytes} {user : User} (hu : s.server.manager.find u = some user)
    (hpresent : (presenceOf t.object u).isSome = true) :
    user.isLoggedIn = true ∧ presenceOf t.object u = some (user.ipAddress, user.port) := by
  have hpresence := Race.presence_of_find hu
  rw [presence_represents h.serves.1] at hpresence
  split at hpresence
  · rename_i hin
    exact ⟨hin, hpresence⟩
  · rw [hpresence] at hpresent
    cases hpresent

theorem refines_start : Refines listenPort (start : Network κ) (SharedObject.start Dir.empty) :=
  ⟨serves_empty, rfl, fun _ => .idle⟩

/-! ### The steps -/

variable [DecidableEq κ]

variable (peer listenPort) in
abbrev objectStep := SharedObject.step none (serviceMoment peer listenPort)

variable (peer listenPort) in
/-- A step of the network is one of the object's, or none, and shows the same. -/
abbrev Matched := Machine.Matched (objectStep peer listenPort) SharedObject.shows (Refines listenPort)

variable {s s' : Network κ}
  {t t' : Shared κ (Dir Bytes Bytes Endpoint) ClientCall (Option Bytes) (Except StdException ClientResult)}

theorem objectStep_moment {c : κ} {call : ClientCall} {address : Option Bytes}
    (hc : t.phase c = .working call address) :
    objectStep peer listenPort t (.moment c) =
      some (Shared.goto { t with object := (serviceMoment peer listenPort t.object (c, call) address).1 } c
        (SharedObject.outcome call (serviceMoment peer listenPort t.object (c, call) address).2)) := by
  simp only [objectStep, SharedObject.step, hc]

theorem matched_call (h : Refines listenPort s t) {c : κ} {call : ClientCall} (hc : s.inCall c = none)
    (hfit : Fits listenPort (c, call)) :
    Matched peer listenPort { s with
      inCall := Function.update s.inCall c (some call)
      toServer := Function.update s.toServer c (s.toServer c ++ (exchange listenPort c call).command) } t
      (some (.called c call)) := by
  have hlink := h.link c
  rw [hc] at hlink
  obtain ⟨hsrv, hstage, hcli, hph⟩ := hlink.of_none
  have hb : objectStep peer listenPort t (.call c call) = some (t.goto c (.working call none)) := by
    simp only [objectStep, SharedObject.step, hph]
  refine Machine.Matched.one hb (h.move c h.serves h.unnamed (fun u hu => hu) (fun c' hc' => ?_) ?_)
  · exact ⟨Function.update_of_ne hc' .., Function.update_of_ne hc' .., rfl, rfl, SharedObject.goto_phase_of_ne t hc' _⟩
  · dsimp only
    rw [Function.update_self, Function.update_self, hsrv, List.nil_append, hstage, hcli, SharedObject.goto_phase_self]
    exact .sent call hfit

theorem matched_recv (h : Refines listenPort s t) {c : κ} {call : ClientCall} {size : Nat} (hc : s.inCall c = some call)
    (hsize : 0 < size) (hwhole : size = (s.toClient c).length) :
    Matched peer listenPort { s with
      inCall := Function.update s.inCall c none
      toClient := Function.update s.toClient c ((s.toClient c).drop size) } t
      (shows listenPort s (.recv c size)) := by
  subst hwhole
  obtain ⟨call', r, hcall, hsrv, hstage, hph, hr⟩ := (h.link c).of_toClient (List.ne_nil_of_length_pos hsize)
  rw [hc, Option.some.injEq] at hcall
  subst hcall
  have hb : objectStep peer listenPort t (.ret c) = some (t.goto c .idle) := by
    simp only [objectStep, SharedObject.step, hph]
  have hshow : shows listenPort s (.recv c (s.toClient c).length) = SharedObject.shows t (.ret c) := by
    simp only [shows, SharedObject.shows, hph, hc, List.take_length, hr.decode, Option.map_some]
  rw [hshow]
  refine Machine.Matched.one hb (h.move c h.serves h.unnamed (fun u hu => hu) (fun c' hc' => ?_) ?_)
  · exact ⟨Function.update_of_ne hc' .., rfl, rfl, Function.update_of_ne hc' .., SharedObject.goto_phase_of_ne t hc' _⟩
  · dsimp only
    rw [Function.update_self, Function.update_self, List.drop_length, hsrv, hstage, SharedObject.goto_phase_self]
    exact .idle

theorem matched_receive (h : Refines listenPort s t) {c : κ} {data : Bytes} {server : Race κ} (hne : data ≠ [])
    (hwhole : data = s.toServer c) (hserver : Race.step peer s.server (.recv c data) = some server) :
    Matched peer listenPort { s with
      server := server
      toServer := Function.update s.toServer c ((s.toServer c).drop data.length) } t none := by
  subst hwhole
  obtain ⟨hstage, rfl⟩ := Race.step_recv peer hserver
  have hlink := h.link c
  rw [hstage] at hlink
  obtain ⟨call, hcall, hdata, hcli, hph⟩ := hlink.of_toServer hne
  refine Machine.Matched.stutter (h.move c h.serves h.unnamed (fun u hu => hu) (fun c' hc' => ?_) ?_)
  · exact ⟨rfl, Function.update_of_ne hc' .., Race.goto_stage_of_ne s.server hc' _, rfl, rfl⟩
  · dsimp only
    rw [Function.update_self, List.drop_length, Race.goto_stage_self, hcall, hdata, hcli, hph]
    exact .received call

theorem matched_send (h : Refines listenPort s t) {c : κ} {reply : Bytes} {server : Race κ}
    (hstage : s.server.stage c = .replying reply) (hserver : Race.step peer s.server (.send c) = some server) :
    Matched peer listenPort { s with
      server := server
      toClient := Function.update s.toClient c (s.toClient c ++ reply) } t none := by
  obtain ⟨-, rfl⟩ := Race.step_send peer hserver
  have hlink := h.link c
  rw [hstage] at hlink
  obtain ⟨call, r, hcall, hsrv, hcli, hph, hr⟩ := hlink.of_replying
  refine Machine.Matched.stutter (h.move c h.serves h.unnamed (fun u hu => hu) (fun c' hc' => ?_) ?_)
  · exact ⟨rfl, rfl, Race.goto_stage_of_ne s.server hc' _, Function.update_of_ne hc' .., rfl⟩
  · dsimp only
    rw [Function.update_self, Race.goto_stage_self, hcall, hsrv, hcli, List.nil_append, hph]
    exact .replied call reply r hr

/-- A step of the server that answers nothing. -/
theorem Refines.goto (h : Refines listenPort s t) {c : κ} {stage : Stage}
    (hself : Link listenPort t.object c (s.inCall c) (s.toServer c) stage (s.toClient c) (t.phase c)) :
    Refines listenPort { s with server := s.server.goto c stage } t := by
  refine h.move c h.serves h.unnamed (fun u hu => hu) (fun c' hc' => ?_) ?_
  · exact ⟨rfl, rfl, Race.goto_stage_of_ne s.server hc' _, rfl, rfl⟩
  · dsimp only
    rw [Race.goto_stage_self]
    exact hself

/-- A step of the server that is a moment of the object. -/
theorem matched_moment (h : Refines listenPort s t) {c : κ} {call : ClientCall} {address : Option Bytes}
    (hph : t.phase c = .working call address) {m : UserManager} {stage : Stage}
    (hserves : Serves m (serviceMoment peer listenPort t.object (c, call) address).1)
    (hself : Link listenPort (serviceMoment peer listenPort t.object (c, call) address).1 c (s.inCall c) (s.toServer c)
      stage (s.toClient c) (SharedObject.outcome call (serviceMoment peer listenPort t.object (c, call) address).2)) :
    Matched peer listenPort { s with server := Race.goto { s.server with manager := m } c stage } t none := by
  refine Machine.Matched.one (objectStep_moment hph) (h.move c hserves (unnamed_moment peer listenPort h.unnamed _ _)
    (fun u hu => present_moment peer listenPort h.unnamed hu _ _) (fun c' hc' => ?_) ?_)
  · exact ⟨rfl, rfl, Race.goto_stage_of_ne _ hc' _, rfl, SharedObject.goto_phase_of_ne _ hc' _⟩
  · dsimp only
    rw [Race.goto_stage_self, SharedObject.goto_phase_self]
    exact hself

/-- The critical section of a command. -/
theorem matched_dispatch (h : Refines listenPort s t) {c : κ} {server : Race κ}
    (hserver : Race.step peer s.server (.call c) = some server) :
    Matched peer listenPort { s with server := server } t none := by
  obtain ⟨data, hstage, rfl⟩ := Race.step_call peer hserver
  have hlink := h.link c
  rw [hstage] at hlink
  obtain ⟨call, hcall, hsrv, rfl, hcli, hph⟩ := hlink.of_received
  by_cases hpresent : ∃ u, call = .getClientInfo u ∧ (presenceOf t.object u).isSome = true
  · obtain ⟨u, rfl, hu⟩ := hpresent
    rw [dispatch_present h.serves.1 c hu]
    refine Machine.Matched.stutter (h.goto ?_)
    rw [hcall, hsrv, hcli, hph]
    exact .found u hu
  · have hnone : ∀ u, call = .getClientInfo u → presenceOf t.object u = none := fun u hu =>
      Option.not_isSome_iff_eq_none.1 (fun hsome => hpresent ⟨u, hu, hsome⟩)
    have hdecodes := decodes_reply peer listenPort h.serves c call hnone
    have hserve : (serve peer s.server.manager (c, (exchange listenPort c call).command)).1 =
        (s.server.manager.call (call.call (peer c) (listenPort c))).1 := by
      rw [serve_eq, exchange, asked_command]
    have hmoment : serviceMoment peer listenPort t.object (c, call) none =
        ((Directory.step t.object (clientOp peer listenPort (c, call))).1,
          .inr (.ok (.ofAnswer (Directory.step t.object (clientOp peer listenPort (c, call))).2))) := by
      cases call with
      | getClientInfo u =>
        simp only [serviceMoment, hnone u rfl, clientOp, ClientCall.call, Call.op, Directory.step]
        rfl
      | _ => rfl
    rw [dispatch_atomic h.serves.1 c hnone]
    refine matched_moment h hph ?_ ?_
    · rw [hmoment]
      exact ⟨(UserManager.represents_call h.serves.1 _).1, hserve ▸ dotted_serve peer h.serves.2 _⟩
    · rw [hmoment, hcall, hsrv, hcli]
      exact .replying call _ _ hdecodes

theorem matched_readIsLoggedIn (h : Refines listenPort s t) {c : κ} {server : Race κ}
    (hserver : Race.step peer s.server (.readIsLoggedIn c) = some server) :
    Matched peer listenPort { s with server := server } t none := by
  obtain ⟨u, user, hstage, hu, rfl⟩ := Race.step_readIsLoggedIn peer hserver
  have hlink := h.link c
  rw [hstage] at hlink
  obtain ⟨w, rfl, hcall, hsrv, hcli, hph, hpresent⟩ := hlink.of_found
  rw [if_pos (presence_of_read h hu hpresent).1]
  refine Machine.Matched.stutter (h.goto ?_)
  rw [hcall, hsrv, hcli, hph]
  exact .loggedIn w hpresent

theorem matched_readIpAddress (h : Refines listenPort s t) {c : κ} {server : Race κ}
    (hserver : Race.step peer s.server (.readIpAddress c) = some server) :
    Matched peer listenPort { s with server := server } t none := by
  obtain ⟨u, user, hstage, hu, rfl⟩ := Race.step_readIpAddress peer hserver
  have hlink := h.link c
  rw [hstage] at hlink
  obtain ⟨w, rfl, hcall, hsrv, hcli, hph, hpresent⟩ := hlink.of_loggedIn
  have hpresence := (presence_of_read h hu hpresent).2
  obtain ⟨addr, haddr⟩ := h.serves.2 w.1 _ _ ((presence_represents h.serves.1 w.1).trans hpresence)
  have hmoment : serviceMoment peer listenPort t.object (c, .getClientInfo w) none =
      (t.object, .inl (some (inetNtoa addr))) := by
    simp only [serviceMoment, hpresence, haddr]
  refine matched_moment h hph (by rw [hmoment]; exact h.serves) ?_
  rw [hmoment, hcall, hsrv, hcli, haddr]
  exact .addressed w addr hpresent

theorem matched_readPort (h : Refines listenPort s t) {c : κ} {server : Race κ}
    (hserver : Race.step peer s.server (.readPort c) = some server) :
    Matched peer listenPort { s with server := server } t none := by
  obtain ⟨u, ip, user, hstage, hu, rfl⟩ := Race.step_readPort peer hserver
  have hlink := h.link c
  rw [hstage] at hlink
  obtain ⟨w, addr, rfl, rfl, hcall, hsrv, hcli, hph, hpresent⟩ := hlink.of_addressed
  have hpresence := (presence_of_read h hu hpresent).2
  have hmoment : serviceMoment peer listenPort t.object (c, .getClientInfo w) (some (inetNtoa addr)) =
      (t.object, .inr (.ok (.info (inetNtoa addr, user.port)))) := by
    simp only [serviceMoment, hpresence, Option.map_some, Option.getD_some]
  refine matched_moment h hph (by rw [hmoment]; exact h.serves) ?_
  rw [hmoment, hcall, hsrv, hcli]
  refine .replying _ _ _ ⟨⟨?_, ?_⟩, ?_⟩
  · rw [okInfo_eq]; simp
  · exact (length_okInfo_le addr user.port).trans (by decide)
  · simp only [exchange, Client.exchange, Exchange.map, Client.getClientInfo, decodeInfo_okInfo, Except.map]

/-! ### Whole runs -/

/-- **Each step of the network is matched by the object.** -/
theorem refines_step (a : Act κ) (h : Refines listenPort s t) (hwhole : Whole listenPort s a)
    (hstep : step peer listenPort s a = some s') : Matched peer listenPort s' t (shows listenPort s a) := by
  cases step_cases peer listenPort hstep with
  | call c call hc => exact matched_call h hc hwhole
  | receive c data server hne hserver => exact matched_receive h hne hwhole hserver
  | send c reply server hc hserver => exact matched_send h hc hserver
  | recv c size call hc hsize => exact matched_recv h hc hsize.1 hwhole
  | inside a server ha hserver =>
    cases a with
    | recv c data => exact absurd rfl (ha.1 c data)
    | send c => exact absurd rfl (ha.2 c)
    | call c => exact matched_dispatch h hserver
    | readIsLoggedIn c => exact matched_readIsLoggedIn h hserver
    | readIpAddress c => exact matched_readIpAddress h hserver
    | readPort c => exact matched_readPort h hserver

theorem exists_moments (run : List (Act κ))
    (hwhole : Machine.Meets (step peer listenPort) (Whole listenPort) start run)
    (h : Machine.exec (step peer listenPort) start run = some s) :
    ∃ moments t, Machine.exec (objectStep peer listenPort) (SharedObject.start Dir.empty) moments = some t ∧
      Refines listenPort s t ∧
      Machine.history (objectStep peer listenPort) SharedObject.shows (SharedObject.start Dir.empty) moments =
        Machine.history (step peer listenPort) (shows listenPort) start run :=
  Machine.refines (fun _ _ a _ hR hwhole hstep => refines_step a hR hwhole hstep) run refines_start
    hwhole h

variable (peer listenPort) in
/-- **The network refines the directory**: whatever the interleaving, where each message arrives in one `recv`, the
calls of the clients and what they return are a history of the directory that they share, which the database represents.
-/
theorem history_refines (run : List (Act κ))
    (hwhole : Machine.Meets (step peer listenPort) (Whole listenPort) start run) {s : Network κ}
    (h : Machine.exec (step peer listenPort) start run = some s) :
    ∃ moments t, Machine.exec (objectStep peer listenPort) (SharedObject.start Dir.empty) moments = some t ∧
      Represents s.server.manager t.object ∧
      Machine.history (objectStep peer listenPort) SharedObject.shows (SharedObject.start Dir.empty) moments =
        Machine.history (step peer listenPort) (shows listenPort) start run := by
  obtain ⟨moments, t, ht, hR, hh⟩ := exists_moments run hwhole h
  exact ⟨moments, t, ht, hR.serves.1, hh⟩

/-- A name, and two passwords, for runs of two clients. -/
abbrev bob : Word := ⟨lit "bob", by decide⟩

abbrev pw0 : Word := ⟨lit "pw0", by decide⟩

abbrev pw1 : Word := ⟨lit "pw1", by decide⟩

/-- Two clients register the same name at once, with two passwords, and the server takes the second one's first. -/
theorem history_refines_race :
    let peer : Fin 2 → InAddr := fun _ => ⟨127, 0, 0, 1⟩
    ∃ moments t, Machine.exec (objectStep peer (fun _ => 7)) (SharedObject.start Dir.empty) moments = some t ∧
      Machine.history (objectStep peer (fun _ => 7)) SharedObject.shows (SharedObject.start Dir.empty) moments =
        [.called 0 (.registerWithServer bob pw0), .called 1 (.registerWithServer bob pw1),
          .returned 1 (.registerWithServer bob pw1) (.ok (.bool true)),
          .returned 0 (.registerWithServer bob pw0) (.ok (.bool false))] := by
  intro peer
  obtain ⟨moments, t, ht, -, hh⟩ := history_refines peer (fun _ => 7)
    [.call 0 (.registerWithServer bob pw0), .call 1 (.registerWithServer bob pw1),
      .server (.recv 0 (lit "REGISTER bob pw0\n")), .server (.recv 1 (lit "REGISTER bob pw1\n")), .server (.call 1),
      .server (.call 0), .server (.send 1), .recv 1 13, .server (.send 0), .recv 0 16] (by decide) rfl
  exact ⟨moments, t, ht, hh⟩

end Network

end ChatRoom
