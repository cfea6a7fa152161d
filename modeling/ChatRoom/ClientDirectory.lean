import ChatRoom.Client
/-!
# ClientDirectory — clients and server together are a directory

Any number of clients of one server, empty at first.  Every method call is answered as the abstract directory answers it
(`refines_step`), so a run of calls is a run of the directory (`refines_run`), and the directory's law of histories says
what each method returns (`directory_by_history`).
-/
namespace ChatRoom

open UserManager (Call Returned Represents)
open Directory (Dir Op Answer)

variable {κ : Type} (peer : κ → InAddr) (listenPort : κ → UInt16)

abbrev ClientEvent (κ : Type) := (κ × ClientCall) × Except StdException ClientResult

def clientOp (x : κ × ClientCall) : Op Bytes Bytes Endpoint := (x.2.call (peer x.1) (listenPort x.1)).op

/-- The answer behind a result; no address is the empty string. -/
def ClientResult.answer : ClientResult → Answer Endpoint
  | .bool ok => .done ok
  | .info e => .found (if e = ([], 0) then none else some e)

/-- A method call and its result in the directory's terms. -/
def told (e : ClientEvent κ) : Op Bytes Bytes Endpoint × Answer Endpoint :=
  (clientOp peer listenPort e.1, match e.2 with
    | .ok result => result.answer
    | .error _ => .done false)

/-! ## The refinement -/

theorem inetNtoa_ne_nil (addr : InAddr) : inetNtoa addr ≠ [] := by simp [inetNtoa, lit]

theorem answer_ofAnswer {a : Answer Endpoint} (h : ∀ e, a = .found (some e) → e.1 ≠ []) :
    (ClientResult.ofAnswer a).answer = a := by
  cases a with
  | done ok => rfl
  | found o =>
    cases o with
    | none => rfl
    | some e =>
      have hne : e ≠ ([], 0) := fun he => h e rfl (by rw [he])
      simp only [ClientResult.ofAnswer, Option.getD_some, ClientResult.answer, if_neg hne]

theorem presence_of_found {m : UserManager} {c : Call} {e : Endpoint} (h : (m.call c).2.answer = .found (some e)) :
    ∃ u, m.presence u = some e := by
  cases c with
  | findUser u => exact ⟨u, Answer.found.inj h⟩
  | _ => cases h

def Serves (m : UserManager) (d : Dir Bytes Bytes Endpoint) : Prop := Represents m d ∧ Dotted m

theorem serves_empty : Serves UserManager.empty Dir.empty :=
  ⟨UserManager.represents_empty, fun _ _ _ h => by cases h⟩

/-- **A method call does to the server what it asks of the directory, and returns the directory's answer.** -/
theorem refines_step {m : UserManager} {d : Dir Bytes Bytes Endpoint} (h : Serves m d) {x : κ × ClientCall}
    (hfit : Fits listenPort x) :
    Serves (callServer peer listenPort m x).1 (Directory.step d (clientOp peer listenPort x)).1 ∧
      (callServer peer listenPort m x).2 = .ok (.ofAnswer (Directory.step d (clientOp peer listenPort x)).2) ∧
      told peer listenPort (x, (callServer peer listenPort m x).2) =
        (clientOp peer listenPort x, (Directory.step d (clientOp peer listenPort x)).2) := by
  obtain ⟨hrep, hdot⟩ := h
  obtain ⟨hrep', hanswer⟩ := UserManager.represents_call hrep (x.2.call (peer x.1) (listenPort x.1))
  have hdot' := dotted_callServer peer listenPort hdot x
  rw [callServer_eq peer listenPort hdot hfit] at hdot' ⊢
  refine ⟨⟨hrep', hdot'⟩, by rw [hanswer]; rfl, ?_⟩
  have hinfo : ∀ e, (Directory.step d (clientOp peer listenPort x)).2 = .found (some e) → e.1 ≠ [] := by
    intro e he
    obtain ⟨u, hu⟩ := presence_of_found (hanswer.trans he)
    obtain ⟨addr, haddr⟩ := hdot u e.1 e.2 hu
    exact haddr ▸ inetNtoa_ne_nil addr
  simp only [told]
  rw [hanswer]
  exact congrArg (Prod.mk _) (answer_ofAnswer hinfo)

/-- **A run of calls is a run of the directory**, answered alike. -/
theorem refines_run (calls : List (κ × ClientCall)) (hfit : ∀ x ∈ calls, Fits listenPort x) :
    Serves (Machine.final (callServer peer listenPort) UserManager.empty calls)
        (Machine.final Directory.step Dir.empty (calls.map (clientOp peer listenPort))) ∧
      (Machine.trace (callServer peer listenPort) UserManager.empty calls).map (told peer listenPort) =
        Machine.trace Directory.step Dir.empty (calls.map (clientOp peer listenPort)) := by
  have := Machine.simulates (callServer peer listenPort) Directory.step Serves (Fits listenPort)
    (fun x => some (clientOp peer listenPort x)) (fun e => some (told peer listenPort e))
    (fun m d x hR hx =>
      ⟨(refines_step peer listenPort hR hx).1, congrArg some (refines_step peer listenPort hR hx).2.2⟩)
    calls UserManager.empty Dir.empty serves_empty hfit
  simpa only [List.filterMap_eq_map'] using this

/-! ## What the methods return -/

/-- The password of the first `registerWithServer` of a user. -/
def firstRegistered (u : Bytes) (past : List (ClientEvent κ)) : Option Bytes :=
  past.findSome? (fun e => match e.1.2 with
    | .registerWithServer username password => if username.1 = u then some password.1 else none
    | _ => none)

/-- Where a `loginToServer` of a user puts it, when it returned true: the address of the connection as the server sees
it, and the client's listening port. -/
def loginEndpoint (u : Bytes) (e : ClientEvent κ) : Option Endpoint :=
  match e.1.2, e.2 with
  | .loginToServer username _, .ok (.bool true) =>
    if username.1 = u then some (inetNtoa (peer e.1.1), listenPort e.1.1) else none
  | _, _ => none

/-- Where the last `loginToServer` of a user that returned true put it. -/
def lastLogin (u : Bytes) (past : List (ClientEvent κ)) : Option Endpoint :=
  (past.filterMap (loginEndpoint peer listenPort u)).getLast?

theorem firstRegistered_eq_none (u : Word) (past : List (ClientEvent κ)) :
    firstRegistered u past = none ↔ ∀ e ∈ past, ∀ q, e.1.2 ≠ .registerWithServer u q := by
  unfold firstRegistered
  rw [List.findSome?_eq_none_iff]
  refine forall₂_congr (fun e _ => ?_)
  cases e.1.2 with
  | registerWithServer v q =>
    constructor
    · intro h p hp
      cases hp
      simp at h
    · intro h
      exact if_neg (fun hv => h q (by rw [Subtype.ext hv]))
  | _ => simp

theorem firstSecret_told (u : Bytes) (past : List (ClientEvent κ)) :
    Directory.firstSecret u (past.map (told peer listenPort)) = firstRegistered u past := by
  unfold Directory.firstSecret firstRegistered
  rw [List.map_map, List.findSome?_map]
  congr 1
  funext e
  simp only [Function.comp, told, clientOp]
  cases e.1.2 <;> rfl

theorem movement_told (u : Bytes) {e : ClientEvent κ} (h : e.1.2 ≠ .logoutFromServer) :
    Directory.movement u (told peer listenPort e) = (loginEndpoint peer listenPort u e).map some := by
  obtain ⟨⟨c, call⟩, result⟩ := e
  cases call with
  | loginToServer v p =>
    rcases result with err | (ok | info)
    · rfl
    · cases ok with
      | false => rfl
      | true => by_cases hv : v.1 = u <;> simp [told, clientOp, ClientCall.call, Call.op, ClientResult.answer,
          Directory.movement, loginEndpoint, hv]
    · rfl
  | logoutFromServer => exact absurd rfl h
  | _ => rfl

theorem lastPresence_told (u : Bytes) (past : List (ClientEvent κ)) (h : ∀ e ∈ past, e.1.2 ≠ .logoutFromServer) :
    Directory.lastPresence u (past.map (told peer listenPort)) = lastLogin peer listenPort u past := by
  have hmoves : (past.map (told peer listenPort)).filterMap (Directory.movement u) =
      (past.filterMap (loginEndpoint peer listenPort u)).map some := by
    rw [List.filterMap_map, List.map_filterMap]
    exact List.filterMap_congr (fun e he => movement_told peer listenPort u (h e he))
  unfold Directory.lastPresence lastLogin
  rw [hmoves, List.getLast?_map]
  cases (past.filterMap (loginEndpoint peer listenPort u)).getLast? <;> rfl

theorem result_by_history (calls : List (κ × ClientCall)) (hfit : ∀ x ∈ calls, Fits listenPort x)
    {past rest : List (ClientEvent κ)} {x : κ × ClientCall} {result : Except StdException ClientResult}
    (htr : Machine.trace (callServer peer listenPort) UserManager.empty calls = past ++ (x, result) :: rest) :
    result = .ok (.ofAnswer (Directory.answer (past.map (told peer listenPort)) (clientOp peer listenPort x))) := by
  obtain ⟨hcalls, hpast, hresult, -⟩ := Machine.trace_split _ _ _ _ _ _ htr
  have hfit' : ∀ y ∈ past.map Prod.fst, Fits listenPort y := fun y hy =>
    hfit y (by rw [hcalls]; exact List.mem_append_left _ hy)
  have hx : Fits listenPort x := hfit x (by rw [hcalls]; simp)
  obtain ⟨hserves, htold⟩ := refines_run peer listenPort (past.map Prod.fst) hfit'
  rw [← hpast] at htold
  rw [htold, ← Directory.trace_answers, ← (refines_step peer listenPort hserves hx).2.1]
  exact hresult

/-- **Clients and server are a directory.**  In every run of the three methods: `registerWithServer` returns true for
the first call on a user, `loginToServer` for the password of that call, and `getClientInfo` returns where the last
`loginToServer` that returned true came from. -/
theorem directory_by_history (calls : List (κ × ClientCall))
    (hcalls : ∀ x ∈ calls, Fits listenPort x ∧ x.2 ≠ .logoutFromServer) (past rest : List (ClientEvent κ))
    (x : κ × ClientCall) (result : Except StdException ClientResult)
    (htr : Machine.trace (callServer peer listenPort) UserManager.empty calls = past ++ (x, result) :: rest) :
    (∀ u p, x.2 = .registerWithServer u p →
      ∃ ok, result = .ok (.bool ok) ∧ (ok = true ↔ ∀ e ∈ past, ∀ q, e.1.2 ≠ .registerWithServer u q)) ∧
    (∀ u p, x.2 = .loginToServer u p →
      ∃ ok, result = .ok (.bool ok) ∧ (ok = true ↔ firstRegistered u past = some p.1)) ∧
    (∀ u, x.2 = .getClientInfo u → result = .ok (.info ((lastLogin peer listenPort u past).getD ([], 0)))) := by
  have hres := result_by_history peer listenPort calls (fun y hy => (hcalls y hy).1) htr
  have hpast : ∀ e ∈ past, e.1.2 ≠ .logoutFromServer := fun e he => by
    refine (hcalls e.1 ?_).2
    rw [(Machine.trace_split _ _ _ _ _ _ htr).1]
    exact List.mem_append_left _ (List.mem_map_of_mem he)
  refine ⟨fun u p hx => ?_, fun u p hx => ?_, fun u hx => ?_⟩
  · rw [clientOp, hx, ClientCall.call, Call.op, Directory.answer, firstSecret_told] at hres
    exact ⟨_, hres, by rw [Option.isNone_iff_eq_none, firstRegistered_eq_none]⟩
  · rw [clientOp, hx, ClientCall.call, Call.op, Directory.answer, firstSecret_told] at hres
    exact ⟨_, hres, decide_eq_true_iff⟩
  · rw [clientOp, hx, ClientCall.call, Call.op, Directory.answer, lastPresence_told peer listenPort _ _ hpast] at hres
    exact hres

/-- Client 1 registers `alice` and logs in; client 2 fails to register her, and is told where client 1 is. -/
theorem directory_by_history_alice :
    let u : Word := ⟨lit "alice", by decide⟩
    let p : Word := ⟨lit "pw", by decide⟩
    let server := callServer (fun c : Nat => ⟨10, 0, 0, c.toUInt8⟩) (fun c => 5000 + c.toUInt16)
    (server (Machine.final server UserManager.empty
      [(1, .registerWithServer u p), (2, .registerWithServer u u), (1, .loginToServer u p)]) (2, .getClientInfo u)).2 =
      .ok (.info (lit "10.0.0.1", 5001)) := by
  intro u p server
  have hlast : lastLogin (fun c : Nat => ⟨10, 0, 0, c.toUInt8⟩) (fun c => 5000 + c.toUInt16) u (Machine.trace server
      UserManager.empty [(1, .registerWithServer u p), (2, .registerWithServer u u), (1, .loginToServer u p)]) =
      some (lit "10.0.0.1", 5001) := by decide
  have hinfo := (directory_by_history (fun c : Nat => ⟨10, 0, 0, c.toUInt8⟩) (fun c => 5000 + c.toUInt16)
    [(1, .registerWithServer u p), (2, .registerWithServer u u), (1, .loginToServer u p), (2, .getClientInfo u)]
    (by decide)
    _ [] (2, .getClientInfo u) _ (Machine.trace_append server [(1, .registerWithServer u p),
      (2, .registerWithServer u u), (1, .loginToServer u p)] [(2, .getClientInfo u)] UserManager.empty)).2.2 u rfl
  rw [hlast] at hinfo
  exact hinfo

end ChatRoom
