import ChatRoom.ClientDirectory
/-!
# ClientLogout — the logout of a client

`logoutFromServer` sends LOGOUT without a name, and the server takes the name from the request: it logs out the user
named by the empty string, whom no client can register (`find_nil`).  So the method returns false and changes nothing
(`callServer_logout`), in every run and also on a client whose user is logged in (`logout_fails`).
-/
namespace ChatRoom

open UserManager (Call Represents)
open Directory (Dir)

variable {κ : Type} (peer : κ → InAddr) (listenPort : κ → UInt16)

/-- The user that a `loginToServer` on client `c` logged in, if it is one that returned true. -/
def loggedIn [DecidableEq κ] (c : κ) (e : ClientEvent κ) : Option Word :=
  match e.1.2, e.2 with
  | .loginToServer username _, .ok (.bool true) => if e.1.1 = c then some username else none
  | _, _ => none

def session [DecidableEq κ] (c : κ) (past : List (ClientEvent κ)) : Option Word :=
  (past.filterMap (loggedIn c)).getLast?

/-- The last successful login on client `c` was for `u`, and no client with that session has logged out since. -/
def InSession [DecidableEq κ] (c : κ) (u : Word) (past : List (ClientEvent κ)) : Prop :=
  ∃ before p after, past = before ++ ((c, .loginToServer u p), .ok (.bool true)) :: after ∧ session c after = none ∧
    ∀ c' later rest, after = later ++ ((c', .logoutFromServer), .ok (.bool true)) :: rest →
      session c' (before ++ ((c, .loginToServer u p), .ok (.bool true)) :: later) ≠ some u

/-- A logout on client `c` with session `u` works, after the given calls: it returns true, `u` is nowhere until its next
successful login, and the others stay where they are. -/
def LogoutWorks (calls : List (κ × ClientCall)) (c : κ) (u : Word) : Prop :=
  let m := Machine.final (callServer peer listenPort) UserManager.empty calls
  let m' := (callServer peer listenPort m (c, .logoutFromServer)).1
  (callServer peer listenPort m (c, .logoutFromServer)).2 = .ok (.bool true) ∧
    (∀ later, (∀ x ∈ later, Fits listenPort x) →
      lastLogin peer listenPort u (Machine.trace (callServer peer listenPort) m' later) = none →
      ∀ c', Fits listenPort (c', .getClientInfo u) →
        (callServer peer listenPort (Machine.final (callServer peer listenPort) m' later) (c', .getClientInfo u)).2 =
          .ok (.info ([], 0))) ∧
    ∀ v, v ≠ u.1 → m'.presence v = m.presence v

theorem firstRegistered_nil (past : List (ClientEvent κ)) : firstRegistered [] past = none := by
  unfold firstRegistered
  rw [List.findSome?_eq_none_iff]
  intro e _
  cases e.1.2 with
  | registerWithServer u p => exact if_neg u.2.1
  | _ => rfl

/-- **No client registers the empty name.** -/
theorem find_nil (calls : List (κ × ClientCall)) (hfit : ∀ x ∈ calls, Fits listenPort x) :
    (Machine.final (callServer peer listenPort) UserManager.empty calls).find [] = none := by
  obtain ⟨⟨hrep, -⟩, htold⟩ := refines_run peer listenPort calls hfit
  have hsecret := Directory.final_secretOf (calls.map (clientOp peer listenPort)) []
  rw [← htold, firstSecret_told, firstRegistered_nil, Directory.secretOf, Option.map_eq_none_iff] at hsecret
  exact hrep.find hsecret

/-- **The LOGOUT of a client is refused**, and nothing changes. -/
theorem callServer_logout (calls : List (κ × ClientCall)) (hfit : ∀ x ∈ calls, Fits listenPort x) (c : κ) :
    let m := Machine.final (callServer peer listenPort) UserManager.empty calls
    callServer peer listenPort m (c, .logoutFromServer) = (m, .ok (.bool false)) := by
  intro m
  obtain ⟨⟨-, hdot⟩, -⟩ := refines_run peer listenPort calls hfit
  have hout : Fits listenPort (c, .logoutFromServer) := by
    show (lit "LOGOUT\n").length ≤ bufferSize
    decide
  have hcall : m.logoutUser [] = (m, false) := by
    unfold UserManager.logoutUser
    rw [find_nil peer listenPort calls hfit]
  rw [callServer_eq peer listenPort hdot hout]
  simp only [ClientCall.call, UserManager.call]
  rw [hcall]
  rfl

/-- **No logout of a client works.** -/
theorem logout_fails [DecidableEq κ] (calls : List (κ × ClientCall)) (hfit : ∀ x ∈ calls, Fits listenPort x) (c : κ)
    (u : Word) : InSession c u (Machine.trace (callServer peer listenPort) UserManager.empty calls) →
    ¬ LogoutWorks peer listenPort calls c u := by
  intro _ hworks
  have hresult := hworks.1
  rw [callServer_logout peer listenPort calls hfit c] at hresult
  cases hresult

theorem logout_fails_alice :
    let u : Word := ⟨lit "alice", by decide⟩
    ¬ LogoutWorks (fun _ : Nat => ⟨127, 0, 0, 1⟩) (fun _ => 5001)
      [(1, .registerWithServer u u), (1, .loginToServer u u)] 1 u := by
  intro u
  refine logout_fails _ _ _ (by decide) 1 u ⟨[((1, .registerWithServer u u), .ok (.bool true))], u, [], ?_, rfl, ?_⟩
  · decide
  · intro c' later rest h
    cases later <;> cases h

/-- `alice` registers, logs in and logs out, all on one client. -/
theorem logout_refused : ¬ ∀ (peer : Nat → InAddr) (listenPort : Nat → UInt16) (calls : List (Nat × ClientCall)),
    (∀ x ∈ calls, Fits listenPort x) → ∀ (c : Nat) (u : Word),
    InSession c u (Machine.trace (callServer peer listenPort) UserManager.empty calls) →
    LogoutWorks peer listenPort calls c u := by
  intro h
  let u : Word := ⟨lit "alice", by decide⟩
  have hworks := h (fun _ => ⟨127, 0, 0, 1⟩) (fun _ => 5001) [(1, .registerWithServer u u), (1, .loginToServer u u)]
    (by decide) 1 u
    ⟨[((1, .registerWithServer u u), .ok (.bool true))], u, [], by decide, rfl, fun c' later rest he => by
      cases later <;> cases he⟩
  exact absurd hworks.1 (by decide)

end ChatRoom
