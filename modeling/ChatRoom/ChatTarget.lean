import ChatRoom.Lines
import ChatRoom.NetworkService
/-!
# ChatTarget — where `chatWithClient` connects to

It dials the endpoint that `getClientInfo` returned, after `inet_pton` has read the address back (`inetPton_inetNtoa`).
A chat that is begun after a login of its user has returned dials the listener that a login of the user spoke for,
whatever else goes on (`chat_dials_login`).
-/
namespace ChatRoom

/-! ## Reading an address -/

/-- One number of a dotted address: no leading zero, at most 255. -/
def octet (digits : Bytes) : Option UInt8 :=
  if digits ≠ [] ∧ digits.all Numeral.isDigit = true ∧ (digits = [48] ∨ digits.head? ≠ some 48) ∧
      Numeral.value digits ≤ 255 then
    some (UInt8.ofNat (Numeral.value digits))
  else none

/-- `inet_pton` for `AF_INET`. -/
def inetPton (src : Bytes) : Option InAddr := do
  let (a, rest) ← Lines.cut 46 src
  let (b, rest) ← Lines.cut 46 rest
  let (c, d) ← Lines.cut 46 rest
  return ⟨← octet a, ← octet b, ← octet c, ← octet d⟩

theorem octet_stdToString (x : UInt8) : octet (stdToString x.toNat) = some x := by
  have hx := x.toNat_lt
  have hvalue : Numeral.value (stdToString x.toNat) = x.toNat := Numeral.value_numeral x.toNat
  have hhead : stdToString x.toNat = [48] ∨ (stdToString x.toNat).head? ≠ some 48 := by
    rcases Nat.eq_zero_or_pos x.toNat with hzero | hpos
    · rw [hzero]
      exact .inl rfl
    · exact .inr (Numeral.head?_numeral hpos)
  unfold octet
  rw [if_pos ⟨Numeral.numeral_ne_nil _, List.all_eq_true.2 (Numeral.isDigit_of_mem_numeral _), hhead, by omega⟩,
    hvalue, UInt8.ofNat_toNat]

/-- **`inet_pton` reads back what `inet_ntoa` wrote.** -/
theorem inetPton_inetNtoa (x : InAddr) : inetPton (inetNtoa x) = some x := by
  have hdot : ∀ y : UInt8, 46 ∉ stdToString y.toNat := fun y hmem =>
    absurd (Numeral.isDigit_of_mem_numeral _ _ hmem) (by decide)
  have hsrc : inetNtoa x = stdToString x.a.toNat ++ 46 :: (stdToString x.b.toNat ++ 46 ::
      (stdToString x.c.toNat ++ 46 :: stdToString x.d.toNat)) := by
    simp [inetNtoa, lit]
  unfold inetPton
  rw [hsrc, Lines.cut_append (hdot x.a)]
  simp only [Option.bind_eq_bind, Option.bind_some, Lines.cut_append (hdot x.b), Lines.cut_append (hdot x.c),
    octet_stdToString, Option.pure_def]

/-! ## The endpoint dialled -/

/-- What `chatWithClient` passes to `connect`, if it comes to that: `inet_pton` leaves the zeroed address where it
cannot read one. -/
def chatTarget (info : Endpoint) : Option SockAddrIn :=
  if info.1 = [] ∨ info.2 = 0 then none else some ⟨htons info.2, (inetPton (cStr info.1)).getD inaddrAny⟩

namespace Network

/-- What `chatWithClient` dials after its `getClientInfo`: nothing after an exception. -/
def dialled : Except StdException ClientResult → Option SockAddrIn
  | .ok (.info info) => chatTarget info
  | _ => none

theorem cStr_inetNtoa (x : InAddr) : cStr (inetNtoa x) = inetNtoa x := by
  refine cStr_of_ne_zero _ (fun b hb => ?_)
  rcases mem_inetNtoa x b hb with hdigit | rfl
  · exact ne_zero_of_isDigit b hdigit
  · decide

/-- An endpoint of the server's is dialled as it stands, unless its port is 0. -/
theorem dialled_info (addr : InAddr) (port : UInt16) :
    dialled (.ok (.info (inetNtoa addr, port))) = if port = 0 then none else some ⟨htons port, addr⟩ := by
  simp only [dialled, chatTarget, inetNtoa_ne_nil, false_or, cStr_inetNtoa, inetPton_inetNtoa, Option.getD_some]

variable {κ : Type} [DecidableEq κ] (peer : κ → InAddr) (listenPort : κ → UInt16)

/-- **A chat dials who logged in**: whatever the interleaving, a chat that is begun after a login of the user returned
`true` dials the machine of a client that had called a login of the user, at the port on which one that had listens; it
dials nothing when that client was given port 0. -/
theorem chat_dials_login (run : List (Act κ))
    (hwhole : Machine.Meets (step peer listenPort) (Whole listenPort) start run) {s : Network κ}
    (h : Machine.exec (step peer listenPort) start run = some s) {c c' : κ} {u p : Word} {call : ClientCall}
    {r : Except StdException ClientResult} {pre mid mid' post : List (Seen κ)}
    (hh : Machine.history (step peer listenPort) (shows listenPort) start run =
      pre ++ .returned c (.loginToServer u p) (.ok (.bool true)) :: mid ++ .called c' (.getClientInfo u) ::
        mid' ++ .returned c' call r :: post)
    (hmid : ∀ call r, .returned c' call r ∉ mid') :
    ∃ a b, Caller (pre ++ .returned c (.loginToServer u p) (.ok (.bool true)) :: mid ++
        .called c' (.getClientInfo u) :: mid') u a ∧
      Caller (pre ++ .returned c (.loginToServer u p) (.ok (.bool true)) :: mid ++
        .called c' (.getClientInfo u) :: mid') u b ∧
      dialled r = if listenPort b = 0 then none
        else some { (Client.initializeListener (listenPort b)).listenerAddr with sinAddr := peer a } := by
  obtain ⟨moments, t, ht, -, hmoments⟩ := exists_moments run hwhole h
  rw [← hmoments] at hh
  obtain ⟨rfl, addr, port, rfl⟩ := found_moments ht hh hmid
  rcases fromLogins_moments ht hh with hnobody | ⟨a, b, ha, hb, hr⟩
  · simp only [Except.ok.injEq, ClientResult.info.injEq, Prod.mk.injEq, inetNtoa_ne_nil, false_and] at hnobody
  · exact ⟨a, b, ha, hb, by rw [hr, dialled_info]; rfl⟩

abbrev ports : Fin 2 → UInt16 := fun c => if c = 0 then 7 else 8

/-- The user logs in on a second client, at another port, while the lookup is on its way. -/
theorem chat_dials_login_race :
    let run : List (Act (Fin 2)) :=
      [.call 0 (.registerWithServer bob pw0), .server (.recv 0 (lit "REGISTER bob pw0\n")), .server (.call 0),
        .server (.send 0), .recv 0 13, .call 0 (.loginToServer bob pw0),
        .server (.recv 0 (lit "LOGIN bob pw0 0.0.0.0 7\n")), .server (.call 0), .server (.send 0), .recv 0 8,
        .call 0 (.getClientInfo bob), .server (.recv 0 (lit "GETINFO bob\n")), .call 1 (.loginToServer bob pw0),
        .server (.call 0), .server (.recv 1 (lit "LOGIN bob pw0 0.0.0.0 8\n")), .server (.readIsLoggedIn 0),
        .server (.readIpAddress 0), .server (.call 1), .server (.readPort 0), .server (.send 0), .recv 0 14]
    ∃ r a b, .returned 0 (.getClientInfo bob) r ∈
        Machine.history (step (fun _ => ⟨127, 0, 0, 1⟩) ports) (shows ports) start run ∧
      dialled r = if ports b = 0 then none
        else some { (Client.initializeListener (ports b)).listenerAddr with
          sinAddr := (fun _ : Fin 2 => ⟨127, 0, 0, 1⟩) a } := by
  intro run
  have hh : Machine.history (step (fun _ => ⟨127, 0, 0, 1⟩) ports) (shows ports) start run =
      [.called 0 (.registerWithServer bob pw0), .returned 0 (.registerWithServer bob pw0) (.ok (.bool true)),
        .called 0 (.loginToServer bob pw0)] ++ .returned 0 (.loginToServer bob pw0) (.ok (.bool true)) :: [] ++
        .called 0 (.getClientInfo bob) :: [.called 1 (.loginToServer bob pw0)] ++
        .returned 0 (.getClientInfo bob) (.ok (.info (lit "127.0.0.1", 8))) :: [] := rfl
  obtain ⟨a, b, -, -, hdialled⟩ := chat_dials_login (fun _ => ⟨127, 0, 0, 1⟩) ports run (by decide)
    (Option.eq_some_of_isSome (by decide)) hh (by simp)
  exact ⟨_, a, b, hh ▸ List.mem_append_right _ List.mem_cons_self, hdialled⟩

end Network

end ChatRoom
