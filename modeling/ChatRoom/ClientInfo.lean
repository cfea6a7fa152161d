import ChatRoom.Client
import ChatRoom.Lines
/-!
# ClientInfo — what `getClientInfo` makes of any reply

A reply that does not start with `OK ` is reported as no endpoint.  One that does is cut at its first colon
(`decodeInfo_colon`), and `std::stoi` reads what is behind it: without a colon, a number there or a number that fits it
throws (`decodeInfo_no_colon`), and whatever follows the number, or its high bits, are dropped.  `decodesExactly_iff`
says of which replies the decoding is exact.
-/
namespace ChatRoom

open Client (decodeInfo)

/-- The string read from `buffer` is the endpoint reply for `ip` and `port`. -/
def Encodes (buffer ip : Bytes) (port : UInt16) : Prop := 58 ∉ ip ∧ cStr buffer = okInfo ip port

/-- A total decoder that returns the endpoint of an endpoint reply, and no endpoint for any other reply. -/
structure DecodesExactly (buffer : Bytes) : Prop where
  returns : ∃ e, decodeInfo (.data buffer) = .ok e
  endpoint : ∀ ip port, (ip, port) ≠ ([], 0) → (decodeInfo (.data buffer) = .ok (ip, port) ↔ Encodes buffer ip port)
  other : (∀ ip port, ¬ Encodes buffer ip port) → decodeInfo (.data buffer) = .ok ([], 0)

/-- The replies that are decoded exactly: no OK reply, an endpoint reply, or one with an empty address and a multiple of
65536, which is cut to 0. -/
def Decodable (response : Bytes) : Prop :=
  ¬ lit "OK " <+: response ∨ (∃ ip port, 58 ∉ ip ∧ response = okInfo ip port) ∨
    ∃ rest v, response = lit "OK :" ++ rest ∧ stoi rest = .ok v ∧ v % 65536 = 0

/-! ## The cases of the decoder -/

theorem cStr_cStr (s : Bytes) : cStr (cStr s) = cStr s :=
  cStr_of_ne_zero _ (fun b hb => by simpa using List.mem_takeWhile_imp hb)

theorem decodeInfo_not_ok {buffer : Bytes} (h : ¬ lit "OK " <+: cStr buffer) :
    decodeInfo (.data buffer) = .ok ([], 0) := by
  have hstatus : (cStr buffer).take 3 ≠ lit "OK " := fun heq => h (heq ▸ List.take_prefix 3 _)
  unfold decodeInfo
  by_cases hne : buffer.length = 0
  · simp [hne]
  · simp [hne, substr, bind, Except.bind, hstatus, pure, Except.pure]

theorem stoi_ok (t : Bytes) : stoi (cStr (lit "OK " ++ t)) = .error .invalidArgument := by
  unfold stoi
  rw [cStr_cStr]
  rfl

/-- **Without a colon, `std::stoi` is given the reply from its start**: `npos + 1` is 0. -/
theorem decodeInfo_no_colon {buffer t : Bytes} (hr : cStr buffer = lit "OK " ++ t) (ht : 58 ∉ t)
    (hlen : buffer.length ≤ 1023) : decodeInfo (.data buffer) = .error .invalidArgument := by
  have hshort : (cStr buffer).length ≤ 1023 := (isPrefix_cStr buffer).length_le.trans hlen
  have hok : (lit "OK ").length = 3 := rfl
  have hsum : (cStr buffer).length = 3 + t.length := by rw [hr, List.length_append, hok]
  have hne : buffer.length ≠ 0 := length_ne_zero_of_cStr (by rw [hr]; exact nofun)
  have hcolon : strFind (cStr buffer) 58 = npos := by
    rw [hr]
    exact if_neg (by simpa [lit] using ht)
  have hstatus : substr (cStr buffer) 0 3 = .ok (lit "OK ") := by
    rw [hr]
    exact substr_append [] (lit "OK ") t rfl rfl
  have hip : substr (cStr buffer) 3 (npos - 3) = .ok t := by
    rw [hr]
    exact substr_rest (lit "OK ") t rfl (le_trans (by omega : t.length ≤ 1023) (by decide))
  have hrest : substr (cStr buffer) (npos + 1) npos = .ok (cStr buffer) :=
    substr_rest [] (cStr buffer) rfl (hshort.trans (by decide))
  have hstoi : stoi (cStr buffer) = .error .invalidArgument := by
    rw [← cStr_cStr, hr]
    exact stoi_ok t
  simp only [decodeInfo, if_neg hne, hstatus, hcolon, hip, hrest, hstoi, bind, Except.bind, if_true]

/-! ## When the decoding is exact -/

theorem encodes_of_colon {buffer ip rest : Bytes} (hr : cStr buffer = lit "OK " ++ ip ++ 58 :: rest) (hip : 58 ∉ ip)
    {ip' : Bytes} {port : UInt16} (h : Encodes buffer ip' port) : ip' = ip ∧ rest = stdToString port.toNat := by
  obtain ⟨hip', henc⟩ := h
  rw [hr, okInfo_eq, List.append_assoc, List.append_assoc] at henc
  obtain ⟨h1, h2⟩ := Lines.append_cons_inj hip hip' (List.append_cancel_left henc)
  exact ⟨h1.symm, h2⟩

theorem not_encodes_of_not_ok {buffer ip : Bytes} {port : UInt16} (h : ¬ lit "OK " <+: cStr buffer) :
    ¬ Encodes buffer ip port := by
  rintro ⟨-, henc⟩
  rw [henc, okInfo, List.append_assoc, List.append_assoc] at h
  exact h (List.prefix_append _ _)

/-- A reply read as no endpoint is read exactly if it is the reply for none. -/
theorem decodesExactly_of_none {buffer : Bytes} (hdec : decodeInfo (.data buffer) = .ok ([], 0))
    (hno : ∀ ip port, (ip, port) ≠ ([], 0) → ¬ Encodes buffer ip port) : DecodesExactly buffer := by
  refine ⟨⟨_, hdec⟩, fun ip port hne => ?_, fun _ => hdec⟩
  rw [hdec]
  constructor
  · intro heq
    cases heq
    exact absurd rfl hne
  · intro henc
    exact absurd henc (hno ip port hne)

theorem decodesExactly_of_not_ok {buffer : Bytes} (h : ¬ lit "OK " <+: cStr buffer) : DecodesExactly buffer :=
  decodesExactly_of_none (decodeInfo_not_ok h) (fun _ _ _ => not_encodes_of_not_ok h)

theorem decodesExactly_of_encodes {buffer ip : Bytes} {port : UInt16} (h : Encodes buffer ip port)
    (hlen : buffer.length ≤ 1023) : DecodesExactly buffer := by
  have hr : cStr buffer = lit "OK " ++ ip ++ 58 :: stdToString port.toNat := by rw [h.2, okInfo_eq]
  have hdec : decodeInfo (.data buffer) = .ok (ip, port) := by
    rw [decodeInfo_colon hr h.1 hlen, stoi_port, Except.map, toUint16_natCast]
  refine ⟨⟨_, hdec⟩, fun ip' port' _ => ?_, fun hno => absurd h (hno ip port)⟩
  rw [hdec]
  constructor
  · intro heq
    cases heq
    exact h
  · intro henc
    obtain ⟨rfl, hport⟩ := encodes_of_colon hr h.1 henc
    rw [UInt16.toNat_inj.1 (stdToString_inj hport)]

/-- With an empty address and a number that the cast turns into 0, the reply reads as no endpoint. -/
theorem decodesExactly_of_zero {buffer rest : Bytes} {v : Int} (hr : cStr buffer = lit "OK :" ++ rest)
    (hv : stoi rest = .ok v) (hzero : v % 65536 = 0) (hlen : buffer.length ≤ 1023) : DecodesExactly buffer := by
  have hcut : cStr buffer = lit "OK " ++ [] ++ 58 :: rest := hr
  have hdec : decodeInfo (.data buffer) = .ok ([], 0) := by
    rw [decodeInfo_colon hcut List.not_mem_nil hlen, hv, Except.map, toUint16_eq_zero.2 hzero]
  refine decodesExactly_of_none hdec (fun ip port hne henc => hne ?_)
  obtain ⟨rfl, hport⟩ := encodes_of_colon hcut List.not_mem_nil henc
  rw [hport, stoi_port, Except.ok.injEq] at hv
  have hlt := port.toNat_lt
  have hp : port = 0 := UInt16.toNat_inj.1 (by rw [show (0 : UInt16).toNat = 0 from rfl]; omega)
  rw [hp]

theorem decodable_of_decodesExactly {buffer : Bytes} (hlen : buffer.length ≤ 1023) (h : DecodesExactly buffer) :
    Decodable (cStr buffer) := by
  by_cases hok : lit "OK " <+: cStr buffer
  · obtain ⟨t, ht⟩ := hok
    obtain ⟨e, he⟩ := h.returns
    by_cases hcolon : (58 : UInt8) ∈ t
    · obtain ⟨ip, rest, rfl, hip⟩ := List.eq_append_cons_of_mem hcolon
      have hr : cStr buffer = lit "OK " ++ ip ++ 58 :: rest := by rw [← ht, List.append_assoc]
      have hdec := decodeInfo_colon hr hip hlen
      cases hv : stoi rest with
      | error x =>
        -- the exception is not caught
        rw [hdec, hv] at he
        cases he
      | ok v =>
        rw [hv, Except.map] at hdec
        by_cases hnone : (ip, toUint16 v) = ([], 0)
        · rw [Prod.mk.injEq] at hnone
          obtain ⟨rfl, hzero⟩ := hnone
          exact .inr (.inr ⟨rest, v, hr, hv, toUint16_eq_zero.1 hzero⟩)
        · have henc := (h.endpoint ip (toUint16 v) hnone).1 hdec
          exact .inr (.inl ⟨ip, toUint16 v, henc⟩)
    · rw [decodeInfo_no_colon ht.symm hcolon hlen] at he
      cases he
  · exact .inl hok

/-- **`getClientInfo` is exact on a reply exactly when it is decodable.** -/
theorem decodesExactly_iff {buffer : Bytes} (hlen : buffer.length ≤ 1023) :
    DecodesExactly buffer ↔ Decodable (cStr buffer) := by
  constructor
  · exact decodable_of_decodesExactly hlen
  · rintro (hok | ⟨ip, port, hip, hr⟩ | ⟨rest, v, hr, hv, hzero⟩)
    · exact decodesExactly_of_not_ok hok
    · exact decodesExactly_of_encodes ⟨hip, hr⟩ hlen
    · exact decodesExactly_of_zero hr hv hzero hlen

/-- The reply for an endpoint that somebody logged in with. -/
theorem decodesExactly_iff_endpoint : DecodesExactly (lit "OK 127.0.0.1:5000") :=
  (decodesExactly_iff (by decide)).2 (.inr (.inl ⟨lit "127.0.0.1", 5000, by decide, by decide⟩))

/-- The same reply cut behind the colon: `std::stoi` throws. -/
theorem cut_reply_throws : decodeInfo (.data (lit "OK 127.0.0.1:")) = .error .invalidArgument ∧
    ¬ DecodesExactly (lit "OK 127.0.0.1:") := by
  have hthrow : decodeInfo (.data (lit "OK 127.0.0.1:")) = .error .invalidArgument := by rfl
  refine ⟨hthrow, fun h => ?_⟩
  obtain ⟨e, he⟩ := h.returns
  rw [hthrow] at he
  cases he

end ChatRoom
