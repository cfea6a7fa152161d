import ChatRoom.ClientInfo
import ChatRoom.Interleaving
/-!
# ClientStream — one `recv` for each reply

The server's replies reach a client as one stream of bytes, and each method takes what one `recv` returns for its reply.
Nothing puts a cut reply together again.  Where the earlier `recv`s returned the earlier replies, a method reports what
the server answered exactly when it gets enough of its own (`in_step`); else the methods read the rest of earlier ones.
-/
namespace ChatRoom

/-- A call of one of the methods that talk to the server, on any strings. -/
inductive ServerMethod
  | registerWithServer (username password : Bytes)
  | loginToServer (username password : Bytes)
  | logoutFromServer
  | getClientInfo (username : Bytes)
  deriving DecidableEq, Repr

def Client.perform (client : Client) : ServerMethod → Exchange ClientResult
  | .registerWithServer username password => (registerWithServer username password).map .bool
  | .loginToServer username password => (client.loginToServer username password).map .bool
  | .logoutFromServer => logoutFromServer.map .bool
  | .getClientInfo username => (getClientInfo username).map .info

/-- The method reports success: `true`, or an address. -/
def reportsSuccess : Except StdException ClientResult → Bool
  | .ok (.bool ok) => ok
  | .ok (.info e) => e.1 ≠ []
  | .error _ => false

/-- The server answered OK. -/
def AnsweredOk (reply : Bytes) : Prop := lit "OK" <+: reply

instance (reply : Bytes) : Decidable (AnsweredOk reply) := inferInstanceAs (Decidable (_ <+: _))

/-- What successive `recv` calls of a client return, one for each reply it asked for: non-empty pieces that fit its
buffer and hold, in order, bytes the server has sent by then. -/
structure Segmentation (replies : List Bytes) where
  pieces : List Bytes
  length_eq : pieces.length = replies.length
  size : ∀ p ∈ pieces, 0 < p.length ∧ p.length ≤ 1024 - 1
  sent : ∀ k ≤ pieces.length, (pieces.take k).flatten <+: (replies.take k).flatten

/-- **Behind the earlier replies a piece is the start of the next one.** -/
theorem Segmentation.isPrefix {replies : List Bytes} (seg : Segmentation replies) {k : Nat} {piece reply : Bytes}
    (hpiece : seg.pieces[k]? = some piece) (hreply : replies[k]? = some reply)
    (hwhole : (seg.pieces.take k).flatten = (replies.take k).flatten) : piece <+: reply := by
  obtain ⟨hk, rfl⟩ := List.getElem?_eq_some_iff.1 hpiece
  obtain ⟨hk', rfl⟩ := List.getElem?_eq_some_iff.1 hreply
  have hsent := seg.sent (k + 1) hk
  rw [← List.take_append_getElem hk, ← List.take_append_getElem hk', List.flatten_append, List.flatten_append, hwhole,
    List.prefix_append_right_inj] at hsent
  simpa using hsent

/-- A piece that tells an OK: two bytes do for a yes or no, an endpoint needs a byte behind the colon. -/
def Tells (f : ServerMethod) (piece : Bytes) : Prop :=
  match f with
  | .getClientInfo _ => 58 ∈ piece.dropLast
  | _ => 2 ≤ piece.length

/-- The piece tells what the server answered; any piece tells an ERR. -/
def Enough (f : ServerMethod) (piece reply : Bytes) : Prop := AnsweredOk reply → Tells f piece

instance (f : ServerMethod) (piece : Bytes) : Decidable (Tells f piece) := by
  unfold Tells
  split <;> infer_instance

instance (f : ServerMethod) (piece reply : Bytes) : Decidable (Enough f piece reply) :=
  inferInstanceAs (Decidable (_ → _))

/-! ## One reply -/

/-- A reply starts with two bytes that are not NUL. -/
theorem head_two_reply {w : Bytes} (hw : IsReply w) : ∃ a b l, w = a :: b :: l ∧ a ≠ 0 ∧ b ≠ 0 := by
  rcases hw with hw | ⟨x, port, rfl⟩
  · simp only [fixedReplies, List.mem_cons, List.not_mem_nil, or_false] at hw
    rcases hw with rfl | rfl | rfl | rfl | rfl | rfl | rfl | rfl <;> exact ⟨_, _, _, rfl, by decide, by decide⟩
  · exact ⟨79, 75, _, rfl, by decide, by decide⟩

theorem repliedOk_cons {a b : UInt8} (l : Bytes) (ha : a ≠ 0) (hb : b ≠ 0) :
    repliedOk (.data (a :: b :: l)) = .ok ([a, b] == lit "OK") := by
  have hstr : cStr (a :: b :: l) = a :: b :: cStr l := by
    unfold cStr
    rw [List.takeWhile_cons_of_pos (by simpa using ha), List.takeWhile_cons_of_pos (by simpa using hb)]
  have hsub : substr (a :: b :: cStr l) 0 2 = .ok [a, b] := substr_append [] [a, b] (cStr l) rfl rfl
  unfold repliedOk
  dsimp only
  rw [if_neg (by simp), hstr]
  simp only [hsub, bind, Except.bind, pure, Except.pure]

theorem answeredOk_okInfo (ip : Bytes) (port : UInt16) : AnsweredOk (okInfo ip port) :=
  ⟨lit " " ++ ip ++ lit ":" ++ stdToString port.toNat, rfl⟩

/-- A reply that is no OK is an ERR. -/
theorem head_err {reply : Bytes} (hreply : IsReply reply) (hno : ¬ AnsweredOk reply) : ∃ l, reply = 69 :: l := by
  rcases hreply with hreply | ⟨x, port, rfl⟩
  · simp only [fixedReplies, List.mem_cons, List.not_mem_nil, or_false] at hreply
    rcases hreply with rfl | rfl | rfl | rfl | rfl | rfl | rfl | rfl
    all_goals first | exact absurd (by decide) hno | exact ⟨_, rfl⟩
  · exact absurd (answeredOk_okInfo _ port) hno

theorem cStr_err (l : Bytes) : cStr (69 :: l) = 69 :: cStr l := List.takeWhile_cons_of_pos (by decide)

theorem repliedOk_err (l : Bytes) : repliedOk (.data (69 :: l)) = .ok false := by
  have hstatus : substr (69 :: cStr l) 0 2 = .ok (69 :: (cStr l).take 1) := by simp [substr]
  unfold repliedOk
  dsimp only
  rw [if_neg (by simp), cStr_err, hstatus]
  rfl

theorem decodeInfo_err (l : Bytes) : Client.decodeInfo (.data (69 :: l)) = .ok ([], 0) := by
  apply decodeInfo_not_ok
  rw [cStr_err]
  exact fun h => absurd (List.cons_prefix_cons.1 h).1 (by decide)

/-- **Two bytes tell an OK**, and one does not. -/
theorem repliedOk_iff {piece reply : Bytes} (hreply : IsReply reply) (hok : AnsweredOk reply) (hpre : piece <+: reply)
    (hne : piece ≠ []) : ∃ ok, repliedOk (.data piece) = .ok ok ∧ (ok = true ↔ 2 ≤ piece.length) := by
  obtain ⟨a, b, l, rfl, ha, hb⟩ := head_two_reply hreply
  obtain ⟨rfl, rfl⟩ : a = 79 ∧ b = 75 := by
    obtain ⟨rest, hrest⟩ := hok
    cases hrest
    exact ⟨rfl, rfl⟩
  obtain ⟨rest, hrest⟩ := hpre
  match piece, hne with
  | [c], _ =>
    cases hrest
    exact ⟨false, rfl, by simp⟩
  | c :: d :: p, _ =>
    simp only [List.cons_append, List.cons.injEq] at hrest
    obtain ⟨rfl, rfl, rfl⟩ := hrest
    exact ⟨_, repliedOk_cons p ha hb, iff_of_true (by decide) (by simp)⟩

/-- A few digits are read as their number. -/
theorem stoi_digits {ds : Bytes} (hne : ds ≠ []) (hdig : ∀ b ∈ ds, Numeral.isDigit b = true) (hlen : ds.length ≤ 5) :
    stoi ds = .ok (Numeral.value ds : Int) := by
  have hlt := Nat.lt_of_lt_of_le (Numeral.value_lt ds hdig) (Nat.pow_le_pow_right (by decide) hlen)
  rw [stoi, cStr_of_ne_zero _ (fun b hb => ne_zero_of_isDigit b (hdig b hb)), strtol_digits hne hdig]
  exact if_pos (by omega)

theorem cStr_start {addr : InAddr} {port : UInt16} {piece : Bytes} (hpre : piece <+: okInfo (inetNtoa addr) port) :
    cStr piece = piece := by
  refine cStr_of_ne_zero _ (fun b hb => ?_)
  have hmem := hpre.subset hb
  rw [← okInfo_cStr] at hmem
  simpa using List.mem_takeWhile_imp hmem

/-- **A byte behind the colon tells the address**, and some port. -/
theorem decodeInfo_start {addr : InAddr} {port : UInt16} {piece : Bytes}
    (hpre : piece <+: okInfo (inetNtoa addr) port) (hport : 58 ∈ piece.dropLast) :
    ∃ read, Client.decodeInfo (.data piece) = .ok (inetNtoa addr, read) := by
  have hlen := hpre.length_le.trans (length_okInfo_le addr port)
  have hstr := cStr_start hpre
  obtain ⟨w, tail, hw, hnot⟩ := List.eq_append_cons_of_mem hport
  have hne : piece ≠ [] := by
    rintro rfl
    cases hport
  have hpiece : piece = w ++ 58 :: (tail ++ [piece.getLast hne]) := by
    conv_lhs => rw [← List.dropLast_append_getLast hne, hw]
    simp
  have hds : tail ++ [piece.getLast hne] ≠ [] := by simp
  generalize tail ++ [piece.getLast hne] = ds at hpiece hds
  -- cut at the colon, the piece has the address before it and digits of the port behind it
  obtain ⟨rest, hrest⟩ := hpre
  have hcolon : (58 : UInt8) ∉ lit "OK " ++ inetNtoa addr := by
    rw [List.mem_append, not_or]
    exact ⟨by decide, colon_not_mem_inetNtoa addr⟩
  rw [hpiece, okInfo_eq, List.append_assoc, List.cons_append] at hrest
  obtain ⟨rfl, hdigits⟩ := Lines.append_cons_inj hnot hcolon hrest
  have hdig : ∀ b ∈ ds, Numeral.isDigit b = true := fun b hb =>
    Numeral.isDigit_of_mem_numeral port.toNat b (by
      rw [show Numeral.numeral port.toNat = ds ++ rest from hdigits.symm]
      exact List.mem_append_left rest hb)
  have hshort : ds.length ≤ 5 := by
    have hle := length_port_le port
    rw [← hdigits, List.length_append] at hle
    omega
  rw [decodeInfo_colon (hstr.trans hpiece) (colon_not_mem_inetNtoa addr) (hlen.trans (by decide)),
    stoi_digits hds hdig hshort]
  exact ⟨_, rfl⟩

/-- Without one, no endpoint or an exception is what comes of it. -/
theorem decodeInfo_cut {piece : Bytes} (hstr : cStr piece = piece) (hlen : piece.length ≤ 1023)
    (hport : 58 ∉ piece.dropLast) :
    Client.decodeInfo (.data piece) = .ok ([], 0) ∨ ∃ e, Client.decodeInfo (.data piece) = .error e := by
  by_cases hok : lit "OK " <+: piece
  · obtain ⟨t, rfl⟩ := hok
    by_cases hcolon : (58 : UInt8) ∈ t
    · obtain ⟨ip, rest, rfl, hip⟩ := List.eq_append_cons_of_mem hcolon
      cases rest with
      | nil =>
        have hcut : cStr (lit "OK " ++ (ip ++ [58])) = lit "OK " ++ ip ++ 58 :: [] := by
          rw [hstr, List.append_assoc]
        exact .inr ⟨.invalidArgument, by rw [decodeInfo_colon hcut hip hlen]; rfl⟩
      | cons b rest =>
        refine absurd ?_ hport
        rw [← List.append_assoc, List.dropLast_append_of_ne_nil (List.cons_ne_nil _ _), List.dropLast_cons_cons]
        exact List.mem_append_right _ List.mem_cons_self
    · exact .inr ⟨_, decodeInfo_no_colon hstr hcolon hlen⟩
  · exact .inl (decodeInfo_not_ok (by rwa [hstr]))

theorem readRequest_getClientInfo (username : Bytes) :
    ∃ u, readRequest (Client.getClientInfo username).command = .getinfo u := by
  have hword :
      extract (lit "GETINFO" ++ 32 :: (username ++ lit "\n")) = (lit "GETINFO", 32 :: (username ++ lit "\n")) :=
    Scan.word_append isspace (lit "GETINFO") _ (by decide) (by simp [isspace])
  have hline : (Client.getClientInfo username).command = lit "GETINFO" ++ 32 :: (username ++ lit "\n") := by
    simp [Client.getClientInfo, lit]
  refine ⟨(extract (32 :: (username ++ lit "\n"))).1, ?_⟩
  rw [hline]
  unfold readRequest
  simp only [hword, if_true, if_neg (by decide : lit "GETINFO" ≠ lit "REGISTER"),
    if_neg (by decide : lit "GETINFO" ≠ lit "LOGIN"), if_neg (by decide : lit "GETINFO" ≠ lit "LOGOUT")]

variable {κ : Type} (peer : κ → InAddr)

/-- **A method reports what the server answered exactly when it gets enough of the reply.** -/
theorem reportsSuccess_iff (client : Client) {m : UserManager} (hm : Dotted m) (c : κ) (f : ServerMethod)
    {piece : Bytes} (hpre : piece <+: (serve peer m (c, (client.perform f).command)).2) (hne : piece ≠ []) :
    (reportsSuccess ((client.perform f).decode (.data piece)) = true ↔
      AnsweredOk (serve peer m (c, (client.perform f).command)).2) ↔
        Enough f piece (serve peer m (c, (client.perform f).command)).2 := by
  have hreply := isReply_serve peer hm (c, (client.perform f).command)
  by_cases hok : AnsweredOk (serve peer m (c, (client.perform f).command)).2
  · simp only [Enough, hok, iff_true, true_imp_iff]
    have hbool : ∀ command : Bytes, client.perform f = Exchange.map .bool ⟨command, repliedOk⟩ →
        (reportsSuccess ((client.perform f).decode (.data piece)) = true ↔ 2 ≤ piece.length) := by
      intro command hf
      obtain ⟨ok, hread, hiff⟩ := repliedOk_iff hreply hok hpre hne
      rw [← hiff, hf]
      simp only [Exchange.map, hread, Except.map, reportsSuccess]
    cases f with
    | registerWithServer u p => exact hbool _ rfl
    | loginToServer u p => exact hbool _ rfl
    | logoutFromServer => exact hbool _ rfl
    | getClientInfo u =>
      obtain ⟨v, hreq⟩ := readRequest_getClientInfo u
      rw [serve_getinfo peer m _ v hreq] at hok hpre
      cases hv : m.presence v with
      | none =>
        rw [hv] at hok
        exact absurd hok (by decide)
      | some e =>
        obtain ⟨addr, haddr⟩ := hm v e.1 e.2 hv
        simp only [hv, haddr] at hpre
        have hip : inetNtoa addr ≠ [] := by simp [inetNtoa, lit]
        change reportsSuccess ((Client.decodeInfo (.data piece)).map .info) = true ↔ 58 ∈ piece.dropLast
        by_cases hport : 58 ∈ piece.dropLast
        · obtain ⟨read, hread⟩ := decodeInfo_start hpre hport
          exact iff_of_true (by simp [hread, Except.map, reportsSuccess, hip]) hport
        · have hlen := hpre.length_le.trans (length_okInfo_le addr e.2)
          refine iff_of_false ?_ hport
          rcases decodeInfo_cut (cStr_start hpre) (hlen.trans (by decide)) hport with hread | ⟨x, hread⟩
          · simp [hread, Except.map, reportsSuccess]
          · simp [hread, Except.map, reportsSuccess]
  · -- the piece starts with the E of ERR
    have henough : Enough f piece (serve peer m (c, (client.perform f).command)).2 := fun h => absurd h hok
    refine iff_of_true (iff_of_false ?_ hok) henough
    obtain ⟨l, hl⟩ := head_err hreply hok
    obtain ⟨rest, hrest⟩ := hpre
    rw [hl] at hrest
    obtain ⟨b, p, rfl⟩ := List.exists_cons_of_ne_nil hne
    cases hrest
    cases f with
    | getClientInfo u =>
      change ¬ reportsSuccess ((Client.decodeInfo (.data (69 :: p))).map .info) = true
      rw [decodeInfo_err]
      decide
    | _ =>
      change ¬ reportsSuccess ((repliedOk (.data (69 :: p))).map .bool) = true
      rw [repliedOk_err]
      decide

/-! ## A run -/

variable [DecidableEq κ]

/-- What connection `c` asked and was answered in a run from an empty database. -/
def connectionHistory (c : κ) (reqs : List (κ × Bytes)) : List (Bytes × Bytes) :=
  Machine.historyOf c (Machine.trace (serve peer) UserManager.empty reqs)

theorem answered_dotted {c : κ} {reqs : List (κ × Bytes)} {e : Bytes × Bytes} (he : e ∈ connectionHistory peer c reqs) :
    ∃ m, Dotted m ∧ e.2 = (serve peer m (c, e.1)).2 := by
  obtain ⟨x, hx, hpick⟩ := List.mem_filterMap.1 he
  obtain ⟨rfl, rfl⟩ := (Machine.pick_eq_some c _ e).1 hpick
  exact Machine.answered_under (serve peer) Dotted (fun _ x h => dotted_serve peer h x) reqs UserManager.empty
    (fun _ _ _ h => by cases h) x hx

/-- **In step exactly where enough of the reply arrives.**  Of a client's calls, among whatever other connections ask:
when the `recv`s before the `k`-th returned the bytes of the replies before the `k`-th, the `k`-th call reports success
exactly when the server answered OK, if and only if its `recv` returned enough of its own reply. -/
theorem in_step (client : Client) (c : κ) (reqs : List (κ × Bytes)) (calls : List ServerMethod)
    (hcalls : (connectionHistory peer c reqs).map Prod.fst = calls.map (fun f => (client.perform f).command))
    (seg : Segmentation ((connectionHistory peer c reqs).map Prod.snd)) (k : Nat) (f : ServerMethod)
    (piece reply : Bytes) (hf : calls[k]? = some f) (hpiece : seg.pieces[k]? = some piece)
    (hreply : ((connectionHistory peer c reqs).map Prod.snd)[k]? = some reply)
    (hwhole : (seg.pieces.take k).flatten = (((connectionHistory peer c reqs).map Prod.snd).take k).flatten) :
    (reportsSuccess ((client.perform f).decode (.data piece)) = true ↔ AnsweredOk reply) ↔ Enough f piece reply := by
  have hpre := seg.isPrefix hpiece hreply hwhole
  have hne := List.length_pos_iff.1 (seg.size piece (List.mem_of_getElem? hpiece)).1
  rw [List.getElem?_map, Option.map_eq_some_iff] at hreply
  obtain ⟨e, he, rfl⟩ := hreply
  -- the `k`-th chunk on the connection is the command of the `k`-th call
  have hcommand : e.1 = (client.perform f).command := by
    have := congrArg (fun l => l[k]?) hcalls
    simpa [he, hf] using this
  obtain ⟨m, hm, hanswer⟩ := answered_dotted peer (List.mem_of_getElem? he)
  rw [hcommand] at hanswer
  rw [hanswer] at hpre ⊢
  exact reportsSuccess_iff peer client hm c f hpre hne

/-- Registering and logging in over connection 0, beside a lookup on connection 1. -/
def aliceCalls : List ServerMethod :=
  [.registerWithServer (lit "alice") (lit "pw"), .loginToServer (lit "alice") (lit "pw")]

def aliceRequests : List (Nat × Bytes) :=
  [(0, lit "REGISTER alice pw\n"), (1, lit "GETINFO alice\n"), (0, lit "LOGIN alice pw 0.0.0.0 5001\n")]

def wholeThenShort : Segmentation ((connectionHistory (fun _ => ⟨127, 0, 0, 1⟩) 0 aliceRequests).map Prod.snd) where
  pieces := [lit "OK REGISTERED", lit "OK LO"]
  length_eq := by decide
  size := by decide
  sent := by decide

theorem in_step_alice :
    reportsSuccess ((Client.perform (Client.initializeListener 5001) (.loginToServer (lit "alice") (lit "pw"))).decode
      (.data (lit "OK LO"))) = true ↔ AnsweredOk okLogin :=
  (in_step (fun _ => ⟨127, 0, 0, 1⟩) (Client.initializeListener 5001) 0 aliceRequests aliceCalls (by decide)
    wholeThenShort 1 _ _ _ rfl rfl (by decide) (by decide)).2 (by decide)

def shortThenRest : Segmentation ((connectionHistory (fun _ => ⟨127, 0, 0, 1⟩) 0 aliceRequests).map Prod.snd) where
  pieces := [lit "OK REGISTE", lit "RED"]
  length_eq := by decide
  size := by decide
  sent := by decide

/-- The rest of the first reply is taken for the second: a login that succeeded is reported as failed. -/
theorem out_of_step :
    ¬ ∀ (peer : Nat → InAddr) (client : Client) (c : Nat) (reqs : List (Nat × Bytes)) (calls : List ServerMethod)
      (seg : Segmentation ((connectionHistory peer c reqs).map Prod.snd)) (k : Nat) (f : ServerMethod)
      (piece reply : Bytes),
      (connectionHistory peer c reqs).map Prod.fst = calls.map (fun f => (client.perform f).command) →
      calls[k]? = some f → seg.pieces[k]? = some piece →
      ((connectionHistory peer c reqs).map Prod.snd)[k]? = some reply →
      (reportsSuccess ((client.perform f).decode (.data piece)) = true ↔ AnsweredOk reply) := by
  intro h
  have := h (fun _ => ⟨127, 0, 0, 1⟩) (Client.initializeListener 5001) 0 aliceRequests aliceCalls shortThenRest 1
    (.loginToServer (lit "alice") (lit "pw")) (lit "RED") okLogin (by decide) rfl rfl (by decide)
  revert this
  decide

end ChatRoom
