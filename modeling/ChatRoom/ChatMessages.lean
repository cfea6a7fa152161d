import ChatRoom.Chat
/-!
# ChatMessages — the lines of a chat, from the sender's keyboard to the peer's screen

The send thread sends the bytes of each line and nothing between them; the receive thread prints what each `recv`
returns, up to its first NUL.  So the entries on the screen are the pieces that the stream was cut into
(`receiveLoop_data`), and they are the lines that were typed exactly when each piece is one of the lines and no line has
a NUL in it (`entries_of_stream`).
-/
namespace ChatRoom

open ClientProcess (takeMessage)

/-- What the send thread sends for the lines it takes, one after the other: up to `quit`. -/
def sentMessages (i : Nat) : List Bytes → List Bytes
  | [] => []
  | line :: rest =>
    match takeMessage i line with
    | .send _ message => message :: sentMessages (i + 1) rest
    | _ => []

/-- `std::cout << "[Peer]: " << buffer`: what is printed for a C string. -/
def entry (buffer : Bytes) : Bytes := lit "[Peer]: " ++ cStr buffer

/-- What the receive thread prints for what its `recv` calls return. -/
def receiveLoop : List Received → List Bytes
  | [] => []
  | .data buffer :: rest => if buffer.length = 0 then [] else entry buffer :: receiveLoop rest
  | _ :: _ => []

/-- What the successive `recv` calls of the receive thread return of a stream. -/
structure Arrival (stream : Bytes) where
  pieces : List Bytes
  flatten_eq : pieces.flatten = stream
  size : ∀ piece ∈ pieces, 0 < piece.length ∧ piece.length ≤ 1024 - 1

/-- One entry for each line that was sent, in order, with the text of the line. -/
def KeepsBoundaries (typed : List Bytes) (arrival : Arrival (sentMessages 0 typed).flatten) : Prop :=
  receiveLoop (arrival.pieces.map .data) = (sentMessages 0 typed).map (fun line => lit "[Peer]: " ++ line)

/-! ## What is printed -/

/-- **One entry for each piece.** -/
theorem receiveLoop_data {pieces : List Bytes} (h : ∀ piece ∈ pieces, 0 < piece.length) :
    receiveLoop (pieces.map .data) = pieces.map entry := by
  induction pieces with
  | nil => rfl
  | cons piece pieces ih =>
    rw [List.forall_mem_cons] at h
    rw [List.map_cons, receiveLoop, if_neg h.1.ne', ih h.2, List.map_cons]

theorem length_flatten_cStr_le (pieces : List Bytes) : (pieces.map cStr).flatten.length ≤ pieces.flatten.length := by
  induction pieces with
  | nil => exact Nat.le_refl _
  | cons piece pieces ih =>
    have hpiece : (cStr piece).length ≤ piece.length := (isPrefix_cStr piece).length_le
    simp only [List.map_cons, List.flatten_cons, List.length_append]
    omega

/-- Where no byte is lost in printing, every piece is printed whole. -/
theorem map_cStr_eq_self {pieces : List Bytes} (h : (pieces.map cStr).flatten.length = pieces.flatten.length) :
    pieces.map cStr = pieces := by
  induction pieces with
  | nil => rfl
  | cons piece pieces ih =>
    have hpiece : (cStr piece).length ≤ piece.length := (isPrefix_cStr piece).length_le
    have hrest := length_flatten_cStr_le pieces
    simp only [List.map_cons, List.flatten_cons, List.length_append] at h
    have hwhole : cStr piece = piece := (isPrefix_cStr piece).eq_of_length (by omega)
    rw [List.map_cons, hwhole, ih (by omega)]

theorem cStr_eq_self {s : Bytes} : cStr s = s ↔ 0 ∉ s := by
  constructor
  · intro h h0
    simpa using List.takeWhile_eq_self_iff.1 h 0 h0
  · intro h
    exact cStr_of_ne_zero s (fun b hb => ne_of_mem_of_not_mem hb h)

/-! ## Against what was typed -/

/-- **No framing.**  However the stream of the lines is cut, the peer's thread prints one entry for each `recv`, with
the bytes it returned up to the first NUL.  These are the lines exactly when each `recv` returns one line and no line
has a NUL in it. -/
theorem entries_of_stream (typed : List Bytes) (arrival : Arrival (sentMessages 0 typed).flatten) :
    receiveLoop (arrival.pieces.map .data) = arrival.pieces.map entry ∧
      (KeepsBoundaries typed arrival ↔
        arrival.pieces = sentMessages 0 typed ∧ ∀ line ∈ sentMessages 0 typed, 0 ∉ line) := by
  have hprinted := receiveLoop_data (fun piece hpiece => (arrival.size piece hpiece).1)
  refine ⟨hprinted, ?_⟩
  have hentries : KeepsBoundaries typed arrival ↔ arrival.pieces.map cStr = sentMessages 0 typed := by
    unfold KeepsBoundaries
    rw [hprinted, show entry = (fun line => lit "[Peer]: " ++ line) ∘ cStr from rfl, ← List.map_map]
    exact List.map_inj_right (fun _ _ heq => List.append_cancel_left heq)
  rw [hentries]
  constructor
  · intro heq
    -- the entries have as many bytes as the stream, so nothing was cut off at a NUL
    have hself := map_cStr_eq_self (by rw [heq, arrival.flatten_eq])
    have hpieces : arrival.pieces = sentMessages 0 typed := hself.symm.trans heq
    refine ⟨hpieces, fun line hline => cStr_eq_self.1 ?_⟩
    rw [← hpieces] at hline
    exact List.map_inj_left.1 (hself.trans (List.map_id arrival.pieces).symm) line hline
  · rintro ⟨hpieces, hnul⟩
    rw [hpieces]
    exact (List.map_congr_left (fun line hline => cStr_eq_self.2 (hnul line hline))).trans (List.map_id _)

/-- Two lines in one `recv`. -/
def together : Arrival (sentMessages 0 [lit "hello", lit "bye"]).flatten where
  pieces := [lit "hellobye"]
  flatten_eq := by decide
  size := by decide

/-- They are one entry. -/
theorem lines_run_together : ¬ ∀ (typed : List Bytes) (arrival : Arrival (sentMessages 0 typed).flatten),
    (∀ line ∈ typed, 10 ∉ line ∧ line ≠ lit "quit") → KeepsBoundaries typed arrival := by
  intro h
  have hkeeps := h [lit "hello", lit "bye"] together (by decide)
  unfold KeepsBoundaries at hkeeps
  exact absurd hkeeps (by decide)

end ChatRoom
