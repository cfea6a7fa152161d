import ChatRoom.Connection
/-!
# ConnectionFraming — chunks are requests, lines are not

The server keeps nothing between two `recv` calls: `handleClient` is `processData` once for each chunk
(`handleClient_chunks`).  Against the lines a client writes, the run of a cutting is that of the lines exactly when the
cutting has a chunk for each line, asking for the same call (`handleClient_framing`).
-/
namespace ChatRoom

open UserManager (Call)

/-- A newline-terminated line, the newline left out. -/
structure Line where
  text : Bytes
  noNewline : 10 ∉ text

def Line.bytes (l : Line) : Bytes := l.text ++ lit "\n"

/-- What successive `recv` calls return of a stream: non-empty chunks that fit the buffer. -/
structure Cutting (stream : Bytes) where
  chunks : List Bytes
  flatten_eq : chunks.flatten = stream
  size : ∀ c ∈ chunks, 0 < c.length ∧ c.length ≤ bufferSize

def Cutting.received {stream : Bytes} (cut : Cutting stream) : List Received :=
  cut.chunks.map Received.data ++ [.closed]

/-- `processData` once for each piece of data, in order. -/
def processEach (clientAddr : InAddr) : UserManager → List Bytes → UserManager × List Event
  | m, [] => (m, [])
  | m, d :: ds =>
    let o := processData clientAddr m d
    ((processEach clientAddr o.manager ds).1, o.events ++ (processEach clientAddr o.manager ds).2)

theorem receiveLoop_chunks (conn : Connection) : ∀ (cs : List Bytes) (m : UserManager), (∀ c ∈ cs, 0 < c.length) →
    conn.receiveLoop m (cs.map Received.data ++ [.closed]) =
      ((processEach conn.clientAddr m cs).1, conn.closeConnection.1,
        (processEach conn.clientAddr m cs).2 ++ conn.closeConnection.2)
  | [], _, _ => rfl
  | c :: cs, m, h => by
    have hc : c.length ≠ 0 := Nat.ne_of_gt (h c List.mem_cons_self)
    rw [List.map_cons, List.cons_append, Connection.receiveLoop, if_neg hc]
    simp only [receiveLoop_chunks conn cs _ (fun d hd => h d (List.mem_cons_of_mem c hd)), processEach,
      List.append_assoc]

/-- **The server serves chunks**: one `processData` for each, then the connection closes. -/
theorem handleClient_chunks (fd : Int) (addr : InAddr) (m : UserManager) {stream : Bytes} (cut : Cutting stream) :
    Connection.handleClient ⟨fd, addr, true⟩ m cut.received =
      ((processEach addr m cut.chunks).1, (Connection.closeConnection ⟨fd, addr, true⟩).1,
        (processEach addr m cut.chunks).2 ++ (Connection.closeConnection ⟨fd, addr, true⟩).2) := by
  unfold Connection.handleClient Cutting.received
  rw [if_pos rfl, receiveLoop_chunks _ cut.chunks m (fun c hc => (cut.size c hc).1)]

/-- **The events of data tell what each piece asked**: data that asks alike has the same events, and only such data. -/
theorem processEach_events_iff (addr : InAddr) : ∀ (ds es : List Bytes) (m : UserManager),
    (processEach addr m ds).2 = (processEach addr m es).2 ↔ ds.map (asked addr) = es.map (asked addr)
  | [], [], _ => by simp
  | [], e :: es, m => by simp [processEach, Outcome.events]
  | d :: ds, [], m => by simp [processEach, Outcome.events]
  | d :: ds, e :: es, m => by
    simp only [processEach, List.map_cons, List.cons.injEq]
    cases hd : asked addr d with
    | none =>
      rw [processData_of_none hd]
      cases he : asked addr e with
      | none =>
        rw [processData_of_none he]
        simp only [List.append_right_inj, processEach_events_iff addr ds es m, true_and]
      | some c => rw [processData_of_some he]; simp [Outcome.events]
    | some c =>
      rw [processData_of_some hd]
      cases he : asked addr e with
      | none => rw [processData_of_none he]; simp [Outcome.events]
      | some c' =>
        rw [processData_of_some he]
        simp only [Outcome.events, List.map_cons, List.map_nil, List.cons_append, List.nil_append, List.cons.injEq,
          Event.call.injEq, Event.sent.injEq, Option.some.injEq]
        -- the same call on the same database is answered alike and leaves the same database
        constructor
        · rintro ⟨rfl, -, h⟩
          exact ⟨rfl, (processEach_events_iff addr ds es _).1 h⟩
        · rintro ⟨rfl, h⟩
          exact ⟨rfl, rfl, (processEach_events_iff addr ds es _).2 h⟩

/-- **What a cutting must be for the lines to be served**: the server makes of each chunk what `processData` makes of
it, and that is the run of the lines exactly when there is a chunk for each line, asking for the same call. -/
theorem handleClient_framing (fd : Int) (addr : InAddr) (m : UserManager) (lines : List Line)
    (cut : Cutting (lines.map Line.bytes).flatten) :
    let conn : Connection := ⟨fd, addr, true⟩
    (conn.handleClient m cut.received).2.2 = (processEach addr m cut.chunks).2 ++ conn.closeConnection.2 ∧
    ((conn.handleClient m cut.received).2.2 =
        (processEach addr m (lines.map Line.bytes)).2 ++ conn.closeConnection.2 ↔
      cut.chunks.map (asked addr) = (lines.map Line.bytes).map (asked addr)) := by
  intro conn
  rw [handleClient_chunks fd addr m cut]
  exact ⟨rfl, by rw [List.append_left_inj, processEach_events_iff]⟩

def splitLine : Line := ⟨lit "REGISTER alice pw", by decide⟩

def splitCutting : Cutting ([splitLine].map Line.bytes).flatten where
  chunks := [lit "REGISTER al", lit "ice pw\n"]
  flatten_eq := by decide
  size := by decide

/-- A request cut in two is served as two requests: the first registers another name, with an empty password. -/
theorem handleClient_split_request :
    ¬ ∀ (fd : Int) (addr : InAddr) (m : UserManager) (lines : List Line) (cut : Cutting (lines.map Line.bytes).flatten),
      (Connection.handleClient ⟨fd, addr, true⟩ m cut.received).2.2 =
        (processEach addr m (lines.map Line.bytes)).2 ++ (Connection.closeConnection ⟨fd, addr, true⟩).2 := by
  intro h
  exact absurd (h 4 ⟨127, 0, 0, 1⟩ .empty [splitLine] splitCutting) (by decide)

end ChatRoom
