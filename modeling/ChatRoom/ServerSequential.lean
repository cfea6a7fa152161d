import ChatRoom.Intake
import ChatRoom.Refinement
import ChatRoom.ServerSockets
/-!
# ServerSequential — what the threaded server answers

Any number of workers serve their connections at once.  The chunks that they hand to `processData`, in the order of its
critical sections, make one sequence over all connections; the database is what a server that serves that sequence one
chunk at a time would have, and on each socket the replies handed to `send` are that server's, in order, but for the one
a worker is about to send (`answers_sequentially`).  No chunk or reply is lost, repeated, reordered or sent on another's
socket, up to and through the server's destruction, unless `send` itself fails.
-/
namespace ChatRoom

/-- What passes at a worker: a chunk that `recv` returned, one that `processData` carried out, a reply handed to `send`.
-/
inductive Traffic
  | received (fd : Int) (data : Bytes)
  | served (client : Int × InAddr) (data : Bytes)
  | sent (fd : Int) (data : Bytes)
  deriving DecidableEq

def Traffic.chunk : Traffic → Option ((Int × InAddr) × Bytes)
  | .served client data => some (client, data)
  | _ => none

def Traffic.receivedOn (fd : Int) : Traffic → Option Bytes
  | .received fd' data => if fd' = fd then some data else none
  | _ => none

def Traffic.sentOn (fd : Int) : Traffic → Option Bytes
  | .sent fd' data => if fd' = fd then some data else none
  | _ => none

def chunks (h : List Traffic) : List ((Int × InAddr) × Bytes) := h.filterMap Traffic.chunk

/-- The chunks served on a socket. -/
def servedOn (fd : Int) (h : List Traffic) : List Bytes :=
  (chunks h).filterMap (fun x => if x.1.1 = fd then some x.2 else none)

/-- What a server that serves the chunks one at a time answers on a socket. -/
def answersOn (fd : Int) (h : List Traffic) : List Bytes :=
  (Machine.trace (serve Prod.snd) UserManager.empty (chunks h)).filterMap
    (fun e => if e.1.1.1 = fd then some e.2 else none)

theorem filterMap_concat {α β : Type} (f : α → Option β) (l : List α) (a : α) :
    (l ++ [a]).filterMap f = l.filterMap f ++ (f a).toList := by
  rw [List.filterMap_append, List.filterMap_cons]
  cases f a <;> rfl

theorem chunks_concat (h : List Traffic) (e : Traffic) : chunks (h ++ [e]) = chunks h ++ e.chunk.toList :=
  filterMap_concat _ h e

theorem servedOn_concat (fd : Int) (h : List Traffic) (e : Traffic) : servedOn fd (h ++ [e]) =
    servedOn fd h ++ (e.chunk.toList).filterMap (fun x => if x.1.1 = fd then some x.2 else none) := by
  rw [servedOn, chunks_concat, List.filterMap_append]
  rfl

theorem answersOn_concat (fd : Int) (h : List Traffic) (e : Traffic) : answersOn fd (h ++ [e]) =
    answersOn fd h ++ (Machine.trace (serve Prod.snd) (Machine.final (serve Prod.snd) UserManager.empty (chunks h))
      e.chunk.toList).filterMap (fun e => if e.1.1.1 = fd then some e.2 else none) := by
  rw [answersOn, chunks_concat, Machine.trace_append, List.filterMap_append]
  rfl

/-- A chunk of the socket is received and not served yet. -/
def TaskPc.unserved (fd : Int) : TaskPc → Option Bytes
  | .process conn data => if conn.socketFd = fd then some data else none
  | _ => none

/-- A reply is to be sent on the socket. -/
def TaskPc.unsent (fd : Int) : TaskPc → Option Bytes
  | .send conn reply => if conn.socketFd = fd then some reply else none
  | _ => none

theorem TaskPc.unsent_send (fd : Int) (conn : Connection) (reply : Bytes) :
    (TaskPc.send conn reply).unsent fd = if conn.socketFd = fd then some reply else none := rfl

theorem TaskPc.owns_of_unserved {fd : Int} {pc : TaskPc} (h : pc.unserved fd ≠ none) : pc.owns fd = true := by
  cases pc with
  | process conn data =>
    simp only [TaskPc.unserved] at h
    split at h
    · rename_i hfd; simp [TaskPc.owns, hfd]
    · exact absurd rfl h
  | _ => exact absurd rfl h

theorem TaskPc.owns_of_unsent {fd : Int} {pc : TaskPc} (h : pc.unsent fd ≠ none) : pc.owns fd = true := by
  cases pc with
  | send conn reply =>
    simp only [TaskPc.unsent] at h
    split at h
    · rename_i hfd; simp [TaskPc.owns, hfd]
    · exact absurd rfl h
  | _ => exact absurd rfl h

namespace Server

variable {n : Nat}

def traffic (s : Server n) : Act n → Option Traffic
  | .task w received =>
    match s.task w, received with
    | .receive conn, .data bytes => if bytes.length = 0 then none else some (.received conn.socketFd bytes)
    | .process conn data, _ => some (.served (conn.socketFd, conn.clientAddr) data)
    | .send conn reply, _ => some (.sent conn.socketFd reply)
    | _, _ => none
  | .sendFails w false =>
    match s.task w with
    | .send conn reply => some (.sent conn.socketFd reply)
    | _ => none
  | _ => none

/-- The server is as far as the traffic so far says. -/
structure Sequential (h : List Traffic) (s : Server n) : Prop where
  database : ∀ m, s.userManager = some m → m = Machine.final (serve Prod.snd) UserManager.empty (chunks h)
  served : ∀ fd, InFlight.Lags (fun w => (s.task w).unserved fd) (h.filterMap (Traffic.receivedOn fd)) (servedOn fd h)
  sent : ∀ fd, InFlight.Lags (fun w => (s.task w).unsent fd) (answersOn fd h) (h.filterMap (Traffic.sentOn fd))

theorem sequential_start : Sequential [] (start : Server n) where
  database := by
    rintro m ⟨⟩
    rfl
  served := fun fd => InFlight.lags_nil (fun _ => rfl)
  sent := fun fd => InFlight.lags_nil (fun _ => rfl)

/-! ## One owner -/

/-- **Two workers never have the same socket.** -/
theorem Inv.owner_eq {s : Server n} (hs : s.Inv) {fd : Int} {w w' : Fin n} (hw : (s.task w).owns fd = true)
    (hw' : (s.task w').owns fd = true) : w = w' := by
  have howned := hs.owned fd
  have hle : (s.isOpen fd).toNat ≤ 1 := Bool.toNat_le _
  refine Tally.eq_of_tally_le_one (p := TaskPc.owns fd) ?_ hw hw'
  unfold owners at howned
  omega

/-! ## One step -/

/-- What the workers hold when one moves. -/
theorem hand_moveTask (hand : TaskPc → Option Bytes) (s : Server n) (w : Fin n) (pc : TaskPc) :
    (fun w' => hand ((s.moveTask w pc).task w')) = Function.update (fun w' => hand (s.task w')) w (hand pc) :=
  Function.comp_update hand s.task w pc

/-- A worker that has neither a chunk nor a reply in hand, before or after its step. -/
theorem Sequential.move {h : List Traffic} {s : Server n} (hs : Sequential h s) {w : Fin n} {pc : TaskPc}
    (hfrom : ∀ fd, (s.task w).unserved fd = none ∧ (s.task w).unsent fd = none)
    (hto : ∀ fd, pc.unserved fd = none ∧ pc.unsent fd = none) : Sequential h (s.moveTask w pc) where
  database := hs.database
  served := fun fd => by
    rw [hand_moveTask (TaskPc.unserved fd), (hto fd).1]
    exact (hs.served fd).idle (hfrom fd).1
  sent := fun fd => by
    rw [hand_moveTask (TaskPc.unsent fd), (hto fd).2]
    exact (hs.sent fd).idle (hfrom fd).2

/-- A step that leaves the workers' tasks alone, and the database but for destroying it. -/
theorem Sequential.of_eq {h : List Traffic} {s t : Server n} (hs : Sequential h s) (htask : t.task = s.task)
    (hmanager : ∀ m, t.userManager = some m → s.userManager = some m) : Sequential h t where
  database := fun m hm => hs.database m (hmanager m hm)
  served := by rw [htask]; exact hs.served
  sent := by rw [htask]; exact hs.sent

/-- No other worker has a chunk or a reply of the socket in hand. -/
theorem Inv.alone {s : Server n} (hs : s.Inv) {hand : Int → TaskPc → Option Bytes}
    (hhand : ∀ {fd : Int} {pc : TaskPc}, hand fd pc ≠ none → pc.owns fd = true) {fd : Int} {w : Fin n}
    (hw : (s.task w).owns fd = true) : ∀ w' ≠ w, hand fd (s.task w') = none := by
  intro w' hne
  by_contra hsome
  exact hne (hs.owner_eq (hhand hsome) hw)

theorem Inv.free {s : Server n} (hs : s.Inv) {hand : Int → TaskPc → Option Bytes}
    (hhand : ∀ {fd : Int} {pc : TaskPc}, hand fd pc ≠ none → pc.owns fd = true) {fd : Int} {w : Fin n}
    (hw : (s.task w).owns fd = true) (hnone : hand fd (s.task w) = none) : ∀ w', hand fd (s.task w') = none := by
  intro w'
  by_cases hne : w' = w
  · rw [hne, hnone]
  · exact hs.alone hhand hw w' hne

/-- `recv` returns a chunk. -/
theorem sequential_received {h : List Traffic} {s : Server n} (hs : Sequential h s) (hinv : s.Inv) {w : Fin n}
    {conn : Connection} (hpc : s.task w = .receive conn) (bytes : Bytes) :
    Sequential (h ++ [.received conn.socketFd bytes]) (s.moveTask w (.process conn bytes)) where
  database := fun m hm => by
    rw [hs.database m hm, chunks_concat, Machine.final_append]
    rfl
  served := fun fd => by
    rw [hand_moveTask (TaskPc.unserved fd), servedOn_concat, filterMap_concat]
    simp only [TaskPc.unserved, Traffic.receivedOn, Traffic.chunk, Option.toList_none, List.filterMap_nil,
      List.append_nil]
    by_cases hfd : conn.socketFd = fd
    · rw [if_pos hfd, Option.toList_some]
      exact (hs.served fd).take
        (hinv.free TaskPc.owns_of_unserved (w := w) (by rw [hpc]; simp [TaskPc.owns, hfd]) (by rw [hpc]; rfl))
    · rw [if_neg hfd, Option.toList_none, List.append_nil]
      exact (hs.served fd).idle (by rw [hpc]; rfl)
  sent := fun fd => by
    rw [hand_moveTask (TaskPc.unsent fd), answersOn_concat, filterMap_concat]
    simp only [TaskPc.unsent, Traffic.sentOn, Traffic.chunk, Option.toList_none, Machine.trace_nil, List.filterMap_nil,
      List.append_nil]
    exact (hs.sent fd).idle (by rw [hpc]; rfl)

/-- `processData`, or what it does when the database is gone and not asked. -/
theorem sequential_served {h : List Traffic} {s t : Server n} (hs : Sequential h s) (hinv : s.Inv) {w : Fin n}
    {conn : Connection} {data : Bytes} (hpc : s.task w = .process conn data)
    (hdatabase : ∀ m, t.userManager = some m → m = (serve Prod.snd
      (Machine.final (serve Prod.snd) UserManager.empty (chunks h)) ((conn.socketFd, conn.clientAddr), data)).1)
    (htask : t.task = Function.update s.task w (.send conn (serve Prod.snd
      (Machine.final (serve Prod.snd) UserManager.empty (chunks h)) ((conn.socketFd, conn.clientAddr), data)).2)) :
    Sequential (h ++ [.served (conn.socketFd, conn.clientAddr) data]) t where
  database := fun m hm => by
    rw [hdatabase m hm, chunks_concat, Machine.final_append]
    rfl
  served := fun fd => by
    have hhand : (fun w' => (t.task w').unserved fd) = Function.update (fun w' => (s.task w').unserved fd) w none := by
      rw [htask]
      exact Function.comp_update (TaskPc.unserved fd) s.task w _
    rw [hhand, servedOn_concat, filterMap_concat]
    simp only [Traffic.receivedOn, Traffic.chunk, Option.toList_none, Option.toList_some, List.append_nil]
    by_cases hfd : conn.socketFd = fd
    · have howner : (s.task w).owns fd = true := by rw [hpc]; simp [TaskPc.owns, hfd]
      have hgive := (hs.served fd).give (i := w) (b := data) (by rw [hpc]; exact if_pos hfd)
        (hinv.alone TaskPc.owns_of_unserved howner)
      simpa [hfd] using hgive
    · have hidle := (hs.served fd).idle (i := w) (by rw [hpc]; exact if_neg hfd)
      simpa [hfd] using hidle
  sent := fun fd => by
    have hhand : (fun w' => (t.task w').unsent fd) = Function.update (fun w' => (s.task w').unsent fd) w
        (TaskPc.unsent fd (t.task w)) := by
      rw [htask, Function.update_self]
      exact Function.comp_update (TaskPc.unsent fd) s.task w _
    rw [hhand, htask, Function.update_self, answersOn_concat, filterMap_concat, TaskPc.unsent_send]
    simp only [Traffic.sentOn, Traffic.chunk, Option.toList_none, Option.toList_some, List.append_nil,
      Machine.trace_cons, Machine.trace_nil]
    by_cases hfd : conn.socketFd = fd
    · have htake := (hs.sent fd).take (i := w) (b := (serve Prod.snd
        (Machine.final (serve Prod.snd) UserManager.empty (chunks h)) ((conn.socketFd, conn.clientAddr), data)).2)
        (hinv.free TaskPc.owns_of_unsent (w := w) (by rw [hpc]; simp [TaskPc.owns, hfd]) (by rw [hpc]; rfl))
      simpa [hfd] using htake
    · have hidle := (hs.sent fd).idle (i := w) (by rw [hpc]; rfl)
      simpa [hfd] using hidle

/-- `send`. -/
theorem sequential_sent {h : List Traffic} {s : Server n} (hs : Sequential h s) (hinv : s.Inv) {w : Fin n}
    {conn : Connection} {reply : Bytes} (hpc : s.task w = .send conn reply) :
    Sequential (h ++ [.sent conn.socketFd reply]) (s.moveTask w (.receive conn)) where
  database := fun m hm => by
    rw [hs.database m hm, chunks_concat, Machine.final_append]
    rfl
  served := fun fd => by
    rw [hand_moveTask (TaskPc.unserved fd), servedOn_concat, filterMap_concat]
    simp only [TaskPc.unserved, Traffic.receivedOn, Traffic.chunk, Option.toList_none, List.filterMap_nil,
      List.append_nil]
    exact (hs.served fd).idle (by rw [hpc]; rfl)
  sent := fun fd => by
    rw [hand_moveTask (TaskPc.unsent fd), answersOn_concat, filterMap_concat]
    simp only [TaskPc.unsent, Traffic.sentOn, Traffic.chunk, Option.toList_none, Machine.trace_nil, List.filterMap_nil,
      List.append_nil]
    by_cases hfd : conn.socketFd = fd
    · have howner : (s.task w).owns fd = true := by rw [hpc]; simp [TaskPc.owns, hfd]
      rw [if_pos hfd, Option.toList_some]
      exact (hs.sent fd).give (by rw [hpc]; exact if_pos hfd) (hinv.alone TaskPc.owns_of_unsent howner)
    · rw [if_neg hfd, Option.toList_none, List.append_nil]
      exact (hs.sent fd).idle (by rw [hpc]; exact if_neg hfd)

/-- What `recv` returned: a chunk, which is the traffic, or else the connection is to be closed. -/
theorem receive_cases {s t : Server n} {w : Fin n} {received : Received} {conn : Connection}
    (hpc : s.task w = .receive conn) (hconnected : conn.connected = true) (h : s.taskNext w received = some t) :
    (∃ bytes, s.traffic (.task w received) = some (.received conn.socketFd bytes) ∧
        t = (s.use conn.socketFd).moveTask w (.process conn bytes)) ∨
      s.traffic (.task w received) = none ∧ t = (s.use conn.socketFd).moveTask w (.close conn) := by
  simp only [taskNext, hpc, if_pos hconnected] at h
  simp only [traffic, hpc]
  split at h
  · rename_i bytes
    split at h
    · rename_i hempty
      cases h
      exact .inr ⟨if_pos hempty, rfl⟩
    · rename_i hne
      split at h
      · cases h
        exact .inl ⟨bytes, if_neg hne, rfl⟩
      · cases h
  · rename_i hdata
    cases h
    cases received with
    | data bytes => exact absurd rfl (hdata bytes)
    | _ => exact .inr ⟨rfl, rfl⟩

/-- What `processData` answers is what the sequential server does. -/
theorem processed {s t : Server n} {h : List Traffic} (hs : Sequential h s) {w : Fin n} {received : Received}
    {conn : Connection} {data : Bytes} (hpc : s.task w = .process conn data) (hstep : s.taskNext w received = some t) :
    (∀ m, t.userManager = some m → m = (serve Prod.snd
        (Machine.final (serve Prod.snd) UserManager.empty (chunks h)) ((conn.socketFd, conn.clientAddr), data)).1) ∧
      t.task = Function.update s.task w (.send conn (serve Prod.snd
        (Machine.final (serve Prod.snd) UserManager.empty (chunks h)) ((conn.socketFd, conn.clientAddr), data)).2) := by
  simp only [taskNext, hpc] at hstep
  split at hstep
  · rename_i m hm
    cases hstep
    rw [← hs.database m hm]
    exact ⟨fun m' hm' => (Option.some.inj hm').symm, rfl⟩
  · rename_i hm
    split at hstep
    · rename_i hno
      cases hstep
      rw [serve_eq, Option.isNone_iff_eq_none.1 hno]
      exact ⟨fun m' hm' => absurd (hm.symm.trans hm') nofun, rfl⟩
    · cases hstep

theorem Sequential.closeAll {h : List Traffic} {s : Server n} (hs : Sequential h s) (events : List Event) {w : Fin n}
    {pc : TaskPc} (hfrom : ∀ fd, (s.task w).unserved fd = none ∧ (s.task w).unsent fd = none)
    (hto : ∀ fd, pc.unserved fd = none ∧ pc.unsent fd = none) : Sequential h ((s.closeAll events).moveTask w pc) :=
  closeAll_cases events s (fun _ _ => (hs.move hfrom hto).of_eq rfl (fun _ => id))

/-- A step of a worker in its task. -/
theorem sequential_task {h : List Traffic} {s t : Server n} (hs : Sequential h s) (hinv : s.Inv) {w : Fin n}
    {received : Received} (hstep : s.taskNext w received = some t) :
    Sequential (h ++ (s.traffic (.task w received)).toList) t := by
  -- the task has neither a chunk nor a reply in hand
  have hempty : ∀ {pc : TaskPc}, s.task w = pc → (∀ fd, pc.unserved fd = none ∧ pc.unsent fd = none) →
      ∀ fd, (s.task w).unserved fd = none ∧ (s.task w).unsent fd = none := fun hpc hnone => by rwa [hpc]
  cases hpc : s.task w with
  | idle =>
    simp only [taskNext, hpc] at hstep
    cases hstep
  | construct task =>
    have htraffic : s.traffic (.task w received) = none := by simp only [traffic, hpc]
    simp only [taskNext, hpc] at hstep
    cases hstep
    rw [htraffic, Option.toList_none, List.append_nil]
    exact hs.move (hempty hpc (fun _ => ⟨rfl, rfl⟩)) (fun _ => ⟨rfl, rfl⟩)
  | receive conn =>
    rcases receive_cases hpc (hinv.ok_of hpc).1 hstep with ⟨bytes, htraffic, rfl⟩ | ⟨htraffic, rfl⟩
    · rw [htraffic]
      exact (sequential_received hs hinv hpc bytes).of_eq rfl (fun _ => id)
    · rw [htraffic, Option.toList_none, List.append_nil]
      have hclose : Sequential h (s.moveTask w (.close conn)) :=
        hs.move (hempty hpc (fun _ => ⟨rfl, rfl⟩)) (fun _ => ⟨rfl, rfl⟩)
      exact hclose.of_eq rfl (fun _ => id)
  | process conn data =>
    obtain ⟨hdatabase, htask⟩ := processed hs hpc hstep
    have htraffic : s.traffic (.task w received) = some (.served (conn.socketFd, conn.clientAddr) data) := by
      simp only [traffic, hpc]
    rw [htraffic]
    exact sequential_served hs hinv hpc hdatabase htask
  | send conn reply =>
    have htraffic : s.traffic (.task w received) = some (.sent conn.socketFd reply) := by simp only [traffic, hpc]
    simp only [taskNext, hpc] at hstep
    cases hstep
    rw [htraffic]
    exact (sequential_sent hs hinv hpc).of_eq rfl (fun _ => id)
  | close conn =>
    have htraffic : s.traffic (.task w received) = none := by simp only [traffic, hpc]
    simp only [taskNext, hpc] at hstep
    cases hstep
    rw [htraffic, Option.toList_none, List.append_nil]
    exact hs.closeAll _ (hempty hpc (fun _ => ⟨rfl, rfl⟩)) (fun _ => ⟨rfl, rfl⟩)
  | destruct conn =>
    have htraffic : s.traffic (.task w received) = none := by simp only [traffic, hpc]
    simp only [taskNext, hpc] at hstep
    cases hstep
    rw [htraffic, Option.toList_none, List.append_nil]
    exact hs.closeAll _ (hempty hpc (fun _ => ⟨rfl, rfl⟩)) (fun _ => ⟨rfl, rfl⟩)

/-- A `send` that fails was called; one that SIGPIPE ends the process in has not returned. -/
theorem sequential_sendFails {h : List Traffic} {s t : Server n} (hs : Sequential h s) (hinv : s.Inv) {w : Fin n}
    {sigpipe : Bool} (hstep : s.sendFails w sigpipe = some t) :
    Sequential (h ++ (s.traffic (.sendFails w sigpipe)).toList) t := by
  unfold sendFails at hstep
  split at hstep
  · rename_i conn reply hpc
    cases sigpipe with
    | true =>
      cases hstep
      rw [show s.traffic (.sendFails w true) = none from rfl, Option.toList_none, List.append_nil]
      exact hs.of_eq rfl (fun _ => id)
    | false =>
      have htraffic : s.traffic (.sendFails w false) = some (.sent conn.socketFd reply) := by simp only [traffic, hpc]
      cases hstep
      rw [htraffic]
      exact (sequential_sent hs hinv hpc).of_eq rfl (fun _ => id)
  · cases hstep

theorem sequential_step {h : List Traffic} {s t : Server n} {a : Act n} (hs : Sequential h s) (hinv : s.Inv)
    (hstep : step s a = some t) : Sequential (h ++ (s.traffic a).toList) t := by
  have hquiet : s.traffic a = none → Sequential h t → Sequential (h ++ (s.traffic a).toList) t := by
    intro hnone ht
    rwa [hnone, Option.toList_none, List.append_nil]
  cases a with
  | task w received => exact sequential_task hs hinv (step_eq_some.1 hstep).2
  | sendFails w sigpipe => exact sequential_sendFails hs hinv (step_eq_some.1 hstep).2
  | acceptLoop incoming => exact hquiet rfl (by cases step_cases hstep <;> exact hs.of_eq rfl (fun _ => id))
  | stop => exact hquiet rfl (by cases step_cases hstep; exact hs.of_eq rfl (fun _ => id))
  | destructor =>
    apply hquiet rfl
    cases step_cases hstep with
    | destroyUserManager hpc => exact hs.of_eq rfl nofun
    | _ => exact hs.of_eq rfl (fun _ => id)
  | pool a =>
    apply hquiet rfl
    cases step_cases hstep with
    | run w task pool hpc hpool =>
      have hidle : s.task w = .idle := hinv.idle w (fun task' => by rw [hpc]; exact nofun)
      refine Sequential.move (s := s.withPool pool) (hs.of_eq rfl (fun _ => id)) (fun fd => ?_) (fun fd => ⟨rfl, rfl⟩)
      show (s.task w).unserved fd = none ∧ (s.task w).unsent fd = none
      rw [hidle]
      exact ⟨rfl, rfl⟩
    | _ => exact hs.of_eq rfl (fun _ => id)

/-! ## Whole runs -/

/-- **The threaded server answers like a sequential one.**  In every run, with any number of workers, connections and
calls of `stop()` and up to the end of the destructor: the database is what serving the chunks one at a time, in the
order of their critical sections, makes of an empty one; on every socket the chunks served are those received, in order,
but for one that a worker is about to serve; and the replies handed to `send` are those of the sequential server, in
order, but for one that a worker is about to send. -/
theorem answers_sequentially (run : List (Act n)) {s : Server n} (h : Machine.exec step start run = some s) :
    (∀ m, s.userManager = some m → m = Machine.final (serve Prod.snd) UserManager.empty
        (chunks (Machine.history step traffic start run))) ∧
      ∀ fd, InFlight.Lags (fun w => (s.task w).unserved fd)
          ((Machine.history step traffic start run).filterMap (Traffic.receivedOn fd))
          (servedOn fd (Machine.history step traffic start run)) ∧
        InFlight.Lags (fun w => (s.task w).unsent fd) (answersOn fd (Machine.history step traffic start run))
          ((Machine.history step traffic start run).filterMap (Traffic.sentOn fd)) := by
  have hrun : Sequential ([] ++ Machine.history step traffic start run) s ∧ s.Inv := by
    refine Machine.history_invariant (I := fun h s => Sequential h s ∧ s.Inv) (fun h s a t hs hstep => ?_) run
      ⟨sequential_start, inv_start⟩ h
    exact ⟨sequential_step hs.1 hs.2 hstep, inv_step hs.2 (step_cases hstep)⟩
  exact ⟨hrun.1.database, fun fd => ⟨hrun.1.served fd, hrun.1.sent fd⟩⟩

/-- Two workers: on socket 6 a name is registered between the `recv` and the `processData` of socket 5 for the same one,
and when both have sent their replies the sequential server has answered the same. -/
theorem answers_sequentially_race :
    let run : List (Act 2) :=
      [.acceptLoop none, .acceptLoop none, .acceptLoop none, .acceptLoop (some (5, inaddrAny)), .acceptLoop none,
        .pool (.enqueuer ()), .pool (.enqueuer ()), .pool (.enqueuer ()), .pool (.signal () none), .acceptLoop none,
        .acceptLoop none, .acceptLoop none, .acceptLoop (some (6, inaddrAny)), .acceptLoop none, .pool (.enqueuer ()),
        .pool (.enqueuer ()),
        .pool (.enqueuer ()), .pool (.signal () none), .acceptLoop none,
        .pool (.worker 0), .pool (.worker 0), .pool (.worker 0), .pool (.worker 0), .pool (.worker 0),
        .pool (.worker 0),
        .pool (.worker 1), .pool (.worker 1), .pool (.worker 1), .pool (.worker 1), .pool (.worker 1),
        .pool (.worker 1),
        .task 0 .closed, .task 1 .closed, .task 0 (.data (lit "REGISTER u p")), .task 1 (.data (lit "REGISTER u q")),
        .task 1 .closed, .task 0 .closed, .task 0 .closed, .task 1 .closed]
    answersOn 5 (Machine.history step traffic start run) = [errUserExists] ∧
      answersOn 6 (Machine.history step traffic start run) = [okRegistered] := by
  intro run
  obtain ⟨s, hs, hidle⟩ : ∃ s : Server 2, Machine.exec step start run = some s ∧
      ∀ fd, fd = 5 ∨ fd = 6 → ∀ w, (s.task w).unsent fd = none :=
    ⟨_, rfl, by rintro fd (rfl | rfl) <;> decide⟩
  have hsent := fun fd hfd => ((answers_sequentially run hs).2 fd).2.2 (hidle fd hfd)
  exact ⟨(hsent 5 (.inl rfl)).trans rfl, (hsent 6 (.inr rfl)).trans rfl⟩

end Server

end ChatRoom
