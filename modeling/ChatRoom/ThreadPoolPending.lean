import ChatRoom.ThreadPoolStop
/-!
# ThreadPoolPending — tasks handed in and not started

One enqueuing thread.  A task is pending from the call of `enqueue` to its start: in the hand of that thread, in the
queue, or in the hand of the worker that popped it.  Every step changes the number of pending tasks of a kind by the
task it brings in or starts (`pending_step`).
-/
namespace ChatRoom

def EnqueuerPc.hand {τ : Type} : EnqueuerPc τ → List τ
  | .lock task => [task]
  | .push task => [task]
  | _ => []

namespace ThreadPool

variable {n : Nat} {τ : Type}

/-- Handed in and not popped. -/
def unpopped (s : ThreadPool n Unit τ) : List τ := (s.enqueuer ()).hand ++ s.taskQueue

/-- How many tasks of a kind are pending. -/
def pending (p : τ → Bool) (s : ThreadPool n Unit τ) : Nat :=
  s.unpopped.countP p + Tally.tally (fun pc => (inHand pc).any p) s.worker

/-- The task that a step brings in. -/
def brought : Act n Unit τ → List τ
  | .enqueue _ task => [task]
  | _ => []

/-- The task that a step starts. -/
def starting (s : ThreadPool n Unit τ) : Act n Unit τ → List τ
  | .worker w =>
    match s.worker w with
    | .run task => [task]
    | _ => []
  | _ => []

theorem starting_eq_nil {s : ThreadPool n Unit τ} {a : Act n Unit τ}
    (h : ∀ w, a = .worker w → ∀ task, s.worker w ≠ .run task) : s.starting a = [] := by
  cases a with
  | worker w =>
    unfold starting
    dsimp only
    split
    · rename_i task hpc
      exact absurd hpc (h w rfl task)
    · rfl
  | _ => rfl

/-- A worker moves, the tasks handed in stay. -/
theorem pending_moveWorker (p : τ → Bool) {s t : ThreadPool n Unit τ} {w : Fin n} {pc : WorkerPc τ}
    (hunpopped : t.unpopped = s.unpopped) (hworker : t.worker = Function.update s.worker w pc) :
    t.pending p + ((inHand (s.worker w)).any p).toNat = s.pending p + ((inHand pc).any p).toNat := by
  have := Tally.tally_update (fun pc : WorkerPc τ => (inHand pc).any p) s.worker w pc
  unfold pending
  rw [hunpopped, hworker]
  omega

theorem pending_of_eq (p : τ → Bool) {s t : ThreadPool n Unit τ} (hunpopped : t.unpopped.countP p = s.unpopped.countP p)
    (hworker : t.worker = s.worker) : t.pending p = s.pending p := by
  unfold pending
  rw [hunpopped, hworker]

theorem any_toNat (p : τ → Bool) (task : τ) : ([task].any p).toNat = [task].countP p := by
  cases h : p task <;> simp [h]

/-- A step in which no task is popped, brought in or started. -/
theorem pending_same (p : τ → Bool) {s t : ThreadPool n Unit τ} {a : Act n Unit τ} {w : Fin n} {pc pc' : WorkerPc τ}
    (hpc : s.worker w = pc) (hworker : t.worker = Function.update s.worker w pc') (hhand : inHand pc = inHand pc')
    (hunpopped : t.unpopped = s.unpopped) (hstarting : s.starting a = []) (hbrought : brought a = []) :
    t.pending p + (s.starting a).countP p = s.pending p + (brought a).countP p := by
  have := pending_moveWorker p hunpopped hworker
  rw [hpc, hhand] at this
  rw [hstarting, hbrought]
  exact Nat.add_right_cancel this

/-- **A step moves pending tasks about**, but for the one it brings in or starts. -/
theorem pending_step (p : τ → Bool) {s t : ThreadPool n Unit τ} {a : Act n Unit τ} (h : Step s a t) :
    t.pending p + (s.starting a).countP p = s.pending p + (brought a).countP p := by
  cases h with
  | lock w hpc hfree =>
    rcases hpc with hpc | hpc
    · exact pending_same p hpc rfl rfl rfl (by simp [starting, hpc]) rfl
    · exact pending_same p hpc rfl rfl rfl (by simp [starting, hpc]) rfl
  | wait w hpc => exact pending_same p hpc rfl rfl rfl (by simp [starting, hpc]) rfl
  | proceed w hpc => exact pending_same p hpc rfl rfl rfl (by simp [starting, hpc]) rfl
  | sleep w hpc => exact pending_same p hpc rfl rfl rfl (by simp [starting, hpc]) rfl
  | leave w hpc => exact pending_same p hpc rfl rfl rfl (by simp [starting, hpc]) rfl
  | take w hpc => exact pending_same p hpc rfl rfl rfl (by simp [starting, hpc]) rfl
  | pop w task rest hpc hqueue =>
    have htally := Tally.tally_update (fun pc : WorkerPc τ => (inHand pc).any p) s.worker w (.unlock task)
    have hunlock : (inHand (.unlock task)).any p = [task].any p := rfl
    have hpop : (inHand (s.worker w)).any p = false := by rw [hpc]; rfl
    have hstarting : s.starting (.worker w) = [] := by simp [starting, hpc]
    rw [hpop, hunlock, any_toNat] at htally
    simp only [hstarting, brought, pending, unpopped, moveWorker, hqueue, List.countP_append, List.countP_nil,
      List.countP_cons, Bool.toNat_false] at htally ⊢
    omega
  | unlock w task hpc => exact pending_same p hpc rfl rfl rfl (by simp [starting, hpc]) rfl
  | run w task hpc =>
    have hmove := pending_moveWorker (w := w) p (s := s)
      (t := { s with started := s.started ++ [(w, task)] }.moveWorker w (.running task)) rfl rfl
    have hrun : ((inHand (s.worker w)).any p).toNat = [task].countP p := by rw [hpc, ← any_toNat]; rfl
    have hstarting : s.starting (.worker w) = [task] := by simp [starting, hpc]
    rw [hrun] at hmove
    rw [hstarting]
    exact hmove
  | finish w task hpc => exact pending_same p hpc rfl rfl rfl (by simp [starting, hpc]) rfl
  | exit w hpc => exact pending_same p hpc rfl rfl rfl (by simp [starting, hpc]) rfl
  | spurious w hpc => exact pending_same p hpc rfl rfl rfl rfl rfl
  | enqueue e task hpc =>
    have hidle : s.enqueuer () = .idle := hpc
    simp only [starting, brought, pending, unpopped, moveEnqueuer, Function.update_self, hidle, EnqueuerPc.hand,
      List.countP_append, List.countP_nil]
    omega
  | enqueueLock e task hpc hfree =>
    have hlock : s.enqueuer () = .lock task := hpc
    exact pending_of_eq p (by simp [unpopped, moveEnqueuer, hlock, EnqueuerPc.hand]) rfl
  | push e task hpc =>
    have hpush : s.enqueuer () = .push task := hpc
    refine pending_of_eq p ?_ rfl
    simp only [unpopped, moveEnqueuer, Function.update_self, hpush, EnqueuerPc.hand, List.countP_append,
      List.countP_nil]
    omega
  | enqueueUnlock e hpc =>
    have hunlock : s.enqueuer () = .unlock := hpc
    exact pending_of_eq p (by simp [unpopped, moveEnqueuer, hunlock, EnqueuerPc.hand]) rfl
  | signal e w hpc hasleep =>
    have hsignal : s.enqueuer () = .signal := hpc
    exact pending_same p hasleep rfl rfl
      (by simp [unpopped, moveEnqueuer, moveWorker, hsignal, EnqueuerPc.hand]) rfl rfl
  | signalNone e hpc =>
    have hsignal : s.enqueuer () = .signal := hpc
    exact pending_of_eq p (by simp [unpopped, moveEnqueuer, hsignal, EnqueuerPc.hand]) rfl
  | broadcast hpc =>
    have hwake : ∀ pc : WorkerPc τ, inHand pc.wake = inHand pc := fun pc => by cases pc <;> rfl
    simp only [starting, brought, pending, unpopped, Tally.tally, hwake]
  | _ => rfl

/-- A worker in its task stays there until it takes a step itself. -/
theorem running_step {s t : ThreadPool n Unit τ} {a : Act n Unit τ} (h : Step s a t) {w : Fin n} {task : τ}
    (hw : s.worker w = .running task) (ha : a ≠ .worker w) : t.worker w = .running task := by
  rcases worker_step h w with hsame | hown | ⟨hsleep, -⟩
  · rw [hsame, hw]
  · exact absurd hown ha
  · rw [hw] at hsleep
    cases hsleep

/-- Nothing comes in but by `enqueue`. -/
theorem unpopped_step {s t : ThreadPool n Unit τ} {a : Act n Unit τ} (h : Step s a t) (hbrought : brought a = [])
    (hs : s.unpopped = []) : t.unpopped = [] := by
  obtain ⟨hhand, hqueue⟩ := List.append_eq_nil_iff.1 hs
  cases h with
  | pop w task rest hpc hqueue' => rw [hqueue] at hqueue'; cases hqueue'
  | enqueue e task hpc => cases hbrought
  | enqueueLock e task hpc =>
    have hlock : s.enqueuer () = .lock task := hpc
    rw [hlock] at hhand
    cases hhand
  | push e task hpc =>
    have hpush : s.enqueuer () = .push task := hpc
    rw [hpush] at hhand
    cases hhand
  | enqueueUnlock e hpc => simpa [unpopped, moveEnqueuer, EnqueuerPc.hand] using hqueue
  | signal e w hpc hasleep => simpa [unpopped, moveEnqueuer, moveWorker, EnqueuerPc.hand] using hqueue
  | signalNone e hpc => simpa [unpopped, moveEnqueuer, EnqueuerPc.hand] using hqueue
  | _ => exact hs

/-- **When the destructor has returned** no worker is in a task or has one in hand. -/
theorem pending_destroyed {s : ThreadPool n Unit τ} (hs : s.Joined) (hdestroyed : s.destructor = .destroyed)
    (p : τ → Bool) : s.pending p = s.unpopped.countP p := by
  unfold Joined at hs
  rw [hdestroyed] at hs
  unfold pending
  rw [Tally.tally_eq_zero (fun w => by rw [hs w]; rfl), Nat.add_zero]

/-- How many tasks were handed to `enqueue`: pushed, or still in the hand of the enqueuing thread. -/
def handedIn (s : ThreadPool n Unit τ) : Nat := s.pushed.length + (s.enqueuer ()).hand.length

theorem handedIn_step {s t : ThreadPool n Unit τ} {a : Act n Unit τ} (h : Step s a t) :
    t.handedIn = s.handedIn + (brought a).length := by
  cases h with
  | enqueue e task hpc => simp [handedIn, moveEnqueuer, brought, hpc, EnqueuerPc.hand]
  | enqueueLock e task hpc hfree => simp [handedIn, moveEnqueuer, brought, hpc, EnqueuerPc.hand]
  | push e task hpc => simp [handedIn, moveEnqueuer, brought, hpc, EnqueuerPc.hand]
  | enqueueUnlock e hpc => simp [handedIn, moveEnqueuer, brought, hpc, EnqueuerPc.hand]
  | signal e w hpc hasleep => simp [handedIn, moveEnqueuer, moveWorker, brought, hpc, EnqueuerPc.hand]
  | signalNone e hpc hnone => simp [handedIn, moveEnqueuer, brought, hpc, EnqueuerPc.hand]
  | _ => rfl

/-- A thread that is not in `enqueue` stays out of it until it is called. -/
theorem enqueuer_idle_step {s t : ThreadPool n Unit τ} {a : Act n Unit τ} (h : Step s a t)
    (hidle : s.enqueuer () = .idle) (hbrought : brought a = []) : t.enqueuer () = .idle := by
  cases h with
  | enqueue e task hpc => cases hbrought
  | enqueueLock e task hpc hfree => rw [hidle] at hpc; cases hpc
  | push e task hpc => rw [hidle] at hpc; cases hpc
  | enqueueUnlock e hpc => rw [hidle] at hpc; cases hpc
  | signal e w hpc hasleep => rw [hidle] at hpc; cases hpc
  | signalNone e hpc hnone => rw [hidle] at hpc; cases hpc
  | _ => exact hidle

end ThreadPool
end ChatRoom
