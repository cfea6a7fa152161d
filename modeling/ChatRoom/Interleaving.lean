import ChatRoom.Machine
import Mathlib.Data.List.Basic
/-!
# Interleaving — a family of sequences, served in some order

A family has one sequence of inputs for each key.  An interleaving is a list of inputs, each with the key of the
sequence it comes from, in which every sequence stands in its own order.  Where the inputs of a key act on that key's
view of the state alone, an interleaving answers each sequence as if it were served by itself (`interleaving_served`).
-/
namespace Machine

section
variable {σ ι κ ο α β : Type*} [DecidableEq κ]

/-- The thing, when its key is `k`. -/
def pick (k : κ) (x : κ × α) : Option α := if x.1 = k then some x.2 else none

theorem pick_eq_some (k : κ) (x : κ × α) (a : α) : pick k x = some a ↔ x.1 = k ∧ x.2 = a := by
  unfold pick
  split <;> simp [*]

def Interleaves (fam : κ → List ι) (w : List (κ × ι)) : Prop := ∀ k, w.filterMap (pick k) = fam k

/-- A step on a keyed input: the key is not part of what the machine sees. -/
def keyed (step : σ → ι → σ × ο) (s : σ) (x : κ × ι) : σ × ο := step s x.2

/-- The history of the inputs with key `k`, in a run of keyed inputs. -/
def historyOf (k : κ) (past : List ((κ × ι) × ο)) : List (ι × ο) :=
  past.filterMap (fun e => pick k (e.1.1, (e.1.2, e.2)))

theorem mem_of_interleaves {fam : κ → List ι} {w : List (κ × ι)} (h : Interleaves fam w) {x : κ × ι} (hx : x ∈ w) :
    x.2 ∈ fam x.1 := by
  rw [← h x.1, List.mem_filterMap]
  exact ⟨x, hx, if_pos rfl⟩

/-- **An interleaving serves every sequence as if it were alone**: same history, same view of the state. -/
theorem interleaving_served (step : σ → ι → σ × ο) (view : κ → σ → β) (fam : κ → List ι)
    (hself : ∀ k s t i, i ∈ fam k → view k s = view k t →
      view k (step s i).1 = view k (step t i).1 ∧ (step s i).2 = (step t i).2)
    (hother : ∀ j k s i, i ∈ fam j → j ≠ k → view k (step s i).1 = view k s)
    (w : List (κ × ι)) (hw : Interleaves fam w) (s : σ) (k : κ) :
    historyOf k (trace (keyed step) s w) = trace step s (fam k) ∧
      view k (final (keyed step) s w) = view k (final step s (fam k)) := by
  have hsim := simulates (keyed step) step (fun s t => view k s = view k t) (fun x => x.2 ∈ fam x.1) (pick k)
    (fun e => pick k (e.1.1, (e.1.2, e.2))) ?_ w s s rfl (fun x hx => mem_of_interleaves hw hx)
  · rw [hw k] at hsim
    exact ⟨hsim.2, hsim.1⟩
  · intro s t x hv hx
    by_cases hk : x.1 = k
    · -- an input of the sequence itself: a step of both
      obtain ⟨hview, hout⟩ := hself k s t x.2 (hk ▸ hx) hv
      simp only [pick, if_pos hk, keyed]
      exact ⟨hview, by rw [hout]⟩
    · simp only [pick, if_neg hk, keyed]
      exact ⟨(hother x.1 k s x.2 hx hk).trans hv, trivial⟩

end

end Machine
