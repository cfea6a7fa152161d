import Mathlib.Data.List.Basic
/-!
# Lines — telling the pieces of a sequence apart

Over any alphabet.  `cut` finds the first delimiter, `lines` cuts at every one; what follows the last is a line too,
unless it is empty.  Either undoes the joining of pieces that are free of the delimiter (`cut_append`, `lines_append`);
what is appended behind a delimiter adds its own lines (`lines_terminated`).

Where nothing delimits them, the words of a code are told apart by a reader that takes the first word off a stream of
code words (`Codebook.Reads`); one that is never wrong makes concatenation lossless: the stream determines the words
(`Codebook.flatten_inj`).
-/
namespace Lines

variable {α : Type*} [DecidableEq α]

/-- What is before the first `c`, and what is behind it. -/
def cut (c : α) : List α → Option (List α × List α)
  | [] => none
  | a :: l => if a = c then some ([], l) else (cut c l).map (fun p => (a :: p.1, p.2))

def lines (c : α) : List α → List (List α)
  | [] => []
  | a :: l =>
    if a = c then [] :: lines c l
    else match lines c l with
      | [] => [[a]]
      | w :: ws => (a :: w) :: ws

variable {c : α}

theorem cut_append {w : List α} (hw : c ∉ w) (rest : List α) : cut c (w ++ c :: rest) = some (w, rest) := by
  induction w with
  | nil => simp [cut]
  | cons a w ih =>
    rw [List.mem_cons, not_or] at hw
    rw [List.cons_append, cut, if_neg (Ne.symm hw.1), ih hw.2]
    rfl

theorem cut_eq_none {l : List α} : cut c l = none ↔ c ∉ l := by
  constructor
  · intro h hmem
    obtain ⟨w, rest, rfl, hw⟩ := List.eq_append_cons_of_mem hmem
    rw [cut_append hw] at h
    cases h
  · intro h
    induction l with
    | nil => rfl
    | cons a l ih =>
      rw [List.mem_cons, not_or] at h
      rw [cut, if_neg (Ne.symm h.1), ih h.2]
      rfl

theorem cut_eq_some {l w rest : List α} : cut c l = some (w, rest) ↔ l = w ++ c :: rest ∧ c ∉ w := by
  constructor
  · intro h
    by_cases hmem : c ∈ l
    · obtain ⟨w', rest', rfl, hw'⟩ := List.eq_append_cons_of_mem hmem
      rw [cut_append hw'] at h
      cases h
      exact ⟨rfl, hw'⟩
    · rw [cut_eq_none.2 hmem] at h
      cases h
  · rintro ⟨rfl, hw⟩
    exact cut_append hw rest

/-- **The piece before the first delimiter is determined.** -/
theorem append_cons_inj {w w' rest rest' : List α} (hw : c ∉ w) (hw' : c ∉ w')
    (h : w ++ c :: rest = w' ++ c :: rest') : w = w' ∧ rest = rest' := by
  have hcut := cut_append hw rest
  rw [h, cut_append hw' rest'] at hcut
  cases hcut
  exact ⟨rfl, rfl⟩

@[simp] theorem lines_nil : lines c [] = [] := rfl

/-- **A line is read off the front**, up to its delimiter. -/
theorem lines_append {w : List α} (hw : c ∉ w) (rest : List α) : lines c (w ++ c :: rest) = w :: lines c rest := by
  induction w with
  | nil => simp [lines]
  | cons a w ih =>
    rw [List.mem_cons, not_or] at hw
    rw [List.cons_append, lines, if_neg (Ne.symm hw.1), ih hw.2]

theorem lines_last {w : List α} (hw : c ∉ w) (hne : w ≠ []) : lines c w = [w] := by
  induction w with
  | nil => exact absurd rfl hne
  | cons a w ih =>
    rw [List.mem_cons, not_or] at hw
    rw [lines, if_neg (Ne.symm hw.1)]
    cases w with
    | nil => rfl
    | cons b w => rw [ih hw.2 (List.cons_ne_nil b w)]

theorem lines_eq_nil {l : List α} : lines c l = [] ↔ l = [] := by
  cases l with
  | nil => simp
  | cons a l =>
    rw [lines]
    split
    · simp
    · split <;> simp

/-- **A terminated sequence keeps its lines** when something is appended to it. -/
theorem lines_terminated (l rest : List α) : lines c (l ++ [c] ++ rest) = lines c (l ++ [c]) ++ lines c rest := by
  induction l with
  | nil => simp [lines]
  | cons a l ih =>
    rw [List.append_assoc, List.singleton_append] at ih
    by_cases ha : a = c
    · subst ha; simp [lines, ih]
    · simp only [List.cons_append, List.append_assoc, List.nil_append, lines, if_neg ha, ih]
      cases hl : lines c (l ++ [c]) with
      | nil => exact absurd (lines_eq_nil.1 hl) (by simp)
      | cons w ws => rfl

theorem not_mem_of_mem_lines {l w : List α} (h : w ∈ lines c l) : c ∉ w := by
  induction l generalizing w with
  | nil => cases h
  | cons a l ih =>
    rw [lines] at h
    split at h
    · rcases List.mem_cons.1 h with rfl | h
      · exact List.not_mem_nil
      · exact ih h
    · rename_i ha
      split at h
      · rw [List.mem_singleton.1 h, List.mem_singleton]
        exact Ne.symm ha
      · rename_i v vs hl
        rcases List.mem_cons.1 h with rfl | h
        · rw [List.mem_cons, not_or]
          exact ⟨Ne.symm ha, ih (hl ▸ List.mem_cons_self)⟩
        · exact ih (hl ▸ List.mem_cons_of_mem v h)

end Lines

namespace Codebook

variable {α : Type*} {C : List α → Prop}

/-- `first` finds the word that a stream of code words starts with. -/
def Reads (C : List α → Prop) (first : List α → List α) : Prop :=
  ∀ (w : List α) (ws : List (List α)), C w → (∀ v ∈ ws, C v) → first (w ++ ws.flatten) = w

/-- A stream of words that all start with a letter of one kind starts with such a letter, if it starts at all. -/
theorem head_flatten (q : α → Prop) (h : ∀ w, C w → ∃ a l, w = a :: l ∧ q a) :
    ∀ ws : List (List α), (∀ w ∈ ws, C w) → ∀ a ∈ ws.flatten.head?, q a
  | [], _, _, ha => by cases ha
  | w :: ws, hws, a, ha => by
    obtain ⟨b, l, rfl, hb⟩ := h w (hws w List.mem_cons_self)
    cases ha
    exact hb

/-- **The stream determines the words.** -/
theorem flatten_inj {first : List α → List α} (hreads : Reads C first) (hne : ∀ w, C w → w ≠ []) :
    ∀ ws vs : List (List α), (∀ w ∈ ws, C w) → (∀ v ∈ vs, C v) → ws.flatten = vs.flatten → ws = vs
  | [], [], _, _, _ => rfl
  | [], v :: vs, _, hvs, h => by
    rw [List.flatten_cons] at h
    exact absurd (List.append_eq_nil_iff.1 h.symm).1 (hne v (hvs v List.mem_cons_self))
  | w :: ws, [], hws, _, h => by
    rw [List.flatten_cons] at h
    exact absurd (List.append_eq_nil_iff.1 h).1 (hne w (hws w List.mem_cons_self))
  | w :: ws, v :: vs, hws, hvs, h => by
    have hws' : ∀ w ∈ ws, C w := fun x hx => hws x (List.mem_cons_of_mem w hx)
    have hvs' : ∀ v ∈ vs, C v := fun x hx => hvs x (List.mem_cons_of_mem v hx)
    rw [List.flatten_cons, List.flatten_cons] at h
    -- both streams are read alike, so they start with the same word
    have hwv : w = v := by
      rw [← hreads w ws (hws w List.mem_cons_self) hws', h, hreads v vs (hvs v List.mem_cons_self) hvs']
    subst hwv
    rw [flatten_inj hreads hne ws vs hws' hvs' (List.append_cancel_left h)]

end Codebook
