import Mathlib.Data.List.TakeDrop
import Mathlib.Data.List.TakeWhile
/-!
# Scan — reading words off a sequence with separators

Over any alphabet with a separator test.  `word` is one extraction: it skips separators and takes the maximal run of
other letters.  A word followed by a separator, or by nothing, is read back whole (`word_append`).  `words` are all the
words of a sequence: extraction after extraction gives them in turn (`cons_prefix_words`).
-/
namespace Scan

variable {α : Type*} (sep : α → Bool)

/-- One extraction: the word after the separators, and what follows it. -/
def word (l : List α) : List α × List α :=
  ((l.dropWhile sep).takeWhile (fun a => !sep a), (l.dropWhile sep).dropWhile (fun a => !sep a))

/-- A word has a letter and no separator. -/
def IsWord (w : List α) : Prop := w ≠ [] ∧ ∀ a ∈ w, sep a = false

instance [DecidableEq α] (w : List α) : Decidable (IsWord sep w) :=
  inferInstanceAs (Decidable (w ≠ [] ∧ ∀ a ∈ w, sep a = false))

theorem sep_of_mem_word {l : List α} {a : α} (h : a ∈ (word sep l).1) : sep a = false := by
  simpa using List.mem_takeWhile_imp h

/-- Where no word is left, nothing is. -/
theorem word_snd_of_nil {l : List α} (h : (word sep l).1 = []) : (word sep l).2 = [] := by
  unfold word at h ⊢
  cases hl : l.dropWhile sep with
  | nil => rfl
  | cons a rest =>
    -- the letter that stops the skipping starts a word
    have ha : sep a = false := by
      have := List.head?_dropWhile_not sep l
      rw [hl] at this
      simpa using this
    rw [hl, List.takeWhile_cons_of_pos (by rw [ha]; rfl)] at h
    cases h

theorem word_sep (a : α) (l : List α) (h : sep a = true) : word sep (a :: l) = word sep l := by
  unfold word
  rw [List.dropWhile_cons_of_pos h]

/-- **A word is read back whole** when nothing or a separator follows it. -/
theorem word_append (w rest : List α) (hw : IsWord sep w) (hrest : ∀ a ∈ rest.head?, sep a = true) :
    word sep (w ++ rest) = (w, rest) := by
  obtain ⟨hne, hall⟩ := hw
  have hdrop : (w ++ rest).dropWhile sep = w ++ rest := by
    cases w with
    | nil => exact absurd rfl hne
    | cons a w => rw [List.cons_append, List.dropWhile_cons_of_neg (by simp [hall a List.mem_cons_self])]
  have hpos : ∀ a ∈ w, (!sep a) = true := fun a ha => by rw [hall a ha]; rfl
  unfold word
  rw [hdrop, List.takeWhile_append_of_pos hpos, List.dropWhile_append_of_pos hpos]
  cases rest with
  | nil => simp
  | cons b rest =>
    have hb : sep b = true := hrest b rfl
    simp [hb]

/-- **A word after one separator**, as a writer joins them. -/
theorem word_sep_append (a : α) (w rest : List α) (ha : sep a = true) (hw : IsWord sep w)
    (hrest : ∀ b ∈ rest.head?, sep b = true) : word sep (a :: (w ++ rest)) = (w, rest) := by
  rw [word_sep sep a _ ha, word_append sep w rest hw hrest]

/-! ## All words -/

def words (l : List α) : List (List α) := (l.splitOnP sep).filter (fun w => !w.isEmpty)

@[simp] theorem words_nil : words sep [] = [] := rfl

theorem words_sep (a : α) (l : List α) (h : sep a = true) : words sep (a :: l) = words sep l := by
  have hnone : ∀ b ∈ ([] : List α), sep b = false := nofun
  have hsplit : (a :: l).splitOnP sep = [] :: l.splitOnP sep :=
    List.splitOnP_append_cons_of_forall_mem hnone a h l
  unfold words
  rw [hsplit]
  rfl

theorem words_dropWhile (l : List α) : words sep (l.dropWhile sep) = words sep l := by
  induction l with
  | nil => rfl
  | cons a l ih =>
    by_cases ha : sep a = true
    · rw [List.dropWhile_cons_of_pos ha, words_sep sep a l ha, ih]
    · rw [List.dropWhile_cons_of_neg ha]

theorem words_append (w rest : List α) (hw : IsWord sep w) (hrest : ∀ a ∈ rest.head?, sep a = true) :
    words sep (w ++ rest) = w :: words sep rest := by
  obtain ⟨hne, hall⟩ := hw
  cases rest with
  | nil => rw [List.append_nil, words, List.splitOnP_eq_singleton hall]; simp [hne]
  | cons a rest =>
    have ha : sep a = true := hrest a rfl
    rw [words_sep sep a rest ha, words, List.splitOnP_append_cons_of_forall_mem hall a ha]
    simp [words, hne]

theorem isWord_word {l : List α} (h : (word sep l).1 ≠ []) : IsWord sep (word sep l).1 :=
  ⟨h, fun _ ha => sep_of_mem_word sep ha⟩

theorem words_of_nil {l : List α} (h : (word sep l).1 = []) : words sep l = [] := by
  rw [← words_dropWhile, ← List.takeWhile_append_dropWhile (p := fun a => !sep a) (l := l.dropWhile sep)]
  rw [show (l.dropWhile sep).takeWhile (fun a => !sep a) = [] from h,
    show (l.dropWhile sep).dropWhile (fun a => !sep a) = [] from word_snd_of_nil sep h]
  rfl

theorem words_of_word {l : List α} (h : (word sep l).1 ≠ []) :
    words sep l = (word sep l).1 :: words sep (word sep l).2 := by
  have hrest : ∀ a ∈ (word sep l).2.head?, sep a = true := by
    intro a ha
    have := List.head?_dropWhile_not (fun a => !sep a) (l.dropWhile sep)
    rw [show ((l.dropWhile sep).dropWhile (fun a => !sep a)).head? = some a from ha] at this
    simpa using this
  rw [← words_append sep _ _ (isWord_word sep h) hrest, ← words_dropWhile]
  exact congrArg (words sep) List.takeWhile_append_dropWhile.symm

/-- **The first word is what one extraction gives**, and the others are the words of what it leaves. -/
theorem cons_prefix_words {l w : List α} {ws : List (List α)} :
    w :: ws <+: words sep l ↔ (word sep l).1 ≠ [] ∧ w = (word sep l).1 ∧ ws <+: words sep (word sep l).2 := by
  by_cases h : (word sep l).1 = []
  · simp [words_of_nil sep h, h]
  · rw [words_of_word sep h, List.cons_prefix_cons]
    exact ⟨fun hw => ⟨h, hw⟩, And.right⟩

end Scan
