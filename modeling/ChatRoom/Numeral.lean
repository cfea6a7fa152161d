import Mathlib.Data.List.Induction
import Mathlib.Data.Nat.Basic
import Mathlib.Tactic.IntervalCases
/-!
# Numeral — decimal numerals as bytes

`numeral` writes a number in ASCII digits and `value` reads digits back (`value_numeral`).  A numeral is digits only
(`isDigit_of_mem_numeral`), not empty, and as short as its number allows (`length_numeral_le`); only that of 0 starts
with a zero (`head?_numeral`).
-/
namespace Numeral

def isDigit (b : UInt8) : Bool := 48 ≤ b && b ≤ 57

/-- The number that a sequence of digits stands for, most significant first. -/
def value (ds : List UInt8) : Nat := ds.foldl (fun n b => 10 * n + (b.toNat - 48)) 0

def numeral (n : Nat) : List UInt8 := (Nat.toDigits 10 n).map (fun c => c.toNat.toUInt8)

theorem toNat_digitByte (d : Nat) (h : d < 10) : (d.digitChar.toNat.toUInt8).toNat = 48 + d := by
  interval_cases d <;> rfl

theorem numeral_eq (n : Nat) :
    numeral n = (if n < 10 then [] else numeral (n / 10)) ++ [(n % 10).digitChar.toNat.toUInt8] := by
  unfold numeral
  rw [Nat.toDigits_eq_if (by decide)]
  split
  · rename_i h
    rw [Nat.mod_eq_of_lt h]; rfl
  · rw [List.map_append]; rfl

theorem numeral_ne_nil (n : Nat) : numeral n ≠ [] := by
  rw [numeral_eq]; simp

theorem value_append_digit (ds : List UInt8) (d : Nat) (h : d < 10) :
    value (ds ++ [d.digitChar.toNat.toUInt8]) = 10 * value ds + d := by
  unfold value
  rw [List.foldl_append, List.foldl_cons, List.foldl_nil, toNat_digitByte d h]
  omega

theorem value_lt (ds : List UInt8) (h : ∀ b ∈ ds, isDigit b = true) : value ds < 10 ^ ds.length := by
  induction ds using List.reverseRecOn with
  | nil => exact Nat.one_pos
  | append_singleton ds b ih =>
    have hds := ih (fun c hc => h c (List.mem_append_left [b] hc))
    have hb : b.toNat ≤ 57 := by
      have := h b (List.mem_append_right ds List.mem_cons_self)
      simp only [isDigit, Bool.and_eq_true, decide_eq_true_eq] at this
      exact UInt8.le_iff_toNat_le.1 this.2
    unfold value at hds ⊢
    rw [List.foldl_append, List.foldl_cons, List.foldl_nil, List.length_append, List.length_singleton, Nat.pow_succ]
    omega

/-- **A numeral reads back as its number.** -/
theorem value_numeral (n : Nat) : value (numeral n) = n := by
  induction n using Nat.strong_induction_on with
  | _ n ih =>
    rw [numeral_eq, value_append_digit _ _ (Nat.mod_lt n (by decide))]
    split
    · have : value [] = 0 := rfl
      omega
    · rw [ih (n / 10) (by omega)]
      omega

theorem isDigit_digitByte (d : Nat) (h : d < 10) : isDigit d.digitChar.toNat.toUInt8 = true := by
  interval_cases d <;> rfl

theorem isDigit_of_mem_numeral (n : Nat) : ∀ b ∈ numeral n, isDigit b = true := by
  induction n using Nat.strong_induction_on with
  | _ n ih =>
    intro b hb
    rw [numeral_eq, List.mem_append] at hb
    rcases hb with hb | hb
    · split at hb
      · cases hb
      · exact ih (n / 10) (by omega) b hb
    · rw [List.mem_singleton.1 hb]
      exact isDigit_digitByte _ (Nat.mod_lt n (by decide))

theorem length_numeral_le (k : Nat) : ∀ n, n < 10 ^ (k + 1) → (numeral n).length ≤ k + 1 := by
  induction k with
  | zero =>
    intro n h
    rw [numeral_eq, if_pos (by omega)]
    simp
  | succ k ih =>
    intro n h
    rw [numeral_eq, List.length_append, List.length_singleton]
    split
    · simp
    · have := ih (n / 10) (by rw [Nat.pow_succ] at h; omega)
      omega

/-- No numeral but that of 0 starts with a zero. -/
theorem head?_numeral {n : Nat} (h : 0 < n) : (numeral n).head? ≠ some 48 := by
  induction n using Nat.strong_induction_on with
  | _ n ih =>
    rw [numeral_eq]
    split
    · rename_i hdigit
      rw [List.nil_append, List.head?_cons, Nat.mod_eq_of_lt hdigit]
      intro hzero
      have hvalue := toNat_digitByte n hdigit
      rw [Option.some.inj hzero] at hvalue
      have hconst : (48 : UInt8).toNat = 48 := rfl
      omega
    · obtain ⟨b, ds, hds⟩ := List.exists_cons_of_ne_nil (numeral_ne_nil (n / 10))
      have hhead := ih (n / 10) (by omega) (by omega)
      rw [hds] at hhead ⊢
      exact hhead

end Numeral
