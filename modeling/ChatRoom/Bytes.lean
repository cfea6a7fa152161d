import ChatRoom.Scan
import ChatRoom.Numeral
import Mathlib.Data.Int.DivMod
/-!
# Bytes — strings as bytes, and the library calls the program makes on them

A `std::string` is a list of bytes.  The C and C++ library functions here follow their documented behaviour in the C
locale: `isspace`, extraction with `>>`, `strtol` and what `atoi` and `std::stoi` make of it, `std::to_string`,
`std::string::substr` and `find` with `size_t` positions, `htons`, `inet_ntoa`.
-/
namespace ChatRoom

/-- A `std::string`, or the contents of a `char` buffer. -/
abbrev Bytes := List UInt8

/-- The bytes of a string literal, its terminating NUL left out. -/
def lit (s : String) : Bytes := s.toList.map (fun c => c.toNat.toUInt8)

inductive StdException
  | invalidArgument
  | outOfRange
  deriving DecidableEq, Repr

/-- `isspace` in the C locale: blank, `\t`, `\n`, `\v`, `\f`, `\r`. -/
def isspace (b : UInt8) : Bool := b == 32 || (9 ≤ b && b ≤ 13)

/-- `iss >> str` into an empty string: the next word, empty when there is none, and what is left of the stream. -/
def extract (iss : Bytes) : Bytes × Bytes := Scan.word isspace iss

/-- What a C function reads of a string: the bytes before the first NUL. -/
def cStr (s : Bytes) : Bytes := s.takeWhile (fun b => b != 0)

/-! ## Numbers -/

/-- The number at the start of a C string, before any range check; `none` when `strtol` converts nothing. -/
def strtol (s : Bytes) : Option Int :=
  let s := s.dropWhile isspace
  let (negative, s) := match s with
    | 45 :: rest => (true, rest)
    | 43 :: rest => (false, rest)
    | _ => (false, s)
  let digits := s.takeWhile Numeral.isDigit
  if digits = [] then none
  else some (if negative then - (Numeral.value digits : Int) else Numeral.value digits)

/-- `atoi`: what `strtol` returns, clamped to a `long`, cut to an `int`; 0 when nothing converts. -/
def atoi (s : Bytes) : Int :=
  match strtol s with
  | none => 0
  | some v => (max (-2 ^ 63) (min v (2 ^ 63 - 1))).bmod (2 ^ 32)

/-- `std::stoi`: the whole number at the start, if there is one and it fits an `int`. -/
def stoi (s : Bytes) : Except StdException Int :=
  match strtol (cStr s) with
  | none => .error .invalidArgument
  | some v => if -2 ^ 31 ≤ v ∧ v ≤ 2 ^ 31 - 1 then .ok v else .error .outOfRange

def toUint16 (v : Int) : UInt16 := UInt16.ofNat (v % 65536).toNat

/-- `std::to_string` of an unsigned number. -/
def stdToString (n : Nat) : Bytes := Numeral.numeral n

/-! ## Positions in strings -/

def npos : UInt64 := -1

/-- `std::string::find` of one character. -/
def strFind (s : Bytes) (c : UInt8) : UInt64 := if c ∈ s then UInt64.ofNat (s.idxOf c) else npos

/-- `std::string::substr`. -/
def substr (s : Bytes) (pos n : UInt64) : Except StdException Bytes :=
  if s.length < pos.toNat then .error .outOfRange else .ok ((s.drop pos.toNat).take n.toNat)

/-! ## Addresses -/

/-- An IPv4 `in_addr`, its bytes in network order. -/
structure InAddr where
  a : UInt8
  b : UInt8
  c : UInt8
  d : UInt8
  deriving DecidableEq, Repr

def inaddrAny : InAddr := ⟨0, 0, 0, 0⟩

/-- `inet_ntoa`, and `inet_ntop` for `AF_INET`: the dotted address. -/
def inetNtoa (x : InAddr) : Bytes :=
  stdToString x.a.toNat ++ lit "." ++ stdToString x.b.toNat ++ lit "." ++ stdToString x.c.toNat ++ lit "." ++
    stdToString x.d.toNat

/-- `htons` on a little-endian host: the two bytes change places. -/
def htons (x : UInt16) : UInt16 := UInt16.ofNat (x.toNat % 256 * 256 + x.toNat / 256)

def ntohs (x : UInt16) : UInt16 := htons x

/-! ## What the program relies on -/

/-! ### Numbers -/

theorem toNat_htons (x : UInt16) : (htons x).toNat = x.toNat % 256 * 256 + x.toNat / 256 := by
  have hx := x.toNat_lt
  have hsize : UInt16.size = 65536 := rfl
  exact UInt16.toNat_ofNat_of_lt' (by omega)

theorem ntohs_htons (x : UInt16) : ntohs (htons x) = x := by
  have hx := x.toNat_lt
  apply UInt16.toNat_inj.1
  unfold ntohs
  rw [toNat_htons, toNat_htons]
  omega

theorem toUint16_natCast (x : UInt16) : toUint16 (x.toNat : Int) = x := by
  have hx := x.toNat_lt
  have : ((x.toNat : Int) % 65536).toNat = x.toNat := by omega
  unfold toUint16
  rw [this, UInt16.ofNat_toNat]

theorem isspace_of_isDigit (b : UInt8) (h : Numeral.isDigit b = true) : isspace b = false := by
  simp only [Numeral.isDigit, isspace, Bool.and_eq_true, decide_eq_true_eq, UInt8.le_iff_toNat_le] at *
  have : b ≠ 32 := by rintro rfl; simp at h
  simp [this]
  simp at h
  omega

theorem isWord_stdToString (n : Nat) : Scan.IsWord isspace (stdToString n) :=
  ⟨Numeral.numeral_ne_nil n, fun b hb => isspace_of_isDigit b (Numeral.isDigit_of_mem_numeral n b hb)⟩

theorem ne_zero_of_isDigit (b : UInt8) (h : Numeral.isDigit b = true) : b ≠ 0 := by
  rintro rfl; exact absurd h (by decide)

theorem isPrefix_cStr (s : Bytes) : cStr s <+: s := List.takeWhile_prefix _

theorem length_ne_zero_of_cStr {s : Bytes} (h : cStr s ≠ []) : s.length ≠ 0 := by
  intro h0
  rw [List.length_eq_zero_iff.1 h0] at h
  exact h rfl

theorem cStr_of_ne_zero (s : Bytes) (h : ∀ b ∈ s, b ≠ 0) : cStr s = s :=
  List.takeWhile_eq_self_iff.2 (fun b hb => by simpa using h b hb)

/-- **`strtol` reads digits whole.** -/
theorem strtol_digits {ds : Bytes} (hne : ds ≠ []) (hdig : ∀ b ∈ ds, Numeral.isDigit b = true) :
    strtol ds = some (Numeral.value ds : Int) := by
  unfold strtol
  cases ds with
  | nil => exact absurd rfl hne
  | cons b ds =>
    have hb := hdig b List.mem_cons_self
    have hdrop : (b :: ds).dropWhile isspace = b :: ds :=
      List.dropWhile_cons_of_neg (by simp [isspace_of_isDigit b hb])
    have htake : (b :: ds).takeWhile Numeral.isDigit = b :: ds := List.takeWhile_eq_self_iff.2 hdig
    have hminus : b ≠ 45 := by rintro rfl; exact absurd hb (by decide)
    have hplus : b ≠ 43 := by rintro rfl; exact absurd hb (by decide)
    simp [hdrop, hminus, hplus, htake]

theorem strtol_stdToString (n : Nat) : strtol (stdToString n) = some (n : Int) := by
  rw [stdToString, strtol_digits (Numeral.numeral_ne_nil n) (Numeral.isDigit_of_mem_numeral n), Numeral.value_numeral]

/-- `atoi` is exact on digits that fit an `int`. -/
theorem atoi_digits {ds : Bytes} (hne : ds ≠ []) (hdig : ∀ b ∈ ds, Numeral.isDigit b = true)
    (hfit : Numeral.value ds ≤ 2147483647) : atoi (cStr ds) = Numeral.value ds := by
  rw [cStr_of_ne_zero _ (fun b hb => ne_zero_of_isDigit b (hdig b hb)), atoi, strtol_digits hne hdig]
  dsimp only
  rw [min_eq_left (by omega), max_eq_right (by omega)]
  exact Int.bmod_eq_of_le (by omega) (by omega)

theorem toNat_toUint16 (v : Int) : (toUint16 v).toNat = (v % 65536).toNat := by
  have hsize : UInt16.size = 65536 := rfl
  exact UInt16.toNat_ofNat_of_lt' (by omega)

theorem toNat_toUint16_of_le {n : Nat} (h : n ≤ 65535) : (toUint16 (n : Int)).toNat = n := by
  rw [toNat_toUint16]
  omega

theorem toUint16_eq_zero {v : Int} : toUint16 v = 0 ↔ v % 65536 = 0 := by
  rw [← UInt16.toNat_inj, toNat_toUint16, show (0 : UInt16).toNat = 0 from rfl]
  omega

/-! ### Positions -/

theorem substr_append (a b c : Bytes) {pos n : UInt64} (hpos : pos.toNat = a.length) (hn : n.toNat = b.length) :
    substr (a ++ b ++ c) pos n = .ok b := by
  unfold substr
  rw [hpos, hn, if_neg (by simp), List.append_assoc, List.drop_left, List.take_left]

theorem substr_rest (a b : Bytes) {pos n : UInt64} (hpos : pos.toNat = a.length) (hn : b.length ≤ n.toNat) :
    substr (a ++ b) pos n = .ok b := by
  unfold substr
  rw [hpos, if_neg (by simp), List.drop_left, List.take_of_length_le hn]

theorem strFind_append (a b : Bytes) {c : UInt8} (h : c ∉ a) : strFind (a ++ c :: b) c = UInt64.ofNat a.length := by
  unfold strFind
  rw [if_pos (by simp), List.idxOf_append, if_neg h]
  simp

/-! ### Addresses -/

theorem mem_inetNtoa (x : InAddr) (b : UInt8) (h : b ∈ inetNtoa x) : Numeral.isDigit b = true ∨ b = 46 := by
  have hdot : lit "." = [46] := rfl
  simp only [inetNtoa, hdot, List.mem_append, List.mem_singleton] at h
  rcases h with ((((((h | h) | h) | h) | h) | h) | h)
  all_goals first | exact .inr h | exact .inl (Numeral.isDigit_of_mem_numeral _ b h)

theorem length_inetNtoa_le (x : InAddr) : (inetNtoa x).length ≤ 15 := by
  have hpart : ∀ y : UInt8, (stdToString y.toNat).length ≤ 3 := fun y =>
    Numeral.length_numeral_le 2 y.toNat (by have := y.toNat_lt; omega)
  have hdot : (lit ".").length = 1 := rfl
  have := hpart x.a
  have := hpart x.b
  have := hpart x.c
  have := hpart x.d
  simp only [inetNtoa, List.length_append, hdot]
  omega

end ChatRoom
