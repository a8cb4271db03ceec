/-
Decimal numbers of fixed width, as bytes.

* `padDigits`: the digits of a number, padded with zeros;
* `intToStringDigits`: what `sprintf` with `"%0*d"` prints, which is longer than
  the width when the number is;
* `isDigit`, `atoi`: the digit test, and the value of the leading digits;
* `atoi_padDigits`: the round trip;
* `scanInt`: what `atoi` finds in memory, as far as the memory reaches;
* `scanInt_append`, `scanInt_append_digits`, `scanInt_append_zero`: bytes behind
  the end of a number do not matter, and those behind an open one do.
-/
import Mathlib.Tactic
import Mathlib.Data.List.TakeWhile

namespace Decimals

/-- The last `n` decimal digits of a number, the highest first. -/
def padDigits : ℕ → ℕ → List UInt8
  | 0, _ => []
  | n + 1, v => padDigits n (v / 10) ++ [UInt8.ofNat (48 + v % 10)]

/-- A number in decimal, padded with zeros to the given width. -/
def intToStringDigits (number numOfDigits : ℕ) : List UInt8 :=
  padDigits (max numOfDigits (Nat.log 10 number + 1)) number

/-- `isdigit`. -/
def isDigit (b : UInt8) : Bool := 48 ≤ b.toNat && b.toNat ≤ 57

/-- `atoi`: the value of the digits at the beginning. -/
def atoi (bs : List UInt8) : ℕ :=
  (bs.takeWhile isDigit).foldl (fun v b => v * 10 + (b.toNat - 48)) 0

@[simp] lemma length_padDigits (n v : ℕ) : (padDigits n v).length = n := by
  induction n generalizing v with
  | zero => rfl
  | succ n ih => simp [padDigits, ih]

lemma toNat_digit (v : ℕ) : (UInt8.ofNat (48 + v % 10)).toNat = 48 + v % 10 :=
  UInt8.toNat_ofNat_of_lt' (by simp [UInt8.size]; omega)

lemma isDigit_of_mem_padDigits {n v : ℕ} {b : UInt8} (h : b ∈ padDigits n v) :
    isDigit b = true := by
  induction n generalizing v with
  | zero => simp [padDigits] at h
  | succ n ih =>
      rw [padDigits, List.mem_append, List.mem_singleton] at h
      rcases h with h | rfl
      · exact ih h
      · rw [isDigit, toNat_digit]
        simp
        omega

lemma takeWhile_isDigit {bs : List UInt8} (h : ∀ b ∈ bs, isDigit b = true) :
    bs.takeWhile isDigit = bs :=
  List.takeWhile_eq_self_iff.mpr h

/-- A digit behind digits. -/
lemma atoi_concat {bs : List UInt8} {b : UInt8} (h : ∀ c ∈ bs ++ [b], isDigit c = true) :
    atoi (bs ++ [b]) = atoi bs * 10 + (b.toNat - 48) := by
  have hbs : ∀ c ∈ bs, isDigit c = true := fun c hc => h c (List.mem_append_left _ hc)
  rw [atoi, takeWhile_isDigit h, atoi, takeWhile_isDigit hbs, List.foldl_append]
  rfl

/-- The value of the digits is the number, if there are enough of them. -/
theorem atoi_padDigits {n v : ℕ} (h : v < 10 ^ n) : atoi (padDigits n v) = v := by
  induction n generalizing v with
  | zero =>
      obtain rfl : v = 0 := by simpa using h
      rfl
  | succ n ih =>
      have hv : v / 10 < 10 ^ n := Nat.div_lt_of_lt_mul (by rwa [← pow_succ'])
      have hall : ∀ b ∈ padDigits (n + 1) v, isDigit b = true := fun _ => isDigit_of_mem_padDigits
      rw [padDigits] at hall ⊢
      rw [atoi_concat hall, ih hv, toNat_digit]
      omega

/-- A number that fits is printed with the given width. -/
lemma intToStringDigits_eq {number n : ℕ} (hn : n ≠ 0) (h : number < 10 ^ n) :
    intToStringDigits number n = padDigits n number := by
  have hlog : Nat.log 10 number + 1 ≤ n := Nat.log_lt_of_lt_pow' hn h
  rw [intToStringDigits, max_eq_left hlog]

/-! ### Numbers in memory -/

/-- `isspace`. -/
def isSpace (b : UInt8) : Bool := b.toNat = 32 || (9 ≤ b.toNat && b.toNat ≤ 13)

/-- Is there a minus sign, and what follows the sign, if there is one? -/
def afterSign (bs : List UInt8) : Bool × List UInt8 :=
  if bs.head? = some 45 then (true, bs.tail)
  else if bs.head? = some 43 then (false, bs.tail)
  else (false, bs)

/-- The number with a sign, clamped to 64 bits. -/
def clamp64 (negative : Bool) (m : ℕ) : ℤ :=
  if negative then max (-2 ^ 63) (-m) else min (2 ^ 63 - 1) m

/-- `atoi` as it is used on memory, that is, `strtol` with the base 10: white space, a sign, and
digits up to a byte that is none, where the value is clamped to 64 bits.  It is `none` if the bytes
do not reach as far as the end of the number. -/
def scanInt (bs : List UInt8) : Option ℤ :=
  let (negative, digits) := afterSign (bs.dropWhile isSpace)
  if digits.all isDigit then none
  else some (clamp64 negative (atoi digits))

section

variable {bs : List UInt8}

lemma afterSign_append (h : bs ≠ []) (rest : List UInt8) :
    afterSign (bs ++ rest) = ((afterSign bs).1, (afterSign bs).2 ++ rest) := by
  cases bs with
  | nil => exact absurd rfl h
  | cons b bs =>
      rw [afterSign, afterSign, List.cons_append, List.head?_cons, List.head?_cons]
      by_cases hminus : some b = some 45
      · simp [hminus]
      · by_cases hplus : some b = some 43 <;> simp [hminus, hplus]

lemma takeWhile_append_of_not_all (h : bs.all isDigit = false) (rest : List UInt8) :
    (bs ++ rest).takeWhile isDigit = bs.takeWhile isDigit := by
  induction bs with
  | nil => simp at h
  | cons b bs ih =>
      rw [List.cons_append, List.takeWhile_cons, List.takeWhile_cons]
      cases hb : isDigit b with
      | false => rfl
      | true =>
          rw [List.all_cons, hb, Bool.true_and] at h
          simp [ih h]

/-- What is behind the white space. -/
lemma dropWhile_append_of_ne_nil (h : bs.dropWhile isSpace ≠ []) (rest : List UInt8) :
    (bs ++ rest).dropWhile isSpace = bs.dropWhile isSpace ++ rest := by
  rw [List.dropWhile_append, if_neg (by simpa using h)]

/-- A number that ends is the same whatever follows. -/
theorem scanInt_append {v : ℤ} (h : scanInt bs = some v) (rest : List UInt8) :
    scanInt (bs ++ rest) = some v := by
  have hne : bs.dropWhile isSpace ≠ [] := by
    intro hnil
    simp [scanInt, hnil, afterSign] at h
  simp only [scanInt, dropWhile_append_of_ne_nil hne, afterSign_append hne] at h ⊢
  split_ifs at h with hall
  have hend : (afterSign (bs.dropWhile isSpace)).2.all isDigit = false := by simpa using hall
  have hatoi : atoi ((afterSign (bs.dropWhile isSpace)).2 ++ rest)
      = atoi (afterSign (bs.dropWhile isSpace)).2 := by
    rw [atoi, takeWhile_append_of_not_all hend, atoi]
  rw [List.all_append, hend, Bool.false_and, if_neg (by simp), hatoi]
  exact h

/-- A number that is open goes on with digits. -/
theorem scanInt_append_digits (h : scanInt bs = none) {rest : List UInt8}
    (hrest : rest.all isDigit = true) : scanInt (bs ++ rest) = none := by
  rcases eq_or_ne (bs.dropWhile isSpace) [] with hnil | hne
  · have hdigit : rest.dropWhile isSpace = rest ∧ afterSign rest = (false, rest) := by
      cases rest with
      | nil => exact ⟨rfl, rfl⟩
      | cons b rest =>
          have hb : 48 ≤ b.toNat ∧ b.toNat ≤ 57 := by
            simpa [isDigit] using List.all_eq_true.mp hrest b List.mem_cons_self
          have hspace : isSpace b = false := by
            simp only [isSpace, Bool.or_eq_false_iff, Bool.and_eq_false_iff,
              decide_eq_false_iff_not]
            omega
          have hsign : b ≠ 45 ∧ b ≠ 43 := by
            constructor <;> (rintro rfl; exact absurd hb.1 (by decide))
          simp [hspace, afterSign, hsign]
    rw [scanInt, List.dropWhile_append, if_pos (by simpa using hnil), hdigit.1, hdigit.2]
    simp [hrest]
  · simp only [scanInt, dropWhile_append_of_ne_nil hne, afterSign_append hne] at h ⊢
    split_ifs at h with hall
    rw [List.all_append, hall, hrest, Bool.true_and, if_pos rfl]

/-- A number ends with a byte `0`, or before it. -/
theorem scanInt_append_zero (bs rest : List UInt8) :
    (scanInt (bs ++ 0 :: rest)).isSome = true := by
  rcases eq_or_ne (bs.dropWhile isSpace) [] with hnil | hne
  · have hzero : (0 :: rest).dropWhile isSpace = 0 :: rest := by simp [isSpace]
    rw [scanInt, List.dropWhile_append, if_pos (by simpa using hnil), hzero]
    simp [afterSign, isDigit]
  · simp only [scanInt, dropWhile_append_of_ne_nil hne, afterSign_append hne]
    have hall : ((afterSign (bs.dropWhile isSpace)).2 ++ 0 :: rest).all isDigit = false := by
      simp [isDigit]
    rw [hall, if_neg (by simp)]
    rfl

end

end Decimals
