/-
# Reading and writing integers

`myatoi` of `src/util/ezio.cc` is `strtol` with its two error checks; the filter
uses `std::stoi`, which is `strtol` with others.  `strtol` follows the C standard
in the "C" locale: leading white space, an optional sign, for base 16 an optional
`0x` that is taken only when a digit follows, and the longest run of digits, with
`ERANGE` when the value does not fit a `long`.
-/

import V2Proxy.Util.Bytes
import Mathlib.Data.Nat.Digits.Defs

namespace V2Proxy

/-- `isspace`. -/
def isSpace (c : UInt8) : Bool := c = 32 || (9 ≤ c && c ≤ 13)

/-- The value of a digit character in the given base. -/
def digitValue (base : ℕ) (c : UInt8) : Option ℕ :=
  let v := if 48 ≤ c && c ≤ 57 then c.toNat - 48
    else if 97 ≤ c && c ≤ 122 then c.toNat - 87
    else if 65 ≤ c && c ≤ 90 then c.toNat - 55
    else base
  if v < base then some v else none

/-- The number a run of digits denotes. -/
def digitsValue (base : ℕ) (ds : Bytes) : ℕ :=
  ds.foldl (fun acc c => acc * base + (digitValue base c).getD 0) 0

/-- What `strtol` reports: the value, the distance of `endptr`, and `ERANGE`. -/
structure Strtol where
  value : ℤ
  consumed : ℕ
  erange : Bool

/-- Does `0x` and a hexadecimal digit stand here? -/
def hexPrefix : Bytes → Bool
  | 48 :: x :: d :: _ => (x = 120 || x = 88) && (digitValue 16 d).isSome
  | _ => false

/-- `strtol( s, &end, base )`. -/
def strtol (s : Bytes) (base : ℕ) : Strtol :=
  let spaces := (s.takeWhile isSpace).length
  let signed := s.drop spaces
  let negative := signed.head? = some 45
  let sign := if signed.head? = some 45 ∨ signed.head? = some 43 then 1 else 0
  let unsigned := signed.drop sign
  let skip := if base = 16 ∧ hexPrefix unsigned = true then 2 else 0
  let ds := (unsigned.drop skip).takeWhile fun c => (digitValue base c).isSome
  let magnitude : ℤ := digitsValue base ds
  let value := if negative then -magnitude else magnitude
  if ds = [] then ⟨0, 0, false⟩
  else if value < -2 ^ 63 then ⟨-2 ^ 63, spaces + sign + skip + ds.length, true⟩
  else if 2 ^ 63 ≤ value then ⟨2 ^ 63 - 1, spaces + sign + skip + ds.length, true⟩
  else ⟨value, spaces + sign + skip + ds.length, false⟩

/-- `myatoi( str, base )`. -/
def myatoi (str : Bytes) (base : ℕ) : Except Fault ℤ :=
  if str = [] then .error (.runtimeError (ascii "Invalid integer string: empty"))
  else
    let r := strtol str base
    if r.erange then .error (.unixError (ascii "strtol"))
    else if r.consumed ≠ str.length then
      .error (.runtimeError (ascii "Invalid integer: " ++ str))
    else .ok r.value

/-- `std::stoi( str )`. -/
def stoi (str : Bytes) : Except Fault ℤ :=
  let r := strtol str 10
  if r.consumed = 0 then .error (.invalidArgument (ascii "stoi"))
  else if r.erange ∨ r.value < -2 ^ 31 ∨ 2 ^ 31 ≤ r.value then
    .error (.outOfRange (ascii "stoi"))
  else .ok r.value

/-- The digits of `std::to_string` for a number that is not negative. -/
def decimal (n : ℕ) : Bytes :=
  if n = 0 then [48] else (Nat.digits 10 n).reverse.map fun d => 48 + UInt8.ofNat d

/-- `std::to_string( int )`. -/
def toDecimal (z : ℤ) : Bytes :=
  if z < 0 then 45 :: decimal z.natAbs else decimal z.natAbs

theorem digitValue_decimal : ∀ d < 10, digitValue 10 (48 + UInt8.ofNat d) = some d := by
  decide

theorem digitsValue_append (base : ℕ) (ds : Bytes) (c : UInt8) :
    digitsValue base (ds ++ [c]) = digitsValue base ds * base + (digitValue base c).getD 0 := by
  simp [digitsValue]

/-- The digits of `decimal`, least significant first. -/
theorem digitsValue_reverse_map {ds : List ℕ} (h : ∀ d ∈ ds, d < 10) :
    digitsValue 10 (ds.reverse.map fun d => 48 + UInt8.ofNat d) = Nat.ofDigits 10 ds := by
  induction ds with
  | nil => rfl
  | cons d ds ih =>
      rw [List.reverse_cons, List.map_append, List.map_singleton, digitsValue_append,
        ih fun d' hd' => h d' (List.mem_cons_of_mem d hd'), digitValue_decimal d (h d (by simp)),
        Nat.ofDigits_cons, Option.getD_some]
      omega

/-- **`std::to_string` writes digits that denote the number.** -/
theorem digitsValue_decimal (n : ℕ) : digitsValue 10 (decimal n) = n := by
  rw [decimal]
  split_ifs with h
  · rw [h]
    rfl
  · rw [digitsValue_reverse_map fun d hd => Nat.digits_lt_base (by norm_num) hd,
      Nat.ofDigits_digits]

theorem isSome_of_mem_decimal {n : ℕ} {c : UInt8} (h : c ∈ decimal n) :
    (digitValue 10 c).isSome := by
  rw [decimal] at h
  split_ifs at h with hn
  · rw [List.mem_singleton.1 h]
    rfl
  · obtain ⟨d, hd, rfl⟩ := List.mem_map.1 h
    have hlt := Nat.digits_lt_base (by norm_num) (List.mem_reverse.1 hd)
    rw [digitValue_decimal d hlt]
    rfl

theorem decimal_ne_nil (n : ℕ) : decimal n ≠ [] := by
  rw [decimal]
  split_ifs with h
  · simp
  · simpa using Nat.digits_ne_nil_iff_ne_zero.2 h

theorem toDecimal_of_nonneg {z : ℤ} (h : 0 ≤ z) : toDecimal z = decimal z.natAbs :=
  if_neg (by omega)

/-- The decimal digits. -/
theorem isSome_digitValue {c : UInt8} : (digitValue 10 c).isSome ↔ 48 ≤ c ∧ c ≤ 57 := by
  have hlow : (48 : UInt8) ≤ c ↔ 48 ≤ c.toNat := UInt8.le_iff_toNat_le
  have hhigh : c ≤ (57 : UInt8) ↔ c.toNat ≤ 57 := UInt8.le_iff_toNat_le
  have hsmall : (97 : UInt8) ≤ c ↔ 97 ≤ c.toNat := UInt8.le_iff_toNat_le
  have hlarge : (65 : UInt8) ≤ c ↔ 65 ≤ c.toNat := UInt8.le_iff_toNat_le
  simp only [digitValue, Bool.and_eq_true, decide_eq_true_eq, hlow, hhigh, hsmall, hlarge]
  split_ifs <;> simp <;> omega

theorem isSpace_of_digit {c : UInt8} (h : (digitValue 10 c).isSome) : isSpace c = false := by
  have hlow : 48 ≤ c.toNat := UInt8.le_iff_toNat_le.1 (isSome_digitValue.1 h).1
  have hspace : c ≠ 32 := by
    rintro rfl
    exact absurd hlow (by decide)
  have hhigh : ¬ c ≤ 13 := by
    rw [UInt8.le_iff_toNat_le]
    change ¬ c.toNat ≤ 13
    omega
  simp [isSpace, hspace, hhigh]

/-- **`std::stoi` reads the digits in front.** -/
theorem stoi_digits {ds rest : Bytes} (hne : ds ≠ []) (hds : ∀ c ∈ ds, (digitValue 10 c).isSome)
    (hrest : ∀ c, rest.head? = some c → digitValue 10 c = none)
    (hmax : digitsValue 10 ds < 2 ^ 31) : stoi (ds ++ rest) = .ok (digitsValue 10 ds) := by
  obtain ⟨d, ds', rfl⟩ := List.exists_cons_of_ne_nil hne
  have hd := hds d (by simp)
  have hspaces : ((d :: ds') ++ rest).takeWhile isSpace = [] := by
    rw [List.cons_append, List.takeWhile_cons_of_neg (by rw [isSpace_of_digit hd]; decide)]
  have hlow : 48 ≤ d.toNat := UInt8.le_iff_toNat_le.1 (isSome_digitValue.1 hd).1
  have hminus : d ≠ 45 := by
    rintro rfl
    exact absurd hlow (by decide)
  have hplus : d ≠ 43 := by
    rintro rfl
    exact absurd hlow (by decide)
  have htake : ((d :: ds') ++ rest).takeWhile (fun c => (digitValue 10 c).isSome) = d :: ds' :=
    Foundations.takeWhile_append_of_head? hds fun c hc => by rw [hrest c hc, Option.isSome_none]
  have hstrtol : strtol ((d :: ds') ++ rest) 10 =
      ⟨digitsValue 10 (d :: ds'), (d :: ds').length, false⟩ := by
    have hhead : ((d :: ds') ++ rest).head? = some d := rfl
    simp only [strtol, hspaces, List.length_nil, List.drop_zero, hhead, Option.some.injEq, hminus,
      hplus, or_self, if_false, htake, Nat.reduceEqDiff, false_and,
      Nat.zero_add, reduceCtorEq]
    have hlower : ¬ (digitsValue 10 (d :: ds') : ℤ) < -2 ^ 63 := by omega
    have hupper : ¬ 2 ^ 63 ≤ (digitsValue 10 (d :: ds') : ℤ) := by omega
    rw [if_neg hlower, if_neg hupper]
  rw [stoi, hstrtol]
  dsimp only
  rw [if_neg (by simp), if_neg (by simp; omega)]

example : myatoi (ascii " +0x1F") 16 = .ok 31 ∧
    myatoi (ascii "0x") 16 = .error (.runtimeError (ascii "Invalid integer: 0x")) ∧
    stoi (ascii "12&MinCount=1") = .ok 12 ∧ toDecimal (-120) = ascii "-120" := by
  decide +kernel

end V2Proxy
