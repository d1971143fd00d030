/-
# The numbers and fields of Perl

What the scripts use of the language: a text as a number, the test whether it looks like
one, and `split /\s+/`.  Numbers are exact rationals; infinities and NaNs, which are
numbers to Perl, are left out.

A script that dies is `error` with the message of `die`, without the place that Perl adds
to it.
-/

import V2Proxy.Util.Ezio
import Mathlib.Data.Rat.Defs

namespace V2Proxy
namespace Perl

/-- `\d`. -/
def isDigit (c : UInt8) : Bool := (digitValue 10 c).isSome

/-- A sign, and what stands behind it. -/
def scanSign (s : Bytes) : Bool × Bytes :=
  match s with
  | 45 :: rest => (true, rest)
  | 43 :: rest => (false, rest)
  | _ => (false, s)

/-- `e`, a sign and digits; without them there is no exponent. -/
def scanExponent (s : Bytes) : ℤ × Bytes :=
  match s with
  | c :: rest =>
      let (negative, unsigned) := scanSign rest
      let ds := unsigned.takeWhile isDigit
      if (c = 101 ∨ c = 69) ∧ ds ≠ [] then
        (if negative then -(digitsValue 10 ds : ℤ) else digitsValue 10 ds, unsigned.drop ds.length)
      else (0, s)
  | [] => (0, s)

/-- The digits behind a decimal point, and what stands behind them. -/
def scanFraction (s : Bytes) : Bytes × Bytes :=
  match s with
  | 46 :: rest => (rest.takeWhile isDigit, rest.dropWhile isDigit)
  | _ => ([], s)

/-- The number at the start of a text, and what stands behind it. -/
def scanNumber (s : Bytes) : Option (ℚ × Bytes) :=
  let (negative, unsigned) := scanSign (s.dropWhile isSpace)
  let whole := unsigned.takeWhile isDigit
  let (fraction, rest) := scanFraction (unsigned.dropWhile isDigit)
  if whole = [] ∧ fraction = [] then none
  else
    let (exponent, rest) := scanExponent rest
    let magnitude : ℚ := digitsValue 10 (whole ++ fraction) * 10 ^ (exponent - fraction.length)
    some (if negative then -magnitude else magnitude, rest)

/-- A text as a number: what it begins with, or zero. -/
def numify (s : Bytes) : ℚ := (scanNumber s).elim 0 (·.1)

/-- `looks_like_number` of `Scalar::Util`. -/
def looksLikeNumber (s : Bytes) : Bool :=
  s = ascii "0 but true" || (scanNumber s).any fun r => r.2.all isSpace

/-- `split /\s+/`: white space at the start or the end gives an empty field. -/
def fields : Bytes → List Bytes
  | [] => [[]]
  | c :: s =>
      if isSpace c then
        if s.head?.any isSpace then fields s else [] :: fields s
      else (fields s).modifyHead (c :: ·)

/-- A field ends at the white space behind it. -/
theorem fields_append_space {field s : Bytes} (hfield : ∀ c ∈ field, isSpace c = false)
    (hs : s.head?.any isSpace = false) : fields (field ++ 32 :: s) = field :: fields s := by
  induction field with
  | nil =>
      change fields (32 :: s) = _
      rw [fields, if_pos (by decide), if_neg (by simp [hs])]
  | cons c field ih =>
      rw [List.cons_append, fields, if_neg (by simp [hfield c List.mem_cons_self]),
        ih fun d hd => hfield d (List.mem_cons_of_mem c hd), List.modifyHead_cons]

theorem fields_eq_singleton {field : Bytes} (hfield : ∀ c ∈ field, isSpace c = false) :
    fields field = [field] := by
  induction field with
  | nil => rfl
  | cons c field ih =>
      rw [fields, if_neg (by simp [hfield c List.mem_cons_self]),
        ih fun d hd => hfield d (List.mem_cons_of_mem c hd), List.modifyHead_cons]

/-- **Words with a space between them are the fields.** -/
theorem fields_intercalate {words : List Bytes} (hne : words ≠ [])
    (hwords : ∀ word ∈ words, word ≠ [] ∧ ∀ c ∈ word, isSpace c = false) :
    fields (([32] : Bytes).intercalate words) = words := by
  induction words with
  | nil => exact absurd rfl hne
  | cons word words ih =>
      obtain ⟨hword, hwords⟩ := List.forall_mem_cons.1 hwords
      rcases words with _ | ⟨next, words⟩
      · rw [List.intercalate_singleton, fields_eq_singleton hword.2]
      · have hnext := hwords next List.mem_cons_self
        obtain ⟨c, rest, hc⟩ := List.exists_cons_of_ne_nil hnext.1
        have hhead : (([32] : Bytes).intercalate (next :: words)).head?.any isSpace = false := by
          have hspace : isSpace c = false := hnext.2 c (hc ▸ List.mem_cons_self)
          rcases words with _ | ⟨_, _⟩
          · simp [hc, hspace]
          · simp [List.intercalate_cons_cons, hc, hspace]
        rw [List.intercalate_cons_cons, List.append_assoc, List.singleton_append,
          fields_append_space hword.2 hhead, ih (List.cons_ne_nil _ _) hwords]

/-- **The number that digits write.** -/
theorem numify_digits {ds : Bytes} (hne : ds ≠ []) (hds : ∀ c ∈ ds, (digitValue 10 c).isSome) :
    numify ds = digitsValue 10 ds := by
  obtain ⟨d, ds', rfl⟩ := List.exists_cons_of_ne_nil hne
  have hd := hds d List.mem_cons_self
  have hspaces : (d :: ds').dropWhile isSpace = d :: ds' := by
    rw [List.dropWhile_cons_of_neg (by rw [isSpace_of_digit hd]; decide)]
  have hsign : scanSign (d :: ds') = (false, d :: ds') := by
    have hlow : 48 ≤ d := (isSome_digitValue.1 hd).1
    unfold scanSign
    split
    · rename_i heq
      cases heq
      exact absurd hlow (by decide)
    · rename_i heq
      cases heq
      exact absurd hlow (by decide)
    · rfl
  have htake : (d :: ds').takeWhile isDigit = d :: ds' := List.takeWhile_eq_self_iff.2 hds
  have hdrop : (d :: ds').dropWhile isDigit = [] := List.dropWhile_eq_nil_iff.2 hds
  rw [numify, scanNumber, hspaces]
  simp [hsign, htake, hdrop, scanFraction, scanExponent]

example : numify (ascii "12.5e-1kbit") = 5 / 4 ∧ looksLikeNumber (ascii " -.5 ") = true ∧
    looksLikeNumber (ascii "0x10") = false ∧
    fields (ascii "17  - 1504 ") = [ascii "17", ascii "-", ascii "1504", []] := by
  decide +kernel

end Perl
end V2Proxy
