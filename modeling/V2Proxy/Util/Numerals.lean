/-
# The integers that `myatoi` accepts

`myatoi` is `strtol` with two checks: the whole string must be a number, and the number
must fit a `long`.  `Denotes base s z` is the grammar of `strtol` as a relation: white
space, a sign, for base 16 an optional `0x`, and digits.  `myatoi` returns the number
that the string denotes, if it denotes one and that is a `long` (`myatoi_eq_ok_iff`).
-/

import V2Proxy.Util.Ezio
import Mathlib.Data.List.TakeWhile

namespace V2Proxy

/-- The string is white space, a sign, a base prefix and digits, and stands for `z`. -/
def Denotes (base : ℕ) (s : Bytes) (z : ℤ) : Prop :=
  ∃ spaces sign pre ds : Bytes, s = spaces ++ (sign ++ (pre ++ ds)) ∧
    (∀ c ∈ spaces, isSpace c = true) ∧ (sign = [] ∨ sign = ascii "+" ∨ sign = ascii "-") ∧
    (pre = [] ∨ base = 16 ∧ (pre = ascii "0x" ∨ pre = ascii "0X")) ∧
    ds ≠ [] ∧ (∀ c ∈ ds, (digitValue base c).isSome = true) ∧
    z = if sign = ascii "-" then -(digitsValue base ds : ℤ) else digitsValue base ds

theorem ascii_plus : ascii "+" = [43] := by decide

theorem ascii_minus : ascii "-" = [45] := by decide

theorem ascii_0x : ascii "0x" = [48, 120] := by decide

theorem ascii_0X : ascii "0X" = [48, 88] := by decide

/-- A digit comes after the white space and the signs. -/
theorem le_of_isSome_digitValue {base : ℕ} {c : UInt8} (h : (digitValue base c).isSome = true) :
    48 ≤ c.toNat := by
  have h48 : (48 : UInt8) ≤ c ↔ 48 ≤ c.toNat := UInt8.le_iff_toNat_le
  have h97 : (97 : UInt8) ≤ c ↔ 97 ≤ c.toNat := UInt8.le_iff_toNat_le
  have h65 : (65 : UInt8) ≤ c ↔ 65 ≤ c.toNat := UInt8.le_iff_toNat_le
  by_contra hlt
  have hvalue : digitValue base c = none := by
    simp only [digitValue, Bool.and_eq_true, decide_eq_true_eq, h48, h97, h65]
    rw [if_neg (show ¬ (48 ≤ c.toNat ∧ c ≤ 57) by omega),
      if_neg (show ¬ (97 ≤ c.toNat ∧ c ≤ 122) by omega),
      if_neg (show ¬ (65 ≤ c.toNat ∧ c ≤ 90) by omega), if_neg (Nat.lt_irrefl base)]
  rw [hvalue] at h
  cases h

theorem not_isSpace_of_le {c : UInt8} (h : 33 ≤ c.toNat) : isSpace c = false := by
  have hspace : c ≠ 32 := by
    rintro rfl
    exact absurd h (by decide)
  have hhigh : ¬ c ≤ 13 := by
    rw [UInt8.le_iff_toNat_le]
    change ¬ c.toNat ≤ 13
    omega
  simp [isSpace, hspace, hhigh]

/-- The letter of the prefix is no digit. -/
theorem not_digit_of_hex {x : UInt8} (h : (digitValue 16 x).isSome = true) :
    (x = 120 || x = 88) = false := by
  rw [Bool.or_eq_false_iff, decide_eq_false_iff_not, decide_eq_false_iff_not]
  constructor
  · rintro rfl
    exact absurd h (by decide)
  · rintro rfl
    exact absurd h (by decide)

theorem eq_of_hexPrefix {s : Bytes} (h : hexPrefix s = true) :
    ∃ x t, s = 48 :: x :: t ∧ (x = 120 ∨ x = 88) := by
  rw [hexPrefix.eq_def] at h
  split at h
  · rename_i x d rest
    simp only [Bool.and_eq_true, Bool.or_eq_true, decide_eq_true_eq] at h
    exact ⟨x, d :: rest, rfl, h.1⟩
  · cases h

/-- What `strtol` reports of a number. -/
def report (consumed : ℕ) (z : ℤ) : Strtol :=
  if z < -2 ^ 63 then ⟨-2 ^ 63, consumed, true⟩
  else if 2 ^ 63 ≤ z then ⟨2 ^ 63 - 1, consumed, true⟩
  else ⟨z, consumed, false⟩

/-- The prefix is skipped just if it is there. -/
theorem skip_eq {base : ℕ} {pre ds : Bytes}
    (hpre : pre = [] ∨ base = 16 ∧ (pre = ascii "0x" ∨ pre = ascii "0X")) (hne : ds ≠ [])
    (hds : ∀ c ∈ ds, (digitValue base c).isSome = true) :
    (if base = 16 ∧ hexPrefix (pre ++ ds) = true then 2 else 0) = pre.length := by
  obtain ⟨d, ds', rfl⟩ := List.exists_cons_of_ne_nil hne
  have hd := hds d (by simp)
  rcases hpre with rfl | ⟨rfl, hpre⟩
  · refine if_neg ?_
    rintro ⟨rfl, hhex⟩
    rw [List.nil_append, hexPrefix.eq_def] at hhex
    split at hhex
    · rename_i x e rest heq
      obtain ⟨rfl, rfl⟩ := List.cons.inj heq
      rw [not_digit_of_hex (hds x (by simp))] at hhex
      cases hhex
    · cases hhex
  · rw [ascii_0x, ascii_0X] at hpre
    rcases hpre with rfl | rfl
    · exact if_pos ⟨rfl, by simp [hexPrefix, hd]⟩
    · exact if_pos ⟨rfl, by simp [hexPrefix, hd]⟩

/-- **`strtol` reads a number to its end.** -/
theorem Denotes.strtol_eq {base : ℕ} {s : Bytes} {z : ℤ} (h : Denotes base s z) :
    s ≠ [] ∧ strtol s base = report s.length z := by
  obtain ⟨spaces, sign, pre, ds, rfl, hspaces, hsign, hpre, hne, hds, hz⟩ := h
  have hskip := skip_eq hpre hne hds
  obtain ⟨d, ds', hcons⟩ := List.exists_cons_of_ne_nil hne
  have hd := le_of_isSome_digitValue (hds d (by rw [hcons]; simp))
  -- what follows the sign begins with a digit
  obtain ⟨c, rest, hc, hc48⟩ : ∃ c rest, pre ++ ds = c :: rest ∧ 48 ≤ c.toNat := by
    rw [ascii_0x, ascii_0X] at hpre
    rcases hpre with rfl | ⟨-, rfl | rfl⟩
    · exact ⟨d, ds', hcons, hd⟩
    · exact ⟨48, 120 :: ds, rfl, by decide⟩
    · exact ⟨48, 88 :: ds, rfl, by decide⟩
  have hc45 : c ≠ 45 := by
    rintro rfl
    exact absurd hc48 (by decide)
  have hc43 : c ≠ 43 := by
    rintro rfl
    exact absurd hc48 (by decide)
  obtain ⟨c', rest', hc', hc33⟩ : ∃ c' rest', sign ++ (pre ++ ds) = c' :: rest' ∧ 33 ≤ c'.toNat := by
    rw [ascii_plus, ascii_minus] at hsign
    rcases hsign with rfl | rfl | rfl
    · exact ⟨c, rest, hc, by omega⟩
    · exact ⟨43, pre ++ ds, rfl, by decide⟩
    · exact ⟨45, pre ++ ds, rfl, by decide⟩
  have htake : (spaces ++ (sign ++ (pre ++ ds))).takeWhile isSpace = spaces := by
    rw [List.takeWhile_append_of_pos hspaces, hc',
      List.takeWhile_cons_of_neg (by rw [not_isSpace_of_le hc33]; decide), List.append_nil]
  have hhead : (sign ++ (pre ++ ds)).head? = some 45 ↔ sign = ascii "-" := by
    rw [ascii_plus, ascii_minus] at hsign
    rw [ascii_minus]
    rcases hsign with rfl | rfl | rfl
    · simp [hc, hc45]
    · simp
    · simp
  have hsignLength : (if (sign ++ (pre ++ ds)).head? = some 45 ∨
      (sign ++ (pre ++ ds)).head? = some 43 then 1 else 0) = sign.length := by
    rw [ascii_plus, ascii_minus] at hsign
    rcases hsign with rfl | rfl | rfl
    · simp [hc, hc45, hc43]
    · simp
    · simp
  have hdigits : ds.takeWhile (fun c => (digitValue base c).isSome) = ds :=
    List.takeWhile_eq_self_iff.2 hds
  have hlength : (spaces ++ (sign ++ (pre ++ ds))).length =
      spaces.length + sign.length + pre.length + ds.length := by
    simp only [List.length_append]
    omega
  refine ⟨fun hnil => ?_, ?_⟩
  · rw [hnil, List.length_nil] at hlength
    have := List.length_pos_iff.2 hne
    omega
  · simp only [strtol, htake, List.drop_left, hsignLength]
    simp only [hskip, List.drop_left, hdigits, if_neg hne, hhead, report, hlength, ← hz]

/-- **A string that `strtol` reads to its end is a number.** -/
theorem denotes_of_strtol {base : ℕ} {s : Bytes} (hs : s ≠ [])
    (h : (strtol s base).consumed = s.length) : ∃ z, Denotes base s z := by
  obtain ⟨signed, hsigned⟩ := List.takeWhile_prefix (l := s) isSpace
  have hdrop : s.drop (s.takeWhile isSpace).length = signed := by
    have hdrops := congrArg (List.drop (s.takeWhile isSpace).length) hsigned
    rw [List.drop_left] at hdrops
    exact hdrops.symm
  set sign := if signed.head? = some 45 ∨ signed.head? = some 43 then 1 else 0 with hsign
  set unsigned := signed.drop sign with hunsigned
  set skip := if base = 16 ∧ hexPrefix unsigned = true then 2 else 0 with hskip
  set ds := (unsigned.drop skip).takeWhile fun c => (digitValue base c).isSome with hds
  have hconsumed : (strtol s base).consumed =
      if ds = [] then 0 else (s.takeWhile isSpace).length + sign + skip + ds.length := by
    simp only [strtol, hdrop, ← hsign, ← hunsigned, ← hskip, ← hds]
    split_ifs <;> rfl
  have hlength := congrArg List.length hsigned
  rw [List.length_append] at hlength
  have hpos := List.length_pos_iff.2 hs
  by_cases hne : ds = []
  · rw [hconsumed, if_pos hne] at h
    omega
  rw [hconsumed, if_neg hne] at h
  obtain ⟨rest, hrest⟩ := List.takeWhile_prefix (l := unsigned.drop skip)
    fun c => (digitValue base c).isSome
  -- the sign and the prefix are what was skipped
  obtain ⟨sgn, hsgn, hsplit, hlen⟩ : ∃ sgn, (sgn = [] ∨ sgn = ascii "+" ∨ sgn = ascii "-") ∧
      signed = sgn ++ unsigned ∧ sgn.length = sign := by
    rw [ascii_plus, ascii_minus]
    rcases signed with _ | ⟨c, t⟩
    · exact ⟨[], Or.inl rfl, by simp [hunsigned], by simp [hsign]⟩
    · by_cases h45 : c = 45
      · exact ⟨[45], Or.inr (Or.inr rfl), by simp [hunsigned, hsign, h45], by simp [hsign, h45]⟩
      · by_cases h43 : c = 43
        · exact ⟨[43], Or.inr (Or.inl rfl), by simp [hunsigned, hsign, h43], by simp [hsign, h43]⟩
        · exact ⟨[], Or.inl rfl, by simp [hunsigned, hsign, h45, h43], by simp [hsign, h45, h43]⟩
  obtain ⟨pre, hpre, hsplit', hlen'⟩ : ∃ pre : Bytes,
      (pre = [] ∨ base = 16 ∧ (pre = ascii "0x" ∨ pre = ascii "0X")) ∧
      unsigned = pre ++ unsigned.drop skip ∧ pre.length = skip := by
    rw [ascii_0x, ascii_0X]
    by_cases hhex : base = 16 ∧ hexPrefix unsigned = true
    · obtain ⟨x, t, ht, hx⟩ := eq_of_hexPrefix hhex.2
      have hskip2 : skip = 2 := if_pos hhex
      rw [hskip2, ht]
      rcases hx with rfl | rfl
      · exact ⟨[48, 120], Or.inr ⟨hhex.1, Or.inl rfl⟩, rfl, rfl⟩
      · exact ⟨[48, 88], Or.inr ⟨hhex.1, Or.inr rfl⟩, rfl, rfl⟩
    · have hskip0 : skip = 0 := if_neg hhex
      exact ⟨[], Or.inl rfl, by rw [hskip0]; rfl, by rw [hskip0]; rfl⟩
  have hrestnil : rest = [] := by
    rw [hsplit, hsplit', ← hrest] at hlength
    simp only [List.length_append, hlen, hlen', ← hds] at hlength
    exact List.length_eq_zero_iff.1 (by omega)
  rw [hrestnil, List.append_nil] at hrest
  refine ⟨_, s.takeWhile isSpace, sgn, pre, ds, ?_, fun c hc => List.mem_takeWhile_imp hc, hsgn, hpre,
    hne, fun c hc => List.mem_takeWhile_imp (p := fun c => (digitValue base c).isSome) hc, rfl⟩
  rw [hds, hrest, ← hsplit', ← hsplit, hsigned]

/-- **What `myatoi` accepts:** a number that is a `long`, which it returns. -/
theorem myatoi_eq_ok_iff {s : Bytes} {base : ℕ} {z : ℤ} :
    myatoi s base = .ok z ↔ Denotes base s z ∧ -2 ^ 63 ≤ z ∧ z < 2 ^ 63 := by
  constructor
  · intro h
    rw [myatoi] at h
    dsimp only at h
    split_ifs at h with hnil herange hconsumed
    obtain ⟨z', hz'⟩ := denotes_of_strtol hnil (not_not.1 hconsumed)
    obtain ⟨-, hreport⟩ := hz'.strtol_eq
    have hvalue := Except.ok.inj h
    rw [hreport, report] at herange hvalue
    split_ifs at herange hvalue with hlow hhigh
    · exact absurd rfl herange
    · exact absurd rfl herange
    · rw [← show z' = z from hvalue]
      exact ⟨hz', by omega, by omega⟩
  · rintro ⟨hz, hlow, hhigh⟩
    obtain ⟨hnil, hreport⟩ := hz.strtol_eq
    rw [report, if_neg (by omega), if_neg (by omega)] at hreport
    rw [myatoi, if_neg hnil, hreport]
    simp

/-- **`myatoi` reads decimal digits,** as far as they are a `long`. -/
theorem myatoi_digits {ds : Bytes} (hne : ds ≠ [])
    (hds : ∀ c ∈ ds, (digitValue 10 c).isSome = true) :
    myatoi ds 10 = if digitsValue 10 ds < 2 ^ 63 then .ok (digitsValue 10 ds)
      else .error (.unixError (ascii "strtol")) := by
  have hdenotes : Denotes 10 ds (digitsValue 10 ds) :=
    ⟨[], [], [], ds, rfl, by simp, Or.inl rfl, Or.inl rfl, hne, hds, rfl⟩
  split_ifs with hfits
  · exact myatoi_eq_ok_iff.2 ⟨hdenotes, by omega, by omega⟩
  · have hreport := hdenotes.strtol_eq.2
    rw [report, if_neg (by omega), if_pos (by omega)] at hreport
    rw [myatoi, if_neg hne, hreport]
    rfl

/-- What `myatoi` refuses is an exception. -/
theorem raised_of_myatoi {s : Bytes} {base : ℕ} {e : Fault} (h : myatoi s base = .error e) :
    e.Raised := by
  rw [myatoi] at h
  dsimp only at h
  split_ifs at h <;> cases h <;> trivial

/-- A string denotes one number at most. -/
theorem Denotes.unique {base : ℕ} {s : Bytes} {z z' : ℤ} (h : Denotes base s z)
    (h' : Denotes base s z') (hlow : -2 ^ 63 ≤ z) (hhigh : z < 2 ^ 63) : z = z' := by
  have hreport := h.strtol_eq.2.symm.trans h'.strtol_eq.2
  rw [report, if_neg (by omega), if_neg (by omega), report] at hreport
  split_ifs at hreport with hlow' hhigh'
  · exact absurd (congrArg Strtol.erange hreport) Bool.false_ne_true
  · exact absurd (congrArg Strtol.erange hreport) Bool.false_ne_true
  · exact congrArg Strtol.value hreport

end V2Proxy
