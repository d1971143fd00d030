/-
# What `split` returns

For a separator of one character, which all callers pass, `split` is the inverse of
joining: its tokens are not empty as a list, have no separator in them, and give the
string back when they are joined with it (`split_inverts`).  There is just one such
list, `List.splitOn` (`split_singleton`).

The first loop collects the places of the separator (`Places`); by induction on these
the three ways in which the source cuts the first, the inner and the last tokens are
one recursion (`tokensFrom`).
-/

import V2Proxy.Foundations.Fields
import V2Proxy.Http.HTTPResponse

namespace V2Proxy

open Foundations

variable {str : Bytes} {c : UInt8}

/-- The places of the separator from a place on, in their order. -/
inductive Places (str : Bytes) (c : UInt8) : ℕ → List ℕ → Prop
  | none {start : ℕ} (h : findFrom [c] str start = none) : Places str c start []
  | next {start i : ℕ} {indices : List ℕ} (h : findFrom [c] str start = some i)
      (rest : Places str c (i + 1) indices) : Places str c start (i :: indices)

/-- **The first loop of `split` collects the places of the separator.** -/
theorem run_splitLoop (start : ℕ) (acc : List ℕ) : ∃ indices, Places str c start indices ∧
    (splitLoop str [c]).run (start, acc) = .ok (acc ++ indices) := by
  refine Loop.run_induction (L := splitLoop str [c])
    (motive := fun s r => ∃ indices, Places str c s.1 indices ∧ r = .ok (s.2 ++ indices))
    (fun s e he => ?_) (fun s x hx => ?_) (fun s s' hs ih => ?_) (start, acc)
  · rcases hfind : findFrom [c] str s.1 with _ | i
    · simp [splitLoop, hfind] at he
    · simp [splitLoop, hfind] at he
  · rcases hfind : findFrom [c] str s.1 with _ | i
    · simp only [splitLoop, hfind] at hx
      cases hx
      exact ⟨[], .none hfind, by rw [List.append_nil]⟩
    · simp [splitLoop, hfind] at hx
  · rcases hfind : findFrom [c] str s.1 with _ | i
    · simp [splitLoop, hfind] at hs
    · simp only [splitLoop, hfind] at hs
      cases hs
      obtain ⟨indices, hplaces, hrun⟩ := ih
      exact ⟨i :: indices, .next hfind hplaces, by rw [hrun, List.append_assoc]; rfl⟩

/-- The tokens from a place on, cut at the places of the separator. -/
def tokensFrom (str : Bytes) : ℕ → List ℕ → List Bytes
  | start, [] => [str.drop start]
  | start, i :: indices => (str.drop start).take (i - start) :: tokensFrom str (i + 1) indices

/-- What a place of the separator says. -/
theorem cut_at {start i : ℕ} (h : findFrom [c] str start = some i) :
    start ≤ i ∧ i < str.length ∧ c ∉ (str.drop start).take (i - start) ∧
      str.drop start = (str.drop start).take (i - start) ++ c :: str.drop (i + 1) := by
  obtain ⟨hle, hlt⟩ := findFrom_bounds h
  rw [List.length_singleton] at hlt
  obtain ⟨j, hfind, rfl⟩ := findFrom_eq h
  have hno := find_take_of_find (List.cons_ne_nil c []) hfind
  have hcut := eq_append_of_find hfind
  rw [List.drop_drop, List.length_singleton, List.singleton_append] at hcut
  rw [Nat.add_sub_cancel_left]
  exact ⟨hle, hlt, not_mem_of_find_singleton hno, hcut⟩

/-- **Cut at the places of the separator, a string is its tokens joined.** -/
theorem Places.tokensFrom {start : ℕ} {indices : List ℕ} (h : Places str c start indices)
    (hstart : start ≤ str.length) :
    (∀ t ∈ tokensFrom str start indices, c ∉ t) ∧
      [c].intercalate (tokensFrom str start indices) = str.drop start := by
  induction h with
  | none h =>
      rw [V2Proxy.tokensFrom, List.intercalate_singleton]
      rw [findFrom, if_pos hstart, Option.map_eq_none_iff] at h
      refine ⟨fun t ht => ?_, rfl⟩
      rw [List.mem_singleton.1 ht]
      exact not_mem_of_find_singleton h
  | @next start i indices h rest ih =>
      obtain ⟨-, hlt, hno, hcut⟩ := cut_at h
      obtain ⟨hmem, hjoin⟩ := ih hlt
      obtain ⟨t, ts, hts⟩ : ∃ t ts, V2Proxy.tokensFrom str (i + 1) indices = t :: ts := by
        rcases indices with _ | ⟨j, indices⟩
        · exact ⟨_, _, rfl⟩
        · exact ⟨_, _, rfl⟩
      rw [V2Proxy.tokensFrom]
      refine ⟨fun x hx => ?_, ?_⟩
      · rcases List.mem_cons.1 hx with rfl | hx
        · exact hno
        · exact hmem x hx
      · rw [hts] at hjoin ⊢
        rw [List.intercalate_cons_cons, hjoin, List.append_assoc, List.singleton_append, ← hcut]

/-- The inner tokens and the last one are those behind the first place. -/
theorem Places.inner {i : ℕ} {indices : List ℕ} (h : Places str c (i + 1) indices)
    (hmax : str.length < maxSize) :
    ((i :: indices).zip indices).map (fun p =>
        (str.drop (p.1 + [c].length)).take (sizeSub (sizeSub p.2 p.1) [c].length)) ++
      [str.drop ((i :: indices).getLast (List.cons_ne_nil i indices) + [c].length)] =
    V2Proxy.tokensFrom str (i + 1) indices := by
  induction indices generalizing i with
  | nil => rfl
  | cons j indices ih =>
      obtain _ | ⟨hfind, rest⟩ := h
      obtain ⟨hle, hlt, -⟩ := cut_at hfind
      unfold maxSize at hmax
      have hsub : sizeSub (sizeSub j i) [c].length = j - (i + 1) := by
        rw [List.length_singleton, sizeSub_of_le (a := j) (by omega) (by omega),
          sizeSub_of_le (by omega) (by omega)]
        omega
      rw [List.zip_cons_cons, List.map_cons, List.cons_append, List.getLast_cons_cons, ih rest,
        V2Proxy.tokensFrom, hsub, List.length_singleton]

/-- **`split` cuts at the places of the separator.** -/
theorem split_eq (hmax : str.length < maxSize) :
    ∃ indices, Places str c 0 indices ∧ split str [c] = .ok (tokensFrom str 0 indices) := by
  obtain ⟨indices, hplaces, hrun⟩ := @run_splitLoop str c 0 []
  refine ⟨indices, hplaces, ?_⟩
  rw [List.nil_append] at hrun
  rw [split, hrun, ok_bind]
  rcases indices with _ | ⟨i, indices⟩
  · rfl
  · obtain _ | ⟨hfind, rest⟩ := hplaces
    have hlast : (i :: indices).getLast? = some ((i :: indices).getLast (List.cons_ne_nil i indices)) :=
      List.getLast?_eq_some_getLast _
    rw [hlast]
    change Except.ok _ = _
    rw [tokensFrom, ← rest.inner hmax]
    rfl

/-- **For one character, `split` is `List.splitOn`.** -/
theorem split_singleton (hmax : str.length < maxSize) : split str [c] = .ok (str.splitOn c) := by
  obtain ⟨indices, hplaces, hsplit⟩ := split_eq (c := c) hmax
  obtain ⟨hmem, hjoin⟩ := hplaces.tokensFrom (Nat.zero_le _)
  rw [List.drop_zero] at hjoin
  have hne : tokensFrom str 0 indices ≠ [] := by
    rcases indices with _ | ⟨i, indices⟩
    · exact List.cons_ne_nil _ _
    · exact List.cons_ne_nil _ _
  rw [hsplit, ← List.splitOn_intercalate c hmem hne, hjoin]

theorem ascii_space : ascii " " = [32] := by decide

theorem ascii_comma : ascii "," = [44] := by decide

theorem ascii_semicolon : ascii ";" = [59] := by decide

/-- **The status code is the text between the first two spaces.** -/
theorem HTTPResponse.statusCode_eq_ok_iff {m : HTTPResponse} {code : Bytes}
    (hstate : m.state ≠ .firstLinePending) (hmax : m.firstLine.length < maxSize) :
    m.statusCode = .ok code ↔ ∃ version reason,
      m.firstLine = version ++ 32 :: (code ++ 32 :: reason) ∧ 32 ∉ version ∧ 32 ∉ code := by
  have hrank : HTTPMessageState.firstLinePending.rank < m.state.rank := by
    rcases h : m.state with _ | _ | _ | _
    · exact absurd h hstate
    · exact Nat.zero_lt_one
    · exact Nat.zero_lt_two
    · exact Nat.zero_lt_succ 2
  rw [statusCode, assert_of hrank, ok_bind, ascii_space, split_singleton hmax, ok_bind]
  constructor
  · intro h
    split at h
    · rename_i version code' reason rest htokens
      obtain ⟨s, hs, hversion, hrest⟩ := splitOn_eq_cons_cons_iff.1 htokens
      obtain ⟨s', rfl, hcode, -⟩ := splitOn_eq_cons_cons_iff.1 hrest
      obtain rfl := Except.ok.inj h
      exact ⟨version, s', hs, hversion, hcode⟩
    · cases h
  · rintro ⟨version, reason, hline, hversion, hcode⟩
    rw [hline, List.splitOn_append_cons_self_of_not_mem hversion,
      List.splitOn_append_cons_self_of_not_mem hcode]
    obtain ⟨t, ts, hts⟩ := List.exists_cons_of_ne_nil (List.splitOn_ne_nil 32 reason)
    rw [hts]
    rfl

/-- **The last transfer coding is the text behind the last comma.** -/
theorem HTTPResponse.isChunked_eq {m : HTTPResponse} {value : Bytes}
    (hvalue : m.getHeaderValue (ascii "Transfer-Encoding") = .ok value)
    (hmax : value.length < maxSize) :
    m.isChunked = .ok (equivalentStrings (value.rtakeWhile (· ≠ 44)) (ascii "chunked")) := by
  rw [isChunked, if_pos (HTTPMessage.hasHeader_of_value hvalue), hvalue, ok_bind, ascii_comma,
    split_singleton hmax, ok_bind, getLast?_splitOn]
  rfl

/-- **The media type is the text in front of the first semicolon,** which is not
empty. -/
theorem mimeType_eq_ok_iff {contentType type : Bytes} (hmax : contentType.length < maxSize) :
    mimeType contentType = .ok type ↔ type ≠ [] ∧ type = contentType.takeWhile (· ≠ 59) := by
  obtain ⟨ts, hts, -⟩ := splitOn_eq_cons 59 contentType
  rw [mimeType, ascii_semicolon, split_singleton hmax, ok_bind, hts]
  generalize contentType.takeWhile (fun x => decide (x ≠ 59)) = first
  rcases first with _ | ⟨b, t⟩
  · refine iff_of_false (fun h => by cases h) ?_
    rintro ⟨hne, rfl⟩
    exact hne rfl
  · constructor
    · intro h
      obtain rfl := Except.ok.inj h
      exact ⟨List.cons_ne_nil b t, rfl⟩
    · rintro ⟨-, rfl⟩
      rfl

/-- **`split` is the inverse of joining,** so what is taken from its tokens is there: a
status code between the first two spaces of the first line, the last transfer coding
behind the last comma, the media type in front of the first semicolon. -/
theorem split_inverts {s : Bytes} (hmax : s.length < maxSize) :
    (∀ c, ∃ tokens, split s [c] = .ok tokens ∧ tokens ≠ [] ∧ (∀ t ∈ tokens, c ∉ t) ∧
      [c].intercalate tokens = s) ∧
    (∀ (r : HTTPResponse) (code : Bytes), r.state ≠ .firstLinePending → r.firstLine = s →
      (r.statusCode = .ok code ↔ ∃ version reason,
        s = version ++ 32 :: (code ++ 32 :: reason) ∧ 32 ∉ version ∧ 32 ∉ code)) ∧
    (∀ r : HTTPResponse, r.getHeaderValue (ascii "Transfer-Encoding") = .ok s →
      r.isChunked = .ok (equivalentStrings (s.rtakeWhile (· ≠ 44)) (ascii "chunked"))) ∧
    ∀ type, mimeType s = .ok type ↔ type ≠ [] ∧ type = s.takeWhile (· ≠ 59) := by
  refine ⟨fun c => ?_, fun r code hstate hline => ?_, fun r hvalue => ?_, fun type => ?_⟩
  · exact ⟨s.splitOn c, split_singleton hmax, List.splitOn_ne_nil c s,
      fun t ht => not_mem_of_mem_splitOn ht, List.intercalate_splitOn c⟩
  · rw [← hline]
    exact HTTPResponse.statusCode_eq_ok_iff hstate (by rwa [hline])
  · exact HTTPResponse.isChunked_eq hvalue hmax
  · exact mimeType_eq_ok_iff hmax

/-- Empty tokens, at either end and in a row. -/
theorem split_inverts_emptyTokens :
    (∃ tokens, split (ascii ",gzip,,chunked,") (ascii ",") = .ok tokens ∧
      [44].intercalate tokens = ascii ",gzip,,chunked,") ∧
    mimeType (ascii ",gzip,,chunked,") = .ok (ascii ",gzip,,chunked,") := by
  obtain ⟨htokens, -, -, htype⟩ := split_inverts (s := ascii ",gzip,,chunked,") (by decide)
  obtain ⟨tokens, hsplit, -, -, hjoin⟩ := htokens 44
  exact ⟨⟨tokens, hsplit, hjoin⟩, (htype _).2 ⟨by decide, by decide⟩⟩

end V2Proxy
