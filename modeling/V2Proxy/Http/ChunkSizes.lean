/-
# The size of a chunk

`get_chunk_size` takes what stands in front of the first `;` or space of a chunk header
(`sizeText`) through `myatoi`, which returns a signed `long`, and returns a `uint32_t`;
`read` then adds two for the CRLF, again as a `uint32_t`.  So a size is what the header
says just if it is neither negative nor more than a `uint32_t` can hold with the CRLF
(`rightSize_iff`): everything else that `strtol` accepts is another size, or a size whose
chunk ends somewhere else.
-/

import V2Proxy.Http.ChunkedReading
import V2Proxy.Util.Numerals

namespace V2Proxy

open Foundations

/-- What stands in front of the first `;` or space. -/
def sizeText (line : Bytes) : Bytes := line.takeWhile fun c => c ≠ 32 && c ≠ 59

/-- The text up to a `;`, or else up to the end of the line. -/
theorem take_semicolon {line : Bytes} (hline : find CRLF line = none) : ∃ pos,
    (find (ascii ";") (line ++ CRLF) = some pos ∨
      find (ascii ";") (line ++ CRLF) = none ∧ find CRLF (line ++ CRLF) = some pos) ∧
      (line ++ CRLF).take pos = line.takeWhile (· ≠ 59) := by
  have hsemicolon : ascii ";" = [59] := by decide
  have hend : find CRLF (line ++ CRLF) = some line.length := by
    have := find_CRLF_line hline []
    rwa [List.append_nil] at this
  rw [hsemicolon]
  rcases hfind : find [59] (line ++ CRLF) with _ | pos
  · have hnot : 59 ∉ line := fun h => not_mem_of_find_singleton hfind (List.mem_append_left _ h)
    refine ⟨line.length, Or.inr ⟨rfl, hend⟩, ?_⟩
    rw [List.take_left, takeWhile_of_not_mem hnot]
  · obtain ⟨htake, hmem⟩ := take_of_find_singleton hfind
    have hmem : (59 : UInt8) ∈ line :=
      (List.mem_append.1 hmem).resolve_right (by decide)
    exact ⟨pos, Or.inl rfl, htake.trans (takeWhile_append_of_mem hmem _)⟩

/-- **`get_chunk_size` of a line:** its assertions hold, and it is the number in front. -/
theorem getChunkSize_line {line : Bytes} (hline : find CRLF line = none)
    (hmax : line.length < maxSize) :
    getChunkSize (line ++ CRLF) = myatoi (sizeText line) 16 >>= fun z => .ok (toUInt32 z) := by
  have hspace : ascii " " = [32] := by decide
  have hlength : (line ++ CRLF).length = line.length + 2 := by
    rw [List.length_append, length_CRLF]
  rw [maxSize] at hmax
  have htail : substr (line ++ CRLF) (sizeSub (line ++ CRLF).length 2) 2 = .ok CRLF := by
    rw [hlength, sizeSub_of_le (by omega) (by omega), Nat.add_sub_cancel, substr,
      if_pos (by omega), List.drop_left]
    rfl
  obtain ⟨pos, hpos, htake⟩ := take_semicolon hline
  -- and from there up to a space
  have htext : (line.takeWhile (· ≠ 59)).takeWhile (· ≠ 32) = sizeText line := by
    rw [List.takeWhile_takeWhile]
    exact congrArg (line.takeWhile ·) (funext fun c => by simp)
  have hread : ∀ text : Bytes, text = sizeText line →
      (myatoi text 16 >>= fun size => pure (toUInt32 size)) =
        (myatoi (sizeText line) 16 >>= fun z => .ok (toUInt32 z) : Except Fault UInt32) := by
    rintro text rfl
    rfl
  have hup : (∀ i, find (ascii " ") ((line ++ CRLF).take pos) = some i →
        ((line ++ CRLF).take pos).take i = sizeText line) ∧
      (find (ascii " ") ((line ++ CRLF).take pos) = none → (line ++ CRLF).take pos = sizeText line) := by
    rw [htake, hspace]
    refine ⟨fun i hi => (take_of_find_singleton hi).1.trans htext, fun hnone => ?_⟩
    exact (takeWhile_of_not_mem (not_mem_of_find_singleton hnone)).symm.trans htext
  rw [getChunkSize, htail, ok_bind, assert_of rfl, ok_bind]
  rcases hfind : find (ascii " ") ((line ++ CRLF).take pos) with _ | i
  · rcases hpos with hpos | ⟨hnone, hpos⟩
    · simp only [hpos, hfind]
      exact hread _ (hup.2 hfind)
    · simp only [hnone, hpos, hfind]
      exact hread _ (hup.2 hfind)
  · rcases hpos with hpos | ⟨hnone, hpos⟩
    · simp only [hpos, hfind]
      exact hread _ (hup.1 i hfind)
    · simp only [hnone, hpos, hfind]
      exact hread _ (hup.1 i hfind)

namespace ChunkCursor

/-- **The `CHUNK` case with a size to which two can be added.** -/
theorem step_chunk_of_fits {c : ChunkCursor} {n : ℕ} (hnil : c.parserBuffer ≠ [])
    (hst : c.state = .chunk) (hn : c.currentChunkSize.toNat = n) (hlt : n + 2 < 2 ^ 32) :
    c.step =
      if c.parserBuffer.length < n + 2 then .ok (.inr (.npos c))
      else if (c.parserBuffer.drop n).take 2 = CRLF then
        .ok (.inl { c with
          state := .chunkHdr
          parsedSoFar := c.parsedSoFar + (n + 2)
          parserBuffer := c.parserBuffer.drop (n + 2) })
      else .error (.assertion
        (ascii "parser_buffer_.substr( current_chunk_size_, 2 ) == \"\\r\\n\"")) := by
  have hadd : (c.currentChunkSize + 2).toNat = n + 2 := by
    rcases toNat_add_two c.currentChunkSize with hadd | ⟨-, hge⟩ <;> omega
  rw [step_chunk hnil hst, hadd]
  by_cases hneed : c.parserBuffer.length < n + 2
  · rw [if_pos hneed, if_neg (by omega)]
  rw [if_neg hneed, if_pos (by omega), takeChunk, hn, substr, if_pos (by omega), ok_bind, hadd]
  by_cases hCRLF : (c.parserBuffer.drop n).take 2 = CRLF
  · rw [if_pos hCRLF, assert_of hCRLF]
    rfl
  · rw [if_neg hCRLF, assert_of_not hCRLF]
    rfl

/-- The cursor with another buffer. -/
def holding (c : ChunkCursor) (b : Bytes) : ChunkCursor := { c with parserBuffer := b }

/-- The `CHUNK` case waits for `n` bytes of data and a CRLF, and takes just these. -/
def TakesChunk (c : ChunkCursor) (n : ℕ) : Prop :=
  ∀ b : Bytes, b ≠ [] → (c.holding b).step =
    if b.length < n + 2 then .ok (.inr (.npos (c.holding b)))
    else if (b.drop n).take 2 = CRLF then
      .ok (.inl { c with
        state := .chunkHdr
        parsedSoFar := c.parsedSoFar + (n + 2)
        parserBuffer := b.drop (n + 2) })
    else .error (.assertion (ascii "parser_buffer_.substr( current_chunk_size_, 2 ) == \"\\r\\n\""))

variable {c : ChunkCursor} {n : ℕ}

/-- **The chunk that is taken has the size of the header just if two can be added to it.** -/
theorem takesChunk_iff (hst : c.state = .chunk) (hn : c.currentChunkSize.toNat = n) :
    c.TakesChunk n ↔ n + 2 < 2 ^ 32 := by
  constructor
  · intro h
    by_contra hbig
    -- with one byte in the buffer the source does not wait
    rcases toNat_add_two c.currentChunkSize with hadd | ⟨hle, -⟩
    · have := (c.currentChunkSize + 2).toNat_lt
      omega
    · have hstep := h [0] (by decide)
      have hone : ([0] : Bytes).length = 1 := rfl
      have hneed : ((c.holding [0]).currentChunkSize + 2).toNat ≤ (c.holding [0]).parserBuffer.length :=
        hle
      have hthrow : (c.holding [0]).takeChunk =
          .error (.outOfRange (ascii "basic_string::substr")) := by
        rw [takeChunk, substr, if_neg]
        · rfl
        · change ¬ c.currentChunkSize.toNat ≤ 1
          omega
      rw [if_pos (by omega), step_chunk (c := c.holding [0]) (List.cons_ne_nil _ _) hst,
        if_pos hneed] at hstep
      rw [hthrow] at hstep
      cases hstep
  · intro hlt b hb
    exact step_chunk_of_fits (c := c.holding b) hb hst hn hlt

/-- The header `line` in front of the buffer raises, or sets the size that it denotes: then
zero ends the chunks, and otherwise the chunk that is taken has that size. -/
def RightSize (c : ChunkCursor) (line rest : Bytes) : Prop :=
  (∃ e, c.step = .error e ∧ e.Raised) ∨
    ∃ (c' : ChunkCursor) (n : ℕ), c.step = .ok (.inl c') ∧ Denotes 16 (sizeText line) n ∧
      c'.currentChunkSize.toNat = n ∧ c'.parserBuffer = rest ∧
      (n = 0 ∧ c'.state = .trailer ∨ n ≠ 0 ∧ c'.state = .chunk ∧ c'.TakesChunk n)

/-- What a header does. -/
theorem step_header {line rest : Bytes} (hst : c.state = .chunkHdr)
    (hbuf : c.parserBuffer = line ++ (CRLF ++ rest)) (hline : find CRLF line = none)
    (hmax : line.length < maxSize) :
    c.step = myatoi (sizeText line) 16 >>= fun z => .ok (.inl { c with
      currentChunkSize := toUInt32 z
      state := if toUInt32 z = 0 then .trailer else .chunk
      parsedSoFar := c.parsedSoFar + (line.length + 2)
      parserBuffer := rest }) := by
  have hnil : c.parserBuffer ≠ [] := by
    rw [hbuf]
    exact List.append_ne_nil_of_right_ne_nil _ (List.cons_ne_nil _ _)
  have hit : find CRLF c.parserBuffer = some line.length := hbuf ▸ find_CRLF_line hline rest
  have htake : c.parserBuffer.take (line.length + 2) = line ++ CRLF := by
    rw [hbuf, ← List.append_assoc, List.take_left' (by rw [List.length_append, length_CRLF])]
  have hdrop : c.parserBuffer.drop (line.length + 2) = rest := by
    rw [hbuf, ← List.append_assoc, List.drop_left' (by rw [List.length_append, length_CRLF])]
  rw [step_chunkHdr hnil hst, hit]
  dsimp only
  rw [takeHeader, htake, getChunkSize_line hline hmax, hdrop]
  rcases myatoi (sizeText line) 16 with e | z <;> rfl

/-- `uint32_t` holds a number just if it is in its range. -/
theorem toNat_toUInt32 {z : ℤ} {n : ℕ} : (toUInt32 z).toNat = n ↔ (z % 2 ^ 32).toNat = n := by
  have hlt : (z % 2 ^ 32).toNat < 2 ^ 32 := by omega
  rw [toUInt32, UInt32.toNat_ofNat', Nat.mod_eq_of_lt hlt]

/-- **The size of a chunk is what its header says if and only if the header is refused or
says a number that is not negative and leaves room for the CRLF in 32 bits.** -/
theorem rightSize_iff {line rest : Bytes} (hst : c.state = .chunkHdr)
    (hbuf : c.parserBuffer = line ++ (CRLF ++ rest)) (hline : find CRLF line = none)
    (hmax : line.length < maxSize) :
    c.RightSize line rest ↔ ∀ z, Denotes 16 (sizeText line) z → -2 ^ 63 ≤ z → z < 2 ^ 63 →
      0 ≤ z ∧ z < 2 ^ 32 - 2 := by
  have hstep := step_header hst hbuf hline hmax
  constructor
  · intro h z hz hlow hhigh
    rw [myatoi_eq_ok_iff.2 ⟨hz, hlow, hhigh⟩, ok_bind] at hstep
    rcases h with ⟨e, he, -⟩ | ⟨c', n, hc', hn, hsize, -, hcase⟩
    · rw [hstep] at he
      cases he
    · rw [hstep] at hc'
      cases hc'
      obtain rfl := hz.unique hn hlow hhigh
      rcases hcase with ⟨rfl, -⟩ | ⟨-, hchunk, htakes⟩
      · omega
      · have := (takesChunk_iff hchunk hsize).1 htakes
        omega
  · intro h
    rcases hm : myatoi (sizeText line) 16 with e | z
    · rw [hm] at hstep
      exact Or.inl ⟨e, hstep, raised_of_myatoi hm⟩
    · obtain ⟨hz, hlow, hhigh⟩ := myatoi_eq_ok_iff.1 hm
      obtain ⟨hnonneg, hfits⟩ := h z hz hlow hhigh
      obtain ⟨n, rfl⟩ : ∃ n : ℕ, z = n := ⟨z.toNat, by omega⟩
      have hsize : (toUInt32 n).toNat = n := toNat_toUInt32.2 (by omega)
      have hzero : toUInt32 n = 0 ↔ n = 0 := by
        rw [← UInt32.toNat_inj, hsize]
        rfl
      rw [hm, ok_bind] at hstep
      refine Or.inr ⟨_, n, hstep, hz, hsize, rfl, ?_⟩
      by_cases hn : n = 0
      · exact Or.inl ⟨hn, if_pos (hzero.2 hn)⟩
      · have hchunk : (if toUInt32 n = 0 then ChunkState.trailer else .chunk) = .chunk :=
          if_neg fun h0 => hn (hzero.1 h0)
        refine Or.inr ⟨hn, hchunk, (takesChunk_iff hchunk hsize).2 (by omega)⟩

/-- A cursor at a chunk header. -/
def atHeader (line : Bytes) : ChunkCursor :=
  { parserBuffer := line ++ (CRLF ++ []), trailersEnabled := false }

/-- A header with an extension. -/
theorem rightSize_iff_extension :
    (atHeader (ascii "1a;x=y")).RightSize (ascii "1a;x=y") [] := by
  refine (rightSize_iff rfl rfl (by decide +kernel) (by decide)).2 fun z hz hlow hhigh => ?_
  have hread : myatoi (sizeText (ascii "1a;x=y")) 16 = .ok 26 := by decide +kernel
  rw [myatoi_eq_ok_iff.2 ⟨hz, hlow, hhigh⟩] at hread
  cases hread
  decide

/-- **A chunk of `2 ^ 32` bytes is taken for the last one:** its size is zero in 32 bits. -/
theorem size_truncated :
    find CRLF (ascii "100000000") = none ∧ myatoi (sizeText (ascii "100000000")) 16 = .ok (2 ^ 32) ∧
      (atHeader (ascii "100000000")).step =
        .ok (.inl { parsedSoFar := 11, state := .trailer, trailersEnabled := false }) ∧
      ¬ (atHeader (ascii "100000000")).RightSize (ascii "100000000") [] := by
  have hread : myatoi (sizeText (ascii "100000000")) 16 = .ok (2 ^ 32) := by decide +kernel
  have hstep : (atHeader (ascii "100000000")).step =
      .ok (.inl { parsedSoFar := 11, state := .trailer, trailersEnabled := false }) := by
    rw [step_header rfl rfl (by decide +kernel) (by decide), hread]
    rfl
  refine ⟨by decide +kernel, hread, hstep, ?_⟩
  rintro (⟨e, he, -⟩ | ⟨c', n, hc', hn, hsize, -⟩)
  · rw [hstep] at he
    cases he
  · rw [hstep] at hc'
    cases hc'
    have hzero : n = 0 := hsize.symm
    rw [hzero] at hn
    rw [myatoi_eq_ok_iff.2 ⟨hn, by decide, by decide⟩] at hread
    cases hread

end ChunkCursor

end V2Proxy
