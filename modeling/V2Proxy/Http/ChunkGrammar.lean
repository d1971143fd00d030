/-
# The chunk grammar, as it is read

A cursor stands in front of a chunk header, in front of the data of a chunk of known size,
or behind the last header (`Place`).  `Leads` says which texts take it from one place to
another.  A parser on its way through such a text gets through it however it is cut, and
what it does then is decided by the place where it arrives (`Settled.readAll_arrival`):
only there may it raise, or find the end of the body.
-/

import V2Proxy.Http.ChunkSizes
import V2Proxy.Http.ChunkedReads

namespace V2Proxy

open Foundations

namespace ChunkCursor

/-- A place in a chunked body. -/
inductive Place where
  | header
  | chunk (size : ℕ)
  | trailer
deriving DecidableEq

/-- The cursor stands at the place. -/
def At (c : ChunkCursor) : Place → Prop
  | .header => c.state = .chunkHdr
  | .chunk size => c.state = .chunk ∧ c.currentChunkSize.toNat = size
  | .trailer => c.state = .trailer

/-- The place behind a header that says this size. -/
def Place.behind (size : ℕ) : Place := if size = 0 then .trailer else .chunk size

/-- The line is a chunk header with a number in front, which is `size` as a `uint32_t`. -/
def SaysSize (line : Bytes) (size : ℕ) : Prop :=
  find CRLF line = none ∧ ∃ z, Denotes 16 (sizeText line) z ∧ -2 ^ 63 ≤ z ∧ z < 2 ^ 63 ∧
    size = (z % 2 ^ 32).toNat

/-- The text leads from one place to another: chunk headers, and chunks with their CRLF. -/
inductive Leads : Place → Bytes → Place → Prop
  | refl (place : Place) : Leads place [] place
  | header {line w : Bytes} {size : ℕ} {place : Place} :
      SaysSize line size → Leads (.behind size) w place → Leads .header (line ++ (CRLF ++ w)) place
  | chunk {data w : Bytes} {place : Place} :
      data.length + 2 < 2 ^ 32 → Leads .header w place →
      Leads (.chunk data.length) (data ++ (CRLF ++ w)) place

theorem Leads.trans {q₁ q₂ q₃ : Place} {w v : Bytes} (h : Leads q₁ w q₂) (h' : Leads q₂ v q₃) :
    Leads q₁ (w ++ v) q₃ := by
  induction h with
  | refl => exact h'
  | header hline _ ih =>
      rw [List.append_assoc, List.append_assoc]
      exact .header hline (ih h')
  | chunk hlt _ ih =>
      rw [List.append_assoc, List.append_assoc]
      exact .chunk hlt (ih h')

variable {c c' : ChunkCursor} {place : Place} {size : ℕ}

theorem at_behind (hst : c.state = if size = 0 then .trailer else .chunk)
    (hsize : c.currentChunkSize.toNat = size) : c.At (.behind size) := by
  by_cases h0 : size = 0
  · rw [if_pos h0] at hst
    rw [Place.behind, if_pos h0]
    exact hst
  · rw [if_neg h0] at hst
    rw [Place.behind, if_neg h0]
    exact ⟨hst, hsize⟩

/-- The cursor after `n` more bytes, at a place in front of `b`. -/
structure Moved (c c' : ChunkCursor) (place : Place) (n : ℕ) (b : Bytes) : Prop where
  here : c'.At place
  parsed : c'.parsedSoFar = c.parsedSoFar + n
  buffer : c'.parserBuffer = b
  flag : c'.trailersEnabled = c.trailersEnabled

/-- **A header is taken.** -/
theorem step_saysSize {line b : Bytes} (hst : c.At .header) (hline : SaysSize line size)
    (hbuf : c.parserBuffer = line ++ (CRLF ++ b)) (hmax : line.length < maxSize) :
    ∃ c', c.step = .ok (.inl c') ∧ Moved c c' (.behind size) (line.length + 2) b := by
  obtain ⟨hnone, z, hz, hlow, hhigh, hsize⟩ := hline
  have hstep := step_header hst hbuf hnone hmax
  rw [myatoi_eq_ok_iff.2 ⟨hz, hlow, hhigh⟩, ok_bind] at hstep
  have hvalue : (toUInt32 z).toNat = size := toNat_toUInt32.2 hsize.symm
  have hzero : toUInt32 z = 0 ↔ size = 0 := by
    rw [← UInt32.toNat_inj, hvalue]
    rfl
  refine ⟨_, hstep, at_behind ?_ hvalue, rfl, rfl, rfl⟩
  simp only [hzero]

/-- **A chunk is taken.** -/
theorem step_data {data b : Bytes} (hat : c.At (.chunk data.length))
    (hlt : data.length + 2 < 2 ^ 32) (hbuf : c.parserBuffer = data ++ (CRLF ++ b)) :
    ∃ c', c.step = .ok (.inl c') ∧ Moved c c' .header (data.length + 2) b := by
  have hnil : c.parserBuffer ≠ [] := by
    rw [hbuf]
    exact List.append_ne_nil_of_right_ne_nil _ (List.cons_ne_nil _ _)
  have hlength : ¬ c.parserBuffer.length < data.length + 2 := by
    rw [hbuf, List.length_append, List.length_append, length_CRLF]
    omega
  have hCRLF : (c.parserBuffer.drop data.length).take 2 = CRLF := by
    rw [hbuf, List.drop_left, ← length_CRLF, List.take_left]
  have hdrop : c.parserBuffer.drop (data.length + 2) = b := by
    rw [hbuf, HTTPMessageSequence.drop_line]
  have hstep := step_chunk_of_fits hnil hat.1 hat.2 hlt
  rw [if_neg hlength, if_pos hCRLF] at hstep
  exact ⟨_, hstep, rfl, rfl, hdrop, rfl⟩

/-- The cursor has text before it that leads to `goal`, and `tail` behind it; what it does
not hold of the two is `more`, and `goal` lies `total` bytes after the start. -/
structure OnWay (c : ChunkCursor) (goal : Place) (more tail : Bytes) (total : ℕ) (w : Bytes) :
    Prop where
  leads : ∃ place, c.At place ∧ Leads place w goal
  text : c.parserBuffer ++ more = w ++ tail
  count : c.parsedSoFar + w.length = total
  short : w.length < maxSize

variable {goal : Place} {more tail w : Bytes} {total : ℕ}

/-- Bytes that do not reach the end of a line have no CRLF. -/
theorem find_of_short {b line rest : Bytes} (hline : find CRLF line = none)
    (heq : b ++ more = line ++ (CRLF ++ rest)) (hshort : b.length < line.length + 2) :
    find CRLF b = none := by
  rcases hi : find CRLF b with _ | i
  · rfl
  · have hmore := find_append_of_some hi more
    rw [heq, find_CRLF_line hline rest] at hmore
    have hle := add_length_le_of_find hi
    rw [length_CRLF, ← Option.some.inj hmore] at hle
    omega

/-- Bytes that reach the end of the first part of a text are that part and more. -/
theorem split_of_long {b u rest : Bytes} (heq : b ++ more = u ++ rest) (hlong : u.length ≤ b.length) :
    ∃ b', b = u ++ b' ∧ b' ++ more = rest := by
  have hpre : u <+: b :=
    List.prefix_of_prefix_length_le ⟨rest, heq.symm⟩ (List.prefix_append b more) hlong
  obtain ⟨b', rfl⟩ := hpre
  refine ⟨b', rfl, ?_⟩
  rw [List.append_assoc] at heq
  exact List.append_cancel_left heq

/-- Where bytes are missing, the cursor waits on its way. -/
theorem OnWay.wait (h : c.OnWay goal more tail total w) (hmissing : c.parserBuffer.length < w.length)
    (hquiet : c.Quiet c.parserBuffer) : loop.run c = .ok (.npos c) ∧ more ≠ [] := by
  refine ⟨Loop.run_of_leave (step_of_quiet hquiet), ?_⟩
  rintro rfl
  have hlength := congrArg List.length h.text
  simp only [List.length_append, List.length_nil] at hlength
  omega

/-- **The way through the grammar:** the loop stops on the way, because bytes are missing,
or it comes to the goal. -/
theorem OnWay.run (h : c.OnWay goal more tail total w) :
    (∃ c' w', loop.run c = .ok (.npos c') ∧ c'.OnWay goal more tail total w' ∧
      c'.trailersEnabled = c.trailersEnabled ∧ more ≠ []) ∨
    ∃ c', loop.run c = loop.run c' ∧ c'.At goal ∧ c'.parserBuffer ++ more = tail ∧
      c'.parsedSoFar = total ∧ c'.trailersEnabled = c.trailersEnabled := by
  obtain ⟨⟨place, hat, hleads⟩, htext, hcount, hshort⟩ := h
  induction hleads generalizing c with
  | refl => exact Or.inr ⟨c, rfl, hat, htext, hcount, rfl⟩
  | @header line w size goal hline hleads ih =>
      have hlength : (line ++ (CRLF ++ w)).length = line.length + 2 + w.length := by
        rw [List.length_append, List.length_append, length_CRLF, Nat.add_assoc]
      have hrest : c.parserBuffer ++ more = line ++ (CRLF ++ (w ++ tail)) := by
        rw [htext, List.append_assoc, List.append_assoc]
      rcases Nat.lt_or_ge c.parserBuffer.length (line.length + 2) with hlt | hge
      · have hst : c.state = .chunkHdr := hat
        have hway : c.OnWay goal more tail total (line ++ (CRLF ++ w)) :=
          ⟨⟨.header, hat, .header hline hleads⟩, htext, hcount, hshort⟩
        obtain ⟨hrun, hmore⟩ := hway.wait (by omega) (by
          rw [Quiet, hst]
          exact find_of_short hline.1 hrest hlt)
        exact Or.inl ⟨c, _, hrun, hway, rfl, hmore⟩
      · rw [← List.append_assoc] at hrest
        obtain ⟨b, hb, hmore⟩ := split_of_long hrest (by
          rw [List.length_append, length_CRLF]
          exact hge)
        rw [List.append_assoc] at hb
        obtain ⟨c', hstep, hmoved⟩ := step_saysSize hat hline hb (by omega)
        rw [Loop.run_of_next (L := loop) hstep, ← hmoved.flag]
        exact ih (by rw [hmoved.buffer, hmore]) (by rw [hmoved.parsed]; omega) (by omega) hmoved.here
  | @chunk data w goal hlt hleads ih =>
      have hlength : (data ++ (CRLF ++ w)).length = data.length + 2 + w.length := by
        rw [List.length_append, List.length_append, length_CRLF, Nat.add_assoc]
      have hrest : c.parserBuffer ++ more = data ++ CRLF ++ (w ++ tail) := by
        rw [htext, List.append_assoc, List.append_assoc, List.append_assoc]
      rcases Nat.lt_or_ge c.parserBuffer.length (data.length + 2) with hmissing | hge
      · have hadd : (c.currentChunkSize + 2).toNat = data.length + 2 := by
          have := hat.2
          rcases toNat_add_two c.currentChunkSize with hadd | ⟨-, hbig⟩ <;> omega
        have hway : c.OnWay goal more tail total (data ++ (CRLF ++ w)) :=
          ⟨⟨.chunk data.length, hat, .chunk hlt hleads⟩, htext, hcount, hshort⟩
        obtain ⟨hrun, hmore⟩ := hway.wait (by omega) (by
          rw [Quiet, hat.1]
          exact Or.inl (by omega))
        exact Or.inl ⟨c, _, hrun, hway, rfl, hmore⟩
      · obtain ⟨b, hb, hmore⟩ := split_of_long hrest (by
          rw [List.length_append, length_CRLF]
          exact hge)
        rw [List.append_assoc] at hb
        obtain ⟨c', hstep, hmoved⟩ := step_data hat hlt hb
        rw [Loop.run_of_next (L := loop) hstep, ← hmoved.flag]
        exact ih (by rw [hmoved.buffer, hmore]) (by rw [hmoved.parsed]; omega) (by omega) hmoved.here

/-- What happens at a place with `tail` behind it, for all that a cursor may hold of it:
it waits, and for ever if `verdict` is `none`, or does what `verdict` says. -/
def Arrival (goal : Place) (tail : Bytes) (trailersEnabled : Bool)
    (verdict : Option (Except Fault ℕ)) : Prop :=
  ∀ (c : ChunkCursor) (more : Bytes), c.At goal → c.trailersEnabled = trailersEnabled →
    c.parserBuffer ++ more = tail →
    (c.Quiet c.parserBuffer ∧ (more = [] → verdict = none)) ∨
    ∃ r, verdict = some r ∧ loop.run c = r.map fun t => .ends (c.parsedSoFar + t)

end ChunkCursor

namespace ChunkedBodyParser

open ChunkCursor

variable {p p' : ChunkedBodyParser} {goal : Place} {tail w : Bytes} {total : ℕ}
  {trailersEnabled : Bool}

/-- What the run makes of the verdict. -/
def Decided (acked total : ℕ) (out : Except Fault (ReadOutcome ChunkedBodyParser)) :
    Option (Except Fault ℕ) → Prop
  | none => ∃ p', out = .ok (.npos p')
  | some (.error e) => out = .error e
  | some (.ok t) => ∃ n, out = .ok (.ends n) ∧ acked + n = total + t

/-- **A run of reads through the grammar** ends as the place where it arrives decides,
however the text is cut. -/
theorem Settled.readAll_arrival {verdict : Option (Except Fault ℕ)} {pieces : List Bytes}
    (h : p.Settled) (hway : p.OnWay goal pieces.flatten tail total w)
    (hflag : p.trailersEnabled = trailersEnabled)
    (harrival : Arrival goal tail trailersEnabled verdict) :
    Decided p.ackedSoFar total (p.readAll pieces) verdict := by
  induction pieces generalizing p w with
  | nil =>
      rcases hway.run with ⟨c', w', -, -, -, hmore⟩ | ⟨c', hrun, hat, htext, -, hflag'⟩
      · exact absurd rfl hmore
      · rcases harrival c' [] hat (hflag'.trans hflag) htext with ⟨-, hnone⟩ | ⟨r, -, hr⟩
        · rw [hnone rfl]
          exact ⟨p, rfl⟩
        · rw [← hrun, Loop.run_of_leave (L := loop) (step_of_quiet h.quiet)] at hr
          cases r <;> cases hr
  | cons piece pieces ih =>
      have hway' : (p.toChunkCursor.extend piece).OnWay goal pieces.flatten tail total w := by
        refine ⟨hway.leads, ?_, hway.count, hway.short⟩
        rw [← hway.text, List.flatten_cons, ← List.append_assoc]
        rfl
      -- a read that stops leaves a parser that is on its way
      have hgo : ∀ {c' w'}, loop.run (p.toChunkCursor.extend piece) = .ok (.npos c') →
          c'.OnWay goal pieces.flatten tail total w' → c'.trailersEnabled = trailersEnabled →
          Decided p.ackedSoFar total (p.readAll (piece :: pieces)) verdict := by
        intro c' w' hrun hway' hflag'
        have hread : p.read piece = .ok (.npos
            { c' with ackedSoFar := p.ackedSoFar + piece.length }) := by
          rw [read_eq, hrun]
          rfl
        have hdecided := ih (h.read_npos hread).1 hway' hflag'
        rw [readAll_cons, hread, ok_bind]
        dsimp only at hdecided ⊢
        rcases verdict with _ | e | t
        · obtain ⟨p', hp'⟩ := hdecided
          rw [hp']
          exact ⟨p', rfl⟩
        · rw [show _ = Except.error e from hdecided]
          rfl
        · obtain ⟨n, hn, hsum⟩ := hdecided
          rw [hn]
          exact ⟨piece.length + n, rfl, by omega⟩
      rcases hway'.run with ⟨c', w', hrun, hway₁, hflag', -⟩ | ⟨c', hrun, hat, htext, hcount, hflag'⟩
      · exact hgo hrun hway₁ (hflag'.trans hflag)
      · rcases harrival c' _ hat (hflag'.trans hflag) htext with ⟨hquiet, -⟩ | ⟨r, rfl, hr⟩
        · rw [Loop.run_of_leave (L := loop) (step_of_quiet hquiet)] at hrun
          refine hgo hrun ⟨⟨goal, hat, .refl goal⟩, htext, hcount, ?_⟩ (hflag'.trans hflag)
          decide
        · rw [hr] at hrun
          rcases r with e | t
          · change p.readAll (piece :: pieces) = .error e
            rw [readAll_cons, read_eq, hrun]
            rfl
          · have hends := run_ends (h.accounted piece) hrun
            refine ⟨c'.parsedSoFar + t - p.ackedSoFar, ?_, by omega⟩
            rw [readAll_cons, read_eq, hrun]
            change (assert _ _ >>= _) >>= _ = _
            rw [assert_of (by omega)]
            rfl

end ChunkedBodyParser

end V2Proxy
