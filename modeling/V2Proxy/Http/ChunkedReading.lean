/-
# What `ChunkedBodyParser::read` does with its input, however it is cut

`read` is the loop of the cursor followed by the accounting (`read_eq`).  Between
two calls the parser is `Settled`: everything it was given is acknowledged, and
the bytes it holds are not enough for another round.  From a settled parser
`read` either asks for more and leaves a settled parser, or reports an end that
lies inside its own input (`read_npos`, `read_ends`); and reading `a ++ b` is
reading `a` and then `b` (`read_append`), as long as the two together are no
longer than one `FileDescriptor::read` returns.  That bound is needed:
`current_chunk_size_ + 2` wraps for the two largest sizes, and the exception
that then ends the parse depends on the buffer being shorter than the size.
-/

import V2Proxy.Http.ChunkedParser

namespace V2Proxy

open Foundations

namespace ChunkCursor

variable {c c' : ChunkCursor} {b : Bytes}

/-- The same cursor with `b` appended to `parser_buffer_`. -/
def extend (c : ChunkCursor) (b : Bytes) : ChunkCursor :=
  { c with parserBuffer := c.parserBuffer ++ b }

/-- Text is appended in pieces. -/
@[simp] theorem extend_extend (c : ChunkCursor) (a b : Bytes) :
    (c.extend a).extend b = c.extend (a ++ b) := by
  simp [extend]

/-- The buffer is bytes that were not enough for a round, followed by at most
`room` new ones. -/
def Reading (room : ℕ) (c : ChunkCursor) : Prop :=
  ∃ old new, c.parserBuffer = old ++ new ∧ c.Quiet old ∧ new.length ≤ room

/-- A piece is appended: the room is its length. -/
theorem reading_extend (h : c.Quiet c.parserBuffer) (b : Bytes) :
    (c.extend b).Reading b.length :=
  ⟨c.parserBuffer, b, rfl, h, le_rfl⟩

/-- A round leaves new bytes only. -/
theorem Reading.next {room : ℕ} (h : c.Reading room) (hs : c.step = .ok (.inl c')) :
    c'.parserBuffer.length ≤ room ∧ c'.Reading room := by
  obtain ⟨old, new, hbuf, hq, hroom⟩ := h
  obtain ⟨n, -, hdrop, -, -, -, hold⟩ := step_next hs
  have hn := hold old new hbuf hq
  have hlen : c'.parserBuffer.length ≤ room := by
    have := congrArg List.length hbuf
    rw [List.length_append] at this
    rw [hdrop, List.length_drop]
    omega
  exact ⟨hlen, [], c'.parserBuffer, rfl, c'.quiet_nil, hlen⟩

/-- A chunk header is read the same with text behind it. -/
theorem takeHeader_extend {it : ℕ} (hit : find CRLF c.parserBuffer = some it) :
    (c.extend b).takeHeader it = c.takeHeader it >>= fun c' => .ok (c'.extend b) := by
  have hlen := add_length_le_of_find hit
  rw [length_CRLF] at hlen
  simp only [takeHeader, extend, List.take_append_of_le_length hlen,
    List.drop_append_of_le_length hlen]
  rcases getChunkSize (c.parserBuffer.take (it + 2)) with e | size <;> rfl

/-- `current_chunk_size_ + 2` wraps for the sizes `2^32 - 2` and `2^32 - 1`. -/
theorem toNat_add_two (size : UInt32) :
    (size + 2).toNat = size.toNat + 2 ∨ (size + 2).toNat ≤ 1 ∧ 2 ^ 32 ≤ size.toNat + 2 := by
  have := size.toNat_lt
  rw [UInt32.toNat_add]
  change (size.toNat + 2) % 2 ^ 32 = _ ∨ (size.toNat + 2) % 2 ^ 32 ≤ 1 ∧ _
  omega

/-- A size to which two cannot be added in 32 bits is more than the buffer holds: the
`CHUNK` case throws. -/
theorem takeChunk_wraps (h : c.Reading room) (hst : c.state = .chunk) (hroom : room ≤ bufferSize)
    (hbig : 2 ^ 32 ≤ c.currentChunkSize.toNat + 2) :
    c.takeChunk = .error (.outOfRange (ascii "basic_string::substr")) := by
  obtain ⟨old, new, hbuf, hq, hnew⟩ := h
  have hold : old.length ≤ 1 := by
    rw [Quiet, hst] at hq
    rcases hq with hq | rfl
    · rcases toNat_add_two c.currentChunkSize with hadd | ⟨hle, -⟩
      · have := (c.currentChunkSize + 2).toNat_lt
        omega
      · omega
    · simp
  have hlen : c.parserBuffer.length < c.currentChunkSize.toNat := by
    rw [hbuf, List.length_append]
    simp only [bufferSize] at hroom
    omega
  rw [takeChunk, substr, if_neg (by omega)]
  rfl

/-- A chunk is passed over the same with text behind it. -/
theorem takeChunk_extend {room : ℕ} (h : c.Reading room) (hst : c.state = .chunk)
    (hroom : room + b.length ≤ bufferSize)
    (hneed : (c.currentChunkSize + 2).toNat ≤ c.parserBuffer.length) :
    (c.extend b).takeChunk = c.takeChunk >>= fun c' => .ok (c'.extend b) := by
  rcases toNat_add_two c.currentChunkSize with hadd | ⟨hle, hbig⟩
  · have hsize : c.currentChunkSize.toNat + 2 ≤ c.parserBuffer.length := hadd ▸ hneed
    have htail : substr (c.parserBuffer ++ b) c.currentChunkSize.toNat 2 =
        substr c.parserBuffer c.currentChunkSize.toNat 2 := by
      rw [substr, substr, if_pos (by simp; omega), if_pos (by omega),
        List.drop_append_of_le_length (by omega),
        List.take_append_of_le_length (by rw [List.length_drop]; omega)]
    simp only [takeChunk, extend, htail, List.drop_append_of_le_length hneed]
    rcases substr c.parserBuffer c.currentChunkSize.toNat 2 with e | tail
    · rfl
    · by_cases h : tail = CRLF
      · simp only [ok_bind, assert_of h]
        rfl
      · simp only [ok_bind, assert_of_not h]
        rfl
  · -- the size is far past the end of the buffer, with `b` or without
    have hext : (c.extend b).Reading (room + b.length) := by
      obtain ⟨old, new, hbuf, hq, hnew⟩ := h
      refine ⟨old, new ++ b, ?_, hq, by rw [List.length_append]; omega⟩
      rw [extend, hbuf, List.append_assoc]
    rw [takeChunk_wraps h hst (by omega) hbig, takeChunk_wraps hext hst hroom hbig, error_bind]

/-- **A round that fails or goes on does the same with more bytes behind.** -/
theorem step_extend {room : ℕ} (h : c.Reading room) (hroom : room + b.length ≤ bufferSize)
    (hs : ∀ c', c.step ≠ .ok (.inr (.npos c'))) :
    (c.extend b).step = c.step >>= fun
      | .inl c' => .ok (.inl (c'.extend b))
      | .inr r => .ok (.inr r) := by
  have hnil : c.parserBuffer ≠ [] := fun hnil => hs c (step_nil hnil)
  have hnil' : (c.extend b).parserBuffer ≠ [] := by simp [extend, hnil]
  cases hst : c.state with
  | chunkHdr =>
      rw [step_chunkHdr hnil hst] at hs ⊢
      rw [step_chunkHdr hnil' hst]
      rcases hit : find CRLF c.parserBuffer with _ | it
      · exact absurd (by rw [hit]) (hs c)
      · have hit' : find CRLF (c.extend b).parserBuffer = some it := find_append_of_some hit b
        rw [hit']
        simp only [takeHeader_extend hit]
        rcases c.takeHeader it with e | c' <;> rfl
  | chunk =>
      rw [step_chunk hnil hst] at hs ⊢
      rw [step_chunk hnil' hst]
      by_cases hneed : (c.currentChunkSize + 2).toNat ≤ c.parserBuffer.length
      · have hneed' : ((c.extend b).currentChunkSize + 2).toNat ≤
            (c.extend b).parserBuffer.length := by
          simp only [extend, List.length_append]
          omega
        rw [if_pos hneed, if_pos hneed', takeChunk_extend h hst hroom hneed]
        rcases c.takeChunk with e | c' <;> rfl
      · exact absurd (if_neg hneed) (hs c)
  | trailer =>
      rw [step_trailer hnil hst] at hs ⊢
      rw [step_trailer hnil' hst]
      rcases hloc : find c.needle c.parserBuffer with _ | loc
      · exact absurd (by rw [hloc]) (hs c)
      · have hloc' : find (c.extend b).needle (c.extend b).parserBuffer = some loc :=
          find_append_of_some hloc b
        rw [hloc']
        rfl

/-- **The loop of the cursor reads growing input:** running on the longer buffer
is running on the shorter one and, if that asks for more, on the rest. -/
theorem run_extend {room : ℕ} (h : c.Reading room) (hroom : room + b.length ≤ bufferSize) :
    loop.run (c.extend b) = loop.run c >>= fun
      | .npos c' => loop.run (c'.extend b)
      | .ends t => .ok (.ends t) := by
  refine Loop.run_simulate (L := loop) (M := loop) (I := Reading room)
    (F := fun c => c.extend b) (fun c e hc he => ?_) (fun c c' hc hc' => ?_)
    (fun c r hc hr => ?_) h
  · have := step_extend hc hroom (b := b) fun c' hc' => by
      have := he.symm.trans hc'
      cases this
    exact this.trans (by rw [show c.step = _ from he]; rfl)
  · have := step_extend hc hroom (b := b) fun c₁ hc₁ => by
      have := hc'.symm.trans hc₁
      cases this
    exact ⟨(hc.next hc').2, this.trans (by rw [show c.step = _ from hc']; rfl)⟩
  · cases r with
    | npos c' =>
        obtain ⟨rfl, -⟩ := step_npos hr
        rfl
    | ends t =>
        have := step_extend hc hroom (b := b) fun c₁ hc₁ => by
          have := hr.symm.trans hc₁
          cases this
        exact Loop.run_of_leave (this.trans (by rw [show c.step = _ from hr]; rfl))

/-- The bytes parsed and the bytes held add up to `total`, and the buffer is new
bytes behind quiet ones. -/
structure Accounted (total room : ℕ) (c : ChunkCursor) : Prop where
  total_eq : c.parsedSoFar + c.parserBuffer.length = total
  reading : c.Reading room

/-- **A step keeps the account.** -/
theorem Accounted.next {total room : ℕ} (h : c.Accounted total room)
    (hs : c.step = .ok (.inl c')) : c'.Accounted total room := by
  obtain ⟨n, hn, hdrop, hparsed, -⟩ := step_next hs
  refine ⟨?_, (h.reading.next hs).2⟩
  have := h.total_eq
  rw [hparsed, hdrop, List.length_drop]
  omega

/-- **Where the loop asks for more**, all bytes are parsed or held and the held
ones are quiet. -/
theorem run_npos {total room : ℕ} (h : c.Accounted total room)
    (hr : loop.run c = .ok (.npos c')) :
    c'.parsedSoFar + c'.parserBuffer.length = total ∧ c'.Quiet c'.parserBuffer := by
  refine Loop.run_post (L := loop) (I := Accounted total room)
    (Q := fun r => ∀ c', r = .npos c' →
      c'.parsedSoFar + c'.parserBuffer.length = total ∧ c'.Quiet c'.parserBuffer)
    (fun _ _ hc hs => hc.next hs) (fun c r hc hs c' hr => ?_) h hr c' rfl
  subst hr
  obtain ⟨rfl, hq⟩ := step_npos hs
  exact ⟨hc.total_eq, hq⟩

/-- **Where the loop finds the end**, it lies past the bytes that came before and
not past the last of the new ones. -/
theorem run_ends {total room t : ℕ} (h : c.Accounted total room)
    (hr : loop.run c = .ok (.ends t)) : total < t + room ∧ t ≤ total := by
  refine Loop.run_post (L := loop) (I := Accounted total room)
    (Q := fun r => ∀ t, r = .ends t → total < t + room ∧ t ≤ total)
    (fun _ _ hc hs => hc.next hs) (fun c r hc hs t hr => ?_) h hr t rfl
  subst hr
  obtain ⟨hst, loc, hloc, rfl⟩ := step_ends hs
  obtain ⟨old, new, hbuf, hq, hroom⟩ := hc.reading
  have htotal := hc.total_eq
  have hle := add_length_le_of_find hloc
  rw [Quiet, hst] at hq
  rw [hbuf] at hloc hle htotal
  have hlt := length_lt_of_find_append hq hloc
  rw [List.length_append] at hle htotal
  omega

end ChunkCursor

namespace ChunkedBodyParser

/-- The accounting at the end of `read`: `npos` acknowledges the input, and the
amount returned counts from the bytes acknowledged before. -/
def account (inputLength acked : ℕ) :
    ReadOutcome ChunkCursor → Except Fault (ReadOutcome ChunkedBodyParser)
  | .npos c => .ok (.npos { c with ackedSoFar := acked + inputLength })
  | .ends t => do
      assert (acked < t) "parsed_so_far_ > acked_so_far_"
      return .ends (t - acked)

/-- A round of `read` is a round of the cursor, with the accounting where it
leaves. -/
theorem readStep_eq (inputLength : ℕ) (p : ChunkedBodyParser) :
    p.readStep inputLength = p.toChunkCursor.step >>= fun
      | .inl c => .ok (.inl { c with ackedSoFar := p.ackedSoFar })
      | .inr r => account inputLength p.ackedSoFar r >>= fun r => .ok (.inr r) := by
  by_cases hnil : p.parserBuffer = []
  · rw [ChunkCursor.step_nil hnil, readStep, if_pos hnil]
    rfl
  cases hst : p.state with
  | chunkHdr =>
      rw [ChunkCursor.step_chunkHdr hnil hst, readStep, if_neg hnil, hst]
      rcases find CRLF p.parserBuffer with _ | it
      · rfl
      · rcases h : p.takeHeader it with e | c <;> simp only [h] <;> rfl
  | chunk =>
      rw [ChunkCursor.step_chunk hnil hst, readStep, if_neg hnil, hst]
      split_ifs
      · rcases p.takeChunk with e | c <;> rfl
      · rfl
  | trailer =>
      rw [ChunkCursor.step_trailer hnil hst, readStep, if_neg hnil, hst]
      simp only [computeAckSize]
      rcases find p.needle p.parserBuffer with _ | loc
      · rfl
      · simp only [ok_bind, account]
        rcases assert (p.ackedSoFar < p.parsedSoFar + (loc + p.needle.length)) _ with e | u <;> rfl

/-- A round of the loop is a step. -/
theorem readStep_next {inputLength : ℕ} {p p' : ChunkedBodyParser}
    (h : p.readStep inputLength = .ok (.inl p')) :
    p.toChunkCursor.step = .ok (.inl p'.toChunkCursor) := by
  rw [readStep_eq] at h
  rcases hs : p.toChunkCursor.step with e | c | r
  · simp [hs] at h
  · simp only [hs, ok_bind] at h
    cases h
    rfl
  · simp only [hs, ok_bind] at h
    obtain ⟨_, -, h⟩ := bind_eq_ok.1 h
    cases h

/-- The loop of `ChunkedBodyParser::read`. -/
def readLoop (inputLength : ℕ) :
    Loop Fault ChunkedBodyParser (ReadOutcome ChunkedBodyParser) where
  step := readStep inputLength
  measure p := p.toChunkCursor.measure
  decreases h := ChunkCursor.loop.decreases (readStep_next h)

/-- `ChunkedBodyParser::read`. -/
def read (p : ChunkedBodyParser) (input : Bytes) : Except Fault (ReadOutcome ChunkedBodyParser) :=
  (readLoop input.length).run { p with parserBuffer := p.parserBuffer ++ input }

/-- **`read` is the loop of the cursor followed by the accounting.** -/
theorem read_eq (p : ChunkedBodyParser) (input : Bytes) :
    p.read input = ChunkCursor.loop.run (p.toChunkCursor.extend input) >>=
      account input.length p.ackedSoFar := by
  refine Loop.run_simulate (L := ChunkCursor.loop) (M := readLoop input.length)
    (I := fun _ => True) (F := fun c => { c with ackedSoFar := p.ackedSoFar })
    (fun c e _ he => ?_) (fun c c' _ hc => ⟨trivial, ?_⟩) (fun c r _ hr => ?_) trivial
  · exact (readStep_eq _ _).trans (by rw [show c.step = _ from he]; rfl)
  · exact (readStep_eq _ _).trans (by rw [show c.step = _ from hc]; rfl)
  · have hstep : (readLoop input.length).step { c with ackedSoFar := p.ackedSoFar } =
        account input.length p.ackedSoFar r >>= fun r => .ok (.inr r) :=
      (readStep_eq _ _).trans (by rw [show c.step = _ from hr]; rfl)
    rcases ha : account input.length p.ackedSoFar r with e | x <;> rw [ha] at hstep
    · exact Loop.run_of_error hstep
    · exact Loop.run_of_leave hstep

/-- What holds of the parser between two calls of `read`. -/
structure Settled (p : ChunkedBodyParser) : Prop where
  acked : p.ackedSoFar = p.parsedSoFar + p.parserBuffer.length
  quiet : p.Quiet p.parserBuffer

/-- A new parser is settled. -/
theorem settled_new (trailersEnabled : Bool) :
    ({ trailersEnabled } : ChunkedBodyParser).Settled :=
  ⟨rfl, ChunkCursor.quiet_nil _⟩

variable {p p' : ChunkedBodyParser} {a b : Bytes}

/-- The account of a piece that was just appended. -/
theorem Settled.accounted (h : p.Settled) (a : Bytes) :
    (p.toChunkCursor.extend a).Accounted (p.ackedSoFar + a.length) a.length :=
  ⟨by rw [h.acked]; simp [ChunkCursor.extend]; omega, ChunkCursor.reading_extend h.quiet a⟩

/-- **A `read` that returns `npos` leaves a settled parser:** it has acknowledged
its input, and no further round is possible on what it holds. -/
theorem Settled.read_npos (h : p.Settled) (hr : p.read a = .ok (.npos p')) :
    p'.Settled ∧ p'.ackedSoFar = p.ackedSoFar + a.length := by
  rw [read_eq] at hr
  obtain ⟨c | t, hc, hr⟩ := bind_eq_ok.1 hr
  · cases hr
    obtain ⟨htotal, hq⟩ := ChunkCursor.run_npos (h.accounted a) hc
    exact ⟨⟨htotal.symm, hq⟩, rfl⟩
  · obtain ⟨_, _, hr⟩ := bind_eq_ok.1 hr
    cases hr

/-- **A `read` that completes the body ends inside its own input.** -/
theorem Settled.read_ends {n : ℕ} (h : p.Settled) (hr : p.read a = .ok (.ends n)) :
    1 ≤ n ∧ n ≤ a.length := by
  rw [read_eq] at hr
  obtain ⟨c | t, hc, hr⟩ := bind_eq_ok.1 hr
  · cases hr
  · obtain ⟨_, _, hr⟩ := bind_eq_ok.1 hr
    cases hr
    have := ChunkCursor.run_ends (h.accounted a) hc
    omega

/-- The outcome of a `read` whose input came after `n` bytes, told of both. -/
def shift (n : ℕ) : ReadOutcome ChunkedBodyParser → ReadOutcome ChunkedBodyParser
  | .npos p => .npos p
  | .ends k => .ends (n + k)

/-- **Reading `a ++ b` is reading `a` and then `b`.** -/
theorem Settled.read_append (h : p.Settled) (hlen : (a ++ b).length ≤ bufferSize) :
    p.read (a ++ b) = p.read a >>= fun
      | .npos p' => p'.read b >>= fun r => .ok (shift a.length r)
      | .ends n => .ok (.ends n) := by
  rw [List.length_append] at hlen
  rw [read_eq, read_eq, ← ChunkCursor.extend_extend,
    ChunkCursor.run_extend (h.accounted a).reading hlen]
  rcases hc : ChunkCursor.loop.run (p.toChunkCursor.extend a) with e | c | t
  · rfl
  · -- the first part asked for more: compare the rest, and where it ends
    obtain ⟨htotal, hq⟩ := ChunkCursor.run_npos (h.accounted a) hc
    set p₁ : ChunkedBodyParser := { c with ackedSoFar := p.ackedSoFar + a.length } with hp₁
    have hset : p₁.Settled := ⟨htotal.symm, hq⟩
    change _ = p₁.read b >>= fun r => .ok (shift a.length r)
    rw [read_eq]
    change ChunkCursor.loop.run (p₁.toChunkCursor.extend b) >>= _ = _
    rcases hc' : ChunkCursor.loop.run (p₁.toChunkCursor.extend b) with e | c' | t
    · rfl
    · simp [account, shift, hp₁, Nat.add_assoc]
    · have hends := ChunkCursor.run_ends (hset.accounted b) hc'
      have hacked : p₁.ackedSoFar = p.ackedSoFar + a.length := rfl
      simp only [ok_bind, account]
      rw [assert_of (by omega), assert_of (by omega)]
      simp only [ok_bind, shift]
      change Except.ok (ReadOutcome.ends _) = Except.ok (ReadOutcome.ends _)
      rw [hacked]
      congr 2
      omega
  · simp only [ok_bind, account]
    rcases assert (p.ackedSoFar < t) _ with e | u <;> rfl

end ChunkedBodyParser

end V2Proxy
