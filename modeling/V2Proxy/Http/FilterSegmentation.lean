/-
# The filter sees where the stream was cut

`HTTPMessageSequence::parse` puts requests together again however the stream was
cut, but `v2filter_client` looks at each buffer that `client.read()` returns by
itself.  A buffer is `Touched` if it has the keywords of a resource, or is the
word that stands for a refusal.  Buffers that are not touched pass unchanged; a
touched one is granted something, refused, or makes the filter throw
(`Touched.decided`).
-/

import V2Proxy.Http.Conservation
import V2Proxy.Http.V2FilterClient

namespace V2Proxy

open Foundations HTTPMessageSequence

/-- A way of cutting the stream into buffers that `read` can return. -/
structure IsCut (w : Bytes) (pieces : List Bytes) : Prop where
  bounded : ∀ p ∈ pieces, p ≠ [] ∧ p.length ≤ bufferSize
  flatten : pieces.flatten = w

/-- The filter does something with the buffer. -/
def Touched (buffer : Bytes) : Prop :=
  isEc2 buffer = true ∨ isLambda buffer = true ∨ buffer = BLOCKED

instance : DecidablePred Touched := fun buffer =>
  inferInstanceAs (Decidable (isEc2 buffer = true ∨ isLambda buffer = true ∨ buffer = BLOCKED))

/-- The filter passes an untouched buffer on. -/
theorem v2filterClient_of_not_touched {buffer : Bytes} (h : ¬ Touched buffer)
    (list : CloudResourceList) : v2filterClient buffer list = .ok (buffer, list) := by
  simp only [Touched, not_or, Bool.not_eq_true] at h
  exact v2filterClient_of_quiet h.1 h.2.1 list

/-- The word that a touched buffer contains. -/
theorem Touched.letter {buffer : Bytes} (h : Touched buffer) :
    ∃ c, c ∉ dropped ∧ c ∈ buffer := by
  have hmem : ∀ {pat : Bytes} {c : UInt8}, contains pat buffer = true → c ∈ pat → c ∈ buffer :=
    fun hpat hc => (find_isSome_iff.1 hpat).subset hc
  rcases h with h | h | rfl
  · exact ⟨82, by decide, hmem (Bool.and_eq_true _ _ ▸ h).2 (by decide)⟩
  · exact ⟨108, by decide, hmem h (by decide)⟩
  · exact ⟨66, by decide, by decide⟩

/-- A single byte is not touched. -/
theorem not_touched_singleton (c : UInt8) : ¬ Touched [c] := by
  have hshort : ∀ {pat : Bytes}, 1 < pat.length → contains pat [c] = false := by
    intro pat hpat
    rw [contains, ← Bool.not_eq_true, find_isSome_iff]
    intro h
    have := h.length_le
    rw [List.length_singleton] at this
    omega
  rintro (h | h | h)
  · rw [isEc2, hshort (by decide)] at h
    cases h
  · rw [isLambda, hshort (by decide)] at h
    cases h
  · have hlen := congrArg List.length h
    rw [List.length_singleton] at hlen
    exact absurd hlen (by decide)

namespace Filtering

/-- What is true of a round of the filter that found its keywords: the text is
refused, or the invoked list has grown. -/
structure Decided (list : CloudResourceList) (f : Filtering) : Prop where
  grows : list.invoked.length ≤ f.list.invoked.length
  decided : f.clientMessage = BLOCKED ∨ list.invoked.length < f.list.invoked.length

theorem Decided.limitOther {list : CloudResourceList} {f : Filtering} (h : f.Decided list)
    (resourceType : Bytes) : (f.limitOther resourceType).deliver.Decided list := by
  obtain ⟨hgrows, hdecided⟩ := h
  obtain ⟨⟨-, hsame, hlen⟩ | ⟨-, hblocked, hinvoked⟩, -⟩ := f.limitOther_deliver resourceType
  · exact ⟨by omega, Or.inr (by omega)⟩
  · exact ⟨by rw [hinvoked]; exact hgrows, Or.inl hblocked⟩

theorem decided_grantEc2 (f : Filtering) (resourceType : Bytes) (count : ℤ) :
    (f.grantEc2 resourceType count).deliver.Decided f.list := by
  have hlength := f.list.length_invokeMany resourceType count
  by_cases hzero : f.list.grant count = 0
  · rw [deliver_refused hzero]
    exact ⟨by dsimp only; omega, Or.inl rfl⟩
  · rw [deliver_granted hzero]
    exact ⟨by dsimp only; omega, Or.inr (by dsimp only; omega)⟩

end Filtering

/-- **What the filter does with a touched buffer, when it does not throw:** it
refuses it, or grants something. -/
theorem Touched.decided {buffer message : Bytes} {list list' : CloudResourceList}
    (h : Touched buffer) (hv : v2filterClient buffer list = .ok (message, list')) :
    message = BLOCKED ∨ list.invoked.length < list'.invoked.length := by
  rw [v2filterClient_rounds] at hv
  obtain ⟨f, hf, hv⟩ := bind_eq_ok.1 hv
  have hpair := Except.ok.inj hv
  rw [Filtering.lastRound] at hpair
  by_cases hec2 : isEc2 buffer = true
  · rw [if_pos hec2] at hf
    obtain ⟨count, -, hf⟩ := bind_eq_ok.1 hf
    obtain rfl := Except.ok.inj hf
    have hd := Filtering.decided_grantEc2
      { message := buffer, clientMessage := buffer, list := list } (ascii "ec2") count
    split_ifs at hpair
    · obtain ⟨rfl, rfl⟩ := Prod.mk.inj hpair
      have hlast := hd.limitOther (ascii "lambda")
      exact hlast.decided
    · obtain ⟨rfl, rfl⟩ := Prod.mk.inj hpair
      exact hd.decided
  · rw [if_neg hec2] at hf
    obtain rfl := Except.ok.inj hf
    split_ifs at hpair with hlambda
    · obtain ⟨rfl, rfl⟩ := Prod.mk.inj hpair
      obtain ⟨⟨-, -, hlen⟩ | ⟨-, hblocked, hinvoked⟩, -⟩ := Filtering.limitOther_deliver
        { message := buffer, clientMessage := buffer, list := list } (ascii "lambda")
      · exact Or.inr (by rw [hlen]; exact Nat.lt_succ_self _)
      · exact Or.inl hblocked
    · obtain ⟨rfl, rfl⟩ := Prod.mk.inj hpair
      rcases h with h | h | h
      · exact absurd h hec2
      · exact absurd h hlambda
      · exact Or.inl h

/-- The cut into single bytes. -/
theorem isCut_bytes (w : Bytes) : IsCut w (w.map fun c => [c]) := by
  refine ⟨fun p hp => ?_, by induction w <;> simp_all⟩
  obtain ⟨c, -, rfl⟩ := List.mem_map.1 hp
  exact ⟨by simp, by rw [List.length_singleton]; decide⟩

/-- A buffer that can be cut out, and single bytes around it. -/
theorem isCut_around {w u x v : Bytes} (hx : u ++ x ++ v = w) (hne : x ≠ [])
    (hlen : x.length ≤ bufferSize) :
    IsCut w (u.map (fun c => [c]) ++ x :: v.map fun c => [c]) := by
  refine ⟨fun p hp => ?_, ?_⟩
  · rcases List.mem_append.1 hp with hp | hp
    · exact (isCut_bytes u).bounded p hp
    · rcases List.mem_cons.1 hp with rfl | hp
      · exact ⟨hne, hlen⟩
      · exact (isCut_bytes v).bounded p hp
  · rw [List.flatten_append, List.flatten_cons, (isCut_bytes u).flatten,
      (isCut_bytes v).flatten, ← List.append_assoc, hx]

/-- A buffer of a cut is one that can be cut out. -/
theorem IsCut.infix_of_mem {w b : Bytes} {pieces : List Bytes} (h : IsCut w pieces)
    (hb : b ∈ pieces) : b <:+: w := by
  rw [← h.flatten]
  exact List.infix_of_mem_flatten hb

/-- A stream without any of the words has nothing to be touched. -/
theorem not_touched_of_infix {w x : Bytes} (hx : x <:+: w)
    (hw : contains (ascii "RunInstances") w = false ∧ isLambda w = false ∧
      contains BLOCKED w = false) : ¬ Touched x := by
  have hcontains : ∀ {pat : Bytes}, contains pat x = true → contains pat w = true := fun h =>
    find_isSome_iff.2 ((find_isSome_iff.1 h).trans hx)
  obtain ⟨hec2, hlambda, hblocked⟩ := hw
  rintro (h | h | rfl)
  · have := hcontains (Bool.and_eq_true _ _ ▸ h).2
    rw [hec2] at this
    cases this
  · have := hcontains h
    rw [show contains (ascii "lambda") w = false from hlambda] at this
    cases this
  · rw [hcontains (find_isSome_iff.2 List.infix_rfl)] at hblocked
    cases hblocked

end V2Proxy
