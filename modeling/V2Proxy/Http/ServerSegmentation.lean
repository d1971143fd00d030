/-
# The ids depend on where the stream was cut

`v2filter_server` looks for the two tags in each buffer that `server.read()` returns by
itself.  Cut into single bytes, a stream has no id.  So all cuts of a stream assign the
same ids exactly when no buffer that could be cut out of it assigns anything: if it has
both tags, what is between them is empty and there is a resource to give it to
(`responses_agree_iff`).
-/

import V2Proxy.Http.FilterSegmentation
import V2Proxy.Http.InstanceIds

namespace V2Proxy

open Foundations CloudResourceList

/-- Buffers read from the server, one after the other.  An exception ends the
connection. -/
def collectAll (list : CloudResourceList) (buffers : List Bytes) : Except Thrown CloudResourceList :=
  buffers.foldlM (fun list buffer => v2filterServer buffer list) list

/-- What is left of it: whether it raised, and the ids of the resources. -/
def collected (list : CloudResourceList) (buffers : List Bytes) : Bool × List Bytes :=
  match collectAll list buffers with
  | .ok list' => (false, list'.invoked.map CloudResource.serialIdentifier)
  | .error t => (true, t.list.invoked.map CloudResource.serialIdentifier)

/-- If a buffer has both tags, the first id is empty, and there is a resource that waits
for one: the end tag stands right behind the tag, or the buffer ends there. -/
def Harmless (list : CloudResourceList) (buffer : Bytes) : Prop :=
  ∀ first last, find openTag buffer = some first → find closeTag buffer = some last →
    0 < list.waiting ∧ (last = first + 12 ∨ buffer.length = first + 12)

/-! ### Buffers without effect -/

/-- A text without one of the tags has no id. -/
theorem instanceIds_of_none {buffer : Bytes}
    (h : find openTag buffer = none ∨ find closeTag buffer = none) : instanceIds buffer = [] := by
  rw [instanceIds]
  rcases h with h | h
  · rw [h, idsFrom]
    intro _ _ _ _ hfirst
    cases hfirst
  · rw [h, idsFrom]
    intro _ _ _ _ _ hlast
    cases hlast

/-- The first id of a text. -/
theorem instanceIds_eq_cons {buffer : Bytes} {first last : ℕ}
    (hfirst : find openTag buffer = some first) (hlast : find closeTag buffer = some last) :
    ∃ ids, instanceIds buffer =
      (buffer.drop (first + 12)).take (sizeSub last (first + 12)) :: ids := by
  rw [instanceIds, hfirst, hlast, idsFrom]
  exact ⟨_, rfl⟩

theorem collectAll_of_unchanged {list : CloudResourceList} {buffers : List Bytes}
    (h : ∀ buffer ∈ buffers, v2filterServer buffer list = .ok list) :
    collectAll list buffers = .ok list := by
  induction buffers with
  | nil => rfl
  | cons buffer buffers ih =>
      rw [collectAll, List.foldlM_cons, h buffer List.mem_cons_self, ok_bind]
      exact ih fun b hb => h b (List.mem_cons_of_mem _ hb)

/-- Single bytes have no ids. -/
theorem collectAll_bytes (list : CloudResourceList) (w : Bytes) :
    collectAll list (w.map fun c => [c]) = .ok list := by
  refine collectAll_of_unchanged fun buffer hbuffer => ?_
  obtain ⟨c, -, rfl⟩ := List.mem_map.1 hbuffer
  have hnone : find openTag [c] = none := by
    refine find_eq_none_iff.2 fun hinfix => ?_
    have hlength := hinfix.length_le
    rw [length_openTag, List.length_singleton] at hlength
    omega
  rw [v2filterServer, collectResourceData_eq, instanceIds_of_none (Or.inl hnone)]
  rfl

/-- Around a buffer, single bytes change nothing. -/
theorem collected_around (list : CloudResourceList) (u x v : Bytes) :
    collected list (u.map (fun c => [c]) ++ x :: v.map fun c => [c]) = collected list [x] := by
  have hcut : collectAll list (u.map (fun c => [c]) ++ x :: v.map fun c => [c]) =
      v2filterServer x list := by
    have hu : List.foldlM (fun list buffer => v2filterServer buffer list) list
        (u.map fun c => [c]) = .ok list := collectAll_bytes list u
    rw [collectAll, List.foldlM_append, hu, ok_bind, List.foldlM_cons]
    rcases v2filterServer x list with t | list'
    · rfl
    · exact collectAll_bytes list' v
  have hone : collectAll list [x] = v2filterServer x list := by
    rw [collectAll, List.foldlM_cons]
    rcases v2filterServer x list with t | list' <;> rfl
  rw [collected, collected, hcut, hone]

/-! ### A buffer with an id -/

/-- **A buffer that is not harmless leaves a trace:** its first id is an exception, or is
recorded. -/
theorem collected_of_not_harmless {list : CloudResourceList} {x : Bytes}
    (hlength : x.length < 2 ^ 64) (h : ¬ Harmless list x) :
    collected list [x] ≠ (false, list.invoked.map CloudResource.serialIdentifier) := by
  rw [Harmless] at h
  push Not at h
  obtain ⟨first, last, hfirst, hlast, hid⟩ := h
  obtain ⟨ids, hids⟩ := instanceIds_eq_cons hfirst hlast
  have hone : collectAll list [x] = (instanceIds x).foldlM assignId list := by
    rw [← collectResourceData_eq, collectAll, List.foldlM_cons, v2filterServer]
    rcases collectResourceData x list with t | list' <;> rfl
  rcases Nat.eq_zero_or_pos list.waiting with hzero | hpos
  · obtain ⟨t, -, herror⟩ := assignId_full hzero
      ((x.drop (first + 12)).take (sizeSub last (first + 12)))
    have hraised : (instanceIds x).foldlM assignId list = .error t := by
      rw [hids, List.foldlM_cons, herror]
      rfl
    rw [collected, hone, hraised]
    intro heq
    cases congrArg Prod.fst heq
  · obtain ⟨hbehind, hend⟩ := hid hpos
    have hfits := add_length_le_of_find hfirst
    have hfits' := add_length_le_of_find hlast
    rw [length_openTag] at hfits
    rw [length_closeTag] at hfits'
    have hne : (x.drop (first + 12)).take (sizeSub last (first + 12)) ≠ [] := by
      refine List.ne_nil_of_length_pos ?_
      rw [List.length_take, List.length_drop, sizeSub]
      omega
    have hgrown := (recorded_afterIds (instanceIds x) list).length_eq
    have hnonempty : 0 < ((instanceIds x).filter (· ≠ [])).length := by
      rw [hids, List.filter_cons_of_pos (by simpa using hne)]
      exact Nat.succ_pos _
    rw [List.length_append, List.length_take] at hgrown
    have hserials : (collected list [x]).2 =
        (afterIds list (instanceIds x)).invoked.map CloudResource.serialIdentifier := by
      rw [collected, hone, afterIds]
      rcases (instanceIds x).foldlM assignId list with t | list' <;> rfl
    intro heq
    have hsame : (afterIds list (instanceIds x)).recorded = list.recorded := by
      rw [recorded, ← hserials, heq, recorded]
    rw [hsame] at hgrown
    omega

/-! ### Buffers without an id -/

/-- If what could be cut out of a text is harmless, every id found is empty. -/
theorem idsFrom_empty {list : CloudResourceList} {x : Bytes} (hlength : x.length < 2 ^ 64)
    (h : ∀ pos, Harmless list (x.drop pos)) (fuel pos : ℕ) :
    ∀ id ∈ idsFrom x fuel (findFrom openTag x pos) (findFrom closeTag x pos), id = [] := by
  induction fuel generalizing pos with
  | zero =>
      intro id hid
      rw [idsFrom] at hid
      · exact absurd hid List.not_mem_nil
      · intro _ _ _ hfuel
        cases hfuel
  | succ fuel ih =>
      rcases hfirst : findFrom openTag x pos with _ | first
      · intro id hid
        exact absurd hid List.not_mem_nil
      rcases hlast : findFrom closeTag x pos with _ | last
      · intro id hid
        exact absurd hid List.not_mem_nil
      intro id hid
      rw [idsFrom] at hid
      rcases List.mem_cons.1 hid with rfl | hid
      · obtain ⟨i, hi, rfl⟩ := findFrom_eq hfirst
        obtain ⟨j, hj, rfl⟩ := findFrom_eq hlast
        have hfits := (findFrom_bounds hfirst).2
        rw [length_openTag] at hfits
        rcases (h pos i j hi hj).2 with hbehind | hend
        · have hzero : sizeSub (pos + j) (pos + i + 12) = 0 := by
            rw [hbehind, sizeSub_of_le (by omega) (by omega)]
            omega
          rw [hzero, List.take_zero]
        · rw [List.length_drop] at hend
          rw [List.drop_eq_nil_of_le (by omega), List.take_nil]
      · exact ih (last + 12) id hid

/-- If what could be cut out of a buffer is harmless, the buffer has no effect. -/
theorem v2filterServer_of_harmless {list : CloudResourceList} {x : Bytes} (hlength : x.length < 2 ^ 64)
    (h : ∀ pos, Harmless list (x.drop pos)) : v2filterServer x list = .ok list := by
  rw [v2filterServer, collectResourceData_eq]
  have hzero : ∀ pat : Bytes, findFrom pat x 0 = find pat x := by
    intro pat
    rw [findFrom, if_pos (Nat.zero_le _), List.drop_zero]
    simp
  have hempty := idsFrom_empty hlength h (x.length + 1) 0
  rw [hzero, hzero] at hempty
  change ∀ id ∈ instanceIds x, id = [] at hempty
  rcases hfirst : find openTag x with _ | first
  · rw [instanceIds_of_none (Or.inl hfirst)]
    rfl
  rcases hlast : find closeTag x with _ | last
  · rw [instanceIds_of_none (Or.inr hlast)]
    rfl
  have hpos : 0 < list.waiting := (h 0 first last hfirst hlast).1
  generalize instanceIds x = ids at hempty
  induction ids with
  | nil => rfl
  | cons id ids ih =>
      rw [hempty id List.mem_cons_self, List.foldlM_cons, assignId_empty hpos, ok_bind]
      exact ih fun id' hid' => hempty id' (List.mem_cons_of_mem _ hid')

/-! ### All cuts -/

/-- **The ids are independent of segmentation exactly when every buffer that could be cut
out of the stream is harmless.** -/
theorem responses_agree_iff (w : Bytes) (list : CloudResourceList) :
    (∀ pieces pieces', IsCut w pieces → IsCut w pieces' →
      collected list pieces = collected list pieces') ↔
    ∀ x, x <:+: w → x.length ≤ bufferSize → Harmless list x := by
  have hbound : bufferSize < 2 ^ 64 := by decide
  have hbytes : collected list (w.map fun c => [c]) =
      (false, list.invoked.map CloudResource.serialIdentifier) := by
    rw [collected, collectAll_bytes]
  constructor
  · rintro h x ⟨u, v, hx⟩ hlen
    by_contra hharm
    refine collected_of_not_harmless (by omega) hharm ?_
    have hne : x ≠ [] := by
      rintro rfl
      refine hharm fun first last hfirst _ => ?_
      have hfits := add_length_le_of_find hfirst
      rw [length_openTag, List.length_nil] at hfits
      omega
    rw [← collected_around list u x v, h _ _ (isCut_around hx hne hlen) (isCut_bytes w), hbytes]
  · intro h
    have hall : ∀ pieces, IsCut w pieces → collected list pieces =
        (false, list.invoked.map CloudResource.serialIdentifier) := by
      intro pieces hcut
      rw [collected, collectAll_of_unchanged]
      intro buffer hbuffer
      have hlen := (hcut.bounded buffer hbuffer).2
      refine v2filterServer_of_harmless (by omega) fun pos => h _ ?_ ?_
      · exact (List.drop_suffix pos buffer).isInfix.trans (hcut.infix_of_mem hbuffer)
      · rw [List.length_drop]
        omega
    intro pieces pieces' hcut hcut'
    rw [hall pieces hcut, hall pieces' hcut']

/-- **The ids depend on segmentation:** an id in one buffer is recorded, and cut in two it
is not. -/
theorem responses_disagree :
    ¬ ∀ (w : Bytes) (list : CloudResourceList) (pieces pieces' : List Bytes),
      IsCut w pieces → IsCut w pieces' → collected list pieces = collected list pieces' := by
  intro h
  have hcut := h (ascii "<instanceId>i-1</instanceId>")
    (({} : CloudResourceList).invokeResource (ascii "ec2")).2
    [ascii "<instanceId>i-1</instanceId>"] [ascii "<instanceId>i-", ascii "1</instanceId>"]
    ⟨by decide +kernel, by decide +kernel⟩ ⟨by decide +kernel, by decide +kernel⟩
  revert hcut
  decide +kernel

end V2Proxy
