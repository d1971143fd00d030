/-
# Which resource gets which id

`assign_resource_id` looks for a resource that waits for an id, and so does every id of a
response anew.  All in all the ids go, in order, to the resources that wait, in order
(`Assigned`): the `i`-th element of a response to the `i`-th of them (`collect_assigns`).

What has been assigned before an exception stays assigned.  `collect_resource_data` fails
just at an id for which no resource is left, so the list it leaves has no resource that
waits, and is the old list only if that had none either (`failure_leaves`).
-/

import V2Proxy.Http.InstanceIds

namespace V2Proxy

open Foundations

namespace CloudResourceList

/-- A resource once `ids` have been assigned, with `before` resources in front of it that
waited. -/
def withId (ids : List Bytes) (before : ℕ) (resource : CloudResource) : CloudResource :=
  if Waits resource then
    match ids[before]? with
    | some id => { resource with serialIdentifier := id }
    | none => resource
  else resource

/-- `l'` is `l` with the ids given, in order, to the first resources that wait for one. -/
structure Assigned (ids : List Bytes) (l l' : CloudResourceList) : Prop where
  invoked : ∀ j : ℕ, l'.invoked[j]? =
    (l.invoked[j]?).map (withId ids ((l.invoked.take j).countP Waits))
  blocked : l'.blocked = l.blocked

/-- The ids given to the resources in one pass. -/
def fill : List Bytes → List CloudResource → List CloudResource
  | id :: ids, resource :: rest =>
      if Waits resource then { resource with serialIdentifier := id } :: fill ids rest
      else resource :: fill (id :: ids) rest
  | _, resources => resources

variable {ids : List Bytes} {id : Bytes} {resource : CloudResource}
  {resources before after : List CloudResource} {list list' : CloudResourceList}

@[simp] theorem fill_nil (resources : List CloudResource) : fill [] resources = resources := by
  cases resources <;> rfl

theorem fill_waits (h : Waits resource) (id : Bytes) (ids : List Bytes) (rest : List CloudResource) :
    fill (id :: ids) (resource :: rest) =
      { resource with serialIdentifier := id } :: fill ids rest := by
  rw [fill, if_pos h]

/-- A resource that does not wait is passed over. -/
theorem fill_not_waits (h : ¬ Waits resource) (ids : List Bytes) (rest : List CloudResource) :
    fill ids (resource :: rest) = resource :: fill ids rest := by
  cases ids with
  | nil => simp
  | cons id ids => rw [fill, if_neg h]

theorem fill_append (h : ∀ r ∈ before, ¬ Waits r) (ids : List Bytes) :
    fill ids (before ++ after) = before ++ fill ids after := by
  induction before with
  | nil => rfl
  | cons r before ih =>
      rw [List.cons_append, fill_not_waits (h r (by simp)), ih fun r' hr' =>
        h r' (List.mem_cons_of_mem r hr')]
      rfl

/-- One id after the other is all in one pass. -/
theorem fill_cons (hid : id ≠ []) (ids : List Bytes) (resources : List CloudResource) :
    fill (id :: ids) resources = fill ids (fill [id] resources) := by
  induction resources with
  | nil => cases ids <;> rfl
  | cons r resources ih =>
      by_cases hwaits : Waits r
      · have hgiven : ¬ Waits { r with serialIdentifier := id } := fun hw => hid hw.2
        rw [fill_waits hwaits, fill_waits hwaits, fill_nil, fill_not_waits hgiven]
      · rw [fill_not_waits hwaits, fill_not_waits hwaits, fill_not_waits hwaits, ih]

/-- **The pass, resource by resource.** -/
theorem getElem?_fill (ids : List Bytes) (resources : List CloudResource) (j : ℕ) :
    (fill ids resources)[j]? =
      (resources[j]?).map (withId ids ((resources.take j).countP Waits)) := by
  induction resources generalizing ids j with
  | nil => cases ids <;> rfl
  | cons r resources ih =>
      by_cases hwaits : Waits r
      · cases ids with
        | nil =>
            have hsame : ∀ k, withId [] k = fun r => r := by
              intro k
              funext r
              simp [withId]
            rw [fill_nil, hsame, Option.map_id']
        | cons id ids =>
            rw [fill_waits hwaits]
            cases j with
            | zero => simp [withId, hwaits]
            | succ j =>
                rw [List.getElem?_cons_succ, ih, List.getElem?_cons_succ, List.take_succ_cons,
                  List.countP_cons_of_pos (by simpa using hwaits)]
                rfl
      · rw [fill_not_waits hwaits]
        cases j with
        | zero => simp [withId, hwaits]
        | succ j =>
            rw [List.getElem?_cons_succ, ih, List.getElem?_cons_succ, List.take_succ_cons,
              List.countP_cons_of_neg (by simpa using hwaits)]

theorem assigned_fill (ids : List Bytes) (list : CloudResourceList) :
    Assigned ids list { list with invoked := fill ids list.invoked } :=
  ⟨getElem?_fill ids list.invoked, rfl⟩

/-- An id that is assigned goes to the first resource that waits. -/
theorem assignId_eq_fill (h : assignId list id = .ok list') :
    list' = { list with invoked := fill [id] list.invoked } := by
  rcases list.assignId_cases id with
    ⟨before, resource, after, hsplit, hwaits, hbefore, heq⟩ | ⟨-, t, -, ht⟩
  · rw [heq] at h
    rw [← Except.ok.inj h, hsplit, fill_append hbefore, fill_waits hwaits, fill_nil]
  · rw [ht] at h
    cases h

/-- An id that is not assigned finds no resource that waits. -/
theorem assignId_eq_error {t : Thrown} (h : assignId list id = .error t) :
    list.waiting = 0 ∧ t = ⟨.runtimeError
      (ascii "Failed to assign resource id to available cloud resource."), list⟩ := by
  obtain ⟨hfault, hlist⟩ := throwing_eq_error.1 h
  constructor
  · by_contra hpos
    by_cases hid : id = []
    · rw [hid, assignId_empty (Nat.pos_of_ne_zero hpos)] at h
      cases h
    · obtain ⟨list', heq, -⟩ := assignId_records (Nat.pos_of_ne_zero hpos) hid
      rw [heq] at h
      cases h
  · rw [assignResourceId] at hfault
    split at hfault
    · cases hfault
    · obtain ⟨fault, l⟩ := t
      obtain rfl := Except.error.inj hfault
      rw [show l = list from hlist]

/-- **Ids that are assigned in turn** are given in one pass, the empty ones to none; every
other one takes a resource that waits. -/
theorem foldlM_assignId_eq (h : ids.foldlM assignId list = .ok list') :
    list' = { list with invoked := fill (ids.filter (· ≠ [])) list.invoked } ∧
      (ids.filter (· ≠ [])).length + list'.waiting = list.waiting := by
  induction ids generalizing list with
  | nil =>
      cases h
      simp
  | cons id ids ih =>
      rw [List.foldlM_cons] at h
      obtain ⟨list₁, h₁, h⟩ := bind_eq_ok.1 h
      obtain ⟨hfill, hwaiting⟩ := ih h
      have hpos : 0 < list.waiting := by
        by_contra hzero
        obtain ⟨t, -, ht⟩ := assignId_full (Nat.eq_zero_of_not_pos hzero) id
        rw [ht] at h₁
        cases h₁
      by_cases hid : id = []
      · subst hid
        rw [assignId_empty hpos] at h₁
        cases h₁
        rw [List.filter_cons_of_neg (by simp)]
        exact ⟨hfill, hwaiting⟩
      · have heq₁ := assignId_eq_fill h₁
        obtain ⟨list₂, heq₂, -, hcount⟩ := assignId_records hpos hid
        rw [heq₂] at h₁
        obtain rfl := Except.ok.inj h₁
        rw [List.filter_cons_of_pos (by simpa using hid), fill_cons hid, List.length_cons]
        refine ⟨hfill.trans (by rw [heq₁]), ?_⟩
        rw [hcount, ← hwaiting, Nat.add_right_comm]

/-- As many ids as there are resources that wait can be assigned. -/
theorem foldlM_assignId_ok (hids : ∀ id ∈ ids, id ≠ []) (h : ids.length ≤ list.waiting) :
    ∃ list', ids.foldlM assignId list = .ok list' := by
  induction ids generalizing list with
  | nil => exact ⟨list, rfl⟩
  | cons id ids ih =>
      rw [List.length_cons] at h
      have hpos : 0 < list.waiting := by omega
      obtain ⟨list₁, h₁, -, hwaiting⟩ := assignId_records hpos (hids id (by simp))
      have hrest : ids.length ≤ list₁.waiting := by omega
      obtain ⟨list', h'⟩ := ih (fun id' hid' => hids id' (List.mem_cons_of_mem id hid')) hrest
      exact ⟨list', by rw [List.foldlM_cons, h₁]; exact h'⟩

end CloudResourceList

open CloudResourceList

/-- **What a failure leaves:** the ids in front of the one that failed have been given to
all the resources that waited, and nothing else has changed. -/
theorem failure_leaves {message : Bytes} {list : CloudResourceList} {t : Thrown}
    (h : collectResourceData message list = .error t) :
    t.fault = .runtimeError (ascii "Failed to assign resource id to available cloud resource.") ∧
    (∃ before id after, instanceIds message = before ++ id :: after ∧
      Assigned (before.filter (· ≠ [])) list t.list ∧
      (before.filter (· ≠ [])).length = list.waiting) ∧
    t.list.waiting = 0 ∧ (t.list = list ↔ list.waiting = 0) := by
  rw [collectResourceData_eq] at h
  obtain ⟨before, id, after, list', hids, hbefore, hid⟩ := foldlM_eq_error h
  obtain ⟨hzero, rfl⟩ := assignId_eq_error hid
  obtain ⟨hfill, hwaiting⟩ := foldlM_assignId_eq hbefore
  refine ⟨rfl, ⟨before, id, after, hids, ?_, by omega⟩, hzero, ?_⟩
  · change Assigned _ list list'
    rw [hfill]
    exact assigned_fill _ list
  · change list' = list ↔ _
    constructor
    · rintro rfl
      exact hzero
    · intro hnone
      have hnil : before.filter (· ≠ []) = [] := List.length_eq_zero_iff.1 (by omega)
      rw [hfill, hnil, fill_nil]

/-- One resource that waits. -/
def oneWaits : CloudResourceList where
  invoked := [{ resourceType := ascii "ec2", idCounter := 0, invoke := true }]

/-- The resource with an id. -/
def oneTaken : CloudResourceList where
  invoked :=
    [{ resourceType := ascii "ec2", serialIdentifier := ascii "i-1", idCounter := 0, invoke := true }]

/-- Two ids. -/
def twoIds : Bytes := ascii "<instanceId>i-1</instanceId>, <instanceId>i-2</instanceId>"

/-- The second id fails. -/
theorem failure_leaves_oneTaken :
    oneTaken.waiting = 0 ∧ (oneTaken = oneWaits ↔ oneWaits.waiting = 0) := by
  have hfail : collectResourceData twoIds oneWaits = .error ⟨.runtimeError
      (ascii "Failed to assign resource id to available cloud resource."), oneTaken⟩ := by
    decide +kernel
  exact (failure_leaves hfail).2.2

/-- **A response is half recorded:** the exception leaves the first of its two ids. -/
theorem half_recorded :
    ∃ t : Thrown, collectResourceData twoIds oneWaits = .error t ∧
      t.fault = .runtimeError (ascii "Failed to assign resource id to available cloud resource.") ∧
      t.list = oneTaken ∧ t.list ≠ oneWaits :=
  ⟨⟨.runtimeError (ascii "Failed to assign resource id to available cloud resource."), oneTaken⟩,
    by decide +kernel, rfl, rfl, by decide +kernel⟩

/-! ### Which ids a text has -/

/-- An element of a text, and what stands behind it up to the next one. -/
structure Element where
  id : Bytes
  behind : Bytes

/-- The element with its tags. -/
def Element.str (e : Element) : Bytes := openTag ++ (e.id ++ (closeTag ++ e.behind))

theorem Element.length_str (e : Element) : e.str.length = 25 + e.id.length + e.behind.length := by
  simp only [Element.str, List.length_append, length_openTag, length_closeTag]
  omega

theorem length_le_flatMap (elements : List Element) :
    elements.length ≤ (elements.flatMap Element.str).length := by
  induction elements with
  | nil => exact Nat.le_refl 0
  | cons e elements ih =>
      rw [List.flatMap_cons, List.length_append, Element.length_str, List.length_cons]
      omega

/-- From `pos` on, the tags stand in the text only as those of the elements behind `start`. -/
structure TagsFrom (message : Bytes) (pos : ℕ) (start : Bytes) (elements : List Element) : Prop where
  text : message = start ++ elements.flatMap Element.str
  opens : ∀ i, pos ≤ i → openTag <+: message.drop i → ∃ before e after,
    elements = before ++ e :: after ∧ i = start.length + (before.flatMap Element.str).length
  closes : ∀ i, pos ≤ i → closeTag <+: message.drop i → ∃ before e after,
    elements = before ++ e :: after ∧
      i = start.length + (before.flatMap Element.str).length + 12 + e.id.length

variable {message start : Bytes} {pos : ℕ} {e : Element} {elements : List Element}

/-- The tags of the first element are the first ones. -/
theorem TagsFrom.find_first (h : TagsFrom message pos start (e :: elements)) (hpos : pos ≤ start.length) :
    findFrom openTag message pos = some start.length ∧
      findFrom closeTag message pos = some (start.length + 12 + e.id.length) := by
  have htext : message = start ++ (openTag ++ (e.id ++ (closeTag ++
      (e.behind ++ elements.flatMap Element.str)))) := by
    rw [h.text, List.flatMap_cons, Element.str]
    simp only [List.append_assoc]
  have hlength : message.length =
      start.length + 25 + e.id.length + (e.behind ++ elements.flatMap Element.str).length := by
    rw [htext]
    simp only [List.length_append, length_openTag, length_closeTag]
    omega
  -- a tag of a later element is further behind
  have hlater : ∀ {before e' after}, e :: elements = before ++ e' :: after →
      before = [] ∧ e' = e ∨ 25 + e.id.length ≤ (before.flatMap Element.str).length := by
    intro before e' after hsplit
    rcases before with _ | ⟨b, before⟩
    · exact Or.inl ⟨rfl, (List.cons.inj hsplit).1.symm⟩
    · obtain rfl : e = b := (List.cons.inj hsplit).1
      refine Or.inr ?_
      rw [List.flatMap_cons, List.length_append, Element.length_str]
      omega
  constructor
  · refine findFrom_eq_some hpos (by omega) ?_ fun j hj hlt hat => ?_
    · rw [htext, List.drop_left]
      exact List.prefix_append _ _
    · obtain ⟨before, e', after, -, rfl⟩ := h.opens j hj hat
      omega
  · refine findFrom_eq_some (by omega) (by omega) ?_ fun j hj hlt hat => ?_
    · have hfront : start.length + 12 + e.id.length = (start ++ (openTag ++ e.id)).length := by
        simp only [List.length_append, length_openTag]
        omega
      have hback : message = (start ++ (openTag ++ e.id)) ++
          (closeTag ++ (e.behind ++ elements.flatMap Element.str)) := by
        rw [htext]
        simp only [List.append_assoc]
      rw [hfront, hback, List.drop_left]
      exact List.prefix_append _ _
    · obtain ⟨before, e', after, hsplit, rfl⟩ := h.closes j hj hat
      rcases hlater hsplit with ⟨rfl, rfl⟩ | hfar
      · simp at hlt
      · omega

/-- Behind the closing tag of the first element, the others are left. -/
theorem TagsFrom.rest (h : TagsFrom message pos start (e :: elements)) (hpos : pos ≤ start.length) :
    TagsFrom message (start.length + 12 + e.id.length + 12) (start ++ e.str) elements := by
  have hsplits : ∀ {before e' after}, e :: elements = before ++ e' :: after → before ≠ [] →
      ∃ before', elements = before' ++ e' :: after ∧
        (before.flatMap Element.str).length = e.str.length + (before'.flatMap Element.str).length := by
    intro before e' after hsplit hne
    obtain ⟨b, before', rfl⟩ := List.exists_cons_of_ne_nil hne
    obtain ⟨rfl, hrest⟩ := List.cons.inj hsplit
    exact ⟨before', hrest, by rw [List.flatMap_cons, List.length_append]⟩
  refine ⟨?_, fun i hi hat => ?_, fun i hi hat => ?_⟩
  · rw [h.text, List.flatMap_cons, List.append_assoc]
  · obtain ⟨before, e', after, hsplit, rfl⟩ := h.opens i (by omega) hat
    have hne : before ≠ [] := by
      rintro rfl
      simp only [List.flatMap_nil, List.length_nil] at hi
      omega
    obtain ⟨before', hrest, hlength⟩ := hsplits hsplit hne
    exact ⟨before', e', after, hrest, by rw [hlength, List.length_append, Nat.add_assoc]⟩
  · obtain ⟨before, e', after, hsplit, rfl⟩ := h.closes i (by omega) hat
    have hne : before ≠ [] := by
      rintro rfl
      obtain rfl : e = e' := (List.cons.inj hsplit).1
      simp only [List.flatMap_nil, List.length_nil] at hi
      omega
    obtain ⟨before', hrest, hlength⟩ := hsplits hsplit hne
    exact ⟨before', e', after, hrest, by rw [hlength, List.length_append]; omega⟩

/-- **The loop finds the elements, in order.** -/
theorem TagsFrom.idsFrom_eq {fuel : ℕ} (h : TagsFrom message pos start elements)
    (hpos : pos ≤ start.length) (hfuel : elements.length < fuel) (hmax : message.length < maxSize) :
    idsFrom message fuel (findFrom openTag message pos) (findFrom closeTag message pos) =
      elements.map Element.id := by
  obtain ⟨fuel, rfl⟩ : ∃ k, fuel = k + 1 := ⟨fuel - 1, by omega⟩
  rw [maxSize] at hmax
  induction elements generalizing start pos fuel with
  | nil =>
      have hnone : findFrom openTag message pos = none := by
        rcases hfind : findFrom openTag message pos with _ | i
        · rfl
        · obtain ⟨before, e', after, hnil, -⟩ :=
            h.opens i (findFrom_bounds hfind).1 (prefix_of_findFrom hfind)
          simp at hnil
      rw [hnone]
      rfl
  | cons e elements ih =>
      obtain ⟨hopen, hclose⟩ := h.find_first hpos
      have hbounds := (findFrom_bounds hclose).2
      rw [length_closeTag] at hbounds
      have hid : (message.drop (start.length + 12)).take e.id.length = e.id := by
        have hfront : start.length + 12 = (start ++ openTag).length := by
          rw [List.length_append, length_openTag]
        have hback : message = (start ++ openTag) ++
            (e.id ++ (closeTag ++ e.behind ++ elements.flatMap Element.str)) := by
          rw [h.text, List.flatMap_cons, Element.str]
          simp only [List.append_assoc]
        rw [hfront, hback, List.drop_left, List.take_left]
      rw [List.length_cons] at hfuel
      obtain ⟨fuel, rfl⟩ : ∃ k, fuel = k + 1 := ⟨fuel - 1, by omega⟩
      rw [hopen, hclose, idsFrom, sizeSub_of_le (by omega) (by omega),
        show start.length + 12 + e.id.length - (start.length + 12) = e.id.length by omega, hid,
        List.map_cons]
      congr 1
      refine ih (h.rest hpos) ?_ fuel (by omega)
      rw [List.length_append, Element.length_str]
      omega

/-- The text is `start` and the elements, and has no tags but theirs. -/
abbrev Tagged (message start : Bytes) (elements : List Element) : Prop :=
  TagsFrom message 0 start elements

/-- **The ids of a text** are those of its elements. -/
theorem instanceIds_tagged (h : Tagged message start elements) (hmax : message.length < maxSize) :
    instanceIds message = elements.map Element.id := by
  have hfind : ∀ tag : Bytes, find tag message = findFrom tag message 0 := by
    intro tag
    rw [findFrom, if_pos (Nat.zero_le _), List.drop_zero]
    simp
  have hfuel : elements.length ≤ message.length := by
    rw [h.text, List.length_append]
    exact le_trans (length_le_flatMap elements) (Nat.le_add_left _ _)
  rw [instanceIds, hfind, hfind]
  exact h.idsFrom_eq (Nat.zero_le _) (by omega) hmax

/-- **The ids of a response go, in order, to the resources that wait,** in order, and
nothing else changes: as long as there are enough of them. -/
theorem collect_assigns {list : CloudResourceList} (h : Tagged message start elements)
    (hids : ∀ e ∈ elements, e.id ≠ []) (hmax : message.length < maxSize)
    (hwait : elements.length ≤ list.waiting) :
    ∃ list', collectResourceData message list = .ok list' ∧
      Assigned (elements.map Element.id) list list' := by
  have hne : ∀ id ∈ elements.map Element.id, id ≠ [] := by
    intro id hid
    obtain ⟨e, he, rfl⟩ := List.mem_map.1 hid
    exact hids e he
  have hlength : (elements.map Element.id).length ≤ list.waiting := by rwa [List.length_map]
  obtain ⟨list', hlist'⟩ := foldlM_assignId_ok hne hlength
  refine ⟨list', by rw [collectResourceData_eq, instanceIds_tagged h hmax]; exact hlist', ?_⟩
  have hfilter : (elements.map Element.id).filter (· ≠ []) = elements.map Element.id :=
    List.filter_eq_self.2 fun id hid => decide_eq_true (hne id hid)
  rw [(foldlM_assignId_eq hlist').1, hfilter]
  exact assigned_fill _ list

/-- The two elements. -/
theorem tagged_twoIds : Tagged twoIds [] [⟨ascii "i-1", ascii ", "⟩, ⟨ascii "i-2", []⟩] := by
  have hopen : ∀ i < 58, openTag <+: twoIds.drop i → i = 0 ∨ i = 30 := by decide +kernel
  have hclose : ∀ i < 58, closeTag <+: twoIds.drop i → i = 15 ∨ i = 45 := by decide +kernel
  have hlength : twoIds.length = 58 := by decide +kernel
  have hshort : ∀ {tag : Bytes} {i : ℕ}, 0 < tag.length → tag <+: twoIds.drop i → i < 58 := by
    intro tag i hpos hat
    have hle := hat.length_le
    rw [List.length_drop, hlength] at hle
    omega
  refine ⟨by decide +kernel, fun i _ hat => ?_, fun i _ hat => ?_⟩
  · rcases hopen i (hshort (by decide) hat) hat with rfl | rfl
    · exact ⟨[], _, _, rfl, rfl⟩
    · exact ⟨[_], _, [], rfl, by decide +kernel⟩
  · rcases hclose i (hshort (by decide) hat) hat with rfl | rfl
    · exact ⟨[], _, _, rfl, by decide +kernel⟩
    · exact ⟨[_], _, [], rfl, by decide +kernel⟩

/-- A function between two instances that wait, and a third instance. -/
def threeWait : CloudResourceList where
  invoked :=
    [{ resourceType := ascii "ec2", idCounter := 0, invoke := true },
      { resourceType := ascii "lambda", idCounter := 1, invoke := true },
      { resourceType := ascii "ec2", idCounter := 2, invoke := true },
      { resourceType := ascii "ec2", idCounter := 3, invoke := true }]

/-- The two ids go to the first two of the three instances. -/
theorem collect_assigns_threeWait :
    ∃ list', collectResourceData twoIds threeWait = .ok list' ∧
      list'.invoked.map CloudResource.serialIdentifier = [ascii "i-1", [], ascii "i-2", []] := by
  have hwaiting : 2 ≤ threeWait.waiting := by decide +kernel
  obtain ⟨list', heq, hassigned⟩ := collect_assigns tagged_twoIds (by decide +kernel)
    (by decide +kernel) hwaiting
  refine ⟨list', heq, List.ext_getElem? fun j => ?_⟩
  have hat := congrArg (Option.map CloudResource.serialIdentifier) (hassigned.invoked j)
  rw [List.getElem?_map, hat]
  rcases j with _ | _ | _ | _ | j
  · decide +kernel
  · decide +kernel
  · decide +kernel
  · decide +kernel
  · rfl

end V2Proxy
