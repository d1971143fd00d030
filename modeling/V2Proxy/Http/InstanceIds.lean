/-
# The instance ids of a response

`collect_resource_data` looks for tags and stores what it finds between them, one id
after the other.  What it finds does not depend on the list (`instanceIds`), so it is
`assign_resource_id` of each id in turn (`collectResourceData_eq`).  An id goes to the
first resource that has none yet (`assignId_cases`).

No id is compared with those that are recorded already.  A response that brings an id
again gives it to another resource, or is one id too many (`unaffected_iff`); the
recorded ids are distinct as long as every response brings new ones
(`distinct_iff_new`).
-/

import V2Proxy.Http.GrantedInvocations
import V2Proxy.Http.V2FilterServer

namespace V2Proxy

open Foundations

/-- The tags. -/
def openTag : Bytes := ascii "<instanceId>"

/-- The tag behind an identifier. -/
def closeTag : Bytes := ascii "</instanceId>"

/-- Its length. -/
theorem length_openTag : openTag.length = 12 := by decide

/-- Its length. -/
theorem length_closeTag : closeTag.length = 13 := by decide

/-- The ids found from given places of the two tags on, in at most `fuel` rounds. -/
def idsFrom (message : Bytes) : ℕ → Option ℕ → Option ℕ → List Bytes
  | fuel + 1, some first, some last =>
      (message.drop (first + 12)).take (sizeSub last (first + 12)) ::
        idsFrom message fuel (findFrom openTag message (last + 12))
          (findFrom closeTag message (last + 12))
  | _, _, _ => []

/-- The ids that `collect_resource_data` finds in a text. -/
def instanceIds (message : Bytes) : List Bytes :=
  idsFrom message (message.length + 1) (find openTag message) (find closeTag message)

/-- `assign_resource_id( "ec2", id )`. -/
def assignId (list : CloudResourceList) (id : Bytes) : Except Thrown CloudResourceList :=
  throwing list (list.assignResourceId (ascii "ec2") id)

/-- **The loop of `collect_resource_data` assigns the ids in turn.** -/
theorem collectLoop_run {message : Bytes} (fuel : ℕ) {s : Collecting}
    (hfirst : ∀ first, s.first = some first → first + 12 ≤ message.length)
    (hfuel : (collectLoop message).measure s ≤ fuel) :
    (collectLoop message).run s = (idsFrom message fuel s.first s.last).foldlM assignId s.list := by
  have hlength : (ascii "<instanceId>").length = 12 := by decide
  obtain ⟨first, last, list⟩ := s
  induction fuel generalizing first last list with
  | zero =>
      cases last with
      | none =>
          refine Loop.run_of_leave ?_
          change collectStep message _ = _
          cases first <;> rfl
      | some last => exact absurd hfuel (by simp [collectLoop])
  | succ fuel ih =>
      cases first with
      | none => exact Loop.run_of_leave (L := collectLoop message) (by cases last <;> rfl)
      | some first =>
          cases last with
          | none => exact Loop.run_of_leave (L := collectLoop message) rfl
          | some last =>
              have hstep : (collectLoop message).step ⟨some first, some last, list⟩ =
                  assignId list ((message.drop (first + 12)).take (sizeSub last (first + 12))) >>=
                    fun list => .ok (.inl ⟨findFrom openTag message (last + 12),
                      findFrom closeTag message (last + 12), list⟩) := by
                change collectStep message ⟨some first, some last, list⟩ = _
                simp only [collectStep, hlength]
                rw [substr, if_pos (hfirst first rfl)]
                rfl
              have hfuel' : ∀ list, (collectLoop message).measure
                  ⟨findFrom openTag message (last + 12), findFrom closeTag message (last + 12), list⟩ ≤
                    fuel := by
                intro list
                have hmeasure : message.length - last + 1 ≤ fuel + 1 := hfuel
                rcases hnext : findFrom closeTag message (last + 12) with _ | next
                · exact Nat.zero_le _
                · have hbounds := findFrom_bounds hnext
                  change message.length - next + 1 ≤ fuel
                  omega
              rw [idsFrom, List.foldlM_cons]
              rcases hassign : assignId list
                ((message.drop (first + 12)).take (sizeSub last (first + 12))) with t | list'
              · rw [hassign] at hstep
                exact Loop.run_of_error hstep
              · rw [hassign] at hstep
                rw [Loop.run_of_next hstep, ok_bind]
                refine ih _ _ list' (fun first' h' => ?_) (hfuel' list')
                have hbounds := (findFrom_bounds h').2
                rwa [length_openTag] at hbounds

/-- **`collect_resource_data` assigns the ids of the text in turn.** -/
theorem collectResourceData_eq (message : Bytes) (list : CloudResourceList) :
    collectResourceData message list = (instanceIds message).foldlM assignId list := by
  refine collectLoop_run (message.length + 1) (fun first hfirst => ?_) ?_
  · have hfits : first + openTag.length ≤ message.length := add_length_le_of_find hfirst
    rwa [length_openTag] at hfits
  · have hmeasure : ∀ first last,
        (collectLoop message).measure ⟨first, last, list⟩ ≤ message.length + 1 := by
      intro first last
      cases last with
      | none => exact Nat.zero_le _
      | some last => exact Nat.add_le_add_right (Nat.sub_le _ _) 1
    exact hmeasure _ _

/-! ### Assigning an id -/

namespace CloudResourceList

/-- The resource waits for the id of an instance. -/
def Waits (resource : CloudResource) : Prop :=
  resource.resourceType = ascii "ec2" ∧ resource.serialIdentifier = []

instance : DecidablePred Waits := fun resource =>
  inferInstanceAs (Decidable (resource.resourceType = ascii "ec2" ∧ resource.serialIdentifier = []))

/-- **The first resource that waits gets the identifier,** or none waits. -/
theorem assignFirst_cases (id : Bytes) (resources : List CloudResource) :
    (∃ before resource after, resources = before ++ resource :: after ∧ Waits resource ∧
      (∀ r ∈ before, ¬ Waits r) ∧ assignFirst (ascii "ec2") id resources =
        some (before ++ { resource with serialIdentifier := id } :: after)) ∨
    ((∀ r ∈ resources, ¬ Waits r) ∧ assignFirst (ascii "ec2") id resources = none) := by
  induction resources with
  | nil => exact Or.inr ⟨fun _ h => absurd h List.not_mem_nil, rfl⟩
  | cons resource rest ih =>
      rw [assignFirst]
      by_cases hwaits : Waits resource
      · have hfirst : resource.resourceType = ascii "ec2" ∧ resource.serialIdentifier = [] := hwaits
        rw [if_pos hfirst]
        exact Or.inl ⟨[], resource, rest, rfl, hwaits, fun _ h => absurd h List.not_mem_nil, rfl⟩
      · have hnot : ¬ (resource.resourceType = ascii "ec2" ∧ resource.serialIdentifier = []) := hwaits
        rw [if_neg hnot]
        rcases ih with ⟨before, found, after, rfl, hfound, hbefore, heq⟩ | ⟨hnone, heq⟩
        · refine Or.inl ⟨resource :: before, found, after, rfl, hfound, ?_, by rw [heq]; rfl⟩
          exact List.forall_mem_cons.2 ⟨hwaits, hbefore⟩
        · exact Or.inr ⟨List.forall_mem_cons.2 ⟨hwaits, hnone⟩, by rw [heq]; rfl⟩

/-- **The two ways an id is assigned:** it goes to the first resource that waits for
one, or there is none and it is an exception. -/
theorem assignId_cases (list : CloudResourceList) (id : Bytes) :
    (∃ before resource after, list.invoked = before ++ resource :: after ∧ Waits resource ∧
      (∀ r ∈ before, ¬ Waits r) ∧ assignId list id = .ok { list with
        invoked := before ++ { resource with serialIdentifier := id } :: after }) ∨
    ((∀ r ∈ list.invoked, ¬ Waits r) ∧
      ∃ t : Thrown, t.list = list ∧ assignId list id = .error t) := by
  rcases assignFirst_cases id list.invoked with
    ⟨before, resource, after, hsplit, hwaits, hbefore, heq⟩ | ⟨hnone, heq⟩
  · refine Or.inl ⟨before, resource, after, hsplit, hwaits, hbefore, ?_⟩
    rw [assignId, assignResourceId, heq]
    rfl
  · refine Or.inr ⟨hnone, ⟨.runtimeError
      (ascii "Failed to assign resource id to available cloud resource."), list⟩, rfl, ?_⟩
    rw [assignId, assignResourceId, heq]
    rfl

/-- The ids that are recorded. -/
def recorded (list : CloudResourceList) : List Bytes :=
  (list.invoked.map CloudResource.serialIdentifier).filter (· ≠ [])

/-- How many resources wait for an id. -/
def waiting (list : CloudResourceList) : ℕ := list.invoked.countP Waits

/-- No id is recorded twice. -/
def Distinct (list : CloudResourceList) : Prop := list.recorded.Nodup

instance (list : CloudResourceList) : Decidable list.Distinct :=
  inferInstanceAs (Decidable (List.Nodup _))

/-- An empty id is assigned without effect. -/
theorem assignId_empty {list : CloudResourceList} (h : 0 < list.waiting) :
    assignId list [] = .ok list := by
  rcases list.assignId_cases [] with
    ⟨before, resource, after, hsplit, hwaits, -, heq⟩ | ⟨hnone, -⟩
  · have hsame : { resource with serialIdentifier := [] } = resource := by
      rw [← hwaits.2]
    rw [heq, hsame, ← hsplit]
  · obtain ⟨resource, hmem, hwaits⟩ := List.countP_pos_iff.1 h
    exact absurd (of_decide_eq_true hwaits) (hnone resource hmem)

/-- Without a resource that waits, an id is an exception. -/
theorem assignId_full {list : CloudResourceList} (h : list.waiting = 0) (id : Bytes) :
    ∃ t : Thrown, t.list = list ∧ assignId list id = .error t := by
  rcases list.assignId_cases id with ⟨before, resource, after, hsplit, hwaits, -, -⟩ | ⟨-, ht⟩
  · have hmem : resource ∈ list.invoked := by simp [hsplit]
    exact absurd (decide_eq_true hwaits) (List.countP_eq_zero.1 h resource hmem)
  · exact ht

/-- **An id is recorded,** and one resource less waits. -/
theorem assignId_records {list : CloudResourceList} (h : 0 < list.waiting) {id : Bytes}
    (hid : id ≠ []) :
    ∃ list', assignId list id = .ok list' ∧ list'.recorded.Perm (id :: list.recorded) ∧
      list.waiting = list'.waiting + 1 := by
  rcases list.assignId_cases id with
    ⟨before, resource, after, hsplit, hwaits, -, heq⟩ | ⟨hnone, -⟩
  · refine ⟨_, heq, ?_, ?_⟩
    · simp only [recorded, hsplit, List.map_append, List.map_cons, List.filter_append,
        List.filter_cons, hwaits.2]
      simp [hid]
    · have hnot : ¬ Waits { resource with serialIdentifier := id } := fun hw => hid hw.2
      simp only [waiting, hsplit, List.countP_append, List.countP_cons, hwaits, hnot, decide_true,
        decide_false, if_true, Bool.false_eq_true, if_false, Nat.add_assoc, Nat.add_zero]
  · obtain ⟨resource, hmem, hwaits⟩ := List.countP_pos_iff.1 h
    exact absurd (of_decide_eq_true hwaits) (hnone resource hmem)

/-! ### The client does not touch the ids -/

/-- Invoking a resource records no identifier. -/
theorem recorded_invokeResource (list : CloudResourceList) (resourceType : Bytes) :
    (list.invokeResource resourceType).2.recorded = list.recorded := by
  rcases list.invokeResource_cases resourceType with ⟨-, h⟩ | ⟨-, h⟩ <;> rw [h]
  · simp [recorded, curr]
  · rfl

/-- Nor does invoking many. -/
theorem recorded_invokeMany (list : CloudResourceList) (resourceType : Bytes) (count : ℤ) :
    (list.invokeMany resourceType count).recorded = list.recorded := by
  have hloop : ∀ (n : ℕ) (invokeCount : ℤ) (l : CloudResourceList),
      (invokeLoop resourceType n invokeCount l).2.recorded = l.recorded := by
    intro n
    induction n with
    | zero => exact fun _ _ => rfl
    | succ n ih =>
        intro invokeCount l
        rw [invokeLoop_succ, ih, recorded_invokeResource]
  exact hloop _ _ _

end CloudResourceList

/-- Nor does a buffer from the client. -/
theorem recorded_v2filterClient {buffer text : Bytes} {list list' : CloudResourceList}
    (h : v2filterClient buffer list = .ok (text, list')) : list'.recorded = list.recorded := by
  have hlast : ∀ f : Filtering, f.lastRound.2.recorded = f.list.recorded := by
    intro f
    rw [Filtering.lastRound]
    split_ifs
    · have hdeliver : (f.limitOther (ascii "lambda")).deliver.list =
          (f.list.invokeResource (ascii "lambda")).2 := by
        rw [Filtering.deliver]
        split_ifs <;> rfl
      rw [hdeliver, CloudResourceList.recorded_invokeResource]
    · rfl
  rw [v2filterClient_rounds] at h
  obtain ⟨f, hf, h⟩ := bind_eq_ok.1 h
  have hpair : f.lastRound = (text, list') := Except.ok.inj h
  have hlist : f.lastRound.2 = list' := by rw [hpair]
  rw [← hlist, hlast]
  split_ifs at hf
  · obtain ⟨count, -, hf⟩ := bind_eq_ok.1 hf
    cases hf
    rw [← list.recorded_invokeMany (ascii "ec2") count]
    by_cases hgrant : list.grant count = 0
    · rw [Filtering.deliver_refused hgrant]
    · rw [Filtering.deliver_granted hgrant]
  · cases hf
    rfl

/-! ### What a response records -/

/-- The list once `ids` have been assigned, or as the exception leaves it. -/
def afterIds (list : CloudResourceList) (ids : List Bytes) : CloudResourceList :=
  match ids.foldlM assignId list with
  | .ok list' => list'
  | .error t => t.list

/-- **The non-empty ids are recorded, as many as there are resources that wait.** -/
theorem recorded_afterIds (ids : List Bytes) (list : CloudResourceList) :
    (afterIds list ids).recorded.Perm
      ((ids.filter (· ≠ [])).take list.waiting ++ list.recorded) := by
  induction ids generalizing list with
  | nil => simp [afterIds, pure, Except.pure]
  | cons id ids ih =>
      rcases Nat.eq_zero_or_pos list.waiting with hzero | hpos
      · obtain ⟨t, ht, herror⟩ := CloudResourceList.assignId_full hzero id
        rw [afterIds, List.foldlM_cons, herror, hzero]
        simp [Bind.bind, Except.bind, ht]
      · rcases eq_or_ne id [] with rfl | hid
        · have hsame : afterIds list ([] :: ids) = afterIds list ids := by
            rw [afterIds, List.foldlM_cons, CloudResourceList.assignId_empty hpos, ok_bind, afterIds]
          rw [hsame]
          simpa using ih list
        · obtain ⟨list', hassign, hperm, hwaiting⟩ := CloudResourceList.assignId_records hpos hid
          have hnext : afterIds list (id :: ids) = afterIds list' ids := by
            rw [afterIds, List.foldlM_cons, hassign, ok_bind, afterIds]
          rw [hnext, hwaiting, List.filter_cons_of_pos (by simpa using hid), List.take_succ_cons]
          refine (ih list').trans ?_
          refine (hperm.append_left _).trans ?_
          exact List.perm_middle

/-! ### Runs -/

/-- A buffer that `v2filter_client` or `v2filter_server` is called with. -/
inductive Filtered
  | client (buffer : Bytes)
  | server (buffer : Bytes)
deriving DecidableEq

/-- The list after a call, also if it throws. -/
def listAfterCall (list : CloudResourceList) : Filtered → CloudResourceList
  | .client buffer =>
      match v2filterClientThrown buffer list with
      | .ok (_, list') => list'
      | .error t => t.list
  | .server buffer =>
      match v2filterServer buffer list with
      | .ok list' => list'
      | .error t => t.list

/-- The list after the calls of a run, which starts with no resources. -/
def listAfter (calls : List Filtered) : CloudResourceList := calls.foldl listAfterCall {}

/-- The ids that a response gives to resources. -/
def assigned (list : CloudResourceList) (buffer : Bytes) : List Bytes :=
  ((instanceIds buffer).filter (· ≠ [])).take list.waiting

/-- The ids that a response gives to resources are new. -/
structure BringsNew (list : CloudResourceList) (buffer : Bytes) : Prop where
  distinct : (assigned list buffer).Nodup
  new : ∀ id ∈ assigned list buffer, id ∉ list.recorded

/-- A response whose ids are all recorded leaves the list unchanged and raises
nothing. -/
def Unaffected (list : CloudResourceList) (message : Bytes) : Prop :=
  (∀ id ∈ instanceIds message, id ∈ list.recorded) → v2filterServer message list = .ok list

/-- Nor does a call for the client. -/
theorem recorded_client (list : CloudResourceList) (buffer : Bytes) :
    (listAfterCall list (.client buffer)).recorded = list.recorded := by
  rw [listAfterCall, v2filterClientThrown_eq]
  rcases hfilter : v2filterClient buffer list with fault | ⟨text, list'⟩
  · rfl
  · exact recorded_v2filterClient hfilter

/-- **A buffer from the server** adds what it assigns. -/
theorem recorded_server (list : CloudResourceList) (buffer : Bytes) :
    (listAfterCall list (.server buffer)).recorded.Perm (assigned list buffer ++ list.recorded) := by
  have hafter : listAfterCall list (.server buffer) = afterIds list (instanceIds buffer) := by
    rw [listAfterCall, v2filterServer, collectResourceData_eq, afterIds]
  rw [hafter]
  exact recorded_afterIds _ _

/-- **A response keeps the ids distinct just if it brings new ones.** -/
theorem distinct_server_iff {list : CloudResourceList} (h : list.Distinct) (buffer : Bytes) :
    (listAfterCall list (.server buffer)).Distinct ↔ BringsNew list buffer := by
  rw [CloudResourceList.Distinct, (recorded_server list buffer).nodup_iff, List.nodup_append]
  constructor
  · rintro ⟨hdistinct, -, hdisjoint⟩
    exact ⟨hdistinct, fun id hid hold => hdisjoint id hid id hold rfl⟩
  · rintro ⟨hdistinct, hnew⟩
    refine ⟨hdistinct, h, fun id hid id' hold heq => ?_⟩
    rw [← heq] at hold
    exact hnew id hid hold

/-- **A response is without effect just if it has no id, or one that is new.** -/
theorem unaffected_iff (list : CloudResourceList) (message : Bytes) :
    Unaffected list message ↔
      instanceIds message = [] ∨ ∃ id ∈ instanceIds message, id ∉ list.recorded := by
  rw [Unaffected, v2filterServer, collectResourceData_eq]
  constructor
  · intro h
    by_contra hcontra
    push Not at hcontra
    obtain ⟨hsome, hall⟩ := hcontra
    have hsame := h hall
    have hperm := recorded_afterIds (instanceIds message) list
    have hids : ((instanceIds message).filter (· ≠ [])) = instanceIds message := by
      refine List.filter_eq_self.2 fun id hid => ?_
      exact (List.mem_filter.1 (hall id hid)).2
    have hafter : afterIds list (instanceIds message) = list := by rw [afterIds, hsame]
    rw [hafter, hids] at hperm
    have hlength := hperm.length_eq
    rw [List.length_append] at hlength
    have hpos : 0 < (instanceIds message).length := List.length_pos_iff.2 hsome
    have hzero : list.waiting = 0 := by
      rw [List.length_take] at hlength
      omega
    obtain ⟨id, ids, hcons⟩ := List.exists_cons_of_ne_nil hsome
    obtain ⟨t, -, herror⟩ := CloudResourceList.assignId_full hzero id
    rw [hcons, List.foldlM_cons, herror] at hsame
    cases hsame
  · rintro (hnil | ⟨id, hid, hnew⟩) hall
    · rw [hnil]
      rfl
    · exact absurd (hall id hid) hnew

/-- **The recorded ids are distinct throughout a run just if every response brings new
ones,** and a response is without effect on the list it leaves just if it has no id, or
one that is new. -/
theorem distinct_iff_new (calls : List Filtered) :
    ((∀ past, past <+: calls → (listAfter past).Distinct) ↔
      ∀ past buffer, past ++ [.server buffer] <+: calls → BringsNew (listAfter past) buffer) ∧
    ∀ message, Unaffected (listAfter calls) message ↔
      instanceIds message = [] ∨ ∃ id ∈ instanceIds message, id ∉ (listAfter calls).recorded := by
  have hstep : ∀ past call, listAfter (past ++ [call]) = listAfterCall (listAfter past) call := by
    intro past call
    rw [listAfter, List.foldl_append]
    rfl
  refine ⟨⟨fun h past buffer hpast => ?_, fun h past => ?_⟩, fun message => unaffected_iff _ message⟩
  · have hbefore := h past ((List.prefix_append _ _).trans hpast)
    have hafter := h _ hpast
    rw [hstep] at hafter
    exact (distinct_server_iff hbefore buffer).1 hafter
  · induction past using List.reverseRecOn with
    | nil => exact fun _ => List.nodup_nil
    | append_singleton past call ih =>
        intro hpast
        have hbefore := ih ((List.prefix_append _ _).trans hpast)
        rw [hstep]
        cases call with
        | client buffer =>
            rw [CloudResourceList.Distinct, recorded_client]
            exact hbefore
        | server buffer => exact (distinct_server_iff hbefore buffer).2 (h past buffer hpast)

/-- A response with one id. -/
def describe : Bytes := ascii "<instanceId>i-1</instanceId>"

/-- Two instances are invoked, and the response tells the id of one. -/
def told : List Filtered :=
  [.client (ascii "POST /ec2 MaxCount=2&Action=RunInstances"), .server describe]

/-- **An id is recorded twice:** the response is repeated.  Once more, and it is an
exception. -/
theorem id_recorded_twice :
    ¬ (listAfter (told ++ [.server describe])).Distinct ∧
      ¬ Unaffected (listAfter told) describe ∧
      (v2filterServer describe (listAfter (told ++ [.server describe]))).toOption = none := by
  have hids : instanceIds describe = [ascii "i-1"] := by decide +kernel
  have htold : (listAfter told).recorded = [ascii "i-1"] := by decide +kernel
  refine ⟨by decide +kernel, fun h => ?_, by decide +kernel⟩
  rw [unaffected_iff, hids, htold] at h
  exact absurd h (by decide)

end V2Proxy
