/-
# `CloudResource` and `CloudResourceList`

`src/cloud/cloud_resource.cc` and `src/cloud/cloud_resource_list.cc`: the list of
the resources a client has invoked or been refused.  `cloud_resource_list_` is a
`map` with the two keys `"invoked"` and `"blocked"`; a key that is missing and an
empty vector are the same to everything but `print_resources`.  The time of
creation, the logging and the printing are left out.
-/

import V2Proxy.Util.Bytes

namespace V2Proxy

/-- A resource: its type, its number and the identifier that the server gave it. -/
structure CloudResource where
  resourceType : Bytes
  serialIdentifier : Bytes := []
  /-- an `int` -/
  idCounter : ℤ
  invoke : Bool
deriving DecidableEq

/-- `cloud_resource_list_[ "invoked" ]` and `cloud_resource_list_[ "blocked" ]`. -/
structure CloudResourceList where
  invoked : List CloudResource := []
  blocked : List CloudResource := []
deriving DecidableEq

/-- `const size_t INVOKE_LIMIT`. -/
def INVOKE_LIMIT : ℕ := 2

/-- An exception, and what the list holds when it is thrown: `cloud_resource_list_`
is static, so it outlives the thread. -/
structure Thrown where
  fault : Fault
  list : CloudResourceList
deriving DecidableEq

/-- A computation that does not touch the list. -/
def throwing {α : Type} (list : CloudResourceList) (x : Except Fault α) : Except Thrown α :=
  x.mapError (Thrown.mk · list)

/-- What returns, returns. -/
@[simp] theorem throwing_ok {α : Type} (list : CloudResourceList) (a : α) :
    throwing list (.ok a) = .ok a := rfl

/-- What throws leaves the list. -/
@[simp] theorem throwing_error {α : Type} (list : CloudResourceList) (fault : Fault) :
    throwing list (.error fault : Except Fault α) = .error ⟨fault, list⟩ := rfl

/-- It returns just if it did without the list. -/
theorem throwing_eq_ok {α : Type} {list : CloudResourceList} {x : Except Fault α} {a : α} :
    throwing list x = .ok a ↔ x = .ok a := by
  rcases x with fault | a' <;> simp

/-- It throws just if it did, and the list is the one that it began with. -/
theorem throwing_eq_error {α : Type} {list : CloudResourceList} {x : Except Fault α} {t : Thrown} :
    throwing list x = .error t ↔ x = .error t.fault ∧ t.list = list := by
  obtain ⟨fault, l⟩ := t
  rcases x with fault' | a
  · simp [eq_comm]
  · simp

namespace CloudResourceList

/-- `CloudResourceList::get_total_resource_count`: an `int` to which the two
sizes are added in turn. -/
def getTotalResourceCount (l : CloudResourceList) : ℤ :=
  toInt32 (toInt32 (0 + l.invoked.length) + l.blocked.length)

/-- The resource that `invoke_resource` constructs. -/
def curr (l : CloudResourceList) (resourceType : Bytes) : CloudResource where
  resourceType := resourceType
  idCounter := l.getTotalResourceCount
  invoke := l.invoked.length < INVOKE_LIMIT

/-- `CloudResourceList::invoke_resource`. -/
def invokeResource (l : CloudResourceList) (resourceType : Bytes) : Bool × CloudResourceList :=
  if l.invoked.length < INVOKE_LIMIT then
    (true, { l with invoked := l.invoked ++ [l.curr resourceType] })
  else
    (false, { l with blocked := l.blocked ++ [l.curr resourceType] })

/-- The loop of `invoke_many_resources` with `n` rounds to go. -/
def invokeLoop (resourceType : Bytes) :
    ℕ → ℤ → CloudResourceList → ℤ × CloudResourceList
  | 0, invokeCount, l => (invokeCount, l)
  | n + 1, invokeCount, l =>
      let (invoked, l) := l.invokeResource resourceType
      invokeLoop resourceType n (if invoked then invokeCount + 1 else invokeCount) l

/-- `CloudResourceList::invoke_many_resources`: how many it was able to invoke.
A count that is not positive asks for no rounds. -/
def invokeManyResources (l : CloudResourceList) (resourceType : Bytes) (countRequested : ℤ) :
    ℤ × CloudResourceList :=
  invokeLoop resourceType countRequested.toNat 0 l

/-- The loop of `assign_resource_id`: the first resource of the type that has no
serial identifier gets this one. -/
def assignFirst (resourceName instanceId : Bytes) : List CloudResource → Option (List CloudResource)
  | [] => none
  | resource :: rest =>
      if resource.resourceType = resourceName ∧ resource.serialIdentifier = [] then
        some ({ resource with serialIdentifier := instanceId } :: rest)
      else (assignFirst resourceName instanceId rest).map (resource :: ·)

/-- `CloudResourceList::assign_resource_id`. -/
def assignResourceId (l : CloudResourceList) (resourceName instanceId : Bytes) :
    Except Fault CloudResourceList :=
  match assignFirst resourceName instanceId l.invoked with
  | some invoked => .ok { l with invoked := invoked }
  | none => .error (.runtimeError
      (ascii "Failed to assign resource id to available cloud resource."))

/-- The number of resources, which `get_total_resource_count` counts in an
`int`. -/
def size (l : CloudResourceList) : ℕ := l.invoked.length + l.blocked.length

/-- As long as it fits, the count is the number of resources. -/
theorem getTotalResourceCount_eq {l : CloudResourceList} (h : l.size < 2 ^ 31) :
    l.getTotalResourceCount = l.size := by
  have hmod : ∀ n : ℕ, n < 2 ^ 31 → toInt32 n = n := by
    intro n hn
    unfold toInt32
    rw [Int.bmod_eq_of_le (by omega) (by omega)]
  unfold size at h
  rw [getTotalResourceCount, Int.zero_add, hmod _ (by omega), ← Int.natCast_add, hmod _ h]
  rfl

/-- **The two ways `invoke_resource` goes.** -/
theorem invokeResource_cases (l : CloudResourceList) (resourceType : Bytes) :
    (l.invoked.length < INVOKE_LIMIT ∧ l.invokeResource resourceType =
      (true, { l with invoked := l.invoked ++ [l.curr resourceType] })) ∨
    (INVOKE_LIMIT ≤ l.invoked.length ∧ l.invokeResource resourceType =
      (false, { l with blocked := l.blocked ++ [l.curr resourceType] })) := by
  rcases Nat.lt_or_ge l.invoked.length INVOKE_LIMIT with h | h
  · exact Or.inl ⟨h, if_pos h⟩
  · exact Or.inr ⟨h, if_neg (Nat.not_lt.2 h)⟩

/-- The id of a new resource is the number of resources there are. -/
theorem curr_idCounter {l : CloudResourceList} (h : l.size < 2 ^ 31) (resourceType : Bytes) :
    (l.curr resourceType).idCounter = l.size := by
  rw [curr, getTotalResourceCount_eq h]

/-- What `invoke_resource` reports is what the invoked list gained. -/
theorem invokeResource_length (l : CloudResourceList) (resourceType : Bytes) :
    (l.invokeResource resourceType).2.invoked.length =
      l.invoked.length + if (l.invokeResource resourceType).1 then 1 else 0 := by
  rcases l.invokeResource_cases resourceType with ⟨-, h⟩ | ⟨-, h⟩ <;> rw [h] <;> simp

/-- A round of the loop tries to invoke one resource. -/
theorem invokeLoop_succ (resourceType : Bytes) (n : ℕ) (invokeCount : ℤ) (l : CloudResourceList) :
    invokeLoop resourceType (n + 1) invokeCount l =
      invokeLoop resourceType n
        (if (l.invokeResource resourceType).1 then invokeCount + 1 else invokeCount)
        (l.invokeResource resourceType).2 := rfl

/-- How many invocations are left. -/
def room (l : CloudResourceList) : ℕ := INVOKE_LIMIT - l.invoked.length

/-- How many of `count` invocations the list has room for. -/
def grant (l : CloudResourceList) (count : ℤ) : ℕ := min count.toNat l.room

/-- **The loop of `invoke_many_resources` invokes what there is room for,** and reports
it. -/
theorem invokeLoop_spec (resourceType : Bytes) (n : ℕ) (invokeCount : ℤ) (l : CloudResourceList) :
    (invokeLoop resourceType n invokeCount l).1 = invokeCount + (min n l.room : ℕ) ∧
      (invokeLoop resourceType n invokeCount l).2.invoked.length =
        l.invoked.length + min n l.room := by
  induction n generalizing invokeCount l with
  | zero => simp [invokeLoop]
  | succ n ih =>
      obtain ⟨hcount, hlength⟩ := ih
        (if (l.invokeResource resourceType).1 then invokeCount + 1 else invokeCount)
        (l.invokeResource resourceType).2
      have hgained := l.invokeResource_length resourceType
      rw [invokeLoop_succ, hcount, hlength]
      unfold room
      rcases l.invokeResource_cases resourceType with ⟨hlt, h⟩ | ⟨hle, h⟩ <;> rw [h] at hgained ⊢
      · simp only [if_true] at hgained ⊢
        omega
      · simp only [Bool.false_eq_true, if_false] at hgained ⊢
        omega

/-- The list only grows. -/
structure Grows (l l' : CloudResourceList) : Prop where
  invoked : l.invoked <+: l'.invoked
  blocked : l.blocked <+: l'.blocked

/-- A list that does not change. -/
theorem Grows.refl (l : CloudResourceList) : l.Grows l := ⟨List.prefix_refl _, List.prefix_refl _⟩

/-- One growth after the other. -/
theorem Grows.trans {l l' l'' : CloudResourceList} (h : l.Grows l') (h' : l'.Grows l'') :
    l.Grows l'' :=
  ⟨h.invoked.trans h'.invoked, h.blocked.trans h'.blocked⟩

/-- **Invoking a resource** takes nothing off the list. -/
theorem grows_invokeResource (l : CloudResourceList) (resourceType : Bytes) :
    l.Grows (l.invokeResource resourceType).2 := by
  rcases l.invokeResource_cases resourceType with ⟨-, h⟩ | ⟨-, h⟩ <;> rw [h]
  · exact ⟨List.prefix_append _ _, List.prefix_refl _⟩
  · exact ⟨List.prefix_refl _, List.prefix_append _ _⟩

/-- Nor does the loop. -/
theorem grows_invokeLoop (resourceType : Bytes) (n : ℕ) (invokeCount : ℤ) (l : CloudResourceList) :
    l.Grows (invokeLoop resourceType n invokeCount l).2 := by
  induction n generalizing invokeCount l with
  | zero => exact .refl l
  | succ n ih =>
      rw [invokeLoop_succ]
      exact (l.grows_invokeResource resourceType).trans (ih _ _)

/-- **`invoke_many_resources` grants what there is room for.** -/
theorem invokeManyResources_fst (l : CloudResourceList) (resourceType : Bytes) (count : ℤ) :
    (l.invokeManyResources resourceType count).1 = l.grant count := by
  rw [invokeManyResources, (invokeLoop_spec resourceType count.toNat 0 l).1, grant, Int.zero_add]

/-- The list after `invoke_many_resources`. -/
def invokeMany (l : CloudResourceList) (resourceType : Bytes) (count : ℤ) : CloudResourceList :=
  (l.invokeManyResources resourceType count).2

/-- Nor does invoking many. -/
theorem grows_invokeMany (l : CloudResourceList) (resourceType : Bytes) (count : ℤ) :
    l.Grows (l.invokeMany resourceType count) :=
  grows_invokeLoop resourceType count.toNat 0 l

/-- As many are invoked as are granted. -/
theorem length_invokeMany (l : CloudResourceList) (resourceType : Bytes) (count : ℤ) :
    (l.invokeMany resourceType count).invoked.length = l.invoked.length + l.grant count :=
  (invokeLoop_spec resourceType count.toNat 0 l).2

end CloudResourceList

end V2Proxy
