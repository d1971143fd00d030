/-
# `v2filter_server`

`src/http/v2filter_server.hh`: what the proxy does with a buffer read from a
server before it parses it.  Every `<instanceId>` of the text is stored with a
resource of the list; the buffer itself is not changed.  What was stored before an
exception stays in the list (`Thrown`).
-/

import V2Proxy.Cloud.CloudResourceList

namespace V2Proxy

open Foundations

/-- The variables of `collect_resource_data`. -/
structure Collecting where
  first : Option ℕ
  last : Option ℕ
  list : CloudResourceList

/-- A round of `collect_resource_data`. -/
def collectStep (message : Bytes) (s : Collecting) :
    Except Thrown (Collecting ⊕ CloudResourceList) :=
  match s.first, s.last with
  | some first, some last => do
      let strLen := (ascii "<instanceId>").length
      let instanceId ← throwing s.list
        (substr message (first + strLen) (sizeSub last (first + strLen)))
      let list ← throwing s.list (s.list.assignResourceId (ascii "ec2") instanceId)
      return .inl {
        first := findFrom (ascii "<instanceId>") message (last + strLen)
        last := findFrom (ascii "</instanceId>") message (last + strLen)
        list := list }
  | _, _ => return .inr s.list

/-- The loop of `collect_resource_data`: `last` moves on. -/
def collectLoop (message : Bytes) : Loop Thrown Collecting CloudResourceList where
  step := collectStep message
  measure s :=
    match s.last with
    | some last => message.length - last + 1
    | none => 0
  decreases {s s'} h := by
    rw [collectStep] at h
    split at h
    · rename_i first last _ hlast
      obtain ⟨_, -, h⟩ := bind_eq_ok.1 h
      obtain ⟨_, -, h⟩ := bind_eq_ok.1 h
      cases h
      rw [hlast]
      have hlength : (ascii "<instanceId>").length = 12 := by decide
      rw [hlength]
      cases hnext : findFrom (ascii "</instanceId>") message (last + 12) with
      | none => exact Nat.succ_pos _
      | some next =>
          have hbounds := findFrom_bounds hnext
          dsimp only
          omega
    · cases h

/-- `collect_resource_data`. -/
def collectResourceData (message : Bytes) (resourceList : CloudResourceList) :
    Except Thrown CloudResourceList :=
  (collectLoop message).run {
    first := find (ascii "<instanceId>") message
    last := find (ascii "</instanceId>") message
    list := resourceList }

/-- `v2filter_server`. -/
def v2filterServer (buffer : Bytes) (resourceList : CloudResourceList) :
    Except Thrown CloudResourceList :=
  collectResourceData buffer resourceList

end V2Proxy
