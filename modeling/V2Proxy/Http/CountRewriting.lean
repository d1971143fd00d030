/-
# Writing the granted count into a request

The `"ec2"` branch of `limit_resource` means to write the number of approved
instances over the count that the request asks for.  It reads the count right
(`countRequested_digits`), but writes over `sizeof( std::to_string( .. ) )` bytes,
not over as many as the count has digits.  So the count and nothing else is replaced
if and only if it has just that many digits, or no more and nothing behind it
(`rewritten_iff`).
-/

import V2Proxy.Http.GrantedInvocations

namespace V2Proxy

open Foundations

variable {pre ds post : Bytes}

/-- Erasing `n` bytes erases just the text in front. -/
theorem drop_append_eq_iff {n : ℕ} :
    (ds ++ post).drop n = post ↔ ds.length = n ∨ post = [] ∧ ds.length ≤ n := by
  constructor
  · intro h
    have hlength := congrArg List.length h
    rw [List.length_drop, List.length_append] at hlength
    by_cases hpost : post = []
    · right
      rw [hpost, List.length_nil] at hlength
      exact ⟨hpost, by omega⟩
    · left
      have := List.length_pos_iff.2 hpost
      omega
  · rintro (rfl | ⟨rfl, hle⟩)
    · exact List.drop_left
    · rw [List.append_nil, List.drop_eq_nil_of_le hle]

/-- What stands behind the name of the count. -/
theorem drop_maxCount (x : Bytes) : (pre ++ (ascii "MaxCount=" ++ x)).drop (pre.length + 9) = x := by
  rw [← List.append_assoc, List.drop_left' (by rw [List.length_append, length_maxCount])]

/-- **The branch reads the count:** up to `POST` when that comes after it, and
otherwise as far as there are digits. -/
theorem countRequested_digits
    (hmax : (pre ++ (ascii "MaxCount=" ++ (ds ++ post))).length < maxSize)
    (hfirst : find (ascii "MaxCount=") (pre ++ (ascii "MaxCount=" ++ (ds ++ post))) = some pre.length)
    (hpost : contains (ascii "POST") (pre ++ (ascii "MaxCount=" ++ (ds ++ post))) = true)
    (hne : ds ≠ []) (hds : ∀ c ∈ ds, (digitValue 10 c).isSome)
    (hrest : ∀ c, post.head? = some c → digitValue 10 c = none)
    (hvalue : digitsValue 10 ds < 2 ^ 31) :
    countRequested (pre ++ (ascii "MaxCount=" ++ (ds ++ post))) = .ok (digitsValue 10 ds) := by
  obtain ⟨last, hlast⟩ := Option.isSome_iff_exists.1 hpost
  have hat : (pre ++ (ascii "MaxCount=" ++ (ds ++ post))).drop (pre.length + 9) = ds ++ post :=
    drop_maxCount (ds ++ post)
  have hsize : (pre ++ (ascii "MaxCount=" ++ (ds ++ post))).length =
      pre.length + 9 + (ds.length + post.length) := by
    simp only [List.length_append, length_maxCount]
    omega
  have hfit : pre.length + 9 ≤ (pre ++ (ascii "MaxCount=" ++ (ds ++ post))).length := by omega
  -- the digits are in front of `POST`, or `POST` is in front of the count
  have hroom : ds.length ≤ sizeSub last (pre.length + 9) := by
    rw [maxSize] at hmax
    rcases Nat.lt_or_ge last (pre.length + 9) with hlt | hge
    · rw [sizeSub, Nat.mod_eq_of_lt (by omega)]
      omega
    · have hend := add_length_le_of_find hlast
      obtain ⟨d, rfl⟩ : ∃ d, last = pre.length + 9 + d := ⟨last - (pre.length + 9), by omega⟩
      rw [sizeSub_of_le hge (by omega)]
      by_contra hshort
      have hlt : d < ds.length := by omega
      obtain ⟨-, hp, -⟩ := find_eq_some_iff.1 hlast
      have hP : ascii "POST" = 80 :: ascii "OST" := by decide
      rw [← List.drop_drop, hat, List.drop_append_of_le_length hlt.le, List.drop_eq_getElem_cons hlt,
        List.cons_append, hP, List.cons_prefix_cons] at hp
      have hdigit := hds _ (List.getElem_mem hlt)
      rw [← hp.1] at hdigit
      exact absurd hdigit (by decide)
  rw [countRequested, hfirst, hlast]
  simp only [length_maxCount]
  rw [substr, if_pos hfit, hat, ok_bind, List.take_append, List.take_of_length_le hroom]
  refine stoi_digits hne hds (fun c hc => hrest c ?_) hvalue
  cases post with
  | nil => rw [List.take_nil] at hc; exact hc
  | cons d post =>
      rcases hn : sizeSub last (pre.length + 9) - ds.length with _ | n
      · rw [hn, List.take_zero] at hc
        cases hc
      · rw [hn, List.take_succ_cons] at hc
        exact hc

/-- Writing a count makes no keyword of a lambda. -/
theorem isLambda_writeCount {message : Bytes} (count : ℕ) (h : isLambda message = false) :
    isLambda (writeCount message count) = false := by
  rw [writeCount]
  split
  · rename_i first hfirst
    have hnot : ¬ ascii "lambda" <:+: message := by
      rw [← find_isSome_iff]
      exact Bool.eq_false_iff.1 h
    rw [isLambda, contains, Bool.eq_false_iff, ne_eq, find_isSome_iff]
    intro hinfix
    have hdigits : ∀ c ∈ ascii "lambda", c ∉ decimal count := by
      have hno : ∀ c ∈ ascii "lambda", ¬ (digitValue 10 c).isSome := by decide +kernel
      exact fun c hc hmem => hno c hc (isSome_of_mem_decimal hmem)
    rcases infix_append_cases (decimal_ne_nil count) hdigits hinfix with h | h
    · exact hnot (h.trans (List.take_prefix _ _).isInfix)
    · exact hnot (h.trans (List.drop_suffix _ _).isInfix)
  · exact h

/-- **The granted count replaces the digits of the count and nothing else** if and only
if the count has as many digits as a string object has bytes, or no more than that and
nothing behind it. -/
theorem rewritten_iff {list : CloudResourceList} {k : ℕ}
    (hmax : (pre ++ (ascii "MaxCount=" ++ (ds ++ post))).length < maxSize)
    (hec2 : isEc2 (pre ++ (ascii "MaxCount=" ++ (ds ++ post))) = true)
    (hpost : contains (ascii "POST") (pre ++ (ascii "MaxCount=" ++ (ds ++ post))) = true)
    (hlambda : isLambda (pre ++ (ascii "MaxCount=" ++ (ds ++ post))) = false)
    (hfirst : find (ascii "MaxCount=") (pre ++ (ascii "MaxCount=" ++ (ds ++ post))) = some pre.length)
    (hne : ds ≠ []) (hds : ∀ c ∈ ds, (digitValue 10 c).isSome)
    (hrest : ∀ c, post.head? = some c → digitValue 10 c = none)
    (hvalue : digitsValue 10 ds < 2 ^ 31)
    (hgranted : (list.invokeManyResources (ascii "ec2") (digitsValue 10 ds)).1 = k) (hk : 1 ≤ k) :
    (limitResource (pre ++ (ascii "MaxCount=" ++ (ds ++ post))) list resourceKeywords).map Prod.fst =
        .ok (pre ++ (ascii "MaxCount=" ++ (decimal k ++ post))) ↔
      ds.length = sizeofString ∨ post = [] ∧ ds.length ≤ sizeofString := by
  have hgrant : list.grant (digitsValue 10 ds) = k := by
    rw [CloudResourceList.invokeManyResources_fst] at hgranted
    exact_mod_cast hgranted
  have hcount := countRequested_digits hmax hfirst hpost hne hds hrest hvalue
  have hwritten : writeCount (pre ++ (ascii "MaxCount=" ++ (ds ++ post))) k =
      pre ++ (ascii "MaxCount=" ++ (decimal k ++ (ds ++ post).drop sizeofString)) := by
    rw [writeCount_of_find hfirst, List.take_left, ← List.drop_drop, drop_maxCount]
  have hclient : limitResource (pre ++ (ascii "MaxCount=" ++ (ds ++ post))) list resourceKeywords =
      .ok (writeCount (pre ++ (ascii "MaxCount=" ++ (ds ++ post))) k,
        list.invokeMany (ascii "ec2") (digitsValue 10 ds)) := by
    have hrounds := v2filterClient_rounds (pre ++ (ascii "MaxCount=" ++ (ds ++ post))) list
    rw [if_pos hec2, hcount, ok_bind, ok_bind,
      Filtering.deliver_granted (by dsimp only; rw [hgrant]; omega), Filtering.lastRound] at hrounds
    dsimp only at hrounds
    rw [hgrant, isLambda_writeCount k hlambda, if_neg (by decide)] at hrounds
    exact hrounds
  rw [hclient, hwritten, ← drop_append_eq_iff]
  constructor
  · intro h
    have htext := Except.ok.inj h
    exact List.append_cancel_left (List.append_cancel_left (List.append_cancel_left htext))
  · intro h
    rw [h]
    rfl

/-- A request for three instances, with its count at the very end. -/
theorem rewritten_iff_atEnd :
    (limitResource (ascii "POST ec2 RunInstances " ++ (ascii "MaxCount=" ++ (ascii "3" ++ []))) {}
        resourceKeywords).map Prod.fst =
      .ok (ascii "POST ec2 RunInstances " ++ (ascii "MaxCount=" ++ (decimal 2 ++ []))) :=
  (rewritten_iff (by decide +kernel) (by decide +kernel) (by decide +kernel) (by decide +kernel)
    (by decide +kernel) (by decide +kernel) (by decide +kernel) (fun _ h => by cases h)
    (by decide +kernel) (by decide +kernel) (by decide)).2 (Or.inr ⟨rfl, by decide⟩)

/-- A request up to its count. -/
def untilCount : Bytes :=
  ascii "POST / HTTP/1.1\r\nHost: ec2\r\n" ++ ascii "Content-Length: 41\r\n\r\n" ++
    ascii "Action=RunInstances&"

/-- **What stands behind the count is erased,** here the next parameter of the form: all
that is asked for is granted, and the text that is passed on ends with the count. -/
theorem count_erases_rest :
    isEc2 (untilCount ++ ascii "MaxCount=1&MinCount=1") = true ∧
      contains (ascii "POST") (untilCount ++ ascii "MaxCount=1&MinCount=1") = true ∧
      isLambda (untilCount ++ ascii "MaxCount=1&MinCount=1") = false ∧
      find (ascii "MaxCount=") (untilCount ++ ascii "MaxCount=1&MinCount=1") =
        some untilCount.length ∧
      (({} : CloudResourceList).invokeManyResources (ascii "ec2") 1).1 = 1 ∧
      (limitResource (untilCount ++ ascii "MaxCount=1&MinCount=1") {} resourceKeywords).map Prod.fst =
        .ok (untilCount ++ ascii "MaxCount=1") ∧
      (limitResource (untilCount ++ ascii "MaxCount=1&MinCount=1") {} resourceKeywords).map Prod.fst ≠
        .ok (untilCount ++ ascii "MaxCount=1&MinCount=1") := by
  decide +kernel

end V2Proxy
