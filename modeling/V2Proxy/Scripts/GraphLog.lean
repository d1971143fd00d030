/-
# The log that the graphs are made of

How `scripts/mm-throughput-graph` and `scripts/mm-delay-graph` read a line of the log; the
code is the same in both.

The two read a log into different variables, so what they do with an event is an
argument of `readLine`.  `events` collects the events instead; what a script reads is what
it makes of these (`readLog_eq`).
-/

import V2Proxy.Scripts.Perl
import V2Proxy.Foundations.Loop

namespace V2Proxy
namespace GraphLog

open Foundations

/-- The fields of an event, with the timestamp counted from the base timestamp. -/
structure Event where
  timestamp : ℤ
  eventType : Bytes
  numBytes : ℕ
  delay : Option Bytes

/-- The variables of a script: `graph` are those that only one of the two has. -/
structure Variables (γ : Type) where
  baseTimestamp : Option ℕ := none
  firstTimestamp : Option ℤ := none
  lastTimestamp : Option ℤ := none
  graph : γ

/-- `m{^\d+$}`. -/
def isNumber (field : Bytes) : Bool := field ≠ [] && field.all Perl.isDigit

/-- `m{^# base timestamp: (\d+)}`. -/
def matchBase (line : Bytes) : Option ℕ :=
  let text := ascii "# base timestamp: "
  let ds := (line.drop text.length).takeWhile Perl.isDigit
  if text <+: line ∧ ds ≠ [] then some (digitsValue 10 ds) else none

/-- A round of the loop over the lines, without their line endings. -/
def readLine {γ : Type} (process : γ → Event → Except Bytes γ) (s : Variables γ) (line : Bytes) :
    Except Bytes (Variables γ) :=
  match matchBase line with
  | some base =>
      if s.baseTimestamp.isSome then .error (ascii "base timestamp multiply defined")
      else .ok { s with baseTimestamp := some base }
  | none =>
      if ascii "#" <+: line then .ok s
      else
        match Perl.fields line with
        | timestamp :: eventType :: numBytes :: rest =>
            if isNumber timestamp = false then .error (ascii "Invalid timestamp: " ++ timestamp)
            else if isNumber numBytes = false then
              .error (ascii "Invalid byte count: " ++ numBytes)
            else
              match s.baseTimestamp with
              | none => .error (ascii "logfile is missing base timestamp")
              | some base => do
                  let timestamp : ℤ := digitsValue 10 timestamp - base
                  let graph ← process s.graph {
                    timestamp := timestamp
                    eventType := eventType
                    numBytes := digitsValue 10 numBytes
                    delay := rest.head? }
                  return { s with
                    firstTimestamp := some (s.firstTimestamp.getD timestamp)
                    lastTimestamp := some (max timestamp (s.lastTimestamp.getD timestamp))
                    graph := graph }
        | _ => .error (ascii "Format: timestamp event_type num_bytes [delay]")

/-- The loop over the lines. -/
def readLog {γ : Type} (process : γ → Event → Except Bytes γ) (start : γ) (lines : List Bytes) :
    Except Bytes (Variables γ) :=
  lines.foldlM (readLine process) { graph := start }

/-- The log, as its events. -/
def events (lines : List Bytes) : Except Bytes (Variables (List Event)) :=
  readLog (fun es e => .ok (es ++ [e])) [] lines

/-- **A line has an event at most,** which is what a script reads of it. -/
theorem readLine_eq {γ : Type} (process : γ → Event → Except Bytes γ) {s s' : Variables (List Event)}
    {line : Bytes} (h : readLine (fun es e => .ok (es ++ [e])) s line = .ok s') :
    ∃ es, s'.graph = s.graph ++ es ∧ ∀ g, readLine process { s with graph := g } line =
      (es.foldlM process g).map fun g => { s' with graph := g } := by
  rw [readLine] at h
  rcases hbase : matchBase line with _ | base
  · simp only [hbase] at h
    split_ifs at h with hcomment
    · obtain rfl := Except.ok.inj h
      refine ⟨[], by simp, fun g => ?_⟩
      simp only [readLine, hbase, if_pos hcomment]
      rfl
    · split at h
      · rename_i hfields
        split_ifs at h with htimestamp hbytes
        rcases hs : s.baseTimestamp with _ | base
        · rw [hs] at h
          cases h
        · rw [hs] at h
          obtain rfl := Except.ok.inj h
          refine ⟨_, rfl, fun g => ?_⟩
          simp only [readLine, hbase, if_neg hcomment, hfields, if_neg htimestamp, if_neg hbytes,
            List.foldlM_cons, List.foldlM_nil]
          generalize process g _ = graph
          rcases graph with e | graph
          · rfl
          · rfl
      · cases h
  · simp only [hbase] at h
    split_ifs at h with hdefined
    obtain rfl := Except.ok.inj h
    refine ⟨[], by simp, fun g => ?_⟩
    simp only [readLine, hbase, if_neg hdefined]
    rfl

/-- **What a script reads is what it makes of the events.** -/
theorem readLog_eq {γ : Type} (process : γ → Event → Except Bytes γ) (start : γ) {lines : List Bytes}
    {log : Variables (List Event)} (h : events lines = .ok log) :
    readLog process start lines =
      (log.graph.foldlM process start).map fun g => { log with graph := g } := by
  induction lines using List.reverseRecOn generalizing log with
  | nil =>
      obtain rfl := Except.ok.inj h
      rfl
  | append_singleton lines line ih =>
      rw [events, readLog, List.foldlM_append] at h
      obtain ⟨log', hlog', h⟩ := bind_eq_ok.1 h
      obtain ⟨last, hline, h⟩ := bind_eq_ok.1 h
      obtain rfl := Except.ok.inj h
      obtain ⟨es, hes, hread⟩ := readLine_eq process hline
      rw [readLog, List.foldlM_append, hes, List.foldlM_append]
      change (readLog process start lines >>= _) = _
      rw [ih hlog']
      rcases log'.graph.foldlM process start with e | g
      · rfl
      · change (readLine process { log' with graph := g } line >>= pure) = _
        rw [hread g]
        change (_ >>= pure) = (es.foldlM process g).map _
        rcases es.foldlM process g with e | g
        · rfl
        · rfl

end GraphLog
end V2Proxy
