/-
# The log file of `mm-link`

The constructor of `LinkQueue` begins the log file with comments, and `record_arrival`,
`record_departure_opportunity` and `record_departure` add a line for each event.
`scripts/mm-throughput-graph` and `scripts/mm-delay-graph` read the file line by line.

They read back what was logged (`events_logFile`): each event, with its time counted from
the base timestamp of the header, and none besides.  The names in the header are written as
they are, so this needs that none of them has a line ending.
-/

import V2Proxy.Frontend.EventLog
import V2Proxy.Packet.QueueText
import V2Proxy.Scripts.GraphLog

namespace V2Proxy

open Foundations

/-! ### The text -/

/-- What the header of a log file says besides the queue and the base timestamp. -/
structure LogHeader where
  linkName : Bytes
  filename : Bytes
  logfile : Bytes
  commandLine : Bytes
  initialTimestamp : ℕ
  /-- `getenv( "MAHIMAHI_SHELL_PREFIX" )` -/
  shellPrefix : Option Bytes

/-- The lines that `LinkQueue::LinkQueue` begins the log file with. -/
def LogHeader.lines (h : LogHeader) (l : LinkQueue) : List Bytes :=
  [ascii "# mahimahi mm-link (" ++ h.linkName ++ ascii ") [" ++ h.filename ++ ascii "] > " ++
      h.logfile,
    ascii "# command line: " ++ h.commandLine,
    ascii "# queue: " ++ l.packetQueue.toString,
    ascii "# init timestamp: " ++ decimal h.initialTimestamp,
    ascii "# base timestamp: " ++ decimal l.baseTimestamp] ++
  (h.shellPrefix.map (ascii "# mahimahi config: " ++ ·)).toList

/-- The line of an event. -/
def LogEvent.line : LogEvent → Bytes
  | .arrival time size => decimal time ++ ascii " + " ++ decimal size
  | .opportunity time size => decimal time ++ ascii " # " ++ decimal size
  | .departure time size delay =>
      decimal time ++ ascii " - " ++ decimal size ++ ascii " " ++ decimal delay

/-- The log file of a link that began as `start`, once `log` has been logged. -/
def logFile (h : LogHeader) (start : LinkQueue) (log : List LogEvent) : Bytes :=
  (h.lines start ++ log.map LogEvent.line).flatMap (· ++ [10])

/-- None of the names in the header has a line ending. -/
structure LogHeader.OneLine (h : LogHeader) : Prop where
  linkName : 10 ∉ h.linkName
  filename : 10 ∉ h.filename
  logfile : 10 ∉ h.logfile
  commandLine : 10 ∉ h.commandLine
  shellPrefix : ∀ config, h.shellPrefix = some config → 10 ∉ config

/-! ### The lines -/

/-- There is no space in a number. -/
theorem isSpace_of_mem_decimal {n : ℕ} {c : UInt8} (h : c ∈ decimal n) : isSpace c = false :=
  isSpace_of_digit (isSome_of_mem_decimal h)

/-- There is no line ending in a number. -/
theorem newline_not_mem_decimal (n : ℕ) : 10 ∉ decimal n := by
  intro h
  have hspace := isSpace_of_mem_decimal h
  revert hspace
  decide

/-- Nor is there in the text of a queue. -/
theorem newline_not_mem_toString (q : AbstractPacketQueue) : 10 ∉ q.toString := by
  have hdropping : ∀ (q : DroppingPacketQueue) (type : Bytes), 10 ∉ type → 10 ∉ q.toString type := by
    intro q type htype
    have hdecimal := newline_not_mem_decimal
    have htexts : ∀ text ∈ [ascii " [", ascii "bytes=", ascii ", ", ascii "packets=", ascii "]"],
        10 ∉ text := by decide +kernel
    simp only [List.forall_mem_cons] at htexts
    obtain ⟨h₁, h₂, h₃, h₄, h₅, -⟩ := htexts
    rw [DroppingPacketQueue.toString]
    split_ifs <;> simp [htype, hdecimal, h₁, h₂, h₃, h₄, h₅]
  cases q with
  | infinite q =>
      change 10 ∉ ascii "infinite"
      decide +kernel
  | droptail q => exact hdropping q _ (by decide +kernel)
  | drophead q => exact hdropping q _ (by decide +kernel)
  | codel q => exact hdropping _ _ (by decide +kernel)
  | pie q => exact hdropping _ _ (by decide +kernel)

/-- No line of the header has a line ending. -/
theorem LogHeader.OneLine.newline_not_mem {h : LogHeader} (hh : h.OneLine) {l : LinkQueue}
    {line : Bytes} (hline : line ∈ h.lines l) : 10 ∉ line := by
  have htexts : ∀ text ∈ [ascii "# mahimahi mm-link (", ascii ") [", ascii "] > ",
      ascii "# command line: ", ascii "# queue: ", ascii "# init timestamp: ",
      ascii "# base timestamp: ", ascii "# mahimahi config: "], 10 ∉ text := by
    decide +kernel
  simp only [List.forall_mem_cons] at htexts
  obtain ⟨h₁, h₂, h₃, h₄, h₅, h₆, h₇, h₈, -⟩ := htexts
  rcases List.mem_append.1 hline with hline | hline
  · simp only [List.mem_cons, List.not_mem_nil, or_false] at hline
    rcases hline with rfl | rfl | rfl | rfl | rfl
    · simp [h₁, h₂, h₃, hh.linkName, hh.filename, hh.logfile]
    · simp [h₄, hh.commandLine]
    · simp [h₅, newline_not_mem_toString]
    · simp [h₆, newline_not_mem_decimal]
    · simp [h₇, newline_not_mem_decimal]
  · obtain ⟨config, hconfig, rfl⟩ := Option.map_eq_some_iff.1 (Option.mem_toList.1 hline)
    simp [h₈, hh.shellPrefix config hconfig]

/-- Nor in the line of an event. -/
theorem LogEvent.newline_not_mem_line (e : LogEvent) : 10 ∉ e.line := by
  have hdecimal := newline_not_mem_decimal
  have htexts : ∀ text ∈ [ascii " + ", ascii " # ", ascii " - ", ascii " "], 10 ∉ text := by
    decide +kernel
  simp only [List.forall_mem_cons] at htexts
  obtain ⟨h₁, h₂, h₃, h₄, -⟩ := htexts
  cases e with
  | arrival time size => simp [line, hdecimal, h₁]
  | opportunity time size => simp [line, hdecimal, h₂]
  | departure time size delay => simp [line, hdecimal, h₃, h₄]

/-- **The lines of the file are those that were written.** -/
theorem getLines_logFile {h : LogHeader} (hh : h.OneLine) (start : LinkQueue) (log : List LogEvent) :
    getLines (logFile h start log) = h.lines start ++ log.map LogEvent.line := by
  refine getLines_flatMap fun line hline => ?_
  rcases List.mem_append.1 hline with hline | hline
  · exact hh.newline_not_mem hline
  · obtain ⟨e, -, rfl⟩ := List.mem_map.1 hline
    exact e.newline_not_mem_line

/-! ### What the scripts read -/

namespace GraphLog

/-- A number looks like one. -/
theorem isNumber_decimal (n : ℕ) : isNumber (decimal n) = true := by
  rw [isNumber, Bool.and_eq_true, List.all_eq_true]
  exact ⟨decide_eq_true (decimal_ne_nil n), fun c hc => isSome_of_mem_decimal hc⟩

/-- The base timestamp is found in its line. -/
theorem matchBase_decimal (n : ℕ) :
    matchBase (ascii "# base timestamp: " ++ decimal n) = some n := by
  have hds : ∀ c ∈ decimal n, Perl.isDigit c = true := fun c hc => isSome_of_mem_decimal hc
  rw [matchBase, List.drop_left, List.takeWhile_eq_self_iff.2 hds,
    if_pos ⟨List.prefix_append _ _, decimal_ne_nil n⟩, digitsValue_decimal]

variable {γ : Type} (process : γ → Event → Except Bytes γ)

/-- A comment that is not the one of the base timestamp, by the text that it begins with. -/
theorem readLine_comment {text : Bytes}
    (htext : 3 ≤ text.length ∧ ascii "#" <+: text ∧ text.take 3 ≠ ascii "# b") (rest : Bytes)
    (s : Variables γ) : readLine process s (text ++ rest) = .ok s := by
  obtain ⟨hlong, hcomment, hne⟩ := htext
  have hbase : matchBase (text ++ rest) = none := by
    rw [matchBase, if_neg]
    rintro ⟨hstarts, -⟩
    have hfront : ascii "# b" <+: text ++ rest :=
      List.IsPrefix.trans (by decide +kernel) hstarts
    rw [List.prefix_iff_eq_take, show (ascii "# b").length = 3 from by decide +kernel,
      List.take_append_of_le_length hlong] at hfront
    exact hne hfront.symm
  rw [readLine, hbase]
  dsimp only
  rw [if_pos (hcomment.trans (List.prefix_append _ _))]

/-- **The header sets the base timestamp,** and nothing else. -/
theorem foldlM_header (h : LogHeader) (l : LinkQueue) (start : γ) :
    (h.lines l).foldlM (readLine process) { graph := start } =
      .ok { baseTimestamp := some l.baseTimestamp, graph := start } := by
  have hbase : readLine process { graph := start } (ascii "# base timestamp: " ++ decimal l.baseTimestamp) =
      .ok { baseTimestamp := some l.baseTimestamp, graph := start } := by
    rw [readLine, matchBase_decimal]
    rfl
  have hconfig : ∀ s, (h.shellPrefix.map (ascii "# mahimahi config: " ++ ·)).toList.foldlM
      (readLine process) s = .ok s := by
    intro s
    rcases h.shellPrefix with _ | config
    · rfl
    · rw [Option.map_some, Option.toList_some, List.foldlM_cons, readLine_comment process (by decide +kernel)]
      rfl
  rw [LogHeader.lines, List.foldlM_append]
  simp only [List.append_assoc, List.foldlM_cons, List.foldlM_nil]
  rw [readLine_comment process (by decide +kernel), ok_bind,
    readLine_comment process (by decide +kernel), ok_bind,
    readLine_comment process (by decide +kernel), ok_bind,
    readLine_comment process (by decide +kernel), ok_bind, hbase]
  exact hconfig _

end GraphLog

namespace LogEvent

/-- The event that the line of `e` is read as. -/
def read (base : ℕ) : LogEvent → GraphLog.Event
  | .arrival time size => ⟨time - base, ascii "+", size, none⟩
  | .opportunity time size => ⟨time - base, ascii "#", size, none⟩
  | .departure time size delay => ⟨time - base, ascii "-", size, some (decimal delay)⟩

/-- The fields of the line. -/
def fields : LogEvent → List Bytes
  | .arrival time size => [decimal time, ascii "+", decimal size]
  | .opportunity time size => [decimal time, ascii "#", decimal size]
  | .departure time size delay => [decimal time, ascii "-", decimal size, decimal delay]

/-- The fields of a line are those of its event. -/
theorem fields_line (e : LogEvent) : Perl.fields e.line = e.fields := by
  have hline : e.line = ([32] : Bytes).intercalate e.fields := by
    have hplus : ascii " + " = 32 :: (ascii "+" ++ [32]) := by decide +kernel
    have hhash : ascii " # " = 32 :: (ascii "#" ++ [32]) := by decide +kernel
    have hminus : ascii " - " = 32 :: (ascii "-" ++ [32]) := by decide +kernel
    have hspace : ascii " " = [32] := by decide +kernel
    cases e <;> simp [line, fields, List.intercalate_cons_cons, hplus, hhash, hminus, hspace]
  have hdecimal : ∀ n : ℕ, decimal n ≠ [] ∧ ∀ c ∈ decimal n, isSpace c = false := fun n =>
    ⟨decimal_ne_nil n, fun c hc => isSpace_of_mem_decimal hc⟩
  have hmarks : ∀ mark ∈ [ascii "+", ascii "#", ascii "-"],
      mark ≠ [] ∧ ∀ c ∈ mark, isSpace c = false := by decide +kernel
  rw [hline]
  refine Perl.fields_intercalate (by cases e <;> simp [fields]) fun word hword => ?_
  cases e <;> simp only [fields, List.mem_cons, List.not_mem_nil, or_false] at hword
  · rcases hword with rfl | rfl | rfl
    · exact hdecimal _
    · exact hmarks _ (by simp)
    · exact hdecimal _
  · rcases hword with rfl | rfl | rfl
    · exact hdecimal _
    · exact hmarks _ (by simp)
    · exact hdecimal _
  · rcases hword with rfl | rfl | rfl | rfl
    · exact hdecimal _
    · exact hmarks _ (by simp)
    · exact hdecimal _
    · exact hdecimal _

/-- The line begins with a digit, so it is no comment. -/
theorem not_comment_line (e : LogEvent) : ¬ ascii "#" <+: e.line := by
  have hdigit : ∀ (n : ℕ) (rest : Bytes), ¬ ascii "#" <+: decimal n ++ rest := by
    intro n rest hstarts
    obtain ⟨d, ds, hn⟩ := List.exists_cons_of_ne_nil (decimal_ne_nil n)
    have hd : (digitValue 10 d).isSome := isSome_of_mem_decimal (n := n) (hn ▸ List.mem_cons_self)
    rw [hn, show ascii "#" = [35] from by decide +kernel, List.cons_append,
      List.cons_prefix_cons] at hstarts
    rw [← hstarts.1] at hd
    revert hd
    decide
  cases e <;> simp only [line, List.append_assoc] <;> exact hdigit _ _

end LogEvent

namespace GraphLog

/-- What the scripts know of a link, whose base timestamp is `base`, from its log. -/
def readEvents (base : ℕ) (log : List LogEvent) : Variables (List Event) where
  baseTimestamp := some base
  firstTimestamp := log.head?.map fun e => (e.time : ℤ) - base
  lastTimestamp := (log.map fun e => (e.time : ℤ) - base).max?
  graph := log.map (LogEvent.read base)

/-- One more event, as `readLine` takes it in. -/
theorem readEvents_concat (base : ℕ) (log : List LogEvent) (e : LogEvent) :
    readEvents base (log ++ [e]) = {
      baseTimestamp := some base
      firstTimestamp := some ((readEvents base log).firstTimestamp.getD (e.time - base))
      lastTimestamp :=
        some (max ((e.time : ℤ) - base) ((readEvents base log).lastTimestamp.getD (e.time - base)))
      graph := (readEvents base log).graph ++ [e.read base] } := by
  rcases log with _ | ⟨e', log⟩
  · simp [readEvents]
  · have hlast : ((e' :: log ++ [e]).map fun e => (e.time : ℤ) - base).max? =
        some (max ((e.time : ℤ) - base)
          (((e' :: log).map fun e => (e.time : ℤ) - base).max?.getD (e.time - base))) := by
      rw [List.map_append, List.map_cons, List.cons_append, List.max?_cons', List.foldl_append,
        List.max?_cons', Option.getD_some, max_comm]
      rfl
    rw [readEvents, hlast]
    simp [readEvents]

/-- **A line is read as its event.** -/
theorem readLine_line (base : ℕ) (log : List LogEvent) (e : LogEvent) :
    readLine (fun es e => .ok (es ++ [e])) (readEvents base log) e.line =
      .ok (readEvents base (log ++ [e])) := by
  have hbase : matchBase e.line = none := by
    rw [matchBase, if_neg]
    rintro ⟨hstarts, -⟩
    exact e.not_comment_line (List.IsPrefix.trans (by decide +kernel) hstarts)
  rw [readLine, hbase]
  dsimp only
  rw [if_neg e.not_comment_line, e.fields_line, readEvents_concat]
  cases e with
  | arrival time size =>
      simp only [LogEvent.fields, isNumber_decimal, digitsValue_decimal]
      rfl
  | opportunity time size =>
      simp only [LogEvent.fields, isNumber_decimal, digitsValue_decimal]
      rfl
  | departure time size delay =>
      simp only [LogEvent.fields, isNumber_decimal, digitsValue_decimal]
      rfl

/-- **The scripts read back what was logged.** -/
theorem events_logFile {h : LogHeader} (hh : h.OneLine) (start : LinkQueue) (log : List LogEvent) :
    events (getLines (logFile h start log)) = .ok (readEvents start.baseTimestamp log) := by
  have hlines : ∀ log : List LogEvent, (log.map LogEvent.line).foldlM (readLine fun es e => .ok (es ++ [e]))
      (readEvents start.baseTimestamp []) = .ok (readEvents start.baseTimestamp log) := by
    intro log
    induction log using List.reverseRecOn with
    | nil => rfl
    | append_singleton log e ih =>
        rw [List.map_append, List.foldlM_append, ih, ok_bind, List.map_singleton, List.foldlM_cons,
          readLine_line]
        rfl
  rw [getLines_logFile hh, events, readLog, List.foldlM_append, foldlM_header, ok_bind]
  exact hlines log

end GraphLog

end V2Proxy
