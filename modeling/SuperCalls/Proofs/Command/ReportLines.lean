/-
Module: SuperCalls.Proofs.Command.ReportLines
Purpose: The lines of a progress report.  The bus of a run is calm, and its notes are the lines of
  what was announced; every outcome has a line of its own.
Main exports: Reporter.line, Command.reporting_calm, Command.notes_after, Reporter.line_fixed_iff
-/
import SuperCalls.Command
import SuperCalls.Proofs.Batch.Course

namespace SuperCalls

namespace Bus

variable {ε ν : Type} [HasTopic ε]

theorem perform_notes (tell : Bus ε ν → String → Heard ε → Step ε ν Unit) (bus : Bus ε ν)
    (notes : List ν) :
    bus.perform tell (notes.map .note) = ({ bus with notes := bus.notes ++ notes }, .ok ()) := by
  induction notes generalizing bus with
  | nil => simp [perform]
  | cons n notes ih =>
      rw [List.map_cons, perform, ih]
      simp [note]

/-- A topic with a single listener that stays and writes notes. -/
theorem tellWithin_notes {bus : Bus ε ν} {topic : String} (heard : Heard ε)
    {r : Registration ε ν} {notes : List ν} (members : bus.listeners topic = [r])
    (stays : r.single = false) (writes : r.listener heard = notes.map .note) (depth : Nat) :
    bus.tellWithin (depth + 1) topic heard = ({ bus with notes := bus.notes ++ notes }, .ok ()) := by
  rw [tellWithin, members, deliver, stays]
  simp only [Bool.false_and, Bool.false_eq_true, if_false, claim, stays, writes, perform_notes]
  rfl

theorem tellWithin_nobody {bus : Bus ε ν} {topic : String} (nobody : bus.listeners topic = [])
    (depth : Nat) (heard : Heard ε) : bus.tellWithin depth topic heard = (bus, .ok ()) := by
  cases depth with
  | zero => rfl
  | succ depth =>
      rw [tellWithin, nobody]
      rfl

end Bus

namespace Reporter

/-- The line of an outcome. -/
def line (reporter : Reporter) (dryRun : Bool) (outcome : Outcome) : String :=
  (reporter.lines (outcome.event dryRun)).headD ""

/-- Every outcome is reported on a single line. -/
theorem lines_eq (reporter : Reporter) (dryRun : Bool) (outcome : Outcome) :
    reporter.lines (outcome.event dryRun) = [reporter.line dryRun outcome] := by
  obtain ⟨path, status, counts⟩ := outcome
  unfold line lines
  cases status with
  | fixed =>
      unfold Outcome.event Event.notice report
      cases reporter.verbose <;> rfl
  | _ => rfl

theorem append_ne {x y : String} (apart : x.toList.take 2 ≠ y.toList.take 2)
    (long : 2 ≤ x.toList.length) (also : 2 ≤ y.toList.length) (r s : String) : x ++ r ≠ y ++ s := by
  intro same
  have letters := congrArg (fun text => text.toList.take 2) same
  simp only [String.toList_append, List.take_append_of_le_length long,
    List.take_append_of_le_length also] at letters
  exact apart letters

theorem line_skipped (reporter : Reporter) (dryRun : Bool) (path : String) (counts : Counts) :
    reporter.line dryRun ⟨path, .skipped, counts⟩ = "SKIP: " ++ (path ++ " not found") :=
  String.append_assoc

theorem line_failed (reporter : Reporter) (dryRun : Bool) (path message : String)
    (counts : Counts) :
    reporter.line dryRun ⟨path, .failed message, counts⟩ =
      "FAILED: " ++ (path ++ (" (" ++ (message ++ ")"))) := by
  simp only [← String.append_assoc]
  rfl

theorem line_unchanged (reporter : Reporter) (dryRun : Bool) (path : String) (counts : Counts) :
    reporter.line dryRun ⟨path, .unchanged, counts⟩ =
      dryRunMark dryRun ++ ("NO CHANGE: " ++ path) :=
  rfl

/-- The line of a fixed file; a verbose reporter lists the counts behind the path. -/
theorem line_fixed (reporter : Reporter) (dryRun : Bool) (path : String) (counts : Counts) :
    reporter.line dryRun ⟨path, .fixed, counts⟩ =
      dryRunMark dryRun ++ ("FIXED: " ++ (path ++
        if reporter.verbose then " (" ++ counts.text ++ ")" else "")) := by
  unfold line lines Outcome.event Event.notice report
  cases reporter.verbose with
  | false => simp only [Bool.false_eq_true, if_false, String.append_empty]; rfl
  | true => simp only [if_true, ← String.append_assoc]; rfl

/-- Only the line of a file that was fixed, and was not left alone in a dry run, says so without a
mark. -/
theorem line_fixed_iff (reporter : Reporter) (dryRun : Bool) (outcome : Outcome) :
    (∃ rest, reporter.line dryRun outcome = "FIXED: " ++ outcome.path ++ rest) ↔
      outcome.isFixed ∧ dryRun = false := by
  obtain ⟨path, status, counts⟩ := outcome
  constructor
  · rintro ⟨rest, same⟩
    rw [String.append_assoc] at same
    cases status with
    | skipped =>
        rw [line_skipped] at same
        exact absurd same (append_ne (by decide) (by decide) (by decide) _ _)
    | fixed =>
        rw [line_fixed] at same
        cases dryRun with
        | false => exact ⟨rfl, rfl⟩
        | true => exact absurd same (append_ne (by decide) (by decide) (by decide) _ _)
    | unchanged =>
        rw [line_unchanged] at same
        cases dryRun with
        | false =>
            rw [show dryRunMark false = "" from rfl, String.empty_append] at same
            exact absurd same (append_ne (by decide) (by decide) (by decide) _ _)
        | true => exact absurd same (append_ne (by decide) (by decide) (by decide) _ _)
    | failed message =>
        rw [line_failed] at same
        exact absurd same (append_ne (by decide) (by decide) (by decide) _ _)
  · rintro ⟨fixed, rfl⟩
    cases status with
    | fixed =>
        rw [line_fixed, show dryRunMark false = "" from rfl, String.empty_append,
          ← String.append_assoc]
        exact ⟨_, rfl⟩
    | _ => cases fixed

/-- A reporter always has lines for an announcement of a batch. -/
theorem report_notice (reporter : Reporter) (event : Event) :
    reporter.report event.notice = .ok (reporter.lines event) := by
  unfold lines
  cases event with
  | fixed path counts dryRun =>
      unfold Event.notice report
      cases reporter.verbose <;> rfl
  | _ => rfl

end Reporter

namespace Reporter

section Attaching

variable {ε ν : Type} [HasTopic ε] (listener : Listener ε ν)

/-- Listening to topics adds one listener to each of them, and nothing else, if nobody listens for
registrations. -/
theorem listen_eq (topics : List String) (distinct : topics.Nodup)
    (other : Bus.joiningTopic ∉ topics) (bus : Bus ε ν)
    (nobody : bus.listeners Bus.joiningTopic = []) :
    ∃ attached, listen listener bus topics = (attached, .ok ()) ∧ attached.notes = bus.notes ∧
      (∀ topic ∉ topics, attached.listeners topic = bus.listeners topic) ∧
      ∀ topic ∈ topics, ∃ serial,
        attached.listeners topic = bus.listeners topic ++ [⟨serial, none, false, listener⟩] := by
  induction topics generalizing bus with
  | nil => exact ⟨bus, rfl, rfl, fun _ _ => rfl, fun _ member => (List.not_mem_nil member).elim⟩
  | cons topic topics ih =>
      obtain ⟨fresh, distinct⟩ := List.nodup_cons.mp distinct
      rw [List.mem_cons, not_or] at other
      have joined : bus.on topic none listener = (bus.enrol topic none false listener, .ok ()) := by
        unfold Bus.on Bus.register Bus.tell
        rw [Bus.tellWithin_nobody nobody]
      have still : (bus.enrol topic none false listener).listeners Bus.joiningTopic = [] := by
        rw [Bus.listeners_enrol, if_neg other.1, nobody]
      obtain ⟨attached, listened, notes, kept, added⟩ := ih distinct other.2 _ still
      refine ⟨attached, ?_, ?_, ?_, ?_⟩
      · rw [listen, joined]
        exact listened
      · rw [notes]
        rfl
      · intro key absent
        rw [List.mem_cons, not_or] at absent
        rw [kept key absent.2, Bus.listeners_enrol, if_neg absent.1]
      · intro key member
        rcases List.mem_cons.mp member with rfl | later
        · exact ⟨bus.issued, by rw [kept key fresh, Bus.listeners_enrol, if_pos rfl]⟩
        · obtain ⟨serial, found⟩ := added key later
          have apart : key ≠ topic := by
            rintro rfl
            exact fresh later
          exact ⟨serial, by rw [found, Bus.listeners_enrol, if_neg apart]⟩

end Attaching

end Reporter

namespace Command

/-- The bus of a run, on which things may have been announced. -/
def Reporting (verbose : Bool) (bus : Bus Event String) : Prop :=
  (∀ event : Event, ∃ serial, bus.listeners event.topic =
    [⟨serial, none, false, Reporter.hear ⟨verbose⟩ (fun event => some event.notice) id⟩]) ∧
  bus.listeners Bus.anyTopic = []

theorem reporting_reportingBus (verbose : Bool) :
    Reporting verbose (reportingBus verbose) ∧ (reportingBus verbose).notes = [] := by
  obtain ⟨attached, listened, notes, kept, added⟩ :=
    Reporter.listen_eq (Reporter.hear ⟨verbose⟩ (fun event : Event => some event.notice) id)
      Event.topics (by decide) (by decide) Bus.empty rfl
  have same : reportingBus verbose = attached := congrArg Prod.fst listened
  rw [same]
  refine ⟨⟨?_, kept _ (by decide)⟩, notes⟩
  intro event
  have member : event.topic ∈ Event.topics := by
    cases event <;> simp [Event.topics, Event.topic]
  exact added _ member

theorem emit_reporting {verbose : Bool} {bus : Bus Event String}
    (reporting : Reporting verbose bus) (event : Event) :
    ∃ told cursor, bus.emit event = (told, .ok cursor) ∧ Reporting verbose told ∧
      told.notes = bus.notes ++ Reporter.lines ⟨verbose⟩ event := by
  obtain ⟨serial, member⟩ := reporting.1 event
  have writes : Reporter.hear ⟨verbose⟩ (fun event => some event.notice) id
      (.announced ⟨bus.cursor, event⟩) = (Reporter.lines ⟨verbose⟩ event).map .note := by
    unfold Reporter.hear
    simp only [Option.map_some, Reporter.report_notice]
    rfl
  have stamped : (bus.append event).listeners event.topic = _ := member
  have told := Bus.tellWithin_notes (.announced ⟨bus.cursor, event⟩) stamped rfl writes
    (bus.allowed + bus.size)
  have nobody : (Bus.listeners { bus.append event with
      notes := (bus.append event).notes ++ Reporter.lines ⟨verbose⟩ event } Bus.anyTopic) = [] :=
    reporting.2
  have toldAny := Bus.tellWithin_nobody nobody (bus.allowed + bus.size + 1)
    (.announced ⟨bus.cursor, event⟩)
  refine ⟨{ bus.append event with notes := bus.notes ++ Reporter.lines ⟨verbose⟩ event },
    bus.cursor, ?_, reporting, rfl⟩
  unfold Bus.emit Bus.announce
  simp only [HasTopic.topic, Bus.depth, told, toldAny]
  rfl

/-- The bus of a run is calm, and its notes are the lines of what was announced. -/
theorem emitAll_reporting {verbose : Bool} {bus : Bus Event String}
    (reporting : Reporting verbose bus) (events : List Event) :
    (bus.emitAll events).2 = .ok () ∧
      (bus.emitAll events).1.notes = bus.notes ++ events.flatMap (Reporter.lines ⟨verbose⟩) := by
  induction events generalizing bus with
  | nil => exact ⟨rfl, by simp [Bus.emitAll]⟩
  | cons event events ih =>
      obtain ⟨told, cursor, emitted, reporting, notes⟩ := emit_reporting reporting event
      obtain ⟨calm, rest⟩ := ih reporting
      rw [Bus.emitAll, emitted]
      exact ⟨calm, by rw [rest, notes, List.flatMap_cons, List.append_assoc]⟩

theorem reporting_calm (verbose : Bool) : (reportingBus verbose).Calm :=
  fun events => (emitAll_reporting (reporting_reportingBus verbose).1 events).1

theorem notes_after (verbose : Bool) (events : List Event) :
    ((reportingBus verbose).after events).notes = events.flatMap (Reporter.lines ⟨verbose⟩) := by
  obtain ⟨reporting, notes⟩ := reporting_reportingBus verbose
  rw [Bus.after, (emitAll_reporting reporting events).2, notes, List.nil_append]

end Command

end SuperCalls
