/-
Module: SuperCalls.Proofs.Batch.ReportAgreement
Purpose: A run keeps four accounts of what it does: the outcomes and the counts of its report, the
  timeline of the bus, and the lines of a reporter that listens.  They agree, whatever else listens
  as long as it only writes notes.
Main exports: Bus.Attended, Bus.Attended.steady, Reporter.attended_attach, Reporter.wording,
  report_timeline_lines_agree
-/
import SuperCalls.Proofs.Batch.Course
import SuperCalls.Proofs.Batch.ErrorPolicies
import SuperCalls.Proofs.Bus.PassiveListeners

namespace SuperCalls

namespace Bus

variable {ε ν : Type}

/-- A listener attends to some topics: it is registered for each of them to stay, under a serial
that no registration for one call has there, and nobody else writes lines. -/
structure Attended (listener : Listener ε ν) (line? : ν → Option String) (topics : List String)
    (bus : Bus ε ν) : Prop where
  there : ∀ topic ∈ topics, ∃ front r back, bus.listeners topic = front ++ r :: back ∧
    r.listener = listener ∧ r.single = false ∧
    ∀ other ∈ front ++ back, other.listener.Mute line? ∧ (other.single → other.serial ≠ r.serial)
  elsewhere : ∀ topic ∉ topics, ∀ r ∈ bus.listeners topic, r.listener.Mute line?

/-- The serials that were given are below the next one. -/
def Numbered (bus : Bus ε ν) : Prop :=
  ∀ topic, ∀ r ∈ bus.listeners topic, r.serial < bus.issued

namespace Attended

variable {listener : Listener ε ν} {line? : ν → Option String} {topics : List String}
  {bus : Bus ε ν}

theorem steady (attended : bus.Attended listener line? topics) (passive : bus.Passive)
    (apart : goneTopic ∉ topics) : bus.Steady line? := by
  refine ⟨passive, ?_, attended.elsewhere goneTopic apart⟩
  intro topic r member other otherMember single serial
  by_cases listed : topic ∈ topics
  · obtain ⟨front, own, back, same, _, stays, others⟩ := attended.there topic listed
    rw [same, List.perm_middle.mem_iff, List.mem_cons] at member otherMember
    rcases member with rfl | member
    · rcases otherMember with rfl | otherMember
      · rw [stays] at single
        cases single
      · exact absurd serial ((others other otherMember).2 single)
    · exact (others r member).1
  · exact attended.elsewhere topic listed r member

/-- What is said under an attended topic is what the listener says. -/
theorem said (attended : bus.Attended listener line? topics) {topic : String}
    (listed : topic ∈ topics) (heard : Heard ε) :
    bus.said line? topic heard = listener.said line? heard := by
  obtain ⟨front, r, back, same, rfl, _, others⟩ := attended.there topic listed
  have silent (members : List (Registration ε ν)) (among : ∀ r ∈ members, r ∈ front ++ back) :
      (members.flatMap fun r => r.listener.said line? heard) = [] :=
    List.flatMap_eq_nil_iff.mpr fun r member => (others r (among r member)).1 heard
  unfold Bus.said
  rw [same, List.flatMap_append, List.flatMap_cons,
    silent front fun r member => List.mem_append_left _ member,
    silent back fun r member => List.mem_append_right _ member]
  simp

theorem said_elsewhere (attended : bus.Attended listener line? topics) {topic : String}
    (unlisted : topic ∉ topics) (heard : Heard ε) : bus.said line? topic heard = [] :=
  List.flatMap_eq_nil_iff.mpr fun r member => attended.elsewhere topic unlisted r member heard

/-- The listener stays when registrations for one call go. -/
theorem thinned (attended : bus.Attended listener line? topics) {told : Bus ε ν}
    (thinned : Thinned bus told) : told.Attended listener line? topics := by
  constructor
  · intro topic listed
    obtain ⟨front, r, back, same, own, stays, others⟩ := attended.there topic listed
    obtain ⟨kept, left, dropped⟩ := thinned topic
    have keeps : kept r = true := by
      cases kept_r : kept r with
      | true => rfl
      | false =>
          obtain ⟨other, member, single, serial⟩ := dropped r (by simp [same]) kept_r
          rw [same, List.perm_middle.mem_iff, List.mem_cons] at member
          rcases member with rfl | member
          · rw [stays] at single
            cases single
          · exact absurd serial ((others other member).2 single)
    refine ⟨front.filter kept, r, back.filter kept, ?_, own, stays, ?_⟩
    · rw [left, same, List.filter_append, List.filter_cons_of_pos keeps]
    · intro other member
      rw [← List.filter_append] at member
      exact others other (List.mem_filter.mp member).1
  · intro topic unlisted r member
    exact attended.elsewhere topic unlisted r (thinned.mem member)

/-- A listener that is registered for one more topic attends to that too. -/
theorem enrol (attended : bus.Attended listener line? topics) (numbered : bus.Numbered)
    {topic : String} (fresh : topic ∉ topics) (owner : Option String) :
    (bus.enrol topic owner false listener).Attended listener line? (topic :: topics) := by
  constructor
  · intro other listed
    rw [listeners_enrol]
    rcases List.mem_cons.mp listed with rfl | earlier
    · rw [if_pos rfl]
      refine ⟨bus.listeners other, _, [], rfl, rfl, rfl, ?_⟩
      intro r member
      rw [List.append_nil] at member
      exact ⟨attended.elsewhere other fresh r member, fun _ => Nat.ne_of_lt (numbered other r member)⟩
    · have apart : other ≠ topic := by
        rintro rfl
        exact fresh earlier
      rw [if_neg apart]
      exact attended.there other earlier
  · intro other unlisted
    rw [List.mem_cons, not_or] at unlisted
    rw [listeners_enrol, if_neg unlisted.1]
    exact attended.elsewhere other unlisted.2

end Attended

theorem Numbered.enrol {bus : Bus ε ν} (numbered : bus.Numbered) (topic : String)
    (owner : Option String) (single : Bool) (listener : Listener ε ν) :
    (bus.enrol topic owner single listener).Numbered := by
  have issued : (bus.enrol topic owner single listener).issued = bus.issued + 1 := rfl
  intro other r member
  rw [listeners_enrol] at member
  rw [issued]
  split at member
  · rcases List.mem_append.mp member with earlier | last
    · exact Nat.lt_succ_of_lt (numbered topic r earlier)
    · cases List.mem_singleton.mp last
      exact Nat.lt_succ_self _
  · exact Nat.lt_succ_of_lt (numbered other r member)

end Bus

/-!
### Attaching a reporter

A reporter is registered for one topic after the other.  The invariant is that it attends to the
topics so far; each registration may take off listeners to registrations.
-/

namespace Reporter

variable {ε ν : Type} [HasTopic ε]

/-- A listener that is registered for topics in turn attends to them. -/
theorem attended_listen {listener : Listener ε ν} (writes : listener.Passive)
    {line? : ν → Option String} (topics : List String) :
    ∀ {bus : Bus ε ν} {earlier : List String}, bus.Attended listener line? earlier →
      bus.Passive → bus.Numbered → (earlier ++ topics).Nodup →
      Bus.goneTopic ∉ earlier ++ topics → Bus.joiningTopic ∉ earlier ++ topics →
      ∃ attached, listen listener bus topics = (attached, .ok ()) ∧
        attached.Attended listener line? (topics.reverse ++ earlier) ∧ attached.Passive ∧
        attached.cursor = bus.cursor ∧ attached.timeline = bus.timeline ∧
        attached.lines line? = bus.lines line? := by
  induction topics with
  | nil =>
      intro bus earlier attended passive _ _ _ _
      exact ⟨bus, rfl, attended, passive, rfl, rfl, rfl⟩
  | cons topic topics ih =>
      intro bus earlier attended passive numbered distinct ungone unjoined
      have steady := attended.steady passive fun member => ungone (List.mem_append_left _ member)
      obtain ⟨told, joining, thinned, cursor, timeline, issued, lines⟩ :=
        steady.tellWithin (bus.allowed + bus.size) (Bus.Thinned.refl bus) Bus.joiningTopic
          (.joining topic)
      have silent := attended.said_elsewhere
        (fun member => unjoined (List.mem_append_left _ member)) (.joining topic)
      have toldNumbered : told.Numbered := by
        intro other r member
        rw [issued]
        exact numbered other r (thinned.mem member)
      have toldPassive : told.Passive := fun other r member => passive other r (thinned.mem member)
      have fresh : topic ∉ earlier := by
        intro member
        exact (List.nodup_append.mp distinct).2.2 topic member topic List.mem_cons_self rfl
      have moved : ((topic :: earlier) ++ topics).Perm (earlier ++ topic :: topics) :=
        List.perm_middle.symm
      obtain ⟨attached, listened, attends, attachedPassive, cursor', timeline', lines'⟩ :=
        ih ((attended.thinned thinned).enrol toldNumbered fresh none)
          (Bus.forall_enrol Listener.Passive toldPassive writes topic none false)
          (toldNumbered.enrol topic none false listener)
          (moved.nodup_iff.mpr distinct) (fun member => ungone (moved.mem_iff.mp member))
          (fun member => unjoined (moved.mem_iff.mp member))
      refine ⟨attached, ?_, ?_, attachedPassive, cursor'.trans cursor, timeline'.trans timeline, ?_⟩
      · have joined : bus.on topic none listener = (told.enrol topic none false listener, .ok ()) := by
          unfold Bus.on Bus.register Bus.tell Bus.depth
          rw [joining]
        rw [listen, joined]
        exact listened
      · rw [List.reverse_cons, List.append_assoc]
        exact attends
      · rw [silent, List.append_nil] at lines
        exact lines'.trans lines

/-- What a reporter of batches does when it hears something. -/
abbrev heard (reporter : Reporter) (written : String → ν) : Listener Event ν :=
  reporter.hear (fun event => some event.notice) written

theorem heard_announced (reporter : Reporter) (written : String → ν) (stamped : Stamped Event) :
    reporter.heard written (.announced stamped) =
      ((reporter.lines stamped.event).map written).map .note := by
  unfold heard hear
  simp only [Option.map_some, report_notice, List.map_map]
  rfl

theorem passive_heard (reporter : Reporter) (written : String → ν) :
    (reporter.heard written).Passive := by
  apply Listener.passive_of_notes
  intro heard
  cases heard with
  | announced stamped => exact ⟨_, reporter.heard_announced written stamped⟩
  | joining topic => exact ⟨[], rfl⟩
  | gone topic => exact ⟨[], rfl⟩

/-- A reporter can be attached to every bus on which listeners only write notes; it attends to all
announcements then. -/
theorem attended_attach (reporter : Reporter) (written : String → ν) {line? : ν → Option String}
    {bus : Bus Event ν} (passive : bus.Passive) (numbered : bus.Numbered)
    (mute : ∀ topic, ∀ r ∈ bus.listeners topic, r.listener.Mute line?) :
    ∃ attached,
      reporter.attach (fun event => some event.notice) written bus = (attached, .ok ()) ∧
      attached.Attended (reporter.heard written) line? Event.topics ∧ attached.Passive ∧
      attached.cursor = bus.cursor ∧ attached.timeline = bus.timeline ∧
      attached.lines line? = bus.lines line? := by
  have attended : bus.Attended (reporter.heard written) line? [] :=
    ⟨fun topic listed => (List.not_mem_nil listed).elim, fun topic _ => mute topic⟩
  obtain ⟨attached, listened, attends, rest⟩ :=
    attended_listen (reporter.passive_heard written) Event.topics attended passive numbered
      (by decide) (by decide) (by decide)
  refine ⟨attached, listened, ?_, rest⟩
  constructor
  · intro topic listed
    exact attends.there topic (List.mem_append_left _ (List.mem_reverse.mpr listed))
  · intro topic unlisted
    apply attends.elsewhere topic
    rwa [List.append_nil, List.mem_reverse]

/-!
### What an attending reporter writes
-/

/-- An announcement is echoed by its lines. -/
theorem echo_eq {reporter : Reporter} {written : String → ν} {line? : ν → Option String}
    (reads : ∀ line, line? (written line) = some line) {bus : Bus Event ν}
    (attended : bus.Attended (reporter.heard written) line? Event.topics)
    (stamped : Stamped Event) : bus.echo line? stamped = reporter.lines stamped.event := by
  have listed : stamped.event.topic ∈ Event.topics := by
    cases stamped.event <;> simp [Event.topics, Event.topic]
  have any := attended.said_elsewhere (by decide : Bus.anyTopic ∉ Event.topics)
    (.announced stamped)
  unfold Bus.echo
  rw [show HasTopic.topic stamped.event = stamped.event.topic from rfl, attended.said listed, any,
    List.append_nil, Listener.said, Listener.notes, heard_announced, Listener.notes_map,
    List.filterMap_map, show line? ∘ written = some from funext reads, List.filterMap_some]

omit [HasTopic ε] in
theorem flatMap_entriesFrom {α : Type} (f : ε → List α) (events : List ε) (cursor : Nat) :
    ((Bus.entriesFrom cursor events).flatMap fun entry => f entry.event.event) =
      events.flatMap f := by
  induction events generalizing cursor with
  | nil => rfl
  | cons event events ih => rw [Bus.entriesFrom, List.flatMap_cons, List.flatMap_cons, ih]

/-- The line of an outcome, spelt out. -/
def wording (reporter : Reporter) (dryRun : Bool) (outcome : Outcome) : String :=
  match outcome.status with
  | .skipped => "SKIP: " ++ outcome.path ++ " not found"
  | .fixed =>
      (if dryRun then "[dry-run] " else "") ++ "FIXED: " ++ outcome.path ++
        (if reporter.verbose then " (" ++ outcome.counts.text ++ ")" else "")
  | .unchanged => (if dryRun then "[dry-run] " else "") ++ "NO CHANGE: " ++ outcome.path
  | .failed message => "FAILED: " ++ outcome.path ++ " (" ++ message ++ ")"

theorem line_eq_wording (reporter : Reporter) (dryRun : Bool) (outcome : Outcome) :
    reporter.line dryRun outcome = reporter.wording dryRun outcome := by
  obtain ⟨path, status, counts⟩ := outcome
  unfold wording
  simp only [String.append_assoc]
  cases status with
  | skipped => exact reporter.line_skipped dryRun path counts
  | fixed => exact reporter.line_fixed dryRun path counts
  | unchanged => exact reporter.line_unchanged dryRun path counts
  | failed message => exact reporter.line_failed dryRun path message counts

/-- The lines of the announcements of a run. -/
theorem lines_announced (reporter : Reporter) (dryRun : Bool) (outcomes : List Outcome)
    (fixedCount failedCount : Nat) :
    (outcomes.map (Outcome.event · dryRun) ++
        [Event.batchDone fixedCount failedCount dryRun]).flatMap reporter.lines =
      outcomes.map (reporter.wording dryRun) ++
        ["", "Total files fixed: " ++ toString fixedCount ++
          (if dryRun then " (dry run)" else "")] := by
  induction outcomes with
  | nil => rfl
  | cons outcome outcomes ih =>
      rw [List.map_cons, List.cons_append, List.flatMap_cons, ih, lines_eq, line_eq_wording,
        List.map_cons, List.singleton_append, List.cons_append]

end Reporter

/-!
### Runs
-/

open Batch

variable {ν : Type}

/-- A report is a report of the course, and then the bus is the one on which it was announced. -/
theorem memoryRun_of_report {rules : List Rule} {dryRun : Bool} {bus : Bus Event ν} (calm : bus.Calm)
    {store : MemoryStore} {policy : ErrorPolicy} {paths : List String} {report : Report}
    (reported : (memoryRun rules dryRun bus store policy paths).1.2 = .ok report) :
    report.outcomes.map Outcome.path = paths ∧
      report = Batch.report ⟨rules, dryRun, policy⟩ report.outcomes ∧
      (memoryRun rules dryRun bus store policy paths).1.1 =
        bus.after (report.outcomes.map (Outcome.event · dryRun) ++
          [.batchDone report.fixedCount report.failedCount dryRun]) := by
  obtain ⟨unstopped, rfl, _⟩ := report_of_run reported
  rw [outcomes_report]
  refine ⟨(paths_course _ _ paths store).2 unstopped, rfl, ?_⟩
  unfold memoryRun
  rw [run_eq_of_calm _ _ calm, conclude, unstopped]
  rfl

/-- The accounts of a run agree: its report has an outcome for every path, what it has counted is what
the outcomes tell, the timeline has grown by the announcements of the outcomes and of the end, under
consecutive numbers, and a reporter that attends has written their lines.  A run that goes on after
failures always ends with a report; a failure is always one that has a text. -/
theorem report_timeline_lines_agree (rules : List Rule) (dryRun : Bool) {bus : Bus Event ν}
    (passive : bus.Passive) (store : MemoryStore) (paths : List String) :
    (∃ report, (memoryRun rules dryRun bus store .continue paths).1.2 = .ok report) ∧
    ∀ policy report, (memoryRun rules dryRun bus store policy paths).1.2 = .ok report →
      let told := (memoryRun rules dryRun bus store policy paths).1.1
      report.outcomes.map Outcome.path = paths ∧
      report.fixedCount = report.outcomes.countP Outcome.isFixed ∧
      report.failedCount = report.outcomes.countP Outcome.isFailed ∧
      report.dryRun = dryRun ∧
      told.cursor = bus.cursor + paths.length + 1 ∧
      told.timeline = bus.timeline ++ Bus.entriesFrom bus.cursor
        (report.outcomes.map (Outcome.event · dryRun) ++
          [.batchDone report.fixedCount report.failedCount dryRun]) ∧
      ∀ (reporter : Reporter) (written : String → ν) (line? : ν → Option String),
        (∀ line, line? (written line) = some line) →
        bus.Attended (reporter.heard written) line? Event.topics →
        told.lines line? = bus.lines line? ++ report.outcomes.map (reporter.wording dryRun) ++
          ["", "Total files fixed: " ++ toString report.fixedCount ++
            (if dryRun then " (dry run)" else "")] := by
  have calm : bus.Calm := (Bus.Steady.of_passive passive).calm
  constructor
  · rw [memoryRun_continue rules dryRun calm, conclude_going]
    exact ⟨_, rfl⟩
  · intro policy report reported told
    obtain ⟨own, same, after⟩ := memoryRun_of_report calm reported
    have announced : told = _ := after
    have length : report.outcomes.length = paths.length := by
      rw [← own, List.length_map]
    obtain ⟨cursor, timeline, _⟩ := (Bus.Steady.of_passive passive).after
      (report.outcomes.map (Outcome.event · dryRun) ++
        [.batchDone report.fixedCount report.failedCount dryRun])
    refine ⟨own, ?_, ?_, congrArg Report.dryRun same, ?_, ?_, ?_⟩
    · exact (congrArg Report.fixedCount same).trans (fixedCount_report _ _)
    · exact (congrArg Report.failedCount same).trans (failedCount_report _ _)
    · rw [announced, cursor, List.length_append, List.length_map, length]
      rfl
    · rw [announced, timeline]
    · intro reporter written line? reads attended
      have steady := attended.steady passive (by decide)
      obtain ⟨_, _, lines⟩ := steady.after (report.outcomes.map (Outcome.event · dryRun) ++
        [.batchDone report.fixedCount report.failedCount dryRun])
      rw [announced, lines, List.append_assoc, ← Reporter.lines_announced,
        ← Reporter.flatMap_entriesFrom reporter.lines _ bus.cursor]
      rw [show bus.echo line? = fun stamped => reporter.lines stamped.event from
        funext (Reporter.echo_eq reads attended)]

/-- Other listeners are called once, on everything, and on registrations that go; the bus has a
history, and a file cannot be written. -/
theorem report_timeline_lines_agree_attached :
    let quiet : Listener Event (Nat ⊕ String) := fun _ => [.note (.inl 0)]
    let empty : Bus Event (Nat ⊕ String) := Bus.empty.append (.skipped "z")
    let before := ((empty.enrol Event.fixedTopic none true quiet).enrol Bus.anyTopic none false
      quiet).enrol Bus.goneTopic none false quiet
    let store : MemoryStore :=
      ⟨[("a", "super(1);"), ("b", "super(2);")], [((.write, "b"), .bare "42")], [], []⟩
    ∃ bus report,
      Reporter.attach ⟨false⟩ (fun event => some event.notice) .inr before = (bus, .ok ()) ∧
      bus.Passive ∧
      bus.Attended (Reporter.heard ⟨false⟩ .inr) Sum.getRight? Event.topics ∧
      let ran := memoryRun (superCallRules "") false bus store .continue ["a", "x", "b", "a"]
      ran.1.2 = .ok report ∧ ran.1.1.cursor = 6 ∧
      ran.1.1.timeline = [⟨0, 0, .skipped "z"⟩] ++ Bus.entriesFrom 1
        (report.outcomes.map (Outcome.event · false) ++
          [.batchDone report.fixedCount report.failedCount false]) ∧
      ran.1.1.lines Sum.getRight? =
        report.outcomes.map (Reporter.wording ⟨false⟩ false) ++
          ["", "Total files fixed: " ++ toString report.fixedCount ++ ""] := by
  intro quiet empty before store
  have nobody (topic : String) : empty.listeners topic = [] := rfl
  have passive : before.Passive := by
    have writes : quiet.Passive := Listener.passive_of_notes fun _ => ⟨[.inl 0], rfl⟩
    have first : empty.Passive := fun topic r member => by rw [nobody] at member; cases member
    have also (bus : Bus Event (Nat ⊕ String)) (passive : bus.Passive) :=
      Bus.forall_enrol Listener.Passive passive writes
    exact also _ (also _ (also _ first _ _ _) _ _ _) _ _ _
  have mute : ∀ topic, ∀ r ∈ before.listeners topic, r.listener.Mute Sum.getRight? := by
    have silent : quiet.Mute Sum.getRight? := fun _ => rfl
    have first : ∀ topic, ∀ r ∈ empty.listeners topic, r.listener.Mute Sum.getRight? :=
      fun topic r member => by rw [nobody] at member; cases member
    have also (bus : Bus Event (Nat ⊕ String))
        (mute : ∀ topic, ∀ r ∈ bus.listeners topic, r.listener.Mute Sum.getRight?) :=
      Bus.forall_enrol (Listener.Mute · Sum.getRight?) mute silent
    exact also _ (also _ (also _ first _ _ _) _ _ _) _ _ _
  have numbered : before.Numbered := by
    have first : empty.Numbered := fun topic r member => by rw [nobody] at member; cases member
    exact ((first.enrol _ _ _ _).enrol _ _ _ _).enrol _ _ _ _
  obtain ⟨bus, attached, attended, busPassive, cursor, timeline, lines⟩ :=
    Reporter.attended_attach ⟨false⟩ .inr passive numbered mute
  obtain ⟨⟨report, reported⟩, agree⟩ := report_timeline_lines_agree (superCallRules "") false
    busPassive store ["a", "x", "b", "a"]
  obtain ⟨_, _, _, _, grown, announced, written⟩ := agree .continue report reported
  have told := written ⟨false⟩ .inr Sum.getRight? (fun _ => rfl) attended
  refine ⟨bus, report, attached, busPassive, attended, reported, ?_, ?_, ?_⟩
  · rw [grown, cursor]
    rfl
  · rw [announced, cursor, timeline]
    rfl
  · rw [told, lines]
    rfl

end SuperCalls
