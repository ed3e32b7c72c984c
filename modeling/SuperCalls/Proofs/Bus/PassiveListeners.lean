/-
Module: SuperCalls.Proofs.Bus.PassiveListeners
Purpose: Buses whose listeners do nothing but write notes.  Every announcement gets through; what it
  takes off the bus are registrations for one call, and what it adds to the notes is what the
  listeners of its topic and those of every topic have to say.
Main exports: Listener.Passive, Bus.Steady, Bus.Thinned, Bus.entriesFrom, Bus.Steady.emit,
  Bus.Steady.emitAll
-/
import SuperCalls.Proofs.Command.ReportLines

namespace SuperCalls

variable {ε ν : Type}

/-!
### Listeners that write notes

Notes are read through `line?`, which tells the lines of one writer from what others note.
-/

/-- The note that an action writes. -/
def Action.note? : Action ε ν → Option ν
  | .note n => some n
  | _ => none

namespace Listener

/-- What a listener notes when it hears something. -/
def notes (listener : Listener ε ν) (heard : Heard ε) : List ν :=
  (listener heard).filterMap Action.note?

/-- A listener that writes notes and does nothing else. -/
def Passive (listener : Listener ε ν) : Prop :=
  ∀ heard, listener heard = (listener.notes heard).map .note

/-- The lines that a listener writes when it hears something. -/
def said (listener : Listener ε ν) (line? : ν → Option String) (heard : Heard ε) : List String :=
  (listener.notes heard).filterMap line?

/-- A listener without any lines. -/
def Mute (listener : Listener ε ν) (line? : ν → Option String) : Prop :=
  ∀ heard, listener.said line? heard = []

theorem notes_map (notes : List ν) :
    (notes.map fun n => (.note n : Action ε ν)).filterMap Action.note? = notes := by
  rw [List.filterMap_map]
  exact List.filterMap_some

theorem passive_of_notes {listener : Listener ε ν}
    (writes : ∀ heard, ∃ notes : List ν, listener heard = notes.map .note) : listener.Passive := by
  intro heard
  obtain ⟨notes, same⟩ := writes heard
  rw [Listener.notes, same, notes_map]

end Listener

namespace Bus

/-- All listeners only write notes. -/
def Passive (bus : Bus ε ν) : Prop :=
  ∀ topic, ∀ r ∈ bus.listeners topic, r.listener.Passive

/-- The lines among the notes. -/
def lines (bus : Bus ε ν) (line? : ν → Option String) : List String :=
  bus.notes.filterMap line?

/-- The lines that the listeners of a topic write, one after the other. -/
def said (bus : Bus ε ν) (line? : ν → Option String) (topic : String) (heard : Heard ε) :
    List String :=
  (bus.listeners topic).flatMap fun r => r.listener.said line? heard

/-- Listeners only write notes, and those that write lines stay: a registration for one call has no
lines, and no registration that goes with it has.  Nor has anyone who hears of registrations that
were taken off. -/
structure Steady (line? : ν → Option String) (bus : Bus ε ν) : Prop where
  passive : bus.Passive
  brief : ∀ topic, ∀ r ∈ bus.listeners topic, ∀ other ∈ bus.listeners topic,
    other.single → other.serial = r.serial → r.listener.Mute line?
  gone : ∀ r ∈ bus.listeners goneTopic, r.listener.Mute line?

/-- A bus that differs from another one by registrations that went as registrations for one call
do. -/
def Thinned (origin bus : Bus ε ν) : Prop :=
  ∀ topic, ∃ kept : Registration ε ν → Bool,
    bus.listeners topic = (origin.listeners topic).filter kept ∧
    ∀ r ∈ origin.listeners topic, kept r = false →
      ∃ other ∈ origin.listeners topic, other.single ∧ other.serial = r.serial

/-- A step of telling on which nobody fails.  Nothing is announced by it, and it adds some lines. -/
def Tells (line? : ν → Option String) (origin bus : Bus ε ν) (added : List String)
    (step : Step ε ν Unit) : Prop :=
  ∃ told, step = (told, .ok ()) ∧ Thinned origin told ∧ told.cursor = bus.cursor ∧
    told.timeline = bus.timeline ∧ told.issued = bus.issued ∧
    told.lines line? = bus.lines line? ++ added

/-- Nobody is told. -/
theorem Tells.nobody {line? : ν → Option String} {origin bus : Bus ε ν}
    (thinned : Thinned origin bus) : Tells line? origin bus [] (bus, .ok ()) :=
  ⟨bus, rfl, thinned, rfl, rfl, rfl, (List.append_nil _).symm⟩

/-!
### Thinned buses
-/

namespace Thinned

variable {origin bus : Bus ε ν}

theorem refl (bus : Bus ε ν) : Thinned bus bus := by
  intro topic
  refine ⟨fun _ => true, ?_, ?_⟩
  · rw [List.filter_eq_self.mpr fun _ _ => rfl]
  · intro r _ dropped
    cases dropped

theorem mem (thinned : Thinned origin bus) {topic : String} {r : Registration ε ν}
    (member : r ∈ bus.listeners topic) : r ∈ origin.listeners topic := by
  obtain ⟨kept, same, _⟩ := thinned topic
  rw [same] at member
  exact (List.mem_filter.mp member).1

theorem of_topics {other : Bus ε ν} (thinned : Thinned origin bus)
    (same : other.topics = bus.topics) : Thinned origin other := by
  intro topic
  have listeners : other.listeners topic = bus.listeners topic := by
    unfold Bus.listeners
    rw [same]
  rw [listeners]
  exact thinned topic

theorem strike (thinned : Thinned origin bus) {topic : String} {r : Registration ε ν}
    (member : r ∈ origin.listeners topic) (single : r.single) :
    Thinned origin (bus.strike topic r.serial) := by
  intro key
  obtain ⟨kept, same, dropped⟩ := thinned key
  unfold Bus.strike
  rw [listeners_withListeners]
  by_cases own : key = topic
  · subst own
    rw [if_pos rfl, same, List.filter_filter]
    refine ⟨_, rfl, ?_⟩
    intro other there gone
    rw [Bool.and_eq_false_iff] at gone
    rcases gone with struck | before
    · have serial : other.serial = r.serial := by simpa using struck
      exact ⟨r, member, single, serial.symm⟩
    · exact dropped other there before
  · rw [if_neg own]
    exact ⟨kept, same, dropped⟩

end Thinned

theorem flatMap_filter_of_nil {α β : Type} {members : List α} {kept : α → Bool} {f : α → List β}
    (nothing : ∀ a ∈ members, kept a = false → f a = []) :
    (members.filter kept).flatMap f = members.flatMap f := by
  induction members with
  | nil => rfl
  | cons a members ih =>
      have rest := ih fun b member => nothing b (List.mem_cons_of_mem _ member)
      cases keeps : kept a with
      | true => rw [List.filter_cons_of_pos keeps, List.flatMap_cons, List.flatMap_cons, rest]
      | false =>
          rw [List.filter_cons_of_neg (by simp [keeps]), List.flatMap_cons,
            nothing a List.mem_cons_self keeps, rest]
          rfl

namespace Steady

variable {line? : ν → Option String} {origin bus : Bus ε ν}

/-- Every bus of listeners that write notes is steady for a reading without lines. -/
theorem of_passive (passive : bus.Passive) : bus.Steady fun _ => none := by
  have mute (listener : Listener ε ν) : listener.Mute fun _ => none :=
    fun heard => List.filterMap_eq_nil_iff.mpr fun _ _ => rfl
  exact ⟨passive, fun _ r _ _ _ _ _ => mute r.listener, fun r _ => mute r.listener⟩

/-- What went from a bus had nothing to say. -/
theorem said_thinned (steady : origin.Steady line?) (thinned : Thinned origin bus)
    (topic : String) (heard : Heard ε) :
    bus.said line? topic heard = origin.said line? topic heard := by
  obtain ⟨kept, same, dropped⟩ := thinned topic
  unfold said
  rw [same]
  apply flatMap_filter_of_nil
  intro r member gone
  obtain ⟨other, there, single, serial⟩ := dropped r member gone
  exact steady.brief topic r member other there single serial heard

theorem said_gone (steady : origin.Steady line?) (heard : Heard ε) :
    origin.said line? goneTopic heard = [] :=
  List.flatMap_eq_nil_iff.mpr fun r member => steady.gone r member heard

/-!
### Telling

A bus that came from a steady one goes through what its listeners do.  The way of telling others is
given: it has to add no lines when registrations go.
-/

section Telling

variable {tell : Bus ε ν → String → Heard ε → Step ε ν Unit}
  (unheard : ∀ bus topic, Thinned origin bus →
    Tells line? origin bus [] (tell bus goneTopic (.gone topic)))

include unheard

theorem remove (thinned : Thinned origin bus) {topic : String} {r : Registration ε ν}
    (member : r ∈ origin.listeners topic) (single : r.single) :
    Tells line? origin bus [] (bus.remove tell topic r.serial) := by
  unfold Bus.remove
  split
  · exact unheard _ topic (thinned.strike member single)
  · exact Tells.nobody thinned

theorem claim (thinned : Thinned origin bus) {topic : String} {r : Registration ε ν}
    (member : r ∈ origin.listeners topic) : Tells line? origin bus [] (bus.claim tell topic r) := by
  unfold Bus.claim
  split
  · next single =>
      have spent : Thinned origin { bus with spent := r.serial :: bus.spent } :=
        thinned.of_topics rfl
      exact remove unheard spent member single
  · exact Tells.nobody thinned

variable [HasTopic ε] (steady : origin.Steady line?)

include steady

/-- Listeners that are called in order write what they have to say in order. -/
theorem deliver (topic : String) (heard : Heard ε) (members : List (Registration ε ν)) :
    ∀ {bus : Bus ε ν}, Thinned origin bus → (∀ r ∈ members, r ∈ origin.listeners topic) →
      Tells line? origin bus (members.flatMap fun r => r.listener.said line? heard)
        (bus.deliver tell topic heard members) := by
  induction members with
  | nil =>
      intro bus thinned _
      exact Tells.nobody thinned
  | cons r members ih =>
      intro bus thinned there
      have own := there r List.mem_cons_self
      have later : ∀ other ∈ members, other ∈ origin.listeners topic :=
        fun other member => there other (List.mem_cons_of_mem _ member)
      rw [Bus.deliver, List.flatMap_cons]
      split
      · -- a registration that was called before is passed over, and has no lines anyway
        next skipped =>
          have single : r.single = true := (Bool.and_eq_true_iff.mp skipped).1
          have nothing := steady.brief topic r own r own single rfl heard
          rw [nothing, List.nil_append]
          exact ih thinned later
      · obtain ⟨ready, claimed, readyThinned, cursor, timeline, issued, lines⟩ :=
          claim unheard thinned own
        have writes := steady.passive topic r own heard
        have performed := perform_notes tell ready (r.listener.notes heard)
        rw [← writes] at performed
        have noted : Thinned origin
            { ready with notes := ready.notes ++ r.listener.notes heard } :=
          readyThinned.of_topics rfl
        obtain ⟨told, delivered, toldThinned, cursor', timeline', issued', lines'⟩ :=
          ih noted later
        simp only [claimed, performed]
        refine ⟨told, delivered, toldThinned, cursor'.trans cursor, timeline'.trans timeline,
          issued'.trans issued, ?_⟩
        rw [lines', Bus.lines, List.filterMap_append, ← List.append_assoc]
        rw [List.append_nil] at lines
        exact congrArg (fun before => before ++ _ ++ _) lines

end Telling

variable [HasTopic ε]

/-- Telling of registrations that were taken off adds no lines, however deep it may nest. -/
theorem tellWithin_gone (steady : origin.Steady line?) (depth : Nat) :
    ∀ (bus : Bus ε ν) (topic : String), Thinned origin bus →
      Tells line? origin bus [] (bus.tellWithin depth goneTopic (.gone topic)) := by
  induction depth with
  | zero =>
      intro bus topic thinned
      exact Tells.nobody thinned
  | succ depth ih =>
      intro bus topic thinned
      have told := steady.deliver ih goneTopic (.gone topic) (bus.listeners goneTopic) thinned
        fun r member => thinned.mem member
      have nothing := (steady.said_thinned thinned goneTopic (.gone topic)).trans
        (steady.said_gone _)
      rw [said] at nothing
      rwa [nothing] at told

/-- Telling the listeners of a topic adds what they have to say. -/
theorem tellWithin (steady : origin.Steady line?) (depth : Nat) (thinned : Thinned origin bus)
    (topic : String) (heard : Heard ε) :
    Tells line? origin bus (origin.said line? topic heard)
      (bus.tellWithin (depth + 1) topic heard) := by
  rw [← steady.said_thinned thinned topic heard]
  exact steady.deliver (steady.tellWithin_gone depth) topic heard (bus.listeners topic) thinned
    fun r member => thinned.mem member

end Steady

/-!
### Announcing
-/

/-- Entries that hold announcements under consecutive numbers. -/
def entriesFrom : Nat → List ε → List (TimelineEntry ε)
  | _, [] => []
  | cursor, event :: events => ⟨cursor, cursor, event⟩ :: entriesFrom (cursor + 1) events

/-- The lines that an announcement adds. -/
def echo [HasTopic ε] (bus : Bus ε ν) (line? : ν → Option String) (stamped : Stamped ε) :
    List String :=
  bus.said line? (HasTopic.topic stamped.event) (.announced stamped) ++
    bus.said line? anyTopic (.announced stamped)

namespace Steady

variable {line? : ν → Option String} {origin bus : Bus ε ν} [HasTopic ε]

/-- An announcement goes on the timeline under the next number, and is echoed. -/
theorem emit (steady : origin.Steady line?) (thinned : Thinned origin bus) (event : ε) :
    ∃ told, bus.emit event = (told, .ok bus.cursor) ∧ Thinned origin told ∧
      told.cursor = bus.cursor + 1 ∧ told.timeline = bus.timeline ++ [⟨bus.cursor, bus.cursor, event⟩] ∧
      told.lines line? = bus.lines line? ++ origin.echo line? ⟨bus.cursor, event⟩ := by
  have stamped : Thinned origin (bus.append event) := thinned.of_topics rfl
  obtain ⟨first, told, firstThinned, cursor, timeline, _, lines⟩ :=
    steady.tellWithin (bus.allowed + bus.size) stamped (HasTopic.topic event)
      (.announced ⟨bus.cursor, event⟩)
  obtain ⟨second, toldAny, secondThinned, cursor', timeline', _, lines'⟩ :=
    steady.tellWithin (bus.allowed + bus.size) firstThinned anyTopic
      (.announced ⟨bus.cursor, event⟩)
  refine ⟨second, ?_, secondThinned, cursor'.trans cursor, timeline'.trans timeline, ?_⟩
  · unfold Bus.emit Bus.announce
    simp only [Bus.depth, told, toldAny]
  · rw [lines', lines, List.append_assoc]
    rfl

/-- Several announcements go on the timeline under consecutive numbers, and each is echoed. -/
theorem emitAll (steady : origin.Steady line?) (events : List ε) :
    ∀ {bus : Bus ε ν}, Thinned origin bus →
      ∃ told, bus.emitAll events = (told, .ok ()) ∧ Thinned origin told ∧
        told.cursor = bus.cursor + events.length ∧
        told.timeline = bus.timeline ++ entriesFrom bus.cursor events ∧
        told.lines line? =
          bus.lines line? ++ (entriesFrom bus.cursor events).flatMap (origin.echo line? ·.event) := by
  induction events with
  | nil =>
      intro bus thinned
      refine ⟨bus, rfl, thinned, rfl, ?_, ?_⟩
      · exact (List.append_nil _).symm
      · exact (List.append_nil _).symm
  | cons event events ih =>
      intro bus thinned
      obtain ⟨first, emitted, firstThinned, cursor, timeline, lines⟩ := steady.emit thinned event
      obtain ⟨told, rest, toldThinned, cursor', timeline', lines'⟩ := ih firstThinned
      refine ⟨told, ?_, toldThinned, ?_, ?_, ?_⟩
      · rw [Bus.emitAll, emitted]
        exact rest
      · rw [cursor', cursor, List.length_cons]
        omega
      · rw [timeline', timeline, cursor, List.append_assoc]
        rfl
      · rw [lines', lines, cursor, List.append_assoc]
        rfl

/-- No listener fails on what is announced. -/
theorem calm (steady : bus.Steady line?) : bus.Calm := by
  intro events
  obtain ⟨told, announced, _⟩ := steady.emitAll events (Thinned.refl bus)
  rw [announced]

/-- What announcements leave behind. -/
theorem after (steady : bus.Steady line?) (events : List ε) :
    (bus.after events).cursor = bus.cursor + events.length ∧
      (bus.after events).timeline = bus.timeline ++ entriesFrom bus.cursor events ∧
      (bus.after events).lines line? =
        bus.lines line? ++ (entriesFrom bus.cursor events).flatMap (bus.echo line? ·.event) := by
  obtain ⟨told, announced, _, left⟩ := steady.emitAll events (Thinned.refl bus)
  unfold Bus.after
  rw [announced]
  exact left

end Steady

end Bus

end SuperCalls
