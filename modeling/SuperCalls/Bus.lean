/-
Module: SuperCalls.Bus
Purpose: The bus that announcements travel on.  It numbers every announcement, keeps them all
  on a timeline, and delivers each to the listeners registered for its topic and then to those
  registered for every topic.  Two more topics tell of registrations that come and go.
Main exports: Stamped, TimelineEntry, Heard, Action, Listener, Registration, Bus, Bus.emit, Bus.on,
  Bus.once, Bus.off, Bus.since, Bus.reset
-/
import SuperCalls.Event
import SuperCalls.Failure

namespace SuperCalls

variable {ε ν : Type}

/-- An announcement with its number. -/
structure Stamped (ε : Type) where
  cursor : Nat
  event : ε
deriving Repr, DecidableEq

/-- An entry of a timeline: an announcement under a number. -/
structure TimelineEntry (ε : Type) where
  cursor : Nat
  event : Stamped ε
deriving Repr, DecidableEq

/-- What a listener hears. -/
inductive Heard (ε : Type) where
  /-- An announcement. -/
  | announced (event : Stamped ε)
  /-- A listener is about to be registered for a topic. -/
  | joining (topic : String)
  /-- A listener for a topic was taken off. -/
  | gone (topic : String)
deriving Repr, DecidableEq

/-- What a listener can do when it hears something: note something, fail, reset the bus, or
announce something in turn.  The last is allowed only as often as its allowance says, which is
what bounds a chain of announcements. -/
inductive Action (ε ν : Type) where
  | note (n : ν)
  | raise (failure : Failure)
  | reset
  | relay (allowance : Nat) (event : ε) (returned : Nat → ν)

/-- A listener: the actions it takes, one after the other, on each thing that it hears. -/
abbrev Listener (ε ν : Type) := Heard ε → List (Action ε ν)

/-- A listener on a topic. -/
structure Registration (ε ν : Type) where
  /-- Tells registrations apart. -/
  serial : Nat
  /-- The name under which the listener can be taken off again. -/
  owner : Option String
  /-- Whether the listener is called once only. -/
  single : Bool
  listener : Listener ε ν

/-- The bus. -/
structure Bus (ε ν : Type) where
  /-- The number of the next announcement. -/
  cursor : Nat
  timeline : List (TimelineEntry ε)
  /-- The registrations by topic; a topic without any is not there. -/
  topics : Record (List (Registration ε ν))
  /-- The serial of the next registration. -/
  issued : Nat
  /-- The serials of the single registrations that have been called. -/
  spent : List Nat
  /-- How often each relaying listener may still announce something. -/
  allowances : List Nat
  /-- What listeners noted. -/
  notes : List ν

namespace Bus

/-- The topic of listeners to everything. -/
def anyTopic : String := "*"

/-- The topic of listeners to registrations that are about to be made. -/
def joiningTopic : String := "newListener"

/-- The topic of listeners to registrations that were taken off. -/
def goneTopic : String := "removeListener"

/-- A bus on which nothing has happened. -/
def empty : Bus ε ν := ⟨0, [], [], 0, [], [], []⟩

instance : Inhabited (Bus ε ν) := ⟨empty⟩

/-!
### The timeline and the notes
-/

/-- The entries of the timeline from a number on. -/
def since (bus : Bus ε ν) (cursor : Int) : List (TimelineEntry ε) :=
  bus.timeline.filter fun entry => cursor ≤ (entry.cursor : Int)

/-- Put an announcement on the timeline. -/
def append (bus : Bus ε ν) (event : ε) : Bus ε ν :=
  { bus with
    cursor := bus.cursor + 1
    timeline := bus.timeline ++ [⟨bus.cursor, ⟨bus.cursor, event⟩⟩] }

/-- Forget all announcements, and number from zero again. -/
def forget (bus : Bus ε ν) : Bus ε ν :=
  { bus with cursor := 0, timeline := [] }

/-- Write a note. -/
def note (bus : Bus ε ν) (n : ν) : Bus ε ν :=
  { bus with notes := bus.notes ++ [n] }

/-- Take the notes off the bus. -/
def takeNotes (bus : Bus ε ν) : List ν × Bus ε ν :=
  (bus.notes, { bus with notes := [] })

/-- Let a relaying listener announce something a number of times; it is known by the position
of its allowance. -/
def allow (bus : Bus ε ν) (times : Nat) : Bus ε ν × Nat :=
  ({ bus with allowances := bus.allowances ++ [times] }, bus.allowances.length)

/-- Use up one announcement of an allowance. -/
def spend? (bus : Bus ε ν) (allowance : Nat) : Option (Bus ε ν) :=
  match bus.allowances[allowance]? with
  | some (n + 1) => some { bus with allowances := bus.allowances.set allowance n }
  | _ => none

/-!
### Registrations
-/

/-- The registrations for a topic, in order. -/
def listeners (bus : Bus ε ν) (topic : String) : List (Registration ε ν) :=
  (Record.get? bus.topics topic).getD []

/-- Give a topic other registrations. -/
def withListeners (bus : Bus ε ν) (topic : String) (members : List (Registration ε ν)) :
    Bus ε ν :=
  { bus with
    topics :=
      if members.isEmpty then bus.topics.filter (·.1 != topic)
      else Record.set bus.topics topic members }

/-- Put a listener behind those of its topic. -/
def enrol (bus : Bus ε ν) (topic : String) (owner : Option String) (single : Bool)
    (listener : Listener ε ν) : Bus ε ν :=
  { bus.withListeners topic (bus.listeners topic ++ [⟨bus.issued, owner, single, listener⟩]) with
    issued := bus.issued + 1 }

/-- Take a registration off its topic. -/
def strike (bus : Bus ε ν) (topic : String) (serial : Nat) : Bus ε ν :=
  bus.withListeners topic ((bus.listeners topic).filter (·.serial != serial))

/-- What a step leaves behind: the bus, and its result unless a listener failed. -/
abbrev Step (ε ν α : Type) := Bus ε ν × Except Failure α

/-!
### Taking registrations off

Every registration that is taken off is told to the listeners for that, those that are left.
A step of telling is given as `tell`: it makes the listeners of a topic hear something.
-/

/-- Take a registration off its topic and tell of it.  Nothing is told of one that is not there. -/
def remove (tell : Bus ε ν → String → Heard ε → Step ε ν Unit) (bus : Bus ε ν) (topic : String)
    (serial : Nat) : Step ε ν Unit :=
  if (bus.listeners topic).any (·.serial == serial) then
    tell (bus.strike topic serial) goneTopic (.gone topic)
  else (bus, .ok ())

/-- What happens if a registration is to be taken off that was taken off in the meantime. -/
def lostListener : Failure :=
  .plain .typeError
    "The \"listener\" argument must be of type function. Received undefined"

/-- Take off the registrations for a topic, the latest first, of which there were a number in the
beginning.  If the listeners that are told of it take off more of them, the next one to be taken
off can be missing; only the first one may be. -/
def removeLatest (tell : Bus ε ν → String → Heard ε → Step ε ν Unit) (topic : String) :
    Nat → Bus ε ν → Step ε ν Unit
  | 0, bus => (bus, .ok ())
  | n + 1, bus =>
      let members := bus.listeners topic
      match members.getLast? with
      | some latest =>
          if members.length = n + 1 then
            match bus.remove tell topic latest.serial with
            | (bus, .error failure) => (bus, .error failure)
            | (bus, .ok ()) => removeLatest tell topic n bus
          else (bus, .error lostListener)
      | none => if n = 0 then (bus, .ok ()) else (bus, .error lostListener)

/-- Take off all registrations for a topic; they are told of as long as somebody listens. -/
def clear (tell : Bus ε ν → String → Heard ε → Step ε ν Unit) (bus : Bus ε ν) (topic : String) :
    Step ε ν Unit :=
  if (bus.listeners goneTopic).isEmpty then (bus.withListeners topic [], .ok ())
  else removeLatest tell topic (bus.listeners topic).length bus

/-- Take off all registrations for several topics. -/
def clearAll (tell : Bus ε ν → String → Heard ε → Step ε ν Unit) :
    Bus ε ν → List String → Step ε ν Unit
  | bus, [] => (bus, .ok ())
  | bus, topic :: topics =>
      match bus.clear tell topic with
      | (bus, .error failure) => (bus, .error failure)
      | (bus, .ok ()) => clearAll tell bus topics

/-- Forget all announcements and take off all registrations.  Those who listen for that go
last. -/
def resetWith (tell : Bus ε ν → String → Heard ε → Step ε ν Unit) (bus : Bus ε ν) :
    Step ε ν Unit :=
  let bus := bus.forget
  if (bus.listeners goneTopic).isEmpty then ({ bus with topics := [] }, .ok ())
  else
    let others := (bus.topics.map (·.1)).filter (· != goneTopic)
    match bus.clearAll tell (others ++ [goneTopic]) with
    | (bus, .error failure) => (bus, .error failure)
    | (bus, .ok ()) => ({ bus with topics := [] }, .ok ())

/-!
### Announcing

An announcement goes on the timeline before anybody hears of it.  Its listeners are those
registered when its delivery to the topic begins, whatever they do to the registrations
meanwhile.  A single registration is taken off before its listener is called.  A listener
that fails ends the announcement at once.

What a listener does is done before it goes on.  An announcement that it makes uses up a part
of an allowance, and what it makes others hear otherwise is that registrations were taken off.
So the sum of the allowances and the number of registrations bound how deep all this nests.
-/

variable [HasTopic ε]

/-- Announce something. -/
def announce (tell : Bus ε ν → String → Heard ε → Step ε ν Unit) (bus : Bus ε ν) (event : ε) :
    Step ε ν Nat :=
  let heard : Heard ε := .announced ⟨bus.cursor, event⟩
  let cursor := bus.cursor
  match tell (bus.append event) (HasTopic.topic event) heard with
  | (bus, .error failure) => (bus, .error failure)
  | (bus, .ok ()) =>
      match tell bus anyTopic heard with
      | (bus, .error failure) => (bus, .error failure)
      | (bus, .ok ()) => (bus, .ok cursor)

/-- Take the actions of a listener. -/
def perform (tell : Bus ε ν → String → Heard ε → Step ε ν Unit) :
    Bus ε ν → List (Action ε ν) → Step ε ν Unit
  | bus, [] => (bus, .ok ())
  | bus, .note n :: rest => perform tell (bus.note n) rest
  | bus, .raise failure :: _ => (bus, .error failure)
  | bus, .reset :: rest =>
      match bus.resetWith tell with
      | (bus, .error failure) => (bus, .error failure)
      | (bus, .ok ()) => perform tell bus rest
  | bus, .relay allowance event returned :: rest =>
      match bus.spend? allowance with
      | none => perform tell bus rest
      | some bus =>
          match bus.announce tell event with
          | (bus, .error failure) => (bus, .error failure)
          | (bus, .ok cursor) => perform tell (bus.note (returned cursor)) rest

/-- Get a registration ready for a call: a single one is taken off its topic. -/
def claim (tell : Bus ε ν → String → Heard ε → Step ε ν Unit) (bus : Bus ε ν) (topic : String)
    (r : Registration ε ν) : Step ε ν Unit :=
  if r.single then { bus with spent := r.serial :: bus.spent }.remove tell topic r.serial
  else (bus, .ok ())

/-- Call listeners in order.  A single one that was called before is passed over. -/
def deliver (tell : Bus ε ν → String → Heard ε → Step ε ν Unit) (topic : String)
    (heard : Heard ε) : Bus ε ν → List (Registration ε ν) → Step ε ν Unit
  | bus, [] => (bus, .ok ())
  | bus, r :: rest =>
      if r.single && bus.spent.contains r.serial then deliver tell topic heard bus rest
      else
        match bus.claim tell topic r with
        | (bus, .error failure) => (bus, .error failure)
        | (bus, .ok ()) =>
            match perform tell bus (r.listener heard) with
            | (bus, .error failure) => (bus, .error failure)
            | (bus, .ok ()) => deliver tell topic heard bus rest

/-- Make the listeners of a topic hear something, with what they do nested at most as deep as
given. -/
def tellWithin : Nat → Bus ε ν → String → Heard ε → Step ε ν Unit
  | 0, bus, _, _ => (bus, .ok ())
  | depth + 1, bus, topic, heard =>
      deliver (tellWithin depth) topic heard bus (bus.listeners topic)

/-- How many announcements listeners may still make. -/
def allowed (bus : Bus ε ν) : Nat :=
  bus.allowances.foldr (· + ·) 0

/-- The number of registrations. -/
def size (bus : Bus ε ν) : Nat :=
  (bus.topics.map (·.2.length)).foldr (· + ·) 0

/-- How deep listeners can nest what they do. -/
def depth (bus : Bus ε ν) : Nat :=
  bus.allowed + bus.size + 1

/-- Make the listeners of a topic hear something. -/
def tell (bus : Bus ε ν) (topic : String) (heard : Heard ε) : Step ε ν Unit :=
  tellWithin bus.depth bus topic heard

/-!
### Operations
-/

/-- Announce something: the number of the announcement, unless a listener failed. -/
def emit (bus : Bus ε ν) (event : ε) : Step ε ν Nat :=
  bus.announce (tellWithin bus.depth) event

/-- Register a listener behind the ones already there.  Those who listen for that hear of it
first, and can prevent it by failing. -/
def register (bus : Bus ε ν) (topic : String) (owner : Option String) (single : Bool)
    (listener : Listener ε ν) : Step ε ν Unit :=
  match bus.tell joiningTopic (.joining topic) with
  | (bus, .error failure) => (bus, .error failure)
  | (bus, .ok ()) => (bus.enrol topic owner single listener, .ok ())

/-- Register a listener for a topic. -/
def on (bus : Bus ε ν) (topic : String) (owner : Option String) (listener : Listener ε ν) :
    Step ε ν Unit :=
  bus.register topic owner false listener

/-- Register a listener for every topic. -/
def onAny (bus : Bus ε ν) (owner : Option String) (listener : Listener ε ν) : Step ε ν Unit :=
  bus.on anyTopic owner listener

/-- Register a listener for the next announcement of a topic only. -/
def once (bus : Bus ε ν) (topic : String) (owner : Option String) (listener : Listener ε ν) :
    Step ε ν Unit :=
  bus.register topic owner true listener

/-- Take off the latest registration of an owner for a topic. -/
def off (bus : Bus ε ν) (topic owner : String) : Step ε ν Unit :=
  match (bus.listeners topic).reverse.find? (·.owner == some owner) with
  | some latest => bus.remove (tellWithin bus.depth) topic latest.serial
  | none => (bus, .ok ())

/-- Forget all announcements and all registrations, and number from zero again. -/
def reset (bus : Bus ε ν) : Step ε ν Unit :=
  bus.resetWith (tellWithin bus.depth)

end Bus

end SuperCalls
