/-
Module: SuperCalls.Proofs.Bus.Invariants
Purpose: What stays true of a bus whatever its listeners do.  A property that the single changes of
  a bus keep is kept by every operation, also by one that a failing listener ends halfway.
Main exports: Bus.Kept, Bus.Kept.tellWithin, Bus.Kept.emit
-/
import SuperCalls.Bus

namespace SuperCalls.Bus

variable {ε ν : Type}

/-- A property of buses that survives everything that listeners bring about, if all that they do is
permitted.  What only a reset or a relay does is asked for if these are. -/
structure Kept (permitted : Action ε ν → Prop) (property : Bus ε ν → Prop) : Prop where
  permits : ∀ {bus : Bus ε ν}, property bus → ∀ topic, ∀ r ∈ bus.listeners topic, ∀ heard,
    ∀ action ∈ r.listener heard, permitted action
  note : ∀ {bus : Bus ε ν} (n : ν), property bus → property (bus.note n)
  called : ∀ {bus : Bus ε ν} (serial : Nat), property bus →
    property { bus with spent := serial :: bus.spent }
  strike : ∀ {bus : Bus ε ν} (topic : String) (serial : Nat), property bus →
    property (bus.strike topic serial)
  forget : permitted .reset → ∀ {bus : Bus ε ν}, property bus → property bus.forget
  clear : permitted .reset → ∀ {bus : Bus ε ν} (topic : String), property bus →
    property (bus.withListeners topic [])
  clearAll : permitted .reset → ∀ {bus : Bus ε ν}, property bus →
    property { bus with topics := [] }
  relay : ∀ {allowance : Nat} {event : ε} {returned : Nat → ν},
    permitted (.relay allowance event returned) → ∀ {bus less : Bus ε ν}, property bus →
      bus.spend? allowance = some less → property less ∧ property (less.append event)

namespace Kept

variable {permitted : Action ε ν → Prop} {property : Bus ε ν → Prop}
  (kept : Kept permitted property)

include kept

/-!
What listeners do is given a way of telling others; it keeps a property if that does.
-/

section Telling

variable {tell : Bus ε ν → String → Heard ε → Step ε ν Unit}
  (tells : ∀ {bus : Bus ε ν} (topic : String) (heard : Heard ε), property bus →
    property (tell bus topic heard).1)

include tells

theorem remove {bus : Bus ε ν} (topic : String) (serial : Nat) (holds : property bus) :
    property (bus.remove tell topic serial).1 := by
  unfold Bus.remove
  split
  · exact tells goneTopic _ (kept.strike topic serial holds)
  · exact holds

theorem removeLatest (topic : String) (left : Nat) {bus : Bus ε ν} (holds : property bus) :
    property (bus.removeLatest tell topic left).1 := by
  induction left generalizing bus with
  | zero => exact holds
  | succ left ih =>
      unfold Bus.removeLatest
      dsimp only
      split
      · next latest _ =>
          split
          · have removed := kept.remove tells topic latest.serial holds
            generalize bus.remove tell topic latest.serial = step at removed ⊢
            rcases step with ⟨done, failure | _⟩
            · exact removed
            · exact ih removed
          · exact holds
      · split <;> exact holds

section Resetting

variable (permits : permitted .reset)

include permits

theorem clearTopic {bus : Bus ε ν} (topic : String) (holds : property bus) :
    property (bus.clear tell topic).1 := by
  unfold Bus.clear
  split
  · exact kept.clear permits topic holds
  · exact kept.removeLatest tells topic _ holds

theorem clearTopics (topics : List String) {bus : Bus ε ν} (holds : property bus) :
    property (bus.clearAll tell topics).1 := by
  induction topics generalizing bus with
  | nil => exact holds
  | cons topic topics ih =>
      have cleared := kept.clearTopic tells permits topic holds
      unfold Bus.clearAll
      generalize bus.clear tell topic = step at cleared ⊢
      rcases step with ⟨done, failure | _⟩
      · exact cleared
      · exact ih cleared

theorem resetWith {bus : Bus ε ν} (holds : property bus) :
    property (bus.resetWith tell).1 := by
  have forgotten := kept.forget permits holds
  unfold Bus.resetWith
  dsimp only
  split
  · exact kept.clearAll permits forgotten
  · have cleared := kept.clearTopics tells permits
      ((bus.forget.topics.map (·.1)).filter (· != goneTopic) ++ [goneTopic]) forgotten
    generalize bus.forget.clearAll tell _ = step at cleared ⊢
    rcases step with ⟨done, failure | _⟩
    · exact cleared
    · exact kept.clearAll permits cleared

end Resetting

variable [HasTopic ε]

omit kept in
/-- An announcement keeps what holds when it has been put on the timeline. -/
theorem announce {bus : Bus ε ν} {event : ε} (holds : property (bus.append event)) :
    property (bus.announce tell event).1 := by
  have told := tells (HasTopic.topic event) (.announced ⟨bus.cursor, event⟩) holds
  unfold Bus.announce
  dsimp only
  generalize tell (bus.append event) _ _ = step at told ⊢
  rcases step with ⟨first, failure | _⟩
  · exact told
  · have toldAny := tells anyTopic (.announced ⟨bus.cursor, event⟩) told
    dsimp only
    generalize tell first anyTopic _ = step at toldAny ⊢
    rcases step with ⟨second, failure | _⟩ <;> exact toldAny

theorem perform (actions : List (Action ε ν)) (allowed : ∀ action ∈ actions, permitted action)
    {bus : Bus ε ν} (holds : property bus) : property (bus.perform tell actions).1 := by
  induction actions generalizing bus with
  | nil => exact holds
  | cons action actions ih =>
      have own := allowed action List.mem_cons_self
      have later {bus : Bus ε ν} (holds : property bus) :=
        ih (fun action member => allowed action (List.mem_cons_of_mem _ member)) holds
      cases action with
      | note n => exact later (kept.note n holds)
      | raise failure => exact holds
      | reset =>
          have reset := kept.resetWith tells own holds
          unfold Bus.perform
          generalize bus.resetWith tell = step at reset ⊢
          rcases step with ⟨cleared, failure | _⟩
          · exact reset
          · exact later reset
      | relay allowance event returned =>
          unfold Bus.perform
          split
          · exact later holds
          · next less spent =>
              have announced := announce tells (kept.relay own holds spent).2
              generalize less.announce tell event = step at announced ⊢
              rcases step with ⟨told, failure | cursor⟩
              · exact announced
              · exact later (kept.note _ announced)

omit [HasTopic ε] in
theorem claim {bus : Bus ε ν} (topic : String) (r : Registration ε ν) (holds : property bus) :
    property (bus.claim tell topic r).1 := by
  unfold Bus.claim
  split
  · exact kept.remove tells topic r.serial (kept.called r.serial holds)
  · exact holds

theorem deliver (topic : String) (heard : Heard ε) (members : List (Registration ε ν))
    (allowed : ∀ r ∈ members, ∀ action ∈ r.listener heard, permitted action) {bus : Bus ε ν}
    (holds : property bus) : property (bus.deliver tell topic heard members).1 := by
  induction members generalizing bus with
  | nil => exact holds
  | cons r members ih =>
      have later {bus : Bus ε ν} (holds : property bus) :=
        ih (fun r member => allowed r (List.mem_cons_of_mem _ member)) holds
      unfold Bus.deliver
      split
      · exact later holds
      · have claimed := kept.claim tells topic r holds
        generalize bus.claim tell topic r = step at claimed ⊢
        rcases step with ⟨ready, failure | _⟩
        · exact claimed
        · have performed := kept.perform tells (r.listener heard)
            (allowed r List.mem_cons_self) claimed
          dsimp only
          generalize ready.perform tell (r.listener heard) = step at performed ⊢
          rcases step with ⟨done, failure | _⟩
          · exact performed
          · exact later performed

end Telling

variable [HasTopic ε]

theorem tellWithin (depth : Nat) {bus : Bus ε ν} (topic : String) (heard : Heard ε)
    (holds : property bus) : property (bus.tellWithin depth topic heard).1 := by
  induction depth generalizing bus topic heard with
  | zero => exact holds
  | succ depth ih =>
      exact kept.deliver ih topic heard (bus.listeners topic)
        (fun r member => kept.permits holds topic r member heard) holds

theorem emit {bus : Bus ε ν} {event : ε} (holds : property (bus.append event)) :
    property (bus.emit event).1 :=
  announce (kept.tellWithin bus.depth) holds

end Kept

end SuperCalls.Bus
