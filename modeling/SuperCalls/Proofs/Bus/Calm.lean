/-
Module: SuperCalls.Proofs.Bus.Calm
Purpose: Announcements that no listener fails on, and the bus that they leave.
Main exports: Bus.emitAll, Bus.Calm, Bus.after, Bus.Peaceful, Bus.Peaceful.calm
-/
import SuperCalls.Bus

namespace SuperCalls

namespace Record

variable {α : Type}

theorem get?_cons (key other : String) (value : α) (record : Record α) :
    get? ((key, value) :: record) other = if other = key then some value else get? record other := by
  unfold get?
  by_cases own : other = key
  · simp [own]
  · have apart : (key == other) = false := beq_false_of_ne (Ne.symm own)
    simp [own, apart]

theorem get?_filter (record : Record α) (key other : String) :
    get? (record.filter (·.1 != key)) other = if other = key then none else get? record other := by
  induction record with
  | nil => simp [get?]
  | cons first record ih =>
      obtain ⟨k, v⟩ := first
      rw [get?_cons]
      by_cases dropped : k = key
      · subst dropped
        rw [List.filter_cons_of_neg (by simp), ih]
        by_cases here : other = k <;> simp [here]
      · rw [List.filter_cons_of_pos (by simp [dropped]), get?_cons, ih]
        by_cases here : other = k
        · simp [here, dropped]
        · simp [here]

theorem get?_map (record : Record α) (key other : String) (value : α) :
    get? (record.map fun (k, v) => if k == key then (k, value) else (k, v)) other =
      if other = key then (get? record key).map fun _ => value else get? record other := by
  induction record with
  | nil => simp [get?]
  | cons first record ih =>
      obtain ⟨k, v⟩ := first
      rw [List.map_cons, get?_cons, get?_cons]
      by_cases own : k = key
      · subst own
        simp only [beq_self_eq_true, if_true]
        rw [get?_cons, ih]
        by_cases here : other = k <;> simp [here]
      · simp only [beq_false_of_ne own, Bool.false_eq_true, if_false]
        rw [get?_cons, ih]
        by_cases here : other = k
        · simp [here, own]
        · simp [here, Ne.symm own]

theorem get?_place (record : Record α) (key other : String) (value : α)
    (absent : get? record key = none) :
    get? (place key value record) other = if other = key then some value else get? record other := by
  induction record with
  | nil => rw [place, get?_cons]
  | cons first record ih =>
      obtain ⟨k, v⟩ := first
      rw [get?_cons] at absent
      have apart : key ≠ k := by
        rintro rfl
        simp at absent
      rw [if_neg apart] at absent
      rw [place]
      split
      · rw [get?_cons]
      · rw [get?_cons, get?_cons, ih absent]
        by_cases here : other = k
        · simp [here, Ne.symm apart]
        · simp [here]

/-- Giving a key a value changes what is under that key only. -/
theorem get?_set (record : Record α) (key other : String) (value : α) :
    get? (set record key value) other = if other = key then some value else get? record other := by
  rw [set]
  cases found : get? record key with
  | none =>
      have absent : record.any (·.1 == key) = false := by
        rw [get?, Option.map_eq_none_iff, List.find?_eq_none] at found
        simpa using found
      rw [absent, if_neg Bool.false_ne_true, get?_place record key other value found]
  | some v =>
      have present : record.any (·.1 == key) = true := by
        obtain ⟨entry, here, _⟩ := Option.map_eq_some_iff.mp found
        have matched := List.find?_some here
        exact List.any_eq_true.mpr ⟨entry, List.mem_of_find?_eq_some here, matched⟩
      rw [present, if_pos rfl, get?_map, found]
      rfl

end Record

namespace Bus

variable {ε ν α : Type}

/-- Giving a topic other registrations leaves those for other topics. -/
theorem listeners_withListeners (bus : Bus ε ν) (topic other : String)
    (members : List (Registration ε ν)) :
    (bus.withListeners topic members).listeners other =
      if other = topic then members else bus.listeners other := by
  unfold listeners withListeners
  simp only
  cases members with
  | nil =>
      rw [List.isEmpty_nil, if_pos rfl, Record.get?_filter]
      split <;> rfl
  | cons r members =>
      rw [List.isEmpty_cons, if_neg Bool.false_ne_true, Record.get?_set]
      split <;> rfl

theorem listeners_enrol (bus : Bus ε ν) (topic other : String) (owner : Option String)
    (single : Bool) (listener : Listener ε ν) :
    (bus.enrol topic owner single listener).listeners other =
      if other = topic then bus.listeners topic ++ [⟨bus.issued, owner, single, listener⟩]
      else bus.listeners other :=
  bus.listeners_withListeners topic other _

/-- What holds of all listeners, and of one more, holds of all where that one is registered. -/
theorem forall_enrol {bus : Bus ε ν} (p : Listener ε ν → Prop)
    (all : ∀ topic, ∀ r ∈ bus.listeners topic, p r.listener) {listener : Listener ε ν}
    (own : p listener) (topic : String) (owner : Option String) (single : Bool) :
    ∀ other, ∀ r ∈ (bus.enrol topic owner single listener).listeners other, p r.listener := by
  intro other r member
  rw [listeners_enrol] at member
  split at member
  · rcases List.mem_append.mp member with earlier | last
    · exact all topic r earlier
    · cases List.mem_singleton.mp last
      exact own
  · exact all other r member

/-!
### Peaceful buses

On a peaceful bus no listener raises a failure, and nobody listens for registrations that were
taken off.  Whatever listeners do, the bus stays peaceful, so no announcement fails.
-/

/-- No listener of a bus raises a failure, and none listens for registrations that go. -/
structure Peaceful (bus : Bus ε ν) : Prop where
  quiet : ∀ topic, ∀ r ∈ bus.listeners topic, ∀ heard failure, .raise failure ∉ r.listener heard
  unheard : bus.listeners goneTopic = []

/-- A step succeeds and leaves a peaceful bus. -/
def Smooth (step : Step ε ν α) : Prop :=
  ∃ bus value, step = (bus, .ok value) ∧ bus.Peaceful

namespace Peaceful

variable {bus : Bus ε ν}

theorem of_topics {other : Bus ε ν} (peaceful : bus.Peaceful) (same : other.topics = bus.topics) :
    other.Peaceful := by
  have listeners (topic : String) : other.listeners topic = bus.listeners topic := by
    unfold Bus.listeners
    rw [same]
  constructor
  · intro topic
    rw [listeners]
    exact peaceful.quiet topic
  · rw [listeners]
    exact peaceful.unheard

theorem of_nobody {other : Bus ε ν} (nobody : other.topics = []) : other.Peaceful := by
  have listeners (topic : String) : other.listeners topic = [] := by
    unfold Bus.listeners
    rw [nobody]
    rfl
  constructor
  · intro topic r member
    rw [listeners] at member
    cases member
  · exact listeners goneTopic

theorem strike (peaceful : bus.Peaceful) (topic : String) (serial : Nat) :
    (bus.strike topic serial).Peaceful := by
  unfold Bus.strike
  constructor
  · intro other r member
    rw [listeners_withListeners] at member
    split at member
    · exact peaceful.quiet topic r (List.mem_filter.mp member).1
    · exact peaceful.quiet other r member
  · rw [listeners_withListeners]
    split
    · next gone =>
        rw [← gone, peaceful.unheard]
        rfl
    · exact peaceful.unheard

theorem resetWith (peaceful : bus.Peaceful)
    (tell : Bus ε ν → String → Heard ε → Step ε ν Unit) : Smooth (bus.resetWith tell) := by
  have forgotten : bus.forget.Peaceful := peaceful.of_topics rfl
  unfold Bus.resetWith
  simp only [forgotten.unheard, List.isEmpty_nil, if_true]
  exact ⟨_, (), rfl, of_nobody rfl⟩

/-!
What listeners do is given a way of telling others; it is smooth if that is.
-/

section Telling

variable {tell : Bus ε ν → String → Heard ε → Step ε ν Unit}
  (smooth : ∀ bus topic heard, bus.Peaceful → Smooth (tell bus topic heard))

include smooth

theorem remove (peaceful : bus.Peaceful) (topic : String) (serial : Nat) :
    Smooth (bus.remove tell topic serial) := by
  unfold Bus.remove
  split
  · exact smooth _ _ _ (peaceful.strike topic serial)
  · exact ⟨bus, (), rfl, peaceful⟩

theorem announce [HasTopic ε] (peaceful : bus.Peaceful) (event : ε) :
    Smooth (bus.announce tell event) := by
  have stamped : (bus.append event).Peaceful := peaceful.of_topics rfl
  obtain ⟨first, _, told, firstPeaceful⟩ :=
    smooth _ (HasTopic.topic event) (.announced ⟨bus.cursor, event⟩) stamped
  obtain ⟨second, _, toldAny, secondPeaceful⟩ :=
    smooth first anyTopic (.announced ⟨bus.cursor, event⟩) firstPeaceful
  refine ⟨second, bus.cursor, ?_, secondPeaceful⟩
  simp only [Bus.announce, told, toldAny]

theorem perform [HasTopic ε] (actions : List (Action ε ν)) (peaceful : bus.Peaceful)
    (quiet : ∀ failure, .raise failure ∉ actions) : Smooth (bus.perform tell actions) := by
  induction actions generalizing bus with
  | nil => exact ⟨bus, (), rfl, peaceful⟩
  | cons action actions ih =>
      have later : ∀ failure, .raise failure ∉ actions :=
        fun failure member => quiet failure (List.mem_cons_of_mem _ member)
      cases action with
      | note n => exact ih (peaceful.of_topics rfl) later
      | raise failure => exact absurd List.mem_cons_self (quiet failure)
      | reset =>
          obtain ⟨cleared, _, reset, clearedPeaceful⟩ := peaceful.resetWith tell
          simp only [Bus.perform, reset]
          exact ih clearedPeaceful later
      | relay allowance event returned =>
          rw [Bus.perform]
          split
          · exact ih peaceful later
          · next less spent =>
              have lessPeaceful : less.Peaceful := by
                unfold spend? at spent
                split at spent
                · cases spent
                  exact peaceful.of_topics rfl
                · cases spent
              obtain ⟨told, cursor, announced, toldPeaceful⟩ :=
                lessPeaceful.announce smooth event
              simp only [announced]
              exact ih (toldPeaceful.of_topics rfl) later

theorem claim (peaceful : bus.Peaceful) (topic : String) (r : Registration ε ν) :
    Smooth (bus.claim tell topic r) := by
  have spent : { bus with spent := r.serial :: bus.spent }.Peaceful := peaceful.of_topics rfl
  unfold Bus.claim
  split
  · exact spent.remove smooth topic r.serial
  · exact ⟨bus, (), rfl, peaceful⟩

theorem deliver [HasTopic ε] (topic : String) (heard : Heard ε) (members : List (Registration ε ν))
    (peaceful : bus.Peaceful)
    (quiet : ∀ r ∈ members, ∀ failure, .raise failure ∉ r.listener heard) :
    Smooth (bus.deliver tell topic heard members) := by
  induction members generalizing bus with
  | nil => exact ⟨bus, (), rfl, peaceful⟩
  | cons r members ih =>
      have later : ∀ other ∈ members, ∀ failure, .raise failure ∉ other.listener heard :=
        fun other member => quiet other (List.mem_cons_of_mem _ member)
      rw [Bus.deliver]
      split
      · exact ih peaceful later
      · obtain ⟨ready, _, claimed, readyPeaceful⟩ := peaceful.claim smooth topic r
        obtain ⟨done, _, performed, donePeaceful⟩ :=
          readyPeaceful.perform smooth (r.listener heard) (quiet r List.mem_cons_self)
        simp only [claimed, performed]
        exact ih donePeaceful later

end Telling

theorem tellWithin [HasTopic ε] (depth : Nat) (peaceful : bus.Peaceful) (topic : String)
    (heard : Heard ε) : Smooth (bus.tellWithin depth topic heard) := by
  induction depth generalizing bus topic heard with
  | zero => exact ⟨bus, (), rfl, peaceful⟩
  | succ depth ih =>
      exact peaceful.deliver (fun _ topic heard peaceful => ih peaceful topic heard) topic heard _
        fun r member failure => peaceful.quiet topic r member heard failure

theorem emit [HasTopic ε] (peaceful : bus.Peaceful) (event : ε) : Smooth (bus.emit event) :=
  peaceful.announce (fun _ topic heard peaceful => peaceful.tellWithin _ topic heard) event

end Peaceful

/-!
### Announcing several things

A bus is calm if nothing that is announced on it makes a listener fail, whatever has been
announced before.
-/

variable [HasTopic ε]

/-- Announce several things, up to the first one on which a listener fails. -/
def emitAll : Bus ε ν → List ε → Step ε ν Unit
  | bus, [] => (bus, .ok ())
  | bus, event :: events =>
      match bus.emit event with
      | (bus, .error failure) => (bus, .error failure)
      | (bus, .ok _) => emitAll bus events

/-- The bus on which several things were announced. -/
def after (bus : Bus ε ν) (events : List ε) : Bus ε ν :=
  (bus.emitAll events).1

/-- No listener fails, whatever is announced. -/
def Calm (bus : Bus ε ν) : Prop :=
  ∀ events, (bus.emitAll events).2 = .ok ()

namespace Calm

variable {bus : Bus ε ν}

theorem emitAll_eq (calm : bus.Calm) (events : List ε) :
    bus.emitAll events = (bus.after events, .ok ()) :=
  Prod.ext rfl (calm events)

theorem emit_eq (calm : bus.Calm) (event : ε) :
    ∃ cursor, bus.emit event = (bus.after [event], .ok cursor) := by
  have announced := calm.emitAll_eq [event]
  rw [emitAll] at announced
  split at announced
  · cases announced
  · next told cursor emitted =>
      refine ⟨cursor, ?_⟩
      cases announced
      exact emitted

theorem after_cons (calm : bus.Calm) (event : ε) (events : List ε) :
    bus.after (event :: events) = (bus.after [event]).after events := by
  obtain ⟨cursor, emitted⟩ := calm.emit_eq event
  rw [Bus.after, emitAll, emitted]
  rfl

/-- A calm bus stays calm. -/
theorem next (calm : bus.Calm) (event : ε) : (bus.after [event]).Calm := by
  intro events
  obtain ⟨cursor, emitted⟩ := calm.emit_eq event
  have announced := calm (event :: events)
  simp only [emitAll, emitted] at announced
  exact announced

end Calm

/-- No announcement fails on a peaceful bus. -/
theorem Peaceful.calm {bus : Bus ε ν} (peaceful : bus.Peaceful) : bus.Calm := by
  intro events
  induction events generalizing bus with
  | nil => rfl
  | cons event events ih =>
      obtain ⟨told, cursor, emitted, toldPeaceful⟩ := peaceful.emit event
      simp only [emitAll, emitted]
      exact ih toldPeaceful

end Bus

end SuperCalls
