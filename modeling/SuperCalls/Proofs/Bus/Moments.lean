/-
Module: SuperCalls.Proofs.Bus.Moments
Purpose: What a bus is in the middle of, at any moment of an operation.  An activity brings about
  others, whose listeners bring about others again; the moments of an operation are what this leads
  to.  The bound on how deep they nest is never reached.
Main exports: Activity, Involves, During, Bus.Kept.during, Activity.Roomy, Roomy.during
-/
import Mathlib.Algebra.BigOperators.Group.List.Basic
import Mathlib.Algebra.GroupWithZero.Nat
import Mathlib.Logic.Relation
import SuperCalls.Proofs.Bus.Calm
import SuperCalls.Proofs.Bus.Invariants

namespace SuperCalls

variable {ε ν : Type}

/-- What is being done on a bus. -/
inductive Task (ε ν : Type) where
  /-- The listeners of a topic are made to hear something. -/
  | telling (topic : String) (heard : Heard ε)
  /-- These listeners of the topic are still to hear it. -/
  | delivering (topic : String) (heard : Heard ε) (members : List (Registration ε ν))
  /-- A listener is running, and these are the actions that it still takes. -/
  | running (actions : List (Action ε ν))
  | announcing (event : ε)
  | resetting
  /-- All registrations for these topics are still to be taken off. -/
  | clearing (topics : List String)
  /-- A number of registrations for a topic is still to be taken off. -/
  | emptying (topic : String) (left : Nat)
  | removing (topic : String) (serial : Nat)

/-- A task on a bus as it stands, and how deep what listeners do may still nest in it. -/
structure Activity (ε ν : Type) where
  depth : Nat
  bus : Bus ε ν
  task : Task ε ν

variable [HasTopic ε]

/-- An activity leads to another one: it starts it as a part of itself, or it goes on as it when a
part is over. -/
inductive Involves : Activity ε ν → Activity ε ν → Prop where
  | tell {depth bus topic heard} :
      Involves ⟨depth + 1, bus, .telling topic heard⟩
        ⟨depth, bus, .delivering topic heard (bus.listeners topic)⟩
  | passOver {depth bus topic heard r rest}
      (called : (r.single && bus.spent.contains r.serial) = true) :
      Involves ⟨depth, bus, .delivering topic heard (r :: rest)⟩
        ⟨depth, bus, .delivering topic heard rest⟩
  | claim {depth bus topic heard r rest}
      (due : (r.single && bus.spent.contains r.serial) = false) (single : r.single = true) :
      Involves ⟨depth, bus, .delivering topic heard (r :: rest)⟩
        ⟨depth, { bus with spent := r.serial :: bus.spent }, .removing topic r.serial⟩
  | call {depth bus ready topic heard r rest}
      (due : (r.single && bus.spent.contains r.serial) = false)
      (claimed : bus.claim (Bus.tellWithin depth) topic r = (ready, .ok ())) :
      Involves ⟨depth, bus, .delivering topic heard (r :: rest)⟩
        ⟨depth, ready, .running (r.listener heard)⟩
  | next {depth bus ready done topic heard r rest}
      (due : (r.single && bus.spent.contains r.serial) = false)
      (claimed : bus.claim (Bus.tellWithin depth) topic r = (ready, .ok ()))
      (performed : ready.perform (Bus.tellWithin depth) (r.listener heard) = (done, .ok ())) :
      Involves ⟨depth, bus, .delivering topic heard (r :: rest)⟩
        ⟨depth, done, .delivering topic heard rest⟩
  | note {depth bus n rest} :
      Involves ⟨depth, bus, .running (.note n :: rest)⟩ ⟨depth, bus.note n, .running rest⟩
  | reset {depth bus rest} :
      Involves ⟨depth, bus, .running (.reset :: rest)⟩ ⟨depth, bus, .resetting⟩
  | afterReset {depth bus done rest}
      (reset : bus.resetWith (Bus.tellWithin depth) = (done, .ok ())) :
      Involves ⟨depth, bus, .running (.reset :: rest)⟩ ⟨depth, done, .running rest⟩
  | refrain {depth bus allowance event returned rest} (used : bus.spend? allowance = none) :
      Involves ⟨depth, bus, .running (.relay allowance event returned :: rest)⟩
        ⟨depth, bus, .running rest⟩
  | relay {depth bus less allowance event returned rest}
      (spent : bus.spend? allowance = some less) :
      Involves ⟨depth, bus, .running (.relay allowance event returned :: rest)⟩
        ⟨depth, less, .announcing event⟩
  | afterRelay {depth bus less told cursor allowance event returned rest}
      (spent : bus.spend? allowance = some less)
      (announced : less.announce (Bus.tellWithin depth) event = (told, .ok cursor)) :
      Involves ⟨depth, bus, .running (.relay allowance event returned :: rest)⟩
        ⟨depth, told.note (returned cursor), .running rest⟩
  | announce {depth bus event} :
      Involves ⟨depth, bus, .announcing event⟩
        ⟨depth, bus.append event,
          .telling (HasTopic.topic event) (.announced ⟨bus.cursor, event⟩)⟩
  | announceAny {depth bus told event}
      (first : (bus.append event).tellWithin depth (HasTopic.topic event)
        (.announced ⟨bus.cursor, event⟩) = (told, .ok ())) :
      Involves ⟨depth, bus, .announcing event⟩
        ⟨depth, told, .telling Bus.anyTopic (.announced ⟨bus.cursor, event⟩)⟩
  | clear {depth bus} (heeded : (bus.forget.listeners Bus.goneTopic).isEmpty = false) :
      Involves ⟨depth, bus, .resetting⟩
        ⟨depth, bus.forget,
          .clearing ((bus.forget.topics.map (·.1)).filter (· != Bus.goneTopic) ++
            [Bus.goneTopic])⟩
  | clearTopic {depth bus topic topics}
      (heeded : (bus.listeners Bus.goneTopic).isEmpty = false) :
      Involves ⟨depth, bus, .clearing (topic :: topics)⟩
        ⟨depth, bus, .emptying topic (bus.listeners topic).length⟩
  | clearNext {depth bus done topic topics}
      (cleared : bus.clear (Bus.tellWithin depth) topic = (done, .ok ())) :
      Involves ⟨depth, bus, .clearing (topic :: topics)⟩ ⟨depth, done, .clearing topics⟩
  | emptyLatest {depth bus topic left latest}
      (last : (bus.listeners topic).getLast? = some latest)
      (all : (bus.listeners topic).length = left + 1) :
      Involves ⟨depth, bus, .emptying topic (left + 1)⟩
        ⟨depth, bus, .removing topic latest.serial⟩
  | emptyNext {depth bus done topic left latest}
      (last : (bus.listeners topic).getLast? = some latest)
      (all : (bus.listeners topic).length = left + 1)
      (removed : bus.remove (Bus.tellWithin depth) topic latest.serial = (done, .ok ())) :
      Involves ⟨depth, bus, .emptying topic (left + 1)⟩ ⟨depth, done, .emptying topic left⟩
  | remove {depth bus topic serial}
      (there : (bus.listeners topic).any (·.serial == serial) = true) :
      Involves ⟨depth, bus, .removing topic serial⟩
        ⟨depth, bus.strike topic serial, .telling Bus.goneTopic (.gone topic)⟩

/-- An activity is what a moment in the course of another one looks like. -/
def During : Activity ε ν → Activity ε ν → Prop :=
  Relation.ReflTransGen Involves

/-- The first listener of a topic runs when something is told, if it is registered to stay. -/
theorem During.first {depth : Nat} {bus : Bus ε ν} {topic : String} {heard : Heard ε}
    {r : Registration ε ν} {rest : List (Registration ε ν)}
    (listed : bus.listeners topic = r :: rest) (plain : r.single = false) :
    During ⟨depth + 1, bus, .telling topic heard⟩ ⟨depth, bus, .running (r.listener heard)⟩ := by
  refine .head .tell (.single ?_)
  rw [listed]
  refine .call (by rw [plain]; rfl) ?_
  unfold Bus.claim
  rw [plain]
  rfl

/-!
### What is kept at every moment
-/

/-- A property holds of the bus of an activity, and still does when what is being announced goes on
the timeline. -/
def Activity.Holds (property : Bus ε ν → Prop) (activity : Activity ε ν) : Prop :=
  property activity.bus ∧
    ∀ event, activity.task = .announcing event → property (activity.bus.append event)

omit [HasTopic ε] in
theorem Activity.Holds.of_bus {property : Bus ε ν → Prop} {depth : Nat} {bus : Bus ε ν}
    {task : Task ε ν} (holds : property bus) (other : ∀ event, task ≠ .announcing event) :
    Activity.Holds property ⟨depth, bus, task⟩ :=
  ⟨holds, fun event same => (other event same).elim⟩

namespace Bus.Kept

variable {property : Bus ε ν → Prop} (kept : Kept (fun _ => True) property)

omit [HasTopic ε] in
theorem holds_of_eq {α : Type} {step : Step ε ν α} {done : Bus ε ν} {result : Except Failure α}
    (ended : step = (done, result)) (holds : property step.1) : property done := by
  rw [ended] at holds
  exact holds

include kept

theorem involves {activity next : Activity ε ν} (step : Involves activity next)
    (holds : activity.Holds property) : next.Holds property := by
  obtain ⟨here, appended⟩ := holds
  have tells (depth : Nat) {bus : Bus ε ν} (topic : String) (heard : Heard ε) :
      property bus → property (bus.tellWithin depth topic heard).1 :=
    kept.tellWithin depth topic heard
  cases step with
  | tell | passOver | reset | refrain | clearTopic | emptyLatest => exact .of_bus here nofun
  | claim => exact .of_bus (kept.called _ here) nofun
  | call due claimed =>
      exact .of_bus (holds_of_eq claimed (kept.claim (tells _) _ _ here)) nofun
  | next due claimed performed =>
      have ready := holds_of_eq claimed (kept.claim (tells _) _ _ here)
      have done := holds_of_eq performed (kept.perform (tells _) _ (fun _ _ => trivial) ready)
      exact .of_bus done nofun
  | note => exact .of_bus (kept.note _ here) nofun
  | afterReset reset =>
      exact .of_bus (holds_of_eq reset (kept.resetWith (tells _) trivial here)) nofun
  | @relay _ _ _ allowance own returned _ spent =>
      have relayed (event : ε) := @kept.relay allowance event returned trivial _ _ here spent
      exact ⟨(relayed own).1, fun event _ => (relayed event).2⟩
  | @afterRelay _ _ _ _ _ allowance event returned _ spent announced =>
      have relayed := (@kept.relay allowance event returned trivial _ _ here spent).2
      exact .of_bus (kept.note _ (holds_of_eq announced (announce (tells _) relayed))) nofun
  | announce => exact .of_bus (appended _ rfl) nofun
  | announceAny first =>
      exact .of_bus (holds_of_eq first (tells _ _ _ (appended _ rfl))) nofun
  | clear => exact .of_bus (kept.forget trivial here) nofun
  | clearNext cleared =>
      exact .of_bus (holds_of_eq cleared (kept.clearTopic (tells _) trivial _ here)) nofun
  | emptyNext last all removed =>
      exact .of_bus (holds_of_eq removed (kept.remove (tells _) _ _ here)) nofun
  | remove => exact .of_bus (kept.strike _ _ here) nofun

theorem during {activity moment : Activity ε ν} (run : During activity moment)
    (holds : activity.Holds property) : moment.Holds property := by
  induction run with
  | refl => exact holds
  | tail _ step ih => exact kept.involves step ih

end Bus.Kept

/-!
### Room

The registrations and the allowances are what the nesting is counted in.  Nothing that listeners do
adds to them, and a nested telling comes with one less of the one or of the other.
-/

namespace Record

variable {α : Type}

/-- Every key stands once. -/
def Keyed (record : Record α) : Prop :=
  (record.map Prod.fst).Nodup

/-- The number of entries of the lists of a record. -/
def total (record : Record (List α)) : Nat :=
  (record.map (·.2.length)).sum

theorem total_perm {record other : Record (List α)} (perm : record.Perm other) :
    record.total = other.total :=
  (perm.map _).sum_eq

theorem Keyed.filter {record : Record α} (keyed : record.Keyed) (p : String × α → Bool) :
    Keyed (record.filter p) :=
  keyed.sublist (List.filter_sublist.map _)

theorem place_perm (key : String) (value : α) (record : Record α) :
    (place key value record).Perm ((key, value) :: record) := by
  induction record with
  | nil => exact .refl _
  | cons first record ih =>
      rw [place]
      split
      · exact .refl _
      · exact (ih.cons first).trans (.swap _ _ _)

theorem any_key_iff {record : Record α} {key : String} :
    record.any (·.1 == key) = true ↔ key ∈ record.map Prod.fst := by
  simp only [List.any_eq_true, beq_iff_eq, List.mem_map]

/-- A record without a key, where the key is not there. -/
theorem filter_eq_self {record : Record α} {key : String} (absent : key ∉ record.map Prod.fst) :
    record.filter (·.1 != key) = record := by
  refine List.filter_eq_self.mpr fun entry member => ?_
  rw [bne_iff_ne]
  rintro rfl
  exact absent (List.mem_map_of_mem member)

/-- No value is given to a key that is not there. -/
theorem map_eq_self {record : Record α} {key : String} (absent : key ∉ record.map Prod.fst)
    (value : α) :
    record.map (fun (k, v) => if k == key then (k, value) else (k, v)) = record := by
  refine (List.map_congr_left fun entry member => ?_).trans (List.map_id record)
  have apart : entry.1 ≠ key := by
    rintro rfl
    exact absent (List.mem_map_of_mem member)
  simp [apart]

/-- A key that gets a value leaves its old one. -/
theorem set_perm {record : Record α} (keyed : record.Keyed) (key : String) (value : α) :
    (record.set key value).Perm ((key, value) :: record.filter (·.1 != key)) := by
  rw [set]
  split
  · next there =>
      induction record with
      | nil => simp at there
      | cons first record ih =>
          obtain ⟨k, v⟩ := first
          obtain ⟨fresh, keyed⟩ := List.nodup_cons.mp keyed
          by_cases own : k = key
          · subst own
            rw [List.map_cons, map_eq_self fresh, List.filter_cons_of_neg (by simp),
              filter_eq_self fresh]
            simp
          · rw [List.map_cons, List.filter_cons_of_pos (by simp [own])]
            simp only [beq_false_of_ne own, Bool.false_eq_true, if_false]
            have rest := ih keyed (by simpa [own] using there)
            exact (rest.cons _).trans (.swap _ _ _)
  · next absent =>
      rw [filter_eq_self (mt any_key_iff.mpr absent)]
      exact place_perm key value record

theorem Keyed.set {record : Record α} (keyed : record.Keyed) (key : String) (value : α) :
    Keyed (record.set key value) := by
  refine ((set_perm keyed key value).map Prod.fst).nodup_iff.mpr (List.nodup_cons.mpr ⟨?_, ?_⟩)
  · intro member
    obtain ⟨entry, there, rfl⟩ := List.mem_map.mp member
    simpa using (List.mem_filter.mp there).2
  · exact keyed.filter _

theorem total_filter {record : Record (List α)} (keyed : record.Keyed) (key : String) :
    total (record.filter (·.1 != key)) + ((get? record key).getD []).length = record.total := by
  induction record with
  | nil => rfl
  | cons first record ih =>
      obtain ⟨k, members⟩ := first
      obtain ⟨fresh, keyed⟩ := List.nodup_cons.mp keyed
      rw [get?_cons]
      by_cases own : key = k
      · subst own
        rw [List.filter_cons_of_neg (by simp), if_pos rfl, filter_eq_self fresh]
        simp [total, Nat.add_comm]
      · rw [List.filter_cons_of_pos (by simp [Ne.symm own]), if_neg own]
        have rest := ih keyed
        simp only [total, List.map_cons, List.sum_cons] at rest ⊢
        omega

end Record

/-- One less at a place makes one less in all. -/
theorem sum_set_pred {counts : List Nat} {place left : Nat}
    (there : counts[place]? = some (left + 1)) : (counts.set place left).sum + 1 = counts.sum := by
  induction counts generalizing place with
  | nil => cases there
  | cons first counts ih =>
      cases place with
      | zero =>
          cases there
          rw [List.set_cons_zero, List.sum_cons, List.sum_cons]
          omega
      | succ place =>
          have rest := ih there
          rw [List.set_cons_succ, List.sum_cons, List.sum_cons]
          omega

namespace Bus

omit [HasTopic ε]

/-- Every topic stands once among those of the bus. -/
def Keyed (bus : Bus ε ν) : Prop :=
  Record.Keyed bus.topics

/-- What the nesting on a bus is counted in. -/
def load (bus : Bus ε ν) : Nat :=
  bus.allowed + bus.size

theorem Keyed.withListeners {bus : Bus ε ν} (keyed : bus.Keyed) (topic : String)
    (members : List (Registration ε ν)) : (bus.withListeners topic members).Keyed := by
  unfold Bus.withListeners Bus.Keyed
  dsimp only
  split
  · exact Record.Keyed.filter keyed _
  · exact Record.Keyed.set keyed topic members

theorem Keyed.size_withListeners {bus : Bus ε ν} (keyed : bus.Keyed) (topic : String)
    (members : List (Registration ε ν)) :
    (bus.withListeners topic members).size + (bus.listeners topic).length =
      bus.size + members.length := by
  have others := Record.total_filter keyed topic
  have size : (bus.withListeners topic members).size =
      members.length + Record.total (bus.topics.filter (·.1 != topic)) := by
    unfold Bus.withListeners Bus.size
    cases members with
    | nil => simp [Record.total, List.sum]
    | cons r members =>
        exact Record.total_perm (Record.set_perm keyed topic (r :: members))
  have total : bus.size = Record.total bus.topics := rfl
  have listeners : bus.listeners topic = (Record.get? bus.topics topic).getD [] := rfl
  rw [← listeners] at others
  omega

theorem Keyed.load_withListeners {bus : Bus ε ν} (keyed : bus.Keyed) (topic : String)
    (members : List (Registration ε ν)) :
    (bus.withListeners topic members).load + (bus.listeners topic).length =
      bus.load + members.length := by
  have size := keyed.size_withListeners topic members
  have allowed : (bus.withListeners topic members).allowed = bus.allowed := rfl
  unfold load
  omega

theorem Keyed.load_strike {bus : Bus ε ν} (keyed : bus.Keyed) (topic : String) (serial : Nat) :
    (bus.strike topic serial).load ≤ bus.load := by
  have load := keyed.load_withListeners topic
    ((bus.listeners topic).filter (·.serial != serial))
  have fewer := List.length_filter_le (·.serial != serial) (bus.listeners topic)
  unfold strike
  omega

/-- Taking off a registration that is there makes the load smaller. -/
theorem Keyed.load_strike_lt {bus : Bus ε ν} (keyed : bus.Keyed) {topic : String} {serial : Nat}
    (there : (bus.listeners topic).any (·.serial == serial) = true) :
    (bus.strike topic serial).load < bus.load := by
  have load := keyed.load_withListeners topic
    ((bus.listeners topic).filter (·.serial != serial))
  have fewer : ((bus.listeners topic).filter (·.serial != serial)).length <
      (bus.listeners topic).length := by
    obtain ⟨r, member, own⟩ := List.any_eq_true.mp there
    refine List.length_filter_lt_length_iff_exists.mpr ⟨r, member, ?_⟩
    simpa using own
  unfold strike
  omega

/-- Spending makes the load smaller, and the registrations stay. -/
theorem load_of_spend? {bus less : Bus ε ν} {allowance : Nat}
    (spent : bus.spend? allowance = some less) :
    less.load + 1 = bus.load ∧ less.topics = bus.topics := by
  unfold spend? at spent
  split at spent
  · next left there =>
      cases spent
      have allowed := sum_set_pred there
      refine ⟨?_, rfl⟩
      change (bus.allowances.set allowance left).sum + bus.size + 1 = bus.allowances.sum + bus.size
      omega
  · cases spent

theorem Keyed.spend? {bus less : Bus ε ν} (keyed : bus.Keyed) {allowance : Nat}
    (spent : bus.spend? allowance = some less) : less.Keyed := by
  unfold Keyed
  rw [(load_of_spend? spent).2]
  exact keyed

theorem kept_keyed : Kept (fun _ => True) (Keyed : Bus ε ν → Prop) where
  permits _ _ _ _ _ _ _ := trivial
  note _ keyed := keyed
  called _ keyed := keyed
  strike _ _ keyed := keyed.withListeners _ _
  forget _ _ keyed := keyed
  clear _ _ _ keyed := keyed.withListeners _ _
  clearAll _ _ _ := List.nodup_nil
  relay _ _ _ keyed spent := by
    have still := keyed.spend? spent
    exact ⟨still, still⟩

theorem kept_load (most : Nat) :
    Kept (fun _ => True) fun bus : Bus ε ν => bus.Keyed ∧ bus.load ≤ most where
  permits _ _ _ _ _ _ _ := trivial
  note _ holds := holds
  called _ holds := holds
  strike topic serial holds :=
    ⟨kept_keyed.strike topic serial holds.1,
      Nat.le_trans (holds.1.load_strike topic serial) holds.2⟩
  forget _ _ holds := holds
  clear permits bus topic holds := by
    have load := holds.1.load_withListeners topic []
    rw [List.length_nil] at load
    exact ⟨kept_keyed.clear permits topic holds.1, by omega⟩
  clearAll permits bus holds := by
    refine ⟨kept_keyed.clearAll permits holds.1, Nat.le_trans ?_ holds.2⟩
    exact Nat.add_le_add_left (Nat.zero_le _) _
  relay _ bus less holds spent := by
    have keyed := holds.1.spend? spent
    have load := (load_of_spend? spent).1
    have below : less.load ≤ most := by omega
    exact ⟨⟨keyed, below⟩, keyed, below⟩

end Bus

/-!
### The bound on the nesting
-/

/-- There is room for what listeners can still do: telling something takes more than what is counted
in registrations and allowances, and everything that leads to it takes as much. -/
def Activity.Roomy (activity : Activity ε ν) : Prop :=
  activity.bus.Keyed ∧
    match activity.task with
    | .telling .. | .announcing _ => activity.bus.load < activity.depth
    | _ => activity.bus.load ≤ activity.depth

namespace Activity.Roomy

theorem involves {activity next : Activity ε ν} (step : Involves activity next)
    (roomy : activity.Roomy) : next.Roomy := by
  obtain ⟨keyed, room⟩ := roomy
  have kept := (Bus.kept_load activity.bus.load).involves step
    ⟨⟨keyed, Nat.le_refl _⟩, fun event _ => ⟨keyed, Nat.le_refl _⟩⟩
  obtain ⟨⟨keyed', load⟩, _⟩ := kept
  refine ⟨keyed', ?_⟩
  cases step with
  | tell => exact Nat.le_of_lt_succ room
  | relay spent =>
      have less := (Bus.load_of_spend? spent).1
      exact Nat.lt_of_lt_of_le (Nat.lt_of_succ_le (Nat.le_of_eq less)) room
  | remove there => exact Nat.lt_of_lt_of_le (keyed.load_strike_lt there) room
  | announce | announceAny => exact Nat.lt_of_le_of_lt load room
  | passOver | claim | call | next | note | reset | afterReset | refrain | afterRelay | clear
    | clearTopic | clearNext | emptyLatest | emptyNext => exact Nat.le_trans load room

theorem during {activity moment : Activity ε ν} (run : During activity moment)
    (roomy : activity.Roomy) : moment.Roomy := by
  induction run with
  | refl => exact roomy
  | tail _ step ih => exact ih.involves step

omit [HasTopic ε] in
/-- Where there is room, the bound on the nesting is not reached. -/
theorem depth_ne_zero {depth : Nat} {bus : Bus ε ν} {topic : String} {heard : Heard ε}
    (roomy : Roomy ⟨depth, bus, .telling topic heard⟩) : depth ≠ 0 :=
  Nat.ne_of_gt (Nat.lt_of_le_of_lt (Nat.zero_le _) roomy.2)

end Activity.Roomy

end SuperCalls
