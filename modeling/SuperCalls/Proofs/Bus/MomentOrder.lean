/-
Module: SuperCalls.Proofs.Bus.MomentOrder
Purpose: The moments of an operation of a bus in the order in which they come.  An activity has
  parts, one after the other, and its moments are itself and then those of its parts.
Main exports: Activity.parts, Activity.involves_iff, Activity.rank, Activity.moments,
  Activity.mem_moments_iff
-/
import SuperCalls.Proofs.Bus.Moments

namespace SuperCalls

variable {ε ν α β : Type}

/-- What comes behind a step, which is nothing where a listener failed. -/
def Bus.afterwards (step : Bus.Step ε ν α) (next : Bus ε ν → α → List β) : List β :=
  match step with
  | (bus, .ok value) => next bus value
  | (_, .error _) => []

theorem Bus.mem_afterwards {step : Bus.Step ε ν α} {next : Bus ε ν → α → List β} {b : β} :
    b ∈ Bus.afterwards step next ↔ ∃ bus value, step = (bus, .ok value) ∧ b ∈ next bus value := by
  obtain ⟨bus, failure | value⟩ := step
  · simp [afterwards]
  · simp [afterwards]

theorem Bus.mem_afterwards_singleton {step : Bus.Step ε ν α} {next : Bus ε ν → α → β} {b : β} :
    b ∈ Bus.afterwards step (fun bus value => [next bus value]) ↔
      ∃ bus value, step = (bus, .ok value) ∧ b = next bus value := by
  simp only [mem_afterwards, List.mem_singleton]

variable [HasTopic ε]

namespace Activity

/-!
### Parts
-/

/-- The activities that an activity leads to, in the order in which they come about. -/
def parts : Activity ε ν → List (Activity ε ν)
  | ⟨depth, bus, .telling topic heard⟩ =>
      match depth with
      | 0 => []
      | depth + 1 => [⟨depth, bus, .delivering topic heard (bus.listeners topic)⟩]
  | ⟨_, _, .delivering _ _ []⟩ => []
  | ⟨depth, bus, .delivering topic heard (r :: rest)⟩ =>
      if r.single && bus.spent.contains r.serial then [⟨depth, bus, .delivering topic heard rest⟩]
      else
        (if r.single then
          [⟨depth, { bus with spent := r.serial :: bus.spent }, .removing topic r.serial⟩]
        else []) ++
        Bus.afterwards (bus.claim (Bus.tellWithin depth) topic r) fun ready _ =>
          ⟨depth, ready, .running (r.listener heard)⟩ ::
            Bus.afterwards (ready.perform (Bus.tellWithin depth) (r.listener heard)) fun done _ =>
              [⟨depth, done, .delivering topic heard rest⟩]
  | ⟨_, _, .running []⟩ => []
  | ⟨depth, bus, .running (.note n :: rest)⟩ => [⟨depth, bus.note n, .running rest⟩]
  | ⟨_, _, .running (.raise _ :: _)⟩ => []
  | ⟨depth, bus, .running (.reset :: rest)⟩ =>
      ⟨depth, bus, .resetting⟩ ::
        Bus.afterwards (bus.resetWith (Bus.tellWithin depth)) fun done _ =>
          [⟨depth, done, .running rest⟩]
  | ⟨depth, bus, .running (.relay allowance event returned :: rest)⟩ =>
      match bus.spend? allowance with
      | none => [⟨depth, bus, .running rest⟩]
      | some less =>
          ⟨depth, less, .announcing event⟩ ::
            Bus.afterwards (less.announce (Bus.tellWithin depth) event) fun told cursor =>
              [⟨depth, told.note (returned cursor), .running rest⟩]
  | ⟨depth, bus, .announcing event⟩ =>
      ⟨depth, bus.append event, .telling (HasTopic.topic event) (.announced ⟨bus.cursor, event⟩)⟩ ::
        Bus.afterwards ((bus.append event).tellWithin depth (HasTopic.topic event)
          (.announced ⟨bus.cursor, event⟩)) fun told _ =>
            [⟨depth, told, .telling Bus.anyTopic (.announced ⟨bus.cursor, event⟩)⟩]
  | ⟨depth, bus, .resetting⟩ =>
      if (bus.forget.listeners Bus.goneTopic).isEmpty then []
      else
        [⟨depth, bus.forget,
          .clearing ((bus.forget.topics.map (·.1)).filter (· != Bus.goneTopic) ++
            [Bus.goneTopic])⟩]
  | ⟨_, _, .clearing []⟩ => []
  | ⟨depth, bus, .clearing (topic :: topics)⟩ =>
      (if (bus.listeners Bus.goneTopic).isEmpty then []
      else [⟨depth, bus, .emptying topic (bus.listeners topic).length⟩]) ++
        Bus.afterwards (bus.clear (Bus.tellWithin depth) topic) fun done _ =>
          [⟨depth, done, .clearing topics⟩]
  | ⟨_, _, .emptying _ 0⟩ => []
  | ⟨depth, bus, .emptying topic (left + 1)⟩ =>
      match (bus.listeners topic).getLast? with
      | none => []
      | some latest =>
          if (bus.listeners topic).length = left + 1 then
            ⟨depth, bus, .removing topic latest.serial⟩ ::
              Bus.afterwards (bus.remove (Bus.tellWithin depth) topic latest.serial) fun done _ =>
                [⟨depth, done, .emptying topic left⟩]
          else []
  | ⟨depth, bus, .removing topic serial⟩ =>
      if (bus.listeners topic).any (·.serial == serial) then
        [⟨depth, bus.strike topic serial, .telling Bus.goneTopic (.gone topic)⟩]
      else []

section Delivering

variable {depth : Nat} {bus : Bus ε ν} {topic : String} {heard : Heard ε} {r : Registration ε ν}
  {rest : List (Registration ε ν)}

theorem parts_of_called (called : (r.single && bus.spent.contains r.serial) = true) :
    parts ⟨depth, bus, .delivering topic heard (r :: rest)⟩ =
      [⟨depth, bus, .delivering topic heard rest⟩] :=
  if_pos called

theorem parts_of_due (due : (r.single && bus.spent.contains r.serial) = false) :
    parts ⟨depth, bus, .delivering topic heard (r :: rest)⟩ =
      (if r.single then
        [⟨depth, { bus with spent := r.serial :: bus.spent }, .removing topic r.serial⟩]
      else []) ++
      Bus.afterwards (bus.claim (Bus.tellWithin depth) topic r) fun ready _ =>
        ⟨depth, ready, .running (r.listener heard)⟩ ::
          Bus.afterwards (ready.perform (Bus.tellWithin depth) (r.listener heard)) fun done _ =>
            [⟨depth, done, .delivering topic heard rest⟩] :=
  if_neg (Bool.eq_false_iff.mp due)

end Delivering

theorem mem_parts {activity part : Activity ε ν} (step : Involves activity part) :
    part ∈ activity.parts := by
  cases step with
  | tell | note => exact List.mem_singleton_self _
  | reset | announce => exact List.mem_cons_self
  | passOver called =>
      rw [parts_of_called called]
      exact List.mem_singleton_self _
  | claim due single =>
      rw [parts_of_due due, if_pos single]
      exact List.mem_append_left _ (List.mem_singleton_self _)
  | call due claimed =>
      rw [parts_of_due due, claimed]
      exact List.mem_append_right _ List.mem_cons_self
  | next due claimed performed =>
      rw [parts_of_due due]
      simp [Bus.mem_afterwards, claimed, performed]
  | afterReset reset => simp [parts, Bus.mem_afterwards, reset]
  | refrain used => simp [parts, used]
  | relay spent => simp [parts, spent]
  | afterRelay spent announced => simp [parts, spent, Bus.mem_afterwards, announced]
  | announceAny first => simp [parts, Bus.mem_afterwards, first]
  | clear heeded => simp [parts, heeded]
  | clearTopic heeded => simp [parts, heeded]
  | clearNext cleared => simp [parts, Bus.mem_afterwards, cleared]
  | emptyLatest last all => simp [parts, last, all]
  | emptyNext last all removed => simp [parts, last, all, Bus.mem_afterwards, removed]
  | remove there => simp only [parts, there, if_true, List.mem_singleton]

section Others

variable {depth : Nat} {bus : Bus ε ν} {part : Activity ε ν}

theorem involves_of_mem_delivering {topic : String} {heard : Heard ε} {r : Registration ε ν}
    {rest : List (Registration ε ν)}
    (member : part ∈ parts ⟨depth, bus, .delivering topic heard (r :: rest)⟩) :
    Involves ⟨depth, bus, .delivering topic heard (r :: rest)⟩ part := by
  cases called : r.single && bus.spent.contains r.serial with
  | true =>
      rw [parts_of_called called] at member
      cases List.mem_singleton.mp member
      exact .passOver called
  | false =>
      rw [parts_of_due called] at member
      rcases List.mem_append.mp member with claiming | later
      · split at claiming
        · next single =>
            cases List.mem_singleton.mp claiming
            exact .claim called single
        · cases claiming
      · obtain ⟨ready, _, claimed, later⟩ := Bus.mem_afterwards.mp later
        rcases List.mem_cons.mp later with rfl | later
        · exact .call called claimed
        · obtain ⟨done, _, performed, rfl⟩ := Bus.mem_afterwards_singleton.mp later
          exact .next called claimed performed

theorem involves_of_mem_running {action : Action ε ν} {rest : List (Action ε ν)}
    (member : part ∈ parts ⟨depth, bus, .running (action :: rest)⟩) :
    Involves ⟨depth, bus, .running (action :: rest)⟩ part := by
  cases action with
  | note n =>
      cases List.mem_singleton.mp member
      exact .note
  | raise failure => cases member
  | reset =>
      rcases List.mem_cons.mp member with rfl | later
      · exact .reset
      · obtain ⟨done, _, reset, rfl⟩ := Bus.mem_afterwards_singleton.mp later
        exact .afterReset reset
  | relay allowance event returned =>
      cases spent : bus.spend? allowance with
      | none =>
          simp only [parts, spent] at member
          cases List.mem_singleton.mp member
          exact .refrain spent
      | some less =>
          simp only [parts, spent] at member
          rcases List.mem_cons.mp member with rfl | later
          · exact .relay spent
          · obtain ⟨told, cursor, announced, rfl⟩ := Bus.mem_afterwards_singleton.mp later
            exact .afterRelay spent announced

theorem involves_of_mem_emptying {topic : String} {left : Nat}
    (member : part ∈ parts ⟨depth, bus, .emptying topic (left + 1)⟩) :
    Involves ⟨depth, bus, .emptying topic (left + 1)⟩ part := by
  simp only [parts] at member
  split at member
  · cases member
  · next latest last =>
      split at member
      · next all =>
          rcases List.mem_cons.mp member with rfl | later
          · exact .emptyLatest last all
          · obtain ⟨done, _, removed, rfl⟩ := Bus.mem_afterwards_singleton.mp later
            exact .emptyNext last all removed
      · cases member

end Others

theorem involves_of_mem_parts {activity part : Activity ε ν} (member : part ∈ activity.parts) :
    Involves activity part := by
  obtain ⟨depth, bus, task⟩ := activity
  cases task with
  | telling topic heard =>
      cases depth with
      | zero => cases member
      | succ depth =>
          cases List.mem_singleton.mp member
          exact .tell
  | delivering topic heard members =>
      cases members with
      | nil => cases member
      | cons r rest => exact involves_of_mem_delivering member
  | running actions =>
      cases actions with
      | nil => cases member
      | cons action rest => exact involves_of_mem_running member
  | announcing event =>
      rcases List.mem_cons.mp member with rfl | later
      · exact .announce
      · obtain ⟨told, _, first, rfl⟩ := Bus.mem_afterwards_singleton.mp later
        exact .announceAny first
  | resetting =>
      simp only [parts] at member
      split at member
      · cases member
      · next heeded =>
          cases List.mem_singleton.mp member
          exact .clear (Bool.eq_false_iff.mpr heeded)
  | clearing topics =>
      cases topics with
      | nil => cases member
      | cons topic topics =>
          rcases List.mem_append.mp member with emptying | later
          · split at emptying
            · cases emptying
            · next heeded =>
                cases List.mem_singleton.mp emptying
                exact .clearTopic (Bool.eq_false_iff.mpr heeded)
          · obtain ⟨done, _, cleared, rfl⟩ := Bus.mem_afterwards_singleton.mp later
            exact .clearNext cleared
  | emptying topic left =>
      cases left with
      | zero => cases member
      | succ left => exact involves_of_mem_emptying member
  | removing topic serial =>
      simp only [parts] at member
      split at member
      · next there =>
          cases List.mem_singleton.mp member
          exact .remove there
      · cases member

/-- The parts of an activity are the activities that it leads to. -/
theorem involves_iff {activity part : Activity ε ν} :
    Involves activity part ↔ part ∈ activity.parts :=
  ⟨mem_parts, involves_of_mem_parts⟩

/-!
### Moments
-/

omit [HasTopic ε] in
/-- What becomes less from an activity to its parts: how deep it may still nest, then what kind of
task it is, then what is left of it. -/
def rank : Activity ε ν → Nat × Nat × Nat
  | ⟨depth, _, .telling _ _⟩ => (depth, 0, 0)
  | ⟨depth, _, .removing _ _⟩ => (depth, 1, 0)
  | ⟨depth, _, .announcing _⟩ => (depth, 1, 0)
  | ⟨depth, _, .emptying _ left⟩ => (depth, 2, left)
  | ⟨depth, _, .clearing topics⟩ => (depth, 3, topics.length)
  | ⟨depth, _, .resetting⟩ => (depth, 4, 0)
  | ⟨depth, _, .running actions⟩ => (depth, 5, actions.length)
  | ⟨depth, _, .delivering _ _ members⟩ => (depth, 6, members.length)

theorem rank_lt {activity part : Activity ε ν} (step : Involves activity part) :
    Prod.Lex (· < ·) (Prod.Lex (· < ·) (· < ·)) part.rank activity.rank := by
  cases step with
  | tell => exact .left _ _ (Nat.lt_succ_self _)
  | passOver | next | note | afterReset | refrain | afterRelay | clearNext | emptyNext =>
      exact .right _ (.right _ (Nat.lt_succ_self _))
  | claim | call | reset | relay | announce | announceAny | clear | clearTopic | emptyLatest
    | remove => exact .right _ (.left _ _ (by decide))

/-- The moments of an activity in the order in which they come: itself, and then those of its parts,
one part after the other. -/
def moments (activity : Activity ε ν) : List (Activity ε ν) :=
  activity :: activity.parts.attach.flatMap fun part => moments part.val
termination_by activity.rank
decreasing_by exact rank_lt (involves_iff.mpr part.property)

theorem moments_eq (activity : Activity ε ν) :
    activity.moments = activity :: activity.parts.flatMap moments := by
  rw [moments, List.flatMap_subtype fun _ _ => rfl, List.unattach_attach]

theorem moments_of_parts {activity part : Activity ε ν} (only : activity.parts = [part]) :
    activity.moments = activity :: part.moments := by
  rw [moments_eq, only, List.flatMap_singleton]

/-- What holds of an activity if it holds of its parts holds of every activity. -/
theorem parts_induction {motive : Activity ε ν → Prop}
    (step : ∀ activity, (∀ part ∈ activity.parts, motive part) → motive activity)
    (activity : Activity ε ν) : motive activity := by
  induction activity using moments.induct with
  | case1 activity ih => exact step activity fun part member => ih ⟨part, member⟩

/-- The moments of an activity are the activities in the course of it. -/
theorem mem_moments_iff {activity moment : Activity ε ν} :
    moment ∈ activity.moments ↔ During activity moment := by
  constructor
  · intro member
    induction activity using parts_induction with
    | step activity ih =>
        rw [moments_eq] at member
        rcases List.mem_cons.mp member with rfl | later
        · exact .refl
        · obtain ⟨part, here, within⟩ := List.mem_flatMap.mp later
          exact .head (involves_iff.mpr here) (ih part here within)
  · intro run
    induction run using Relation.ReflTransGen.head_induction_on with
    | refl =>
        rw [moments_eq]
        exact List.mem_cons_self
    | head step _ within =>
        rw [moments_eq]
        exact List.mem_cons_of_mem _ (List.mem_flatMap.mpr ⟨_, involves_iff.mp step, within⟩)

end Activity

end SuperCalls
