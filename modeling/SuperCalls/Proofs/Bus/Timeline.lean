/-
Module: SuperCalls.Proofs.Bus.Timeline
Purpose: Reading the timeline on from a number.  What stands on it from the number on that was the
  next one at some moment are the announcements that have begun since, in the order in which they
  began, unless the bus was reset.
Main exports: Activity.left, Activity.threaded_parts, Replays, Activity.replays_moments,
  Bus.moments, Bus.mem_moments_iff, Bus.atMoment, Bus.Counted.since_eq, since_resumes
-/
import SuperCalls.Proofs.Bus.Cursors
import SuperCalls.Proofs.Bus.MomentOrder

namespace SuperCalls

variable {ε ν α : Type} [HasTopic ε]

namespace Activity

/-!
### What an activity makes of the timeline
-/

/-- The bus that an activity leaves. -/
def left : Activity ε ν → Bus ε ν
  | ⟨depth, bus, .telling topic heard⟩ => (bus.tellWithin depth topic heard).1
  | ⟨depth, bus, .delivering topic heard members⟩ =>
      (Bus.deliver (Bus.tellWithin depth) topic heard bus members).1
  | ⟨depth, bus, .running actions⟩ => (bus.perform (Bus.tellWithin depth) actions).1
  | ⟨depth, bus, .announcing event⟩ => (bus.announce (Bus.tellWithin depth) event).1
  | ⟨depth, bus, .resetting⟩ => (bus.resetWith (Bus.tellWithin depth)).1
  | ⟨depth, bus, .clearing topics⟩ => (bus.clearAll (Bus.tellWithin depth) topics).1
  | ⟨depth, bus, .emptying topic left⟩ =>
      (Bus.removeLatest (Bus.tellWithin depth) topic left bus).1
  | ⟨depth, bus, .removing topic serial⟩ => (bus.remove (Bus.tellWithin depth) topic serial).1

omit [HasTopic ε] in
/-- The timeline behind what an activity begins with, before its parts come about. -/
def entered (activity : Activity ε ν) : List (TimelineEntry ε) :=
  match activity.task with
  | .announcing event => (activity.bus.append event).timeline
  | .resetting => []
  | _ => activity.bus.timeline

/-- Activities come one after the other: each finds the timeline as the one before it left it. -/
def Threaded : List (Activity ε ν) → List (TimelineEntry ε) → List (TimelineEntry ε) → Prop
  | [], before, after => before = after
  | activity :: rest, before, after =>
      activity.bus.timeline = before ∧ Threaded rest activity.left.timeline after

/-- What comes behind a step is one after the other if it is where no listener failed. -/
theorem threaded_afterwards {step : Bus.Step ε ν α} {next : Bus ε ν → α → List (Activity ε ν)}
    {before after : List (TimelineEntry ε)}
    (failed : ∀ bus failure, step = (bus, .error failure) → before = after)
    (done : ∀ bus value, step = (bus, .ok value) → Threaded (next bus value) before after) :
    Threaded (Bus.afterwards step next) before after := by
  obtain ⟨bus, failure | value⟩ := step
  · exact failed bus failure rfl
  · exact done bus value rfl

omit [HasTopic ε] in
theorem timeline_spend? {bus less : Bus ε ν} {allowance : Nat}
    (spent : bus.spend? allowance = some less) : less.timeline = bus.timeline := by
  unfold Bus.spend? at spent
  split at spent
  · cases spent
    rfl
  · cases spent

section Delivering

variable {depth : Nat} {bus : Bus ε ν} {topic : String} {heard : Heard ε} {r : Registration ε ν}
  {rest : List (Registration ε ν)}

variable (depth topic heard rest) in
/-- A registration that is due is called when it is ready, and the others come behind it. -/
theorem threaded_claimed (due : (r.single && bus.spent.contains r.serial) = false) :
    Threaded
      (Bus.afterwards (bus.claim (Bus.tellWithin depth) topic r) fun ready _ =>
        ⟨depth, ready, .running (r.listener heard)⟩ ::
          Bus.afterwards (ready.perform (Bus.tellWithin depth) (r.listener heard)) fun done _ =>
            [⟨depth, done, .delivering topic heard rest⟩])
      (bus.claim (Bus.tellWithin depth) topic r).1.timeline
      (left ⟨depth, bus, .delivering topic heard (r :: rest)⟩).timeline := by
  refine threaded_afterwards ?_ ?_
  · intro ready failure claimed
    simp only [left, Bus.deliver, due, claimed, Bool.false_eq_true, if_false]
  · intro ready _ claimed
    refine ⟨by rw [claimed], threaded_afterwards ?_ ?_⟩
    · intro done failure performed
      simp only [left, Bus.deliver, due, claimed, performed, Bool.false_eq_true, if_false]
    · intro done _ performed
      simp only [left, Bus.deliver, due, claimed, performed, Bool.false_eq_true, if_false]
      exact ⟨rfl, rfl⟩

theorem threaded_delivering :
    Threaded (parts ⟨depth, bus, .delivering topic heard (r :: rest)⟩) bus.timeline
      (left ⟨depth, bus, .delivering topic heard (r :: rest)⟩).timeline := by
  cases called : r.single && bus.spent.contains r.serial with
  | true =>
      rw [parts_of_called called]
      simp only [left, Bus.deliver, called]
      exact ⟨rfl, rfl⟩
  | false =>
      have claimed := threaded_claimed depth topic heard rest called
      rw [parts_of_due called]
      split
      · next single =>
          have taken : (bus.claim (Bus.tellWithin depth) topic r).1 =
              left ⟨depth, { bus with spent := r.serial :: bus.spent },
                .removing topic r.serial⟩ := by
            rw [Bus.claim, if_pos single]
            rfl
          rw [taken] at claimed
          exact ⟨rfl, claimed⟩
      · next plain =>
          have ready : (bus.claim (Bus.tellWithin depth) topic r).1 = bus := by
            rw [Bus.claim, if_neg plain]
          rwa [ready] at claimed

end Delivering

section Others

variable (depth : Nat) (bus : Bus ε ν)

theorem threaded_running (action : Action ε ν) (rest : List (Action ε ν)) :
    Threaded (parts ⟨depth, bus, .running (action :: rest)⟩) bus.timeline
      (left ⟨depth, bus, .running (action :: rest)⟩).timeline := by
  cases action with
  | note n => exact ⟨rfl, rfl⟩
  | raise failure => exact rfl
  | reset =>
      refine ⟨rfl, threaded_afterwards ?_ ?_⟩
      · intro done failure reset
        simp only [left, Bus.perform, reset]
      · intro done _ reset
        simp only [left, Bus.perform, reset]
        exact ⟨rfl, rfl⟩
  | relay allowance event returned =>
      cases spent : bus.spend? allowance with
      | none =>
          simp only [parts, left, Bus.perform, spent]
          exact ⟨rfl, rfl⟩
      | some less =>
          simp only [parts, spent]
          refine ⟨timeline_spend? spent, threaded_afterwards ?_ ?_⟩
          · intro told failure announced
            simp only [left, Bus.perform, spent, announced]
          · intro told cursor announced
            simp only [left, Bus.perform, spent, announced]
            exact ⟨rfl, rfl⟩

theorem threaded_clearing (topic : String) (topics : List String) :
    Threaded (parts ⟨depth, bus, .clearing (topic :: topics)⟩) bus.timeline
      (left ⟨depth, bus, .clearing (topic :: topics)⟩).timeline := by
  have onward : Threaded
      (Bus.afterwards (bus.clear (Bus.tellWithin depth) topic) fun done _ =>
        [⟨depth, done, .clearing topics⟩])
      (bus.clear (Bus.tellWithin depth) topic).1.timeline
      (left ⟨depth, bus, .clearing (topic :: topics)⟩).timeline := by
    refine threaded_afterwards ?_ ?_
    · intro done failure cleared
      simp only [left, Bus.clearAll, cleared]
    · intro done _ cleared
      simp only [left, Bus.clearAll, cleared]
      exact ⟨rfl, rfl⟩
  simp only [parts]
  split
  · next unheeded =>
      have still : (bus.clear (Bus.tellWithin depth) topic).1.timeline = bus.timeline := by
        rw [Bus.clear, if_pos unheeded]
        rfl
      rwa [still] at onward
  · next heeded =>
      have emptied : (bus.clear (Bus.tellWithin depth) topic).1 =
          left ⟨depth, bus, .emptying topic (bus.listeners topic).length⟩ := by
        rw [Bus.clear, if_neg heeded]
        rfl
      rw [emptied] at onward
      exact ⟨rfl, onward⟩

theorem threaded_emptying (topic : String) (more : Nat) :
    Threaded (parts ⟨depth, bus, .emptying topic (more + 1)⟩) bus.timeline
      (left ⟨depth, bus, .emptying topic (more + 1)⟩).timeline := by
  cases last : (bus.listeners topic).getLast? with
  | none =>
      simp only [parts, left, Bus.removeLatest, last]
      split <;> exact rfl
  | some latest =>
      simp only [parts, last]
      split
      · next all =>
          refine ⟨rfl, threaded_afterwards ?_ ?_⟩
          · intro done failure removed
            simp only [left, Bus.removeLatest, last, all, removed, if_true]
          · intro done _ removed
            simp only [left, Bus.removeLatest, last, all, removed, if_true]
            exact ⟨rfl, rfl⟩
      · next short =>
          simp only [left, Bus.removeLatest, last, short, if_false]
          exact rfl

end Others

/-- The parts of an activity come one after the other, behind what it begins with, and the last one
leaves the timeline as the activity does. -/
theorem threaded_parts (activity : Activity ε ν) :
    Threaded activity.parts activity.entered activity.left.timeline := by
  obtain ⟨depth, bus, task⟩ := activity
  cases task with
  | telling topic heard =>
      cases depth with
      | zero => exact rfl
      | succ depth => exact ⟨rfl, rfl⟩
  | delivering topic heard members =>
      cases members with
      | nil => exact rfl
      | cons r rest => exact threaded_delivering
  | running actions =>
      cases actions with
      | nil => exact rfl
      | cons action rest => exact threaded_running depth bus action rest
  | announcing event =>
      refine ⟨rfl, threaded_afterwards ?_ ?_⟩
      · intro told failure first
        simp only [left, Bus.announce, first]
      · intro told _ first
        refine ⟨by simp only [left, first], ?_⟩
        simp only [left, Bus.announce, first]
        rcases told.tellWithin depth Bus.anyTopic (.announced ⟨bus.cursor, event⟩) with
          ⟨done, failure | _⟩ <;> exact rfl
  | resetting =>
      simp only [parts, left, Bus.resetWith]
      split
      · exact rfl
      · refine ⟨rfl, ?_⟩
        simp only [left]
        rcases bus.forget.clearAll (Bus.tellWithin depth) _ with ⟨done, failure | _⟩ <;> exact rfl
  | clearing topics =>
      cases topics with
      | nil => exact rfl
      | cons topic topics => exact threaded_clearing depth bus topic topics
  | emptying topic more =>
      cases more with
      | zero => exact rfl
      | succ more => exact threaded_emptying depth bus topic more
  | removing topic serial =>
      simp only [parts, left, Bus.remove]
      split
      · exact ⟨rfl, rfl⟩
      · exact rfl

omit [HasTopic ε] in
/-- The announcement that an activity begins with. -/
def announced? : Activity ε ν → Option (Stamped ε)
  | ⟨_, bus, .announcing event⟩ => some ⟨bus.cursor, event⟩
  | _ => none

omit [HasTopic ε] in
/-- The entry of the timeline that an activity begins with. -/
def recorded? (activity : Activity ε ν) : Option (TimelineEntry ε) :=
  activity.announced?.map fun stamped => ⟨stamped.cursor, stamped⟩

omit [HasTopic ε] in
/-- The entries of some activities hold what these announce. -/
theorem map_recorded {α : Type} (f : Stamped ε → α) (activities : List (Activity ε ν)) :
    ((activities.filterMap recorded?).map fun entry => f entry.event) =
      (activities.filterMap announced?).map f := by
  rw [List.map_filterMap, List.map_filterMap]
  congr 1
  funext activity
  rw [recorded?, Option.map_map]
  rfl

omit [HasTopic ε] in
/-- An activity that is no reset leaves what was on the timeline. -/
theorem entered_eq {activity : Activity ε ν} (kept : activity.task ≠ .resetting) :
    activity.entered = activity.bus.timeline ++ activity.recorded?.toList := by
  obtain ⟨depth, bus, task⟩ := activity
  cases task with
  | announcing event => rfl
  | resetting => exact absurd rfl kept
  | _ => exact (List.append_nil _).symm

end Activity

/-!
### The timeline at the moments of a run
-/

omit [HasTopic ε] in
/-- Moments lead from one timeline to another one: each finds the timeline as it is behind what the
moment before it began with. -/
def Replays : List (TimelineEntry ε) → List (Activity ε ν) → List (TimelineEntry ε) → Prop
  | before, [], after => before = after
  | before, moment :: moments, after =>
      moment.bus.timeline = before ∧ Replays moment.entered moments after

namespace Replays

variable {before between after : List (TimelineEntry ε)} {moments more : List (Activity ε ν)}

omit [HasTopic ε]

theorem append (first : Replays before moments between) (second : Replays between more after) :
    Replays before (moments ++ more) after := by
  induction moments generalizing before with
  | nil =>
      cases first
      exact second
  | cons moment moments ih => exact ⟨first.1, ih first.2⟩

theorem split (replays : Replays before (moments ++ more) after) :
    ∃ between, Replays before moments between ∧ Replays between more after := by
  induction moments generalizing before with
  | nil => exact ⟨before, rfl, replays⟩
  | cons moment moments ih =>
      obtain ⟨between, first, second⟩ := ih replays.2
      exact ⟨between, ⟨replays.1, first⟩, second⟩

theorem unique (first : Replays before moments between) (second : Replays before moments after) :
    between = after := by
  induction moments generalizing before with
  | nil => exact first.symm.trans second
  | cons moment moments ih => exact ih first.2 second.2

/-- The first moments lead to the timeline that the next one finds, which is the one in the end if
there is none. -/
theorem take (replays : Replays before moments after) (past : Nat) :
    Replays before (moments.take past) (moments[past]?.elim after (·.bus.timeline)) := by
  induction moments generalizing before past with
  | nil => simpa using replays
  | cons moment moments ih =>
      cases past with
      | zero => exact replays.1.symm
      | succ past => exact ⟨replays.1, ih replays.2 past⟩

/-- Without a reset what is announced is put behind what was there. -/
theorem eq_append (replays : Replays before moments after)
    (kept : ∀ moment ∈ moments, moment.task ≠ .resetting) :
    after = before ++ moments.filterMap Activity.recorded? := by
  induction moments generalizing before with
  | nil =>
      cases replays
      exact (List.append_nil _).symm
  | cons moment moments ih =>
      obtain ⟨here, later⟩ := replays
      obtain ⟨own, others⟩ := List.forall_mem_cons.mp kept
      have step : (moment :: moments).filterMap Activity.recorded? =
          moment.recorded?.toList ++ moments.filterMap Activity.recorded? := by
        rw [List.filterMap_cons]
        cases moment.recorded? <;> rfl
      rw [ih later others, Activity.entered_eq own, here, List.append_assoc, step]

end Replays

theorem Activity.Threaded.replays {list : List (Activity ε ν)}
    (each : ∀ activity ∈ list,
      Replays activity.bus.timeline activity.moments activity.left.timeline) :
    ∀ {before after : List (TimelineEntry ε)}, Threaded list before after →
      Replays before (list.flatMap Activity.moments) after := by
  induction list with
  | nil => exact fun threaded => threaded
  | cons activity list ih =>
      rintro _ after ⟨rfl, threaded⟩
      obtain ⟨own, others⟩ := List.forall_mem_cons.mp each
      exact own.append (ih others threaded)

/-- The moments of an activity lead from the timeline that it finds to the one that it leaves. -/
theorem Activity.replays_moments (activity : Activity ε ν) :
    Replays activity.bus.timeline activity.moments activity.left.timeline := by
  induction activity using Activity.parts_induction with
  | step activity ih =>
      rw [Activity.moments_eq]
      exact ⟨rfl, Threaded.replays ih activity.threaded_parts⟩

namespace Bus

/-- The moments of requests that are made one after the other. -/
def moments : Bus ε ν → List (Request ε ν) → List (Activity ε ν)
  | _, [] => []
  | bus, request :: requests =>
      (request.start? bus).elim [] Activity.moments ++ moments (request.left bus) requests

/-- The moments of a request lead from the timeline before it to the one behind it. -/
theorem replays_request (bus : Bus ε ν) (request : Request ε ν) :
    Replays bus.timeline ((request.start? bus).elim [] Activity.moments)
      (request.left bus).timeline := by
  have register (topic : String) (owner : Option String) (single : Bool)
      (listener : Listener ε ν) :
      Replays bus.timeline
        (Activity.moments ⟨bus.depth, bus, .telling joiningTopic (.joining topic)⟩)
        (bus.register topic owner single listener).1.timeline := by
    -- Putting the listener behind those of its topic is no matter of the timeline.
    have told : (bus.register topic owner single listener).1.timeline =
        (bus.tell joiningTopic (.joining topic)).1.timeline := by
      unfold Bus.register
      rcases bus.tell joiningTopic (.joining topic) with ⟨told, failure | _⟩ <;> rfl
    rw [told]
    exact Activity.replays_moments ⟨bus.depth, bus, .telling joiningTopic (.joining topic)⟩
  cases request with
  | emit event => exact Activity.replays_moments ⟨bus.depth, bus, .announcing event⟩
  | on topic owner listener | onAny owner listener | once topic owner listener =>
      exact register _ _ _ _
  | off topic owner =>
      unfold Request.start? Request.left Bus.off
      dsimp only
      cases (bus.listeners topic).reverse.find? (·.owner == some owner) with
      | none => exact rfl
      | some latest =>
          exact Activity.replays_moments ⟨bus.depth, bus, .removing topic latest.serial⟩
  | reset => exact Activity.replays_moments ⟨bus.depth, bus, .resetting⟩
  | since cursor | allow times => exact rfl

theorem replays_requests (bus : Bus ε ν) (later : List (Request ε ν)) :
    Replays bus.timeline (bus.moments later) (later.foldl Request.left bus).timeline := by
  induction later generalizing bus with
  | nil => exact rfl
  | cons request later ih => exact (replays_request bus request).append (ih _)

/-- The moments of requests are the activities in the course of one of them. -/
theorem mem_moments_iff {bus : Bus ε ν} {later : List (Request ε ν)} {moment : Activity ε ν} :
    moment ∈ bus.moments later ↔ ∃ front request back start, later = front ++ request :: back ∧
      request.start? (front.foldl Request.left bus) = some start ∧ During start moment := by
  constructor
  · intro member
    induction later generalizing bus with
    | nil => cases member
    | cons request later ih =>
        rcases List.mem_append.mp member with own | others
        · cases started : request.start? bus with
          | none =>
              rw [started] at own
              cases own
          | some start =>
              rw [started] at own
              exact ⟨[], request, later, start, rfl, started, Activity.mem_moments_iff.mp own⟩
        · obtain ⟨front, other, back, start, rfl, started, run⟩ := ih others
          exact ⟨request :: front, other, back, start, rfl, started, run⟩
  · rintro ⟨front, request, back, start, rfl, started, run⟩
    induction front generalizing bus with
    | nil =>
        refine List.mem_append_left _ ?_
        have begins : request.start? bus = some start := started
        rw [begins]
        exact Activity.mem_moments_iff.mpr run
    | cons first front ih => exact List.mem_append_right _ (ih started)

/-!
### The bus at a moment
-/

/-- The bus as it stands when a number of moments of requests are past, which is the bus behind the
requests if there are no more. -/
def atMoment (bus : Bus ε ν) (later : List (Request ε ν)) (past : Nat) : Bus ε ν :=
  ((bus.moments later)[past]?).elim (later.foldl Request.left bus) Activity.bus

/-- The moments that are past lead to the timeline as it stands. -/
theorem replays_take (bus : Bus ε ν) (later : List (Request ε ν)) (past : Nat) :
    Replays bus.timeline ((bus.moments later).take past) (bus.atMoment later past).timeline := by
  have taken := (bus.replays_requests later).take past
  unfold atMoment
  cases reached : (bus.moments later)[past]? <;> rwa [reached] at taken

theorem behind_append (requests later : List (Request ε ν)) :
    behind (requests ++ later) = later.foldl Request.left (behind requests) :=
  List.foldl_append

/-- At every moment of requests, and behind them, the timeline is numbered. -/
theorem counted_atMoment (requests later : List (Request ε ν)) (past : Nat) :
    ((behind requests).atMoment later past).Counted := by
  unfold atMoment
  cases reached : ((behind requests).moments later)[past]? with
  | none =>
      have counted := counted_behind (requests ++ later)
      rwa [behind_append] at counted
  | some moment =>
      obtain ⟨front, request, back, start, -, started, run⟩ :=
        mem_moments_iff.mp (List.mem_of_getElem? reached)
      have counted := counted_behind (requests ++ front)
      have keyed := keyed_behind (requests ++ front)
      rw [behind_append] at counted keyed
      obtain ⟨same, -⟩ := Request.roomy started keyed
      rw [← same] at counted
      exact (kept_counted.during run ⟨counted, fun event _ => counted.append event⟩).1

omit [HasTopic ε] in
/-- Of entries with the numbers from a first one on, those from another number on are the ones behind
the difference. -/
theorem filter_eq_drop {entries : List (TimelineEntry ε)} {first : Nat} (cursor : Int)
    (numbers : entries.map TimelineEntry.cursor = List.range' first entries.length) :
    entries.filter (fun entry => cursor ≤ (entry.cursor : Int)) =
      entries.drop (cursor - first).toNat := by
  induction entries generalizing first with
  | nil => exact List.drop_nil.symm
  | cons entry entries ih =>
      obtain ⟨own, others⟩ := List.cons.inj numbers
      have later := ih others
      by_cases wanted : cursor ≤ (entry.cursor : Int)
      · have all : (cursor - first).toNat = 0 := by omega
        have rest : (cursor - (first + 1 : Nat)).toNat = 0 := by omega
        rw [rest, List.drop_zero] at later
        rw [List.filter_cons_of_pos (by simpa using wanted), later, all, List.drop_zero]
      · have next : (cursor - first).toNat = (cursor - (first + 1 : Nat)).toNat + 1 := by omega
        rw [List.filter_cons_of_neg (by simpa using wanted), later, next, List.drop_succ_cons]

omit [HasTopic ε] in
/-- Reading on from a number leaves out the entries before it. -/
theorem Counted.since_eq {bus : Bus ε ν} (counted : bus.Counted) (cursor : Int) :
    bus.since cursor = bus.timeline.drop cursor.toNat := by
  have numbers := counted.numbers
  rw [List.range_eq_range'] at numbers
  have dropped := filter_eq_drop cursor numbers
  rwa [Int.ofNat_zero, Int.sub_zero] at dropped

end Bus

open Bus (Request)

/-- At every moment of requests that follow on others, and behind them, the timeline from a number
on is the timeline without as many entries as the number says.  What was the next number at an
earlier moment gives what has been announced since, in the order in which it was, if the bus was
not reset since: however deep they are nested, and wherever a listener fails. -/
theorem since_resumes (requests later : List (Request ε ν)) :
    let bus := Bus.behind requests
    let final := Bus.behind (requests ++ later)
    let moments := bus.moments later
    (∀ past (cursor : Int), (bus.atMoment later past).since cursor =
      (bus.atMoment later past).timeline.drop cursor.toNat) ∧
    (∀ since past, since ≤ past →
      (∀ moment ∈ (moments.take past).drop since, moment.task ≠ .resetting) →
        (bus.atMoment later past).since (bus.atMoment later since).cursor =
          ((moments.take past).drop since).filterMap Activity.recorded?) ∧
    ((∀ moment ∈ moments, moment.task ≠ .resetting) →
      final.since bus.cursor = moments.filterMap Activity.recorded?) := by
  intro bus final moments
  have reads (past : Nat) (cursor : Int) :=
    (Bus.counted_atMoment requests later past).since_eq cursor
  have resumes (since past : Nat) (ordered : since ≤ past)
      (kept : ∀ moment ∈ (moments.take past).drop since, moment.task ≠ .resetting) :
      (bus.atMoment later past).since (bus.atMoment later since).cursor =
        ((moments.take past).drop since).filterMap Activity.recorded? := by
    have replays := bus.replays_take later past
    rw [← List.take_append_drop since ((bus.moments later).take past), List.take_take,
      Nat.min_eq_left ordered] at replays
    obtain ⟨between, first, second⟩ := replays.split
    obtain rfl := first.unique (bus.replays_take later since)
    rw [reads, (Bus.counted_atMoment requests later since).next, Int.toNat_natCast,
      second.eq_append kept, List.drop_left]
  refine ⟨reads, resumes, fun kept => ?_⟩
  have replays := bus.replays_requests later
  have counted := Bus.counted_behind (requests ++ later)
  rw [counted.since_eq, (Bus.counted_behind requests).next, Int.toNat_natCast, Bus.behind_append,
    replays.eq_append kept, List.drop_left]

/-- A listener to fixes announces something in turn, and the listener to that fails, which ends both
announcements.  When the first listener runs, only what it announces is still to come. -/
theorem since_resumes_failing :
    let requests : List (Request Event Nat) :=
      [.emit (.skipped "a"), .allow 1,
        .on Event.fixedTopic none fun _ => [.relay 0 (.skipped "b") id],
        .on Event.skippedTopic none fun _ => [.raise (.plain .error "no")]]
    let later : List (Request Event Nat) := [.emit (.fixed "a" [] false)]
    let bus := Bus.behind requests
    (∀ moment ∈ bus.moments later, moment.task ≠ .resetting) ∧
      (Bus.behind (requests ++ later)).since bus.cursor =
        [⟨1, 1, .fixed "a" [] false⟩, ⟨2, 2, .skipped "b"⟩] ∧
      (bus.atMoment later 8).since (bus.atMoment later 3).cursor = [⟨2, 2, .skipped "b"⟩] := by
  intro requests later bus
  let told := bus.append (.fixed "a" [] false)
  let less : Bus Event Nat := { told with allowances := [0] }
  let relayed := less.append (.skipped "b")
  let failing : Activity Event Nat := ⟨2, relayed, .running [.raise (.plain .error "no")]⟩
  -- Each of the moments has one part, up to the failure, which has none.
  have moments : bus.moments later =
      [⟨4, bus, .announcing (.fixed "a" [] false)⟩,
        ⟨4, told, .telling Event.fixedTopic (.announced ⟨1, .fixed "a" [] false⟩)⟩,
        ⟨3, told, .delivering Event.fixedTopic (.announced ⟨1, .fixed "a" [] false⟩)
          (told.listeners Event.fixedTopic)⟩,
        ⟨3, told, .running [.relay 0 (.skipped "b") id]⟩,
        ⟨3, less, .announcing (.skipped "b")⟩,
        ⟨3, relayed, .telling Event.skippedTopic (.announced ⟨2, .skipped "b"⟩)⟩,
        ⟨2, relayed, .delivering Event.skippedTopic (.announced ⟨2, .skipped "b"⟩)
          (relayed.listeners Event.skippedTopic)⟩,
        failing] := by
    have fails : failing.moments = [failing] := Activity.moments_eq failing
    refine (List.append_nil _).trans ?_
    iterate 7 refine (Activity.moments_of_parts rfl).trans (congrArg _ ?_)
    exact fails
  have kept : ∀ moment ∈ bus.moments later, moment.task ≠ .resetting := by
    rw [moments]
    simp
  obtain ⟨_, resumes, whole⟩ := since_resumes requests later
  have read := whole kept
  have resumed := resumes 3 8 (by decide) fun moment member =>
    kept moment (List.mem_of_mem_take (List.mem_of_mem_drop member))
  rw [moments] at read resumed
  exact ⟨kept, read, resumed⟩

end SuperCalls
