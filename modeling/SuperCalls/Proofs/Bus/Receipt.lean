/-
Module: SuperCalls.Proofs.Bus.Receipt
Purpose: What listeners receive over requests that are made one after the other.  Between two resets
  each announcement is delivered once to each registration that was there when it began; and if no
  listener announces anything, what a listener to everything has received is the timeline from its
  registration on.
Main exports: received, Activity.Proper, Bus.received_since, Bus.received_of_gone,
  delivered_exactly_once
-/
import SuperCalls.Proofs.Bus.Lifetimes

namespace SuperCalls

variable {ε ν : Type} [HasTopic ε]

/-!
### What a registration hears
-/

/-- Whether a call is one of the registration for a topic with a serial. -/
def Delivery.isTo (topic : String) (serial : Nat) (delivery : Delivery ε ν) : Bool :=
  delivery.topic == topic && delivery.registration.serial == serial

omit [HasTopic ε] in
theorem Delivery.isTo_iff {topic : String} {serial : Nat} {delivery : Delivery ε ν} :
    delivery.isTo topic serial = true ↔
      delivery.topic = topic ∧ delivery.registration.serial = serial := by
  unfold isTo
  rw [Bool.and_eq_true, beq_iff_eq, beq_iff_eq]

/-- What the registration of a serial, which is there to stay, hears of a topic, in order. -/
def received (topic : String) (serial : Nat) (moments : List (Activity ε ν)) : List (Heard ε) :=
  ((moments.filterMap Activity.delivery?).filter (Delivery.isTo topic serial)).map Delivery.heard

section Received

variable {topic : String} {serial : Nat}

omit [HasTopic ε] in
theorem received_append (moments more : List (Activity ε ν)) :
    received topic serial (moments ++ more) =
      received topic serial moments ++ received topic serial more := by
  unfold received
  rw [List.filterMap_append, List.filter_append, List.map_append]

/-- What each of several activities lets a registration hear is what it announces. -/
theorem received_flatMap {list : List (Activity ε ν)}
    (each : ∀ activity ∈ list, received topic serial activity.moments =
      (activity.moments.filterMap Activity.announced?).map .announced) :
    received topic serial (list.flatMap Activity.moments) =
      ((list.flatMap Activity.moments).filterMap Activity.announced?).map .announced := by
  induction list with
  | nil => rfl
  | cons activity list ih =>
      obtain ⟨own, others⟩ := List.forall_mem_cons.mp each
      rw [List.flatMap_cons, received_append, own, ih others, List.filterMap_append, List.map_append]

omit [HasTopic ε] in
/-- A registration that is not there hears nothing. -/
theorem received_of_every {moments : List (Activity ε ν)}
    (gone : ∀ moment ∈ moments, moment.Every fun other r => r.serial = serial → other ≠ topic) :
    received topic serial moments = [] := by
  refine List.map_eq_nil_iff.mpr (List.filter_eq_nil_iff.mpr fun delivery member => ?_)
  obtain ⟨moment, within, next⟩ := List.mem_filterMap.mp member
  obtain ⟨-, rest, task⟩ := Activity.task_of_delivery next
  have apart := (gone moment within).due _ _ _ task _ List.mem_cons_self
  rw [Delivery.isTo_iff]
  rintro ⟨same, own⟩
  exact apart own same

end Received

omit [HasTopic ε] in
/-- A serial is that of one registration only. -/
theorem Bus.Ordered.filter_serial {bus : Bus ε ν} (ordered : bus.Ordered) {topic : String}
    {r : Registration ε ν} (member : r ∈ bus.listeners topic) :
    (bus.listeners topic).filter (·.serial == r.serial) = [r] := by
  obtain ⟨front, back, listed⟩ := List.append_of_mem member
  have apart := ordered.pairwise topic
  rw [listed] at apart ⊢
  obtain ⟨-, behind, before⟩ := List.pairwise_append.mp apart
  have none (others : List (Registration ε ν)) (other : ∀ s ∈ others, s.serial ≠ r.serial) :
      others.filter (·.serial == r.serial) = [] :=
    List.filter_eq_nil_iff.mpr fun s among => by simpa using other s among
  rw [List.filter_append, List.filter_cons_of_pos (by simp),
    none front fun s among => Nat.ne_of_lt (before s among r List.mem_cons_self),
    none back fun s among => Nat.ne_of_gt ((List.pairwise_cons.mp behind).1 s among)]
  rfl

/-- Of an announcement a listener to everything hears the announcement, and that once. -/
theorem Bus.Ordered.heard_audience {bus : Bus ε ν} (ordered : bus.Ordered) {event : ε}
    (apart : HasTopic.topic event ≠ anyTopic) {r : Registration ε ν} (stays : r.single = false)
    (listed : r ∈ bus.listeners anyTopic) :
    ((bus.audience event).filter (Delivery.isTo anyTopic r.serial)).map Delivery.heard =
      [.announced ⟨bus.cursor, event⟩] := by
  let heard : Heard ε := .announced ⟨bus.cursor, event⟩
  have kind : (bus.calls (HasTopic.topic event) heard).filter (Delivery.isTo anyTopic r.serial) =
      [] := by
    refine List.filter_eq_nil_iff.mpr fun delivery member => ?_
    obtain ⟨s, -, rfl⟩ := List.mem_map.mp member
    rw [Delivery.isTo_iff]
    exact fun own => apart own.1
  have any : (bus.standing anyTopic).filter (·.serial == r.serial) = [r] := by
    unfold standing
    rw [List.filter_comm, ordered.filter_serial listed]
    simp [stays]
  unfold audience
  rw [List.filter_append, kind, List.nil_append]
  unfold calls
  rw [List.filter_map, List.map_map]
  simp only [Function.comp_def, Delivery.isTo, beq_self_eq_true, Bool.true_and, any]
  rfl

namespace Activity

omit [HasTopic ε] in
/-- What listeners to everything are made to hear is an announcement. -/
def Proper (activity : Activity ε ν) : Prop :=
  ∀ heard, (activity.task = .telling Bus.anyTopic heard ∨
    ∃ members, activity.task = .delivering Bus.anyTopic heard members) →
      ∃ stamped, heard = .announced stamped

theorem Proper.involves {activity next : Activity ε ν} (proper : activity.Proper)
    (step : Involves activity next) : next.Proper := by
  rintro heard (telling | ⟨members, delivering⟩)
  · cases step with
    | announce | announceAny =>
        obtain ⟨-, rfl⟩ := Task.telling.inj telling
        exact ⟨_, rfl⟩
    | remove =>
        obtain ⟨gone, -⟩ := Task.telling.inj telling
        exact absurd gone (by decide)
    | _ => cases telling
  · cases step with
    | tell =>
        cases delivering
        exact proper heard (.inl rfl)
    | passOver | next =>
        cases delivering
        exact proper heard (.inr ⟨_, rfl⟩)
    | _ => cases delivering

theorem Proper.during {activity moment : Activity ε ν} (proper : activity.Proper)
    (run : During activity moment) : moment.Proper := by
  induction run with
  | refl => exact proper
  | tail _ step ih => exact ih.involves step

/-- If listeners announce nothing, listeners to everything hear what an activity begins with. -/
theorem number_of_idle {activity moment : Activity ε ν} (proper : activity.Proper)
    (silent : activity.number? = none) (idle : ∀ moment ∈ activity.moments, moment.Idle)
    (member : moment ∈ activity.moments) {delivery : Delivery ε ν}
    (next : moment.delivery? = some delivery) (any : delivery.topic = Bus.anyTopic) :
    ∃ stamped, activity.announced? = some stamped ∧
      delivery.heard.number? = some stamped.cursor := by
  obtain ⟨-, rest, task⟩ := task_of_delivery next
  rw [any] at task
  obtain ⟨stamped, heard⟩ := proper.during (mem_moments_iff.mp member) _ (.inr ⟨_, task⟩)
  have number : delivery.heard.number? = some stamped.cursor := by rw [heard]; rfl
  rcases announced_of_delivered member next number with own | ⟨other, among, announced⟩
  · rw [silent] at own
    cases own
  · obtain ⟨begun, first, same⟩ := Option.map_eq_some_iff.mp announced
    exact ⟨begun, announced_of_idle idle among first, same ▸ number⟩

/-- If listeners announce nothing, a listener to everything hears what is announced. -/
theorem Sound.received_eq {single : String → Nat → Bool} {activity : Activity ε ν}
    (sound : activity.Sound single) (proper : activity.Proper) (silent : activity.number? = none)
    (idle : ∀ moment ∈ activity.moments, moment.Idle) (ordered : activity.bus.Ordered)
    (apart : ∀ event : ε, HasTopic.topic event ≠ Bus.anyTopic) {r : Registration ε ν}
    (stays : r.single = false)
    (listed : activity.announced? ≠ none → r ∈ activity.bus.listeners Bus.anyTopic) :
    received Bus.anyTopic r.serial activity.moments =
      (activity.moments.filterMap announced?).map .announced := by
  have heard : ∀ delivery ∈ activity.moments.filterMap delivery?, delivery.topic = Bus.anyTopic →
      ∃ stamped, activity.announced? = some stamped ∧
        delivery.heard.number? = some stamped.cursor := by
    intro delivery member any
    obtain ⟨moment, within, next⟩ := List.mem_filterMap.mp member
    exact number_of_idle proper silent idle within next any
  rw [announced_moments idle]
  obtain ⟨depth, bus, task⟩ := activity
  cases begins : announced? ⟨depth, bus, task⟩ with
  | none =>
      refine List.map_eq_nil_iff.mpr (List.filter_eq_nil_iff.mpr fun delivery member own => ?_)
      obtain ⟨stamped, announced, -⟩ := heard delivery member (Delivery.isTo_iff.mp own).1
      rw [begins] at announced
      cases announced
  | some stamped =>
      obtain ⟨event, rfl⟩ : ∃ event, task = .announcing event := by
        cases task with
        | announcing event => exact ⟨event, rfl⟩
        | _ => cases begins
      cases begins
      -- what it hears is a part of what is delivered of the announcement
      have whole : received Bus.anyTopic r.serial (moments ⟨depth, bus, .announcing event⟩) =
          ((delivered bus.cursor (moments ⟨depth, bus, .announcing event⟩)).filter
            (Delivery.isTo Bus.anyTopic r.serial)).map Delivery.heard := by
        unfold received delivered
        rw [List.filter_filter]
        congr 1
        refine List.filter_congr fun delivery member => ?_
        cases own : delivery.isTo Bus.anyTopic r.serial with
        | false => rfl
        | true =>
            obtain ⟨stamped, announced, number⟩ :=
              heard delivery member (Delivery.isTo_iff.mp own).1
            cases announced
            rw [number, beq_self_eq_true, Bool.and_self]
      rw [whole, sound.delivered_announcing, ordered.heard_audience (apart event) stays (listed nofun)]
      rfl

end Activity

namespace Bus

omit [HasTopic ε] in
theorem proper_of_start {bus : Bus ε ν} {request : Request ε ν} {start : Activity ε ν}
    (started : request.start? bus = some start) : start.Proper := by
  obtain ⟨depth, now, task⟩ := start
  rintro heard (telling | ⟨members, delivering⟩)
  · rcases task_of_start started with ⟨event, rfl⟩ | ⟨topic, rfl⟩ | ⟨topic, serial, rfl⟩ | ⟨-, rfl⟩
    case inr.inl => exact absurd (Task.telling.inj telling).1 (by decide)
    all_goals cases telling
  · rcases task_of_start started with ⟨event, rfl⟩ | ⟨topic, rfl⟩ | ⟨topic, serial, rfl⟩ | ⟨-, rfl⟩ <;>
      cases delivering

/-!
### Listeners to everything
-/

section Any

variable {requests rest : List (Request ε ν)} {r : Registration ε ν} {owner : Option String}
  {listener : Listener ε ν}

/-- A listener to everything that is registered has the serial for itself, if no listener fails on
hearing of it. -/
theorem known_onAny
    (undisturbed : ∀ moment ∈ (behind requests).moments [.onAny owner listener], moment.Undisturbed) :
    (behind (requests ++ [.onAny owner listener])).Known (behind requests).issued
      fun other s => other = anyTopic → s = ⟨(behind requests).issued, owner, false, listener⟩ := by
  let bus : Bus ε ν := behind requests
  have started : (Request.onAny owner listener).start? bus =
      some ⟨bus.depth, bus, .telling joiningTopic (.joining anyTopic)⟩ := rfl
  obtain ⟨single, sound⟩ := sound_of_start started nofun fun moment within =>
    undisturbed moment (List.mem_append_left _ within)
  obtain ⟨told, joined, -⟩ := sound.completes (.telling trivial)
  have left : behind (requests ++ [.onAny owner listener]) =
      told.enrol anyTopic owner false listener := by
    rw [behind_append]
    simp only [List.foldl_cons, List.foldl_nil, Request.left, onAny, on, register, tell]
    rw [show (behind requests).tellWithin _ joiningTopic _ = _ from joined]
  have same : told.issued = bus.issued := by
    have issued := (kept_issued bus.issued).tellWithin bus.depth joiningTopic (.joining anyTopic) rfl
    rwa [show bus.tellWithin _ joiningTopic _ = _ from joined] at issued
  have ordered : told.Ordered := Kept.holds_of_eq joined
    (kept_ordered.tellWithin bus.depth joiningTopic _ (ordered_behind requests))
  rw [left]
  intro topic
  refine ⟨?_, fun s member own => ?_⟩
  · rw [← same]
    exact Nat.lt_succ_self _
  · have fresh {other : String} (member : s ∈ told.listeners other) : False := by
      have earlier := ordered.lt_issued member
      rw [same, own] at earlier
      exact Nat.lt_irrefl _ earlier
    rw [listeners_enrol] at member
    split at member
    · rcases List.mem_append.mp member with earlier | last
      · exact (fresh earlier).elim
      · rw [same] at last
        exact fun _ => List.mem_singleton.mp last
    · exact (fresh member).elim

/-- A listener to everything that is there in the end was there all along, and there was no reset. -/
theorem listed_throughout (undisturbed : ∀ moment ∈ (behind requests).moments rest, moment.Undisturbed)
    (idle : ∀ moment ∈ (behind requests).moments rest, moment.Idle)
    (known : (behind requests).Known r.serial fun other s => other = anyTopic → s = r)
    (listed : r ∈ (behind (requests ++ rest)).listeners anyTopic) :
    (∀ request ∈ rest, request ≠ .reset) ∧ ∀ front back, rest = front ++ back →
      r ∈ (behind (requests ++ front)).listeners anyTopic := by
  have there : ∀ front back, rest = front ++ back →
      r ∈ (behind (requests ++ front)).listeners anyTopic := by
    rintro front back rfl
    rw [← List.append_assoc] at listed
    exact listed_before (known_behind known front) listed
  refine ⟨?_, there⟩
  rintro _ member rfl
  obtain ⟨front, back, split⟩ := List.append_of_mem member
  let bus : Bus ε ν := behind (requests ++ front)
  let start : Activity ε ν := ⟨bus.depth, bus, .resetting⟩
  have among : start ∈ (behind requests).starts rest := by
    refine mem_starts_iff.mpr ⟨front, .reset, back, split, ?_⟩
    rw [← behind_append]
    rfl
  have within := moments_subset_of_starts among
  have quiet : start.Quiet := ⟨fun moment member => undisturbed moment (within member),
    fun moment member => idle moment (within member)⟩
  have apart : anyTopic ≠ goneTopic := by decide
  have emptied := listeners_resetWith apart (ordered_behind _) quiet
  have left := there (front ++ [.reset]) back (by rw [split]; simp)
  rw [← List.append_assoc, behind_append] at left
  have none : r ∈ (bus.resetWith (tellWithin bus.depth)).1.listeners anyTopic := left
  rw [emptied] at none
  cases none

/-- Without a reset, reading on from the number that was next gives what has been announced since. -/
theorem since_of_moments (requests : List (Request ε ν)) {later : List (Request ε ν)}
    (kept : ∀ moment ∈ (behind requests).moments later, moment.task ≠ .resetting) :
    (behind (requests ++ later)).since (behind requests).cursor =
      ((behind requests).moments later).filterMap Activity.recorded? := by
  have replays := (behind requests).replays_requests later
  rw [(counted_behind (requests ++ later)).since_eq, (counted_behind requests).next,
    Int.toNat_natCast, behind_append, replays.eq_append kept, List.drop_left]

/-- If no listener announces anything, a listener to everything that is still there has heard the
timeline from its registration on. -/
theorem received_since (apart : ∀ event : ε, HasTopic.topic event ≠ anyTopic)
    (undisturbed : ∀ moment ∈ (behind requests).moments (.onAny owner listener :: rest),
      moment.Undisturbed)
    (idle : ∀ moment ∈ (behind requests).moments (.onAny owner listener :: rest), moment.Idle)
    (own : r = ⟨(behind requests).issued, owner, false, listener⟩)
    (listed : r ∈ (behind (requests ++ .onAny owner listener :: rest)).listeners anyTopic) :
    received anyTopic r.serial ((behind requests).moments (.onAny owner listener :: rest)) =
      ((behind (requests ++ .onAny owner listener :: rest)).since (behind requests).cursor).map
        fun entry => .announced entry.event := by
  have split : requests ++ .onAny owner listener :: rest =
      requests ++ [.onAny owner listener] ++ rest := List.append_cons _ _ _
  have moments := moments_append requests [.onAny owner listener] rest
  have first := List.forall_mem_append.mp (moments ▸ undisturbed)
  have second := List.forall_mem_append.mp (moments ▸ idle)
  have known := known_onAny first.1
  rw [← own, show (behind requests).issued = r.serial by rw [own]] at known
  obtain ⟨others, there⟩ := listed_throughout first.2 second.2 known (split ▸ listed)
  have sound {start : Activity ε ν}
      (member : start ∈ (behind requests).starts (.onAny owner listener :: rest)) :
      ∃ single, start.Sound single :=
    sound_of_mem_starts member (List.forall_mem_cons.mpr ⟨nofun, others⟩) undisturbed
  have kept : ∀ moment ∈ (behind requests).moments (.onAny owner listener :: rest),
      moment.task ≠ .resetting := by
    intro moment member
    rw [moments_eq_starts] at member
    obtain ⟨start, here, within⟩ := List.mem_flatMap.mp member
    exact (sound here).elim fun _ sound => sound.not_resetting moment within
  rw [since_of_moments requests kept, Activity.map_recorded, moments_eq_starts]
  refine received_flatMap fun start member => ?_
  obtain ⟨single, sound⟩ := sound member
  have within := moments_subset_of_starts member
  obtain ⟨front, request, back, whole, started, same⟩ := start_of_mem_starts member
  refine sound.received_eq (proper_of_start started) (number_of_start started)
    (fun moment among => idle moment (within among)) (same ▸ ordered_behind _) apart
    (by rw [own]) fun announces => ?_
  cases front with
  | nil =>
      -- nothing is announced while it is being registered
      cases whole
      cases started
      exact absurd rfl announces
  | cons register front =>
      obtain ⟨rfl, later⟩ := List.cons.inj whole
      rw [same, List.append_cons]
      exact there front _ later

/-- A listener to everything that was taken off hears nothing more. -/
theorem received_of_gone
    (known : (behind requests).Known r.serial fun other s => other = anyTopic → s = r)
    (gone : r ∉ (behind requests).listeners anyTopic) :
    received anyTopic r.serial ((behind requests).moments rest) = [] := by
  refine received_of_every fun moment member =>
    every_of_mem_moments (fun front _ _ topic s listed => ?_) member
  exact (known_behind (known.gone gone) front topic).2 s listed

end Any

end Bus

/-- No announcement has the topic of listeners to everything. -/
theorem Event.topic_ne_any (event : Event) : HasTopic.topic event ≠ Bus.anyTopic := by
  have listed : event.topic ∈ Event.topics := by
    cases event <;> simp [Event.topics, Event.topic]
  rintro (same : event.topic = Bus.anyTopic)
  rw [same] at listed
  exact absurd listed (by decide)

open Bus (Request)

/-- While listeners neither fail nor reset the bus, but may announce things in turn, each announcement
that is made between two resets is delivered once to each registration for its topic, and then once to
each one for every topic, that was there when it began and is there to stay, in the order of
registration; and no other announcement is delivered to anybody.  If no listener announces anything,
what a listener to everything has heard is the timeline from the number on that was the next one when it
was registered, and it hears nothing more once it is taken off. -/
theorem delivered_exactly_once {ν : Type} (requests later : List (Request Event ν))
    (undisturbed : ∀ moment ∈ (Bus.behind requests).moments later, moment.Undisturbed) :
    let bus := Bus.behind requests
    let final := Bus.behind (requests ++ later)
    let moments := bus.moments later
    (∀ moment ∈ moments,
      (∀ topic, (moment.bus.standing topic).Pairwise (·.serial < ·.serial)) ∧
      ∀ delivery, moment.delivery? = some delivery → Involves moment
        ⟨moment.depth, moment.bus, .running (delivery.registration.listener delivery.heard)⟩) ∧
    ((∀ request ∈ later.tail, request ≠ .reset) →
      (∀ moment ∈ moments, ∀ event, moment.task = .announcing event →
        delivered moment.bus.cursor moments = moment.bus.audience event) ∧
      ∀ moment ∈ moments, ∀ delivery stamped,
        moment.delivery? = some delivery → delivery.heard = .announced stamped →
          ∃ origin ∈ moments, origin.announced? = some stamped ∧
            delivery ∈ origin.bus.audience stamped.event) ∧
    ∀ owner listener rest, later = .onAny owner listener :: rest →
      (∀ moment ∈ moments, moment.Idle) →
        let r : Registration Event ν := ⟨bus.issued, owner, false, listener⟩
        (r ∈ final.listeners Bus.anyTopic →
          received Bus.anyTopic r.serial moments =
            (final.since bus.cursor).map fun entry => .announced entry.event) ∧
        (r ∉ final.listeners Bus.anyTopic →
          ∀ more, received Bus.anyTopic r.serial (final.moments more) = []) := by
  intro bus final moments
  refine ⟨fun moment member => ⟨fun topic => ?_, fun delivery => Activity.involves_of_delivery⟩, ?_, ?_⟩
  · have ordered := Bus.kept_moments Bus.kept_ordered (fun _ ordered => ordered)
      Bus.ordered_behind member
    exact (ordered.pairwise topic).filter _
  · intro others
    have accounted := Bus.accounted_moments requests others undisturbed
    exact ⟨accounted, fun moment member delivery stamped next heard =>
      Bus.origin_of_delivery accounted member next heard⟩
  · rintro owner listener rest rfl idle r
    refine ⟨fun listed => ?_, fun gone more => ?_⟩
    · exact Bus.received_since Event.topic_ne_any undisturbed idle rfl listed
    · have registered : ∀ moment ∈ bus.moments [.onAny owner listener], moment.Undisturbed :=
        fun moment member => undisturbed moment
          (Bus.moments_append requests [.onAny owner listener] rest ▸ List.mem_append_left _ member)
      have known := Bus.known_behind (Bus.known_onAny registered) rest
      rw [← List.append_cons] at known
      exact Bus.received_of_gone known gone

/-- A listener to fixes announces something in turn, so that the listener to everything hears that
first.  Where nobody does, a listener to everything that comes later has missed what was before. -/
theorem delivered_exactly_once_nested :
    let relaying : Listener Event Nat := fun _ => [.relay 0 (.skipped "b") id]
    let noting : Listener Event Nat := fun _ => [.note 0]
    let fixed : Event := .fixed "a" [] false
    (let requests : List (Request Event Nat) :=
      [.allow 1, .on Event.fixedTopic none relaying, .onAny none noting,
        .on Event.skippedTopic none noting]
    let moments := (Bus.behind requests).moments [.emit fixed]
    (∀ moment ∈ moments, moment.Undisturbed) ∧
      delivered 0 moments =
        [⟨Event.fixedTopic, ⟨0, none, false, relaying⟩, .announced ⟨0, fixed⟩⟩,
          ⟨Bus.anyTopic, ⟨1, none, false, noting⟩, .announced ⟨0, fixed⟩⟩] ∧
      delivered 1 moments =
        [⟨Event.skippedTopic, ⟨2, none, false, noting⟩, .announced ⟨1, .skipped "b"⟩⟩,
          ⟨Bus.anyTopic, ⟨1, none, false, noting⟩, .announced ⟨1, .skipped "b"⟩⟩]) ∧
    (let requests : List (Request Event Nat) := [.emit (.skipped "b")]
    let later : List (Request Event Nat) := [.onAny none noting, .emit fixed]
    let moments := (Bus.behind requests).moments later
    (∀ moment ∈ moments, moment.Undisturbed ∧ moment.Idle) ∧
      received Bus.anyTopic 0 moments = [.announced ⟨1, fixed⟩]) := by
  intro relaying noting fixed
  constructor
  · intro requests moments
    have undisturbed : ∀ moment ∈ moments, moment.Undisturbed := by
      refine Bus.undisturbed_of_gentle ?_
      simp [requests, Request.listener?, Listener.Gentle, relaying, noting]
    obtain ⟨-, whole, -⟩ := delivered_exactly_once requests [.emit fixed] undisturbed
    obtain ⟨delivers, -⟩ := whole nofun
    let bus : Bus Event Nat :=
      ⟨0, [], [(Event.fixedTopic, [⟨0, none, false, relaying⟩]),
        (Bus.anyTopic, [⟨1, none, false, noting⟩]),
        (Event.skippedTopic, [⟨2, none, false, noting⟩])], 3, [], [1], []⟩
    let told := bus.append fixed
    let less : Bus Event Nat := { told with allowances := [0] }
    have listed : told.listeners Event.fixedTopic = [⟨0, none, false, relaying⟩] := rfl
    let start : Activity Event Nat := ⟨bus.depth, bus, .announcing fixed⟩
    have within {moment : Activity Event Nat} (run : During start moment) : moment ∈ moments :=
      List.mem_append_left _ (Activity.mem_moments_iff.mpr run)
    have relay : During start ⟨bus.depth - 1, less, .announcing (.skipped "b")⟩ :=
      .head .announce (.trans (During.first listed rfl) (.single (.relay rfl)))
    have first := delivers start (within .refl) fixed rfl
    have second := delivers _ (within relay) (.skipped "b") rfl
    have firstAudience : bus.audience fixed =
        [⟨Event.fixedTopic, ⟨0, none, false, relaying⟩, .announced ⟨0, fixed⟩⟩,
          ⟨Bus.anyTopic, ⟨1, none, false, noting⟩, .announced ⟨0, fixed⟩⟩] := rfl
    have secondAudience : less.audience (.skipped "b") =
        [⟨Event.skippedTopic, ⟨2, none, false, noting⟩, .announced ⟨1, .skipped "b"⟩⟩,
          ⟨Bus.anyTopic, ⟨1, none, false, noting⟩, .announced ⟨1, .skipped "b"⟩⟩] := rfl
    rw [firstAudience] at first
    rw [secondAudience] at second
    exact ⟨undisturbed, first, second⟩
  · intro requests later moments
    have undisturbed : ∀ moment ∈ moments, moment.Undisturbed := by
      refine Bus.undisturbed_of_gentle ?_
      simp [requests, later, Request.listener?, Listener.Gentle, noting]
    have idle : ∀ moment ∈ moments, moment.Idle := by
      refine Bus.idle_of_silent ?_
      simp [requests, later, Request.listener?, Listener.Silent, noting]
    obtain ⟨-, -, whole⟩ := delivered_exactly_once requests later undisturbed
    obtain ⟨hears, -⟩ := whole none noting [.emit fixed] rfl idle
    exact ⟨fun moment member => ⟨undisturbed moment member, idle moment member⟩,
      hears (List.mem_singleton_self _)⟩

end SuperCalls
