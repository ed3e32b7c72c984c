/-
Module: SuperCalls.Proofs.Bus.Delivery
Purpose: Who hears an announcement.  While no listener fails or resets the bus, each announcement that
  is made in the course of an activity is delivered to those of its topic and then to those of every
  topic, and to each of them once, however many others are made meanwhile.
Main exports: Delivery, Activity.delivery?, delivered, Bus.audience, Activity.Sound,
  Activity.Sound.delivered_announcing, Accounted, Activity.Threaded.accounted, Activity.Sound.accounted
-/
import SuperCalls.Proofs.Bus.Registrations
import SuperCalls.Proofs.Bus.Timeline

namespace SuperCalls

variable {ε ν α : Type}

/-!
### Calls
-/

/-- The number of what is heard, if it is an announcement. -/
def Heard.number? : Heard ε → Option Nat
  | announced stamped => some stamped.cursor
  | joining _ | gone _ => none

/-- A call of a listener that is registered to stay. -/
structure Delivery (ε ν : Type) where
  topic : String
  registration : Registration ε ν
  heard : Heard ε

namespace Activity

/-- The call that comes next, if the registration for it is there to stay. -/
def delivery? : Activity ε ν → Option (Delivery ε ν)
  | ⟨_, _, .delivering topic heard (r :: _)⟩ => if r.single then none else some ⟨topic, r, heard⟩
  | _ => none

/-- The number of the announcement that is being delivered. -/
def number? : Activity ε ν → Option Nat
  | ⟨_, _, .telling _ heard⟩ => heard.number?
  | ⟨_, _, .delivering _ heard _⟩ => heard.number?
  | _ => none

section Delivery

variable {activity : Activity ε ν} {delivery : Delivery ε ν}

theorem task_of_delivery (next : activity.delivery? = some delivery) :
    delivery.registration.single = false ∧ ∃ rest,
      activity.task = .delivering delivery.topic delivery.heard (delivery.registration :: rest) := by
  unfold delivery? at next
  split at next
  · split at next
    · cases next
    · next stays =>
        cases next
        exact ⟨Bool.eq_false_iff.mpr stays, _, rfl⟩
  · cases next

/-- A delivery is a call of the listener. -/
theorem involves_of_delivery [HasTopic ε] (next : activity.delivery? = some delivery) :
    Involves activity ⟨activity.depth, activity.bus,
      .running (delivery.registration.listener delivery.heard)⟩ := by
  obtain ⟨depth, bus, task⟩ := activity
  obtain ⟨stays, rest, same⟩ := task_of_delivery next
  cases same
  refine .call (by rw [stays]; rfl) ?_
  unfold Bus.claim
  rw [stays]
  rfl

theorem number_of_delivery (next : activity.delivery? = some delivery) :
    activity.number? = delivery.heard.number? := by
  obtain ⟨depth, bus, task⟩ := activity
  obtain ⟨-, rest, same⟩ := task_of_delivery next
  cases same
  rfl

end Delivery

end Activity

/-- The calls for the announcement of a number, in the order of the moments. -/
def delivered (n : Nat) (moments : List (Activity ε ν)) : List (Delivery ε ν) :=
  (moments.filterMap Activity.delivery?).filter fun delivery => delivery.heard.number? == some n

section Delivered

variable {n : Nat} {moments more : List (Activity ε ν)}

theorem delivered_append :
    delivered n (moments ++ more) = delivered n moments ++ delivered n more := by
  unfold delivered
  rw [List.filterMap_append, List.filter_append]

theorem mem_delivered {delivery : Delivery ε ν} :
    delivery ∈ delivered n moments ↔
      (∃ moment ∈ moments, moment.delivery? = some delivery) ∧ delivery.heard.number? = some n := by
  unfold delivered
  rw [List.mem_filter, List.mem_filterMap, beq_iff_eq]

theorem delivered_cons_of_other {activity : Activity ε ν} (other : activity.number? ≠ some n) :
    delivered n (activity :: moments) = delivered n moments := by
  unfold delivered
  rw [List.filterMap_cons]
  cases next : activity.delivery? with
  | none => rfl
  | some delivery =>
      rw [Activity.number_of_delivery next] at other
      exact List.filter_cons_of_neg (by simpa using other)

theorem delivered_cons_of_none {activity : Activity ε ν} (none : activity.delivery? = none) :
    delivered n (activity :: moments) = delivered n moments := by
  unfold delivered
  rw [List.filterMap_cons_none none]

theorem delivered_cons_of_some {activity : Activity ε ν} {delivery : Delivery ε ν}
    (next : activity.delivery? = some delivery) (number : delivery.heard.number? = some n) :
    delivered n (activity :: moments) = delivery :: delivered n moments := by
  unfold delivered
  rw [List.filterMap_cons_some next, List.filter_cons_of_pos (by simp [number])]

end Delivered

namespace Bus

/-- The calls by which the registrations for a topic that are there to stay hear something. -/
def calls (bus : Bus ε ν) (topic : String) (heard : Heard ε) : List (Delivery ε ν) :=
  (bus.standing topic).map fun r => ⟨topic, r, heard⟩

/-- The calls for an announcement: those of its topic come first, then those of every topic. -/
def audience [HasTopic ε] (bus : Bus ε ν) (event : ε) : List (Delivery ε ν) :=
  bus.calls (HasTopic.topic event) (.announced ⟨bus.cursor, event⟩) ++
    bus.calls anyTopic (.announced ⟨bus.cursor, event⟩)

theorem heard_of_audience [HasTopic ε] {bus : Bus ε ν} {event : ε} {delivery : Delivery ε ν}
    (member : delivery ∈ bus.audience event) : delivery.heard = .announced ⟨bus.cursor, event⟩ := by
  rcases List.mem_append.mp member with kind | any
  · obtain ⟨r, -, rfl⟩ := List.mem_map.mp kind
    rfl
  · obtain ⟨r, -, rfl⟩ := List.mem_map.mp any
    rfl

end Bus

variable [HasTopic ε]

namespace Activity

/-!
### Numbers

While nothing is reset the timeline grows, so each part of an activity has numbers of its own.
-/

/-- A listener that is running does not lead to a reset if it is not disturbed. -/
theorem not_resetting_of_part {activity part : Activity ε ν} (undisturbed : activity.Undisturbed)
    (step : Involves activity part) : part.task ≠ .resetting := by
  cases step with
  | reset => exact absurd rfl (undisturbed.lasting _)
  | _ => nofun

/-- What is delivered in a part is what is delivered or announced by the whole. -/
theorem number_of_part {activity part : Activity ε ν} (step : Involves activity part) {n : Nat}
    (own : part.number? = some n) :
    activity.number? = some n ∨ activity.announced?.map Stamped.cursor = some n := by
  cases step with
  | tell | passOver | next => exact Or.inl own
  | announce | announceAny => exact Or.inr own
  | _ => cases own

/-- What is delivered is what is being delivered, or was announced meanwhile. -/
theorem announced_of_delivered {activity moment : Activity ε ν} {delivery : Delivery ε ν} {n : Nat}
    (member : moment ∈ activity.moments) (next : moment.delivery? = some delivery)
    (number : delivery.heard.number? = some n) :
    activity.number? = some n ∨
      ∃ other ∈ activity.moments, other.announced?.map Stamped.cursor = some n := by
  induction activity using parts_induction with
  | step activity ih =>
  rw [moments_eq] at member
  rcases List.mem_cons.mp member with rfl | later
  · exact Or.inl ((number_of_delivery next).trans number)
  · obtain ⟨part, here, within⟩ := List.mem_flatMap.mp later
    rcases ih part here within with own | ⟨other, among, announced⟩
    · rcases number_of_part (involves_iff.mpr here) own with whole | announced
      · exact Or.inl whole
      · exact Or.inr ⟨activity, activity.self_mem_moments, announced⟩
    · exact Or.inr ⟨other, moments_subset here among, announced⟩

omit [HasTopic ε] in
theorem cursor_of_announced {activity : Activity ε ν} {stamped : Stamped ε}
    (begun : activity.announced? = some stamped) : stamped.cursor = activity.bus.cursor := by
  unfold announced? at begun
  split at begun
  · cases begun
    rfl
  · cases begun

/-- An activity on a bus that is in order, with room for what it leads to, that delivers what is on the
timeline, and in the course of which no listener fails or resets the bus. -/
structure Sound (single : String → Nat → Bool) (activity : Activity ε ν) : Prop where
  counted : activity.bus.Counted
  roomy : activity.Roomy
  marked : activity.Every fun topic r => r.single = single topic r.serial
  timely : ∀ n, activity.number? = some n → n < activity.bus.timeline.length
  undisturbed : ∀ moment ∈ activity.moments, moment.Undisturbed
  begun : activity.task ≠ .resetting

/-- The timeline that an activity finds is no longer than the one that it leaves. -/
def Grows (activity : Activity ε ν) : Prop :=
  activity.bus.timeline.length ≤ activity.left.timeline.length

theorem grows_of_kept {activity : Activity ε ν}
    (kept : ∀ moment ∈ activity.moments, moment.task ≠ .resetting) : activity.Grows := by
  unfold Grows
  rw [activity.replays_moments.eq_append kept, List.length_append]
  exact Nat.le_add_right _ _

/-- Activities that come one after the other have their places on the timeline. -/
theorem Threaded.bounds {list : List (Activity ε ν)} (grow : ∀ activity ∈ list, activity.Grows)
    {before after : List (TimelineEntry ε)} (threaded : Threaded list before after) :
    before.length ≤ after.length ∧ ∀ activity ∈ list,
      before.length ≤ activity.bus.timeline.length ∧
        activity.left.timeline.length ≤ after.length := by
  induction list generalizing before with
  | nil => exact ⟨Nat.le_of_eq (congrArg _ threaded), nofun⟩
  | cons activity list ih =>
      obtain ⟨here, later⟩ := threaded
      obtain ⟨own, others⟩ := List.forall_mem_cons.mp grow
      obtain ⟨whole, each⟩ := ih others later
      unfold Grows at own
      rw [here] at own
      refine ⟨Nat.le_trans own whole, List.forall_mem_cons.mpr ⟨⟨?_, whole⟩, fun other member => ?_⟩⟩
      · exact Nat.le_of_eq (congrArg _ here.symm)
      · exact ⟨Nat.le_trans own (each other member).1, (each other member).2⟩

namespace Sound

variable {single : String → Nat → Bool} {activity part moment : Activity ε ν}

theorem not_resetting (sound : activity.Sound single) :
    ∀ moment ∈ activity.moments, moment.task ≠ .resetting := by
  obtain ⟨-, -, -, -, undisturbed, begun⟩ := sound
  induction activity using parts_induction with
  | step activity ih =>
      have own := undisturbed activity activity.self_mem_moments
      rw [moments_eq]
      refine List.forall_mem_cons.mpr ⟨begun, fun moment later => ?_⟩
      obtain ⟨part, here, within⟩ := List.mem_flatMap.mp later
      exact ih part here (fun other member => undisturbed other (moments_subset here member))
        (not_resetting_of_part own (involves_iff.mpr here)) moment within

theorem grows (sound : activity.Sound single) : activity.Grows :=
  grows_of_kept sound.not_resetting

/-- The parts of an activity have their places behind what it begins with. -/
theorem bounds (sound : activity.Sound single) :
    activity.entered.length ≤ activity.left.timeline.length ∧ ∀ part ∈ activity.parts,
      activity.entered.length ≤ part.bus.timeline.length ∧
        part.left.timeline.length ≤ activity.left.timeline.length :=
  activity.threaded_parts.bounds fun _ here => grows_of_kept fun moment within =>
    sound.not_resetting moment (moments_subset here within)

/-- What an activity or its parts deliver was on the timeline when it began. -/
theorem lt_entered (sound : activity.Sound single) {n : Nat}
    (own : activity.number? = some n ∨ activity.announced?.map Stamped.cursor = some n) :
    n < activity.entered.length := by
  rw [entered_eq sound.begun, List.length_append]
  rcases own with delivering | announcing
  · exact Nat.lt_add_right _ (sound.timely n delivering)
  · obtain ⟨stamped, announced, rfl⟩ := Option.map_eq_some_iff.mp announcing
    have next := sound.counted.next
    obtain ⟨depth, bus, task⟩ := activity
    cases task with
    | announcing event =>
        cases announced
        rw [show bus.cursor = bus.timeline.length from next]
        exact Nat.lt_succ_self _
    | _ => cases announced

protected theorem part (sound : activity.Sound single) (member : part ∈ activity.parts) :
    part.Sound single where
  counted := by
    have holds : activity.Holds Bus.Counted :=
      ⟨sound.counted, fun event _ => sound.counted.append event⟩
    exact (Bus.kept_counted.involves (involves_iff.mpr member) holds).1
  roomy := sound.roomy.involves (involves_iff.mpr member)
  marked := sound.marked.involves (involves_iff.mpr member)
  timely n own :=
    Nat.lt_of_lt_of_le (sound.lt_entered (number_of_part (involves_iff.mpr member) own))
      (sound.bounds.2 part member).1
  undisturbed moment within := sound.undisturbed moment (moments_subset member within)
  begun := not_resetting_of_part (sound.undisturbed activity activity.self_mem_moments)
    (involves_iff.mpr member)

/-- What is announced in the course of an activity has its place between what the activity finds and
what it leaves. -/
theorem place (sound : activity.Sound single) (member : moment ∈ activity.moments) {n : Nat}
    (announced : moment.announced?.map Stamped.cursor = some n) :
    activity.bus.timeline.length ≤ n ∧ n < activity.left.timeline.length := by
  induction activity using parts_induction with
  | step activity ih =>
  rw [moments_eq] at member
  rcases List.mem_cons.mp member with rfl | later
  · have first := sound.lt_entered (Or.inr announced)
    refine ⟨?_, Nat.lt_of_lt_of_le first sound.bounds.1⟩
    obtain ⟨stamped, begun, rfl⟩ := Option.map_eq_some_iff.mp announced
    exact Nat.le_of_eq (sound.counted.next.symm.trans (cursor_of_announced begun).symm)
  · obtain ⟨part, here, within⟩ := List.mem_flatMap.mp later
    obtain ⟨least, most⟩ := ih part here (sound.part here) within
    obtain ⟨behind, before⟩ := sound.bounds.2 part here
    have entered : activity.bus.timeline.length ≤ activity.entered.length := by
      rw [entered_eq sound.begun, List.length_append]
      exact Nat.le_add_right _ _
    exact ⟨Nat.le_trans entered (Nat.le_trans behind least), Nat.lt_of_lt_of_le most before⟩

/-- Nothing is delivered under numbers of others. -/
theorem silent (sound : activity.Sound single) {n : Nat} (other : activity.number? ≠ some n)
    (outside : ¬ (activity.bus.timeline.length ≤ n ∧ n < activity.left.timeline.length)) :
    delivered n activity.moments = [] := by
  refine List.eq_nil_iff_forall_not_mem.mpr fun delivery member => ?_
  obtain ⟨⟨moment, within, next⟩, number⟩ := mem_delivered.mp member
  rcases announced_of_delivered within next number with own | ⟨announcing, among, announced⟩
  · exact other own
  · exact outside (sound.place among announced)

/-!
### Deliveries
-/

/-- A part delivers nothing of what the whole delivers, unless it goes on with that. -/
theorem silent_part (sound : activity.Sound single) (member : part ∈ activity.parts) {n : Nat}
    (own : activity.number? = some n) (other : part.number? ≠ some n) :
    delivered n part.moments = [] := by
  refine (sound.part member).silent other fun within => ?_
  have begun := sound.lt_entered (Or.inl own)
  exact Nat.not_lt.mpr (Nat.le_trans (sound.bounds.2 part member).1 within.1) begun

/-- What is sound comes to an end, and the registrations that are there to stay are left. -/
protected theorem completes (sound : activity.Sound single)
    (sparing : activity.Sparing (fun _ => True) fun topic serial => single topic serial = true) :
    ∃ done, activity.Completes done ∧ done.standing = activity.bus.standing :=
  Activity.completes (Bus.overlooks_once single) activity sound.undisturbed
    (fun _ _ _ _ => ⟨trivial, trivial⟩) sound.marked.listed (fun _ _ => sound.marked.listed) sparing

section Members

variable {depth : Nat} {bus : Bus ε ν} {topic : String} {heard : Heard ε}

/-- The next listener is called, and then the others are, behind the registration being taken off if it
was for one call. -/
theorem parts_of_due {r : Registration ε ν} {rest : List (Registration ε ν)}
    (sound : Sound single ⟨depth, bus, .delivering topic heard (r :: rest)⟩)
    (due : (r.single && bus.spent.contains r.serial) = false) :
    ∃ ready done, parts ⟨depth, bus, .delivering topic heard (r :: rest)⟩ =
      (if r.single then
        [⟨depth, { bus with spent := r.serial :: bus.spent }, .removing topic r.serial⟩]
      else []) ++
        [⟨depth, ready, .running (r.listener heard)⟩, ⟨depth, done, .delivering topic heard rest⟩] := by
  obtain ⟨ready, claimed⟩ : ∃ ready,
      bus.claim (Bus.tellWithin depth) topic r = (ready, .ok ()) := by
    unfold Bus.claim
    split
    · next once =>
        have claiming := sound.part (involves_iff.mp (.claim due once))
        have mark := sound.marked.due _ _ _ rfl r List.mem_cons_self
        obtain ⟨ready, removed, -⟩ := claiming.completes (.removing (mark.symm.trans once))
        exact ⟨ready, removed⟩
    · exact ⟨bus, rfl⟩
  have calling := sound.part (involves_iff.mp (.call due claimed))
  obtain ⟨done, performed, -⟩ := calling.completes .running
  refine ⟨ready, done, ?_⟩
  rw [Activity.parts_of_due due, claimed]
  simp only [Bus.afterwards]
  rw [show ready.perform (Bus.tellWithin depth) (r.listener heard) = _ from performed]

/-- What is being delivered is heard by those who are still to hear it. -/
theorem delivered_delivering {members : List (Registration ε ν)} {n : Nat}
    (number : heard.number? = some n)
    (sound : Sound single ⟨depth, bus, .delivering topic heard members⟩) :
    delivered n (moments ⟨depth, bus, .delivering topic heard members⟩) =
      (members.filter fun r => !r.single).map fun r => ⟨topic, r, heard⟩ := by
  induction members generalizing bus with
  | nil =>
      rw [moments_eq, delivered_cons_of_none rfl]
      rfl
  | cons r rest ih =>
      have own : number? ⟨depth, bus, .delivering topic heard (r :: rest)⟩ = some n := number
      rw [moments_eq]
      cases due : r.single && bus.spent.contains r.serial with
      | true =>
          have once : r.single = true := (Bool.and_eq_true_iff.mp due).1
          have later := sound.part (involves_iff.mp (.passOver due))
          rw [delivered_cons_of_none (by simp [delivery?, once]), parts_of_called due,
            List.flatMap_singleton, ih later, List.filter_cons_of_neg (by simp [once])]
      | false =>
          obtain ⟨ready, done, parts⟩ := sound.parts_of_due due
          have calling : (⟨depth, ready, .running (r.listener heard)⟩ : Activity ε ν) ∈
              Activity.parts ⟨depth, bus, .delivering topic heard (r :: rest)⟩ := by
            simp [parts]
          have going : (⟨depth, done, .delivering topic heard rest⟩ : Activity ε ν) ∈
              Activity.parts ⟨depth, bus, .delivering topic heard (r :: rest)⟩ := by
            simp [parts]
          have called := sound.silent_part calling own nofun
          have later := ih (sound.part going)
          cases once : r.single with
          | true =>
              have claimed := sound.silent_part (involves_iff.mp (.claim due once)) own nofun
              rw [delivered_cons_of_none (by simp [delivery?, once]), parts, if_pos once,
                List.filter_cons_of_neg (by simp [once])]
              simp only [List.cons_append, List.nil_append, List.flatMap_cons, List.flatMap_nil,
                List.append_nil, delivered_append, claimed, called, later]
          | false =>
              have next : delivery? ⟨depth, bus, .delivering topic heard (r :: rest)⟩ =
                  some ⟨topic, r, heard⟩ := by
                simp [delivery?, once]
              rw [delivered_cons_of_some next number, parts, if_neg (by simp [once]),
                List.filter_cons_of_pos (by simp [once]), List.map_cons]
              simp only [List.nil_append, List.flatMap_cons, List.flatMap_nil, List.append_nil,
                delivered_append, called, later]

/-- What is told to a topic is heard by the registrations for it that are there to stay. -/
theorem delivered_telling {n : Nat} (number : heard.number? = some n)
    (sound : Sound single ⟨depth, bus, .telling topic heard⟩) :
    delivered n (moments ⟨depth, bus, .telling topic heard⟩) = bus.calls topic heard := by
  obtain ⟨less, rfl⟩ := Nat.exists_eq_succ_of_ne_zero sound.roomy.depth_ne_zero
  have only : parts ⟨less + 1, bus, .telling topic heard⟩ =
      [⟨less, bus, .delivering topic heard (bus.listeners topic)⟩] := rfl
  have begun := sound.part (only ▸ List.mem_singleton_self _)
  rw [moments_of_parts only, delivered_cons_of_none rfl, delivered_delivering number begun]
  rfl

/-- What is announced is heard by its audience. -/
theorem delivered_announcing {event : ε} (sound : Sound single ⟨depth, bus, .announcing event⟩) :
    delivered bus.cursor (moments ⟨depth, bus, .announcing event⟩) = bus.audience event := by
  let heard : Heard ε := .announced ⟨bus.cursor, event⟩
  have first := sound.part (involves_iff.mp .announce)
  obtain ⟨told, done, kept⟩ := first.completes (.telling trivial)
  have second := sound.part (involves_iff.mp (.announceAny done))
  have parts : parts ⟨depth, bus, .announcing event⟩ =
      [⟨depth, bus.append event, .telling (HasTopic.topic event) heard⟩,
        ⟨depth, told, .telling Bus.anyTopic heard⟩] := by
    simp only [Activity.parts]
    rw [show (bus.append event).tellWithin depth _ _ = _ from done]
    rfl
  have still : told.calls Bus.anyTopic heard = bus.calls Bus.anyTopic heard := by
    unfold Bus.calls
    rw [kept]
    rfl
  rw [moments_eq, delivered_cons_of_none rfl, parts]
  simp only [List.flatMap_cons, List.flatMap_nil, List.append_nil, delivered_append]
  rw [delivered_telling rfl first, delivered_telling rfl second, still]
  rfl

end Members

end Sound

end Activity

/-!
### Announcements among others
-/

/-- Each announcement that is made among the moments is delivered to its audience, once to each. -/
def Accounted (moments : List (Activity ε ν)) : Prop :=
  ∀ moment ∈ moments, ∀ event, moment.task = .announcing event →
    delivered moment.bus.cursor moments = moment.bus.audience event

namespace Activity

omit [HasTopic ε] in
theorem announced_of_task {moment : Activity ε ν} {event : ε} (task : moment.task = .announcing event) :
    moment.announced?.map Stamped.cursor = some moment.bus.cursor := by
  obtain ⟨depth, bus, own⟩ := moment
  cases task
  rfl

/-- Activities that come behind an announcement do not deliver it again. -/
theorem Threaded.silent {list : List (Activity ε ν)} {before after : List (TimelineEntry ε)} {n : Nat}
    (threaded : Threaded list before after)
    (sound : ∀ activity ∈ list, ∃ single, activity.Sound single)
    (other : ∀ activity ∈ list, activity.number? ≠ some n) (past : n < before.length) :
    delivered n (list.flatMap moments) = [] := by
  have places := (threaded.bounds fun activity member => (sound activity member).elim
    fun _ sound => sound.grows).2
  refine List.eq_nil_iff_forall_not_mem.mpr fun delivery member => ?_
  obtain ⟨⟨moment, within, next⟩, number⟩ := mem_delivered.mp member
  obtain ⟨activity, here, among⟩ := List.mem_flatMap.mp within
  obtain ⟨single, sound⟩ := sound activity here
  have none := sound.silent (other activity here) fun inside =>
    Nat.not_lt.mpr (Nat.le_trans (places activity here).1 inside.1) past
  have found : delivery ∈ delivered n activity.moments :=
    mem_delivered.mpr ⟨⟨moment, among, next⟩, number⟩
  rw [none] at found
  cases found

/-- Activities that come one after the other account for what each of them announces. -/
theorem Threaded.accounted {list : List (Activity ε ν)} {before after : List (TimelineEntry ε)}
    (threaded : Threaded list before after)
    (sound : ∀ activity ∈ list, ∃ single, activity.Sound single)
    (early : ∀ activity ∈ list, ∀ n, activity.number? = some n → n < before.length)
    (accounted : ∀ activity ∈ list, Accounted activity.moments) :
    Accounted (list.flatMap moments) := by
  induction list generalizing before with
  | nil => exact nofun
  | cons activity list ih =>
      obtain ⟨here, later⟩ := threaded
      obtain ⟨⟨single, own⟩, others⟩ := List.forall_mem_cons.mp sound
      obtain ⟨first, rest⟩ := List.forall_mem_cons.mp early
      obtain ⟨accounts, account⟩ := List.forall_mem_cons.mp accounted
      have grows := own.grows
      unfold Grows at grows
      rw [here] at grows
      intro moment member event task
      have announced := announced_of_task task
      rw [List.flatMap_cons, delivered_append]
      rcases List.mem_append.mp member with within | behind
      · obtain ⟨least, most⟩ := own.place within announced
        rw [here] at least
        rw [accounts moment within event task, later.silent others ?_ most, List.append_nil]
        intro next member number
        exact Nat.not_lt.mpr least (rest next member _ number)
      · obtain ⟨next, among, within⟩ := List.mem_flatMap.mp behind
        obtain ⟨_, sound⟩ := others next among
        have places := (later.bounds fun activity member => (others activity member).elim
          fun _ sound => sound.grows).2
        have least := Nat.le_trans (places next among).1 (sound.place within announced).1
        have before : delivered moment.bus.cursor activity.moments = [] := by
          refine own.silent (fun number => ?_) fun inside => Nat.not_lt.mpr least inside.2
          exact Nat.not_lt.mpr (Nat.le_trans grows least) (first _ number)
        rw [before, List.nil_append]
        exact ih later others (fun next member n number =>
          Nat.lt_of_lt_of_le (rest next member n number) grows) account moment behind event task

/-- In the course of an activity each announcement is delivered to its audience, once to each. -/
theorem Sound.accounted {single : String → Nat → Bool} {activity : Activity ε ν}
    (sound : activity.Sound single) : Accounted activity.moments := by
  induction activity using parts_induction with
  | step activity ih =>
  intro moment member event task
  have announced := announced_of_task task
  rw [moments_eq] at member
  rcases List.mem_cons.mp member with rfl | later
  · obtain ⟨depth, bus, own⟩ := moment
    cases task
    exact sound.delivered_announcing
  · have parts : Accounted (activity.parts.flatMap moments) := by
      refine activity.threaded_parts.accounted (fun part here => ⟨single, sound.part here⟩) ?_
        fun part here => ih part here (sound.part here)
      exact fun part here n number => sound.lt_entered (number_of_part (involves_iff.mpr here) number)
    obtain ⟨part, here, within⟩ := List.mem_flatMap.mp later
    have least := Nat.le_trans (sound.bounds.2 part here).1
      ((sound.part here).place within announced).1
    rw [moments_eq, delivered_cons_of_other, parts moment later event task]
    exact fun number => Nat.not_lt.mpr least (sound.lt_entered (Or.inl number))

end Activity

end SuperCalls
