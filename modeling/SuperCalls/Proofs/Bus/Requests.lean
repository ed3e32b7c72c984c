/-
Module: SuperCalls.Proofs.Bus.Requests
Purpose: Requests that are made one after the other.  Each starts an activity on the bus that the one
  before it left, so between two resets each announcement is delivered to its audience, once to each.
Main exports: Bus.starts, Bus.mem_starts_iff, Bus.task_of_start, Bus.sound_of_start,
  Bus.accounted_moments, Bus.origin_of_delivery
-/
import SuperCalls.Proofs.Bus.Delivery

namespace SuperCalls

variable {ε ν : Type} [HasTopic ε]

theorem Activity.Threaded.append {list more : List (Activity ε ν)}
    {before between after : List (TimelineEntry ε)} (first : Threaded list before between)
    (second : Threaded more between after) : Threaded (list ++ more) before after := by
  induction list generalizing before with
  | nil =>
      cases first
      exact second
  | cons activity list ih => exact ⟨first.1, ih first.2⟩

/-- Activities that come one after the other account for what each of them announces, if none goes on with
what was announced before. -/
theorem Activity.Threaded.accounted_anew {list : List (Activity ε ν)}
    {before after : List (TimelineEntry ε)} (threaded : Threaded list before after)
    (sound : ∀ start ∈ list, ∃ single, start.Sound single)
    (silent : ∀ start ∈ list, start.number? = none) : Accounted (list.flatMap moments) := by
  refine threaded.accounted sound ?_ fun start member =>
    (sound start member).elim fun _ sound => sound.accounted
  intro start member n number
  rw [silent start member] at number
  cases number

namespace Bus

/-!
### The moments of requests
-/

/-- The activities that requests start if they are made one after the other. -/
def starts : Bus ε ν → List (Request ε ν) → List (Activity ε ν)
  | _, [] => []
  | bus, request :: later => (request.start? bus).toList ++ starts (request.left bus) later

theorem moments_eq_starts (bus : Bus ε ν) (later : List (Request ε ν)) :
    bus.moments later = (bus.starts later).flatMap Activity.moments := by
  induction later generalizing bus with
  | nil => rfl
  | cons request later ih =>
      rw [moments, starts, List.flatMap_append, ih]
      cases request.start? bus with
      | none => rfl
      | some start => rw [Option.toList_some, List.flatMap_singleton]; rfl

theorem mem_starts_iff {bus : Bus ε ν} {later : List (Request ε ν)} {start : Activity ε ν} :
    start ∈ bus.starts later ↔ ∃ front request back, later = front ++ request :: back ∧
      request.start? (front.foldl Request.left bus) = some start := by
  constructor
  · intro member
    induction later generalizing bus with
    | nil => cases member
    | cons request later ih =>
        rcases List.mem_append.mp member with own | others
        · exact ⟨[], request, later, rfl, Option.mem_toList.mp own⟩
        · obtain ⟨front, other, back, rfl, started⟩ := ih others
          exact ⟨request :: front, other, back, rfl, started⟩
  · rintro ⟨front, request, back, rfl, started⟩
    induction front generalizing bus with
    | nil => exact List.mem_append_left _ (Option.mem_toList.mpr started)
    | cons first front ih => exact List.mem_append_right _ (ih started)

theorem moments_subset_of_starts {bus : Bus ε ν} {later : List (Request ε ν)} {start : Activity ε ν}
    (member : start ∈ bus.starts later) : start.moments ⊆ bus.moments later := by
  intro moment within
  rw [moments_eq_starts]
  exact List.mem_flatMap.mpr ⟨start, member, within⟩

/-- What is started among requests is started on the bus behind those before it. -/
theorem start_of_mem_starts {requests later : List (Request ε ν)} {start : Activity ε ν}
    (member : start ∈ (behind requests).starts later) :
    ∃ front request back, later = front ++ request :: back ∧
      request.start? (behind (requests ++ front)) = some start ∧
        start.bus = behind (requests ++ front) := by
  obtain ⟨front, request, back, split, started⟩ := mem_starts_iff.mp member
  rw [← behind_append] at started
  obtain ⟨same, -⟩ := Request.roomy started (keyed_behind (requests ++ front))
  exact ⟨front, request, back, split, started, same⟩

theorem moments_append (requests front back : List (Request ε ν)) :
    (behind requests).moments (front ++ back) =
      (behind requests).moments front ++ (behind (requests ++ front)).moments back := by
  rw [behind_append]
  generalize behind requests = bus
  induction front generalizing bus with
  | nil => rfl
  | cons request front ih =>
      rw [List.cons_append, moments, ih, moments, List.append_assoc]
      rfl

/-!
### What requests start
-/

/-- What a request starts leaves the timeline as the request does. -/
theorem threaded_start (bus : Bus ε ν) (request : Request ε ν) :
    Activity.Threaded (request.start? bus).toList bus.timeline (request.left bus).timeline := by
  have register (topic : String) (owner : Option String) (single : Bool)
      (listener : Listener ε ν) : (bus.tell joiningTopic (.joining topic)).1.timeline =
      (bus.register topic owner single listener).1.timeline := by
    unfold register
    rcases bus.tell joiningTopic (.joining topic) with ⟨told, failure | _⟩ <;> rfl
  cases request with
  | emit event | reset => exact ⟨rfl, rfl⟩
  | on topic owner listener | onAny owner listener | once topic owner listener =>
      exact ⟨rfl, register _ _ _ _⟩
  | off topic owner =>
      unfold Request.start? Request.left off
      dsimp only
      cases (bus.listeners topic).reverse.find? (·.owner == some owner) with
      | none => exact rfl
      | some latest => exact ⟨rfl, rfl⟩
  | since cursor | allow times => exact rfl

/-- A request finds the timeline as the one before it left it. -/
theorem threaded_starts (bus : Bus ε ν) (later : List (Request ε ν)) :
    Activity.Threaded (bus.starts later) bus.timeline (later.foldl Request.left bus).timeline := by
  induction later generalizing bus with
  | nil => exact rfl
  | cons request later ih => exact (threaded_start bus request).append (ih _)

omit [HasTopic ε] in
/-- What a request starts is an announcement, or that listeners hear of a registration that is about
to be made, or that a registration is taken off, or a reset. -/
theorem task_of_start {bus : Bus ε ν} {request : Request ε ν} {start : Activity ε ν}
    (started : request.start? bus = some start) :
    (∃ event, start.task = .announcing event) ∨
      (∃ topic, start.task = .telling joiningTopic (.joining topic)) ∨
      (∃ topic serial, start.task = .removing topic serial) ∨
      (request = .reset ∧ start.task = .resetting) := by
  cases request with
  | emit event =>
      cases started
      exact .inl ⟨event, rfl⟩
  | on topic owner listener | onAny owner listener | once topic owner listener =>
      cases started
      exact .inr (.inl ⟨_, rfl⟩)
  | off topic owner =>
      obtain ⟨latest, _, rfl⟩ := Option.map_eq_some_iff.mp started
      exact .inr (.inr (.inl ⟨_, _, rfl⟩))
  | reset =>
      cases started
      exact .inr (.inr (.inr ⟨rfl, rfl⟩))
  | since cursor | allow times => cases started

omit [HasTopic ε] in
/-- When a request starts, no registrations are still to hear something, and no listener is running. -/
theorem every_of_start {bus : Bus ε ν} {request : Request ε ν} {start : Activity ε ν}
    (started : request.start? bus = some start) {p : String → Registration ε ν → Prop}
    (listed : ∀ topic, ∀ r ∈ start.bus.listeners topic, p topic r) : start.Every p := by
  obtain ⟨depth, now, task⟩ := start
  rcases task_of_start started with ⟨event, rfl⟩ | ⟨topic, rfl⟩ | ⟨topic, serial, rfl⟩ | ⟨-, rfl⟩ <;>
    exact ⟨listed, nofun, nofun⟩

omit [HasTopic ε] in
/-- When a request starts, nothing is being delivered. -/
theorem number_of_start {bus : Bus ε ν} {request : Request ε ν} {start : Activity ε ν}
    (started : request.start? bus = some start) : start.number? = none := by
  obtain ⟨depth, now, task⟩ := start
  rcases task_of_start started with ⟨event, rfl⟩ | ⟨topic, rfl⟩ | ⟨topic, serial, rfl⟩ | ⟨-, rfl⟩ <;>
    rfl

theorem number_of_mem_starts {bus : Bus ε ν} {later : List (Request ε ν)} {start : Activity ε ν}
    (member : start ∈ bus.starts later) : start.number? = none := by
  obtain ⟨_, _, _, -, started⟩ := mem_starts_iff.mp member
  exact number_of_start started

/-- A request that is no reset starts a sound activity if no listener fails or resets the bus. -/
theorem sound_of_start {requests : List (Request ε ν)} {request : Request ε ν}
    {start : Activity ε ν} (started : request.start? (behind requests) = some start)
    (other : request ≠ .reset) (undisturbed : ∀ moment ∈ start.moments, moment.Undisturbed) :
    ∃ single, start.Sound single := by
  obtain ⟨single, marked⟩ := (ordered_behind requests).exists_marked
  obtain ⟨same, roomy⟩ := Request.roomy started (keyed_behind requests)
  have counted := counted_behind requests
  rw [← same] at marked counted
  have begun : start.task ≠ .resetting := by
    rcases task_of_start started with ⟨event, task⟩ | ⟨topic, task⟩ | ⟨topic, serial, task⟩ | ⟨own, -⟩
    · exact task ▸ nofun
    · exact task ▸ nofun
    · exact task ▸ nofun
    · exact absurd own other
  refine ⟨single, counted, roomy, every_of_start started marked, ?_, undisturbed, begun⟩
  intro n number
  rw [number_of_start started] at number
  cases number

/-- What starts among requests is sound if none of them is a reset and no listener fails or resets
the bus. -/
theorem sound_of_mem_starts {requests later : List (Request ε ν)} {start : Activity ε ν}
    (member : start ∈ (behind requests).starts later) (others : ∀ request ∈ later, request ≠ .reset)
    (undisturbed : ∀ moment ∈ (behind requests).moments later, moment.Undisturbed) :
    ∃ single, start.Sound single := by
  have within := moments_subset_of_starts member
  obtain ⟨front, request, back, rfl, started, -⟩ := start_of_mem_starts member
  exact sound_of_start started (others request (by simp)) fun moment among =>
    undisturbed moment (within among)

/-- What is begun by clearing all topics is sound, if no listener fails or resets the bus. -/
theorem sound_of_resetting {requests : List (Request ε ν)} {depth : Nat} {part : Activity ε ν}
    (step : Involves ⟨depth, behind requests, .resetting⟩ part)
    (roomy : Activity.Roomy ⟨depth, behind requests, .resetting⟩)
    (undisturbed : ∀ moment ∈ part.moments, moment.Undisturbed) : ∃ single, part.Sound single := by
  obtain ⟨single, marked⟩ := (ordered_behind requests).exists_marked
  cases step with
  | clear heeded =>
      exact ⟨single, .of_blank rfl rfl, roomy.involves (.clear heeded), ⟨marked, nofun, nofun⟩, nofun,
        undisturbed, nofun⟩

/-- Over requests without a reset each announcement is delivered to its audience, once to each. -/
theorem accounted_of_lasting (requests : List (Request ε ν)) {later : List (Request ε ν)}
    (others : ∀ request ∈ later, request ≠ .reset)
    (undisturbed : ∀ moment ∈ (behind requests).moments later, moment.Undisturbed) :
    Accounted ((behind requests).moments later) := by
  rw [moments_eq_starts]
  exact (threaded_starts _ later).accounted_anew
    (fun start member => sound_of_mem_starts member others undisturbed)
    fun start member => number_of_mem_starts member

theorem moments_reset (requests rest : List (Request ε ν)) :
    let start : Activity ε ν := ⟨(behind requests).depth, behind requests, .resetting⟩
    (behind requests).moments (.reset :: rest) =
      start :: (start.parts.flatMap Activity.moments ++
        (behind (requests ++ [.reset])).moments rest) := by
  intro start
  rw [behind_append, ← List.cons_append, ← Activity.moments_eq]
  rfl

/-- Over requests of which only the first one is a reset it is so, too: the numbers begin anew. -/
theorem accounted_of_reset (requests : List (Request ε ν)) {rest : List (Request ε ν)}
    (others : ∀ request ∈ rest, request ≠ .reset)
    (undisturbed : ∀ moment ∈ (behind requests).moments (.reset :: rest), moment.Undisturbed) :
    Accounted ((behind requests).moments (.reset :: rest)) := by
  let start : Activity ε ν := ⟨(behind requests).depth, behind requests, .resetting⟩
  have started : (Request.reset : Request ε ν).start? (behind requests) = some start := rfl
  have roomy : start.Roomy := (Request.roomy started (keyed_behind requests)).2
  have after : start.left = behind (requests ++ [.reset]) :=
    (behind_append requests [.reset]).symm
  rw [moments_reset] at undisturbed ⊢
  obtain ⟨-, undisturbed⟩ := List.forall_mem_cons.mp undisturbed
  obtain ⟨clearing, undisturbed⟩ := List.forall_mem_append.mp undisturbed
  -- the parts of the reset stand for it: they find the numbers that it begins with
  have threaded := start.threaded_parts
  rw [after] at threaded
  have sound : ∀ part ∈ start.parts, ∃ single, part.Sound single := fun part member =>
    sound_of_resetting (Activity.involves_iff.mpr member) roomy fun moment among =>
      clearing moment (List.mem_flatMap.mpr ⟨part, member, among⟩)
  have silent : ∀ part ∈ start.parts, part.number? = none := by
    intro part member
    have step : Involves ⟨_, behind requests, .resetting⟩ part := Activity.involves_iff.mpr member
    cases step with
    | clear => rfl
  have accounted := (threaded.append (threaded_starts _ rest)).accounted_anew
    (List.forall_mem_append.mpr ⟨sound, fun later member =>
      sound_of_mem_starts member others undisturbed⟩)
    (List.forall_mem_append.mpr ⟨silent, fun later member => number_of_mem_starts member⟩)
  rw [List.flatMap_append, ← moments_eq_starts] at accounted
  intro moment member event task
  rw [delivered_cons_of_none rfl]
  rcases List.mem_cons.mp member with rfl | later
  · cases task
  · exact accounted moment later event task

/-- Over requests of which only the first one may be a reset, each announcement is delivered to its
audience, once to each. -/
theorem accounted_moments (requests : List (Request ε ν)) {later : List (Request ε ν)}
    (others : ∀ request ∈ later.tail, request ≠ .reset)
    (undisturbed : ∀ moment ∈ (behind requests).moments later, moment.Undisturbed) :
    Accounted ((behind requests).moments later) := by
  cases later with
  | nil => exact accounted_of_lasting requests nofun undisturbed
  | cons request rest =>
      by_cases first : request = .reset
      · subst first
        exact accounted_of_reset requests others undisturbed
      · exact accounted_of_lasting requests (List.forall_mem_cons.mpr ⟨first, others⟩) undisturbed

/-- What is delivered was announced meanwhile. -/
theorem announced_of_moments {bus : Bus ε ν} {later : List (Request ε ν)} {moment : Activity ε ν}
    (member : moment ∈ bus.moments later) {delivery : Delivery ε ν} {n : Nat}
    (next : moment.delivery? = some delivery) (number : delivery.heard.number? = some n) :
    ∃ other ∈ bus.moments later, other.announced?.map Stamped.cursor = some n := by
  rw [moments_eq_starts] at member
  obtain ⟨start, here, within⟩ := List.mem_flatMap.mp member
  rcases Activity.announced_of_delivered within next number with own | ⟨other, among, announced⟩
  · rw [number_of_mem_starts here] at own
    cases own
  · exact ⟨other, moments_subset_of_starts here among, announced⟩

/-- If announcements are delivered to their audiences, what is delivered is delivered to the audience of
an announcement. -/
theorem origin_of_delivery {bus : Bus ε ν} {later : List (Request ε ν)}
    (accounted : Accounted (bus.moments later)) {moment : Activity ε ν}
    (member : moment ∈ bus.moments later) {delivery : Delivery ε ν} {stamped : Stamped ε}
    (next : moment.delivery? = some delivery) (heard : delivery.heard = .announced stamped) :
    ∃ origin ∈ bus.moments later, origin.announced? = some stamped ∧
      delivery ∈ origin.bus.audience stamped.event := by
  have number : delivery.heard.number? = some stamped.cursor := by rw [heard]; rfl
  obtain ⟨origin, among, announced⟩ := announced_of_moments member next number
  obtain ⟨begun, begins, same⟩ := Option.map_eq_some_iff.mp announced
  obtain ⟨depth, now, task⟩ := origin
  cases task with
  | announcing event =>
      cases begins
      have listed : delivery ∈ delivered now.cursor (bus.moments later) :=
        mem_delivered.mpr ⟨⟨moment, member, next⟩, by rw [number, ← same]⟩
      rw [accounted _ among event rfl] at listed
      have own := heard_of_audience listed
      rw [heard] at own
      obtain rfl := Heard.announced.inj own
      exact ⟨_, among, rfl, listed⟩
  | _ => cases begins

end Bus

end SuperCalls
