/-
Module: SuperCalls.Proofs.Bus.Cursors
Purpose: The numbers on the timeline.  Announcements are numbered from zero on without a gap,
  whatever was done on the bus before, and at every moment of what is being done, however deep it is
  nested and wherever a listener fails.
Main exports: Bus.Counted, Bus.Request, Bus.behind, counted_throughout
-/
import SuperCalls.Proofs.Bus.Moments

namespace SuperCalls

variable {ε ν : Type}

namespace Bus

/-- The entries of the timeline carry the numbers from zero on, in order, the announcements in them
carry the same numbers, and the next number is the one behind them. -/
structure Counted (bus : Bus ε ν) : Prop where
  numbers : bus.timeline.map TimelineEntry.cursor = List.range bus.timeline.length
  stamps : ∀ entry ∈ bus.timeline, entry.event.cursor = entry.cursor
  next : bus.cursor = bus.timeline.length

/-- A bus with an empty timeline starts from zero. -/
theorem Counted.of_blank {bus : Bus ε ν} (blank : bus.timeline = []) (start : bus.cursor = 0) :
    bus.Counted where
  numbers := by
    rw [blank]
    rfl
  stamps := by
    rw [blank]
    exact fun _ member => absurd member List.not_mem_nil
  next := by rw [start, blank]; rfl

theorem Counted.append {bus : Bus ε ν} (counted : bus.Counted) (event : ε) :
    (bus.append event).Counted where
  numbers := by
    unfold Bus.append
    rw [List.map_append, counted.numbers, List.length_append, List.length_singleton,
      List.range_succ, List.map_singleton, counted.next]
  stamps := by
    intro entry member
    rcases List.mem_append.mp member with earlier | last
    · exact counted.stamps entry earlier
    · rw [List.mem_singleton.mp last]
  next := by
    unfold Bus.append
    rw [List.length_append, List.length_singleton, counted.next]

/-- What changes the numbering is an announcement, or forgetting all. -/
theorem kept_counted : Kept (fun _ => True) (Counted : Bus ε ν → Prop) where
  permits _ _ _ _ _ _ _ := trivial
  note _ counted := ⟨counted.numbers, counted.stamps, counted.next⟩
  called _ counted := ⟨counted.numbers, counted.stamps, counted.next⟩
  strike _ _ counted := ⟨counted.numbers, counted.stamps, counted.next⟩
  forget _ _ _ := .of_blank rfl rfl
  clear _ _ _ counted := ⟨counted.numbers, counted.stamps, counted.next⟩
  clearAll _ _ counted := ⟨counted.numbers, counted.stamps, counted.next⟩
  relay _ bus less counted spent := by
    have still : less.Counted := by
      unfold spend? at spent
      split at spent
      · cases spent
        exact ⟨counted.numbers, counted.stamps, counted.next⟩
      · cases spent
    exact ⟨still, still.append _⟩

variable [HasTopic ε]

/-!
### Requests
-/

/-- What can be asked of a bus from outside. -/
inductive Request (ε ν : Type) where
  | emit (event : ε)
  | on (topic : String) (owner : Option String) (listener : Listener ε ν)
  | onAny (owner : Option String) (listener : Listener ε ν)
  | once (topic : String) (owner : Option String) (listener : Listener ε ν)
  | off (topic owner : String)
  | since (cursor : Int)
  | reset
  /-- Let a listener that is still to be registered relay a number of times. -/
  | allow (times : Nat)

namespace Request

/-- The bus that a request leaves, also where a listener fails. -/
def left (bus : Bus ε ν) : Request ε ν → Bus ε ν
  | emit event => (bus.emit event).1
  | on topic owner listener => (bus.on topic owner listener).1
  | onAny owner listener => (bus.onAny owner listener).1
  | once topic owner listener => (bus.once topic owner listener).1
  | off topic owner => (bus.off topic owner).1
  | since _ => bus
  | reset => bus.reset.1
  | allow times => (bus.allow times).1

/-- The listener that a request registers. -/
def listener? : Request ε ν → Option (Listener ε ν)
  | on _ _ listener | onAny _ listener | once _ _ listener => some listener
  | emit _ | off _ _ | since _ | reset | allow _ => none

/-- The activity that a request starts, if listeners can hear of it. -/
def start? (bus : Bus ε ν) : Request ε ν → Option (Activity ε ν)
  | emit event => some ⟨bus.depth, bus, .announcing event⟩
  | on topic .. | once topic .. =>
      some ⟨bus.depth, bus, .telling Bus.joiningTopic (.joining topic)⟩
  | onAny .. => some ⟨bus.depth, bus, .telling Bus.joiningTopic (.joining Bus.anyTopic)⟩
  | off topic owner =>
      ((bus.listeners topic).reverse.find? (·.owner == some owner)).map fun latest =>
        ⟨bus.depth, bus, .removing topic latest.serial⟩
  | reset => some ⟨bus.depth, bus, .resetting⟩
  | since _ | allow _ => none

/-- What is kept by listeners, and by announcing and registering, is kept by requests. -/
theorem keeps {property : Bus ε ν → Prop} (kept : Bus.Kept (fun _ => True) property)
    (request : Request ε ν)
    (append : ∀ {bus : Bus ε ν} (event : ε), property bus → property (bus.append event))
    (enrol : ∀ {bus : Bus ε ν} (topic : String) (owner : Option String) (single : Bool)
      (listener : Listener ε ν), request.listener? = some listener → property bus →
        property (bus.enrol topic owner single listener))
    (allow : ∀ {bus : Bus ε ν} (times : Nat), property bus → property (bus.allow times).1)
    {bus : Bus ε ν} (holds : property bus) : property (request.left bus) := by
  have register (topic : String) (owner : Option String) (single : Bool)
      (listener : Listener ε ν) (own : request.listener? = some listener) :
      property (bus.register topic owner single listener).1 := by
    have told := kept.tellWithin bus.depth Bus.joiningTopic (.joining topic) holds
    unfold Bus.register Bus.tell
    generalize Bus.tellWithin bus.depth bus _ _ = step at told ⊢
    rcases step with ⟨told, failure | _⟩
    · assumption
    · exact enrol topic owner single listener own ‹_›
  cases request with
  | emit event => exact kept.emit (append event holds)
  | on topic owner listener | onAny owner listener | once topic owner listener =>
      exact register _ _ _ _ rfl
  | off topic owner =>
      unfold left Bus.off
      dsimp only
      split
      · exact kept.remove (kept.tellWithin bus.depth) topic _ holds
      · exact holds
  | since cursor => exact holds
  | reset => exact kept.resetWith (kept.tellWithin bus.depth) trivial holds
  | allow times => exact allow times holds

omit [HasTopic ε] in
/-- A request starts with room for what listeners can do. -/
theorem roomy {request : Request ε ν} {bus : Bus ε ν} {start : Activity ε ν}
    (started : request.start? bus = some start) (keyed : bus.Keyed) :
    start.bus = bus ∧ start.Roomy := by
  have below : bus.load < bus.depth := Nat.lt_succ_self _
  cases request with
  | emit event | on topic owner listener | onAny owner listener | once topic owner listener =>
      cases started
      exact ⟨rfl, keyed, below⟩
  | off topic owner =>
      obtain ⟨latest, _, rfl⟩ := Option.map_eq_some_iff.mp started
      exact ⟨rfl, keyed, Nat.le_of_lt below⟩
  | reset =>
      cases started
      exact ⟨rfl, keyed, Nat.le_of_lt below⟩
  | since cursor | allow times => cases started

end Request

/-- The bus behind a sequence of requests to an empty one. -/
def behind (requests : List (Request ε ν)) : Bus ε ν :=
  requests.foldl Request.left empty

theorem counted_behind (requests : List (Request ε ν)) : (behind requests).Counted := by
  refine List.foldlRecOn requests Request.left (motive := Counted) (.of_blank rfl rfl) ?_
  intro bus counted request _
  refine request.keeps kept_counted (fun event counted => counted.append event) ?_ ?_ counted
  · exact fun _ _ _ _ _ counted => ⟨counted.numbers, counted.stamps, counted.next⟩
  · exact fun _ counted => ⟨counted.numbers, counted.stamps, counted.next⟩

theorem keyed_behind (requests : List (Request ε ν)) : (behind requests).Keyed := by
  refine List.foldlRecOn requests Request.left (motive := Keyed) List.nodup_nil ?_
  intro bus keyed request _
  refine request.keeps kept_keyed (fun event keyed => keyed) ?_ ?_ keyed
  · exact fun topic _ _ _ _ keyed => keyed.withListeners topic _
  · exact fun _ keyed => keyed

end Bus

variable [HasTopic ε]

open Bus (Request)

/-- After any requests the entries of the timeline carry the numbers from zero on, so do the
announcements in them, and the next number is their count.  So it is at every moment of a further
request, where listeners announce, reset and fail at any depth, and the bound on that depth is never
reached.  An announcement goes on the timeline under the next number, and this is the number that
everybody hears it with. -/
theorem counted_throughout (requests : List (Request ε ν)) :
    let bus := Bus.behind requests
    bus.Counted ∧ ∀ (request : Request ε ν) (start moment : Activity ε ν),
      request.start? bus = some start → During start moment →
        moment.bus.Counted ∧
          (∀ topic heard, moment.task = .telling topic heard → moment.depth ≠ 0) ∧
          ∀ event, moment.task = .announcing event →
            (moment.bus.append event).timeline =
                moment.bus.timeline ++
                  [⟨moment.bus.timeline.length, moment.bus.timeline.length, event⟩] ∧
              ∀ part, Involves moment part → ∃ topic,
                part.task = .telling topic
                  (.announced ⟨moment.bus.timeline.length, event⟩) := by
  intro bus
  have counted : bus.Counted := Bus.counted_behind requests
  refine ⟨counted, fun request start moment started run => ?_⟩
  obtain ⟨same, roomy⟩ := Request.roomy started (Bus.keyed_behind requests)
  have begun : start.bus.Counted := by
    rw [same]
    exact counted
  have here := (Bus.kept_counted.during run ⟨begun, fun event _ => begun.append event⟩).1
  obtain ⟨depth, now, task⟩ := moment
  refine ⟨here, ?_, ?_⟩
  · rintro topic heard rfl
    exact (roomy.during run).depth_ne_zero
  · rintro event rfl
    have next : now.cursor = now.timeline.length := here.next
    refine ⟨?_, fun part step => ?_⟩
    · rw [← next]
      rfl
    · rw [← next]
      cases step with
      | announce | announceAny => exact ⟨_, rfl⟩

/-- A listener to fixes announces something in turn; the listener to that has reset the bus and is
about to fail. -/
theorem counted_throughout_nested :
    let failure : Failure := .plain .error "no"
    let requests : List (Request Event Nat) :=
      [.emit (.skipped "a"), .allow 1,
        .on Event.fixedTopic none fun _ => [.relay 0 (.skipped "b") id],
        .on Event.skippedTopic none fun _ => [.reset, .raise failure]]
    let bus := Bus.behind requests
    bus.cursor = 1 ∧ ∃ start moment,
      (Request.emit (.fixed "a" [] false)).start? bus = some start ∧ During start moment ∧
        moment.task = .running [.raise failure] ∧ moment.bus.Counted ∧ moment.bus.cursor = 0 := by
  intro failure requests bus
  let told := bus.append (.fixed "a" [] false)
  have relaying : told.listeners Event.fixedTopic =
      [⟨0, none, false, fun _ => [.relay 0 (.skipped "b") id]⟩] := rfl
  let relayed := Bus.append { told with allowances := [0] } (.skipped "b")
  have resetting : relayed.listeners Event.skippedTopic =
      [⟨1, none, false, fun _ => [.reset, .raise failure]⟩] := rfl
  let cleared := (relayed.resetWith (Bus.tellWithin 2)).1
  have reset : relayed.resetWith (Bus.tellWithin 2) = (cleared, .ok ()) := rfl
  have run : During ⟨4, bus, .announcing (.fixed "a" [] false)⟩
      ⟨2, cleared, .running [.raise failure]⟩ := by
    refine .head .announce (.trans (During.first relaying rfl) ?_)
    refine .head (.relay rfl) (.head .announce (.trans (During.first resetting rfl) ?_))
    exact .single (.afterReset reset)
  have started : (Request.emit (.fixed "a" [] false)).start? bus =
      some ⟨4, bus, .announcing (.fixed "a" [] false)⟩ := rfl
  exact ⟨rfl, _, _, started, run, rfl,
    ((counted_throughout requests).2 _ _ _ started run).1, rfl⟩

end SuperCalls
