/-
Module: SuperCalls.Proofs.Bus.Registrations
Purpose: The registrations of a bus and their serials.  Whatever is done, registrations only go unless
  one is made, and each topic has them in the order in which they were made.  While no listener fails or
  resets the bus, what listeners hear of and what they do comes to an end without a failure, and nothing
  is lost but registrations that may go.
Main exports: Bus.kept_listeners, Bus.Ordered, Bus.ordered_behind, Bus.standing, Bus.Marked,
  Bus.Marked.standing_strike, Activity.Every, Activity.Undisturbed, Bus.Overlooks, Bus.overlooks_once,
  Activity.Completes, Activity.Sparing, Activity.completes
-/
import Mathlib.Data.List.Nodup
import SuperCalls.Proofs.Bus.Cursors
import SuperCalls.Proofs.Bus.MomentOrder

namespace SuperCalls

variable {ε ν α : Type}

namespace Bus

variable {bus : Bus ε ν}

/-!
### Registrations that go
-/

theorem listeners_of_topics {other : Bus ε ν} (same : other.topics = bus.topics) (topic : String) :
    other.listeners topic = bus.listeners topic := by
  unfold listeners
  rw [same]

theorem listeners_strike (bus : Bus ε ν) (topic other : String) (serial : Nat) :
    (bus.strike topic serial).listeners other =
      if other = topic then (bus.listeners topic).filter (·.serial != serial)
      else bus.listeners other :=
  bus.listeners_withListeners topic other _

theorem issued_of_spend? {less : Bus ε ν} {allowance : Nat}
    (spent : bus.spend? allowance = some less) : less.issued = bus.issued := by
  unfold spend? at spent
  split at spent
  · cases spent
    rfl
  · cases spent

/-- Listeners register nothing. -/
theorem kept_issued (issued : Nat) : Kept (fun _ => True) fun bus : Bus ε ν => bus.issued = issued where
  permits _ _ _ _ _ _ _ := trivial
  note _ same := same
  called _ same := same
  strike _ _ same := same
  forget _ _ same := same
  clear _ _ _ same := same
  clearAll _ _ same := same
  relay _ _ less same spent := by
    have still : less.issued = issued := (issued_of_spend? spent).trans same
    exact ⟨still, still⟩

/-- What holds of the registrations for each topic, and still does if some of them go, is kept by
whatever listeners do. -/
theorem kept_listeners {p : Nat → String → List (Registration ε ν) → Prop}
    (fewer : ∀ {issued topic members rest}, p issued topic members → rest.Sublist members →
      p issued topic rest) :
    Kept (fun _ => True)
      fun bus : Bus ε ν => ∀ topic, p bus.issued topic (bus.listeners topic) where
  permits _ _ _ _ _ _ _ := trivial
  note _ holds := holds
  called _ holds := holds
  strike topic serial holds other := by
    rw [listeners_strike]
    split
    · next same =>
        subst same
        exact fewer (holds other) List.filter_sublist
    · exact holds other
  forget _ _ holds := holds
  clear _ bus topic holds other := by
    rw [listeners_withListeners]
    split
    · exact fewer (holds other) (List.nil_sublist _)
    · exact holds other
  clearAll _ _ holds other := fewer (holds other) (List.nil_sublist _)
  relay _ bus less holds spent := by
    have still : ∀ topic, p less.issued topic (less.listeners topic) := by
      intro topic
      rw [issued_of_spend? spent, listeners_of_topics (load_of_spend? spent).2]
      exact holds topic
    exact ⟨still, still⟩

/-!
### The order of registrations
-/

/-- The registrations for each topic stand in the order of their serials, which are below the next
one. -/
def Ordered (bus : Bus ε ν) : Prop :=
  ∀ topic, ((bus.listeners topic).map Registration.serial ++ [bus.issued]).Pairwise (· < ·)

theorem kept_ordered : Kept (fun _ => True) (Ordered : Bus ε ν → Prop) :=
  kept_listeners
    (p := fun issued _ members => (members.map Registration.serial ++ [issued]).Pairwise (· < ·))
    fun ordered fewer => ordered.sublist ((fewer.map _).append_right _)

namespace Ordered

theorem pairwise (ordered : bus.Ordered) (topic : String) :
    (bus.listeners topic).Pairwise (·.serial < ·.serial) :=
  List.pairwise_map.mp (List.pairwise_append.mp (ordered topic)).1

theorem lt_issued (ordered : bus.Ordered) {topic : String} {r : Registration ε ν}
    (member : r ∈ bus.listeners topic) : r.serial < bus.issued :=
  (List.pairwise_append.mp (ordered topic)).2.2 _ (List.mem_map_of_mem member) _
    (List.mem_singleton_self _)

/-- A serial tells the registrations for a topic apart. -/
theorem eq_of_serial (ordered : bus.Ordered) {topic : String} {r other : Registration ε ν}
    (member : r ∈ bus.listeners topic) (also : other ∈ bus.listeners topic)
    (same : other.serial = r.serial) : other = r := by
  have serials : ((bus.listeners topic).map Registration.serial).Pairwise (· < ·) :=
    (List.pairwise_append.mp (ordered topic)).1
  exact List.inj_on_of_nodup_map (serials.imp Nat.ne_of_lt) also member same

theorem enrol (ordered : bus.Ordered) (topic : String) (owner : Option String) (single : Bool)
    (listener : Listener ε ν) : (bus.enrol topic owner single listener).Ordered := by
  intro other
  have issued : (bus.enrol topic owner single listener).issued = bus.issued + 1 := rfl
  have further {serials : List Nat} (before : (serials ++ [bus.issued]).Pairwise (· < ·)) :
      (serials ++ [bus.issued] ++ [bus.issued + 1]).Pairwise (· < ·) := by
    refine List.pairwise_append.mpr
      ⟨before, List.pairwise_singleton _ _, fun serial member last one => ?_⟩
    cases List.mem_singleton.mp one
    rcases List.mem_append.mp member with earlier | own
    · have below := (List.pairwise_append.mp before).2.2 serial earlier _ (List.mem_singleton_self _)
      exact Nat.lt_succ_of_lt below
    · cases List.mem_singleton.mp own
      exact Nat.lt_succ_self _
  rw [issued, listeners_enrol]
  split
  · rw [List.map_append]
    exact further (ordered topic)
  · refine (further (ordered other)).sublist ?_
    exact (List.sublist_append_left _ _).append_right _

end Ordered

theorem ordered_behind [HasTopic ε] (requests : List (Request ε ν)) : (behind requests).Ordered := by
  have begins : (empty : Bus ε ν).Ordered := fun topic => List.pairwise_singleton _ _
  refine List.foldlRecOn requests Request.left begins ?_
  intro bus ordered request _
  refine request.keeps kept_ordered (fun event ordered => ordered) ?_ ?_ ordered
  · exact fun topic owner single listener _ ordered => ordered.enrol topic owner single listener
  · exact fun _ ordered => ordered

/-!
### Registrations that stay
-/

/-- The registrations for a topic that are there to stay, in order. -/
def standing (bus : Bus ε ν) (topic : String) : List (Registration ε ν) :=
  (bus.listeners topic).filter fun r => !r.single

/-- Whether a registration is for one call can be told by its topic and its serial. -/
def Marked (single : String → Nat → Bool) (bus : Bus ε ν) : Prop :=
  ∀ topic, ∀ r ∈ bus.listeners topic, r.single = single topic r.serial

theorem kept_marked (single : String → Nat → Bool) :
    Kept (fun _ => True) (Marked single : Bus ε ν → Prop) :=
  kept_listeners (p := fun _ topic members => ∀ r ∈ members, r.single = single topic r.serial)
    fun marked fewer r member => marked r (fewer.subset member)

theorem Ordered.exists_marked (ordered : bus.Ordered) : ∃ single, bus.Marked single := by
  refine ⟨fun topic serial =>
    (bus.listeners topic).any fun r => r.serial == serial && r.single, fun topic r member => ?_⟩
  rw [Bool.eq_iff_iff, List.any_eq_true]
  constructor
  · intro single
    exact ⟨r, member, by simp [single]⟩
  · rintro ⟨other, also, found⟩
    obtain ⟨same, single⟩ := Bool.and_eq_true_iff.mp found
    rwa [ordered.eq_of_serial member also (eq_of_beq same)] at single

/-- When a registration for one call goes, those that are there to stay are left. -/
theorem Marked.standing_strike {single : String → Nat → Bool} (marked : bus.Marked single)
    {topic : String} {serial : Nat} (once : single topic serial = true) (other : String) :
    (bus.strike topic serial).standing other = bus.standing other := by
  unfold standing
  rw [listeners_strike]
  split
  · next same =>
      subst same
      rw [List.filter_filter]
      refine List.filter_congr fun r member => ?_
      rw [marked other r member]
      by_cases own : r.serial = serial
      · simp [own, once]
      · simp [own]
  · rfl

end Bus

/-!
### All registrations
-/

/-- Something holds of all registrations that there are, of those that are still to hear something, and
of the one whose listener is running. -/
structure Activity.Every (p : String → Registration ε ν → Prop) (activity : Activity ε ν) : Prop where
  listed : ∀ topic, ∀ r ∈ activity.bus.listeners topic, p topic r
  due : ∀ topic heard members, activity.task = .delivering topic heard members →
    ∀ r ∈ members, p topic r
  acting : ∀ actions, activity.task = .running actions →
    ∃ topic r heard, p topic r ∧ actions <:+ r.listener heard

namespace Activity.Every

variable [HasTopic ε] {p : String → Registration ε ν → Prop} {activity next : Activity ε ν}

theorem involves (every : activity.Every p) (step : Involves activity next) : next.Every p := by
  obtain ⟨listed, due, acting⟩ := every
  have kept := (Bus.kept_listeners (p := fun _ topic members => ∀ r ∈ members, p topic r)
    fun all fewer r member => all r (fewer.subset member)).involves step ⟨listed, fun _ _ => listed⟩
  have onward {topic heard r rest}
      (task : activity.task = .delivering topic heard (r :: rest)) : ∀ other ∈ rest, p topic other :=
    fun other member => due _ _ _ task other (List.mem_cons_of_mem _ member)
  have less {action rest} (task : activity.task = .running (action :: rest)) :
      ∃ topic r heard, p topic r ∧ rest <:+ r.listener heard := by
    obtain ⟨topic, r, heard, holds, suffix⟩ := acting _ task
    exact ⟨topic, r, heard, holds, (List.suffix_cons _ _).trans suffix⟩
  refine ⟨kept.1, ?_, ?_⟩
  · rintro topic heard members task
    cases step with
    | tell =>
        cases task
        exact listed topic
    | passOver | next =>
        cases task
        exact onward rfl
    | _ => cases task
  · rintro actions task
    cases step with
    | call =>
        cases task
        exact ⟨_, _, _, due _ _ _ rfl _ List.mem_cons_self, List.suffix_refl _⟩
    | note | afterReset | refrain | afterRelay =>
        cases task
        exact less rfl
    | _ => cases task

theorem during (every : activity.Every p) (run : During activity next) : next.Every p := by
  induction run with
  | refl => exact every
  | tail _ step ih => exact ih.involves step

end Activity.Every

namespace Bus

/-!
### Steps that no listener fails in
-/

section Succeeding

variable [HasTopic ε] {tell : Bus ε ν → String → Heard ε → Step ε ν Unit}
  {bus ready less told done : Bus ε ν}

theorem deliver_of_due {topic : String} {heard : Heard ε} {r : Registration ε ν}
    {rest : List (Registration ε ν)} {left : Bus ε ν}
    (due : (r.single && bus.spent.contains r.serial) = false)
    (claimed : bus.claim tell topic r = (ready, .ok ()))
    (performed : ready.perform tell (r.listener heard) = (done, .ok ()))
    (delivered : done.deliver tell topic heard rest = (left, .ok ())) :
    bus.deliver tell topic heard (r :: rest) = (left, .ok ()) := by
  rw [deliver, if_neg (Bool.eq_false_iff.mp due)]
  simp only [claimed, performed, delivered]

section Relaying

variable {allowance : Nat} {event : ε} {returned : Nat → ν} {rest : List (Action ε ν)}

theorem perform_of_refrain (spent : bus.spend? allowance = none)
    (performed : bus.perform tell rest = (done, .ok ())) :
    bus.perform tell (.relay allowance event returned :: rest) = (done, .ok ()) := by
  rw [perform, spent]
  exact performed

theorem perform_of_relay {cursor : Nat} (spent : bus.spend? allowance = some less)
    (announced : less.announce tell event = (told, .ok cursor))
    (performed : (told.note (returned cursor)).perform tell rest = (done, .ok ())) :
    bus.perform tell (.relay allowance event returned :: rest) = (done, .ok ()) := by
  rw [perform, spent]
  simp only [announced, performed]

end Relaying

theorem announce_of_told {event : ε}
    (first : tell (bus.append event) (HasTopic.topic event) (.announced ⟨bus.cursor, event⟩) =
      (told, .ok ()))
    (second : tell told anyTopic (.announced ⟨bus.cursor, event⟩) = (done, .ok ())) :
    bus.announce tell event = (done, .ok bus.cursor) := by
  unfold announce
  simp only [first, second]

end Succeeding

/-!
### Registrations that may go
-/

/-- Registrations that may go are not seen in a view of the bus.  Among those for heeded topics all that
are for one call may go. -/
structure Overlooks (order : Bus ε ν → Prop) (heeded : String → Prop) (mayGo : String → Nat → Prop)
    (view : Bus ε ν → α) : Prop where
  kept : Kept (fun _ => True) order
  topics : ∀ {bus other : Bus ε ν}, other.topics = bus.topics → view other = view bus
  strike : ∀ {bus : Bus ε ν} {topic : String} {serial : Nat}, order bus → mayGo topic serial →
    view (bus.strike topic serial) = view bus
  once : ∀ {bus : Bus ε ν} {topic : String} {r : Registration ε ν}, order bus → heeded topic →
    r ∈ bus.listeners topic → r.single = true → mayGo topic r.serial
  gone : heeded goneTopic

/-- Where registrations for one call go, those that are there to stay are left. -/
theorem overlooks_once (single : String → Nat → Bool) :
    Overlooks (Marked single : Bus ε ν → Prop) (fun _ => True)
      (fun topic serial => single topic serial = true) standing where
  kept := kept_marked single
  topics same := by
    funext topic
    unfold standing
    rw [listeners_of_topics same]
  strike marked goes := funext (marked.standing_strike goes)
  once marked _ member once := (marked _ _ member).symm.trans once
  gone := trivial

end Bus

namespace Activity

/-- A listener that is running neither fails nor resets the bus with its next action. -/
structure Undisturbed (activity : Activity ε ν) : Prop where
  calm : ∀ failure rest, activity.task ≠ .running (.raise failure :: rest)
  lasting : ∀ rest, activity.task ≠ .running (.reset :: rest)

variable [HasTopic ε]

theorem moments_subset {activity part : Activity ε ν} (member : part ∈ activity.parts) :
    part.moments ⊆ activity.moments := by
  intro moment within
  rw [moments_eq]
  exact List.mem_cons_of_mem _ (List.mem_flatMap.mpr ⟨part, member, within⟩)

theorem self_mem_moments (activity : Activity ε ν) : activity ∈ activity.moments := by
  rw [moments_eq]
  exact List.mem_cons_self

/-!
### Coming to an end
-/

/-- What listeners hear of or do comes to an end without a failure. -/
def Completes : Activity ε ν → Bus ε ν → Prop
  | ⟨depth, bus, .telling topic heard⟩, done => bus.tellWithin depth topic heard = (done, .ok ())
  | ⟨depth, bus, .delivering topic heard members⟩, done =>
      bus.deliver (Bus.tellWithin depth) topic heard members = (done, .ok ())
  | ⟨depth, bus, .running actions⟩, done =>
      bus.perform (Bus.tellWithin depth) actions = (done, .ok ())
  | ⟨depth, bus, .announcing event⟩, done =>
      bus.announce (Bus.tellWithin depth) event = (done, .ok bus.cursor)
  | ⟨depth, bus, .removing topic serial⟩, done =>
      bus.remove (Bus.tellWithin depth) topic serial = (done, .ok ())
  | _, _ => False

omit [HasTopic ε] in
/-- Listeners of heeded topics hear of something, or listeners do something, and no registrations go but
those that may. -/
inductive Sparing (heeded : String → Prop) (mayGo : String → Nat → Prop) : Activity ε ν → Prop where
  | telling {depth bus topic heard} (heeds : heeded topic) :
      Sparing heeded mayGo ⟨depth, bus, .telling topic heard⟩
  | delivering {depth bus topic heard members}
      (once : ∀ r ∈ members, r.single = true → mayGo topic r.serial) :
      Sparing heeded mayGo ⟨depth, bus, .delivering topic heard members⟩
  | running {depth bus actions} : Sparing heeded mayGo ⟨depth, bus, .running actions⟩
  | announcing {depth bus event} : Sparing heeded mayGo ⟨depth, bus, .announcing event⟩
  | removing {depth bus topic serial} (goes : mayGo topic serial) :
      Sparing heeded mayGo ⟨depth, bus, .removing topic serial⟩

/-- If no listener fails or resets the bus and only heeded topics hear of announcements, an activity
comes to an end, and it is not seen which registrations went. -/
theorem completes {order : Bus ε ν → Prop} {heeded : String → Prop} {mayGo : String → Nat → Prop}
    {view : Bus ε ν → α} (overlooks : Bus.Overlooks order heeded mayGo view) (activity : Activity ε ν)
    (undisturbed : ∀ moment ∈ activity.moments, moment.Undisturbed)
    (heeds : ∀ moment ∈ activity.moments, ∀ event, moment.task = .announcing event →
      heeded (HasTopic.topic event) ∧ heeded Bus.anyTopic)
    (ordered : order activity.bus) (appended : ∀ event, activity.task = .announcing event →
      order (activity.bus.append event))
    (sparing : activity.Sparing heeded mayGo) :
    ∃ done, activity.Completes done ∧ view done = view activity.bus := by
  induction activity using parts_induction with
  | step activity ih =>
  -- a part of it comes to an end, too
  have part {next : Activity ε ν} (step : Involves activity next)
      (sparing : next.Sparing heeded mayGo) := by
    have within := moments_subset (involves_iff.mp step)
    have kept := overlooks.kept.involves step ⟨ordered, appended⟩
    exact ih next (involves_iff.mp step) (fun moment member => undisturbed moment (within member))
      (fun moment member => heeds moment (within member)) kept.1 kept.2 sparing
  have own := undisturbed activity activity.self_mem_moments
  cases sparing with
  | @telling depth bus topic heard heeded =>
      cases depth with
      | zero => exact ⟨bus, rfl, rfl⟩
      | succ depth =>
          obtain ⟨done, told, unseen⟩ := part .tell
            (.delivering fun r member once => overlooks.once ordered heeded member once)
          exact ⟨done, told, unseen⟩
  | @delivering depth bus topic heard members once =>
      cases members with
      | nil => exact ⟨bus, rfl, rfl⟩
      | cons r rest =>
          obtain ⟨goes, others⟩ := List.forall_mem_cons.mp once
          cases due : r.single && bus.spent.contains r.serial with
          | true =>
              obtain ⟨done, delivered, unseen⟩ := part (.passOver due) (.delivering others)
              exact ⟨done, (if_pos due).trans delivered, unseen⟩
          | false =>
              obtain ⟨ready, claimed, first⟩ : ∃ ready,
                  bus.claim (Bus.tellWithin depth) topic r = (ready, .ok ()) ∧
                    view ready = view bus := by
                unfold Bus.claim
                split
                · next single =>
                    obtain ⟨ready, removed, unseen⟩ :=
                      part (.claim due single) (.removing (goes single))
                    exact ⟨ready, removed, unseen.trans (overlooks.topics rfl)⟩
                · exact ⟨bus, rfl, rfl⟩
              obtain ⟨done, performed, second⟩ := part (.call due claimed) .running
              obtain ⟨left, delivered, third⟩ :=
                part (.next due claimed performed) (.delivering others)
              exact ⟨left, Bus.deliver_of_due due claimed performed delivered,
                third.trans (second.trans first)⟩
  | @running depth bus actions =>
      cases actions with
      | nil => exact ⟨bus, rfl, rfl⟩
      | cons action rest =>
          cases action with
          | note n =>
              obtain ⟨done, performed, unseen⟩ := part .note .running
              exact ⟨done, performed, unseen.trans (overlooks.topics rfl)⟩
          | raise failure => exact absurd rfl (own.calm failure rest)
          | reset => exact absurd rfl (own.lasting rest)
          | relay allowance event returned =>
              cases spent : bus.spend? allowance with
              | none =>
                  obtain ⟨done, performed, unseen⟩ := part (.refrain spent) .running
                  exact ⟨done, Bus.perform_of_refrain spent performed, unseen⟩
              | some less =>
                  obtain ⟨told, announced, first⟩ := part (.relay spent) .announcing
                  obtain ⟨done, performed, second⟩ := part (.afterRelay spent announced) .running
                  have noted : view (told.note (returned less.cursor)) = view told :=
                    overlooks.topics rfl
                  have fewer : view less = view bus := overlooks.topics (Bus.load_of_spend? spent).2
                  exact ⟨done, Bus.perform_of_relay spent announced performed,
                    second.trans (noted.trans (first.trans fewer))⟩
  | @announcing depth bus event =>
      obtain ⟨topic, any⟩ := heeds _ (self_mem_moments _) event rfl
      obtain ⟨told, first, kept⟩ := part .announce (.telling topic)
      obtain ⟨done, second, stay⟩ := part (.announceAny first) (.telling any)
      exact ⟨done, Bus.announce_of_told first second, stay.trans (kept.trans (overlooks.topics rfl))⟩
  | @removing depth bus topic serial goes =>
      cases there : (bus.listeners topic).any (·.serial == serial) with
      | false => exact ⟨bus, if_neg (Bool.eq_false_iff.mp there), rfl⟩
      | true =>
          obtain ⟨done, told, unseen⟩ := part (.remove there) (.telling overlooks.gone)
          exact ⟨done, (if_pos there).trans told,
            unseen.trans (overlooks.strike ordered goes)⟩

end Activity

end SuperCalls
