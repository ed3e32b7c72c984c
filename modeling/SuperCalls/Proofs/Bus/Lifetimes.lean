/-
Module: SuperCalls.Proofs.Bus.Lifetimes
Purpose: How long registrations last.  A serial is issued once, so over requests that are made one after
  the other a registration that is gone stays gone, and one that is there in the end was there all
  along.  While listeners neither announce anything nor fail, a reset empties every topic but the one of
  those who hear what it takes off, whether or not it comes to an end.
Main exports: Activity.Idle, Activity.Quiet, Activity.announced_moments, Bus.listeners_resetWith,
  Bus.kept_moments, Bus.every_of_mem_moments, Listener.Gentle, Listener.Silent,
  Bus.undisturbed_of_gentle, Bus.idle_of_silent, Bus.Known, Bus.known_behind, Bus.listed_before
-/
import SuperCalls.Proofs.Bus.Registrations
import SuperCalls.Proofs.Bus.Requests
import SuperCalls.Proofs.Bus.Timeline

namespace SuperCalls

variable {ε ν : Type} [HasTopic ε]

namespace Activity

omit [HasTopic ε] in
/-- A listener that is running does not announce anything next. -/
def Idle (activity : Activity ε ν) : Prop :=
  ∀ allowance event returned rest,
    activity.task = .running (.relay allowance event returned :: rest) →
      activity.bus.spend? allowance = none

/-- In the course of an activity listeners neither announce anything nor fail nor reset the bus. -/
structure Quiet (activity : Activity ε ν) : Prop where
  undisturbed : ∀ moment ∈ activity.moments, moment.Undisturbed
  idle : ∀ moment ∈ activity.moments, moment.Idle

/-- If listeners announce nothing, nothing is announced but what an activity begins with. -/
theorem announced_moments {activity : Activity ε ν} (idle : ∀ moment ∈ activity.moments, moment.Idle) :
    activity.moments.filterMap announced? = activity.announced?.toList := by
  induction activity using parts_induction with
  | step activity ih =>
  have own := idle activity activity.self_mem_moments
  have later : (activity.parts.flatMap moments).filterMap announced? = [] := by
    rw [List.filterMap_flatMap]
    refine List.flatMap_eq_nil_iff.mpr fun part here => ?_
    rw [ih part here fun moment within => idle moment (moments_subset here within)]
    cases involves_iff.mpr here with
    | relay spent =>
        have refrains := own _ _ _ _ rfl
        rw [spent] at refrains
        cases refrains
    | _ => rfl
  rw [moments_eq, List.filterMap_cons, later]
  cases activity.announced? <;> rfl

/-- If listeners announce nothing, what is announced is what an activity begins with. -/
theorem announced_of_idle {activity moment : Activity ε ν}
    (idle : ∀ moment ∈ activity.moments, moment.Idle) (member : moment ∈ activity.moments)
    {stamped : Stamped ε} (announced : moment.announced? = some stamped) :
    activity.announced? = some stamped := by
  have found := List.mem_filterMap.mpr ⟨moment, member, announced⟩
  rwa [announced_moments idle, Option.mem_toList] at found

theorem Quiet.part {activity next : Activity ε ν} (quiet : activity.Quiet)
    (step : Involves activity next) : next.Quiet := by
  have within := moments_subset (involves_iff.mp step)
  exact ⟨fun moment member => quiet.undisturbed moment (within member),
    fun moment member => quiet.idle moment (within member)⟩

end Activity

namespace Bus

open Activity (Quiet)

variable {bus : Bus ε ν} {depth : Nat} {topic : String}

/-- The listeners of the other topics than the one that tells of registrations that were taken off. -/
def others (bus : Bus ε ν) (topic : { topic : String // topic ≠ goneTopic }) :
    List (Registration ε ν) :=
  bus.listeners topic

omit [HasTopic ε] in
theorem overlooks_gone :
    Overlooks (fun _ => True) (· = goneTopic) (fun topic _ => topic = goneTopic)
      (others : Bus ε ν → _) where
  kept := by constructor <;> intros <;> trivial
  topics same := funext fun topic => listeners_of_topics same topic.val
  strike _ gone := by
    subst gone
    funext topic
    exact (listeners_strike _ _ _ _).trans (if_neg topic.property)
  once _ gone _ _ := gone
  gone := rfl

/-- Those who are told of a registration that was taken off leave the other topics as they are. -/
theorem tellWithin_gone {heard : Heard ε} (quiet : Quiet ⟨depth, bus, .telling goneTopic heard⟩) :
    ∃ done, bus.tellWithin depth goneTopic heard = (done, .ok ()) ∧
      ∀ topic, topic ≠ goneTopic → done.listeners topic = bus.listeners topic := by
  have unannounced : ∀ moment ∈ Activity.moments ⟨depth, bus, .telling goneTopic heard⟩,
      ∀ event, moment.task ≠ .announcing event := by
    rintro ⟨within, now, _⟩ member event rfl
    cases Activity.announced_of_idle quiet.idle member rfl
  obtain ⟨done, told, same⟩ := Activity.completes overlooks_gone _ quiet.undisturbed
    (fun moment member event task => absurd task (unannounced moment member event))
    trivial (fun _ _ => trivial) (.telling rfl)
  exact ⟨done, told, fun topic other => congrFun same ⟨topic, other⟩⟩

omit [HasTopic ε] in
theorem mem_topics_of_listeners {r : Registration ε ν} (member : r ∈ bus.listeners topic) :
    topic ∈ bus.topics.map (·.1) := by
  unfold listeners Record.get? at member
  cases found : bus.topics.find? (·.1 == topic) with
  | none =>
      rw [found] at member
      cases member
  | some entry =>
      have own : entry.1 = topic := by simpa using List.find?_some found
      exact own ▸ List.mem_map_of_mem (List.mem_of_find?_eq_some found)

omit [HasTopic ε] in
/-- A topic without listeners has none unless one is registered. -/
theorem kept_empty (topic : String) :
    Kept (fun _ => True) fun bus : Bus ε ν => ∀ other, other = topic → bus.listeners other = [] :=
  kept_listeners (p := fun _ other members => other = topic → members = [])
    fun empty fewer own => List.eq_nil_of_sublist_nil (empty own ▸ fewer)

/-- A topic is emptied. -/
theorem removeLatest_gone (other : topic ≠ goneTopic) {left : Nat} (ordered : bus.Ordered)
    (all : (bus.listeners topic).length = left) (quiet : Quiet ⟨depth, bus, .emptying topic left⟩) :
    ∃ done, bus.removeLatest (tellWithin depth) topic left = (done, .ok ()) ∧
      done.listeners topic = [] := by
  induction left generalizing bus with
  | zero => exact ⟨bus, rfl, List.length_eq_zero_iff.mp all⟩
  | succ left ih =>
      obtain ⟨front, latest, listed⟩ : ∃ front latest, bus.listeners topic = front ++ [latest] := by
        refine (List.eq_nil_or_concat' _).resolve_left fun none => ?_
        rw [none] at all
        cases all
      have last : (bus.listeners topic).getLast? = some latest := by simp [listed]
      have there : (bus.listeners topic).any (·.serial == latest.serial) = true := by simp [listed]
      obtain ⟨told, tells, same⟩ :=
        tellWithin_gone ((quiet.part (.emptyLatest last all)).part (.remove there))
      have removed : bus.remove (tellWithin depth) topic latest.serial = (told, .ok ()) :=
        (if_pos there).trans tells
      have struck : told.listeners topic = front := by
        have apart := ordered.pairwise topic
        rw [listed] at apart
        rw [same topic other, listeners_strike, if_pos rfl, listed, List.filter_append,
          List.filter_cons_of_neg (by simp), List.filter_nil, List.append_nil]
        refine List.filter_eq_self.mpr fun r member => ?_
        have before := (List.pairwise_append.mp apart).2.2 r member latest (List.mem_singleton_self _)
        exact bne_iff_ne.mpr (Nat.ne_of_lt before)
      have still : told.Ordered := Kept.holds_of_eq removed
        (kept_ordered.remove (kept_ordered.tellWithin depth) topic latest.serial ordered)
      obtain ⟨done, emptied, empty⟩ := ih still
        (by rw [struck]; rw [listed, List.length_append] at all; exact Nat.succ.inj all)
        (quiet.part (.emptyNext last all removed))
      refine ⟨done, ?_, empty⟩
      unfold removeLatest
      simp only [last, all, if_true, removed]
      exact emptied

/-- The topics are emptied one after the other, whatever comes behind them. -/
theorem clearAll_gone {topics rest : List String} (others : ∀ topic ∈ topics, topic ≠ goneTopic)
    (ordered : bus.Ordered) (quiet : Quiet ⟨depth, bus, .clearing (topics ++ rest)⟩)
    (member : topic ∈ topics) :
    (bus.clearAll (tellWithin depth) (topics ++ rest)).1.listeners topic = [] := by
  induction topics generalizing bus with
  | nil => cases member
  | cons first topics ih =>
      obtain ⟨done, cleared, empty⟩ : ∃ done,
          bus.clear (tellWithin depth) first = (done, .ok ()) ∧ done.listeners first = [] := by
        unfold clear
        split
        · exact ⟨_, rfl, (listeners_withListeners _ _ _ _).trans (if_pos rfl)⟩
        · next heeded =>
            exact removeLatest_gone (others first List.mem_cons_self) ordered rfl
              (quiet.part (.clearTopic (Bool.eq_false_iff.mpr heeded)))
      have later : bus.clearAll (tellWithin depth) (first :: topics ++ rest) =
          done.clearAll (tellWithin depth) (topics ++ rest) := by
        rw [List.cons_append, clearAll, cleared]
      rw [later]
      by_cases own : topic = first
      · have before : ∀ other, other = topic → done.listeners other = [] :=
          fun other same => by rw [same, own, empty]
        exact (kept_empty topic).clearTopics ((kept_empty topic).tellWithin depth) trivial
          (topics ++ rest) before topic rfl
      · have still : done.Ordered := Kept.holds_of_eq cleared
          (kept_ordered.clearTopic (kept_ordered.tellWithin depth) trivial first ordered)
        exact ih (fun other listed => others other (List.mem_cons_of_mem _ listed)) still
          (quiet.part (.clearNext cleared)) ((List.mem_cons.mp member).resolve_left own)

/-- A reset takes off all listeners but those who hear of registrations that were taken off, whether or
not it comes to an end. -/
theorem listeners_resetWith (other : topic ≠ goneTopic) (ordered : bus.Ordered)
    (quiet : Quiet ⟨depth, bus, .resetting⟩) :
    (bus.resetWith (tellWithin depth)).1.listeners topic = [] := by
  cases listed : bus.listeners topic with
  | nil =>
      have before : ∀ other, other = topic → bus.listeners other = [] :=
        fun other same => by rw [same, listed]
      exact (kept_empty topic).resetWith ((kept_empty topic).tellWithin depth) trivial before topic rfl
  | cons r members =>
      unfold resetWith
      dsimp only
      split
      · rfl
      · next heeded =>
          have key : topic ∈ bus.forget.topics.map (·.1) :=
            mem_topics_of_listeners (show r ∈ bus.listeners topic from listed ▸ List.mem_cons_self)
          have among : topic ∈ (bus.forget.topics.map (·.1)).filter (· != goneTopic) :=
            List.mem_filter.mpr ⟨key, bne_iff_ne.mpr other⟩
          have forgotten : bus.forget.Ordered := ordered
          have cleared := clearAll_gone
            (fun topic listed => bne_iff_ne.mp (List.mem_filter.mp listed).2) forgotten
            (quiet.part (.clear (Bool.eq_false_iff.mpr heeded))) among
          generalize bus.forget.clearAll _ _ = step at cleared ⊢
          rcases step with ⟨done, failure | _⟩
          · exact cleared
          · rfl

end Bus

namespace Bus

/-!
### The moments of requests
-/

/-- What is kept by listeners and holds behind all requests holds at all their moments. -/
theorem kept_moments {property : Bus ε ν → Prop} (kept : Kept (fun _ => True) property)
    (append : ∀ {bus : Bus ε ν} (event : ε), property bus → property (bus.append event))
    (holds : ∀ requests : List (Request ε ν), property (behind requests))
    {requests later : List (Request ε ν)} {moment : Activity ε ν}
    (member : moment ∈ (behind requests).moments later) : property moment.bus := by
  rw [moments_eq_starts] at member
  obtain ⟨start, here, within⟩ := List.mem_flatMap.mp member
  obtain ⟨front, request, back, -, -, same⟩ := start_of_mem_starts here
  have begun : property start.bus := same ▸ holds (requests ++ front)
  exact (kept.during (Activity.mem_moments_iff.mp within)
    ⟨begun, fun event _ => append event begun⟩).1

/-- What holds of all registrations behind requests, up to those of each of the later ones, holds at all
moments of these. -/
theorem every_of_mem_moments {p : String → Registration ε ν → Prop}
    {requests later : List (Request ε ν)}
    (listed : ∀ front back, later = front ++ back →
      ∀ topic, ∀ r ∈ (behind (requests ++ front)).listeners topic, p topic r)
    {moment : Activity ε ν} (member : moment ∈ (behind requests).moments later) : moment.Every p := by
  rw [moments_eq_starts] at member
  obtain ⟨start, here, within⟩ := List.mem_flatMap.mp member
  obtain ⟨front, request, back, split, started, same⟩ := start_of_mem_starts here
  have begun : start.Every p := every_of_start started (same ▸ listed front _ split)
  exact begun.during (Activity.mem_moments_iff.mp within)

end Bus

/-!
### Harmless listeners
-/

/-- A listener neither fails nor resets the bus, whatever it hears. -/
def Listener.Gentle (listener : Listener ε ν) : Prop :=
  ∀ heard, (∀ failure, .raise failure ∉ listener heard) ∧ .reset ∉ listener heard

/-- A listener announces nothing, whatever it hears. -/
def Listener.Silent (listener : Listener ε ν) : Prop :=
  ∀ heard allowance event returned, .relay allowance event returned ∉ listener heard

namespace Bus

/-- All listeners are among those that were registered. -/
theorem listener_behind {p : Listener ε ν → Prop} {requests : List (Request ε ν)}
    (all : ∀ request ∈ requests, ∀ listener ∈ request.listener?, p listener) :
    ∀ topic, ∀ r ∈ (behind requests).listeners topic, p r.listener := by
  have none : ∀ topic, ∀ r ∈ (empty : Bus ε ν).listeners topic, p r.listener :=
    fun topic r member => by cases member
  have kept : Kept (fun _ => True)
      fun bus : Bus ε ν => ∀ topic, ∀ r ∈ bus.listeners topic, p r.listener :=
    kept_listeners (p := fun _ _ members => ∀ r ∈ members, p r.listener)
      fun all fewer r member => all r (fewer.subset member)
  refine List.foldlRecOn requests Request.left
    (motive := fun bus => ∀ topic, ∀ r ∈ bus.listeners topic, p r.listener) none ?_
  intro bus listed request member
  refine request.keeps kept (fun event listed => listed) ?_ (fun times listed => listed) listed
  intro bus topic owner single listener own listed
  exact forall_enrol p listed (all request member listener own) topic owner single

theorem listener_of_mem_moments {p : Listener ε ν → Prop} {requests later : List (Request ε ν)}
    (all : ∀ request ∈ requests ++ later, ∀ listener ∈ request.listener?, p listener)
    {moment : Activity ε ν} (member : moment ∈ (behind requests).moments later) :
    moment.Every fun _ r => p r.listener := by
  refine every_of_mem_moments (fun front back split => listener_behind fun request among => ?_) member
  refine all request ?_
  rw [split, ← List.append_assoc]
  exact List.mem_append_left _ among

/-- Gentle listeners do not disturb anything. -/
theorem undisturbed_of_gentle {requests later : List (Request ε ν)}
    (gentle : ∀ request ∈ requests ++ later, ∀ listener ∈ request.listener?, listener.Gentle) :
    ∀ moment ∈ (behind requests).moments later, moment.Undisturbed := by
  intro moment member
  have every := listener_of_mem_moments gentle member
  constructor
  · intro failure rest task
    obtain ⟨_, r, heard, gentle, suffix⟩ := every.acting _ task
    exact (gentle heard).1 failure (suffix.subset List.mem_cons_self)
  · intro rest task
    obtain ⟨_, r, heard, gentle, suffix⟩ := every.acting _ task
    exact (gentle heard).2 (suffix.subset List.mem_cons_self)

/-- Silent listeners announce nothing. -/
theorem idle_of_silent {requests later : List (Request ε ν)}
    (silent : ∀ request ∈ requests ++ later, ∀ listener ∈ request.listener?, listener.Silent) :
    ∀ moment ∈ (behind requests).moments later, moment.Idle := by
  intro moment member allowance event returned rest task
  obtain ⟨_, r, heard, silent, suffix⟩ := (listener_of_mem_moments silent member).acting _ task
  exact absurd (suffix.subset List.mem_cons_self) (silent heard allowance event returned)

/-!
### Serials
-/

/-- A serial was issued, and something holds of the registrations that carry it. -/
def Known (serial : Nat) (p : String → Registration ε ν → Prop) (bus : Bus ε ν) : Prop :=
  ∀ topic, serial < bus.issued ∧ ∀ r ∈ bus.listeners topic, r.serial = serial → p topic r

variable {serial : Nat} {p : String → Registration ε ν → Prop}

omit [HasTopic ε] in
/-- A serial is not issued again. -/
theorem Known.enrol {bus : Bus ε ν} (known : bus.Known serial p) (topic : String)
    (owner : Option String) (single : Bool) (listener : Listener ε ν) :
    (bus.enrol topic owner single listener).Known serial p := by
  intro other
  obtain ⟨issued, carried⟩ := known other
  refine ⟨Nat.lt_succ_of_lt issued, fun r member own => ?_⟩
  rw [listeners_enrol] at member
  split at member
  · next same =>
      subst same
      rcases List.mem_append.mp member with earlier | last
      · exact carried r earlier own
      · cases List.mem_singleton.mp last
        exact absurd own (Nat.ne_of_gt issued)
  · exact carried r member own

omit [HasTopic ε] in
/-- If a registration is not there, none for its topic has its serial. -/
theorem Known.gone {bus : Bus ε ν} {topic : String} {r : Registration ε ν}
    (known : bus.Known r.serial fun other s => other = topic → s = r)
    (absent : r ∉ bus.listeners topic) : bus.Known r.serial fun other _ => other ≠ topic := by
  intro other
  obtain ⟨issued, carried⟩ := known other
  refine ⟨issued, fun s member own same => absent ?_⟩
  rw [← carried s member own same, ← same]
  exact member

theorem known_behind {requests : List (Request ε ν)} (known : (behind requests).Known serial p)
    (later : List (Request ε ν)) : (behind (requests ++ later)).Known serial p := by
  rw [behind_append]
  refine List.foldlRecOn later Request.left known ?_
  intro bus known request _
  refine request.keeps ?_ (fun event known => known) ?_ (fun times known => known) known
  · exact kept_listeners
      (p := fun issued topic members =>
        serial < issued ∧ ∀ r ∈ members, r.serial = serial → p topic r)
      fun known fewer => ⟨known.1, fun r member => known.2 r (fewer.subset member)⟩
  · exact fun topic owner single listener _ known => known.enrol topic owner single listener

/-- A registration that is there in the end was there before, if no other one had its serial. -/
theorem listed_before {requests later : List (Request ε ν)} {topic : String} {r : Registration ε ν}
    (known : (behind requests).Known r.serial fun other s => other = topic → s = r)
    (listed : r ∈ (behind (requests ++ later)).listeners topic) :
    r ∈ (behind requests).listeners topic := by
  by_contra absent
  exact (known_behind (known.gone absent) later topic).2 r listed rfl rfl

end Bus

end SuperCalls
