/-
Module: SuperCalls.Proofs.Tree.Paths
Purpose: Paths that lead to files.  Where a path leads depends on what stands at which location,
  but not on the bytes of files.
Main exports: Tree.Leads, Tree.Reaches, Tree.SameShape, Tree.Reaches.of_sameShape,
  Tree.put_file
-/
import SuperCalls.Tree

namespace SuperCalls.Tree

/-!
### The way to a file
-/

/-- A name that a path goes on by. -/
def Proper (name : String) : Prop :=
  name ≠ "" ∧ name ≠ "." ∧ name ≠ ".." ∧ ¬ nameLimit < name.utf8ByteSize

instance : DecidablePred Proper := fun name =>
  inferInstanceAs
    (Decidable (name ≠ "" ∧ name ≠ "." ∧ name ≠ ".." ∧ ¬ nameLimit < name.utf8ByteSize))

/-- The names lead from a location to a file, by a number of links at most. -/
inductive Leads (t : Tree) : Nat → Location → List String → Location → Prop where
  | stay {links : Nat} {here there : Location} {name : String} {rest : List String}
      (still : name = "" ∨ name = ".") (leads : Leads t links here rest there) :
      Leads t links here (name :: rest) there
  | back {links : Nat} {here there : Location} {rest : List String}
      (leads : Leads t links here.parent rest there) : Leads t links here (".." :: rest) there
  | enter {links : Nat} {here there : Location} {name : String} {rest : List String}
      (proper : Proper name) (entered : t.entry? (here ++ [name]) = some .directory)
      (leads : Leads t links (here ++ [name]) rest there) : Leads t links here (name :: rest) there
  | file {links : Nat} {here : Location} {name : String} {bytes : List UInt8}
      (proper : Proper name) (found : t.entry? (here ++ [name]) = some (.file bytes)) :
      Leads t links here [name] (here ++ [name])
  | link {links : Nat} {here there : Location} {name target : String} {rest : List String}
      (proper : Proper name) (linked : t.entry? (here ++ [name]) = some (.link target))
      (leads : Leads t links (if isAbsolute target then [] else here) (segments target ++ rest)
        there) :
      Leads t (links + 1) here (name :: rest) there

namespace Leads

variable {t : Tree} {links : Nat} {here there : Location} {names : List String}

theorem ne_nil (leads : Leads t links here names there) : names ≠ [] := by
  cases leads <;> exact List.cons_ne_nil _ _

/-- A path that leads to a file does not end with a slash. -/
theorem getLast?_ne (leads : Leads t links here names there) : names.getLast? ≠ some "" := by
  induction leads with
  | stay _ leads ih | back leads ih | enter _ _ leads ih =>
      obtain ⟨name, rest, rfl⟩ := List.exists_cons_of_ne_nil leads.ne_nil
      rwa [List.getLast?_cons_cons]
  | file proper =>
      intro last
      exact proper.1 (Option.some.inj last)
  | @link _ _ _ name target rest proper _ _ ih =>
      cases rest with
      | nil =>
          intro last
          exact proper.1 (Option.some.inj last)
      | cons next rest =>
          rw [List.getLast?_append] at ih
          rw [List.getLast?_cons_cons]
          intro last
          rw [last] at ih
          exact ih rfl

/-- A path to a file does not end with slashes. -/
theorem not_all_blank (front : List String) {rest : List String}
    (leads : Leads t links here (front ++ rest) there) :
    (!rest.isEmpty && rest.all (· == "")) = false := by
  cases rest with
  | nil => rfl
  | cons next rest =>
      cases blank : (next :: rest).all (· == "") with
      | false => rfl
      | true =>
          have last := List.all_eq_true.mp blank _ (List.getLast_mem (List.cons_ne_nil next rest))
          have ends : (front ++ next :: rest).getLast? = some "" := by
            rw [List.getLast?_append, List.getLast?_eq_some_getLast (List.cons_ne_nil _ _),
              eq_of_beq last]
            rfl
          exact absurd ends leads.getLast?_ne

/-- A path that is followed to a file leads to it. -/
theorem of_follow {aim : Aim} {bytes : List UInt8}
    {jump : Location → List String → Except DiskFault Spot}
    (jumps : ∀ here names, jump here names = .ok ⟨there, some (.file bytes)⟩ →
      ∃ fewer, links = fewer + 1 ∧ Leads t fewer here names there ∧
        t.entry? there = some (.file bytes))
    (followed : t.follow aim jump here names = .ok ⟨there, some (.file bytes)⟩) :
    Leads t links here names there ∧ t.entry? there = some (.file bytes) := by
  induction names generalizing here with
  | nil => cases followed
  | cons name rest ih =>
      rw [follow] at followed
      split at followed
      · next still =>
          have blank : name = "" ∨ name = "." := by simpa using still
          exact (ih followed).imp_left (.stay blank)
      next moves =>
      split at followed
      · next back =>
          subst back
          exact (ih followed).imp_left .back
      next forth =>
      split at followed
      · cases followed
      split at followed
      · cases followed
      next short =>
      have proper : Proper name := by
        simp only [Bool.or_eq_true, decide_eq_true_eq, not_or] at moves
        exact ⟨moves.1, moves.2, forth, short⟩
      simp only at followed
      split at followed
      · split at followed <;> cases followed
      · next entered => exact (ih followed).imp_left (.enter proper entered)
      · next content found =>
          split at followed
          · next last =>
              cases followed
              rw [List.isEmpty_iff] at last
              subst last
              exact ⟨.file proper found, found⟩
          · cases followed
      · next target linked =>
          split at followed
          · cases followed
          · obtain ⟨fewer, rfl, leads, found⟩ := jumps _ _ followed
            exact ⟨.link proper linked leads, found⟩

theorem of_followWithin {aim : Aim} {bytes : List UInt8}
    (followed : t.followWithin aim links here names = .ok ⟨there, some (.file bytes)⟩) :
    Leads t links here names there ∧ t.entry? there = some (.file bytes) := by
  induction links generalizing here names with
  | zero =>
      refine of_follow (fun here names jumped => ?_) followed
      cases jumped
  | succ links ih =>
      exact of_follow (fun here names jumped => ⟨links, rfl, ih jumped⟩) followed

/-- What follows a link when only a number of links may be followed. -/
def jumpWithin (t : Tree) (aim : Aim) : Nat → Location → List String → Except DiskFault Spot
  | 0 => fun _ _ => .error .tooManyLinks
  | links + 1 => t.followWithin aim links

theorem followWithin_eq (t : Tree) (aim : Aim) (links : Nat) :
    t.followWithin aim links = t.follow aim (jumpWithin t aim links) := by
  cases links <;> rfl

theorem follow_stay {aim : Aim} {jump : Location → List String → Except DiskFault Spot}
    {name : String} (still : name = "" ∨ name = ".") (rest : List String) :
    t.follow aim jump here (name :: rest) = t.follow aim jump here rest :=
  if_pos (by simpa using still)

theorem follow_back (aim : Aim) (jump : Location → List String → Except DiskFault Spot)
    (rest : List String) :
    t.follow aim jump here (".." :: rest) = t.follow aim jump here.parent rest := by
  rw [follow, if_neg (by decide), if_pos rfl]

/-- A proper name is followed by what stands under it, unless only slashes are behind it. -/
theorem follow_named {aim : Aim} {jump : Location → List String → Except DiskFault Spot}
    {name : String} {rest : List String} (proper : Proper name)
    (named : (!rest.isEmpty && rest.all (· == "")) = false) :
    t.follow aim jump here (name :: rest) =
      match t.entry? (here ++ [name]) with
      | none => if rest.isEmpty then .ok ⟨here ++ [name], none⟩ else .error .notFound
      | some .directory => t.follow aim jump (here ++ [name]) rest
      | some (.file bytes) =>
          if rest.isEmpty then .ok ⟨here ++ [name], some (.file bytes)⟩ else .error .notDirectory
      | some (.link target) =>
          if rest.isEmpty && aim == .name then .ok ⟨here ++ [name], some (.link target)⟩
          else jump (if isAbsolute target then [] else here) (segments target ++ rest) := by
  have moves : ¬ (decide (name = "") || decide (name = ".")) = true := by
    simpa using And.intro proper.1 proper.2.1
  have created : ¬ (aim == .creation && !rest.isEmpty && rest.all (· == "")) = true := by
    rw [Bool.and_assoc, named, Bool.and_false]
    exact Bool.false_ne_true
  have slashes : rest.all (· == "") = rest.isEmpty := by
    cases rest with
    | nil => rfl
    | cons next rest => exact named
  simp only [follow, if_neg moves, if_neg proper.2.2.1, if_neg created, if_neg proper.2.2.2]
  cases t.entry? (here ++ [name]) with
  | none => simp only [slashes]
  | some entry => cases entry <;> rfl

theorem follow_proper {aim : Aim} {jump : Location → List String → Except DiskFault Spot}
    {name : String} {rest : List String} {entry : Entry} (proper : Proper name)
    (named : (!rest.isEmpty && rest.all (· == "")) = false)
    (found : t.entry? (here ++ [name]) = some entry) :
    t.follow aim jump here (name :: rest) =
      match entry with
      | .directory => t.follow aim jump (here ++ [name]) rest
      | .file bytes =>
          if rest.isEmpty then .ok ⟨here ++ [name], some (.file bytes)⟩ else .error .notDirectory
      | .link target =>
          if rest.isEmpty && aim == .name then .ok ⟨here ++ [name], some (.link target)⟩
          else jump (if isAbsolute target then [] else here) (segments target ++ rest) := by
  cases entry <;> simp only [follow_named proper named, found]

/-- A path that leads to a file is followed to it, also by those who want to write it. -/
theorem follow_eq {aim : Aim} {bytes : List UInt8} (through : (aim == .name) = false)
    (leads : Leads t links here names there) (found : t.entry? there = some (.file bytes)) :
    t.followWithin aim links here names = .ok ⟨there, some (.file bytes)⟩ := by
  rw [followWithin_eq]
  induction leads with
  | stay still leads ih =>
      rw [follow_stay still]
      exact ih found
  | back leads ih =>
      rw [follow_back]
      exact ih found
  | enter proper entered leads ih =>
      rw [follow_proper proper (not_all_blank [] leads) entered]
      exact ih found
  | file proper here =>
      rw [follow_proper proper rfl found]
      rfl
  | link proper linked leads ih =>
      rw [follow_proper proper (not_all_blank _ leads) linked]
      simp only [through, Bool.and_false, Bool.false_eq_true, if_false]
      rw [← followWithin_eq] at ih
      exact ih found

end Leads

/-!
### Trees of the same shape
-/

/-- At every location there is the same in both trees, but for the bytes of files. -/
def SameShape (t u : Tree) : Prop :=
  ∀ location, t.entry? location = u.entry? location ∨
    ∃ bytes others, t.entry? location = some (.file bytes) ∧
      u.entry? location = some (.file others)

namespace SameShape

variable {t u : Tree}

theorem symm (same : SameShape t u) : SameShape u t := by
  intro location
  rcases same location with here | ⟨bytes, others, here, there⟩
  · exact Or.inl here.symm
  · exact Or.inr ⟨others, bytes, there, here⟩

theorem eq_of_not_file (same : SameShape t u) {location : Location} {entry : Entry}
    (found : t.entry? location = some entry) (other : ∀ bytes, entry ≠ .file bytes) :
    u.entry? location = some entry := by
  rcases same location with here | ⟨bytes, _, file, _⟩
  · rw [← here, found]
  · rw [found] at file
    exact absurd (Option.some.inj file) (other bytes)

theorem file (same : SameShape t u) {location : Location} {bytes : List UInt8}
    (found : t.entry? location = some (.file bytes)) :
    ∃ others, u.entry? location = some (.file others) := by
  rcases same location with here | ⟨_, others, _, there⟩
  · exact ⟨bytes, by rw [← here, found]⟩
  · exact ⟨others, there⟩

theorem leads (same : SameShape t u) {links : Nat} {here there : Location} {names : List String}
    (leads : Leads t links here names there) : Leads u links here names there := by
  induction leads with
  | stay still _ ih => exact .stay still ih
  | back _ ih => exact .back ih
  | enter proper entered _ ih => exact .enter proper (same.eq_of_not_file entered nofun) ih
  | file proper found =>
      obtain ⟨others, there⟩ := same.file found
      exact .file proper there
  | link proper linked _ ih => exact .link proper (same.eq_of_not_file linked nofun) ih

end SameShape

/-!
### Calls
-/

/-- A path leads to the file at a location. -/
def Reaches (t : Tree) (path : String) (there : Location) : Prop :=
  ∃ bytes, t.locate .target path = .ok ⟨there, some (.file bytes)⟩

variable {t u : Tree} {path : String} {there location : Location} {bytes : List UInt8}

theorem leads_of_locate {aim : Aim} (located : t.locate aim path = .ok ⟨there, some (.file bytes)⟩) :
    path ≠ "" ∧ ¬ pathLimit < path.utf8ByteSize ∧ Leads t linkLimit [] (segments path) there ∧
      t.entry? there = some (.file bytes) := by
  unfold locate at located
  split at located
  · cases located
  next named =>
  split at located
  · cases located
  next short => exact ⟨named, short, Leads.of_followWithin located⟩

theorem reaches_iff :
    t.Reaches path there ↔
      path ≠ "" ∧ ¬ pathLimit < path.utf8ByteSize ∧
        Leads t linkLimit [] (segments path) there ∧
          ∃ bytes, t.entry? there = some (.file bytes) := by
  constructor
  · rintro ⟨bytes, located⟩
    obtain ⟨named, short, leads, found⟩ := leads_of_locate located
    exact ⟨named, short, leads, bytes, found⟩
  · rintro ⟨named, short, leads, bytes, found⟩
    refine ⟨bytes, ?_⟩
    rw [locate, if_neg named, if_neg short]
    exact leads.follow_eq rfl found

namespace Reaches

/-- A path that leads to a file can be read and written there. -/
theorem locate_eq {aim : Aim} (reaches : t.Reaches path there) (through : (aim == .name) = false)
    (found : t.entry? there = some (.file bytes)) :
    t.locate aim path = .ok ⟨there, some (.file bytes)⟩ := by
  obtain ⟨named, short, leads, _⟩ := reaches_iff.mp reaches
  rw [locate, if_neg named, if_neg short]
  exact leads.follow_eq through found

theorem of_sameShape (reaches : t.Reaches path there) (same : SameShape t u) :
    u.Reaches path there := by
  obtain ⟨named, short, leads, bytes, found⟩ := reaches_iff.mp reaches
  exact reaches_iff.mpr ⟨named, short, same.leads leads, same.file found⟩

theorem unique (reaches : t.Reaches path there) (also : t.Reaches path location) :
    there = location := by
  obtain ⟨bytes, located⟩ := reaches
  obtain ⟨others, again⟩ := also
  rw [located] at again
  cases again
  rfl

end Reaches

theorem of_attempt {α : Type} {call : DiskCall} {act : Except DiskFault α} {value : α}
    (made : attempt call path act = .ok value) : act = .ok value := by
  unfold attempt at made
  split at made
  · cases made
  · cases act with
    | error fault => cases made
    | ok result =>
        cases made
        rfl

theorem reaches_of_read (read : t.read path = .ok bytes) :
    ∃ there, t.Reaches path there ∧ t.entry? there = some (.file bytes) := by
  obtain ⟨entry, opened, rest⟩ := ok_of_bind_ok read
  obtain ⟨⟨there, found⟩, located, here⟩ := ok_of_bind_ok (of_attempt opened)
  cases entry with
  | file content =>
      cases rest
      cases found with
      | none => cases here
      | some entry =>
          cases here
          obtain ⟨_, _, _, found⟩ := leads_of_locate located
          exact ⟨there, ⟨bytes, located⟩, found⟩
  | directory => cases rest
  | link target => cases rest

theorem write_eq_put (reaches : t.Reaches path there) (written : t.write path bytes = .ok u) :
    u = t.put there (.file bytes) := by
  obtain ⟨named, short, leads, others, found⟩ := reaches_iff.mp reaches
  have made := of_attempt written
  rw [reaches.locate_eq rfl found] at made
  cases made
  rfl

theorem lookup_map (entries : List (Location × Entry)) (there location : Location) (entry : Entry) :
    (entries.map fun (l, e) => if l == there then (l, entry) else (l, e)).lookup location =
      if location = there then (entries.lookup location).map fun _ => entry
      else entries.lookup location := by
  induction entries with
  | nil => simp
  | cons first entries ih =>
      obtain ⟨l, e⟩ := first
      rw [List.map_cons]
      by_cases own : l = there
      · subst own
        simp only [beq_self_eq_true, if_true, List.lookup_cons]
        by_cases here : location = l
        · simp [here]
        · have apart : (location == l) = false := beq_false_of_ne here
          simp only [apart, ih, if_neg here]
      · have apart : (l == there) = false := beq_false_of_ne own
        simp only [apart, Bool.false_eq_true, if_false, List.lookup_cons]
        by_cases here : location = l
        · subst here
          simp [own]
        · have away : (location == l) = false := beq_false_of_ne here
          simp only [away, ih]

theorem mem_of_lookup {κ α : Type} [BEq κ] [LawfulBEq κ] {listed : List (κ × α)} {key : κ} {value : α}
    (found : listed.lookup key = some value) : (key, value) ∈ listed := by
  obtain ⟨before, after, split, _⟩ := List.lookup_eq_some_iff.mp found
  rw [split]
  exact List.mem_append_right _ List.mem_cons_self

theorem entry?_of_ne (named : location ≠ []) : t.entry? location = t.entries.lookup location :=
  if_neg named

/-- New bytes for a file are found there, and nothing else changes. -/
theorem put_file (found : t.entry? there = some (.file bytes)) (others : List UInt8)
    (location : Location) :
    Tree.entry? (t.put there (.file others)) location =
      if location = there then some (.file others) else t.entry? location := by
  have named : there ≠ [] := by
    rintro rfl
    cases found
  rw [entry?_of_ne named] at found
  have present : t.entries.any (·.1 == there) = true :=
    List.any_eq_true.mpr ⟨_, mem_of_lookup found, beq_self_eq_true there⟩
  rw [put, if_pos present]
  by_cases root : location = []
  · subst root
    rw [if_neg named.symm]
    rfl
  · rw [entry?_of_ne root, entry?_of_ne root, lookup_map]
    by_cases here : location = there
    · rw [if_pos here, if_pos here, here, found]
      rfl
    · rw [if_neg here, if_neg here]

end SuperCalls.Tree
