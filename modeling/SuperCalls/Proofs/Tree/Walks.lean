/-
Module: SuperCalls.Proofs.Tree.Walks
Purpose: How names are walked through a tree, whatever they end at: a directory, a file or nothing
  yet.  A walk can be cut in two wherever its names can, blank names can be left out, and files
  that are written on the way change no walk.
Main exports: Tree.Ends, Tree.ends_iff, Tree.Ends.split, Tree.Fewer, Tree.Rewritten,
  Tree.Rewritten.ends
-/
import SuperCalls.Proofs.Tree.Paths

namespace SuperCalls.Tree

/-- The names are walked from a location to a spot, over a number of links at most. -/
inductive Ends (t : Tree) : Nat → Location → List String → Spot → Prop where
  | here {links : Nat} {here : Location} : Ends t links here [] ⟨here, some .directory⟩
  | stay {links : Nat} {here : Location} {name : String} {rest : List String} {spot : Spot}
      (still : name = "" ∨ name = ".") (ends : Ends t links here rest spot) :
      Ends t links here (name :: rest) spot
  | back {links : Nat} {here : Location} {rest : List String} {spot : Spot}
      (ends : Ends t links here.parent rest spot) : Ends t links here (".." :: rest) spot
  | enter {links : Nat} {here : Location} {name : String} {rest : List String} {spot : Spot}
      (proper : Proper name) (entered : t.entry? (here ++ [name]) = some .directory)
      (ends : Ends t links (here ++ [name]) rest spot) : Ends t links here (name :: rest) spot
  | file {links : Nat} {here : Location} {name : String} {bytes : List UInt8}
      (proper : Proper name) (found : t.entry? (here ++ [name]) = some (.file bytes)) :
      Ends t links here [name] ⟨here ++ [name], some (.file bytes)⟩
  /-- Nothing stands there, and nothing is asked for below it. -/
  | free {links : Nat} {here : Location} {name : String} {rest : List String}
      (proper : Proper name) (absent : t.entry? (here ++ [name]) = none)
      (blank : rest.all (· == "")) : Ends t links here (name :: rest) ⟨here ++ [name], none⟩
  | link {links : Nat} {here : Location} {name target : String} {rest : List String} {spot : Spot}
      (proper : Proper name) (linked : t.entry? (here ++ [name]) = some (.link target))
      (ends : Ends t links (if isAbsolute target then [] else here) (segments target ++ rest) spot) :
      Ends t (links + 1) here (name :: rest) spot

namespace Ends

variable {t : Tree} {links : Nat} {here : Location} {names : List String} {spot : Spot}

/-!
### Walks and what follows them
-/

theorem of_follow {aim : Aim} (through : (aim == .name) = false)
    {jump : Location → List String → Except DiskFault Spot}
    (jumps : ∀ here names, jump here names = .ok spot →
      ∃ fewer, links = fewer + 1 ∧ Ends t fewer here names spot)
    (followed : t.follow aim jump here names = .ok spot) : Ends t links here names spot := by
  induction names generalizing here with
  | nil =>
      cases followed
      exact .here
  | cons name rest ih =>
      rw [follow] at followed
      split at followed
      · next still => exact .stay (by simpa using still) (ih followed)
      next moves =>
      split at followed
      · next back =>
          subst back
          exact .back (ih followed)
      next forth =>
      split at followed
      · cases followed
      split at followed
      · cases followed
      next short =>
      have proper : Proper name := by
        simp only [Bool.or_eq_true, decide_eq_true_eq, not_or] at moves
        exact ⟨moves.1, moves.2, forth, short⟩
      simp only at followed
      split at followed
      · next absent =>
          split at followed
          · next blank =>
              cases followed
              exact .free proper absent blank
          · cases followed
      · next entered => exact .enter proper entered (ih followed)
      · next bytes found =>
          split at followed
          · next last =>
              cases followed
              rw [List.isEmpty_iff] at last
              subst last
              exact .file proper found
          · cases followed
      · next target linked =>
          rw [through, Bool.and_false, if_neg Bool.false_ne_true] at followed
          obtain ⟨fewer, rfl, ends⟩ := jumps _ _ followed
          exact .link proper linked ends

/-- What is followed to a spot, be it to write there, is walked to it. -/
theorem of_followWithin {aim : Aim} (through : (aim == .name) = false)
    (followed : t.followWithin aim links here names = .ok spot) : Ends t links here names spot := by
  induction links generalizing here names with
  | zero =>
      refine of_follow through (fun here names jumped => ?_) followed
      cases jumped
  | succ links ih =>
      exact of_follow through (fun here names jumped => ⟨links, rfl, ih jumped⟩) followed

theorem follow_target {jump : Location → List String → Except DiskFault Spot} {name : String}
    (proper : Proper name) (rest : List String) :
    t.follow .target jump here (name :: rest) =
      match t.entry? (here ++ [name]) with
      | none => if rest.all (· == "") then .ok ⟨here ++ [name], none⟩ else .error .notFound
      | some .directory => t.follow .target jump (here ++ [name]) rest
      | some (.file bytes) =>
          if rest.isEmpty then .ok ⟨here ++ [name], some (.file bytes)⟩ else .error .notDirectory
      | some (.link target) =>
          jump (if isAbsolute target then [] else here) (segments target ++ rest) := by
  have moves : ¬ (decide (name = "") || decide (name = ".")) = true := by
    simpa using And.intro proper.1 proper.2.1
  have looks : ¬ (Aim.target == .creation && !rest.isEmpty && rest.all (· == "")) = true :=
    Bool.false_ne_true
  rw [follow, if_neg moves, if_neg proper.2.2.1, if_neg looks, if_neg proper.2.2.2]
  dsimp only
  rcases t.entry? (here ++ [name]) with _ | entry
  · rfl
  · cases entry with
    | link target =>
        simp only [show (Aim.target == .name) = false from rfl, Bool.and_false, Bool.false_eq_true,
          if_false]
    | _ => rfl

theorem follow_eq (ends : Ends t links here names spot) :
    t.followWithin .target links here names = .ok spot := by
  rw [Leads.followWithin_eq]
  induction ends with
  | here => rfl
  | stay still _ ih =>
      rw [Leads.follow_stay still]
      exact ih
  | back _ ih =>
      rw [Leads.follow_back]
      exact ih
  | enter proper entered _ ih =>
      rw [follow_target proper, entered]
      exact ih
  | file proper found =>
      rw [follow_target proper, found]
      rfl
  | free proper absent blank =>
      rw [follow_target proper, absent]
      exact if_pos blank
  | link proper linked _ ih =>
      rw [← Leads.followWithin_eq] at ih
      rw [follow_target proper, linked]
      exact ih

end Ends

variable {t : Tree} {links : Nat} {here : Location} {names : List String} {spot : Spot}

/-- Names are walked to where they are followed to. -/
theorem ends_iff :
    Ends t links here names spot ↔ t.followWithin .target links here names = .ok spot :=
  ⟨Ends.follow_eq, Ends.of_followWithin rfl⟩

namespace Ends

/-- A walk may be allowed more links. -/
theorem mono (ends : Ends t links here names spot) :
    ∀ {more : Nat}, links ≤ more → Ends t more here names spot := by
  induction ends with
  | here => exact fun _ => .here
  | stay still _ ih => exact fun enough => .stay still (ih enough)
  | back _ ih => exact fun enough => .back (ih enough)
  | enter proper entered _ ih => exact fun enough => .enter proper entered (ih enough)
  | file proper found => exact fun _ => .file proper found
  | free proper absent blank => exact fun _ => .free proper absent blank
  | link proper linked _ ih =>
      intro more enough
      obtain ⟨fewer, rfl⟩ := Nat.exists_eq_add_of_le' (Nat.le_of_add_left_le enough)
      exact .link proper linked (ih (Nat.le_of_add_le_add_right enough))

/-- A walk over names in two parts comes by the directory that the first part ends at, unless it is
over with the first part. -/
theorem split {front rest : List String} (ends : Ends t links here (front ++ rest) spot) :
    Ends t links here front spot ∨
    ∃ mid fewer, fewer ≤ links ∧ Ends t links here front ⟨mid, some .directory⟩ ∧
      Ends t fewer mid rest spot := by
  generalize together : front ++ rest = names at ends
  induction ends generalizing front with
  | here =>
      obtain ⟨rfl, rfl⟩ := List.append_eq_nil_iff.mp together
      exact Or.inl .here
  | @stay links here name names spot still ends ih =>
      rcases List.append_eq_cons_iff.mp together with ⟨rfl, rfl⟩ | ⟨later, rfl, same⟩
      · exact Or.inr ⟨here, links, Nat.le_refl _, .here, .stay still ends⟩
      · rcases ih same.symm with ended | ⟨mid, fewer, le, first, second⟩
        · exact Or.inl (.stay still ended)
        · exact Or.inr ⟨mid, fewer, le, .stay still first, second⟩
  | @back links here names spot ends ih =>
      rcases List.append_eq_cons_iff.mp together with ⟨rfl, rfl⟩ | ⟨later, rfl, same⟩
      · exact Or.inr ⟨here, links, Nat.le_refl _, .here, .back ends⟩
      · rcases ih same.symm with ended | ⟨mid, fewer, le, first, second⟩
        · exact Or.inl (.back ended)
        · exact Or.inr ⟨mid, fewer, le, .back first, second⟩
  | @enter links here name names spot proper entered ends ih =>
      rcases List.append_eq_cons_iff.mp together with ⟨rfl, rfl⟩ | ⟨later, rfl, same⟩
      · exact Or.inr ⟨here, links, Nat.le_refl _, .here, .enter proper entered ends⟩
      · rcases ih same.symm with ended | ⟨mid, fewer, le, first, second⟩
        · exact Or.inl (.enter proper entered ended)
        · exact Or.inr ⟨mid, fewer, le, .enter proper entered first, second⟩
  | @file links here name bytes proper found =>
      rcases List.append_eq_cons_iff.mp together with ⟨rfl, rfl⟩ | ⟨later, rfl, same⟩
      · exact Or.inr ⟨here, links, Nat.le_refl _, .here, .file proper found⟩
      · obtain ⟨rfl, rfl⟩ := List.append_eq_nil_iff.mp same.symm
        exact Or.inl (.file proper found)
  | @free links here name names proper absent blank =>
      rcases List.append_eq_cons_iff.mp together with ⟨rfl, rfl⟩ | ⟨later, rfl, same⟩
      · exact Or.inr ⟨here, links, Nat.le_refl _, .here, .free proper absent blank⟩
      · rw [same, List.all_append, Bool.and_eq_true] at blank
        exact Or.inl (.free proper absent blank.1)
  | @link links here name target names spot proper linked ends ih =>
      rcases List.append_eq_cons_iff.mp together with ⟨rfl, rfl⟩ | ⟨later, rfl, same⟩
      · exact Or.inr ⟨here, links + 1, Nat.le_refl _, .here, .link proper linked ends⟩
      · have rejoined : (segments target ++ later) ++ rest = segments target ++ names := by
          rw [List.append_assoc, same]
        rcases ih rejoined with ended | ⟨mid, fewer, le, first, second⟩
        · exact Or.inl (.link proper linked ended)
        · exact Or.inr ⟨mid, fewer, Nat.le_succ_of_le le, .link proper linked first, second⟩

/-- What stands at the spot is what the walk says: if it is no directory, a file or nothing. -/
theorem entry_eq (ends : Ends t links here names spot) :
    spot.entry = some .directory ∨ spot.location ≠ [] ∧
      t.entry? spot.location = spot.entry ∧ ∀ target, spot.entry ≠ some (.link target) := by
  induction ends with
  | here => exact Or.inl rfl
  | stay _ _ ih | back _ ih | enter _ _ _ ih | link _ _ _ ih => exact ih
  | file _ found => exact Or.inr ⟨by simp, found, nofun⟩
  | free _ absent => exact Or.inr ⟨by simp, absent, nofun⟩

end Ends

/-!
### Blank names
-/

/-- Names of which some blank ones were left out. -/
inductive Fewer : List String → List String → Prop where
  | nil : Fewer [] []
  | drop {name : String} {names fewer : List String} (blank : name = "" ∨ name = ".")
      (rest : Fewer names fewer) : Fewer (name :: names) fewer
  | keep {name : String} {names fewer : List String} (rest : Fewer names fewer) :
      Fewer (name :: names) (name :: fewer)

namespace Fewer

variable {fewer : List String}

theorem append (front : List String) (rest : Fewer names fewer) :
    Fewer (front ++ names) (front ++ fewer) := by
  induction front with
  | nil => exact rest
  | cons name front ih => exact .keep ih

theorem all_blank (less : Fewer names fewer) (blank : names.all (· == "")) :
    fewer.all (· == "") := by
  induction less with
  | nil => exact blank
  | drop _ _ ih =>
      rw [List.all_cons, Bool.and_eq_true] at blank
      exact ih blank.2
  | keep _ ih =>
      rw [List.all_cons, Bool.and_eq_true] at blank ⊢
      exact ⟨blank.1, ih blank.2⟩

/-- Without names that go back, normalising names only leaves out blank ones. -/
theorem of_forth (forth : ".." ∉ names) (location : Location) :
    ∃ fewer, Fewer names fewer ∧ names.foldl Location.step location = location ++ fewer := by
  induction names generalizing location with
  | nil => exact ⟨[], .nil, (List.append_nil location).symm⟩
  | cons name names ih =>
      rw [List.mem_cons, not_or] at forth
      by_cases still : name = "" ∨ name = "."
      · obtain ⟨fewer, less, same⟩ := ih forth.2 location
        exact ⟨fewer, .drop still less, by
          rw [List.foldl_cons, Location.step_of_blank location still, same]⟩
      · obtain ⟨fewer, less, same⟩ := ih forth.2 (location ++ [name])
        have goes := Location.step_of_moves location still (Ne.symm forth.1)
        exact ⟨name :: fewer, .keep less, by rw [List.foldl_cons, goes, same, ← List.append_cons]⟩

end Fewer

/-- A walk ends where it does without some blank names. -/
theorem Ends.of_fewer (ends : Ends t links here names spot) :
    ∀ {fewer : List String}, Fewer names fewer → Ends t links here fewer spot := by
  induction ends with
  | here =>
      intro fewer less
      cases less
      exact .here
  | stay still _ ih =>
      intro fewer less
      cases less with
      | drop _ rest => exact ih rest
      | keep rest => exact .stay still (ih rest)
  | back _ ih =>
      intro fewer less
      cases less with
      | drop blank => simp at blank
      | keep rest => exact .back (ih rest)
  | enter proper entered _ ih =>
      intro fewer less
      cases less with
      | drop blank => exact absurd blank (not_or.mpr ⟨proper.1, proper.2.1⟩)
      | keep rest => exact .enter proper entered (ih rest)
  | file proper found =>
      intro fewer less
      cases less with
      | drop blank => exact absurd blank (not_or.mpr ⟨proper.1, proper.2.1⟩)
      | keep rest =>
          cases rest
          exact .file proper found
  | free proper absent blank =>
      intro fewer less
      cases less with
      | drop blank => exact absurd blank (not_or.mpr ⟨proper.1, proper.2.1⟩)
      | keep rest => exact .free proper absent (rest.all_blank blank)
  | link proper linked _ ih =>
      intro fewer less
      cases less with
      | drop blank => exact absurd blank (not_or.mpr ⟨proper.1, proper.2.1⟩)
      | keep rest => exact .link proper linked (ih (rest.append _))

/-!
### Written files
-/

/-- A tree differs from another one by files that were written within a region: where there was a
file before, or nothing. -/
def Rewritten (region : Location → Prop) (before after : Tree) : Prop :=
  ∀ location, after.entry? location = before.entry? location ∨
    region location ∧
      (before.entry? location = none ∨ ∃ bytes, before.entry? location = some (.file bytes)) ∧
      ∃ bytes, after.entry? location = some (.file bytes)

theorem entry?_put (t : Tree) {there : Location} (named : there ≠ []) (entry : Entry)
    (location : Location) :
    Tree.entry? (t.put there entry) location =
      if location = there then some entry else t.entry? location := by
  by_cases root : location = []
  · subst root
    rw [if_neg (Ne.symm named)]
    rfl
  · rw [entry?_of_ne root, entry?_of_ne root]
    unfold put
    split
    · next present =>
        rw [lookup_map]
        split
        · next own =>
            subst own
            obtain ⟨found, among, same⟩ := List.any_eq_true.mp present
            cases looked : t.entries.lookup location with
            | some e => rfl
            | none =>
                have apart := List.lookup_eq_none_iff.mp looked found among
                rw [eq_of_beq same] at apart
                simp at apart
        · rfl
    · next absent =>
        rw [List.lookup_append]
        by_cases own : location = there
        · subst own
          have nothing : t.entries.lookup location = none := by
            apply List.lookup_eq_none_iff.mpr
            intro found among
            apply bne_iff_ne.mpr
            rintro same
            exact absent (List.any_eq_true.mpr ⟨found, among, beq_iff_eq.mpr same.symm⟩)
          rw [nothing, if_pos rfl]
          simp
        · rw [if_neg own]
          simp [List.lookup_cons, beq_false_of_ne own]

/-- The names of a path are walked to where it is located. -/
theorem ends_of_locate {aim : Aim} {path : String} (through : (aim == .name) = false)
    (located : t.locate aim path = .ok spot) : Ends t linkLimit [] (segments path) spot := by
  unfold locate at located
  split at located
  · cases located
  split at located
  · cases located
  exact Ends.of_followWithin through located

/-- A file is written where there was a file before, or nothing. -/
theorem put_of_write {u : Tree} {path : String} {bytes : List UInt8}
    (written : t.write path bytes = .ok u) :
    ∃ spot, t.locate .creation path = .ok spot ∧ spot.location ≠ [] ∧
      (t.entry? spot.location = none ∨ ∃ old, t.entry? spot.location = some (.file old)) ∧
      u = t.put spot.location (.file bytes) := by
  obtain ⟨spot, located, put⟩ := ok_of_bind_ok (of_attempt written)
  refine ⟨spot, located, ?_⟩
  obtain ⟨there, found⟩ := spot
  rcases (ends_of_locate rfl located).entry_eq with directory | ⟨named, here, other⟩
  · change found = some .directory at directory
    subst directory
    cases put
  · simp only at here other put
    rw [here]
    rcases found with _ | entry
    · cases put
      exact ⟨named, Or.inl rfl, rfl⟩
    · cases entry with
      | directory => cases put
      | file old =>
          cases put
          exact ⟨named, Or.inr ⟨old, rfl⟩, rfl⟩
      | link target => exact absurd rfl (other target)

namespace Rewritten

variable {region : Location → Prop} {before after : Tree}

theorem refl (region : Location → Prop) (t : Tree) : Rewritten region t t :=
  fun _ => Or.inl rfl

theorem eq_of_not_file (rewritten : Rewritten region before after) {location : Location}
    {found : Option Entry} (here : after.entry? location = found)
    (other : ∀ bytes, found ≠ some (.file bytes)) : before.entry? location = found := by
  rcases rewritten location with same | ⟨_, _, bytes, file⟩
  · rw [← same, here]
  · rw [here] at file
    exact absurd file (other bytes)

/-- What is walked in the later tree is walked in the earlier one, and ends at the same location. -/
theorem ends (rewritten : Rewritten region before after)
    (ends : Ends after links here names spot) :
    ∃ entry, Ends before links here names ⟨spot.location, entry⟩ := by
  induction ends with
  | here => exact ⟨_, .here⟩
  | stay still _ ih =>
      obtain ⟨entry, ends⟩ := ih
      exact ⟨entry, .stay still ends⟩
  | back _ ih =>
      obtain ⟨entry, ends⟩ := ih
      exact ⟨entry, .back ends⟩
  | enter proper entered _ ih =>
      obtain ⟨entry, ends⟩ := ih
      exact ⟨entry, .enter proper (rewritten.eq_of_not_file entered nofun) ends⟩
  | @file _ here name _ proper found =>
      rcases rewritten (here ++ [name]) with same | ⟨_, absent | ⟨bytes, file⟩, _⟩
      · exact ⟨_, .file proper (same.symm.trans found)⟩
      · exact ⟨none, .free proper absent rfl⟩
      · exact ⟨_, .file proper file⟩
  | free proper absent blank =>
      exact ⟨none, .free proper (rewritten.eq_of_not_file absent nofun) blank⟩
  | link proper linked _ ih =>
      obtain ⟨entry, ends⟩ := ih
      exact ⟨entry, .link proper (rewritten.eq_of_not_file linked nofun) ends⟩

/-- Another file is written within the region. -/
theorem put (rewritten : Rewritten region before after) {there : Location} (within : region there)
    (named : there ≠ [])
    (old : after.entry? there = none ∨ ∃ bytes, after.entry? there = some (.file bytes))
    (bytes : List UInt8) : Rewritten region before (after.put there (.file bytes)) := by
  intro location
  rw [entry?_put after named]
  split
  · next own =>
      subst own
      refine Or.inr ⟨within, ?_, bytes, rfl⟩
      rcases rewritten location with same | ⟨_, earlier, _⟩
      · rwa [same] at old
      · exact earlier
  · exact rewritten location

end Rewritten

end SuperCalls.Tree
