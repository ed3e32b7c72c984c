/-
Module: SuperCalls.Proofs.Tree.GoingBack
Purpose: Names that go back.  If going back takes away what was gone forth the names are followed to
  where their normal form is followed to; if it goes back from what is no directory they are followed
  nowhere.
Main exports: Tree.EndsNamed, Tree.Retraces, Tree.followWithin_retraced, Tree.Strays,
  Tree.locate_strays
-/
import SuperCalls.Proofs.Paths.Relative
import SuperCalls.Proofs.Tree.Walks

namespace SuperCalls

namespace Tree

variable {t : Tree} {aim : Aim} {jump : Location → List String → Except DiskFault Spot}
  {here : Location} {names fewer : List String}

/-!
### Blank names

Blank names are skipped wherever a path goes on behind them.  At its end they ask for a directory, so
the paths here end with a name that is not blank.
-/

/-- The last name is not blank. -/
def EndsNamed (names : List String) : Prop :=
  ∀ name ∈ names.getLast?, name ≠ "" ∧ name ≠ "."

instance : DecidablePred EndsNamed := fun names =>
  inferInstanceAs (Decidable (∀ name ∈ names.getLast?, name ≠ "" ∧ name ≠ "."))

namespace EndsNamed

theorem tail {name : String} (ends : EndsNamed (name :: names)) : EndsNamed names := by
  cases names with
  | nil => nofun
  | cons next rest =>
      intro last member
      rw [← List.getLast?_cons_cons (a := name)] at member
      exact ends last member

theorem append (ends : EndsNamed names) (named : names ≠ []) (front : List String) :
    EndsNamed (front ++ names) := by
  intro last member
  rw [List.getLast?_append_of_ne_nil _ named] at member
  exact ends last member

theorem not_blank (ends : EndsNamed names) (named : names ≠ []) : names.all (· == "") = false := by
  rw [List.all_eq_false]
  have last := ends _ (List.getLast?_eq_some_getLast named)
  exact ⟨_, List.getLast_mem named, by simpa using last.1⟩

/-- Leaving out blank names takes no last name away. -/
theorem of_fewer (ends : EndsNamed names) (less : Fewer names fewer) :
    EndsNamed fewer ∧ (names = [] ↔ fewer = []) := by
  induction less with
  | nil => exact ⟨ends, Iff.rfl⟩
  | @drop name names fewer blank less ih =>
      obtain ⟨ends', same⟩ := ih ends.tail
      refine ⟨ends', by simp, fun nothing => ?_⟩
      have last := ends name (by rw [same.mpr nothing]; rfl)
      exact absurd blank (not_or.mpr last)
  | @keep name names fewer less ih =>
      obtain ⟨ends', same⟩ := ih ends.tail
      refine ⟨?_, by simp⟩
      by_cases last : names = []
      · rw [same.mp last]
        rwa [last] at ends
      · exact ends'.append (fun nothing => last (same.mpr nothing)) [name]

end EndsNamed

/-- Names are followed to the same end without some blank ones. -/
theorem follow_fewer
    (jumps : ∀ here {names fewer : List String}, Fewer names fewer → EndsNamed names →
      jump here names = jump here fewer)
    (less : Fewer names fewer) (ends : EndsNamed names) (here : Location) :
    t.follow aim jump here names = t.follow aim jump here fewer := by
  induction less generalizing here with
  | nil => rfl
  | drop blank _ ih =>
      rw [Leads.follow_stay blank]
      exact ih ends.tail here
  | @keep name names fewer less ih =>
      obtain ⟨ends', same⟩ := ends.tail.of_fewer less
      have onward := ih ends.tail
      have empty : names.isEmpty = fewer.isEmpty := by
        rw [Bool.eq_iff_iff, List.isEmpty_iff, List.isEmpty_iff, same]
      have blank : names.all (· == "") = fewer.all (· == "") := by
        by_cases last : names = []
        · rw [last, same.mp last]
        · rw [ends.tail.not_blank last, ends'.not_blank fun nothing => last (same.mpr nothing)]
      -- behind a link the names of its target come first, so the end is the same one
      have behind (target : String) (base : Location) :
          jump base (segments target ++ names) = jump base (segments target ++ fewer) := by
        by_cases last : names = []
        · rw [last, same.mp last]
        · exact jumps base (less.append _) (ends.tail.append last _)
      simp only [follow, onward, empty, blank, behind]

theorem followWithin_fewer (less : Fewer names fewer) (ends : EndsNamed names) (links : Nat)
    (here : Location) :
    t.followWithin aim links here names = t.followWithin aim links here fewer := by
  induction links generalizing here names fewer with
  | zero => exact follow_fewer (fun _ _ _ _ _ => rfl) less ends here
  | succ links ih => exact follow_fewer (fun here _ _ less ends => ih less ends here) less ends here

/-!
### Going back
-/

/-- Names go back only from directories that were entered under their own names. -/
inductive Retraces (t : Tree) : Location → List String → Prop where
  | forth {here : Location} {names : List String} (forth : ".." ∉ names) : Retraces t here names
  | stay {here : Location} {name : String} {rest : List String} (still : name = "" ∨ name = ".")
      (more : Retraces t here rest) : Retraces t here (name :: rest)
  | enter {here : Location} {name : String} {rest : List String} (proper : Proper name)
      (free : Char.ofNat 0 ∉ name.toList) (entered : t.entry? (here ++ [name]) = some .directory)
      (more : Retraces t (here ++ [name]) rest) : Retraces t here (name :: rest)
  | back {here : Location} {rest : List String} (more : Retraces t here.parent rest) :
      Retraces t here (".." :: rest)

/-- A directory that is reached from the root name by name, without links. -/
inductive Standing (t : Tree) : Location → Prop where
  | root : Standing t []
  | enter {here : Location} {name : String} (standing : Standing t here) (proper : Proper name)
      (free : Char.ofNat 0 ∉ name.toList) (entered : t.entry? (here ++ [name]) = some .directory) :
      Standing t (here ++ [name])

namespace Standing

theorem parent (standing : Standing t here) : Standing t here.parent := by
  cases standing with
  | root => exact .root
  | enter standing =>
      rw [Location.parent, List.dropLast_concat]
      exact standing

theorem null_free (standing : Standing t here) : ∀ name ∈ here, Char.ofNat 0 ∉ name.toList := by
  induction standing with
  | root => exact fun name member => (List.not_mem_nil member).elim
  | enter _ _ free _ ih =>
      intro other member
      rcases List.mem_append.mp member with earlier | last
      · exact ih other earlier
      · rw [List.mem_singleton.mp last]
        exact free

end Standing

theorem follow_enter {name : String} {rest : List String} (proper : Proper name)
    (entered : t.entry? (here ++ [name]) = some .directory) (ends : EndsNamed rest) :
    t.follow aim jump here (name :: rest) = t.follow aim jump (here ++ [name]) rest := by
  apply Leads.follow_proper proper ?_ entered
  by_cases last : rest = []
  · rw [last]
    rfl
  · rw [ends.not_blank last, Bool.and_false]

/-- What is followed from a standing directory is followed from the root through its names. -/
theorem Standing.follow_eq (standing : Standing t here) (ends : EndsNamed names) :
    t.follow aim jump here names = t.follow aim jump [] (here ++ names) := by
  induction standing generalizing names with
  | root => rfl
  | @enter here name _ proper _ entered ih =>
      have named : EndsNamed (name :: names) := by
        by_cases last : names = []
        · subst last
          intro other member
          cases member
          exact ⟨proper.1, proper.2.1⟩
        · exact ends.append last [name]
      rw [← List.append_cons, ← ih named, follow_enter proper entered ends]

theorem step_of_proper (here : Location) {name : String} (proper : Proper name) :
    here.step name = here ++ [name] :=
  here.step_of_moves (not_or.mpr ⟨proper.1, proper.2.1⟩) proper.2.2.1

/-- Names that go back from entered directories only are followed to where their normal form is. -/
theorem follow_retraced
    (jumps : ∀ here {names fewer : List String}, Fewer names fewer → EndsNamed names →
      jump here names = jump here fewer)
    (retraces : Retraces t here names) (standing : Standing t here) (ends : EndsNamed names) :
    t.follow aim jump here names = t.follow aim jump [] (names.foldl Location.step here) := by
  induction retraces with
  | @forth here names forth =>
      -- links may stand on this part; it is only freed of blank names, which changes no way
      obtain ⟨fewer, less, same⟩ := Fewer.of_forth forth here
      rw [same, follow_fewer jumps less ends, standing.follow_eq (ends.of_fewer less).1]
  | @stay here name rest still _ ih =>
      rw [Leads.follow_stay still, List.foldl_cons, here.step_of_blank still]
      exact ih standing ends.tail
  | @enter here name rest proper free entered _ ih =>
      rw [follow_enter proper entered ends.tail, List.foldl_cons, step_of_proper here proper]
      exact ih (standing.enter proper free entered) ends.tail
  | back _ ih =>
      rw [Leads.follow_back, List.foldl_cons]
      exact ih standing.parent ends.tail

theorem followWithin_retraced (retraces : Retraces t [] names) (ends : EndsNamed names)
    (links : Nat) :
    t.followWithin aim links [] names = t.followWithin aim links [] (names.foldl Location.step []) := by
  rw [Leads.followWithin_eq]
  apply follow_retraced ?_ retraces .root ends
  intro here names fewer less ends
  cases links with
  | zero => rfl
  | succ links => exact followWithin_fewer less ends links here

/-- Following the text of a location is following its names. -/
theorem followWithin_text {location : Location} (normal : location.Normal) (links : Nat) :
    t.followWithin aim links [] (segments location.text) = t.followWithin aim links [] location := by
  have skip (rest : List String) :
      t.followWithin aim links [] ("" :: rest) = t.followWithin aim links [] rest := by
    rw [Leads.followWithin_eq, Leads.follow_stay (Or.inl rfl)]
  rw [Location.segments_text normal, skip]
  split
  · next root => rw [skip, root]
  · rfl

theorem Fewer.mem_iff (less : Fewer names fewer) {name : String} (plain : name ≠ "" ∧ name ≠ ".") :
    name ∈ names ↔ name ∈ fewer := by
  induction less with
  | nil => exact Iff.rfl
  | @drop other _ _ blank _ ih =>
      have apart : name ≠ other := by
        rintro rfl
        exact absurd blank (not_or.mpr plain)
      rw [List.mem_cons, ih]
      exact or_iff_right apart
  | keep _ ih => rw [List.mem_cons, List.mem_cons, ih]

/-- A null character in a name stays in one when the names are resolved. -/
theorem Retraces.null_iff (retraces : Retraces t here names) (standing : Standing t here) :
    (∃ name ∈ names.foldl Location.step here, Char.ofNat 0 ∈ name.toList) ↔
      ∃ name ∈ names, Char.ofNat 0 ∈ name.toList := by
  have holds {name : String} (null : Char.ofNat 0 ∈ name.toList) : name ≠ "" ∧ name ≠ "." := by
    constructor <;> rintro rfl <;> exact absurd null (by decide)
  have skip {name : String} (free : Char.ofNat 0 ∉ name.toList) (rest : List String) :
      (∃ other ∈ name :: rest, Char.ofNat 0 ∈ other.toList) ↔
        ∃ other ∈ rest, Char.ofNat 0 ∈ other.toList := by
    rw [List.exists_mem_cons_iff]
    exact or_iff_right free
  induction retraces with
  | @forth here names forth =>
      obtain ⟨fewer, less, same⟩ := Fewer.of_forth forth here
      rw [same]
      constructor
      · rintro ⟨name, member, null⟩
        rcases List.mem_append.mp member with earlier | later
        · exact absurd null (standing.null_free name earlier)
        · exact ⟨name, (less.mem_iff (holds null)).mpr later, null⟩
      · rintro ⟨name, member, null⟩
        exact ⟨name, List.mem_append_right _ ((less.mem_iff (holds null)).mp member), null⟩
  | @stay here name rest still _ ih =>
      have free : Char.ofNat 0 ∉ name.toList := by
        intro null
        exact absurd still (not_or.mpr (holds null))
      rw [List.foldl_cons, here.step_of_blank still, skip free]
      exact ih standing
  | @enter here name rest proper free entered _ ih =>
      rw [List.foldl_cons, step_of_proper here proper, skip free]
      exact ih (standing.enter proper free entered)
  | back _ ih =>
      rw [List.foldl_cons, skip (by decide)]
      exact ih standing.parent

/-- Before a link is met, names go on by a name that no directory has, and go back behind it. -/
inductive Strays (t : Tree) : Location → List String → Prop where
  | lost {here : Location} {name : String} {rest : List String} (proper : Proper name)
      (lost : t.entry? (here ++ [name]) = none ∨ ∃ bytes, t.entry? (here ++ [name]) = some (.file bytes))
      (back : ".." ∈ rest) : Strays t here (name :: rest)
  | stay {here : Location} {name : String} {rest : List String} (still : name = "" ∨ name = ".")
      (more : Strays t here rest) : Strays t here (name :: rest)
  | enter {here : Location} {name : String} {rest : List String} (proper : Proper name)
      (entered : t.entry? (here ++ [name]) = some .directory) (more : Strays t (here ++ [name]) rest) :
      Strays t here (name :: rest)
  | back {here : Location} {rest : List String} (more : Strays t here.parent rest) :
      Strays t here (".." :: rest)

theorem not_blank_of_back (back : ".." ∈ names) : names.all (· == "") = false := by
  rw [List.all_eq_false]
  exact ⟨"..", back, by decide⟩

theorem Strays.back_mem (strays : Strays t here names) : ".." ∈ names := by
  induction strays with
  | lost _ _ back => exact List.mem_cons_of_mem _ back
  | stay _ _ ih | enter _ _ _ ih => exact List.mem_cons_of_mem _ ih
  | back => exact List.mem_cons_self

/-- Whoever strays comes to no end. -/
theorem follow_strays (strays : Strays t here names) :
    ∃ fault, t.follow aim jump here names = .error fault := by
  induction strays with
  | @lost here name rest proper lost back =>
      have named : (!rest.isEmpty && rest.all (· == "")) = false := by
        rw [not_blank_of_back back, Bool.and_false]
      have more : ¬ rest.isEmpty = true := by
        rw [List.isEmpty_iff]
        exact List.ne_nil_of_mem back
      rw [Leads.follow_named proper named]
      rcases lost with absent | ⟨bytes, file⟩
      · exact ⟨.notFound, by rw [absent]; exact if_neg more⟩
      · exact ⟨.notDirectory, by rw [file]; exact if_neg more⟩
  | stay still _ ih =>
      rw [Leads.follow_stay still]
      exact ih
  | @enter here name rest proper entered more ih =>
      have named : (!rest.isEmpty && rest.all (· == "")) = false := by
        rw [not_blank_of_back more.back_mem, Bool.and_false]
      rw [Leads.follow_named proper named, entered]
      exact ih
  | back _ ih =>
      rw [Leads.follow_back]
      exact ih

theorem locate_strays {path : String} (strays : Strays t [] (segments path)) (aim : Aim) :
    ∃ fault, t.locate aim path = .error fault := by
  unfold locate
  split
  · exact ⟨_, rfl⟩
  split
  · exact ⟨_, rfl⟩
  · rw [Leads.followWithin_eq]
    exact follow_strays strays

/-- No call is made, or it is refused. -/
theorem attempt_error {α : Type} (call : DiskCall) (path : String) (fault : DiskFault) :
    ∃ error, (attempt call path (.error fault) : Except DiskError α) = .error error := by
  unfold attempt
  split <;> exact ⟨_, rfl⟩

end Tree

end SuperCalls
