/-
Module: SuperCalls.Proofs.Workspace.TidyPaths
Purpose: Trees of directories and well-formed files, and paths in normal form.  In such a tree names are
  followed to what stands under them, so what a workspace finds under such a path is the text that stands
  there or nothing.
Main exports: Tree.Ordinary, Tree.textAt?, Tree.Meets, Tree.Ordinary.locate_meets, Workspace.Tidy,
  Workspace.run_isFile_tidy, Workspace.run_read_tidy, Workspace.run_write_tidy
-/
import SuperCalls.Proofs.Tree.GoingBack
import SuperCalls.Proofs.Workspace.RoundTrip

namespace SuperCalls

open Location
open Text.Utf8 (WellFormed decode? encode decode?_encode decode?_eq_some_iff wellFormed_iff)

namespace Tree

variable {t : Tree} {here location there : Location} {names : List String}

/-!
### Ordinary trees
-/

/-- A name that a file can have. -/
def Legal (name : String) : Prop :=
  Plain name ∧ name.utf8ByteSize ≤ nameLimit ∧ Char.ofNat 0 ∉ name.toList

instance : DecidablePred Legal := fun name =>
  inferInstanceAs
    (Decidable (Plain name ∧ name.utf8ByteSize ≤ nameLimit ∧ Char.ofNat 0 ∉ name.toList))

theorem Legal.proper {name : String} (legal : Legal name) : Proper name :=
  ⟨legal.1.1, legal.1.2.1, legal.1.2.2.1, Nat.not_lt.mpr legal.2.1⟩

/-- A tree of directories and files of well-formed bytes. -/
structure Ordinary (t : Tree) : Prop where
  legal : ∀ location, (t.entry? location).isSome → ∀ name ∈ location, Legal name
  /-- What stands anywhere stands in a directory. -/
  rooted : ∀ location name, (t.entry? (location ++ [name])).isSome →
    t.entry? location = some .directory
  linkless : ∀ location target, t.entry? location ≠ some (.link target)
  readable : ∀ location bytes, t.entry? location = some (.file bytes) → WellFormed bytes

/-- An entry that an ordinary tree has. -/
def Sound (t : Tree) (location : Location) (entry : Entry) : Prop :=
  (∀ name ∈ location, Legal name) ∧ t.entry? location.parent = some .directory ∧
    match entry with
    | .directory => True
    | .file bytes => (decode? bytes).isSome
    | .link _ => False

instance (t : Tree) (location : Location) (entry : Entry) : Decidable (t.Sound location entry) := by
  unfold Sound
  cases entry <;> infer_instance

/-- The text of the file at a location. -/
def textAt? (t : Tree) (location : Location) : Option String :=
  match t.entry? location with
  | some (.file bytes) => decode? bytes
  | _ => none

theorem textAt?_eq_some_iff {text : String} :
    t.textAt? location = some text ↔ t.entry? location = some (.file (encode text)) := by
  unfold textAt?
  constructor
  · intro read
    split at read
    · next bytes found => rw [found, decode?_eq_some_iff.mp read]
    · cases read
  · intro found
    rw [found]
    exact decode?_encode text

theorem Ordinary.normal (ordinary : t.Ordinary) (present : (t.entry? location).isSome) :
    location.Normal :=
  fun name member => (ordinary.legal location present name member).1

theorem Ordinary.normal_of_text (ordinary : t.Ordinary) {text : String}
    (found : t.textAt? location = some text) : location.Normal := by
  apply ordinary.normal
  rw [textAt?_eq_some_iff.mp found]
  rfl

/-- How following names to a location ends in a tree without links. -/
inductive Meets (t : Tree) (there : Location) : Except DiskFault Spot → Prop where
  | found {entry : Entry} (present : t.entry? there = some entry) :
      Meets t there (.ok ⟨there, some entry⟩)
  | missing (absent : t.entry? there = none) : Meets t there (.ok ⟨there, none⟩)
  | refused {fault : DiskFault} (absent : t.entry? there = none)
      (absence : fault = .notFound ∨ fault = .notDirectory) : Meets t there (.error fault)

namespace Ordinary

variable (ordinary : t.Ordinary)

include ordinary

/-- Above what stands anywhere are directories. -/
theorem above (named : names ≠ []) (present : (t.entry? (here ++ names)).isSome) :
    t.entry? here = some .directory := by
  induction names generalizing here with
  | nil => exact absurd rfl named
  | cons name names ih =>
      rw [List.append_cons] at present
      by_cases last : names = []
      · rw [last, List.append_nil] at present
        exact ordinary.rooted here name present
      · apply ordinary.rooted here name
        rw [ih last present]
        rfl

theorem absent_of_above (named : names ≠ []) (other : t.entry? here ≠ some .directory) :
    t.entry? (here ++ names) = none := by
  apply Option.not_isSome_iff_eq_none.mp
  exact fun present => other (ordinary.above named present)

/-- Proper names are followed to what stands under them. -/
theorem follow_meets {aim : Aim} {jump : Location → List String → Except DiskFault Spot}
    (proper : ∀ name ∈ names, Proper name) (standing : t.entry? here = some .directory) :
    t.Meets (here ++ names) (t.follow aim jump here names) := by
  induction names generalizing here with
  | nil =>
      rw [List.append_nil]
      exact .found standing
  | cons name rest ih =>
      have later : ∀ other ∈ rest, Proper other := fun other member =>
        proper other (List.mem_cons_of_mem name member)
      have named : (!rest.isEmpty && rest.all (· == "")) = false := by
        cases rest with
        | nil => rfl
        | cons next rest =>
            have given : (next == "") = false := beq_false_of_ne (later next List.mem_cons_self).1
            rw [List.all_cons, given, Bool.false_and, Bool.and_false]
      rw [Leads.follow_named (proper name List.mem_cons_self) named, List.append_cons]
      -- only a directory goes on: nothing stands below what is absent or a file
      cases stands : t.entry? (here ++ [name]) with
      | none =>
          by_cases last : rest = []
          · subst last
            rw [List.append_nil]
            exact .missing stands
          · rw [if_neg (by simpa using last)]
            refine .refused (ordinary.absent_of_above last ?_) (Or.inl rfl)
            rw [stands]
            nofun
      | some entry =>
          cases entry with
          | directory => exact ih later stands
          | file bytes =>
              by_cases last : rest = []
              · subst last
                rw [List.append_nil]
                exact .found stands
              · simp only
                rw [if_neg (by simpa using last)]
                refine .refused (ordinary.absent_of_above last ?_) (Or.inr rfl)
                rw [stands]
                nofun
          | link target => exact absurd stands (ordinary.linkless _ target)

/-- The path of a location leads to what stands there. -/
theorem locate_meets (legal : ∀ name ∈ location, Legal name)
    (short : location.text.utf8ByteSize ≤ pathLimit) (aim : Aim) :
    t.Meets location (t.locate aim location.text) := by
  have normal : location.Normal := fun name member => (legal name member).1
  have given := ne_empty_of_isAbsolute (isAbsolute_text location)
  have root : t.entry? [] = some .directory := rfl
  unfold locate
  rw [if_neg given, if_neg (Nat.not_lt.mpr short), followWithin_text normal, Leads.followWithin_eq]
  exact ordinary.follow_meets (fun name member => (legal name member).proper) root

omit ordinary in
/-- It is enough to look at what is listed. -/
theorem of_sound (each : ∀ listed ∈ t.entries, t.Sound listed.1 listed.2) : t.Ordinary := by
  have stands {location : Location} {entry : Entry} (found : t.entry? location = some entry) :
      location = [] ∧ entry = .directory ∨ t.Sound location entry := by
    by_cases root : location = []
    · subst root
      exact Or.inl ⟨rfl, (Option.some.inj found).symm⟩
    · exact Or.inr (each _ (mem_of_lookup (entry?_of_ne root ▸ found)))
  constructor
  · intro location present
    obtain ⟨entry, found⟩ := Option.isSome_iff_exists.mp present
    rcases stands found with ⟨rfl, _⟩ | ⟨legal, _⟩
    · nofun
    · exact legal
  · intro location name present
    obtain ⟨entry, found⟩ := Option.isSome_iff_exists.mp present
    rcases stands found with ⟨root, _⟩ | ⟨_, above, _⟩
    · exact absurd root (by simp)
    · rwa [Location.parent, List.dropLast_concat] at above
  · intro location target found
    rcases stands found with ⟨_, other⟩ | ⟨_, _, sound⟩
    · cases other
    · exact sound
  · intro location bytes found
    rcases stands found with ⟨_, other⟩ | ⟨_, _, sound⟩
    · cases other
    · obtain ⟨text, read⟩ := Option.isSome_iff_exists.mp sound
      exact wellFormed_iff.mpr ⟨text, decode?_eq_some_iff.mp read⟩

/-- A file of an ordinary tree is given another text. -/
theorem put_text {old : String} (found : t.textAt? there = some old) (text : String) :
    (t.put there (.file (encode text))).Ordinary := by
  have file := textAt?_eq_some_iff.mp found
  have put := put_file file (encode text)
  have present : (t.entry? there).isSome := by
    rw [file]
    rfl
  constructor
  · intro location stands
    rw [put] at stands
    split at stands
    · next same =>
        rw [same]
        exact ordinary.legal there present
    · exact ordinary.legal location stands
  · intro location name stands
    have below : (t.entry? (location ++ [name])).isSome := by
      rw [put] at stands
      split at stands
      · next same => rwa [same]
      · exact stands
    have above := ordinary.rooted location name below
    rw [put, if_neg]
    · exact above
    · rintro rfl
      rw [file] at above
      cases above
  · intro location target
    rw [put]
    split
    · nofun
    · exact ordinary.linkless location target
  · intro location bytes stands
    rw [put] at stands
    split at stands
    · cases stands
      exact wellFormed_iff.mpr ⟨text, rfl⟩
    · exact ordinary.readable location bytes stands

end Ordinary

/-- The texts behind new bytes for a file. -/
theorem textAt?_put {old : String} (found : t.textAt? there = some old) (text : String)
    (location : Location) :
    (t.put there (.file (encode text))).textAt? location =
      if location = there then some text else t.textAt? location := by
  unfold textAt?
  rw [put_file (textAt?_eq_some_iff.mp found)]
  by_cases here : location = there
  · rw [if_pos here, if_pos here]
    exact decode?_encode text
  · rw [if_neg here, if_neg here]

theorem attempt_of_free {α : Type} {path : String}
    (free : path.toList.contains (Char.ofNat 0) = false) (call : DiskCall)
    (act : Except DiskFault α) :
    attempt call path act =
      match act with
      | .ok value => .ok value
      | .error fault => .error (.refused fault call (some path)) :=
  if_neg (Bool.eq_false_iff.mp free)

end Tree

namespace Workspace

open SuperCalls.Tree (Legal pathLimit)

variable {w : Workspace} {t : Tree} {path : String}

/-!
### Tidy paths
-/

/-- A relative path in normal form.  Neither its names nor its spelling from the root are too long. -/
structure Tidy (w : Workspace) (path : String) : Prop where
  legal : ∀ name ∈ segments path, Legal name
  short : (w.resolve path).utf8ByteSize ≤ pathLimit

namespace Tidy

variable (tidy : w.Tidy path)

include tidy

theorem relative : isAbsolute path = false := by
  apply Bool.eq_false_iff.mpr
  intro absolute
  have first := List.mem_of_mem_head? (head?_of_isAbsolute absolute)
  exact (tidy.legal "" first).1.1 rfl

theorem resolve_workDir : w.workDir.resolve path = w.workDir ++ segments path := by
  have normal : Normal (segments path) := fun name member => (tidy.legal name member).1
  unfold Location.resolve
  rw [tidy.relative, if_neg Bool.false_ne_true, foldl_step_of_normal normal]

/-- The disk is given the path of a location below the work directory. -/
theorem resolve_eq : w.resolve path = (w.workDir ++ segments path).text := by
  rw [resolve_of_relative tidy.relative, tidy.resolve_workDir]

theorem location_eq (legal : ∀ name ∈ w.workDir, Legal name) :
    w.location path = w.workDir ++ segments path := by
  have normal : w.workDir.Normal := fun name member => (legal name member).1
  rw [Workspace.location_eq normal, tidy.resolve_workDir]

theorem legal_location (legal : ∀ name ∈ w.workDir, Legal name) :
    ∀ name ∈ w.location path, Legal name := by
  intro name member
  rw [tidy.location_eq legal] at member
  rcases List.mem_append.mp member with work | own
  · exact legal name work
  · exact tidy.legal name own

/-- The boundary lets the path pass. -/
theorem guarded_eq (legal : ∀ name ∈ w.workDir, Legal name) :
    w.guarded path = .ok (w.location path).text := by
  have inside : w.isInside path = true := by
    apply isInside_of_below
    rw [tidy.location_eq legal]
    exact List.prefix_append _ _
  rw [guarded_of_inside inside, tidy.resolve_eq, tidy.location_eq legal]

theorem short_location (legal : ∀ name ∈ w.workDir, Legal name) :
    (w.location path).text.utf8ByteSize ≤ pathLimit := by
  rw [tidy.location_eq legal, ← tidy.resolve_eq]
  exact tidy.short

/-- The work directory is left out of the key of the path. -/
theorem relative_location (legal : ∀ name ∈ w.workDir, Legal name) :
    w.workDir.relative (w.location path) = path := by
  rw [tidy.location_eq legal, relative_append]

end Tidy

theorem null_free_text {location : Location} (legal : ∀ name ∈ location, Legal name) :
    location.text.toList.contains (Char.ofNat 0) = false := by
  have normal : location.Normal := fun name member => (legal name member).1
  apply Bool.eq_false_iff.mpr
  intro null
  obtain ⟨name, member, holds⟩ := (mem_text normal (by decide)).mp (List.contains_iff_mem.mp null)
  exact (legal name member).2.2 holds

/-!
### Calls on ordinary trees
-/

section Calls

variable (finder : Finder) (ordinary : t.Ordinary) (legal : ∀ name ∈ w.workDir, Legal name)
  (tidy : w.Tidy path)

include ordinary legal tidy

/-- A tidy path stands for a file exactly if there is a text. -/
theorem run_isFile_tidy :
    (w.isFile finder.disk path).run t = (.ok (t.textAt? (w.location path)).isSome, t) := by
  have free := null_free_text (tidy.legal_location legal)
  have meets := ordinary.locate_meets (tidy.legal_location legal) (tidy.short_location legal) .target
  rw [run_isFile, tidy.guarded_eq legal]
  unfold Tree.stat Tree.textAt?
  simp only [Tree.attempt_of_free free]
  generalize t.locate .target (w.location path).text = located at meets
  cases meets with
  | @found entry present =>
      rw [present]
      cases entry with
      | directory => rfl
      | file bytes =>
          obtain ⟨text, same⟩ := wellFormed_iff.mp (ordinary.readable _ bytes present)
          simp only [decode?_eq_some_iff.mpr same]
          rfl
      | link target => exact absurd present (ordinary.linkless _ target)
  | missing absent =>
      rw [absent]
      rfl
  | refused absent absence =>
      rw [absent]
      rcases absence with rfl | rfl <;> rfl

variable {text : String} (found : t.textAt? (w.location path) = some text)

include found

theorem reaches_tidy : t.Reaches (w.location path).text (w.location path) := by
  have meets := ordinary.locate_meets (tidy.legal_location legal) (tidy.short_location legal) .target
  have file := Tree.textAt?_eq_some_iff.mp found
  refine ⟨encode text, ?_⟩
  generalize t.locate .target (w.location path).text = located at meets
  cases meets with
  | found present =>
      rw [file] at present
      rw [Option.some.inj present]
  | missing absent | refused absent =>
      rw [file] at absent
      cases absent

theorem run_read_tidy : (w.read finder.disk path).run t = (.ok text, t) := by
  have read := Tree.read_of_reaches (reaches_tidy ordinary legal tidy found)
    (Tree.textAt?_eq_some_iff.mp found)
  rw [Tree.attempt_of_free (null_free_text (tidy.legal_location legal))] at read
  rw [run_disk_read, tidy.guarded_eq legal]
  simp only [read, decode?_encode]

theorem run_write_tidy (content : String) :
    (w.write finder.disk path content).run t =
      (.ok (), t.put (w.location path) (.file (encode content))) := by
  have written := Tree.write_of_reaches (reaches_tidy ordinary legal tidy found) (encode content)
  rw [Tree.attempt_of_free (null_free_text (tidy.legal_location legal))] at written
  rw [run_write, tidy.guarded_eq legal]
  simp only [written]

end Calls

end Workspace

end SuperCalls
