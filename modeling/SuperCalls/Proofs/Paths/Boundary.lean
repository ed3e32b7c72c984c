/-
Module: SuperCalls.Proofs.Paths.Boundary
Purpose: What the texts of paths say about locations.  The text of a normal location is cut into its
  names again, and a location is within another one exactly if the names of that one begin it.
Main exports: Location.Normal, Location.normal_resolve, Location.segments_text,
  Location.resolve_text, isWithin_iff, Workspace.isInside_iff
-/
import SuperCalls.Sandbox.Workspace

namespace SuperCalls

/-!
### Cutting at slashes
-/

theorem cutAtSlashes_of_free {xs : List Char} (free : '/' ∉ xs) (name : List Char) :
    cutAtSlashes name xs = [name.reverse ++ xs] := by
  induction xs generalizing name with
  | nil => rw [cutAtSlashes, List.append_nil]
  | cons c xs ih =>
      rw [List.mem_cons, not_or] at free
      rw [cutAtSlashes, if_neg (Ne.symm free.1), ih free.2, List.reverse_cons, List.append_assoc]
      rfl

theorem cutAtSlashes_append {xs : List Char} (free : '/' ∉ xs) (name rest : List Char) :
    cutAtSlashes name (xs ++ '/' :: rest) = (name.reverse ++ xs) :: cutAtSlashes [] rest := by
  induction xs generalizing name with
  | nil => rw [List.nil_append, cutAtSlashes, if_pos rfl, List.append_nil]
  | cons c xs ih =>
      rw [List.mem_cons, not_or] at free
      rw [List.cons_append, cutAtSlashes, if_neg (Ne.symm free.1), ih free.2, List.reverse_cons,
        List.append_assoc]
      rfl

theorem slash_not_mem_cutAtSlashes (xs : List Char) :
    ∀ {name : List Char}, '/' ∉ name → ∀ part ∈ cutAtSlashes name xs, '/' ∉ part := by
  induction xs with
  | nil =>
      intro name free part member
      cases List.mem_singleton.mp member
      rwa [List.mem_reverse]
  | cons c xs ih =>
      intro name free part member
      rw [cutAtSlashes] at member
      split at member
      · rcases List.mem_cons.mp member with rfl | later
        · rwa [List.mem_reverse]
        · exact ih List.not_mem_nil part later
      · next other =>
          apply ih _ part member
          rw [List.mem_cons, not_or]
          exact ⟨Ne.symm other, free⟩

/-- No name of a path holds a slash. -/
theorem slash_not_mem_segments {path name : String} (member : name ∈ segments path) :
    '/' ∉ name.toList := by
  obtain ⟨part, cut, rfl⟩ := List.mem_map.mp member
  rw [String.toList_ofList]
  exact slash_not_mem_cutAtSlashes _ List.not_mem_nil part cut

/-- Names without slashes can be read back from the text that joins them. -/
theorem segments_intercalate {names : List String} (named : names ≠ [])
    (free : ∀ name ∈ names, '/' ∉ name.toList) : segments ("/".intercalate names) = names := by
  unfold segments
  induction names with
  | nil => exact absurd rfl named
  | cons name names ih =>
      have own := free name List.mem_cons_self
      cases names with
      | nil => rw [String.intercalate_singleton, cutAtSlashes_of_free own]; simp
      | cons next names =>
          have rest := ih (List.cons_ne_nil next names) fun other member =>
            free other (List.mem_cons_of_mem _ member)
          rw [String.intercalate_cons_cons, String.toList_append, String.toList_append,
            List.append_assoc, show "/".toList = ['/'] from rfl, List.singleton_append,
            cutAtSlashes_append own, List.map_cons, rest]
          simp

/-- The first name of a path that starts with a slash is empty. -/
theorem head?_of_isAbsolute {path : String} (absolute : isAbsolute path) :
    (segments path).head? = some "" := by
  have first := eq_of_beq absolute
  unfold segments
  obtain ⟨rest, same⟩ := List.head?_eq_some_iff.mp first
  rw [same, cutAtSlashes, if_pos rfl]
  rfl

namespace Location

/-!
### Normal locations
-/

/-- A name that stays when a path is normalised. -/
def Plain (name : String) : Prop :=
  name ≠ "" ∧ name ≠ "." ∧ name ≠ ".." ∧ '/' ∉ name.toList

instance (name : String) : Decidable (Plain name) :=
  inferInstanceAs (Decidable (_ ∧ _ ∧ _ ∧ _))

/-- A location of plain names. -/
def Normal (location : Location) : Prop :=
  ∀ name ∈ location, Plain name

instance (location : Location) : Decidable location.Normal :=
  inferInstanceAs (Decidable (∀ name ∈ location, Plain name))

theorem step_of_plain (location : Location) {name : String} (plain : Plain name) :
    location.step name = location ++ [name] :=
  step_of_moves location (not_or.mpr ⟨plain.1, plain.2.1⟩) plain.2.2.1

theorem foldl_step_of_normal {names : Location} (normal : names.Normal) (location : Location) :
    names.foldl step location = location ++ names := by
  induction names generalizing location with
  | nil => exact (List.append_nil location).symm
  | cons name names ih =>
      rw [List.foldl_cons, step_of_plain location (normal name List.mem_cons_self),
        ih fun other member => normal other (List.mem_cons_of_mem _ member), List.append_assoc]
      rfl

theorem normal_step {location : Location} (normal : location.Normal) {name : String}
    (free : '/' ∉ name.toList) : (location.step name).Normal := by
  unfold step
  split
  · exact normal
  · next moves =>
      split
      · exact fun other member => normal other (List.dropLast_subset location member)
      · next forth =>
          intro other member
          rcases List.mem_append.mp member with earlier | last
          · exact normal other earlier
          · cases List.mem_singleton.mp last
            have named : name ≠ "" ∧ name ≠ "." := by simpa using moves
            exact ⟨named.1, named.2, forth, free⟩

theorem normal_foldl {location : Location} (normal : location.Normal) {names : List String}
    (free : ∀ name ∈ names, '/' ∉ name.toList) : (names.foldl step location).Normal := by
  induction names generalizing location with
  | nil => exact normal
  | cons name names ih =>
      exact ih (normal_step normal (free name List.mem_cons_self)) fun other member =>
        free other (List.mem_cons_of_mem _ member)

/-- Paths are normalised to normal locations. -/
theorem normal_resolve {base : Location} (normal : base.Normal) (path : String) :
    (base.resolve path).Normal := by
  unfold resolve
  apply normal_foldl
  · split
    · exact fun _ member => (List.not_mem_nil member).elim
    · exact normal
  · exact fun _ member => slash_not_mem_segments member

theorem isAbsolute_text (location : Location) : isAbsolute location.text := by
  unfold isAbsolute text
  rw [String.toList_append]
  rfl

/-- The text of a location is cut into an empty name and the names of the location. -/
theorem segments_text {location : Location} (normal : location.Normal) :
    segments location.text = "" :: if location = [] then [""] else location := by
  split
  · next root =>
      subst root
      decide
  · next named =>
      have names := segments_intercalate named fun name member => (normal name member).2.2.2
      unfold text
      unfold segments at names ⊢
      rw [String.toList_append, show "/".toList = ['/'] from rfl, List.singleton_append,
        cutAtSlashes, if_pos rfl, List.map_cons, names]
      rfl

/-- A normal location is what its text is normalised to. -/
theorem resolve_text {location : Location} (normal : location.Normal) (base : Location) :
    base.resolve location.text = location := by
  unfold resolve
  rw [if_pos (isAbsolute_text location), segments_text normal]
  split
  · next root =>
      subst root
      rfl
  · exact foldl_step_of_normal normal []

/-!
### Locations below others
-/

theorem branch_append (base rest : Location) : branch base (base ++ rest) = (0, rest) := by
  induction base with
  | nil => cases rest <;> rfl
  | cons name base ih => rw [List.cons_append, branch, if_pos rfl, ih]

/-- Behind what both begin with nothing is left of a location that begins the other one. -/
theorem branch_eq_zero_iff (base target : Location) :
    (branch base target).1 = 0 ↔ base <+: target := by
  constructor
  · intro none
    induction base generalizing target with
    | nil => exact List.nil_prefix
    | cons name base ih =>
        cases target with
        | nil => cases none
        | cons first target =>
            rw [branch] at none
            split at none
            · next same =>
                subst same
                exact List.cons_prefix_cons.mpr ⟨rfl, ih target none⟩
            · cases none
  · rintro ⟨rest, rfl⟩
    rw [branch_append]

theorem branch_suffix (base target : Location) : (branch base target).2 <:+ target := by
  induction base generalizing target with
  | nil => cases target <;> exact List.suffix_refl _
  | cons name base ih =>
      cases target with
      | nil => exact List.suffix_refl _
      | cons first target =>
          rw [branch]
          split
          · exact (ih target).trans (List.suffix_cons first target)
          · exact List.suffix_refl _

/-- The text of a relative path begins by going back. -/
def goesBack (path : String) : Bool :=
  path == ".." || "../".toList.isPrefixOf path.toList

theorem head?_of_goesBack {path : String} (back : goesBack path) :
    (segments path).head? = some ".." := by
  rcases Bool.or_eq_true_iff.mp back with same | begins
  · rw [eq_of_beq same]
    decide
  · obtain ⟨rest, same⟩ := List.isPrefixOf_iff_prefix.mp begins
    unfold segments
    rw [← same, show "../".toList ++ rest = ['.', '.'] ++ '/' :: rest from rfl,
      cutAtSlashes_append (by decide)]
    rfl

theorem goesBack_intercalate (names : List String) : goesBack ("/".intercalate (".." :: names)) := by
  unfold goesBack
  rw [Bool.or_eq_true_iff]
  cases names with
  | nil => exact Or.inl (by rw [String.intercalate_singleton]; rfl)
  | cons name names =>
      right
      rw [String.intercalate_cons_cons, String.toList_append, List.isPrefixOf_iff_prefix]
      exact List.prefix_append _ _

end Location

open Location

/-- A location is within another one exactly if that one begins it. -/
theorem isWithin_iff {base target : Location} (normal : target.Normal) :
    isWithin base target ↔ base <+: target := by
  have plain : ∀ name ∈ (branch base target).2, Plain name :=
    fun name member => normal name ((branch_suffix base target).subset member)
  rw [← branch_eq_zero_iff, show isWithin base target =
    !(goesBack (base.relative target) || isAbsolute (base.relative target)) from rfl]
  unfold relative
  generalize branch base target = branched at plain ⊢
  obtain ⟨back, rest⟩ := branched
  cases back with
  | succ back =>
      simp only [List.replicate_succ, List.cons_append, goesBack_intercalate]
      simp
  | zero =>
      simp only [List.replicate_zero, List.nil_append, iff_true]
      cases rest with
      | nil => decide
      | cons name rest =>
          have names := segments_intercalate (List.cons_ne_nil name rest)
            fun other member => (plain other member).2.2.2
          have own := plain name List.mem_cons_self
          rw [Bool.not_eq_true', Bool.or_eq_false_iff]
          constructor
          · apply Bool.eq_false_iff.mpr
            intro back
            have head := head?_of_goesBack back
            rw [names] at head
            exact own.2.2.1 (Option.some.inj head)
          · apply Bool.eq_false_iff.mpr
            intro absolute
            have head := head?_of_isAbsolute absolute
            rw [names] at head
            exact own.1 (Option.some.inj head)

namespace Workspace

/-- The location of a path is normal. -/
theorem normal_location (w : Workspace) (path : String) : (w.location path).Normal :=
  normal_resolve (fun _ member => (List.not_mem_nil member).elim) _

/-- A path is inside an enforced boundary exactly if its location is the work directory, an allowed
one, or below one of them. -/
theorem isInside_iff {w : Workspace} (enforced : w.enforceBoundary = true) (path : String) :
    w.isInside path ↔ ∃ base ∈ w.workDir :: w.allowed, base <+: w.location path := by
  unfold isInside
  simp only [enforced, Bool.not_true, Bool.or_false, Bool.or_eq_true, List.any_eq_true,
    isWithin_iff (w.normal_location path), List.mem_cons, exists_eq_or_imp]

/-- What lies below the work directory is inside. -/
theorem isInside_of_below {w : Workspace} {path : String} (below : w.workDir <+: w.location path) :
    w.isInside path := by
  unfold isInside
  simp only [(isWithin_iff (w.normal_location path)).mpr below, Bool.true_or]

theorem guarded_of_inside {w : Workspace} {path : String} (inside : w.isInside path = true) :
    w.guarded path = .ok (w.resolve path) :=
  if_pos inside

/-- The disk is given an absolute path. -/
theorem isAbsolute_resolve (w : Workspace) (path : String) : isAbsolute (w.resolve path) := by
  unfold resolve
  split
  · next absolute => exact absolute
  · exact isAbsolute_text _

end Workspace

end SuperCalls
