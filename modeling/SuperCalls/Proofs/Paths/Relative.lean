/-
Module: SuperCalls.Proofs.Paths.Relative
Purpose: Names that are joined to a path, and a path that is cut into its names.  Each is got back from
  the other; the path is as long as the names with their slashes; and a location is got back from the
  path that leads to it from a directory.
Main exports: segments_append, intercalate_segments, mem_segments, weight,
  Location.weight_foldl_step, Location.resolve_relative
-/
import Mathlib.Data.List.Basic
import SuperCalls.Proofs.Paths.NormalForm

namespace SuperCalls

/-!
### Texts of paths
-/

theorem cutAtSlashes_append_cut (xs name rest : List Char) :
    cutAtSlashes name (xs ++ '/' :: rest) = cutAtSlashes name xs ++ cutAtSlashes [] rest := by
  induction xs generalizing name with
  | nil =>
      show cutAtSlashes name ('/' :: rest) = name.reverse :: cutAtSlashes [] rest
      rw [cutAtSlashes, if_pos rfl]
  | cons c xs ih =>
      rw [List.cons_append, cutAtSlashes, cutAtSlashes]
      split
      · rw [ih]
        rfl
      · exact ih _

/-- A path behind another one goes by the names of both. -/
theorem segments_append (path more : String) :
    segments (path ++ "/" ++ more) = segments path ++ segments more := by
  unfold segments
  rw [String.toList_append, String.toList_append, List.append_assoc, show "/".toList = ['/'] from rfl,
    List.singleton_append, cutAtSlashes_append_cut, List.map_append]

theorem cutAtSlashes_ne_nil (xs name : List Char) : cutAtSlashes name xs ≠ [] := by
  induction xs generalizing name with
  | nil => exact List.cons_ne_nil _ _
  | cons c xs ih =>
      rw [cutAtSlashes]
      split
      · exact List.cons_ne_nil _ _
      · exact ih _

theorem intercalate_cutAtSlashes (xs name : List Char) :
    "/".intercalate ((cutAtSlashes name xs).map String.ofList) =
      String.ofList (name.reverse ++ xs) := by
  induction xs generalizing name with
  | nil => rw [cutAtSlashes, List.map_cons, List.map_nil, String.intercalate_singleton, List.append_nil]
  | cons c xs ih =>
      rw [cutAtSlashes]
      split
      · next slash =>
          subst slash
          obtain ⟨next, rest, cut⟩ := List.exists_cons_of_ne_nil (cutAtSlashes_ne_nil xs [])
          have behind := ih []
          rw [cut, List.map_cons] at behind
          rw [List.map_cons, cut, List.map_cons, String.intercalate_cons_cons, behind]
          apply String.toList_injective
          simp
      · rw [ih, List.reverse_cons, List.append_assoc]
        rfl

/-- A path is its names, joined. -/
theorem intercalate_segments (path : String) : "/".intercalate (segments path) = path := by
  unfold segments
  rw [intercalate_cutAtSlashes]
  exact String.ofList_toList

/-- The number of bytes of names with a slash in front of each. -/
def weight : List String → Nat
  | [] => 0
  | name :: names => name.utf8ByteSize + 1 + weight names

theorem weight_append (names more : List String) :
    weight (names ++ more) = weight names + weight more := by
  induction names with
  | nil => exact (Nat.zero_add _).symm
  | cons name names ih =>
      show name.utf8ByteSize + 1 + weight (names ++ more) = _
      rw [ih, ← Nat.add_assoc]
      rfl

theorem weight_eq_of_ne_nil {names : List String} (named : names ≠ []) :
    weight names = ("/".intercalate names).utf8ByteSize + 1 := by
  induction names with
  | nil => exact absurd rfl named
  | cons name names ih =>
      cases names with
      | nil =>
          rw [String.intercalate_singleton]
          rfl
      | cons next names =>
          have behind := ih (List.cons_ne_nil next names)
          have slash : "/".utf8ByteSize = 1 := rfl
          rw [String.intercalate_cons_cons, String.utf8ByteSize_append, String.utf8ByteSize_append]
          show name.utf8ByteSize + 1 + weight (next :: names) = _
          omega

/-- The names of a path without slashes hold the other characters of the path. -/
theorem mem_cutAtSlashes {c : Char} (other : c ≠ '/') (xs name : List Char) :
    (∃ part ∈ cutAtSlashes name xs, c ∈ part) ↔ c ∈ name ∨ c ∈ xs := by
  induction xs generalizing name with
  | nil => simp [cutAtSlashes]
  | cons d xs ih =>
      rw [cutAtSlashes]
      split
      · next slash =>
          subst slash
          simp [ih, other]
      · rw [ih]
        simp [or_assoc, or_comm, or_left_comm]

theorem mem_segments {c : Char} (other : c ≠ '/') (path : String) :
    (∃ name ∈ segments path, c ∈ name.toList) ↔ c ∈ path.toList := by
  have cut := mem_cutAtSlashes other path.toList []
  unfold segments
  simp only [List.mem_map, exists_exists_and_eq_and, String.toList_ofList]
  simpa using cut

theorem ne_empty_of_isAbsolute {path : String} (absolute : isAbsolute path) : path ≠ "" := by
  rintro rfl
  cases absolute

namespace Location

/-- The text of a location holds the characters of its names, apart from slashes. -/
theorem mem_text {location : Location} (normal : location.Normal) {c : Char} (other : c ≠ '/') :
    c ∈ location.text.toList ↔ ∃ name ∈ location, c ∈ name.toList := by
  have free : c ∉ "".toList := List.not_mem_nil
  rw [← mem_segments other, segments_text normal, List.exists_mem_cons_iff, or_iff_right free]
  split
  · next root => simp [root]
  · rfl

/-!
### Lengths
-/

theorem weight_step (location : Location) (name : String) :
    weight (location.step name) ≤ weight location + weight [name] := by
  unfold step
  split
  · exact Nat.le_add_right _ _
  split
  · have shorter : weight location.dropLast ≤ weight location := by
      rcases List.eq_nil_or_concat location with rfl | ⟨front, last, rfl⟩
      · exact Nat.le_refl _
      · rw [List.concat_eq_append, List.dropLast_concat, weight_append]
        exact Nat.le_add_right _ _
    exact Nat.le_trans shorter (Nat.le_add_right _ _)
  · exact Nat.le_of_eq (weight_append _ _)

/-- Resolving names makes no path longer. -/
theorem weight_foldl_step (names : List String) (location : Location) :
    weight (names.foldl step location) ≤ weight location + weight names := by
  induction names generalizing location with
  | nil => exact Nat.le_add_right _ _
  | cons name names ih =>
      have first := weight_step location name
      have rest := ih (location.step name)
      have both : weight (name :: names) = weight [name] + weight names := weight_append [name] names
      rw [List.foldl_cons]
      omega

theorem utf8ByteSize_text {location : Location} (named : location ≠ []) :
    location.text.utf8ByteSize = weight location := by
  have slash : "/".utf8ByteSize = 1 := rfl
  unfold text
  rw [String.utf8ByteSize_append, weight_eq_of_ne_nil named, slash, Nat.add_comm]

/-!
### Relative paths
-/

/-- Two locations begin alike; behind that, names are left of the one and of the other. -/
theorem branch_eq (base target : Location) :
    ∃ common gone rest, base = common ++ gone ∧ target = common ++ rest ∧
      branch base target = (gone.length, rest) := by
  induction base generalizing target with
  | nil => exact ⟨[], [], target, rfl, rfl, by cases target <;> rfl⟩
  | cons name base ih =>
      cases target with
      | nil => exact ⟨[], name :: base, [], rfl, rfl, rfl⟩
      | cons first target =>
          by_cases same : name = first
          · subst same
            obtain ⟨common, gone, rest, rfl, rfl, branched⟩ := ih target
            exact ⟨name :: common, gone, rest, rfl, rfl, by rw [branch, if_pos rfl, branched]⟩
          · exact ⟨[], name :: base, first :: target, rfl, rfl, by rw [branch, if_neg same]; rfl⟩

theorem foldl_step_back (common gone : Location) :
    (List.replicate gone.length "..").foldl step (common ++ gone) = common := by
  induction gone using List.reverseRecOn with
  | nil => exact List.append_nil common
  | append_singleton gone name ih =>
      rw [List.length_append, List.length_singleton, List.replicate_succ, List.foldl_cons,
        ← List.append_assoc, step_back, ih]

/-- Names that are joined do not start from the root. -/
theorem isAbsolute_intercalate {names : List String}
    (each : ∀ name ∈ names, name ≠ "" ∧ '/' ∉ name.toList) :
    isAbsolute ("/".intercalate names) = false := by
  cases names with
  | nil => rfl
  | cons first names =>
      have cut := segments_intercalate (List.cons_ne_nil first names) fun name member =>
        (each name member).2
      refine Bool.eq_false_iff.mpr fun absolute => ?_
      have head := head?_of_isAbsolute absolute
      rw [cut] at head
      exact (each first List.mem_cons_self).1 (Option.some.inj head)

/-- The path that names are joined to leads where the names lead. -/
theorem resolve_intercalate {names : List String} (base : Location)
    (each : ∀ name ∈ names, name ≠ "" ∧ '/' ∉ name.toList) :
    base.resolve ("/".intercalate names) = names.foldl step base := by
  cases names with
  | nil => rfl
  | cons first names =>
      have cut := segments_intercalate (List.cons_ne_nil first names) fun name member =>
        (each name member).2
      unfold resolve
      rw [cut, if_neg (Bool.eq_false_iff.mp (isAbsolute_intercalate each))]

/-- The names on the way from a directory to a normal location can be joined. -/
theorem names_of_relative {target : Location} (normal : target.Normal) (base : Location) :
    ∀ name ∈ List.replicate (branch base target).1 ".." ++ (branch base target).2,
      name ≠ "" ∧ '/' ∉ name.toList := by
  intro name member
  rcases List.mem_append.mp member with back | forth
  · rw [List.eq_of_mem_replicate back]
    decide
  · have plain := normal name ((branch_suffix base target).subset forth)
    exact ⟨plain.1, plain.2.2.2⟩

/-- A path from a directory does not start from the root. -/
theorem isAbsolute_relative {target : Location} (normal : target.Normal) (base : Location) :
    isAbsolute (base.relative target) = false :=
  isAbsolute_intercalate (names_of_relative normal base)

/-- The path from a directory to a location leads there from the directory. -/
theorem resolve_relative {target : Location} (normal : target.Normal) (base : Location) :
    base.resolve (base.relative target) = target := by
  have whole : base.resolve (base.relative target) = _ :=
    resolve_intercalate base (names_of_relative normal base)
  rw [whole]
  obtain ⟨common, gone, rest, rfl, rfl, branched⟩ := branch_eq base target
  have plain : Normal rest := fun name member => normal name (List.mem_append_right _ member)
  rw [branched, List.foldl_append, foldl_step_back, foldl_step_of_normal plain]

/-- Different locations have different paths from a directory. -/
theorem relative_injective {base target other : Location} (normal : target.Normal)
    (plain : other.Normal) (same : base.relative target = base.relative other) :
    target = other := by
  rw [← resolve_relative normal base, same, resolve_relative plain]

/-- The path from a directory to what lies below it is made of the names on the way. -/
theorem relative_append (base : Location) (path : String) :
    base.relative (base ++ segments path) = path := by
  unfold relative
  rw [branch_append]
  exact intercalate_segments path

end Location

end SuperCalls
