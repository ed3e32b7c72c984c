/-
Module: SuperCalls.Proofs.Paths.NormalForm
Purpose: The normal form of a path, by rules that shorten its names one step at a time.  However the
  rules are applied they end at one location, which is the one that a path is resolved to; so the
  boundary of a workspace is drawn on normal forms.
Main exports: Location.Shortens, Location.NormalForm, Location.normalForm_iff,
  Location.normalForm_resolve, Workspace.isInside_exact
-/
import Mathlib.Data.List.Induction
import Mathlib.Logic.Relation
import SuperCalls.Proofs.Paths.Boundary

namespace SuperCalls

namespace Location

/-!
### Shortening names
-/

/-- The names of an absolute path are shortened by a step, and lead to the same location if no link
stands on the way. -/
inductive Shortens : List String → List String → Prop where
  /-- A blank name is left out. -/
  | blank {front rest : List String} {name : String} (still : name = "" ∨ name = ".") :
      Shortens (front ++ name :: rest) (front ++ rest)
  /-- Going back takes the name before it away. -/
  | cancel {front rest : List String} {name : String} (plain : Plain name) :
      Shortens (front ++ name :: ".." :: rest) (front ++ rest)
  /-- Nothing is behind the root. -/
  | root {rest : List String} : Shortens (".." :: rest) rest

/-- Names are shortened step by step to a location that cannot be shortened any more. -/
structure NormalForm (names : List String) (form : Location) : Prop where
  shortens : Relation.ReflTransGen Shortens names form
  normal : form.Normal

namespace Shortens

variable {names fewer : List String}

theorem append (shortens : Shortens names fewer) (more : List String) :
    Shortens (names ++ more) (fewer ++ more) := by
  cases shortens with
  | blank still =>
      rw [List.append_assoc, List.cons_append, List.append_assoc]
      exact .blank still
  | cancel plain =>
      rw [List.append_assoc, List.cons_append, List.cons_append, List.append_assoc]
      exact .cancel plain
  | root =>
      rw [List.cons_append]
      exact .root

/-- A step changes nothing about where the names lead. -/
theorem foldl_eq (shortens : Shortens names fewer) : names.foldl step [] = fewer.foldl step [] := by
  cases shortens with
  | @blank front rest name still =>
      rw [List.foldl_append, List.foldl_cons, step_of_blank _ still, List.foldl_append]
  | @cancel front rest name plain =>
      rw [List.foldl_append, List.foldl_cons, List.foldl_cons, step_of_plain _ plain, step_back,
        List.foldl_append]
  | root => rfl

end Shortens

theorem shortens_append {names fewer : List String}
    (shortens : Relation.ReflTransGen Shortens names fewer) (more : List String) :
    Relation.ReflTransGen Shortens (names ++ more) (fewer ++ more) := by
  induction shortens with
  | refl => exact .refl
  | tail _ step ih => exact ih.tail (step.append more)

/-- A location with one name more is shortened to where that name leads. -/
theorem shortens_step {location : Location} (normal : location.Normal) {name : String}
    (free : '/' ∉ name.toList) :
    Relation.ReflTransGen Shortens (location ++ [name]) (location.step name) := by
  by_cases still : name = "" ∨ name = "."
  · have shorter : Shortens (location ++ name :: []) (location ++ []) := .blank still
    rw [List.append_nil] at shorter
    rw [step_of_blank location still]
    exact .single shorter
  by_cases back : name = ".."
  · subst back
    rcases List.eq_nil_or_concat location with rfl | ⟨front, last, rfl⟩
    · exact .single .root
    · have plain : Plain last := normal last (by simp)
      have shorter : Shortens (front ++ last :: ".." :: []) (front ++ []) := .cancel plain
      rw [List.append_nil] at shorter
      rw [List.concat_eq_append, step_back, List.append_assoc]
      exact .single shorter
  · rw [not_or] at still
    rw [step_of_plain location ⟨still.1, still.2, back, free⟩]

/-- Names without slashes have one normal form, which is the location that they lead to. -/
theorem normalForm_iff {names : List String} (free : ∀ name ∈ names, '/' ∉ name.toList)
    {form : Location} : NormalForm names form ↔ form = names.foldl step [] := by
  constructor
  · rintro ⟨shortens, normal⟩
    have same : names.foldl step [] = form.foldl step [] := by
      clear normal free
      induction shortens with
      | refl => rfl
      | tail _ last ih => rw [ih, last.foldl_eq]
    rw [same, foldl_step_of_normal normal, List.nil_append]
  · rintro rfl
    induction names using List.reverseRecOn with
    | nil => exact ⟨.refl, fun _ member => (List.not_mem_nil member).elim⟩
    | append_singleton names name ih =>
        have earlier := ih fun other member => free other (List.mem_append_left _ member)
        have own : '/' ∉ name.toList := free name (by simp)
        rw [List.foldl_append, List.foldl_cons, List.foldl_nil]
        exact ⟨(shortens_append earlier.shortens [name]).trans (shortens_step earlier.normal own),
          normal_step earlier.normal own⟩

/-- The names on the way from the root to where a path leads from a location. -/
def namesFrom (base : Location) (path : String) : List String :=
  if isAbsolute path then segments path else base ++ segments path

/-- A path is resolved to the normal form of the names that it goes by. -/
theorem normalForm_resolve {base : Location} (normal : base.Normal) (path : String)
    {form : Location} : NormalForm (namesFrom base path) form ↔ form = base.resolve path := by
  have free : ∀ name ∈ namesFrom base path, '/' ∉ name.toList := by
    intro name member
    unfold namesFrom at member
    split at member
    · exact slash_not_mem_segments member
    · rcases List.mem_append.mp member with earlier | later
      · exact (normal name earlier).2.2.2
      · exact slash_not_mem_segments later
  rw [normalForm_iff free]
  unfold namesFrom resolve
  split
  · rfl
  · rw [List.foldl_append, foldl_step_of_normal normal, List.nil_append]

/-- A plain name is one step. -/
theorem resolve_of_plain (location : Location) {name : String} (plain : Plain name) :
    location.resolve name = location ++ [name] := by
  have one := segments_intercalate (List.cons_ne_nil name []) fun other member => by
    cases List.mem_singleton.mp member
    exact plain.2.2.2
  rw [String.intercalate_singleton] at one
  have relative : ¬ isAbsolute name := by
    intro absolute
    have first := head?_of_isAbsolute absolute
    rw [one] at first
    exact plain.1 (Option.some.inj first)
  unfold resolve
  rw [if_neg relative, one, List.foldl_cons, List.foldl_nil, step_of_plain location plain]

end Location

open Location

namespace Workspace

/-- The directories of a workspace are normal if the current one is. -/
theorem normal_ofOptions {cwd : Location} (normal : cwd.Normal) (options : WorkspaceOptions) :
    (ofOptions cwd options).workDir.Normal :=
  normal_resolve normal _

/-- The location of a path is where it is resolved to from the work directory. -/
theorem location_eq {w : Workspace} (normal : w.workDir.Normal) (path : String) :
    w.location path = w.workDir.resolve path := by
  unfold location Workspace.resolve
  split
  · next absolute =>
      unfold Location.resolve
      rw [if_pos absolute, if_pos absolute]
  · exact resolve_text (normal_resolve normal path) []

theorem resolve_of_relative {w : Workspace} {path : String} (relative : isAbsolute path = false) :
    w.resolve path = (w.workDir.resolve path).text :=
  if_neg (Bool.eq_false_iff.mp relative)

/-- A workspace whose boundary is open takes every path. -/
theorem isInside_of_open {w : Workspace} (opened : w.enforceBoundary = false) (path : String) :
    w.isInside path := by
  unfold isInside
  simp only [opened, Bool.not_false, Bool.or_true, Bool.true_or]

section Options

variable {cwd : Location} (normal : cwd.Normal) (options : WorkspaceOptions) (path : String)

include normal

/-- An enforced boundary lies around what the directories of the options are resolved to. -/
theorem isInside_ofOptions_iff (enforced : options.enforceBoundary ≠ some false) :
    (ofOptions cwd options).isInside path ↔
      ∃ base ∈ options.workDir.getD "" :: options.allowPaths,
        cwd.resolve base <+: (ofOptions cwd options).workDir.resolve path := by
  have closed : (ofOptions cwd options).enforceBoundary = true := bne_iff_ne.mpr enforced
  rw [isInside_iff closed, location_eq (normal_ofOptions normal options)]
  constructor
  · rintro ⟨_, listed, begins⟩
    obtain ⟨base, member, rfl⟩ := List.mem_map.mp (show _ ∈
      (options.workDir.getD "" :: options.allowPaths).map cwd.resolve from listed)
    exact ⟨base, member, begins⟩
  · rintro ⟨base, member, begins⟩
    exact ⟨_, List.mem_map_of_mem (f := cwd.resolve) member, begins⟩

/-- A directory whose name goes on where that of the work directory ends is outside. -/
theorem not_isInside_of_beside (enforced : options.enforceBoundary ≠ some false) {front : Location}
    {name more : String} {rest : List String}
    (work : (ofOptions cwd options).workDir = front ++ [name]) (alone : options.allowPaths = [])
    (longer : more ≠ "")
    (leads : (ofOptions cwd options).workDir.resolve path = front ++ (name ++ more) :: rest) :
    ¬ (ofOptions cwd options).isInside path := by
  intro inside
  obtain ⟨base, listed, begins⟩ := (isInside_ofOptions_iff normal options path enforced).mp inside
  rw [alone, List.mem_singleton] at listed
  have only : cwd.resolve base = front ++ [name] := by rw [listed, ← work]; rfl
  rw [only, leads, List.prefix_append_right_inj] at begins
  have same : name = name ++ more := (List.cons_prefix_cons.mp begins).1
  exact longer (String.append_eq_left_iff.mp same.symm)

/-- A plain name is inside, whatever it begins with. -/
theorem isInside_of_plain (plain : Plain path) : (ofOptions cwd options).isInside path := by
  apply isInside_of_below
  rw [location_eq (normal_ofOptions normal options), resolve_of_plain _ plain]
  exact List.prefix_append _ _

end Options

/-- Every path has one normal form.  With an enforced boundary the path is inside exactly if this
begins with the normal form of the work directory or of an allowed one, and every path is inside
otherwise.  So a directory whose name goes on where that of the work directory ends is outside, and
a plain name is inside, whatever it begins with. -/
theorem isInside_exact {cwd : Location} (normal : cwd.Normal) (options : WorkspaceOptions)
    (path : String) :
    let w := ofOptions cwd options
    ∃ there, (∀ form, NormalForm (namesFrom w.workDir path) form ↔ form = there) ∧
      (options.enforceBoundary = some false → w.isInside path) ∧
      (options.enforceBoundary ≠ some false →
        (w.isInside path ↔ ∃ base ∈ options.workDir.getD "" :: options.allowPaths, ∃ root,
          NormalForm (namesFrom cwd base) root ∧ root <+: there) ∧
        ∀ front name more rest, w.workDir = front ++ [name] → options.allowPaths = [] →
          more ≠ "" → there = front ++ (name ++ more) :: rest → ¬ w.isInside path) ∧
      (Plain path → w.isInside path) := by
  intro w
  have own : w.workDir.Normal := normal_ofOptions normal options
  refine ⟨w.workDir.resolve path, fun form => normalForm_resolve own path, ?_, ?_, ?_⟩
  · intro opened
    apply isInside_of_open
    exact bne_eq_false_iff_eq.mpr opened
  · intro enforced
    constructor
    · rw [isInside_ofOptions_iff normal options path enforced]
      constructor
      · rintro ⟨base, member, begins⟩
        exact ⟨base, member, _, (normalForm_resolve normal base).mpr rfl, begins⟩
      · rintro ⟨base, member, root, form, begins⟩
        cases (normalForm_resolve normal base).mp form
        exact ⟨base, member, begins⟩
    · intro front name more rest work alone longer leads
      exact not_isInside_of_beside normal options path enforced work alone longer leads
  · exact isInside_of_plain normal options path

/-- A name in the work directory and one in an allowed directory begin with two dots; and beside the
work directory there is another one that begins with its name. -/
theorem isInside_exact_dots :
    (ofOptions ["r"] ⟨some "work", none, []⟩).isInside "..Weird.java" ∧
      (ofOptions ["r"] ⟨some "work", none, ["../shared/"]⟩).isInside
        "./a/../../../shared/..config.java" ∧
      ¬ (ofOptions ["r"] ⟨some "work", some true, []⟩).isInside "../workshop/a.java" := by
  have normal : Normal ["r"] := by decide
  refine ⟨?_, ?_, ?_⟩
  · obtain ⟨_, _, _, _, plain⟩ := isInside_exact normal ⟨some "work", none, []⟩ "..Weird.java"
    exact plain (by decide)
  · obtain ⟨there, only, _, enforced, _⟩ :=
      isInside_exact normal ⟨some "work", none, ["../shared/"]⟩ "./a/../../../shared/..config.java"
    have leads : there = ["shared", "..config.java"] :=
      ((normalForm_resolve (by decide) _).mp ((only there).mpr rfl)).trans (by decide)
    apply (enforced (by decide)).1.mpr
    refine ⟨"../shared/", by simp, ["shared"], (normalForm_resolve normal _).mpr (by decide), ?_⟩
    rw [leads]
    exact List.prefix_append ["shared"] ["..config.java"]
  · obtain ⟨there, only, _, enforced, _⟩ :=
      isInside_exact normal ⟨some "work", some true, []⟩ "../workshop/a.java"
    have leads : there = ["r", "workshop", "a.java"] :=
      ((normalForm_resolve (by decide) _).mp ((only there).mpr rfl)).trans (by decide)
    exact (enforced (by decide)).2 ["r"] "work" "shop" ["a.java"] (by decide) rfl (by decide) leads

end Workspace

end SuperCalls
