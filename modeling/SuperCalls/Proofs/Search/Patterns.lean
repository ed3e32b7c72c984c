/-
Module: SuperCalls.Proofs.Search.Patterns
Purpose: The search by patterns is a search in the sense of finders.  A pattern that cannot be made ready
  is refused with an error of another origin; the search is composed of looks at names, and whatever it
  finds is the text of a location, with slashes in place of backslashes.
Main exports: Glob.FailsForeign, Glob.fails_searches, Calls.Looks, Composable.search,
  Glob.slashed_of_search, Glob.finder
-/
import SuperCalls.Glob.Search
import SuperCalls.Proofs.Command.Lookups
import SuperCalls.Proofs.Paths.NormalForm

namespace SuperCalls

namespace Glob

/-- A computation fails with failures of unknown cause only. -/
abbrev FailsForeign {α : Type} (computation : Except Failure α) : Prop :=
  FailsWith Failure.IsForeign computation

/-!
### Braces
-/

theorem fails_rangeOf (pieces : List Piece) : FailsForeign (rangeOf pieces) := by
  unfold rangeOf
  simp only
  split
  · exact .error rfl
  · exact .ok _

mutual

theorem fails_expandPieces :
    ∀ (inBraces : Bool) (position : Nat) (alternatives : List (List (List Char)))
      (pieces : List Piece), FailsForeign (expandPieces inBraces position alternatives pieces)
  | _, _, alternatives, [] => by
      rw [expandPieces]
      exact .ok alternatives
  | inBraces, position, alternatives, piece :: rest => by
      have first := fails_expandPiece inBraces position alternatives piece
      rw [expandPieces]
      split
      · next failure refused => exact .error (first failure refused)
      · exact fails_expandPieces inBraces (position + 1) _ rest

theorem fails_expandPiece :
    ∀ (inBraces : Bool) (position : Nat) (alternatives : List (List (List Char))) (piece : Piece),
      FailsForeign (expandPiece inBraces position alternatives piece)
  | _, _, _, .text [] => by
      rw [expandPiece]
      exact .ok _
  | _, _, _, .text (_ :: _) => by
      rw [expandPiece]
      exact .ok _
      nofun
  | _, _, _, .opening | _, _, _, .closing | _, _, _, .dot | _, _, _, .range => by
      rw [expandPiece]
      exact .ok _
  | true, _, _, .comma | false, _, _, .comma => by
      rw [expandPiece]
      exact .ok _
  | _, _, _, .parens _ (some _) _ | _, _, _, .braces _ (some _) _ => by
      rw [expandPiece]
      exact .ok _
  | _, _, alternatives, .parens stranded none pieces => by
      rw [expandPiece]
      split
      · exact .error rfl
      · exact fails_expandPieces false 0 alternatives pieces
  | _, _, _, .braces info none pieces => by
      have inner := fails_expandPieces true 0 [] pieces
      rw [expandPiece]
      split
      · exact .ok _
      split
      · exact .ok _
      split
      · split
        · next failure refused => exact .error (fails_rangeOf pieces failure refused)
        · exact .ok _
      · split
        · next failure refused => exact .error (inner failure refused)
        · exact .ok _

end

theorem fails_expandBraces (pattern : String) : FailsForeign (expandBraces pattern) := by
  unfold expandBraces
  simp only
  split
  · exact .ok _
  split
  · exact .error rfl
  split
  · next failure refused => exact .error (fails_expandPieces _ _ _ _ failure refused)
  · exact .ok _

theorem fails_expandAll (patterns : List String) : FailsForeign (expandAll patterns) :=
  (FailsWith.mapM fails_expandBraces patterns).bind fun _ => .ok _

/-!
### Expressions
-/

theorem fails_compile (dot : Bool) (pattern : String) : FailsForeign (compile dot pattern) := by
  unfold compile
  simp only
  split
  · exact .ok _
  split
  · exact .error rfl
  · exact .ok _

theorem fails_expressionText (dot : Bool) (pattern : String) :
    FailsForeign (expressionText dot pattern) := by
  unfold expressionText
  simp only
  split
  · exact .error rfl
  split
  · exact .error rfl
  split
  · exact .ok _
  · exact (fails_compile dot pattern).bind fun _ => .ok _

theorem fails_makeExpression (dot : Bool) (pattern : String) :
    FailsForeign (makeExpression dot pattern) :=
  (fails_expressionText dot pattern).bind fun _ => .ok _

theorem fails_prepare (dot : Bool) (patterns : List String) : FailsForeign (prepare dot patterns) :=
  .mapM (fails_makeExpression dot) patterns

theorem Part.fails_ofText (dot : Bool) (text : String) : FailsForeign (Part.ofText dot text) := by
  unfold ofText
  split
  · split
    · next failure refused => exact .error (fails_makeExpression dot text failure refused)
    · exact .ok _
  · exact .ok _

theorem FileMatcher.fails_ofPatterns (directory : Location) (dot : Bool)
    (wanted ignored : List String) : FailsForeign (ofPatterns directory dot wanted ignored) :=
  (fails_prepare dot wanted).bind fun _ => (fails_prepare true _).bind fun _ =>
    (fails_prepare true _).bind fun _ => .ok _

theorem DirectoryMatcher.fails_ofPatterns (dot : Bool) (wanted ignored : List String) :
    FailsForeign (ofPatterns dot wanted ignored) := by
  apply FailsWith.bind
  · exact .mapM (fun pattern => .mapM (Part.fails_ofText dot) (parts pattern)) wanted
  · exact fun _ => (fails_prepare dot _).bind fun _ => .ok _

/-!
### Searches
-/

theorem fails_groupByBase (patterns : List String) : FailsForeign (groupByBase patterns) := by
  apply FailsWith.foldlM
  intro groups pattern
  simp only
  split
  · exact .error rfl
  · exact .ok _

theorem fails_tasksOf (dynamic : Bool) (wanted ignored : List String) :
    FailsForeign (tasksOf dynamic wanted ignored) :=
  (fails_groupByBase _).bind fun _ => (fails_groupByBase _).bind fun _ => .ok _

theorem fails_tasks (pattern : String) (ignored : List String) :
    FailsForeign (tasks pattern ignored) :=
  (fails_expandAll _).bind fun _ => (fails_expandAll _).bind fun _ =>
    (fails_tasksOf false _ _).bind fun _ => (fails_tasksOf true _ _).bind fun _ => .ok _

theorem Task.fails_prepare (task : Task) (directory : Location) (dot : Bool) :
    FailsForeign (task.prepare directory dot) :=
  (DirectoryMatcher.fails_ofPatterns dot _ _).bind fun _ =>
    (FileMatcher.fails_ofPatterns directory dot _ _).bind fun _ => .ok _

/-- A pattern is made ready for its searches, or refused with an error of another origin. -/
theorem fails_searches (directory : Location) (dot : Bool) (pattern : String)
    (ignored : List String) :
    FailsForeign (do (← tasks pattern ignored).mapM fun task => task.prepare directory dot) :=
  (fails_tasks pattern ignored).bind fun tasks =>
    .mapM (fun task => task.fails_prepare directory dot) tasks

theorem isForeign_refusal (error : DiskError) : (refusal error).IsForeign := by
  unfold refusal
  split <;> rfl

end Glob

open Location

variable {σ : Type}

/-!
### Looks at names
-/

/-- Looks at the names on a disk have a property. -/
structure Calls.Looks (calls : Calls (StateM σ))
    (p : ∀ α : Type, ExceptT Failure (StateM σ) α → Prop) : Prop where
  stat : ∀ path, p _ (liftM (calls.stat path))
  lstat : ∀ path, p _ (liftM (calls.lstat path))
  list : ∀ path, p _ (liftM (calls.list path))

namespace Composable

variable {thrown : Failure → Prop} {p : ∀ α : Type, ExceptT Failure (StateM σ) α → Prop}
  (composes : Composable thrown p)
  (foreign : ∀ failure : Failure, failure.IsForeign → thrown failure)
  {calls : Calls (StateM σ)} (looks : calls.Looks p)

include composes foreign

theorem absent (error : DiskError) : p _ (Glob.lookUpAll.absent error) := by
  unfold Glob.lookUpAll.absent
  split
  · exact composes.pure _
  · exact composes.throw (foreign _ (Glob.isForeign_refusal error))

include looks

theorem lookUpAll (directory : Location) (files : Glob.FileMatcher) (patterns found : List String) :
    p _ (Glob.lookUpAll calls directory files patterns found) := by
  induction patterns generalizing found with
  | nil => exact composes.pure found
  | cons pattern patterns ih =>
      rw [Glob.lookUpAll]
      apply composes.bind (looks.lstat _)
      intro named
      split
      · apply composes.bind (looks.stat _)
        intro linked
        split
        · exact composes.bind (composes.pure _) fun _ => ih _
        · exact composes.bind (composes.absent foreign _) fun _ => ih _
      · exact composes.bind (composes.pure _) fun _ => ih _
      · exact composes.bind (composes.absent foreign _) fun _ => ih _

omit foreign in
theorem searchNames {files : Glob.FileMatcher} {directories : Glob.DirectoryMatcher}
    {enter : String → String → List String → ExceptT Failure (StateM σ) (List String)}
    (enters : ∀ directory shown found, p _ (enter directory shown found))
    (directory shown : String) (names : List (String × NodeKind)) (found : List String) :
    p _ (Glob.searchNames calls files directories enter directory shown names found) := by
  induction names generalizing found with
  | nil => exact composes.pure found
  | cons first names ih =>
      obtain ⟨name, kind⟩ := first
      have goOn (kind : NodeKind) (found : List String) : p _ (do
          let found ←
            if kind == .directory && directories.enters (Glob.joinName shown name) then
              enter (Glob.joinName directory name) (Glob.joinName shown name) found
            else Pure.pure found
          Glob.searchNames calls files directories enter directory shown names found) := by
        split
        · exact composes.bind (enters _ _ _) fun _ => ih _
        · exact composes.bind (composes.pure _) fun _ => ih _
      rw [Glob.searchNames]
      split
      · apply composes.bind (looks.stat _)
        intro linked
        split
        · exact composes.bind (composes.pure _) fun _ => goOn _ _
        · exact composes.bind (composes.pure _) fun _ => goOn _ _
      · exact composes.bind (composes.pure _) fun _ => goOn _ _

theorem searchBelow (files : Glob.FileMatcher) (directories : Glob.DirectoryMatcher) (depth : Nat)
    (directory shown : String) (found : List String) :
    p _ (Glob.searchBelow calls files directories depth directory shown found) := by
  induction depth generalizing directory shown found with
  | zero => exact composes.pure found
  | succ depth ih =>
      rw [Glob.searchBelow]
      apply composes.bind (looks.list _)
      intro listed
      split
      · split
        · exact composes.pure found
        · exact composes.throw (foreign _ (Glob.isForeign_refusal _))
      · exact composes.searchNames looks ih _ _ _ _

theorem run (search : Glob.Search) (directory : Location) (found : List String) :
    p _ (search.run calls directory found) := by
  unfold Glob.Search.run
  simp only
  split
  · exact composes.searchBelow foreign looks _ _ _ _ _ _
  · exact composes.lookUpAll foreign looks _ _ _ _

theorem runAll (directory : Location) (searches : List Glob.Search) (found : List String) :
    p _ (Glob.runAll calls directory searches found) := by
  induction searches generalizing found with
  | nil => exact composes.pure found
  | cons search searches ih =>
      rw [Glob.runAll]
      exact composes.bind (composes.run foreign looks search directory found) fun _ => ih _

theorem searched (directory : Location) {searches : Except Failure (List Glob.Search)}
    (fails : FailsWith Failure.IsForeign searches) :
    p _ (match searches with
      | .error failure => MonadExcept.throw failure
      | .ok searches => do
          let found ← Glob.runAll calls directory searches []
          return found.reverse.map fun path => slashed (directory.resolve path).text) := by
  split
  · next failure => exact composes.throw (foreign failure (fails failure rfl))
  · exact composes.bind (composes.runAll foreign looks _ _ _) fun _ => composes.pure _

theorem search (directory : Location) (dot : Bool) (pattern : String) (ignored : List String) :
    p _ (Glob.search calls directory dot pattern ignored) := by
  have fails := Glob.fails_searches directory dot pattern ignored
  unfold Glob.search
  split
  · exact composes.bind (composes.throw (foreign _ rfl))
      fun _ => composes.searched foreign looks directory fails
  · exact composes.searched foreign looks directory fails

end Composable

/-!
### What is found
-/

theorem slashed_of_free {path : String} (free : '\\' ∉ path.toList) : slashed path = path := by
  unfold slashed
  rw [List.map_congr_left (g := id), List.map_id, String.ofList_toList]
  intro c member
  refine if_neg fun same => free ?_
  rwa [← same]

theorem isAbsolute_slashed (location : Location) : isAbsolute (slashed location.text) := by
  unfold isAbsolute slashed text
  rw [String.toList_ofList, String.toList_append]
  rfl

namespace Glob

/-- What is found is the text of a location, with slashes in place of backslashes. -/
theorem slashed_of_search {calls : Calls (StateM σ)} {directory : Location} {dot : Bool}
    {pattern : String} {ignored found : List String} {s : σ}
    (searched : ((search calls directory dot pattern ignored).run s).1 = .ok found) :
    ∀ path ∈ found, ∃ name, path = slashed (directory.resolve name).text := by
  unfold search at searched
  split at searched
  · cases searched
  simp only at searched
  split at searched
  · cases searched
  obtain ⟨names, t, _, rest⟩ := ok_of_run_bind (Prod.ext searched rfl)
  cases rest
  intro path member
  obtain ⟨name, _, rfl⟩ := List.mem_map.mp member
  exact ⟨name, rfl⟩

theorem looks_calls {alike : Tree → Tree → Prop}
    (outlines : ∀ {t u : Tree}, alike t u → t.outline = u.outline) :
    Tree.calls.Looks fun _ computation => Sees alike computation where
  stat path := .lift (fun _ => rfl) fun {t u} like => by
    show u.stat path = t.stat path
    rw [← Tree.stat_outline t, outlines like, Tree.stat_outline]
  lstat path := .lift (fun _ => rfl) fun {t u} like => by
    show u.lstat path = t.lstat path
    rw [← Tree.lstat_outline t, outlines like, Tree.lstat_outline]
  list path := .lift (fun _ => rfl) fun {t u} like => by
    show u.list path = t.list path
    rw [← Tree.list_outline t, outlines like, Tree.list_outline]

theorem sees_search (directory : Location) (dot : Bool) (pattern : String) (ignored : List String) :
    Sees (fun t u : Tree => t.outline = u.outline)
      (search Tree.calls directory dot pattern ignored) :=
  Sees.composable.search (fun _ _ => trivial) (looks_calls fun like => like) directory dot pattern
    ignored

/-- The search by patterns in a tree. -/
def finder : Finder where
  search := search Tree.calls
  still directory dot pattern ignored := (sees_search directory dot pattern ignored).steady
  outlines directory dot pattern ignored := (sees_search directory dot pattern ignored).same
  foreign directory dot pattern ignored :=
    Raises.composable.search (fun _ foreign => foreign)
      ⟨fun _ => Raises.lift _, fun _ => Raises.lift _, fun _ => Raises.lift _⟩ directory dot pattern
      ignored
  absolute _ _ _ _ _ _ searched path member := by
    obtain ⟨name, rfl⟩ := slashed_of_search searched path member
    exact isAbsolute_slashed _

/-- The disk of this finder is a tree with the search by patterns. -/
theorem disk_finder : finder.disk = Tree.disk :=
  rfl

end Glob

end SuperCalls
