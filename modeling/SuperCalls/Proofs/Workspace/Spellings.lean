/-
Module: SuperCalls.Proofs.Workspace.Spellings
Purpose: A path that is spelled from the work directory and from the root.  The disk is given the
  normal form of the one and the other as it is, so the answers are the same as long as going back
  takes away what was gone forth, and the path ends with a name.
Main exports: Workspace.spelled, Workspace.SameAnswer, Workspace.Agree, Workspace.Refuses,
  Workspace.spellings_agree
-/
import SuperCalls.Proofs.Tree.GoingBack
import SuperCalls.Proofs.Workspace.RoundTrip

namespace SuperCalls

open Text.Utf8 (decode? encode)

namespace Workspace

open SuperCalls.Tree (EndsNamed Retraces pathLimit)

variable {finder : Finder} {w : Workspace} {t : Tree} {path : String}

/-!
### Two spellings of a path
-/

/-- The spelling of a path from the root. -/
def spelled (w : Workspace) (path : String) : String :=
  w.workDir.text ++ "/" ++ path

theorem isAbsolute_spelled (w : Workspace) (path : String) : isAbsolute (w.spelled path) := by
  unfold isAbsolute spelled Location.text
  simp only [String.toList_append, show "/".toList = ['/'] from rfl]
  rfl

theorem segments_spelled (normal : w.workDir.Normal) (path : String) :
    segments (w.spelled path) =
      "" :: ((if w.workDir = [] then [""] else w.workDir) ++ segments path) := by
  unfold spelled
  rw [segments_append, Location.segments_text normal, List.cons_append]

/-- Both spellings have the same normal form. -/
theorem foldl_spelled (normal : w.workDir.Normal) (relative : isAbsolute path = false) :
    (segments (w.spelled path)).foldl Location.step [] = w.workDir.resolve path := by
  unfold Location.resolve
  rw [segments_spelled normal, List.foldl_cons, Location.step_of_blank [] (Or.inl rfl),
    List.foldl_append, relative, if_neg Bool.false_ne_true]
  split
  · next root =>
      rw [root]
      rfl
  · rw [Location.foldl_step_of_normal normal, List.nil_append]

theorem location_spelled (normal : w.workDir.Normal) (relative : isAbsolute path = false) :
    w.location (w.spelled path) = w.location path := by
  rw [location_eq normal path, ← foldl_spelled normal relative]
  unfold location Workspace.resolve Location.resolve
  rw [if_pos (isAbsolute_spelled w path), if_pos (isAbsolute_spelled w path)]

theorem isInside_spelled (normal : w.workDir.Normal) (relative : isAbsolute path = false) :
    w.isInside (w.spelled path) = w.isInside path := by
  unfold isInside
  rw [location_spelled normal relative]

/-- The spelling from the work directory is no longer for the disk than the one from the root. -/
theorem utf8ByteSize_resolve_le (normal : w.workDir.Normal) (relative : isAbsolute path = false) :
    (w.resolve path).utf8ByteSize ≤ (w.spelled path).utf8ByteSize := by
  have names := segments_spelled normal path
  have whole := weight_eq_of_ne_nil (show segments (w.spelled path) ≠ [] by rw [names]; simp)
  rw [intercalate_segments] at whole
  have leads := foldl_spelled normal relative
  rw [names] at whole leads
  generalize (if w.workDir = [] then [""] else w.workDir) ++ segments path = rest at whole leads
  have one : weight ("" :: rest) = 1 + weight rest := weight_append [""] rest
  have least := Location.weight_foldl_step rest []
  rw [List.foldl_cons, Location.step_of_blank [] (Or.inl rfl)] at leads
  rw [resolve_of_relative relative, ← leads]
  by_cases root : rest.foldl Location.step [] = []
  · have size : (Location.text []).utf8ByteSize = 1 := rfl
    have slash : 1 ≤ (w.spelled path).utf8ByteSize := by
      unfold spelled
      have one : "/".utf8ByteSize = 1 := rfl
      rw [String.utf8ByteSize_append, String.utf8ByteSize_append, one]
      omega
    rw [root, size]
    exact slash
  · have empty : weight [] = 0 := rfl
    rw [Location.utf8ByteSize_text root]
    omega

/-- Two paths lead to the same place, and a call is made on both or on neither. -/
structure SamePlace (t : Tree) (path other : String) : Prop where
  located : ∀ aim, t.locate aim path = t.locate aim other
  null : path.toList.contains (Char.ofNat 0) = other.toList.contains (Char.ofNat 0)

theorem samePlace_spelled (normal : w.workDir.Normal) (relative : isAbsolute path = false)
    (retraces : t.Retraces [] (segments (w.spelled path))) (ends : EndsNamed (segments path))
    (short : (w.spelled path).utf8ByteSize ≤ pathLimit) :
    SamePlace t (w.resolve path) (w.spelled path) := by
  have resolved := resolve_of_relative (w := w) relative
  have plain := Location.normal_resolve normal path
  have leads := foldl_spelled normal relative
  have named : segments path ≠ [] := by
    unfold segments
    exact fun nothing => cutAtSlashes_ne_nil _ _ (List.map_eq_nil_iff.mp nothing)
  have ends' : EndsNamed (segments (w.spelled path)) := by
    rw [segments_spelled normal, ← List.cons_append]
    exact ends.append named _
  constructor
  · intro aim
    have shorter := utf8ByteSize_resolve_le normal relative
    unfold Tree.locate
    rw [if_neg (ne_empty_of_isAbsolute (w.isAbsolute_resolve path)), if_neg (by omega),
      if_neg (ne_empty_of_isAbsolute (w.isAbsolute_spelled path)), if_neg (by omega),
      Tree.followWithin_retraced retraces ends', leads, resolved, Tree.followWithin_text plain]
  · rw [Bool.eq_iff_iff, List.contains_iff_mem, List.contains_iff_mem,
      ← mem_segments (by decide) (w.spelled path), ← retraces.null_iff .root, leads, resolved,
      Location.mem_text plain (by decide)]

/-!
### Answers
-/

/-- Two calls on a disk give the same value, or are both refused. -/
inductive SameCall {α : Type} : Except DiskError α → Except DiskError α → Prop where
  | ok (value : α) : SameCall (.ok value) (.ok value)
  | refused {error other : DiskError} (absence : error.isAbsence = other.isAbsence) :
      SameCall (.error error) (.error other)

namespace SamePlace

variable {other : String} (place : SamePlace t path other)

include place

theorem attempt {α : Type} (call : DiskCall) (act : Except DiskFault α) :
    SameCall (Tree.attempt call path act) (Tree.attempt call other act) := by
  unfold Tree.attempt
  rw [place.null]
  split
  · exact .refused rfl
  · cases act with
    | ok value => exact .ok value
    | error fault => exact .refused (by cases fault <;> rfl)

theorem stat : SameCall (t.stat path) (t.stat other) := by
  unfold Tree.stat
  rw [place.located]
  exact place.attempt _ _

theorem write (bytes : List UInt8) : SameCall (t.write path bytes) (t.write other bytes) := by
  unfold Tree.write
  rw [place.located]
  exact place.attempt _ _

theorem read : SameCall (t.read path) (t.read other) := by
  unfold Tree.read
  rw [place.located]
  have opened := place.attempt .openFile (do
    let spot ← t.locate .target other
    Tree.present spot)
  generalize Tree.attempt .openFile path _ = first at opened ⊢
  generalize Tree.attempt .openFile other _ = second at opened ⊢
  cases opened with
  | ok entry =>
      cases entry with
      | file bytes => exact .ok bytes
      | directory | link => exact .refused rfl
  | refused absence => exact .refused absence

end SamePlace

/-- Two calls give the same value or failures of one code, and leave the same tree. -/
inductive SameAnswer {α : Type} : Except Failure α × Tree → Except Failure α × Tree → Prop where
  | ok (value : α) (left : Tree) : SameAnswer (.ok value, left) (.ok value, left)
  | failed (code : FailureCode) (message reason : String) (path other : Option String) (left : Tree) :
      SameAnswer (.error (.coded code message path), left) (.error (.coded code reason other), left)

theorem SameAnswer.value_iff {α : Type} {first second : Except Failure α × Tree}
    (same : SameAnswer first second) (value : α) : first.1 = .ok value ↔ second.1 = .ok value := by
  cases same with
  | ok => exact Iff.rfl
  | failed => exact ⟨nofun, nofun⟩

/-- All calls on two paths give the same answers. -/
structure Agree (finder : Finder) (w : Workspace) (t : Tree) (path other : String) : Prop where
  isFile : SameAnswer ((w.isFile finder.disk path).run t) ((w.isFile finder.disk other).run t)
  read : SameAnswer ((w.read finder.disk path).run t) ((w.read finder.disk other).run t)
  write : ∀ content, SameAnswer ((w.write finder.disk path content).run t)
    ((w.write finder.disk other content).run t)

/-- Paths outside the boundary are refused alike. -/
theorem agree_of_outside {other : String} (outside : w.isInside path = false)
    (also : w.isInside other = false) : w.Agree finder t path other := by
  have first : w.guarded path = .error _ := if_neg (Bool.eq_false_iff.mp outside)
  have second : w.guarded other = .error _ := if_neg (Bool.eq_false_iff.mp also)
  constructor
  · rw [run_isFile, run_isFile, first, second]
    exact .failed ..
  · rw [run_disk_read, run_disk_read, first, second]
    exact .failed ..
  · intro content
    rw [run_write, run_write, first, second]
    exact .failed ..

/-- What leads to the same place is answered alike. -/
theorem agree_of_samePlace {other : String} (inside : w.isInside path = true)
    (also : w.isInside other = true) (place : SamePlace t (w.resolve path) (w.resolve other)) :
    w.Agree finder t path other := by
  constructor
  · simp only [run_isFile, guarded_of_inside inside, guarded_of_inside also]
    have looked := place.stat
    generalize t.stat (w.resolve path) = first at looked ⊢
    generalize t.stat (w.resolve other) = second at looked ⊢
    cases looked with
    | ok kind => exact .ok _ t
    | @refused error reason absence =>
        simp only [absence]
        split
        · exact .ok false t
        · exact .failed ..
  · simp only [run_disk_read, guarded_of_inside inside, guarded_of_inside also]
    have opened := place.read
    generalize t.read (w.resolve path) = first at opened ⊢
    generalize t.read (w.resolve other) = second at opened ⊢
    cases opened with
    | ok bytes =>
        simp only
        cases decode? bytes with
        | some content => exact .ok content t
        | none => exact .failed ..
    | refused => exact .failed ..
  · intro content
    simp only [run_write, guarded_of_inside inside, guarded_of_inside also]
    have opened := place.write (encode content)
    generalize t.write (w.resolve path) (encode content) = first at opened ⊢
    generalize t.write (w.resolve other) (encode content) = second at opened ⊢
    cases opened with
    | ok after => exact .ok () after
    | refused => exact .failed ..

/-- Nothing is found under a path inside the boundary that leads to no end. -/
structure Refuses (finder : Finder) (w : Workspace) (t : Tree) (path : String) : Prop where
  isFile : ((w.isFile finder.disk path).run t).1 ≠ .ok true
  read : ∃ message, (w.read finder.disk path).run t =
    (.error (.coded .readFailed message (some path)), t)
  write : ∀ content, ∃ message, (w.write finder.disk path content).run t =
    (.error (.coded .writeFailed message (some path)), t)

theorem refuses_of_strays (inside : w.isInside path = true) (absolute : isAbsolute path)
    (strays : t.Strays [] (segments path)) : w.Refuses finder t path := by
  have own : w.resolve path = path := if_pos absolute
  constructor
  · obtain ⟨fault, located⟩ := Tree.locate_strays strays .target
    have refused : ∃ error, t.stat path = .error error := by
      unfold Tree.stat
      rw [located]
      exact Tree.attempt_error _ _ _
    obtain ⟨error, stat⟩ := refused
    rw [run_isFile, guarded_of_inside inside, own]
    simp only [stat]
    split <;> nofun
  · obtain ⟨fault, located⟩ := Tree.locate_strays strays .target
    obtain ⟨error, opened⟩ := Tree.attempt_error (α := Entry) .openFile path fault
    have read : t.read path = .error error := by
      unfold Tree.read
      rw [located]
      exact congrArg (· >>= _) opened
    rw [run_disk_read, guarded_of_inside inside, own]
    simp only [read]
    exact ⟨_, rfl⟩
  · intro content
    obtain ⟨fault, located⟩ := Tree.locate_strays strays .creation
    obtain ⟨error, opened⟩ := Tree.attempt_error (α := Tree) .openFile path fault
    have write : t.write path (encode content) = .error error := by
      unfold Tree.write
      rw [located]
      exact opened
    rw [run_write, guarded_of_inside inside]
    simp only [own, write]
    exact ⟨_, rfl⟩

/-- The boundary takes a path by its normal form, so it takes both spellings of it or none, and what it
refuses it refuses alike.  The disk is given the spelling from the root as it is.  Both spellings are
answered alike if that one goes back only from directories, ends with a name and is not too long, as
every path without `..` goes; but if it goes back from what is no directory there is nothing under it,
whatever stands at the normal form. -/
theorem spellings_agree (finder : Finder) {cwd : Location} (normal : cwd.Normal)
    (options : WorkspaceOptions) {path : String} (relative : isAbsolute path = false) (t : Tree) :
    let w := ofOptions cwd options
    w.isInside (w.spelled path) = w.isInside path ∧
      (w.isInside path = false → w.Agree finder t path (w.spelled path)) ∧
      (t.Retraces [] (segments (w.spelled path)) → EndsNamed (segments path) →
        (w.spelled path).utf8ByteSize ≤ pathLimit → w.Agree finder t path (w.spelled path)) ∧
      (".." ∉ segments path → t.Retraces [] (segments (w.spelled path))) ∧
      (w.isInside path → t.Strays [] (segments (w.spelled path)) →
        w.Refuses finder t (w.spelled path)) := by
  intro w
  have own : w.workDir.Normal := normal_ofOptions normal options
  have both := isInside_spelled own relative
  have outside (refused : w.isInside path = false) : w.Agree finder t path (w.spelled path) :=
    agree_of_outside refused (both.trans refused)
  refine ⟨both, outside, fun retraces ends short => ?_, fun forth => ?_, fun inside strays => ?_⟩
  · cases inside : w.isInside path with
    | false => exact outside inside
    | true =>
        apply agree_of_samePlace inside (both.trans inside)
        have verbatim : w.resolve (w.spelled path) = w.spelled path :=
          if_pos (w.isAbsolute_spelled path)
        rw [verbatim]
        exact samePlace_spelled own relative retraces ends short
  · apply Retraces.forth
    rw [segments_spelled own]
    intro back
    rcases List.mem_append.mp (List.mem_of_ne_of_mem (by decide) back) with work | later
    · split at work
      · exact absurd (List.mem_singleton.mp work) (by decide)
      · exact (own _ work).2.2.1 rfl
    · exact forth later
  · exact refuses_of_strays (both.trans inside) (w.isAbsolute_spelled path) strays

/-- Going back from a directory that is there both spellings find the file; going back from one that is
not there, the spelling from the root finds nothing. -/
theorem spellings_agree_back :
    let t : Tree := ⟨[(["r"], .directory), (["r", "sub"], .directory), (["r", "f"], .file [0x78])]⟩
    let w := ofOptions ["r"] ⟨none, none, []⟩
    w.Agree Glob.finder t "sub/.././f" (w.spelled "sub/.././f") ∧
      w.Refuses Glob.finder t (w.spelled "gone/../f") := by
  intro t w
  have normal : Location.Normal ["r"] := by decide
  have forth := spellings_agree Glob.finder normal ⟨none, none, []⟩
    (show isAbsolute "sub/.././f" = false by decide) t
  have astray := spellings_agree Glob.finder normal ⟨none, none, []⟩
    (show isAbsolute "gone/../f" = false by decide) t
  have apart : segments (w.spelled "sub/.././f") = ["", "r", "sub", "..", ".", "f"] := by decide
  have lost : segments (w.spelled "gone/../f") = ["", "r", "gone", "..", "f"] := by decide
  constructor
  · apply forth.2.2.1 ?_ (by decide) (by decide)
    rw [apart]
    apply Retraces.stay (Or.inl rfl)
    apply Retraces.enter (by decide) (by decide) (by decide)
    apply Retraces.enter (by decide) (by decide) (by decide)
    apply Retraces.back
    exact .forth (by decide)
  · apply astray.2.2.2.2 (by decide)
    rw [lost]
    apply Tree.Strays.stay (Or.inl rfl)
    apply Tree.Strays.enter (by decide) (by decide)
    exact .lost (by decide) (Or.inl (by decide)) (by decide)

/-- The same file is there for one spelling of a path and not for the other. -/
theorem spellings_disagree :
    let t : Tree := ⟨[(["r"], .directory), (["r", "f"], .file [0x78])]⟩
    let w := ofOptions ["r"] ⟨none, none, []⟩
    ((w.isFile Glob.finder.disk "gone/../f").run t).1 = .ok true ∧
      ((w.isFile Glob.finder.disk (w.spelled "gone/../f")).run t).1 = .ok false ∧
      ¬ w.Agree Glob.finder t "gone/../f" (w.spelled "gone/../f") := by
  intro t w
  have here : ((w.isFile Glob.finder.disk "gone/../f").run t).1 = .ok true := by decide +kernel
  have nowhere : ((w.isFile Glob.finder.disk (w.spelled "gone/../f")).run t).1 = .ok false := by
    decide +kernel
  refine ⟨here, nowhere, fun agree => ?_⟩
  have same := agree.isFile.value_iff true
  rw [here, nowhere] at same
  exact absurd (same.mp rfl) (by decide)

end Workspace

end SuperCalls
