/-
Module: SuperCalls.Proofs.Workspace.Refusals
Purpose: How a workspace refuses a call.  Every failure names the path as it was given and says whether
  the path is outside the boundary or the disk said no, whatever the disk; a refused call leaves a
  tree as it was.  Which calls are refused is said by the path alone, and by what stands there.
Main exports: Workspace.Uniform, Workspace.uniform_isFile, Workspace.uniform_read,
  Workspace.uniform_write, Workspace.refusals_uniform_and_harmless
-/
import SuperCalls.Proofs.Paths.Boundary
import SuperCalls.Proofs.Workspace.RoundTrip

namespace SuperCalls

open Text.Utf8 (decode? encode decode?_eq_some_iff)

variable {σ α : Type}

/-!
### Refusals of a tree
-/

namespace Tree

variable {t after : Tree} {path : String} {bytes : List UInt8}

/-- A path can be given to a file system. -/
def Sayable (path : String) : Prop :=
  Char.ofNat 0 ∉ path.toList

instance (path : String) : Decidable (Sayable path) :=
  inferInstanceAs (Decidable (¬ _))

theorem attempt_of_sayable (sayable : Sayable path) (call : DiskCall) (act : Except DiskFault α) :
    attempt call path act =
      match act with
      | .ok value => .ok value
      | .error fault => .error (.refused fault call (some path)) :=
  if_neg fun contained => sayable (List.contains_iff_mem.mp contained)

theorem attempt_of_not_sayable (silent : ¬ Sayable path) (call : DiskCall)
    (act : Except DiskFault α) : attempt call path act = .error (.nullCharacter path) :=
  if_pos (List.contains_iff_mem.mpr (Decidable.not_not.mp silent))

theorem attempt_eq_ok_iff {call : DiskCall} {act : Except DiskFault α} {value : α} :
    attempt call path act = .ok value ↔ Sayable path ∧ act = .ok value := by
  constructor
  · intro made
    refine ⟨fun member => ?_, of_attempt made⟩
    rw [attempt_of_not_sayable (not_not.mpr member)] at made
    cases made
  · rintro ⟨sayable, rfl⟩
    exact attempt_of_sayable sayable call _

/-- A path stands for a regular file exactly if it leads to one. -/
theorem stat_eq_file_iff :
    t.stat path = .ok .file ↔ Sayable path ∧ ∃ there, t.Reaches path there := by
  constructor
  · intro stat
    obtain ⟨there, _, reaches, -⟩ := reaches_of_stat stat
    exact ⟨(attempt_eq_ok_iff.mp stat).1, there, reaches⟩
  · rintro ⟨sayable, there, bytes, located⟩
    refine attempt_eq_ok_iff.mpr ⟨sayable, ?_⟩
    rw [located]
    rfl

/-- What is said of a path is refused for another reason than that nothing is there exactly if the
path cannot be said, or it cannot be followed for another reason. -/
theorem stat_refused_iff :
    (∃ error, t.stat path = .error error ∧ error.isAbsence = false) ↔
      ¬ Sayable path ∨
        ∃ fault, t.locate .target path = .error fault ∧ fault ≠ .notFound ∧ fault ≠ .notDirectory := by
  by_cases sayable : Sayable path
  · unfold stat
    rw [attempt_of_sayable sayable]
    simp only [sayable, not_true_eq_false, false_or]
    rcases t.locate .target path with fault | ⟨there, _ | entry⟩
    · cases fault <;> simp [bind, Except.bind, DiskError.isAbsence]
    · simp [bind, Except.bind, present, DiskError.isAbsence]
    · simp [bind, Except.bind, present, pure, Except.pure]
  · refine iff_of_true ⟨.nullCharacter path, ?_, rfl⟩ (Or.inl sayable)
    exact attempt_of_not_sayable sayable .stat _

/-- A file is read exactly if the path leads to it. -/
theorem read_eq_ok_iff :
    t.read path = .ok bytes ↔
      Sayable path ∧ ∃ there, t.Reaches path there ∧ t.entry? there = some (.file bytes) := by
  constructor
  · intro read
    obtain ⟨entry, opened, -⟩ := ok_of_bind_ok read
    exact ⟨(attempt_eq_ok_iff.mp opened).1, reaches_of_read read⟩
  · rintro ⟨sayable, there, reaches, found⟩
    rw [read_of_reaches reaches found, attempt_of_sayable sayable]

/-- A file is written exactly where the path can be followed to something that is no directory. -/
theorem write_eq_ok_iff :
    t.write path bytes = .ok after ↔
      Sayable path ∧ ∃ there entry, t.locate .creation path = .ok ⟨there, entry⟩ ∧
        entry ≠ some .directory ∧ after = t.put there (.file bytes) := by
  unfold write
  rw [attempt_eq_ok_iff]
  refine and_congr_right fun _ => ?_
  rcases t.locate .creation path with fault | ⟨there, _ | _ | _ | _⟩ <;>
    simp [bind, Except.bind, pure, Except.pure, throw, throwThe, MonadExceptOf.throw, eq_comm]

end Tree

namespace Workspace

/-!
### Failures of calls
-/

/-- A failure of a call on a path names the path as it was given.  Outside the boundary the call is
refused for that; inside, the failure says that the call could not be made. -/
structure Uniform (w : Workspace) (path verb : String) (code : FailureCode)
    (answer : Except Failure α) : Prop where
  outside : w.isInside path = false →
    answer = .error (.coded .pathOutsideWorkDir s!"Path outside work directory: {path}" (some path))
  inside (failure : Failure) : w.isInside path = true → answer = .error failure →
    ∃ reason : String, failure = .coded code s!"Cannot {verb} {path}: {reason}" (some path)

/-- A path inside the boundary is not refused for being outside. -/
theorem Uniform.ne_outside {w : Workspace} {path verb : String} {code : FailureCode}
    {answer : Except Failure α} (uniform : w.Uniform path verb code answer)
    (inside : w.isInside path = true) (other : code ≠ .pathOutsideWorkDir) (message : String)
    (about : Option String) : answer ≠ .error (.coded .pathOutsideWorkDir message about) := by
  intro failed
  obtain ⟨reason, named⟩ := uniform.inside _ inside failed
  cases named
  exact other rfl

variable {β : Type} (w : Workspace) (path : String)

theorem guarded_of_outside (outside : w.isInside path = false) :
    w.guarded path =
      .error (.coded .pathOutsideWorkDir s!"Path outside work directory: {path}" (some path)) :=
  if_neg (Bool.eq_false_iff.mp outside)

/-- A call fails uniformly if what is made of the answer of the disk does. -/
theorem uniform_of_next {verb : String} {code : FailureCode} {call : String → StateM σ β}
    {next : β → ExceptT Failure (StateM σ) α}
    (fails : ∀ value u failure, ((next value).run u).1 = .error failure →
      ∃ reason : String, failure = .coded code s!"Cannot {verb} {path}: {reason}" (some path))
    (s : σ) :
    w.Uniform path verb code
      ((match w.guarded path with
        | .error failure => (throw failure : ExceptT Failure (StateM σ) α)
        | .ok full => liftM (call full) >>= next).run s).1 where
  outside outside := by
    rw [guarded_of_outside w path outside]
    rfl
  inside failure inside failed := by
    rw [guarded_of_inside inside] at failed
    exact fails ((call (w.resolve path)).run s).1 ((call (w.resolve path)).run s).2 failure failed

variable (disk : Disk (StateM σ)) (s : σ)

theorem uniform_isFile :
    w.Uniform path "stat" .readFailed ((w.isFile disk path).run s).1 := by
  refine uniform_of_next w path (fun answer u failure failed => ?_) s
  rcases answer with error | kind
  · simp only at failed
    split at failed
    · cases failed
    · cases failed
      exact ⟨error.message, rfl⟩
  · cases failed

theorem uniform_read :
    w.Uniform path "read" .readFailed ((w.read disk path).run s).1 := by
  refine uniform_of_next w path (fun answer u failure failed => ?_) s
  rcases answer with error | bytes
  · cases failed
    exact ⟨error.message, rfl⟩
  · simp only at failed
    split at failed
    · cases failed
    · cases failed
      exact ⟨malformedText, rfl⟩

theorem uniform_write (content : String) :
    w.Uniform path "write" .writeFailed ((w.write disk path content).run s).1 := by
  refine uniform_of_next w path (fun answer u failure failed => ?_) s
  rcases answer with error | _
  · cases failed
    exact ⟨error.message, rfl⟩
  · cases failed

/-!
### Answers
-/

variable {finder : Finder} {w path} {t : Tree}

theorem isFile_eq_true_iff :
    ((w.isFile finder.disk path).run t).1 = .ok true ↔
      w.isInside path ∧ Tree.Sayable (w.resolve path) ∧
        ∃ there, t.Reaches (w.resolve path) there := by
  rw [run_isFile, ← Tree.stat_eq_file_iff]
  cases inside : w.isInside path with
  | false => simp [guarded_of_outside w path inside]
  | true =>
      rw [guarded_of_inside inside]
      simp only
      rcases t.stat (w.resolve path) with error | kind
      · cases absent : error.isAbsence <;> simp [absent]
      · simp

/-- What is missing is no file. -/
theorem isFile_of_absent (inside : w.isInside path = true) {fault : DiskFault} {call : DiskCall}
    {about : Option String} (stat : t.stat (w.resolve path) = .error (.refused fault call about))
    (absent : fault = .notFound ∨ fault = .notDirectory) :
    (w.isFile finder.disk path).run t = (.ok false, t) := by
  rw [run_isFile, guarded_of_inside inside]
  simp only [stat]
  rcases absent with rfl | rfl <;> rfl

theorem isFile_fails_iff :
    (∃ failure, ((w.isFile finder.disk path).run t).1 = .error failure) ↔
      w.isInside path = false ∨ ¬ Tree.Sayable (w.resolve path) ∨
        ∃ fault, t.locate .target (w.resolve path) = .error fault ∧
          fault ≠ .notFound ∧ fault ≠ .notDirectory := by
  rw [run_isFile, ← Tree.stat_refused_iff]
  cases inside : w.isInside path with
  | false => simp [guarded_of_outside w path inside]
  | true =>
      rw [guarded_of_inside inside]
      simp only
      rcases t.stat (w.resolve path) with error | kind
      · cases absent : error.isAbsence <;> simp [absent]
      · simp

theorem read_eq_ok_iff {content : String} :
    ((w.read finder.disk path).run t).1 = .ok content ↔
      w.isInside path ∧ Tree.Sayable (w.resolve path) ∧
        ∃ there, t.Reaches (w.resolve path) there ∧
          t.entry? there = some (.file (encode content)) := by
  rw [run_disk_read, ← Tree.read_eq_ok_iff]
  cases inside : w.isInside path with
  | false => simp [guarded_of_outside w path inside]
  | true =>
      rw [guarded_of_inside inside]
      simp only
      rcases t.read (w.resolve path) with error | bytes
      · simp
      · have decoded : decode? bytes = some content ↔ encode content = bytes :=
          decode?_eq_some_iff
        simp only [Except.ok.injEq]
        rw [eq_comm (a := bytes), ← decoded]
        cases decode? bytes <;> simp

theorem write_eq_ok_iff {content : String} {left : Tree} :
    (w.write finder.disk path content).run t = (.ok (), left) ↔
      w.isInside path ∧ Tree.Sayable (w.resolve path) ∧
        ∃ there entry, t.locate .creation (w.resolve path) = .ok ⟨there, entry⟩ ∧
          entry ≠ some .directory ∧ left = t.put there (.file (encode content)) := by
  rw [run_write, ← Tree.write_eq_ok_iff]
  cases inside : w.isInside path with
  | false =>
      rw [guarded_of_outside w path inside]
      exact iff_of_false nofun fun written => Bool.false_ne_true written.1
  | true =>
      rw [guarded_of_inside inside]
      simp only
      rcases t.write (w.resolve path) (encode content) with error | after
      · exact iff_of_false nofun fun written => nomatch written.2
      · constructor
        · rintro ⟨⟩
          exact ⟨trivial, rfl⟩
        · rintro ⟨-, ⟨⟩⟩
          rfl

/-- A text that could not be written has changed nothing. -/
theorem kept_of_write_fails {content : String} {failure : Failure}
    (failed : ((w.write finder.disk path content).run t).1 = .error failure) :
    ((w.write finder.disk path content).run t).2 = t := by
  revert failed
  rw [run_write]
  cases w.guarded path with
  | error outside => exact fun _ => rfl
  | ok full =>
      simp only
      cases t.write full (encode content) with
      | error error => exact fun _ => rfl
      | ok after => nofun

/-- The failures of the three calls on a path are uniform, and a call that fails leaves the tree as it
was.  A path stands for a file exactly if it leads to a regular one, and if it stands for nothing this
is no failure.  It is read exactly if it leads to the bytes of a text, and written exactly if it can be
followed to something that is no directory. -/
theorem refusals_uniform_and_harmless (finder : Finder) (w : Workspace) (t : Tree)
    (path content : String) :
    let full := w.resolve path
    let asked := (w.isFile finder.disk path).run t
    let got := (w.read finder.disk path).run t
    let put := (w.write finder.disk path content).run t
    (w.Uniform path "stat" .readFailed asked.1 ∧ w.Uniform path "read" .readFailed got.1 ∧
      w.Uniform path "write" .writeFailed put.1) ∧
    (asked.2 = t ∧ got.2 = t ∧ ∀ failure, put.1 = .error failure → put.2 = t) ∧
    ((asked.1 = .ok true ↔
        w.isInside path ∧ Tree.Sayable full ∧ ∃ there, t.Reaches full there) ∧
      (∀ fault call about, w.isInside path → t.stat full = .error (.refused fault call about) →
        fault = .notFound ∨ fault = .notDirectory → asked.1 = .ok false) ∧
      ((∃ failure, asked.1 = .error failure) ↔
        w.isInside path = false ∨ ¬ Tree.Sayable full ∨
          ∃ fault, t.locate .target full = .error fault ∧
            fault ≠ .notFound ∧ fault ≠ .notDirectory)) ∧
    (∀ text, got.1 = .ok text ↔
      w.isInside path ∧ Tree.Sayable full ∧
        ∃ there, t.Reaches full there ∧ t.entry? there = some (.file (encode text))) ∧
    ∀ left, put = (.ok (), left) ↔
      w.isInside path ∧ Tree.Sayable full ∧
        ∃ there entry, t.locate .creation full = .ok ⟨there, entry⟩ ∧
          entry ≠ some .directory ∧ left = t.put there (.file (encode content)) := by
  intro full asked got put
  refine ⟨⟨?_, ?_, ?_⟩, ⟨?_, ?_, fun failure => kept_of_write_fails⟩,
    ⟨isFile_eq_true_iff, fun fault call about inside stat absent => ?_, isFile_fails_iff⟩,
    fun text => read_eq_ok_iff, fun left => write_eq_ok_iff⟩
  · exact uniform_isFile w path finder.disk t
  · exact uniform_read w path finder.disk t
  · exact uniform_write w path finder.disk t content
  · exact steady_isFile finder.still_disk w path t
  · exact steady_read finder.still_disk w path t
  · exact congrArg Prod.fst (isFile_of_absent inside stat absent)

/-- A path through a file stands for nothing, a link to itself can neither be followed nor written, and
a path beside the work directory is outside. -/
theorem refusals_uniform_and_harmless_loop :
    let t : Tree := ⟨[(["w"], .directory), (["w", "f"], .file []), (["w", "l"], .link "l")]⟩
    let w : Workspace := ⟨["w"], true, []⟩
    ((w.isFile Glob.finder.disk "f/x").run t).1 = .ok false ∧
    (∃ reason : String, ((w.isFile Glob.finder.disk "l").run t).1 =
      .error (.coded .readFailed s!"Cannot stat l: {reason}" (some "l"))) ∧
    (∃ reason : String, (w.write Glob.finder.disk "l" "x").run t =
      (.error (.coded .writeFailed s!"Cannot write l: {reason}" (some "l")), t)) ∧
    ((w.read Glob.finder.disk "../w2").run t).1 =
      .error (.coded .pathOutsideWorkDir "Path outside work directory: ../w2" (some "../w2")) := by
  intro t w
  obtain ⟨-, -, ⟨-, missing, -⟩, -⟩ := refusals_uniform_and_harmless Glob.finder w t "f/x" ""
  obtain ⟨⟨stat, -, write⟩, ⟨-, -, kept⟩, ⟨-, -, fails⟩, -⟩ :=
    refusals_uniform_and_harmless Glob.finder w t "l" "x"
  obtain ⟨⟨-, outside, -⟩, -⟩ := refusals_uniform_and_harmless Glob.finder w t "../w2" ""
  have loops : t.locate .target (w.resolve "l") = .error .tooManyLinks := by decide +kernel
  obtain ⟨failure, refused⟩ := fails.mpr (Or.inr (Or.inr ⟨_, loops, by decide, by decide⟩))
  obtain ⟨reason, rfl⟩ := stat.inside failure (by decide +kernel) refused
  have unwritten : ((w.write Glob.finder.disk "l" "x").run t).1 =
      .error (.coded .writeFailed
        "Cannot write l: ELOOP: too many symbolic links encountered, open '/w/l'"
        (some "l")) := by
    decide +kernel
  obtain ⟨why, named⟩ := write.inside _ (by decide +kernel) unwritten
  refine ⟨missing .notDirectory .stat (some "/w/f/x") (by decide +kernel)
      (by decide +kernel) (Or.inr rfl),
    ⟨reason, refused⟩, ⟨why, ?_⟩, outside.outside (by decide +kernel)⟩
  exact Prod.ext (unwritten.trans (congrArg Except.error named)) (kept _ unwritten)

end Workspace

end SuperCalls
