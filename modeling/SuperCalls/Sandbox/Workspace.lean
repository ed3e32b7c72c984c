/-
Module: SuperCalls.Sandbox.Workspace
Purpose: A sandbox over a disk.  Relative paths start from a work directory, and paths that
  leave it are refused unless the boundary is open or they lie below an allowed directory.
Main exports: Workspace, Workspace.ofOptions, Workspace.resolve, Workspace.isInside,
  Workspace.isFile, Workspace.read, Workspace.write, Workspace.find, Workspace.sandbox
-/
import SuperCalls.Disk
import SuperCalls.Sandbox
import SuperCalls.Text.Utf8

namespace SuperCalls

/-- A work directory with its boundary. -/
structure Workspace where
  workDir : Location
  enforceBoundary : Bool
  allowed : List Location
deriving Repr, DecidableEq, Inhabited

/-- What a workspace is made from. -/
structure WorkspaceOptions where
  /-- The work directory, if it is not the current one. -/
  workDir : Option String
  /-- The boundary is enforced unless this says no. -/
  enforceBoundary : Option Bool
  /-- Directories that are inside the boundary too. -/
  allowPaths : List String
deriving Repr, DecidableEq, Inhabited

/-- What a search for files may be told. -/
structure FindOptions where
  /-- Where patterns start from, if not from the work directory. -/
  directory : Option String
  ignored : List String
  /-- Find hidden names too. -/
  dot : Bool
  /-- Give absolute paths. -/
  absolute : Bool
deriving Repr, DecidableEq, Inhabited

namespace Workspace

/-- The workspace that options describe, their paths being read from the current directory. -/
def ofOptions (cwd : Location) (options : WorkspaceOptions) : Workspace where
  workDir := cwd.resolve (options.workDir.getD "")
  enforceBoundary := options.enforceBoundary != some false
  allowed := options.allowPaths.map cwd.resolve

/-!
### The boundary

The boundary is drawn on paths, not on what they lead to: a path is inside if its location,
with `.` and `..` carried out, lies below the work directory or an allowed one.
-/

/-- The path that the disk is given: an absolute one as it is, a relative one from the work
directory. -/
def resolve (w : Workspace) (path : String) : String :=
  if isAbsolute path then path else (w.workDir.resolve path).text

/-- The location of a path. -/
def location (w : Workspace) (path : String) : Location :=
  Location.resolve [] (w.resolve path)

/-- Whether a path is inside the boundary. -/
def isInside (w : Workspace) (path : String) : Bool :=
  let there := w.location path
  isWithin w.workDir there || !w.enforceBoundary || w.allowed.any fun base => isWithin base there

/-- The path that the disk is given, if the boundary lets it pass. -/
def guarded (w : Workspace) (path : String) : Except Failure String :=
  if w.isInside path then .ok (w.resolve path)
  else
    .error (.coded .pathOutsideWorkDir s!"Path outside work directory: {path}" (some path))

/-!
### Files
-/

variable {m : Type → Type} [Monad m]

/-- Fail to read a path. -/
def readFailure (verb path reason : String) : Failure :=
  .coded .readFailed s!"Cannot {verb} {path}: {reason}" (some path)

/-- Whether a path leads to a regular file; nothing there is no failure. -/
def isFile (w : Workspace) (disk : Disk m) (path : String) : ExceptT Failure m Bool :=
  match w.guarded path with
  | .error failure => throw failure
  | .ok full => do
      match ← disk.stat full with
      | .ok kind => return kind == .file
      | .error error =>
          if error.isAbsence then return false
          else throw (readFailure "stat" path error.message)

/-- Why bytes that are no text cannot be read. -/
def malformedText : String := "The encoded data was not valid for encoding utf-8"

/-- The text of a file. -/
def read (w : Workspace) (disk : Disk m) (path : String) : ExceptT Failure m String :=
  match w.guarded path with
  | .error failure => throw failure
  | .ok full => do
      match ← disk.read full with
      | .error error => throw (readFailure "read" path error.message)
      | .ok bytes =>
          match Text.Utf8.decode? bytes with
          | some content => return content
          | none => throw (readFailure "read" path malformedText)

/-- Give a file a new text. -/
def write (w : Workspace) (disk : Disk m) (path content : String) : ExceptT Failure m Unit :=
  match w.guarded path with
  | .error failure => throw failure
  | .ok full => do
      match ← disk.write full (Text.Utf8.encode content) with
      | .ok () => return ()
      | .error error =>
          throw (.coded .writeFailed s!"Cannot write {path}: {error.message}" (some path))

/-- The files that a pattern finds inside the boundary, by their paths from the work directory
or by their absolute ones. -/
def find (w : Workspace) (disk : Disk m) (pattern : String) (options : FindOptions) :
    ExceptT Failure m (List String) := do
  let directory :=
    match options.directory with
    | some path => if path = "" then w.workDir else Location.resolve [] (w.resolve path)
    | none => w.workDir
  let found ← disk.search directory options.dot pattern options.ignored
  let inside := found.filter w.isInside
  if options.absolute then return inside
  else return inside.map fun path => w.workDir.relative (Location.resolve [] path)

/-- The work directory as a sandbox. -/
def sandbox (w : Workspace) (disk : Disk m) : Sandbox m where
  isFile := w.isFile disk
  read := w.read disk
  write := w.write disk
  find pattern ignored := w.find disk pattern ⟨none, ignored, false, false⟩

end Workspace

end SuperCalls
