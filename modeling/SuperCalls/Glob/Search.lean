/-
Module: SuperCalls.Glob.Search
Purpose: Finding the files of a pattern.  The patterns that a pattern stands for are grouped by
  the directory that their search starts from; plain paths are looked up, the others are
  searched for by reading directories.
Main exports: Task, tasks, Search, search, disk
-/
import SuperCalls.Disk
import SuperCalls.Glob.Brace
import SuperCalls.Glob.Matcher
import SuperCalls.Record

namespace SuperCalls.Glob

/-!
### Tasks
-/

/-- A search: where it starts, what it looks for, and what it leaves out. -/
structure Task where
  dynamic : Bool
  base : String
  wanted : List String
  ignored : List String
deriving Repr, DecidableEq

/-- A path with runs of slashes shortened to one; a path that starts with two keeps them. -/
def shortenSlashes (path : String) : String :=
  let rec shorten : List Char → List Char
    | '/' :: '/' :: rest => shorten ('/' :: rest)
    | c :: rest => c :: shorten rest
    | [] => []
  match path.toList with
  | c :: rest => String.ofList (c :: shorten rest)
  | [] => path

/-- The patterns that patterns with braces stand for. -/
def expandAll (patterns : List String) : Except Failure (List String) := do
  let expanded ← patterns.mapM expandBraces
  return expanded.flatten.map shortenSlashes

/-- Whether a pattern leaves something out. -/
def isNegative (pattern : String) : Bool :=
  pattern.toList.head? == some '!' && (pattern.toList.drop 1).head? != some '('

/-- A pattern without the mark of one that leaves something out. -/
def withoutMark (pattern : String) : String :=
  if isNegative pattern then String.ofList (pattern.toList.drop 1) else pattern

/-- Whether a pattern starts by going back. -/
def goesBack (pattern : String) : Bool :=
  "..".toList.isPrefixOf pattern.toList || "./..".toList.isPrefixOf pattern.toList

/-- Group patterns by the directories that their searches start from.  The groups are a record
under the directories, so none of them can have a built-in name. -/
def groupByBase (patterns : List String) : Except Failure (Record (List String)) :=
  patterns.foldlM
    (fun groups pattern =>
      let base := baseDirectory pattern
      if Record.builtInNames.contains base then
        .error (.plain .typeError "collection[base].push is not a function")
      else .ok (Record.set groups base ((Record.get? groups base).getD [] ++ [pattern])))
    []

/-- The searches for patterns of one kind.  One that starts from the working directory itself
takes over those below it. -/
def tasksOf (dynamic : Bool) (wanted ignored : List String) : Except Failure (List Task) := do
  let task (group : String × List String) : Task := ⟨dynamic, group.1, group.2, ignored⟩
  let inside := wanted.filter (!goesBack ·)
  let back ← groupByBase (wanted.filter goesBack)
  let groups ← groupByBase inside
  return back.map task
    ++ (if groups.any (·.1 == ".") then [task (".", inside)] else groups.map task)

/-- The searches for a pattern. -/
def tasks (pattern : String) (ignored : List String) : Except Failure (List Task) := do
  let patterns ← expandAll [pattern]
  let ignored ← expandAll ignored
  let wanted := patterns.filter (!isNegative ·)
  let ignored := (patterns.filter isNegative ++ ignored).map withoutMark
  let plain ← tasksOf false (wanted.filter (!isDynamic ·)) ignored
  let dynamic ← tasksOf true (wanted.filter isDynamic) ignored
  return plain ++ dynamic

/-- A search that is ready to be done. -/
structure Search where
  task : Task
  files : FileMatcher
  directories : DirectoryMatcher

/-- Make the patterns of a search ready. -/
def Task.prepare (task : Task) (directory : Location) (dot : Bool) : Except Failure Search := do
  let directories ← DirectoryMatcher.ofPatterns dot task.wanted task.ignored
  let files ← FileMatcher.ofPatterns directory dot task.wanted task.ignored
  return ⟨task, files, directories⟩

/-!
### Looking at the disk

The paths found so far are kept in reverse; a path is found once.
-/

variable {m : Type → Type} [Monad m]

/-- A refused call of a search. -/
def refusal (error : DiskError) : Failure :=
  match error with
  | .nullCharacter _ => .plain .typeError error.message
  | _ => .plain .error error.message

/-- Whether a call was refused since there is no such file. -/
def isMissing : DiskError → Bool
  | .refused .notFound _ _ => true
  | _ => false

/-- Note a file if it is found. -/
def note (files : FileMatcher) (path : String) (found : List String) : List String :=
  let plain := withoutHereDot path
  if found.any (withoutHereDot · == plain) then found
  else if files.finds plain then path :: found
  else found

/-- Look up plain paths. -/
def lookUpAll (calls : Calls m) (directory : Location) (files : FileMatcher) :
    List String → List String → ExceptT Failure m (List String)
  | [], found => pure found
  | pattern :: patterns, found => do
      let path := (directory.resolve pattern).text
      let kind ←
        match ← calls.lstat path with
        | .ok .link =>
            match ← calls.stat path with
            | .ok kind => pure kind
            | .error error => absent error
        | .ok kind => pure kind
        | .error error => absent error
      lookUpAll calls directory files patterns
        (if kind == .file then note files pattern found else found)
where
  absent (error : DiskError) : ExceptT Failure m NodeKind :=
    if isMissing error then pure .other else throw (refusal error)

/-- A name in a directory. -/
def joinName (directory name : String) : String :=
  if directory = "" then name
  else if directory.toList.getLast? == some '/' then directory ++ name
  else directory ++ "/" ++ name

/-- Go through the names in a directory; `enter` searches a directory below it. -/
def searchNames (calls : Calls m) (files : FileMatcher) (directories : DirectoryMatcher)
    (enter : String → String → List String → ExceptT Failure m (List String))
    (directory shown : String) :
    List (String × NodeKind) → List String → ExceptT Failure m (List String)
  | [], found => pure found
  | (name, kind) :: names, found => do
      let path := joinName shown name
      let kind ←
        if kind == .link then
          match ← calls.stat (joinName directory name) with
          | .ok kind => pure kind
          | .error _ => pure .link
        else pure kind
      let found := if kind == .file then note files path found else found
      let found ←
        if kind == .directory && directories.enters path then
          enter (joinName directory name) path found
        else pure found
      searchNames calls files directories enter directory shown names found

/-- Search a directory, and those below it up to a depth. -/
def searchBelow (calls : Calls m) (files : FileMatcher) (directories : DirectoryMatcher) :
    Nat → String → String → List String → ExceptT Failure m (List String)
  | 0, _, _, found => pure found
  | depth + 1, directory, shown, found => do
      match ← calls.list directory with
      | .error error => if isMissing error then pure found else throw (refusal error)
      | .ok names =>
          searchNames calls files directories (searchBelow calls files directories depth) directory
            shown names found

/-- The greatest depth of a search: a path that goes deeper is too long for a disk. -/
def depthLimit : Nat := 4096

/-- Do a search. -/
def Search.run (search : Search) (calls : Calls m) (directory : Location) (found : List String) :
    ExceptT Failure m (List String) :=
  let task := search.task
  if task.dynamic then
    let root := slashed (directory.resolve task.base).text
    searchBelow calls search.files search.directories depthLimit root
      (if task.base = "." then "" else task.base) found
  else
    lookUpAll calls directory search.files (task.wanted ++ task.ignored.map ("!" ++ ·)) found

/-- Do several searches. -/
def runAll (calls : Calls m) (directory : Location) :
    List Search → List String → ExceptT Failure m (List String)
  | [], found => pure found
  | search :: searches, found => do
      let found ← search.run calls directory found
      runAll calls directory searches found

/-- The absolute paths of the files that a pattern finds from a directory, less those that the
ignored patterns cover. -/
def search (calls : Calls m) (directory : Location) (dot : Bool) (pattern : String)
    (ignored : List String) : ExceptT Failure m (List String) := do
  if pattern = "" then
    throw (.plain .typeError "Patterns must be a string (non empty) or an array of strings")
  let searches : Except Failure (List Search) := do
    (← tasks pattern ignored).mapM fun task => task.prepare directory dot
  match searches with
  | .error failure => throw failure
  | .ok searches =>
      let found ← runAll calls directory searches []
      return found.reverse.map fun path => slashed (directory.resolve path).text

/-- A file system with this search. -/
def disk (calls : Calls m) : Disk m :=
  { calls with search := search calls }

end SuperCalls.Glob
