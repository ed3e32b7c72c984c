/-
Module: SuperCalls.Main
Purpose: The command as a program: the file system of the machine as a disk, and what the
  command writes on the standard streams.
Main exports: Machine.calls, main
-/
import SuperCalls.Command
import SuperCalls.Glob.Search

namespace SuperCalls.Machine

/-- The refusal that an error code of the machine stands for, if it is one of the known ones. -/
def faultOfCode? (code : UInt32) : Option DiskFault :=
  match (if 0x80000000 ≤ code then 0 - code else code).toNat with
  | 2 => some .notFound
  | 20 => some .notDirectory
  | 21 => some .isDirectory
  | 36 => some .nameTooLong
  | 40 => some .tooManyLinks
  | _ => none

/-- The refusal that an error of the machine stands for, if it is one of the known ones. -/
def faultOf? : IO.Error → Option DiskFault
  | .noFileOrDirectory _ code _ | .inappropriateType _ code _ | .invalidArgument _ code _ =>
      faultOfCode? code
  | _ => none

/-- Make a call on a path. -/
def attempt {α : Type} (call : DiskCall) (path : String) (act : IO α) :
    IO (Except DiskError α) := do
  if path.toList.contains (Char.ofNat 0) then return .error (.nullCharacter path)
  try
    return .ok (← act)
  catch error =>
    match faultOf? error with
    | some fault => return .error (.refused fault call (some path))
    | none => return .error (.other (toString error))

/-- The kind of a file. -/
def kindOf : IO.FS.FileType → NodeKind
  | .file => .file
  | .dir => .directory
  | .symlink => .link
  | .other => .other

/-- A path as a place on the machine. -/
def entryAt (path : String) : IO.FS.DirEntry := ⟨"/", path⟩

/-- The names in a directory. -/
def namesIn (path : String) : IO (List (String × NodeKind)) := do
  let entries ← (entryAt path).path.readDir
  entries.toList.mapM fun entry => do
    return (entry.fileName, kindOf (← entry.path.symlinkMetadata).type)

/-- The file system of the machine. -/
def calls : Calls IO where
  stat path := attempt .stat path do return kindOf (← (entryAt path).path.metadata).type
  lstat path := attempt .lstat path do return kindOf (← (entryAt path).path.symlinkMetadata).type
  list path := attempt .scandir path (namesIn path)
  read path := do
    let result ← attempt .openFile path do return (← IO.FS.readBinFile path).toList
    match result with
    | .error (.refused .isDirectory _ _) => return .error (.refused .isDirectory .read none)
    | result => return result
  write path bytes := attempt .openFile path (IO.FS.writeBinFile path ⟨bytes.toArray⟩)

end SuperCalls.Machine

open SuperCalls in
/-- Run the command in the current directory. -/
def main (arguments : List String) : IO UInt32 := do
  let cwd := Location.resolve [] (← IO.currentDir).toString
  let transcript ← Command.run .standard (Glob.disk Machine.calls) cwd arguments
  transcript.out.forM IO.println
  transcript.err.forM IO.eprintln
  match transcript.exit with
  | .ok code => return code.toUInt32
  | .error failure =>
      IO.eprintln s!"✗ Fatal error: {failure.message}"
      return 1
