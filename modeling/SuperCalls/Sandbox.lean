/-
Module: SuperCalls.Sandbox
Purpose: What a batch may do with files.  A sandbox gives access to the files that paths name;
  how it keeps them is its own affair.
Main exports: Sandbox
-/
import SuperCalls.Failure

namespace SuperCalls

/-- Access to files. -/
structure Sandbox (m : Type → Type) where
  /-- Whether a path names a regular file. -/
  isFile : String → ExceptT Failure m Bool
  /-- The text of a file. -/
  read : String → ExceptT Failure m String
  /-- Give a file a new text. -/
  write : String → String → ExceptT Failure m Unit
  /-- The files that a pattern finds, less those that the ignored patterns cover. -/
  find : String → List String → ExceptT Failure m (List String)

end SuperCalls
