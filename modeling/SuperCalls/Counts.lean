/-
Module: SuperCalls.Counts
Purpose: Replacement counts by rule name, and the text that lists them.
Main exports: Counts, Counts.assign, Counts.ofList, Counts.listing, Counts.text
-/
import SuperCalls.Record

namespace SuperCalls

/-- Replacement counts by rule name, in the order of a record. -/
abbrev Counts := Record Nat

namespace Counts

variable {α : Type}

/-- The one name that cannot be counted: assigning to it has no effect. -/
def reservedName : String := "__proto__"

/-- Record the count of a rule.  A later count under the same name replaces an earlier one. -/
def assign (counts : Record α) (name : String) (count : α) : Record α :=
  if name = reservedName then counts else Record.set counts name count

/-- The counts that a list of assignments leaves. -/
def ofList (pairs : List (String × α)) : Record α :=
  pairs.foldl (fun counts (name, count) => assign counts name count) []

/-- Written counts as one line: `name: count`, separated by commas. -/
def listing (counts : Record String) : String :=
  ", ".intercalate (counts.map fun (name, count) => s!"{name}: {count}")

/-- The counts as one line. -/
def text (counts : Counts) : String :=
  listing (counts.map fun (name, count) => (name, toString count))

end Counts

end SuperCalls
