/-
Module: SuperCalls.Proofs.Command.IndentWidth
Purpose: The texts that give the width of an indent.  A blank text gives the width zero; any other text
  is refused exactly if no numeral of a natural number stands in it, and a run that is given such a
  text ends at once.
Main exports: Command.whole?_of_unblank, Command.indentOf_eq_ok_iff, Command.indentOf_eq_error_iff,
  Command.indentOf_of_blank, Command.run_refuses_indent, Command.config_of_blank_indent
-/
import SuperCalls.Proofs.Command.ExitCodes
import SuperCalls.Proofs.Command.OptionsAsSettings

namespace SuperCalls.Command

variable {validator : Validator} {finder : Finder}

open Text (WritesWhole isBlank)

section

variable {text : String} (unblank : ¬ ∀ c ∈ text.toList, isBlank c)

include unblank

theorem whole?_of_unblank {n : ℕ} :
    (Text.Numeral.ofText? text).bind Text.Numeral.whole? = some n ↔ WritesWhole text n := by
  rw [Text.whole?_ofText?_eq_some_iff]
  exact or_iff_right fun blank => unblank blank.1

theorem whole?_eq_none_iff :
    (Text.Numeral.ofText? text).bind Text.Numeral.whole? = none ↔ ∀ n, ¬ WritesWhole text n := by
  rw [Option.eq_none_iff_forall_ne_some]
  exact forall_congr' fun n => not_congr (whole?_of_unblank unblank)

/-- An accepted text gives as many spaces as the number that it writes. -/
theorem indentOf_eq_ok_iff {indent : String} :
    indentOf text = .ok indent ↔
      ∃ n ≤ widthLimit, WritesWhole text n ∧ indent = "".pushn ' ' n := by
  simp only [← whole?_of_unblank unblank]
  unfold indentOf
  cases (Text.Numeral.ofText? text).bind Text.Numeral.whole? with
  | none => simp
  | some width =>
      simp only [Option.some.injEq]
      split
      · next wide =>
          refine ⟨nofun, ?_⟩
          rintro ⟨_, narrow, rfl, -⟩
          exact absurd wide narrow.not_gt
      · next narrow =>
          constructor
          · rintro ⟨⟩
            exact ⟨width, not_lt.mp narrow, rfl, rfl⟩
          · rintro ⟨_, -, rfl, rfl⟩
            rfl

/-- A text is refused as no width exactly if it writes no natural number. -/
theorem indentOf_eq_error_iff :
    indentOf text = .error (indentFailure text) ↔ ∀ n, ¬ WritesWhole text n := by
  rw [← whole?_eq_none_iff unblank]
  unfold indentOf
  cases (Text.Numeral.ofText? text).bind Text.Numeral.whole? with
  | none => simp
  | some width =>
      simp only [reduceCtorEq, iff_false]
      split <;> exact nofun

end

/-- A blank text gives the width zero. -/
theorem indentOf_of_blank {text : String} (blank : ∀ c ∈ text.toList, isBlank c) :
    indentOf text = .ok "" := by
  have zero : (Text.Numeral.ofText? text).bind Text.Numeral.whole? = some 0 :=
    Text.whole?_ofText?_eq_some_iff.mpr (Or.inl ⟨blank, rfl⟩)
  unfold indentOf
  rw [zero]
  rfl

/-- A run that is asked for an indent by a text that is not blank and writes no natural number says so,
exits with 1 and changes nothing. -/
theorem run_refuses_indent (validator : Validator) (finder : Finder) {tree : Tree} {cwd : Location}
    {arguments : List String} {given : Arguments} {base : Config} (asks : Asks arguments given)
    (based : ((baseConfig validator finder.disk cwd given.config).run tree).1 = .ok base)
    {text : String} (asked : lastValue .indent (scan arguments) = some text)
    (unblank : ¬ ∀ c ∈ text.toList, isBlank c) (unwritten : ∀ n, ¬ WritesWhole text n) :
    (run validator finder.disk cwd arguments).run tree =
      (⟨[], ["error: --indent expects a non-negative integer, got \"" ++ text ++ "\""], .ok 1⟩,
        tree) := by
  have indent : given.indent = some text := by
    rw [Arguments.eq_ofItems_of_read asks.read]
    exact asked
  have refused :
      ((config validator finder.disk cwd given).run tree).1 = .error (indentFailure text) := by
    rw [fst_config finder.still_disk, based]
    exact override_eq_error_iff.mpr ⟨text, indent, (indentOf_eq_error_iff unblank).mpr unwritten⟩
  have message : "error: " ++ (indentFailure text).message =
      "error: --indent expects a non-negative integer, got \"" ++ text ++ "\"" := by
    show "error: " ++ ("--indent expects a non-negative integer, got \"" ++ text ++ "\"") = _
    rw [← String.append_assoc, ← String.append_assoc]
    rfl
  rw [run_of_unsettled asks refused, ended_of_isCoded [] rfl, ← message]
  rfl

/-- A fraction is no width. -/
theorem run_refuses_indent_fraction :
    (run .standard Glob.finder.disk ["w"] ["--indent", "1.5", "a"]).run
        ⟨[(["w"], .directory), (["w", "a"], .file (Text.Utf8.encode "super(1);"))]⟩ =
      (⟨[], ["error: --indent expects a non-negative integer, got \"1.5\""], .ok 1⟩,
        ⟨[(["w"], .directory), (["w", "a"], .file (Text.Utf8.encode "super(1);"))]⟩) := by
  have asks : Asks ["--indent", "1.5", "a"] ⟨none, [], none, some "1.5", [], ["a"]⟩ :=
    ⟨by decide +kernel, rfl, rfl⟩
  have unblank : ¬ ∀ c ∈ "1.5".toList, isBlank c := fun blank =>
    absurd (blank '5' (by decide)) (by decide)
  have unwritten : ∀ n, ¬ WritesWhole "1.5" n :=
    (whole?_eq_none_iff unblank).mp (by decide +kernel)
  have based : ((baseConfig .standard Glob.finder.disk ["w"] none).run
      ⟨[(["w"], .directory), (["w", "a"], .file (Text.Utf8.encode "super(1);"))]⟩).1 =
        .ok ⟨[], [], defaultIgnore, ["w"], defaultIndent, false, .fail, true⟩ := by decide +kernel
  exact run_refuses_indent .standard Glob.finder asks based (by decide +kernel) unblank unwritten

/-- A run that is asked for an indent by a blank text is not refused: it works without any indent. -/
theorem config_of_blank_indent {tree : Tree} {cwd : Location} {arguments : List String}
    {given : Arguments} {base : Config} (asks : Asks arguments given)
    (based : ((baseConfig validator finder.disk cwd given.config).run tree).1 = .ok base)
    {text : String} (asked : lastValue .indent (scan arguments) = some text)
    (blank : ∀ c ∈ text.toList, isBlank c) :
    ∃ settings, ((config validator finder.disk cwd given).run tree).1 = .ok settings ∧
      settings.indent = "" := by
  have indent : given.indent = some text := by
    rw [Arguments.eq_ofItems_of_read asks.read]
    exact asked
  have done : override cwd given base =
      override cwd { given with indent := none } { base with indent := "" } := by
    rw [override_eq, indent, Option.elim_some, indentOf_of_blank blank]
    rfl
  rw [fst_config finder.still_disk, based]
  exact ⟨_, done, rfl⟩

/-- A number in base sixteen is a width, though not all of its characters are decimal digits. -/
theorem hexadecimal_indent_not_refused :
    ∃ tree given base, Asks ["--indent", "0x10", "a"] given ∧
      ((baseConfig .standard Tree.disk ["w"] given.config).run tree).1 = .ok base ∧
      lastValue .indent (scan ["--indent", "0x10", "a"]) = some "0x10" ∧
      ¬ ("0x10".toList ≠ [] ∧ ∀ c ∈ "0x10".toList, c.isDigit) ∧
      let transcript := ((run .standard Tree.disk ["w"] ["--indent", "0x10", "a"]).run tree).1
      transcript.out = ["FIXED: a", "", "Total files fixed: 1"] ∧ transcript.err = [] ∧
        transcript.exit = .ok 0 := by
  refine ⟨⟨[(["w"], .directory), (["w", "a"], .file (Text.Utf8.encode "super(1);"))]⟩,
    ⟨none, [], none, some "0x10", [], ["a"]⟩,
    ⟨[], [], defaultIgnore, ["w"], defaultIndent, false, .fail, true⟩, ⟨?_, rfl, rfl⟩, ?_, ?_,
    fun digits => absurd (digits.2 'x' (by decide)) (by decide), ?_, ?_, ?_⟩
  all_goals decide +kernel

end SuperCalls.Command
