/-
Module: SuperCalls.Proofs.Rules.Idempotence
Purpose: Patching a second time changes nothing, exactly if no call stands in the indent.
Main exports: exists_patched, reads_applyRules, applyRules_of_chars, applyRules_twice_ne,
  superCalls_idempotent_iff_free
-/
import SuperCalls.Proofs.Rules.ChangeCounts

namespace SuperCalls

/-!
### Nothing to replace
-/

/-- A text is read, and patching it settles what is read, if no call stands in the indent. -/
theorem exists_patched {indent : String} (free : ¬ HasCall indent.toList) (content : String) :
    ∃ pieces, source pieces = content.toList ∧ Reads none pieces ∧
      (applyRules (superCallRules indent) content).content.toList =
        pieces.flatMap (Piece.settled indent.toList) := by
  obtain ⟨pieces, text, reads⟩ := exists_reads content.toList none
  have applied := applyAll_of_free free reads
  rw [text] at applied
  exact ⟨pieces, text, reads, by rw [toList_applyRules, applied]⟩

/-- The text that patching leaves is read as characters only, if no call stands in the indent. -/
theorem reads_applyRules {indent : String} (free : ¬ HasCall indent.toList) (content : String) :
    Reads none ((applyRules (superCallRules indent) content).content.toList.map .char) := by
  obtain ⟨pieces, _, reads, patched⟩ := exists_patched free content
  rw [patched]
  exact reads_settled free reads

/-- A text that is read as characters only is left as it is. -/
theorem applyRules_of_chars {content : String} (reads : Reads none (content.toList.map .char))
    (indent : String) :
    applyRules (superCallRules indent) content =
      ⟨content, [("two-argument", 0), ("one-argument", 0)], false⟩ := by
  simp [applyRules, applyAll_of_chars reads indent]

/-!
### Calls in the indent
-/

/-- The weight `1`. -/
def unitWeight : Weight :=
  ⟨['1'], .whole (by simp) (by simp)⟩

/-- What becomes of a text that is a single call. -/
theorem applyRules_single (indent : String) :
    (applyRules (superCallRules indent) "super(1);").content.toList =
      (SuperCall.one unitWeight).setters indent.toList := by
  have text : "super(1);".toList = source [.call (.one unitWeight)] := rfl
  have reads : Reads none [.call (.one unitWeight)] := .call rfl .nil
  have applied := applyAll_superCallRules indent reads reads rfl
  rw [toList_applyRules, text, applied, List.flatMap_singleton]
  exact source_map_char _

/-- A call in the indent stands in the setters too. -/
theorem hasCall_setters {indent : List Char} (calls : HasCall indent) (weight : Weight) :
    HasCall ((SuperCall.one weight).setters indent) := by
  obtain ⟨front, rest, call, rfl, boundary, begins⟩ := hasCall_iff.mp calls
  refine hasCall_iff.mpr ⟨"super(".toList ++ (");\n".toList ++ front),
    rest ++ ("setWeight(".toList ++ (weight.text ++ ");".toList)), call, ?_, ?_,
    begins.trans (List.prefix_append _ _)⟩
  · rw [SuperCall.setters_one]
    simp only [List.append_assoc]
  · rw [behind_append, behind_append]
    cases front with
    | nil => rfl
    | cons c front => exact boundary

/-- With a call in the indent the second patch adds to what the first one left. -/
theorem applyRules_twice_ne {indent : String} (calls : HasCall indent.toList) :
    (applyRules (superCallRules indent)
        (applyRules (superCallRules indent) "super(1);").content).content ≠
      (applyRules (superCallRules indent) "super(1);").content := by
  have stands : HasCall (applyRules (superCallRules indent) "super(1);").content.toList := by
    rw [applyRules_single]
    exact hasCall_setters calls unitWeight
  obtain ⟨_, _, _, _, changed⟩ :=
    applyRules_tally indent (applyRules (superCallRules indent) "super(1);").content
  exact (changed_iff_content_ne _ _).mp (changed stands)

/-- Patching twice is patching once if no call stands in the indent, and otherwise not even for the
shortest call.  No call stands in an indent that settings or arguments admit. -/
theorem superCalls_idempotent_iff_free :
    (∀ indent other content : String, ¬ HasCall indent.toList →
      applyRules (superCallRules other) (applyRules (superCallRules indent) content).content =
        ⟨(applyRules (superCallRules indent) content).content,
          [("two-argument", 0), ("one-argument", 0)], false⟩) ∧
    (∀ indent : String, HasCall indent.toList →
      (applyRules (superCallRules indent)
          (applyRules (superCallRules indent) "super(1);").content).content ≠
        (applyRules (superCallRules indent) "super(1);").content) ∧
    (∀ validator raw base config,
      Config.ofJson validator raw base = .ok config → ¬ HasCall config.indent.toList) ∧
    ∀ text indent, Command.indentOf text = .ok indent → ¬ HasCall indent.toList := by
  refine ⟨?_, ?_, ?_, ?_⟩
  · intro indent other content free
    exact applyRules_of_chars (reads_applyRules free content) other
  · intro indent calls
    exact applyRules_twice_ne calls
  · intro validator raw base config read
    exact not_hasCall_of_isIndent (Config.isIndent_of_ofJson read)
  · intro text indent asked
    exact not_hasCall_of_isIndent (Command.isIndent_of_indentOf asked)

/-- An indent of a tab, another one that is a call, and indents that were read. -/
theorem superCalls_idempotent_iff_free_tab :
    ¬ HasCall "\t".toList ∧
      applyRules (superCallRules "super(")
          (applyRules (superCallRules "\t") "super(1, false);super(2);").content =
        ⟨(applyRules (superCallRules "\t") "super(1, false);super(2);").content,
          [("two-argument", 0), ("one-argument", 0)], false⟩ ∧
      HasCall "super(1);".toList ∧
      (applyRules (superCallRules "super(1);")
          (applyRules (superCallRules "super(1);") "super(1);").content).content ≠
        (applyRules (superCallRules "super(1);") "super(1);").content ∧
      ¬ HasCall " \t".toList ∧ ¬ HasCall "   ".toList := by
  have tab : ¬ HasCall "\t".toList := not_hasCall_of_isIndent rfl
  have call : HasCall "super(1);".toList :=
    ⟨0, .one unitWeight, Or.inl rfl, List.prefix_refl _⟩
  exact ⟨tab, superCalls_idempotent_iff_free.1 "\t" "super(" _ tab, call,
    superCalls_idempotent_iff_free.2.1 "super(1);" call,
    superCalls_idempotent_iff_free.2.2.1 .standard (some (.object [("indent", .string " \t")])) ["w"]
      ⟨[], [], defaultIgnore, ["w"], " \t", false, .fail, true⟩ rfl,
    superCalls_idempotent_iff_free.2.2.2 "3" "   " rfl⟩

end SuperCalls
