/-
Module: SuperCalls.Proofs.Batch.FailureCodes
Purpose: What a batch blames if a call ends it.  The failure that leaves the batch is the one that the
  last call was answered by.  A failure with a code keeps it, and any other counts as one to read, so
  a foreign failure to write is not blamed on writing.
Main exports: Exchange.failure?, Exchange.phase, EndsAt, NamesPhase, Batch.ends_runFrom,
  blame_names_phase_iff
-/
import SuperCalls.Proofs.Batch.CallBlocks

namespace SuperCalls

variable {σ ν : Type}

/-!
### Calls that fail
-/

/-- The code of a failure, if the library knows the cause. -/
def Failure.code? : Failure → Option FailureCode
  | coded code _ _ => some code
  | _ => none

namespace Exchange

/-- The failure that a call was answered by. -/
def failure? : Exchange → Option Failure
  | isFile _ (.error failure) => some failure
  | read _ (.error failure) => some failure
  | write _ _ (.error failure) => some failure
  | find _ _ (.error failure) => some failure
  | _ => none

/-- What a call is about: a path, or the pattern of a search. -/
def subject : Exchange → String
  | isFile path _ => path
  | read path _ => path
  | write path _ _ => path
  | find pattern _ _ => pattern

/-- What could not be done if the call failed. -/
def phase : Exchange → FailureCode
  | write .. => .writeFailed
  | isFile .. | read .. | find .. => .readFailed

theorem fails_iff (exchange : Exchange) :
    exchange.Fails ↔ ∃ failure, exchange.failure? = some failure := by
  cases exchange with
  | isFile path answer | read path answer | write path content answer
    | find pattern ignored answer => cases answer <;> simp [Fails, failure?]

end Exchange

/-- The last of the calls failed, and no other one did. -/
structure EndsAt (told : List Exchange) (last : Exchange) (fault : Failure) : Prop where
  split : ∃ before, told = before ++ [last] ∧ ∀ exchange ∈ before, exchange.failure? = none
  failed : last.failure? = some fault

namespace EndsAt

variable {told : List Exchange} {last exchange : Exchange} {fault failure : Failure}

theorem single (failed : last.failure? = some fault) : EndsAt [last] last fault :=
  ⟨⟨[], rfl, fun _ member => (List.not_mem_nil member).elim⟩, failed⟩

/-- Calls that do not fail may come before. -/
theorem behind {earlier : List Exchange} (fine : ∀ exchange ∈ earlier, exchange.failure? = none)
    (ends : EndsAt told last fault) : EndsAt (earlier ++ told) last fault := by
  obtain ⟨before, rfl, none⟩ := ends.split
  refine ⟨⟨earlier ++ before, (List.append_assoc ..).symm, fun exchange member => ?_⟩, ends.failed⟩
  exact (List.mem_append.mp member).elim (fine exchange) (none exchange)

/-- A call that failed is the one at the end. -/
theorem eq_last (ends : EndsAt told last fault) (member : exchange ∈ told)
    (failed : exchange.failure? = some failure) : exchange = last ∧ failure = fault := by
  obtain ⟨before, rfl, none⟩ := ends.split
  rcases List.mem_append.mp member with earlier | own
  · rw [none exchange earlier] at failed
    cases failed
  · cases List.mem_singleton.mp own
    exact ⟨rfl, Option.some.inj (failed.symm.trans ends.failed)⟩

end EndsAt

/-!
### The failure that leaves a batch
-/

namespace Batch

/-- The calls for one path end at the failure that it comes to, and none of them fails if it comes to
an outcome. -/
theorem Patches.ends {batch : Batch} {sandbox : Sandbox (StateM σ)} {path : String} {s : σ}
    {heard : List Exchange} {result : Except Failure Outcome} {t : σ × List Exchange}
    (patches : Patches batch sandbox.overheard path (s, heard) result t) :
    ∃ block, t.2 = heard ++ block ∧
      (∀ outcome, result = .ok outcome → ∀ exchange ∈ block, exchange.failure? = none) ∧
      ∀ fault, result = .error fault → ∃ last, EndsAt block last fault ∧ last.subject = path := by
  cases patches with
  | unknown isFile =>
      obtain ⟨-, told⟩ := of_overhear isFile
      refine ⟨_, told, nofun, ?_⟩
      rintro _ ⟨⟩
      exact ⟨_, .single rfl, rfl⟩
  | skipped isFile =>
      obtain ⟨-, told⟩ := of_overhear isFile
      refine ⟨_, told, fun _ _ => ?_, nofun⟩
      simp [Exchange.failure?]
  | unreadable isFile read =>
      obtain ⟨-, asked⟩ := of_overhear isFile
      obtain ⟨-, told⟩ := of_overhear read
      rw [asked, List.append_assoc] at told
      refine ⟨_, told, nofun, ?_⟩
      rintro _ ⟨⟩
      exact ⟨_, .behind (by simp [Exchange.failure?]) (.single rfl), rfl⟩
  | unchanged isFile read | unwritten isFile read =>
      obtain ⟨-, asked⟩ := of_overhear isFile
      obtain ⟨-, told⟩ := of_overhear read
      rw [asked, List.append_assoc] at told
      refine ⟨_, told, fun _ _ => ?_, nofun⟩
      simp [Exchange.failure?]
  | unwritable isFile read _ _ write =>
      obtain ⟨-, asked⟩ := of_overhear isFile
      obtain ⟨-, answered⟩ := of_overhear read
      obtain ⟨-, told⟩ := of_overhear write
      rw [answered, asked, List.append_assoc, List.append_assoc] at told
      refine ⟨_, told, nofun, ?_⟩
      rintro _ ⟨⟩
      rw [← List.append_assoc]
      exact ⟨_, .behind (by simp [Exchange.failure?]) (.single rfl), rfl⟩
  | written isFile read _ _ write =>
      obtain ⟨-, asked⟩ := of_overhear isFile
      obtain ⟨-, answered⟩ := of_overhear read
      obtain ⟨-, told⟩ := of_overhear write
      rw [answered, asked, List.append_assoc, List.append_assoc] at told
      refine ⟨_, told, fun _ _ => ?_, nofun⟩
      simp [Exchange.failure?]

/-- If failures end a batch, either no call of a run fails, or the last one does and the run ends with
that failure.  So it is whatever the listeners do. -/
theorem ends_runFrom (batch : Batch) (ending : batch.errorPolicy = .fail)
    (sandbox : Sandbox (StateM σ)) (paths : List String) (bus : Bus Event ν)
    (tally : Tally) (s : σ) (heard : List Exchange) :
    let ran := batch.runFrom sandbox.overheard bus tally paths (s, heard)
    ∃ told, ran.2.2 = heard ++ told ∧
      ((∀ exchange ∈ told, exchange.failure? = none) ∨
        ∃ last fault, EndsAt told last fault ∧ last.subject ∈ paths ∧
          ran.1.2 = .error (fault.about last.subject)) := by
  induction paths generalizing bus tally s heard with
  | nil =>
      refine ⟨[], ?_, Or.inl fun _ member => (List.not_mem_nil member).elim⟩
      rw [List.append_nil]
      unfold runFrom
      rcases bus.emit _ with ⟨told, failure | _⟩ <;> rfl
  | cons path paths ih =>
      obtain ⟨block, told, fine, fails⟩ :=
        (patches_patched batch sandbox.overheard path (s, heard)).ends
      intro ran
      have step : ran = _ := batch.runFrom_cons sandbox.overheard bus tally path paths (s, heard)
      rw [step]
      cases result : (batch.patched sandbox.overheard path (s, heard)).1 with
      | error fault =>
          obtain ⟨last, ends, own⟩ := fails fault result
          refine ⟨block, ?_, Or.inr ⟨last, fault, ends, ?_, ?_⟩⟩
          · simp only [settle, ending, told]
          · rw [own]
            exact List.mem_cons_self
          · simp only [settle, ending, own]
      | ok outcome =>
          have none := fine outcome result
          simp only [settle]
          rcases bus.emit (outcome.event batch.dryRun) with ⟨announced, failure | _⟩
          · exact ⟨block, told, Or.inl none⟩
          · obtain ⟨more, later, ended⟩ := ih announced (tally.record outcome)
              (batch.patched sandbox.overheard path (s, heard)).2.1
              (batch.patched sandbox.overheard path (s, heard)).2.2
            refine ⟨block ++ more, ?_, ?_⟩
            · rw [← List.append_assoc, ← told]
              exact later
            · rcases ended with silent | ⟨last, fault, ends, among, error⟩
              · exact Or.inl (List.forall_mem_append.mpr ⟨none, silent⟩)
              · exact Or.inr ⟨last, fault, ends.behind none, List.mem_cons_of_mem _ among, error⟩

end Batch

/-!
### The phase that is blamed
-/

/-- The failure that is blamed for a fault of a call names the phase of the call. -/
structure NamesPhase (call : Exchange) (fault blamed : Failure) : Prop where
  /-- If a text could not be written it says so, unless the fault came with a code of its own. -/
  writing : call.phase = .writeFailed → blamed.code? = some .writeFailed ∨
    ∃ code, fault.code? = some code ∧ blamed.code? = some code
  /-- It says that a file could not be read only where it was to be read, or the fault said so. -/
  reading : blamed.code? = some .readFailed →
    call.phase = .readFailed ∨ fault.code? = some .readFailed

theorem namesPhase_about_iff (call : Exchange) (fault : Failure) (path : String) :
    NamesPhase call fault (fault.about path) ↔ (call.phase = .writeFailed → fault.isCoded) := by
  cases fault with
  | coded code message about =>
      refine ⟨fun _ _ => rfl, fun _ => ⟨fun _ => Or.inr ⟨code, rfl, rfl⟩, fun read => Or.inr read⟩⟩
  | plain kind message | bare text =>
      constructor
      · rintro ⟨writing, -⟩ writes
        rcases writing writes with own | ⟨code, known, -⟩
        · cases own
        · cases known
      · intro known
        refine ⟨fun writes => ?_, fun _ => Or.inl ?_⟩
        · cases known writes
        · cases call with
          | write path content answer => cases known rfl
          | isFile | read | find => rfl

/-- A call of a run that fails is the last one, if failures end the batch, and the run ends with that
failure.  What is blamed names the phase of the call if and only if the call was not a writing, or the
failure had a code.  If no listener fails, a run ends with a failure only in this way; a replacement
never fails. -/
theorem blame_names_phase_iff (rules : List Rule) (dryRun : Bool) (bus : Bus Event ν)
    (store : MemoryStore) (paths : List String) :
    let batch : Batch := ⟨rules, dryRun, .fail⟩
    let ran := memoryRun rules dryRun bus store .fail paths
    let heard := (batch.run MemoryStore.sandbox.overheard bus paths).run (store, [])
    ran = (heard.1, heard.2.1) ∧
    (∀ call ∈ heard.2.2, ∀ fault, call.failure? = some fault →
      EndsAt heard.2.2 call fault ∧ call.subject ∈ paths ∧
      ran.1.2 = .error (fault.about call.subject) ∧
      (NamesPhase call fault (fault.about call.subject) ↔
        (call.phase = .writeFailed → fault.isCoded))) ∧
    (bus.Calm → ∀ failure, ran.1.2 = .error failure →
      ∃ call fault, EndsAt heard.2.2 call fault ∧ failure = fault.about call.subject) := by
  intro batch ran heard
  have same : ran = (heard.1, heard.2.1) :=
    batch.run_overheard MemoryStore.sandbox bus paths store
  obtain ⟨told, whole, ended⟩ :=
    batch.ends_runFrom rfl MemoryStore.sandbox paths bus .start store []
  have told_eq : heard.2.2 = told := whole
  have result : ran.1.2 = heard.1.2 := by rw [same]
  refine ⟨same, ?_, ?_⟩
  · intro call member fault failed
    rw [told_eq] at member ⊢
    rcases ended with silent | ⟨last, cause, ends, among, error⟩
    · rw [silent call member] at failed
      cases failed
    · obtain ⟨rfl, rfl⟩ := ends.eq_last member failed
      exact ⟨ends, among, result.trans error, namesPhase_about_iff call fault call.subject⟩
  · intro calm failure rejected
    rw [told_eq]
    rcases ended with silent | ⟨last, cause, ends, -, error⟩
    · -- A run in which no call fails has reported.
      obtain ⟨-, blocks, -, -, flat, -, reports⟩ :=
        batch.blocks_run MemoryStore.sandbox bus paths store
      rcases reports calm with ⟨report, reported⟩ | ⟨-, block, last, call, member, fails⟩
      · rw [result, show heard.1.2 = .ok report from reported] at rejected
        cases rejected
      · obtain ⟨fault, failed⟩ := call.fails_iff.mp fails
        have among : call ∈ told := by
          rw [← told_eq, show heard.2.2 = blocks.flatten from flat]
          exact List.mem_flatten.mpr ⟨block, List.mem_of_getLast? last, member⟩
        rw [silent call among] at failed
        cases failed
    · rw [result, show heard.1.2 = _ from error] at rejected
      cases rejected
      exact ⟨last, cause, ends, rfl⟩

/-- The second file cannot be read, for a reason that the library does not know, and the failure is
blamed on reading. -/
theorem blame_names_phase_iff_unreadable :
    let bus : Bus Event Nat := Bus.empty
    let store : MemoryStore :=
      ⟨[("a", "super(1);"), ("b", "super(2);")], [((.read, "b"), .bare "42")], [], []⟩
    let batch : Batch := ⟨superCallRules "", false, .fail⟩
    let heard := (batch.run MemoryStore.sandbox.overheard bus ["a", "b"]).run (store, [])
    let call : Exchange := .read "b" (.error (.bare "42"))
    bus.Calm ∧ EndsAt heard.2.2 call (.bare "42") ∧
      NamesPhase call (.bare "42") (.coded .readFailed "42" (some "b")) ∧
      (memoryRun batch.rules false bus store .fail ["a", "b"]).1.2 =
        .error (.coded .readFailed "42" (some "b")) ∧
      ∃ last fault, EndsAt heard.2.2 last fault ∧
        .coded .readFailed "42" (some "b") = fault.about last.subject := by
  intro bus store batch heard call
  have calm : bus.Calm := (Bus.Peaceful.of_nobody rfl).calm
  have told : heard.2.2 = [.isFile "a" (.ok true), .read "a" (.ok "super(1);"),
      .write "a" "super();\nsetWeight(1);" (.ok ()), .isFile "b" (.ok true), call] := rfl
  have member : call ∈ heard.2.2 := by
    rw [told]
    simp
  obtain ⟨-, calls, rejected⟩ := blame_names_phase_iff batch.rules false bus store ["a", "b"]
  obtain ⟨ends, -, ended, names⟩ := calls call member (.bare "42") rfl
  exact ⟨calm, ends, names.mpr nofun, ended, rejected calm _ ended⟩

/-- A text cannot be written, for a reason that the library does not know, and this is blamed on
reading. -/
theorem write_blamed_on_reading :
    let bus : Bus Event Nat := Bus.empty
    let store : MemoryStore :=
      ⟨[("a", "super(1);")], [((.write, "a"), .plain .error "disk full")], [], []⟩
    let batch : Batch := ⟨superCallRules "        ", false, .fail⟩
    let heard := (batch.run MemoryStore.sandbox.overheard bus ["a"]).run (store, [])
    let call : Exchange :=
      .write "a" "super();\n        setWeight(1);" (.error (.plain .error "disk full"))
    let blamed : Failure := .coded .readFailed "disk full" (some "a")
    heard.2.2 = [.isFile "a" (.ok true), .read "a" (.ok "super(1);"), call] ∧
      (memoryRun batch.rules false bus store .fail ["a"]).1.2 = .error blamed ∧
      ¬ NamesPhase call (.plain .error "disk full") blamed := by
  intro bus store batch heard call blamed
  refine ⟨?_, by decide +kernel, ?_⟩
  · rfl
  · rintro ⟨writing, -⟩
    rcases writing rfl with own | ⟨code, known, -⟩
    · cases own
    · cases known

end SuperCalls
