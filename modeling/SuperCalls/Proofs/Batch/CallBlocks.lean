/-
Module: SuperCalls.Proofs.Batch.CallBlocks
Purpose: The calls that a batch makes.  They come in blocks, one for each path: the question whether
  there is a file, the reading if there is one, and the writing if the rules change the text that
  was read.  What is told here of the answers is read off a sandbox that writes down both.
Main exports: Exchange, Sandbox.overheard, Batch.Block, Batch.Patches.overheard, Batch.blocks_run,
  calls_in_blocks
-/
import Mathlib.Data.List.Forall2
import SuperCalls.Proofs.Batch.Course
import SuperCalls.Proofs.Batch.MemoryVisits
import SuperCalls.Proofs.Rules.Rewriting

namespace SuperCalls

variable {σ ν : Type}

/-!
### Calls and their answers
-/

/-- A call of a sandbox, and how it was answered. -/
inductive Exchange where
  | isFile (path : String) (answer : Except Failure Bool)
  | read (path : String) (answer : Except Failure String)
  | write (path content : String) (answer : Except Failure Unit)
  | find (pattern : String) (ignored : List String) (answer : Except Failure (List String))

namespace Exchange

/-- The call. -/
def call : Exchange → Call
  | isFile path _ => .isFile path
  | read path _ => .read path
  | write path content _ => .write path content
  | find pattern ignored _ => .find pattern ignored

/-- The call was answered by a failure. -/
def Fails : Exchange → Prop
  | isFile _ answer => ∃ failure, answer = .error failure
  | read _ answer => ∃ failure, answer = .error failure
  | write _ _ answer => ∃ failure, answer = .error failure
  | find _ _ answer => ∃ failure, answer = .error failure

end Exchange

/-- A call whose answer is written down behind the answers before it. -/
def overhear {α : Type} (exchange : Except Failure α → Exchange)
    (act : ExceptT Failure (StateM σ) α) : ExceptT Failure (StateM (σ × List Exchange)) α :=
  fun (s, heard) => ((act.run s).1, ((act.run s).2, heard ++ [exchange (act.run s).1]))

/-- A sandbox whose calls are written down together with the answers. -/
def Sandbox.overheard (sandbox : Sandbox (StateM σ)) :
    Sandbox (StateM (σ × List Exchange)) where
  isFile path := overhear (.isFile path) (sandbox.isFile path)
  read path := overhear (.read path) (sandbox.read path)
  write path content := overhear (.write path content) (sandbox.write path content)
  find pattern ignored := overhear (.find pattern ignored) (sandbox.find pattern ignored)

/-- What was overheard is what the call came to. -/
theorem of_overhear {α : Type} {exchange : Except Failure α → Exchange}
    {act : ExceptT Failure (StateM σ) α} {s : σ} {heard : List Exchange} {answer : Except Failure α}
    {t : σ × List Exchange} (called : (overhear exchange act).run (s, heard) = (answer, t)) :
    act.run s = (answer, t.1) ∧ t.2 = heard ++ [exchange answer] := by
  cases called
  exact ⟨rfl, rfl⟩

namespace Batch

/-!
### Blocks
-/

/-- The calls that a batch makes for one path, with their answers. -/
inductive Block (batch : Batch) (path : String) : List Exchange → Prop where
  /-- It is not answered that there is a file, so nothing is read. -/
  | absent {answer : Except Failure Bool} (no : answer ≠ .ok true) :
      Block batch path [.isFile path answer]
  | unreadable {failure : Failure} :
      Block batch path [.isFile path (.ok true), .read path (.error failure)]
  /-- The run is dry, or the rules leave the text that was read as it is. -/
  | kept {content : String}
      (idle : batch.dryRun = true ∨ (applyRules batch.rules content).content = content) :
      Block batch path [.isFile path (.ok true), .read path (.ok content)]
  /-- The text that was read is another one when the rules were applied to it; this is written. -/
  | written {content : String} {answer : Except Failure Unit} (wet : batch.dryRun = false)
      (changed : (applyRules batch.rules content).content ≠ content) :
      Block batch path
        [.isFile path (.ok true), .read path (.ok content),
          .write path (applyRules batch.rules content).content answer]

/-- Some call of a block was answered by a failure. -/
def Fails (block : List Exchange) : Prop :=
  ∃ exchange ∈ block, exchange.Fails

/-- Over a sandbox that is overheard, the calls for one path are the calls that are made without it,
and what was overheard is one block; some call of it fails just if the path does. -/
theorem Patches.overheard {batch : Batch} {sandbox : Sandbox (StateM σ)} {path : String}
    {s : σ} {heard : List Exchange} {result : Except Failure Outcome} {t : σ × List Exchange}
    (patches : Patches batch sandbox.overheard path (s, heard) result t) :
    Patches batch sandbox path s result t.1 ∧
      ∃ block, t.2 = heard ++ block ∧ batch.Block path block ∧
        (Fails block ↔ ∃ failure, result = .error failure) := by
  cases patches with
  | unknown isFile =>
      obtain ⟨isFile, told⟩ := of_overhear isFile
      refine ⟨.unknown isFile, _, told, .absent nofun, ?_⟩
      simp [Fails, Exchange.Fails]
  | skipped isFile =>
      obtain ⟨isFile, told⟩ := of_overhear isFile
      refine ⟨.skipped isFile, _, told, .absent nofun, ?_⟩
      simp [Fails, Exchange.Fails]
  | unreadable isFile read =>
      obtain ⟨isFile, asked⟩ := of_overhear isFile
      obtain ⟨read, told⟩ := of_overhear read
      rw [asked, List.append_assoc] at told
      refine ⟨.unreadable isFile read, _, told, .unreadable, ?_⟩
      simp [Fails, Exchange.Fails]
  | unchanged isFile read same =>
      obtain ⟨isFile, asked⟩ := of_overhear isFile
      obtain ⟨read, told⟩ := of_overhear read
      rw [asked, List.append_assoc] at told
      refine ⟨.unchanged isFile read same, _, told,
        .kept (Or.inr (bne_eq_false_iff_eq.mp same)), ?_⟩
      simp [Fails, Exchange.Fails]
  | unwritten isFile read changed dry =>
      obtain ⟨isFile, asked⟩ := of_overhear isFile
      obtain ⟨read, told⟩ := of_overhear read
      rw [asked, List.append_assoc] at told
      refine ⟨.unwritten isFile read changed dry, _, told, .kept (Or.inl dry), ?_⟩
      simp [Fails, Exchange.Fails]
  | unwritable isFile read changed wet write =>
      obtain ⟨isFile, asked⟩ := of_overhear isFile
      obtain ⟨read, answered⟩ := of_overhear read
      obtain ⟨write, told⟩ := of_overhear write
      rw [answered, asked, List.append_assoc, List.append_assoc] at told
      refine ⟨.unwritable isFile read changed wet write, _, told,
        .written wet ((changed_iff_content_ne _ _).mp changed), ?_⟩
      simp [Fails, Exchange.Fails]
  | written isFile read changed wet write =>
      obtain ⟨isFile, asked⟩ := of_overhear isFile
      obtain ⟨read, answered⟩ := of_overhear read
      obtain ⟨write, told⟩ := of_overhear write
      rw [answered, asked, List.append_assoc, List.append_assoc] at told
      refine ⟨.written isFile read changed wet write, _, told,
        .written wet ((changed_iff_content_ne _ _).mp changed), ?_⟩
      simp [Fails, Exchange.Fails]

/-- Patching a file while the calls are overheard comes to what it comes to without that. -/
theorem patched_overheard (batch : Batch) (sandbox : Sandbox (StateM σ)) (path : String) (s : σ)
    (heard : List Exchange) :
    batch.patched sandbox path s =
      ((batch.patched sandbox.overheard path (s, heard)).1,
        (batch.patched sandbox.overheard path (s, heard)).2.1) :=
  patched_of_patches (patches_patched batch sandbox.overheard path (s, heard)).overheard.1

/-- A run whose calls are overheard is the run. -/
theorem run_overheard (batch : Batch) (sandbox : Sandbox (StateM σ)) (bus : Bus Event ν)
    (paths : List String) (s : σ) :
    let heard := (batch.run sandbox.overheard bus paths).run (s, [])
    (batch.run sandbox bus paths).run s = (heard.1, heard.2.1) := by
  have step : ∀ path ∈ paths, ∀ (s : σ × List Exchange) (u : σ), s.1 = u →
      (batch.patched sandbox.overheard path s).1 = (batch.patched sandbox path u).1 ∧
        (batch.patched sandbox.overheard path s).2.1 = (batch.patched sandbox path u).2 := by
    rintro path _ ⟨s, heard⟩ _ rfl
    rw [patched_overheard batch sandbox path s heard]
    exact ⟨rfl, rfl⟩
  obtain ⟨same, left⟩ := batch.runFrom_simulates step bus .start (s, []) s rfl
  exact Prod.ext same.symm left.symm

/-!
### The blocks of a run
-/

/-- Blocks of calls for paths, one for each.  If failures end the batch, only the last block may
have a call that fails. -/
structure Blocks (batch : Batch) (paths : List String) (blocks : List (List Exchange)) : Prop where
  each : List.Forall₂ batch.Block paths blocks
  last : batch.errorPolicy = .fail → ∀ block ∈ blocks.dropLast, ¬ Fails block

namespace Blocks

variable {batch : Batch} {path : String} {paths : List String} {block : List Exchange}
  {blocks : List (List Exchange)}

theorem nil : Blocks batch [] [] :=
  ⟨.nil, fun _ _ held => (List.not_mem_nil held).elim⟩

theorem cons (own : batch.Block path block) (fine : batch.errorPolicy = .fail → ¬ Fails block)
    (more : Blocks batch paths blocks) : Blocks batch (path :: paths) (block :: blocks) := by
  refine ⟨.cons own more.each, fun ends => ?_⟩
  cases blocks with
  | nil => exact fun _ held => (List.not_mem_nil held).elim
  | cons next blocks => exact List.forall_mem_cons.mpr ⟨fine ends, more.last ends⟩

theorem singleton (own : batch.Block path block) : Blocks batch [path] [block] :=
  ⟨.cons own .nil, fun _ _ held => (List.not_mem_nil held).elim⟩

end Blocks

/-- What the batch makes of a patched file is a failure only if failures end it and there is one. -/
theorem error_of_settle {batch : Batch} {path : String} {result : Except Failure Outcome}
    {failure : Failure} (settled : batch.settle path result = .error failure) :
    batch.errorPolicy = .fail ∧ ∃ cause, result = .error cause := by
  cases result with
  | ok outcome => cases settled
  | error cause =>
      simp only [settle] at settled
      split at settled
      · next ends => exact ⟨ends, cause, rfl⟩
      · cases settled

/-- A failure is not passed over by a batch that failures end. -/
theorem ok_of_settle {batch : Batch} {path : String} {result : Except Failure Outcome}
    {outcome : Outcome} (settled : batch.settle path result = .ok outcome)
    (ends : batch.errorPolicy = .fail) : ¬ ∃ failure, result = .error failure := by
  rintro ⟨failure, rfl⟩
  simp only [settle, ends] at settled
  cases settled

/-- The calls along a course come in blocks, one for each path up to the one that ends it. -/
theorem blocks_course (batch : Batch) (sandbox : Sandbox (StateM σ)) (paths : List String) (s : σ)
    (heard : List Exchange) :
    let course := batch.course sandbox.overheard (s, heard) paths
    ∃ done blocks, done <+: paths ∧ Blocks batch done blocks ∧
      course.state.2 = heard ++ blocks.flatten ∧
      (course.stop = none → done = paths ∧
        (batch.errorPolicy = .fail → ∀ block ∈ blocks, ¬ Fails block)) ∧
      (course.stop ≠ none → batch.errorPolicy = .fail ∧
        ∃ block, blocks.getLast? = some block ∧ Fails block) := by
  induction paths generalizing s heard with
  | nil => exact ⟨[], [], List.prefix_refl _, .nil, (List.append_nil _).symm,
      fun _ => ⟨rfl, fun _ _ held => (List.not_mem_nil held).elim⟩,
      fun stopped => (stopped rfl).elim⟩
  | cons path paths ih =>
      obtain ⟨_, block, told, own, fails⟩ :=
        (patches_patched batch sandbox.overheard path (s, heard)).overheard
      simp only [course]
      cases settled : batch.settle path (batch.patched sandbox.overheard path (s, heard)).1 with
      | error failure =>
          obtain ⟨ends, failed⟩ := error_of_settle settled
          refine ⟨[path], [block], ⟨paths, rfl⟩, .singleton own, ?_, fun unstopped => ?_, fun _ => ?_⟩
          · rw [told, List.flatten_singleton]
          · cases unstopped
          · exact ⟨ends, block, rfl, fails.mpr failed⟩
      | ok outcome =>
          have fine (ends : batch.errorPolicy = .fail) : ¬ Fails block :=
            fun failed => ok_of_settle settled ends (fails.mp failed)
          obtain ⟨done, blocks, begins, more, later, whole, cut⟩ :=
            ih (batch.patched sandbox.overheard path (s, heard)).2.1
              (batch.patched sandbox.overheard path (s, heard)).2.2
          refine ⟨path :: done, block :: blocks, List.cons_prefix_cons.mpr ⟨rfl, begins⟩,
            more.cons own fine, ?_, fun unstopped => ?_, fun stopped => ?_⟩
          · rw [List.flatten_cons, ← List.append_assoc, ← told]
            exact later
          · obtain ⟨rfl, none⟩ := whole unstopped
            exact ⟨rfl, fun ends => List.forall_mem_cons.mpr ⟨fine ends, none ends⟩⟩
          · obtain ⟨ends, last, at_end, failed⟩ := cut stopped
            refine ⟨ends, last, ?_, failed⟩
            rw [List.getLast?_cons, at_end]
            rfl

/-- The calls of a run come in blocks, whatever the listeners do.  A run that reports has made a
block for each path; one that does not report though no listener fails has ended at a call that
failed. -/
theorem blocks_run (batch : Batch) (sandbox : Sandbox (StateM σ)) (bus : Bus Event ν)
    (paths : List String) (s : σ) :
    let heard := (batch.run sandbox.overheard bus paths).run (s, [])
    ∃ done blocks, done <+: paths ∧ Blocks batch done blocks ∧ heard.2.2 = blocks.flatten ∧
      (∀ report, heard.1.2 = .ok report → done = paths ∧
        (batch.errorPolicy = .fail → ∀ block ∈ blocks, ¬ Fails block)) ∧
      (bus.Calm → (∃ report, heard.1.2 = .ok report) ∨
        batch.errorPolicy = .fail ∧ ∃ block, blocks.getLast? = some block ∧ Fails block) := by
  intro heard
  by_cases calm : bus.Calm
  · -- The run is the whole course, so what stopped the course ended the run.
    have ran := batch.run_eq_of_calm sandbox.overheard calm paths (s, [])
    obtain ⟨done, blocks, begins, all, told, whole, cut⟩ :=
      batch.blocks_course sandbox paths s []
    have flat : heard.2.2 = blocks.flatten := (congrArg (·.2.2) ran).trans told
    have ended : heard.1.2 = (batch.conclude bus [] _).2 := congrArg (·.1.2) ran
    cases stop : (batch.course sandbox.overheard (s, []) paths).stop with
    | none =>
        simp only [conclude, stop] at ended
        exact ⟨done, blocks, begins, all, flat, fun _ _ => whole stop, fun _ => Or.inl ⟨_, ended⟩⟩
    | some failure =>
        simp only [conclude, stop] at ended
        have failed := cut (ne_of_eq_of_ne stop (Option.some_ne_none failure))
        refine ⟨done, blocks, begins, all, flat, fun report reported => ?_, fun _ => Or.inr failed⟩
        rw [ended] at reported
        cases reported
  · obtain ⟨first, leads, state, reports⟩ :=
      batch.follows_runFrom sandbox.overheard paths bus [] (s, [])
    obtain ⟨done, blocks, begins, all, told, whole, _⟩ := batch.blocks_course sandbox first s []
    refine ⟨done, blocks, begins.trans leads, all, ?_, ?_, fun calmed => (calm calmed).elim⟩
    · exact (congrArg Prod.snd state).trans told
    · intro report reported
      obtain ⟨rfl, unstopped, _⟩ := reports report reported
      exact whole unstopped

end Batch

/-!
### Blocks in a store
-/

namespace MemoryStore

/-- The calls that a store has written down are some first ones and those that were overheard. -/
def Logs (start : List Call) (s : MemoryStore × List Exchange) : Prop :=
  s.1.calls = start ++ s.2.map Exchange.call

namespace Logs

variable {start : List Call} {s t : MemoryStore × List Exchange}

/-- What is overheard of a call is the call that is written down. -/
theorem call {α : Type} {exchange : Except Failure α → Exchange}
    {act : ExceptT Failure (StateM MemoryStore) α} {answer : Except Failure α}
    (logs : Logs start s) (called : (overhear exchange act).run s = (answer, t))
    (recorded : ∀ after, act.run s.1 = (answer, after) →
      after.calls = s.1.calls ++ [(exchange answer).call]) : Logs start t := by
  obtain ⟨ran, told⟩ := of_overhear called
  unfold Logs at logs ⊢
  rw [recorded t.1 ran, logs, told, List.map_append, List.map_singleton, List.append_assoc]

variable {path : String}

theorem isFile {answer : Except Failure Bool} (logs : Logs start s)
    (called : (sandbox.overheard.isFile path).run s = (answer, t)) : Logs start t := by
  refine logs.call called fun after ran => ?_
  rw [isFile_recording ran]
  rfl

theorem read {answer : Except Failure String} (logs : Logs start s)
    (called : (sandbox.overheard.read path).run s = (answer, t)) : Logs start t := by
  refine logs.call called fun after ran => ?_
  rw [read_recording ran]
  rfl

theorem write {content : String} {answer : Except Failure Unit} (logs : Logs start s)
    (called : (sandbox.overheard.write path content).run s = (answer, t)) : Logs start t := by
  refine logs.call called fun after ran => ?_
  rcases write_recording ran with recorded | ⟨_, recorded⟩ <;> rw [recorded] <;> rfl

theorem patches {batch : Batch} {result : Except Failure Outcome} (logs : Logs start s)
    (patches : Batch.Patches batch sandbox.overheard path s result t) : Logs start t := by
  cases patches with
  | unknown isFile | skipped isFile => exact logs.isFile isFile
  | unreadable isFile read | unchanged isFile read | unwritten isFile read =>
      exact (logs.isFile isFile).read read
  | unwritable isFile read _ _ write | written isFile read _ _ write =>
      exact ((logs.isFile isFile).read read).write write

end Logs

/-- A course never writes to a path under which it finds a text that the rules match nowhere. -/
theorem kept_of_unmatched (batch : Batch) {store : MemoryStore} {path content : String}
    (present : store.get? path = some content)
    (unmatched : ∀ rule ∈ batch.rules, rule.Unmatched content.toList) (paths : List String) :
    let left := (batch.course sandbox store paths).state
    left.get? path = some content ∧
      ∃ calls, left.calls = store.calls ++ calls ∧ ∀ text, .write path text ∉ calls := by
  refine Batch.course_preserves (p := fun left => left.get? path = some content ∧
    ∃ calls, left.calls = store.calls ++ calls ∧ ∀ text, .write path text ∉ calls) paths ?_ store
    ⟨present, [], (List.append_nil _).symm, fun _ => List.not_mem_nil⟩
  rintro other - s ⟨there, calls, before, unwritten⟩
  rw [patched_eq]
  have unvisited : ∀ text, .write path text ∉ (batch.visit other (s.share other)).calls := by
    intro text writes
    obtain ⟨rfl, _, found, share, changed⟩ := Batch.of_write_mem_visit writes
    cases share.symm.trans there
    rw [applyRules_of_unmatched unmatched] at changed
    cases changed
  refine ⟨?_, calls ++ (batch.visit other (s.share other)).calls, ?_, ?_⟩
  · rw [get?_visited]
    split
    · next own =>
        subst own
        cases written : (batch.visit path (s.share path)).written with
        | none => exact there
        | some text => exact (unvisited text (Batch.write_mem_of_written written)).elim
    · exact there
  · rw [calls_visited, before, List.append_assoc]
  · exact fun text writes => (List.mem_append.mp writes).elim (unwritten text) (unvisited text)

/-- A dry course makes no write, and leaves the store as it was but for the calls. -/
theorem recording_of_dry (batch : Batch) (dry : batch.dryRun = true) (store : MemoryStore)
    (paths : List String) :
    ∃ calls, (batch.course sandbox store paths).state = store.recording calls ∧
      ∀ path text, .write path text ∉ calls := by
  refine Batch.course_preserves (p := fun left => ∃ calls, left = store.recording calls ∧
    ∀ path text, .write path text ∉ calls) paths ?_ store
      ⟨[], ?_, fun _ _ => List.not_mem_nil⟩
  · rintro other - s ⟨calls, rfl, unwritten⟩
    rw [patched_eq]
    generalize (store.recording calls).share other = share
    have unvisited : ∀ path text, .write path text ∉ (batch.visit other share).calls := by
      intro path text writes
      obtain ⟨_, wet, _⟩ := Batch.of_write_mem_visit writes
      rw [dry] at wet
      cases wet
    refine ⟨calls ++ (batch.visit other share).calls, ?_, ?_⟩
    · cases written : (batch.visit other share).written with
      | none => rw [visited, written, recording_recording]
      | some text => exact (unvisited _ text (Batch.write_mem_of_written written)).elim
    · exact fun path text writes =>
        (List.mem_append.mp writes).elim (unwritten path text) (unvisited path text)
  · rw [recording, List.append_nil]

end MemoryStore

open Batch

/-- The calls of a run over a store come in blocks, one for each path in order: the question for the
file, the reading where the answer was yes, and the writing where the run is not dry and the rules
make another text of exactly the one that was read.  Only a listener that fails, or under `fail` a
call that fails in the last block, keeps a path from its block.  Nothing is written to a file in
which no rule finds a match, and a dry run writes nothing and leaves the store as it was but for the
calls. -/
theorem calls_in_blocks (rules : List Rule) (dryRun : Bool) (bus : Bus Event ν)
    (store : MemoryStore) (policy : ErrorPolicy) (paths : List String) :
    let batch : Batch := ⟨rules, dryRun, policy⟩
    let ran := memoryRun rules dryRun bus store policy paths
    let heard := (batch.run MemoryStore.sandbox.overheard bus paths).run (store, [])
    ran = (heard.1, heard.2.1) ∧
    (∃ done blocks, done <+: paths ∧ Blocks batch done blocks ∧ heard.2.2 = blocks.flatten ∧
      (∀ report, ran.1.2 = .ok report → done = paths ∧
        (policy = .fail → ∀ block ∈ blocks, ¬ Fails block)) ∧
      (bus.Calm → (∃ report, ran.1.2 = .ok report) ∨
        policy = .fail ∧ ∃ block, blocks.getLast? = some block ∧ Fails block)) ∧
    ∃ calls, calls = heard.2.2.map Exchange.call ∧ ran.2.calls = store.calls ++ calls ∧
      (∀ path content, store.get? path = some content →
        (∀ rule ∈ rules, rule.Unmatched content.toList) → ∀ text, .write path text ∉ calls) ∧
      (dryRun = true →
        (∀ path text, .write path text ∉ calls) ∧ ran.2 = store.recording calls) := by
  intro batch ran heard
  have same : ran = (heard.1, heard.2.1) :=
    batch.run_overheard MemoryStore.sandbox bus paths store
  have logs : MemoryStore.Logs store.calls heard.2 := by
    obtain ⟨done, _, state⟩ :=
      batch.course_of_run MemoryStore.sandbox.overheard bus paths (store, [])
    rw [show heard.2 = _ from state]
    refine course_preserves done (fun path _ s before => ?_) _ (List.append_nil _).symm
    exact before.patches (patches_patched batch MemoryStore.sandbox.overheard path s)
  have logged : ran.2.calls = store.calls ++ heard.2.2.map Exchange.call := by
    rw [same]
    exact logs
  obtain ⟨done, _, state⟩ := batch.course_of_run MemoryStore.sandbox bus paths store
  have left : ran.2 = (batch.course MemoryStore.sandbox store done).state := state
  refine ⟨same, ?_, _, rfl, logged, ?_, ?_⟩
  · rw [same]
    exact batch.blocks_run MemoryStore.sandbox bus paths store
  · intro path content present unmatched
    obtain ⟨_, calls, added, unwritten⟩ :=
      MemoryStore.kept_of_unmatched batch present unmatched done
    rw [← left, logged] at added
    rwa [List.append_cancel_left added]
  · intro dry
    obtain ⟨calls, recorded, unwritten⟩ :=
      MemoryStore.recording_of_dry batch dry store done
    rw [← left] at recorded
    have added := logged
    rw [recorded] at added
    rw [← List.append_cancel_left added]
    exact ⟨unwritten, recorded⟩

/-- One path is no file, one is listed twice, and one cannot be written, which ends the batch; a dry
run over the same paths ends at nothing. -/
theorem calls_in_blocks_unwritable :
    let bus : Bus Event Nat := Bus.empty
    let store : MemoryStore :=
      ⟨[("a", "super(1);"), ("b", "super(2);"), ("c", "x")], [((.write, "b"), .bare "42")], [], []⟩
    let paths := ["c", "n", "a", "a", "b", "c"]
    let ran := memoryRun (superCallRules "") false bus store .fail paths
    bus.Calm ∧ (∀ rule ∈ superCallRules "", rule.Unmatched "x".toList) ∧
    (∃ done blocks, done <+: paths ∧ Blocks ⟨superCallRules "", false, .fail⟩ done blocks ∧
      (∃ block, blocks.getLast? = some block ∧ Fails block) ∧
      ran.2.calls = blocks.flatten.map Exchange.call) ∧
    (∀ text, .write "c" text ∉ ran.2.calls) ∧
    (∃ calls, (memoryRun (superCallRules "") true bus store .fail paths).2 =
      store.recording calls) ∧
    ran.2.calls =
      [.isFile "c", .read "c", .isFile "n",
        .isFile "a", .read "a", .write "a" "super();\nsetWeight(1);", .isFile "a", .read "a",
        .isFile "b", .read "b", .write "b" "super();\nsetWeight(2);"] := by
  intro bus store paths ran
  have calm : bus.Calm := (Bus.Peaceful.of_nobody rfl).calm
  have unmatched : ∀ rule ∈ superCallRules "", rule.Unmatched "x".toList := by
    intro rule member front rest split
    rcases List.singleton_eq_append_iff.mp split with ⟨rfl, rfl⟩ | ⟨rfl, rfl⟩
    all_goals
      rcases List.mem_pair.mp member with rfl | rfl <;> rfl
  obtain ⟨same, ⟨done, blocks, begins, all, flat, _, ends⟩, calls, heard, logged, spared, -⟩ :=
    calls_in_blocks (superCallRules "") false bus store .fail paths
  have failed : ran.1.2.toOption = none := by decide +kernel
  have last : ∃ block, blocks.getLast? = some block ∧ Fails block := by
    rcases ends calm with ⟨report, reported⟩ | ⟨_, last⟩
    · rw [show ran.1.2 = .ok report from reported] at failed
      cases failed
    · exact last
  obtain ⟨_, _, dryCalls, _, _, _, dry⟩ :=
    calls_in_blocks (superCallRules "") true bus store .fail paths
  refine ⟨calm, unmatched, ⟨done, blocks, begins, all, last, ?_⟩, ?_, ⟨dryCalls, (dry rfl).2⟩,
    by decide +kernel⟩
  · rw [← flat, ← heard]
    exact logged
  · intro text
    have unwritten := spared "c" "x" rfl unmatched text
    rwa [show ran.2.calls = calls from logged]

end SuperCalls
