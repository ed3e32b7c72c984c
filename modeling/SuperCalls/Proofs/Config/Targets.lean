/-
Module: SuperCalls.Proofs.Config.Targets
Purpose: The files that settings are about, for any sandbox.  Each pattern is searched for once and in
  order; behind the files that are named stands a block for each pattern, in the order of code units,
  with what the pattern is the first to find.
Main exports: Text.Units.units_injective, Text.Units.le_iff, Text.Units.pairwise_sort, Sandbox.watched,
  Config.Answered, Config.Gathered, Config.addNew_eq, Config.exists_gathered,
  Config.run_addFound_eq_ok_iff, Config.Answered.run_targets, Config.gathered_of_run_targets,
  Config.targets_gathered
-/
import Mathlib.Data.List.Lex
import Mathlib.Tactic.Tauto
import SuperCalls.Config.Targets
import SuperCalls.Sandbox.Memory
import SuperCalls.Text.Units

namespace SuperCalls

namespace Text.Units

/-!
### Reading texts back
-/

/-- The number of a character is below the surrogates or above them. -/
theorem toNat_valid (c : Char) : c.toNat < 0xD800 ∨ 0xDFFF < c.toNat ∧ c.toNat < 0x110000 :=
  c.valid

theorem ofChar_of_lt {c : Char} (low : c.toNat < 0x10000) : ofChar c = [c.toNat] :=
  if_pos low

theorem ofChar_of_le {c : Char} (high : 0x10000 ≤ c.toNat) :
    ofChar c = [0xD800 + (c.toNat - 0x10000) / 1024, 0xDC00 + (c.toNat - 0x10000) % 1024] :=
  if_neg (Nat.not_lt.mpr high)

theorem ofChar_ne_nil (c : Char) : ofChar c ≠ [] := by
  unfold ofChar
  simp only
  split <;> exact List.cons_ne_nil _ _

/-- A character can be read back from the beginning of a sequence of units: a single unit is never the
first one of a pair. -/
theorem ofChar_append_inj {c d : Char} {rest more : List Nat}
    (same : ofChar c ++ rest = ofChar d ++ more) : c = d ∧ rest = more := by
  have validC := toNat_valid c
  have validD := toNat_valid d
  rw [← Char.toNat_inj]
  rcases Nat.lt_or_ge c.toNat 0x10000 with lowC | highC <;>
    rcases Nat.lt_or_ge d.toNat 0x10000 with lowD | highD
  · rw [ofChar_of_lt lowC, ofChar_of_lt lowD] at same
    simpa using same
  · rw [ofChar_of_lt lowC, ofChar_of_le highD] at same
    have first := (List.cons.inj same).1
    omega
  · rw [ofChar_of_le highC, ofChar_of_lt lowD] at same
    have first := (List.cons.inj same).1
    omega
  · rw [ofChar_of_le highC, ofChar_of_le highD] at same
    obtain ⟨first, others⟩ := List.cons.inj same
    obtain ⟨second, tails⟩ := List.cons.inj others
    exact ⟨by omega, tails⟩

theorem flatMap_ofChar_injective :
    ∀ {cs ds : List Char}, cs.flatMap ofChar = ds.flatMap ofChar → cs = ds
  | [], [], _ => rfl
  | [], d :: ds, same => by
      rw [List.flatMap_nil, List.flatMap_cons] at same
      exact absurd (List.append_eq_nil_iff.mp same.symm).1 (ofChar_ne_nil d)
  | c :: cs, [], same => by
      rw [List.flatMap_nil, List.flatMap_cons] at same
      exact absurd (List.append_eq_nil_iff.mp same).1 (ofChar_ne_nil c)
  | c :: cs, d :: ds, same => by
      rw [List.flatMap_cons, List.flatMap_cons] at same
      obtain ⟨rfl, rest⟩ := ofChar_append_inj same
      rw [flatMap_ofChar_injective rest]

/-- Texts are told apart by their units. -/
theorem units_injective {s t : String} (same : units s = units t) : s = t :=
  String.toList_injective (flatMap_ofChar_injective same)

/-!
### The order
-/

theorem lexLe_iff : ∀ {as bs : List Nat}, lexLe as bs = true ↔ as ≤ bs
  | [], bs => by simp [lexLe, ← not_lt]
  | a :: as, [] => by simp [lexLe, ← not_lt]
  | a :: as, b :: bs => by
      rw [lexLe, Bool.or_eq_true, Bool.and_eq_true, lexLe_iff, decide_eq_true_iff, beq_iff_eq,
        ← not_lt, ← not_lt, List.cons_lt_cons_iff]
      rcases lt_trichotomy a b with below | rfl | above
      · simp [below, below.ne', below.not_gt]
      · simp
      · simp [above, above.ne', above.not_gt]

/-- Texts are ordered as their units are. -/
theorem le_iff {s t : String} : le s t = true ↔ units s ≤ units t :=
  lexLe_iff

theorem lt_of_le_of_ne {s t : String} (below : le s t = true) (other : s ≠ t) :
    units s < units t :=
  lt_of_le_of_ne' (le_iff.mp below) fun same => other (units_injective same.symm)

/-- Sorted texts do not descend. -/
theorem pairwise_sort (texts : List String) : (sort texts).Pairwise fun s t => le s t = true := by
  apply List.pairwise_mergeSort
  · intro s t u one two
    rw [le_iff] at one two ⊢
    exact one.trans two
  · intro s t
    rw [Bool.or_eq_true, le_iff, le_iff]
    exact le_total _ _

theorem mem_sort {texts : List String} {text : String} : text ∈ sort texts ↔ text ∈ texts :=
  List.mem_mergeSort

/-- A character above U+FFFF sorts before the last ones below it. -/
example : le "\ud7ff" "😀" = true ∧ le "😀" "\uffff" = true ∧ le "\uffff" "😀" = false := by decide

end Text.Units

variable {σ : Type}

/-- A call of a sandbox, written down behind the calls before it. -/
def watch {α : Type} (call : Call) (act : ExceptT Failure (StateM σ) α) :
    ExceptT Failure (StateM (σ × List Call)) α :=
  fun (s, calls) => ((act.run s).1, ((act.run s).2, calls ++ [call]))

/-- A sandbox whose calls are written down. -/
def Sandbox.watched (sandbox : Sandbox (StateM σ)) : Sandbox (StateM (σ × List Call)) where
  isFile path := watch (.isFile path) (sandbox.isFile path)
  read path := watch (.read path) (sandbox.read path)
  write path content := watch (.write path content) (sandbox.write path content)
  find pattern ignored := watch (.find pattern ignored) (sandbox.find pattern ignored)

namespace Config

open Text.Units (units)

/-!
### Answers
-/

/-- What a sandbox finds for patterns that it is asked for one after the other, and the state that this
leaves. -/
inductive Answered (sandbox : Sandbox (StateM σ)) (ignored : List String) :
    σ → List String → List (List String) → σ → Prop where
  | nil {s : σ} : Answered sandbox ignored s [] [] s
  | cons {s t u : σ} {pattern : String} {patterns paths : List String} {found : List (List String)}
      (asked : (sandbox.find pattern ignored).run s = (.ok paths, t))
      (later : Answered sandbox ignored t patterns found u) :
      Answered sandbox ignored s (pattern :: patterns) (paths :: found) u

theorem exists_answered {sandbox : Sandbox (StateM σ)} {ignored : List String}
    (answers : ∀ pattern s, ∃ paths, ((sandbox.find pattern ignored).run s).1 = .ok paths)
    (patterns : List String) (s : σ) : ∃ found t, Answered sandbox ignored s patterns found t := by
  induction patterns generalizing s with
  | nil => exact ⟨[], s, .nil⟩
  | cons pattern patterns ih =>
      obtain ⟨paths, answer⟩ := answers pattern s
      obtain ⟨found, t, later⟩ := ih ((sandbox.find pattern ignored).run s).2
      exact ⟨paths :: found, t, .cons (Prod.ext answer rfl) later⟩

/-- A sandbox whose calls are written down answers alike, and each pattern is one call. -/
theorem Answered.watched {sandbox : Sandbox (StateM σ)} {ignored patterns : List String}
    {found : List (List String)} {s t : σ} (answered : Answered sandbox ignored s patterns found t)
    (calls : List Call) :
    Answered sandbox.watched ignored (s, calls) patterns found
      (t, calls ++ patterns.map (Call.find · ignored)) := by
  induction answered generalizing calls with
  | nil =>
      rw [List.map_nil, List.append_nil]
      exact .nil
  | @cons s t u pattern patterns paths found asked later ih =>
      have call : (sandbox.watched.find pattern ignored).run (s, calls) =
          (.ok paths, (t, calls ++ [.find pattern ignored])) := by
        show (((sandbox.find pattern ignored).run s).1, ((sandbox.find pattern ignored).run s).2, _) = _
        rw [asked]
      have rest := ih (calls ++ [.find pattern ignored])
      rw [List.append_assoc] at rest
      exact .cons call rest

/-!
### Blocks
-/

/-- Blocks of paths that patterns found, less the files that are named. -/
structure Gathered (files : List String) (found blocks : List (List String)) : Prop where
  /-- There is a block for each pattern. -/
  length : blocks.length = found.length
  /-- A path stands in the block of the first pattern that found it, unless it is named. -/
  mem_iff : ∀ (i : Nat) block, blocks[i]? = some block → ∀ path,
    path ∈ block ↔ path ∉ files ∧ (∃ paths, found[i]? = some paths ∧ path ∈ paths) ∧
      ∀ (j : Nat) paths, j < i → found[j]? = some paths → path ∉ paths
  /-- In a block the paths ascend by their code units. -/
  ascending : ∀ block ∈ blocks, block.Pairwise fun a b => units a < units b
  /-- What is found and not named stands in some block, and nothing else does. -/
  complete : ∀ path, path ∈ blocks.flatten ↔ path ∉ files ∧ ∃ paths ∈ found, path ∈ paths
  /-- It stands there once. -/
  once : blocks.flatten.Nodup

/-- New paths stand behind those that are listed, each of them once and in the given order. -/
theorem addNew_eq (listed paths : List String) :
    ∃ block, addNew listed paths = listed ++ block ∧ block.Sublist paths ∧ block.Nodup ∧
      ∀ path, path ∈ block ↔ path ∈ paths ∧ path ∉ listed := by
  induction paths generalizing listed with
  | nil => exact ⟨[], (List.append_nil listed).symm, List.Sublist.slnil, List.nodup_nil, by simp⟩
  | cons first paths ih =>
      have step : addNew listed (first :: paths) =
          addNew (if listed.contains first then listed else listed ++ [first]) paths := rfl
      by_cases known : first ∈ listed
      · obtain ⟨block, same, part, nodup, mem⟩ := ih listed
        rw [step, if_pos (List.contains_iff_mem.mpr known)]
        refine ⟨block, same, part.cons first, nodup, fun path => ?_⟩
        rw [mem, List.mem_cons]
        constructor
        · exact fun ⟨later, fresh⟩ => ⟨Or.inr later, fresh⟩
        · rintro ⟨rfl | later, fresh⟩
          · exact absurd known fresh
          · exact ⟨later, fresh⟩
      · obtain ⟨block, same, part, nodup, mem⟩ := ih (listed ++ [first])
        have apart : first ∉ block := fun member => ((mem first).mp member).2 (by simp)
        rw [step, if_neg (mt List.contains_iff_mem.mp known), same]
        refine ⟨first :: block, by simp, part.cons_cons first, List.nodup_cons.mpr ⟨apart, nodup⟩,
          fun path => ?_⟩
        rw [List.mem_cons, List.mem_cons, mem, List.mem_append, List.mem_singleton]
        by_cases own : path = first
        · subst own
          simp [known]
        · simp [own]

/-- The paths that patterns found, put behind those that are listed. -/
def gathered (listed : List String) (found : List (List String)) : List String :=
  found.foldl (fun listed paths => addNew listed (Text.Units.sort paths)) listed

/-- What sorted paths add to a list ascends. -/
theorem addNew_sort (listed paths : List String) :
    ∃ block, addNew listed (Text.Units.sort paths) = listed ++ block ∧
      (block.Pairwise fun a b => units a < units b) ∧
      ∀ path, path ∈ block ↔ path ∈ paths ∧ path ∉ listed := by
  obtain ⟨block, same, part, nodup, mem⟩ := addNew_eq listed (Text.Units.sort paths)
  refine ⟨block, same, ?_, fun path => by rw [mem, Text.Units.mem_sort]⟩
  have sorted := (Text.Units.pairwise_sort paths).sublist part
  exact (sorted.and nodup).imp fun ⟨below, other⟩ => Text.Units.lt_of_le_of_ne below other

/-- The first pattern adds its block, and the others add theirs to the longer list. -/
theorem Gathered.cons {files block paths : List String} {found blocks : List (List String)}
    (ascends : block.Pairwise fun a b => units a < units b)
    (mem : ∀ path, path ∈ block ↔ path ∈ paths ∧ path ∉ files)
    (rest : Gathered (files ++ block) found blocks) :
    Gathered files (paths :: found) (block :: blocks) where
  length := congrArg (· + 1) rest.length
  mem_iff := by
    intro i own here path
    cases i with
    | zero =>
        cases here
        rw [mem]
        simp [and_comm]
    | succ i =>
        rw [rest.mem_iff i own here path, List.mem_append, mem]
        constructor
        · rintro ⟨fresh, found, later⟩
          rw [not_or] at fresh
          refine ⟨fresh.1, found, fun j others earlier listed => ?_⟩
          cases j with
          | zero =>
              cases listed
              exact fun member => fresh.2 ⟨member, fresh.1⟩
          | succ j => exact later j others (Nat.lt_of_succ_lt_succ earlier) listed
        · rintro ⟨fresh, found, earlier⟩
          refine ⟨?_, found, fun j others before => earlier (j + 1) others (Nat.succ_lt_succ before)⟩
          rw [not_or]
          exact ⟨fresh, fun member => earlier 0 paths (Nat.succ_pos i) rfl member.1⟩
  ascending := by
    intro own member
    rcases List.mem_cons.mp member with rfl | later
    · exact ascends
    · exact rest.ascending own later
  complete := by
    intro path
    rw [List.flatten_cons, List.mem_append, mem, rest.complete, List.mem_append, mem]
    simp only [List.mem_cons, exists_eq_or_imp]
    tauto
  once := by
    have distinct : block.Nodup := by
      refine ascends.imp ?_
      rintro path _ below rfl
      exact List.lt_irrefl _ below
    rw [List.flatten_cons]
    refine List.nodup_append.mpr ⟨distinct, rest.once, ?_⟩
    rintro path here _ later rfl
    exact ((rest.complete path).mp later).1 (List.mem_append_right files here)

/-- What patterns find is gathered in blocks. -/
theorem exists_gathered (files : List String) (found : List (List String)) :
    ∃ blocks, gathered files found = files ++ blocks.flatten ∧ Gathered files found blocks := by
  induction found generalizing files with
  | nil =>
      refine ⟨[], (List.append_nil files).symm, rfl, nofun, nofun, ?_, List.nodup_nil⟩
      simp
  | cons paths found ih =>
      obtain ⟨block, added, ascends, mem⟩ := addNew_sort files paths
      obtain ⟨blocks, same, rest⟩ := ih (files ++ block)
      refine ⟨block :: blocks, ?_, rest.cons ascends mem⟩
      show gathered (addNew files (Text.Units.sort paths)) found = _
      rw [added, same, List.flatten_cons, List.append_assoc]

/-!
### Targets
-/

/-- What patterns find is put behind the listed paths if the sandbox answers for all of them. -/
theorem run_addFound_eq_ok_iff {sandbox : Sandbox (StateM σ)} {ignored patterns : List String}
    {listed whole : List String} {s t : σ} :
    (addFound (sandbox.find · ignored) listed patterns).run s = (.ok whole, t) ↔
      ∃ found, Answered sandbox ignored s patterns found t ∧ whole = gathered listed found := by
  constructor
  · intro done
    induction patterns generalizing listed s with
    | nil =>
        cases done
        exact ⟨[], .nil, rfl⟩
    | cons pattern patterns ih =>
        rw [addFound] at done
        obtain ⟨paths, u, asked, rest⟩ := ok_of_run_bind done
        obtain ⟨found, later, same⟩ := ih rest
        exact ⟨paths :: found, .cons asked later, same⟩
  · rintro ⟨found, answered, rfl⟩
    induction answered generalizing listed with
    | nil => rfl
    | cons asked later ih =>
        rw [addFound, run_bind, asked]
        exact ih

/-- If the sandbox answers for all patterns, the files of settings are those that are listed then, unless
there are none. -/
theorem Answered.run_targets {config : Config} {sandbox : Sandbox (StateM σ)}
    {found : List (List String)} {s t : σ}
    (answered : Answered sandbox config.ignore s config.globs found t) :
    (config.targets sandbox).run s =
      (if (gathered config.files found).isEmpty then .error noTargets
        else .ok (gathered config.files found), t) := by
  unfold targets
  rw [run_bind, run_addFound_eq_ok_iff.mpr ⟨found, answered, rfl⟩]
  simp only
  split <;> rfl

/-- If settings have files, the sandbox has answered for all patterns. -/
theorem gathered_of_run_targets {config : Config} {sandbox : Sandbox (StateM σ)}
    {listed : List String} {s t : σ} (ran : (config.targets sandbox).run s = (.ok listed, t)) :
    ∃ found blocks, Answered sandbox config.ignore s config.globs found t ∧
      listed = config.files ++ blocks.flatten ∧ Gathered config.files found blocks := by
  obtain ⟨whole, u, added, rest⟩ := ok_of_run_bind ran
  obtain ⟨found, answered, rfl⟩ := run_addFound_eq_ok_iff.mp added
  obtain ⟨blocks, same, gathers⟩ := exists_gathered config.files found
  split at rest
  · cases rest
  · cases rest
    exact ⟨found, blocks, answered, same, gathers⟩

theorem isEmpty_append_flatten {files : List String} {found blocks : List (List String)}
    (gathers : Gathered files found blocks) :
    (files ++ blocks.flatten).isEmpty = true ↔ files = [] ∧ ∀ paths ∈ found, paths = [] := by
  rw [List.isEmpty_iff, List.append_eq_nil_iff]
  refine and_congr_right fun unnamed => ?_
  subst unnamed
  rw [List.eq_nil_iff_forall_not_mem]
  constructor
  · intro nothing paths listed
    refine List.eq_nil_iff_forall_not_mem.mpr fun path member => nothing path ?_
    exact (gathers.complete path).mpr ⟨List.not_mem_nil, paths, listed, member⟩
  · intro empty path member
    obtain ⟨_, paths, listed, own⟩ := (gathers.complete path).mp member
    rw [empty paths listed] at own
    exact List.not_mem_nil own

/-- The files of settings are the named ones, as they are given, and behind them a block for each pattern
with what it is the first to find.  The sandbox is asked once for each pattern, in order, and for nothing
else.  Without any file the settings are refused, and for no other reason if the sandbox answers. -/
theorem targets_gathered (config : Config) {sandbox : Sandbox (StateM σ)}
    (answers : ∀ pattern s, ∃ paths, ((sandbox.find pattern config.ignore).run s).1 = .ok paths)
    (s : σ) :
    let ran := (config.targets sandbox.watched).run (s, [])
    ∃ found blocks t, Answered sandbox config.ignore s config.globs found t ∧
      Gathered config.files found blocks ∧
      ran.2 = (t, config.globs.map (Call.find · config.ignore)) ∧
      (config.files = [] ∧ (∀ paths ∈ found, paths = []) → ran.1 = .error noTargets) ∧
      (¬ (config.files = [] ∧ ∀ paths ∈ found, paths = []) →
        ran.1 = .ok (config.files ++ blocks.flatten)) := by
  intro ran
  obtain ⟨found, t, answered⟩ := exists_answered answers config.globs s
  obtain ⟨blocks, same, gathers⟩ := exists_gathered config.files found
  have whole : ran = _ := (answered.watched []).run_targets
  rw [List.nil_append, same] at whole
  have empty := isEmpty_append_flatten gathers
  refine ⟨found, blocks, t, answered, gathers, congrArg Prod.snd whole, fun nothing => ?_,
    fun some => ?_⟩
  · rw [whole, if_pos (empty.mpr nothing)]
  · rw [whole, if_neg (mt empty.mp some)]

/-- A sandbox that finds something else for every search after the first one. -/
def shifting : Sandbox (StateM Nat) where
  isFile _ := pure true
  read _ := pure ""
  write _ _ := pure ()
  find _ _ := fun n => (.ok (if n = 0 then ["\uffff", "b", "😀", "b"] else ["c", "b", "a"]), n + 1)

/-- A pattern that is asked for twice, and a file that is named twice and found, too. -/
theorem targets_gathered_shifting :
    let config : Config := ⟨["a", "a"], ["*", "*"], ["x"], [], "", false, .fail, true⟩
    let ran := (config.targets shifting.watched).run (0, [])
    (∀ pattern s, ∃ paths, ((shifting.find pattern ["x"]).run s).1 = .ok paths) ∧
      ∃ found blocks t, Answered shifting ["x"] 0 ["*", "*"] found t ∧
        Gathered ["a", "a"] found blocks ∧ ran.2 = (t, [.find "*" ["x"], .find "*" ["x"]]) ∧
        ran.1 = .ok (["a", "a"] ++ blocks.flatten) := by
  intro config ran
  have answers (pattern : String) (s : Nat) :
      ∃ paths, ((shifting.find pattern ["x"]).run s).1 = .ok paths := ⟨_, rfl⟩
  obtain ⟨found, blocks, t, answered, gathers, asked, _, listed⟩ :=
    targets_gathered config answers 0
  exact ⟨answers, found, blocks, t, answered, gathers, asked, listed (by simp [config])⟩

end Config

end SuperCalls
