/-
Module: SuperCalls.Proofs.Command.Lookups
Purpose: Reading settings and finding files only look at the disk.  They leave it as it is, and they
  come to the same on disks that look the same.  That much is known of any search for files: it finds
  absolute paths, it looks at the names in a tree and at what they stand for but into no file, it
  changes nothing, and it fails for reasons of its own.
Main exports: Composable, Composable.targets, Composable.config, Steady, Disk.Still, Sees, Raises,
  Finder, Finder.disk, Finder.still_disk
-/
import SuperCalls.Command
import SuperCalls.Proofs.Batch.Course
import SuperCalls.Proofs.Config.Acceptance
import SuperCalls.Proofs.Tree.Outline

namespace SuperCalls

variable {σ α β : Type} {validator : Validator}

/-- The path that the settings are read from, if there is anything. -/
def Command.configPath (cwd : Location) (file : Option String) : String :=
  (cwd.resolve (cwd.resolve ((nonempty? file).getD defaultConfigFile)).text).text

theorem Config.isCoded_of_ofText {file text : String} {base : Location} {failure : Failure}
    (refused : Config.ofText validator file base text = .error failure) : failure.isCoded := by
  unfold Config.ofText at refused
  split at refused
  · exact Config.isCoded_of_ofJson refused
  · cases refused
    rfl

/-!
### Composed computations

What is looked up is composed of looks at names, of searches and, for the settings, of one look into
a file.  A
property that such looks have, that is passed on by composition, and that the failures have which
can be thrown on the way, is one of all that is looked up.
-/

/-- A property of computations that is passed on where they are composed, and that those have which
throw a failure of a kind. -/
structure Composable (thrown : Failure → Prop)
    (p : ∀ α : Type, ExceptT Failure (StateM σ) α → Prop) : Prop where
  pure : ∀ {α : Type} (value : α), p α (Pure.pure value)
  throw : ∀ {α : Type} {failure : Failure}, thrown failure → p α (MonadExcept.throw failure)
  bind : ∀ {α β : Type} {first : ExceptT Failure (StateM σ) α}
    {next : α → ExceptT Failure (StateM σ) β},
    p α first → (∀ value, p β (next value)) → p β (first >>= next)

namespace Composable

variable {thrown : Failure → Prop} {p : ∀ α : Type, ExceptT Failure (StateM σ) α → Prop}
  (composes : Composable thrown p)

section Reading

include composes

theorem addFound {find : String → ExceptT Failure (StateM σ) (List String)}
    (finds : ∀ pattern, p _ (find pattern)) (patterns listed : List String) :
    p _ (Config.addFound find listed patterns) := by
  induction patterns generalizing listed with
  | nil => exact composes.pure listed
  | cons pattern patterns ih =>
      rw [Config.addFound]
      exact composes.bind (finds pattern) fun _ => ih _

theorem find {disk : Disk (StateM σ)}
    (searches : ∀ directory dot pattern ignored, p _ (disk.search directory dot pattern ignored))
    (w : Workspace) (pattern : String) (options : FindOptions) :
    p _ (w.find disk pattern options) := by
  unfold Workspace.find
  apply composes.bind (searches _ _ _ _)
  intro found
  split <;> exact composes.pure _

variable (known : ∀ failure : Failure, failure.isCoded → thrown failure)

include known

theorem load {disk : Disk (StateM σ)} {directory : Location} {file : String}
    (read : p _ (liftM (disk.read (directory.resolve file).text))) :
    p _ (Config.load validator disk directory file) := by
  unfold Config.load
  apply composes.bind read
  intro result
  split
  · exact composes.throw (known _ rfl)
  · split
    · exact composes.pure _
    · next refused => exact composes.throw (known _ (Config.isCoded_of_ofText refused))

theorem baseConfig {disk : Disk (StateM σ)} (stats : ∀ path, p _ (liftM (disk.stat path)))
    {cwd : Location} {file : Option String}
    (read : p _ (liftM (disk.read (Command.configPath cwd file)))) :
    p _ (Command.baseConfig validator disk cwd file) := by
  unfold Command.configPath at read
  unfold Command.baseConfig
  split
  · next named =>
      rw [named] at read
      exact composes.load known read
  · next unnamed =>
      rw [unnamed] at read
      apply composes.bind (stats _)
      intro result
      split
      · exact composes.load known read
      · split
        · exact composes.pure _
        · next refused => exact composes.throw (known _ (Config.isCoded_of_ofJson refused))

end Reading

end Composable

/-!
The rest can throw any failure.
-/

namespace Composable

variable {p : ∀ α : Type, ExceptT Failure (StateM σ) α → Prop}
  (composes : Composable (fun _ => True) p) {disk : Disk (StateM σ)}

include composes

theorem isFile (stats : ∀ path, p _ (liftM (disk.stat path))) (w : Workspace) (path : String) :
    p _ (w.isFile disk path) := by
  unfold Workspace.isFile
  split
  · exact composes.throw trivial
  · apply composes.bind (stats _)
    intro result
    split
    · exact composes.pure _
    · split
      · exact composes.pure _
      · exact composes.throw trivial

theorem targets
    (searches : ∀ directory dot pattern ignored, p _ (disk.search directory dot pattern ignored))
    (config : Config) (w : Workspace) : p _ (config.targets (w.sandbox disk)) := by
  unfold Config.targets
  apply composes.bind
  · exact composes.addFound (fun _ => composes.find searches w _ _) _ _
  intro listed
  split
  · exact composes.bind (composes.throw trivial) fun _ => composes.pure _
  · exact composes.pure _

theorem config (stats : ∀ path, p _ (liftM (disk.stat path))) {cwd : Location}
    {arguments : Command.Arguments}
    (read : p _ (liftM (disk.read (Command.configPath cwd arguments.config)))) :
    p _ (Command.config validator disk cwd arguments) := by
  unfold Command.config
  apply composes.bind (composes.baseConfig (fun _ _ => trivial) stats read)
  intro base
  split
  · exact composes.pure _
  · exact composes.throw trivial

end Composable

/-!
### Looking leaves things as they are
-/

/-- A computation leaves the state as it is. -/
def Steady (computation : ExceptT Failure (StateM σ) α) : Prop :=
  ∀ s, (computation.run s).2 = s

/-- Looking at a disk leaves it as it is. -/
structure Disk.Still (disk : Disk (StateM σ)) : Prop where
  stat : ∀ path s, ((disk.stat path).run s).2 = s
  read : ∀ path s, ((disk.read path).run s).2 = s
  search : ∀ directory dot pattern ignored, Steady (disk.search directory dot pattern ignored)

namespace Steady

theorem lift {computation : StateM σ α} (still : ∀ s, (computation.run s).2 = s) :
    Steady (liftM computation : ExceptT Failure (StateM σ) α) :=
  still

theorem bind {first : ExceptT Failure (StateM σ) α} {next : α → ExceptT Failure (StateM σ) β}
    (steady : Steady first) (later : ∀ value, Steady (next value)) : Steady (first >>= next) := by
  intro s
  have kept := steady s
  rw [run_bind]
  rcases ended : first.run s with ⟨failure | value, t⟩
  · rw [ended] at kept
    exact kept
  · rw [ended] at kept
    rw [← kept]
    exact later value t

theorem composable : Composable (fun _ => True)
    fun (α : Type) computation => Steady (σ := σ) (α := α) computation where
  pure _ _ := rfl
  throw _ _ := rfl
  bind := bind

end Steady

section Still

variable {disk : Disk (StateM σ)} (still : disk.Still)

include still

namespace Workspace

theorem steady_isFile (w : Workspace) (path : String) : Steady (w.isFile disk path) :=
  Steady.composable.isFile (fun path => .lift (still.stat path)) w path

theorem steady_read (w : Workspace) (path : String) : Steady (w.read disk path) := by
  unfold read
  split
  · exact Steady.composable.throw trivial
  · apply Steady.bind (Steady.lift (still.read _))
    intro result
    split
    · exact Steady.composable.throw trivial
    · split
      · exact Steady.composable.pure _
      · exact Steady.composable.throw trivial

theorem steady_find (w : Workspace) (pattern : String) (options : FindOptions) :
    Steady (w.find disk pattern options) :=
  Steady.composable.find still.search w pattern options

end Workspace

theorem Config.steady_targets (config : Config) (w : Workspace) :
    Steady (config.targets (w.sandbox disk)) :=
  Steady.composable.targets still.search config w

theorem Command.steady_config (cwd : Location) (arguments : Command.Arguments) :
    Steady (config validator disk cwd arguments) :=
  Steady.composable.config (fun path => .lift (still.stat path)) (.lift (still.read _))

end Still

/-!
### Looking at things that are alike
-/

/-- A computation leaves the state as it is, and comes to the same in states that are alike. -/
structure Sees (alike : σ → σ → Prop) (computation : ExceptT Failure (StateM σ) α) : Prop where
  steady : Steady computation
  same : ∀ {s t : σ}, alike s t → (computation.run t).1 = (computation.run s).1

namespace Sees

variable {alike : σ → σ → Prop}

theorem lift {computation : StateM σ α} (still : ∀ s, (computation.run s).2 = s)
    (same : ∀ {s t : σ}, alike s t → (computation.run t).1 = (computation.run s).1) :
    Sees alike (liftM computation : ExceptT Failure (StateM σ) α) :=
  ⟨.lift still, fun like => congrArg Except.ok (same like)⟩

theorem bind {first : ExceptT Failure (StateM σ) α} {next : α → ExceptT Failure (StateM σ) β}
    (sees : Sees alike first) (later : ∀ value, Sees alike (next value)) :
    Sees alike (first >>= next) where
  steady := sees.steady.bind fun value => (later value).steady
  same := by
    intro s t like
    have answers := sees.same like
    have kept := sees.steady s
    have kept' := sees.steady t
    rw [run_bind, run_bind]
    revert answers kept kept'
    rcases first.run s with ⟨failure | value, s'⟩ <;>
      rcases first.run t with ⟨failure' | value', t'⟩ <;>
      rintro ⟨⟩ rfl rfl
    · rfl
    · exact (later value).same like

theorem composable : Composable (fun _ => True)
    fun (α : Type) computation => Sees (σ := σ) (α := α) alike computation where
  pure value := ⟨Steady.composable.pure value, fun _ => rfl⟩
  throw thrown := ⟨Steady.composable.throw thrown, fun _ => rfl⟩
  bind := bind

end Sees

/-!
### The failures of looking
-/

/-- A computation fails with failures of a kind only, whatever state it starts from. -/
def Raises (kind : Failure → Prop) (computation : ExceptT Failure (StateM σ) α) : Prop :=
  ∀ s, FailsWith kind (computation.run s).1

namespace Raises

variable {kind : Failure → Prop}

theorem lift (computation : StateM σ α) :
    Raises kind (liftM computation : ExceptT Failure (StateM σ) α) :=
  fun _ => .ok _

theorem bind {first : ExceptT Failure (StateM σ) α} {next : α → ExceptT Failure (StateM σ) β}
    (raises : Raises kind first) (later : ∀ value, Raises kind (next value)) :
    Raises kind (first >>= next) := by
  intro s
  have own := raises s
  rw [run_bind]
  rcases ended : first.run s with ⟨failure | value, t⟩
  · rw [ended] at own
    exact .error (own failure rfl)
  · exact later value t

theorem composable : Composable kind
    fun (α : Type) computation => Raises (σ := σ) (α := α) kind computation where
  pure value _ := .ok value
  throw known _ := .error known
  bind := bind

end Raises

/-- The settings before the arguments change them fail for reasons that the library knows. -/
theorem Command.raises_baseConfig (validator : Validator) (disk : Disk (StateM σ)) (cwd : Location)
    (file : Option String) : Raises (·.isCoded) (baseConfig validator disk cwd file) :=
  Raises.composable.baseConfig (fun _ known => known) (fun _ => Raises.lift _) (Raises.lift _)

/-!
### Where settings come from

However settings are come by, they were accepted as what a value stands for: the value in a file, or an
object without fields.
-/

theorem Config.accepted_of_load {disk : Disk (StateM σ)} {directory : Location} {file : String}
    {config : Config} {s t : σ}
    (loaded : (load validator disk directory file).run s = (.ok config, t)) :
    ∃ raw, ofJson validator (some raw) (directory.resolve file).parent = .ok config := by
  obtain ⟨result, u, _, rest⟩ := ok_of_run_bind loaded
  split at rest
  · cases rest
  · split at rest
    · next read =>
        cases rest
        unfold ofText at read
        split at read
        · next raw _ => exact ⟨raw, read⟩
        · cases read
    · cases rest

namespace Command

/-- The settings before the arguments change them were accepted for the directory that the command is
started in, or for the directory of a file. -/
theorem accepted_of_baseConfig {disk : Disk (StateM σ)} {cwd : Location} {file : Option String}
    {base : Config} {s t : σ} (based : (baseConfig validator disk cwd file).run s = (.ok base, t)) :
    ∃ raw place, (place = cwd ∨ ∃ path, place = (cwd.resolve path).parent) ∧
      Config.ofJson validator (some raw) place = .ok base := by
  have of_load {path : String} {s : σ}
      (loaded : (Config.load validator disk cwd path).run s = (.ok base, t)) :
      ∃ raw place, (place = cwd ∨ ∃ path, place = (cwd.resolve path).parent) ∧
        Config.ofJson validator (some raw) place = .ok base := by
    obtain ⟨raw, accepted⟩ := Config.accepted_of_load loaded
    exact ⟨raw, _, Or.inr ⟨path, rfl⟩, accepted⟩
  unfold baseConfig at based
  split at based
  · exact of_load based
  · obtain ⟨result, u, _, rest⟩ := ok_of_run_bind based
    split at rest
    · exact of_load rest
    · split at rest
      · next accepted =>
          cases rest
          exact ⟨_, cwd, Or.inl rfl, accepted⟩
      · cases rest

/-- The indent that the command works with is made of spaces and tabs. -/
theorem isIndent_of_config {disk : Disk (StateM σ)} {cwd : Location} {arguments : Arguments}
    {settings : Config} {s t : σ}
    (ran : (config validator disk cwd arguments).run s = (.ok settings, t)) :
    isIndent settings.indent := by
  obtain ⟨base, u, based, rest⟩ := ok_of_run_bind ran
  split at rest
  · next done =>
      cases rest
      obtain ⟨_, _, _, accepted⟩ := accepted_of_baseConfig based
      exact isIndent_of_override (Config.isIndent_of_ofJson accepted) done
  · cases rest

end Command

/-!
### Searches
-/

/-- A search for the files in a tree. -/
structure Finder where
  /-- The paths that a pattern finds from a directory, hidden ones only if wanted, less those that
  the ignored patterns cover. -/
  search : Location → Bool → String → List String → ExceptT Failure (StateM Tree) (List String)
  /-- A search changes nothing. -/
  still : ∀ directory dot pattern ignored, Steady (search directory dot pattern ignored)
  /-- A search looks into no file. -/
  outlines : ∀ directory dot pattern ignored {t u : Tree}, t.outline = u.outline →
    ((search directory dot pattern ignored).run u).1 =
      ((search directory dot pattern ignored).run t).1
  /-- A search fails for reasons that the library does not know. -/
  foreign : ∀ directory dot pattern ignored,
    Raises Failure.IsForeign (search directory dot pattern ignored)
  /-- Whatever is found is found by an absolute path. -/
  absolute : ∀ directory dot pattern ignored {t : Tree} {found : List String},
    ((search directory dot pattern ignored).run t).1 = .ok found →
      ∀ path ∈ found, isAbsolute path

namespace Finder

variable (finder : Finder)

/-- Trees with this search. -/
def disk : Disk (StateM Tree) :=
  { Tree.calls with search := finder.search }

theorem still_disk : finder.disk.Still where
  stat _ _ := rfl
  read _ _ := rfl
  search := finder.still

theorem isAbsolute_of_search {directory : Location} {dot : Bool} {pattern : String}
    {ignored found : List String} {t : Tree}
    (searched : ((finder.disk.search directory dot pattern ignored).run t).1 = .ok found) :
    ∀ path ∈ found, isAbsolute path :=
  finder.absolute directory dot pattern ignored searched

/-!
### Looks at trees of the same outline
-/

variable {alike : Tree → Tree → Prop}
  (outlines : ∀ {t u : Tree}, alike t u → t.outline = u.outline)

include outlines

theorem sees_stat (path : String) :
    Sees alike (liftM (finder.disk.stat path) : ExceptT Failure (StateM Tree) _) :=
  .lift (fun _ => rfl) fun {t u} like => by
    show u.stat path = t.stat path
    rw [← Tree.stat_outline t, outlines like, Tree.stat_outline]

theorem sees_search (directory : Location) (dot : Bool) (pattern : String) (ignored : List String) :
    Sees alike (finder.disk.search directory dot pattern ignored) where
  steady := finder.still directory dot pattern ignored
  same like := finder.outlines directory dot pattern ignored (outlines like)

end Finder

end SuperCalls
