/-
Module: SuperCalls.Proofs.Search.RegularFiles
Purpose: What a search sees.  The names of every location that it finds lead to a regular file, also
  if the path of the location is too long to be asked about.  What is given back is the path of that
  location, with slashes in place of backslashes.
Main exports: Tree.Formed, Tree.FileAt, Finder.ShowsFiles, Tree.Formed.of_list, Yields, Placed,
  Glob.Straight, Glob.showsFiles_of_straight
-/
import SuperCalls.Proofs.Search.Patterns
import SuperCalls.Proofs.Workspace.TidyPaths

namespace SuperCalls

open Location

/-!
### Files of a tree
-/

namespace Tree

/-- A tree as a disk can have it: its names are those that files can have, and at a location there is
one entry. -/
structure Formed (t : Tree) : Prop where
  legal : ∀ listed ∈ t.entries, ∀ name ∈ listed.1, Legal name
  distinct : t.Distinct

instance (t : Tree) : Decidable t.Distinct :=
  inferInstanceAs (Decidable (t.entries.map Prod.fst).Nodup)

instance (t : Tree) : Decidable t.Formed :=
  decidable_of_iff ((∀ listed ∈ t.entries, ∀ name ∈ listed.1, Legal name) ∧ t.Distinct)
    ⟨fun formed => ⟨formed.1, formed.2⟩, fun formed => ⟨formed.legal, formed.distinct⟩⟩

/-- The names of a location lead to a regular file. -/
def FileAt (t : Tree) (location : Location) : Prop :=
  ∃ there bytes, t.Ends linkLimit [] location ⟨there, some (.file bytes)⟩

variable {t : Tree} {location : Location}

/-- The path of a location is walked by its names. -/
theorem ends_text_iff (normal : location.Normal) {links : Nat} {spot : Spot} :
    t.Ends links [] (segments location.text) spot ↔ t.Ends links [] location spot := by
  rw [ends_iff, ends_iff, followWithin_text normal]

theorem fileAt_of_reaches (normal : location.Normal) {there : Location}
    (reaches : t.Reaches location.text there) : t.FileAt location := by
  obtain ⟨bytes, located⟩ := reaches
  exact ⟨there, bytes, (ends_text_iff normal).mp (ends_of_locate rfl located)⟩

theorem fileAt_of_stat (normal : location.Normal) (stat : t.stat location.text = .ok .file) :
    t.FileAt location := by
  obtain ⟨there, _, reaches, -⟩ := reaches_of_stat stat
  exact fileAt_of_reaches normal reaches

theorem fileAt_of_lstat (normal : location.Normal) (lstat : t.lstat location.text = .ok .file) :
    t.FileAt location := by
  obtain ⟨⟨there, entry⟩, located, rest⟩ := ok_of_bind_ok (of_attempt lstat)
  obtain ⟨found, here, kind⟩ := ok_of_bind_ok rest
  obtain ⟨bytes, rfl⟩ : ∃ bytes, entry = some (.file bytes) := by
    cases entry with
    | none => cases here
    | some entry =>
        cases here
        cases found with
        | file bytes => exact ⟨bytes, rfl⟩
        | directory => cases kind
        | link target => cases kind
  obtain ⟨_, _, leads, file⟩ := leads_of_locate located
  have followed : t.followWithin .target linkLimit [] (segments location.text) =
      .ok ⟨there, some (.file bytes)⟩ := leads.follow_eq rfl file
  exact ⟨there, bytes, (ends_text_iff normal).mp (ends_iff.mpr followed)⟩

/-- A walk to a directory goes on to a file in it. -/
theorem Ends.append_file {links : Nat} {here mid : Location} {names : List String} {name : String}
    {bytes : List UInt8} (ends : t.Ends links here names ⟨mid, some .directory⟩)
    (proper : Proper name) (found : t.entry? (mid ++ [name]) = some (.file bytes)) :
    t.Ends links here (names ++ [name]) ⟨mid ++ [name], some (.file bytes)⟩ := by
  generalize same : (⟨mid, some .directory⟩ : Spot) = spot at ends
  induction ends with
  | here =>
      cases same
      exact .file proper found
  | stay still _ ih => exact .stay still (ih same)
  | back _ ih => exact .back (ih same)
  | enter entering entered _ ih => exact .enter entering entered (ih same)
  | file => cases same
  | free => cases same
  | link passing linked _ ih =>
      have rest := ih same
      rw [List.append_assoc] at rest
      exact .link passing linked rest

end Tree

/-- What a search finds in a tree are regular files, links followed.  It gives each of them back by its
absolute path, with slashes in place of backslashes. -/
def Finder.ShowsFiles (finder : Finder) (t : Tree) (directory : Location) (dot : Bool)
    (pattern : String) (ignored : List String) : Prop :=
  ∀ found, ((finder.search directory dot pattern ignored).run t).1 = .ok found →
    ∀ path ∈ found, ∃ file : Location, file.Normal ∧ t.FileAt file ∧ path = slashed file.text

namespace Tree

variable {t : Tree} {location : Location}

/-!
### Directories that are listed
-/

theorem Formed.entry?_of_mem (formed : t.Formed) {entry : Entry} (named : location ≠ [])
    (member : (location, entry) ∈ t.entries) : t.entry? location = some entry := by
  rw [entry?_of_ne named]
  cases looked : t.entries.lookup location with
  | none =>
      have absent := List.lookup_eq_none_iff.mp looked _ member
      simp at absent
  | some other => rw [formed.distinct.eq_of_mem member (mem_of_lookup looked)]

/-- What is listed of a directory stands in it. -/
theorem Formed.of_mem_children (formed : t.Formed) {name : String} {entry : Entry}
    (child : (name, entry) ∈ t.children location) :
    Legal name ∧ t.entry? (location ++ [name]) = some entry := by
  obtain ⟨⟨place, other⟩, member, own⟩ := List.mem_filterMap.mp child
  simp only at own
  split at own
  · next last ends =>
      split at own
      · next inside =>
          cases own
          have same : place = location ++ [name] := by
            rw [← eq_of_beq inside]
            exact (List.dropLast_append_getLast? name ends).symm
          rw [same] at member
          exact ⟨formed.legal _ member name (by simp), formed.entry?_of_mem (by simp) member⟩
      · cases own
  · cases own

/-- A file that is listed of a directory is at the end of the names of both. -/
theorem Formed.of_list (formed : t.Formed) (normal : location.Normal)
    {names : List (String × NodeKind)} (listed : t.list location.text = .ok names) {name : String}
    {kind : NodeKind} (member : (name, kind) ∈ names) :
    Legal name ∧ (kind = .file → t.FileAt (location ++ [name])) := by
  obtain ⟨⟨mid, entry⟩, located, rest⟩ := ok_of_bind_ok (of_attempt listed)
  obtain ⟨found, here, listing⟩ := ok_of_bind_ok rest
  have directory : entry = some .directory ∧ names = (t.children mid).map fun child =>
      (child.1, child.2.kind) := by
    cases entry with
    | none => cases here
    | some entry =>
        cases here
        cases found with
        | directory =>
            cases listing
            exact ⟨rfl, rfl⟩
        | file bytes => cases listing
        | link target => cases listing
  obtain ⟨rfl, rfl⟩ := directory
  have walked := (ends_text_iff normal).mp (ends_of_locate rfl located)
  obtain ⟨⟨own, entry⟩, child, same⟩ := List.mem_map.mp member
  cases same
  obtain ⟨legal, stands⟩ := formed.of_mem_children child
  refine ⟨legal, fun file => ?_⟩
  cases entry with
  | file bytes => exact ⟨_, bytes, walked.append_file legal.proper stands⟩
  | directory => cases file
  | link target => cases file

end Tree

/-!
### Names behind paths
-/

theorem segments_of_plain {name : String} (plain : Plain name) : segments name = [name] := by
  unfold segments
  rw [cutAtSlashes_of_free plain.2.2.2]
  simp

theorem isAbsolute_append {path : String} (named : path ≠ "") (more : String) :
    isAbsolute (path ++ more) = isAbsolute path := by
  unfold isAbsolute
  rw [String.toList_append, List.head?_append_of_ne_nil]
  simpa using named

namespace Glob

/-- A name behind a path leads to that name in the directory that the path leads to. -/
theorem resolve_joinName (start : Location) (path : String) {name : String} (plain : Plain name) :
    start.resolve (joinName path name) = start.resolve path ++ [name] := by
  have goes (names : List String) (base : Location) :
      (names ++ [name]).foldl step base = names.foldl step base ++ [name] := by
    rw [List.foldl_append]
    exact step_of_plain _ plain
  unfold joinName
  split
  · next empty =>
      have relative : isAbsolute name = false := by
        apply Bool.eq_false_iff.mpr
        intro absolute
        have head := head?_of_isAbsolute absolute
        rw [segments_of_plain plain] at head
        exact plain.1 (Option.some.inj head)
      unfold resolve
      rw [empty, segments_of_plain plain, relative]
      exact goes [] start
  · next named =>
      split
      · next slash =>
          obtain ⟨front, letters⟩ := List.getLast?_eq_some_iff.mp (eq_of_beq slash)
          have same : path = String.ofList front ++ "/" := by
            rw [← String.toList_inj, String.toList_append, String.toList_ofList]
            exact letters
          have blank : segments path = segments (String.ofList front) ++ [""] := by
            have cut := segments_append (String.ofList front) ""
            rwa [String.append_empty, ← same] at cut
          have names : segments (path ++ name) = segments (String.ofList front) ++ [name] := by
            rw [same, segments_append, segments_of_plain plain]
          unfold resolve
          rw [isAbsolute_append named, names, blank, goes, List.foldl_append]
          rfl
      · unfold resolve
        rw [String.append_assoc, isAbsolute_append named, ← String.append_assoc, segments_append,
          segments_of_plain plain]
        exact goes _ _

theorem text_concat (location : Location) (name : String) :
    text (location ++ [name]) =
      (if location = [] then "/" else location.text ++ "/") ++ name := by
  have joined (names : List String) (first : String) :
      "/".intercalate (first :: names ++ [name]) =
        "/".intercalate (first :: names) ++ "/" ++ name := by
    induction names generalizing first with
    | nil => simp [String.intercalate_cons_cons]
    | cons next names ih =>
        rw [List.cons_append, List.cons_append, String.intercalate_cons_cons, ← List.cons_append, ih,
          String.intercalate_cons_cons]
        simp only [String.append_assoc]
  unfold text
  cases location with
  | nil => rfl
  | cons first names =>
      rw [joined, if_neg (List.cons_ne_nil _ _)]
      simp only [String.append_assoc]

/-- A name behind the path of a location makes the path of what stands under it. -/
theorem joinName_text {location : Location} (normal : location.Normal) (name : String) :
    joinName location.text name = text (location ++ [name]) := by
  have given : location.text ≠ "" := ne_empty_of_isAbsolute (isAbsolute_text location)
  unfold joinName
  rw [if_neg given, text_concat]
  rcases List.eq_nil_or_concat' location with rfl | ⟨front, last, rfl⟩
  · rfl
  · have plain := normal last (by simp)
    have ending : (text (front ++ [last])).toList.getLast? = last.toList.getLast? := by
      rw [text_concat, String.toList_append, List.getLast?_append_of_ne_nil]
      simpa using plain.1
    rw [ending, if_neg, if_neg (by simp)]
    intro slash
    exact plain.2.2.2 (List.mem_of_getLast? (eq_of_beq slash))

end Glob

/-- A directory that a search is in: its path, how it is shown, and its location. -/
structure Placed (start : Location) (directory shown : String) (location : Location) : Prop where
  normal : location.Normal
  directory : directory = location.text
  shown : start.resolve shown = location

/-- A search goes on in a directory below. -/
theorem Placed.enter {start location : Location} {directory shown name : String}
    (placed : Placed start directory shown location) (plain : Plain name) :
    Placed start (Glob.joinName directory name) (Glob.joinName shown name) (location ++ [name]) where
  normal := by
    intro other member
    rcases List.mem_append.mp member with own | last
    · exact placed.normal other own
    · rwa [List.mem_singleton.mp last]
  directory := by rw [placed.directory, Glob.joinName_text placed.normal]
  shown := by rw [Glob.resolve_joinName start shown plain, placed.shown]

/-!
### Computations that look at a tree
-/

section

variable {α β : Type}

/-- A computation that succeeds leaves the tree as it is and yields something of a kind. -/
def Yields (t : Tree) (kind : α → Prop) (act : ExceptT Failure (StateM Tree) α) : Prop :=
  ∀ value u, act.run t = (.ok value, u) → u = t ∧ kind value

variable {t : Tree} {kind : α → Prop} {also : β → Prop}

theorem Yields.pure {value : α} (holds : kind value) :
    Yields t kind (Pure.pure value : ExceptT Failure (StateM Tree) α) := by
  rintro _ _ ⟨⟩
  exact ⟨rfl, holds⟩

theorem Yields.throw (failure : Failure) :
    Yields t kind (MonadExcept.throw failure : ExceptT Failure (StateM Tree) α) :=
  nofun

theorem Yields.bind {act : ExceptT Failure (StateM Tree) α}
    {next : α → ExceptT Failure (StateM Tree) β} (yields : Yields t kind act)
    (later : ∀ value, kind value → Yields t also (next value)) :
    Yields t also (act >>= next) := by
  intro value u ran
  obtain ⟨first, v, done, rest⟩ := ok_of_run_bind ran
  obtain ⟨rfl, holds⟩ := yields first v done
  exact later first holds value u rest

theorem Yields.given (value : α) {next : α → ExceptT Failure (StateM Tree) β}
    (later : Yields t also (next value)) : Yields t also (Pure.pure value >>= next) := by
  have own : Yields t (· = value) (Pure.pure value : ExceptT Failure (StateM Tree) α) := .pure rfl
  exact own.bind fun _ same => same ▸ later

theorem Yields.look {call : StateM Tree α} {value : α} (looked : call.run t = (value, t))
    {next : α → ExceptT Failure (StateM Tree) β} (later : Yields t also (next value)) :
    Yields t also (liftM call >>= next) := by
  have lifted : (liftM call : ExceptT Failure (StateM Tree) α).run t =
      (.ok (call.run t).1, (call.run t).2) := rfl
  intro result u ran
  rw [run_bind, lifted, looked] at ran
  exact later result u ran

/-!
A look at the tree goes on with what is there.
-/

theorem Yields.stat (path : String)
    {next : Except DiskError NodeKind → ExceptT Failure (StateM Tree) β}
    (later : Yields t also (next (t.stat path))) :
    Yields t also (liftM (Tree.calls.stat path) >>= next) := by
  have looked : (Tree.calls.stat path).run t = (t.stat path, t) := rfl
  exact .look looked later

theorem Yields.lstat (path : String)
    {next : Except DiskError NodeKind → ExceptT Failure (StateM Tree) β}
    (later : Yields t also (next (t.lstat path))) :
    Yields t also (liftM (Tree.calls.lstat path) >>= next) := by
  have looked : (Tree.calls.lstat path).run t = (t.lstat path, t) := rfl
  exact .look looked later

theorem Yields.list (path : String)
    {next : Except DiskError (List (String × NodeKind)) → ExceptT Failure (StateM Tree) β}
    (later : Yields t also (next (t.list path))) :
    Yields t also (liftM (Tree.calls.list path) >>= next) := by
  have looked : (Tree.calls.list path).run t = (t.list path, t) := rfl
  exact .look looked later

end

theorem exists_of_mem_mapM {α β : Type} {f : α → Except Failure β} {values : List α}
    {results : List β} (made : values.mapM f = .ok results) {result : β} (member : result ∈ results) :
    ∃ value ∈ values, f value = .ok result := by
  induction values generalizing results with
  | nil =>
      cases made
      cases member
  | cons value values ih =>
      rw [List.mapM_cons] at made
      obtain ⟨first, own, rest⟩ := ok_of_bind_ok made
      obtain ⟨others, later, done⟩ := ok_of_bind_ok rest
      cases done
      rcases List.mem_cons.mp member with rfl | behind
      · exact ⟨value, List.mem_cons_self, own⟩
      · obtain ⟨source, listed, same⟩ := ih later behind
        exact ⟨source, List.mem_cons_of_mem _ listed, same⟩

/-!
### Searches
-/

namespace Glob

/-- All paths that are found lead from the start of a search to regular files. -/
def Seen (t : Tree) (start : Location) (found : List String) : Prop :=
  ∀ path ∈ found, t.FileAt (start.resolve path)

variable {t : Tree} {start : Location}

theorem Seen.noted {found : List String} (seen : Seen t start found) {path : String}
    {kind : NodeKind} (file : kind = .file → t.FileAt (start.resolve path)) (files : FileMatcher) :
    Seen t start (if kind == .file then note files path found else found) := by
  split
  · next own =>
      unfold note
      simp only
      split
      · exact seen
      · split
        · exact List.forall_mem_cons.mpr ⟨file (eq_of_beq own), seen⟩
        · exact seen
  · exact seen

theorem yields_lookUpAll (normal : start.Normal) (files : FileMatcher) (patterns : List String)
    {found : List String} (seen : Seen t start found) :
    Yields t (Seen t start) (lookUpAll Tree.calls start files patterns found) := by
  induction patterns generalizing found with
  | nil => exact .pure seen
  | cons pattern patterns ih =>
      have plain := normal_resolve normal pattern
      have goOn (kind : NodeKind) (file : kind = .file → t.FileAt (start.resolve pattern)) :
          Yields t (Seen t start) (lookUpAll Tree.calls start files patterns
            (if kind == .file then note files pattern found else found)) :=
        ih (seen.noted file files)
      have absent (error : DiskError) : Yields t (· = NodeKind.other)
          (lookUpAll.absent error : ExceptT Failure (StateM Tree) NodeKind) := by
        unfold lookUpAll.absent
        split
        · exact .pure rfl
        · exact .throw _
      have unseen (error : DiskError) := (absent error).bind fun kind other => goOn kind fun file => by
        rw [other] at file
        cases file
      rw [lookUpAll]
      apply Yields.lstat
      split
      · apply Yields.stat
        split
        · next kind stat =>
            exact .given _ (goOn _ fun file => Tree.fileAt_of_stat plain (file ▸ stat))
        · exact unseen _
      · next kind _ lstat =>
          exact .given _ (goOn _ fun file => Tree.fileAt_of_lstat plain (file ▸ lstat))
      · exact unseen _

theorem yields_searchNames {files : FileMatcher} {directories : DirectoryMatcher}
    {enter : String → String → List String → ExceptT Failure (StateM Tree) (List String)}
    (enters : ∀ {directory shown location found}, Placed start directory shown location →
      Seen t start found → Yields t (Seen t start) (enter directory shown found))
    {directory shown : String} {location : Location} (placed : Placed start directory shown location)
    {names : List (String × NodeKind)}
    (stand : ∀ child ∈ names, Tree.Legal child.1 ∧
      (child.2 = .file → t.FileAt (location ++ [child.1])))
    {found : List String} (seen : Seen t start found) :
    Yields t (Seen t start)
      (searchNames Tree.calls files directories enter directory shown names found) := by
  induction names generalizing found with
  | nil => exact .pure seen
  | cons child names ih =>
      obtain ⟨name, kind⟩ := child
      obtain ⟨⟨legal, file⟩, others⟩ := List.forall_mem_cons.mp stand
      have below := placed.enter legal.1
      have goOn (kind : NodeKind) (file : kind = .file → t.FileAt (location ++ [name])) :
          Yields t (Seen t start) (do
            let found := if kind == .file then note files (joinName shown name) found else found
            let found ←
              if kind == .directory && directories.enters (joinName shown name) then
                enter (joinName directory name) (joinName shown name) found
              else Pure.pure found
            searchNames Tree.calls files directories enter directory shown names found) := by
        have noted := seen.noted (below.shown.symm ▸ file) files
        simp only
        split
        · exact (enters below noted).bind fun _ seen => ih others seen
        · exact (Yields.pure noted).bind fun _ seen => ih others seen
      rw [searchNames]
      split
      · apply Yields.stat
        split
        · next kind stat =>
            rw [below.directory] at stat
            exact .given _ (goOn _ fun file => Tree.fileAt_of_stat below.normal (file ▸ stat))
        · exact .given _ (goOn _ fun file => by cases file)
      · exact .given _ (goOn _ file)

theorem yields_searchBelow (formed : t.Formed) {files : FileMatcher}
    {directories : DirectoryMatcher} (depth : Nat) {directory shown : String} {location : Location}
    (placed : Placed start directory shown location) {found : List String}
    (seen : Seen t start found) :
    Yields t (Seen t start)
      (searchBelow Tree.calls files directories depth directory shown found) := by
  induction depth generalizing directory shown location found with
  | zero => exact .pure seen
  | succ depth ih =>
      rw [searchBelow]
      apply Yields.list
      split
      · split
        · exact .pure seen
        · exact .throw _
      · next names listed =>
          rw [placed.directory] at listed
          exact yields_searchNames (fun below seen => ih below seen) placed
            (fun child member => formed.of_list placed.normal listed member) seen

/-- No search for a pattern starts in a directory whose path holds a backslash. -/
def Straight (start : Location) (pattern : String) (ignored : List String) : Prop :=
  ∀ todo, tasks pattern ignored = .ok todo → ∀ task ∈ todo, task.dynamic →
    '\\' ∉ (start.resolve task.base).text.toList

instance (start : Location) (pattern : String) (ignored : List String) :
    Decidable (Straight start pattern ignored) :=
  match planned : tasks pattern ignored with
  | .error _ => isTrue fun todo made => by
      rw [planned] at made
      cases made
  | .ok todo =>
      decidable_of_iff
        (∀ task ∈ todo, task.dynamic → '\\' ∉ (start.resolve task.base).text.toList)
        ⟨fun each others made => by
          rw [planned] at made
          cases made
          exact each, fun straight => straight todo planned⟩

theorem yields_run (formed : t.Formed) (normal : start.Normal) (search : Search)
    (straight : search.task.dynamic → '\\' ∉ (start.resolve search.task.base).text.toList)
    {found : List String} (seen : Seen t start found) :
    Yields t (Seen t start) (search.run Tree.calls start found) := by
  unfold Search.run
  simp only
  split
  · next dynamic =>
      have here : start.resolve (if search.task.base = "." then "" else search.task.base) =
          start.resolve search.task.base := by
        split
        · next dot =>
            rw [dot]
            rfl
        · rfl
      rw [slashed_of_free (straight dynamic)]
      exact yields_searchBelow formed _ ⟨normal_resolve normal _, rfl, here⟩ seen
  · exact yields_lookUpAll normal _ _ seen

theorem yields_runAll (formed : t.Formed) (normal : start.Normal) (searches : List Search)
    (straight : ∀ search ∈ searches, search.task.dynamic →
      '\\' ∉ (start.resolve search.task.base).text.toList)
    {found : List String} (seen : Seen t start found) :
    Yields t (Seen t start) (runAll Tree.calls start searches found) := by
  induction searches generalizing found with
  | nil => exact .pure seen
  | cons search searches ih =>
      obtain ⟨first, rest⟩ := List.forall_mem_cons.mp straight
      rw [runAll]
      exact (yields_run formed normal search first seen).bind fun found seen => ih rest seen

theorem task_of_prepare {task : Task} {dot : Bool} {search : Search}
    (prepared : task.prepare start dot = .ok search) : search.task = task := by
  obtain ⟨_, _, rest⟩ := ok_of_bind_ok prepared
  obtain ⟨_, _, made⟩ := ok_of_bind_ok rest
  cases made
  rfl

/-- The search by patterns gives back regular files, unless it starts in a directory whose path holds a
backslash. -/
theorem showsFiles_of_straight (formed : t.Formed) (normal : start.Normal) (dot : Bool)
    {pattern : String} {ignored : List String} (straight : Straight start pattern ignored) :
    finder.ShowsFiles t start dot pattern ignored := by
  intro found searched
  have ran : (search Tree.calls start dot pattern ignored).run t = (.ok found, _) :=
    Prod.ext searched rfl
  unfold search at ran
  split at ran
  · cases ran
  simp only at ran
  split at ran
  · cases ran
  next searches prepared =>
  have ready : ∀ search ∈ searches, search.task.dynamic →
      '\\' ∉ (start.resolve search.task.base).text.toList := by
    obtain ⟨todo, grouped, made⟩ := ok_of_bind_ok prepared
    intro search member
    obtain ⟨task, planned, own⟩ := exists_of_mem_mapM made member
    rw [task_of_prepare own]
    exact straight todo grouped task planned
  obtain ⟨names, v, walked, rest⟩ := ok_of_run_bind ran
  obtain ⟨-, seen⟩ :=
    yields_runAll formed normal searches ready (nofun : Seen t start []) names v walked
  cases congrArg Prod.fst rest
  intro path member
  obtain ⟨name, listed, rfl⟩ := List.mem_map.mp member
  exact ⟨_, normal_resolve normal name, seen name (List.mem_reverse.mp listed), rfl⟩

end Glob

end SuperCalls
