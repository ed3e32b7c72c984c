/-
Module: SuperCalls.Proofs.Workspace.RoundTrip
Purpose: What the calls of a workspace come to on a tree, one equation for each.  What is written to a
  path is read from it, also where the file is new; and writing back what was read changes nothing.
Main exports: Workspace.run_isFile, Workspace.run_write, Tree.read_of_write,
  Workspace.reading_and_writing_inverse
-/
import SuperCalls.Proofs.Search.Patterns
import SuperCalls.Proofs.Text.Utf8
import SuperCalls.Proofs.Tree.Walks
import SuperCalls.Proofs.Workspace.Repetition

namespace SuperCalls

open Text.Utf8 (WellFormed decode? encode decode?_encode decode?_eq_some_iff decode?_eq_none_iff
  wellFormed_iff)

namespace Tree

variable {t after : Tree} {links : Nat} {here there : Location} {names : List String}
  {path : String} {bytes : List UInt8}

/-!
### A file that was written
-/

/-- Names that are followed in order to write at a location lead to the file that is put there. -/
theorem Leads.of_follow_creation {entry : Option Entry}
    {jump : Location → List String → Except DiskFault Spot}
    (other : entry ≠ some .directory)
    (old : t.entry? there = none ∨ ∃ bytes, t.entry? there = some (.file bytes))
    (put : ∀ location, after.entry? location =
      if location = there then some (.file bytes) else t.entry? location)
    (jumps : ∀ here names, jump here names = .ok ⟨there, entry⟩ →
      ∃ fewer, links = fewer + 1 ∧ Leads after fewer here names there)
    (followed : t.follow .creation jump here names = .ok ⟨there, entry⟩) :
    Leads after links here names there := by
  -- the names on the way stand for neither nothing nor a file, so what they stand for is still there
  have kept {location : Location} {found : Entry} (stood : t.entry? location = some found)
      (file : ∀ bytes, found ≠ .file bytes) : after.entry? location = some found := by
    rw [put, if_neg, stood]
    rintro rfl
    rcases old with absent | ⟨bytes, present⟩
    · rw [stood] at absent
      cases absent
    · rw [stood] at present
      exact file bytes (Option.some.inj present)
  induction names generalizing here with
  | nil =>
      cases followed
      exact absurd rfl other
  | cons name rest ih =>
      rw [follow] at followed
      split at followed
      · next still => exact .stay (by simpa using still) (ih followed)
      next moves =>
      split at followed
      · next back =>
          subst back
          exact .back (ih followed)
      next forth =>
      split at followed
      · cases followed
      next lasts =>
      split at followed
      · cases followed
      next short =>
      have proper : Proper name := by
        simp only [Bool.or_eq_true, decide_eq_true_eq, not_or] at moves
        exact ⟨moves.1, moves.2, forth, short⟩
      have last (blank : rest.all (· == "")) : rest = [] := by
        cases rest with
        | nil => rfl
        | cons next rest => exact absurd (by simpa using blank) lasts
      have leaf (ends : rest = []) (here' : here ++ [name] = there) :
          Leads after links here (name :: rest) there := by
        subst ends here'
        exact .file proper (by rw [put, if_pos rfl])
      simp only at followed
      split at followed
      · split at followed
        · next blank =>
            cases followed
            exact leaf (last blank) rfl
        · cases followed
      · next entered => exact .enter proper (kept entered fun _ => Entry.noConfusion) (ih followed)
      · next content found =>
          split at followed
          · next ends =>
              cases followed
              exact leaf (List.isEmpty_iff.mp ends) rfl
          · cases followed
      · next target linked =>
          rw [show (Aim.creation == .name) = false from rfl, Bool.and_false,
            if_neg Bool.false_ne_true] at followed
          obtain ⟨fewer, rfl, leads⟩ := jumps _ _ followed
          exact .link proper (kept linked fun _ => Entry.noConfusion) leads

theorem Leads.of_followWithin_creation {entry : Option Entry} (other : entry ≠ some .directory)
    (old : t.entry? there = none ∨ ∃ bytes, t.entry? there = some (.file bytes))
    (put : ∀ location, after.entry? location =
      if location = there then some (.file bytes) else t.entry? location)
    (followed : t.followWithin .creation links here names = .ok ⟨there, entry⟩) :
    Leads after links here names there := by
  induction links generalizing here names with
  | zero =>
      refine of_follow_creation other old put (fun here names jumped => ?_) followed
      cases jumped
  | succ links ih =>
      exact of_follow_creation other old put (fun here names jumped => ⟨links, rfl, ih jumped⟩)
        followed

theorem null_free_of_attempt {α : Type} {call : DiskCall} {act : Except DiskFault α} {value : α}
    (made : attempt call path act = .ok value) : path.toList.contains (Char.ofNat 0) = false := by
  unfold attempt at made
  split at made
  · cases made
  · next free => exact Bool.eq_false_iff.mpr free

/-- The bytes that were written to a path are read from it. -/
theorem read_of_write (written : t.write path bytes = .ok after) : after.read path = .ok bytes := by
  obtain ⟨⟨there, entry⟩, located, named, old, rfl⟩ := put_of_write written
  have put := entry?_put t named (.file bytes)
  have other : entry ≠ some .directory := by
    rintro rfl
    have directory := of_attempt written
    rw [located] at directory
    cases directory
  have reaches : (t.put there (.file bytes)).Reaches path there := by
    unfold locate at located
    split at located
    · cases located
    next given =>
    split at located
    · cases located
    next short =>
    apply reaches_iff.mpr
    exact ⟨given, short, Leads.of_followWithin_creation other old put located, bytes,
      by rw [put, if_pos rfl]⟩
  rw [read_of_reaches reaches (by rw [put, if_pos rfl]), attempt_ok,
    if_neg (Bool.eq_false_iff.mp (null_free_of_attempt written))]

/-- A path that stands for a regular file leads to it. -/
theorem reaches_of_stat (stat : t.stat path = .ok .file) :
    ∃ there bytes, t.Reaches path there ∧ t.entry? there = some (.file bytes) ∧
      t.read path = .ok bytes := by
  have free := null_free_of_attempt stat
  obtain ⟨⟨there, entry⟩, located, rest⟩ := ok_of_bind_ok (of_attempt stat)
  obtain ⟨found, here, kind⟩ := ok_of_bind_ok rest
  have file : ∃ bytes, entry = some (.file bytes) := by
    cases entry with
    | none => cases here
    | some entry =>
        cases here
        cases found with
        | file bytes => exact ⟨bytes, rfl⟩
        | directory => cases kind
        | link target => cases kind
  obtain ⟨bytes, rfl⟩ := file
  have reaches : t.Reaches path there := ⟨bytes, located⟩
  obtain ⟨_, _, _, found⟩ := leads_of_locate located
  refine ⟨there, bytes, reaches, found, ?_⟩
  rw [read_of_reaches reaches found, attempt_ok, if_neg (Bool.eq_false_iff.mp free)]

end Tree

namespace Workspace

/-!
### Calls
-/

variable (finder : Finder) (w : Workspace) (t : Tree) (path : String)

theorem run_isFile :
    (w.isFile finder.disk path).run t =
      (match w.guarded path with
        | .error failure => .error failure
        | .ok full =>
            match t.stat full with
            | .ok kind => .ok (kind == .file)
            | .error error =>
                if error.isAbsence then .ok false
                else .error (readFailure "stat" path error.message),
        t) := by
  unfold isFile
  cases w.guarded path with
  | error failure => rfl
  | ok full =>
      have looked : (liftM (finder.disk.stat full) : ExceptT Failure (StateM Tree) _).run t =
          (.ok (t.stat full), t) := rfl
      simp only
      rw [run_bind, looked]
      cases t.stat full with
      | ok kind => rfl
      | error error =>
          simp only
          split <;> rfl

theorem run_write (content : String) :
    (w.write finder.disk path content).run t =
      match w.guarded path with
      | .error failure => (.error failure, t)
      | .ok full =>
          match t.write full (encode content) with
          | .ok after => (.ok (), after)
          | .error error =>
              (.error (.coded .writeFailed s!"Cannot write {path}: {error.message}" (some path)),
                t) := by
  unfold write
  cases w.guarded path with
  | error failure => rfl
  | ok full =>
      simp only
      rw [run_bind, run_disk_write]
      cases t.write full (encode content) <;> rfl

variable {finder w t path} {content : String}

/-- A text that was written to a path is read from it. -/
theorem read_of_written {left : Tree}
    (wrote : (w.write finder.disk path content).run t = (.ok (), left)) :
    (w.read finder.disk path).run left = (.ok content, left) := by
  rw [run_write] at wrote
  rw [run_disk_read]
  cases passed : w.guarded path with
  | error failure =>
      rw [passed] at wrote
      cases wrote
  | ok full =>
      rw [passed] at wrote
      cases written : t.write full (encode content) with
      | error error =>
          simp only [written] at wrote
          cases wrote
      | ok after =>
          simp only [written] at wrote
          cases wrote
          simp only [Tree.read_of_write written, decode?_encode]

/-- A text that was read from a path can be written back, and nothing changes. -/
theorem written_of_read (read : ((w.read finder.disk path).run t).1 = .ok content) :
    ∃ left, (w.write finder.disk path content).run t = (.ok (), left) ∧
      ∀ location, left.entry? location = t.entry? location := by
  obtain ⟨there, reaches, wrote, _⟩ := write_of_read read content
  have called : (w.read finder.disk path).run t = (.ok content, t) :=
    Prod.ext read (steady_read finder.still_disk w path t)
  obtain ⟨location, bytes, also, found, decoded⟩ := reaches_of_read called
  cases also.unique reaches
  refine ⟨_, wrote, fun other => ?_⟩
  rw [Tree.put_file found]
  split
  · next own => rw [own, found, decode?_eq_some_iff.mp decoded]
  · rfl

/-- What is read of a regular file is settled by its bytes. -/
theorem read_of_isFile (isFile : ((w.isFile finder.disk path).run t).1 = .ok true) :
    ∃ there bytes, t.Reaches (w.resolve path) there ∧ t.entry? there = some (.file bytes) ∧
      (w.read finder.disk path).run t =
        (match decode? bytes with
          | some content => .ok content
          | none => .error (readFailure "read" path malformedText), t) := by
  rw [run_isFile] at isFile
  rw [run_disk_read]
  cases passed : w.guarded path with
  | error failure =>
      rw [passed] at isFile
      cases isFile
  | ok full =>
      rw [passed] at isFile
      cases stat : t.stat full with
      | error error =>
          simp only [stat] at isFile
          split at isFile <;> cases isFile
      | ok kind =>
          simp only [stat] at isFile
          have regular : kind = .file := eq_of_beq (Except.ok.inj isFile)
          rw [regular] at stat
          obtain ⟨there, bytes, reaches, found, read⟩ := Tree.reaches_of_stat stat
          rw [guarded_eq passed] at reaches
          refine ⟨there, bytes, reaches, found, ?_⟩
          simp only
          generalize t.read full = opened at read ⊢
          subst read
          rfl

/-- A text that was written is read again, a text that was read can be written back without a change,
and the regular files that are read are those of well-formed bytes. -/
theorem reading_and_writing_inverse (finder : Finder) (w : Workspace) (t : Tree) (path : String) :
    (∀ content left, (w.write finder.disk path content).run t = (.ok (), left) →
      (w.read finder.disk path).run left = (.ok content, left)) ∧
    (∀ content, ((w.read finder.disk path).run t).1 = .ok content →
      ∃ left, (w.write finder.disk path content).run t = (.ok (), left) ∧
        ∀ location, left.entry? location = t.entry? location) ∧
    (((w.isFile finder.disk path).run t).1 = .ok true →
      ∃ there bytes, t.Reaches (w.resolve path) there ∧ t.entry? there = some (.file bytes) ∧
        (WellFormed bytes →
          ∃ content, encode content = bytes ∧ (w.read finder.disk path).run t = (.ok content, t)) ∧
        (¬ WellFormed bytes →
          ∃ message,
            (w.read finder.disk path).run t = (.error (.coded .readFailed message (some path)), t))) := by
  refine ⟨fun content left => read_of_written, fun content => written_of_read, fun isFile => ?_⟩
  obtain ⟨there, bytes, reaches, found, read⟩ := read_of_isFile isFile
  refine ⟨there, bytes, reaches, found, fun formed => ?_, fun malformed => ?_⟩
  · obtain ⟨content, same⟩ := wellFormed_iff.mp formed
    refine ⟨content, same, ?_⟩
    rw [read, decode?_eq_some_iff.mpr same]
  · rw [read, decode?_eq_none_iff.mpr malformed]
    exact ⟨_, rfl⟩

/-- A text that begins with a byte-order mark is written through a link to a file that is not there
yet; a file that ends inside a character is not read. -/
theorem reading_and_writing_inverse_mark :
    let t : Tree := ⟨[(["w"], .directory), (["w", "l"], .link "new"),
      (["w", "cut"], .file [0xE2, 0x82])]⟩
    let w : Workspace := ⟨["w"], true, []⟩
    let content := "\uFEFFclass A \x7b\x7d"
    let left := ((w.write Glob.finder.disk "l" content).run t).2
    (w.read Glob.finder.disk "l").run left = (.ok content, left) ∧
    (∃ again, (w.write Glob.finder.disk "l" content).run left = (.ok (), again) ∧
      ∀ location, again.entry? location = left.entry? location) ∧
    ∃ message,
      (w.read Glob.finder.disk "cut").run t = (.error (.coded .readFailed message (some "cut")), t) := by
  intro t w content left
  have done : ((w.write Glob.finder.disk "l" content).run t).1 = .ok () := by decide +kernel
  have wrote : (w.write Glob.finder.disk "l" content).run t = (.ok (), left) := by
    rw [← done]
    exact Prod.mk.eta.symm
  have read := (reading_and_writing_inverse Glob.finder w t "l").1 content left wrote
  have back := (reading_and_writing_inverse Glob.finder w left "l").2.1 content (congrArg Prod.fst read)
  obtain ⟨there, bytes, reaches, found, _, malformed⟩ :=
    (reading_and_writing_inverse Glob.finder w t "cut").2.2 (by decide +kernel)
  refine ⟨read, back, malformed ?_⟩
  have here : there = ["w", "cut"] := reaches.unique ⟨[0xE2, 0x82], by decide +kernel⟩
  rw [here] at found
  have own : bytes = [0xE2, 0x82] := by
    cases found
    rfl
  rw [own, ← decode?_eq_none_iff]
  decide +kernel

end Workspace

end SuperCalls
