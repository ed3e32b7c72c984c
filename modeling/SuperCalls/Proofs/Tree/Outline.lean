/-
Module: SuperCalls.Proofs.Tree.Outline
Purpose: What can be told of a tree without reading a file.  Whatever a path leads to, and whatever
  is listed of a directory, is settled by the outline of the tree: what is left of it when the bytes
  of its files are left out.  A file that gets new bytes leaves the outline as it is.
Main exports: Tree.outline, Tree.Distinct, Tree.stat_outline, Tree.lstat_outline, Tree.list_outline,
  Tree.outline_put
-/
import Mathlib.Data.List.Nodup
import SuperCalls.Proofs.Tree.Paths

namespace SuperCalls

/-- An entry without the bytes of a file. -/
def Entry.outline : Entry → Entry
  | .file _ => .file []
  | entry => entry

theorem Entry.kind_outline (entry : Entry) : entry.outline.kind = entry.kind := by
  cases entry <;> rfl

namespace Tree

/-- A spot without the bytes of a file. -/
def Spot.outline (spot : Spot) : Spot :=
  ⟨spot.location, spot.entry.map Entry.outline⟩

/-- A tree without the bytes of its files. -/
def outline (t : Tree) : Tree :=
  ⟨t.entries.map fun entry => (entry.1, entry.2.outline)⟩

/-- Every location stands once in the tree. -/
def Distinct (t : Tree) : Prop :=
  (t.entries.map Prod.fst).Nodup

variable {t u : Tree}

theorem entry?_outline (t : Tree) (location : Location) :
    t.outline.entry? location = (t.entry? location).map Entry.outline := by
  unfold entry? outline
  split
  · rfl
  · induction t.entries with
    | nil => rfl
    | cons first entries ih =>
        rw [List.map_cons, List.lookup_cons, List.lookup_cons]
        cases location == first.1 with
        | true => rfl
        | false => exact ih

/-!
### Following a path

Following asks of a file only that it is one, so it comes to the outlined spot.
-/

theorem follow_outline (t : Tree) (aim : Aim)
    {jump jumped : Location → List String → Except DiskFault Spot}
    (jumps : ∀ here names, jumped here names = (jump here names).map Spot.outline)
    (here : Location) (names : List String) :
    t.outline.follow aim jumped here names = (t.follow aim jump here names).map Spot.outline := by
  induction names generalizing here with
  | nil => rfl
  | cons name rest ih =>
      rw [follow, follow]
      simp only [entry?_outline]
      split
      · exact ih here
      split
      · exact ih here.parent
      split
      · rfl
      split
      · rfl
      cases t.entry? (here ++ [name]) with
      | none =>
          simp only [Option.map_none]
          split <;> rfl
      | some entry =>
          cases entry with
          | directory => exact ih _
          | file bytes =>
              simp only [Option.map_some, Entry.outline]
              split <;> rfl
          | link target =>
              simp only [Option.map_some, Entry.outline]
              split
              · rfl
              · exact jumps _ _

theorem followWithin_outline (t : Tree) (aim : Aim) (links : Nat) (here : Location)
    (names : List String) :
    t.outline.followWithin aim links here names =
      (t.followWithin aim links here names).map Spot.outline := by
  induction links generalizing here names with
  | zero =>
      refine t.follow_outline aim ?_ here names
      exact fun _ _ => rfl
  | succ links ih => exact t.follow_outline aim ih here names

theorem locate_outline (t : Tree) (aim : Aim) (path : String) :
    t.outline.locate aim path = (t.locate aim path).map Spot.outline := by
  unfold locate
  split
  · rfl
  split
  · rfl
  · exact t.followWithin_outline aim linkLimit [] (segments path)

/-!
### Calls
-/

/-- The kind of what is at the end of a path, where there is something. -/
theorem kind_outline (located : Except DiskFault Spot) :
    (do return (← present (← located.map Spot.outline)).kind : Except DiskFault NodeKind) =
      (do return (← present (← located)).kind) := by
  rcases located with fault | ⟨location, _ | entry⟩
  · rfl
  · rfl
  · exact congrArg Except.ok entry.kind_outline

theorem stat_outline (t : Tree) (path : String) : t.outline.stat path = t.stat path := by
  unfold stat
  rw [locate_outline]
  exact congrArg (attempt .stat path) (kind_outline _)

theorem lstat_outline (t : Tree) (path : String) : t.outline.lstat path = t.lstat path := by
  unfold lstat
  rw [locate_outline]
  exact congrArg (attempt .lstat path) (kind_outline _)

theorem children_outline (t : Tree) (location : Location) :
    t.outline.children location =
      (t.children location).map fun child => (child.1, child.2.outline) := by
  unfold children outline
  rw [List.filterMap_map, List.map_filterMap]
  congr 1
  funext entry
  simp only [Function.comp]
  cases entry.1.getLast? with
  | none => rfl
  | some name =>
      dsimp only
      split <;> rfl

theorem list_outline (t : Tree) (path : String) : t.outline.list path = t.list path := by
  unfold list
  rw [locate_outline]
  congr 1
  rcases t.locate .target path with fault | ⟨location, _ | entry⟩
  · rfl
  · rfl
  · cases entry with
    | directory =>
        refine congrArg Except.ok ?_
        simp only [Spot.outline, children_outline, List.map_map]
        refine List.map_congr_left fun child _ => ?_
        exact Prod.ext rfl child.2.kind_outline
    | file bytes => rfl
    | link target => rfl

/-!
### Trees of the same outline
-/

theorem sameShape_of_outline (same : t.outline = u.outline) : SameShape t u := by
  intro location
  have entries : (t.entry? location).map Entry.outline = (u.entry? location).map Entry.outline := by
    rw [← entry?_outline, ← entry?_outline, same]
  revert entries
  rcases t.entry? location with _ | entry <;> rcases u.entry? location with _ | other
  · exact fun _ => Or.inl rfl
  · exact nofun
  · exact nofun
  · cases entry <;> cases other <;> simp [Entry.outline]

/-- Spots of the same outline are the same, unless they are files. -/
theorem Spot.eq_of_outline {spot other : Spot} (same : spot.outline = other.outline)
    (plain : ∀ bytes, spot.entry ≠ some (.file bytes)) : other = spot := by
  obtain ⟨location, entry⟩ := spot
  obtain ⟨location', entry'⟩ := other
  obtain ⟨rfl, entries⟩ := Spot.mk.inj same
  rcases entry with _ | entry <;> rcases entry' with _ | entry'
  · rfl
  · cases entries
  · cases entries
  · have kinds : entry.outline = entry'.outline := Option.some.inj entries
    cases entry with
    | file bytes => exact absurd rfl (plain bytes)
    | directory | link target =>
        cases entry' <;> cases kinds
        rfl

/-- What a path leads to is the same where the outlines are, and the bytes if it is a file. -/
theorem locate_congr {path : String} (same : t.outline = u.outline)
    (bytes : ∀ location, t.Reaches path location → u.entry? location = t.entry? location) :
    u.locate .target path = t.locate .target path := by
  have outlines : (t.locate .target path).map Spot.outline =
      (u.locate .target path).map Spot.outline := by
    rw [← locate_outline, ← locate_outline, same]
  rcases located : t.locate .target path with fault | spot <;>
    rcases also : u.locate .target path with fault' | other <;>
    rw [located, also] at outlines
  · cases outlines
    rfl
  · cases outlines
  · cases outlines
  · by_cases plain : ∀ bytes, spot.entry ≠ some (.file bytes)
    · rw [Spot.eq_of_outline (Except.ok.inj outlines) plain]
    · obtain ⟨location, entry⟩ := spot
      obtain ⟨content, file⟩ := not_forall.mp plain
      obtain rfl : entry = some (.file content) := not_not.mp file
      have reaches : t.Reaches path location := ⟨content, located⟩
      have found := bytes location reaches
      rw [(leads_of_locate located).2.2.2] at found
      rw [← also]
      exact (reaches.of_sameShape (sameShape_of_outline same)).locate_eq rfl found

theorem read_congr {path : String} (same : t.outline = u.outline)
    (bytes : ∀ location, t.Reaches path location → u.entry? location = t.entry? location) :
    u.read path = t.read path := by
  unfold read
  rw [locate_congr same bytes]

theorem Distinct.eq_of_mem (distinct : t.Distinct) {location : Location} {entry other : Entry}
    (first : (location, entry) ∈ t.entries) (second : (location, other) ∈ t.entries) :
    entry = other := by
  have same := List.inj_on_of_nodup_map distinct first second rfl
  exact congrArg Prod.snd same

/-- A file that gets new bytes leaves the outline as it is. -/
theorem outline_put (distinct : t.Distinct) {there : Location} {bytes : List UInt8}
    (found : t.entry? there = some (.file bytes)) (others : List UInt8) :
    (t.put there (.file others)).outline = t.outline := by
  have named : there ≠ [] := by
    rintro rfl
    cases found
  rw [entry?_of_ne named] at found
  have member : (there, .file bytes) ∈ t.entries := mem_of_lookup found
  have present : t.entries.any (·.1 == there) = true :=
    List.any_eq_true.mpr ⟨_, member, beq_self_eq_true there⟩
  unfold put
  rw [if_pos present]
  unfold outline
  rw [List.map_map]
  refine congrArg Tree.mk (List.map_congr_left fun entry other => ?_)
  obtain ⟨location, entry⟩ := entry
  by_cases here : location = there
  · subst here
    have own : entry = .file bytes := distinct.eq_of_mem other member
    subst own
    simp [Entry.outline]
  · simp [here]

theorem distinct_of_outline (same : t.outline = u.outline) (distinct : t.Distinct) :
    u.Distinct := by
  have keys (t : Tree) : t.outline.entries.map Prod.fst = t.entries.map Prod.fst := by
    unfold outline
    rw [List.map_map]
    rfl
  unfold Distinct
  rw [← keys, ← same, keys]
  exact distinct

end Tree

end SuperCalls
