/-
Module: SuperCalls.Proofs.Workspace.Confinement
Purpose: What a workspace with an enforced boundary can reach.  The boundary is drawn on paths, so
  links are followed across it; but nothing is read or written that neither lies below one of its
  directories nor is led to by a link that can be reached.
Main exports: Workspace.Region, Workspace.Request, Workspace.region_of_locate,
  Workspace.region_iff_below, Workspace.requests_confined
-/
import SuperCalls.Proofs.Batch.Course
import SuperCalls.Proofs.Paths.Boundary
import SuperCalls.Proofs.Search.Patterns
import SuperCalls.Proofs.Tree.Walks
import SuperCalls.Proofs.Workspace.ChangedFiles

namespace SuperCalls

open Text.Utf8 (decode? encode)

/-- The names lead from a location to another one, be there something or not. -/
def Tree.LeadsTo (t : Tree) (start : Location) (names : List String) (there : Location) : Prop :=
  ∃ entry, t.followWithin .target linkLimit start names = .ok ⟨there, entry⟩

/-- Names lead to one location only. -/
theorem Tree.LeadsTo.eq_of_followed {t : Tree} {start there : Location} {names : List String}
    {spot : Tree.Spot} (leads : t.LeadsTo start names there)
    (followed : t.followWithin .target linkLimit start names = .ok spot) :
    there = spot.location := by
  obtain ⟨entry, also⟩ := leads
  rw [followed] at also
  cases also
  rfl

namespace Workspace

open SuperCalls.Tree (LeadsTo Ends Rewritten linkLimit)

variable {finder : Finder} {w : Workspace} {t before after : Tree} {path : String}

/-!
### The region of a workspace
-/

/-- What a workspace can reach: where its directories are, what lies below, and what the links there
lead to. -/
inductive Region (w : Workspace) (t : Tree) : Location → Prop where
  | base {base there : Location} (listed : base ∈ w.workDir :: w.allowed)
      (leads : t.LeadsTo [] base there) : Region w t there
  | child {location : Location} {name : String} (region : Region w t location) :
      Region w t (location ++ [name])
  | link {location there : Location} {target : String} (region : Region w t location)
      (linked : t.entry? location = some (.link target))
      (leads : t.LeadsTo (if isAbsolute target then [] else location.parent) (segments target)
        there) : Region w t there

/-- Where one of the directories of a workspace is, or below. -/
def Below (w : Workspace) (t : Tree) (location : Location) : Prop :=
  ∃ base ∈ w.workDir :: w.allowed, ∃ root, t.LeadsTo [] base root ∧ root <+: location

/-- No link in the directories of a workspace leads out of them. -/
def Sealed (w : Workspace) (t : Tree) : Prop :=
  ∀ location target there, w.Below t location → t.entry? location = some (.link target) →
    t.LeadsTo (if isAbsolute target then [] else location.parent) (segments target) there →
    w.Below t there

/-- If no link leads out, a workspace reaches what lies below its directories. -/
theorem region_iff_below (tight : w.Sealed t) (location : Location) :
    w.Region t location ↔ w.Below t location := by
  constructor
  · intro region
    induction region with
    | base listed leads => exact ⟨_, listed, _, leads, List.prefix_refl _⟩
    | child _ ih =>
        obtain ⟨base, listed, root, leads, begins⟩ := ih
        exact ⟨base, listed, root, leads, begins.trans (List.prefix_append _ _)⟩
    | link _ linked leads ih => exact tight _ _ _ ih linked leads
  · rintro ⟨base, listed, root, leads, rest, rfl⟩
    induction rest using List.reverseRecOn with
    | nil =>
        rw [List.append_nil]
        exact .base listed leads
    | append_singleton rest name ih =>
        rw [← List.append_assoc]
        exact .child ih

/-- Names that do not go back stay in the region.  The induction is on the links that are left: behind
a link, the names of its target end somewhere in the region, and the others go on from there. -/
theorem region_of_ends (links : Nat) :
    ∀ {here : Location} {names : List String} {spot : Tree.Spot}, links ≤ linkLimit →
      w.Region t here → ".." ∉ names → Ends t links here names spot →
      w.Region t spot.location := by
  induction links using Nat.strong_induction_on with
  | _ links fewerLinks =>
      intro here names spot few region forth ends
      induction names generalizing here with
      | nil =>
          cases ends
          exact region
      | cons name rest ih =>
          rw [List.mem_cons, not_or] at forth
          cases ends with
          | stay _ ends => exact ih region forth.2 ends
          | back => exact absurd rfl forth.1
          | enter _ _ ends => exact ih (.child region) forth.2 ends
          | file => exact .child region
          | free => exact .child region
          | @link links _ _ target _ _ _ linked ends =>
              have enough : links ≤ linkLimit := Nat.le_of_succ_le few
              have from_here : (if isAbsolute target then [] else (here ++ [name]).parent) =
                  if isAbsolute target then [] else here := by
                rw [Location.parent, List.dropLast_concat]
              have led {there : Location} {entry : Option Entry}
                  (ends : Ends t links (if isAbsolute target then [] else here) (segments target)
                    ⟨there, entry⟩) : w.Region t there := by
                apply Region.link (.child region) linked
                rw [from_here]
                exact ⟨entry, (ends.mono enough).follow_eq⟩
              rcases ends.split with ended | ⟨mid, fewer, le, first, second⟩
              · exact led ended
              · exact fewerLinks fewer (Nat.lt_succ_of_le le) (Nat.le_trans le enough) (led first)
                  forth.2 second

/-!
### Paths that pass the boundary

A path is checked in its normalised form.  A relative one is given to the disk in this form, and an
absolute one as it is, so going back behind a link can lead elsewhere then.
-/

/-- An absolute path that goes back leads where its normalised form leads. -/
def Direct (w : Workspace) (t : Tree) (path : String) : Prop :=
  isAbsolute path → ".." ∈ segments path → ∀ there,
    t.LeadsTo [] (segments path) there → t.LeadsTo [] (w.location path) there

theorem ends_location (normal : w.workDir.Normal) (direct : w.Direct t path) {there : Location}
    {entry : Option Entry}
    (ends : Ends t linkLimit [] (segments (w.resolve path)) ⟨there, entry⟩) :
    ∃ entry, Ends t linkLimit [] (w.location path) ⟨there, entry⟩ := by
  by_cases back : ".." ∈ segments (w.resolve path)
  · have absolute : isAbsolute path := by
      by_contra relative
      have plain := Location.normal_resolve normal path
      rw [resolve, if_neg relative, Location.segments_text plain] at back
      rcases List.mem_cons.mp back with impossible | back
      · exact absurd impossible (by decide)
      · split at back
        · exact absurd (List.mem_singleton.mp back) (by decide)
        · exact (plain _ back).2.2.1 rfl
    have same : w.resolve path = path := if_pos absolute
    rw [same] at back ends
    obtain ⟨entry, followed⟩ := direct absolute back there ⟨entry, ends.follow_eq⟩
    exact ⟨entry, Tree.ends_iff.mpr followed⟩
  · obtain ⟨fewer, less, same⟩ := Tree.Fewer.of_forth back []
    have location : w.location path = fewer := by
      unfold Workspace.location Location.resolve
      rw [if_pos (w.isAbsolute_resolve path), same]
      rfl
    rw [location]
    exact ⟨entry, ends.of_fewer less⟩

/-- A path that passes the boundary leads into the region, also in a tree in which files have been
written. -/
theorem region_of_locate (normal : w.workDir.Normal) (enforced : w.enforceBoundary = true)
    (inside : w.isInside path) (direct : w.Direct before path) {region : Location → Prop}
    (rewritten : Rewritten region before after) {aim : Tree.Aim}
    (through : (aim == .name) = false) {spot : Tree.Spot}
    (located : after.locate aim (w.resolve path) = .ok spot) : w.Region before spot.location := by
  obtain ⟨entry, raw⟩ := rewritten.ends (Tree.ends_of_locate through located)
  obtain ⟨entry, ends⟩ := ends_location normal direct raw
  obtain ⟨base, listed, rest, below⟩ := (isInside_iff enforced path).mp inside
  have forth : ".." ∉ rest := by
    intro back
    have plain := w.normal_location path ".." (by rw [← below]; exact List.mem_append_right _ back)
    exact plain.2.2.1 rfl
  rw [← below] at ends
  rcases ends.split with ended | ⟨mid, fewer, le, first, second⟩
  · exact .base listed ⟨_, ended.follow_eq⟩
  · have region : w.Region before mid := .base listed ⟨_, first.follow_eq⟩
    show w.Region before (Tree.Spot.location ⟨spot.location, entry⟩)
    exact region_of_ends fewer le region forth second

/-!
### Requests
-/

/-- What can be asked of a workspace. -/
inductive Request (ν : Type) where
  | isFile (path : String)
  | read (path : String)
  | write (path content : String)
  | find (pattern : String) (options : FindOptions)
  | patch (batch : Batch) (bus : Bus Event ν) (paths : List String)

namespace Request

variable {ν : Type}

/-- The paths that a request names. -/
def paths : Request ν → List String
  | isFile path | read path | write path _ => [path]
  | find _ _ => []
  | patch _ _ paths => paths

end Request

variable {ν : Type}

/-- The tree behind a request. -/
def behind (finder : Finder) (w : Workspace) (t : Tree) : Request ν → Tree
  | .isFile path => ((w.isFile finder.disk path).run t).2
  | .read path => ((w.read finder.disk path).run t).2
  | .write path content => ((w.write finder.disk path content).run t).2
  | .find pattern options => ((w.find finder.disk pattern options).run t).2
  | .patch batch bus paths => ((batch.run (w.sandbox finder.disk) bus paths).run t).2

section Requests

variable (normal : w.workDir.Normal) (enforced : w.enforceBoundary = true)
  (direct : w.Direct before path)

include normal enforced direct

theorem rewritten_write (content : String) (rewritten : Rewritten (w.Region before) before t) :
    Rewritten (w.Region before) before ((w.write finder.disk path content).run t).2 := by
  unfold write guarded
  by_cases inside : w.isInside path
  · simp only [if_pos inside]
    rw [run_bind, run_disk_write]
    cases written : t.write (w.resolve path) (encode content) with
    | error error => exact rewritten
    | ok changed =>
        obtain ⟨spot, located, named, old, put⟩ := Tree.put_of_write written
        have region := region_of_locate normal enforced inside direct rewritten rfl located
        show Rewritten (w.Region before) before changed
        rw [put]
        exact rewritten.put region named old (encode content)
  · simp only [if_neg inside]
    exact rewritten

theorem rewritten_patched (batch : Batch) (rewritten : Rewritten (w.Region before) before t) :
    Rewritten (w.Region before) before (batch.patched (w.sandbox finder.disk) path t).2 := by
  by_cases inside : w.isInside path
  · rcases tree_of_patches (Batch.patches_patched batch (w.sandbox finder.disk) path t) with
      ⟨same, _⟩ | ⟨_, there, bytes, content, _, reaches, found, _, _, put⟩
    · rw [same]
      exact rewritten
    · obtain ⟨_, located⟩ := reaches
      have region := region_of_locate normal enforced inside direct rewritten rfl located
      have named : there ≠ [] := by
        rintro rfl
        cases found
      rw [put]
      exact rewritten.put region named (Or.inr ⟨bytes, found⟩) _
  · obtain ⟨failure, asked⟩ : ∃ failure,
        ((w.sandbox finder.disk).isFile path).run t = (.error failure, t) := by
      unfold sandbox isFile guarded
      simp only [if_neg inside]
      exact ⟨_, rfl⟩
    unfold Batch.patched Batch.patchFile
    rw [run_bind, asked]
    exact rewritten

end Requests

/-- A request writes files within the region only. -/
theorem rewritten_behind (normal : w.workDir.Normal) (enforced : w.enforceBoundary = true)
    (request : Request ν) (direct : ∀ path ∈ request.paths, w.Direct before path)
    (rewritten : Rewritten (w.Region before) before t) :
    Rewritten (w.Region before) before (w.behind finder t request) := by
  cases request with
  | isFile path =>
      have same : w.behind finder t (.isFile path : Request ν) = t :=
        steady_isFile finder.still_disk w path t
      rw [same]
      exact rewritten
  | read path =>
      have same : w.behind finder t (.read path : Request ν) = t :=
        steady_read finder.still_disk w path t
      rw [same]
      exact rewritten
  | find pattern options =>
      have same : w.behind finder t (.find pattern options : Request ν) = t :=
        steady_find finder.still_disk w pattern options t
      rw [same]
      exact rewritten
  | write path content =>
      exact rewritten_write normal enforced (direct path List.mem_cons_self) content rewritten
  | patch batch bus paths =>
      obtain ⟨done, begins, left⟩ := Batch.course_of_run batch (w.sandbox finder.disk) bus paths t
      show Rewritten _ _ ((batch.run (w.sandbox finder.disk) bus paths).run t).2
      rw [left]
      apply Batch.course_preserves done _ t rewritten
      intro path member u earlier
      exact rewritten_patched normal enforced (direct path (begins.subset member)) batch earlier

theorem rewritten_requests (normal : w.workDir.Normal) (enforced : w.enforceBoundary = true)
    (requests : List (Request ν)) :
    ∀ {t : Tree}, (∀ request ∈ requests, ∀ path ∈ request.paths, w.Direct before path) →
      Rewritten (w.Region before) before t →
      Rewritten (w.Region before) before (requests.foldl (w.behind finder) t) := by
  induction requests with
  | nil => exact fun _ rewritten => rewritten
  | cons request requests ih =>
      intro t direct rewritten
      apply ih fun other member => direct other (List.mem_cons_of_mem _ member)
      exact rewritten_behind normal enforced request (direct request List.mem_cons_self) rewritten

/-- Whatever is asked of a workspace with an enforced boundary, files are written within its region
only, and texts that are read stand in files there.  If no link leads out of its directories, the
region is what lies below them.  The work directory is normal, as every one is that a path was
resolved to. -/
theorem requests_confined (finder : Finder) {w : Workspace} (normal : w.workDir.Normal)
    (enforced : w.enforceBoundary = true) (t : Tree) (requests : List (Request ν))
    (direct : ∀ request ∈ requests, ∀ path ∈ request.paths, w.Direct t path) :
    let left := requests.foldl (w.behind finder) t
    Rewritten (w.Region t) t left ∧
    (∀ path content, w.Direct t path → ((w.read finder.disk path).run left).1 = .ok content →
      ∃ there bytes, w.Region t there ∧ left.Reaches (w.resolve path) there ∧
        left.entry? there = some (.file bytes) ∧ decode? bytes = some content) ∧
    (w.Sealed t → ∀ location, w.Region t location ↔ w.Below t location) := by
  intro left
  have rewritten : Rewritten (w.Region t) t left :=
    rewritten_requests normal enforced requests direct (Rewritten.refl _ t)
  refine ⟨rewritten, ?_, region_iff_below⟩
  intro path content straight called
  have inside : w.isInside path := by
    by_contra outside
    unfold read guarded at called
    simp only [if_neg outside] at called
    cases called
  obtain ⟨there, bytes, reaches, found, decoded⟩ :=
    reaches_of_read (show (w.read finder.disk path).run left = (.ok content, _) from
      Prod.ext called rfl)
  obtain ⟨_, located⟩ := reaches
  have region := region_of_locate normal enforced inside straight rewritten rfl located
  exact ⟨there, bytes, region, ⟨_, located⟩, found, decoded⟩

/-- A link and an absolute path that goes back stay below the work directory: the file beside it is
left alone. -/
theorem requests_confined_sealed :
    let t : Tree := ⟨[(["w"], .directory), (["w", "d"], .directory),
      (["w", "d", "f"], .file (encode "super(1);")), (["w", "l"], .link "d/f"),
      (["s"], .file (encode "super(2);"))]⟩
    let w : Workspace := ⟨["w"], true, []⟩
    let requests : List (Request Nat) :=
      [.write "/w/d/../n" "x", .patch ⟨superCallRules "", false, .fail⟩ Bus.empty ["l", "../s"]]
    let left := requests.foldl (w.behind Glob.finder) t
    Rewritten (w.Region t) t left ∧ left.entry? ["s"] = t.entry? ["s"] ∧
      left.entry? ["w", "n"] = some (.file (encode "x")) := by
  intro t w requests left
  have normal : w.workDir.Normal := by
    intro name member
    cases List.mem_singleton.mp member
    decide
  have direct : ∀ request ∈ requests, ∀ path ∈ request.paths, w.Direct t path := by
    have relative {path : String} (relative : isAbsolute path = false) : w.Direct t path := by
      intro absolute
      rw [relative] at absolute
      cases absolute
    intro request member path among
    simp only [requests, List.mem_cons, List.not_mem_nil, or_false] at member
    rcases member with rfl | rfl
    · cases List.mem_singleton.mp among
      intro _ _ there leads
      have walked : t.followWithin .target linkLimit [] (segments "/w/d/../n") =
          .ok ⟨["w", "n"], none⟩ := by decide +kernel
      rw [leads.eq_of_followed walked]
      exact ⟨none, by decide +kernel⟩
    · simp only [Request.paths, List.mem_cons, List.not_mem_nil, or_false] at among
      rcases among with rfl | rfl
      · exact relative (by decide)
      · exact relative (by decide)
  obtain ⟨rewritten, _, tight⟩ := requests_confined Glob.finder normal rfl t requests direct
  have root : t.followWithin .target linkLimit [] ["w"] = .ok ⟨["w"], some .directory⟩ := by
    decide +kernel
  have airtight : w.Sealed t := by
    intro location target there _ linked leads
    have named : location ≠ [] := by
      rintro rfl
      cases linked
    rw [Tree.entry?_of_ne named] at linked
    obtain ⟨_, _, split, _⟩ := List.lookup_eq_some_iff.mp linked
    have member : (location, Entry.link target) ∈ t.entries := by
      rw [split]
      simp
    have only : location = ["w", "l"] ∧ target = "d/f" := by simpa [t] using member
    obtain ⟨rfl, rfl⟩ := only
    have walked : t.followWithin .target linkLimit
        (if isAbsolute "d/f" then [] else Location.parent ["w", "l"]) (segments "d/f") =
          .ok ⟨["w", "d", "f"], some (.file (encode "super(1);"))⟩ := by decide +kernel
    rw [leads.eq_of_followed walked]
    exact ⟨["w"], List.mem_cons_self, ["w"], ⟨some .directory, root⟩, ["d", "f"], rfl⟩
  refine ⟨rewritten, ?_, ?_⟩
  · rcases rewritten ["s"] with same | ⟨region, _⟩
    · exact same
    · obtain ⟨base, listed, there, leads, begins⟩ := (tight airtight ["s"]).mp region
      cases List.mem_singleton.mp listed
      rw [leads.eq_of_followed root] at begins
      exact absurd begins (by decide)
  · decide +kernel

/-- A link in the work directory leads to a file beside it, which is read and written. -/
theorem beside_reached_by_link :
    let t : Tree := ⟨[(["w"], .directory), (["w", "l"], .link "../s"),
      (["s"], .file (encode "super(1);"))]⟩
    let w : Workspace := ⟨["w"], true, []⟩
    t.locate .target "/w" = .ok ⟨["w"], some .directory⟩ ∧
    t.locate .target (w.resolve "l") = .ok ⟨["s"], some (.file (encode "super(1);"))⟩ ∧
    ¬ ["w"] <+: ["s"] ∧
    ((w.read Tree.disk "l").run t).1 = .ok "super(1);" ∧
    Tree.entry? ((w.write Tree.disk "l" "x").run t).2 ["s"] = some (.file (encode "x")) := by
  intro t w
  refine ⟨?_, ?_, ?_, ?_, ?_⟩
  · decide +kernel
  · decide +kernel
  · decide
  · decide +kernel
  · decide +kernel

end Workspace

end SuperCalls
