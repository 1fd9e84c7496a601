import Bsdos.Pkgd.RoundTrip
import Bsdos.Files.Links
import Mathlib.Data.Finset.Sort
import Mathlib.Data.List.Lex
import Mathlib.Data.String.Basic

namespace Bsdos.Pkgd
open Effects Files

/-- A file system with links, and the working directory in it. -/
structure Linked where
  tree : LinkTree
  cwd : Place
  here : tree.items.lookup cwd = some .dir

/-- Where a path leads. -/
def Linked.place (w : Linked) (path : String) : Option Place :=
  follow w.tree.items.lookup 32 (start w.cwd path) (Text.split '/' path)

/-- What a path leads to. -/
def Linked.stat (w : Linked) (path : String) : Option Item := (w.place path).bind w.tree.items.lookup

/-- These are the places at and below `base`, in the order of their names; it is gone down
into directories, and not along links. -/
def Linked.walks (w : Linked) (base : Place) (rels : List Place) : Bool :=
  decide (rels.Pairwise (· < ·)) && rels.all (fun rel => decide (base ++ rel ∈ w.tree.items)) &&
    decide (∀ place ∈ w.tree.items.keys, base <+: place → place.drop base.length ∈ rels)

/-- This is the metadata of the item. -/
def tells (metadata : Metadata) : Item → Bool
  | .file bytes => !metadata.isDir && metadata.isFile && decide (metadata.len = bytes.length)
  | .dir => metadata.isDir
  | .special => !metadata.isDir && !metadata.isFile
  | .link _ => false

/-- What is in a regular file. -/
def content : Item → Option Bytes
  | .file bytes => some bytes
  | _ => none

/-- What is there is found, and what is found is there: nothing else fails. -/
def Linked.may (w : Linked) : (op : BuildOp) → op.Ret → Bool
  | .walkDir path, walk => (w.place path).all fun base =>
      walk.all Except.isOk && w.walks base (walk.filterMap Except.toOption)
  | .metadata path, .ok metadata => (w.stat path).any (tells metadata)
  | .metadata path, .error _ => (w.stat path).isNone
  | .openFile path, .ok () => (w.stat path).isSome
  | .openFile path, .error _ => (w.stat path).isNone
  | .readFile path, .ok data => (w.stat path).bind content = some data
  | .readFile path, .error _ => (w.stat path).bind content = none
  | _, _ => true

/-- The build, alone with a file system with links. -/
def linking : System Builder Unit Linked where
  Request := Empty
  Env := Empty
  may := fun _ => Linked.may
  effect := fun _ w _ _ => w
  serve := fun _ request => nomatch request
  droppable := fun _ _ => false
  surroundings := fun _ change => nomatch change

/-- What an item is in an archive: a link or a special file has no entry. -/
def packable : Item → Option Node
  | .file bytes => some (.file bytes)
  | .dir => some .dir
  | .link _ | .special => none

/-- The entries that items make, in order; the top has none. -/
def listed (found : Place → Option Item) (rels : List Place) : List (Place × Node) :=
  (rels.filter (· ≠ [])).filterMap fun rel => ((found rel).bind packable).map (Prod.mk rel)

/-- An entry as a header holds it. -/
structure Framed {N : Type} (lib : Libraries N) (entry : RawEntry) : Prop where
  fits : lib.setPath entry.path = .ok ()
  file : entry.metadata.isDir = false → entry.metadata.isFile = true ∧ entry.metadata.len = entry.data.length
  dir : entry.metadata.isDir = true → entry.data = []

/-- An archive of these nodes lists them, whatever else its headers hold. -/
def ReadsBack {N : Type} (lib : Libraries N) (listing : Bytes → List (Place × Node)) (nodes : List (Place × Node)) : Prop :=
  ∀ entries : List RawEntry, (∀ entry ∈ entries, Framed lib entry) →
    entries.map (fun entry => (entry.path, entry.node)) = nodes → listing (lib.payloadTar entries) = nodes

variable {N : Type} {lib : Libraries N} {w : Linked} {payloadDir : String} {base rel : Place} {rels : List Place}

theorem linked_walks : w.walks base rels = true ↔ rels.Pairwise (· < ·) ∧ ∀ rel, rel ∈ rels ↔ base ++ rel ∈ w.tree.items := by
  unfold Linked.walks
  simp only [Bool.and_eq_true, decide_eq_true_eq, List.all_eq_true]
  constructor
  · rintro ⟨⟨ordered, inside⟩, complete⟩
    refine ⟨ordered, fun rel => ⟨inside rel, fun there => ?_⟩⟩
    have member := complete (base ++ rel) (Finmap.mem_keys.mpr there) (List.prefix_append _ _)
    rwa [List.drop_left] at member
  · rintro ⟨ordered, all⟩
    refine ⟨⟨ordered, fun rel => (all rel).mp⟩, ?_⟩
    rintro place there ⟨rel, rfl⟩
    rw [List.drop_left]
    exact (all rel).mpr (Finmap.mem_keys.mp there)

theorem ensures_askLinked {α : Type} {op : BuildOp} {f : op.Ret → Building α} {post : Except Stop α → Linked → Prop}
    (each : ∀ r, w.may op r = true → Ensures linking () (f r).run w post) :
    Ensures linking () ((liftM (ask op) : Building op.Ret) >>= f).run w post :=
  .call fun r may => each r may

/-- One path: what it leads to is packed, if it leads anywhere. -/
theorem ensures_packEntry (fits : lib.setPath rel = .ok ()) :
    Ensures linking () (packEntry lib payloadDir rel).run w fun r u => u = w ∧
      ((w.stat (below payloadDir rel) = none ∧ ∃ e, r = .error e) ∨
        ∃ item packed, w.stat (below payloadDir rel) = some item ∧ r = .ok packed ∧
          packed.map (fun entry => (entry.path, entry.node)) = (packable item).map (Prod.mk rel) ∧
          ∀ entry ∈ packed, Framed lib entry) := by
  refine ensures_askLinked fun (looked : Except String Metadata) may => ?_
  cases looked with
  | error e =>
    have none : w.stat (below payloadDir rel) = none := Option.isNone_iff_eq_none.mp may
    exact Ensures.fails (.ret ⟨rfl, rfl⟩) ⟨rfl, Or.inl ⟨none, _, rfl⟩⟩
  | ok metadata =>
  obtain ⟨item, found, tell⟩ := (Option.any_eq_true _ _).mp may
  refine Ensures.through (v := metadata) (.ret ⟨rfl, rfl⟩) ?_
  rw [fits]
  refine Ensures.through (v := ()) (.ret ⟨rfl, rfl⟩) ?_
  cases item with
  | link target => cases tell
  | dir =>
    have isDir : metadata.isDir = true := tell
    rw [if_pos isDir]
    refine .ret ⟨rfl, Or.inr ⟨.dir, _, found, rfl, ?_, ?_⟩⟩
    · simp only [Option.map_some, packable, RawEntry.node, if_pos isDir]
    · rintro entry ⟨⟩
      exact ⟨fits, fun file => (Bool.false_ne_true (file.symm.trans isDir)).elim, fun _ => rfl⟩
  | special =>
    have neither := (Bool.and_eq_true _ _).mp tell
    rw [Bool.not_eq_true', Bool.not_eq_true'] at neither
    simp only [neither.1, neither.2, Bool.false_eq_true, if_false]
    exact .ret ⟨rfl, Or.inr ⟨.special, none, found, rfl, rfl, fun entry none => by cases none⟩⟩
  | file bytes =>
    simp only [tells, Bool.and_eq_true, Bool.not_eq_true', decide_eq_true_eq] at tell
    obtain ⟨⟨notDir, isFile⟩, len⟩ := tell
    simp only [notDir, isFile, Bool.false_eq_true, if_false, if_true]
    refine ensures_askLinked fun (opened : Except String Unit) may => ?_
    cases opened with
    | error e =>
      have none : (w.stat (below payloadDir rel)).isNone = true := may
      rw [found] at none
      cases none
    | ok _ =>
    refine Ensures.through (v := ()) (.ret ⟨rfl, rfl⟩) ?_
    refine ensures_askLinked fun (read : Except String Bytes) may => ?_
    cases read with
    | error e =>
      have none : (w.stat (below payloadDir rel)).bind content = none := of_decide_eq_true may
      rw [found] at none
      cases none
    | ok data =>
      have same : (w.stat (below payloadDir rel)).bind content = some data := of_decide_eq_true may
      rw [found] at same
      cases same
      refine Ensures.through (v := bytes) (.ret ⟨rfl, rfl⟩) ?_
      refine .ret ⟨rfl, Or.inr ⟨.file bytes, _, found, rfl, ?_, ?_⟩⟩
      · simp only [Option.map_some, packable, RawEntry.node, notDir, Bool.false_eq_true, if_false]
      · rintro entry ⟨⟩
        exact ⟨fits, fun _ => ⟨isFile, len⟩, fun dir => (Bool.false_ne_true (notDir.symm.trans dir)).elim⟩

theorem listed_cons {found : Place → Option Item} (inner : rel ≠ []) :
    listed found (rel :: rels) = (((found rel).bind packable).map (Prod.mk rel)).toList ++ listed found rels := by
  have kept : (rel :: rels).filter (· ≠ []) = rel :: rels.filter (· ≠ []) :=
    List.filter_cons_of_pos (by simpa using inner)
  unfold listed
  rw [kept, List.filterMap_cons]
  cases ((found rel).bind packable).map (Prod.mk rel) <;> rfl

/-- A walk: either a path leads nowhere, or everything that is led to is packed. -/
theorem ensures_packEntries (fits : ∀ rel ∈ rels, rel ≠ [] → lib.setPath rel = .ok ()) :
    Ensures linking () (packEntries lib payloadDir (rels.map .ok)).run w fun r u => u = w ∧
      ((∃ rel ∈ rels, rel ≠ [] ∧ w.stat (below payloadDir rel) = none ∧ ∃ e, r = .error e) ∨
        (∀ rel ∈ rels, rel ≠ [] → w.stat (below payloadDir rel) ≠ none) ∧ ∃ entries, r = .ok entries ∧
          entries.map (fun entry => (entry.path, entry.node)) = listed (fun rel => w.stat (below payloadDir rel)) rels ∧
          ∀ entry ∈ entries, Framed lib entry) := by
  induction rels with
  | nil =>
    exact .ret ⟨rfl, Or.inr ⟨fun rel member => absurd member List.not_mem_nil, [], rfl, rfl,
      fun entry member => absurd member List.not_mem_nil⟩⟩
  | cons rel rels ih =>
    have later := ih fun rel' member => fits rel' (List.mem_cons_of_mem _ member)
    refine Ensures.through (v := rel) (.ret ⟨rfl, rfl⟩) ?_
    by_cases top : rel = []
    · subst top
      refine later.mono fun r u ended => ?_
      obtain ⟨same, ⟨rel, member, rest⟩ | ⟨led, rest⟩⟩ := ended
      · exact ⟨same, Or.inl ⟨rel, List.mem_cons_of_mem _ member, rest⟩⟩
      · refine ⟨same, Or.inr ⟨fun rel member inner => ?_, rest⟩⟩
        rcases List.mem_cons.mp member with rfl | member
        · exact absurd rfl inner
        · exact led rel member inner
    · have inner : rel.isEmpty = false := by simpa using top
      simp only [inner, Bool.false_eq_true, if_false]
      refine (ensures_packEntry (fits rel (List.mem_cons_self ..) top)).tryBind (fun packed u ended => ?_) fun e u ended => ?_
      rotate_left
      · obtain ⟨same, ⟨none, _⟩ | ⟨_, _, _, wrong, _⟩⟩ := ended
        · exact ⟨same, Or.inl ⟨rel, List.mem_cons_self .., top, none, e, rfl⟩⟩
        · cases wrong
      obtain ⟨rfl, ⟨_, _, wrong⟩ | ⟨item, packed', found, same, shown, framed⟩⟩ := ended
      · cases wrong
      cases same
      refine later.tryBind (fun entries u ended => ?_) fun e u ended => ?_
      rotate_left
      · obtain ⟨same, ⟨rel', member, inner', none, _⟩ | ⟨_, _, wrong, _⟩⟩ := ended
        · exact ⟨same, Or.inl ⟨rel', List.mem_cons_of_mem _ member, inner', none, e, rfl⟩⟩
        · cases wrong
      obtain ⟨rfl, ⟨_, _, _, _, _, wrong⟩ | ⟨led, entries', same, shown', framed'⟩⟩ := ended
      · cases wrong
      cases same
      refine .ret ⟨rfl, Or.inr ⟨fun rel' member inner' => ?_, _, rfl, ?_, ?_⟩⟩
      · rcases List.mem_cons.mp member with rfl | member
        · rw [found]
          exact Option.some_ne_none _
        · exact led rel' member inner'
      · rw [List.map_append, shown', listed_cons top, found, Option.bind_some, ← shown]
        cases packed <;> rfl
      · intro entry member
        rcases List.mem_append.mp member with first | member
        · exact framed entry (Option.mem_toList.mp first)
        · exact framed' entry member

theorem ensures_buildPayloadTar {listing : Bytes → List (Place × Node)} (top : w.place payloadDir = some base)
    (order : w.walks base rels = true) (fits : ∀ rel ∈ rels, rel ≠ [] → lib.setPath rel = .ok ())
    (reads : ReadsBack lib listing (listed (fun rel => w.stat (below payloadDir rel)) rels)) :
    Ensures linking () (buildPayloadTar lib payloadDir).run w fun r _ =>
      (∃ rel ∈ rels, rel ≠ [] ∧ w.stat (below payloadDir rel) = none ∧ ∃ e, r = .error e) ∨
        (∀ rel ∈ rels, rel ≠ [] → w.stat (below payloadDir rel) ≠ none) ∧ ∃ bytes, r = .ok bytes ∧
          listing bytes = listed (fun rel => w.stat (below payloadDir rel)) rels := by
  refine ensures_askLinked fun (walk : List (Except String Place)) may => ?_
  have walked : walk = rels.map .ok := by
    have shown : ((w.place payloadDir).all fun base =>
      walk.all Except.isOk && w.walks base (walk.filterMap Except.toOption)) = true := may
    simp only [top, Option.all_some, Bool.and_eq_true, List.all_eq_true] at shown
    obtain ⟨ordered, all⟩ := linked_walks.mp shown.2
    obtain ⟨ordered', all'⟩ := linked_walks.mp order
    have same : walk.filterMap Except.toOption = rels :=
      ordered.eq_of_mem_iff ordered' fun rel => (all rel).trans (all' rel).symm
    rw [← same]
    exact walk_whole shown.1
  subst walked
  refine (ensures_packEntries fits).tryBind (fun entries u ended => ?_) fun e u ended => ?_
  · obtain ⟨rfl, ⟨_, _, _, _, _, wrong⟩ | ⟨led, entries', same, shown, framed⟩⟩ := ended
    · cases wrong
    cases same
    exact .ret (Or.inr ⟨led, _, rfl, reads entries framed shown⟩)
  · obtain ⟨-, ⟨rel, member, inner, none, _⟩ | ⟨_, _, wrong, _⟩⟩ := ended
    · exact Or.inl ⟨rel, member, inner, none, e, rfl⟩
    · cases wrong

theorem follow_below (items : Items) (links : Nat) (cwd : Place) (root : String) (free : ∀ name ∈ rel, '/' ∉ name.toList) :
    follow items links (start cwd (below root rel)) (Text.split '/' (below root rel)) =
      follow items links (start cwd root) (Text.split '/' root ++ rel) := by
  induction rel generalizing root with
  | nil => rw [List.append_nil]; rfl
  | cons name rel ih =>
    have first : '/' ∉ name.toList := free name (List.mem_cons_self ..)
    have rest := ih (join root name) fun later member => free later (List.mem_cons_of_mem _ member)
    have begins : start cwd (join root name) = start cwd root := by simp only [start, head_join first]
    rw [begins] at rest
    refine rest.trans ?_
    rcases split_join first with split | ⟨front, before, split⟩
    · rw [split, List.append_assoc, List.singleton_append]
    · rw [split, before, List.append_assoc, List.append_assoc, List.singleton_append, List.singleton_append]
      exact follow_empty.symm

/-- What is not a link is what its path leads to. -/
theorem stat_below (top : w.place payloadDir = some base) (there : base ++ rel ∈ w.tree.items)
    (solid : Solid w.tree.items.lookup (base ++ rel)) :
    w.stat (below payloadDir rel) = w.tree.items.lookup (base ++ rel) := by
  have place : w.place (below payloadDir rel) = some (base ++ rel) := by
    unfold Linked.place
    rw [follow_below _ _ _ _ fun name member => (LinkTree.named there name member).2]
    exact follow_behind (LinkTree.descends there solid) top
  rw [Linked.stat, place, Option.bind_some]

theorem stat_linked (w : Linked) (path target : String) : w.stat path ≠ some (.link target) :=
  stat_solid (Solid.of_dir w.tree.root) (Solid.of_dir w.here) target

theorem mem_listed {found : Place → Option Item} {node : Node} :
    (rel, node) ∈ listed found rels ↔ rel ∈ rels ∧ rel ≠ [] ∧ (found rel).bind packable = some node := by
  unfold listed
  constructor
  · intro member
    obtain ⟨rel', inside, made⟩ := List.mem_filterMap.mp member
    obtain ⟨node', there, same⟩ := Option.map_eq_some_iff.mp made
    cases same
    obtain ⟨inside, inner⟩ := List.mem_filter.mp inside
    exact ⟨inside, of_decide_eq_true inner, there⟩
  · rintro ⟨inside, inner, there⟩
    refine List.mem_filterMap.mpr ⟨rel, List.mem_filter.mpr ⟨inside, decide_eq_true inner⟩, ?_⟩
    rw [there, Option.map_some]

/-- Two ways to find items make the same entries exactly where they find the same. -/
theorem listed_agree_iff {found found' : Place → Option Item} :
    listed found rels = listed found' rels ↔ ∀ rel ∈ rels, rel ≠ [] → (found rel).bind packable = (found' rel).bind packable := by
  constructor
  · intro same rel member inner
    refine Option.ext fun node => ?_
    have here : (rel, node) ∈ listed found rels ↔ (rel, node) ∈ listed found' rels := by rw [same]
    simpa only [mem_listed, member, inner, true_and, ne_eq, not_false_eq_true] using here
  · intro agree
    unfold listed
    refine List.filterMap_congr fun rel member => ?_
    obtain ⟨member, inner⟩ := List.mem_filter.mp member
    rw [agree rel member (of_decide_eq_true inner)]

theorem linked_walk (w : Linked) (base : Place) : ∃ rels, w.walks base rels = true := by
  refine ⟨((w.tree.items.keys.filter (base <+: ·)).image (·.drop base.length)).sort (· ≤ ·), linked_walks.mpr ⟨?_, ?_⟩⟩
  · exact (Finset.sortedLT_sort ((w.tree.items.keys.filter (base <+: ·)).image (·.drop base.length))).pairwise
  · intro rel
    rw [Finset.mem_sort, Finset.mem_image]
    constructor
    · rintro ⟨place, inside, rfl⟩
      obtain ⟨there, rest, rfl⟩ := Finset.mem_filter.mp inside
      rw [List.drop_left]
      exact Finmap.mem_keys.mp there
    · intro there
      exact ⟨base ++ rel, Finset.mem_filter.mpr ⟨Finmap.mem_keys.mpr there, List.prefix_append _ _⟩, List.drop_left⟩

/-- Whatever the build asks for, there is an answer. -/
theorem linked_answers (w : Linked) (op : BuildOp) : ∃ r, linking.may () w op r = true := by
  cases op with
  | walkDir path =>
    cases top : w.place path with
    | none =>
      refine ⟨([] : List (Except String Place)), ?_⟩
      show (w.place path).all _ = true
      rw [top, Option.all_none]
    | some base =>
      obtain ⟨rels, order⟩ := linked_walk w base
      refine ⟨(rels.map Except.ok : List (Except String Place)), ?_⟩
      have same : (rels.map Except.ok : List (Except String Place)).filterMap Except.toOption = rels := by
        rw [List.filterMap_map]
        exact List.filterMap_some
      have fine : (rels.map Except.ok : List (Except String Place)).all Except.isOk = true := by
        rw [List.all_map, List.all_eq_true]
        exact fun _ _ => rfl
      show (w.place path).all _ = true
      rw [top, Option.all_some, same, fine, order]
      rfl
  | metadata path =>
    cases led : w.stat path with
    | none => exact ⟨(.error "" : Except String Metadata), Option.isNone_iff_eq_none.mpr led⟩
    | some item =>
      have shown (metadata : Metadata) (tell : tells metadata item = true) : (w.stat path).any (tells metadata) = true := by
        rw [led, Option.any_some, tell]
      cases item with
      | file bytes => exact ⟨(.ok ⟨false, true, bytes.length, 0, 0, 0, 0⟩ : Except String Metadata), shown _ (by simp [tells])⟩
      | dir => exact ⟨(.ok ⟨true, false, 0, 0, 0, 0, 0⟩ : Except String Metadata), shown _ rfl⟩
      | special => exact ⟨(.ok ⟨false, false, 0, 0, 0, 0, 0⟩ : Except String Metadata), shown _ rfl⟩
      | link target => exact absurd led (stat_linked w path target)
  | openFile path =>
    cases led : w.stat path with
    | none => exact ⟨(.error "" : Except String Unit), Option.isNone_iff_eq_none.mpr led⟩
    | some item => exact ⟨(.ok () : Except String Unit), Option.isSome_iff_exists.mpr ⟨item, led⟩⟩
  | readFile path =>
    cases held : (w.stat path).bind content with
    | none => exact ⟨(.error "" : Except String Bytes), decide_eq_true held⟩
    | some bytes => exact ⟨(.ok bytes : Except String Bytes), decide_eq_true held⟩
  | isDir path => exact ⟨true, rfl⟩
  | now => exact ⟨"", rfl⟩
  | print line => exact ⟨(), rfl⟩
  | readToString path => exact ⟨(.ok "" : Except String String), rfl⟩
  | create path => exact ⟨(.ok () : Except String Unit), rfl⟩
  | appendData name data => exact ⟨(.ok () : Except String Unit), rfl⟩
  | intoInner => exact ⟨(.ok () : Except String Unit), rfl⟩
  | finish path => exact ⟨(.ok () : Except String Unit), rfl⟩

/-- The archive that comes of it has the regular files and directories of the tree, and no
other entry. -/
def Packs (listing : Bytes → List (Place × Node)) (w : Linked) (base : Place) (rels : List Place)
    (r : Except Stop Bytes) : Prop :=
  ∃ bytes, r = .ok bytes ∧ listing bytes = listed (fun rel => w.tree.items.lookup (base ++ rel)) rels

/-- Every build of an archive of the payload packs its regular files and directories, and
nothing else, exactly if every link in it leads to something that is neither. -/
theorem packs_iff_links_special {listing : Bytes → List (Place × Node)} (top : w.place payloadDir = some base)
    (order : w.walks base rels = true) (fits : ∀ rel ∈ rels, rel ≠ [] → lib.setPath rel = .ok ())
    (reads : ReadsBack lib listing (listed (fun rel => w.stat (below payloadDir rel)) rels)) :
    (Can linking () (buildPayloadTar lib payloadDir).run w fun r _ => Packs listing w base rels r) ∧
        (Ensures linking () (buildPayloadTar lib payloadDir).run w fun r _ => Packs listing w base rels r) ↔
      ∀ rel target, w.tree.items.lookup (base ++ rel) = some (.link target) → w.stat (below payloadDir rel) = some .special := by
  have ends := ensures_buildPayloadTar top order fits reads
  have all := (linked_walks.mp order).2
  constructor
  · rintro ⟨⟨moments, r, u, exec, bytes, rfl, packed⟩, -⟩ rel target link
    have member : rel ∈ rels := (all rel).mpr (Finmap.mem_iff.mpr ⟨_, link⟩)
    have inner : rel ≠ [] := by
      rintro rfl
      refine stat_linked w payloadDir target ?_
      rw [Linked.stat, top, Option.bind_some, ← link, List.append_nil]
    obtain ⟨_, _, _, _, _, wrong⟩ | ⟨led, bytes', same, packed'⟩ := ends _ _ _ exec
    · cases wrong
    cases same
    have agree := listed_agree_iff.mp (packed'.symm.trans packed) rel member inner
    rw [link] at agree
    obtain ⟨item, found⟩ := Option.ne_none_iff_exists'.mp (led rel member inner)
    rw [found] at agree ⊢
    cases item with
    | special => rfl
    | file bytes => cases agree
    | dir => cases agree
    | link target => exact absurd found (stat_linked w _ target)
  · intro special
    have led (rel : Place) (member : rel ∈ rels) : ∃ item, w.stat (below payloadDir rel) = some item ∧
        packable item = (w.tree.items.lookup (base ++ rel)).bind packable := by
      have there := (all rel).mp member
      obtain ⟨item, found⟩ := Finmap.mem_iff.mp there
      by_cases link : ∃ target, item = .link target
      · obtain ⟨target, rfl⟩ := link
        exact ⟨.special, special rel target found, by rw [found]; rfl⟩
      · have solid : Solid w.tree.items.lookup (base ++ rel) := fun target same =>
          link ⟨target, Option.some.inj (found.symm.trans same)⟩
        exact ⟨item, (stat_below top there solid).trans found, by rw [found, Option.bind_some]⟩
    have ensures : Ensures linking () (buildPayloadTar lib payloadDir).run w fun r _ => Packs listing w base rels r := by
      refine ends.mono fun r _ ended => ?_
      obtain ⟨rel, member, _, none, _⟩ | ⟨_, bytes, rfl, packed⟩ := ended
      · obtain ⟨item, found, -⟩ := led rel member
        cases none.symm.trans found
      · refine ⟨bytes, rfl, packed.trans (listed_agree_iff.mpr fun rel member _ => ?_)⟩
        obtain ⟨item, found, same⟩ := led rel member
        rw [found, Option.bind_some, same]
    exact ⟨ensures.can linked_answers, ensures⟩

/-- An archiver that knows the archive of some nodes; a header holds a path of one name or more. -/
def archiver (nodes : List (Place × Node)) (tar : Bytes) : Libraries Nodes where
  setPath rel := if rel = [] then .error "paths in archives must have at least one component" else .ok ()
  payloadTar entries := if entries.map (fun entry => (entry.path, entry.node)) = nodes then tar else []
  manifestJson _ := .ok []
  descriptorJson _ := .ok []
  archive _ := []
  unpack _ _ unpacked := .ok unpacked

def unarchived (nodes : List (Place × Node)) (tar bytes : Bytes) : List (Place × Node) := if bytes = tar then nodes else []

theorem archiver_reads (nodes : List (Place × Node)) (tar : Bytes) : ReadsBack (archiver nodes tar) (unarchived nodes tar) nodes := by
  intro entries _ same
  have written : (archiver nodes tar).payloadTar entries = tar := if_pos same
  rw [written]
  exact if_pos rfl

/-- A payload with a script and a link to a device. -/
def deviceTree : LinkTree where
  items := [⟨[], .dir⟩, ⟨["dev"], .dir⟩, ⟨["dev", "null"], .special⟩, ⟨["pay"], .dir⟩, ⟨["pay", "bin"], .dir⟩,
    ⟨["pay", "bin", "foot"], .file (bytesOf "#!/bin/sh\n")⟩, ⟨["pay", "null"], .link "/dev/null"⟩].toFinmap
  root := by decide
  closed := by decide

def deviceHost : Linked := ⟨deviceTree, ["pay"], by decide⟩

def deviceNodes : List (Place × Node) := [(["bin"], .dir), (["bin", "foot"], .file (bytesOf "#!/bin/sh\n"))]

theorem packs_iff_links_special_device :
    (Can linking () (buildPayloadTar (archiver deviceNodes packedPayload) "/pay").run deviceHost fun r _ =>
        Packs (unarchived deviceNodes packedPayload) deviceHost ["pay"] [[], ["bin"], ["bin", "foot"], ["null"]] r) ∧
        (Ensures linking () (buildPayloadTar (archiver deviceNodes packedPayload) "/pay").run deviceHost fun r _ =>
          Packs (unarchived deviceNodes packedPayload) deviceHost ["pay"] [[], ["bin"], ["bin", "foot"], ["null"]] r) ↔
      ∀ rel target, deviceHost.tree.items.lookup (["pay"] ++ rel) = some (.link target) →
        deviceHost.stat (below "/pay" rel) = some .special := by
  have made : listed (fun rel => deviceHost.stat (below "/pay" rel)) [[], ["bin"], ["bin", "foot"], ["null"]] = deviceNodes := by
    decide +kernel
  refine packs_iff_links_special (by decide +kernel) (by decide +kernel) (fun _ _ inner => if_neg inner) ?_
  rw [made]
  exact archiver_reads deviceNodes packedPayload

/-- A payload with a link to a file outside it. -/
def motdTree : LinkTree where
  items := [⟨[], .dir⟩, ⟨["etc"], .dir⟩, ⟨["etc", "motd"], .file (bytesOf "hi\n")⟩, ⟨["pay"], .dir⟩,
    ⟨["pay", "motd"], .link "/etc/motd"⟩].toFinmap
  root := by decide
  closed := by decide

def motdHost : Linked := ⟨motdTree, ["pay"], by decide⟩

def motdNodes : List (Place × Node) := [(["motd"], .file (bytesOf "hi\n"))]

def motdPayload : Bytes := gnuHeader "motd" "0100644" "00000000003" "0010062" "0" ++ field 512 "hi\n" ++ List.replicate 1024 0

/-- A payload that holds a link only is packed with the bytes of a file outside it. -/
theorem link_content_packed :
    motdHost.place "/pay" = some ["pay"] ∧ motdHost.walks ["pay"] [[], ["motd"]] = true ∧
      Can linking () (buildPayloadTar (archiver motdNodes motdPayload) "/pay").run motdHost fun r _ =>
        (∃ bytes, r = .ok bytes ∧ unarchived motdNodes motdPayload bytes = [(["motd"], .file (bytesOf "hi\n"))]) ∧
          ¬ Packs (unarchived motdNodes motdPayload) motdHost ["pay"] [[], ["motd"]] r := by
  have made : listed (fun rel => motdHost.stat (below "/pay" rel)) [[], ["motd"]] = motdNodes := by decide +kernel
  have regular : listed (fun rel => motdHost.tree.items.lookup (["pay"] ++ rel)) [[], ["motd"]] = [] := by decide
  have led : motdHost.stat (below "/pay" ["motd"]) ≠ none := by decide +kernel
  have top : motdHost.place "/pay" = some ["pay"] := by decide +kernel
  have order : motdHost.walks ["pay"] [[], ["motd"]] = true := by decide
  refine ⟨top, order, ?_⟩
  have reads : ReadsBack (archiver motdNodes motdPayload) (unarchived motdNodes motdPayload)
      (listed (fun rel => motdHost.stat (below "/pay" rel)) [[], ["motd"]]) := by
    rw [made]
    exact archiver_reads motdNodes motdPayload
  have ends := ensures_buildPayloadTar top order (fun _ _ inner => if_neg inner) reads
  obtain ⟨moments, r, u, exec, ended⟩ := ends.can linked_answers
  refine ⟨moments, r, u, exec, ?_⟩
  obtain ⟨rel, member, inner, none, _⟩ | ⟨_, bytes, rfl, packed⟩ := ended
  · rcases List.mem_cons.mp member with rfl | member
    · exact absurd rfl inner
    · rw [List.mem_singleton.mp member] at none
      exact absurd none led
  · rw [made] at packed
    refine ⟨⟨bytes, rfl, packed⟩, ?_⟩
    rintro ⟨bytes', same, packed'⟩
    cases same
    rw [regular, packed] at packed'
    cases packed'

end Bsdos.Pkgd
