import Bsdos.Pkgd.Names
import Bsdos.Pkgd.Tampered

namespace Bsdos.Pkgd
open Effects Files

variable {k : Codecs} {lib : Libraries Nodes} {m m' : Machine} {dir output : String} {base : Place}

/-- A name that a directory entry can have. -/
def EntryName (name : String) : Prop := Proper name ∧ '/' ∉ name.toList

theorem resolve_below {cwd : Place} {root : String} {rel : Place} (named : ∀ name ∈ rel, EntryName name) :
    resolve cwd (below root rel) = resolve cwd root ++ rel := by
  induction rel generalizing root with
  | nil => exact (List.append_nil _).symm
  | cons name rel ih =>
    have first := named name (List.mem_cons_self ..)
    have rest := @ih (join root name) fun later member => named later (List.mem_cons_of_mem _ member)
    have step : resolve cwd (join root name) = resolve cwd root ++ [name] :=
      (resolve_join first.2).trans (first.1.enter _)
    rw [step, List.append_assoc, List.singleton_append] at rest
    exact rest

/-- At and below `base` there are regular files and directories only, in directories. -/
structure PlainTree (m : Machine) (base : Place) : Prop where
  top : m.nodes.lookup base = some .dir
  plain : ∀ rel node, m.nodes.lookup (base ++ rel) = some node → node ≠ .other ∧ ∀ name ∈ rel, EntryName name
  parents : ∀ rel name node, m.nodes.lookup (base ++ (rel ++ [name])) = some node →
    m.nodes.lookup (base ++ rel) = some .dir

/-- The entry is made of the node at its path. -/
structure Mirrors (lib : Libraries Nodes) (m : Machine) (base : Place) (entry : RawEntry) : Prop where
  node : m.nodes.lookup (base ++ entry.path) = some entry.node
  fits : lib.setPath entry.path = .ok ()
  sized : entry.metadata.isDir = false → entry.metadata.len = entry.data.length

theorem exec_packEntry {payloadDir : String} {rel : Place} {moments : List (Moment Builder Machine)}
    {packed : Option RawEntry} {node : Node} (tree : PlainTree m (resolve m.cwd payloadDir))
    (there : m.nodes.lookup (resolve m.cwd payloadDir ++ rel) = some node)
    (exec : Exec (builder lib) () (packEntry lib payloadDir rel).run m moments (.ok packed) m') :
    ∃ entry, packed = some entry ∧ entry.path = rel ∧ Mirrors lib m (resolve m.cwd payloadDir) entry := by
  obtain ⟨plain, named⟩ := tree.plain rel node there
  have here : m.node (below payloadDir rel) = some node := (Machine.node_at (resolve_below named)).trans there
  obtain ⟨_, looked, u, _, front, exec, _⟩ := exec_tryBind_ok exec
  obtain ⟨tells, rfl⟩ := exec_asked front trivial
  obtain ⟨_, metadata, u, _, front, exec, _⟩ := exec_tryBind_ok exec
  obtain ⟨rfl, rfl⟩ := exec_orElse front
  obtain ⟨_, _, u, _, front, exec, _⟩ := exec_tryBind_ok exec
  obtain ⟨fits, rfl⟩ := exec_orElse front
  have tells : node.describes metadata = true := by
    have shown : m.shows (below payloadDir rel) (Node.describes metadata) = true := tells
    unfold Machine.shows at shown
    rw [here] at shown
    cases node <;> exact shown
  cases node with
  | other => exact absurd rfl plain
  | dir =>
    have isDir : metadata.isDir = true := tells
    rw [isDir] at exec
    cases exec.2.1
    exact ⟨_, rfl, rfl, by simpa only [RawEntry.node, isDir, if_true] using there, fits, by simp [isDir]⟩
  | file bytes =>
    simp only [Node.describes, Bool.and_eq_true, Bool.not_eq_true', decide_eq_true_eq] at tells
    obtain ⟨⟨notDir, isFile⟩, len⟩ := tells
    rw [notDir, isFile] at exec
    obtain ⟨_, opened, u, _, front, exec, _⟩ := exec_tryBind_ok exec
    obtain ⟨_, rfl⟩ := exec_asked front trivial
    obtain ⟨_, _, u, _, front, exec, _⟩ := exec_tryBind_ok exec
    obtain ⟨_, rfl⟩ := exec_orElse front
    obtain ⟨_, read, u, _, front, exec, _⟩ := exec_tryBind_ok exec
    obtain ⟨reads, rfl⟩ := exec_asked front trivial
    obtain ⟨_, data, u, _, front, exec, _⟩ := exec_tryBind_ok exec
    obtain ⟨rfl, rfl⟩ := exec_orElse front
    cases exec.2.1
    have same : bytes = data := by
      have shown : m.shows (below payloadDir rel) (· = .file data) = true := reads
      unfold Machine.shows at shown
      rw [here] at shown
      simpa using shown
    subst same
    exact ⟨_, rfl, rfl, by simpa only [RawEntry.node, notDir, Bool.false_eq_true, if_false] using there, fits, fun _ => len⟩

/-- What is packed of a walk: one entry for each path but the top's own. -/
theorem exec_packEntries {payloadDir : String} {rels : List Place} {moments : List (Moment Builder Machine)}
    {entries : List RawEntry} (tree : PlainTree m (resolve m.cwd payloadDir))
    (there : ∀ rel ∈ rels, ∃ node, m.nodes.lookup (resolve m.cwd payloadDir ++ rel) = some node)
    (exec : Exec (builder lib) () (packEntries lib payloadDir (rels.map .ok)).run m moments (.ok entries) m') :
    entries.map RawEntry.path = rels.filter (· ≠ []) ∧ ∀ entry ∈ entries, Mirrors lib m (resolve m.cwd payloadDir) entry := by
  induction rels generalizing entries moments m' with
  | nil =>
    cases exec.2.1
    exact ⟨rfl, by simp⟩
  | cons rel rels ih =>
    obtain ⟨node, here⟩ := there rel (List.mem_cons_self ..)
    have later : ∀ rel ∈ rels, ∃ node, m.nodes.lookup (resolve m.cwd payloadDir ++ rel) = some node :=
      fun rel' member => there rel' (List.mem_cons_of_mem _ member)
    obtain ⟨_, rel', u, _, front, exec, _⟩ := exec_tryBind_ok exec
    obtain ⟨same, rfl⟩ := exec_orElse front
    cases same
    by_cases top : rel = []
    · subst top
      simpa using ih later exec
    · have inner : rel.isEmpty = false := by simpa using top
      rw [inner] at exec
      obtain ⟨_, packed, u, _, front, exec, _⟩ := exec_tryBind_ok exec
      obtain rfl := exec_looks front (packEntry_only _ _)
      obtain ⟨entry, rfl, path, mirrors⟩ := exec_packEntry tree here front
      obtain ⟨_, rest, u, _, front, exec, _⟩ := exec_tryBind_ok exec
      cases exec.2.1
      obtain ⟨paths, all⟩ := ih later front
      refine ⟨?_, ?_⟩
      · simp [path, paths, top]
      · simpa using ⟨mirrors, all⟩

theorem walk_whole {walk : List (Except String Place)} (through : ∀ found ∈ walk, found.isOk = true) :
    walk = (walk.filterMap Except.toOption).map .ok := by
  induction walk with
  | nil => rfl
  | cons found walk ih =>
    have first := through found (List.mem_cons_self ..)
    have rest := ih fun later member => through later (List.mem_cons_of_mem _ member)
    cases found with
    | error e => cases first
    | ok rel => exact congrArg (List.cons (Except.ok rel)) rest

/-- A walk that went through listed everything at and below its top, once. -/
theorem walk_lists {payloadDir : String} {walk : List (Except String Place)}
    (tree : PlainTree m (resolve m.cwd payloadDir)) (may : m.may (.walkDir payloadDir) walk = true)
    (through : ∀ found ∈ walk, found.isOk = true) :
    ∃ rels : List Place, walk = rels.map .ok ∧ rels.Nodup ∧
      ∀ rel, rel ∈ rels ↔ ∃ node, m.nodes.lookup (resolve m.cwd payloadDir ++ rel) = some node := by
  have fine : walk.any (fun found => !found.isOk) = false := by
    rw [List.any_eq_false]
    intro found member
    simp [through found member]
  have walks : m.walks (resolve m.cwd payloadDir) (walk.filterMap Except.toOption) = true := by
    have shown : (walk.any (fun found => !found.isOk) ||
      m.shows payloadDir fun _ => m.walks (resolve m.cwd payloadDir) (walk.filterMap Except.toOption)) = true := may
    rw [fine, Bool.false_or] at shown
    unfold Machine.shows at shown
    rw [Machine.node_at rfl, tree.top] at shown
    exact shown
  unfold Machine.walks at walks
  simp only [Bool.and_eq_true, decide_eq_true_eq, List.all_eq_true] at walks
  obtain ⟨⟨ordered, inside⟩, complete⟩ := walks
  have apart {rel rel' : Place} (less : rel < rel') : rel ≠ rel' := by
    rintro rfl
    exact List.lt_irrefl rel less
  refine ⟨_, walk_whole through, ordered.imp apart, fun rel => ⟨fun member => ?_, fun there => ?_⟩⟩
  · exact Finmap.mem_iff.mp (inside rel member)
  · have member := complete (resolve m.cwd payloadDir ++ rel) (Finmap.mem_keys.mpr (Finmap.mem_iff.mpr there))
      (List.prefix_append _ _)
    rwa [List.drop_left] at member

theorem packEntries_through {payloadDir : String} {walk : List (Except String Place)}
    {moments : List (Moment Builder Machine)} {entries : List RawEntry}
    (exec : Exec (builder lib) () (packEntries lib payloadDir walk).run m moments (.ok entries) m') :
    ∀ found ∈ walk, found.isOk = true := by
  induction walk generalizing entries moments m m' with
  | nil => simp
  | cons found walk ih =>
    obtain ⟨_, rel, u, _, front, exec, _⟩ := exec_tryBind_ok exec
    obtain ⟨same, _⟩ := exec_orElse front
    have first : found.isOk = true := by rw [same]; rfl
    refine List.forall_mem_cons.mpr ⟨first, ?_⟩
    cases top : rel.isEmpty with
    | true =>
      rw [top] at exec
      exact ih exec
    | false =>
      rw [top] at exec
      obtain ⟨_, _, u, _, _, exec, _⟩ := exec_tryBind_ok exec
      obtain ⟨_, _, u, _, packs, exec, _⟩ := exec_tryBind_ok exec
      exact ih packs

/-- What a payload archive is made of: the entry of every node below the payload, once. -/
theorem exec_buildPayloadTar {payloadDir : String} {moments : List (Moment Builder Machine)} {payloadTar : Bytes}
    (tree : PlainTree m (resolve m.cwd payloadDir))
    (exec : Exec (builder lib) () (buildPayloadTar lib payloadDir).run m moments (.ok payloadTar) m') :
    ∃ entries, payloadTar = lib.payloadTar entries ∧ (entries.map RawEntry.path).Nodup ∧
      (∀ rel, rel ∈ entries.map RawEntry.path ↔
        rel ≠ [] ∧ ∃ node, m.nodes.lookup (resolve m.cwd payloadDir ++ rel) = some node) ∧
      ∀ entry ∈ entries, Mirrors lib m (resolve m.cwd payloadDir) entry := by
  obtain ⟨_, walk, u, _, front, exec, _⟩ := exec_tryBind_ok exec
  obtain ⟨may, rfl⟩ := exec_asked front trivial
  obtain ⟨_, entries, u, _, packs, exec, _⟩ := exec_tryBind_ok exec
  cases exec.2.1
  obtain ⟨rels, rfl, once, listed⟩ := walk_lists tree may (packEntries_through packs)
  obtain ⟨paths, mirrors⟩ := exec_packEntries tree (fun rel member => (listed rel).mp member) packs
  refine ⟨entries, rfl, ?_, fun rel => ?_, mirrors⟩
  · rw [paths]
    exact once.filter _
  · rw [paths, List.mem_filter, listed rel]
    simp [and_comm]

/-- The entries of an archive that can be written and unpacked: each once, under its own
directory, with the size its header says. -/
structure Loadable (lib : Libraries Nodes) (entries : List RawEntry) : Prop where
  once : (entries.map RawEntry.path).Nodup
  named : ∀ entry ∈ entries, entry.path ≠ [] ∧ ∀ name ∈ entry.path, EntryName name
  fits : ∀ entry ∈ entries, lib.setPath entry.path = .ok ()
  sized : ∀ entry ∈ entries, entry.metadata.isDir = false → entry.metadata.len = entry.data.length
  parents : ∀ entry ∈ entries, ∀ rel name, entry.path = rel ++ [name] →
    rel = [] ∨ ∃ parent ∈ entries, parent.path = rel ∧ parent.node = .dir

theorem loadable_mirrors {entries : List RawEntry} (tree : PlainTree m base)
    (once : (entries.map RawEntry.path).Nodup)
    (listed : ∀ rel, rel ∈ entries.map RawEntry.path ↔ rel ≠ [] ∧ ∃ node, m.nodes.lookup (base ++ rel) = some node)
    (mirrors : ∀ entry ∈ entries, Mirrors lib m base entry) : Loadable lib entries := by
  refine ⟨once, fun entry member => ?_, fun entry member => (mirrors entry member).fits,
    fun entry member => (mirrors entry member).sized, fun entry member rel name path => ?_⟩
  · have inside := (listed entry.path).mp (List.mem_map_of_mem member)
    exact ⟨inside.1, (tree.plain _ _ (mirrors entry member).node).2⟩
  · have here := (mirrors entry member).node
    rw [path] at here
    have above := tree.parents rel name _ here
    by_cases top : rel = []
    · exact Or.inl top
    · obtain ⟨parent, packed, same⟩ := List.mem_map.mp ((listed rel).mpr ⟨top, .dir, above⟩)
      have there := (mirrors parent packed).node
      rw [same, above] at there
      exact Or.inr ⟨parent, packed, same, (Option.some.inj there).symm⟩

/-- A directory with nothing in it. -/
def Vacant (nodes : Nodes) (dest : Place) : Prop :=
  nodes.lookup dest = some .dir ∧ ∀ rel ≠ [], nodes.lookup (dest ++ rel) = none

theorem lookup_extract_other {entries : List RawEntry} {nodes : Nodes} {dest rel : Place}
    (other : rel ∉ entries.map RawEntry.path) : (extract dest entries nodes).lookup (dest ++ rel) = nodes.lookup (dest ++ rel) := by
  induction entries generalizing nodes with
  | nil => rfl
  | cons entry entries ih =>
    rw [List.map_cons, List.mem_cons, not_or] at other
    have apart : dest ++ rel ≠ dest ++ entry.path := fun same => other.1 (List.append_cancel_left same)
    exact (ih other.2).trans (Finmap.lookup_insert_of_ne nodes apart)

theorem lookup_extract {entries : List RawEntry} {nodes : Nodes} {dest : Place} {entry : RawEntry}
    (once : (entries.map RawEntry.path).Nodup) (member : entry ∈ entries) :
    (extract dest entries nodes).lookup (dest ++ entry.path) = some entry.node := by
  induction entries generalizing nodes with
  | nil => cases member
  | cons first entries ih =>
    rw [List.map_cons, List.nodup_cons] at once
    rcases List.mem_cons.mp member with rfl | later
    · exact (lookup_extract_other once.1).trans (Finmap.lookup_insert nodes)
    · exact ih once.2 later

/-- What was packed below one place and unpacked below an empty one is there as it was. -/
theorem extract_mirrors {entries : List RawEntry} {nodes : Nodes} {dest : Place} (tree : PlainTree m base)
    (once : (entries.map RawEntry.path).Nodup)
    (listed : ∀ rel, rel ∈ entries.map RawEntry.path ↔ rel ≠ [] ∧ ∃ node, m.nodes.lookup (base ++ rel) = some node)
    (mirrors : ∀ entry ∈ entries, Mirrors lib m base entry) (vacant : Vacant nodes dest) (rel : Place) :
    (extract dest entries nodes).lookup (dest ++ rel) = m.nodes.lookup (base ++ rel) := by
  by_cases packed : rel ∈ entries.map RawEntry.path
  · obtain ⟨entry, member, rfl⟩ := List.mem_map.mp packed
    rw [lookup_extract once member, (mirrors entry member).node]
  · rw [lookup_extract_other packed]
    by_cases top : rel = []
    · subst top
      rw [List.append_nil, List.append_nil, vacant.1, tree.top]
    · rw [vacant.2 rel top]
      cases there : m.nodes.lookup (base ++ rel) with
      | none => rfl
      | some node => exact absurd ((listed rel).mpr ⟨top, node, there⟩) packed

/-- `create_dir_all`: the directories on the way to a place, where they are not there yet. -/
def mkdirs (nodes : Nodes) (place : Place) : Nodes :=
  place.inits.foldl (fun made above => if above ∈ made then made else made.insert above .dir) nodes

/-- Something other than a directory is on the way to a place. -/
def obstructed (nodes : Nodes) (place : Place) : Bool :=
  place.inits.any fun above => decide (nodes.lookup above ≠ none ∧ nodes.lookup above ≠ some .dir)

theorem lookup_mkdirs (nodes : Nodes) (places : List Place) (place : Place) :
    (places.foldl (fun made above => if above ∈ made then made else made.insert above .dir) nodes).lookup place =
      if place ∈ nodes then nodes.lookup place else if place ∈ places then some .dir else none := by
  induction places generalizing nodes with
  | nil =>
    rw [List.foldl_nil]
    split
    · rfl
    · rename_i absent
      simpa using Finmap.lookup_eq_none.mpr absent
  | cons above places ih =>
    rw [List.foldl_cons, ih]
    by_cases there : above ∈ nodes
    · rw [if_pos there]
      by_cases here : place ∈ nodes
      · rw [if_pos here, if_pos here]
      · have other : place ≠ above := fun same => here (same ▸ there)
        simp [here, other]
    · rw [if_neg there]
      by_cases same : place = above
      · subst same
        simp [there]
      · have unchanged : place ∈ nodes.insert above .dir ↔ place ∈ nodes := by simp [same]
        simp [unchanged, same, Finmap.lookup_insert_of_ne]

/-- The installation's calls: what is there is opened, and directories are made and
archives unpacked unless something is in the way. -/
def Machine.installs (lib : Libraries Nodes) (m : Machine) : (op : Op) → op.Ret → Bool
  | .openFile path, .ok bytes => m.shows path (· = .file bytes)
  | .openFile path, .error _ => m.node path = none ∨ m.node path = some .dir ∨ m.node path = some .other
  | .createDirAll path, r => r.isOk = !obstructed m.nodes (resolve m.cwd path)
  | .unpack payload dest, r => r.isOk = (lib.unpack payload (resolve m.cwd dest) m.nodes).isOk
  | _, _ => true

def Machine.installed (lib : Libraries Nodes) (m : Machine) : (op : Op) → op.Ret → Machine
  | .createDirAll path, .ok () => { m with nodes := mkdirs m.nodes (resolve m.cwd path) }
  | .unpack payload dest, .ok () =>
    { m with nodes := ((lib.unpack payload (resolve m.cwd dest) m.nodes).toOption).getD m.nodes }
  | _, _ => m

/-- The tool, alone with a file system whose own operations do not fail. -/
def installer (lib : Libraries Nodes) : System Tool Unit Machine where
  Request := Empty
  Env := Empty
  may := fun _ => Machine.installs lib
  effect := fun _ => Machine.installed lib
  serve := fun _ request => nomatch request
  droppable := fun _ _ => false
  surroundings := fun _ change => nomatch change

theorem installer_answers (u : Machine) (op : Op) : ∃ r, (installer lib).may () u op r = true := by
  cases op with
  | openFile path =>
    cases there : u.node path with
    | none => exact ⟨.error "", decide_eq_true (Or.inl there)⟩
    | some node =>
      cases node with
      | file bytes => exact ⟨.ok bytes, Machine.shows_of there (decide_eq_true rfl)⟩
      | dir => exact ⟨.error "", decide_eq_true (Or.inr (Or.inl there))⟩
      | other => exact ⟨.error "", decide_eq_true (Or.inr (Or.inr there))⟩
  | createDirAll path =>
    cases free : obstructed u.nodes (resolve u.cwd path) with
    | true => exact ⟨.error "", decide_eq_true (by rw [free]; rfl)⟩
    | false => exact ⟨.ok (), decide_eq_true (by rw [free]; rfl)⟩
  | unpack payload dest =>
    cases result : lib.unpack payload (resolve u.cwd dest) u.nodes with
    | error e => exact ⟨.error "", decide_eq_true (by rw [result]; rfl)⟩
    | ok nodes => exact ⟨.ok (), decide_eq_true (by rw [result]; rfl)⟩
  | print line | eprint line => exact ⟨(), rfl⟩

theorem installer_quiet (u : Machine) (op : Op) (r : op.Ret) (looks : Op.Looks op) :
    (installer lib).effect () u op r = u := by
  cases op <;> first | rfl | exact looks.elim

theorem installer_opens {path : String} {archive : Bytes} (there : m.node path = some (.file archive))
    (r : Except String Bytes) (may : (installer lib).may () m (.openFile path) r = true) :
    r = .ok archive := by
  cases r with
  | ok bytes =>
    have shown : m.shows path (· = .file bytes) = true := may
    unfold Machine.shows at shown
    rw [there] at shown
    have same : archive = bytes := by simpa using shown
    rw [same]
  | error e =>
    have refused : m.node path = none ∨ m.node path = some .dir ∨ m.node path = some .other := of_decide_eq_true may
    rw [there] at refused
    simp at refused

section installation
variable {path root tomlStr : String} {archive payloadTar manifestJson : Bytes} {contents : FileBytes}
  {manifest : ManifestJson} {descriptor : JpkDescriptor} {unpacked : Nodes}

/-- A package whose members match its manifest is verified. -/
theorem installer_verifies (there : m.node path = some (.file archive)) (decodes : members k archive = .ok contents)
    (listing : contents.lookup "manifest.json" = some manifestJson) (parsed : k.manifest manifestJson = .ok manifest)
    (hashed : ∀ entry ∈ manifest.files, ∃ data, entry.sha256 = sha256Hex k data)
    (accepted : manifest.files.all (matched k contents) = true) :
    Ensures (installer lib) () (runVerify k path).run m fun r u => r = .ok () ∧ u = m := by
  have opens := @installer_opens lib _ _ _ there
  refine (ensures_runVerify installer_quiet (fun r may => Or.inl (opens r may)) decodes listing parsed hashed).mono
    fun r u ended => ?_
  obtain ⟨rfl, ⟨e, may, _⟩ | ends⟩ := ended
  · cases opens _ may
  · rw [verdict, accepted] at ends
    exact ⟨ends, rfl⟩

/-- A package that is verified is installed where nothing is in the way of its directory
and its payload can be unpacked there. -/
theorem installer_installs (there : m.node path = some (.file archive)) (decodes : members k archive = .ok contents)
    (verifies : Ensures (installer lib) () (runVerify k path).run m fun r u => r = .ok () ∧ u = m)
    (toml : contents.lookup "jpk.toml" = some (bytesOf tomlStr)) (utf8 : k.utf8 (bytesOf tomlStr) = .ok tomlStr)
    (decoded : k.toml tomlStr = .ok descriptor) (valid : descriptor.validate = .ok ())
    (payload : contents.lookup "payload.tar" = some payloadTar)
    (free : obstructed m.nodes (resolve m.cwd (join root descriptor.header.id)) = false)
    (unpacks : lib.unpack payloadTar (resolve m.cwd (join root descriptor.header.id))
      (mkdirs m.nodes (resolve m.cwd (join root descriptor.header.id))) = .ok unpacked) :
    Ensures (installer lib) () (runInstall k path root).run m fun r u => r = .ok () ∧ u.nodes = unpacked := by
  have opens := @installer_opens lib _ _ _ there
  have read : Ensures (installer lib) () (readArchive k path).run m fun r u => r = .ok contents ∧ u = m := by
    refine (ensures_readArchive (k := k) installer_quiet fun r may => Or.inl (opens r may)).mono fun r u ended => ?_
    obtain ⟨rfl, ⟨e, may, _⟩ | ends⟩ := ended
    · cases opens _ may
    · rw [decodes] at ends
      exact ⟨ends, rfl⟩
  refine (ensures_print installer_quiet _).through (verifies.through (read.through ?_))
  rw [toml]
  refine Ensures.through (v := bytesOf tomlStr) (.ret ⟨rfl, rfl⟩) ?_
  have described : Ensures (installer lib) () (parseDescriptor k (bytesOf tomlStr)).run m fun r u =>
      r = .ok descriptor ∧ u = m := by
    unfold parseDescriptor
    rw [utf8]
    refine Ensures.through (v := tomlStr) (.ret ⟨rfl, rfl⟩) ?_
    rw [decoded]
    refine Ensures.through (v := descriptor) (.ret ⟨rfl, rfl⟩) ?_
    rw [valid]
    exact .ret ⟨rfl, rfl⟩
  refine described.through ?_
  refine .call fun created may => ?_
  have made : created.isOk = true := by
    have answer : decide (created.isOk = !obstructed m.nodes (resolve m.cwd (join root descriptor.header.id))) = true := may
    rw [free] at answer
    exact of_decide_eq_true answer
  cases created with
  | error e => cases made
  | ok u =>
    refine Ensures.through (v := ()) (x := mapErr _ (.ok ())) (.ret ⟨rfl, rfl⟩) ?_
    rw [payload]
    refine Ensures.through (v := payloadTar) (x := okOr _ (some payloadTar)) (.ret ⟨rfl, rfl⟩) ?_
    refine .call fun result may => ?_
    have goes : result.isOk = true := by
      have answer : decide (result.isOk = (lib.unpack payloadTar (resolve m.cwd (join root descriptor.header.id))
        (mkdirs m.nodes (resolve m.cwd (join root descriptor.header.id)))).isOk) = true := may
      rw [unpacks] at answer
      exact of_decide_eq_true answer
    cases result with
    | error e => cases goes
    | ok u =>
      refine Ensures.through (v := ()) (x := mapErr _ (.ok ())) (.ret ⟨rfl, rfl⟩) ?_
      refine (ensures_print installer_quiet _).mono fun r w' ended => ⟨ended.1, ?_⟩
      obtain ⟨_, rfl⟩ := ended
      have after : ((lib.unpack payloadTar (resolve m.cwd (join root descriptor.header.id))
        (mkdirs m.nodes (resolve m.cwd (join root descriptor.header.id)))).toOption).getD
          (mkdirs m.nodes (resolve m.cwd (join root descriptor.header.id))) = unpacked := by
        rw [unpacks]
        rfl
      exact after

end installation

/-- An empty directory, on a way that is made of directories. -/
structure EmptyRoot (m : Machine) (root : Place) : Prop where
  vacant : Vacant m.nodes root
  above : ∀ place, place <+: root → m.nodes.lookup place = some .dir

theorem EmptyRoot.free {root : Place} {name : String} (empty : EmptyRoot m root) :
    obstructed m.nodes (root ++ [name]) = false := by
  unfold obstructed
  rw [List.any_eq_false]
  intro place member
  have inside : place <+: root ++ [name] := (List.mem_inits _ _).mp member
  rcases List.prefix_concat_iff.mp inside with rfl | above
  · simp [empty.vacant.2 [name] (by simp)]
  · simp [empty.above place above]

theorem EmptyRoot.vacant_child {root : Place} {name : String} (empty : EmptyRoot m root) :
    Vacant (mkdirs m.nodes (root ++ [name])) (root ++ [name]) := by
  have absent (rel : Place) : root ++ [name] ++ rel ∉ m.nodes := by
    rw [← Finmap.lookup_eq_none, List.append_assoc]
    exact empty.vacant.2 _ (by simp)
  refine ⟨?_, fun rel filled => ?_⟩
  · have here := absent []
    rw [List.append_nil] at here
    rw [mkdirs, lookup_mkdirs, if_neg here, if_pos ((List.mem_inits _ _).mpr (List.prefix_refl _))]
  · have outside : root ++ [name] ++ rel ∉ (root ++ [name]).inits := by
      rw [List.mem_inits]
      intro inside
      have shorter := inside.length_le
      have longer := List.length_pos_iff.mpr filled
      simp only [List.length_append] at shorter
      omega
    rw [mkdirs, lookup_mkdirs, if_neg (absent rel), if_neg outside]

/-- A package that was built is verified wherever it is copied to, and its installation
into an empty root goes through and leaves there what the payload was made of. -/
theorem build_install_round_trip {moments : List (Moment Builder Machine)} {tomlStr : String}
    {descriptor : JpkDescriptor} {archive : Bytes}
    (build : Exec (builder lib) () (runBuild k lib dir output).run m moments (.ok ()) m')
    (toml : m.node (join dir "jpk.toml") = some (.file (bytesOf tomlStr)))
    (decoded : k.toml tomlStr = .ok descriptor) (dot : descriptor.header.id ≠ ".") (dots : descriptor.header.id ≠ "..")
    (tree : PlainTree m (resolve m.cwd (join dir "payload")))
    (built : m'.node output = some (.file archive))
    (utf8 : k.utf8 (bytesOf tomlStr) = .ok tomlStr)
    (json : ∀ manifest bytes, lib.manifestJson manifest = .ok bytes → k.manifest bytes = .ok manifest)
    (packed : k.entries (lib.archive m'.written) = .ok (asEntries m'.written))
    (tar : ∀ entries, ("payload.tar", lib.payloadTar entries) ∈ m'.written → Loadable lib entries →
      ∀ dest nodes, Vacant nodes dest → lib.unpack (lib.payloadTar entries) dest nodes = .ok (extract dest entries nodes)) :
    (∃ entries, ("payload.tar", lib.payloadTar entries) ∈ m'.written ∧ Loadable lib entries ∧
      ∀ rel, rel ∈ entries.map RawEntry.path ↔
        rel ≠ [] ∧ ∃ node, m.nodes.lookup (resolve m.cwd (join dir "payload") ++ rel) = some node) ∧
    ∀ (host : Machine) (path root : String), host.node path = some (.file archive) →
      EmptyRoot host (resolve host.cwd root) →
      Ensures (installer lib) () (runVerify k path).run host (fun r _ => r = .ok ()) ∧
      Ensures (installer lib) () (runInstall k path root).run host (fun r after => r = .ok () ∧
        ∀ rel, after.nodes.lookup (resolve host.cwd root ++ [descriptor.header.id] ++ rel) =
          m.nodes.lookup (resolve m.cwd (join dir "payload") ++ rel)) ∧
      Can (installer lib) () (runVerify k path).run host (fun r _ => r = .ok ()) ∧
      Can (installer lib) () (runInstall k path root).run host (fun r _ => r = .ok ()) := by
  obtain ⟨tomlStr', descriptor', payloadTar, jpkJson, manifestJson, info, made⟩ := exec_runBuild build
  have read : tomlStr' = tomlStr := by
    have shown := made.toml
    unfold Machine.shows at shown
    rw [toml] at shown
    exact (bytesOf_inj (by simpa using shown)).symm
  subst read
  cases decoded.symm.trans made.decoded
  have stored : lib.archive m'.written = archive := by
    have same := made.stored.symm.trans built
    simpa using same
  rw [stored] at packed
  have decodes := members_asEntries packed
  obtain ⟨toml', _, payload, listing, facts⟩ := lookup_packaged _ made.written
  obtain ⟨_, packs⟩ := made.packs
  obtain ⟨entries, rfl, once, listed, mirrors⟩ := exec_buildPayloadTar tree packs
  have loadable := loadable_mirrors tree once listed mirrors
  have member : ("payload.tar", lib.payloadTar entries) ∈ m'.written := by simp [made.written, packaged]
  refine ⟨⟨entries, member, loadable, listed⟩, fun host path root there empty => ?_⟩
  have parsed := json _ _ made.manifest
  have accepted : (buildManifest k tomlStr' (lib.payloadTar entries) info).files.all
      (matched k (contentsOf m'.written)) = true := by
    simp only [buildManifest, List.all_cons, List.all_nil, matched_own toml', matched_own payload, matched_own facts,
      Bool.and_self]
  have verifies : Ensures (installer lib) () (runVerify k path).run host fun r u => r = .ok () ∧ u = host :=
    installer_verifies there decodes listing parsed (buildManifest_hashed _ _ _) accepted
  have named := validate_name made.valid
  have place : resolve host.cwd (join root descriptor.header.id) = resolve host.cwd root ++ [descriptor.header.id] :=
    (resolve_join named.2).trans (Proper.enter ⟨named.1, dot, dots⟩ _)
  have vacant := @EmptyRoot.vacant_child _ _ descriptor.header.id empty
  have installs := @installer_installs k lib host path root _ _ _ _ _ _ there decodes verifies toml' utf8 decoded
    made.valid payload (by rw [place]; exact empty.free) (by rw [place]; exact tar entries member loadable _ _ vacant)
  have verified := verifies.mono fun r u ended => ended.1
  refine ⟨verified, installs.mono fun r u ended => ⟨ended.1, fun rel => ?_⟩, verified.can installer_answers,
    (installs.mono fun r u ended => ended.1).can installer_answers⟩
  rw [ended.2]
  exact extract_mirrors tree once listed mirrors vacant rel

/-- A machine with the package and an empty root. -/
def footHost : Machine where
  cwd := []
  nodes := (((∅ : Nodes).insert [] .dir).insert ["jails"] .dir).insert ["foot.jpk"] (.file packedArchive)
  written := []

theorem packed_tree : PlainTree packedMachine ["src", "payload"] := by
  have top : packedMachine.nodes.lookup ["src", "payload"] = some .dir := by decide
  have plain : ∀ place ∈ packedMachine.nodes.keys, ["src", "payload"] <+: place →
      packedMachine.nodes.lookup place ≠ some .other ∧
        ∀ name ∈ place.drop 2, (name ≠ "" ∧ name ≠ "." ∧ name ≠ "..") ∧ '/' ∉ name.toList := by decide
  have parents : ∀ place ∈ packedMachine.nodes.keys, ["src", "payload"] <+: place → 2 < place.length →
      packedMachine.nodes.lookup place.dropLast = some .dir := by decide
  have listed {place : Place} {node : Node} (there : packedMachine.nodes.lookup place = some node) :
      place ∈ packedMachine.nodes.keys := Finmap.mem_keys.mpr (Finmap.mem_iff.mpr ⟨node, there⟩)
  refine ⟨top, fun rel node there => ?_, fun rel name node there => ?_⟩
  · obtain ⟨regular, named⟩ := plain _ (listed there) (List.prefix_append _ rel)
    exact ⟨fun other => regular (there.trans (congrArg some other)), named⟩
  · have above := parents _ (listed there) (List.prefix_append _ _) (by simp)
    rwa [← List.append_assoc, List.dropLast_concat] at above

theorem footHost_empty : EmptyRoot footHost ["jails"] := by
  have top : footHost.nodes.lookup ["jails"] = some .dir := by decide
  have base : footHost.nodes.lookup [] = some .dir := by decide
  have vacant : ∀ place ∈ footHost.nodes.keys, ["jails"] <+: place → place = ["jails"] := by decide
  refine ⟨⟨top, fun rel filled => ?_⟩, fun place above => ?_⟩
  · cases there : footHost.nodes.lookup (["jails"] ++ rel) with
    | none => rfl
    | some node =>
      have listed : ["jails"] ++ rel ∈ footHost.nodes.keys := Finmap.mem_keys.mpr (Finmap.mem_iff.mpr ⟨node, there⟩)
      have same := vacant _ listed (List.prefix_append _ _)
      exact absurd (List.append_right_eq_self.mp same) filled
  · rcases List.prefix_cons_iff.mp above with rfl | ⟨rest, rfl, inside⟩
    · exact base
    · rw [List.prefix_nil.mp inside]
      exact top

theorem packed_unpacks {written : List (String × Bytes)} (made : written = packedMembers packedJson)
    (entries : List RawEntry) (member : ("payload.tar", packedLibraries.payloadTar entries) ∈ written) (dest : Place)
    (nodes : Nodes) :
    packedLibraries.unpack (packedLibraries.payloadTar entries) dest nodes = .ok (extract dest entries nodes) := by
  have same : packedLibraries.payloadTar entries = packedPayload := by
    simpa [made, packedMembers, packaged] using member
  by_cases those : entries = packedEntries
  · rw [same, those]
    simp only [packedLibraries, if_true]
  · have empty : packedLibraries.payloadTar entries = [] := if_neg those
    have filled : packedPayload.take 2 = [98, 105] := packed_heads.2.1
    rw [← same, empty] at filled
    cases filled

theorem build_install_round_trip_foot :
    Ensures (installer packedLibraries) () (runInstall packedCodecs "foot.jpk" "jails").run footHost fun r after =>
      r = .ok () ∧ ∀ rel, after.nodes.lookup (resolve [] "jails" ++ ["org.bsdos.foot"] ++ rel) =
        packedMachine.nodes.lookup (resolve [] (join "src" "payload") ++ rel) := by
  obtain ⟨moments, r, m', exec, rfl, written, stored⟩ := packed_builds
  have archive : packedLibraries.archive m'.written = packedArchive := by
    rw [written]
    simp only [packedLibraries, if_true]
  have paths : join "src" "jpk.toml" = "src/jpk.toml" ∧ join "src" "payload" = "src/payload" := by decide
  have places : resolve [] "src/payload" = ["src", "payload"] ∧ resolve [] "jails" = ["jails"] ∧
      resolve [] "foot.jpk" = ["foot.jpk"] := by decide +kernel
  have toml : packedMachine.node (join "src" "jpk.toml") = some (.file (bytesOf footToml)) := by
    rw [paths.1]
    exact packed_lookups.1
  have decoded : packedCodecs.toml footToml = .ok footDescriptor := by simp only [packedCodecs, footCodecs, if_true]
  have utf8 : packedCodecs.utf8 (bytesOf footToml) = .ok footToml := by simp only [packedCodecs, footCodecs, if_true]
  have tree : PlainTree packedMachine (resolve packedMachine.cwd (join "src" "payload")) := by
    rw [paths.2]
    exact places.1 ▸ packed_tree
  have there : footHost.node "foot.jpk" = some (.file (packedLibraries.archive m'.written)) := by
    rw [archive, Machine.node_at places.2.2]
    exact Finmap.lookup_insert _
  have empty : EmptyRoot footHost (resolve footHost.cwd "jails") := by
    have root : resolve footHost.cwd "jails" = ["jails"] := places.2.1
    rw [root]
    exact footHost_empty
  exact ((build_install_round_trip exec toml decoded (by decide) (by decide) tree stored utf8 packed_json
    (by rw [archive, written]; exact packed_decodes.1)
    (fun entries member _ dest nodes _ => packed_unpacks written entries member dest nodes)).2 footHost "foot.jpk" "jails"
      there empty).2.1

end Bsdos.Pkgd
