import Bsdos.Effects.Ensures
import Bsdos.Pkgd.Install
import Bsdos.Files.Path

namespace Bsdos.Pkgd
open Effects Files

/-- What the file system says of a file, as far as a tar header records it. -/
structure Metadata where
  isDir : Bool
  isFile : Bool
  len : Nat
  mode : Nat
  uid : Nat
  gid : Nat
  mtime : Nat
  deriving DecidableEq, Repr

/-- One entry of a payload: its path below payload/, its header and its data. -/
structure RawEntry where
  path : Place
  metadata : Metadata
  data : Bytes
  deriving DecidableEq, Repr

/-- The encoders the tool is linked with, and the unpacking of a tar archive below a place. -/
structure Libraries (Nodes : Type) where
  setPath : Place → Except String Unit
  payloadTar : List RawEntry → Bytes
  manifestJson : ManifestJson → Except String Bytes
  descriptorJson : String → Except String Bytes
  archive : List (String × Bytes) → Bytes
  unpack : Bytes → Place → Nodes → Except String Nodes

inductive BuildOp
  | readToString (path : String)
  | isDir (path : String)
  | walkDir (path : String)
  | metadata (path : String)
  | openFile (path : String)
  | readFile (path : String)
  | now
  | create (path : String)
  | appendData (name : String) (data : Bytes)
  | intoInner
  | finish (path : String)
  | print (line : String)
  deriving DecidableEq, Repr

def BuildOp.Ret : BuildOp → Type
  | .readToString _ => Except String String
  | .isDir _ => Bool
  | .walkDir _ => List (Except String Place)
  | .metadata _ => Except String Metadata
  | .readFile _ => Except String Bytes
  | .now => String
  | .print _ => Unit
  | _ => Except String Unit

abbrev Builder : Signature := ⟨BuildOp, BuildOp.Ret⟩

abbrev Building := ExceptT Stop (Prog Builder)

def ask (op : BuildOp) : Prog Builder op.Ret := Prog.perform (E := Builder) op

/-- A result whose error is wrapped, while building. -/
def orElse {α : Type} (wrap : String → PkgdError) : Except String α → Building α
  | .ok a => return a
  | .error e => throw (.failed (wrap e))

/-- `base.join(rel)`, one name after the other. -/
def below (base : String) (rel : Place) : String := rel.foldl join base

def display (rel : Place) : String := "/".intercalate rel

section programs
variable {Nodes : Type} (k : Codecs) (lib : Libraries Nodes)

/-- The entry of one path found below the payload; what is neither a directory nor a
regular file has none. -/
def packEntry (payloadDir : String) (rel : Place) : Building (Option RawEntry) := do
  let path := below payloadDir rel
  let looked : Except String Metadata ← ask (.metadata path)
  let metadata ← orElse (fun e => .io ("metadata " ++ path ++ ": " ++ e)) looked
  orElse (fun e => .io ("tar set_path " ++ display rel ++ ": " ++ e)) (lib.setPath rel)
  if metadata.isDir then return some ⟨rel, metadata, []⟩
  else if metadata.isFile then
    let opened : Except String Unit ← ask (.openFile path)
    orElse (fun e => .io ("open " ++ path ++ ": " ++ e)) opened
    let read : Except String Bytes ← ask (.readFile path)
    let data ← orElse (fun e => .io ("tar append file: " ++ e)) read
    return some ⟨rel, metadata, data⟩
  else return none

def packEntries (payloadDir : String) : List (Except String Place) → Building (List RawEntry)
  | [] => return []
  | found :: walk => do
    let rel ← orElse (fun e => .io ("walkdir error: " ++ e)) found
    if rel.isEmpty then packEntries payloadDir walk
    else
      let packed ← packEntry lib payloadDir rel
      let entries ← packEntries payloadDir walk
      return packed.toList ++ entries

def buildPayloadTar (payloadDir : String) : Building Bytes := do
  let walk : List (Except String Place) ← ask (.walkDir payloadDir)
  let entries ← packEntries lib payloadDir walk
  return lib.payloadTar entries

def appendBytes (name : String) (data : Bytes) : Building Unit := do
  let appended : Except String Unit ← ask (.appendData name data)
  orElse (fun e => .io ("tar append '" ++ name ++ "': " ++ e)) appended

def buildInfo (descriptor : JpkDescriptor) (timestamp : String) : String :=
  "build_host=bsdos-pkgd\nfreebsd_version=unknown\nbsdos_codename=" ++ descriptor.compatibility.bsdosCodenameMin ++
    "\nbuild_timestamp=" ++ timestamp ++ "\n"

/-- The manifest of a package: the members that are hashed. -/
def buildManifest (tomlStr : String) (payloadTar : Bytes) (info : String) : ManifestJson :=
  ⟨[⟨"jpk.toml", sha256Hex k (bytesOf tomlStr)⟩, ⟨"payload.tar", sha256Hex k payloadTar⟩,
    ⟨"build-info.txt", sha256Hex k (bytesOf info)⟩]⟩

def runBuild (dir output : String) : Building Unit := do
  let tomlPath := join dir "jpk.toml"
  let read : Except String String ← ask (.readToString tomlPath)
  let tomlStr ← orElse (fun e => .io ("cannot read " ++ tomlPath ++ ": " ++ e)) read
  let descriptor ← orElse (fun e => .descriptor (.tomlParse e)) (k.toml tomlStr)
  match descriptor.validate with
  | .error e => throw (.failed (.descriptor e))
  | .ok () =>
    let payloadDir := join dir "payload"
    let found : Bool ← ask (.isDir payloadDir)
    if found then
      let payloadTar ← buildPayloadTar lib payloadDir
      let timestamp : String ← ask .now
      let info := buildInfo descriptor timestamp
      let manifestJson ← orElse .json (lib.manifestJson (buildManifest k tomlStr payloadTar info))
      let jpkJson ← orElse .json (lib.descriptorJson tomlStr)
      let created : Except String Unit ← ask (.create output)
      orElse (fun e => .io ("cannot create " ++ output ++ ": " ++ e)) created
      appendBytes "jpk.toml" (bytesOf tomlStr)
      appendBytes "jpk.json" jpkJson
      appendBytes "payload.tar" payloadTar
      appendBytes "manifest.json" manifestJson
      appendBytes "build-info.txt" (bytesOf info)
      let inner : Except String Unit ← ask .intoInner
      orElse (fun e => .io ("tar finish error: " ++ e)) inner
      let finished : Except String Unit ← ask (.finish output)
      orElse (fun e => .io ("gzip finish error: " ++ e)) finished
      ask (.print ("Built " ++ descriptor.header.id ++ " v" ++ descriptor.header.version ++ " -> " ++ output))
    else throw (.failed (.io ("payload directory not found: " ++ payloadDir)))

end programs

/-- What is at a place of the file system; a link, a device or a socket is of no kind that
the tool handles by itself. -/
inductive Node
  | file (bytes : Bytes)
  | dir
  | other
  deriving DecidableEq, Repr

abbrev Nodes := Finmap fun _ : Place => Node

/-- What an entry of an archive becomes when it is unpacked. -/
def RawEntry.node (entry : RawEntry) : Node := if entry.metadata.isDir then .dir else .file entry.data

/-- The entries of an archive, unpacked below a place one after the other. -/
def extract (dest : Place) (entries : List RawEntry) (nodes : Nodes) : Nodes :=
  entries.foldl (fun unpacked entry => unpacked.insert (dest ++ entry.path) entry.node) nodes

/-- The file system, the working directory, and the members written to the archive at work. -/
structure Machine where
  cwd : Place
  nodes : Nodes
  written : List (String × Bytes)

def Machine.node (m : Machine) (path : String) : Option Node := m.nodes.lookup (resolve m.cwd path)

theorem Machine.node_at {m : Machine} {path : String} {place : Place} (resolved : resolve m.cwd path = place) :
    m.node path = m.nodes.lookup place := by
  subst resolved
  rfl

/-- What a node lets be said of it; nothing is known of a node of another kind. -/
def Machine.shows (m : Machine) (path : String) (tells : Node → Bool) : Bool :=
  match m.node path with
  | some .other => true
  | some node => tells node
  | none => false

theorem Machine.shows_of {m : Machine} {path : String} {node : Node} {tells : Node → Bool}
    (there : m.node path = some node) (told : tells node = true) : m.shows path tells = true := by
  unfold Machine.shows
  rw [there]
  cases node <;> first | exact told | rfl

/-- This is the metadata of the node. -/
def Node.describes (metadata : Metadata) : Node → Bool
  | .file bytes => !metadata.isDir && metadata.isFile && metadata.len = bytes.length
  | .dir => metadata.isDir
  | .other => true

/-- These are the places at and below `base`, in the order of their names. -/
def Machine.walks (m : Machine) (base : Place) (rels : List Place) : Bool :=
  decide (rels.Pairwise (· < ·)) && rels.all (fun rel => decide (base ++ rel ∈ m.nodes)) &&
    decide (∀ place ∈ m.nodes.keys, base <+: place → place.drop base.length ∈ rels)

/-- Anything can fail; what does not fail answers what is there. -/
def Machine.may (m : Machine) : (op : BuildOp) → op.Ret → Bool
  | .readToString path, .ok text => m.shows path (· = .file (bytesOf text))
  | .isDir path, true => m.shows path (· = .dir)
  | .walkDir path, walk => walk.any (fun found => !found.isOk) ||
      m.shows path fun _ => m.walks (resolve m.cwd path) (walk.filterMap Except.toOption)
  | .metadata path, .ok metadata => m.shows path (Node.describes metadata)
  | .openFile path, .ok () => m.shows path (· ≠ .dir)
  | .readFile path, .ok data => m.shows path (· = .file data)
  | .create path, .ok () => m.node path ≠ some .dir
  | _, _ => true

def Machine.after (archive : List (String × Bytes) → Bytes) (m : Machine) : (op : BuildOp) → op.Ret → Machine
  | .create path, .ok () => { m with nodes := m.nodes.insert (resolve m.cwd path) (.file []), written := [] }
  | .appendData name data, .ok () => { m with written := m.written ++ [(name, data)] }
  | .finish path, .ok () => { m with nodes := m.nodes.insert (resolve m.cwd path) (.file (archive m.written)) }
  | _, _ => m

/-- The build, alone with a file system in which nothing else changes. -/
def builder (lib : Libraries Nodes) : System Builder Unit Machine where
  Request := Empty
  Env := Empty
  may := fun _ => Machine.may
  effect := fun _ => Machine.after lib.archive
  serve := fun _ request => nomatch request
  droppable := fun _ _ => false
  surroundings := fun _ change => nomatch change

variable {k : Codecs} {lib : Libraries Nodes} {m m' : Machine} {dir output : String}
  {moments : List (Moment Builder Machine)}

/-- The calls that leave the file system and the archive as they are. -/
def BuildOp.Looks : BuildOp → Prop
  | .create _ | .appendData _ _ | .finish _ => False
  | _ => True

theorem exec_looks {α : Type} {p : Prog Builder α} {value : α} (exec : Exec (builder lib) () p m moments value m')
    (only : p.Only BuildOp.Looks) : m = m' := by
  refine exec.preserve (I := (m = ·)) only (fun u op r looks _ same => ?_) rfl
  rw [same]
  cases op <;> first | rfl | exact looks.elim

theorem exec_orElse {α : Type} {wrap : String → PkgdError} {r : Except String α} {value : α}
    (exec : Exec (builder lib) () (orElse wrap r).run m moments (.ok value) m') : r = .ok value ∧ m = m' := by
  cases r with
  | ok a =>
    obtain ⟨_, same, rfl⟩ := exec
    cases same
    exact ⟨rfl, rfl⟩
  | error e => cases exec.2.1

theorem orElse_only {α : Type} {wrap : String → PkgdError} (r : Except String α) :
    (orElse wrap r).run.Only BuildOp.Looks := by
  cases r <;> trivial

theorem packEntry_only (payloadDir : String) (rel : Place) : (packEntry lib payloadDir rel).run.Only BuildOp.Looks := by
  refine Prog.Only.tryBind ⟨trivial, fun _ => trivial⟩ fun looked => ?_
  refine Prog.Only.tryBind (orElse_only looked) fun metadata => ?_
  refine Prog.Only.tryBind (orElse_only _) fun _ => ?_
  cases metadata.isDir with
  | true => trivial
  | false =>
    cases metadata.isFile with
    | false => trivial
    | true =>
      refine Prog.Only.tryBind ⟨trivial, fun _ => trivial⟩ fun opened => ?_
      refine Prog.Only.tryBind (orElse_only opened) fun _ => ?_
      refine Prog.Only.tryBind ⟨trivial, fun _ => trivial⟩ fun read => ?_
      exact Prog.Only.tryBind (orElse_only read) fun _ => trivial

theorem packEntries_only (payloadDir : String) (walk : List (Except String Place)) :
    (packEntries lib payloadDir walk).run.Only BuildOp.Looks := by
  induction walk with
  | nil => trivial
  | cons found walk ih =>
    refine Prog.Only.tryBind (orElse_only found) fun rel => ?_
    cases rel.isEmpty with
    | true => exact ih
    | false =>
      refine Prog.Only.tryBind (packEntry_only payloadDir rel) fun packed => ?_
      exact Prog.Only.tryBind ih fun _ => trivial

theorem buildPayloadTar_only (payloadDir : String) : (buildPayloadTar lib payloadDir).run.Only BuildOp.Looks := by
  refine Prog.Only.tryBind ⟨trivial, fun _ => trivial⟩ fun walk => ?_
  exact Prog.Only.tryBind (packEntries_only payloadDir walk) fun _ => trivial

theorem exec_ask {op : BuildOp} {value : op.Ret}
    (exec : Exec (builder lib) () (liftM (ask op) : Building op.Ret).run m moments (.ok value) m') :
    m.may op value = true ∧ m' = m.after lib.archive op value := by
  obtain ⟨r, rest, may, _, _, same, rfl⟩ := exec
  cases same
  exact ⟨may, rfl⟩

theorem exec_asked {op : BuildOp} {value : op.Ret}
    (exec : Exec (builder lib) () (liftM (ask op) : Building op.Ret).run m moments (.ok value) m') (looks : op.Looks) :
    m.may op value = true ∧ m = m' :=
  ⟨(exec_ask exec).1, exec_looks exec ⟨looks, fun _ => trivial⟩⟩

theorem exec_appendBytes {name : String} {data : Bytes}
    (exec : Exec (builder lib) () (appendBytes name data).run m moments (.ok ()) m') :
    m' = { m with written := m.written ++ [(name, data)] } := by
  obtain ⟨_, appended, u, _, front, checked, _⟩ := exec_tryBind_ok exec
  obtain ⟨rfl, rfl⟩ := exec_orElse checked
  exact (exec_ask front).2

/-- The members of a package, in the order they are written. -/
def packaged (tomlStr : String) (jpkJson payloadTar manifestJson : Bytes) (info : String) : List (String × Bytes) :=
  [("jpk.toml", bytesOf tomlStr), ("jpk.json", jpkJson), ("payload.tar", payloadTar),
    ("manifest.json", manifestJson), ("build-info.txt", bytesOf info)]

/-- What a build that went through has read, computed and written. -/
structure Built (k : Codecs) (lib : Libraries Nodes) (m : Machine) (dir output : String) (m' : Machine)
    (tomlStr : String) (descriptor : JpkDescriptor) (payloadTar jpkJson manifestJson : Bytes) (info : String) :
    Prop where
  toml : m.shows (join dir "jpk.toml") (· = .file (bytesOf tomlStr))
  decoded : k.toml tomlStr = .ok descriptor
  valid : descriptor.validate = .ok ()
  payload : m.shows (join dir "payload") (· = .dir)
  packs : ∃ moments, Exec (builder lib) () (buildPayloadTar lib (join dir "payload")).run m moments (.ok payloadTar) m
  manifest : lib.manifestJson (buildManifest k tomlStr payloadTar info) = .ok manifestJson
  written : m'.written = packaged tomlStr jpkJson payloadTar manifestJson info
  stored : m'.node output = some (.file (lib.archive m'.written))

/-- A build that goes through. -/
theorem exec_runBuild (exec : Exec (builder lib) () (runBuild k lib dir output).run m moments (.ok ()) m') :
    ∃ tomlStr descriptor payloadTar jpkJson manifestJson info,
      Built k lib m dir output m' tomlStr descriptor payloadTar jpkJson manifestJson info := by
  obtain ⟨_, read, u, _, front, exec, _⟩ := exec_tryBind_ok exec
  obtain ⟨there, rfl⟩ := exec_asked front trivial
  obtain ⟨_, tomlStr, u, _, front, exec, _⟩ := exec_tryBind_ok exec
  obtain ⟨rfl, rfl⟩ := exec_orElse front
  obtain ⟨_, descriptor, u, _, front, exec, _⟩ := exec_tryBind_ok exec
  obtain ⟨decoded, rfl⟩ := exec_orElse front
  cases valid : descriptor.validate with
  | error e =>
    rw [valid] at exec
    cases exec.2.1
  | ok u =>
    rw [valid] at exec
    obtain ⟨_, found, u, _, front, exec, _⟩ := exec_tryBind_ok exec
    obtain ⟨payload, rfl⟩ := exec_asked front trivial
    cases found with
    | false => cases exec.2.1
    | true =>
      obtain ⟨_, payloadTar, u, _, packs, exec, _⟩ := exec_tryBind_ok exec
      obtain rfl := exec_looks packs (buildPayloadTar_only _)
      obtain ⟨_, timestamp, u, _, front, exec, _⟩ := exec_tryBind_ok exec
      obtain ⟨_, rfl⟩ := exec_asked front trivial
      obtain ⟨_, manifestJson, u, _, front, exec, _⟩ := exec_tryBind_ok exec
      obtain ⟨manifest, rfl⟩ := exec_orElse front
      obtain ⟨_, jpkJson, u, _, front, exec, _⟩ := exec_tryBind_ok exec
      obtain ⟨_, rfl⟩ := exec_orElse front
      obtain ⟨_, created, u₀, _, front, exec, _⟩ := exec_tryBind_ok exec
      have create := (exec_ask front).2
      obtain ⟨_, _, u, _, front, exec, _⟩ := exec_tryBind_ok exec
      obtain ⟨rfl, rfl⟩ := exec_orElse front
      obtain ⟨_, _, u₁, _, toml, exec, _⟩ := exec_tryBind_ok exec
      obtain ⟨_, _, u₂, _, json, exec, _⟩ := exec_tryBind_ok exec
      obtain ⟨_, _, u₃, _, tar, exec, _⟩ := exec_tryBind_ok exec
      obtain ⟨_, _, u₄, _, listing, exec, _⟩ := exec_tryBind_ok exec
      obtain ⟨_, _, u₅, _, info, exec, _⟩ := exec_tryBind_ok exec
      obtain ⟨_, inner, u, _, front, exec, _⟩ := exec_tryBind_ok exec
      obtain ⟨_, rfl⟩ := exec_asked front trivial
      obtain ⟨_, _, u, _, front, exec, _⟩ := exec_tryBind_ok exec
      obtain ⟨_, rfl⟩ := exec_orElse front
      obtain ⟨_, finished, u₆, _, front, exec, _⟩ := exec_tryBind_ok exec
      have finish := (exec_ask front).2
      obtain ⟨_, _, u, _, front, exec, _⟩ := exec_tryBind_ok exec
      obtain ⟨rfl, rfl⟩ := exec_orElse front
      obtain ⟨_, rfl⟩ := exec_asked exec trivial
      rw [exec_appendBytes info, exec_appendBytes listing, exec_appendBytes tar, exec_appendBytes json,
        exec_appendBytes toml, create] at finish
      exact ⟨tomlStr, descriptor, payloadTar, jpkJson, manifestJson, _, there, decoded, valid, payload, ⟨_, packs⟩,
        manifest, finish ▸ rfl, finish ▸ Finmap.lookup_insert _⟩

theorem can_orElse {α : Type} {wrap : String → PkgdError} {result : Except String α} {value : α}
    (found : result = .ok value) : Can (builder lib) () (orElse wrap result).run m fun r u => r = .ok value ∧ u = m := by
  subst found
  exact .ret ⟨rfl, rfl⟩

theorem can_ask (op : BuildOp) (value : op.Ret) (may : m.may op value = true) :
    Can (builder lib) () (liftM (ask op) : Building op.Ret).run m fun r u =>
      r = .ok value ∧ u = m.after lib.archive op value :=
  .call value may (.ret ⟨rfl, rfl⟩)

theorem can_appendBytes (name : String) (data : Bytes) :
    Can (builder lib) () (appendBytes name data).run m fun r u =>
      r = .ok () ∧ u = { m with written := m.written ++ [(name, data)] } :=
  .through (can_ask (.appendData name data) (Except.ok ()) rfl) (can_orElse rfl)

/-- A build goes through where nothing fails. -/
theorem can_runBuild {tomlStr timestamp : String} {descriptor : JpkDescriptor} {payloadTar jpkJson manifestJson : Bytes}
    (toml : m.shows (join dir "jpk.toml") (· = .file (bytesOf tomlStr))) (decoded : k.toml tomlStr = .ok descriptor)
    (valid : descriptor.validate = .ok ()) (payload : m.shows (join dir "payload") (· = .dir))
    (packs : Can (builder lib) () (buildPayloadTar lib (join dir "payload")).run m fun r u => r = .ok payloadTar ∧ u = m)
    (manifest : lib.manifestJson (buildManifest k tomlStr payloadTar (buildInfo descriptor timestamp)) = .ok manifestJson)
    (json : lib.descriptorJson tomlStr = .ok jpkJson) (free : m.node output ≠ some .dir) :
    Can (builder lib) () (runBuild k lib dir output).run m fun r u => r = .ok () ∧
      u.written = packaged tomlStr jpkJson payloadTar manifestJson (buildInfo descriptor timestamp) ∧
      u.node output = some (.file (lib.archive u.written)) := by
  refine Can.through (can_ask (.readToString _) (Except.ok tomlStr) toml) ((can_orElse rfl).through ?_)
  refine (can_orElse decoded).through ?_
  rw [valid]
  refine Can.through (can_ask (.isDir _) true payload) ?_
  refine packs.through ?_
  refine Can.through (can_ask .now timestamp rfl) ?_
  refine (can_orElse manifest).through ((can_orElse json).through ?_)
  refine Can.through (can_ask (.create output) (Except.ok ()) (decide_eq_true free)) ((can_orElse rfl).through ?_)
  refine (can_appendBytes _ _).through ((can_appendBytes _ _).through ((can_appendBytes _ _).through ?_))
  refine (can_appendBytes _ _).through ((can_appendBytes _ _).through ?_)
  refine Can.through (can_ask .intoInner (Except.ok ()) rfl) ((can_orElse rfl).through ?_)
  refine Can.through (can_ask (.finish output) (Except.ok ()) rfl) ((can_orElse rfl).through ?_)
  exact .call () rfl (.ret ⟨rfl, rfl, Finmap.lookup_insert _⟩)

end Bsdos.Pkgd
