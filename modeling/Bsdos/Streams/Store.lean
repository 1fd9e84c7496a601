import Bsdos.Effects.Ensures
import Bsdos.Maps.Keyed
import Bsdos.Streams.System
import Bsdos.Octets.Endian
import Mathlib.Data.Nat.Digits.Defs
import Mathlib.Logic.Encodable.Basic
import Mathlib.Logic.Equiv.List

namespace Bsdos.Streams.Store
open Effects

abbrev Bytes := List UInt8

/-- Why a write stopped, and what it had written by then. -/
structure Torn where
  message : String
  written : Bytes
  deriving DecidableEq

inductive FileOp
  | pathExists (path : String)
  | openFile (path : String)
  | readToEnd (path : String)
  | createDirAll (path : String)
  | create (path : String)
  | write (path : String) (bytes : Bytes)
  | syncAll (path : String)
  | rename (source target : String)
  deriving DecidableEq

def FileOp.Ret : FileOp → Type
  | .pathExists _ => Bool
  | .readToEnd _ => Except String Bytes
  | .write _ _ => Except Torn Unit
  | _ => Except String Unit

abbrev FileSystem : Signature := ⟨FileOp, FileOp.Ret⟩

/-- Work on files that can end early with a stream error. -/
abbrev Storing := ExceptT StreamError (Prog FileSystem)

def ask (op : FileOp) : Prog FileSystem op.Ret := Prog.perform (E := FileSystem) op

/-- A result whose error is turned into a registry error. -/
def orElse {ε α : Type} (wrap : ε → String) : Except ε α → Except StreamError α := Except.mapError fun e => .registry (wrap e)

inductive Status
  | running
  | stopped
  | failed
  deriving DecidableEq

structure StreamState where
  config : StreamConfig
  status : Status
  startedAt : Int
  restartCount : UInt32
  deriving DecidableEq

structure StreamRegistry where
  version : UInt32
  streams : List StreamState
  deriving DecidableEq

/-- What can be read of a message; each access can fail. -/
structure TextReader where
  toStr : Except String String

structure ConfigReader where
  appId : Except String TextReader
  app : Except String TextReader
  url : Except String TextReader
  user : Except String TextReader
  width : UInt32
  height : UInt32

structure StateReader where
  config : Except String ConfigReader

structure RegistryReader where
  streams : Except String (List StateReader)

/-- The serialization library. -/
structure Capnp (Message : Type) where
  writeMessage : StreamRegistry → Bytes
  readMessage : Bytes → Except String Message
  getRoot : Message → Except String RegistryReader

def registryPath : String := "/var/db/bsdos/streams.capnp"

def registryDir : String := "/var/db/bsdos"

def registryVersion : UInt32 := 1

def registryTmp : String := registryPath ++ ".tmp"

section programs
variable {Message : Type} (k : Capnp Message)

def readText (field : String) (i : Nat) (text : Except String TextReader) : Except StreamError String := do
  let reader ← orElse (fun e => field ++ "[" ++ toString i ++ "]: " ++ e) text
  orElse (fun e => field ++ "[" ++ toString i ++ "] utf8: " ++ e) reader.toStr

def readConfig (i : Nat) (state : StateReader) : Except StreamError StreamConfig := do
  let c ← orElse (fun e => "config[" ++ toString i ++ "]: " ++ e) state.config
  let appId ← readText "app_id" i c.appId
  let app ← readText "app" i c.app
  let url ← readText "url" i c.url
  let user ← readText "user" i c.user
  return ⟨appId, app, url, user, c.width, c.height⟩

/-- The configurations from the one numbered `i` on. -/
def readConfigs (i : Nat) : List StateReader → Except StreamError (List StreamConfig)
  | [] => return []
  | state :: states => do
    let c ← readConfig i state
    let out ← readConfigs (i + 1) states
    return c :: out

def parseRegistry (buf : Bytes) : Except StreamError (List StreamConfig) := do
  let msg ← orElse (fun e => "parse registry: " ++ e) (k.readMessage buf)
  let reg ← orElse (fun e => "registry root: " ++ e) (k.getRoot msg)
  let streams ← orElse (fun e => "registry streams: " ++ e) reg.streams
  readConfigs 0 streams

def loadRegistryVec : Storing (List StreamConfig) := do
  let found : Bool ← ask (.pathExists registryPath)
  if found then
    let opened : Except String Unit ← ask (.openFile registryPath)
    orElse (fun e => "open registry: " ++ e) opened
    let read : Except String Bytes ← ask (.readToEnd registryPath)
    let buf ← orElse (fun e => "read registry: " ++ e) read
    parseRegistry k buf
  else return []

/-- A stream as it is stored: no status and no counter is remembered. -/
def stored (cfg : StreamConfig) : StreamState := ⟨cfg, .running, 0, 0⟩

def saveRegistryVec (configs : List StreamConfig) : Storing Unit := do
  let made : Except String Unit ← ask (.createDirAll registryDir)
  orElse (fun e => "mkdir registry dir: " ++ e) made
  let created : Except String Unit ← ask (.create registryTmp)
  orElse (fun e => "create tmp: " ++ e) created
  let written : Except Torn Unit ← ask (.write registryTmp (k.writeMessage ⟨registryVersion, configs.map stored⟩))
  orElse (fun e => "write registry: " ++ e.message) written
  let synced : Except String Unit ← ask (.syncAll registryTmp)
  orElse (fun e => "fsync: " ++ e) synced
  let renamed : Except String Unit ← ask (.rename registryTmp registryPath)
  orElse (fun e => "rename: " ++ e) renamed

def addToRegistry (cfg : StreamConfig) : Storing Unit := do
  let configs ← loadRegistryVec k
  saveRegistryVec k (upserted cfg configs)

def removeFromRegistry (appId : String) : Storing Unit := do
  let configs ← loadRegistryVec k
  if (removed appId configs).length = configs.length then
    throw (.notFound ("stream " ++ appId ++ " not in registry"))
  saveRegistryVec k (removed appId configs)

def listRegistry : Storing (List StreamConfig) := loadRegistryVec k

end programs

/-- The files there are, and what is in them. -/
abbrev Disk := Finmap fun _ : String => Bytes

/-- Any operation can fail, but for the look whether a file is there. -/
def may (d : Disk) : (op : FileOp) → op.Ret → Bool
  | .pathExists path, true => path ∈ d
  | .pathExists path, false => path ∉ d
  | .openFile path, .ok () => path ∈ d
  | .readToEnd path, .ok bytes => d.lookup path = some bytes
  | .write _ bytes, .error torn => torn.written <+: bytes
  | .rename source _, .ok () => source ∈ d
  | _, _ => true

/-- A file is replaced at once by renaming another; a write that fails leaves a part of
what it had to write. -/
def after (d : Disk) : (op : FileOp) → op.Ret → Disk
  | .create path, .ok () => d.insert path []
  | .write path bytes, .ok () => d.insert path ((d.lookup path).getD [] ++ bytes)
  | .write path _, .error torn => d.insert path ((d.lookup path).getD [] ++ torn.written)
  | .rename source target, .ok () => (d.erase source).insert target ((d.lookup source).getD [])
  | _, _ => d

/-- The registry, alone with its files. -/
def store : System FileSystem Unit Disk where
  Request := Empty
  Env := Empty
  may := fun _ => may
  effect := fun _ => after
  serve := fun _ request => nomatch request
  droppable := fun _ _ => false
  surroundings := fun _ change => nomatch change

/-- What a registry lets be read of it. -/
def StreamRegistry.reader (registry : StreamRegistry) : RegistryReader where
  streams := .ok (registry.streams.map fun state =>
    ⟨.ok ⟨.ok ⟨.ok state.config.appId⟩, .ok ⟨.ok state.config.app⟩, .ok ⟨.ok state.config.url⟩,
      .ok ⟨.ok state.config.user⟩, state.config.width, state.config.height⟩⟩)

/-- What was written is read back. -/
def RoundTrips {Message : Type} (k : Capnp Message) : Prop :=
  ∀ registry, (k.readMessage (k.writeMessage registry)).bind k.getRoot = .ok registry.reader

variable {Message : Type} {k : Capnp Message} {d d' : Disk} {configs : List StreamConfig} {cfg : StreamConfig}
  {appId : String} {moments : List (Moment FileSystem Disk)}

/-- The bytes of a registry file. -/
def fileOf (k : Capnp Message) (configs : List StreamConfig) : Bytes := k.writeMessage ⟨registryVersion, configs.map stored⟩

/-- These are the streams in the registry; where there is no file there are none. -/
def Stored (k : Capnp Message) (d : Disk) (configs : List StreamConfig) : Prop :=
  d.lookup registryPath = none ∧ configs = [] ∨ d.lookup registryPath = some (fileOf k configs)

theorem readConfigs_reader (i : Nat) (configs : List StreamConfig) :
    readConfigs i ((configs.map stored).map fun state =>
      ⟨.ok ⟨.ok ⟨.ok state.config.appId⟩, .ok ⟨.ok state.config.app⟩, .ok ⟨.ok state.config.url⟩,
        .ok ⟨.ok state.config.user⟩, state.config.width, state.config.height⟩⟩) = .ok configs := by
  induction configs generalizing i with
  | nil => rfl
  | cons c configs ih =>
    rw [List.map_cons, List.map_cons, readConfigs, ih]
    rfl

theorem parse_fileOf (round : RoundTrips k) (configs : List StreamConfig) : parseRegistry k (fileOf k configs) = .ok configs := by
  have back := round ⟨registryVersion, configs.map stored⟩
  unfold parseRegistry fileOf
  cases parsed : k.readMessage (k.writeMessage ⟨registryVersion, configs.map stored⟩) with
  | error e =>
    rw [parsed] at back
    cases back
  | ok msg =>
    rw [parsed] at back
    have root : k.getRoot msg = .ok (StreamRegistry.reader ⟨registryVersion, configs.map stored⟩) := back
    show ((orElse (fun e => "registry root: " ++ e) (k.getRoot msg)).bind fun reg =>
      (orElse (fun e => "registry streams: " ++ e) reg.streams).bind fun streams => readConfigs 0 streams) = .ok configs
    rw [root]
    exact readConfigs_reader 0 configs

/-- The reads of a file that were asked for went through. -/
def wentThrough : (op : FileOp) → op.Ret → Bool
  | .openFile _, .error _ | .readToEnd _, .error _ => false
  | _, _ => true

/-- A registry that can be read is read; what fails is the opening or the reading. -/
theorem exec_loadRegistryVec {r : Except StreamError (List StreamConfig)} (round : RoundTrips k) (held : Stored k d configs)
    (exec : Exec store () (loadRegistryVec k).run d moments r d') :
    d' = d ∧ (r = .ok configs ∨ (∃ e, r = .error (.registry e)) ∧ ∃ m ∈ moments, wentThrough m.op m.result = false) := by
  obtain ⟨found, _, there, rfl, exec⟩ := exec
  cases found with
  | false =>
    have missing : registryPath ∉ d := of_decide_eq_true there
    obtain ⟨_, rfl, rfl⟩ := exec
    rcases held with ⟨_, rfl⟩ | filled
    · exact ⟨rfl, Or.inl rfl⟩
    · exact absurd (Finmap.mem_iff.mpr ⟨_, filled⟩) missing
  | true =>
    have present : registryPath ∈ d := of_decide_eq_true there
    have filled : d.lookup registryPath = some (fileOf k configs) := by
      rcases held with ⟨missing, _⟩ | filled
      · exact absurd present (Finmap.lookup_eq_none.mp missing)
      · exact filled
    obtain ⟨opened, _, _, rfl, exec⟩ := exec
    cases opened with
    | error e =>
      obtain ⟨rfl, rfl, rfl⟩ := exec
      exact ⟨rfl, Or.inr ⟨⟨_, rfl⟩, _, List.mem_cons_of_mem _ (List.mem_cons_self ..), rfl⟩⟩
    | ok _ =>
      obtain ⟨read, _, same, rfl, exec⟩ := exec
      cases read with
      | error e =>
        obtain ⟨rfl, rfl, rfl⟩ := exec
        exact ⟨rfl, Or.inr ⟨⟨_, rfl⟩, _, List.mem_cons_of_mem _ (List.mem_cons_of_mem _ (List.mem_cons_self ..)), rfl⟩⟩
      | ok buf =>
        have bytes : d.lookup registryPath = some buf := of_decide_eq_true same
        cases bytes.symm.trans filled
        obtain ⟨_, rfl, rfl⟩ := exec
        exact ⟨rfl, Or.inl (parse_fileOf round configs)⟩

/-- A save replaces the registry, or leaves it as it was. -/
theorem ensures_saveRegistryVec : Ensures store () (saveRegistryVec k configs).run d fun r u =>
    r = .ok () ∧ u.lookup registryPath = some (fileOf k configs) ∨
      (∃ e, r = .error (.registry e)) ∧ u.lookup registryPath = d.lookup registryPath := by
  have other : registryPath ≠ registryTmp := by decide
  refine .call fun (made : Except String Unit) _ => ?_
  cases made with
  | error e => exact .ret (Or.inr ⟨⟨_, rfl⟩, rfl⟩)
  | ok _ =>
  refine .call fun (created : Except String Unit) _ => ?_
  cases created with
  | error e => exact .ret (Or.inr ⟨⟨_, rfl⟩, rfl⟩)
  | ok _ =>
  refine .call fun (written : Except Torn Unit) _ => ?_
  cases written with
  | error torn =>
    refine .ret (Or.inr ⟨⟨_, rfl⟩, ?_⟩)
    exact (Finmap.lookup_insert_of_ne _ other).trans (Finmap.lookup_insert_of_ne _ other)
  | ok _ =>
  have begun : (d.insert registryTmp []).lookup registryPath = d.lookup registryPath := Finmap.lookup_insert_of_ne _ other
  refine .call fun (synced : Except String Unit) _ => ?_
  cases synced with
  | error e => exact .ret (Or.inr ⟨⟨_, rfl⟩, (Finmap.lookup_insert_of_ne _ other).trans begun⟩)
  | ok _ =>
  refine .call fun (renamed : Except String Unit) _ => ?_
  cases renamed with
  | error e => exact .ret (Or.inr ⟨⟨_, rfl⟩, (Finmap.lookup_insert_of_ne _ other).trans begun⟩)
  | ok _ =>
    refine .ret (Or.inl ⟨rfl, (Finmap.lookup_insert _).trans ?_⟩)
    have content : ((d.insert registryTmp []).insert registryTmp
        (((d.insert registryTmp []).lookup registryTmp).getD [] ++ fileOf k configs)).lookup registryTmp =
          some (fileOf k configs) := by
      rw [Finmap.lookup_insert, Finmap.lookup_insert]
      rfl
    exact congrArg some (congrArg (Option.getD · []) content)

theorem can_loadRegistryVec (round : RoundTrips k) (held : Stored k d configs) :
    Can store () (loadRegistryVec k).run d fun r u => r = .ok configs ∧ u = d := by
  rcases held with ⟨missing, rfl⟩ | filled
  · exact .call false (decide_eq_true (Finmap.lookup_eq_none.mp missing)) (.ret ⟨rfl, rfl⟩)
  · have present : registryPath ∈ d := Finmap.mem_iff.mpr ⟨_, filled⟩
    refine .call true (decide_eq_true present) (.call (Except.ok ()) (decide_eq_true present) ?_)
    refine .call (Except.ok (fileOf k configs)) (decide_eq_true filled) (.ret ⟨?_, rfl⟩)
    exact parse_fileOf round configs

theorem can_saveRegistryVec : Can store () (saveRegistryVec k configs).run d fun r u => r = .ok () ∧ Stored k u configs := by
  have can : Can store () (saveRegistryVec k configs).run d fun r _ => r = .ok () := by
    refine .call (Except.ok ()) rfl (.call (Except.ok ()) rfl (.call (Except.ok ()) rfl (.call (Except.ok ()) rfl ?_)))
    exact .call (Except.ok ()) (decide_eq_true (Finmap.mem_insert.mpr (Or.inl rfl))) (.ret rfl)
  obtain ⟨moments, r, u, exec, rfl⟩ := can
  rcases ensures_saveRegistryVec _ _ _ exec with ⟨done, filled⟩ | ⟨⟨e, wrong⟩, _⟩
  · exact ⟨moments, _, u, exec, done, Or.inr filled⟩
  · cases wrong

/-- The changes that can be made to the registry. -/
inductive Edit
  | add (cfg : StreamConfig)
  | remove (appId : String)
  deriving DecidableEq

def Edit.run (k : Capnp Message) : Edit → Storing Unit
  | .add cfg => addToRegistry k cfg
  | .remove appId => removeFromRegistry k appId

/-- Changes made one after the other, and what each returned. -/
def edits (k : Capnp Message) : List Edit → Prog FileSystem (List (Except StreamError Unit))
  | [] => return []
  | edit :: rest => do
    let r ← (edit.run k).run
    let rs ← edits k rest
    return r :: rs

/-- The map that a registry is. -/
abbrev Catalogue := Finmap fun _ : String => StreamConfig

def Edit.applied : Edit → Catalogue → Catalogue
  | .add cfg, m => m.insert cfg.appId cfg
  | .remove appId, m => m.erase appId

/-- The map after a change that returned `r`. -/
def Edit.settled (edit : Edit) (r : Except StreamError Unit) (m : Catalogue) : Catalogue := if r.isOk then edit.applied m else m

/-- The map after changes, those that failed having done nothing. -/
def settled : List (Edit × Except StreamError Unit) → Catalogue → Catalogue
  | [], m => m
  | done :: rest, m => settled rest (done.1.settled done.2 m)

/-- The registry file holds what the map has. -/
def Keeps (k : Capnp Message) (d : Disk) (m : Catalogue) : Prop :=
  ∃ configs, Stored k d configs ∧ Maps.Represents StreamConfig.appId configs m

variable {m : Catalogue} {edit : Edit}

theorem Keeps.same (keeps : Keeps k d m) (same : d'.lookup registryPath = d.lookup registryPath) : Keeps k d' m := by
  obtain ⟨configs, held, represents⟩ := keeps
  exact ⟨configs, by rwa [Stored, same], represents⟩

theorem Keeps.missing (missing : d.lookup registryPath = none) : Keeps k d ∅ := ⟨[], Or.inl ⟨missing, rfl⟩, .empty⟩

/-- What follows a load is done with the streams that are stored. -/
theorem exec_loaded {f : List StreamConfig → Storing Unit} {r : Except StreamError Unit} (round : RoundTrips k)
    (held : Stored k d configs) (exec : Exec store () (loadRegistryVec k >>= f).run d moments r d') :
    (∃ later, Exec store () (f configs).run d later r d') ∨ (∃ e, r = .error e) ∧ d' = d := by
  rcases exec_tryBind.mp exec with ⟨early, configs', u, late, front, back, _⟩ | ⟨e, front, rfl⟩
  · obtain ⟨rfl, same | ⟨⟨_, wrong⟩, _⟩⟩ := exec_loadRegistryVec round held front
    · cases same
      exact Or.inl ⟨late, back⟩
    · cases wrong
  · obtain ⟨rfl, _⟩ := exec_loadRegistryVec round held front
    exact Or.inr ⟨⟨e, rfl⟩, rfl⟩

/-- A change that returns is done, one that fails leaves the registry as it was, and what
is not there is not removed. -/
theorem exec_edit {r : Except StreamError Unit} (round : RoundTrips k) (keeps : Keeps k d m)
    (exec : Exec store () (edit.run k).run d moments r d') :
    Keeps k d' (edit.settled r m) ∧ (∀ e, r = .error e → d'.lookup registryPath = d.lookup registryPath) ∧
      ∀ appId, edit = .remove appId → appId ∉ m → ∃ e, r = .error e := by
  obtain ⟨configs, held, represents⟩ := keeps
  have failed {e : StreamError} (same : d'.lookup registryPath = d.lookup registryPath) :
      Keeps k d' (edit.settled (.error e) m) ∧
        (∀ e', (Except.error e : Except StreamError Unit) = .error e' → d'.lookup registryPath = d.lookup registryPath) ∧
        ∀ appId, edit = .remove appId → appId ∉ m → ∃ e', (Except.error e : Except StreamError Unit) = .error e' :=
    ⟨Keeps.same ⟨configs, held, represents⟩ same, fun _ _ => same, fun _ _ _ => ⟨e, rfl⟩⟩
  cases edit with
  | add cfg =>
    obtain ⟨later, exec⟩ | ⟨⟨e, rfl⟩, rfl⟩ := exec_loaded round held exec
    · rcases ensures_saveRegistryVec _ _ _ exec with ⟨rfl, filled⟩ | ⟨⟨e, rfl⟩, same⟩
      · exact ⟨⟨_, Or.inr filled, represents.upsert cfg⟩, nofun, nofun⟩
      · exact failed same
    · exact failed rfl
  | remove appId =>
    obtain ⟨later, exec⟩ | ⟨⟨e, rfl⟩, rfl⟩ := exec_loaded round held exec
    · by_cases absent : (removed appId configs).length = configs.length
      · rw [if_pos absent] at exec
        obtain ⟨_, rfl, rfl⟩ := exec
        exact failed rfl
      · rw [if_neg absent] at exec
        rcases ensures_saveRegistryVec _ _ _ exec with ⟨rfl, filled⟩ | ⟨⟨e, rfl⟩, same⟩
        · refine ⟨⟨_, Or.inr filled, represents.discard appId⟩, nofun, ?_⟩
          rintro _ ⟨⟩ missing
          exact absurd (represents.discard_length_iff.mpr missing) absent
        · exact failed same
    · exact failed rfl

theorem exec_edits {calls : List Edit} {results : List (Except StreamError Unit)} (round : RoundTrips k) (keeps : Keeps k d m)
    (exec : Exec store () (edits k calls) d moments results d') :
    results.length = calls.length ∧ Keeps k d' (settled (calls.zip results) m) := by
  induction calls generalizing d m moments results with
  | nil =>
    obtain ⟨_, rfl, rfl⟩ := exec
    exact ⟨rfl, keeps⟩
  | cons edit calls ih =>
    obtain ⟨_, r, u, _, front, exec, _⟩ := exec_bind.mp exec
    obtain ⟨_, rs, u', _, back, exec, _⟩ := exec_bind.mp exec
    obtain ⟨_, rfl, rfl⟩ := exec
    obtain ⟨same, kept⟩ := ih (exec_edit round keeps front).1 back
    exact ⟨congrArg (· + 1) same, kept⟩

/-- After any changes made one after the other to a registry that was missing, a listing
gives the map they make, each stream once and as it was added last; and a further change
that fails, as the removal of a stream that is not there always does, leaves the registry
file as it is. -/
theorem registry_refines_map {calls : List Edit} {results : List (Except StreamError Unit)} (round : RoundTrips k)
    (missing : d.lookup registryPath = none) (exec : Exec store () (edits k calls) d moments results d') :
    results.length = calls.length ∧
      (∀ moments r u, Exec store () (listRegistry k).run d' moments r u →
        (∀ m ∈ moments, wentThrough m.op m.result = true) →
          ∃ configs, r = .ok configs ∧ (configs.map StreamConfig.appId).Nodup ∧
            ∀ appId cfg, (settled (calls.zip results) ∅).lookup appId = some cfg ↔ cfg ∈ configs ∧ cfg.appId = appId) ∧
      (∀ edit moments e u, Exec store () (Edit.run k edit).run d' moments (.error e) u →
        u.lookup registryPath = d'.lookup registryPath) ∧
      ∀ appId moments r u, appId ∉ settled (calls.zip results) ∅ →
        Exec store () (removeFromRegistry k appId).run d' moments r u → ∃ e, r = .error e := by
  obtain ⟨same, keeps⟩ := exec_edits round (.missing missing) exec
  refine ⟨same, fun moments r u listing fine => ?_, fun edit moments e u failing => ?_, fun appId moments r u absent removing => ?_⟩
  · obtain ⟨configs, held, represents⟩ := keeps
    obtain ⟨-, listed | ⟨-, moment, member, failed⟩⟩ := exec_loadRegistryVec round held listing
    · exact ⟨configs, listed, represents.once, represents.finds⟩
    · cases (fine moment member).symm.trans failed
  · exact (exec_edit round keeps failing).2.1 e rfl
  · have removing' : Exec store () ((Edit.remove appId).run k).run d' moments r u := removing
    exact (exec_edit round keeps removing').2.2 appId rfl absent

/-- The registry file as the manager's world has it. -/
def Models (k : Capnp Message) (file : Option Bytes) : File → Prop
  | .missing => file = none
  | .torn => False
  | .holds configs => file = some (fileOf k configs)

/-- The same change, made by a task of the daemon. -/
def Edit.task : Edit → Fallible Unit
  | .add cfg => Streams.addToRegistry cfg
  | .remove appId => Streams.removeFromRegistry appId

variable {w : World} {a : Actor}

theorem Models.stored (models : Models k (d.lookup registryPath) w.registry) :
    ∃ configs, w.registry.configs = some configs ∧ Stored k d configs := by
  cases file : w.registry with
  | missing =>
    rw [file] at models
    exact ⟨[], rfl, Or.inl ⟨models, rfl⟩⟩
  | torn =>
    rw [file] at models
    exact models.elim
  | holds configs =>
    rw [file] at models
    exact ⟨configs, rfl, Or.inr models⟩

/-- A save of the files is one of the manager's steps. -/
theorem saveRegistryVec_simulated {r : Except StreamError Unit} (models : Models k (d.lookup registryPath) w.registry)
    (exec : Exec store () (saveRegistryVec k configs).run d moments r d') :
    Can manager a (Streams.saveRegistryVec configs).run w fun r' w' =>
      r' = r ∧ Models k (d'.lookup registryPath) w'.registry := by
  rcases ensures_saveRegistryVec _ _ _ exec with ⟨rfl, filled⟩ | ⟨⟨e, rfl⟩, same⟩
  · refine .call (Except.ok ()) rfl (.call (Except.ok ()) rfl (.call (Except.ok ()) rfl (.ret ⟨rfl, ?_⟩)))
    exact filled
  · refine .call (Except.ok ()) rfl (.call (Except.error e) rfl (.ret ⟨rfl, ?_⟩))
    rw [same]
    exact models

/-- What follows a load can be followed where the rest can. -/
theorem loaded_simulated {f : List StreamConfig → Storing Unit} {f' : List StreamConfig → Fallible Unit}
    {r : Except StreamError Unit} (round : RoundTrips k) (models : Models k (d.lookup registryPath) w.registry)
    (exec : Exec store () (loadRegistryVec k >>= f).run d moments r d')
    (rest : ∀ configs later, Exec store () (f configs).run d later r d' →
      Can manager a (f' configs).run w fun r' w' => r' = r ∧ Models k (d'.lookup registryPath) w'.registry) :
    Can manager a (Streams.loadRegistryVec >>= f').run w fun r' w' => r' = r ∧ Models k (d'.lookup registryPath) w'.registry := by
  obtain ⟨configs, there, held⟩ := models.stored
  rcases exec_tryBind.mp exec with ⟨early, configs', u, late, front, back, _⟩ | ⟨e, front, rfl⟩
  · obtain ⟨rfl, same | ⟨⟨_, wrong⟩, _⟩⟩ := exec_loadRegistryVec round held front
    · cases same
      have load : Can manager a Streams.loadRegistryVec.run w fun r' w' => r' = .ok configs ∧ w' = w :=
        .call (Except.ok configs) (decide_eq_true there) (.ret ⟨rfl, rfl⟩)
      exact load.through (rest configs late back)
    · cases wrong
  · obtain ⟨rfl, wrong | ⟨⟨msg, same⟩, _⟩⟩ := exec_loadRegistryVec round held front
    · cases wrong
    · cases same
      exact .call (Except.error msg) rfl (.ret ⟨rfl, models⟩)

/-- Whatever a change does to the files, the manager's world can follow. -/
theorem edit_simulated {r : Except StreamError Unit} (round : RoundTrips k)
    (models : Models k (d.lookup registryPath) w.registry) (exec : Exec store () (edit.run k).run d moments r d') :
    Can manager a edit.task.run w fun r' w' => r' = r ∧ Models k (d'.lookup registryPath) w'.registry := by
  cases edit with
  | add cfg => exact loaded_simulated round models exec fun configs later saved => saveRegistryVec_simulated models saved
  | remove appId =>
    refine loaded_simulated round models exec fun configs later rest => ?_
    by_cases absent : (removed appId configs).length = configs.length
    · rw [if_pos absent] at rest ⊢
      obtain ⟨_, rfl, rfl⟩ := rest
      exact .ret ⟨rfl, models⟩
    · rw [if_neg absent] at rest ⊢
      exact saveRegistryVec_simulated models rest

/-- A stream by its texts, as character codes, and its size. -/
abbrev Coded := (List Nat × List Nat) × (List Nat × List Nat) × (Nat × Nat)

def codes (text : String) : List Nat := text.toList.map Char.toNat

def uncoded (codes : List Nat) : String := String.ofList (codes.map Char.ofNat)

theorem uncoded_codes (text : String) : uncoded (codes text) = text := by
  have back : Char.ofNat ∘ Char.toNat = id := funext Char.ofNat_toNat
  rw [uncoded, codes, List.map_map, back, List.map_id, String.ofList_toList]

def coded (state : StreamState) : Coded :=
  ((codes state.config.appId, codes state.config.app), (codes state.config.url, codes state.config.user),
    (state.config.width.toNat, state.config.height.toNat))

def decoded (c : Coded) : StreamState :=
  stored ⟨uncoded c.1.1, uncoded c.1.2, uncoded c.2.1.1, uncoded c.2.1.2, UInt32.ofNat c.2.2.1, UInt32.ofNat c.2.2.2⟩

/-- Any number, as its digits to the base 256. -/
def digits (n : Nat) : Bytes := (Nat.digits 256 n).map UInt8.ofNat

theorem ofDigits_digits (n : Nat) : Nat.ofDigits 256 ((digits n).map UInt8.toNat) = n := by
  have small : (digits n).map UInt8.toNat = Nat.digits 256 n := by
    rw [digits, List.map_map]
    refine (List.map_congr_left fun digit member => ?_).trans (List.map_id _)
    exact UInt8.toNat_ofNat_of_lt' (Nat.digits_lt_base (by decide) member)
  rw [small, Nat.ofDigits_digits]

/-- A word of a message, by its two halves. -/
def word (low high : Nat) : Bytes := Octets.toLe 4 low ++ Octets.toLe 4 high

def text (s : String) : Bytes := s.toUTF8.toList

/-- The message of a registry with one stream, of the default configuration. -/
def browserBytes : Bytes :=
  Octets.toLe 4 0 ++ Octets.toLe 4 18 ++ word 0 0x10001 ++ word 1 0 ++ word 1 31 ++ word 4 0x10002 ++ word 0 0 ++ word 0 0 ++
    word 0 0x40001 ++ word 400 683 ++ word 13 90 ++ word 17 66 ++ word 17 98 ++ word 21 66 ++
    text "appBrowser\x00\x00\x00\x00\x00\x00" ++ text "firefox\x00" ++ text "about:blank\x00\x00\x00\x00\x00" ++ text "freebsd\x00"

def browserRegistry : StreamRegistry := ⟨1, [stored .default]⟩

def readCoded (bytes : Bytes) : Except String StreamRegistry :=
  match (Encodable.decode (Nat.ofDigits 256 (bytes.map UInt8.toNat)) : Option (List Coded)) with
  | some states => .ok ⟨1, states.map decoded⟩
  | none => .error "not a registry"

/-- A library that knows this message, and has a code of its own for any other registry. -/
def browserCapnp : Capnp StreamRegistry where
  writeMessage registry :=
    if registry = browserRegistry then browserBytes else 255 :: digits (Encodable.encode (registry.streams.map coded))
  readMessage bytes :=
    if bytes = browserBytes then .ok browserRegistry else readCoded bytes.tail
  getRoot registry := .ok registry.reader

theorem browserCapnp_reads {bytes : Bytes} (other : bytes ≠ browserBytes) :
    browserCapnp.readMessage bytes = readCoded bytes.tail := if_neg other

theorem browserCapnp_round : RoundTrips browserCapnp := by
  intro registry
  have first : browserBytes.head? = some 0 := by decide
  by_cases same : registry = browserRegistry
  · have written : browserCapnp.writeMessage registry = browserBytes := if_pos same
    have read : browserCapnp.readMessage browserBytes = .ok browserRegistry := if_pos rfl
    rw [written, read, same]
    rfl
  · have written : browserCapnp.writeMessage registry = 255 :: digits (Encodable.encode (registry.streams.map coded)) :=
      if_neg same
    have other : (255 :: digits (Encodable.encode (registry.streams.map coded)) : Bytes) ≠ browserBytes := by
      intro equal
      rw [← equal] at first
      cases first
    have read : browserCapnp.readMessage (255 :: digits (Encodable.encode (registry.streams.map coded))) =
        .ok ⟨1, (registry.streams.map coded).map decoded⟩ := by
      have later : readCoded (digits (Encodable.encode (registry.streams.map coded))) =
          .ok ⟨1, (registry.streams.map coded).map decoded⟩ := by
        rw [readCoded, ofDigits_digits, Encodable.encodek]
      exact (browserCapnp_reads other).trans later
    rw [written, read]
    show Except.ok (StreamRegistry.reader ⟨1, (registry.streams.map coded).map decoded⟩) = .ok registry.reader
    refine congrArg Except.ok (congrArg RegistryReader.mk (congrArg Except.ok ?_))
    rw [List.map_map, List.map_map]
    refine List.map_congr_left fun state _ => ?_
    simp only [Function.comp_apply, decoded, coded, stored, uncoded_codes, UInt32.ofNat_toNat]

/-- A stream added to a registry that was missing, and one removed that was not there. -/
theorem registry_refines_map_browser :
    ∃ moments results d', Exec store () (edits browserCapnp [.add .default, .remove "appTerminal"]) ∅ moments results d' ∧
      results = [.ok (), .error (.notFound "stream appTerminal not in registry")] ∧
        ∀ moments r u, Exec store () (listRegistry browserCapnp).run d' moments r u →
          (∀ m ∈ moments, wentThrough m.op m.result = true) →
            ∃ configs, r = .ok configs ∧ (configs.map StreamConfig.appId).Nodup ∧
              ∀ appId cfg, (settled ([.add .default, .remove "appTerminal"].zip results) ∅).lookup appId = some cfg ↔
                cfg ∈ configs ∧ cfg.appId = appId := by
  have missing : (∅ : Disk).lookup registryPath = none := Finmap.lookup_empty _
  obtain ⟨first, _, d, added, rfl, held⟩ := (can_loadRegistryVec browserCapnp_round (Or.inl ⟨missing, rfl⟩)).through
    (f := fun configs => saveRegistryVec browserCapnp (upserted .default configs)) can_saveRegistryVec
  obtain ⟨second, _, u, found, rfl, same⟩ := can_loadRegistryVec browserCapnp_round held
  rw [same] at found
  have removing : Exec store () (removeFromRegistry browserCapnp "appTerminal").run d second
      (.error (.notFound "stream appTerminal not in registry")) d :=
    exec_tryBind.mpr (Or.inl ⟨second, _, d, [], found, ⟨rfl, rfl, rfl⟩, (List.append_nil _).symm⟩)
  have exec : Exec store () (edits browserCapnp [.add .default, .remove "appTerminal"]) ∅ (first ++ (second ++ []))
      [.ok (), .error (.notFound "stream appTerminal not in registry")] d := by
    refine exec_bind.mpr ⟨first, _, d, _, added, exec_bind.mpr ⟨second ++ [], _, d, [], ?_, ⟨rfl, rfl, rfl⟩, ?_⟩, rfl⟩
    · exact exec_bind.mpr ⟨second, _, d, [], removing, ⟨rfl, rfl, rfl⟩, rfl⟩
    · exact (List.append_nil _).symm
  exact ⟨_, _, d, exec, rfl, (registry_refines_map browserCapnp_round missing exec).2.1⟩

/-- The same changes, made by one task of the daemon after the other. -/
def tasks : List Edit → Task (List (Except StreamError Unit))
  | [] => return []
  | edit :: rest => do
    let r ← edit.task.run
    let rs ← tasks rest
    return r :: rs

/-- Whatever changes made one after the other do to the files, with any calls failing on the
way and any writes torn, the manager's world can follow to the end: it answers as the files
did, and comes to the registry that they then hold. -/
theorem edits_simulated {calls : List Edit} {results : List (Except StreamError Unit)} (round : RoundTrips k)
    (models : Models k (d.lookup registryPath) w.registry) (exec : Exec store () (edits k calls) d moments results d') :
    Can manager a (tasks calls) w fun results' w' => results' = results ∧ Models k (d'.lookup registryPath) w'.registry := by
  induction calls generalizing d w moments results with
  | nil =>
    obtain ⟨-, rfl, rfl⟩ := exec
    exact .ret ⟨rfl, models⟩
  | cons edit calls ih =>
    obtain ⟨_, r, u, _, front, exec, -⟩ := exec_bind.mp exec
    obtain ⟨_, rs, u', _, back, exec, -⟩ := exec_bind.mp exec
    obtain ⟨-, rfl, rfl⟩ := exec
    obtain ⟨first, _, v, done, rfl, models⟩ := edit_simulated (a := a) round models front
    obtain ⟨rest, _, v', follows, rfl, models⟩ := ih models back
    refine ⟨first ++ (rest ++ []), _, v', exec_bind.mpr ⟨first, _, v, _, done, ?_, rfl⟩, rfl, models⟩
    exact exec_bind.mpr ⟨rest, _, v', [], follows, ⟨rfl, rfl, rfl⟩, rfl⟩

/-- A stream added to a registry that was missing, in the manager's world. -/
theorem edits_simulated_browser :
    ∃ moments results d', Exec store () (edits browserCapnp [.add .default]) ∅ moments results d' ∧
      Can manager .ctl (tasks [.add .default]) (.fresh .missing) fun results' w' =>
        results' = results ∧ Models browserCapnp (d'.lookup registryPath) w'.registry := by
  have missing : (∅ : Disk).lookup registryPath = none := Finmap.lookup_empty _
  obtain ⟨first, r, d, added, -⟩ := (can_loadRegistryVec browserCapnp_round (Or.inl ⟨missing, rfl⟩)).through
    (f := fun configs => saveRegistryVec browserCapnp (upserted .default configs)) can_saveRegistryVec
  have exec : Exec store () (edits browserCapnp [.add .default]) ∅ (first ++ []) [r] d :=
    exec_bind.mpr ⟨first, r, d, [], added, ⟨rfl, rfl, rfl⟩, rfl⟩
  exact ⟨_, _, d, exec, edits_simulated browserCapnp_round missing exec⟩

end Bsdos.Streams.Store
