import Bsdos.Lifecycle.JpkConfig
import Bsdos.Lifecycle.Monitor
import Bsdos.Maps.Loaded
import Bsdos.Toml.Text

namespace Bsdos.Lifecycle
open Maps Toml

/-- The files as they are while the configuration is loaded. -/
structure Disk where
  pathExists : String → Bool
  readToString : String → Except String String

abbrev Zpids := Finmap fun _ : String => String

abbrev ConfigMap := Finmap fun _ : String => AppLifecycleConfig

/-- `Path::join`: an absolute path takes the place of what it is joined to. -/
def joinPath (dir name : String) : String :=
  if name.toList.head? = some '/' then name
  else if dir.isEmpty ∨ dir.toList.getLast? = some '/' then dir ++ name
  else dir ++ "/" ++ name

def loadLine (result : Zpids) (line : String) : Zpids :=
  let line := Text.trim line
  if line.isEmpty ∨ line.toList.head? = some '#' then result
  else
    match Text.splitn 2 '=' line with
    | [key, val] => result.insert (Text.trim key) (Text.trim val)
    | _ => result

def loadZpids (disk : Disk) (path : String) : Except String Zpids := do
  let content ← (disk.readToString path).mapError fun e => "read " ++ path ++ ": " ++ e
  return (Text.lines content).foldl loadLine ∅

/-- The applications listed as installed: none where there is no list. -/
def installed (disk : Disk) (zpidsPath : String) : Except String Zpids :=
  if disk.pathExists zpidsPath then loadZpids disk zpidsPath else .ok ∅

def defaultConfigs : ConfigMap :=
  ((∅ : ConfigMap).insert "appTerminal" ⟨"appTerminal", "appTerminal", 32, 5, 200, false⟩).insert "appBrowser"
    ⟨"appBrowser", "appBrowser", 512, 50, 50, false⟩

variable (disk : Disk) (toml : Library) (zpidsPath jpkDir : String)

/-- The descriptor of a listed application, where its file is there and can be read. -/
def described (app : String × String) : Option JpkDescriptor :=
  let tomlPath := joinPath (joinPath (joinPath jpkDir app.1) app.2) "jpk.toml"
  if disk.pathExists tomlPath then (parseDescriptor toml tomlPath (disk.readToString tomlPath)).toOption else none

/-- The configuration of a listed application. -/
def configured (app : String × String) : Option AppLifecycleConfig :=
  (described disk toml jpkDir app).map JpkDescriptor.config

/-- The loop over the list goes the way the list's hash map is iterated. -/
def loadDescriptors (iterate : Zpids → List (String × String)) : Except String ConfigMap := do
  let zpids ← installed disk zpidsPath
  let configs := (iterate zpids).foldl (put (configured disk toml jpkDir) AppLifecycleConfig.jailName) ∅
  return if configs = ∅ then defaultConfigs else configs

/-- A way to iterate over lists of applications. -/
def Iterates (iterate : Zpids → List (String × String)) : Prop := ∀ zpids, Lists zpids (iterate zpids)

/-- What `main` goes on with: without a configuration where it could not be loaded. -/
def startConfigs (loaded : Except String ConfigMap) : ConfigMap :=
  match loaded with
  | .ok configs => configs
  | .error _ => ∅

/-- The jails of these configurations are evicted in this order, where the monitor finds the
priorities as `main` left them. -/
def EvictedInOrder (configs : ConfigMap) (order : List String) : Prop :=
  ∃ listed jails, Lists configs listed ∧ (loadPriorities listed).entries.map Sigma.snd = Multiset.ofList jails ∧
    order = sortCandidates jails

/-- The configuration, the priorities and the eviction order are the same whichever way the
list of applications is iterated. The order is not unique where priorities are equal, as it goes by another map:
`evictions` compares the sets of possible orders, and follows from `configs`. -/
structure FunctionOfFiles : Prop where
  configs : ∀ it it', Iterates it → Iterates it' →
    loadDescriptors disk toml zpidsPath jpkDir it = loadDescriptors disk toml zpidsPath jpkDir it'
  priorities : ∀ it it', Iterates it → Iterates it' → ∀ listed listed',
    Lists (startConfigs (loadDescriptors disk toml zpidsPath jpkDir it)) listed →
    Lists (startConfigs (loadDescriptors disk toml zpidsPath jpkDir it')) listed' →
    loadPriorities listed = loadPriorities listed'
  evictions : ∀ it it', Iterates it → Iterates it' → ∀ order,
    EvictedInOrder (startConfigs (loadDescriptors disk toml zpidsPath jpkDir it)) order ↔
      EvictedInOrder (startConfigs (loadDescriptors disk toml zpidsPath jpkDir it')) order

/-- Listed applications whose descriptors declare one jail say the same of it. -/
def Consistent : Prop :=
  ∀ zpids, installed disk zpidsPath = .ok zpids → ∀ app version app' version' d d',
    zpids.lookup app = some version → zpids.lookup app' = some version' →
    described disk toml jpkDir (app, version) = some d → described disk toml jpkDir (app', version') = some d' →
    d.runtime.jailName = d'.runtime.jailName → d.runtime.needsGpu = d'.runtime.needsGpu ∧
      d.permissions.maxMemoryMb = d'.permissions.maxMemoryMb ∧ d.permissions.maxCpuPercent = d'.permissions.maxCpuPercent

theorem config_inj {d d' : JpkDescriptor} : d.config = d'.config ↔ d.runtime.jailName = d'.runtime.jailName ∧
    d.runtime.needsGpu = d'.runtime.needsGpu ∧ d.permissions.maxMemoryMb = d'.permissions.maxMemoryMb ∧
    d.permissions.maxCpuPercent = d'.permissions.maxCpuPercent := by
  simp only [JpkDescriptor.config, AppLifecycleConfig.mk.injEq, UInt64.toNat_inj]
  constructor
  · rintro ⟨jail, _, memory, cpu, _, gpu⟩
    exact ⟨jail, gpu, memory, cpu⟩
  · rintro ⟨jail, gpu, memory, cpu⟩
    exact ⟨jail, jail, memory, cpu, by rw [gpu], gpu⟩

variable {disk : Disk} {toml : Library} {zpidsPath jpkDir : String}

theorem consistent_iff_agree : Consistent disk toml zpidsPath jpkDir ↔
    ∀ zpids, installed disk zpidsPath = .ok zpids → ∀ listed, Lists zpids listed →
      Agree (configured disk toml jpkDir) AppLifecycleConfig.jailName listed := by
  unfold Consistent Agree
  refine forall₂_congr fun zpids loaded => ⟨?_, ?_⟩
  · rintro same listed lists ⟨app, version⟩ member ⟨app', version'⟩ member' v v' yielded yielded' key
    obtain ⟨d, found, rfl⟩ := Option.map_eq_some_iff.mp yielded
    obtain ⟨d', found', rfl⟩ := Option.map_eq_some_iff.mp yielded'
    exact config_inj.mpr ⟨key, same app version app' version' d d' (lists.mem_iff.mp member) (lists.mem_iff.mp member')
      found found' key⟩
  · intro agree app version app' version' d d' here here' found found' key
    obtain ⟨listed, lists⟩ := Lists.exists zpids
    exact (config_inj.mp (agree listed lists (app, version) (lists.mem_iff.mpr here) (app', version')
      (lists.mem_iff.mpr here') d.config d'.config (Option.map_eq_some_iff.mpr ⟨d, found, rfl⟩)
      (Option.map_eq_some_iff.mpr ⟨d', found', rfl⟩) key)).2

/-- `main` files its priorities in whatever order it iterates over the configurations. -/
theorem loadPriorities_lists {configs : ConfigMap} {listed listed' : List (String × AppLifecycleConfig)}
    (lists : Lists configs listed) (lists' : Lists configs listed') : loadPriorities listed = loadPriorities listed' := by
  have puts (entries : List (String × AppLifecycleConfig)) : loadPriorities entries =
      entries.foldl (put (fun e => some (⟨e.1, e.2.priority, 0⟩ : JailPriority)) JailPriority.jailId) ∅ := rfl
  rw [puts, puts]
  refine load_perm_iff.mpr ?_ listed listed' (List.Perm.refl _) (lists.perm_iff.mp lists')
  rintro ⟨jail, cfg⟩ member ⟨jail', cfg'⟩ member' v v' ⟨⟩ ⟨⟩ (rfl : jail = jail')
  have same := (lists.mem_iff.mp member).symm.trans (lists.mem_iff.mp member')
  rw [Option.some.inj same]

theorem loadDescriptors_ok {zpids : Zpids} (loaded : installed disk zpidsPath = .ok zpids)
    (iterate : Zpids → List (String × String)) : loadDescriptors disk toml zpidsPath jpkDir iterate =
      .ok (if (iterate zpids).foldl (put (configured disk toml jpkDir) AppLifecycleConfig.jailName) ∅ = ∅ then defaultConfigs
        else (iterate zpids).foldl (put (configured disk toml jpkDir) AppLifecycleConfig.jailName) ∅) := by
  unfold loadDescriptors
  rw [loaded]
  rfl

/-- One list can be iterated in any order. -/
theorem Iterates.exists {zpids : Zpids} {listed : List (String × String)} (lists : Lists zpids listed) :
    ∃ it, Iterates it ∧ it zpids = listed := by
  classical
  choose other others using fun m : Zpids => Lists.exists m
  refine ⟨fun m => if m = zpids then listed else other m, fun m => ?_, if_pos rfl⟩
  dsimp only
  split
  · rename_i same
    rw [same]
    exact lists
  · exact others m

/-- Were two listed applications to differ, the one that comes last would decide. -/
theorem FunctionOfFiles.consistent (same : FunctionOfFiles disk toml zpidsPath jpkDir) :
    Consistent disk toml zpidsPath jpkDir := by
  refine consistent_iff_agree.mpr fun zpids loaded listed lists => load_perm_iff.mp fun l l' perm perm' => ?_
  obtain ⟨it, iterates, there⟩ := Iterates.exists (lists.perm_iff.mpr perm)
  obtain ⟨it', iterates', there'⟩ := Iterates.exists (lists.perm_iff.mpr perm')
  have configs := same.configs it it' iterates iterates'
  rw [loadDescriptors_ok loaded, loadDescriptors_ok loaded, there, there'] at configs
  have found := Except.ok.inj configs
  have empty : l.foldl (put (configured disk toml jpkDir) AppLifecycleConfig.jailName) ∅ = ∅ ↔
      l'.foldl (put (configured disk toml jpkDir) AppLifecycleConfig.jailName) ∅ = ∅ := by
    rw [load_eq_empty_iff, load_eq_empty_iff]
    exact forall_congr' fun a => imp_congr_left (perm.mem_iff.trans perm'.mem_iff.symm)
  by_cases none : l.foldl (put (configured disk toml jpkDir) AppLifecycleConfig.jailName) ∅ = ∅
  · rw [none, empty.mp none]
  · rwa [if_neg none, if_neg (fun none' => none (empty.mpr none'))] at found

/-- The configuration that is loaded is a function of the files exactly if the listed
applications that declare one jail say the same of it. -/
theorem configuration_function_iff : FunctionOfFiles disk toml zpidsPath jpkDir ↔ Consistent disk toml zpidsPath jpkDir := by
  refine ⟨FunctionOfFiles.consistent, fun consistent => ?_⟩
  have configs (it it' : Zpids → List (String × String)) (iterates : Iterates it) (iterates' : Iterates it') :
      loadDescriptors disk toml zpidsPath jpkDir it = loadDescriptors disk toml zpidsPath jpkDir it' := by
    cases loaded : installed disk zpidsPath with
    | error e =>
      unfold loadDescriptors
      rw [loaded]
      rfl
    | ok zpids =>
      have agree := consistent_iff_agree.mp consistent zpids loaded (it zpids) (iterates zpids)
      have one := load_perm_iff.mpr agree (it zpids) (it' zpids) (List.Perm.refl _)
        ((iterates zpids).perm_iff.mp (iterates' zpids))
      rw [loadDescriptors_ok loaded, loadDescriptors_ok loaded, one]
  refine ⟨configs, ?_, ?_⟩
  · intro it it' iterates iterates' listed listed' lists lists'
    rw [← configs it it' iterates iterates'] at lists'
    exact loadPriorities_lists lists lists'
  · intro it it' iterates iterates' order
    rw [configs it it' iterates iterates']

/-- The part of a browser recipe that is read here. -/
def recipe (name : String) (maxMemoryMb : Nat) : List Section :=
  [("meta", [("id", .string ("org.bsdos." ++ name)), ("version", .string "0.1.0"), ("name", .string name)]),
    ("runtime", [("type", .string "jail"), ("jail_name", .string "appBrowser"), ("needs_wayland", .boolean true),
      ("needs_input", .boolean true), ("needs_gpu", .boolean false)]),
    ("permissions", [("max_memory_mb", .integer maxMemoryMb), ("max_cpu_percent", .integer 50),
      ("max_disk_mb", .integer 128)])]

def recipeText (name : String) (maxMemoryMb : Nat) : String := documentText [] (recipe name maxMemoryMb)

/-- Both browser recipes are installed. -/
def browsers : Disk where
  pathExists path := path = "/etc/bsdOS/zpids.conf" ∨ path = "/opt/bsdos/share/jpk/phantom-browser/0.1.0/jpk.toml" ∨
    path = "/opt/bsdos/share/jpk/wpewebkit-fdo/2.38.0/jpk.toml"
  readToString path :=
    if path = "/etc/bsdOS/zpids.conf" then .ok "phantom-browser = 0.1.0\nwpewebkit-fdo = 2.38.0\n"
    else if path = "/opt/bsdos/share/jpk/phantom-browser/0.1.0/jpk.toml" then .ok (recipeText "phantom-browser" 512)
    else if path = "/opt/bsdos/share/jpk/wpewebkit-fdo/2.38.0/jpk.toml" then .ok (recipeText "wpewebkit-fdo" 256)
    else .error "No such file or directory (os error 2)"

def recipeToml : Library where
  parse s :=
    if s = recipeText "phantom-browser" 512 then some (document (recipe "phantom-browser" 512))
    else if s = recipeText "wpewebkit-fdo" 256 then some (document (recipe "wpewebkit-fdo" 256))
    else none
  complaint _ := "TOML parse error at line 1, column 1"

/-- The memory limit of the browser is that of the recipe that happens to come last. -/
theorem browsers_not_function :
    ¬FunctionOfFiles browsers recipeToml "/etc/bsdOS/zpids.conf" "/opt/bsdos/share/jpk" := by
  intro same
  have list : installed browsers "/etc/bsdOS/zpids.conf" =
      .ok ((Text.lines "phantom-browser = 0.1.0\nwpewebkit-fdo = 2.38.0\n").foldl loadLine ∅) := by rfl
  have phantom : described browsers recipeToml "/opt/bsdos/share/jpk" ("phantom-browser", "0.1.0") =
      some ⟨⟨"org.bsdos.phantom-browser", "0.1.0", "phantom-browser"⟩, ⟨"jail", "appBrowser", true, true, false⟩,
        ⟨512, 50, 128⟩⟩ := by decide +kernel
  have fdo : described browsers recipeToml "/opt/bsdos/share/jpk" ("wpewebkit-fdo", "2.38.0") =
      some ⟨⟨"org.bsdos.wpewebkit-fdo", "0.1.0", "wpewebkit-fdo"⟩, ⟨"jail", "appBrowser", true, true, false⟩,
        ⟨256, 50, 128⟩⟩ := by decide +kernel
  have memory := (same.consistent _ list _ _ _ _ _ _ (by decide +kernel) (by decide +kernel) phantom fdo rfl).2.1
  exact absurd memory (by decide)

end Bsdos.Lifecycle
