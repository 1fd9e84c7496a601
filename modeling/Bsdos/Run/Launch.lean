import Bsdos.Octets.Environ
import Bsdos.Run.Emit
import Bsdos.Run.Hard

namespace Bsdos.Run
open Files Octets Plist

/-- What stops a run that is to execute something. -/
inductive Failure
  | halted (h : Halted)
  | mldr (message : String)
  | panicked

def cstr (s what : String) : Except Failure CString :=
  if plain : 0 ∉ utf8 s.toList then .ok ⟨utf8 s.toList, plain⟩
  else
    .error (.mldr (what ++ " contains nul byte: nul byte found in provided data at position: " ++
      toString ((utf8 s.toList).idxOf 0)))

abbrev DyldEnv := List (String × String)

def buildDyldEnv (t : Tree) (cwd : Place) (appDir : String) (embedded : List EmbeddedFramework) : DyldEnv :=
  let frameworks := join appDir "Frameworks"
  [("__mldr_DYLD_ROOT_PATH", appDir), ("DYLD_ROOT_PATH", appDir)] ++
    if !embedded.isEmpty || t.lookup cwd frameworks = some .dir then
      [("DYLD_FRAMEWORK_PATH", frameworks), ("DYLD_LIBRARY_PATH", frameworks), ("DYLD_FALLBACK_FRAMEWORK_PATH", frameworks),
        ("DYLD_FALLBACK_LIBRARY_PATH", frameworks)]
    else []

/-- The entries of the child's environment, the overriding ones last. -/
def mergeEnv (inherited : List (String × String)) (dyldEnv : DyldEnv) : List String :=
  ((inherited.filter fun entry => entry.1 ∉ dyldEnv.map Prod.fst) ++ dyldEnv).map fun entry => entry.1 ++ "=" ++ entry.2

/-- What is asked of `execve`, which comes back only if it fails. -/
structure Image where
  path : CString
  argv : List CString
  envp : List CString
  deriving DecidableEq

def execSelfContained (environ : List CString) (mldrPath mainBinary : String) (appArgs : List String) (dyldEnv : DyldEnv) :
    Except Failure Image := do
  let mldr ← cstr mldrPath "mldr path"
  let binary ← cstr mainBinary "binary path"
  let args ← appArgs.mapM (cstr · "app arg")
  match vars environ with
  | none => throw .panicked
  | some inherited =>
    let envp ← (mergeEnv inherited dyldEnv).mapM (cstr · "env entry")
    return ⟨mldr, mldr :: binary :: args, envp⟩

/-- `execv` hands the environment on as it is. -/
def execMldr (environ : List CString) (mldrPath binaryPath : String) (appArgs : List String) : Except Failure Image := do
  let mldr ← cstr mldrPath "mldr path"
  let binary ← cstr binaryPath "binary path"
  let args ← appArgs.mapM (cstr · "app arg")
  return ⟨mldr, mldr :: binary :: args, environ⟩

def mldrCandidates : List String := ["/usr/local/bin/mldr", "/mnt/bsdos/artefacts/myvm-bin/mldr"]

/-- The loader at one of its places, or next to this program. -/
def findMldr (t : Tree) (cwd : Place) (exeDir : Option String) : Except Failure String :=
  match mldrCandidates.find? (isFile t cwd) with
  | some candidate => .ok candidate
  | none =>
    match exeDir.filter fun dir => (t.lookup cwd (join dir "mldr")).isSome with
    | some dir => .ok (join dir "mldr")
    | none => .error (.mldr ("mldr not found; searched: " ++ ", ".intercalate mldrCandidates ++
        "; install mldr to /usr/local/bin/mldr or /mnt/bsdos/artefacts/myvm-bin/mldr"))

def zipMagic : List UInt8 := [0x50, 0x4B, 0x03, 0x04]

def hexByte (b : UInt8) : String := String.ofList [Nat.digitChar (b.toNat / 16), Nat.digitChar (b.toNat % 16)]

def checkIpa (t : Tree) (cwd : Place) (path : String) : Except RunError (List UInt8) :=
  match t.lookup cwd path with
  | none => .error (.ipa ("file not found: " ++ path))
  | some .dir => .error (.ipa ("not a regular file: " ++ path))
  | some (.file content _) =>
    if content.length < 4 then .error (.ipa ("cannot read " ++ path ++ ": failed to fill whole buffer"))
    else if content.take 4 ≠ zipMagic then
      .error (.ipa (path ++ " does not appear to be a ZIP/IPA archive (bad magic: [" ++
        ", ".intercalate ((content.take 4).map hexByte) ++ "])"))
    else .ok content

/-- What a run finds around it. -/
structure Surroundings where
  environ : List CString
  exeDir : Option String
  machotool : Except RunError String
  spawn : String → List String → Except String Output
  readDir : Tree → String → List String
  unzip : List UInt8 → Except RunError (List (Except RunError Entry))

/-- What is printed in place of a run. -/
structure Plan where
  mldr : String
  binary : String
  args : List String
  policy : JailPolicy
  entitlementSource : String
  embedded : List EmbeddedFramework
  resolution : String
  dyldEnv : DyldEnv

inductive Outcome
  | wrote (t : Tree)
  | planned (plan : Plan)
  | executed (printed : String) (image : Image)

structure Options where
  dryRun : Bool
  launch : Bool
  emitJpk : Option String
  appArgs : List String

/-- What has been found before it is decided what to do with it. -/
structure Prepared where
  tree : Tree
  appDir : String
  binaryPath : String
  bundleInfo : BundleInfo
  policy : JailPolicy
  entitlementSource : String
  embedded : List EmbeddedFramework

/-- The profile, where one can be read, and what to call the source of the entitlements. -/
def profileOf (t : Tree) (cwd : Place) (provisionPath : String) : Option Entitlements × String :=
  if isFile t cwd provisionPath then
    match readMobileprovision t cwd provisionPath with
    | .ok ent => (some ent, "embedded.mobileprovision")
    | .error _ => (none, "Info.plist (mobileprovision unreadable)")
  else (none, "Info.plist")

/-- The first steps of `run_ipa`: unpacking and looking around. -/
def prepare (around : Surroundings) (t : Tree) (cwd : Place) (tmp ipaPath : String) : Except Failure Prepared := do
  let content ← (checkIpa t cwd ipaPath).mapError (.halted ∘ .run)
  let entries ← (around.unzip content).mapError (.halted ∘ .run)
  let t ← (extractIpa cwd tmp t entries).mapError (.halted ∘ .run)
  let (appDir, binaryPath) ← (findBinary t cwd tmp (around.readDir t (join tmp "Payload"))).mapError (.halted ∘ .run)
  let bundleInfo ← (readInfoPlist t cwd (join appDir "Info.plist")).mapError (.halted ∘ .plist)
  let (provision, entitlementSource) := profileOf t cwd (join appDir "embedded.mobileprovision")
  let policy := policyFromEntitlements bundleInfo provision
  let embedded := discoverFrameworks t cwd appDir (around.readDir t (join appDir "Frameworks"))
  return ⟨t, appDir, binaryPath, bundleInfo, policy, entitlementSource, embedded⟩

def Prepared.plan (p : Prepared) (around : Surroundings) (cwd : Place) (mldrPath : String) (appArgs : List String) : Plan where
  mldr := mldrPath
  binary := p.binaryPath
  args := appArgs
  policy := p.policy
  entitlementSource := p.entitlementSource
  embedded := p.embedded
  resolution := if p.embedded.isEmpty then "" else printDepResolution around.machotool around.spawn p.binaryPath p.embedded
  dyldEnv := buildDyldEnv p.tree cwd p.appDir p.embedded

/-- All of `run_ipa`. -/
def runIpaWhole (around : Surroundings) (t : Tree) (cwd : Place) (tmp ipaPath : String) (options : Options) :
    Except Failure Outcome := do
  let p ← prepare around t cwd tmp ipaPath
  match options.emitJpk with
  | some outPath =>
    match p.tree.createFile (resolve cwd outPath) (utf8 (ipaToJpkDescriptor p.bundleInfo p.policy).toList) 0o644 with
    | some t => return .wrote t
    | none => throw (.halted (.run (.ipa ("cannot write jpk descriptor to " ++ outPath))))
  | none =>
    let mldrPath ← findMldr p.tree cwd around.exeDir
    let plan := p.plan around cwd mldrPath options.appArgs
    if options.dryRun then return .planned plan
    else if options.launch && !p.embedded.isEmpty then
      let image ← execSelfContained around.environ mldrPath p.binaryPath options.appArgs plan.dyldEnv
      return .executed plan.resolution image
    else
      let image ← execMldr around.environ mldrPath p.binaryPath options.appArgs
      return .executed "" image

section Environment
variable {environ envp : List CString} {inherited : List (String × String)} {name what : String} {key value : List UInt8}

theorem cstr_ok {s : String} {made : CString} (ok : cstr s what = .ok made) : made.bytes = utf8 s.toList := by
  unfold cstr at ok
  split at ok
  · cases ok
    rfl
  · cases ok

theorem mapM_cstr {texts : List String} {made : List CString} (ok : texts.mapM (cstr · what) = .ok made) :
    made.map CString.bytes = texts.map fun s => utf8 s.toList := by
  induction texts generalizing made with
  | nil =>
    cases ok
    rfl
  | cons text texts ih =>
    rw [List.mapM_cons] at ok
    obtain ⟨first, one, ok⟩ := Results.bind_ok ok
    obtain ⟨rest, later, ends⟩ := Results.bind_ok ok
    cases ends
    rw [List.map_cons, List.map_cons, cstr_ok one, ih later]

theorem getenv_merged {dyldEnv : DyldEnv} (read : vars environ = some inherited)
    (proper : ∀ entry ∈ dyldEnv, ProperKey entry.1) (made : (mergeEnv inherited dyldEnv).mapM (cstr · what) = .ok envp)
    (filled : name ≠ "") (plain : '=' ∉ name.toList) :
    getenv envp name = ((dyldEnv.lookup name).map fun value => utf8 value.toList).or (getenv environ name) := by
  refine getenv_overridden read proper ?_ filled plain
  rw [mapM_cstr made, mergeEnv, List.map_map]
  rfl

end Environment

section Run
variable {around : Surroundings} {t : Tree} {cwd : Place} {tmp ipaPath appDir : String} {options : Options} {printed : String}
  {image : Image} {mldrPath binaryPath name : String} {appArgs : List String} {environ : List CString} {dyldEnv : DyldEnv}
  {embedded : List EmbeddedFramework}

/-- The arguments come to the program as they are. -/
def Image.Runs (image : Image) (argv : List String) : Prop :=
  image.argv.map CString.bytes = argv.map (fun s => utf8 s.toList) ∧ image.argv.head? = some image.path

theorem execMldr_ok (ok : execMldr environ mldrPath binaryPath appArgs = .ok image) :
    image.Runs (mldrPath :: binaryPath :: appArgs) ∧ image.envp = environ := by
  obtain ⟨mldr, isMldr, ok⟩ := Results.bind_ok ok
  obtain ⟨binary, isBinary, ok⟩ := Results.bind_ok ok
  obtain ⟨args, areArgs, ok⟩ := Results.bind_ok ok
  cases ok
  refine ⟨⟨?_, rfl⟩, rfl⟩
  rw [List.map_cons, List.map_cons, List.map_cons, List.map_cons, cstr_ok isMldr, cstr_ok isBinary, mapM_cstr areArgs]

theorem execSelfContained_ok (ok : execSelfContained environ mldrPath binaryPath appArgs dyldEnv = .ok image) :
    image.Runs (mldrPath :: binaryPath :: appArgs) ∧ ∃ inherited, vars environ = some inherited ∧
      (mergeEnv inherited dyldEnv).mapM (cstr · "env entry") = .ok image.envp := by
  obtain ⟨mldr, isMldr, ok⟩ := Results.bind_ok ok
  obtain ⟨binary, isBinary, ok⟩ := Results.bind_ok ok
  obtain ⟨args, areArgs, ok⟩ := Results.bind_ok ok
  cases read : vars environ with
  | none =>
    rw [read] at ok
    cases ok
  | some inherited =>
    rw [read] at ok
    obtain ⟨envp, entries, ok⟩ := Results.bind_ok ok
    cases ok
    refine ⟨⟨?_, rfl⟩, inherited, rfl, entries⟩
    rw [List.map_cons, List.map_cons, List.map_cons, List.map_cons, cstr_ok isMldr, cstr_ok isBinary, mapM_cstr areArgs]

def rootVars : List String := ["__mldr_DYLD_ROOT_PATH", "DYLD_ROOT_PATH"]

def searchVars : List String :=
  ["DYLD_FRAMEWORK_PATH", "DYLD_LIBRARY_PATH", "DYLD_FALLBACK_FRAMEWORK_PATH", "DYLD_FALLBACK_LIBRARY_PATH"]

/-- What a self-contained launch sets a variable to. -/
def launchVar (appDir name : String) : Option String :=
  if name ∈ rootVars then some appDir else if name ∈ searchVars then some (join appDir "Frameworks") else none

theorem lookup_const (names : List String) (value : String) :
    (names.map fun name => (name, value)).lookup name = if name ∈ names then some value else none := by
  induction names with
  | nil => rfl
  | cons first names ih =>
    rw [List.map_cons, List.lookup_cons, ih]
    by_cases same : name = first
    · rw [same, beq_self_eq_true, if_pos List.mem_cons_self]
    · simp only [beq_false_of_ne same, List.mem_cons, same, false_or]

theorem buildDyldEnv_lookup (filled : embedded ≠ []) :
    (buildDyldEnv t cwd appDir embedded).lookup name = launchVar appDir name := by
  have whole : buildDyldEnv t cwd appDir embedded =
      (rootVars.map fun name => (name, appDir)) ++ searchVars.map fun name => (name, join appDir "Frameworks") := by
    have some' : (!embedded.isEmpty || decide (t.lookup cwd (join appDir "Frameworks") = some .dir)) = true := by
      simp [filled]
    rw [buildDyldEnv, if_pos some']
    rfl
  rw [whole, List.lookup_append, lookup_const, lookup_const, launchVar]
  by_cases root : name ∈ rootVars
  · rw [if_pos root, if_pos root, Option.some_or]
  · rw [if_neg root, if_neg root, Option.none_or]

theorem buildDyldEnv_proper : ∀ entry ∈ buildDyldEnv t cwd appDir embedded, ProperKey entry.1 := by
  have keys : ∀ key ∈ (buildDyldEnv t cwd appDir embedded).map Prod.fst, key ∈ rootVars ++ searchVars := by
    intro key member
    rw [buildDyldEnv, List.map_append] at member
    rcases List.mem_append.mp member with root | search
    · exact List.mem_append_left _ root
    · split at search
      · exact List.mem_append_right _ search
      · exact absurd search List.not_mem_nil
  have proper : ∀ key ∈ rootVars ++ searchVars, ProperKey key := by decide
  exact fun entry member => proper _ (keys _ (List.mem_map_of_mem member))

theorem isFile_lookup {path : String} (file : isFile t cwd path = true) : (t.lookup cwd path).isSome := by
  unfold isFile at file
  split at file
  · rename_i found
    rw [found]
    rfl
  · cases file

theorem findMldr_ok {exeDir : Option String} (found : findMldr t cwd exeDir = .ok mldrPath) : (t.lookup cwd mldrPath).isSome := by
  unfold findMldr at found
  split at found
  · rename_i candidate first
    cases found
    exact isFile_lookup (List.find?_some first)
  · split at found
    · rename_i dir beside
      cases found
      exact (Option.filter_eq_some_iff.mp beside).2
    · cases found

/-- What a run has found is in the temporary directory, and nothing else has changed. -/
theorem prepare_ok {p : Prepared} (filled : tmp ≠ "") (made : t.node (resolve cwd tmp) = some .dir)
    (fresh : ∀ name, t.node (resolve cwd tmp ++ [name]) = none) (prepared : prepare around t cwd tmp ipaPath = .ok p) :
    (∀ place, p.tree.node place ≠ t.node place → Inside (resolve cwd tmp) place) ∧
      findBinary p.tree cwd tmp (around.readDir p.tree (join tmp "Payload")) = .ok (p.appDir, p.binaryPath) := by
  obtain ⟨content, -, prepared⟩ := Results.bind_ok prepared
  obtain ⟨entries, -, prepared⟩ := Results.bind_ok prepared
  obtain ⟨t', extracted, prepared⟩ := Results.bind_ok prepared
  obtain ⟨⟨appDir, binaryPath⟩, found, prepared⟩ := Results.bind_ok prepared
  obtain ⟨bundleInfo, -, prepared⟩ := Results.bind_ok prepared
  cases prepared
  exact ⟨((Below.fresh made fresh).extractIpa filled (Results.mapError_ok.mp extracted)).inside, Results.mapError_ok.mp found⟩

theorem profile_provision (path : String) :
    (if isFile t cwd path then (readMobileprovision t cwd path).toOption else none) = (profileOf t cwd path).1 := by
  unfold profileOf
  split
  · cases readMobileprovision t cwd path <;> rfl
  · rfl

/-- A run that comes to its end without a descriptor to write: printing the plan, or executing it. -/
theorem runIpaWhole_executed (ran : runIpaWhole around t cwd tmp ipaPath options = .ok (.executed printed image)) :
    options.emitJpk = none ∧ options.dryRun = false ∧ ∃ p mldrPath, prepare around t cwd tmp ipaPath = .ok p ∧
      findMldr p.tree cwd around.exeDir = .ok mldrPath ∧
      if options.launch = true ∧ p.embedded ≠ [] then
        execSelfContained around.environ mldrPath p.binaryPath options.appArgs
          (buildDyldEnv p.tree cwd p.appDir p.embedded) = .ok image
      else execMldr around.environ mldrPath p.binaryPath options.appArgs = .ok image := by
  obtain ⟨p, prepared, ran⟩ := Results.bind_ok ran
  cases emit : options.emitJpk with
  | some outPath =>
    rw [emit] at ran
    dsimp only at ran
    split at ran <;> cases ran
  | none =>
    rw [emit] at ran
    obtain ⟨mldrPath, isMldr, ran⟩ := Results.bind_ok ran
    cases dry : options.dryRun with
    | true =>
      rw [dry] at ran
      cases ran
    | false =>
      rw [dry, if_neg Bool.false_ne_true] at ran
      refine ⟨rfl, rfl, p, mldrPath, prepared, isMldr, ?_⟩
      by_cases launched : options.launch = true ∧ p.embedded ≠ []
      · rw [if_pos (by simp [launched.1, launched.2])] at ran
        obtain ⟨image', made, same⟩ := Results.bind_ok ran
        cases same
        rwa [if_pos launched]
      · rw [if_neg (by simpa [Bool.and_eq_true] using launched)] at ran
        obtain ⟨image', made, same⟩ := Results.bind_ok ran
        cases same
        rwa [if_neg launched]

end Run

theorem entries_plain : (0 : UInt8) ∉ [72, 61, 47] ∧ (0 : UInt8) ∉ utf8 "DYLD_ROOT_PATH=/old".toList := by decide

/-- A host with a loader next to the program and an archive with an image of its own. -/
def loaderHost : List (Place × Node) :=
  [([], .dir), (["tmp"], .dir), (["tmp", "x"], .dir), (["bin"], .dir), (["bin", "mldr"], .file [] 0o755),
    (["app.ipa"], .file zipMagic 0o644)]

theorem loaderHost_inventory : Inventory loaderHost := by
  constructor
  · decide
  · exact List.mem_cons_self
  · simp [loaderHost]
  · simp only [loaderHost, List.forall_mem_cons, List.not_mem_nil, false_imp_iff, implies_true, and_true]
    decide

def loaderSurroundings : Surroundings where
  environ := [⟨[72, 61, 47], entries_plain.1⟩, ⟨utf8 "DYLD_ROOT_PATH=/old".toList, entries_plain.2⟩]
  exeDir := some "/bin"
  machotool := .error .io
  spawn _ _ := .error ""
  readDir _ path :=
    if path = "/tmp/x/Payload" then ["App.app"]
    else if path = "/tmp/x/Payload/App.app/Frameworks" then ["A.dylib"]
    else []
  unzip _ := .ok [.ok ⟨"Payload/App.app/Info.plist", false, utf8 named.toList, none⟩,
    .ok ⟨"Payload/App.app/App", false, [], some 0o755⟩,
    .ok ⟨"Payload/App.app/Frameworks/A.dylib", false, [], none⟩]

def started : Except Failure Outcome → Bool
  | .ok (.executed _ _) => true
  | _ => false

theorem started_executed {r : Except Failure Outcome} (yes : started r = true) :
    ∃ printed image, r = .ok (.executed printed image) := by
  obtain _ | ⟨_ | _ | ⟨printed, image⟩⟩ := r
  · cases yes
  · cases yes
  · cases yes
  · exact ⟨printed, image, rfl⟩

/-- The loader and the binary of a plan, and whether no image goes with them. -/
def foreseen : Except Failure Outcome → Option (String × String × Bool)
  | .ok (.planned plan) => some (plan.mldr, plan.binary, plan.embedded.isEmpty)
  | _ => none

end Bsdos.Run
