import Bsdos.Jpk.Manager
import Bsdos.Pkgd.Names
import Bsdos.Pkgd.Verified

namespace Bsdos.Pkgd
open Effects Files

variable {k : Codecs} {path root : String}

/-- The directory that is created or unpacked into. -/
def Op.root? : Op → Option String
  | .createDirAll path | .unpack _ path => some path
  | _ => none

/-- A call that touches no directory but those that validated descriptors designate. -/
def Op.Rooted (root : String) (op : Op) : Prop :=
  ∀ dir, op.root? = some dir → ∃ d : JpkDescriptor, d.validate = .ok () ∧ dir = join root d.header.id

theorem Op.Looks.rooted {op : Op} (looks : op.Looks) : op.Rooted root := by
  intro dir some
  cases op with
  | createDirAll _ | unpack _ _ => exact looks.elim
  | _ => cases some

theorem runInstall_rooted : (runInstall k path root).run.Only (Op.Rooted root) := by
  have looking {α : Type} {p : Fallible α} (looks : p.run.Only Op.Looks) : p.run.Only (Op.Rooted root) :=
    looks.mono fun _ => Op.Looks.rooted
  refine Prog.Only.tryBind (looking (print_only _)) fun _ => ?_
  refine Prog.Only.tryBind (looking runVerify_only) fun _ => ?_
  refine Prog.Only.tryBind (looking readArchive_only) fun fileBytes => ?_
  refine Prog.Only.tryBind (looking (okOr_only _)) fun tomlBytes => ?_
  unfold parseDescriptor
  simp only [bind_assoc]
  refine Prog.Only.tryBind (looking (mapErr_only _)) fun tomlStr => ?_
  refine Prog.Only.tryBind (looking (mapErr_only _)) fun descriptor => ?_
  cases validated : descriptor.validate with
  | error e => trivial
  | ok u =>
    simp only [pure_bind]
    have designated (op : Op) (touches : op.root? = some (join root descriptor.header.id)) : op.Rooted root := by
      intro dir some
      exact ⟨descriptor, validated, Option.some.inj (some.symm.trans touches)⟩
    refine Prog.Only.tryBind ⟨designated _ rfl, fun _ => trivial⟩ fun created => ?_
    refine Prog.Only.tryBind (looking (mapErr_only _)) fun _ => ?_
    refine Prog.Only.tryBind (looking (okOr_only _)) fun payloadBytes => ?_
    refine Prog.Only.tryBind ⟨designated _ rfl, fun _ => trivial⟩ fun unpacked => ?_
    refine Prog.Only.tryBind (looking (mapErr_only _)) fun _ => ?_
    exact looking (print_only _)

end Bsdos.Pkgd

namespace Bsdos.Jpk
open Effects Files

/-- The directory that is created, unpacked into or removed with all it holds. -/
def Op.root? : Op → Option String
  | .createDirAll path | .decompressTar _ path | .removeDirAll path => some path
  | _ => none

/-- A call that touches no directory but those that accepted ids designate. -/
def Op.Rooted (op : Op) : Prop :=
  ∀ dir, op.root? = some dir → ∃ id, Manifest.validateId id = .ok () ∧ dir = jailRoot id

theorem Op.Rooted.of_none {op : Op} (none : op.root? = none) : op.Rooted := by
  intro dir some
  rw [none] at some
  cases some

theorem Op.Rooted.of_id {op : Op} {id : String} (accepted : Manifest.validateId id = .ok ())
    (root : op.root? = some (jailRoot id)) : op.Rooted := by
  intro dir some
  exact ⟨id, accepted, Option.some.inj (some.symm.trans root)⟩

theorem liftExcept_only {α : Type} {Q : Op → Prop} (r : Except String α) : (liftM r : Fallible α).run.Only Q := by
  rw [run_liftExcept]
  trivial

theorem print_rooted (line : String) : (print line).run.Only Op.Rooted := ⟨.of_none rfl, fun _ => trivial⟩

theorem call_only {Q : Op → Prop} {op : Op} (admitted : Q op) : (liftM (call op) : Fallible op.Ret).run.Only Q :=
  ⟨admitted, fun _ => trivial⟩

/-- What comes after the check of an id is done for accepted ids only. -/
theorem checked_only {Q : Op → Prop} {id : String} {rest : Fallible Unit}
    (accepted : Manifest.validateId id = .ok () → rest.run.Only Q) :
    (do liftM (badId (Manifest.validateId id)); rest : Fallible Unit).run.Only Q := by
  cases checked : Manifest.validateId id with
  | ok u =>
    refine Prog.Only.tryBind (liftExcept_only _) fun _ => ?_
    exact accepted checked
  | error e => trivial

theorem unpackPayload_only {Q : Op → Prop} {payload : Bytes} {root : String} (prints : ∀ line, Q (.print line))
    (unpacks : Q (.decompressTar payload root)) : (unpackPayload payload root).run.Only Q := by
  refine Prog.Only.tryBind (call_only (prints _)) fun _ => ?_
  refine Prog.Only.tryBind (call_only unpacks) fun ended => ?_
  refine Prog.Only.tryBind (liftExcept_only _) fun statuses => ?_
  obtain ⟨zstdStatus, tarStatus⟩ := statuses
  cases zstd : zstdStatus.success <;> cases tar : tarStatus.success <;> simp [zstd, tar]

/-- An installation reads the package, and touches the root and the configuration of a
manifest with an accepted id. -/
theorem installPackage_only {Q : Op → Prop} {decode : Bytes → Except String Manifest} {jpkPath : String}
    (prints : ∀ line, Q (.print line)) (reads : Q (.readFile jpkPath))
    (acts : ∀ (manifest : Manifest) (payload : Bytes), Manifest.validateId manifest.id = .ok () →
      Q (.createDirAll (jailRoot manifest.id)) ∧ Q (.decompressTar payload (jailRoot manifest.id)) ∧
        Q (.writeFile (confPath manifest.id) (generateJailConf manifest (jailRoot manifest.id)))) :
    (installPackage decode jpkPath).run.Only Q := by
  have printing (line : String) : (print line).run.Only Q := call_only (prints line)
  refine Prog.Only.tryBind (printing _) fun _ => ?_
  refine Prog.Only.tryBind (call_only reads) fun file => ?_
  refine Prog.Only.tryBind (liftExcept_only _) fun bytes => ?_
  refine Prog.Only.tryBind (liftExcept_only _) fun parsed => ?_
  obtain ⟨manifest, payload⟩ := parsed
  refine checked_only fun accepted => ?_
  obtain ⟨creates, unpacks, writes⟩ := acts manifest payload accepted
  refine Prog.Only.tryBind (call_only creates) fun created => ?_
  refine Prog.Only.tryBind (liftExcept_only _) fun _ => ?_
  refine Prog.Only.tryBind (printing _) fun _ => ?_
  refine Prog.Only.tryBind (unpackPayload_only prints unpacks) fun _ => ?_
  refine Prog.Only.tryBind (call_only writes) fun written => ?_
  refine Prog.Only.tryBind (liftExcept_only _) fun _ => ?_
  refine Prog.Only.tryBind (printing _) fun _ => ?_
  exact printing _

theorem installPackage_rooted {decode : Bytes → Except String Manifest} {jpkPath : String} :
    (installPackage decode jpkPath).run.Only Op.Rooted :=
  installPackage_only (fun _ => .of_none rfl) (.of_none rfl) fun _ _ accepted =>
    ⟨.of_id accepted rfl, .of_id accepted rfl, .of_none rfl⟩

theorem uninstallPackage_rooted {appId : String} : (uninstallPackage appId).run.Only Op.Rooted := by
  refine checked_only fun accepted => ?_
  refine Prog.Only.tryBind (print_rooted _) fun _ => ?_
  refine Prog.Only.tryBind (call_only (.of_none rfl)) fun _ => ?_
  refine Prog.Only.tryBind (call_only (.of_none rfl)) fun _ => ?_
  refine Prog.Only.tryBind (print_rooted _) fun _ => ?_
  refine Prog.Only.tryBind (call_only (.of_none rfl)) fun destroyed => ?_
  refine Prog.Only.tryBind (liftExcept_only _) fun out => ?_
  have last : (print ("[pkgd] uninstalled " ++ appId)).run.Only Op.Rooted := print_rooted _
  have remove (path : String) (op : Op) (answer : op.Ret → Except String Unit) {rest : Fallible Unit}
      (rooted : op.Rooted) (later : rest.run.Only Op.Rooted) :
      (do
        let there : Bool ← call (.pathExists path)
        if there then
          let removed ← call op
          liftM (answer removed)
        rest : Fallible Unit).run.Only Op.Rooted := by
    refine Prog.Only.tryBind (call_only (.of_none rfl)) fun there => ?_
    cases there with
    | true =>
      refine Prog.Only.tryBind (call_only rooted) fun removed => ?_
      exact Prog.Only.tryBind (liftExcept_only _) fun _ => later
    | false => exact later
  have tail := remove (confPath appId) (.removeFile (confPath appId)) id (.of_none rfl)
    (remove (jailRoot appId) (.removeDirAll (jailRoot appId)) id (.of_id accepted rfl) last)
  cases out.success with
  | true => exact tail
  | false => exact Prog.Only.tryBind (print_rooted _) fun _ => tail

theorem Manifest.validateId_ok_iff {id : String} : Manifest.validateId id = .ok () ↔
    id ≠ "" ∧ id.utf8ByteSize ≤ 128 ∧ ∀ c ∈ id.toList, Pkgd.validAppIdChar c = true := by
  refine Text.checked_name_iff.trans ?_
  simp only [and_true]

theorem validateId_name {id : String} (accepted : Manifest.validateId id = .ok ()) : id ≠ "" ∧ '/' ∉ id.toList := by
  obtain ⟨filled, -, valid⟩ := Manifest.validateId_ok_iff.mp accepted
  exact ⟨filled, Pkgd.slash_free valid⟩

/-- What the names that an installer accepts must designate: directories right inside its
base, none of which contains another. -/
theorem names_designate {cwd : Place} {root : String} {accepted : String → Prop}
    (names : ∀ id, accepted id → id ≠ "" ∧ '/' ∉ id.toList) :
    (∀ id, accepted id →
      (Child (resolve cwd root) (resolve cwd (joined root id)) ↔ id ≠ "." ∧ id ≠ "..")) ∧
    ∀ id id', accepted id → accepted id' → id ≠ id' →
      (Apart (resolve cwd (joined root id)) (resolve cwd (joined root id')) ↔
        (id ≠ "." ∧ id ≠ "..") ∧ id' ≠ "." ∧ id' ≠ "..") := by
  have proper (id : String) (ok : accepted id) : Proper id ↔ id ≠ "." ∧ id ≠ ".." := and_iff_right (names id ok).1
  have designates (id : String) (ok : accepted id) : resolve cwd (joined root id) = enter (resolve cwd root) id :=
    Pkgd.resolve_join (names id ok).2
  refine ⟨fun id ok => ?_, fun id id' ok ok' differ => ?_⟩
  · rw [designates id ok, child_enter_iff, proper id ok]
  · rw [designates id ok, designates id' ok', apart_enter_iff differ (names id ok).1 (names id' ok').1, proper id ok,
      proper id' ok']

/-- Both tools touch the directories of accepted ids only, and these are contained in their
base and apart from each other exactly where no id is a dot or two. -/
theorem package_roots_iff {cwd : Place} {root jpkPath path appId : String} {decode : Bytes → Except String Manifest}
    {k : Pkgd.Codecs} :
    ((installPackage decode jpkPath).run.Only Op.Rooted ∧ (uninstallPackage appId).run.Only Op.Rooted ∧
      (Pkgd.runInstall k path root).run.Only (Pkgd.Op.Rooted root)) ∧
    ((∀ id, Manifest.validateId id = .ok () →
      (Child (resolve cwd jailsDir) (resolve cwd (jailRoot id)) ↔ id ≠ "." ∧ id ≠ "..")) ∧
    ∀ id id', Manifest.validateId id = .ok () → Manifest.validateId id' = .ok () → id ≠ id' →
      (Apart (resolve cwd (jailRoot id)) (resolve cwd (jailRoot id')) ↔
        (id ≠ "." ∧ id ≠ "..") ∧ id' ≠ "." ∧ id' ≠ "..")) ∧
    (∀ id, (∃ d : Pkgd.JpkDescriptor, d.validate = .ok () ∧ d.header.id = id) →
      (Child (resolve cwd root) (resolve cwd (Pkgd.join root id)) ↔ id ≠ "." ∧ id ≠ "..")) ∧
    ∀ id id', (∃ d : Pkgd.JpkDescriptor, d.validate = .ok () ∧ d.header.id = id) →
      (∃ d : Pkgd.JpkDescriptor, d.validate = .ok () ∧ d.header.id = id') → id ≠ id' →
      (Apart (resolve cwd (Pkgd.join root id)) (resolve cwd (Pkgd.join root id')) ↔
        (id ≠ "." ∧ id ≠ "..") ∧ id' ≠ "." ∧ id' ≠ "..") := by
  have described (id : String) (ok : ∃ d : Pkgd.JpkDescriptor, d.validate = .ok () ∧ d.header.id = id) :
      id ≠ "" ∧ '/' ∉ id.toList := by
    obtain ⟨d, validated, rfl⟩ := ok
    exact Pkgd.validate_name validated
  exact ⟨⟨installPackage_rooted, uninstallPackage_rooted, Pkgd.runInstall_rooted⟩,
    names_designate fun _ => validateId_name, names_designate described⟩

/-- A package that asks for nothing, under a given id. -/
def bareDescriptor (id : String) : Pkgd.JpkDescriptor :=
  ⟨⟨"1.0", id, "1.0.0"⟩, ⟨"Squirrel", ["any"]⟩, ⟨"jail", "/bin/sh"⟩, ⟨"none", "ro"⟩⟩

theorem package_roots_foot :
    Child (resolve [] jailsDir) (resolve [] (jailRoot "org.bsdos.foot")) ∧
    Apart (resolve [] (jailRoot "org.bsdos.foot")) (resolve [] (jailRoot "org.bsdos.browser")) := by
  have one := (@package_roots_iff [] "/opt/bsdos/jails" "foot.jpk" "foot.jpk" "org.bsdos.foot"
    (fun _ => .error "expected value") Pkgd.footCodecs).2.1
  refine ⟨(one.1 "org.bsdos.foot" (by decide)).mpr (by decide), ?_⟩
  exact (one.2 "org.bsdos.foot" "org.bsdos.browser" (by decide) (by decide) (by decide)).mpr (by decide)

/-- Two dots are an id that both tools accept. It designates the parent of all package
roots, which an uninstallation then removes with all it holds. -/
theorem dots_designate_parent : Manifest.validateId ".." = .ok () ∧ (bareDescriptor "..").validate = .ok () ∧
    resolve [] jailsDir = ["jails", "apps"] ∧ resolve [] (jailRoot "..") = ["jails"] ∧
    ¬ Child (resolve [] jailsDir) (resolve [] (jailRoot "..")) ∧
    ¬ Apart (resolve [] (jailRoot "..")) (resolve [] (jailRoot "org.bsdos.foot")) ∧
    ∃ moments r w, Exec host () (uninstallPackage "..").run () moments r w ∧
      ∃ m ∈ moments, m.op = .removeDirAll (jailRoot "..") := by
  have base : resolve [] jailsDir = ["jails", "apps"] := by decide +kernel
  have above : resolve [] (jailRoot "..") = ["jails"] := by decide +kernel
  have foot : resolve [] (jailRoot "org.bsdos.foot") = ["jails", "apps", "org.bsdos.foot"] := by decide +kernel
  refine ⟨by decide +kernel, by decide +kernel, base, above, ?_, ?_, ?_⟩
  · rw [base, above]
    rintro ⟨name, inside⟩
    have longer := congrArg List.length inside
    simp at longer
  · rw [above, foot]
    rintro ⟨outside, _⟩
    exact outside ⟨["apps", "org.bsdos.foot"], rfl⟩
  · obtain ⟨moments, r, w, exec, checked⟩ := play_check (S := host) (a := ()) (p := (uninstallPackage "..").run) (w := ())
      [⟨.print "[pkgd] uninstalling: ..", ()⟩, ⟨.run "jail" ["-r", ".."], .error "No such file"⟩,
        ⟨.run "umount" ["/jails/apps/../dev"], .error "No such file"⟩,
        ⟨.print "[pkgd] destroying zfs dataset: bsdos/apps/..", ()⟩,
        ⟨.run "zfs" ["destroy", "-r", "bsdos/apps/.."], .ok ⟨false, "exit status: 1", "invalid name\n"⟩⟩,
        ⟨.print "[pkgd] zfs destroy warning: invalid name\n", ()⟩, ⟨.pathExists "/etc/jail.conf.d/...conf", false⟩,
        ⟨.pathExists "/jails/apps/..", true⟩, ⟨.removeDirAll "/jails/apps/..", .ok ()⟩,
        ⟨.print "[pkgd] uninstalled ..", ()⟩]
      (fun out => out.1.any fun m => decide (m.op = .removeDirAll (jailRoot ".."))) (by decide)
    obtain ⟨m, member, removes⟩ := List.any_eq_true.mp checked
    exact ⟨moments, r, w, exec, m, member, of_decide_eq_true removes⟩

end Bsdos.Jpk
