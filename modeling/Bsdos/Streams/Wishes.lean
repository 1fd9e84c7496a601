import Bsdos.Streams.Registry
import Bsdos.Streams.Successor

namespace Bsdos.Streams
open Effects

/-- The configuration a client has last started each stream with, unless a client has stopped
it since. Commands that fail change nothing. -/
abbrev Wishes := String → Option StreamConfig

/-- An operation on the registry, if it is one, has succeeded. -/
def wentThrough (m : Moment Host World) : Bool :=
  match m.op, m.result with
  | .registryLoad, r => Except.isOk (r : Except String (List StreamConfig))
  | .registryMkdir, r | .registryWriteTmp _, r | .registryRename, r => Except.isOk (r : Except String Unit)
  | _, _ => true

/-- The configuration of a start that has returned an error. -/
def failedStart (m : Moment Host World) : Option StreamConfig :=
  match m.op with
  | .note (.returned (.start cfg) false) => some cfg
  | _ => none

/-- A daemon started anew: of the world it finds the files only. -/
def World.rebooted (w : World) : World := { World.fresh w.registry with tmp := w.tmp }

/-- The states of a daemon between what happens to it: commands of the client, deaths of
processes, turns of the monitor that `ticks` admits, and restarts. All operations on the
registry succeed. -/
inductive Days (registry : File) (ticks : Wishes → List (Moment Host World) → Prop) : World → Wishes → Prop
  | boot {moments w} : Exec manager .restore restoreStreams (.fresh registry) moments () w →
      (∀ m ∈ moments, wentThrough m = true) → Days registry ticks w fun _ => none
  | start {w wishes cfg moments r w'} : Days registry ticks w wishes →
      Exec manager .ctl (startStream cfg).run w moments r w' → (∀ m ∈ moments, wentThrough m = true) →
      Days registry ticks w' (if r.isOk then Function.update wishes cfg.appId (some cfg) else wishes)
  | stop {w wishes appId moments r w'} : Days registry ticks w wishes →
      Exec manager .ctl (stopStream appId).run w moments r w' → (∀ m ∈ moments, wentThrough m = true) →
      Days registry ticks w' (if r.isOk then Function.update wishes appId none else wishes)
  | exit {w wishes change w'} : Days registry ticks w wishes → w.change change = some w' → Days registry ticks w' wishes
  | tick {w wishes moments w'} : Days registry ticks w wishes → Exec manager .monitor monitorTick w moments () w' →
      (∀ m ∈ moments, wentThrough m = true) → ticks wishes moments → Days registry ticks w' wishes
  | reboot {w wishes moments w'} : Days registry ticks w wishes →
      Exec manager .restore restoreStreams w.rebooted moments () w' → (∀ m ∈ moments, wentThrough m = true) →
      Days registry ticks w' wishes

/-- Every turn of the monitor. -/
def anyTick : Wishes → List (Moment Host World) → Prop := fun _ _ => True

/-- Whatever stream the client wishes for is restarted, where it is restarted. -/
def restartsSucceed (wishes : Wishes) (moments : List (Moment Host World)) : Prop :=
  ∀ m ∈ moments, ∀ cfg, failedStart m = some cfg → wishes cfg.appId = none

/-- The registry has what the client wishes for. -/
def Remembered (w : World) (wishes : Wishes) : Prop :=
  ∀ appId cfg, wishes appId = some cfg → cfg.appId = appId ∧ ∃ configs, w.registry = .holds configs ∧ Lists cfg configs

/-- So it has, and each instance that the client wishes for has that configuration. -/
structure Minded (w : World) (wishes : Wishes) : Prop where
  remembered : Remembered w wishes
  running : ∀ appId inst, w.streams.lookup appId = some inst →
    inst.cfg.appId = appId ∧ ∀ cfg, wishes appId = some cfg → inst.cfg = cfg

section lists
variable {cfg cfg' : StreamConfig} {configs : List StreamConfig}

/-- An entry has its app to itself. -/
theorem Lists.only (lists : Lists cfg configs) (member : cfg' ∈ configs) (same : cfg'.appId = cfg.appId) : cfg' = cfg := by
  have found : cfg' ∈ configs.filter fun c => c.appId = cfg.appId := List.mem_filter.mpr ⟨member, by simpa using same⟩
  rw [show configs.filter (fun c => c.appId = cfg.appId) = [cfg] from lists] at found
  exact List.mem_singleton.mp found

theorem Lists.removed (lists : Lists cfg configs) {appId : String} (other : cfg.appId ≠ appId) :
    Lists cfg (removed appId configs) := by
  have kept : (configs.filter fun c => c.appId ≠ appId).filter (fun c => c.appId = cfg.appId) =
      configs.filter fun c => c.appId = cfg.appId := by
    rw [List.filter_filter]
    refine List.filter_congr fun c _ => ?_
    by_cases own : c.appId = cfg.appId
    · simp [own, other]
    · simp [own]
  exact kept.trans lists

theorem Lists.upserted (lists : Lists cfg configs) (other : cfg.appId ≠ cfg'.appId) : Lists cfg (upserted cfg' configs) := by
  have kept := lists.removed other
  have foreign : [cfg'].filter (fun c => c.appId = cfg.appId) = [] := by
    simp [Ne.symm other]
  show List.filter _ (_ ++ _) = _
  rw [List.filter_append, foreign, List.append_nil]
  exact kept

end lists

section exec
variable {a : Actor} {w w' : World} {moments : List (Moment Host World)} {cfg : StreamConfig} {appId : String}

/-- The calls that leave the map and the registry alone. -/
def Op.Inert : Op → Prop
  | .streamsInsert _ _ | .streamsRemove _ | .registryRename => False
  | _ => True

/-- The map and the registry are those of `w`. -/
def Same (w w' : World) : Prop := w'.streams = w.streams ∧ w'.registry = w.registry

theorem Op.Inert.after {op : Op} (inert : op.Inert) (u : World) (r : op.Ret) : Same u (u.after a op r) := by
  cases op with
  | streamsInsert _ _ | streamsRemove _ | registryRename => exact inert.elim
  | spawn _ _ _ | registryWriteTmp _ => cases r <;> exact ⟨rfl, rfl⟩
  | _ => exact ⟨rfl, rfl⟩

theorem exec_inert {α : Type} {p : Task α} {value : α} (exec : Exec manager a p w moments value w') (only : p.Only Op.Inert) :
    Same w w' := by
  refine exec.preserve (I := Same w) only (fun u op r inert _ same => ?_) ⟨rfl, rfl⟩
  obtain ⟨streams, registry⟩ := inert.after (a := a) u r
  exact ⟨streams.trans same.1, registry.trans same.2⟩

theorem spawns_inert (op : Op) (spawns : op.Spawns appId) : op.Inert := by
  cases op with
  | spawn _ _ _ | createDirAll _ | setPermissions _ _ | pathExists _ | sleep _ | kill _ | wait _ => trivial
  | _ => exact spawns.elim

theorem tearsDown_inert (op : Op) (tears : op.TearsDown) : op.Inert := by
  cases op with
  | kill _ | wait _ | status _ _ | abort _ | removeDirAll _ => trivial
  | _ => exact tears.elim

theorem aside_inert (op : Op) (aside : op.Aside) : op.Inert := by
  cases op with
  | note n => trivial
  | lock | unlock | streamsEntries | tryWait _ | status _ _ | interval _ | sleep _ | registryLoad => trivial
  | _ => exact aside.elim

theorem saveRegistryVec_exec {configs : List StreamConfig} {r : Except StreamError Unit}
    (exec : Exec manager a (saveRegistryVec configs).run w moments r w') (through : ∀ m ∈ moments, wentThrough m = true) :
    w'.registry = .holds configs ∧ w'.streams = w.streams := by
  obtain ⟨made, _, _, rfl, exec⟩ := exec
  have made' := through _ (List.mem_cons_self ..)
  cases made with
  | error e => cases made'
  | ok _ =>
    obtain ⟨written, _, _, rfl, exec⟩ := exec
    have written' := through _ (List.mem_cons_of_mem _ (List.mem_cons_self ..))
    cases written with
    | error e => cases written'
    | ok _ =>
      obtain ⟨renamed, _, _, rfl, exec⟩ := exec
      have renamed' := through _ (List.mem_cons_of_mem _ (List.mem_cons_of_mem _ (List.mem_cons_self ..)))
      cases renamed with
      | error e => cases renamed'
      | ok _ =>
        obtain ⟨_, _, rfl⟩ := exec
        exact ⟨rfl, rfl⟩

theorem addToRegistry_exec {r : Except StreamError Unit} (exec : Exec manager a (addToRegistry cfg).run w moments r w')
    (through : ∀ m ∈ moments, wentThrough m = true) :
    (∃ configs, w.registry.configs = some configs ∧ w'.registry = .holds (upserted cfg configs)) ∧
      w'.streams = w.streams := by
  obtain ⟨loaded, _, may, rfl, exec⟩ := exec
  have loaded' := through _ (List.mem_cons_self ..)
  cases loaded with
  | error e => cases loaded'
  | ok configs =>
    have saved := saveRegistryVec_exec exec fun m member => through m (List.mem_cons_of_mem _ member)
    exact ⟨⟨configs, of_decide_eq_true may, saved.1⟩, saved.2⟩

theorem removeFromRegistry_exec {r : Except StreamError Unit}
    (exec : Exec manager a (removeFromRegistry appId).run w moments r w') (through : ∀ m ∈ moments, wentThrough m = true) :
    (∃ configs, w.registry.configs = some configs ∧ (w'.registry = .holds (removed appId configs) ∨
      removed appId configs = configs ∧ w'.registry = w.registry)) ∧ w'.streams = w.streams := by
  obtain ⟨loaded, _, may, rfl, exec⟩ := exec
  have loaded' := through _ (List.mem_cons_self ..)
  cases loaded with
  | error e => cases loaded'
  | ok configs =>
    have there : w.registry.configs = some configs := of_decide_eq_true may
    have exec : Exec manager a (if (removed appId configs).length = configs.length
        then throw (.notFound ("stream " ++ appId ++ " not in registry")) else saveRegistryVec (removed appId configs) :
          Fallible Unit).run w _ r w' := exec
    by_cases same : (removed appId configs).length = configs.length
    · rw [if_pos same] at exec
      obtain ⟨_, _, rfl⟩ := exec
      exact ⟨⟨configs, there, Or.inr ⟨List.filter_eq_self.mpr (List.length_filter_eq_length_iff.mp same), rfl⟩⟩, rfl⟩
    · rw [if_neg same] at exec
      have saved := saveRegistryVec_exec exec fun m member => through m (List.mem_cons_of_mem _ member)
      exact ⟨⟨configs, there, Or.inl saved.1⟩, saved.2⟩

/-- The body of a call, and the mark of its return. -/
theorem recorded_exec {c : Call} {body : Fallible Unit} {r : Except StreamError Unit}
    (exec : Exec manager a (recorded c body).run w moments r w') :
    ∃ inner, Exec manager a body.run w inner r w' ∧ (∀ m ∈ inner, m ∈ moments) ∧
      ∃ m ∈ moments, m.op = .note (.returned c r.isOk) := by
  rw [recorded_run] at exec
  obtain ⟨_, _, _, rfl, exec⟩ := exec
  obtain ⟨inner, answer, u, _, ran, ended, rfl⟩ := exec_bind.mp exec
  obtain ⟨_, _, _, rfl, ended⟩ := ended
  obtain ⟨rfl, rfl, rfl⟩ := ended
  exact ⟨inner, ran, fun m member => List.mem_cons_of_mem _ (List.mem_append_left _ member), _,
    List.mem_cons_of_mem _ (List.mem_append_right _ (List.mem_cons_self ..)), rfl⟩

theorem register_exec {rundir : String} {procs : SpawnedProcesses} {value : Unit}
    (exec : Exec manager a (register cfg rundir procs) w moments value w') (through : ∀ m ∈ moments, wentThrough m = true) :
    (∃ inst : StreamInstance, inst.cfg = cfg ∧ w'.streams = w.streams.insert cfg.appId inst) ∧
      ∃ configs, w.registry.configs = some configs ∧ w'.registry = .holds (upserted cfg configs) := by
  obtain ⟨forwarder, _, _, rfl, exec⟩ := exec
  obtain ⟨input, _, _, rfl, exec⟩ := exec
  obtain ⟨resize, _, _, rfl, exec⟩ := exec
  obtain ⟨_, _, _, rfl, exec⟩ := exec
  obtain ⟨_, later, _, rfl, exec⟩ := exec
  have exec : Exec manager a (do let _ ← (addToRegistry cfg).run; unlock : Task Unit) _ later value w' := exec
  obtain ⟨adding, r, u, _, added, unlocked, rfl⟩ := exec_bind.mp exec
  obtain ⟨_, _, _, rfl, _, _, rfl⟩ := unlocked
  obtain ⟨filed, streams⟩ := addToRegistry_exec added fun m member => through m (by simp [member])
  exact ⟨⟨_, rfl, streams⟩, filed⟩

/-- A start leaves an instance and an entry, or the map and the registry as they were. -/
theorem startStream_exec {r : Except StreamError Unit} (exec : Exec manager a (startStream cfg).run w moments r w')
    (through : ∀ m ∈ moments, wentThrough m = true) :
    (r.isOk = true ∧ (∃ inst : StreamInstance, inst.cfg = cfg ∧ w'.streams = w.streams.insert cfg.appId inst) ∧
      ∃ configs, w.registry.configs = some configs ∧ w'.registry = .holds (upserted cfg configs)) ∨
    (r.isOk = false ∧ Same w w' ∧ ∃ m ∈ moments, failedStart m = some cfg) := by
  obtain ⟨inner, body, among, m, member, returned⟩ := recorded_exec exec
  have failed (no : r.isOk = false) : ∃ m ∈ moments, failedStart m = some cfg :=
    ⟨m, member, by simp [failedStart, returned, no]⟩
  rw [startBody_run, checkMembership_run] at body
  obtain ⟨_, _, _, later, check, body, rfl⟩ := exec_bind.mp body
  obtain ⟨_, _, _, rfl, check⟩ := check
  obtain ⟨known, _, _, rfl, check⟩ := check
  obtain ⟨_, _, _, rfl, rfl, rfl, rfl⟩ := check
  cases known with
  | true =>
    obtain ⟨rfl, rfl, rfl⟩ := body
    exact Or.inr ⟨rfl, ⟨rfl, rfl⟩, failed rfl⟩
  | false =>
    obtain ⟨bringing, spawned, v, rest, brought, body, rfl⟩ := exec_bind.mp body
    obtain ⟨streams, filed⟩ := exec_inert brought ((spawnProcesses_only cfg _).mono spawns_inert)
    cases spawned with
    | error e =>
      obtain ⟨rfl, rfl, rfl⟩ := body
      exact Or.inr ⟨rfl, ⟨streams, filed⟩, failed rfl⟩
    | ok procs =>
      obtain ⟨registering, value, u, _, registered, ended, rfl⟩ := exec_bind.mp body
      obtain ⟨rfl, rfl, rfl⟩ := ended
      obtain ⟨⟨inst, own, inserted⟩, configs, there, entered⟩ := register_exec registered fun m member =>
        through m (among m (by simp [member]))
      refine Or.inl ⟨rfl, ⟨inst, own, ?_⟩, configs, ?_, entered⟩
      · rw [inserted, streams]
        rfl
      · rw [← there, filed]
        rfl

/-- A stop takes an instance and its entry away, or finds none. -/
theorem stopStream_exec {r : Except StreamError Unit} (exec : Exec manager a (stopStream appId).run w moments r w')
    (through : ∀ m ∈ moments, wentThrough m = true) :
    (r.isOk = true ∧ w'.streams = w.streams.erase appId ∧ ∃ configs, w.registry.configs = some configs ∧
      (w'.registry = .holds (removed appId configs) ∨ removed appId configs = configs ∧ w'.registry = w.registry)) ∨
    (r.isOk = false ∧ w'.streams = w.streams.erase appId ∧ w'.registry = w.registry) := by
  obtain ⟨inner, body, among, _⟩ := recorded_exec exec
  rw [stopBody_run] at body
  obtain ⟨_, _, _, rfl, body⟩ := body
  obtain ⟨found, _, _, rfl, body⟩ := body
  obtain ⟨_, _, _, rfl, body⟩ := body
  cases found with
  | none =>
    obtain ⟨rfl, rfl, rfl⟩ := body
    exact Or.inr ⟨rfl, rfl, rfl⟩
  | some inst =>
    obtain ⟨tearing, _, v, rest, torn, tail, rfl⟩ := exec_bind.mp body
    obtain ⟨streams, filed⟩ := exec_inert torn ((tearDown_only inst).mono tearsDown_inert)
    obtain ⟨unregistering, _, u, _, gone, ended, rfl⟩ := exec_bind.mp tail
    obtain ⟨rfl, rfl, rfl⟩ := ended
    obtain ⟨⟨configs, there, left⟩, kept⟩ := removeFromRegistry_exec gone fun m member =>
      through m (among m (by simp [member]))
    rw [filed] at there left
    exact Or.inl ⟨rfl, kept.trans streams, configs, there, left⟩

end exec

section minded
variable {a : Actor} {w w' : World} {moments : List (Moment Host World)} {cfg : StreamConfig} {appId : String}
  {wishes wishes' : Wishes}

theorem Minded.same (minded : Minded w wishes) (same : Same w w') : Minded w' wishes := by
  obtain ⟨streams, registry⟩ := same
  refine ⟨fun appId cfg wished => ?_, fun appId inst known => minded.running appId inst (streams ▸ known)⟩
  rw [registry]
  exact minded.remembered appId cfg wished

/-- A stream has been started that the client wishes for, or does not care about. -/
theorem Minded.started {inst : StreamInstance} {configs : List StreamConfig} (minded : Minded w wishes)
    (own : inst.cfg = cfg) (inserted : w'.streams = w.streams.insert cfg.appId inst)
    (there : w.registry.configs = some configs) (entered : w'.registry = .holds (upserted cfg configs))
    (wished : ∀ cfg', wishes' cfg.appId = some cfg' → cfg = cfg')
    (others : ∀ appId, appId ≠ cfg.appId → wishes' appId = wishes appId) : Minded w' wishes' := by
  refine ⟨fun appId cfg' wish => ?_, fun appId inst' known => ?_⟩
  · by_cases same : appId = cfg.appId
    · subst same
      cases wished cfg' wish
      exact ⟨rfl, _, entered, upserted_lists cfg configs⟩
    · obtain ⟨named, configs', holds, lists⟩ := minded.remembered appId cfg' (others appId same ▸ wish)
      cases Option.some.inj ((holds ▸ there : (File.holds configs').configs = some configs) : some configs' = some configs)
      exact ⟨named, _, entered, lists.upserted (named ▸ same)⟩
  · rw [inserted] at known
    by_cases same : appId = cfg.appId
    · subst same
      rw [Finmap.lookup_insert] at known
      cases Option.some.inj known
      exact ⟨own ▸ rfl, fun cfg' wish => own.trans (wished cfg' wish)⟩
    · rw [Finmap.lookup_insert_of_ne _ same] at known
      rw [others appId same]
      exact minded.running appId inst' known

/-- A stream has been stopped that the client does not wish for any more. -/
theorem Minded.stopped {configs : List StreamConfig} (minded : Minded w wishes) (erased : w'.streams = w.streams.erase appId)
    (there : w.registry.configs = some configs)
    (left : w'.registry = .holds (removed appId configs) ∨ removed appId configs = configs ∧ w'.registry = w.registry) :
    Minded w' (Function.update wishes appId none) := by
  refine ⟨fun appId' cfg wish => ?_, fun appId' inst known => ?_⟩
  · by_cases same : appId' = appId
    · subst same
      rw [Function.update_self] at wish
      cases wish
    · rw [Function.update_of_ne same] at wish
      obtain ⟨named, configs', holds, lists⟩ := minded.remembered appId' cfg wish
      cases Option.some.inj ((holds ▸ there : (File.holds configs').configs = some configs) : some configs' = some configs)
      refine ⟨named, ?_⟩
      rcases left with gone | ⟨_, still⟩
      · exact ⟨_, gone, lists.removed (named ▸ same)⟩
      · exact ⟨_, still.trans holds, lists⟩
  · rw [erased] at known
    by_cases same : appId' = appId
    · subst same
      rw [Finmap.lookup_erase] at known
      cases known
    · rw [Finmap.lookup_erase_ne same] at known
      rw [Function.update_of_ne same]
      exact minded.running appId' inst known

/-- A stop has found nothing to stop. -/
theorem Minded.unstopped (minded : Minded w wishes) (erased : w'.streams = w.streams.erase appId)
    (still : w'.registry = w.registry) : Minded w' wishes := by
  refine ⟨fun appId' cfg wish => ?_, fun appId' inst known => ?_⟩
  · rw [still]
    exact minded.remembered appId' cfg wish
  · rw [erased] at known
    by_cases same : appId' = appId
    · subst same
      rw [Finmap.lookup_erase] at known
      cases known
    · rw [Finmap.lookup_erase_ne same] at known
      exact minded.running appId' inst known

/-- A start on the daemon's own account, of a stream with the configuration the client
wishes for, if it wishes for the stream. -/
theorem startStream_minded {r : Except StreamError Unit} (minded : Minded w wishes)
    (exec : Exec manager a (startStream cfg).run w moments r w') (through : ∀ m ∈ moments, wentThrough m = true)
    (wished : ∀ cfg', wishes cfg.appId = some cfg' → cfg = cfg') : Minded w' wishes := by
  rcases startStream_exec exec through with ⟨_, ⟨inst, own, inserted⟩, configs, there, entered⟩ | ⟨_, same, _⟩
  · exact minded.started own inserted there entered wished fun _ _ => rfl
  · exact minded.same same

/-- A restart that goes through keeps what the client wishes for. -/
theorem restartDead_minded {dead : String × StreamConfig} {value : Unit} (minded : Minded w wishes)
    (exec : Exec manager a (restartDead dead) w moments value w')
    (all : ∀ m ∈ moments, wentThrough m = true ∧ ∀ cfg, failedStart m = some cfg → wishes cfg.appId = none)
    (named : dead.2.appId = dead.1) (wished : ∀ cfg, wishes dead.1 = some cfg → dead.2 = cfg) : Minded w' wishes := by
  obtain ⟨stopping, stopped, u, rest, stop, waits, rfl⟩ := exec_bind.mp exec
  obtain ⟨_, _, _, rfl, logged⟩ := waits
  obtain ⟨_, later, _, rfl, slept⟩ := logged
  have starts : Exec manager a (do let _ ← (startStream dead.2).run : Task Unit) u later value w' := slept
  obtain ⟨starting, r, v, _, start, ended, rfl⟩ := exec_bind.mp starts
  obtain ⟨rfl, _, rfl⟩ := ended
  have through (m : Moment Host World) (member : m ∈ starting) : wentThrough m = true := (all m (by simp [member])).1
  rcases stopStream_exec stop fun m member => (all m (by simp [member])).1 with
    ⟨_, erased, configs, there, left⟩ | ⟨_, erased, still⟩
  · have between := minded.stopped erased there left
    rcases startStream_exec start through with ⟨_, ⟨inst, own, inserted⟩, configs', there', entered⟩ | ⟨_, same, m, member, failed⟩
    · refine between.started own inserted there' entered (fun cfg' wish => ?_) fun appId other => ?_
      · exact wished cfg' (named ▸ wish)
      · exact (Function.update_of_ne (named ▸ other) ..).symm
    · have unwished : wishes dead.1 = none := named ▸ (all m (by simp [member])).2 dead.2 failed
      have same' : Function.update wishes dead.1 none = wishes := by
        rw [← unwished, Function.update_eq_self]
      exact same' ▸ between.same same
  · exact startStream_minded (minded.unstopped erased still) start through (named.symm ▸ wished)

/-- Whatever is found dead is among the entries looked through. -/
theorem collectDead_among {entries : List (String × StreamInstance)} {dead : List (String × StreamConfig)}
    (exec : Exec manager a (collectDead entries) w moments dead w') : ∀ d ∈ dead, ∃ e ∈ entries, d = (e.1, e.2.cfg) := by
  induction entries generalizing w moments dead w' with
  | nil =>
    obtain ⟨_, rfl, _⟩ := exec
    exact fun _ member => absurd member List.not_mem_nil
  | cons entry entries ih =>
    have later (d : String × StreamConfig) (found : ∃ e ∈ entries, d = (e.1, e.2.cfg)) :
        ∃ e ∈ entry :: entries, d = (e.1, e.2.cfg) := by
      obtain ⟨e, member, same⟩ := found
      exact ⟨e, List.mem_cons_of_mem _ member, same⟩
    obtain ⟨_, cageDead, u, _, _, exec₁, _⟩ := exec_bind.mp exec
    obtain ⟨_, tunnelDead, u', _, _, exec₂, _⟩ := exec_bind.mp exec₁
    obtain ⟨_, appDead, u'', rest, _, exec₃, _⟩ := exec_bind.mp exec₂
    have exec₃ : Exec manager a (if cageDead || tunnelDead || appDead then (do
        log (.died entry.1)
        let rest ← collectDead entries
        return (entry.1, entry.2.cfg) :: rest) else collectDead entries) u'' rest dead w' := exec₃
    split at exec₃
    · obtain ⟨_, _, _, _, logged⟩ := exec₃
      obtain ⟨_, found, _, _, looked, ⟨_, rfl, _⟩, _⟩ := (exec_bind (p := collectDead entries)).mp logged
      intro d member
      rcases List.mem_cons.mp member with rfl | member
      · exact ⟨entry, List.mem_cons_self .., rfl⟩
      · exact later d (ih looked d member)
    · exact fun d member => later d (ih exec₃ d member)

/-- The monitor finds streams of the map dead. -/
theorem findDead_among {dead : List (String × StreamConfig)} (exec : Exec manager a findDead w moments dead w') :
    Same w w' ∧ ∀ d ∈ dead, ∃ inst, w.streams.lookup d.1 = some inst ∧ d.2 = inst.cfg := by
  refine ⟨exec_inert exec (findDead_aside.mono aside_inert), ?_⟩
  obtain ⟨_, _, _, _, locked⟩ := exec
  obtain ⟨entries, _, may, _, listed⟩ := locked
  obtain ⟨_, found, _, _, looked, ⟨_, _, _, _, _, rfl, _⟩, _⟩ := (exec_bind (p := collectDead entries)).mp listed
  intro d member
  obtain ⟨e, entry, rfl⟩ := collectDead_among looked d member
  exact ⟨e.2, (World.mem_streamsEntries may).mp entry, rfl⟩

theorem monitorTick_minded {value : Unit} (minded : Minded w wishes) (exec : Exec manager a monitorTick w moments value w')
    (all : ∀ m ∈ moments, wentThrough m = true ∧ ∀ cfg, failedStart m = some cfg → wishes cfg.appId = none) :
    Minded w' wishes := by
  obtain ⟨_, _, _, rfl, ticked⟩ := exec
  obtain ⟨looking, dead, u, restarting, looked, restarts, rfl⟩ := (exec_bind (p := findDead)).mp ticked
  obtain ⟨same, among⟩ := findDead_among looked
  refine Exec.each (I := fun v => Minded v wishes) restarts (fun m member => all m (by simp [member]))
    (fun d member u first r v restart through between => ?_) (minded.same same)
  obtain ⟨inst, known, own⟩ := among d member
  obtain ⟨named, wished⟩ := minded.running d.1 inst known
  exact restartDead_minded between restart through (own ▸ named) (own ▸ wished)

/-- Whatever is restored has the configuration that the client wishes for. -/
theorem restoreStreams_minded {value : Unit} (minded : Minded w wishes)
    (exec : Exec manager a restoreStreams w moments value w') (through : ∀ m ∈ moments, wentThrough m = true) :
    Minded w' wishes := by
  obtain ⟨loaded, rest, may, rfl, listed⟩ := exec
  cases loaded with
  | error e =>
    obtain ⟨_, _, rfl⟩ := listed
    exact minded
  | ok configs =>
    have there : w.registry.configs = some configs := of_decide_eq_true may
    have starts : Exec manager a (Prog.each (fun cfg => do let _ ← (startStream cfg).run) configs) w rest value w' := listed
    refine Exec.each (I := fun v => Minded v wishes) starts (fun m member => through m (by simp [member]))
      (fun cfg member u first r v start through between => ?_) minded
    obtain ⟨starting, _, _, _, started, ⟨rfl, _, rfl⟩, rfl⟩ := exec_bind.mp start
    refine startStream_minded between started (fun m member => through m (by simp [member])) fun cfg' wish => ?_
    obtain ⟨named, configs', holds, lists⟩ := minded.remembered cfg.appId cfg' wish
    cases Option.some.inj ((holds ▸ there : (File.holds configs').configs = some configs) : some configs' = some configs)
    exact lists.only member named.symm

end minded

section days
variable {registry : File} {w : World} {wishes : Wishes}

theorem World.rebooted_minded (minded : Minded w wishes) : Minded w.rebooted wishes :=
  ⟨minded.remembered, fun _ _ known => by simp [World.rebooted, World.fresh] at known⟩

theorem days_minded (days : Days registry restartsSucceed w wishes) : Minded w wishes := by
  induction days with
  | boot exec through =>
    refine restoreStreams_minded ⟨fun _ _ wish => (nomatch wish), fun _ _ known => ?_⟩ exec through
    simp [World.fresh] at known
  | @start w wishes cfg moments r w' _ exec through minded =>
    rcases startStream_exec exec through with ⟨ok, ⟨inst, own, inserted⟩, configs, there, entered⟩ | ⟨failed, same, _⟩
    · rw [if_pos ok]
      refine minded.started own inserted there entered (fun cfg' wish => ?_) fun appId other => Function.update_of_ne other ..
      rw [Function.update_self] at wish
      exact Option.some.inj wish
    · rw [if_neg (by simp [failed])]
      exact minded.same same
  | @stop w wishes appId moments r w' _ exec through minded =>
    rcases stopStream_exec exec through with ⟨ok, erased, configs, there, left⟩ | ⟨failed, erased, still⟩
    · rw [if_pos ok]
      exact minded.stopped erased there left
    · rw [if_neg (by simp [failed])]
      exact minded.unstopped erased still
  | exit _ moved minded =>
    obtain ⟨exited, rfl⟩ := World.change_eq moved
    exact ⟨minded.remembered, minded.running⟩
  | tick _ exec through restarts minded =>
    exact monitorTick_minded minded exec fun m member => ⟨through m member, restarts m member⟩
  | reboot _ exec through minded => exact restoreStreams_minded (World.rebooted_minded minded) exec through

/-- Where every restart of a wished stream goes through, the registry has what the client
wishes for, whatever happens to the daemon. -/
theorem registry_remembers (days : Days registry restartsSucceed w wishes) : Remembered w wishes :=
  (days_minded days).remembered

/-- The client wishes for the one stream. -/
def footWished : Wishes := Function.update (fun _ => none) foot.appId (some foot)

/-- Its cage has died; the monitor finds it dead and stops it, up to the next start. -/
def footDied : List ((op : Op) × op.Ret) :=
  [⟨.interval 10, ()⟩, ⟨.lock, ()⟩,
    ⟨.streamsEntries, ([(foot.appId, footInstance foot 0 0)] : List (String × StreamInstance))⟩,
    ⟨.tryWait 0, (.ok true : Except String Bool)⟩, ⟨.tryWait 1, (.ok false : Except String Bool)⟩,
    ⟨.tryWait 2, (.ok false : Except String Bool)⟩, ⟨.note (.died foot.appId), ()⟩, ⟨.unlock, ()⟩] ++
    stopping foot (footInstance foot 0 0) ++ [⟨.note (.restarting foot.appId), ()⟩, ⟨.sleep 1000, ()⟩]

/-- The client starts a stream, its cage dies, and the monitor takes a turn with these answers. -/
theorem days_of_tick {ticks : Wishes → List (Moment Host World) → Prop} (answers : List ((op : Op) × op.Ret))
    (good : List (Moment Host World) → Bool) (sound : ∀ moments, good moments = true → ticks footWished moments)
    (check : World → Bool)
    (run : ((play manager .restore restoreStreams (.fresh .missing)
        [⟨.registryLoad, (.ok [] : Except String (List StreamConfig))⟩]).any fun booted => booted.1.all wentThrough &&
      (play manager .ctl (startStream foot).run booted.2.2 (checking foot false ++ spawning foot 0 ++ registering foot 0 0 [])).any
        fun started => (started.1.all wentThrough && started.2.1.isOk) &&
      (started.2.2.change (.exit 0)).any fun died =>
      (play manager .monitor monitorTick died answers).any fun ticked =>
        (ticked.1.all wentThrough && good ticked.1) && check ticked.2.2) = true) :
    ∃ w, Days .missing ticks w footWished ∧ check w = true := by
  obtain ⟨booted, boot, run⟩ := (Option.any_eq_true _ _).mp run
  obtain ⟨first, run⟩ := Bool.and_eq_true_iff.mp run
  obtain ⟨started, start, run⟩ := (Option.any_eq_true _ _).mp run
  obtain ⟨second, run⟩ := Bool.and_eq_true_iff.mp run
  obtain ⟨second, ok⟩ := Bool.and_eq_true_iff.mp second
  obtain ⟨died, exit, run⟩ := (Option.any_eq_true _ _).mp run
  obtain ⟨ticked, tick, run⟩ := (Option.any_eq_true _ _).mp run
  obtain ⟨third, checked⟩ := Bool.and_eq_true_iff.mp run
  obtain ⟨third, admitted⟩ := Bool.and_eq_true_iff.mp third
  have began : Days .missing ticks booted.2.2 fun _ => none := .boot (play_exec boot) (List.all_eq_true.mp first)
  have begun := began.start (play_exec start) (List.all_eq_true.mp second)
  rw [if_pos ok] at begun
  exact ⟨ticked.2.2, (begun.exit exit).tick (play_exec tick) (List.all_eq_true.mp third) (sound _ admitted), checked⟩

/-- The restart goes through. -/
theorem registry_remembers_restart : ∃ w, foot.appId ∈ w.streams ∧ 3 < w.spawned ∧ Remembered w footWished := by
  obtain ⟨w, days, checked⟩ := @days_of_tick restartsSucceed
    (footDied ++ checking foot false ++ spawning foot 3 ++ registering foot 3 3 [])
    (fun moments => moments.all fun m => (failedStart m).isNone) (fun moments none m member cfg failed => by
      have succeeded := List.all_eq_true.mp none m member
      simp [failed] at succeeded)
    (fun w => decide (foot.appId ∈ w.streams ∧ 3 < w.spawned)) (by decide)
  obtain ⟨known, again⟩ := of_decide_eq_true checked
  exact ⟨w, known, again, registry_remembers days⟩

/-- The cage cannot be spawned anew: the stop has taken the entry away, and nothing brings it
back. -/
theorem failed_restart_forgets : ∃ w wishes, Days .missing anyTick w wishes ∧ ¬ Remembered w wishes := by
  obtain ⟨w, days, checked⟩ := @days_of_tick anyTick
    (footDied ++ checking foot false ++ (spawning foot 3).take 2 ++
      [⟨.spawn foot.appId .cage (cageCommand (rundirFor foot.appId)), (.error "" : Except String Child)⟩,
        ⟨.note (.returned (.start foot) false), ()⟩])
    (fun _ => true) (fun _ _ => trivial) (fun w => decide (w.registry = .holds [])) (by decide)
  refine ⟨w, footWished, days, fun remembered => ?_⟩
  obtain ⟨_, configs, holds, lists⟩ := remembered foot.appId foot (Function.update_self ..)
  cases holds.symm.trans (of_decide_eq_true checked)
  cases lists

end days

end Bsdos.Streams
