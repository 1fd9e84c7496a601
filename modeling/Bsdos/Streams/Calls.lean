import Bsdos.Streams.System

namespace Bsdos.Streams
open Effects

section equations

theorem awaitSocket_last (path : String) (giveUp : Task Unit) (error : StreamError) :
    (awaitSocket path giveUp error 0).run = .call (.pathExists path) fun found : Bool =>
      if found then .ret (.ok ()) else giveUp >>= fun _ => .ret (.error error) := by
  unfold awaitSocket
  rw [run_liftBind]
  refine congrArg (Prog.call _) (funext fun found => ?_)
  cases found with
  | true => rfl
  | false => exact run_liftBind ..

theorem awaitSocket_next (path : String) (giveUp : Task Unit) (error : StreamError) (polls : Nat) :
    (awaitSocket path giveUp error (polls + 1)).run = .call (.pathExists path) fun found : Bool =>
      if found then .ret (.ok ()) else .call (.sleep 500) fun _ => (awaitSocket path giveUp error polls).run := by
  refine congrArg (Prog.call _) (funext fun found => ?_)
  cases found with
  | true => rfl
  | false => rfl

theorem spawn_run (appId : String) (role : Role) (command : Command) (failed : String) :
    (spawn appId role command failed).run = .call (.spawn appId role command) fun r : Except String Child =>
      .ret (r.mapError fun e => .spawnFailed (failed ++ e)) := rfl

theorem onError_run {α : Type} (task : Fallible α) (cleanup : Task Unit) :
    (onError task cleanup).run = task.run >>= fun
      | .ok value => .ret (.ok value)
      | .error e => cleanup >>= fun _ => .ret (.error e) := by
  unfold onError
  rw [run_attemptBind]
  refine congrArg (task.run >>= ·) (funext fun r => ?_)
  cases r with
  | ok value => rfl
  | error e => exact run_liftBind ..

theorem recorded_run (c : Call) (body : Fallible Unit) :
    (recorded c body).run = .call (.note (.invoked c)) fun _ => body.run >>= fun r =>
      .call (.note (.returned c r.isOk)) fun _ => .ret r := rfl

theorem checkMembership_run (appId : String) :
    (checkMembership appId).run = .call .lock fun _ => .call (.streamsContains appId) fun known : Bool =>
      .call .unlock fun _ => .ret (if known then .error (.alreadyRunning appId) else .ok ()) := by
  refine congrArg (Prog.call _) (funext fun _ => congrArg (Prog.call _) (funext fun known => ?_))
  cases known with
  | true => rfl
  | false => rfl

theorem stopBody_run (appId : String) :
    (stopBody appId).run = .call .lock fun _ => .call (.streamsRemove appId) fun found : Option StreamInstance =>
      .call .unlock fun _ =>
        match found with
        | none => .ret (.error (.notFound appId))
        | some inst => tearDown inst >>= fun _ => (removeFromRegistry appId).run >>= fun _ => .ret (.ok ()) := by
  refine congrArg (Prog.call _) (funext fun _ => congrArg (Prog.call _) (funext fun found => ?_))
  cases found with
  | none => rfl
  | some inst =>
    refine congrArg (Prog.call _) (funext fun _ => ?_)
    have tail := run_liftBind (tearDown inst) fun _ =>
      (attempt (removeFromRegistry appId) >>= fun _ => pure () : Fallible Unit)
    exact tail.trans (congrArg (tearDown inst >>= ·) (funext fun _ => run_attemptBind ..))

theorem startBody_run (cfg : StreamConfig) :
    (startBody cfg).run = (checkMembership cfg.appId).run >>= fun
      | .error e => .ret (.error e)
      | .ok () => (spawnProcesses cfg (rundirFor cfg.appId)).run >>= fun
        | .error e => .ret (.error e)
        | .ok procs => register cfg (rundirFor cfg.appId) procs >>= fun _ => .ret (.ok ()) := by
  unfold startBody
  rw [run_tryBind]
  refine congrArg ((checkMembership cfg.appId).run >>= ·) (funext fun checked => ?_)
  cases checked with
  | error e => rfl
  | ok _ =>
    show (spawnProcesses cfg (rundirFor cfg.appId) >>= fun procs => _ : Fallible Unit).run = _
    rw [run_tryBind]
    refine congrArg ((spawnProcesses cfg (rundirFor cfg.appId)).run >>= ·) (funext fun spawned => ?_)
    cases spawned with
    | error e => rfl
    | ok procs => rfl

end equations

section only
variable {Q : Op → Prop}

theorem tryCall_only {α : Type} {op : Op} {wrap : String → StreamError} {answers : op.Ret = Except String α}
    (admitted : Q op) : (tryCall op wrap answers).run.Only Q := by
  have cast {β : Type} (p : Task β) (same : β = Except String α) (only : p.Only Q) :
      (same ▸ p : Task (Except String α)).Only Q := by
    subst same
    exact only
  exact (cast (call op) answers ((Prog.only_perform (E := Host) Q op).mpr admitted)).bind fun _ => trivial

theorem awaitSocket_only {path : String} {giveUp : Task Unit} {error : StreamError} {polls : Nat}
    (look : Q (.pathExists path)) (wait : Q (.sleep 500)) (gives : giveUp.Only Q) :
    (awaitSocket path giveUp error polls).run.Only Q := by
  induction polls with
  | zero =>
    rw [awaitSocket_last]
    refine ⟨look, fun found => ?_⟩
    cases found with
    | true => trivial
    | false => exact gives.bind fun _ => trivial
  | succ polls ih =>
    rw [awaitSocket_next]
    refine ⟨look, fun found => ?_⟩
    cases found with
    | true => trivial
    | false => exact ⟨wait, fun _ => ih⟩

theorem firstExisting_only (looks : ∀ path, Q (.pathExists path)) (paths : List String) :
    (firstExisting paths).Only Q := by
  induction paths with
  | nil => trivial
  | cons path paths ih =>
    refine ⟨looks path, fun found => ?_⟩
    cases found with
    | true => trivial
    | false => exact ih

theorem saveRegistryVec_only {configs : List StreamConfig} (mkdir : Q .registryMkdir)
    (write : Q (.registryWriteTmp configs)) (rename : Q .registryRename) : (saveRegistryVec configs).run.Only Q := by
  refine (tryCall_only mkdir).tryBind fun _ => ?_
  exact (tryCall_only write).tryBind fun _ => tryCall_only rename

theorem addToRegistry_only (load : Q .registryLoad) (mkdir : Q .registryMkdir)
    (write : ∀ configs, Q (.registryWriteTmp configs)) (rename : Q .registryRename) (cfg : StreamConfig) :
    (addToRegistry cfg).run.Only Q := by
  exact (tryCall_only load).tryBind fun configs => saveRegistryVec_only mkdir (write _) rename

theorem removeFromRegistry_only (load : Q .registryLoad) (mkdir : Q .registryMkdir)
    (write : ∀ configs, Q (.registryWriteTmp configs)) (rename : Q .registryRename) (appId : String) :
    (removeFromRegistry appId).run.Only Q := by
  refine (tryCall_only load).tryBind fun configs => ?_
  by_cases same : (removed appId configs).length = configs.length
  · rw [if_pos same]
    trivial
  · rw [if_neg same]
    exact saveRegistryVec_only mkdir (write _) rename

theorem spawn_only {appId : String} {role : Role} {command : Command} {failed : String}
    (admitted : Q (.spawn appId role command)) : (spawn appId role command failed).run.Only Q :=
  ⟨admitted, fun _ => trivial⟩

theorem onError_only {α : Type} {task : Fallible α} {cleanup : Task Unit} (only : task.run.Only Q)
    (cleans : cleanup.Only Q) : (onError task cleanup).run.Only Q := by
  rw [onError_run]
  refine only.bind fun r => ?_
  cases r with
  | ok value => trivial
  | error e => exact cleans.bind fun _ => trivial

theorem isDead_only (waits : ∀ child, Q (.tryWait child)) (child : Child) : (isDead child).Only Q :=
  ⟨waits child, fun _ => trivial⟩

theorem appDead_only (waits : ∀ child, Q (.tryWait child)) (runs : ∀ program args, Q (.status program args))
    (inst : StreamInstance) : (appDead inst).Only Q := by
  unfold appDead
  split
  · refine ⟨runs _ _, fun r => ?_⟩
    cases r with
    | ok code => trivial
    | error e => trivial
  · exact isDead_only waits inst.app

theorem collectDead_only (waits : ∀ child, Q (.tryWait child)) (runs : ∀ program args, Q (.status program args))
    (died : ∀ appId, Q (.note (.died appId))) (entries : List (String × StreamInstance)) :
    (collectDead entries).Only Q := by
  induction entries with
  | nil => trivial
  | cons entry entries ih =>
    refine (isDead_only waits entry.2.cage).bind fun cageDead => ?_
    refine (isDead_only waits entry.2.tunnel).bind fun tunnelDead => ?_
    refine (appDead_only waits runs entry.2).bind fun appDead => ?_
    split
    · exact ⟨died entry.1, fun _ => ih.bind fun _ => trivial⟩
    · exact ih

/-- Bringing up the app spawns it, after a look for its binary. -/
theorem spawnApp_calls (cfg : StreamConfig) (rundir : String) (looks : ∀ path, Q (.pathExists path))
    (spawns : ∀ command, Q (.spawn cfg.appId .app command)) : (spawnApp cfg rundir).run.Only Q := by
  unfold spawnApp
  split
  · exact spawn_only (spawns _)
  · exact spawn_only (spawns _)
  · exact spawn_only (spawns _)
  · exact spawn_only (spawns _)
  · rw [run_liftBind]
    exact (firstExisting_only looks _).bind fun _ => spawn_only (spawns _)
  · rw [run_liftBind]
    exact (firstExisting_only looks _).bind fun _ => spawn_only (spawns _)
  · exact spawn_only (spawns _)
  · exact spawn_only (spawns _)
  · exact spawn_only (spawns _)
  · trivial

theorem killAndWait_calls {child : Child} (kills : Q (.kill child)) (waits : Q (.wait child)) : (killAndWait child).Only Q :=
  ⟨kills, fun _ => ⟨waits, fun _ => trivial⟩⟩

theorem spawnProcesses_calls (cfg : StreamConfig) (rundir : String) (mkdir : Q (.createDirAll rundir))
    (chmod : Q (.setPermissions rundir 0o777)) (opens : Q (.setPermissions (rundir ++ "/wayland-0") 0o777))
    (spawns : ∀ role command, Q (.spawn cfg.appId role command)) (looks : ∀ path, Q (.pathExists path))
    (sleeps : Q (.sleep 500)) (kills : ∀ child, Q (.kill child)) (waits : ∀ child, Q (.wait child)) :
    (spawnProcesses cfg rundir).run.Only Q := by
  have stops (child : Child) : (killAndWait child).Only Q := killAndWait_calls (kills child) (waits child)
  have both (cage tunnel : Child) : (killBoth cage tunnel).Only Q := (stops cage).bind fun _ => stops tunnel
  refine (tryCall_only mkdir).tryBind fun _ => ?_
  refine (tryCall_only chmod).tryBind fun _ => ?_
  refine (spawn_only (spawns _ _)).tryBind fun cage => ?_
  refine (awaitSocket_only (looks _) sleeps (stops cage)).tryBind fun _ => ?_
  rw [run_liftBind]
  have opened : (call (.setPermissions (rundir ++ "/wayland-0") 0o777)).Only Q := ⟨opens, fun _ => trivial⟩
  refine opened.bind fun _ => ?_
  have kill : (killChild cage).Only Q := ⟨kills cage, fun _ => trivial⟩
  refine (onError_only (spawn_only (spawns _ _)) kill).tryBind fun tunnel => ?_
  refine (awaitSocket_only (looks _) sleeps (both cage tunnel)).tryBind fun _ => ?_
  exact (onError_only (spawnApp_calls cfg rundir looks (spawns _)) (both cage tunnel)).tryBind fun _ => trivial

theorem tearDown_calls (inst : StreamInstance) (kills : ∀ child, Q (.kill child)) (waits : ∀ child, Q (.wait child))
    (runs : ∀ program args, Q (.status program args)) (aborts : ∀ handle, Q (.abort handle))
    (removes : Q (.removeDirAll inst.rundir)) : (tearDown inst).Only Q := by
  have last : ∀ _ : Unit, (call (.removeDirAll inst.rundir) >>= fun _ => pure () : Task Unit).Only Q :=
    fun _ => ⟨removes, fun _ => trivial⟩
  refine ⟨kills _, fun _ => ⟨kills _, fun _ => ⟨kills _, fun _ => ?_⟩⟩⟩
  split
  · exact ⟨runs _ _, fun _ => ⟨waits _, fun _ => ⟨waits _, fun _ => ⟨waits _, fun _ => ⟨aborts _, fun _ =>
      ⟨aborts _, fun _ => ⟨aborts _, last⟩⟩⟩⟩⟩⟩⟩
  · exact ⟨waits _, fun _ => ⟨waits _, fun _ => ⟨waits _, fun _ => ⟨aborts _, fun _ =>
      ⟨aborts _, fun _ => ⟨aborts _, last⟩⟩⟩⟩⟩⟩

end only

/-- The calls made while the processes of a stream are brought up. -/
def Op.Spawns (appId : String) : Op → Prop
  | .spawn id _ _ => id = appId
  | .createDirAll _ | .setPermissions _ _ | .pathExists _ | .sleep _ | .kill _ | .wait _ => True
  | _ => False

/-- The calls made while an instance is torn down. -/
def Op.TearsDown : Op → Prop
  | .kill _ | .wait _ | .status _ _ | .abort _ | .removeDirAll _ => True
  | _ => False

/-- The calls on the registry file. -/
def Op.Records : Op → Prop
  | .registryLoad | .registryMkdir | .registryWriteTmp _ | .registryRename => True
  | _ => False

theorem spawnProcesses_only (cfg : StreamConfig) (rundir : String) :
    (spawnProcesses cfg rundir).run.Only (Op.Spawns cfg.appId) :=
  spawnProcesses_calls cfg rundir trivial trivial trivial (fun _ _ => rfl) (fun _ => trivial) trivial (fun _ => trivial)
    fun _ => trivial

theorem tearDown_only (inst : StreamInstance) : (tearDown inst).Only Op.TearsDown :=
  tearDown_calls inst (fun _ => trivial) (fun _ => trivial) (fun _ _ => trivial) (fun _ => trivial) trivial

theorem add_records (cfg : StreamConfig) : (addToRegistry cfg).run.Only Op.Records :=
  addToRegistry_only trivial trivial (fun _ => trivial) trivial cfg

theorem remove_records (appId : String) : (removeFromRegistry appId).run.Only Op.Records :=
  removeFromRegistry_only trivial trivial (fun _ => trivial) trivial appId

/-- The calls of a stop past the map. -/
def Op.Clears (op : Op) : Prop := op.TearsDown ∨ op.Records

theorem cleared_only (appId : String) (inst : StreamInstance) :
    (tearDown inst >>= fun _ => (removeFromRegistry appId).run >>= fun _ =>
      (.ret (.ok ()) : Task (Except StreamError Unit))).Only Op.Clears :=
  ((tearDown_only inst).mono fun _ => .inl).bind fun _ =>
    ((remove_records appId).mono fun _ => .inr).bind fun _ => trivial

/-- The calls of a start body, as to the map and the processes. -/
def Op.Starts (appId : String) : Op → Prop
  | .spawn id _ _ => id = appId
  | .streamsInsert id inst => id = appId ∧ inst.cfg.appId = appId
  | .note _ | .streamsRemove _ | .streamsEntries | .interval _ => False
  | _ => True

theorem startBody_only (cfg : StreamConfig) : (startBody cfg).run.Only (Op.Starts cfg.appId) := by
  have spawns (op : Op) (spawns : op.Spawns cfg.appId) : op.Starts cfg.appId := by
    cases op with
    | spawn _ _ _ => exact spawns
    | createDirAll _ | setPermissions _ _ | pathExists _ | sleep _ | kill _ | wait _ => trivial
    | _ => exact spawns.elim
  have records (op : Op) (records : op.Records) : op.Starts cfg.appId := by
    cases op with
    | registryLoad | registryMkdir | registryWriteTmp _ | registryRename => trivial
    | _ => exact records.elim
  rw [startBody_run, checkMembership_run]
  refine ⟨trivial, fun _ => ⟨trivial, fun known => ⟨trivial, fun _ => ?_⟩⟩⟩
  cases known with
  | true => trivial
  | false =>
    refine ((spawnProcesses_only cfg _).mono spawns).bind fun r => ?_
    cases r with
    | error e => trivial
    | ok procs =>
      refine ⟨trivial, fun _ => ⟨trivial, fun _ => ⟨trivial, fun _ => ⟨trivial, fun _ => ⟨⟨rfl, rfl⟩, fun _ => ?_⟩⟩⟩⟩⟩
      have unlocks : unlock.Only (Op.Starts cfg.appId) := ⟨trivial, fun _ => trivial⟩
      exact (((add_records cfg).mono records).bind fun _ => unlocks).bind fun _ => trivial

end Bsdos.Streams
