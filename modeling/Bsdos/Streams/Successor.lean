import Bsdos.Effects.Observe
import Bsdos.Streams.Served
import Bsdos.Streams.Stopped

namespace Bsdos.Streams
open Effects

/-- A path is removed along with a directory it is in. -/
def under (dir path : String) : Bool := path = dir || (dir ++ "/").toList.isPrefixOf path.toList

/-- The paths that a task has made or found, and that no task has removed since. -/
def paths : Observer manager (List String) where
  sees known _ _ op r :=
    match op, r with
    | .createDirAll path, .ok () => path :: known
    | .pathExists path, true => path :: known
    | .removeDirAll dir, _ => known.filter fun path => !under dir path
    | _, _ => known
  feels known _ _ := known

/-- The directory of an instance and the sockets in it that its start waits for. -/
def files (appId : String) : List String :=
  [rundirFor appId, rundirFor appId ++ "/wayland-0", rundirFor appId ++ "/wayland-stream.sock"]

/-- The registry has the configuration, and no other for its app. -/
def Lists (cfg : StreamConfig) (configs : List StreamConfig) : Prop := configs.filter (fun c => c.appId = cfg.appId) = [cfg]

theorem upserted_lists (cfg : StreamConfig) (configs : List StreamConfig) : Lists cfg (upserted cfg configs) := by
  have others : (configs.filter fun c => c.appId ≠ cfg.appId).filter (fun c => c.appId = cfg.appId) = [] := by
    refine List.filter_eq_nil_iff.mpr fun c member => ?_
    simpa using (List.mem_filter.mp member).2
  simp only [Lists, upserted, List.filter_append, others, List.nil_append]
  simp

/-- How far a task has come in its last call: whether it has made the directory, the
paths it has found since, whether it has written the temporary registry file and tried
to rename it, and whether it has returned with success. -/
structure Errand where
  call : Option Call
  housed : Bool
  met : List String
  spoilt : Bool
  written : Bool
  filed : Bool
  done : Bool
  deriving DecidableEq

def Errand.none : Errand := ⟨Option.none, false, [], false, false, false, false⟩

/-- The instance has its directory and the sockets, and its entry has been written, unless
a file operation before that has failed. -/
structure Errand.Complete (γ : Errand) (appId : String) : Prop where
  housed : γ.housed = true
  met : ∀ path ∈ files appId, path = rundirFor appId ∨ path ∈ γ.met
  filed : γ.spoilt = true ∨ γ.written = true ∧ γ.filed = true

/-- What every task keeps to in its calls. -/
def errand : Protocol Host Errand where
  next γ
    | .note (.invoked c), _ => { Errand.none with call := some c }
    | .note (.returned _ ok), _ => { γ with done := ok }
    | .createDirAll _, .ok () => { γ with housed := true, met := [] }
    | .pathExists path, true => { γ with met := path :: γ.met }
    | .registryLoad, .error _ | .registryMkdir, .error _ | .registryWriteTmp _, .error _ => { γ with spoilt := true }
    | .registryWriteTmp _, .ok () => { γ with written := true, filed := false }
    | .registryRename, _ => { γ with filed := true }
    | _, _ => γ
  allows γ
    | .note (.returned c ok) => γ.call = some c ∧ (ok = true → ∀ cfg, c = .start cfg → γ.Complete cfg.appId)
    | .createDirAll path => γ.done = false ∧ ∀ cfg, γ.call = some (.start cfg) → path = rundirFor cfg.appId
    | .pathExists _ | .registryRename => γ.done = false
    | .registryWriteTmp configs => γ.done = false ∧ ∀ cfg, γ.call = some (.start cfg) → Lists cfg configs
    | .removeDirAll _ => ∀ cfg, γ.call ≠ some (.start cfg)
    | _ => True

section follows
variable {γ : Errand} {c : Call} {cfg : StreamConfig} {known : List String}

theorem errand_aside (γ : Errand) {op : Op} (aside : op.Aside) : errand.allows γ op := by
  cases op with
  | note n =>
    cases n with
    | died _ | restarting _ => trivial
    | _ => exact aside.elim
  | lock | unlock | streamsEntries | tryWait _ | status _ _ | interval _ | sleep _ | registryLoad => trivial
  | _ => exact aside.elim

/-- A start past its directory, that has found these paths and not come to the registry. -/
structure Errand.Housed (cfg : StreamConfig) (known : List String) (γ : Errand) : Prop where
  call : γ.call = some (.start cfg)
  done : γ.done = false
  housed : γ.housed = true
  met : ∀ path ∈ known, path ∈ γ.met

/-- The calls with which the processes of a stream are brought up in its directory. -/
def Op.Furnishes : Op → Prop
  | .setPermissions _ _ | .pathExists _ | .spawn _ _ _ | .kill _ | .wait _ | .sleep _ | .spawnTask _ _ _ | .lock
  | .unlock | .streamsInsert _ _ => True
  | _ => False

theorem housed_keeps {α : Type} {p : Task α} (only : p.Only Op.Furnishes) (housed : γ.Housed cfg known) :
    p.Follows errand (fun _ => Errand.Housed cfg known) γ := by
  refine only.keeps (fun γ' op furnishes housed => ?_) housed
  cases op with
  | pathExists path =>
    refine ⟨housed.done, fun found => ?_⟩
    cases found with
    | true =>
      refine ⟨housed.call, housed.done, housed.housed, fun path' member => ?_⟩
      exact List.mem_cons_of_mem path (housed.met path' member)
    | false => exact housed
  | setPermissions _ _ | spawn _ _ _ | kill _ | wait _ | sleep _ | spawnTask _ _ _ | lock | unlock | streamsInsert _ _ =>
    exact ⟨trivial, fun _ => housed⟩
  | _ => exact furnishes.elim

/-- Where a part of a start leaves it: in its directory, with these paths found, or failed. -/
def Meets {α : Type} (cfg : StreamConfig) (known : List String) : Except StreamError α → Errand → Prop
  | .ok _, γ => γ.Housed cfg known
  | .error _, γ => γ.call = some (.start cfg)

theorem housed_meets {α : Type} {p : Fallible α} (only : p.run.Only Op.Furnishes) (housed : γ.Housed cfg known) :
    p.run.Follows errand (Meets cfg known) γ := by
  refine (housed_keeps only housed).mono fun r γ' housed => ?_
  cases r with
  | ok _ => exact housed
  | error _ => exact housed.call

theorem awaitSocket_meets {path : String} {giveUp : Task Unit} {error : StreamError} (polls : Nat)
    (gives : giveUp.Only Op.Furnishes) (housed : γ.Housed cfg known) :
    (awaitSocket path giveUp error polls).run.Follows errand (Meets cfg (path :: known)) γ := by
  have found : Errand.Housed cfg (path :: known) { γ with met := path :: γ.met } := by
    refine ⟨housed.call, housed.done, housed.housed, fun path' member => ?_⟩
    rcases List.mem_cons.mp member with rfl | earlier
    · exact List.mem_cons_self ..
    · exact List.mem_cons_of_mem path (housed.met path' earlier)
  induction polls with
  | zero =>
    rw [awaitSocket_last]
    refine ⟨housed.done, fun there => ?_⟩
    cases there with
    | true => exact found
    | false => exact (housed_keeps gives housed).bind fun _ _ housed => housed.call
  | succ polls ih =>
    rw [awaitSocket_next]
    refine ⟨housed.done, fun there => ?_⟩
    cases there with
    | true => exact found
    | false => exact ⟨trivial, fun _ => ih⟩

theorem spawnApp_furnishes (rundir : String) : (spawnApp cfg rundir).run.Only Op.Furnishes :=
  spawnApp_calls cfg rundir (fun _ => trivial) fun _ => trivial

theorem killAndWait_furnishes (child : Child) : (killAndWait child).Only Op.Furnishes :=
  ⟨trivial, fun _ => ⟨trivial, fun _ => trivial⟩⟩

theorem killBoth_furnishes (cage tunnel : Child) : (killBoth cage tunnel).Only Op.Furnishes :=
  (killAndWait_furnishes cage).bind fun _ => killAndWait_furnishes tunnel

/-- The sockets that a start of the app waits for. -/
def sockets (appId : String) : List String :=
  [rundirFor appId ++ "/wayland-stream.sock", rundirFor appId ++ "/wayland-0"]

theorem spawnProcesses_meets (begun : γ.call = some (.start cfg)) (fresh : γ.done = false) :
    (spawnProcesses cfg (rundirFor cfg.appId)).run.Follows errand (Meets cfg (sockets cfg.appId)) γ := by
  have made (r : Except String Unit) : Meets cfg [] (r.mapError fun e => StreamError.spawnFailed ("mkdir " ++ rundirFor cfg.appId ++ ": " ++ e))
      (errand.next γ (.createDirAll (rundirFor cfg.appId)) r) := by
    cases r with
    | ok _ => exact ⟨begun, fresh, rfl, fun _ member => absurd member List.not_mem_nil⟩
    | error _ => exact begun
  have mkdir : errand.allows γ (.createDirAll (rundirFor cfg.appId)) := by
    refine ⟨fresh, fun cfg' same => ?_⟩
    cases Option.some.inj (begun.symm.trans same)
    rfl
  refine Prog.Follows.tryBind (M := Meets cfg []) ⟨mkdir, fun r => made r⟩ (fun _ γ housed => ?_) fun _ _ call => call
  have chmod (path : String) : Op.Furnishes (.setPermissions path 0o777) := trivial
  refine (housed_meets (tryCall_only (chmod _)) housed).tryBind (fun _ γ housed => ?_) fun _ _ call => call
  refine (housed_meets (spawn_only trivial) housed).tryBind (fun cage γ housed => ?_) fun _ _ call => call
  refine (awaitSocket_meets _ (killAndWait_furnishes cage) housed).tryBind (fun _ γ housed => ?_) fun _ _ call => call
  rw [run_liftBind]
  have opened : (call (.setPermissions (rundirFor cfg.appId ++ "/wayland-0") 0o777)).Only Op.Furnishes :=
    ⟨trivial, fun _ => trivial⟩
  refine (housed_keeps opened housed).bind fun _ γ housed => ?_
  have stopped : (killChild cage).Only Op.Furnishes := ⟨trivial, fun _ => trivial⟩
  refine (housed_meets (onError_only (spawn_only trivial) stopped) housed).tryBind (fun tunnel γ housed => ?_)
    fun _ _ call => call
  refine (awaitSocket_meets _ (killBoth_furnishes cage tunnel) housed).tryBind (fun _ γ housed => ?_) fun _ _ call => call
  refine (housed_meets (onError_only (spawnApp_furnishes _) (killBoth_furnishes cage tunnel)) housed).tryBind
    (fun app γ housed => ?_) fun _ _ call => call
  exact housed

/-- A start that has come to its end, with success. -/
def Errand.Ready (cfg : StreamConfig) (γ : Errand) : Prop := γ.call = some (.start cfg) ∧ γ.Complete cfg.appId

/-- Past the sockets, a start is ready when its entry has been filed, or could not be. -/
theorem Errand.Housed.ready (housed : γ.Housed cfg (sockets cfg.appId))
    (filed : γ.spoilt = true ∨ γ.written = true ∧ γ.filed = true) : γ.Ready cfg := by
  refine ⟨housed.call, housed.housed, fun path member => ?_, filed⟩
  rcases List.mem_cons.mp member with rfl | member
  · exact .inl rfl
  · refine .inr (housed.met path ?_)
    simp only [List.mem_cons, List.not_mem_nil, or_false, sockets] at member ⊢
    exact member.symm

theorem addToRegistry_ready (housed : γ.Housed cfg (sockets cfg.appId)) :
    (addToRegistry cfg).run.Follows errand (fun _ => Errand.Ready cfg) γ := by
  have spoil (γ : Errand) (housed : γ.Housed cfg (sockets cfg.appId)) : Errand.Ready cfg { γ with spoilt := true } :=
    Errand.Housed.ready (γ := { γ with spoilt := true }) ⟨housed.call, housed.done, housed.housed, housed.met⟩ (.inl rfl)
  refine Prog.Follows.tryBind (M := fun r (γ' : Errand) =>
    Outcome (fun _ => γ'.Housed cfg (sockets cfg.appId)) (fun _ => γ'.Ready cfg) r) ⟨trivial, fun r : Except String (List StreamConfig) => ?_⟩
    (fun configs γ housed => ?_) fun _ _ ready => ready
  · cases r with
    | ok configs => exact housed
    | error e => exact spoil γ housed
  refine Prog.Follows.tryBind (M := fun r (γ' : Errand) =>
    Outcome (fun _ => γ'.Housed cfg (sockets cfg.appId)) (fun _ => γ'.Ready cfg) r) ⟨trivial, fun r : Except String Unit => ?_⟩
    (fun _ γ housed => ?_) fun _ _ ready => ready
  · cases r with
    | ok _ => exact housed
    | error e => exact spoil γ housed
  refine Prog.Follows.tryBind (M := fun r (γ' : Errand) =>
    Outcome (fun _ => γ'.Housed cfg (sockets cfg.appId) ∧ γ'.written = true) (fun _ => γ'.Ready cfg) r) ⟨⟨housed.done, fun cfg' same => ?_⟩, fun r : Except String Unit => ?_⟩
    (fun _ γ kept => ?_) fun _ _ ready => ready
  · cases Option.some.inj (housed.call.symm.trans same)
    exact upserted_lists cfg configs
  · cases r with
    | ok _ => exact ⟨⟨housed.call, housed.done, housed.housed, housed.met⟩, rfl⟩
    | error e => exact spoil γ housed
  · obtain ⟨housed, written⟩ := kept
    refine ⟨housed.done, fun r : Except String Unit => ?_⟩
    exact Errand.Housed.ready (γ := { γ with filed := true }) ⟨housed.call, housed.done, housed.housed, housed.met⟩
      (.inr ⟨written, rfl⟩)

theorem register_ready (procs : SpawnedProcesses) (housed : γ.Housed cfg (sockets cfg.appId)) :
    (register cfg (rundirFor cfg.appId) procs).Follows errand (fun _ => Errand.Ready cfg) γ := by
  refine ⟨trivial, fun _ => ⟨trivial, fun _ => ⟨trivial, fun _ => ⟨trivial, fun _ => ⟨trivial, fun _ => ?_⟩⟩⟩⟩⟩
  have closed : (do let _ ← (addToRegistry cfg).run; unlock : Task Unit).Follows errand (fun _ => Errand.Ready cfg) γ :=
    (addToRegistry_ready housed).bind fun _ γ ready => ⟨trivial, fun _ => ready⟩
  exact closed

theorem startStream_errand (cfg : StreamConfig) : (startStream cfg).run.Follows errand (fun _ _ => True) γ := by
  unfold startStream
  rw [recorded_run]
  refine ⟨trivial, fun _ => ?_⟩
  refine Prog.Follows.bind (M := fun r γ' => γ'.call = some (.start cfg) ∧ (r.isOk = true → γ'.Complete cfg.appId)) ?_
    fun r γ' ⟨call, complete⟩ => ⟨⟨call, fun ok cfg' same => ?_⟩, fun _ => trivial⟩
  · rw [startBody_run, checkMembership_run]
    refine ⟨trivial, fun _ => ⟨trivial, fun known => ⟨trivial, fun _ => ?_⟩⟩⟩
    cases known with
    | true => exact ⟨rfl, fun failed => nomatch failed⟩
    | false =>
      refine (spawnProcesses_meets rfl rfl).bind fun r γ' met => ?_
      cases r with
      | error e => exact ⟨met, fun failed => nomatch failed⟩
      | ok procs => exact (register_ready procs met).bind fun _ γ' ready => ⟨ready.1, fun _ => ready.2⟩
  · cases same
    exact complete ok

theorem stopStream_errand (appId : String) : (stopStream appId).run.Follows errand (fun _ _ => True) γ := by
  unfold stopStream
  rw [recorded_run]
  refine ⟨trivial, fun _ => ?_⟩
  refine Prog.Follows.bind (M := fun _ γ' => γ'.call = some (.stop appId)) ?_
    fun r γ' call => ⟨⟨call, fun _ cfg same => (nomatch same)⟩, fun _ => trivial⟩
  rw [stopBody_run]
  refine ⟨trivial, fun _ => ⟨trivial, fun found => ⟨trivial, fun _ => ?_⟩⟩⟩
  cases found with
  | none => exact rfl
  | some inst =>
    have kept : (tearDown inst >>= fun _ => (removeFromRegistry appId).run >>= fun _ =>
        (.ret (.ok ()) : Task (Except StreamError Unit))).Follows errand
        (fun _ γ' => γ'.call = some (.stop appId) ∧ γ'.done = false) { Errand.none with call := some (.stop appId) } := by
      refine (cleared_only appId inst).keeps (fun γ' op clears kept => ?_) ⟨rfl, rfl⟩
      obtain ⟨call, fresh⟩ := kept
      cases op with
      | kill _ | wait _ | status _ _ | abort _ => exact ⟨trivial, fun _ => ⟨call, fresh⟩⟩
      | removeDirAll dir => exact ⟨fun cfg same => (nomatch call.symm.trans same), fun _ => ⟨call, fresh⟩⟩
      | registryLoad => exact ⟨trivial, fun r => by cases r <;> exact ⟨call, fresh⟩⟩
      | registryMkdir => exact ⟨trivial, fun r => by cases r <;> exact ⟨call, fresh⟩⟩
      | registryWriteTmp configs =>
        refine ⟨⟨fresh, fun cfg same => ?_⟩, fun r => by cases r <;> exact ⟨call, fresh⟩⟩
        cases call.symm.trans same
      | registryRename => exact ⟨fresh, fun _ => ⟨call, fresh⟩⟩
      | _ => exact False.elim (clears.elim id id)
    exact kept.mono fun _ _ kept => kept.1

theorem serve_errand {a : Actor} {request : Request} {program : Task Unit} (served : serve a request = some program) :
    program.Follows errand (fun _ _ => True) γ :=
  serve_follows (fun γ _ aside _ => ⟨errand_aside γ aside, fun _ => trivial⟩) (fun cfg _ _ => startStream_errand cfg)
    (fun appId _ _ => stopStream_errand appId) served trivial

end follows

/-- How far the task has come in its last call. -/
def errandOf {W : Type} (t : Actor) (c : Config Host Actor W) : Errand := errand.state .none t c.history

/-- Task `s` has taken the instance of an app out of the map; then task `t` has entered a
start of it, and since then neither has entered another call. Whatever else the run is
made of, from there its steps are admitted by `ok`. -/
inductive Succession (registry : File)
    (ok : Config Host Actor (World × List String) → Label (manager.observed paths) → Prop)
    (s t : Actor) (cfg : StreamConfig) (c : Config Host Actor (World × List String)) : Prop
  | intro {before removed entering entered inst} (other : t ≠ s)
      (reach : Reach (manager.observed paths) (anyStep _) (.idle (.fresh registry, [])) before)
      (removal : Step (manager.observed paths) before (.act ⟨s, .streamsRemove cfg.appId, some inst⟩) removed)
      (waits : Reach (manager.observed paths) (fun _ l => during s l.unobserved) removed entering)
      (enter : Step (manager.observed paths) entering (.act ⟨t, .note (.invoked (.start cfg)), ()⟩) entered)
      (later : Reach (manager.observed paths)
        (fun c l => (during s l.unobserved ∧ during t l.unobserved) ∧ ok c l) entered c)

/-- Once the start has made its directory nobody else removes it, once it has written the
registry nobody else writes it, and its own operations on the registry go through; its
rename may find that somebody else has renamed its file. -/
def spares (t : Actor) (appId : String) (c : Config Host Actor (World × List String)) :
    Label (manager.observed paths) → Prop
  | .act ⟨b, .removeDirAll dir, _⟩ =>
    b ≠ t → (errandOf t c).housed = true → ∀ path ∈ files appId, under dir path = false
  | .act ⟨b, .registryLoad, r⟩ => b = t → Except.isOk (r : Except String (List StreamConfig)) = true
  | .act ⟨b, .registryMkdir, r⟩ => b = t → Except.isOk (r : Except String Unit) = true
  | .act ⟨b, .registryWriteTmp _, r⟩ =>
    (b = t → Except.isOk (r : Except String Unit) = true) ∧ (b ≠ t → (errandOf t c).written = false)
  | .act ⟨b, .registryRename, r⟩ => b = t → Except.isOk (r : Except String Unit) = true ∨ c.world.1.tmp = .missing
  | _ => True

/-- What the start has made stands, as far as it has come. -/
structure Standing (t : Actor) (cfg : StreamConfig) (c : Config Host Actor (World × List String)) : Prop where
  call : (errandOf t c).call = some (.start cfg)
  sound : (errandOf t c).spoilt = false
  there : (errandOf t c).housed = true → ∀ path ∈ files cfg.appId,
    path = rundirFor cfg.appId ∨ path ∈ (errandOf t c).met → path ∈ c.world.2
  entry : (errandOf t c).written = true → ∃ configs, Lists cfg configs ∧
    ((errandOf t c).filed = false ∧ c.world.1.tmp = .holds configs ∨
      c.world.1.registry = .holds configs ∧ c.world.1.tmp = .missing)
  complete : (errandOf t c).done = true → (errandOf t c).Complete cfg.appId

section runs
variable {registry : File} {ok : Config Host Actor (World × List String) → Label (manager.observed paths) → Prop}
  {s t : Actor} {cfg : StreamConfig} {c c' : Config Host Actor (World × List String)}

theorem reach_errands (reach : Reach (manager.observed paths) ok (.idle (.fresh registry, [])) c) :
    c.Conforms errand .none (fun _ => True) t :=
  reach.conforms trivial (fun _ _ served _ _ => serve_errand served) fun _ _ _ _ _ => trivial

/-- The task's own calls. -/
theorem Standing.own {op : Op} {r : op.Ret} {running : Actor → Option (Task Unit)} (standing : Standing t cfg c)
    (allowed : errand.allows (errandOf t c) op) (may : c.world.1.may t op r)
    (inside : ∀ call, op ≠ .note (.invoked call)) (spared : spares t cfg.appId c (.act ⟨t, op, r⟩)) :
    Standing t cfg ⟨(c.world.1.after t op r, paths.sees c.world.2 t c.world.1 op r), ⟨t, op, r⟩ :: c.history, running⟩ := by
  have moved (u : World × List String) : errandOf t (⟨u, ⟨t, op, r⟩ :: c.history, running⟩ : Config Host Actor (World × List String)) =
      errand.next (errandOf t c) op r := Protocol.state_own ..
  obtain ⟨call, sound, there, entry, complete⟩ := standing
  have kept {u : World × List String} (same : errand.next (errandOf t c) op r = errandOf t c)
      (tmp : u.1.tmp = c.world.1.tmp) (filed : u.1.registry = c.world.1.registry) (paths : u.2 = c.world.2) :
      Standing t cfg ⟨u, ⟨t, op, r⟩ :: c.history, running⟩ := by
    have same := (moved u).trans same
    refine ⟨same ▸ call, same ▸ sound, ?_, ?_, same ▸ complete⟩
    · rw [same, paths]
      exact there
    · rw [same, tmp, filed]
      exact entry
  have through {ε α : Type} {e : ε} (failed : Except.isOk (.error e : Except ε α) = true) : False := nomatch failed
  cases op with
  | note n =>
    cases n with
    | invoked call => exact absurd rfl (inside call)
    | returned c' ok =>
      obtain ⟨same, ready⟩ := allowed
      cases Option.some.inj (call.symm.trans same)
      constructor
      · exact (moved _).symm ▸ call
      · exact (moved _).symm ▸ sound
      · exact (moved _).symm ▸ there
      · exact (moved _).symm ▸ entry
      · rw [moved]
        intro done
        have ⟨housed, met, filed⟩ := ready done cfg rfl
        exact ⟨housed, met, filed⟩
    | _ => exact kept rfl rfl rfl rfl
  | createDirAll path =>
    obtain ⟨fresh, own⟩ := allowed
    cases r with
    | error e => exact kept rfl rfl rfl rfl
    | ok _ =>
      refine ⟨(moved _).symm ▸ call, (moved _).symm ▸ sound, ?_, (moved _).symm ▸ entry, ?_⟩
      · rw [moved]
        rintro _ path' _ (rfl | met)
        · exact own cfg call ▸ List.mem_cons_self ..
        · exact absurd met List.not_mem_nil
      · rw [moved]
        exact fun done => nomatch fresh.symm.trans done
  | pathExists path =>
    cases r with
    | false => exact kept rfl rfl rfl rfl
    | true =>
      refine ⟨(moved _).symm ▸ call, (moved _).symm ▸ sound, ?_, (moved _).symm ▸ entry, ?_⟩
      · rw [moved]
        rintro housed path' file (rfl | met)
        · exact List.mem_cons_of_mem _ (there housed _ file (.inl rfl))
        · rcases List.mem_cons.mp met with rfl | met
          · exact List.mem_cons_self ..
          · exact List.mem_cons_of_mem _ (there housed path' file (.inr met))
      · rw [moved]
        exact fun done => nomatch (show (errandOf t c).done = false from allowed).symm.trans done
  | removeDirAll dir => exact absurd call (allowed cfg)
  | registryLoad =>
    cases r with
    | error e => exact (through (spared rfl)).elim
    | ok _ => exact kept rfl rfl rfl rfl
  | registryMkdir =>
    cases r with
    | error e => exact (through (spared rfl)).elim
    | ok _ => exact kept rfl rfl rfl rfl
  | registryWriteTmp configs =>
    obtain ⟨fresh, own⟩ := allowed
    cases r with
    | error e => exact (through (spared.1 rfl)).elim
    | ok _ =>
      refine ⟨(moved _).symm ▸ call, (moved _).symm ▸ sound, (moved _).symm ▸ there, ?_, ?_⟩
      · rw [moved]
        exact fun _ => ⟨configs, own cfg call, .inl ⟨rfl, rfl⟩⟩
      · rw [moved]
        exact fun done => nomatch fresh.symm.trans done
  | registryRename =>
    refine ⟨(moved _).symm ▸ call, (moved _).symm ▸ sound, (moved _).symm ▸ there, ?_, ?_⟩
    · rw [moved]
      intro written
      obtain ⟨configs, lists, found⟩ := entry written
      refine ⟨configs, lists, .inr ?_⟩
      rcases found with ⟨_, tmp⟩ | ⟨filed, missing⟩
      · cases r with
        | ok _ => exact ⟨tmp, rfl⟩
        | error e =>
          rcases spared rfl with ok | missing
          · exact (through ok).elim
          · exact nomatch tmp.symm.trans missing
      · cases r with
        | ok _ => exact absurd missing (of_decide_eq_true may)
        | error e => exact ⟨filed, missing⟩
    · rw [moved]
      exact fun done => nomatch (show (errandOf t c).done = false from allowed).symm.trans done
  | streamsRemove _ | spawn _ _ _ => cases r <;> exact kept rfl rfl rfl rfl
  | _ => exact kept rfl rfl rfl rfl

/-- The calls of the other tasks. -/
theorem Standing.other {b : Actor} {op : Op} {r : op.Ret} {running : Actor → Option (Task Unit)}
    (standing : Standing t cfg c) (other : b ≠ t) (may : c.world.1.may b op r)
    (spared : spares t cfg.appId c (.act ⟨b, op, r⟩)) :
    Standing t cfg ⟨(c.world.1.after b op r, paths.sees c.world.2 b c.world.1 op r), ⟨b, op, r⟩ :: c.history, running⟩ := by
  have same (w : World × List String) : errandOf t (⟨w, ⟨b, op, r⟩ :: c.history, running⟩ : Config Host Actor (World × List String)) =
      errandOf t c := Protocol.state_other _ _ _ other _
  have kept {u : World × List String} (tmp : u.1.tmp = c.world.1.tmp) (filed : u.1.registry = c.world.1.registry)
      (more : ∀ path ∈ c.world.2, path ∈ u.2) : Standing t cfg ⟨u, ⟨b, op, r⟩ :: c.history, running⟩ := by
    refine ⟨(same u).symm ▸ standing.call, (same u).symm ▸ standing.sound, ?_, ?_, (same u).symm ▸ standing.complete⟩
    · rw [same]
      exact fun housed path file known => more path (standing.there housed path file known)
    · rw [same, tmp, filed]
      exact standing.entry
  cases op with
  | createDirAll path =>
    cases r with
    | ok _ => exact kept rfl rfl fun _ member => List.mem_cons_of_mem path member
    | error _ => exact kept rfl rfl fun _ member => member
  | pathExists path =>
    cases r with
    | true => exact kept rfl rfl fun _ member => List.mem_cons_of_mem path member
    | false => exact kept rfl rfl fun _ member => member
  | removeDirAll dir =>
    refine ⟨(same _).symm ▸ standing.call, (same _).symm ▸ standing.sound, ?_, ?_, (same _).symm ▸ standing.complete⟩
    · rw [same]
      intro housed path file known
      refine List.mem_filter.mpr ⟨standing.there housed path file known, ?_⟩
      simp [spared other housed path file]
    · rw [same]
      exact standing.entry
  | registryWriteTmp configs =>
    refine ⟨(same _).symm ▸ standing.call, (same _).symm ▸ standing.sound, ?_, ?_, (same _).symm ▸ standing.complete⟩
    · rw [same]
      exact standing.there
    · rw [same, spared.2 other]
      exact fun written => nomatch written
  | registryRename =>
    cases r with
    | error _ => exact kept rfl rfl fun _ member => member
    | ok _ =>
      refine ⟨(same _).symm ▸ standing.call, (same _).symm ▸ standing.sound, ?_, ?_, (same _).symm ▸ standing.complete⟩
      · rw [same]
        exact standing.there
      · rw [same]
        intro written
        obtain ⟨configs, lists, ⟨_, tmp⟩ | ⟨_, missing⟩⟩ := standing.entry written
        · exact ⟨configs, lists, .inr ⟨tmp, rfl⟩⟩
        · exact absurd missing (of_decide_eq_true may)
  | streamsRemove _ | registryLoad | registryMkdir | spawn _ _ _ => cases r <;> exact kept rfl rfl fun _ member => member
  | _ => exact kept rfl rfl fun _ member => member

theorem standing_entered {entering entered : Config Host Actor (World × List String)}
    (enter : Step (manager.observed paths) entering (.act ⟨t, .note (.invoked (.start cfg)), ()⟩) entered) :
    Standing t cfg entered := by
  cases enter with
  | @act _ op next r at_work may =>
    have begun : errandOf t (⟨(manager.observed paths).effect t entering.world (.note (.invoked (.start cfg))) (),
        ⟨t, .note (.invoked (.start cfg)), ()⟩ :: entering.history,
        Function.update entering.running t (some (next ()))⟩ : Config Host Actor (World × List String)) =
        { Errand.none with call := some (.start cfg) } := Protocol.state_own ..
    refine ⟨begun ▸ rfl, begun ▸ rfl, ?_, ?_, ?_⟩
    · rw [begun]
      exact fun housed => nomatch housed
    · rw [begun]
      exact fun written => nomatch written
    · rw [begun]
      exact fun done => nomatch done

theorem succession_standing (succession : Succession registry (spares t cfg.appId) s t cfg c) : Standing t cfg c := by
  obtain ⟨_, reach, removal, waits, enter, later⟩ := succession
  have before := (Reach.next ((Reach.next reach removal trivial).trans (waits.mono fun _ _ _ => trivial)) enter trivial)
  induction later with
  | start => exact standing_entered enter
  | @next c l c' run step admitted standing =>
    obtain ⟨⟨_, inside⟩, spared⟩ := admitted
    have errands := reach_errands (t := t) (before.trans (run.mono fun _ _ _ => trivial))
    cases step with
    | @act b op next r at_work may =>
      by_cases own : b = t
      · subst own
        refine standing.own (errands.allows (Step.act at_work may)) may (fun call entry => ?_) spared
        subst entry
        exact of_decide_eq_true inside rfl
      · exact standing.other own may spared
    | env moved =>
      obtain ⟨u, there, rfl⟩ := Option.map_eq_some_iff.mp moved
      obtain ⟨exited, rfl⟩ := World.change_eq there
      exact ⟨standing.call, standing.sound, standing.there, standing.entry, standing.complete⟩
    | _ => exact ⟨standing.call, standing.sound, standing.there, standing.entry, standing.complete⟩

/-- Where nobody removes the directory of the new instance once it is made, or writes the
registry once its entry is written, a start that has returned with success has both. -/
theorem successor_unharmed (succession : Succession registry (spares t cfg.appId) s t cfg c)
    (returned : (errandOf t c).done = true) :
    (∀ path ∈ files cfg.appId, path ∈ c.world.2) ∧
      ∃ configs, c.world.1.registry = .holds configs ∧ Lists cfg configs := by
  have standing := succession_standing succession
  obtain ⟨housed, met, filed⟩ := standing.complete returned
  refine ⟨fun path file => standing.there housed path file (met path file), ?_⟩
  rcases filed with spoilt | ⟨written, filed⟩
  · exact nomatch standing.sound.symm.trans spoilt
  · obtain ⟨configs, lists, ⟨unfiled, _⟩ | ⟨entry, _⟩⟩ := standing.entry written
    · exact nomatch unfiled.symm.trans filed
    · exact ⟨configs, entry, lists⟩

/-- A succession taken step by step. -/
theorem replay_succession (registry : File)
    (ok : Config Host Actor (World × List String) → Label (manager.observed paths) → Prop) (s t : Actor) (cfg : StreamConfig) (inst : StreamInstance) (other : t ≠ s)
    (good : Config Host Actor (World × List String) → Label (manager.observed paths) → Bool)
    (sound : ∀ c l, good c l = true → ok c l)
    (first waiting rest : List (Label (manager.observed paths)))
    (check : Config Host Actor (World × List String) → Bool)
    (run : (replay (fun _ _ => true) (.idle (.fresh registry, [])) first).any (fun before =>
      (before.fire (S := manager.observed paths) (.act ⟨s, .streamsRemove cfg.appId, some inst⟩)).any fun removed =>
        (replay (fun _ l => during s l.unobserved) removed waiting).any fun entering =>
          (entering.fire (S := manager.observed paths) (.act ⟨t, .note (.invoked (.start cfg)), ()⟩)).any fun entered =>
            (replay (fun c l => (during s l.unobserved && during t l.unobserved) && good c l) entered rest).any check) = true) :
    ∃ c, Succession registry ok s t cfg c ∧ check c = true := by
  obtain ⟨before, begun, run⟩ := (Option.any_eq_true _ _).mp run
  obtain ⟨removed, removal, run⟩ := (Option.any_eq_true _ _).mp run
  obtain ⟨entering, waits, run⟩ := (Option.any_eq_true _ _).mp run
  obtain ⟨entered, enter, run⟩ := (Option.any_eq_true _ _).mp run
  obtain ⟨c, later, checked⟩ := (Option.any_eq_true _ _).mp run
  refine ⟨c, ⟨other, replay_reach (fun _ _ _ => trivial) begun, Config.fire_step removal,
    replay_reach (fun _ _ kept => kept) waits, Config.fire_step enter, replay_reach (fun c l kept => ?_) later⟩, checked⟩
  obtain ⟨inside, admitted⟩ := Bool.and_eq_true_iff.mp kept
  exact ⟨Bool.and_eq_true_iff.mp inside, sound c l admitted⟩

/-- The cage of a stream dies, and the monitor sets about to stop it. -/
def diedThenStop : List (Label manager) :=
  serving manager .ctl (.start foot) (checking foot false ++ spawning foot 0 ++ registering foot 0 0 []) ++
    [.env (.exit 0), .begin .monitor .tick] ++
    calling manager .monitor [⟨.interval 10, ()⟩, ⟨.lock, ()⟩,
      ⟨.streamsEntries, ([(foot.appId, footInstance foot 0 0)] : List (String × StreamInstance))⟩,
      ⟨.tryWait 0, (.ok true : Except String Bool)⟩, ⟨.tryWait 1, (.ok false : Except String Bool)⟩,
      ⟨.tryWait 2, (.ok false : Except String Bool)⟩, ⟨.note (.died foot.appId), ()⟩, ⟨.unlock, ()⟩,
      ⟨.note (.invoked (.stop foot.appId)), ()⟩, ⟨.lock, ()⟩]

/-- The monitor goes on with its stop, to its return. -/
def stopThrough (configs : List StreamConfig) : List (Label manager) :=
  calling manager .monitor (tearingDown (footInstance foot 0 0) ++ unregistering foot.appId configs ++
    [⟨.note (.returned (.stop foot.appId) true), ()⟩])

/-- The client starts the stream again. -/
def startAgain (configs : List StreamConfig) : List (Label manager) :=
  calling manager .ctl ((checking foot false).tail ++ spawning foot 3 ++ registering foot 3 3 configs)

/-- Nobody removes a directory or writes the registry but before the start of `t` has come
to it, and every operation on the registry goes through. -/
def sparing (t : Actor) (c : Config Host Actor (World × List String)) : Label (manager.observed paths) → Bool
  | .act ⟨_, .removeDirAll _, _⟩ => !(errandOf t c).housed
  | .act ⟨_, .registryLoad, r⟩ => Except.isOk (r : Except String (List StreamConfig))
  | .act ⟨_, .registryMkdir, r⟩ | .act ⟨_, .registryRename, r⟩ => Except.isOk (r : Except String Unit)
  | .act ⟨b, .registryWriteTmp _, r⟩ => Except.isOk (r : Except String Unit) && (b = t || !(errandOf t c).written)
  | _ => true

theorem spares_of_sparing {l : Label (manager.observed paths)} {appId : String} (sparing : sparing t c l = true) :
    spares t appId c l := by
  cases l with
  | act e =>
    obtain ⟨b, op, r⟩ := e
    cases op with
    | removeDirAll dir =>
      intro _ housed
      simp [Streams.sparing, housed] at sparing
    | registryLoad | registryMkdir => exact fun _ => sparing
    | registryRename => exact fun _ => .inl sparing
    | registryWriteTmp configs =>
      obtain ⟨through, own⟩ := Bool.and_eq_true_iff.mp sparing
      refine ⟨fun _ => through, fun other => ?_⟩
      simpa [other] using own
    | _ => trivial
  | _ => trivial

/-- The monitor's stop is over before the start makes its directory. -/
theorem successor_unharmed_after : ∃ c : Config Host Actor (World × List String),
    (errandOf .monitor c).done = true ∧ (errandOf .ctl c).done = true ∧
    (∀ path ∈ files foot.appId, path ∈ c.world.2) ∧
    ∃ configs, c.world.1.registry = .holds configs ∧ Lists foot configs := by
  obtain ⟨c, succession, checked⟩ := replay_succession .missing (spares .ctl foot.appId)
    .monitor .ctl foot (footInstance foot 0 0) (by decide) (sparing .ctl) (fun _ _ => spares_of_sparing)
    (diedThenStop.map (Label.observed paths))
    ([.act ⟨.monitor, .unlock, ()⟩, .begin .ctl (.start foot)].map (Label.observed paths))
    ((stopThrough [foot] ++ startAgain []).map (Label.observed paths))
    (fun c => (errandOf .monitor c).done && (errandOf .ctl c).done) (by decide +kernel)
  obtain ⟨stopped, started⟩ := Bool.and_eq_true_iff.mp checked
  exact ⟨c, stopped, started, successor_unharmed succession started⟩

/-- The start comes to its end while the monitor's stop is still killing processes: the stop
then removes the new instance's directory and its entry. -/
theorem successor_erased : ∃ c : Config Host Actor (World × List String),
    Succession .missing (anyStep _) .monitor .ctl foot c ∧
    (errandOf .monitor c).done = true ∧ (errandOf .ctl c).done = true ∧ foot.appId ∈ c.world.1.streams ∧
    (∀ path ∈ files foot.appId, path ∉ c.world.2) ∧ c.world.1.registry = .holds [] := by
  obtain ⟨c, succession, checked⟩ := replay_succession .missing (anyStep _)
    .monitor .ctl foot (footInstance foot 0 0) (by decide) (fun _ _ => true) (fun _ _ _ => trivial)
    (diedThenStop.map (Label.observed paths))
    ([.act ⟨.monitor, .unlock, ()⟩, .begin .ctl (.start foot)].map (Label.observed paths))
    ((startAgain [foot] ++ stopThrough [foot]).map (Label.observed paths))
    (fun c => ((errandOf .monitor c).done && (errandOf .ctl c).done) && (foot.appId ∈ c.world.1.streams ∧
      (∀ path ∈ files foot.appId, path ∉ c.world.2) ∧ c.world.1.registry = .holds [])) (by decide +kernel)
  obtain ⟨returned, left⟩ := Bool.and_eq_true_iff.mp checked
  obtain ⟨stopped, started⟩ := Bool.and_eq_true_iff.mp returned
  obtain ⟨known, gone, empty⟩ := of_decide_eq_true left
  exact ⟨c, succession, stopped, started, known, gone, empty⟩

end runs

end Bsdos.Streams
