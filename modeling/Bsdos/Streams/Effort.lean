import Bsdos.Streams.Calls
import Mathlib.Data.Finset.Insert

namespace Bsdos.Streams
open Effects

/-- What a call has done so far: the processes it has spawned, holds and has sent a
kill, whether it is past its first lock, and whether it has written the map or the
registry. -/
structure Effort where
  call : Option Call
  spawned : Finset Child
  held : Finset Child
  killed : Finset Child
  checked : Bool
  wrote : Bool
  deriving DecidableEq

def Effort.idle : Effort := ⟨none, ∅, ∅, ∅, false, false⟩

def Effort.begun (c : Call) : Effort := ⟨some c, ∅, ∅, ∅, false, false⟩

def StreamInstance.kids (inst : StreamInstance) : Finset Child := {inst.cage, inst.tunnel, inst.app}

def Effort.next (γ : Effort) : (op : Op) → op.Ret → Effort
  | .note (.invoked c), _ => .begun c
  | .note (.returned _ _), _ => { γ with call := none }
  | .unlock, _ => { γ with checked := true }
  | .spawn _ _ _, .ok child => { γ with spawned := insert child γ.spawned, held := insert child γ.held }
  | .kill child, _ => { γ with held := γ.held.erase child, killed := insert child γ.killed }
  | .streamsInsert _ inst, _ => { γ with held := γ.held \ inst.kids, wrote := true }
  | .streamsRemove _, some inst => { γ with held := γ.held ∪ inst.kids, wrote := true }
  | .registryWriteTmp _, _ | .registryRename, _ => { γ with wrote := true }
  | _, _ => γ

/-- A start that waits has written nothing, and past its first lock it holds a process it
has spawned. -/
def Effort.Waiting (γ : Effort) : Prop :=
  ∀ cfg, γ.call = some (.start cfg) → γ.wrote = false ∧
    (γ.checked = false ∧ γ.spawned = ∅ ∨ γ.checked = true ∧ ∃ child ∈ γ.held, child ∈ γ.spawned)

/-- The process is the call's own: held, or killed by it already. -/
def Effort.Owns (γ : Effort) (child : Child) : Prop := child ∈ γ.held ∨ child ∈ γ.killed

/-- The calls admitted at each point. A process is killed by a call that holds it, an
instance enters the map with processes its call holds, and a failed start has killed
all it spawned. -/
def Effort.Admits (γ : Effort) : Op → Prop
  | .kill child => γ.Owns child
  | .streamsInsert _ inst => inst.kids ⊆ γ.held
  | .lock | .sleep _ => γ.Waiting
  | .note (.returned (.start _) false) => γ.spawned ⊆ γ.killed ∧ γ.wrote = false
  | _ => True

/-- A call that holds something is in progress. -/
def Effort.Busy (γ : Effort) : Prop := γ.call = none → γ.held = ∅

/-- What every task keeps to, call by call. A tidy task moreover holds nothing when it
enters a call: a task that was dropped in a call may not be tidy. -/
def effort (tidy : Bool) : Protocol Host Effort where
  next := Effort.next
  allows γ op := γ.Busy ∧ γ.Admits op ∧
    (tidy → ∀ c, op = .note (.invoked c) → γ.held = ∅)

/-- The calls that have no part in what a call holds or has written. -/
def Op.Neutral : Op → Prop
  | .note (.died _) | .note (.restarting _) | .streamsContains _ | .streamsEntries | .createDirAll _
  | .setPermissions _ _ | .removeDirAll _ | .pathExists _ | .wait _ | .tryWait _ | .status _ _
  | .spawnTask _ _ _ | .abort _ | .interval _ | .registryLoad | .registryMkdir => True
  | _ => False

theorem Op.Neutral.effort {op : Op} (neutral : op.Neutral) (γ : Effort) :
    γ.Admits op ∧ (∀ c, op ≠ .note (.invoked c)) ∧ ∀ r, γ.next op r = γ := by
  cases op with
  | note n =>
    cases n with
    | died _ | restarting _ => exact ⟨trivial, by simp, fun _ => rfl⟩
    | _ => exact neutral.elim
  | streamsContains _ | streamsEntries | createDirAll _ | setPermissions _ _ | removeDirAll _ | pathExists _
  | wait _ | tryWait _ | status _ _ | spawnTask _ _ _ | abort _ | interval _ | registryLoad | registryMkdir =>
    exact ⟨trivial, by simp, fun _ => rfl⟩
  | _ => exact neutral.elim

def Effort.kill (γ : Effort) (child : Child) : Effort :=
  { γ with held := γ.held.erase child, killed := insert child γ.killed }

theorem Effort.Owns.kill {γ : Effort} {child : Child} (own : γ.Owns child) (other : Child) :
    (γ.kill other).Owns child := by
  by_cases same : child = other
  · exact .inr (same ▸ Finset.mem_insert_self ..)
  · exact own.imp (Finset.mem_erase_of_ne_of_mem same) (Finset.mem_insert_of_mem)

theorem Effort.Busy.kill {γ : Effort} (busy : γ.Busy) (child : Child) : (γ.kill child).Busy := by
  intro idle
  have none : γ.held = ∅ := busy idle
  simp only [Effort.kill, none, Finset.erase_empty]

/-- Between two calls. -/
structure Effort.Clean (γ : Effort) : Prop where
  call : γ.call = none
  held : γ.held = ∅

theorem Effort.Clean.busy {γ : Effort} (clean : γ.Clean) : γ.Busy := fun _ => clean.held

/-- Past everything it had in its hands, a call may still have the registry to write. -/
structure Effort.Ending (c : Call) (γ : Effort) : Prop where
  call : γ.call = some c
  held : γ.held = ∅

theorem Effort.Ending.busy {γ : Effort} {c : Call} (ending : γ.Ending c) : γ.Busy := fun _ => ending.held

section follows
variable {tidy : Bool} {γ : Effort} {c : Call}

/-- Inside a call, or with empty hands, what a state admits is allowed. -/
theorem effort_allows {op : Op} (busy : γ.Busy) (admits : γ.Admits op)
    (noEntry : ∀ c, op ≠ .note (.invoked c)) : (effort tidy).allows γ op :=
  ⟨busy, admits, fun _ c entry => absurd entry (noEntry c)⟩

theorem effort_neutral {α : Type} {p : Task α} (only : p.Only Op.Neutral) (busy : γ.Busy) :
    p.Follows (effort tidy) (fun _ γ' => γ' = γ) γ := by
  refine only.keeps (fun γ' op neutral same => ?_) rfl
  subst same
  obtain ⟨admits, noEntry, same⟩ := neutral.effort γ'
  exact ⟨effort_allows busy admits noEntry, same⟩

theorem follows_kill {child : Child} (busy : γ.Busy) (own : γ.Owns child) :
    (killChild child).Follows (effort tidy) (fun _ γ' => γ' = γ.kill child) γ :=
  ⟨effort_allows busy own (by simp), fun _ => rfl⟩

theorem follows_killAndWait {child : Child} (busy : γ.Busy) (own : γ.Owns child) :
    (killAndWait child).Follows (effort tidy) (fun _ γ' => γ' = γ.kill child) γ := by
  refine (follows_kill busy own).bind fun _ γ' killed => ?_
  subst killed
  have waited : (waitChild child).Only Op.Neutral := ⟨trivial, fun _ => trivial⟩
  exact effort_neutral waited (busy.kill child)

theorem follows_killBoth {cage tunnel : Child} (busy : γ.Busy) (first : γ.Owns cage) (second : γ.Owns tunnel) :
    (killBoth cage tunnel).Follows (effort tidy) (fun _ γ' => γ' = (γ.kill cage).kill tunnel) γ := by
  refine (follows_killAndWait busy first).bind fun _ γ' killed => ?_
  subst killed
  exact follows_killAndWait (busy.kill cage) (second.kill cage)

/-- The calls at the end of a call: they leave it with what it holds. -/
def Op.Closing (op : Op) : Prop :=
  op.Neutral ∨ op = .unlock ∨ (∃ configs, op = .registryWriteTmp configs) ∨ op = .registryRename

theorem ending_closing {α : Type} {p : Task α} (only : p.Only Op.Closing) (ending : γ.Ending c) :
    p.Follows (effort tidy) (fun _ => Effort.Ending c) γ := by
  refine only.keeps (fun γ' op closing ending => ?_) ending
  rcases closing with neutral | rfl | ⟨configs, rfl⟩ | rfl
  · obtain ⟨admits, noEntry, same⟩ := neutral.effort γ'
    refine ⟨effort_allows ending.busy admits noEntry, fun r => ?_⟩
    show Effort.Ending c (γ'.next op r)
    rwa [same r]
  · exact ⟨effort_allows ending.busy trivial (by simp), fun _ => ⟨ending.call, ending.held⟩⟩
  · exact ⟨effort_allows ending.busy trivial (by simp), fun _ => ⟨ending.call, ending.held⟩⟩
  · exact ⟨effort_allows ending.busy trivial (by simp), fun _ => ⟨ending.call, ending.held⟩⟩

/-! A start, from its membership check to the map. -/

/-- A start past its membership check that has written nothing, and holds `kids`. -/
structure Effort.Trying (cfg : StreamConfig) (kids : Finset Child) (γ : Effort) : Prop where
  call : γ.call = some (.start cfg)
  checked : γ.checked = true
  wrote : γ.wrote = false
  held : γ.held = kids
  spawned : γ.spawned ⊆ γ.held ∪ γ.killed
  own : γ.held ⊆ γ.spawned

variable {cfg : StreamConfig} {kids : Finset Child}

theorem Effort.Trying.busy (trying : γ.Trying cfg kids) : γ.Busy := by
  intro idle
  cases trying.call.symm.trans idle

theorem Effort.Trying.owns (trying : γ.Trying cfg kids) {child : Child} (own : child ∈ kids) : γ.Owns child :=
  .inl (trying.held ▸ own)

theorem Effort.Trying.kill (trying : γ.Trying cfg kids) (child : Child) :
    (γ.kill child).Trying cfg (kids.erase child) := by
  refine ⟨trying.call, trying.checked, trying.wrote, congrArg (Finset.erase · child) trying.held, fun other spawned => ?_,
    (Finset.erase_subset child γ.held).trans trying.own⟩
  have before := Finset.mem_union.mp (trying.spawned spawned)
  simp only [Effort.kill, Finset.mem_union, Finset.mem_erase, Finset.mem_insert]
  tauto

theorem trying_neutral {α : Type} {p : Task α} (only : p.Only Op.Neutral) (trying : γ.Trying cfg kids) :
    p.Follows (effort tidy) (fun _ => Effort.Trying cfg kids) γ := by
  refine (effort_neutral only trying.busy).mono fun _ γ' same => ?_
  subst same
  exact trying

theorem Effort.Trying.waiting (trying : γ.Trying cfg kids) (some : kids.Nonempty) : γ.Waiting := by
  intro _ _
  obtain ⟨child, kid⟩ := some
  have held : child ∈ γ.held := trying.held ▸ kid
  exact ⟨trying.wrote, .inr ⟨trying.checked, child, held, trying.own held⟩⟩

/-- Where a step of a start leaves it: with more in its hands, or with `kids` as before. -/
def Gained (cfg : StreamConfig) (kids : Finset Child) : Except StreamError Child → Effort → Prop
  | .ok child, γ => γ.Trying cfg (insert child kids)
  | .error _, γ => γ.Trying cfg kids

/-- Where a part of a start leaves it: with its processes, or having killed all it spawned. -/
def Tried {α : Type} (cfg : StreamConfig) (kids : α → Finset Child) : Except StreamError α → Effort → Prop
  | .ok value, γ => γ.Trying cfg (kids value)
  | .error _, γ => γ.Trying cfg ∅

theorem spawn_gains (appId : String) (role : Role) (command : Command) (failed : String)
    (trying : γ.Trying cfg kids) : (spawn appId role command failed).run.Follows (effort tidy) (Gained cfg kids) γ := by
  rw [spawn_run]
  refine ⟨effort_allows trying.busy trivial (by simp), fun r => ?_⟩
  cases r with
  | error e => exact trying
  | ok child =>
    refine ⟨trying.call, trying.checked, trying.wrote, congrArg (insert child) trying.held, ?_,
      Finset.insert_subset_insert child trying.own⟩
    simp only [effort, Effort.next, Finset.insert_union]
    exact Finset.insert_subset_insert child trying.spawned

theorem spawnApp_gains (cfg' : StreamConfig) (rundir : String) (trying : γ.Trying cfg kids) :
    (spawnApp cfg' rundir).run.Follows (effort tidy) (Gained cfg kids) γ := by
  unfold spawnApp
  split
  · exact spawn_gains _ _ _ _ trying
  · exact spawn_gains _ _ _ _ trying
  · exact spawn_gains _ _ _ _ trying
  · exact spawn_gains _ _ _ _ trying
  · rw [run_liftBind]
    exact (trying_neutral (firstExisting_only (fun _ => trivial) _) trying).bind fun _ _ trying => spawn_gains _ _ _ _ trying
  · rw [run_liftBind]
    exact (trying_neutral (firstExisting_only (fun _ => trivial) _) trying).bind fun _ _ trying => spawn_gains _ _ _ _ trying
  · exact spawn_gains _ _ _ _ trying
  · exact spawn_gains _ _ _ _ trying
  · exact spawn_gains _ _ _ _ trying
  · exact trying

/-- A clean-up that gives back what a start holds. -/
def GivesUp (tidy : Bool) (cfg : StreamConfig) (kids : Finset Child) (cleanup : Task Unit) : Prop :=
  ∀ γ : Effort, γ.Trying cfg kids → cleanup.Follows (effort tidy) (fun _ => Effort.Trying cfg ∅) γ

theorem killChild_givesUp (cage : Child) : GivesUp tidy cfg {cage} (killChild cage) := by
  intro γ trying
  refine (follows_kill trying.busy (trying.owns (Finset.mem_singleton_self cage))).mono fun _ γ' killed => ?_
  have none : ({cage} : Finset Child).erase cage = ∅ := Finset.erase_singleton cage
  exact killed ▸ none ▸ trying.kill cage

theorem killAndWait_givesUp (cage : Child) : GivesUp tidy cfg {cage} (killAndWait cage) := by
  intro γ trying
  refine (follows_killAndWait trying.busy (trying.owns (Finset.mem_singleton_self cage))).mono fun _ γ' killed => ?_
  have none : ({cage} : Finset Child).erase cage = ∅ := Finset.erase_singleton cage
  exact killed ▸ none ▸ trying.kill cage

theorem killBoth_givesUp (cage tunnel : Child) : GivesUp tidy cfg {tunnel, cage} (killBoth cage tunnel) := by
  intro γ trying
  have first : cage ∈ ({tunnel, cage} : Finset Child) := by simp
  have second : tunnel ∈ ({tunnel, cage} : Finset Child) := by simp
  refine (follows_killBoth trying.busy (trying.owns first) (trying.owns second)).mono fun _ γ' killed => ?_
  have none : (({tunnel, cage} : Finset Child).erase cage).erase tunnel = ∅ := by
    ext child
    simp only [Finset.mem_erase, Finset.mem_insert, Finset.mem_singleton, Finset.notMem_empty, iff_false]
    tauto
  exact killed ▸ none ▸ (trying.kill cage).kill tunnel

theorem onError_tries {task : Fallible Child} {cleanup : Task Unit}
    (gains : task.run.Follows (effort tidy) (Gained cfg kids) γ) (gives : GivesUp tidy cfg kids cleanup) :
    (onError task cleanup).run.Follows (effort tidy) (Tried cfg fun child => insert child kids) γ := by
  rw [onError_run]
  refine gains.bind fun r γ' gained => ?_
  cases r with
  | ok child => exact gained
  | error e => exact (gives γ' gained).bind fun _ _ trying => trying

theorem awaitSocket_tries {giveUp : Task Unit} (some : kids.Nonempty) (gives : GivesUp tidy cfg kids giveUp)
    (path : String) (error : StreamError) (polls : Nat) (trying : γ.Trying cfg kids) :
    (awaitSocket path giveUp error polls).run.Follows (effort tidy) (Tried cfg fun _ => kids) γ := by
  induction polls generalizing γ with
  | zero =>
    rw [awaitSocket_last]
    refine ⟨effort_allows trying.busy trivial (by simp), fun found => ?_⟩
    cases found with
    | true => exact trying
    | false => exact (gives γ trying).bind fun _ _ trying => trying
  | succ polls ih =>
    rw [awaitSocket_next]
    refine ⟨effort_allows trying.busy trivial (by simp), fun found => ?_⟩
    cases found with
    | true => exact trying
    | false => exact ⟨effort_allows trying.busy (trying.waiting some) (by simp), fun _ => ih trying⟩

theorem tried_neutral {α : Type} {p : Fallible α} (only : p.run.Only Op.Neutral) (trying : γ.Trying cfg ∅) :
    p.run.Follows (effort tidy) (Tried cfg fun _ => ∅) γ := by
  refine (trying_neutral only trying).mono fun r γ' trying => ?_
  cases r with
  | ok _ => exact trying
  | error _ => exact trying

theorem spawnProcesses_tries (rundir : String) (trying : γ.Trying cfg ∅) :
    (spawnProcesses cfg rundir).run.Follows (effort tidy)
      (Tried cfg fun procs => {procs.app, procs.tunnel, procs.cage}) γ := by
  have mkdir : Op.Neutral (.createDirAll rundir) := trivial
  refine (tried_neutral (tryCall_only mkdir) trying).tryBind (fun _ γ trying => ?_) fun _ _ trying => trying
  have chmod : Op.Neutral (.setPermissions rundir 0o777) := trivial
  refine (tried_neutral (tryCall_only chmod) trying).tryBind (fun _ γ trying => ?_) fun _ _ trying => trying
  refine (spawn_gains _ _ _ _ trying).tryBind (fun cage γ (trying : γ.Trying cfg {cage}) => ?_) fun _ _ trying => trying
  refine (awaitSocket_tries (Finset.singleton_nonempty cage) (killAndWait_givesUp cage) _ _ _ trying).tryBind
    (fun _ γ trying => ?_) fun _ _ trying => trying
  rw [run_liftBind]
  have chmod : (call (.setPermissions (rundir ++ "/wayland-0") 0o777)).Only Op.Neutral := ⟨trivial, fun _ => trivial⟩
  refine (trying_neutral chmod trying).bind fun _ γ trying => ?_
  refine (onError_tries (spawn_gains _ _ _ _ trying) (killChild_givesUp cage)).tryBind
    (fun tunnel γ trying => ?_) fun _ _ trying => trying
  refine (awaitSocket_tries (Finset.insert_nonempty ..) (killBoth_givesUp cage tunnel) _ _ _ trying).tryBind
    (fun _ γ trying => ?_) fun _ _ trying => trying
  exact (onError_tries (spawnApp_gains cfg rundir trying) (killBoth_givesUp cage tunnel)).tryBind
    (fun app γ trying => trying) fun _ _ trying => trying

/-- A start that registers its processes has none in its hands any more. -/
theorem register_ends (rundir : String) (procs : SpawnedProcesses)
    (trying : γ.Trying cfg {procs.app, procs.tunnel, procs.cage}) :
    (register cfg rundir procs).Follows (effort tidy) (fun _ => Effort.Ending (.start cfg)) γ := by
  refine ⟨effort_allows trying.busy trivial (by simp), fun forwarder => ?_⟩
  refine ⟨effort_allows trying.busy trivial (by simp), fun input => ?_⟩
  refine ⟨effort_allows trying.busy trivial (by simp), fun resize => ?_⟩
  refine ⟨effort_allows trying.busy (trying.waiting (Finset.insert_nonempty ..)) (by simp), fun _ => ?_⟩
  have same : ({procs.cage, procs.tunnel, procs.app} : Finset Child) = γ.held := by
    rw [trying.held]
    ext child
    simp only [Finset.mem_insert, Finset.mem_singleton]
    tauto
  refine ⟨effort_allows trying.busy same.subset (by simp), fun _ => ?_⟩
  have closing : (do let _ ← (addToRegistry cfg).run; unlock : Task Unit).Only Op.Closing := by
    have recorded : (addToRegistry cfg).run.Only Op.Closing :=
      addToRegistry_only (.inl trivial) (.inl trivial) (fun configs => .inr (.inr (.inl ⟨configs, rfl⟩)))
        (.inr (.inr (.inr rfl))) cfg
    exact recorded.bind fun _ => ⟨.inr (.inl rfl), fun _ => trivial⟩
  refine ending_closing closing ⟨trying.call, ?_⟩
  exact Finset.sdiff_eq_empty_iff_subset.mpr same.superset

/-- What has to hold of a call that is about to return. -/
def Returns (c : Call) (r : Except StreamError Unit) (γ : Effort) : Prop :=
  γ.Ending c ∧ γ.Admits (.note (.returned c r.isOk))

theorem startBody_returns (begun : γ = .begun (.start cfg)) :
    (startBody cfg).run.Follows (effort tidy) (Returns (.start cfg)) γ := by
  subst begun
  have failed {e : StreamError} {γ : Effort} (trying : γ.Trying cfg ∅) : Returns (.start cfg) (.error e) γ := by
    refine ⟨⟨trying.call, trying.held⟩, ?_, trying.wrote⟩
    simpa only [trying.held, Finset.empty_union] using trying.spawned
  rw [startBody_run, checkMembership_run]
  have waiting : (Effort.begun (.start cfg)).Waiting := fun _ _ => ⟨rfl, .inl ⟨rfl, rfl⟩⟩
  have busy : (Effort.begun (.start cfg)).Busy := fun _ => rfl
  have trying : ((Effort.begun (.start cfg)).next .unlock ()).Trying cfg ∅ := 
    ⟨rfl, rfl, rfl, rfl, by simp [Effort.next, Effort.begun], Finset.Subset.refl _⟩
  refine ⟨effort_allows busy waiting (by simp), fun _ => ?_⟩
  refine ⟨effort_allows busy trivial (by simp), fun known => ?_⟩
  refine ⟨effort_allows busy trivial (by simp), fun _ => ?_⟩
  cases known with
  | true => exact failed trying
  | false =>
    refine (spawnProcesses_tries _ trying).bind fun r γ tried => ?_
    cases r with
    | error e => exact failed tried
    | ok procs => exact (register_ends _ procs tried).bind fun _ γ ending => ⟨ending, trivial⟩

/-- A stop kills what it has taken out of the map. -/
theorem tearDown_ends {inst : StreamInstance} (call : γ.call = some c) (held : γ.held = inst.kids) :
    (tearDown inst).Follows (effort tidy) (fun _ => Effort.Ending c) γ := by
  have busy : γ.Busy := fun idle => nomatch call.symm.trans idle
  have owns (child : Child) (own : child ∈ inst.kids) : γ.Owns child := .inl (held ▸ own)
  refine (follows_kill busy (owns inst.cage (by simp [StreamInstance.kids]))).bind fun _ γ₁ first => ?_
  subst first
  refine (follows_kill (busy.kill _) ((owns inst.tunnel (by simp [StreamInstance.kids])).kill _)).bind fun _ γ₂ second => ?_
  subst second
  refine (follows_kill ((busy.kill _).kill _) (((owns inst.app (by simp [StreamInstance.kids])).kill _).kill _)).bind
    fun _ γ₃ third => ?_
  subst third
  refine ending_closing ?_ ⟨call, ?_⟩
  · split
    · exact ⟨.inl trivial, fun _ => ⟨.inl trivial, fun _ => ⟨.inl trivial, fun _ => ⟨.inl trivial, fun _ =>
        ⟨.inl trivial, fun _ => ⟨.inl trivial, fun _ => ⟨.inl trivial, fun _ => ⟨.inl trivial, fun _ => trivial⟩⟩⟩⟩⟩⟩⟩⟩
    · exact ⟨.inl trivial, fun _ => ⟨.inl trivial, fun _ => ⟨.inl trivial, fun _ => ⟨.inl trivial, fun _ =>
        ⟨.inl trivial, fun _ => ⟨.inl trivial, fun _ => ⟨.inl trivial, fun _ => trivial⟩⟩⟩⟩⟩⟩⟩
  · ext child
    simp only [Effort.kill, held, StreamInstance.kids, Finset.mem_erase, Finset.mem_insert, Finset.mem_singleton,
      Finset.notMem_empty, iff_false]
    tauto

theorem stopBody_returns {appId : String} (begun : γ = .begun (.stop appId)) :
    (stopBody appId).run.Follows (effort tidy) (Returns (.stop appId)) γ := by
  subst begun
  rw [stopBody_run]
  have busy : (Effort.begun (.stop appId)).Busy := fun _ => rfl
  have waiting : (Effort.begun (.stop appId)).Waiting := fun _ starting => nomatch starting
  refine ⟨effort_allows busy waiting (by simp), fun _ => ?_⟩
  refine ⟨effort_allows busy trivial (by simp), fun found => ?_⟩
  cases found with
  | none => exact ⟨effort_allows busy trivial (by simp), fun _ => ⟨⟨rfl, rfl⟩, trivial⟩⟩
  | some inst =>
    have taken : ((Effort.begun (.stop appId)).next (.streamsRemove appId) (some inst)).Busy := fun idle => nomatch idle
    refine ⟨effort_allows taken trivial (by simp), fun _ => ?_⟩
    refine (tearDown_ends rfl (Finset.empty_union _)).bind fun _ γ ending => ?_
    have recorded : (removeFromRegistry appId).run.Only Op.Closing :=
      removeFromRegistry_only (.inl trivial) (.inl trivial) (fun configs => .inr (.inr (.inl ⟨configs, rfl⟩)))
        (.inr (.inr (.inr rfl))) appId
    exact (ending_closing recorded ending).bind fun _ γ ending => ⟨ending, trivial⟩

/-- A call is entered with empty hands and left with empty hands. -/
theorem recorded_clean {body : Fallible Unit} (busy : γ.Busy) (empty : tidy → γ.held = ∅)
    (returns : body.run.Follows (effort tidy) (Returns c) (.begun c)) :
    (recorded c body).run.Follows (effort tidy) (fun _ => Effort.Clean) γ := by
  rw [recorded_run]
  refine ⟨⟨busy, trivial, fun tidy _ _ => empty tidy⟩, fun _ => returns.bind fun r γ' ⟨ending, admits⟩ => ?_⟩
  exact ⟨effort_allows ending.busy admits (by simp), fun _ => ⟨rfl, ending.held⟩⟩

theorem startStream_clean (busy : γ.Busy) (empty : tidy → γ.held = ∅) (cfg : StreamConfig) :
    (startStream cfg).run.Follows (effort tidy) (fun _ => Effort.Clean) γ :=
  recorded_clean busy empty (startBody_returns rfl)

theorem stopStream_clean (clean : γ.Clean) (appId : String) :
    (stopStream appId).run.Follows (effort tidy) (fun _ => Effort.Clean) γ :=
  recorded_clean clean.busy (fun _ => clean.held) (stopBody_returns rfl)

/-- The calls made between two calls of the manager. -/
def Op.Between (op : Op) : Prop := op.Neutral ∨ op = .lock ∨ op = .unlock ∨ ∃ millis, op = .sleep millis

theorem clean_between {α : Type} {p : Task α} (only : p.Only Op.Between) (clean : γ.Clean) :
    p.Follows (effort tidy) (fun _ => Effort.Clean) γ := by
  refine only.keeps (fun γ' op between clean => ?_) clean
  have waiting : γ'.Waiting := fun _ starting => nomatch clean.call.symm.trans starting
  rcases between with neutral | rfl | rfl | ⟨millis, rfl⟩
  · obtain ⟨admits, noEntry, same⟩ := neutral.effort γ'
    refine ⟨effort_allows clean.busy admits noEntry, fun r => ?_⟩
    show (γ'.next op r).Clean
    rwa [same r]
  · exact ⟨effort_allows clean.busy waiting (by simp), fun _ => clean⟩
  · exact ⟨effort_allows clean.busy trivial (by simp), fun _ => ⟨clean.call, clean.held⟩⟩
  · exact ⟨effort_allows clean.busy waiting (by simp), fun _ => clean⟩

theorem listStreams_clean (clean : γ.Clean) : listStreams.Follows (effort tidy) (fun _ => Effort.Clean) γ := by
  refine clean_between ?_ clean
  exact ⟨.inr (.inl rfl), fun _ => ⟨.inl trivial, fun _ => ⟨.inr (.inr (.inl rfl)), fun _ => trivial⟩⟩⟩

theorem restoreStreams_clean (clean : γ.Clean) :
    restoreStreams.Follows (effort tidy) (fun _ => Effort.Clean) γ := by
  have loading : listRegistry.run.Only Op.Between := ⟨.inl trivial, fun _ => trivial⟩
  refine (clean_between loading clean).bind fun r γ' clean => ?_
  cases r with
  | error e => exact clean
  | ok configs =>
    refine Prog.Follows.each (I := fun _ => Effort.Clean) clean fun cfg _ γ' clean => ?_
    exact (startStream_clean clean.busy (fun _ => clean.held) cfg).bind fun _ _ clean => clean

theorem restartDead_clean (clean : γ.Clean) (dead : String × StreamConfig) :
    (restartDead dead).Follows (effort tidy) (fun _ => Effort.Clean) γ := by
  refine (stopStream_clean clean dead.1).bind fun _ γ clean => ?_
  refine ⟨effort_allows clean.busy trivial (by simp), fun _ => ?_⟩
  have waiting : γ.Waiting := fun _ starting => nomatch clean.call.symm.trans starting
  refine ⟨effort_allows clean.busy waiting (by simp), fun _ => ?_⟩
  exact (startStream_clean clean.busy (fun _ => clean.held) dead.2).bind fun _ _ clean => clean

theorem monitorTick_clean (clean : γ.Clean) : monitorTick.Follows (effort tidy) (fun _ => Effort.Clean) γ := by
  have collected (entries : List (String × StreamInstance)) : (collectDead entries).Only Op.Between :=
    collectDead_only (fun _ => .inl trivial) (fun _ _ => .inl trivial) (fun _ => .inl trivial) entries
  have found : findDead.Only Op.Between :=
    ⟨.inr (.inl rfl), fun _ => ⟨.inl trivial, fun entries =>
      (collected entries).bind fun _ => ⟨.inr (.inr (.inl rfl)), fun _ => trivial⟩⟩⟩
  refine ⟨effort_allows clean.busy trivial (by simp), fun _ => ?_⟩
  refine (clean_between found clean).bind fun dead γ clean => ?_
  exact Prog.Follows.each (I := fun _ => Effort.Clean) clean fun dead _ γ clean => restartDead_clean clean dead

/-- What a task rests in: between two calls, except that the autostart loop, when it is
not tidy, may have been dropped in one. -/
def Rests (tidy : Bool) (a : Actor) (γ : Effort) : Prop :=
  γ.Busy ∧ (tidy = true ∨ a ≠ .autostart → γ.call = none)

theorem Rests.of_clean {a : Actor} (clean : γ.Clean) : Rests tidy a γ := ⟨clean.busy, fun _ => clean.call⟩

theorem serve_rests {a : Actor} {request : Request} {program : Task Unit} (serves : serve a request = some program)
    (rests : Rests tidy a γ) : program.Follows (effort tidy) (fun _ => Rests tidy a) γ := by
  have started (cfg : StreamConfig) : (do let _ ← (startStream cfg).run : Task Unit).Follows (effort tidy)
      (fun _ => Rests tidy a) γ :=
    (startStream_clean rests.1 (fun tidy => rests.1 (rests.2 (.inl tidy))) cfg).bind fun _ _ clean => .of_clean clean
  have clean (other : a ≠ .autostart) : γ.Clean := ⟨rests.2 (.inr other), rests.1 (rests.2 (.inr other))⟩
  unfold serve at serves
  split at serves
  · exact Option.some.inj serves ▸ started _
  · exact Option.some.inj serves ▸ started _
  · exact Option.some.inj serves ▸ started _
  · exact Option.some.inj serves ▸ (stopStream_clean (clean (by simp)) _).bind fun _ _ clean => .of_clean clean
  · exact Option.some.inj serves ▸ (stopStream_clean (clean (by simp)) _).bind fun _ _ clean => .of_clean clean
  · exact Option.some.inj serves ▸ (listStreams_clean (clean (by simp))).bind fun _ _ clean => .of_clean clean
  · exact Option.some.inj serves ▸ (listStreams_clean (clean (by simp))).bind fun _ _ clean => .of_clean clean
  · exact Option.some.inj serves ▸ (restoreStreams_clean (clean (by simp))).mono fun _ _ clean => .of_clean clean
  · exact Option.some.inj serves ▸ (monitorTick_clean (clean (by simp))).mono fun _ _ clean => .of_clean clean
  · cases serves

end follows

end Bsdos.Streams
