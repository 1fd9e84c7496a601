import Bsdos.Lifecycle.Restore

namespace Bsdos.Lifecycle
open Effects

/-- How far the Critical branch has come with the jail it is evicting. -/
structure Rescue where
  evicting : Option String
  saved : Bool
  failed : Bool
  deriving DecidableEq, Repr

def Rescue.idle : Rescue := ⟨none, false, false⟩

/-- The arguments of a `zfs snapshot` of the dataset of a jail. -/
def snapshotOf (jail : String) : List String → Bool
  | ["snapshot", name] => decide ((dataset jail ++ "@").toList <+: name.toList)
  | _ => false

theorem snapshotOf_hibernate (jail : String) (timestamp : Nat) :
    snapshotOf jail ["snapshot", hibernateSnapshot jail timestamp] := by
  have split : hibernateSnapshot jail timestamp = dataset jail ++ "@" ++ ("hibernate-" ++ toString timestamp) := by
    simp only [hibernateSnapshot, String.append_assoc]
    rfl
  simp only [snapshotOf, split, String.toList_append, decide_eq_true_eq]
  exact List.prefix_append _ _

/-- A program that ran while a jail is being evicted: only snapshots of its dataset count. -/
def Rescue.ran (γ : Rescue) (program : String) (args : List String) (r : Except String Output) : Rescue :=
  if program = "zfs" ∧ γ.evicting.any (snapshotOf · args) then
    { γ with saved := γ.saved || (outcome program r).isOk, failed := γ.failed || !(outcome program r).isOk }
  else γ

/-- What the monitor keeps to: while it evicts a jail it sends SIGKILL only after a
snapshot was tried. -/
def rescue : Protocol Daemon Rescue where
  next γ
    | .note (.criticalEvicting jail), _ => ⟨some jail, false, false⟩
    | .note (.returned (.kill _) _), _ => .idle
    | .output program args, r => γ.ran program args r
    | _, _ => γ
  allows γ
    | .kill _ .kill => γ.evicting = none ∨ γ.saved ∨ γ.failed
    | _ => True

theorem Rescue.ran_evicting (γ : Rescue) (program : String) (args : List String) (r : Except String Output) :
    (γ.ran program args r).evicting = γ.evicting := by
  unfold Rescue.ran
  split <;> rfl

theorem Rescue.ran_tried {γ : Rescue} (tried : γ.saved ∨ γ.failed) (program : String) (args : List String)
    (r : Except String Output) : (γ.ran program args r).saved ∨ (γ.ran program args r).failed := by
  unfold Rescue.ran
  split
  · rcases tried with saved | failed
    · simp [saved]
    · simp [failed]
  · exact tried

/-- Any call but the line that starts an eviction. -/
def Op.StartsNone (op : Op) : Prop := ∀ jail, op ≠ .note (.criticalEvicting jail)

theorem Op.ActsOn.startsNone {jail : String} {op : Op} (acts : op.ActsOn jail) : op.StartsNone := by
  rintro _ rfl
  exact acts

/-- A call of an operation on the jail that kills nothing. -/
def Op.Gentle (jail : String) (op : Op) : Prop := op.ActsOn jail ∧ ∀ pid, op ≠ .kill pid .kill

section follows
variable {jail : String} {policy : LifecyclePolicy}

/-- Outside an eviction nothing but the choice of a jail starts one. -/
theorem rescue_at_rest {α : Type} {p : Task α} {γ : Rescue}
    (only : p.Only Op.StartsNone) (rest : γ.evicting = none) :
    p.Follows rescue (fun _ γ' => γ'.evicting = none) γ := by
  refine only.keeps (fun γ' op other rest => ⟨?_, fun r => ?_⟩) rest
  · cases op with
    | kill pid sig => cases sig <;> first | exact Or.inl rest | trivial
    | _ => trivial
  · cases op with
    | note n =>
      cases n with
      | criticalEvicting jail => exact absurd rfl (other jail)
      | returned call ok => cases call <;> first | exact rest | rfl
      | _ => exact rest
    | output program args => exact (γ'.ran_evicting program args r).trans rest
    | _ => exact rest

/-- Inside an eviction the calls of an operation on a jail, other than SIGKILL, go on with it. -/
theorem rescue_goes_on {α : Type} {p : Task α} {γ : Rescue}
    (only : p.Only (Op.Gentle jail)) (evicting : γ.evicting = some jail) :
    p.Follows rescue (fun _ γ' => γ'.evicting = some jail) γ := by
  refine only.keeps (fun γ' op ⟨acts, spares⟩ evicting => ⟨?_, fun r => ?_⟩) evicting
  · cases op with
    | kill pid sig => cases sig <;> first | exact absurd rfl (spares pid) | trivial
    | _ => trivial
  · cases op with
    | note n => exact acts.elim
    | output program args => exact (γ'.ran_evicting program args r).trans evicting
    | _ => exact evicting

/-- Once a snapshot was tried, every call of an operation on a jail is admitted. -/
theorem rescue_tried {α : Type} {p : Task α} {γ : Rescue}
    (only : p.Only (Op.ActsOn jail)) (tried : γ.saved ∨ γ.failed) :
    p.Follows rescue (fun _ γ' => γ'.saved ∨ γ'.failed) γ := by
  refine only.keeps (fun γ' op acts tried => ⟨?_, fun r => ?_⟩) tried
  · cases op with
    | kill pid sig => cases sig <;> first | exact Or.inr tried | trivial
    | _ => trivial
  · cases op with
    | note n => exact acts.elim
    | output program args => exact Rescue.ran_tried tried program args r
    | _ => exact tried

/-- A hibernation that is let through tries a snapshot of its jail. -/
theorem hibernateBody_rescues {γ : Rescue} (evicting : γ.evicting = some jail) :
    (hibernateBody jail).run.Follows rescue
      (fun _ γ' => γ'.evicting = some jail ∧ (γ'.saved ∨ γ'.failed)) γ := by
  have stop : (signalJail jail "-STOP").run.Follows rescue (fun _ γ' => γ'.evicting = some jail) γ :=
    rescue_goes_on (signalJailPids_only ⟨rfl, by simp⟩ (fun _ => ⟨trivial, by simp⟩)
      fun _ => ⟨trivial, by simp⟩) evicting
  refine follows_attempt stop fun _ γ' evicting => ⟨trivial, fun now => ?_⟩
  have snapshot : (run "zfs" ["snapshot", hibernateSnapshot jail now]).run.Follows rescue
      (fun _ γ' => γ'.evicting = some jail ∧ (γ'.saved ∨ γ'.failed)) γ' := by
    refine follows_run trivial fun r => ⟨(γ'.ran_evicting ..).trans evicting, ?_⟩
    have counts : γ'.evicting.any (snapshotOf · ["snapshot", hibernateSnapshot jail now]) := by
      simpa only [evicting, Option.any_some] using snapshotOf_hibernate jail now
    simp only [rescue, Rescue.ran, counts, and_self, if_true]
    cases (outcome "zfs" r).isOk <;> simp
  refine follows_attempt snapshot fun r γ' tried => ?_
  cases r with
  | error e => exact tried
  | ok out => exact ⟨trivial, fun _ => tried⟩

theorem hibernateApplication_rescues {γ : Rescue} (evicting : γ.evicting = some jail) :
    (hibernateApplication jail).run.Follows rescue (fun _ γ' => ValidId jail → γ'.saved ∨ γ'.failed) γ := by
  refine operation_follows (M := fun _ γ' => ValidId jail → γ'.saved ∨ γ'.failed) trivial (fun _ => ?_)
    (fun _ invalid valid => absurd valid invalid) fun r γ' tried => ⟨trivial, tried⟩
  exact (hibernateBody_rescues evicting).mono fun _ _ tried _ => tried.2

theorem killApplication_rescues {γ : Rescue} (tried : ValidId jail → γ.saved ∨ γ.failed) :
    (killApplication jail).run.Follows rescue (fun _ γ' => γ'.evicting = none) γ :=
  operation_follows (M := fun _ _ => True) trivial
    (fun valid => (rescue_tried (killBody_only valid) (tried valid)).mono fun _ _ _ => trivial)
    (fun _ _ => trivial) fun _ _ _ => ⟨trivial, rfl⟩

theorem criticalJail_rescues {γ : Rescue} (rest : γ.evicting = none) :
    (criticalJail jail).Follows rescue (fun _ γ' => γ'.evicting = none) γ := by
  have evict : (evictJail jail).Follows rescue (fun _ γ' => γ'.evicting = none) γ := by
    refine ⟨trivial, fun _ => (hibernateApplication_rescues rfl).bind fun _ γ' tried => ?_⟩
    exact (killApplication_rescues tried).bind fun _ _ rest => rest
  refine Prog.Follows.bind (M := fun _ γ' => γ' = γ) ⟨trivial, fun _ => rfl⟩ fun state γ' same => ?_
  subst same
  split
  · exact evict
  · exact evict
  · exact rest

theorem monitorRound_rescues {γ : Rescue} (rest : γ.evicting = none) (stats : MemStats) :
    (monitorRound policy stats).Follows rescue (fun _ γ' => γ'.evicting = none) γ := by
  have freeze (jail) : (freezeApplication jail).run.Only Op.StartsNone :=
    freezeApplication_only (fun _ => Op.ActsOn.startsNone) (by simp [Op.StartsNone]) (by simp [Op.StartsNone])
  have kill (jail) : (killApplication jail).run.Only Op.StartsNone :=
    killApplication_only (fun _ => Op.ActsOn.startsNone) (by simp [Op.StartsNone]) (by simp [Op.StartsNone])
  refine ⟨trivial, fun candidates => ⟨trivial, fun skip => ?_⟩⟩
  cases MemPressure.fromStats stats with
  | normal => exact rest
  | warn =>
    dsimp only
    split
    · refine ⟨trivial, fun now => rescue_at_rest (Prog.Only.each fun jail _ => ?_) rest⟩
      exact warnJail_only (by simp [Op.StartsNone]) (by simp [Op.StartsNone]) (by simp [Op.StartsNone])
        (freeze jail) policy now
    · exact rest
  | critical =>
    cases skip with
    | true => exact rest
    | false =>
      exact Prog.Follows.each (P := rescue) (I := fun _ γ' => γ'.evicting = none) rest
        fun jail _ γ' rest => criticalJail_rescues rest
  | oom =>
    cases skip with
    | true => exact rest
    | false =>
      exact rescue_at_rest (Prog.Only.each fun jail _ => oomJail_only (by simp [Op.StartsNone]) (kill jail)) rest

theorem runMonitor_rescues {γ : Rescue} (rest : γ.evicting = none) :
    (runMonitor policy).Follows rescue (fun _ γ' => γ'.evicting = none) γ := by
  refine ⟨trivial, fun _ => ?_⟩
  refine (rescue_at_rest (readMemStats_only fun _ => by simp [Op.StartsNone]) rest).bind fun r γ' rest => ?_
  cases r with
  | error e => exact rest
  | ok stats => exact monitorRound_rescues rest stats

end follows

section runs
variable {policy : LifecyclePolicy} {ok : Config Daemon Actor World → Label (lifecycled policy) → Prop}
  {w : World} {c c' : Config Daemon Actor World}

/-- What the monitor has done, along a run, for the jail it is evicting. -/
def rescued (c : Config Daemon Actor World) : Rescue := rescue.state .idle .monitor c.history

theorem reach_rescues (reach : Reach (lifecycled policy) ok (Config.idle w) c) :
    c.Conforms rescue .idle (fun γ => γ.evicting = none) .monitor := by
  refine reach.conforms rfl (fun request program served γ rest => ?_) fun _ _ _ dropped => nomatch dropped
  cases request with
  | tick => cases served; exact runMonitor_rescues rest
  | _ => cases served

/-- Every snapshot the monitor asks for is taken. -/
def snapshotsTaken (_ : Config Daemon Actor World) : Label (lifecycled policy) → Bool
  | .act ⟨.monitor, .output program args, r⟩ =>
    !(program = "zfs" && args.head? = some "snapshot") || (outcome program r).isOk
  | _ => true

theorem snapshotOf_head {jail : String} {args : List String} (snapshot : snapshotOf jail args) :
    args.head? = some "snapshot" := by
  unfold snapshotOf at snapshot
  split at snapshot
  · rfl
  · cases snapshot

theorem Rescue.ran_failed {γ : Rescue} {program : String} {args : List String} {r : Except String Output}
    (sound : γ.failed = false)
    (taken : (!(program = "zfs" && args.head? = some "snapshot") || (outcome program r).isOk) = true) :
    (γ.ran program args r).failed = false := by
  unfold Rescue.ran
  split
  · rename_i counts
    obtain ⟨zfs, counts⟩ := counts
    obtain ⟨jail, _, snapshot⟩ := (Option.any_eq_true _ _).mp counts
    have taken : (outcome program r).isOk := by simpa [zfs, snapshotOf_head snapshot] using taken
    simp only [sound, taken, Bool.not_true, Bool.or_self]
  · exact sound

theorem reach_never_failed (reach : Reach (lifecycled policy) (fun c l => snapshotsTaken c l) (Config.idle w) c) :
    (rescued c).failed = false := by
  refine reach.invariant (I := fun c => (rescued c).failed = false) rfl fun c l c' sound step taken => ?_
  cases step with
  | @act a op next r at_work may =>
    by_cases monitor : a = .monitor
    · subst monitor
      simp only [rescued, Protocol.state_own] at sound ⊢
      cases op with
      | note n => 
        cases n with
        | returned call ok => cases call <;> first | exact sound | rfl
        | criticalEvicting jail => rfl
        | _ => exact sound
      | output program args => exact Rescue.ran_failed sound taken
      | _ => exact sound
    · simpa only [rescued, Protocol.state_other rescue _ _ (e := ⟨a, op, r⟩) monitor] using sound
  | _ => exact sound

/-- Where every snapshot the monitor asks for is taken, it sends no SIGKILL to a jail
it is evicting before the snapshot of that jail. -/
theorem eviction_saves_first (reach : Reach (lifecycled policy) (fun c l => snapshotsTaken c l) (Config.idle w) c)
    {jail : String} {pid : Int} {r : Except Int Unit} (evicting : (rescued c).evicting = some jail)
    (kill : Step (lifecycled policy) c (.act ⟨.monitor, .kill pid .kill, r⟩) c') : (rescued c).saved = true := by
  rcases (reach_rescues reach).allows kill with rest | saved | failed
  · rw [show (rescue.state .idle .monitor c.history) = rescued c from rfl, evicting] at rest
    cases rest
  · exact saved
  · exact absurd ((reach_never_failed reach).symm.trans failed) Bool.false_ne_true

/-- The jail of `oneJail` with a priority, so that the monitor has a candidate. -/
def oneCandidate (priority : UInt8) : World :=
  { oneJail with priorities := loadPriorities [("app", ⟨"app", "app", 512, 50, priority, false⟩)] }

theorem oneCandidate_started (priority : UInt8) : (oneCandidate priority).Started :=
  ⟨rfl, ⟨[("app", ⟨"app", "app", 512, 50, priority, false⟩)], rfl⟩, rfl, rfl⟩

/-- The jail is thawed, which tracks it as running. -/
def thaw (policy : LifecyclePolicy) : List (Label (lifecycled policy)) :=
  serving (lifecycled policy) (.conn 0) (.line "THAW app")
    [⟨.note (.invoked (.thaw "app")), ()⟩, ⟨.jidByName "app", .ok 1⟩, ⟨.jailPids 1, .ok [10]⟩,
      ⟨.kill 10 .cont, .ok ()⟩, ⟨.statesInsert "app" .running, ()⟩, ⟨.note (.returned (.thaw "app") true), ()⟩,
      ⟨.reply "+OK thawed jail=app procs=1\n", ()⟩]

/-- A tick after that finds the memory at 10 percent and chooses the jail; the
snapshot of its hibernation ends as given. -/
def thawThenCritical (policy : LifecyclePolicy) (priority : UInt8) (snapshot : Output) :
    List (Label (lifecycled policy)) :=
  thaw policy ++ .begin .monitor .tick :: calling (lifecycled policy) .monitor
    [⟨.sleep 5, ()⟩, ⟨.sysctl "vm.stats.vm.v_page_count", .ok 100⟩, ⟨.sysctl "vm.stats.vm.v_free_count", .ok 10⟩,
      ⟨.sysctl "vm.stats.vm.v_inactive_count", .ok 0⟩, ⟨.prioritiesValues, ([⟨"app", priority, 0⟩] : List JailPriority)⟩,
      ⟨.guardLoad, false⟩, ⟨.statesGet "app", some .running⟩, ⟨.note (.criticalEvicting "app"), ()⟩,
      ⟨.note (.invoked (.hibernate "app")), ()⟩, ⟨.jidByName "app", .ok 1⟩, ⟨.jailPids 1, .ok [10]⟩,
      ⟨.kill 10 .stop, .ok ()⟩, ⟨.unixTime, (0 : Nat)⟩,
      ⟨.output "zfs" ["snapshot", "bsdos/apps/app@hibernate-0"], .ok snapshot⟩]

/-- The tick goes on: the hibernation failed, the kill resolves the jail. -/
def failedThenKill (policy : LifecyclePolicy) : List (Label (lifecycled policy)) :=
  calling (lifecycled policy) .monitor
    [⟨.note (.returned (.hibernate "app") false), ()⟩, ⟨.note (.invoked (.kill "app")), ()⟩,
      ⟨.jidByName "app", .ok 1⟩, ⟨.jailPids 1, .ok [10]⟩]

/-- The tick goes on: the jail is hibernated, and the kill resolves it. -/
def savedThenKill (policy : LifecyclePolicy) : List (Label (lifecycled policy)) :=
  calling (lifecycled policy) .monitor
    [⟨.statesInsert "app" .hibernated, ()⟩, ⟨.note (.returned (.hibernate "app") true), ()⟩,
      ⟨.note (.invoked (.kill "app")), ()⟩, ⟨.jidByName "app", .ok 1⟩, ⟨.jailPids 1, .ok [10]⟩]

/-- The SIGKILL that follows a snapshot that was taken. -/
theorem eviction_saves_first_taken : ∃ c c', (rescued c).evicting = some "app" ∧
    Step (lifecycled (.forPlatform false)) c (.act ⟨.monitor, .kill 10 .kill, .ok ()⟩) c' ∧
    (rescued c).saved = true := by
  obtain ⟨c, reach, checked⟩ := replay_check snapshotsTaken (fun _ _ taken => taken)
    (Config.idle (oneCandidate 200))
    (thawThenCritical (.forPlatform false) 200 ⟨true, "exit status: 0", "", ""⟩ ++ savedThenKill (.forPlatform false))
    (fun c => (rescued c).evicting = some "app" && (c.fire (S := lifecycled (.forPlatform false))
      (.act ⟨.monitor, .kill 10 .kill, .ok ()⟩)).isSome) (by decide +kernel)
  obtain ⟨evicting, fired⟩ := Bool.and_eq_true_iff.mp checked
  obtain ⟨c', fired⟩ := Option.isSome_iff_exists.mp fired
  have step := Config.fire_step fired
  exact ⟨c, c', of_decide_eq_true evicting, step, eviction_saves_first reach (of_decide_eq_true evicting) step⟩

/-- A snapshot that fails does not stop the kill. -/
theorem eviction_without_snapshot : (oneCandidate 200).Started ∧ ∃ c c',
    Reach (lifecycled (.forPlatform false)) (anyStep _) (Config.idle (oneCandidate 200)) c ∧
    (rescued c).evicting = some "app" ∧
    Step (lifecycled (.forPlatform false)) c (.act ⟨.monitor, .kill 10 .kill, .ok ()⟩) c' ∧
    (rescued c).saved = false := by
  obtain ⟨c, reach, checked⟩ := replay_check (fun _ _ => true) (fun _ _ _ => trivial)
    (Config.idle (oneCandidate 200))
    (thawThenCritical (.forPlatform false) 200 ⟨false, "exit status: 1", "", "out of space"⟩ ++ failedThenKill (.forPlatform false))
    (fun c => (rescued c).evicting = some "app" && (rescued c).saved = false &&
      (c.fire (S := lifecycled (.forPlatform false)) (.act ⟨.monitor, .kill 10 .kill, .ok ()⟩)).isSome) (by decide +kernel)
  obtain ⟨γ, fired⟩ := Bool.and_eq_true_iff.mp checked
  obtain ⟨evicting, unsaved⟩ := Bool.and_eq_true_iff.mp γ
  obtain ⟨c', fired⟩ := Option.isSome_iff_exists.mp fired
  exact ⟨oneCandidate_started 200, c, c', reach, of_decide_eq_true evicting, Config.fire_step fired, of_decide_eq_true unsaved⟩

/-- The step with which the monitor completes the eviction of a jail whose snapshot
was taken. -/
def Evicts (policy : LifecyclePolicy) (jail : String) (c c' : Config Daemon Actor World) : Prop :=
  Step (lifecycled policy) c (.act ⟨.monitor, .statesInsert jail .dead, ()⟩) c' ∧
    (rescued c).evicting = some jail ∧ (rescued c).saved = true

/-- Nobody tracks a state for the jail. -/
def Untouched (jail : String) (_ : Config Daemon Actor World) (l : Label (lifecycled policy)) : Prop :=
  ∀ a state, l ≠ .act ⟨a, .statesInsert jail state, ()⟩

theorem states_untouched {jail : String} (reach : Reach (lifecycled policy) (Untouched jail) c c') :
    c'.world.states.lookup jail = c.world.states.lookup jail := by
  refine reach.invariant (I := fun c' => c'.world.states.lookup jail = c.world.states.lookup jail) rfl
    fun d l d' same step untouched => ?_
  cases step with
  | @act a op next r at_work may =>
    rcases World.after_states d.world op r with kept | ⟨id, state, rfl, inserted⟩
    · simpa only [lifecycled, kept] using same
    · have other : jail ≠ id := by
        rintro rfl
        exact untouched a state rfl
      simpa only [lifecycled, inserted, Finmap.lookup_insert_of_ne _ other] using same
  | env moved => simpa only [(World.change_maps moved).1] using same
  | _ => exact same

/-- A dead jail is not restored. -/
theorem exec_restore_dead {a : Actor} {u : World} {jail : String} {moments : List (Moment Daemon World)}
    {r : Except String String} (valid : ValidId jail) (dead : w.states.lookup jail = some .dead)
    (exec : Exec (lifecycled policy) a (restoreApplication jail).run w moments r u) :
    r = .error "cannot restore from state: Dead" ∧ (∀ m ∈ moments, ¬ rollsBack m) ∧ u = w := by
  obtain ⟨inner, rfl, ⟨_, body⟩ | ⟨e, refused, _⟩⟩ := exec_operation.mp exec
  · obtain ⟨state, rest, may, rfl, tail⟩ := body
    cases (World.may_statesGet may).trans dead
    obtain ⟨rfl, rfl, rfl⟩ := tail
    exact ⟨rfl, by simp [rollsBack], rfl⟩
  · exact absurd (valid.symm.trans refused) (by simp)

theorem evicted_dead {jail : String} (reach : Reach (lifecycled policy) ok (Config.idle w) c)
    (evicted : Evicts policy jail c c') : ValidId jail ∧ c'.world.states.lookup jail = some .dead := by
  cases evicted.1 with
  | act at_work may =>
    exact ⟨(reach.only served_wellFiled _ _ at_work).1, Finmap.lookup_insert _⟩

/-- A jail the monitor has evicted cannot be restored as long as nobody else tracks a
state for it: the kill that follows the snapshot leaves it dead, and a restore of a
dead jail is an error. -/
theorem evicted_not_restorable {jail : String} {d : Config Daemon Actor World} {a : Actor} {u : World}
    {moments : List (Moment Daemon World)} {r : Except String String}
    (reach : Reach (lifecycled policy) (anyStep _) (Config.idle w) c) (evicted : Evicts policy jail c c')
    (later : Reach (lifecycled policy) (Untouched jail) c' d)
    (exec : Exec (lifecycled policy) a (restoreApplication jail).run d.world moments r u) :
    r = .error "cannot restore from state: Dead" ∧ (∀ m ∈ moments, ¬ rollsBack m) ∧
      u.states.lookup jail = some .dead := by
  obtain ⟨valid, dead⟩ := evicted_dead reach evicted
  have stays := (states_untouched later).trans dead
  obtain ⟨refused, spared, rfl⟩ := exec_restore_dead valid stays exec
  exact ⟨refused, spared, stays⟩

/-- The kill goes through; all that is left of it is to track the jail as dead. -/
def killThrough (policy : LifecyclePolicy) : List (Label (lifecycled policy)) :=
  calling (lifecycled policy) .monitor
    [⟨.kill 10 .kill, .ok ()⟩, ⟨.pathExists "/jails/apps/app/tmp/wayland-0", false⟩,
      ⟨.output "zfs" ["list", "bsdos/apps/app/tmp"], .ok ⟨false, "exit status: 1", "", "dataset does not exist"⟩⟩]

/-- A run that evicts the jail, and a restore right after it that changes nothing. -/
theorem evict_then_restore : ∃ c c',
    Reach (lifecycled (.forPlatform false)) (anyStep _) (Config.idle (oneCandidate 200)) c ∧
    Evicts (.forPlatform false) "app" c c' ∧ ∃ moments r u,
      Exec (lifecycled (.forPlatform false)) (.conn 1) (restoreApplication "app").run c'.world moments r u ∧
      (∀ m ∈ moments, ¬ rollsBack m) ∧ r.toOption = none ∧ u.states.lookup "app" = some .dead := by
  obtain ⟨c, reach, checked⟩ := replay_check (fun _ _ => true) (fun _ _ _ => trivial) (Config.idle (oneCandidate 200))
    (thawThenCritical (.forPlatform false) 200 ⟨true, "exit status: 0", "", ""⟩ ++ savedThenKill (.forPlatform false) ++
      killThrough (.forPlatform false))
    (fun c => ((rescued c).evicting = some "app" ∧ (rescued c).saved = true) &&
      (c.fire (S := lifecycled (.forPlatform false)) (.act ⟨.monitor, .statesInsert "app" .dead, ()⟩)).any fun c' =>
        (play (lifecycled (.forPlatform false)) (.conn 1) (restoreApplication "app").run c'.world
          [⟨.note (.invoked (.restore "app")), ()⟩, ⟨.statesGet "app", some .dead⟩,
            ⟨.note (.returned (.restore "app") false), ()⟩]).any fun out =>
          (∀ m ∈ out.1, ¬ rollsBack m) ∧ out.2.1.toOption = none ∧ out.2.2.states.lookup "app" = some .dead)
    (by decide +kernel)
  obtain ⟨evicting, fired⟩ := Bool.and_eq_true_iff.mp checked
  obtain ⟨c', fired, played⟩ := (Option.any_eq_true _ _).mp fired
  obtain ⟨out, played, refused⟩ := (Option.any_eq_true _ _).mp played
  exact ⟨c, c', reach, ⟨Config.fire_step fired, of_decide_eq_true evicting⟩,
    out.1, out.2.1, out.2.2, play_exec played, of_decide_eq_true refused⟩

/-- That run is one the general result speaks of. -/
theorem evicted_not_restorable_run : ∃ c c', Evicts (.forPlatform false) "app" c c' ∧ ∃ moments r u,
    Exec (lifecycled (.forPlatform false)) (.conn 1) (restoreApplication "app").run c'.world moments r u ∧
      r = .error "cannot restore from state: Dead" := by
  obtain ⟨c, c', reach, evicted, moments, r, u, exec, _⟩ := evict_then_restore
  exact ⟨c, c', evicted, moments, r, u, exec, (evicted_not_restorable reach evicted .start exec).1⟩

/-- A jail that was evicted with its snapshot taken is not brought back by a restore. -/
theorem eviction_loses_jail : (oneCandidate 200).Started ∧ ∃ c c',
    Reach (lifecycled (.forPlatform false)) (anyStep _) (Config.idle (oneCandidate 200)) c ∧
    Evicts (.forPlatform false) "app" c c' ∧ ∃ moments r u,
      Exec (lifecycled (.forPlatform false)) (.conn 1) (restoreApplication "app").run c'.world moments r u ∧
      (∀ m ∈ moments, ¬ rollsBack m) ∧ r.toOption = none ∧ u.states.lookup "app" ≠ some .running := by
  obtain ⟨c, c', reach, evicted, moments, r, u, exec, spared, refused, dead⟩ := evict_then_restore
  exact ⟨oneCandidate_started 200, c, c', reach, evicted, moments, r, u, exec, spared, refused, by simp [dead]⟩

end runs

end Bsdos.Lifecycle
