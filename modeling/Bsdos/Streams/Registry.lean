import Bsdos.Streams.Served
import Bsdos.Streams.Stopped
import Mathlib.Data.List.Permutation

namespace Bsdos.Streams
open Effects

/-- What a call does to the registry. -/
def recordCall (configs : List StreamConfig) : Call → List StreamConfig
  | .start cfg => upserted cfg configs
  | .stop appId => removed appId configs

/-- The call writes the registry it has found. -/
def Call.Writes (configs : List StreamConfig) : Call → Prop
  | .start _ => True
  | .stop appId => (removed appId configs).length ≠ configs.length

instance (configs : List StreamConfig) (call : Call) : Decidable (call.Writes configs) := by
  cases call with
  | start _ => exact inferInstanceAs (Decidable True)
  | stop appId => exact inferInstanceAs (Decidable ((removed appId configs).length ≠ configs.length))

/-- A call that does not write leaves the registry as it should be. -/
theorem recordCall_idle {configs : List StreamConfig} {call : Call} (idle : ¬ call.Writes configs) :
    recordCall configs call = configs := by
  cases call with
  | start cfg => exact absurd trivial idle
  | stop appId => exact List.filter_eq_self.mpr (List.length_filter_eq_length_iff.mp (not_not.mp idle))

/-- How far a task has come with the registry in its last call: it has loaded it and has
this to write, or has written the temporary file, or has nothing more to do. -/
inductive Filing
  | idle
  | called (call : Call)
  | loaded (call : Call) (target : List StreamConfig) (written : Bool)
  | filed (call : Call)
  | spoilt (call : Call)
  deriving DecidableEq

/-- The state in which an update is in progress. -/
def Filing.Busy : Filing → Prop
  | .loaded _ _ _ => True
  | _ => False

/-- An operation on the registry has failed. -/
def Filing.spoil : Filing → Filing
  | .called call | .loaded call _ _ => .spoilt call
  | γ => γ

/-- The registry has been loaded for the call. -/
def Filing.found (call : Call) (configs : List StreamConfig) : Filing :=
  if call.Writes configs then .loaded call (recordCall configs call) false else .filed call

def Filing.Rests : Filing → Prop
  | .idle | .called _ => True
  | _ => False

def filing : Protocol Host Filing where
  next γ
    | .note (.invoked call), _ => .called call
    | .note (.returned _ _), _ => .idle
    | .registryLoad, .ok configs =>
      match γ with
      | .called call => .found call configs
      | γ => γ
    | .registryWriteTmp _, .ok () =>
      match γ with
      | .loaded call target _ => .loaded call target true
      | γ => γ
    | .registryRename, .ok () =>
      match γ with
      | .loaded call _ _ => .filed call
      | γ => γ
    | .registryLoad, .error _ | .registryMkdir, .error _ | .registryWriteTmp _, .error _ | .registryRename, .error _ =>
      γ.spoil
    | _, _ => γ
  allows γ
    | .note (.invoked _) | .lock | .sleep _ | .registryLoad => γ.Rests
    | .note (.returned call true) => γ = .filed call ∨ γ = .spoilt call
    | .note (.returned call false) => γ = .called call
    | .registryWriteTmp configs => ∃ call, γ = .loaded call configs false
    | .registryRename => ∃ call configs, γ = .loaded call configs true
    | _ => True

section filing
variable {γ : Filing}

/-- The calls that have no part in an update of the registry. -/
def Op.Unfiled : Op → Prop
  | .note (.invoked _) | .note (.returned _ _) | .registryLoad | .registryMkdir | .registryWriteTmp _ | .registryRename =>
    False
  | _ => True

theorem Op.Unfiled.filing {op : Op} (unfiled : op.Unfiled) (rests : γ.Rests) :
    filing.allows γ op ∧ ∀ r, filing.next γ op r = γ := by
  cases op with
  | note n =>
    cases n with
    | invoked _ | returned _ _ => exact unfiled.elim
    | died _ | restarting _ => exact ⟨trivial, fun _ => rfl⟩
  | registryLoad | registryMkdir | registryWriteTmp _ | registryRename => exact unfiled.elim
  | lock | sleep _ => exact ⟨rests, fun _ => rfl⟩
  | _ => exact ⟨trivial, fun _ => rfl⟩

theorem unfiled_keeps {α : Type} {p : Task α} (only : p.Only Op.Unfiled) (rests : γ.Rests) :
    p.Follows filing (fun _ γ' => γ' = γ) γ := by
  refine only.keeps (fun γ' op unfiled same => ?_) rfl
  subst same
  exact unfiled.filing rests

theorem spawns_unfiled {appId : String} (op : Op) (spawns : op.Spawns appId) : op.Unfiled := by
  cases op with
  | spawn _ _ _ | createDirAll _ | setPermissions _ _ | pathExists _ | sleep _ | kill _ | wait _ => trivial
  | _ => exact spawns.elim

theorem tearsDown_unfiled (op : Op) (tears : op.TearsDown) : op.Unfiled := by
  cases op with
  | kill _ | wait _ | status _ _ | abort _ | removeDirAll _ => trivial
  | _ => exact tears.elim

/-- Where an update of the registry for a call ends. -/
def Filing.Ended (call : Call) (γ : Filing) : Prop := γ = .filed call ∨ γ = .spoilt call

/-- What has been loaded is written and renamed. -/
theorem saveRegistryVec_files {call : Call} {target : List StreamConfig} :
    (saveRegistryVec target).run.Follows filing (fun _ => Filing.Ended call) (.loaded call target false) := by
  refine Prog.Follows.tryBind (M := fun r γ =>
    Outcome (fun _ => γ = Filing.loaded call target false) (fun _ => γ = Filing.spoilt call) r) ⟨trivial, fun r : Except String Unit => ?_⟩ (fun _ γ same => ?_)
    fun _ γ spoilt => Or.inr spoilt
  · cases r with
    | ok _ => rfl
    | error e => rfl
  subst same
  refine Prog.Follows.tryBind (M := fun r γ =>
    Outcome (fun _ => γ = Filing.loaded call target true) (fun _ => γ = Filing.spoilt call) r) ⟨⟨call, rfl⟩, fun r : Except String Unit => ?_⟩ (fun _ γ same => ?_)
    fun _ γ spoilt => Or.inr spoilt
  · cases r with
    | ok _ => rfl
    | error e => rfl
  subst same
  refine ⟨⟨call, target, rfl⟩, fun r : Except String Unit => ?_⟩
  cases r with
  | ok _ => exact Or.inl rfl
  | error e => exact Or.inr rfl

theorem addToRegistry_files (cfg : StreamConfig) :
    (addToRegistry cfg).run.Follows filing (fun _ => Filing.Ended (.start cfg)) (.called (.start cfg)) := by
  refine Prog.Follows.tryBind (M := fun r γ =>
    Outcome (fun configs => γ = Filing.loaded (.start cfg) (upserted cfg configs) false)
      (fun _ => γ = Filing.spoilt (.start cfg)) r) ⟨trivial, fun r : Except String (List StreamConfig) => ?_⟩
    (fun configs γ same => ?_) fun _ γ spoilt => Or.inr spoilt
  · cases r with
    | ok configs => rfl
    | error e => rfl
  subst same
  exact saveRegistryVec_files

theorem removeFromRegistry_files (appId : String) :
    (removeFromRegistry appId).run.Follows filing (fun _ => Filing.Ended (.stop appId)) (.called (.stop appId)) := by
  refine Prog.Follows.tryBind (M := fun r γ =>
    Outcome (fun configs => γ = Filing.found (.stop appId) configs) (fun _ => γ = Filing.spoilt (.stop appId)) r) ⟨trivial, fun r : Except String (List StreamConfig) => ?_⟩
    (fun configs γ same => ?_) fun _ γ spoilt => Or.inr spoilt
  · cases r with
    | ok configs => rfl
    | error e => rfl
  have same : γ = Filing.found (.stop appId) configs := same
  by_cases unchanged : (removed appId configs).length = configs.length
  · rw [if_pos unchanged]
    exact Or.inl (same.trans (if_neg (not_not.mpr unchanged)))
  · rw [if_neg unchanged, same.trans (if_pos unchanged)]
    exact saveRegistryVec_files

/-- A call enters with nothing in hand and leaves with its update made. -/
theorem startStream_files (cfg : StreamConfig) (rests : γ.Rests) :
    (startStream cfg).run.Follows filing (fun _ γ' => γ' = .idle) γ := by
  unfold startStream
  rw [recorded_run, startBody_run, checkMembership_run]
  refine ⟨rests, fun _ => ?_⟩
  refine Prog.Follows.bind (M := fun r γ => if r.isOk = true then γ.Ended (.start cfg) else γ = Filing.called (.start cfg))
    ?_ fun r γ left => ?_
  · refine ⟨trivial, fun _ => ⟨trivial, fun known => ⟨trivial, fun _ => ?_⟩⟩⟩
    cases known with
    | true => exact rfl
    | false =>
      refine (unfiled_keeps (γ := .called (.start cfg)) ((spawnProcesses_only cfg _).mono spawns_unfiled) trivial).bind fun r γ same => ?_
      subst same
      cases r with
      | error e => exact rfl
      | ok procs =>
        have filed : (register cfg (rundirFor cfg.appId) procs).Follows filing (fun _ => Filing.Ended (.start cfg))
            (.called (.start cfg)) := by
          refine ⟨trivial, fun _ => ⟨trivial, fun _ => ⟨trivial, fun _ => ⟨trivial, fun _ => ⟨trivial, fun _ => ?_⟩⟩⟩⟩⟩
          have closed : (do let _ ← (addToRegistry cfg).run; unlock : Task Unit).Follows filing
              (fun _ => Filing.Ended (.start cfg)) (.called (.start cfg)) :=
            (addToRegistry_files cfg).bind fun _ γ ended => ⟨trivial, fun _ => ended⟩
          exact closed
        exact filed.bind fun _ γ ended => ended
  · cases passed : r.isOk with
    | true =>
      rw [passed] at left
      exact ⟨left, fun _ => rfl⟩
    | false =>
      rw [passed] at left
      exact ⟨left, fun _ => rfl⟩

theorem stopStream_files (appId : String) (rests : γ.Rests) :
    (stopStream appId).run.Follows filing (fun _ γ' => γ' = .idle) γ := by
  unfold stopStream
  rw [recorded_run, stopBody_run]
  refine ⟨rests, fun _ => ?_⟩
  refine Prog.Follows.bind (M := fun r γ => if r.isOk = true then γ.Ended (.stop appId) else γ = Filing.called (.stop appId))
    ?_ fun r γ left => ?_
  · refine ⟨trivial, fun _ => ⟨trivial, fun found => ⟨trivial, fun _ => ?_⟩⟩⟩
    cases found with
    | none => exact rfl
    | some inst =>
      refine (unfiled_keeps (γ := .called (.stop appId)) ((tearDown_only inst).mono tearsDown_unfiled) trivial).bind fun _ γ same => ?_
      subst same
      exact (removeFromRegistry_files appId).bind fun _ γ ended => ended
  · cases passed : r.isOk with
    | true =>
      rw [passed] at left
      exact ⟨left, fun _ => rfl⟩
    | false =>
      rw [passed] at left
      exact ⟨left, fun _ => rfl⟩

/-- Between its requests a task has nothing in hand; only the autostart loop may have
entered a call that it has not left. -/
def FilesRests (a : Actor) (γ : Filing) : Prop := γ = .idle ∨ a = .autostart ∧ γ.Rests

theorem serve_files {a : Actor} {request : Request} {program : Task Unit} (served : serve a request = some program)
    (rest : FilesRests a γ) : program.Follows filing (fun _ => FilesRests a) γ := by
  have whole (rests : γ = .idle) : program.Follows filing (fun _ γ' => γ' = .idle) γ := by
    refine serve_follows (I := fun γ => γ = Filing.idle) (fun γ op aside same => ?_) (fun cfg γ same => ?_)
      (fun appId γ same => ?_) served rests
    · subst same
      cases op with
      | note n =>
        cases n with
        | died _ | restarting _ => exact ⟨trivial, fun _ => rfl⟩
        | _ => exact aside.elim
      | registryLoad => exact ⟨trivial, fun r : Except String (List StreamConfig) => by cases r <;> rfl⟩
      | lock | unlock | streamsEntries | tryWait _ | status _ _ | interval _ | sleep _ => exact ⟨trivial, fun _ => rfl⟩
      | _ => exact aside.elim
    · exact startStream_files cfg (same ▸ trivial)
    · exact stopStream_files appId (same ▸ trivial)
  rcases rest with idle | ⟨rfl, rests⟩
  · exact (whole idle).mono fun _ γ' same => Or.inl same
  · cases request with
    | start cfg =>
      cases Option.some.inj served
      have started : (do let _ ← (startStream cfg).run : Task Unit).Follows filing (fun _ γ' => γ' = .idle) γ :=
        (startStream_files cfg rests).bind fun _ _ same => same
      exact started.mono fun _ γ' same => Or.inl same
    | _ => cases served

end filing

/-- How far the task has come with the registry. -/
def filingOf (history : List (Event Host Actor)) (a : Actor) : Filing := filing.state .idle a history

/-- The call whose update of the registry an answered call completes. -/
def completes (γ : Filing) (op : Op) (r : op.Ret) : Option Call :=
  match γ, filing.next γ op r with
  | .filed _, _ => none
  | _, .filed call => some call
  | _, _ => none

/-- The updates of the registry, in the order of their completion, newest first. -/
def updates : List (Event Host Actor) → List (Actor × Call)
  | [] => []
  | e :: history =>
    match completes (filingOf history e.actor) e.op e.result with
    | some call => (e.actor, call) :: updates history
    | none => updates history

/-- The calls that have returned with success, newest first. -/
def succeeded : List (Event Host Actor) → List (Actor × Call)
  | [] => []
  | ⟨a, .note (.returned call true), _⟩ :: history => (a, call) :: succeeded history
  | _ :: history => succeeded history

/-- Every operation on the registry succeeds. -/
def filesThrough : Label manager → Prop
  | .act ⟨_, .registryLoad, r⟩ => Except.isOk (r : Except String (List StreamConfig)) = true
  | .act ⟨_, .registryMkdir, r⟩ | .act ⟨_, .registryWriteTmp _, r⟩ | .act ⟨_, .registryRename, r⟩ =>
    Except.isOk (r : Except String Unit) = true
  | _ => True

/-- A task renames the temporary file when no other one is between the load and the rename of an
update of its own. -/
def apart (c : Config Host Actor World) : Label manager → Prop
  | .act ⟨a, .registryRename, _⟩ => ∀ b, b ≠ a → ¬ (filingOf c.history b).Busy
  | _ => True

/-- The registry is what the successful calls make of it one after another, in some order. -/
def Serial (registry : File) (c : Config Host Actor World) : Prop :=
  ∃ order : List Call, order.Perm ((succeeded c.history).map Prod.snd) ∧
    c.world.registry.configs = registry.configs.map fun configs => order.foldl recordCall configs

/-- The complete update of a call that has not returned yet. -/
def Filing.credit (a : Actor) : Filing → List (Actor × Call)
  | .filed call => [(a, call)]
  | _ => []

/-- What is known in a run in which updates stay apart: a task that is to write has loaded
what the registry still holds, and the temporary file is the one written last. -/
structure Kept (registry : File) (w : World) (history : List (Event Host Actor)) : Prop where
  filed : w.registry.configs = registry.configs.map fun configs =>
    ((updates history).map Prod.snd).reverse.foldl recordCall configs
  loads : ∀ a call target written, filingOf history a = .loaded call target written →
    ∃ configs, w.registry.configs = some configs ∧ target = recordCall configs call
  writes : ∀ a call target, filingOf history a = .loaded call target true →
    w.tmp = .holds target ∨ ∃ b, b ≠ a ∧ (filingOf history b).Busy
  sound : ∀ a call, filingOf history a ≠ .spoilt call
  counted : ∀ a, ((updates history).filter fun u => u.1 = a) =
    (filingOf history a).credit a ++ (succeeded history).filter fun u => u.1 = a

section kept
variable {registry : File} {w : World} {history : List (Event Host Actor)} {a : Actor} {op : Op} {r : op.Ret}

theorem filingOf_own : filingOf (⟨a, op, r⟩ :: history) a = filing.next (filingOf history a) op r := Protocol.state_own ..

theorem filingOf_other {b : Actor} (other : a ≠ b) : filingOf (⟨a, op, r⟩ :: history) b = filingOf history b :=
  Protocol.state_other _ _ _ other history

theorem updates_cons {call : Call} (completed : completes (filingOf history a) op r = some call) :
    updates (⟨a, op, r⟩ :: history) = (a, call) :: updates history := by
  simp only [updates, completed]

theorem updates_skip (open_ : completes (filingOf history a) op r = none) :
    updates (⟨a, op, r⟩ :: history) = updates history := by
  simp only [updates, open_]

theorem Kept.empty (registry : File) : Kept registry (.fresh registry) [] where
  filed := by simp [updates, World.fresh]
  loads _ _ _ _ busy := nomatch busy
  writes _ _ _ busy := nomatch busy
  sound _ _ spoilt := nomatch spoilt
  counted _ := rfl

/-- A call that neither file is concerned by and that leaves the task's update as it was. -/
theorem Kept.aside {w' : World} (kept : Kept registry w history)
    (same : filing.next (filingOf history a) op r = filingOf history a)
    (untold : succeeded (⟨a, op, r⟩ :: history) = succeeded history) (file : w'.registry = w.registry) (tmp : w'.tmp = w.tmp) :
    Kept registry w' (⟨a, op, r⟩ :: history) := by
  have states (b : Actor) : filingOf (⟨a, op, r⟩ :: history) b = filingOf history b := by
    by_cases own : a = b
    · subst own
      exact filingOf_own.trans same
    · exact filingOf_other own
  have still : updates (⟨a, op, r⟩ :: history) = updates history := by
    refine updates_skip ?_
    unfold completes
    rw [same]
    cases filingOf history a <;> rfl
  refine ⟨?_, fun b call target written busy => ?_, fun b call target busy => ?_, fun b call => ?_, fun b => ?_⟩
  · rw [file, still]
    exact kept.filed
  · rw [file]
    exact kept.loads b call target written (states b ▸ busy)
  · simp only [tmp, states] at busy ⊢
    exact kept.writes b call target busy
  · rw [states]
    exact kept.sound b call
  · rw [still, untold, states]
    exact kept.counted b

/-- A task that is not writing comes to have something to write, or to nothing. -/
theorem Kept.moves {w' : World} {γ : Filing} (kept : Kept registry w history)
    (moved : filing.next (filingOf history a) op r = γ) (untold : succeeded (⟨a, op, r⟩ :: history) = succeeded history)
    (file : w'.registry = w.registry) (tmp : w'.tmp = w.tmp)
    (rested : (filingOf history a).Rests) (unfinished : γ.Rests ∨ ∃ call configs, w.registry.configs = some configs ∧
      γ = .loaded call (recordCall configs call) false) :
    Kept registry w' (⟨a, op, r⟩ :: history) := by
  have own : filingOf (⟨a, op, r⟩ :: history) a = γ := filingOf_own.trans moved
  have other (b : Actor) (other : b ≠ a) : filingOf (⟨a, op, r⟩ :: history) b = filingOf history b :=
    filingOf_other (Ne.symm other)
  have unfiled (call : Call) : γ ≠ .filed call ∧ γ ≠ .spoilt call := by
    constructor
    · rintro rfl
      rcases unfinished with rests | ⟨_, _, _, wrong⟩
      · exact rests
      · cases wrong
    · rintro rfl
      rcases unfinished with rests | ⟨_, _, _, wrong⟩
      · exact rests
      · cases wrong
  have still : updates (⟨a, op, r⟩ :: history) = updates history := by
    refine updates_skip ?_
    unfold completes
    rw [moved]
    split
    · rfl
    · rename_i wrong
      exact absurd rfl (unfiled _).1
    · rfl
  refine ⟨?_, fun b call target written busy => ?_, fun b call target busy => ?_, fun b call => ?_, fun b => ?_⟩
  · rw [file, still]
    exact kept.filed
  · rw [file]
    by_cases same : b = a
    · subst same
      rcases unfinished with rests | ⟨call', configs, there, loaded⟩
      · rw [← own, busy] at rests
        exact rests.elim
      · obtain ⟨rfl, rfl, _⟩ := Filing.loaded.inj (busy.symm.trans (own.trans loaded))
        exact ⟨configs, there, rfl⟩
    · exact kept.loads b call target written (other b same ▸ busy)
  · rw [tmp]
    by_cases same : b = a
    · subst same
      rcases unfinished with rests | ⟨call', configs, there, loaded⟩
      · rw [← own, busy] at rests
        exact rests.elim
      · exact nomatch (Filing.loaded.inj (busy.symm.trans (own.trans loaded))).2.2
    · refine (kept.writes b call target (other b same ▸ busy)).imp_right fun ⟨b', different, working⟩ => ⟨b', different, ?_⟩
      have elsewhere : b' ≠ a := by
        rintro rfl
        cases state : filingOf history b' with
        | loaded _ _ _ => exact (state ▸ rested : Filing.Rests (.loaded _ _ _))
        | _ => exact (state ▸ working : Filing.Busy _)
      exact other b' elsewhere ▸ working
  · by_cases same : b = a
    · subst same
      rw [own]
      exact (unfiled call).2
    · rw [other b same]
      exact kept.sound b call
  · rw [still, untold]
    by_cases same : b = a
    · subst same
      rw [own]
      have before := kept.counted b
      cases state : filingOf history b with
      | filed _ => exact (state ▸ rested : Filing.Rests (.filed _)).elim
      | _ =>
        rw [state] at before
        cases γ with
        | filed call => exact absurd rfl (unfiled call).1
        | _ => exact before
    · rw [other b same]
      exact kept.counted b

/-- An update is complete. -/
theorem Kept.ends {w' : World} {call : Call} (kept : Kept registry w history)
    (moved : filing.next (filingOf history a) op r = .filed call) (fresh : ∀ call', filingOf history a ≠ .filed call')
    (untold : succeeded (⟨a, op, r⟩ :: history) = succeeded history)
    (file : w'.registry.configs = w.registry.configs.map fun configs => recordCall configs call)
    (loads : ∀ b, b ≠ a → ∀ call target written, filingOf history b = .loaded call target written →
      w'.registry.configs = w.registry.configs)
    (writes : ∀ b, b ≠ a → ∀ call target, filingOf history b = .loaded call target true →
      w'.tmp = .holds target ∨ ∃ b', b' ≠ b ∧ b' ≠ a ∧ (filingOf history b').Busy) :
    Kept registry w' (⟨a, op, r⟩ :: history) := by
  have own : filingOf (⟨a, op, r⟩ :: history) a = .filed call := filingOf_own.trans moved
  have other (b : Actor) (other : b ≠ a) : filingOf (⟨a, op, r⟩ :: history) b = filingOf history b :=
    filingOf_other (Ne.symm other)
  have now : updates (⟨a, op, r⟩ :: history) = (a, call) :: updates history := by
    refine updates_cons ?_
    unfold completes
    rw [moved]
    cases state : filingOf history a with
    | filed call' => exact absurd state (fresh call')
    | _ => rfl
  refine ⟨?_, fun b call' target written busy => ?_, fun b call' target busy => ?_, fun b call' => ?_, fun b => ?_⟩
  · rw [file, now, kept.filed, Option.map_map]
    simp [Function.comp_def]
  · by_cases same : b = a
    · subst same
      cases own.symm.trans busy
    · rw [other b same] at busy
      rw [loads b same call' target written busy]
      exact kept.loads b call' target written busy
  · by_cases same : b = a
    · subst same
      cases own.symm.trans busy
    · rw [other b same] at busy
      refine (writes b same call' target busy).imp_right fun ⟨b', different, elsewhere, working⟩ => ⟨b', different, ?_⟩
      exact other b' elsewhere ▸ working
  · by_cases same : b = a
    · subst same
      rw [own]
      exact fun wrong => nomatch wrong
    · rw [other b same]
      exact kept.sound b call'
  · rw [now, untold]
    by_cases same : b = a
    · subst same
      have before := kept.counted b
      rw [own, List.filter_cons_of_pos (by simp), before]
      cases state : filingOf history b with
      | filed call' => exact absurd state (fresh call')
      | _ => rfl
    · rw [other b same, List.filter_cons_of_neg (by simpa using Ne.symm same)]
      exact kept.counted b

/-- A call returns with success. -/
theorem Kept.returns {w' : World} {call : Call} (kept : Kept registry w history) (filed : filingOf history a = .filed call)
    (file : w'.registry = w.registry) (tmp : w'.tmp = w.tmp) :
    Kept registry w' (⟨a, .note (.returned call true), ()⟩ :: history) := by
  have own : filingOf (⟨a, .note (.returned call true), ()⟩ :: history) a = .idle := filingOf_own
  have other (b : Actor) (other : b ≠ a) :
      filingOf (⟨a, .note (.returned call true), ()⟩ :: history) b = filingOf history b := filingOf_other (Ne.symm other)
  have still : updates (⟨a, .note (.returned call true), ()⟩ :: history) = updates history := by
    refine updates_skip ?_
    rw [filed]
    rfl
  have told : succeeded (⟨a, .note (.returned call true), ()⟩ :: history) = (a, call) :: succeeded history := rfl
  refine ⟨?_, fun b call' target written busy => ?_, fun b call' target busy => ?_, fun b call' => ?_, fun b => ?_⟩
  · rw [file, still]
    exact kept.filed
  · rw [file]
    by_cases same : b = a
    · subst same
      cases own.symm.trans busy
    · exact kept.loads b call' target written (other b same ▸ busy)
  · rw [tmp]
    by_cases same : b = a
    · subst same
      cases own.symm.trans busy
    · refine (kept.writes b call' target (other b same ▸ busy)).imp_right fun ⟨b', different, working⟩ => ⟨b', different, ?_⟩
      have elsewhere : b' ≠ a := by
        rintro rfl
        rw [filed] at working
        exact working
      exact other b' elsewhere ▸ working
  · by_cases same : b = a
    · subst same
      rw [own]
      exact fun wrong => nomatch wrong
    · rw [other b same]
      exact kept.sound b call'
  · rw [still, told]
    by_cases same : b = a
    · subst same
      rw [own, kept.counted b, filed, List.filter_cons_of_pos (by simp)]
      rfl
    · rw [other b same, List.filter_cons_of_neg (by simpa using Ne.symm same)]
      exact kept.counted b

/-- The temporary file is written. -/
theorem Kept.written {w' : World} {call : Call} {target : List StreamConfig} (kept : Kept registry w history)
    (loaded : filingOf history a = .loaded call target false) (file : w'.registry = w.registry)
    (tmp : w'.tmp = .holds target) :
    Kept registry w' (⟨a, .registryWriteTmp target, (.ok () : Except String Unit)⟩ :: history) := by
  have own : filingOf (⟨a, .registryWriteTmp target, (.ok () : Except String Unit)⟩ :: history) a =
      .loaded call target true := by
    refine filingOf_own.trans ?_
    rw [loaded]
    rfl
  have other (b : Actor) (other : b ≠ a) :
      filingOf (⟨a, .registryWriteTmp target, (.ok () : Except String Unit)⟩ :: history) b = filingOf history b :=
    filingOf_other (Ne.symm other)
  have still : updates (⟨a, .registryWriteTmp target, (.ok () : Except String Unit)⟩ :: history) = updates history := by
    refine updates_skip ?_
    rw [loaded]
    rfl
  refine ⟨?_, fun b call' target' written busy => ?_, fun b call' target' busy => ?_, fun b call' => ?_, fun b => ?_⟩
  · rw [file, still]
    exact kept.filed
  · rw [file]
    by_cases same : b = a
    · subst same
      obtain ⟨rfl, rfl, _⟩ := Filing.loaded.inj (own.symm.trans busy)
      exact kept.loads b call target false loaded
    · exact kept.loads b call' target' written (other b same ▸ busy)
  · by_cases same : b = a
    · subst same
      obtain ⟨rfl, rfl, _⟩ := Filing.loaded.inj (own.symm.trans busy)
      exact Or.inl tmp
    · exact Or.inr ⟨a, Ne.symm same, own ▸ trivial⟩
  · by_cases same : b = a
    · subst same
      rw [own]
      exact fun wrong => nomatch wrong
    · rw [other b same]
      exact kept.sound b call'
  · rw [still]
    by_cases same : b = a
    · subst same
      have before := kept.counted b
      rw [loaded] at before
      rw [own]
      exact before
    · rw [other b same]
      exact kept.counted b

/-- One call of a task, where operations on the registry succeed and updates stay apart. -/
theorem Kept.step (kept : Kept registry w history) (allowed : filing.allows (filingOf history a) op)
    (may : w.may a op r = true) (through : filesThrough (.act ⟨a, op, r⟩))
    (alone : op = .registryRename → ∀ b, b ≠ a → ¬ (filingOf history b).Busy) :
    Kept registry (w.after a op r) (⟨a, op, r⟩ :: history) := by
  cases op with
  | note n =>
    cases n with
    | invoked call => exact kept.moves rfl rfl rfl rfl allowed (Or.inl trivial)
    | returned call ok =>
      cases ok with
      | true =>
        rcases allowed with filed | spoilt
        · exact kept.returns filed rfl rfl
        · exact absurd spoilt (kept.sound a call)
      | false =>
        have called : filingOf history a = .called call := allowed
        exact kept.moves rfl rfl rfl rfl (called ▸ trivial) (Or.inl trivial)
    | died _ | restarting _ => exact kept.aside rfl rfl rfl rfl
  | registryLoad =>
    cases r with
    | error e => cases through
    | ok configs =>
      have there : w.registry.configs = some configs := of_decide_eq_true may
      cases state : filingOf history a with
      | called call =>
        have moved : filing.next (filingOf history a) .registryLoad (.ok configs : Except String (List StreamConfig)) =
            .found call configs := by
          rw [state]
          rfl
        by_cases writes : call.Writes configs
        · exact kept.moves (moved.trans (if_pos writes)) rfl rfl rfl (state ▸ trivial) (Or.inr ⟨call, configs, there, rfl⟩)
        · refine kept.ends (moved.trans (if_neg writes)) (fun call' => by rw [state]; exact fun wrong => nomatch wrong) rfl ?_
            (fun b _ _ _ _ _ => rfl) fun b other call' target busy => ?_
          · show w.registry.configs = _
            rw [there, Option.map_some, recordCall_idle writes]
          · refine (kept.writes b call' target busy).imp_right fun ⟨b', different, working⟩ => ⟨b', different, ?_, working⟩
            rintro rfl
            rw [state] at working
            exact working
      | idle => exact kept.aside (by rw [state]; rfl) rfl rfl rfl
      | _ =>
        rw [state] at allowed
        exact False.elim allowed
  | registryMkdir =>
    cases r with
    | error e => cases through
    | ok _ => exact kept.aside rfl rfl rfl rfl
  | registryWriteTmp configs =>
    cases r with
    | error e => cases through
    | ok _ =>
      obtain ⟨call, loaded⟩ := allowed
      exact kept.written loaded rfl rfl
  | registryRename =>
    cases r with
    | error e => cases through
    | ok _ =>
      obtain ⟨call, target, loaded⟩ := allowed
      obtain ⟨configs, there, same⟩ := kept.loads a call target true loaded
      have moved : filing.next (filingOf history a) .registryRename (.ok () : Except String Unit) = .filed call := by
        rw [loaded]
        rfl
      have tmp : w.tmp = .holds target := by
        rcases kept.writes a call target loaded with tmp | ⟨b, other, working⟩
        · exact tmp
        · exact absurd working (alone rfl b other)
      refine kept.ends moved (fun call' => by rw [loaded]; exact fun wrong => nomatch wrong) rfl ?_
        (fun b other call' target' written busy => absurd (busy ▸ trivial) (alone rfl b other))
        fun b other call' target' busy => absurd (busy ▸ trivial) (alone rfl b other)
      show w.tmp.configs = _
      rw [tmp, there, Option.map_some, ← same]
      rfl
  | streamsRemove _ | spawn _ _ _ => cases r <;> exact kept.aside rfl rfl rfl rfl
  | _ => exact kept.aside rfl rfl rfl rfl

end kept

section runs
variable {registry : File} {ok : Config Host Actor World → Label manager → Prop} {c : Config Host Actor World}

theorem reach_files (reach : Reach manager ok (.idle (.fresh registry)) c) (a : Actor) :
    c.Conforms filing .idle (FilesRests a) a := by
  refine reach.conforms (Or.inl rfl) (fun request program served γ rest => serve_files served rest)
    fun c op _ dropped allowed => ?_
  have dropped : droppable a op = true := dropped
  unfold droppable at dropped
  split at dropped
  · exact Or.inr ⟨rfl, allowed⟩
  · exact Or.inr ⟨rfl, allowed⟩
  · cases dropped

theorem reach_kept (reach : Reach manager (fun c l => filesThrough l ∧ apart c l) (.idle (.fresh registry)) c) :
    Kept registry c.world c.history := by
  induction reach with
  | start => exact Kept.empty registry
  | @next c l c' reach step admitted kept =>
    obtain ⟨through, apart⟩ := admitted
    cases step with
    | @act a op next r at_work may =>
      have allowed := (reach_files reach a).allows (Step.act at_work may)
      refine kept.step allowed may through fun rename => ?_
      subst rename
      exact apart
    | env moved =>
      obtain ⟨exited, rfl⟩ := World.change_eq moved
      exact ⟨kept.filed, kept.loads, kept.writes, kept.sound, kept.counted⟩
    | _ => exact kept

/-- Where all updates stay apart, the registry that is left when every call is over is what
these calls make of it one after another. -/
theorem registry_serial (reach : Reach manager (fun c l => filesThrough l ∧ apart c l) (.idle (.fresh registry)) c)
    (ended : ∀ a, c.running a = none) : Serial registry c := by
  have kept := reach_kept reach
  refine ⟨((updates c.history).map Prod.snd).reverse, ?_, kept.filed⟩
  have same (a : Actor) : (updates c.history).filter (fun u => u.1 = a) = (succeeded c.history).filter fun u => u.1 = a := by
    have counted := kept.counted a
    have credit : (filingOf c.history a).credit a = [] := by
      rcases (reach_files reach a).resting (ended a) with idle | ⟨_, rests⟩
      · rw [show filingOf c.history a = .idle from idle]
        rfl
      · cases state : filingOf c.history a with
        | filed call =>
          have rests : (filingOf c.history a).Rests := rests
          rw [state] at rests
          exact False.elim rests
        | _ => rfl
    rw [counted, credit, List.nil_append]
  have perm : (updates c.history).Perm (succeeded c.history) := by
    refine List.perm_iff_count.mpr fun u => ?_
    have mine := congrArg (List.count u) (same u.1)
    rwa [List.count_filter (by simp), List.count_filter (by simp)] at mine
  exact (List.reverse_perm _).trans (perm.map Prod.snd)

/-- A second stream. -/
def footTwo : StreamConfig := { foot with appId := "appTerminal" }

instance (γ : Filing) : Decidable γ.Busy :=
  match γ with
  | .loaded _ _ _ => inferInstanceAs (Decidable True)
  | .idle | .called _ | .filed _ | .spoilt _ => inferInstanceAs (Decidable False)

/-- Every operation on the registry succeeds, and two tasks are at work. -/
def twoFile : Label manager → Bool
  | .act ⟨_, .registryLoad, r⟩ => Except.isOk (r : Except String (List StreamConfig))
  | .act ⟨_, .registryMkdir, r⟩ | .act ⟨_, .registryWriteTmp _, r⟩ | .act ⟨_, .registryRename, r⟩ =>
    Except.isOk (r : Except String Unit)
  | .begin a _ => a = .ctl || a = .caller 0
  | _ => true

theorem filesThrough_of_twoFile {l : Label manager} (two : twoFile l = true) : filesThrough l := by
  cases l with
  | act e =>
    obtain ⟨a, op, r⟩ := e
    cases op with
    | registryLoad | registryMkdir | registryWriteTmp _ | registryRename => exact two
    | _ => trivial
  | _ => trivial

/-- A task renames when no other one that has been at work is writing. -/
def keepsApart (c : Config Host Actor World) : Label manager → Bool
  | .act ⟨a, .registryRename, _⟩ => c.history.all fun e => e.actor = a || !decide (filingOf c.history e.actor).Busy
  | _ => true

theorem apart_of_keepsApart {l : Label manager} (keeps : keepsApart c l = true) : apart c l := by
  cases l with
  | act e =>
    obtain ⟨a, op, r⟩ := e
    cases op with
    | registryRename =>
      intro b other busy
      have absent : ∀ e ∈ c.history, e.actor ≠ b := by
        rintro e member rfl
        have party := List.all_eq_true.mp keeps e member
        simp [other, busy] at party
      have idle : filingOf c.history b = .idle := Protocol.state_absent _ _ _ absent
      rw [idle] at busy
      exact busy
    | _ => trivial
  | _ => trivial

/-- No other task is at work, so all are done when these two are. -/
theorem two_over (reach : Reach manager (fun _ l => twoFile l) (.idle (.fresh registry)) c)
    (ctl : (c.running .ctl).isNone = true) (caller : (c.running (.caller 0)).isNone = true) (a : Actor) :
    c.running a = none := by
  have parties := reach.parties (P := fun a => a = .ctl ∨ a = .caller 0) fun _ a _ begins => by simpa [twoFile] using begins
  cases working : c.running a with
  | none => rfl
  | some program =>
    rcases parties a program working with rfl | rfl
    · rw [working] at ctl
      cases ctl
    · rw [working] at caller
      cases caller

/-- One stream has been started. The control subscriber stops it, up to the registry, while
another task brings up a second one, up to the registry. -/
def bothAtWork : List (Label manager) :=
  serving manager .ctl (.start foot) (checking foot false ++ spawning foot 0 ++ registering foot 0 0 []) ++
    .begin .ctl (.stop foot.appId) ::
      calling manager .ctl (removing foot.appId (some (footInstance foot 0 0)) ++ tearingDown (footInstance foot 0 0)) ++
    .begin (.caller 0) (.start footTwo) :: calling manager (.caller 0) (checking footTwo false ++ spawning footTwo 3)

def stopReturned : List (Label manager) :=
  calling manager .ctl [⟨.note (.returned (.stop foot.appId) true), ()⟩] ++ [.finish .ctl]

/-- The stop makes its update, then the start does. -/
theorem registry_serial_two : ∃ c : Config Host Actor World, (Actor.ctl, Call.stop foot.appId) ∈ succeeded c.history ∧
    (Actor.caller 0, Call.start footTwo) ∈ succeeded c.history ∧ Serial .missing c := by
  obtain ⟨c, reach, checked⟩ := replay_check (fun c l => twoFile l && keepsApart c l)
    (fun c l kept => (Bool.and_eq_true_iff.mp kept : twoFile l = true ∧ keepsApart c l = true)) (Config.idle (.fresh .missing))
    (bothAtWork ++ calling manager .ctl (unregistering foot.appId [foot]) ++ stopReturned ++
      calling manager (.caller 0) (registering footTwo 3 3 []) ++ [.finish (.caller 0)])
    (fun c => ((c.running .ctl).isNone && (c.running (.caller 0)).isNone) &&
      decide ((Actor.ctl, Call.stop foot.appId) ∈ succeeded c.history ∧
        (Actor.caller 0, Call.start footTwo) ∈ succeeded c.history)) (by decide)
  obtain ⟨ended, both⟩ := Bool.and_eq_true_iff.mp checked
  obtain ⟨ctl, caller⟩ := Bool.and_eq_true_iff.mp ended
  obtain ⟨stopped, started⟩ := of_decide_eq_true both
  refine ⟨c, stopped, started, registry_serial (reach.mono fun c l kept => ?_) ?_⟩
  · exact ⟨filesThrough_of_twoFile kept.1, apart_of_keepsApart kept.2⟩
  · exact two_over (reach.mono fun _ _ kept => kept.1) ctl caller

/-- The stop has loaded the registry when the start, under its lock, makes its update; what the
stop then writes knows nothing of it. -/
theorem registry_update_lost : ∃ c, Reach manager (fun _ l => filesThrough l) (.idle (.fresh .missing)) c ∧
    (∀ a, c.running a = none) ∧ ¬ Serial .missing c := by
  obtain ⟨c, reach, checked⟩ := replay_check (fun _ l => twoFile l)
    (fun _ l kept => (kept : twoFile l = true)) (Config.idle (.fresh .missing))
    (bothAtWork ++ calling manager .ctl ((unregistering foot.appId [foot]).take 1) ++
      calling manager (.caller 0) (registering footTwo 3 3 [foot]) ++ [.finish (.caller 0)] ++
      calling manager .ctl ((unregistering foot.appId [foot]).drop 1) ++ stopReturned)
    (fun c => ((c.running .ctl).isNone && (c.running (.caller 0)).isNone) && decide (c.world.registry.configs = some [] ∧
      (succeeded c.history).map Prod.snd = [.stop foot.appId, .start footTwo, .start foot])) (by decide)
  obtain ⟨ended, left⟩ := Bool.and_eq_true_iff.mp checked
  obtain ⟨ctl, caller⟩ := Bool.and_eq_true_iff.mp ended
  obtain ⟨empty, calls⟩ := of_decide_eq_true left
  refine ⟨c, reach.mono fun _ _ kept => filesThrough_of_twoFile kept, two_over reach ctl caller, ?_⟩
  rintro ⟨order, perm, serial⟩
  rw [calls] at perm
  rw [empty] at serial
  have kept : ∀ order ∈ List.permutations' [Call.stop foot.appId, .start footTwo, .start foot],
      order.foldl recordCall [] ≠ [] := by decide
  exact kept order (List.mem_permutations'.mpr perm) (Option.some.inj serial).symm

end runs

end Bsdos.Streams
