import Bsdos.Lifecycle.Calls

namespace Bsdos.Lifecycle
open Effects

/-- The lifecycle operation behind a call. -/
def application : Call → Fallible String
  | .freeze jail => freezeApplication jail
  | .thaw jail => thawApplication jail
  | .hibernate jail => hibernateApplication jail
  | .restore jail => restoreApplication jail
  | .kill jail => killApplication jail

/-- The calls a task makes outside of lifecycle operations: it looks around, and files
priorities under the jail they name. -/
def Op.Aside : Op → Prop
  | .kill _ _ | .statesInsert _ _ | .note (.invoked _) | .note (.returned _ _) => False
  | .prioritiesInsert id entry => entry.jailId = id
  | _ => True

theorem statusApplication_aside (jail : String) : (statusApplication jail).run.Only Op.Aside := by
  refine Prog.Only.tryBind (by rw [run_liftExcept]; trivial) fun id => ?_
  refine Prog.Only.tryBind (Prog.Only.bind ?_ fun _ => trivial) fun _ => trivial
  refine Prog.Only.bind ⟨trivial, fun _ => trivial⟩ fun state => ?_
  refine Prog.Only.bind ⟨trivial, fun _ => trivial⟩ fun r => ?_
  cases r with
  | ok jid => exact Prog.Only.bind ⟨trivial, fun _ => trivial⟩ fun _ => trivial
  | error e => trivial

theorem listJailLines_aside (jails : List JailInfo) : (listJailLines jails).Only Op.Aside := by
  induction jails with
  | nil => trivial
  | cons j jails ih =>
    exact Prog.Only.bind ⟨trivial, fun _ => trivial⟩ fun _ => ih.bind fun _ => trivial

theorem listJailsText_aside : listJailsText.run.Only Op.Aside := by
  refine Prog.Only.tryBind ⟨trivial, fun _ => trivial⟩ fun jails => ?_
  split
  · trivial
  · exact Prog.Only.tryBind ((listJailLines_aside jails).bind fun _ => trivial) fun _ => trivial

theorem statusEntries_aside (jails : List (String × AppState)) : (statusEntries jails).Only Op.Aside := by
  induction jails with
  | nil => trivial
  | cons entry jails ih =>
    refine Prog.Only.bind ⟨trivial, fun _ => trivial⟩ fun r => ?_
    cases r with
    | ok jid => exact ⟨trivial, fun _ => ih.bind fun _ => trivial⟩
    | error e => exact ih.bind fun _ => trivial

/-! Every task is made of calls aside and of lifecycle operations, so it follows whatever
discipline those keep to, and keeps whatever they keep. -/

section served
variable {Γ : Type} {P : Protocol Daemon Γ} {I : Γ → Prop} {γ : Γ}
  (aside : ∀ γ op, Op.Aside op → I γ → P.allows γ op ∧ ∀ r, I (P.next γ op r))
  (operates : ∀ c γ, I γ → (application c).run.Follows P (fun _ => I) γ)
include aside

theorem aside_follows {α : Type} {p : Task α} (only : p.Only Op.Aside) (rest : I γ) :
    p.Follows P (fun _ => I) γ := only.keeps aside rest

include operates

theorem dispatchCmd_follows (line : String) (rest : I γ) : (dispatchCmd line).Follows P (fun _ => I) γ := by
  have mapped (c : Call) : (toResult <$> (application c).run).Follows P (fun _ => I) γ :=
    (operates c γ rest).bind fun _ _ rest => rest
  unfold dispatchCmd
  dsimp only
  split
  · exact mapped (.freeze _)
  · exact mapped (.thaw _)
  · exact mapped (.hibernate _)
  · exact mapped (.restore _)
  · exact mapped (.kill _)
  · exact aside_follows aside ((statusApplication_aside _).bind fun _ => trivial) rest
  · exact aside_follows aside (listJailsText_aside.bind fun _ => trivial) rest
  · exact aside_follows aside ⟨trivial, fun _ => ⟨rfl, fun _ => trivial⟩⟩ rest
  · exact aside_follows aside ((readMemStats_only fun _ => trivial).bind fun _ => trivial) rest
  · exact aside_follows aside ⟨trivial, fun _ => trivial⟩ rest
  · exact aside_follows aside ⟨trivial, fun _ => ⟨trivial, fun _ => trivial⟩⟩ rest
  · exact rest
  · exact rest

theorem handleConn_follows (line : String) (rest : I γ) : (handleConn line).Follows P (fun _ => I) γ := by
  unfold handleConn
  dsimp only
  split
  · exact rest
  · refine (dispatchCmd_follows aside operates (Text.trim line) rest).bind fun answer γ' rest => ?_
    exact aside_follows aside ⟨trivial, fun _ => trivial⟩ rest

theorem dispatchZenohCmd_follows (line : String) (rest : I γ) :
    (dispatchZenohCmd line).Follows P (fun _ => I) γ := by
  unfold dispatchZenohCmd
  dsimp only
  split
  · exact (operates (.freeze _) γ rest).bind fun _ _ rest => rest
  · exact (operates (.thaw _) γ rest).bind fun _ _ rest => rest
  · have collect : collectStatus.Only Op.Aside :=
      Prog.Only.bind ⟨trivial, fun _ => trivial⟩ fun _ => statusEntries_aside _
    exact aside_follows aside (collect.bind fun _ => trivial) rest
  · exact rest

theorem zenohSample_follows (payload : String) (rest : I γ) : (zenohSample payload).Follows P (fun _ => I) γ := by
  unfold zenohSample
  dsimp only
  split
  · exact rest
  · exact (dispatchZenohCmd_follows aside operates (Text.trim payload) rest).bind fun _ _ rest => rest

theorem warnJail_follows (policy : LifecyclePolicy) (now : Nat) (jail : String) (rest : I γ) :
    (warnJail policy now jail).Follows P (fun _ => I) γ := by
  have look : (isIdlePast jail policy.idleFreezeSecs now).Only Op.Aside := isIdlePast_only trivial _ _
  refine (aside_follows aside look rest).bind fun idle γ' rest => ?_
  cases idle with
  | false => exact rest
  | true =>
    have read : (statesGet jail).Only Op.Aside := ⟨trivial, fun _ => trivial⟩
    refine (aside_follows aside read rest).bind fun state γ' rest => ?_
    split
    · have logged : (log (.warnFreezing jail)).Only Op.Aside := ⟨trivial, fun _ => trivial⟩
      refine (aside_follows aside logged rest).bind fun _ γ' rest => ?_
      exact (operates (.freeze jail) γ' rest).bind fun _ _ rest => rest
    · exact rest

theorem criticalJail_follows (jail : String) (rest : I γ) : (criticalJail jail).Follows P (fun _ => I) γ := by
  have evict : ∀ γ', I γ' → (evictJail jail).Follows P (fun _ => I) γ' := by
    intro γ' rest
    have logged : (log (.criticalEvicting jail)).Only Op.Aside := ⟨trivial, fun _ => trivial⟩
    refine (aside_follows aside logged rest).bind fun _ γ' rest => ?_
    refine (operates (.hibernate jail) γ' rest).bind fun _ γ' rest => ?_
    exact (operates (.kill jail) γ' rest).bind fun _ _ rest => rest
  have read : (statesGet jail).Only Op.Aside := ⟨trivial, fun _ => trivial⟩
  refine (aside_follows aside read rest).bind fun state γ' rest => ?_
  split
  · exact evict γ' rest
  · exact evict γ' rest
  · exact rest

theorem oomJail_follows (jail : String) (rest : I γ) : (oomJail jail).Follows P (fun _ => I) γ := by
  have read : (prioritiesGet jail).Only Op.Aside := ⟨trivial, fun _ => trivial⟩
  refine (aside_follows aside read rest).bind fun entry γ' rest => ?_
  dsimp only
  split
  · exact (operates (.kill jail) γ' rest).bind fun _ _ rest => rest
  · exact rest

theorem monitorRound_follows (policy : LifecyclePolicy) (stats : MemStats) (rest : I γ) :
    (monitorRound policy stats).Follows P (fun _ => I) γ := by
  have candidates : evictionCandidates.Only Op.Aside := Prog.Only.bind ⟨trivial, fun _ => trivial⟩ fun _ => trivial
  have guard : (call .guardLoad).Only Op.Aside := ⟨trivial, fun _ => trivial⟩
  refine (aside_follows aside candidates rest).bind fun candidates γ' rest => ?_
  refine (aside_follows aside guard rest).bind fun skip γ' rest => ?_
  cases MemPressure.fromStats stats with
  | normal => exact rest
  | warn =>
    dsimp only
    split
    · have time : unixTimestamp.Only Op.Aside := ⟨trivial, fun _ => trivial⟩
      refine (aside_follows aside time rest).bind fun now γ' rest => ?_
      exact Prog.Follows.each (I := fun _ => I) rest fun jail _ γ' rest =>
        warnJail_follows aside operates policy now jail rest
    · exact rest
  | critical =>
    cases skip with
    | true => exact rest
    | false =>
      exact Prog.Follows.each (I := fun _ => I) rest fun jail _ γ' rest => criticalJail_follows aside operates jail rest
  | oom =>
    cases skip with
    | true => exact rest
    | false =>
      exact Prog.Follows.each (I := fun _ => I) rest fun jail _ γ' rest => oomJail_follows aside operates jail rest

theorem runMonitor_follows (policy : LifecyclePolicy) (rest : I γ) : (runMonitor policy).Follows P (fun _ => I) γ := by
  have slept : (call (.sleep 5)).Only Op.Aside := ⟨trivial, fun _ => trivial⟩
  refine (aside_follows aside slept rest).bind fun _ γ' rest => ?_
  have read : readMemStats.run.Only Op.Aside := readMemStats_only fun _ => trivial
  refine (aside_follows aside read rest).bind fun r γ' rest => ?_
  cases r with
  | error e => exact rest
  | ok stats => exact monitorRound_follows aside operates policy stats rest

theorem served_follows {policy : LifecyclePolicy} {a : Actor} {request : Request} {program : Task Unit}
    (served : serve policy a request = some program) (rest : I γ) : program.Follows P (fun _ => I) γ := by
  unfold serve at served
  split at served
  · cases served; exact handleConn_follows aside operates _ rest
  · cases served; exact zenohSample_follows aside operates _ rest
  · cases served; exact runMonitor_follows aside operates _ rest
  · cases served

end served

/-- What every task keeps to: a state is tracked under a checked name only, and a
priority is filed under the jail it names. -/
def Op.WellFiled : Op → Prop
  | .statesInsert id _ => ValidId id
  | .prioritiesInsert id entry => entry.jailId = id
  | _ => True

theorem Op.ActsOn.wellFiled {jail : String} {op : Op} (acts : op.ActsOn jail) : op.WellFiled := by
  cases op with
  | statesInsert id state =>
    obtain ⟨rfl, valid⟩ := acts
    exact valid
  | prioritiesInsert id entry => exact acts.elim
  | _ => trivial

theorem Op.Aside.wellFiled {op : Op} (aside : op.Aside) : op.WellFiled := by
  cases op with
  | statesInsert id state => exact aside.elim
  | prioritiesInsert id entry => exact aside
  | _ => trivial

/-- A restore looks at what is tracked before it acts on its jail. -/
theorem restoreBody_wellFiled {jail : String} (valid : ValidId jail) : (restoreBody jail).run.Only Op.WellFiled := by
  refine Prog.Only.tryBind ⟨trivial, fun _ => trivial⟩ fun found => ?_
  have woken := (wakeOrRollback_only valid).mono fun _ => Op.ActsOn.wellFiled
  cases found.getD .dead with
  | running => trivial
  | frozen => exact woken
  | hibernated => exact woken
  | dead => trivial

theorem application_wellFiled (c : Call) : (application c).run.Only Op.WellFiled := by
  have acting {body : String → Fallible String} (only : ValidId c.jail → (body c.jail).run.Only (Op.ActsOn c.jail)) :
      (operation c body).run.Only Op.WellFiled :=
    operation_only trivial (fun valid => (only valid).mono fun _ => Op.ActsOn.wellFiled) fun _ => trivial
  cases c with
  | freeze jail => exact acting freezeBody_only
  | thaw jail => exact acting thawBody_only
  | hibernate jail => exact acting hibernateBody_only
  | restore jail => exact operation_only trivial restoreBody_wellFiled fun _ => trivial
  | kill jail => exact acting killBody_only

theorem served_wellFiled {policy : LifecyclePolicy} (a : Actor) (request : Request) (program : Task Unit)
    (served : serve policy a request = some program) : program.Only Op.WellFiled := by
  have operates (c : Call) (γ : Unit) (_ : True) :
      (application c).run.Follows (.always Op.WellFiled) (fun _ _ => True) γ :=
    (application_wellFiled c).keeps (fun _ _ filed _ => ⟨filed, fun _ => trivial⟩) trivial
  exact Prog.only_of_follows (served_follows (I := fun _ => True)
    (fun _ _ aside _ => ⟨aside.wellFiled, fun _ => trivial⟩) operates served trivial)

theorem World.after_states (w : World) (op : Op) (r : op.Ret) :
    (w.after op r).states = w.states ∨
      ∃ jail state, op = .statesInsert jail state ∧ (w.after op r).states = w.states.insert jail state := by
  cases op with
  | statesInsert jail state => exact Or.inr ⟨jail, state, rfl, rfl⟩
  | kill pid sig => cases r <;> exact Or.inl rfl
  | _ => exact Or.inl rfl

theorem World.after_priorities (w : World) (op : Op) (r : op.Ret) :
    (w.after op r).priorities = w.priorities ∨
      ∃ jail entry, op = .prioritiesInsert jail entry ∧
        (w.after op r).priorities = w.priorities.insert jail entry := by
  cases op with
  | prioritiesInsert jail entry => exact Or.inr ⟨jail, entry, rfl, rfl⟩
  | kill pid sig => cases r <;> exact Or.inl rfl
  | _ => exact Or.inl rfl

/-- The surroundings write neither map. -/
theorem World.change_maps {w w' : World} {change : Change} (moved : w.change change = some w') :
    w'.states = w.states ∧ w'.priorities = w.priorities := by
  cases change with
  | guardTimer deadline =>
    simp only [World.change] at moved
    split at moved
    · cases moved; exact ⟨rfl, rfl⟩
    · cases moved
  | _ => cases moved; exact ⟨rfl, rfl⟩

/-- Filing a priority under its own jail keeps a map filed. -/
theorem insert_filed {map : PriorityMap} (filed : ∀ j e, map.lookup j = some e → e.jailId = j)
    {id : String} {new : JailPriority} (own : new.jailId = id) :
    ∀ j e, (map.insert id new).lookup j = some e → e.jailId = j := by
  intro j e at_j
  by_cases same : j = id
  · subst same
    rw [Finmap.lookup_insert] at at_j
    rw [← Option.some.inj at_j, own]
  · rw [Finmap.lookup_insert_of_ne _ same] at at_j
    exact filed j e at_j

theorem loadPriorities_filed (configs : List (String × AppLifecycleConfig)) :
    ∀ j e, (loadPriorities configs).lookup j = some e → e.jailId = j := by
  have fold : ∀ (start : PriorityMap), (∀ j e, start.lookup j = some e → e.jailId = j) →
      ∀ j e, (configs.foldl (fun map cfg => map.insert cfg.1 ⟨cfg.1, cfg.2.priority, 0⟩) start).lookup j = some e →
        e.jailId = j := by
    induction configs with
    | nil => exact fun _ filed => filed
    | cons cfg configs ih => exact fun start filed => ih _ (insert_filed filed rfl)
  exact fold ∅ fun j e none => by simp at none

section reach
variable {policy : LifecyclePolicy} {ok : Config Daemon Actor World → Label (lifecycled policy) → Prop}
  {w : World} {c : Config Daemon Actor World}

/-- No run ever tracks a state under a name the daemon would not accept. -/
theorem reach_states_valid (started : w.Started) (reach : Reach (lifecycled policy) ok (Config.idle w) c)
    {jail : String} {state : AppState} (tracked : c.world.states.lookup jail = some state) : ValidId jail := by
  induction reach generalizing jail state with
  | start => simp [Config.idle, started.states] at tracked
  | @next c l c' previous step admitted ih =>
    cases step with
    | @act a op next r at_work may =>
      have filed := (previous.only served_wellFiled _ _ at_work).1
      rcases World.after_states c.world op r with same | ⟨id, new, rfl, inserted⟩
      · exact ih (by simpa only [lifecycled, same] using tracked)
      · by_cases here : jail = id
        · subst here
          exact filed
        · simp only [lifecycled, inserted, Finmap.lookup_insert_of_ne _ here] at tracked
          exact ih tracked
    | env moved => exact ih (by simpa only [(World.change_maps moved).1] using tracked)
    | _ => exact ih tracked

/-- In every run each priority is filed under the jail it names. -/
theorem reach_priorities_filed (started : w.Started)
    (reach : Reach (lifecycled policy) ok (Config.idle w) c) :
    ∀ j e, c.world.priorities.lookup j = some e → e.jailId = j := by
  induction reach with
  | start =>
    obtain ⟨configs, loaded⟩ := started.priorities
    simpa only [Config.idle, loaded] using loadPriorities_filed configs
  | @next c l c' previous step admitted ih =>
    cases step with
    | @act a op next r at_work may =>
      have filed := (previous.only served_wellFiled _ _ at_work).1
      rcases World.after_priorities c.world op r with same | ⟨id, new, rfl, inserted⟩
      · simpa only [lifecycled, same] using ih
      · simpa only [lifecycled, inserted] using insert_filed ih filed
    | env moved => simpa only [(World.change_maps moved).2] using ih
    | _ => exact ih

end reach

end Bsdos.Lifecycle
