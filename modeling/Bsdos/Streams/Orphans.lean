import Bsdos.Effects.Ledger
import Bsdos.Streams.Effort
import Bsdos.Streams.Overlap

namespace Bsdos.Streams
open Effects

/-- A process is held by a call in progress, or by an instance in the streams map. -/
inductive Holder
  | call (a : Actor)
  | stream (appId : String)
  deriving DecidableEq

/-- What the task has done in its last call. -/
def effortOf (c : Config Host Actor World) (a : Actor) : Effort := (effort true).state .idle a c.history

/-- The processes spawned and never sent a kill, and who holds them. -/
def ledger (c : Config Host Actor World) : Ledger Holder Child where
  live := {child | child < c.world.spawned ∧ child ∉ c.world.killed}
  holds
    | .call a => {child | child ∈ (effortOf c a).held}
    | .stream appId => {child | ∃ inst, c.world.streams.lookup appId = some inst ∧ child ∈ inst.kids}

/-- The holder that a step makes let go of its processes without killing them: a call
that is entered with something left over from the last, an instance overwritten. -/
def Loses (l : Label manager) (h : Holder) : Prop :=
  match l with
  | .act ⟨a, .note (.invoked _), _⟩ => h = .call a
  | .act ⟨_, .streamsInsert appId _, _⟩ => h = .stream appId
  | _ => False

theorem effort_state (tidy : Bool) (a : Actor) (history : List (Event Host Actor)) :
    (effort tidy).state .idle a history = (effort true).state .idle a history := by
  induction history with
  | nil => rfl
  | cons e history ih =>
    unfold Protocol.state
    rw [ih]
    rfl

theorem droppable_autostart {a : Actor} {op : Op} (dropped : droppable a op = true) : a = .autostart := by
  unfold droppable at dropped
  split at dropped
  · rfl
  · rfl
  · cases dropped

/-- The tasks keep to their protocol in every run without drops that they rest tidy in,
and in every run at all. -/
theorem reach_conforms (tidy : Bool) {registry : File} {ok : Config Host Actor World → Label manager → Prop}
    {c : Config Host Actor World} (reach : Reach manager ok (.idle (.fresh registry)) c)
    (drops : tidy = true → ∀ c a, ¬ ok c (.drop a)) (a : Actor) :
    c.Conforms (effort tidy) .idle (Rests tidy a) a := by
  refine reach.conforms ⟨fun _ => rfl, fun _ => rfl⟩ (fun request program serves γ => serve_rests serves) ?_
  intro c op admitted dropped allows
  refine ⟨allows.1, fun resting => ?_⟩
  rcases resting with tidy | other
  · exact absurd admitted (drops tidy c a)
  · exact absurd (droppable_autostart dropped) other

theorem conforms_admits {tidy : Bool} {c : Config Host Actor World} {a : Actor} {op : Op} {next : op.Ret → Task Unit}
    (conforms : c.Conforms (effort tidy) .idle (Rests tidy a) a) (at_work : c.running a = some (.call op next)) :
    (effortOf c a).Admits op := by
  have allows := (conforms.running at_work).1
  rw [effort_state] at allows
  exact allows.2.1

section ledger
variable {c c' : Config Host Actor World} {a : Actor} {op : Op} {r : op.Ret}

theorem effort_own {w : World} {running : Actor → Option (Task Unit)} :
    effortOf ⟨w, ⟨a, op, r⟩ :: c.history, running⟩ a = (effortOf c a).next op r := Protocol.state_own ..

theorem effort_other {w : World} {running : Actor → Option (Task Unit)} {b : Actor} (other : b ≠ a) :
    effortOf ⟨w, ⟨a, op, r⟩ :: c.history, running⟩ b = effortOf c b := Protocol.state_other _ _ _ (Ne.symm other) _

theorem mem_ledger_call {b : Actor} {child : Child} : child ∈ (ledger c).holds (.call b) ↔ child ∈ (effortOf c b).held :=
  Iff.rfl

theorem mem_ledger_stream {appId : String} {child : Child} :
    child ∈ (ledger c).holds (.stream appId) ↔ ∃ inst, c.world.streams.lookup appId = some inst ∧ child ∈ inst.kids :=
  Iff.rfl

/-! What a step of task `a` is in the ledger, by what it does to the world and to the
task's own effort. -/

section moves
variable (calls : ∀ b, b ≠ a → effortOf c' b = effortOf c b)
include calls

theorem held_iff {kept : Child → Prop} (own : ∀ child, child ∈ (effortOf c' a).held ↔ kept child) (b : Actor) (child : Child) :
    child ∈ (ledger c').holds (.call b) ↔ b ≠ a ∧ child ∈ (effortOf c b).held ∨ b = a ∧ kept child := by
  rw [mem_ledger_call]
  by_cases same : b = a
  · subst same
    simp only [own, ne_eq, not_true_eq_false, false_and, true_and, false_or]
  · simp only [calls b same, same, ne_eq, not_false_eq_true, true_and, false_and, or_false]

theorem ledger_create (spawned : c'.world.spawned = c.world.spawned + 1) (killed : c'.world.killed = c.world.killed)
    (streams : c'.world.streams = c.world.streams) (bounded : c.world.spawned ∉ c.world.killed)
    (own : (effortOf c' a).held = insert c.world.spawned (effortOf c a).held) :
    Ledger.Move (ledger c) (ledger c') := by
  refine .create (Holder.call a) c.world.spawned (fun live => Nat.lt_irrefl _ live.1) (fun child => ?_) fun h child => ?_
  · show child < c'.world.spawned ∧ child ∉ c'.world.killed ↔
      (child < c.world.spawned ∧ child ∉ c.world.killed) ∨ child = c.world.spawned
    rw [spawned, killed, Nat.lt_succ_iff_lt_or_eq]
    by_cases fresh : child = c.world.spawned
    · simp only [fresh, or_true, true_and, bounded, not_false_eq_true]
    · simp only [fresh, or_false]
  · cases h with
    | call b =>
      rw [held_iff calls (fun child => by rw [own, Finset.mem_insert]), mem_ledger_call, Holder.call.injEq]
      by_cases same : b = a
      · subst same
        tauto
      · tauto
    | stream appId =>
      rw [mem_ledger_stream, mem_ledger_stream, streams]
      simp only [reduceCtorEq, false_and, or_false]

theorem ledger_destroy {child : Child} (spawned : c'.world.spawned = c.world.spawned)
    (killed : c'.world.killed = child :: c.world.killed) (streams : c'.world.streams = c.world.streams)
    (own : (effortOf c' a).held = (effortOf c a).held.erase child)
    (owned : child ∈ (effortOf c a).held ∨ child ∈ c.world.killed) : Ledger.Move (ledger c) (ledger c') := by
  refine .destroy (Holder.call a) child (owned.imp id fun dead live => live.2 dead) (fun other => ?_) fun h other => ?_
  · show other < c'.world.spawned ∧ other ∉ c'.world.killed ↔
      (other < c.world.spawned ∧ other ∉ c.world.killed) ∧ other ≠ child
    rw [spawned, killed, List.mem_cons]
    tauto
  · cases h with
    | call b =>
      rw [held_iff calls (fun child => by rw [own, Finset.mem_erase]), mem_ledger_call, Holder.call.injEq]
      by_cases same : b = a
      · subst same
        tauto
      · tauto
    | stream appId =>
      rw [mem_ledger_stream, mem_ledger_stream, streams]
      simp only [reduceCtorEq, false_imp_iff, and_true]

theorem ledger_remove {appId : String} {inst : StreamInstance} (spawned : c'.world.spawned = c.world.spawned)
    (killed : c'.world.killed = c.world.killed) (streams : c'.world.streams = c.world.streams.erase appId)
    (known : c.world.streams.lookup appId = some inst)
    (own : (effortOf c' a).held = (effortOf c a).held ∪ inst.kids) : Ledger.Move (ledger c) (ledger c') := by
  have kids {child : Child} : child ∈ (ledger c).holds (.stream appId) ↔ child ∈ inst.kids := by
    rw [mem_ledger_stream, known]
    simp only [Option.some.injEq, exists_eq_left']
  refine .transfer (Holder.stream appId) (.call a) {child | child ∈ inst.kids} (fun child => kids.mpr) (fun child => ?_)
    fun h child => ?_
  · show child < c'.world.spawned ∧ child ∉ c'.world.killed ↔ child < c.world.spawned ∧ child ∉ c.world.killed
    rw [spawned, killed]
  · cases h with
    | call b =>
      rw [held_iff calls (fun child => by rw [own, Finset.mem_union]), mem_ledger_call, Holder.call.injEq]
      simp only [reduceCtorEq, false_imp_iff, and_true, Set.mem_ofPred_eq]
      by_cases same : b = a
      · subst same
        tauto
      · tauto
    | stream id =>
      by_cases same : id = appId
      · subst same
        rw [kids, mem_ledger_stream, streams, Finmap.lookup_erase]
        simp only [reduceCtorEq, false_and, exists_false, forall_const, Set.mem_ofPred_eq, or_false, and_not_self]
      · rw [mem_ledger_stream, mem_ledger_stream, streams, Finmap.lookup_erase_ne same]
        simp only [Holder.stream.injEq, same, false_imp_iff, and_true, reduceCtorEq, false_and, or_false]

/-- An insertion forgets the instance that was there, if any, and hands over the new. -/
theorem ledger_insert {appId : String} {inst : StreamInstance} (spawned : c'.world.spawned = c.world.spawned)
    (killed : c'.world.killed = c.world.killed) (streams : c'.world.streams = c.world.streams.insert appId inst)
    (own : (effortOf c' a).held = (effortOf c a).held \ inst.kids) (owned : inst.kids ⊆ (effortOf c a).held) :
    Ledger.Move ((ledger c).forget (.stream appId)) (ledger c') := by
  refine .transfer (Holder.call a) (.stream appId) {child | child ∈ inst.kids} (fun child kid => ⟨by simp, owned kid⟩)
    (fun child => ?_) fun h child => ?_
  · show child < c'.world.spawned ∧ child ∉ c'.world.killed ↔ child < c.world.spawned ∧ child ∉ c.world.killed
    rw [spawned, killed]
  · cases h with
    | call b =>
      rw [held_iff calls (fun child => by rw [own, Finset.mem_sdiff]), Ledger.mem_forget, mem_ledger_call,
        Holder.call.injEq]
      simp only [ne_eq, reduceCtorEq, not_false_eq_true, true_and, false_and, or_false, Set.mem_ofPred_eq]
      by_cases same : b = a
      · subst same
        tauto
      · tauto
    | stream id =>
      rw [Ledger.mem_forget, Holder.stream.injEq]
      by_cases same : id = appId
      · subst same
        rw [mem_ledger_stream, streams, Finmap.lookup_insert]
        simp only [Option.some.injEq, exists_eq_left', ne_eq, not_true_eq_false, false_and, true_and, false_or,
          Set.mem_ofPred_eq]
      · rw [mem_ledger_stream, mem_ledger_stream, streams, Finmap.lookup_insert_of_ne _ same]
        simp only [same, ne_eq, not_false_eq_true, Holder.stream.injEq, reduceCtorEq, false_imp_iff, and_true, true_and,
          false_and, or_false]

theorem ledger_same (spawned : c'.world.spawned = c.world.spawned) (killed : c'.world.killed = c.world.killed)
    (streams : c'.world.streams = c.world.streams) (own : (effortOf c' a).held = (effortOf c a).held) :
    ledger c' = ledger c := by
  refine Ledger.ext (by simp only [ledger, spawned, killed]) (funext fun h => Set.ext fun child => ?_)
  cases h with
  | call b =>
    rw [held_iff calls (fun child => by rw [own]), mem_ledger_call]
    by_cases same : b = a
    · subst same
      tauto
    · tauto
  | stream appId => rw [mem_ledger_stream, mem_ledger_stream, streams]

theorem ledger_forget (spawned : c'.world.spawned = c.world.spawned) (killed : c'.world.killed = c.world.killed)
    (streams : c'.world.streams = c.world.streams) (own : (effortOf c' a).held = ∅) :
    ledger c' = (ledger c).forget (.call a) := by
  refine Ledger.ext (by simp only [ledger, Ledger.forget, spawned, killed]) (funext fun h => Set.ext fun child => ?_)
  cases h with
  | call b =>
    rw [held_iff calls (fun child => by rw [own]), Ledger.mem_forget, mem_ledger_call]
    simp only [ne_eq, Holder.call.injEq, Finset.notMem_empty, and_false, or_false]
  | stream appId =>
    rw [Ledger.mem_forget, mem_ledger_stream, mem_ledger_stream, streams]
    simp only [ne_eq, reduceCtorEq, not_false_eq_true, true_and]

end moves

/-- The calls that leave alone what is alive and who holds it. -/
def Op.Still : Op → Prop
  | .note (.invoked _) | .spawn _ _ _ | .kill _ | .streamsInsert _ _ | .streamsRemove _ => False
  | _ => True

theorem Op.Still.after (still : op.Still) (w : World) :
    (w.after a op r).spawned = w.spawned ∧ (w.after a op r).killed = w.killed ∧
      (w.after a op r).streams = w.streams := by
  cases op with
  | spawn _ _ _ | kill _ | streamsInsert _ _ | streamsRemove _ => exact still.elim
  | registryWriteTmp _ | registryRename => cases r <;> exact ⟨rfl, rfl, rfl⟩
  | _ => exact ⟨rfl, rfl, rfl⟩

theorem Op.Still.next (still : op.Still) (γ : Effort) :
    (γ.next op r).held = γ.held ∧ (γ.next op r).killed = γ.killed := by
  cases op with
  | spawn _ _ _ | kill _ | streamsInsert _ _ | streamsRemove _ => exact still.elim
  | note n =>
    cases n with
    | invoked _ => exact still.elim
    | _ => exact ⟨rfl, rfl⟩
  | _ => exact ⟨rfl, rfl⟩

/-- The processes held are alive and held once; those a call has killed have been killed,
and those killed have been spawned. -/
structure Accounted (c : Config Host Actor World) : Prop where
  sound : (ledger c).Sound
  own : ∀ a child, child ∈ (effortOf c a).killed → child ∈ c.world.killed
  spawned : ∀ child, child ∈ c.world.killed → child < c.world.spawned

theorem erase_absent {streams : StreamMap} {appId : String} (absent : streams.lookup appId = none) :
    streams.erase appId = streams := by
  refine Finmap.ext_lookup fun id => ?_
  by_cases same : id = appId
  · rw [same, Finmap.lookup_erase, absent]
  · exact Finmap.lookup_erase_ne same

/-- Each answered call moves processes about in the ledger, once a holder has let go of
its own in the cases `Loses` names. -/
theorem ledger_act (accounted : Accounted c) (admits : (effortOf c a).Admits op) (may : c.world.may a op r = true)
    (calls : ∀ b, b ≠ a → effortOf c' b = effortOf c b) (own : effortOf c' a = (effortOf c a).next op r)
    (world : c'.world = c.world.after a op r) :
    ∃ l, (l = ledger c ∨ ∃ h, Loses (.act ⟨a, op, r⟩) h ∧ l = (ledger c).forget h) ∧ Ledger.Moves l (ledger c') := by
  by_cases still : op.Still
  · obtain ⟨spawned, killed, streams⟩ := still.after (a := a) (r := r) c.world
    have same : ledger c' = ledger c :=
      ledger_same calls (world ▸ spawned) (world ▸ killed) (world ▸ streams) (own ▸ (still.next _).1)
    exact ⟨_, .inl rfl, same ▸ .refl⟩
  cases op with
  | note n =>
    cases n with
    | invoked entered =>
      have same : ledger c' = (ledger c).forget (.call a) :=
        ledger_forget calls (world ▸ rfl) (world ▸ rfl) (world ▸ rfl) (own ▸ rfl)
      exact ⟨_, .inr ⟨.call a, rfl, rfl⟩, same ▸ .refl⟩
    | _ => exact absurd trivial still
  | spawn appId role command =>
    cases r with
    | error e =>
      have same : ledger c' = ledger c := ledger_same calls (world ▸ rfl) (world ▸ rfl) (world ▸ rfl) (own ▸ rfl)
      exact ⟨_, .inl rfl, same ▸ .refl⟩
    | ok child =>
      have fresh : child = c.world.spawned := of_decide_eq_true may
      subst fresh
      have bounded : c.world.spawned ∉ c.world.killed := fun killed => Nat.lt_irrefl _ (accounted.spawned _ killed)
      exact ⟨_, .inl rfl, .single (ledger_create calls (world ▸ rfl) (world ▸ rfl) (world ▸ rfl) bounded (own ▸ rfl))⟩
  | kill child =>
    have owned := Or.imp_right (accounted.own a child) admits
    exact ⟨_, .inl rfl, .single (ledger_destroy calls (world ▸ rfl) (world ▸ rfl) (world ▸ rfl) (own ▸ rfl) owned)⟩
  | streamsInsert appId inst =>
    exact ⟨_, .inr ⟨.stream appId, rfl, rfl⟩,
      .single (ledger_insert calls (world ▸ rfl) (world ▸ rfl) (world ▸ rfl) (own ▸ rfl) admits)⟩
  | streamsRemove appId =>
    obtain ⟨_, known⟩ := World.may_streamsRemove may
    cases r with
    | none =>
      have absent : c.world.streams.erase appId = c.world.streams := erase_absent known.symm
      have same : ledger c' = ledger c :=
        ledger_same calls (world ▸ rfl) (world ▸ rfl) (world ▸ absent) (own ▸ rfl)
      exact ⟨_, .inl rfl, same ▸ .refl⟩
    | some inst =>
      exact ⟨_, .inl rfl,
        .single (ledger_remove calls (world ▸ rfl) (world ▸ rfl) (world ▸ rfl) known.symm (own ▸ rfl))⟩
  | _ => exact absurd trivial still

theorem ledger_step {tidy : Bool} {l : Label manager} (accounted : Accounted c)
    (conforms : ∀ a, c.Conforms (effort tidy) .idle (Rests tidy a) a) (step : Step manager c l c') :
    ∃ before, (before = ledger c ∨ ∃ h, Loses l h ∧ before = (ledger c).forget h) ∧
      Ledger.Moves before (ledger c') := by
  cases step with
  | @act a op next r at_work may =>
    have admits := conforms_admits (conforms a) at_work
    exact ledger_act accounted admits may (fun b => effort_other) effort_own rfl
  | env moved =>
    obtain ⟨exited, rfl⟩ := World.change_eq moved
    exact ⟨_, .inl rfl, .refl⟩
  | _ => exact ⟨_, .inl rfl, .refl⟩

theorem Effort.mem_killed {γ : Effort} {child : Child} (killed : child ∈ (γ.next op r).killed) :
    child ∈ γ.killed ∨ op = .kill child := by
  by_cases still : op.Still
  · rw [(still.next γ).2] at killed
    exact .inl killed
  cases op with
  | note n =>
    cases n with
    | invoked entered => exact absurd killed (Finset.notMem_empty child)
    | _ => exact absurd trivial still
  | spawn _ _ _ => cases r <;> exact .inl killed
  | kill other =>
    rcases Finset.mem_insert.mp killed with rfl | old
    · exact .inr rfl
    · exact .inl old
  | streamsInsert _ _ => exact .inl killed
  | streamsRemove _ => cases r <;> exact .inl killed
  | _ => exact absurd trivial still

theorem World.mem_killed {w : World} {child : Child} :
    child ∈ (w.after a op r).killed ↔ child ∈ w.killed ∨ op = .kill child := by
  by_cases still : op.Still
  · rw [(still.after w).2.1]
    refine ⟨.inl, fun either => either.elim id fun kill => ?_⟩
    subst kill
    exact still.elim
  cases op with
  | note n => exact ⟨.inl, fun either => either.elim id fun kill => nomatch kill⟩
  | kill other =>
    show child ∈ other :: w.killed ↔ _
    rw [List.mem_cons, Op.kill.injEq, eq_comm, or_comm]
  | spawn _ _ _ => cases r <;> exact ⟨.inl, fun either => either.elim id fun kill => nomatch kill⟩
  | streamsInsert _ _ | streamsRemove _ => exact ⟨.inl, fun either => either.elim id fun kill => nomatch kill⟩
  | _ => exact absurd trivial still

theorem World.spawned_le (w : World) : w.spawned ≤ (w.after a op r).spawned := by
  cases op with
  | spawn _ _ _ =>
    cases r with
    | ok _ => exact Nat.le_succ _
    | error _ => exact Nat.le_refl _
  | registryWriteTmp _ | registryRename => cases r <;> exact Nat.le_refl _
  | _ => exact Nat.le_refl _

theorem Accounted.step {tidy : Bool} {l : Label manager} (accounted : Accounted c)
    (conforms : ∀ a, c.Conforms (effort tidy) .idle (Rests tidy a) a) (step : Step manager c l c') : Accounted c' := by
  have sound : (ledger c').Sound := by
    obtain ⟨before, from_c, moves⟩ := ledger_step accounted conforms step
    rcases from_c with rfl | ⟨h, _, rfl⟩
    · exact accounted.sound.moves moves
    · exact (accounted.sound.forget h).moves moves
  cases step with
  | @act a op next r at_work may =>
    have admits := conforms_admits (conforms a) at_work
    refine ⟨sound, fun b child killed => ?_, fun child killed => ?_⟩
    · refine World.mem_killed.mpr ?_
      by_cases own : b = a
      · subst own
        rw [effort_own] at killed
        exact (Effort.mem_killed killed).imp_left (accounted.own b child)
      · rw [effort_other own] at killed
        exact .inl (accounted.own b child killed)
    · have old : child < c.world.spawned := by
        rcases World.mem_killed.mp killed with old | rfl
        · exact accounted.spawned child old
        · rcases admits with held | killed
          · exact (accounted.sound.live (.call a) child held).1
          · exact accounted.spawned child (accounted.own a child killed)
      exact Nat.lt_of_lt_of_le old (c.world.spawned_le)
  | env moved =>
    obtain ⟨exited, rfl⟩ := World.change_eq moved
    exact ⟨sound, accounted.own, accounted.spawned⟩
  | _ => exact ⟨sound, accounted.own, accounted.spawned⟩

theorem nothing_held {registry : File} (h : Holder) (child : Child) :
    child ∉ (ledger (.idle (.fresh registry))).holds h := by
  cases h with
  | call a => exact Finset.notMem_empty child
  | stream appId =>
    rintro ⟨inst, known, _⟩
    cases (Finmap.lookup_empty (β := fun _ => StreamInstance) appId).symm.trans known

theorem reach_accounted {registry : File} {ok : Config Host Actor World → Label manager → Prop}
    (reach : Reach manager ok (.idle (.fresh registry)) c) : Accounted c := by
  induction reach with
  | start =>
    exact ⟨⟨fun h child held => absurd held (nothing_held h child), fun h _ child held => absurd held (nothing_held h child)⟩,
      fun a child killed => absurd killed (Finset.notMem_empty child), fun child killed => absurd killed List.not_mem_nil⟩
  | next before step admitted ih =>
    exact ih.step (fun a => reach_conforms false before (fun tidy => nomatch tidy) a) step

end ledger

/-- No call is in progress. -/
def Quiet (c : Config Host Actor World) : Prop := ∀ a, (effortOf c a).call = none

theorem quiet_of_history {c : Config Host Actor World}
    (returned : ∀ e ∈ c.history, (effortOf c e.actor).call = none) : Quiet c := by
  intro a
  by_cases acted : ∃ e ∈ c.history, e.actor = a
  · obtain ⟨e, member, rfl⟩ := acted
    exact returned e member
  · have absent : effortOf c a = .idle := Protocol.state_absent _ _ _ fun e member own => acted ⟨e, member, own⟩
    rw [absent]
    rfl

theorem reach_complete {registry : File} {c : Config Host Actor World}
    (reach : Reach manager (fun c l => orderly c l) (.idle (.fresh registry)) c) :
    (ledger c).Complete := by
  induction reach with
  | start => exact fun child live => absurd live.1 (Nat.not_lt_zero child)
  | @next c l c' before step admitted ih =>
    have conforms := reach_conforms true before fun _ _ _ kept => absurd kept Bool.false_ne_true
    obtain ⟨middle, from_c, moves⟩ := ledger_step (reach_accounted before) conforms step
    rcases from_c with rfl | ⟨h, loses, rfl⟩
    · exact ih.moves moves
    · have empty : (ledger c).holds h = ∅ := by
        unfold Loses at loses
        split at loses
        · rename_i a entered _
          subst loses
          have held : (effortOf c a).held = ∅ := ((conforms a).allows step).2.2 rfl entered rfl
          ext child
          rw [mem_ledger_call, held]
          exact iff_of_false (Finset.notMem_empty child) (Set.notMem_empty child)
        · rename_i a appId inst _
          subst loses
          have absent : c.world.streams.lookup appId = none := Finmap.lookup_eq_none.mpr (orderly_absent before step admitted)
          ext child
          rw [mem_ledger_stream, absent]
          exact iff_of_false (by simp) (Set.notMem_empty child)
        · exact loses.elim
      exact (ih.forget empty).moves moves

theorem conforms_busy {tidy : Bool} {c : Config Host Actor World} {a : Actor}
    (conforms : c.Conforms (effort tidy) .idle (Rests tidy a) a) : (effortOf c a).Busy := by
  unfold effortOf
  rw [← effort_state tidy]
  cases at_work : c.running a with
  | none => exact (conforms.resting at_work).1
  | some program =>
    have follows := conforms.running at_work
    cases program with
    | ret value => exact follows.1
    | call op next => exact follows.1.1

theorem live_iff {registry : File} {c : Config Host Actor World}
    (reach : Reach manager (fun c l => orderly c l) (.idle (.fresh registry)) c)
    (quiet : Quiet c) (child : Child) : (child < c.world.spawned ∧ child ∉ c.world.killed) ↔
      ∃ appId inst, c.world.streams.lookup appId = some inst ∧ child ∈ inst.children := by
  have same (inst : StreamInstance) : child ∈ inst.kids ↔ child ∈ inst.children := by
    simp only [StreamInstance.kids, StreamInstance.children, Finset.mem_insert, Finset.mem_singleton, List.mem_cons,
      List.not_mem_nil, or_false]
  constructor
  · intro live
    obtain ⟨h, held⟩ := reach_complete reach child live
    cases h with
    | call a =>
      have conforms := reach_conforms true reach fun _ _ _ kept => absurd kept Bool.false_ne_true
      have none : (effortOf c a).held = ∅ := conforms_busy (conforms a) (quiet a)
      rw [mem_ledger_call, none] at held
      exact absurd held (Finset.notMem_empty child)
    | stream appId =>
      obtain ⟨inst, known, kid⟩ := held
      exact ⟨appId, inst, known, (same inst).mp kid⟩
  · rintro ⟨appId, inst, known, kid⟩
    exact (reach_accounted reach).sound.live (.stream appId) child ⟨inst, known, (same inst).mpr kid⟩

/-- Where no call is cancelled and no start puts its instance into the map after another start of
the app has since its membership check, the processes that were spawned and never killed are
those of the instances in the map, whenever no call is in progress, and no instance is dropped
from the map by an insertion. Where moreover no instance is taken out under the starts that
overlap the one it is of, two overlapping starts of one app never both succeed. -/
theorem no_orphans {registry : File} {c : Config Host Actor World}
    (reach : Reach manager (fun c l => orderly c l) (.idle (.fresh registry)) c) :
    (Quiet c → ∀ child, (child < c.world.spawned ∧ child ∉ c.world.killed) ↔
      ∃ appId inst, c.world.streams.lookup appId = some inst ∧ child ∈ inst.children) ∧
    (∀ c' a appId inst r, Step manager c (.act ⟨a, .streamsInsert appId inst, r⟩) c' →
      orderly c (.act ⟨a, .streamsInsert appId inst, r⟩) = true → appId ∉ c.world.streams) ∧
    (Reach manager (fun c l => orderly c l = true ∧ unhurried c l = true) (.idle (.fresh registry)) c →
      ∀ appId, ¬ BothSucceed appId c.history) :=
  ⟨fun quiet => live_iff reach quiet, fun _ _ _ _ _ step kept => orderly_absent reach step kept,
    fun unhurried _ => (reach_fair unhurried).apart⟩

/-! A start in which everything goes well, call by call. -/

/-- The membership check. -/
def checking (cfg : StreamConfig) (known : Bool) : List ((op : Op) × op.Ret) :=
  [⟨.note (.invoked (.start cfg)), ()⟩, ⟨.lock, ()⟩, ⟨.streamsContains cfg.appId, known⟩, ⟨.unlock, ()⟩]

/-- The spawns of a start of foot: processes `first`, `first + 1` and `first + 2`. -/
def spawning (cfg : StreamConfig) (first : Child) : List ((op : Op) × op.Ret) :=
  let rundir := rundirFor cfg.appId
  [⟨.createDirAll rundir, (.ok () : Except String Unit)⟩, ⟨.setPermissions rundir 0o777, (.ok () : Except String Unit)⟩,
    ⟨.spawn cfg.appId .cage (cageCommand rundir), (.ok first : Except String Child)⟩,
    ⟨.pathExists (rundir ++ "/wayland-0"), true⟩,
    ⟨.setPermissions (rundir ++ "/wayland-0") 0o777, (.ok () : Except String Unit)⟩,
    ⟨.spawn cfg.appId .tunnel (tunnelCommand rundir), (.ok (first + 1) : Except String Child)⟩,
    ⟨.pathExists (rundir ++ "/wayland-stream.sock"), true⟩,
    ⟨.spawn cfg.appId .app (footCommand rundir), (.ok (first + 2) : Except String Child)⟩]

def footInstance (cfg : StreamConfig) (first : Child) (task : TaskHandle) : StreamInstance :=
  ⟨cfg.appId, cfg, first, first + 1, first + 2, rundirFor cfg.appId, task, task + 1, task + 2⟩

/-- The end of a start, into a registry that holds `configs`. -/
def registering (cfg : StreamConfig) (first : Child) (task : TaskHandle) (configs : List StreamConfig) :
    List ((op : Op) × op.Ret) :=
  let rundir := rundirFor cfg.appId
  [⟨.spawnTask .forwarder cfg.appId (rundir ++ "/wayland-stream.sock"), task⟩,
    ⟨.spawnTask .input cfg.appId rundir, (task + 1 : Nat)⟩, ⟨.spawnTask .resize cfg.appId rundir, (task + 2 : Nat)⟩,
    ⟨.lock, ()⟩, ⟨.streamsInsert cfg.appId (footInstance cfg first task), ()⟩,
    ⟨.registryLoad, (.ok configs : Except String (List StreamConfig))⟩,
    ⟨.registryMkdir, (.ok () : Except String Unit)⟩,
    ⟨.registryWriteTmp (upserted cfg configs), (.ok () : Except String Unit)⟩,
    ⟨.registryRename, (.ok () : Except String Unit)⟩, ⟨.unlock, ()⟩, ⟨.note (.returned (.start cfg) true), ()⟩]

def foot : StreamConfig := { StreamConfig.default with app := "foot" }

/-- While one task starts a stream another is told to start it too: the second is refused, and the first runs. -/
theorem no_orphans_one : ∃ c, Quiet c ∧ (2 < c.world.spawned ∧ 2 ∉ c.world.killed) ∧
    (∃ appId inst, c.world.streams.lookup appId = some inst ∧ 2 ∈ inst.children) ∧ ¬ BothSucceed foot.appId c.history := by
  obtain ⟨c, reach, checked⟩ := replay_check (fun c l => orderly c l && unhurried c l)
    (fun _ _ kept => Bool.and_eq_true_iff.mp kept) (Config.idle (.fresh .missing))
    (.begin .autostart (.start foot) :: calling manager .autostart ((checking foot true).take 1) ++
      serving manager .ctl (.start foot) (checking foot false ++ spawning foot 0 ++ registering foot 0 0 []) ++
      calling manager .autostart ((checking foot true).drop 1 ++ [⟨.note (.returned (.start foot) false), ()⟩]) ++
      [.finish .autostart])
    (fun c => (∀ e ∈ c.history, (effortOf c e.actor).call = none) && (2 < c.world.spawned ∧ 2 ∉ c.world.killed : Bool))
    (by decide +kernel)
  obtain ⟨returned, live⟩ := Bool.and_eq_true_iff.mp checked
  have quiet := quiet_of_history (of_decide_eq_true returned)
  obtain ⟨held, -, apart⟩ := no_orphans (reach.mono fun _ _ kept => kept.1)
  exact ⟨c, quiet, of_decide_eq_true live, (held quiet 2).mp (of_decide_eq_true live), apart reach foot.appId⟩

/-- Every spawn succeeds and no call is cancelled. -/
def undisturbed (l : Label manager) : Bool :=
  match l with
  | .drop _ => false
  | .act ⟨_, .spawn _ _ _, r⟩ => Except.isOk (r : Except String Child)
  | _ => true

/-- The control subscriber and the autostart loop start the same stream: both pass the
membership check and both succeed, and nobody holds the processes of the one that was
overwritten. -/
theorem overlapping_starts_orphan : ∃ c,
    Reach manager (fun _ l => undisturbed l) (.idle (.fresh .missing)) c ∧ Quiet c ∧
    (∀ a ∈ [Actor.ctl, .autostart], ∃ e ∈ c.history, e.actor = a ∧ e.op = .note (.returned (.start foot) true)) ∧
    (0 < c.world.spawned ∧ 0 ∉ c.world.killed) ∧
    ¬ ∃ appId inst, c.world.streams.lookup appId = some inst ∧ 0 ∈ inst.children := by
  obtain ⟨c, reach, checked⟩ := replay_check (fun _ l => undisturbed l) (fun _ _ kept => kept)
    (Config.idle (.fresh .missing))
    (.begin .ctl (.start foot) :: calling manager .ctl (checking foot false) ++
      serving manager .autostart (.start foot) (checking foot false ++ spawning foot 0 ++ registering foot 0 0 []) ++
      calling manager .ctl (spawning foot 3 ++ registering foot 3 3 [foot]) ++ [.finish .ctl])
    (fun c => (∀ e ∈ c.history, (effortOf c e.actor).call = none) && decide ((∀ a ∈ [Actor.ctl, .autostart],
      ∃ e ∈ c.history, e.actor = a ∧ e.op = .note (.returned (.start foot) true)) ∧
      (0 < c.world.spawned ∧ 0 ∉ c.world.killed) ∧ ∀ s ∈ c.world.streams.entries, 0 ∉ s.2.children))
    (by decide +kernel)
  obtain ⟨returned, rest⟩ := Bool.and_eq_true_iff.mp checked
  obtain ⟨both, live, others⟩ := of_decide_eq_true rest
  refine ⟨c, reach, quiet_of_history (of_decide_eq_true returned), both, live, ?_⟩
  rintro ⟨appId, inst, known, kid⟩
  exact others ⟨appId, inst⟩ (Finmap.mem_lookup_iff.mp known) kid

end Bsdos.Streams
