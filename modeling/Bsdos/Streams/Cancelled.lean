import Bsdos.Streams.Orphans

namespace Bsdos.Streams
open Effects

/-- What the streams map and the registry file hold under a key. -/
def World.key (w : World) (appId : String) : Option StreamInstance × Option (List StreamConfig) :=
  (w.streams.lookup appId, w.registry.configs.map (List.filter fun cfg => cfg.appId = appId))

/-- The task enters no further call. -/
def during (a : Actor) (l : Label manager) : Bool :=
  match l with
  | .act ⟨b, .note (.invoked _), _⟩ => b ≠ a
  | _ => true

/-- Whatever another task does in the step leaves the key alone. -/
def othersKeep (a : Actor) (appId : String) (c : Config Host Actor World) (l : Label manager) : Prop :=
  ∀ b op r, l = .act ⟨b, op, r⟩ → b ≠ a → (c.world.after b op r).key appId = c.world.key appId

/-- Of a call that task `a` has entered in `entered` nothing is left in `c`: each process
it has spawned has been killed, and each key that no other call has touched since is as
it was. -/
def LeavesNothing (a : Actor) (entered c : Config Host Actor World) : Prop :=
  (∀ child ∈ (effortOf c a).spawned, child ∈ c.world.killed) ∧
    ∀ appId, Reach manager (fun d l => during a l ∧ othersKeep a appId d l) entered c →
      c.world.key appId = entered.world.key appId

/-- The step ends the start without success: it returns an error, or is dropped. -/
def FailsAt (a : Actor) (cfg : StreamConfig) (c : Config Host Actor World) (l : Label manager) : Prop :=
  (∃ r, l = .act ⟨a, .note (.returned (.start cfg) false), r⟩) ∨
    l = .drop a ∧ (effortOf c a).call = some (.start cfg)

section failed
variable {registry : File} {before entered c c' : Config Host Actor World} {a : Actor} {cfg : StreamConfig}
  {l : Label manager}

/-- A call that has written nothing after an answer had written nothing before it, and
the answer has changed no key. -/
theorem unwritten_after {op : Op} {r : op.Ret} {w : World} {γ : Effort} (may : w.may a op r = true)
    (inside : ∀ call, op ≠ .note (.invoked call)) (unwritten : (γ.next op r).wrote = false) (appId : String) :
    γ.wrote = false ∧ (w.after a op r).key appId = w.key appId := by
  cases op with
  | note n =>
    cases n with
    | invoked call => exact absurd rfl (inside call)
    | _ => exact ⟨unwritten, rfl⟩
  | streamsInsert _ _ | registryWriteTmp _ | registryRename => cases unwritten
  | streamsRemove id =>
    cases r with
    | some inst => cases unwritten
    | none =>
      have absent : w.streams.erase id = w.streams := erase_absent (World.may_streamsRemove may).2.symm
      refine ⟨unwritten, ?_⟩
      show ((w.streams.erase id).lookup appId, _) = (w.streams.lookup appId, _)
      rw [absent]
      rfl
  | spawn _ _ _ => cases r <;> exact ⟨unwritten, rfl⟩
  | _ => exact ⟨unwritten, rfl⟩

/-- A call that has written nothing has left every key alone. -/
theorem unwritten_key {appId : String}
    (later : Reach manager (fun d l => during a l ∧ othersKeep a appId d l) entered c)
    (unwritten : (effortOf c a).wrote = false) : c.world.key appId = entered.world.key appId := by
  induction later with
  | start => rfl
  | next run step admitted ih =>
    cases step with
    | @act b op next r at_work may =>
      by_cases own : b = a
      · subst own
        rw [effort_own] at unwritten
        have inside (call : Call) : op ≠ .note (.invoked call) := by
          intro same
          subst same
          exact of_decide_eq_true admitted.1 rfl
        obtain ⟨before, same⟩ := unwritten_after may inside unwritten appId
        exact same.trans (ih before)
      · rw [effort_other (Ne.symm own)] at unwritten
        exact (admitted.2 b op r rfl own).trans (ih unwritten)
    | env moved =>
      obtain ⟨exited, rfl⟩ := World.change_eq moved
      exact ih unwritten
    | _ => exact ih unwritten

theorem droppable_waits {op : Op} (dropped : droppable a op = true) : op = .lock ∨ ∃ millis, op = .sleep millis := by
  unfold droppable at dropped
  split at dropped
  · exact .inl rfl
  · exact .inr ⟨_, rfl⟩
  · cases dropped

/-- Where a start can be dropped, it has written nothing, and past its membership check
it holds a process that is alive. -/
theorem dropped_waiting (run : Reach manager (anyStep manager) (.idle (.fresh registry)) c)
    (step : Step manager c (.drop a) c') (call : (effortOf c a).call = some (.start cfg)) :
    (effortOf c a).wrote = false ∧ ((effortOf c a).checked = false ∧ (effortOf c a).spawned = ∅ ∨
      (effortOf c a).checked = true ∧ ∃ child ∈ (effortOf c a).spawned, child ∉ c.world.killed) := by
  cases step with
  | @drop _ op next at_work dropped =>
    have admits := conforms_admits (reach_conforms false run (fun tidy => nomatch tidy) a) at_work
    have waiting : (effortOf c a).Waiting := by
      rcases droppable_waits dropped with rfl | ⟨millis, rfl⟩
      · exact admits
      · exact admits
    obtain ⟨unwritten, unchecked | ⟨checked, child, held, spawned⟩⟩ := waiting cfg call
    · exact ⟨unwritten, .inl unchecked⟩
    · exact ⟨unwritten, .inr ⟨checked, child, spawned, ((reach_accounted run).sound.live (.call a) child held).2⟩⟩

/-- A start that fails leaves nothing behind, unless it is dropped past its membership
check. -/
theorem failed_start_leaves_nothing_iff
    (reach : Reach manager (anyStep manager) (.idle (.fresh registry)) before)
    (enter : Step manager before (.act ⟨a, .note (.invoked (.start cfg)), ()⟩) entered)
    (later : Reach manager (fun _ l => during a l) entered c) (step : Step manager c l c')
    (fails : FailsAt a cfg c l) :
    LeavesNothing a entered c' ↔ l ≠ .drop a ∨ (effortOf c a).checked = false := by
  have run : Reach manager (anyStep manager) (.idle (.fresh registry)) c :=
    (Reach.next reach enter trivial).trans (later.mono fun _ _ _ => trivial)
  rcases fails with ⟨r, rfl⟩ | ⟨rfl, call⟩
  · refine iff_of_true ?_ (.inl (by simp))
    cases step with
    | act at_work may =>
      have admits := conforms_admits (reach_conforms false run (fun tidy => nomatch tidy) a) at_work
      refine ⟨fun child spawned => ?_, fun appId later => unwritten_key later ?_⟩
      · rw [effort_own] at spawned
        exact (reach_accounted run).own a child (admits.1 spawned)
      · rw [effort_own]
        exact admits.2
  · obtain ⟨unwritten, waiting⟩ := dropped_waiting run step call
    cases step with
    | drop at_work droppable =>
      have keys (appId : String) (later : Reach manager (fun d l => during a l ∧ othersKeep a appId d l) entered
          { c with running := Function.update c.running a none }) : c.world.key appId = entered.world.key appId :=
        unwritten_key (c := { c with running := Function.update c.running a none }) later unwritten
      rcases waiting with ⟨unchecked, none⟩ | ⟨checked, child, spawned, alive⟩
      · refine iff_of_true ⟨fun child spawned => ?_, keys⟩ (.inr unchecked)
        have spawned : child ∈ (effortOf c a).spawned := spawned
        rw [none] at spawned
        exact absurd spawned (Finset.notMem_empty child)
      · refine iff_of_false (fun nothing => alive (nothing.1 child spawned)) fun either => ?_
        rcases either with other | unchecked
        · exact other rfl
        · exact nomatch checked.symm.trans unchecked

end failed

/-- A start entered from the fresh daemon, carried on by the schedule and ended by `last`. -/
theorem replay_start (a : Actor) (cfg : StreamConfig) (schedule : List (Label manager)) (last : Label manager)
    (check : Config Host Actor World → Bool)
    (run : ((Config.idle (.fresh .missing)).fire (S := manager) (.begin a (.start cfg))).any (fun before =>
      (before.fire (S := manager) (.act ⟨a, .note (.invoked (.start cfg)), ()⟩)).any fun entered =>
        (replay (fun _ l => during a l) entered schedule).any fun c => check c && (c.fire last).isSome) = true) :
    ∃ before entered c c', Reach manager (anyStep manager) (.idle (.fresh .missing)) before ∧
      Step manager before (.act ⟨a, .note (.invoked (.start cfg)), ()⟩) entered ∧
      Reach manager (fun _ l => during a l) entered c ∧ Step manager c last c' ∧ check c = true := by
  obtain ⟨before, begun, run⟩ := (Option.any_eq_true _ _).mp run
  obtain ⟨entered, enter, run⟩ := (Option.any_eq_true _ _).mp run
  obtain ⟨c, later, run⟩ := (Option.any_eq_true _ _).mp run
  obtain ⟨checked, fired⟩ := Bool.and_eq_true_iff.mp run
  obtain ⟨c', fired⟩ := Option.isSome_iff_exists.mp fired
  exact ⟨before, entered, c, c', .next .start (Config.fire_step begun) trivial, Config.fire_step enter,
    replay_reach (fun _ _ kept => kept) later, Config.fire_step fired, checked⟩

/-- The cage and the tunnel run when the application cannot be spawned. -/
theorem failed_start_leaves_nothing_app : ∃ entered c c', c.world.spawned = 2 ∧ 0 ∈ (effortOf c .ctl).spawned ∧
    1 ∈ (effortOf c .ctl).spawned ∧ Step manager c (.act ⟨.ctl, .note (.returned (.start foot) false), ()⟩) c' ∧
    LeavesNothing .ctl entered c' := by
  obtain ⟨before, entered, c, c', reach, enter, later, step, checked⟩ := replay_start .ctl foot
    (calling manager .ctl ((checking foot false).tail ++ (spawning foot 0).take 7 ++
      [⟨.spawn foot.appId .app (footCommand (rundirFor foot.appId)), (.error "ENOENT" : Except String Child)⟩,
        ⟨.kill 0, (.ok () : Except String Unit)⟩, ⟨.wait 0, (.ok () : Except String Unit)⟩,
        ⟨.kill 1, (.ok () : Except String Unit)⟩, ⟨.wait 1, (.ok () : Except String Unit)⟩]))
    (.act ⟨.ctl, .note (.returned (.start foot) false), ()⟩)
    (fun c => decide (c.world.spawned = 2 ∧ 0 ∈ (effortOf c .ctl).spawned ∧ 1 ∈ (effortOf c .ctl).spawned))
    (by decide +kernel)
  obtain ⟨count, cage, tunnel⟩ := of_decide_eq_true checked
  exact ⟨entered, c, c', count, cage, tunnel, step,
    (failed_start_leaves_nothing_iff reach enter later step (.inl ⟨(), rfl⟩)).mpr (.inl (by simp))⟩

/-- The autostart of a stream is dropped while it waits for the cage's socket: the cage
goes on. -/
theorem dropped_start_leaves_cage : ∃ before entered c c',
    Reach manager (anyStep manager) (.idle (.fresh .missing)) before ∧
    Step manager before (.act ⟨.autostart, .note (.invoked (.start foot)), ()⟩) entered ∧
    Reach manager (fun _ l => during .autostart l) entered c ∧ Step manager c (.drop .autostart) c' ∧
    FailsAt .autostart foot c (.drop .autostart) ∧ ¬ LeavesNothing .autostart entered c' := by
  obtain ⟨before, entered, c, c', reach, enter, later, step, checked⟩ := replay_start .autostart foot
    (calling manager .autostart ((checking foot false).tail ++ (spawning foot 0).take 3 ++
      [⟨.pathExists (rundirFor foot.appId ++ "/wayland-0"), false⟩]))
    (.drop .autostart) (fun c => (effortOf c .autostart).call = some (.start foot) &&
      decide (0 ∈ (effortOf c .autostart).spawned ∧ 0 ∉ c.world.killed)) (by decide +kernel)
  obtain ⟨call, alive⟩ := Bool.and_eq_true_iff.mp checked
  obtain ⟨spawned, alive⟩ := of_decide_eq_true alive
  refine ⟨before, entered, c, c', reach, enter, later, step, .inr ⟨rfl, of_decide_eq_true call⟩, fun nothing => ?_⟩
  cases step with
  | drop at_work dropped => exact alive (nothing.1 0 spawned)

end Bsdos.Streams
