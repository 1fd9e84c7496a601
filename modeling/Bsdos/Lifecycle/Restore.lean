import Bsdos.Lifecycle.Execution

namespace Bsdos.Lifecycle
open Effects

def listArgs (jail : String) : List String := ["list", "-t", "snapshot", "-o", "name", "-H", dataset jail]

/-- A `zfs rollback` is requested. -/
def rollsBack : Moment Daemon World → Bool
  | ⟨_, .output program args, _⟩ => program = "zfs" && args.head? = some "rollback"
  | _ => false

/-- The snapshots of the jail were listed and a hibernate snapshot is among them. -/
def listsSnapshot (jail : String) : Moment Daemon World → Bool
  | ⟨_, .output program args, r⟩ =>
    program = "zfs" && args = listArgs jail && (outcome program r).toOption.any fun snaps => (latestSnapshot snaps).isSome
  | _ => false

/-- Whenever a rollback is requested, no process of the jail is alive and the jail
is tracked as hibernated. -/
def SparesLiveData (jail : String) (moments : List (Moment Daemon World)) : Prop :=
  ∀ m ∈ moments, rollsBack m → m.before.liveProcs jail = [] ∧ m.before.states.lookup jail = some .hibernated

instance (jail : String) (moments : List (Moment Daemon World)) : Decidable (SparesLiveData jail moments) :=
  inferInstanceAs (Decidable (∀ m ∈ moments, _ → _ ∧ _))

variable {policy : LifecyclePolicy} {a : Actor} {w w' : World} {moments : List (Moment Daemon World)}
  {jail : String} {r : Except String String}

/-- Rolling back is what follows a listing that names a hibernate snapshot; nothing
happens to the daemon's world in between. -/
theorem exec_rollbackAndRestart
    (exec : Exec (lifecycled policy) a (rollbackAndRestart jail).run w moments r w') :
    (∀ m ∈ moments, rollsBack m → m.before = w) ∧ (∀ m ∈ moments, ¬ delivered .cont m) ∧
      ((∃ m ∈ moments, rollsBack m) ↔ ∃ m ∈ moments, listsSnapshot jail m) := by
  rcases exec_tryBind.mp exec with ⟨_, snaps, _, _, front, back, rfl⟩ | ⟨e, front, rfl⟩
  · obtain ⟨listing, rfl, listed, rfl⟩ := exec_run.mp front
    have lists : ∀ u : World, listsSnapshot jail ⟨u, .output "zfs" (listArgs jail), listing⟩ =
        (latestSnapshot snaps).isSome := by
      intro u
      simp [listsSnapshot, ← listed, Except.toOption]
    unfold listArgs at lists
    cases found : latestSnapshot snaps with
    | none =>
      rw [found] at back lists
      obtain ⟨rfl, rfl, rfl⟩ := back
      simp [rollsBack, delivered, lists]
    | some latest =>
      rw [found] at back lists
      rcases exec_tryBind.mp back with ⟨_, _, _, _, rolled, insert, rfl⟩ | ⟨e, rolled, rfl⟩
      · obtain ⟨result, rfl, _, rfl⟩ := exec_run.mp rolled
        obtain ⟨⟨⟩, _, _, rfl, rfl, _, _⟩ := insert
        simp [rollsBack, delivered, lists]
      · obtain ⟨result, rfl, _, rfl⟩ := exec_run.mp rolled
        simp [rollsBack, delivered, lists]
  · obtain ⟨listing, rfl, listed, rfl⟩ := exec_run.mp front
    simp [rollsBack, delivered, listsSnapshot, ← listed, Except.toOption]

theorem rollsBack_output {m : Moment Daemon World} (rolls : rollsBack m) :
    ∃ program args, m.op = .output program args := by
  obtain ⟨before, op, result⟩ := m
  cases op with
  | output program args => exact ⟨program, args, rfl⟩
  | _ => cases rolls

theorem listsSnapshot_output {m : Moment Daemon World} (lists : listsSnapshot jail m) :
    ∃ program args, m.op = .output program args := by
  obtain ⟨before, op, result⟩ := m
  cases op with
  | output program args => exact ⟨program, args, rfl⟩
  | _ => cases lists

theorem exec_wakeOrRollback (exec : Exec (lifecycled policy) a (wakeOrRollback jail).run w moments r w') :
    (∀ m ∈ moments, rollsBack m → m.before = w) ∧
      ((∃ m ∈ moments, rollsBack m) ↔
        (∀ m ∈ moments, ¬ delivered .cont m) ∧ ∃ m ∈ moments, listsSnapshot jail m) := by
  obtain ⟨signals, reached, u, rest, front, back, rfl⟩ := exec_attempt.mp exec
  have quiet : ∀ m ∈ signals, ¬ rollsBack m ∧ ¬ listsSnapshot jail m := by
    have only := front.only (signalJailPids_only (Q := fun op => ∀ program args, op ≠ .output program args)
      (by simp) (by simp) (by simp))
    intro m member
    constructor
    · intro rolls
      obtain ⟨program, args, eq⟩ := rollsBack_output rolls
      exact only m member program args eq
    · intro lists
      obtain ⟨program, args, eq⟩ := listsSnapshot_output lists
      exact only m member program args eq
  obtain ⟨count, same⟩ := exec_signalJailPids front
  have rolled : ∀ {rest : List (Moment Daemon World)} {r u}, signals.filter (delivered .cont) = [] → u = w →
      Exec (lifecycled policy) a (rollbackAndRestart jail).run u rest r w' →
      (∀ m ∈ signals ++ rest, rollsBack m → m.before = w) ∧ ((∃ m ∈ signals ++ rest, rollsBack m) ↔
        (∀ m ∈ signals ++ rest, ¬ delivered .cont m) ∧ ∃ m ∈ signals ++ rest, listsSnapshot jail m) := by
    rintro rest r _ none rfl exec
    obtain ⟨before, silent, iff⟩ := exec_rollbackAndRestart exec
    have unheard := List.filter_eq_nil_iff.mp none
    refine ⟨fun m member rolls => ?_, ?_, ?_⟩
    · rcases List.mem_append.mp member with early | late
      · exact absurd rolls (quiet m early).1
      · exact before m late rolls
    · rintro ⟨m, member, rolls⟩
      rcases List.mem_append.mp member with early | late
      · exact absurd rolls (quiet m early).1
      · obtain ⟨l, listed, lists⟩ := iff.mp ⟨m, late, rolls⟩
        exact ⟨fun m member => (List.mem_append.mp member).elim (unheard m) (silent m),
          l, List.mem_append_right _ listed, lists⟩
    · rintro ⟨_, l, listed, lists⟩
      rcases List.mem_append.mp listed with early | late
      · exact absurd lists (quiet l early).2
      · obtain ⟨m, member, rolls⟩ := iff.mpr ⟨l, late, lists⟩
        exact ⟨m, List.mem_append_right _ member, rolls⟩
  cases reached with
  | error e => exact rolled (List.eq_nil_of_length_eq_zero count.symm) (same rfl) back
  | ok n =>
    cases n with
    | zero => exact rolled (List.eq_nil_of_length_eq_zero count.symm) (same rfl) back
    | succ n =>
      obtain ⟨⟨⟩, _, _, rfl, rfl, _, _⟩ := back
      obtain ⟨m, heard⟩ := List.exists_mem_of_length_pos (count.subst (Nat.succ_pos n))
      obtain ⟨member, heard⟩ := List.mem_filter.mp heard
      have insert : ∀ m ∈ [(⟨u, .statesInsert jail .running, ()⟩ : Moment Daemon World)], ¬ rollsBack m := by
        simp [rollsBack]
      refine ⟨fun m member rolls => ?_, ?_, ?_⟩
      · exact ((List.mem_append.mp member).elim (fun early => (quiet m early).1) (insert m) rolls).elim
      · rintro ⟨m, member, rolls⟩
        exact ((List.mem_append.mp member).elim (fun early => (quiet m early).1) (insert m) rolls).elim
      · rintro ⟨unheard, _⟩
        exact absurd heard (unheard m (List.mem_append_left _ member))

theorem exec_restoreBody (exec : Exec (lifecycled policy) a (restoreBody jail).run w moments r w') :
    (∀ m ∈ moments, rollsBack m → m.before = w) ∧
      ((∃ m ∈ moments, rollsBack m) ↔
        (w.states.lookup jail = some .frozen ∨ w.states.lookup jail = some .hibernated) ∧
          (∀ m ∈ moments, ¬ delivered .cont m) ∧ ∃ m ∈ moments, listsSnapshot jail m) := by
  rcases exec_tryBind.mp exec with ⟨_, state, w, rest, ⟨_, _, may, rfl, rfl, ⟨⟩, rfl⟩, back, rfl⟩ |
    ⟨e, ⟨_, _, _, _, _, impossible, _⟩, _⟩
  swap
  · cases impossible
  have tracked : state = w.states.lookup jail := World.may_statesGet may
  have rolls : rollsBack ⟨w, .statesGet jail, state⟩ = false := rfl
  have wakes : delivered .cont ⟨w, .statesGet jail, state⟩ = false := rfl
  have lists : listsSnapshot jail ⟨w, .statesGet jail, state⟩ = false := rfl
  simp only [List.singleton_append, List.mem_cons, exists_eq_or_imp, forall_eq_or_imp, rolls, wakes, lists,
    Bool.false_eq_true, false_imp_iff, true_and, false_or, not_false_iff, ← tracked]
  cases state with
  | none =>
    obtain ⟨rfl, _, _⟩ := back
    simp
  | some state =>
    cases state with
    | frozen => simpa using exec_wakeOrRollback back
    | hibernated => simpa using exec_wakeOrRollback back
    | running => obtain ⟨rfl, _, _⟩ := back; simp
    | dead => obtain ⟨rfl, _, _⟩ := back; simp

/-- A predicate the notes around an operation do not satisfy looks at its body only. -/
theorem exists_mem_inner {P : Moment Daemon World → Bool} {inner : List (Moment Daemon World)} {n n' : Note}
    (silent : ∀ u n, P ⟨u, .note n, ()⟩ = false) :
    (∃ m ∈ ⟨w, .note n, ()⟩ :: inner ++ [⟨w', .note n', ()⟩], P m) ↔ ∃ m ∈ inner, P m := by
  simp only [List.cons_append, List.mem_cons, List.mem_append, List.not_mem_nil, or_false, or_and_right, exists_or,
    exists_eq_left, silent, Bool.false_eq_true, false_or]

theorem forall_mem_inner {P : Moment Daemon World → Bool} {inner : List (Moment Daemon World)} {n n' : Note}
    (silent : ∀ u n, P ⟨u, .note n, ()⟩ = false) :
    (∀ m ∈ ⟨w, .note n, ()⟩ :: inner ++ [⟨w', .note n', ()⟩], ¬ P m) ↔ ∀ m ∈ inner, ¬ P m := by
  simpa only [not_exists, not_and] using not_congr (exists_mem_inner silent)

/-- A restore spares live data exactly where it does not get as far as a rollback,
or the jail was hibernated and had no live process when it was called. -/
theorem restoreApplication_spares_iff
    (exec : Exec (lifecycled policy) a (restoreApplication jail).run w moments r w') :
    SparesLiveData jail moments ↔
      ¬ (w.states.lookup jail = some .frozen ∨ w.states.lookup jail = some .hibernated) ∨
        (∃ m ∈ moments, delivered .cont m) ∨
        (∀ m ∈ moments, ¬ listsSnapshot jail m) ∨
        (w.states.lookup jail = some .hibernated ∧ w.liveProcs jail = []) := by
  obtain ⟨inner, rfl, ⟨_, exec⟩ | ⟨e, _, rfl, rfl, rfl⟩⟩ := exec_operation.mp exec
  · simp only [Call.jail] at exec
    obtain ⟨before, iff⟩ := exec_restoreBody exec
    have spares : SparesLiveData jail (⟨w, .note (.invoked (.restore jail)), ()⟩ :: inner ++
        [⟨w', .note (.returned (.restore jail) r.isOk), ()⟩]) ↔
        (∃ m ∈ inner, rollsBack m) → w.liveProcs jail = [] ∧ w.states.lookup jail = some .hibernated := by
      constructor
      · rintro spares ⟨m, member, rolls⟩
        rw [← before m member rolls]
        exact spares m (List.mem_append_left _ (List.mem_cons_of_mem _ member)) rolls
      · intro safe m member rolls
        have member : m ∈ inner := by
          rcases List.mem_append.mp member with early | last
          · rcases List.mem_cons.mp early with rfl | early
            · cases rolls
            · exact early
          · cases List.mem_singleton.mp last
            cases rolls
        rw [before m member rolls]
        exact safe ⟨m, member, rolls⟩
    have unheard : (∀ m ∈ inner, ¬ delivered .cont m) ↔ ¬ ∃ m ∈ inner, delivered .cont m := by simp
    have unlisted : (∀ m ∈ inner, ¬ listsSnapshot jail m) ↔ ¬ ∃ m ∈ inner, listsSnapshot jail m := by simp
    rw [spares, iff, exists_mem_inner fun _ _ => rfl, forall_mem_inner fun _ _ => rfl, unheard, unlisted]
    by_cases woken : ∃ m ∈ inner, delivered .cont m
    · simp only [woken, not_true, false_and, and_false, false_imp_iff, true_or, or_true]
    · simp only [woken, not_false_iff, true_and, false_or, and_imp, ← imp_iff_not_or,
        and_comm (a := w.liveProcs jail = [])]
  · simp [SparesLiveData, rollsBack, listsSnapshot]

/-- One jail, up with one process, in a daemon that has just started. -/
def oneJail : World := ⟨∅, loadPriorities [], false, [], 0, [⟨1, "app"⟩], [⟨10, 1, false⟩]⟩

theorem oneJail_started : oneJail.Started := ⟨rfl, ⟨[], rfl⟩, rfl, rfl⟩

/-- The listing of the one snapshot of that jail. -/
def oneSnapshot : Output := ⟨true, "exit status: 0", "bsdos/apps/app@hibernate-0\n", ""⟩

/-- A hibernated jail without processes is rolled back, and nothing is lost. -/
theorem restoreApplication_spares_hibernated : ∃ moments r w',
    Exec (lifecycled (.forPlatform false)) (.conn 0) (restoreApplication "app").run
      { oneJail with states := (∅ : StateMap).insert "app" .hibernated, procs := [] } moments r w' ∧
    (∃ m ∈ moments, rollsBack m) ∧ SparesLiveData "app" moments := by
  obtain ⟨moments, r, w', exec, checked⟩ := play_check
    (S := lifecycled (.forPlatform false)) (a := .conn 0) (p := (restoreApplication "app").run)
    (w := { oneJail with states := (∅ : StateMap).insert "app" .hibernated, procs := [] })
    [⟨.note (.invoked (.restore "app")), ()⟩, ⟨.statesGet "app", some .hibernated⟩,
      ⟨.jidByName "app", .ok 1⟩, ⟨.jailPids 1, .ok []⟩, ⟨.output "zfs" (listArgs "app"), .ok oneSnapshot⟩,
      ⟨.output "zfs" ["rollback", "bsdos/apps/app@hibernate-0"], .ok ⟨true, "exit status: 0", "", ""⟩⟩,
      ⟨.statesInsert "app" .running, ()⟩, ⟨.note (.returned (.restore "app") true), ()⟩]
    (fun out => out.1.any rollsBack) (by decide +kernel)
  exact ⟨moments, r, w', exec, List.any_eq_true.mp checked,
    (restoreApplication_spares_iff exec).mpr (.inr (.inr (.inr ⟨by decide, by decide⟩)))⟩

/-- HIBERNATE, THAW and FREEZE of that jail, each served at once. -/
def hibernateThawFreeze (policy : LifecyclePolicy) : List (Label (lifecycled policy)) :=
  serving (lifecycled policy) (.conn 0) (.line "HIBERNATE app")
    [⟨.note (.invoked (.hibernate "app")), ()⟩, ⟨.jidByName "app", .ok 1⟩, ⟨.jailPids 1, .ok [10]⟩,
      ⟨.kill 10 .stop, .ok ()⟩, ⟨.unixTime, (0 : Nat)⟩,
      ⟨.output "zfs" ["snapshot", "bsdos/apps/app@hibernate-0"], .ok ⟨true, "exit status: 0", "", ""⟩⟩,
      ⟨.statesInsert "app" .hibernated, ()⟩, ⟨.note (.returned (.hibernate "app") true), ()⟩,
      ⟨.reply "+OK hibernated jail=app snapshot=bsdos/apps/app@hibernate-0\n", ()⟩] ++
  serving (lifecycled policy) (.conn 1) (.line "THAW app")
    [⟨.note (.invoked (.thaw "app")), ()⟩, ⟨.jidByName "app", .ok 1⟩, ⟨.jailPids 1, .ok [10]⟩,
      ⟨.kill 10 .cont, .ok ()⟩, ⟨.statesInsert "app" .running, ()⟩, ⟨.note (.returned (.thaw "app") true), ()⟩,
      ⟨.reply "+OK thawed jail=app procs=1\n", ()⟩] ++
  serving (lifecycled policy) (.conn 2) (.line "FREEZE app")
    [⟨.note (.invoked (.freeze "app")), ()⟩, ⟨.jidByName "app", .ok 1⟩, ⟨.jailPids 1, .ok [10]⟩,
      ⟨.kill 10 .stop, .ok ()⟩, ⟨.statesInsert "app" .frozen, ()⟩, ⟨.note (.returned (.freeze "app") true), ()⟩,
      ⟨.reply "+OK frozen jail=app procs=1\n", ()⟩]

/-- A jail that was hibernated, thawed and frozen, and whose process is alive, is
rolled back to the old snapshot when its jid cannot be looked up. -/
theorem restoreApplication_destroys_live_data : ∃ c,
    Reach (lifecycled (.forPlatform false)) (anyStep _) (Config.idle oneJail) c ∧ oneJail.Started ∧
    ∃ moments r w', Exec (lifecycled (.forPlatform false)) (.conn 3) (restoreApplication "app").run
      c.world moments r w' ∧ ¬ SparesLiveData "app" moments := by
  obtain ⟨c, reach, checked⟩ := replay_check (fun _ _ => true) (fun _ _ _ => trivial)
    (Config.idle oneJail) (hibernateThawFreeze (.forPlatform false))
    (fun c => (play (lifecycled (.forPlatform false)) (.conn 3) (restoreApplication "app").run c.world
      [⟨.note (.invoked (.restore "app")), ()⟩, ⟨.statesGet "app", some .frozen⟩,
        ⟨.jidByName "app", .error "jail_get(app): errno=4"⟩,
        ⟨.output "zfs" (listArgs "app"), .ok oneSnapshot⟩,
        ⟨.output "zfs" ["rollback", "bsdos/apps/app@hibernate-0"], .ok ⟨true, "exit status: 0", "", ""⟩⟩,
        ⟨.statesInsert "app" .running, ()⟩, ⟨.note (.returned (.restore "app") true), ()⟩]).any
      fun out => !decide (SparesLiveData "app" out.1)) (by decide +kernel)
  obtain ⟨out, played, destroys⟩ := (Option.any_eq_true _ _).mp checked
  exact ⟨c, reach, oneJail_started, out.1, out.2.1, out.2.2, play_exec played, by simpa using destroys⟩

end Bsdos.Lifecycle
