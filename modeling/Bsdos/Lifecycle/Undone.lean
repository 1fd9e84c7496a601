import Bsdos.Lifecycle.Restore

namespace Bsdos.Lifecycle
open Effects

/-- The snapshot of a hibernate is taken. -/
def snapshots : Moment Daemon World → Bool
  | ⟨_, .output program args, r⟩ => program = "zfs" && args.head? = some "snapshot" && (outcome program r).isOk
  | _ => false

/-- A stop reaches a process of the jail that was running. -/
def stopsRunning (jail : String) : Moment Daemon World → Bool
  | ⟨w, .kill pid .stop, .ok ()⟩ => (w.liveProcs jail).any fun p => p.pid = pid && !p.stopped
  | _ => false

/-- How many processes of the jail are running. -/
def World.runningIn (w : World) (jail : String) : Nat := ((w.liveProcs jail).filter fun p => !p.stopped).length

/-- What a signal phase that stops may call. -/
def Op.Stops : Op → Prop
  | .jidByName _ | .jailPids _ | .kill _ .stop => True
  | _ => False

def Proc.stop (pid : Int) (p : Proc) : Proc := if p.pid = pid then { p with stopped := true } else p

theorem liveProcs_stop (w : World) (jail : String) (pid : Int) :
    (w.after (.kill pid .stop) (.ok ())).liveProcs jail = (w.liveProcs jail).map (Proc.stop pid) := by
  have kept (p : Proc) : (Proc.stop pid p).jid = p.jid := by
    unfold Proc.stop
    split <;> rfl
  have same : (fun p : Proc => w.jails.contains ⟨p.jid, jail⟩) ∘ Proc.stop pid =
      fun p : Proc => w.jails.contains ⟨p.jid, jail⟩ := by
    funext p
    rw [Function.comp_apply, kept]
  show (w.procs.map (Proc.stop pid)).filter (fun p => w.jails.contains ⟨p.jid, jail⟩) = _
  rw [List.filter_map, same]
  rfl

/-- A stop of processes that are stopped changes nothing, and any other leaves fewer running. -/
theorem stop_cases (procs : List Proc) (pid : Int) :
    (procs.any (fun p => p.pid = pid && !p.stopped) = false ∧ procs.map (Proc.stop pid) = procs) ∨
    (procs.any (fun p => p.pid = pid && !p.stopped) = true ∧
      ((procs.map (Proc.stop pid)).filter fun p => !p.stopped).length < (procs.filter fun p => !p.stopped).length) := by
  induction procs with
  | nil => exact .inl ⟨rfl, rfl⟩
  | cons p procs ih =>
    have fewer : ((procs.map (Proc.stop pid)).filter fun p => !p.stopped).length ≤ (procs.filter fun p => !p.stopped).length := by
      rcases ih with ⟨_, same⟩ | ⟨_, less⟩
      · rw [same]
      · exact Nat.le_of_lt less
    by_cases hit : p.pid = pid
    · have stopped : Proc.stop pid p = { p with stopped := true } := if_pos hit
      cases running : p.stopped with
      | true =>
        have same : Proc.stop pid p = p := by
          rw [stopped, ← running]
        rcases ih with ⟨none, whole⟩ | ⟨some, less⟩
        · exact .inl ⟨by simp [running, none], by rw [List.map_cons, same, whole]⟩
        · exact .inr ⟨by simp [running, some], by simpa [same, running] using less⟩
      | false =>
        refine .inr ⟨by simp [hit, running], ?_⟩
        rw [List.map_cons, stopped, List.filter_cons_of_neg (by simp), List.filter_cons_of_pos (by simp [running]),
          List.length_cons]
        omega
    · have same : Proc.stop pid p = p := if_neg hit
      rcases ih with ⟨none, whole⟩ | ⟨some, less⟩
      · exact .inl ⟨by simp [hit, none], by rw [List.map_cons, same, whole]⟩
      · refine .inr ⟨by simp [some], ?_⟩
        rw [List.map_cons, same, List.filter_cons, List.filter_cons]
        split
        · rw [List.length_cons, List.length_cons]
          omega
        · exact less

variable {policy : LifecyclePolicy} {a : Actor} {w w' : World} {moments : List (Moment Daemon World)} {jail : String}

/-- A signal phase leaves the tracked states, and the processes if none of them was running that it stopped. -/
theorem exec_stops {α : Type} {p : Task α} {value : α} (exec : Exec (lifecycled policy) a p w moments value w')
    (only : p.Only Op.Stops) (jail : String) : w'.states = w.states ∧ w'.runningIn jail ≤ w.runningIn jail ∧
      ((∀ m ∈ moments, stopsRunning jail m = false) → w'.liveProcs jail = w.liveProcs jail) ∧
      ((∃ m ∈ moments, stopsRunning jail m = true) → w'.runningIn jail < w.runningIn jail) := by
  induction p generalizing w moments with
  | ret =>
    obtain ⟨rfl, _, rfl⟩ := exec
    exact ⟨rfl, Nat.le_refl _, fun _ => rfl, by simp⟩
  | call op next ih =>
    obtain ⟨r, rest, _, rfl, exec⟩ := exec
    obtain ⟨states, fewer, same, less⟩ := ih r exec (only.2 r)
    have still (unchanged : w.after op r = w) (quiet : stopsRunning jail ⟨w, op, r⟩ = false) :
        w'.states = w.states ∧ w'.runningIn jail ≤ w.runningIn jail ∧
          ((∀ m ∈ ⟨w, op, r⟩ :: rest, stopsRunning jail m = false) → w'.liveProcs jail = w.liveProcs jail) ∧
          ((∃ m ∈ ⟨w, op, r⟩ :: rest, stopsRunning jail m = true) → w'.runningIn jail < w.runningIn jail) := by
      have unchanged' : (lifecycled policy).effect a w op r = w := unchanged
      rw [unchanged'] at states fewer same less
      refine ⟨states, fewer, fun none => same fun m member => none m (List.mem_cons_of_mem _ member), ?_⟩
      rintro ⟨m, member, stops⟩
      rcases List.mem_cons.mp member with rfl | later
      · rw [quiet] at stops
        cases stops
      · exact less ⟨m, later, stops⟩
    have allowed : op.Stops := only.1
    cases op with
    | jidByName name => exact still rfl rfl
    | jailPids jid => exact still rfl rfl
    | kill pid sig =>
      cases sig with
      | stop =>
        rcases r with e | ⟨⟩
        · exact still rfl rfl
        · have effect : (lifecycled policy).effect a w (.kill pid .stop) (.ok ()) = w.after (.kill pid .stop) (.ok ()) := rfl
          rw [effect] at states fewer same less
          have after := liveProcs_stop w jail pid
          have running : (w.after (.kill pid .stop) (.ok ())).runningIn jail =
              (((w.liveProcs jail).map (Proc.stop pid)).filter fun p => !p.stopped).length := by
            rw [World.runningIn, after]
          rw [running] at fewer less
          rw [after] at same
          have this : stopsRunning jail ⟨w, .kill pid .stop, .ok ()⟩ =
            (w.liveProcs jail).any fun p => p.pid = pid && !p.stopped := rfl
          rcases stop_cases (w.liveProcs jail) pid with ⟨none, whole⟩ | ⟨some, drop⟩
          · rw [whole] at fewer same less
            refine ⟨states, fewer, fun none => same fun m member => none m (List.mem_cons_of_mem _ member), ?_⟩
            rintro ⟨m, member, stops⟩
            rcases List.mem_cons.mp member with rfl | later
            · rw [this, none] at stops
              cases stops
            · exact less ⟨m, later, stops⟩
          · refine ⟨states, Nat.le_of_lt (Nat.lt_of_le_of_lt fewer drop), fun none => ?_, fun _ => Nat.lt_of_le_of_lt fewer drop⟩
            have wrong := none _ List.mem_cons_self
            rw [this, some] at wrong
            cases wrong
      | _ => exact allowed.elim
    | _ => exact allowed.elim

/-- If the operation fails, the tracked states and the processes of the jail are as they were. -/
def Undone (jail : String) (r : Except String String) (w w' : World) : Prop :=
  r.isOk = false → w'.states = w.states ∧ w'.liveProcs jail = w.liveProcs jail

/-- The body of a hibernate: the signals, and then the snapshot, whose failure is its own. -/
theorem exec_hibernateBody {r : Except String String}
    (exec : Exec (lifecycled policy) a (hibernateBody jail).run w moments r w') :
    ∃ signals u rest reached, moments = signals ++ rest ∧
      Exec (lifecycled policy) a (signalJailPids jail .stop).run w signals reached u ∧
      (∀ m ∈ rest, ¬ stopsRunning jail m) ∧ (r.isOk = true ↔ ∃ m ∈ rest, snapshots m) ∧
      (r.isOk = false → w' = u) := by
  obtain ⟨signals, reached, u, rest, front, back, rfl⟩ := exec_attempt.mp exec
  obtain ⟨now, rest, _, rfl, later⟩ := back
  obtain ⟨taking, out, v, last, taken, ending, rfl⟩ := exec_attempt.mp later
  obtain ⟨result, rfl, rfl, rfl⟩ := exec_run.mp taken
  refine ⟨signals, v, _, reached, rfl, front, ?_⟩
  have shot (x : World) : snapshots ⟨x, .output "zfs" ["snapshot", hibernateSnapshot jail now], result⟩ =
      (outcome "zfs" result).isOk := by
    simp [snapshots]
  cases value : outcome "zfs" result with
  | error e =>
    rw [value] at ending shot
    obtain ⟨rfl, rfl, rfl⟩ := ending
    exact ⟨by simp [stopsRunning], by simp [Except.isOk, Except.toBool, snapshots, value], fun _ => rfl⟩
  | ok out =>
    rw [value] at ending shot
    obtain ⟨⟨⟩, _, _, rfl, rfl, rfl, rfl⟩ := ending
    exact ⟨by simp [stopsRunning], by simp [Except.isOk, Except.toBool, snapshots, value], fun wrong => nomatch wrong⟩

/-- A hibernate that fails is undone if and only if it does not fail, its snapshot being taken,
or no process that was running has been stopped by then. -/
theorem hibernate_undone_iff {r : Except String String}
    (exec : Exec (lifecycled policy) a (hibernateApplication jail).run w moments r w') :
    Undone jail r w w' ↔ (∃ m ∈ moments, snapshots m) ∨ ∀ m ∈ moments, ¬ stopsRunning jail m := by
  obtain ⟨inner, rfl, ⟨_, body⟩ | ⟨e, _, rfl, rfl, rfl⟩⟩ := exec_operation.mp exec
  · obtain ⟨signals, u, rest, reached, rfl, front, quiet, taken, failed⟩ := exec_hibernateBody body
    have only : (signalJailPids jail .stop).run.Only Op.Stops :=
      signalJailPids_only trivial (fun _ => trivial) fun _ => trivial
    obtain ⟨states, _, same, less⟩ := exec_stops front only jail
    have unshot : ∀ m ∈ signals, ¬ snapshots m := by
      intro m member shot
      have stops := front.only only m member
      obtain ⟨before, op, result⟩ := m
      cases op with
      | output program args => exact stops.elim
      | _ => cases shot
    rw [exists_mem_inner fun _ _ => rfl, forall_mem_inner fun _ _ => rfl, Undone]
    have shots : (∃ m ∈ signals ++ rest, snapshots m) ↔ r.isOk = true := by
      rw [taken]
      exact ⟨fun ⟨m, member, shot⟩ => ⟨m, (List.mem_append.mp member).resolve_left fun early => unshot m early shot, shot⟩,
        fun ⟨m, member, shot⟩ => ⟨m, List.mem_append_right _ member, shot⟩⟩
    rw [shots]
    have calm : (∀ m ∈ signals ++ rest, ¬ stopsRunning jail m) ↔ ∀ m ∈ signals, stopsRunning jail m = false := by
      constructor
      · intro none m member
        exact Bool.eq_false_iff.mpr (none m (List.mem_append_left _ member))
      · intro none m member
        rcases List.mem_append.mp member with early | late
        · exact Bool.eq_false_iff.mp (none m early)
        · exact quiet m late
    rw [calm]
    cases ended : r.isOk with
    | true => simp
    | false =>
      obtain rfl := failed ended
      refine ⟨fun undone => .inr fun m member => ?_, fun none _ => ?_⟩
      · refine Bool.eq_false_iff.mpr fun stops => ?_
        have drop := less ⟨m, member, stops⟩
        rw [World.runningIn, World.runningIn, (undone rfl).2] at drop
        exact Nat.lt_irrefl _ drop
      · exact ⟨states, same (none.resolve_left nofun)⟩
  · simp [Undone, stopsRunning]

/-- What the snapshot of a hibernate answers. -/
def hibernateAnswers (snapshot : Output) : List ((op : Op) × op.Ret) :=
  [⟨.note (.invoked (.hibernate "app")), ()⟩, ⟨.jidByName "app", .ok 1⟩, ⟨.jailPids 1, .ok [10]⟩, ⟨.kill 10 .stop, .ok ()⟩,
    ⟨.unixTime, (0 : Nat)⟩, ⟨.output "zfs" ["snapshot", "bsdos/apps/app@hibernate-0"], .ok snapshot⟩] ++
  if snapshot.success then
    [⟨.statesInsert "app" .hibernated, ()⟩, ⟨.note (.returned (.hibernate "app") true), ()⟩]
  else [⟨.note (.returned (.hibernate "app") false), ()⟩]

/-- The jail after its process has been stopped. -/
def stoppedJail : World := { oneJail with procs := [⟨10, 1, true⟩] }

/-- A hibernate that goes through, and one that fails after a signal which stops nothing. -/
theorem hibernate_undone_iff_still :
    (∃ moments r w', Exec (lifecycled (.forPlatform false)) (.conn 0) (hibernateApplication "app").run oneJail moments r w' ∧
      r.isOk = true ∧ (Undone "app" r oneJail w' ↔
        (∃ m ∈ moments, snapshots m) ∨ ∀ m ∈ moments, ¬ stopsRunning "app" m)) ∧
    ∃ moments r w',
      Exec (lifecycled (.forPlatform false)) (.conn 0) (hibernateApplication "app").run stoppedJail moments r w' ∧
      r.isOk = false ∧ (∀ m ∈ moments, ¬ snapshots m) ∧ Undone "app" r stoppedJail w' := by
  obtain ⟨moments, r, w', exec, checked⟩ := play_check
    (S := lifecycled (.forPlatform false)) (a := .conn 0) (p := (hibernateApplication "app").run) (w := oneJail)
    (hibernateAnswers ⟨true, "exit status: 0", "", ""⟩) (fun out => out.2.1.isOk) (by decide +kernel)
  refine ⟨⟨moments, r, w', exec, checked, hibernate_undone_iff exec⟩, ?_⟩
  obtain ⟨moments', r', w'', exec', checked'⟩ := play_check
    (S := lifecycled (.forPlatform false)) (a := .conn 0) (p := (hibernateApplication "app").run) (w := stoppedJail)
    (hibernateAnswers ⟨false, "exit status: 1", "", "dataset is busy"⟩)
    (fun out => decide (out.2.1.isOk = false ∧ (∀ m ∈ out.1, ¬ snapshots m) ∧ ∀ m ∈ out.1, ¬ stopsRunning "app" m))
    (by decide +kernel)
  obtain ⟨failed, unshot, calm⟩ := of_decide_eq_true checked'
  exact ⟨moments', r', w'', exec', failed, unshot, (hibernate_undone_iff exec').mpr (.inr calm)⟩

/-- With the snapshot failed the process of the jail stays stopped. -/
theorem hibernate_leaves_stopped :
    ¬ ∀ (policy : LifecyclePolicy) (a : Actor) (w w' : World) (moments : List (Moment Daemon World)) (jail : String)
      (r : Except String String), Exec (lifecycled policy) a (hibernateApplication jail).run w moments r w' →
      Undone jail r w w' := by
  intro all
  obtain ⟨moments, r, w', exec, checked⟩ := play_check
    (S := lifecycled (.forPlatform false)) (a := .conn 0) (p := (hibernateApplication "app").run) (w := oneJail)
    (hibernateAnswers ⟨false, "exit status: 1", "", "dataset is busy"⟩)
    (fun out => !out.2.1.isOk && (out.2.2.liveProcs "app" ≠ oneJail.liveProcs "app")) (by decide +kernel)
  obtain ⟨failed, stopped⟩ := Bool.and_eq_true_iff.mp checked
  exact of_decide_eq_true stopped (all _ _ _ _ _ _ _ exec (by simpa using failed)).2

end Bsdos.Lifecycle
