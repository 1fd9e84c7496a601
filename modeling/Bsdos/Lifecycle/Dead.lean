import Bsdos.Lifecycle.Exact
import Bsdos.Lifecycle.Restore

namespace Bsdos.Lifecycle
open Effects

/-- A `SIGKILL` is sent to the process. -/
def killSent (pid : Int) : Moment Daemon World → Bool
  | ⟨_, .kill pid' .kill, .ok ()⟩ => pid' = pid
  | _ => false

/-- The processes of the jail cannot be listed. -/
def unlisted : Moment Daemon World → Bool
  | ⟨_, .jidByName _, .error _⟩ | ⟨_, .jailPids _, .error _⟩ => true
  | _ => false

/-- A call of the signal phase fails. -/
def signalFails : Moment Daemon World → Bool
  | ⟨_, .jidByName _, .error _⟩ | ⟨_, .jailPids _, .error _⟩ | ⟨_, .kill _ _, .error _⟩ => true
  | _ => false

def destroysTmp (jail : String) : Moment Daemon World → Bool
  | ⟨_, .output program args, _⟩ => program = "zfs" && args = ["destroy", "-f", tmpDataset jail]
  | _ => false

/-- Where a kill goes through and the jail is tracked as dead, a `SIGKILL` has been sent to every
process it had; where its processes cannot be listed the kill fails, and leaves the tracked
state and the dataset of `/tmp` alone. -/
structure DeadMeansDead (jail : String) (r : Except String String) (w w' : World) (moments : List (Moment Daemon World)) :
    Prop where
  sent : r.isOk = true → w'.states.lookup jail = some .dead → ∀ p ∈ w.liveProcs jail, ∃ m ∈ moments, killSent p.pid m
  kept : w.liveProcs jail ≠ [] → (∃ m ∈ moments, unlisted m) →
    r.isOk = false ∧ w'.states = w.states ∧ ∀ m ∈ moments, ¬ destroysTmp jail m

variable {policy : LifecyclePolicy} {a : Actor} {w w' : World} {moments : List (Moment Daemon World)} {jail : String}

/-- The signal phase sends one signal to each PID, in order. -/
theorem exec_signalPids_ops {sig : Sig} {pids : List Int} {before n : Nat}
    (exec : Exec (lifecycled policy) a (signalPids sig pids before) w moments n w') :
    moments.map Moment.op = pids.map fun pid => .kill pid sig := by
  induction pids generalizing before w moments with
  | nil =>
    obtain ⟨rfl, _, _⟩ := exec
    rfl
  | cons pid pids ih =>
    obtain ⟨r, rest, _, rfl, exec⟩ := exec
    cases r with
    | ok u => rw [List.map_cons, List.map_cons, ih exec]
    | error e => rw [List.map_cons, List.map_cons, ih exec]

/-- The signal phase: the jail is not found, or its processes are not listed, or they are signalled. -/
theorem exec_signalJailPids_cases {sig : Sig} {r : Except String Nat}
    (exec : Exec (lifecycled policy) a (signalJailPids jail sig).run w moments r w') :
    (∃ e, moments = [⟨w, .jidByName jail, .error e⟩]) ∨
    (∃ jid e, moments = [⟨w, .jidByName jail, .ok jid⟩, ⟨w, .jailPids jid, .error e⟩]) ∨
    ∃ jid kills, ⟨jid, jail⟩ ∈ w.jails ∧
      moments = ⟨w, .jidByName jail, .ok jid⟩ :: ⟨w, .jailPids jid, .ok (w.pidsOf jid)⟩ :: kills ∧
      kills.map Moment.op = (w.pidsOf jid).map fun pid => .kill pid sig := by
  rcases exec_tryBind.mp exec with ⟨_, jid, _, _, ⟨_, _, found, rfl, rfl, rfl, same⟩, listed, rfl⟩ |
    ⟨e, ⟨_, _, _, rfl, rfl, rfl, rfl⟩, rfl⟩
  · obtain rfl : _ = w := same
    rcases exec_tryBind.mp listed with ⟨_, pids, _, _, ⟨_, _, listing, rfl, rfl, rfl, same⟩, signalled, rfl⟩ |
      ⟨e, ⟨_, _, _, rfl, rfl, rfl, rfl⟩, rfl⟩
    · rw [run_liftProg] at signalled
      obtain ⟨kills, n, _, _, loop, ⟨rfl, rfl, rfl⟩, rfl⟩ := exec_bind.mp signalled
      obtain rfl : pids = World.pidsOf _ jid := of_decide_eq_true listing
      refine .inr (.inr ⟨jid, kills, List.contains_iff_mem.mp found, ?_, exec_signalPids_ops loop⟩)
      rw [List.append_nil]
      rfl
    · exact .inr (.inl ⟨jid, e, rfl⟩)
  · exact .inl ⟨e, rfl⟩

/-- The calls after the signal phase of a kill. -/
def Op.Cleans : Op → Prop
  | .pathExists _ | .removeFile _ | .output _ _ | .statesInsert _ _ => True
  | _ => False

theorem removeWaylandSock_cleans {v : Except String Unit}
    (exec : Exec (lifecycled policy) a (removeWaylandSock jail).run w moments v w') :
    v = .ok () ∧ ∀ m ∈ moments, m.op.Cleans := by
  obtain ⟨found, rest, _, rfl, exec⟩ := exec
  cases found with
  | false =>
    obtain ⟨rfl, rfl, _⟩ := exec
    exact ⟨rfl, by simp [Op.Cleans]⟩
  | true =>
    obtain ⟨removing, r, u, last, front, ⟨rfl, rfl, _⟩, rfl⟩ := exec_attempt.mp exec
    obtain ⟨_, _, _, rfl, rfl, _, _⟩ := front
    exact ⟨rfl, by simp [Op.Cleans]⟩

theorem recycleTmp_cleans {v : Except String Unit}
    (exec : Exec (lifecycled policy) a (recycleTmp jail).run w moments v w') : v = .ok () ∧ ∀ m ∈ moments, m.op.Cleans := by
  obtain ⟨listing, listed, u, rest, front, back, rfl⟩ := exec_attempt.mp exec
  obtain ⟨result, rfl, rfl, rfl⟩ := exec_run.mp front
  cases value : outcome "zfs" result with
  | error e =>
    rw [value] at back
    obtain ⟨rfl, rfl, _⟩ := back
    exact ⟨rfl, by simp [Op.Cleans]⟩
  | ok out =>
    rw [value] at back
    obtain ⟨destroying, _, _, rest, destroyed, creating, rfl⟩ := exec_attempt.mp back
    obtain ⟨_, rfl, _, rfl⟩ := exec_run.mp destroyed
    obtain ⟨creates, _, _, last, created, ⟨rfl, rfl, _⟩, rfl⟩ := exec_attempt.mp creating
    obtain ⟨_, rfl, _, rfl⟩ := exec_run.mp created
    exact ⟨rfl, by simp [Op.Cleans]⟩

/-- The body of a kill: the signals, whatever they come to, then the cleanup, and the jail is
tracked as dead. -/
theorem exec_killBody {r : Except String String}
    (exec : Exec (lifecycled policy) a (killBody jail).run w moments r w') :
    ∃ signals u rest reached, moments = signals ++ rest ∧
      Exec (lifecycled policy) a (signalJailPids jail .kill).run w signals reached u ∧ (∀ m ∈ rest, m.op.Cleans) ∧
      r.isOk = true ∧ w'.states.lookup jail = some .dead := by
  obtain ⟨signals, reached, u, rest, front, back, rfl⟩ := exec_attempt.mp exec
  refine ⟨signals, u, rest, reached, rfl, front, ?_⟩
  rcases exec_tryBind.mp back with ⟨removing, _, _, rest, removed, later, rfl⟩ | ⟨e, removed, _⟩
  · rcases exec_tryBind.mp later with ⟨recycling, _, _, last, recycled, ends, rfl⟩ | ⟨e, recycled, _⟩
    · obtain ⟨⟨⟩, _, _, rfl, rfl, rfl, rfl⟩ := ends
      have removes := (removeWaylandSock_cleans removed).2
      have recycles := (recycleTmp_cleans recycled).2
      refine ⟨fun m member => ?_, rfl, Finmap.lookup_insert _⟩
      rcases List.mem_append.mp member with early | late
      · exact removes m early
      · rcases List.mem_append.mp late with middle | last
        · exact recycles m middle
        · obtain rfl := List.mem_singleton.mp last
          trivial
    · cases (recycleTmp_cleans recycled).1
  · cases (removeWaylandSock_cleans removed).1

/-- What is not said of notes and of the cleanup is said of the signal phase. -/
theorem exists_mem_signals {P : Moment Daemon World → Bool} {signals rest : List (Moment Daemon World)} {n n' : Note}
    (silent : ∀ u n, P ⟨u, .note n, ()⟩ = false) (clean : ∀ m, m.op.Cleans → P m = false)
    (cleans : ∀ m ∈ rest, m.op.Cleans) :
    (∃ m ∈ ⟨w, .note n, ()⟩ :: (signals ++ rest) ++ [⟨w', .note n', ()⟩], P m) ↔ ∃ m ∈ signals, P m := by
  rw [exists_mem_inner silent]
  constructor
  · rintro ⟨m, member, holds⟩
    rcases List.mem_append.mp member with early | late
    · exact ⟨m, early, holds⟩
    · rw [clean m (cleans m late)] at holds
      cases holds
  · rintro ⟨m, member, holds⟩
    exact ⟨m, List.mem_append_left _ member, holds⟩

section kills
variable {jid : Int} {kills : List (Moment Daemon World)}

/-- A kill of a PID gets through, or it fails. -/
theorem killSent_or_fails {m : Moment Daemon World} {pid : Int} (kill : m.op = .kill pid .kill) :
    signalFails m = !killSent pid m := by
  obtain ⟨before, op, result⟩ := m
  subst kill
  rcases result with e | ⟨⟩
  · rfl
  · simp [signalFails, killSent]

theorem killSent_op {m : Moment Daemon World} {pid : Int} (sent : killSent pid m = true) : m.op = .kill pid .kill := by
  obtain ⟨before, op, result⟩ := m
  cases op with
  | kill pid' sig =>
    cases sig with
    | kill =>
      rcases result with e | ⟨⟩
      · cases sent
      · rw [of_decide_eq_true sent]
    | _ => cases sent
  | _ => cases sent

/-- Every process of the jail has been killed exactly where none of the signals to them failed. -/
theorem killed_iff (kernel : w.Kernel) (up : ⟨jid, jail⟩ ∈ w.jails)
    (ops : kills.map Moment.op = (w.pidsOf jid).map fun pid => .kill pid .kill) :
    (∀ p ∈ w.liveProcs jail, ∃ m ∈ kills, killSent p.pid m) ↔ ∀ m ∈ kills, signalFails m = false := by
  have once : (w.pidsOf jid).Nodup := (List.filter_sublist.map Proc.pid).nodup kernel.pids
  have distinct : (kills.map Moment.op).Nodup := by
    rw [ops]
    exact once.map fun pid pid' same => (Op.kill.inj same).1
  constructor
  · intro sent m member
    have op : m.op ∈ (w.pidsOf jid).map fun pid => Op.kill pid .kill := ops ▸ List.mem_map_of_mem member
    obtain ⟨pid, listed, kill⟩ := List.mem_map.mp op
    obtain ⟨p, inside, rfl⟩ := List.mem_map.mp listed
    obtain ⟨there, own⟩ := List.mem_filter.mp inside
    obtain ⟨m', member', sent'⟩ := sent p ((mem_liveProcs kernel up).mpr ⟨there, of_decide_eq_true own⟩)
    have same : m = m' := List.inj_on_of_nodup_map distinct member member' (kill.symm.trans (killSent_op sent').symm)
    rw [killSent_or_fails kill.symm, same, sent']
    rfl
  · intro through p live
    obtain ⟨there, own⟩ := (mem_liveProcs kernel up).mp live
    have listed : p.pid ∈ w.pidsOf jid := List.mem_map.mpr ⟨p, List.mem_filter.mpr ⟨there, decide_eq_true own⟩, rfl⟩
    have op : Op.kill p.pid .kill ∈ kills.map Moment.op := by
      rw [ops]
      exact List.mem_map.mpr ⟨p.pid, listed, rfl⟩
    obtain ⟨m, member, kill⟩ := List.mem_map.mp op
    have ends := killSent_or_fails kill
    rw [through m member] at ends
    exact ⟨m, member, by simpa using ends.symm⟩

end kills

/-- Dead means dead for a kill if and only if the jail's name is refused, or it has no processes,
or no call of the signal phase fails. -/
theorem kill_dead_iff {r : Except String String} (kernel : w.Kernel)
    (exec : Exec (lifecycled policy) a (killApplication jail).run w moments r w') :
    DeadMeansDead jail r w w' moments ↔
      ¬ ValidId jail ∨ w.liveProcs jail = [] ∨ ∀ m ∈ moments, ¬ signalFails m := by
  obtain ⟨inner, rfl, ⟨valid, body⟩ | ⟨e, refused, rfl, rfl, rfl⟩⟩ := exec_operation.mp exec
  · obtain ⟨signals, u, rest, reached, rfl, front, cleans, ok, dead⟩ := exec_killBody body
    have clean (m : Moment Daemon World) (cleans : m.op.Cleans) :
        (∀ pid, killSent pid m = false) ∧ unlisted m = false ∧ signalFails m = false := by
      obtain ⟨before, op, result⟩ := m
      cases op with
      | pathExists _ | removeFile _ | output _ _ | statesInsert _ _ => exact ⟨fun _ => rfl, rfl, rfl⟩
      | _ => exact cleans.elim
    have sent (pid : Int) := @exists_mem_signals w w' (killSent pid) signals rest (.invoked (.kill jail))
      (.returned (.kill jail) r.isOk) (fun _ _ => rfl) (fun m here => (clean m here).1 pid) cleans
    have lost := @exists_mem_signals w w' unlisted signals rest (.invoked (.kill jail))
      (.returned (.kill jail) r.isOk) (fun _ _ => rfl) (fun m here => (clean m here).2.1) cleans
    have fails := @exists_mem_signals w w' signalFails signals rest (.invoked (.kill jail))
      (.returned (.kill jail) r.isOk) (fun _ _ => rfl) (fun m here => (clean m here).2.2) cleans
    have whole : DeadMeansDead jail r w w' (⟨w, .note (.invoked (.kill jail)), ()⟩ :: (signals ++ rest) ++
        [⟨w', .note (.returned (.kill jail) r.isOk), ()⟩]) ↔
        (∀ p ∈ w.liveProcs jail, ∃ m ∈ signals, killSent p.pid m) ∧
          (w.liveProcs jail ≠ [] → ¬ ∃ m ∈ signals, unlisted m) := by
      constructor
      · intro dmd
        refine ⟨fun p live => (sent p.pid).mp (dmd.sent ok dead p live), fun filled wrong => ?_⟩
        have failed := (dmd.kept filled (lost.mpr wrong)).1
        rw [ok] at failed
        cases failed
      · rintro ⟨all, listed⟩
        exact ⟨fun _ _ p live => (sent p.pid).mpr (all p live), fun filled wrong => absurd (lost.mp wrong) (listed filled)⟩
    have through : (∀ m ∈ ⟨w, .note (.invoked (.kill jail)), ()⟩ :: (signals ++ rest) ++
        [⟨w', .note (.returned (.kill jail) r.isOk), ()⟩], ¬ signalFails m) ↔ ∀ m ∈ signals, ¬ signalFails m := by
      simpa only [not_exists, not_and] using not_congr fails
    rw [whole, through]
    have nobody (signals : List (Moment Daemon World)) (none : ∀ pid, ∀ m ∈ signals, killSent pid m = false)
        (some : ∃ m ∈ signals, signalFails m) :
        ((∀ p ∈ w.liveProcs jail, ∃ m ∈ signals, killSent p.pid m) ∧
          (w.liveProcs jail ≠ [] → ¬ ∃ m ∈ signals, unlisted m)) ↔
        ¬ ValidId jail ∨ w.liveProcs jail = [] ∨ ∀ m ∈ signals, ¬ signalFails m := by
      constructor
      · rintro ⟨all, _⟩
        refine .inr (.inl (List.eq_nil_iff_forall_not_mem.mpr fun p live => ?_))
        obtain ⟨m, member, sent⟩ := all p live
        rw [none p.pid m member] at sent
        cases sent
      · rintro (refused | empty | through)
        · exact absurd valid refused
        · rw [empty]
          exact ⟨by simp, fun wrong => absurd rfl wrong⟩
        · obtain ⟨m, member, fails⟩ := some
          exact absurd fails (through m member)
    rcases exec_signalJailPids_cases front with ⟨e, rfl⟩ | ⟨jid, e, rfl⟩ | ⟨jid, kills, up, rfl, ops⟩
    · exact nobody _ (by simp [killSent]) (by simp [signalFails])
    · exact nobody _ (by simp [killSent]) (by simp [signalFails])
    · have killed := killed_iff kernel up ops
      have calls : ∀ m ∈ kills, unlisted m = false := by
        intro m member
        have op : m.op ∈ (w.pidsOf jid).map fun pid => Op.kill pid .kill := ops ▸ List.mem_map_of_mem member
        obtain ⟨pid, _, kill⟩ := List.mem_map.mp op
        obtain ⟨before, op, result⟩ := m
        subst kill
        rfl
      have sentTo (pid : Int) : (∃ m ∈ ⟨w, .jidByName jail, .ok jid⟩ :: ⟨w, .jailPids jid, .ok (w.pidsOf jid)⟩ :: kills,
          killSent pid m) ↔ ∃ m ∈ kills, killSent pid m := by simp [killSent]
      have listed : ¬ ∃ m ∈ ⟨w, .jidByName jail, .ok jid⟩ :: ⟨w, .jailPids jid, .ok (w.pidsOf jid)⟩ :: kills,
          unlisted m := by
        rintro ⟨m, member, wrong⟩
        rcases List.mem_cons.mp member with rfl | later
        · cases wrong
        · rcases List.mem_cons.mp later with rfl | last
          · cases wrong
          · rw [calls m last] at wrong
            cases wrong
      have succeeds : (∀ m ∈ ⟨w, .jidByName jail, .ok jid⟩ :: ⟨w, .jailPids jid, .ok (w.pidsOf jid)⟩ :: kills,
          ¬ signalFails m) ↔ ∀ m ∈ kills, signalFails m = false := by simp [signalFails]
      constructor
      · rintro ⟨all, _⟩
        exact .inr (.inr (succeeds.mpr (killed.mp fun p live => (sentTo p.pid).mp (all p live))))
      · rintro (refused | empty | through)
        · exact absurd valid refused
        · rw [empty]
          exact ⟨by simp, fun wrong => absurd rfl wrong⟩
        · exact ⟨fun p live => (sentTo p.pid).mpr (killed.mpr (succeeds.mp through) p live), fun _ => listed⟩
  · have invalid : ¬ ValidId jail := fun valid => nomatch valid.symm.trans refused
    refine ⟨fun _ => .inl invalid, fun _ => ⟨nofun, fun _ _ => ⟨rfl, rfl, ?_⟩⟩⟩
    simp [destroysTmp]

/-- What a kill of the jail is answered, up to its cleanup. -/
def killCleanup : List ((op : Op) × op.Ret) :=
  [⟨.pathExists "/jails/apps/app/tmp/wayland-0", false⟩,
    ⟨.output "zfs" ["list", "bsdos/apps/app/tmp"], .ok ⟨false, "exit status: 1", "", ""⟩⟩,
    ⟨.statesInsert "app" .dead, ()⟩, ⟨.note (.returned (.kill "app") true), ()⟩]

/-- A kill whose signals get through. -/
theorem kill_dead_iff_through : ∃ moments r w',
    Exec (lifecycled (.forPlatform false)) (.conn 0) (killApplication "app").run oneJail moments r w' ∧
    (DeadMeansDead "app" r oneJail w' moments ↔
      ¬ ValidId "app" ∨ oneJail.liveProcs "app" = [] ∨ ∀ m ∈ moments, ¬ signalFails m) := by
  obtain ⟨moments, r, w', exec, _⟩ := play_check
    (S := lifecycled (.forPlatform false)) (a := .conn 0) (p := (killApplication "app").run) (w := oneJail)
    ([⟨.note (.invoked (.kill "app")), ()⟩, ⟨.jidByName "app", .ok 1⟩, ⟨.jailPids 1, .ok [10]⟩, ⟨.kill 10 .kill, .ok ()⟩] ++
      killCleanup) (fun _ => true) (by decide +kernel)
  exact ⟨moments, r, w', exec, kill_dead_iff oneJail_kernel exec⟩

/-- With the jail not looked up its process lives on, and the jail is tracked as dead. -/
theorem kill_leaves_alive :
    ¬ ∀ (policy : LifecyclePolicy) (a : Actor) (w w' : World) (moments : List (Moment Daemon World)) (jail : String)
      (r : Except String String), w.Kernel → Exec (lifecycled policy) a (killApplication jail).run w moments r w' →
      DeadMeansDead jail r w w' moments := by
  intro all
  obtain ⟨moments, r, w', exec, checked⟩ := play_check
    (S := lifecycled (.forPlatform false)) (a := .conn 0) (p := (killApplication "app").run) (w := oneJail)
    ([⟨.note (.invoked (.kill "app")), ()⟩, ⟨.jidByName "app", .error "jail_get(app): errno=4"⟩] ++ killCleanup)
    (fun out => out.2.1.isOk && out.1.any unlisted) (by decide +kernel)
  obtain ⟨ok, lost⟩ := Bool.and_eq_true_iff.mp checked
  have dmd := all _ _ _ _ _ _ _ oneJail_kernel exec
  have failed := (dmd.kept (by decide) (List.any_eq_true.mp lost)).1
  rw [ok] at failed
  cases failed

end Bsdos.Lifecycle
