import Bsdos.Effects.Around
import Bsdos.Streams.Calls

namespace Bsdos.Streams
open Effects

/-- The files that a start looks for, with the time each was created, and what the start
has done so far: when it spawned what, what it found, and what it killed. -/
structure Rundir where
  clock : Nat
  born : Finmap fun _ : String => Nat
  past : ∀ path b, born.lookup path = some b → b < clock
  spawnedAt : Role → Option (Child × Nat)
  found : String → Option Nat
  killed : List Child

/-- A start that has not done anything yet. -/
def Rundir.begin (clock : Nat) (born : Finmap fun _ : String => Nat) (past : ∀ path b, born.lookup path = some b → b < clock) :
    Rundir := ⟨clock, born, past, fun _ => none, fun _ => none, []⟩

/-- Any call can fail; a look at a file tells whether it is there. -/
def Rundir.may (u : Rundir) : (op : Op) → op.Ret → Bool
  | .pathExists path, true => path ∈ u.born
  | .pathExists path, false => path ∉ u.born
  | _, _ => true

def Rundir.tick (u : Rundir) : Rundir :=
  { u with clock := u.clock + 1, past := fun path b there => Nat.lt_succ_of_lt (u.past path b there) }

def Rundir.after (u : Rundir) : (op : Op) → op.Ret → Rundir
  | .pathExists path, true => { u with found := Function.update u.found path (u.born.lookup path) }
  | .spawn _ role _, .ok child => { u.tick with spawnedAt := Function.update u.spawnedAt role (some (child, u.clock)) }
  | .kill child, _ => { u with killed := child :: u.killed }
  | _, _ => u

/-- Around the start, files are created and removed. -/
inductive Turn
  | create (path : String)
  | remove (path : String)
  deriving DecidableEq

def Rundir.turn (u : Rundir) : Turn → Rundir
  | .create path =>
    { u with
      clock := u.clock + 1
      born := u.born.insert path u.clock
      past := by
        intro path' b there
        by_cases same : path' = path
        · subst same
          rw [Finmap.lookup_insert] at there
          cases there
          exact Nat.lt_succ_self _
        · rw [Finmap.lookup_insert_of_ne _ same] at there
          exact Nat.lt_succ_of_lt (u.past path' b there) }
  | .remove path =>
    { u with
      born := u.born.erase path
      past := by
        intro path' b there
        by_cases same : path' = path
        · subst same
          rw [Finmap.lookup_erase] at there
          cases there
        · rw [Finmap.lookup_erase_ne same] at there
          exact u.past path' b there }

/-- One start, whatever happens around it. -/
def rundirs : System Host Unit Rundir where
  Request := Empty
  Env := Turn
  may := fun _ => Rundir.may
  effect := fun _ => Rundir.after
  serve := fun _ request => nomatch request
  droppable := fun _ _ => false
  surroundings := fun u change => some (u.turn change)

/-- What was found last at the path had been created after the process was spawned. -/
def Genuine (role : Role) (path : String) (u : Rundir) : Prop :=
  ∃ child t b, u.spawnedAt role = some (child, t) ∧ u.found path = some b ∧ t < b

/-- A start that comes through found the sockets of its own cage and tunnel; one that did
not find one of them times out, with what it spawned killed. -/
structure Honest (cfg : StreamConfig) (rundir : String) (r : Except StreamError SpawnedProcesses) (u : Rundir) : Prop where
  cage : r.isOk = true → Genuine .cage (rundir ++ "/wayland-0") u
  tunnel : r.isOk = true → Genuine .tunnel (rundir ++ "/wayland-stream.sock") u
  cageTimeout : ∀ cage t, u.spawnedAt .cage = some (cage, t) → ¬ Genuine .cage (rundir ++ "/wayland-0") u →
    r = .error (.socketTimeout (cfg.appId ++ " cage socket timeout")) ∧ cage ∈ u.killed
  tunnelTimeout : ∀ tunnel t, u.spawnedAt .tunnel = some (tunnel, t) →
    ¬ Genuine .tunnel (rundir ++ "/wayland-stream.sock") u →
      r = .error (.socketTimeout (cfg.appId ++ " tunnel socket timeout")) ∧ tunnel ∈ u.killed ∧
        ∃ cage t', u.spawnedAt .cage = some (cage, t') ∧ cage ∈ u.killed

/-- No process is spawned where the socket that it is to create is there already. -/
def Unspoiled (rundir : String) (m : Moment Host Rundir) : Prop :=
  match m.op with
  | .spawn _ .cage _ => rundir ++ "/wayland-0" ∉ m.before.born
  | .spawn _ .tunnel _ => rundir ++ "/wayland-stream.sock" ∉ m.before.born
  | _ => True

variable {role : Role} {path rundir : String} {child : Child} {t : Nat} {u u' : Rundir} {cfg : StreamConfig}
  {ok : Moment Host Rundir → Prop}

/-- The process was spawned at that time, and whatever is at the path was created later. -/
structure Watched (role : Role) (path : String) (child : Child) (t : Nat) (u : Rundir) : Prop where
  spawned : u.spawnedAt role = some (child, t)
  before : t < u.clock
  later : ∀ b, u.born.lookup path = some b → t < b

/-- What was found at the path was created later, too. -/
structure Spotted (role : Role) (path : String) (child : Child) (t : Nat) (u : Rundir) : Prop extends
    Watched role path child t u where
  found : ∃ b, u.found path = some b ∧ t < b

/-- The calls other than the spawn of such a process. -/
def Op.Spares (role : Role) : Op → Prop
  | .spawn _ role' _ => role' ≠ role
  | _ => True

theorem Watched.turn (watched : Watched role path child t u) (change : Turn) : Watched role path child t (u.turn change) := by
  obtain ⟨spawned, before, later⟩ := watched
  cases change with
  | create path' =>
    refine ⟨spawned, Nat.lt_succ_of_lt before, fun b there => ?_⟩
    by_cases same : path = path'
    · subst same
      cases (Finmap.lookup_insert u.born).symm.trans there
      exact before
    · exact later b ((Finmap.lookup_insert_of_ne u.born same).symm.trans there)
  | remove path' =>
    refine ⟨spawned, before, fun b there => ?_⟩
    by_cases same : path = path'
    · subst same
      cases (Finmap.lookup_erase path u.born).symm.trans there
    · exact later b ((Finmap.lookup_erase_ne same).symm.trans there)

theorem Watched.after {op : Op} {r : op.Ret} (watched : Watched role path child t u) (spares : op.Spares role) :
    Watched role path child t (u.after op r) := by
  obtain ⟨spawned, before, later⟩ := watched
  cases op with
  | spawn appId role' command =>
    cases (r : Except String Child) with
    | error e => exact ⟨spawned, before, later⟩
    | ok child' =>
      have other : role ≠ role' := fun same => spares same.symm
      exact ⟨(Function.update_of_ne other _ _).trans spawned, Nat.lt_succ_of_lt before, later⟩
  | pathExists path' =>
    cases (r : Bool) with
    | true => exact ⟨spawned, before, later⟩
    | false => exact ⟨spawned, before, later⟩
  | _ => exact ⟨spawned, before, later⟩

theorem Spotted.turn (spotted : Spotted role path child t u) (change : Turn) : Spotted role path child t (u.turn change) :=
  ⟨spotted.toWatched.turn change, by cases change <;> exact spotted.found⟩

/-- A look at what is there finds what was created since. -/
theorem Watched.look (watched : Watched role path child t u) (there : path ∈ u.born) :
    Spotted role path child t (u.after (.pathExists path) true) := by
  obtain ⟨b, born⟩ := Finmap.mem_iff.mp there
  refine ⟨watched.after trivial, b, ?_, watched.later b born⟩
  exact (Function.update_self path _ u.found).trans born

theorem Spotted.after {op : Op} {r : op.Ret} (spotted : Spotted role path child t u) (spares : op.Spares role)
    (may : u.may op r = true) : Spotted role path child t (u.after op r) := by
  refine ⟨spotted.toWatched.after spares, ?_⟩
  cases op with
  | spawn appId role' command => cases (r : Except String Child) <;> exact spotted.found
  | pathExists path' =>
    cases r : (r : Bool) with
    | true =>
      subst r
      by_cases same : path' = path
      · subst same
        exact (spotted.toWatched.look (of_decide_eq_true may)).found
      · obtain ⟨b, found, later⟩ := spotted.found
        exact ⟨b, (Function.update_of_ne (Ne.symm same) _ u.found).trans found, later⟩
    | false =>
      subst r
      exact spotted.found
  | _ => exact spotted.found

theorem Spotted.genuine (spotted : Spotted role path child t u) : Genuine role path u := by
  obtain ⟨b, found, later⟩ := spotted.found
  exact ⟨child, t, b, spotted.spawned, found, later⟩

/-- The calls that spawn neither a cage nor a tunnel. -/
def Op.Calm (op : Op) : Prop := op.Spares .cage ∧ op.Spares .tunnel

/-- What is kept by whatever happens but for the spawn of a cage or of a tunnel. -/
structure Lasting (I : Rundir → Prop) : Prop where
  after : ∀ u op r, Op.Calm op → u.may op r = true → I u → I (u.after op r)
  turn : ∀ u change, I u → I (u.turn change)

theorem Lasting.around {I : Rundir → Prop} (lasting : Lasting I) (around : Around rundirs u u') (here : I u) : I u' := by
  refine around.keeps (fun v change v' moved here => ?_) here
  cases moved
  exact lasting.turn v change here

/-- A wait for a socket: it is found, or the wait is given up. -/
theorem awaitSocket_always {I after : Rundir → Prop} {giveUp : Task Unit} {error : StreamError} {polls : Nat} (lasting : Lasting I)
    (watches : ∀ u, I u → Watched role path child t u)
    (gives : ∀ u, I u → Always rundirs () ok giveUp u fun _ => after) (here : I u) :
    Always rundirs () ok (awaitSocket path giveUp error polls).run u fun r u' =>
      r = .ok () ∧ I u' ∧ Spotted role path child t u' ∨ r = .error error ∧ after u' := by
  have look {u u' : Rundir} (found : Bool) (around : Around rundirs u u') (may : u'.may (.pathExists path) found = true)
      (here : I u) : I (u'.after (.pathExists path) found) :=
    lasting.after u' (.pathExists path) found ⟨trivial, trivial⟩ may (lasting.around around here)
  have sees {u u' : Rundir} (around : Around rundirs u u') (may : u'.may (.pathExists path) true = true) (here : I u) :
      Spotted role path child t (u'.after (.pathExists path) true) :=
    (watches u' (lasting.around around here)).look (of_decide_eq_true may)
  induction polls generalizing u with
  | zero =>
    rw [awaitSocket_last]
    refine .call fun v around (found : Bool) may _ => ?_
    cases found with
    | true => exact .ret (Or.inl ⟨rfl, look true around may here, sees around may here⟩)
    | false => exact (gives _ (look false around may here)).bind fun _ v' ended => .ret (Or.inr ⟨rfl, ended⟩)
  | succ polls ih =>
    rw [awaitSocket_next]
    refine .call fun v around (found : Bool) may _ => ?_
    cases found with
    | true => exact .ret (Or.inl ⟨rfl, look true around may here, sees around may here⟩)
    | false =>
      refine .call fun v' around' slept may' _ => ih ?_
      exact lasting.after v' (.sleep 500) slept ⟨trivial, trivial⟩ may' (lasting.around around' (look false around may here))

theorem Lasting.both {I J : Rundir → Prop} (first : Lasting I) (second : Lasting J) : Lasting fun u => I u ∧ J u where
  after u op r calm may here := ⟨first.after u op r calm may here.1, second.after u op r calm may here.2⟩
  turn u change here := ⟨first.turn u change here.1, second.turn u change here.2⟩

theorem lasting_killed (child : Child) : Lasting fun u => child ∈ u.killed where
  after u op r _ _ here := by
    cases op with
    | spawn appId role' command => cases (r : Except String Child) <;> exact here
    | pathExists path' => cases (r : Bool) <;> exact here
    | kill child' => exact List.mem_cons_of_mem _ here
    | _ => exact here
  turn u change here := by cases change <;> exact here

theorem lasting_watched (role : Role) (path : String) (child : Child) (t : Nat) (either : role = .cage ∨ role = .tunnel) :
    Lasting (Watched role path child t) where
  after u op r calm _ here := by
    rcases either with rfl | rfl
    · exact here.after calm.1
    · exact here.after calm.2
  turn u change here := here.turn change

theorem lasting_spotted (role : Role) (path : String) (child : Child) (t : Nat) (either : role = .cage ∨ role = .tunnel) :
    Lasting (Spotted role path child t) where
  after u op r calm may here := by
    rcases either with rfl | rfl
    · exact here.after calm.1 may
    · exact here.after calm.2 may
  turn u change here := here.turn change

/-- A process that was not spawned is not, where no cage and no tunnel are spawned. -/
theorem lasting_unspawned (role : Role) (either : role = .cage ∨ role = .tunnel) : Lasting fun u => u.spawnedAt role = none where
  after u op r calm _ here := by
    cases op with
    | spawn appId role' command =>
      cases (r : Except String Child) with
      | error e => exact here
      | ok child' =>
        have other : role ≠ role' := by
          rintro rfl
          rcases either with rfl | rfl
          · exact calm.1 rfl
          · exact calm.2 rfl
        exact (Function.update_of_ne other _ _).trans here
    | pathExists path' => cases (r : Bool) <;> exact here
    | _ => exact here
  turn u change here := by cases change <;> exact here

theorem killChild_always {I : Rundir → Prop} (lasting : Lasting I) (here : I u) :
    Always rundirs () ok (killChild child) u fun _ u' => I u' ∧ child ∈ u'.killed :=
  .call fun v around r may _ => .ret
    ⟨lasting.after v (.kill child) r ⟨trivial, trivial⟩ may (lasting.around around here), List.mem_cons_self ..⟩

/-- A child that is killed and reaped. -/
theorem killAndWait_always {I : Rundir → Prop} (lasting : Lasting I) (here : I u) :
    Always rundirs () ok (killAndWait child) u fun _ u' => I u' ∧ child ∈ u'.killed := by
  refine (killChild_always lasting here).bind fun _ v killed => .call fun v' around r may _ => .ret ?_
  have both := lasting.both (lasting_killed child)
  exact both.after v' (.wait child) r ⟨trivial, trivial⟩ may (both.around around killed)

theorem killBoth_always {I : Rundir → Prop} {cage tunnel : Child} (lasting : Lasting I) (here : I u) :
    Always rundirs () ok (killBoth cage tunnel) u fun _ u' => (I u' ∧ cage ∈ u'.killed) ∧ tunnel ∈ u'.killed :=
  (killAndWait_always lasting here).bind fun _ _ killed => killAndWait_always (lasting.both (lasting_killed cage)) killed

theorem spawn_unspoiled {appId : String} {command : Command} (absent : path ∉ u.born) :
    Watched role path child u.clock (u.after (.spawn appId role command) (.ok child : Except String Child)) :=
  ⟨Function.update_self role _ u.spawnedAt, Nat.lt_succ_self _,
    fun _ there => absurd (Finmap.mem_iff.mpr ⟨_, there⟩) absent⟩

theorem spawn_other {role' : Role} {appId : String} {command : Command} (other : role ≠ role') :
    (u.after (.spawn appId role' command) (.ok child : Except String Child)).spawnedAt role = u.spawnedAt role :=
  Function.update_of_ne other _ _

theorem spawnApp_calm (cfg : StreamConfig) (rundir : String) : (spawnApp cfg rundir).run.Only Op.Calm :=
  spawnApp_calls cfg rundir (fun _ => ⟨trivial, trivial⟩) fun _ => ⟨Role.noConfusion, Role.noConfusion⟩

theorem Lasting.always {α : Type} {I : Rundir → Prop} {p : Task α} (lasting : Lasting I) (only : p.Only Op.Calm) (here : I u) :
    Always rundirs () ok p u fun _ => I :=
  Always.keeps only lasting.after
    (fun v change v' moved here => by cases moved; exact lasting.turn v change here) here

/-- The start from where both sockets were found on. -/
theorem appPhase_always {cage tunnel : Child} {t t' : Nat} (first : Spotted .cage (rundir ++ "/wayland-0") cage t u)
    (second : Spotted .tunnel (rundir ++ "/wayland-stream.sock") tunnel t' u) :
    Always rundirs () ok (onError (spawnApp cfg rundir) (killBoth cage tunnel) >>= fun app =>
      pure (⟨cage, tunnel, app⟩ : SpawnedProcesses)).run u (Honest cfg rundir) := by
  have lasting := (lasting_spotted .cage (rundir ++ "/wayland-0") cage t (Or.inl rfl)).both
    (lasting_spotted .tunnel (rundir ++ "/wayland-stream.sock") tunnel t' (Or.inr rfl))
  have honest {r : Except StreamError SpawnedProcesses} {v : Rundir} (both : Spotted .cage (rundir ++ "/wayland-0") cage t v ∧
      Spotted .tunnel (rundir ++ "/wayland-stream.sock") tunnel t' v) : Honest cfg rundir r v :=
    ⟨fun _ => both.1.genuine, fun _ => both.2.genuine, fun _ _ _ lost => absurd both.1.genuine lost,
      fun _ _ _ lost => absurd both.2.genuine lost⟩
  have kills : (killBoth cage tunnel).Only Op.Calm :=
    (killAndWait_calls ⟨trivial, trivial⟩ ⟨trivial, trivial⟩).bind fun _ => killAndWait_calls ⟨trivial, trivial⟩ ⟨trivial, trivial⟩
  have only : (onError (spawnApp cfg rundir) (killBoth cage tunnel) >>= fun app =>
      pure (⟨cage, tunnel, app⟩ : SpawnedProcesses)).run.Only Op.Calm :=
    (onError_only (spawnApp_calm cfg rundir) kills).tryBind fun _ => trivial
  exact (lasting.always only ⟨first, second⟩).mono fun r v both => honest both

/-- The start from where the compositor's socket was found on. -/
theorem tunnelPhase_always {cage : Child} {t : Nat} (spotted : Spotted .cage (rundir ++ "/wayland-0") cage t u)
    (idle : u.spawnedAt .tunnel = none) :
    Always rundirs () (Unspoiled rundir) (do
      let tunnel ← onError (spawn cfg.appId .tunnel (tunnelCommand rundir) "tunnel spawn: ") (killChild cage)
      awaitSocket (rundir ++ "/wayland-stream.sock") (killBoth cage tunnel)
        (.socketTimeout (cfg.appId ++ " tunnel socket timeout")) 20
      let app ← onError (spawnApp cfg rundir) (killBoth cage tunnel)
      return ⟨cage, tunnel, app⟩ : Fallible SpawnedProcesses).run u (Honest cfg rundir) := by
  have cageLasting := lasting_spotted .cage (rundir ++ "/wayland-0") cage t (Or.inl rfl)
  have resting := cageLasting.both (lasting_unspawned .tunnel (Or.inr rfl))
  refine .call fun v around (r : Except String Child) may clean => ?_
  have here := resting.around around ⟨spotted, idle⟩
  cases r with
  | error e =>
    show Always rundirs () _ (killChild cage >>= fun _ =>
      .ret (Except.error (.spawnFailed ("tunnel spawn: " ++ e)) : Except StreamError SpawnedProcesses)) v _
    refine (killChild_always resting here).bind fun _ w ended => .ret ?_
    exact ⟨nofun, nofun, fun _ _ _ lost => absurd ended.1.1.genuine lost,
      fun _ _ there => (nomatch ended.1.2.symm.trans there)⟩
  | ok tunnel =>
    have watched : Watched .tunnel (rundir ++ "/wayland-stream.sock") tunnel v.clock
        (v.after (.spawn cfg.appId .tunnel (tunnelCommand rundir)) (.ok tunnel : Except String Child)) := spawn_unspoiled clean
    have kept : Spotted .cage (rundir ++ "/wayland-0") cage t
        (v.after (.spawn cfg.appId .tunnel (tunnelCommand rundir)) (.ok tunnel : Except String Child)) :=
      here.1.after Role.noConfusion may
    have lasting := cageLasting.both
      (lasting_watched .tunnel (rundir ++ "/wayland-stream.sock") tunnel v.clock (Or.inr rfl))
    refine Always.tryBind (awaitSocket_always lasting (fun _ both => both.2)
      (fun _ both => killBoth_always lasting both) ⟨kept, watched⟩) (fun _ w ended => ?_) fun e w ended => ?_
    · obtain ⟨-, both, spotted'⟩ | ⟨wrong, -⟩ := ended
      · exact appPhase_always both.1 spotted'
      · cases wrong
    · obtain ⟨wrong, -⟩ | ⟨same, ⟨both, cageKilled⟩, tunnelKilled⟩ := ended
      · cases wrong
      cases same
      refine ⟨nofun, nofun, fun _ _ _ lost => absurd both.1.genuine lost, fun tunnel' t' there _ => ?_⟩
      cases both.2.spawned.symm.trans there
      exact ⟨rfl, tunnelKilled, cage, t, both.1.spawned, cageKilled⟩

/-- A start that finds no stale socket when it spawns. -/
theorem spawnProcesses_always (idle : ∀ role, u.spawnedAt role = none) :
    Always rundirs () (Unspoiled rundir) (spawnProcesses cfg rundir).run u (Honest cfg rundir) := by
  have resting : Lasting fun u => u.spawnedAt .cage = none ∧ u.spawnedAt .tunnel = none :=
    (lasting_unspawned .cage (Or.inl rfl)).both (lasting_unspawned .tunnel (Or.inr rfl))
  have unspawned {e : StreamError} {v : Rundir} (rests : v.spawnedAt .cage = none ∧ v.spawnedAt .tunnel = none) :
      Honest cfg rundir (.error e) v :=
    ⟨nofun, nofun, fun _ _ there => (nomatch rests.1.symm.trans there), fun _ _ there => (nomatch rests.2.symm.trans there)⟩
  refine Always.tryBind (resting.always ⟨⟨trivial, trivial⟩, fun _ => trivial⟩ ⟨idle .cage, idle .tunnel⟩) (fun _ v rests => ?_)
    fun e v rests => unspawned rests
  refine Always.tryBind (resting.always ⟨⟨trivial, trivial⟩, fun _ => trivial⟩ rests) (fun _ v rests => ?_)
    fun e v rests => unspawned rests
  refine .call fun v' around (r : Except String Child) may clean => ?_
  have here := resting.around around rests
  cases r with
  | error e => exact .ret (unspawned here)
  | ok cage =>
    have watched : Watched .cage (rundir ++ "/wayland-0") cage v'.clock
        (v'.after (.spawn cfg.appId .cage (cageCommand rundir)) (.ok cage : Except String Child)) := spawn_unspoiled clean
    have idle' : (v'.after (.spawn cfg.appId .cage (cageCommand rundir)) (.ok cage : Except String Child)).spawnedAt .tunnel =
        none := (spawn_other (by decide)).trans here.2
    have lasting := (lasting_watched .cage (rundir ++ "/wayland-0") cage v'.clock (Or.inl rfl)).both
      (lasting_unspawned .tunnel (Or.inr rfl))
    refine Always.tryBind (awaitSocket_always lasting (fun _ both => both.1)
      (fun _ both => killAndWait_always lasting both) ⟨watched, idle'⟩) (fun _ w ended => ?_) fun e w ended => ?_
    · obtain ⟨-, both, spotted⟩ | ⟨wrong, -⟩ := ended
      · refine .call fun x around' r may' _ => ?_
        have kept := (lasting_spotted .cage (rundir ++ "/wayland-0") cage v'.clock (Or.inl rfl)).both
          (lasting_unspawned .tunnel (Or.inr rfl))
        have after := kept.after x (.setPermissions (rundir ++ "/wayland-0") 0o777) r ⟨trivial, trivial⟩ may' (kept.around around' ⟨spotted, both.2⟩)
        exact tunnelPhase_always after.1 after.2
      · cases wrong
    · obtain ⟨wrong, -⟩ | ⟨same, both, killed⟩ := ended
      · cases wrong
      cases same
      refine ⟨nofun, nofun, fun cage' t' there _ => ?_, fun _ _ there => (nomatch both.2.symm.trans there)⟩
      cases both.1.spawned.symm.trans there
      exact ⟨rfl, killed⟩

theorem spawn_fails {S : System Host Unit Rundir} {appId : String} {command : Command} {msg : String} :
    Ensures S () (spawn appId role command msg).run u fun r _ => ∀ e, r = .error e → ∃ msg, e = .spawnFailed msg :=
  .call fun (r : Except String Child) _ => by
    cases r with
    | error e => exact .ret fun _ same => ⟨_, (Except.error.inj same).symm⟩
    | ok child' => exact .ret nofun

/-- An app that is not spawned is not one that timed out. -/
theorem spawnApp_fails {S : System Host Unit Rundir} :
    Ensures S () (spawnApp cfg rundir).run u fun r _ => ∀ e, r = .error e → ∃ msg, e = .spawnFailed msg := by
  have looked (paths : List String) : Ensures S () (firstExisting paths) u fun _ _ => True := fun _ _ _ _ => trivial
  unfold spawnApp
  split
  · exact spawn_fails
  · exact spawn_fails
  · exact spawn_fails
  · exact spawn_fails
  · rw [run_liftBind]
    exact (looked electrons).bind fun _ _ _ => spawn_fails
  · rw [run_liftBind]
    exact (looked electrons).bind fun _ _ _ => spawn_fails
  · exact spawn_fails
  · exact spawn_fails
  · exact spawn_fails
  · exact .ret fun _ same => ⟨_, (Except.error.inj same).symm⟩

theorem not_genuine (spawned : u.spawnedAt role = some (child, t)) (old : ∀ b, u.found path = some b → b ≤ t) :
    ¬ Genuine role path u := by
  rintro ⟨child', t', b, spawned', found, later⟩
  cases spawned.symm.trans spawned'
  exact absurd (old b found) (by omega)

/-- Where a compositor's socket was left, a start can fail without one of its own, and not
by a timeout. -/
theorem stale_compositor (clock : Nat) (born : Finmap fun _ : String => Nat)
    (past : ∀ path b, born.lookup path = some b → b < clock) (stale : rundir ++ "/wayland-0" ∈ born) :
    Can rundirs () (spawnProcesses cfg rundir).run (.begin clock born past) fun r u => ¬ Honest cfg rundir r u := by
  refine .call (Except.ok ()) rfl (.call (Except.ok ()) rfl (.call (Except.ok 0) rfl (.call true (decide_eq_true stale) ?_)))
  refine .call (Except.ok ()) rfl (.call (Except.error "") rfl (.call (Except.ok ()) rfl (.ret fun honest => ?_)))
  suffices lost : ¬ Genuine .cage (rundir ++ "/wayland-0") _ from nomatch (honest.cageTimeout 0 clock rfl lost).1
  refine @not_genuine _ _ 0 clock _ rfl fun b found => ?_
  have looked : Function.update (fun _ : String => (none : Option Nat)) (rundir ++ "/wayland-0")
    (born.lookup (rundir ++ "/wayland-0")) (rundir ++ "/wayland-0") = some b := found
  rw [Function.update_self] at looked
  exact Nat.le_of_lt (past _ b looked)

/-- The tunnel was spawned at that time, and what is at the path is older. -/
structure Stale (path : String) (t : Nat) (u : Rundir) : Prop where
  spawned : u.spawnedAt .tunnel = some (1, t)
  older : ∀ b, u.born.lookup path = some b → b ≤ t
  found : ∀ b, u.found path = some b → b ≤ t

theorem Stale.after {op : Op} {r : op.Ret} (stale : Stale path t u) (calm : op.Calm) : Stale path t (u.after op r) := by
  obtain ⟨spawned, older, found⟩ := stale
  cases op with
  | spawn appId role' command =>
    cases (r : Except String Child) with
    | error e => exact ⟨spawned, older, found⟩
    | ok child' => exact ⟨(spawn_other (fun same => calm.2 same.symm)).trans spawned, older, found⟩
  | pathExists path' =>
    cases (r : Bool) with
    | true =>
      refine ⟨spawned, older, fun b there => ?_⟩
      by_cases same : path = path'
      · subst same
        exact older b ((Function.update_self path _ u.found).symm.trans there)
      · exact found b ((Function.update_of_ne same _ u.found).symm.trans there)
    | false => exact ⟨spawned, older, found⟩
  | _ => exact ⟨spawned, older, found⟩

theorem rundirs_answers (u : Rundir) (op : Op) : ∃ r, rundirs.may () u op r = true := by
  cases op with
  | pathExists path =>
    by_cases there : path ∈ u.born
    · exact ⟨true, decide_eq_true there⟩
    · exact ⟨false, decide_eq_true there⟩
  | streamsContains appId => exact ⟨false, rfl⟩
  | streamsRemove appId => exact ⟨none, rfl⟩
  | streamsEntries => exact ⟨[], rfl⟩
  | spawn appId role command => exact ⟨Except.ok 0, rfl⟩
  | spawnTask kind appId path => exact ⟨(0 : Nat), rfl⟩
  | tryWait child => exact ⟨Except.ok false, rfl⟩
  | status program args => exact ⟨Except.ok none, rfl⟩
  | registryLoad => exact ⟨Except.ok [], rfl⟩
  | createDirAll _ | setPermissions _ _ | removeDirAll _ | kill _ | wait _ | registryMkdir | registryWriteTmp _ | registryRename =>
    exact ⟨Except.ok (), rfl⟩
  | note _ | lock | unlock | streamsInsert _ _ | abort _ | sleep _ | interval _ => exact ⟨(), rfl⟩

/-- The start of the app neither times out nor finds an older socket to be its own. -/
theorem appPhase_stale {cage : Child} (stale : Stale (rundir ++ "/wayland-stream.sock") t u) :
    Can rundirs () (onError (spawnApp cfg rundir) (killBoth cage 1) >>= fun app =>
      pure (⟨cage, 1, app⟩ : SpawnedProcesses)).run u fun r u' => ¬ Honest cfg rundir r u' := by
  have kills : (killBoth cage 1).Only Op.Calm :=
    (killAndWait_calls ⟨trivial, trivial⟩ ⟨trivial, trivial⟩).bind fun _ => killAndWait_calls ⟨trivial, trivial⟩ ⟨trivial, trivial⟩
  have only : (onError (spawnApp cfg rundir) (killBoth cage 1) >>= fun app =>
      pure (⟨cage, 1, app⟩ : SpawnedProcesses)).run.Only Op.Calm :=
    (onError_only (spawnApp_calm cfg rundir) kills).tryBind fun _ => trivial
  have fails : Ensures rundirs () (onError (spawnApp cfg rundir) (killBoth cage 1) >>= fun app =>
      pure (⟨cage, 1, app⟩ : SpawnedProcesses)).run u fun r _ => ∀ e, r = .error e → ∃ msg, e = .spawnFailed msg := by
    have app : Ensures rundirs () (onError (spawnApp cfg rundir) (killBoth cage 1)).run u
        fun r _ => ∀ e, r = .error e → ∃ msg, e = .spawnFailed msg := by
      rw [onError_run]
      refine spawnApp_fails.bind fun r v failed => ?_
      cases r with
      | ok child => exact .ret nofun
      | error e =>
        have killed : Ensures rundirs () (killBoth cage 1) v fun _ _ => True := fun _ _ _ _ => trivial
        exact killed.bind fun _ _ _ => .ret fun _ same => failed _ (congrArg _ (Except.error.inj same))
    exact app.tryBind (fun _ _ _ => .ret nofun) fun e _ failed _ same => failed _ (congrArg _ (Except.error.inj same))
  obtain ⟨moments, r, u', exec⟩ := Exec.possible _ only (fun v op _ => rundirs_answers v op) u
  have kept := exec.preserve only (fun v op r calm _ stale => stale.after calm) stale
  have lost := not_genuine kept.spawned kept.found
  refine ⟨moments, r, u', exec, fun honest => ?_⟩
  cases r with
  | ok procs => exact lost (honest.tunnel rfl)
  | error e =>
    obtain ⟨msg, rfl⟩ := fails _ _ _ exec e rfl
    cases (honest.tunnelTimeout 1 t kept.spawned lost).1

/-- Where a tunnel's socket was left, a start can come through, or fail, without one of its
own, and not by a timeout. -/
theorem stale_stream (clock : Nat) (born : Finmap fun _ : String => Nat)
    (past : ∀ path b, born.lookup path = some b → b < clock) (stale : rundir ++ "/wayland-stream.sock" ∈ born) :
    Could rundirs () (spawnProcesses cfg rundir).run (.begin clock born past) fun r u => ¬ Honest cfg rundir r u := by
  refine .call _ (Except.ok ()) .refl rfl (.call _ (Except.ok ()) .refl rfl (.call _ (Except.ok 0) .refl rfl ?_))
  refine .call _ true (.single ⟨.create (rundir ++ "/wayland-0"), rfl⟩) ?_ ?_
  · exact decide_eq_true (Finmap.mem_insert.mpr (Or.inl rfl))
  have old : ∀ b, (born.insert (rundir ++ "/wayland-0") (clock + 1)).lookup (rundir ++ "/wayland-stream.sock") = some b →
      b ≤ clock + 1 + 1 := by
    intro b there
    rw [Finmap.lookup_insert_of_ne] at there
    · exact Nat.le_of_lt (Nat.lt_add_right 2 (past _ b there))
    · exact fun same => absurd (String.append_right_inj _ |>.mp same) (by decide)
  refine .call _ (Except.ok ()) .refl rfl (.call _ (Except.ok 1) .refl rfl (.call _ true .refl ?_
    (@appPhase_stale rundir (clock + 1 + 1) _ cfg 0 ⟨rfl, old, fun b found => old b ?_⟩).could))
  · exact decide_eq_true (Finmap.mem_insert.mpr (Or.inr stale))
  · exact (Function.update_self (rundir ++ "/wayland-stream.sock") _ _).symm.trans found

/-- A start finds the sockets of its own cage and tunnel, or times out with what it spawned
killed, if neither socket is there when the process that is to create it is spawned. Where
one was left before the start, it can find that one. -/
theorem readiness_genuine (cfg : StreamConfig) (rundir : String) (clock : Nat) (born : Finmap fun _ : String => Nat)
    (past : ∀ path b, born.lookup path = some b → b < clock) :
    (∀ moments r u, Runs rundirs () (spawnProcesses cfg rundir).run (.begin clock born past) moments r u →
        (∀ m ∈ moments, Unspoiled rundir m) → Honest cfg rundir r u) ∧
      (rundir ++ "/wayland-0" ∈ born ∨ rundir ++ "/wayland-stream.sock" ∈ born →
        Could rundirs () (spawnProcesses cfg rundir).run (.begin clock born past) fun r u => ¬ Honest cfg rundir r u) := by
  refine ⟨spawnProcesses_always fun _ => rfl, fun left => ?_⟩
  rcases left with stale | stale
  · exact (stale_compositor clock born past stale).could
  · exact stale_stream clock born past stale

def leftCompositor : String := "/tmp/bsdos/streams/appBrowser/wayland-0"

def leftStream : String := "/tmp/bsdos/streams/appBrowser/wayland-stream.sock"

/-- The sockets of a daemon that has crashed. -/
def leftSockets : Finmap fun _ : String => Nat := ((∅ : Finmap fun _ : String => Nat).insert leftCompositor 0).insert leftStream 1

theorem leftSockets_past (path : String) (b : Nat) (there : leftSockets.lookup path = some b) : b < 2 := by
  unfold leftSockets at there
  by_cases stream : path = leftStream
  · subst stream
    rw [Finmap.lookup_insert] at there
    cases there
    decide
  · rw [Finmap.lookup_insert_of_ne _ stream] at there
    by_cases compositor : path = leftCompositor
    · subst compositor
      rw [Finmap.lookup_insert] at there
      cases there
      decide
    · rw [Finmap.lookup_insert_of_ne _ compositor, Finmap.lookup_empty] at there
      cases there

/-- The lock of a compositor that has taken its socket away. -/
def leftLock : Finmap fun _ : String => Nat :=
  (∅ : Finmap fun _ : String => Nat).insert "/tmp/bsdos/streams/appBrowser/wayland-0.lock" 0

theorem leftLock_past (path : String) (b : Nat) (there : leftLock.lookup path = some b) : b < 2 := by
  unfold leftLock at there
  by_cases lock : path = "/tmp/bsdos/streams/appBrowser/wayland-0.lock"
  · subst lock
    rw [Finmap.lookup_insert] at there
    cases there
    decide
  · rw [Finmap.lookup_insert_of_ne _ lock, Finmap.lookup_empty] at there
    cases there

/-- Over a lock file, and over the sockets of a daemon that has crashed. -/
theorem readiness_genuine_left :
    (∀ moments r u, Runs rundirs () (spawnProcesses .default "/tmp/bsdos/streams/appBrowser").run
        (.begin 2 leftLock leftLock_past) moments r u → (∀ m ∈ moments, Unspoiled "/tmp/bsdos/streams/appBrowser" m) →
          Honest .default "/tmp/bsdos/streams/appBrowser" r u) ∧
      Could rundirs () (spawnProcesses .default "/tmp/bsdos/streams/appBrowser").run (.begin 2 leftSockets leftSockets_past)
        fun r u => ¬ Honest .default "/tmp/bsdos/streams/appBrowser" r u := by
  have compositor : leftCompositor ∈ leftSockets := by decide +kernel
  refine ⟨(readiness_genuine .default "/tmp/bsdos/streams/appBrowser" 2 leftLock leftLock_past).1, ?_⟩
  exact (readiness_genuine .default "/tmp/bsdos/streams/appBrowser" 2 leftSockets leftSockets_past).2 (.inl compositor)

/-- With the sockets of a crashed daemon a start comes through before its own processes have
created any. -/
theorem left_sockets_taken :
    Can rundirs () (spawnProcesses .default "/tmp/bsdos/streams/appBrowser").run (.begin 2 leftSockets leftSockets_past)
      fun r u => r.isOk = true ∧ ¬ Genuine .cage "/tmp/bsdos/streams/appBrowser/wayland-0" u ∧
        ¬ Genuine .tunnel "/tmp/bsdos/streams/appBrowser/wayland-stream.sock" u := by
  have compositor : leftCompositor ∈ leftSockets := by decide +kernel
  have stream : leftStream ∈ leftSockets := by decide +kernel
  have other : leftCompositor ≠ leftStream := by decide
  refine .call (Except.ok ()) rfl (.call (Except.ok ()) rfl (.call (Except.ok 0) rfl (.call true (decide_eq_true compositor) ?_)))
  refine .call (Except.ok ()) rfl (.call (Except.ok 1) rfl (.call true (decide_eq_true stream) ?_))
  refine .call (Except.ok 2) rfl (.ret ⟨rfl, @not_genuine _ _ 0 2 _ rfl fun b found => ?_,
    @not_genuine _ _ 1 3 _ rfl fun b found => ?_⟩)
  · have looked : Function.update (Function.update (fun _ : String => (none : Option Nat)) leftCompositor
        (leftSockets.lookup leftCompositor)) leftStream (leftSockets.lookup leftStream) leftCompositor = some b := found
    rw [Function.update_of_ne other, Function.update_self] at looked
    exact Nat.le_of_lt (leftSockets_past _ b looked)
  · have looked : Function.update (Function.update (fun _ : String => (none : Option Nat)) leftCompositor
        (leftSockets.lookup leftCompositor)) leftStream (leftSockets.lookup leftStream) leftStream = some b := found
    rw [Function.update_self] at looked
    exact Nat.le_of_lt (Nat.lt_succ_of_lt (leftSockets_past _ b looked))

end Bsdos.Streams
