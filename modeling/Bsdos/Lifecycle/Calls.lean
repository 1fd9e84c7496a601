import Bsdos.Lifecycle.System

namespace Bsdos.Lifecycle
open Effects

section only
variable {Q : Op → Prop}

/-- What `run` makes of the outcome of the program it ran. -/
def outcome (program : String) : Except String Output → Except String String
  | .error e => .error ("exec " ++ program ++ ": " ++ e)
  | .ok out => if out.success then .ok out.stdout else .error ("exit " ++ out.status ++ ": " ++ Text.trim out.stderr)

theorem run_eq (program : String) (args : List String) : (run program args).run =
    .call (.output program args) fun r : Except String Output => Prog.ret (outcome program r) := by
  have decided : ∀ r : Except String Output, (match r with
      | .error e => throw ("exec " ++ program ++ ": " ++ e)
      | .ok out =>
        if out.success then return out.stdout
        else throw ("exit " ++ out.status ++ ": " ++ Text.trim out.stderr) : Fallible String).run =
      Prog.ret (outcome program r) := by
    intro r
    cases r with
    | error e => rfl
    | ok out => simp only [outcome]; split <;> rfl
  exact congrArg (Prog.call (E := Daemon) (.output program args)) (funext decided)

theorem run_only {program : String} {args : List String} (output : Q (.output program args)) :
    (run program args).run.Only Q := by
  rw [run_eq]
  exact ⟨output, fun _ => trivial⟩

theorem signalPids_only {sig : Sig} (kill : ∀ pid, Q (.kill pid sig)) (pids : List Int) (delivered : Nat) :
    (signalPids sig pids delivered).Only Q := by
  induction pids generalizing delivered with
  | nil => trivial
  | cons pid pids ih =>
    refine ⟨kill pid, fun r => ?_⟩
    cases r with
    | ok _ => exact ih _
    | error _ => exact ih _

theorem signalJailPids_only {name : String} {sig : Sig} (jid : Q (.jidByName name))
    (pids : ∀ j, Q (.jailPids j)) (kill : ∀ pid, Q (.kill pid sig)) :
    (signalJailPids name sig).run.Only Q := by
  refine Prog.Only.tryBind ⟨jid, fun _ => trivial⟩ fun j => ?_
  refine Prog.Only.tryBind ⟨pids j, fun _ => trivial⟩ fun l => ?_
  exact (signalPids_only kill l 0).bind fun _ => trivial

end only

theorem validateJailId_ok_iff {id id' : String} : validateJailId id = .ok id' ↔
    id' = id ∧ id ≠ "" ∧ id.utf8ByteSize ≤ 64 ∧ ∀ c ∈ id.toList, validChar c = true := by
  refine Text.checked_name_iff.trans ?_
  rw [Except.ok.injEq]
  constructor
  · rintro ⟨filled, short, all, same⟩
    exact ⟨same.symm, filled, short, all⟩
  · rintro ⟨same, filled, short, all⟩
    exact ⟨filled, short, all, same.symm⟩

theorem validateJailId_ok {id id' : String} (valid : validateJailId id = .ok id') : id' = id :=
  (validateJailId_ok_iff.mp valid).1

/-- The names `validate_jail_id` lets through. -/
def ValidId (id : String) : Prop := validateJailId id = .ok id

/-- The calls inside an operation on one jail that only act on that jail: they
signal its processes, run programs, touch files, and write its tracked state. -/
def Op.ActsOn (jail : String) : Op → Prop
  | .jidByName name => name = jail
  | .statesInsert id _ => id = jail ∧ ValidId jail
  | .unixTime | .jailPids _ | .kill _ _ | .output _ _ | .pathExists _ | .removeFile _ => True
  | _ => False

theorem operation_only {Q : Op → Prop} {c : Call} {body : String → Fallible String}
    (invoked : Q (.note (.invoked c))) (only : ValidId c.jail → (body c.jail).run.Only Q)
    (returned : ∀ ok, Q (.note (.returned c ok))) : (operation c body).run.Only Q := by
  refine Prog.Only.bind ⟨invoked, fun _ => trivial⟩ fun _ => ?_
  refine Prog.Only.bind ?_ fun r => ⟨returned _, fun _ => trivial⟩
  rw [run_tryBind, run_liftExcept]
  cases checked : validateJailId c.jail with
  | error e => trivial
  | ok id =>
    cases validateJailId_ok checked
    exact only checked

theorem freezeBody_only {jail : String} (valid : ValidId jail) :
    (freezeBody jail).run.Only (Op.ActsOn jail) := by
  refine Prog.Only.tryBind (signalJailPids_only rfl (fun _ => trivial) fun _ => trivial) fun n => ?_
  exact ⟨⟨rfl, valid⟩, fun _ => trivial⟩

theorem thawBody_only {jail : String} (valid : ValidId jail) :
    (thawBody jail).run.Only (Op.ActsOn jail) := by
  refine Prog.Only.tryBind (signalJailPids_only rfl (fun _ => trivial) fun _ => trivial) fun n => ?_
  exact ⟨⟨rfl, valid⟩, fun _ => trivial⟩

theorem hibernateBody_only {jail : String} (valid : ValidId jail) :
    (hibernateBody jail).run.Only (Op.ActsOn jail) := by
  refine Prog.Only.tryBind
    (attempt_only (signalJailPids_only rfl (fun _ => trivial) fun _ => trivial)) fun _ => ?_
  refine Prog.Only.tryBind ⟨trivial, fun _ => trivial⟩ fun now => ?_
  refine Prog.Only.tryBind (attempt_only (run_only trivial)) fun r => ?_
  cases r with
  | error e => trivial
  | ok out => exact ⟨⟨rfl, valid⟩, fun _ => trivial⟩

theorem rollbackAndRestart_only {jail : String} (valid : ValidId jail) :
    (rollbackAndRestart jail).run.Only (Op.ActsOn jail) := by
  refine Prog.Only.tryBind (run_only trivial) fun snaps => ?_
  cases latestSnapshot snaps with
  | none => trivial
  | some latest =>
    refine Prog.Only.tryBind (run_only trivial) fun _ => ?_
    exact ⟨⟨rfl, valid⟩, fun _ => trivial⟩

theorem wakeOrRollback_only {jail : String} (valid : ValidId jail) :
    (wakeOrRollback jail).run.Only (Op.ActsOn jail) := by
  refine Prog.Only.tryBind
    (attempt_only (signalJailPids_only rfl (fun _ => trivial) fun _ => trivial)) fun r => ?_
  split
  · exact ⟨⟨rfl, valid⟩, fun _ => trivial⟩
  · exact rollbackAndRestart_only valid

theorem removeWaylandSock_only (jail : String) : (removeWaylandSock jail).run.Only (Op.ActsOn jail) := by
  refine Prog.Only.tryBind ⟨trivial, fun _ => trivial⟩ fun found => ?_
  cases found with
  | false => trivial
  | true => exact Prog.Only.tryBind (attempt_only ⟨trivial, fun _ => trivial⟩) fun _ => trivial

theorem recycleTmp_only (jail : String) : (recycleTmp jail).run.Only (Op.ActsOn jail) := by
  refine Prog.Only.tryBind (attempt_only (run_only trivial)) fun r => ?_
  cases r with
  | error e => trivial
  | ok out =>
    refine Prog.Only.tryBind (attempt_only (run_only trivial)) fun _ => ?_
    exact Prog.Only.tryBind (attempt_only (run_only trivial)) fun _ => trivial

theorem killBody_only {jail : String} (valid : ValidId jail) :
    (killBody jail).run.Only (Op.ActsOn jail) := by
  refine Prog.Only.tryBind
    (attempt_only (signalJailPids_only rfl (fun _ => trivial) fun _ => trivial)) fun _ => ?_
  refine Prog.Only.tryBind (removeWaylandSock_only jail) fun _ => ?_
  refine Prog.Only.tryBind (recycleTmp_only jail) fun _ => ?_
  exact ⟨⟨rfl, valid⟩, fun _ => trivial⟩

section applications
variable {Q : Op → Prop} {jail : String}

theorem freezeApplication_only (acts : ∀ op : Op, op.ActsOn jail → Q op)
    (invoked : Q (.note (.invoked (.freeze jail)))) (returned : ∀ ok, Q (.note (.returned (.freeze jail) ok))) :
    (freezeApplication jail).run.Only Q :=
  operation_only invoked (fun valid => (freezeBody_only valid).mono acts) returned

theorem hibernateApplication_only (acts : ∀ op : Op, op.ActsOn jail → Q op)
    (invoked : Q (.note (.invoked (.hibernate jail)))) (returned : ∀ ok, Q (.note (.returned (.hibernate jail) ok))) :
    (hibernateApplication jail).run.Only Q :=
  operation_only invoked (fun valid => (hibernateBody_only valid).mono acts) returned

theorem killApplication_only (acts : ∀ op : Op, op.ActsOn jail → Q op)
    (invoked : Q (.note (.invoked (.kill jail)))) (returned : ∀ ok, Q (.note (.returned (.kill jail) ok))) :
    (killApplication jail).run.Only Q :=
  operation_only invoked (fun valid => (killBody_only valid).mono acts) returned

theorem readMemStats_only (sysctl : ∀ key, Q (.sysctl key)) : readMemStats.run.Only Q := by
  refine Prog.Only.tryBind ⟨sysctl _, fun _ => trivial⟩ fun _ => ?_
  refine Prog.Only.tryBind ⟨sysctl _, fun _ => trivial⟩ fun _ => ?_
  exact Prog.Only.tryBind ⟨sysctl _, fun _ => trivial⟩ fun _ => trivial

theorem isIdlePast_only (get : Q (.prioritiesGet jail)) (idleSecs now : Nat) :
    (isIdlePast jail idleSecs now).Only Q := by
  refine Prog.Only.bind ⟨get, fun _ => trivial⟩ fun entry => ?_
  split <;> trivial

theorem warnJail_only (get : Q (.prioritiesGet jail)) (state : Q (.statesGet jail))
    (warned : Q (.note (.warnFreezing jail))) (freeze : (freezeApplication jail).run.Only Q)
    (policy : LifecyclePolicy) (now : Nat) : (warnJail policy now jail).Only Q := by
  refine Prog.Only.bind (isIdlePast_only get _ _) fun idle => ?_
  cases idle with
  | false => trivial
  | true =>
    refine Prog.Only.bind ⟨state, fun _ => trivial⟩ fun state => ?_
    split
    · exact ⟨warned, fun _ => freeze.bind fun _ => trivial⟩
    · trivial

theorem oomJail_only (get : Q (.prioritiesGet jail)) (kill : (killApplication jail).run.Only Q) :
    (oomJail jail).Only Q := by
  refine Prog.Only.bind ⟨get, fun _ => trivial⟩ fun entry => ?_
  dsimp only
  split
  · exact kill.bind fun _ => trivial
  · trivial

end applications

section follows
variable {Γ : Type} {P : Protocol Daemon Γ} {γ : Γ}

theorem follows_run {program : String} {args : List String} {post : Except String String → Γ → Prop}
    (allowed : P.allows γ (.output program args))
    (after : ∀ r : Except String Output, post (outcome program r) (P.next γ (.output program args) r)) :
    (run program args).run.Follows P post γ := by
  rw [run_eq]
  exact ⟨allowed, after⟩

/-- Following a protocol through an operation: its entry, its body where the name
is accepted, its return. -/
theorem operation_follows {c : Call} {body : String → Fallible String}
    {M post : Except String String → Γ → Prop} (invoked : P.allows γ (.note (.invoked c)))
    (follows : ValidId c.jail → (body c.jail).run.Follows P M (P.next γ (.note (.invoked c)) ()))
    (refused : ∀ e, ¬ ValidId c.jail → M (.error e) (P.next γ (.note (.invoked c)) ()))
    (returned : ∀ r γ', M r γ' → P.allows γ' (.note (.returned c r.isOk)) ∧
      post r (P.next γ' (.note (.returned c r.isOk)) ())) :
    (operation c body).run.Follows P post γ := by
  refine ⟨invoked, fun _ => ?_⟩
  refine Prog.Follows.bind (M := M) ?_ fun r γ' reached => ?_
  · rw [run_tryBind, run_liftExcept]
    cases checked : validateJailId c.jail with
    | error e => exact refused e (by simp [ValidId, checked])
    | ok id =>
      cases validateJailId_ok checked
      exact follows checked
  · exact ⟨(returned r γ' reached).1, fun _ => (returned r γ' reached).2⟩

end follows

end Bsdos.Lifecycle
