import Bsdos.Streams.Served
import Mathlib.Data.Finset.Insert

namespace Bsdos.Streams
open Effects

/-- How far a start has come: the app it starts, whether its membership check found no
instance, and whether it has put its own into the map. -/
structure Entry where
  app : Option String
  absent : Bool
  entered : Bool
  deriving DecidableEq

def Entry.idle : Entry := ⟨none, false, false⟩

/-- A start looks before it inserts, inserts once and under its own app, and returns Ok only
after that. -/
def entering : Protocol Host Entry where
  next γ
    | .note (.invoked (.start cfg)), _ => ⟨some cfg.appId, false, false⟩
    | .note (.invoked (.stop _)), _ | .note (.returned _ _), _ => .idle
    | .streamsContains _, known => { γ with absent := !known }
    | .streamsInsert appId _, _ => { γ with entered := γ.entered || decide (γ.app = some appId) }
    | _, _ => γ
  allows γ
    | .streamsContains appId => γ = ⟨some appId, false, false⟩
    | .streamsInsert appId _ => γ = ⟨some appId, true, false⟩
    | .note (.returned (.start cfg) true) => γ = ⟨some cfg.appId, true, true⟩
    | _ => True

/-- The calls that have no part in it. -/
def Op.Apart : Op → Prop
  | .note _ | .streamsContains _ | .streamsInsert _ _ => False
  | _ => True

theorem Op.Apart.entering {op : Op} (apart : op.Apart) (γ : Entry) :
    entering.allows γ op ∧ ∀ r, entering.next γ op r = γ := by
  cases op with
  | note _ | streamsContains _ | streamsInsert _ _ => exact apart.elim
  | _ => exact ⟨trivial, fun _ => rfl⟩

section follows
variable {γ : Entry}

theorem apart_follows {α : Type} {p : Task α} (only : p.Only Op.Apart) : p.Follows entering (fun _ γ' => γ' = γ) γ :=
  only.keeps (fun γ' _ apart same => ⟨(apart.entering γ').1, fun r => ((apart.entering γ').2 r).trans same⟩) rfl

theorem spawnProcesses_apart (cfg : StreamConfig) (rundir : String) : (spawnProcesses cfg rundir).run.Only Op.Apart :=
  spawnProcesses_calls cfg rundir trivial trivial trivial (fun _ _ => trivial) (fun _ => trivial) trivial (fun _ => trivial)
    fun _ => trivial

/-- A start body that goes through has put its instance into the map. -/
theorem startBody_entering (cfg : StreamConfig) : (startBody cfg).run.Follows entering
    (fun r γ' => r.isOk = true → γ' = ⟨some cfg.appId, true, true⟩) ⟨some cfg.appId, false, false⟩ := by
  have records : (addToRegistry cfg).run.Only Op.Apart :=
    addToRegistry_only trivial trivial (fun _ => trivial) trivial cfg
  rw [startBody_run, checkMembership_run]
  refine ⟨trivial, fun _ => ⟨rfl, fun known => ⟨trivial, fun _ => ?_⟩⟩⟩
  cases known with
  | true => exact fun wrong => nomatch wrong
  | false =>
    refine (apart_follows (spawnProcesses_apart cfg _)).bind fun r γ' same => ?_
    subst same
    cases r with
    | error e => exact fun wrong => nomatch wrong
    | ok procs =>
      refine ⟨trivial, fun _ => ⟨trivial, fun _ => ⟨trivial, fun _ => ⟨trivial, fun _ => ⟨rfl, fun _ => ?_⟩⟩⟩⟩⟩
      have unlocks : unlock.Only Op.Apart := ⟨trivial, fun _ => trivial⟩
      have ends : (.ret (.ok ()) : Task (Except StreamError Unit)).Only Op.Apart := trivial
      refine (apart_follows ((records.bind fun _ => unlocks).bind fun _ => ends)).mono fun _ γ' same _ => ?_
      rw [same]
      simp [entering]

theorem startStream_entering (cfg : StreamConfig) : (startStream cfg).run.Follows entering (fun _ _ => True) γ := by
  unfold startStream
  rw [recorded_run]
  refine ⟨trivial, fun _ => (startBody_entering cfg).bind fun r γ' done => ⟨?_, fun _ => trivial⟩⟩
  cases r with
  | ok _ => exact done rfl
  | error _ => trivial

theorem stopStream_entering (appId : String) : (stopStream appId).run.Follows entering (fun _ _ => True) γ := by
  have clears (op : Op) (clears : op.Clears) : op.Apart := by
    cases op with
    | note _ | streamsContains _ | streamsInsert _ _ => exact clears.elim id id
    | _ => trivial
  unfold stopStream
  rw [recorded_run]
  refine ⟨trivial, fun _ => ?_⟩
  refine Prog.Follows.bind (M := fun _ _ => True) ?_ fun r γ' _ => ⟨by cases r <;> trivial, fun _ => trivial⟩
  rw [stopBody_run]
  refine ⟨trivial, fun _ => ⟨trivial, fun found => ⟨trivial, fun _ => ?_⟩⟩⟩
  cases found with
  | none => trivial
  | some inst => exact (apart_follows ((cleared_only appId inst).mono clears)).mono fun _ _ _ => trivial

theorem aside_entering (γ : Entry) (op : Op) (aside : op.Aside) : entering.allows γ op := by
  cases op with
  | note n =>
    cases n with
    | died _ | restarting _ => trivial
    | _ => exact aside.elim
  | streamsContains _ | streamsInsert _ _ => exact aside.elim
  | _ => trivial

theorem serve_entering {a : Actor} {request : Request} {program : Task Unit} (served : serve a request = some program) :
    program.Follows entering (fun _ _ => True) γ :=
  serve_follows (fun γ op aside _ => ⟨aside_entering γ op aside, fun _ => trivial⟩)
    (fun cfg _ _ => startStream_entering cfg) (fun appId _ _ => stopStream_entering appId) served trivial

end follows

/-- How far the last start of a task has come. -/
def entryOf (a : Actor) (history : List (Event Host Actor)) : Entry := entering.state .idle a history

theorem reach_entering {registry : File} {ok : Config Host Actor World → Label manager → Prop}
    {c : Config Host Actor World} (reach : Reach manager ok (.idle (.fresh registry)) c) (a : Actor) :
    c.Conforms entering .idle (fun _ => True) a :=
  reach.conforms trivial (fun _ _ served _ _ => serve_entering served) fun _ _ _ _ _ => trivial

/-- The starts of one app: those in progress, those of them that have put their instance into
the map, and those in progress that overlap one that has. -/
structure Starters where
  underway : Finset Actor
  entered : Finset Actor
  rivals : Finset Actor

def Starters.leave (s : Starters) (a : Actor) : Starters := ⟨s.underway.erase a, s.entered.erase a, s.rivals.erase a⟩

def Starters.join (s : Starters) (a : Actor) : Starters :=
  ⟨insert a s.underway, s.entered, if s.entered = ∅ then s.rivals else insert a s.rivals⟩

def Starters.enter (s : Starters) (a : Actor) : Starters :=
  if a ∈ s.underway then ⟨s.underway, insert a s.entered, s.underway⟩ else s

def Starters.next (appId : String) (s : Starters) (e : Event Host Actor) : Starters :=
  match e.op with
  | .note (.invoked (.start cfg)) => if cfg.appId = appId then (s.leave e.actor).join e.actor else s.leave e.actor
  | .note (.invoked (.stop _)) | .note (.returned _ _) => s.leave e.actor
  | .streamsInsert id _ => if id = appId then s.enter e.actor else s
  | _ => s

def starters (appId : String) : List (Event Host Actor) → Starters
  | [] => ⟨∅, ∅, ∅⟩
  | e :: history => (starters appId history).next appId e

section starters
variable {appId : String} {a b : Actor} {history : List (Event Host Actor)} {e : Event Host Actor} {s : Starters}

/-- Those that have entered are among the rivals, and so is everybody once one has entered. -/
structure Starters.Ranked (s : Starters) : Prop where
  entered : s.entered ⊆ s.rivals
  rivals : s.rivals ⊆ s.underway
  all : s.entered ≠ ∅ → s.underway ⊆ s.rivals

theorem Starters.Ranked.leave (ranked : s.Ranked) (a : Actor) : (s.leave a).Ranked where
  entered := Finset.erase_subset_erase a ranked.entered
  rivals := Finset.erase_subset_erase a ranked.rivals
  all some := Finset.erase_subset_erase a (ranked.all fun none => some (by simp [Starters.leave, none]))

theorem Starters.Ranked.join (ranked : s.Ranked) (a : Actor) : (s.join a).Ranked := by
  unfold Starters.join
  split
  · rename_i none
    exact ⟨ranked.entered, ranked.rivals.trans (Finset.subset_insert ..), fun some => absurd none some⟩
  · rename_i some
    exact ⟨ranked.entered.trans (Finset.subset_insert ..), Finset.insert_subset_insert a ranked.rivals,
      fun _ => Finset.insert_subset_insert a (ranked.all some)⟩

theorem Starters.Ranked.enter (ranked : s.Ranked) (a : Actor) : (s.enter a).Ranked := by
  unfold Starters.enter
  split
  · rename_i underway
    exact ⟨Finset.insert_subset underway (ranked.entered.trans ranked.rivals), subset_rfl, fun _ => subset_rfl⟩
  · exact ranked

theorem starters_ranked (appId : String) (history : List (Event Host Actor)) : (starters appId history).Ranked := by
  induction history with
  | nil => exact ⟨subset_rfl, subset_rfl, fun _ => subset_rfl⟩
  | cons e history ih =>
    unfold starters Starters.next
    split
    · split
      · exact (ih.leave _).join _
      · exact ih.leave _
    · exact ih.leave _
    · exact ih.leave _
    · split
      · exact ih.enter _
      · exact ih
    · exact ih

@[simp] theorem mem_leave : (b ∈ (s.leave a).underway ↔ b ≠ a ∧ b ∈ s.underway) ∧
    (b ∈ (s.leave a).entered ↔ b ≠ a ∧ b ∈ s.entered) ∧ (b ∈ (s.leave a).rivals ↔ b ≠ a ∧ b ∈ s.rivals) :=
  ⟨Finset.mem_erase, Finset.mem_erase, Finset.mem_erase⟩

@[simp] theorem mem_join : (b ∈ (s.join a).underway ↔ b = a ∨ b ∈ s.underway) ∧ (b ∈ (s.join a).entered ↔ b ∈ s.entered) := by
  unfold Starters.join
  split <;> exact ⟨Finset.mem_insert, Iff.rfl⟩

@[simp] theorem mem_enter : (b ∈ (s.enter a).underway ↔ b ∈ s.underway) ∧
    (b ∈ (s.enter a).entered ↔ b ∈ s.entered ∨ b = a ∧ a ∈ s.underway) := by
  unfold Starters.enter
  split
  · rename_i underway
    simp only [Finset.mem_insert, underway, and_true, or_comm]
  · rename_i apart
    simp only [apart, and_false, or_false, and_self]

theorem mem_next_other (other : e.actor ≠ b) : (b ∈ (s.next appId e).underway ↔ b ∈ s.underway) ∧
    (b ∈ (s.next appId e).entered ↔ b ∈ s.entered) := by
  have apart : b ≠ e.actor := Ne.symm other
  unfold Starters.next
  split
  · split <;> simp [apart]
  · simp [apart]
  · simp [apart]
  · split <;> simp [apart]
  · simp

/-- Who is in progress and who has entered, by what each task has done itself. -/
theorem mem_starters : (b ∈ (starters appId history).underway ↔ (entryOf b history).app = some appId) ∧
    (b ∈ (starters appId history).entered ↔ (entryOf b history).app = some appId ∧ (entryOf b history).entered = true) := by
  induction history with
  | nil => simp [starters, entryOf, Entry.idle]
  | cons e history ih =>
    obtain ⟨a, op, r⟩ := e
    by_cases own : a = b
    · subst own
      have here : entryOf a (⟨a, op, r⟩ :: history) = entering.next (entryOf a history) op r := Protocol.state_own ..
      rw [here, starters, Starters.next]
      cases op with
      | note n =>
        cases n with
        | invoked call =>
          cases call with
          | start cfg => by_cases same : cfg.appId = appId <;> simp [entering, same]
          | stop id => simp [entering, Entry.idle]
        | returned call ok => simp [entering, Entry.idle]
        | _ => exact ih
      | streamsContains id => exact ih
      | streamsInsert id inst =>
        by_cases same : id = appId
        · subst same
          simp [entering, ih]
          tauto
        · by_cases app : (entryOf a history).app = some appId
          · simp [entering, same, ih, app, Ne.symm same]
          · simp [entering, same, ih, app]
      | _ => exact ih
    · have there : entryOf b (⟨a, op, r⟩ :: history) = entryOf b history := Protocol.state_other _ _ _ own _
      rw [there, starters, (mem_next_other own).1, (mem_next_other own).2]
      exact ih

theorem next_underway (still : ∀ call, e.actor = b → e.op ≠ .note (.invoked call))
    (underway : b ∈ (s.next appId e).underway) : b ∈ s.underway := by
  unfold Starters.next at underway
  split at underway
  · rename_i cfg entered
    have other : b ≠ e.actor := fun own => still _ own.symm entered
    split at underway
    · simp only [mem_join, mem_leave, other, false_or] at underway
      exact underway.2
    · exact (mem_leave.1.mp underway).2
  · exact (mem_leave.1.mp underway).2
  · exact (mem_leave.1.mp underway).2
  · split at underway
    · exact mem_enter.1.mp underway
    · exact underway
  · exact underway

theorem join_rivals (rival : b ∈ s.rivals) : b ∈ (s.join a).rivals := by
  unfold Starters.join
  split
  · exact rival
  · exact Finset.mem_insert_of_mem rival

/-- A rival stays one for as long as it is in its call. -/
theorem next_rivals (still : ∀ call, e.actor = b → e.op ≠ .note (.invoked call)) (rival : b ∈ s.rivals)
    (underway : b ∈ (s.next appId e).underway) : b ∈ (s.next appId e).rivals := by
  unfold Starters.next at underway ⊢
  split
  · rename_i cfg entered
    have left : b ∈ (s.leave e.actor).rivals := mem_leave.2.2.mpr ⟨fun own => still _ own.symm entered, rival⟩
    split
    · exact join_rivals left
    · exact left
  · rename_i id entered
    exact mem_leave.2.2.mpr ⟨fun own => still _ own.symm entered, rival⟩
  · rename_i call ok returned
    simp only [returned] at underway
    exact mem_leave.2.2.mpr ⟨(mem_leave.1.mp underway).1, rival⟩
  · rename_i id inst inserts
    simp only [inserts] at underway
    split
    · rename_i same
      rw [if_pos same] at underway
      unfold Starters.enter at underway ⊢
      split
      · rename_i member
        rwa [if_pos member] at underway
      · exact rival
    · exact rival
  · exact rival

theorem next_entered (entered : b ∈ (s.next appId e).entered) :
    b ∈ s.entered ∨ e.actor = b ∧ ∃ inst, e.op = .streamsInsert appId inst := by
  unfold Starters.next at entered
  split at entered
  · split at entered
    · exact .inl (mem_leave.2.1.mp (mem_join.2.mp entered)).2
    · exact .inl (mem_leave.2.1.mp entered).2
  · exact .inl (mem_leave.2.1.mp entered).2
  · exact .inl (mem_leave.2.1.mp entered).2
  · rename_i id inst inserts
    split at entered
    · rename_i same
      subst same
      exact (mem_enter.2.mp entered).imp_right fun own => ⟨own.1.symm, inst, inserts⟩
    · exact .inl entered
  · exact .inl entered

/-- Rivals come of rivals, but where an instance is put in. -/
theorem next_rivals_from (ranked : s.Ranked) (other : ∀ inst, e.op ≠ .streamsInsert appId inst)
    (rival : b ∈ (s.next appId e).rivals) : ∃ x, x ∈ s.rivals := by
  unfold Starters.next at rival
  split at rival
  · split at rival
    · unfold Starters.join at rival
      split at rival
      · exact ⟨b, (mem_leave.2.2.mp rival).2⟩
      · rename_i some
        obtain ⟨x, entered⟩ := Finset.nonempty_iff_ne_empty.mpr some
        exact ⟨x, ranked.entered (mem_leave.2.1.mp entered).2⟩
    · exact ⟨b, (mem_leave.2.2.mp rival).2⟩
  · exact ⟨b, (mem_leave.2.2.mp rival).2⟩
  · exact ⟨b, (mem_leave.2.2.mp rival).2⟩
  · rename_i id inst inserts
    split at rival
    · rename_i same
      exact absurd (same ▸ inserts) (other inst)
    · exact ⟨b, rival⟩
  · exact ⟨b, rival⟩

end starters

/-- No instance of the app has been put into the map since the task's last membership check. -/
def unchanged (a : Actor) (appId : String) : List (Event Host Actor) → Bool
  | [] => true
  | e :: history =>
    match e.op with
    | .streamsContains _ => e.actor = a || unchanged a appId history
    | .streamsInsert id _ => id ≠ appId && unchanged a appId history
    | _ => unchanged a appId history

/-- The step cancels no call, and no other start has put an instance of the app into the map
since the membership check of the start that does. -/
def orderly (c : Config Host Actor World) (l : Label manager) : Bool :=
  match l with
  | .drop _ => false
  | .act ⟨a, .streamsInsert appId _, _⟩ => unchanged a appId c.history
  | _ => true

/-- What is taken out of the map is not taken from under a start of that app in progress that
overlaps one that has put its instance in. -/
def unhurried (c : Config Host Actor World) (l : Label manager) : Bool :=
  match l with
  | .act ⟨_, .streamsRemove appId, found⟩ => (found : Option StreamInstance).isNone || (starters appId c.history).rivals = ∅
  | _ => true

section runs
variable {registry : File} {c c' : Config Host Actor World} {l : Label manager} {a b : Actor} {appId : String}

/-- A start that has found no instance finds none later, as long as none is put in. -/
def Looked (c : Config Host Actor World) : Prop :=
  ∀ a appId, entryOf a c.history = ⟨some appId, true, false⟩ → unchanged a appId c.history = true → appId ∉ c.world.streams

theorem entryOf_own {op : Op} {r : op.Ret} {history : List (Event Host Actor)} :
    entryOf a (⟨a, op, r⟩ :: history) = entering.next (entryOf a history) op r := Protocol.state_own ..

theorem entryOf_other {op : Op} {r : op.Ret} {history : List (Event Host Actor)} (other : b ≠ a) :
    entryOf a (⟨b, op, r⟩ :: history) = entryOf a history := Protocol.state_other _ _ _ other _

theorem World.may_streamsContains {w : World} {known : Bool} (may : w.may a (.streamsContains appId) known = true)
    (absent : (!known) = true) : appId ∉ w.streams := by
  obtain ⟨_, answer⟩ := Bool.and_eq_true_iff.mp may
  have same : known = decide (appId ∈ w.streams) := of_decide_eq_true answer
  exact of_decide_eq_false (same.symm.trans (by simpa using absent))

theorem World.mem_remove {w : World} {id : String} {found : Option StreamInstance}
    (present : appId ∈ (w.after b (.streamsRemove id) found).streams) : appId ∈ w.streams :=
  (Finmap.mem_erase.mp present).2

theorem Looked.step (looked : Looked c) (conforms : ∀ a, c.Conforms entering .idle (fun _ => True) a)
    (step : Step manager c l c') : Looked c' := by
  cases step with
  | @act b op next r at_work may =>
    intro a appId found kept
    have allows : entering.allows (entryOf b c.history) op := ((conforms b).running at_work).1
    show appId ∉ (c.world.after b op r).streams
    by_cases own : b = a
    · subst own
      rw [entryOf_own] at found
      cases op with
      | note n =>
        cases n with
        | invoked call => cases call <;> cases found
        | returned call ok => cases found
        | _ => exact looked b appId found kept
      | streamsContains id =>
        have fresh : entryOf b c.history = ⟨some id, false, false⟩ := allows
        simp only [entering, fresh, Entry.mk.injEq, Option.some.injEq, and_true] at found
        obtain ⟨rfl, absent⟩ := found
        exact World.may_streamsContains may absent
      | streamsInsert id inst =>
        have ready : entryOf b c.history = ⟨some id, true, false⟩ := allows
        simp [entering, ready] at found
      | streamsRemove id => exact fun present => looked b appId found kept (World.mem_remove present)
      | spawn _ _ _ | registryWriteTmp _ | registryRename => cases r <;> exact looked b appId found kept
      | _ => exact looked b appId found kept
    · rw [entryOf_other own] at found
      cases op with
      | streamsContains id =>
        simp only [unchanged, own, decide_false, Bool.false_or] at kept
        exact looked a appId found kept
      | streamsInsert id inst =>
        obtain ⟨apart, kept⟩ := Bool.and_eq_true_iff.mp kept
        intro present
        rcases Finmap.mem_insert.mp present with same | present
        · exact of_decide_eq_true apart same.symm
        · exact looked a appId found kept present
      | streamsRemove id => exact fun present => looked a appId found kept (World.mem_remove present)
      | spawn _ _ _ | registryWriteTmp _ | registryRename => cases r <;> exact looked a appId found kept
      | _ => exact looked a appId found kept
  | env moved =>
    obtain ⟨exited, rfl⟩ := World.change_eq moved
    exact looked
  | _ => exact looked

theorem reach_looked {ok : Config Host Actor World → Label manager → Prop}
    (reach : Reach manager ok (.idle (.fresh registry)) c) : Looked c := by
  induction reach with
  | start => exact fun _ _ wrong => nomatch wrong
  | next before step _ ih => exact ih.step (reach_entering before) step

/-- What an orderly start puts into the map is new to it. -/
theorem orderly_absent {ok : Config Host Actor World → Label manager → Prop} {inst : StreamInstance} {r : Unit}
    (reach : Reach manager ok (.idle (.fresh registry)) c)
    (step : Step manager c (.act ⟨a, .streamsInsert appId inst, r⟩) c')
    (kept : orderly c (.act ⟨a, .streamsInsert appId inst, r⟩) = true) : appId ∉ c.world.streams :=
  reach_looked reach a appId ((reach_entering reach a).allows step) kept

/-- The task has entered no call in these events. -/
def Stays (b : Actor) (events : List (Event Host Actor)) : Prop :=
  ∀ e ∈ events, e.actor = b → ∀ call, e.op ≠ .note (.invoked call)

/-- Another task's start of the app has returned Ok since this one entered its call. -/
def Behind (appId : String) (b : Actor) (history : List (Event Host Actor)) : Prop :=
  ∃ y z a cfg, history = y ++ ⟨a, .note (.returned (.start cfg) true), ()⟩ :: z ∧ a ≠ b ∧ cfg.appId = appId ∧ Stays b y

/-- Two overlapping starts of the app have both succeeded: one returned Ok while the other was
in progress, and so did the other in that call. -/
def BothSucceed (appId : String) (history : List (Event Host Actor)) : Prop :=
  ∃ x b cfg earlier, history = x ++ ⟨b, .note (.returned (.start cfg) true), ()⟩ :: earlier ∧ cfg.appId = appId ∧
    Behind appId b earlier

theorem behind_cons {e : Event Host Actor} {history : List (Event Host Actor)} (behind : Behind appId b (e :: history)) :
    (∃ a cfg, e = ⟨a, .note (.returned (.start cfg) true), ()⟩ ∧ a ≠ b ∧ cfg.appId = appId) ∨
      (∀ call, e.actor = b → e.op ≠ .note (.invoked call)) ∧ Behind appId b history := by
  obtain ⟨y, z, a, cfg, split, other, same, stays⟩ := behind
  cases y with
  | nil => exact .inl ⟨a, cfg, (List.cons.inj split).1, other, same⟩
  | cons e' y =>
    obtain ⟨rfl, rest⟩ := List.cons.inj split
    obtain ⟨first, later⟩ := List.forall_mem_cons.mp stays
    exact .inr ⟨fun call own => first own call, y, z, a, cfg, rest, other, same, later⟩

theorem bothSucceed_cons {e : Event Host Actor} {history : List (Event Host Actor)} (both : BothSucceed appId (e :: history)) :
    (∃ b cfg, e = ⟨b, .note (.returned (.start cfg) true), ()⟩ ∧ cfg.appId = appId ∧ Behind appId b history) ∨
      BothSucceed appId history := by
  obtain ⟨x, b, cfg, earlier, split, same, behind⟩ := both
  cases x with
  | nil =>
    obtain ⟨rfl, rfl⟩ := List.cons.inj split
    exact .inl ⟨b, cfg, rfl, same, behind⟩
  | cons e' x => exact .inr ⟨x, b, cfg, earlier, (List.cons.inj split).2, same, behind⟩

/-- While there are rivals an instance is in the map, one of them at most has put it there, and
who is behind another is a rival that has not. -/
structure Fair (appId : String) (c : Config Host Actor World) : Prop where
  present : ∀ b ∈ (starters appId c.history).rivals, appId ∈ c.world.streams
  single : ∀ a ∈ (starters appId c.history).entered, ∀ b ∈ (starters appId c.history).entered, a = b
  behind : ∀ b, Behind appId b c.history → b ∈ (starters appId c.history).underway →
    b ∈ (starters appId c.history).rivals ∧ b ∉ (starters appId c.history).entered
  apart : ¬ BothSucceed appId c.history

theorem Fair.start : Fair appId (.idle (.fresh registry)) where
  present b rival := absurd rival (Finset.notMem_empty b)
  single a entered := absurd entered (Finset.notMem_empty a)
  behind b behind := by
    obtain ⟨y, z, a, cfg, split, -⟩ := behind
    exact absurd split.symm (by simp [Config.idle])
  apart both := by
    obtain ⟨x, b, cfg, earlier, split, -⟩ := both
    exact absurd split.symm (by simp [Config.idle])

section act
variable {op : Op} {r : op.Ret} {running : Actor → Option (Task Unit)}

theorem Fair.present_act (fair : Fair appId c) (may : c.world.may a op r = true)
    (kept : unhurried c (.act ⟨a, op, r⟩) = true) :
    ∀ b ∈ (starters appId (⟨a, op, r⟩ :: c.history)).rivals, appId ∈ (c.world.after a op r).streams := by
  intro b rival
  by_cases inserts : ∃ inst, op = .streamsInsert appId inst
  · obtain ⟨inst, rfl⟩ := inserts
    exact Finmap.mem_insert.mpr (.inl rfl)
  obtain ⟨x, before⟩ := next_rivals_from (starters_ranked appId c.history) (fun inst insert => inserts ⟨inst, insert⟩) rival
  have present := fair.present x before
  cases op with
  | streamsInsert id inst => exact Finmap.mem_insert.mpr (.inr present)
  | streamsRemove id =>
    refine Finmap.mem_erase.mpr ⟨fun same => ?_, present⟩
    subst same
    obtain ⟨_, found⟩ := World.may_streamsRemove may
    rcases Bool.or_eq_true_iff.mp kept with none | idle
    · rw [found, Option.isNone_iff_eq_none, Finmap.lookup_eq_none] at none
      exact none present
    · rw [of_decide_eq_true idle] at before
      exact Finset.notMem_empty x before
  | spawn _ _ _ | registryWriteTmp _ | registryRename => cases r <;> exact present
  | _ => exact present

theorem Fair.single_act (fair : Fair appId c) (absent : ∀ inst, op = .streamsInsert appId inst → appId ∉ c.world.streams) :
    ∀ x ∈ (starters appId (⟨a, op, r⟩ :: c.history)).entered, ∀ y ∈ (starters appId (⟨a, op, r⟩ :: c.history)).entered,
      x = y := by
  have ranked := starters_ranked appId c.history
  intro x enteredX y enteredY
  rcases next_entered enteredX with oldX | ⟨rfl, inst, inserts⟩
  · rcases next_entered enteredY with oldY | ⟨rfl, inst, inserts⟩
    · exact fair.single x oldX y oldY
    · exact absurd (fair.present x (ranked.entered oldX)) (absent inst inserts)
  · rcases next_entered enteredY with oldY | ⟨own, -⟩
    · exact absurd (fair.present y (ranked.entered oldY)) (absent inst inserts)
    · exact own

theorem Fair.behind_act (fair : Fair appId c) (allows : entering.allows (entryOf a c.history) op)
    (absent : ∀ inst, op = .streamsInsert appId inst → appId ∉ c.world.streams) :
    ∀ b, Behind appId b (⟨a, op, r⟩ :: c.history) → b ∈ (starters appId (⟨a, op, r⟩ :: c.history)).underway →
      b ∈ (starters appId (⟨a, op, r⟩ :: c.history)).rivals ∧ b ∉ (starters appId (⟨a, op, r⟩ :: c.history)).entered := by
  intro b behind underway
  have ranked := starters_ranked appId c.history
  rcases behind_cons behind with ⟨a', cfg, returns, other, same⟩ | ⟨still, before⟩
  · cases returns
    have entry : entryOf a c.history = ⟨some cfg.appId, true, true⟩ := allows
    have entered : a ∈ (starters appId c.history).entered := by
      rw [mem_starters.2, entry, same]
      exact ⟨rfl, rfl⟩
    have was := (mem_leave.1.mp underway).2
    have rival := ranked.all (Finset.ne_empty_of_mem entered) was
    refine ⟨mem_leave.2.2.mpr ⟨Ne.symm other, rival⟩, fun late => ?_⟩
    exact other (fair.single a entered b (mem_leave.2.1.mp late).2)
  · have was := next_underway still underway
    obtain ⟨rival, out⟩ := fair.behind b before was
    refine ⟨next_rivals still rival underway, fun entered => ?_⟩
    rcases next_entered entered with entered | ⟨-, inst, inserts⟩
    · exact out entered
    · exact absent inst inserts (fair.present b rival)

theorem Fair.apart_act (fair : Fair appId c) (allows : entering.allows (entryOf a c.history) op) :
    ¬ BothSucceed appId (⟨a, op, r⟩ :: c.history) := by
  intro both
  rcases bothSucceed_cons both with ⟨b, cfg, returns, same, behind⟩ | both
  · cases returns
    have entry : entryOf a c.history = ⟨some cfg.appId, true, true⟩ := allows
    have underway : a ∈ (starters appId c.history).underway := by
      rw [mem_starters.1, entry, same]
    refine (fair.behind a behind underway).2 ?_
    rw [mem_starters.2, entry, same]
    exact ⟨rfl, rfl⟩
  · exact fair.apart both

end act

/-- In a run of orderly and unhurried steps two overlapping starts of an app never both succeed. -/
theorem reach_fair (reach : Reach manager (fun c l => orderly c l = true ∧ unhurried c l = true) (.idle (.fresh registry)) c) :
    Fair appId c := by
  induction reach with
  | start => exact .start
  | @next c l c' before step kept ih =>
    have looked := reach_looked before
    have conforms := reach_entering before
    cases step with
    | @act a op next r at_work may =>
      have allows : entering.allows (entryOf a c.history) op := ((conforms a).running at_work).1
      have absent (inst : StreamInstance) (inserts : op = .streamsInsert appId inst) : appId ∉ c.world.streams := by
        subst inserts
        exact looked a appId allows kept.1
      exact ⟨ih.present_act may kept.2, ih.single_act absent, ih.behind_act allows absent, ih.apart_act allows⟩
    | env moved =>
      obtain ⟨exited, rfl⟩ := World.change_eq moved
      exact ⟨ih.present, ih.single, ih.behind, ih.apart⟩
    | _ => exact ⟨ih.present, ih.single, ih.behind, ih.apart⟩

end runs

end Bsdos.Streams
