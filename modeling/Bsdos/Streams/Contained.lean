import Bsdos.Files.Walk
import Bsdos.Streams.Control
import Bsdos.Streams.Served
import Bsdos.Streams.Stopped

namespace Bsdos.Streams
open Effects
open Files hiding Child

/-- The directory of all stream directories. -/
def streamsDir : Place := ["tmp", "bsdos", "streams"]

/-- Where the directory of an app is. -/
def rundirPlace (appId : String) : Place := resolve [] (rundirFor appId)

/-- The call of the manager that a task has entered last. -/
def callOf (a : Actor) : List (Event Host Actor) → Option Call
  | [] => none
  | e :: history =>
    match e.op with
    | .note (.invoked call) => if e.actor = a then some call else callOf a history
    | _ => callOf a history

/-- The app ids that have reached `start_stream`. -/
def started (history : List (Event Host Actor)) : List String :=
  history.filterMap fun e =>
    match e.op with
    | .note (.invoked (.start cfg)) => some cfg.appId
    | _ => none

/-- The path that is created, opened to all or removed with all it holds. -/
def Op.touched : Op → Option String
  | .createDirAll path | .setPermissions path _ | .removeDirAll path => some path
  | _ => none

/-- Every directory is right inside that of all streams, no active one contains another, and
what a call touches is in the directory of its own app. -/
structure Contained (c : Config Host Actor World) : Prop where
  child : ∀ appId ∈ started c.history, Files.Child streamsDir (rundirPlace appId)
  apart : ∀ appId ∈ c.world.streams, ∀ other ∈ c.world.streams, appId ≠ other →
    Apart (rundirPlace appId) (rundirPlace other)
  own : ∀ e earlier, e :: earlier <:+ c.history → ∀ path, e.op.touched = some path →
    ∃ call, callOf e.actor earlier = some call ∧ Files.Child streamsDir (rundirPlace call.appId) ∧
      rundirPlace call.appId <+: resolve [] path

/-- Every app id leads to one name in the directory of all streams, and no two active ones
to the same. -/
structure Named (c : Config Host Actor World) : Prop where
  names : ∀ appId ∈ started c.history, ∃ name, Leads streamsDir appId name
  differ : ∀ appId ∈ c.world.streams, ∀ other ∈ c.world.streams, appId ≠ other →
    ∀ name, Leads streamsDir appId name → ¬ Leads streamsDir other name

theorem rundirPlace_eq (appId : String) : rundirPlace appId = (walk appId).from streamsDir := by
  have below : rundirFor appId = "/tmp/bsdos/streams" ++ "/" ++ appId :=
    congrArg (· ++ appId) (by decide : "/tmp/bsdos/streams/" = "/tmp/bsdos/streams" ++ "/")
  have base : resolve [] "/tmp/bsdos/streams" = streamsDir := by decide +kernel
  unfold rundirPlace
  rw [below, resolve_below (by decide), base]

theorem rundirPlace_child_iff {appId : String} :
    Files.Child streamsDir (rundirPlace appId) ↔ ∃ name, Leads streamsDir appId name := by
  rw [rundirPlace_eq, child_from_iff]

/-- What is joined to a directory is inside it, if it is a plain name. -/
theorem rundirPlace_socket (appId : String) : rundirPlace appId <+: resolve [] (rundirFor appId ++ "/wayland-0") := by
  have filled : rundirFor appId ≠ "" := by
    intro empty
    unfold rundirFor at empty
    exact absurd (String.append_eq_empty_iff.mp empty).1 (by decide)
  have socket : walk "wayland-0" = ⟨0, ["wayland-0"]⟩ := by decide +kernel
  have joined : rundirFor appId ++ "/wayland-0" = rundirFor appId ++ "/" ++ "wayland-0" :=
    (congrArg (rundirFor appId ++ ·) (by decide : "/wayland-0" = "/" ++ "wayland-0")).trans String.append_assoc.symm
  rw [joined, resolve_below filled, socket]
  simp only [Walk.from, Nat.sub_zero, List.take_length]
  exact List.prefix_append ..

/-- What a task has in hand: the call it is in, and the directory of the instance that it has
taken out of the map. -/
structure Hold where
  call : Option Call
  taken : Option String

/-- A task touches directories in its calls only: those of the app it starts, and that of the
instance it has taken out to stop. -/
def hold : Protocol Host Hold where
  next γ
    | .note (.invoked call), _ => ⟨some call, none⟩
    | .streamsRemove _, some inst => { γ with taken := some inst.rundir }
    | _, _ => γ
  allows γ
    | .createDirAll path => ∃ cfg, γ.call = some (.start cfg) ∧ path = rundirFor cfg.appId
    | .setPermissions path _ => ∃ cfg, γ.call = some (.start cfg) ∧
        (path = rundirFor cfg.appId ∨ path = rundirFor cfg.appId ++ "/wayland-0")
    | .streamsInsert appId inst => ∃ cfg, γ.call = some (.start cfg) ∧ appId = cfg.appId ∧ inst.rundir = rundirFor appId
    | .streamsRemove appId => γ.call = some (.stop appId)
    | .removeDirAll path => γ.taken = some path
    | _ => True

section follows
variable {γ : Hold}

theorem hold_aside (γ : Hold) (op : Op) (aside : op.Aside) : hold.allows γ op := by
  cases op with
  | note n =>
    cases n with
    | died _ | restarting _ => trivial
    | _ => exact aside.elim
  | lock | unlock | streamsEntries | tryWait _ | status _ _ | interval _ | sleep _ | registryLoad => trivial
  | _ => exact aside.elim

/-- The calls of a start past its entry. -/
def Op.Houses (cfg : StreamConfig) : Op → Prop
  | .createDirAll path => path = rundirFor cfg.appId
  | .setPermissions path _ => path = rundirFor cfg.appId ∨ path = rundirFor cfg.appId ++ "/wayland-0"
  | .streamsInsert appId inst => appId = cfg.appId ∧ inst.rundir = rundirFor appId
  | .note _ | .streamsRemove _ | .removeDirAll _ => False
  | _ => True

theorem startBody_houses (cfg : StreamConfig) : (startBody cfg).run.Only (Op.Houses cfg) := by
  have records : (addToRegistry cfg).run.Only (Op.Houses cfg) :=
    addToRegistry_only trivial trivial (fun _ => trivial) trivial cfg
  have brings : (spawnProcesses cfg (rundirFor cfg.appId)).run.Only (Op.Houses cfg) :=
    spawnProcesses_calls cfg _ rfl (.inl rfl) (.inr rfl) (fun _ _ => trivial) (fun _ => trivial) trivial
      (fun _ => trivial) fun _ => trivial
  rw [startBody_run, checkMembership_run]
  refine ⟨trivial, fun _ => ⟨trivial, fun known => ⟨trivial, fun _ => ?_⟩⟩⟩
  cases known with
  | true => trivial
  | false =>
    refine brings.bind fun r => ?_
    cases r with
    | error e => trivial
    | ok procs =>
      refine ⟨trivial, fun _ => ⟨trivial, fun _ => ⟨trivial, fun _ => ⟨trivial, fun _ => ⟨⟨rfl, rfl⟩, fun _ => ?_⟩⟩⟩⟩⟩
      have unlocks : unlock.Only (Op.Houses cfg) := ⟨trivial, fun _ => trivial⟩
      exact (records.bind fun _ => unlocks).bind fun _ => trivial

theorem startStream_hold (cfg : StreamConfig) : (startStream cfg).run.Follows hold (fun _ _ => True) γ := by
  unfold startStream
  rw [recorded_run]
  refine ⟨trivial, fun _ => ?_⟩
  have body : (startBody cfg).run.Follows hold (fun _ γ' => γ'.call = some (.start cfg)) ⟨some (.start cfg), none⟩ := by
    refine (startBody_houses cfg).keeps (fun γ' op houses call => ?_) rfl
    cases op with
    | createDirAll path => exact ⟨⟨cfg, call, houses⟩, fun _ => call⟩
    | setPermissions path _ => exact ⟨⟨cfg, call, houses⟩, fun _ => call⟩
    | streamsInsert appId inst => exact ⟨⟨cfg, call, houses⟩, fun _ => call⟩
    | note _ | streamsRemove _ | removeDirAll _ => exact houses.elim
    | _ => exact ⟨trivial, fun _ => call⟩
  exact body.bind fun r γ' _ => ⟨trivial, fun _ => trivial⟩

/-- The calls of a stop with an instance in hand. -/
def Op.Empties (rundir : String) : Op → Prop
  | .removeDirAll path => path = rundir
  | .kill _ | .wait _ | .status _ _ | .abort _ | .registryLoad | .registryMkdir | .registryWriteTmp _
  | .registryRename => True
  | _ => False

theorem stopStream_hold (appId : String) : (stopStream appId).run.Follows hold (fun _ _ => True) γ := by
  unfold stopStream
  rw [recorded_run]
  refine ⟨trivial, fun _ => ?_⟩
  refine Prog.Follows.bind (M := fun _ _ => True) ?_ fun r γ' _ => ⟨trivial, fun _ => trivial⟩
  rw [stopBody_run]
  refine ⟨trivial, fun _ => ⟨rfl, fun found => ⟨trivial, fun _ => ?_⟩⟩⟩
  cases found with
  | none => trivial
  | some inst =>
    have torn : (tearDown inst).Only (Op.Empties inst.rundir) :=
      tearDown_calls inst (fun _ => trivial) (fun _ => trivial) (fun _ _ => trivial) (fun _ => trivial) rfl
    have removed : (removeFromRegistry appId).run.Only (Op.Empties inst.rundir) :=
      removeFromRegistry_only trivial trivial (fun _ => trivial) trivial appId
    have ended : (.ret (.ok ()) : Task (Except StreamError Unit)).Only (Op.Empties inst.rundir) := trivial
    have emptied := torn.bind fun _ => removed.bind fun _ => ended
    refine Prog.Follows.mono (emptied.keeps (I := fun γ' => γ'.taken = some inst.rundir) (fun γ' op empties taken => ?_) rfl)
      fun _ _ _ => trivial
    cases op with
    | removeDirAll path => exact ⟨empties ▸ taken, fun _ => taken⟩
    | kill _ | wait _ | status _ _ | abort _ | registryLoad | registryMkdir | registryWriteTmp _ | registryRename =>
      exact ⟨trivial, fun _ => taken⟩
    | _ => exact empties.elim

theorem serve_hold {a : Actor} {request : Request} {program : Task Unit} (served : serve a request = some program) :
    program.Follows hold (fun _ _ => True) γ :=
  serve_follows (fun γ op aside _ => ⟨hold_aside γ op aside, fun _ => trivial⟩) (fun cfg _ _ => startStream_hold cfg)
    (fun appId _ _ => stopStream_hold appId) served trivial

end follows

def holdOf (c : Config Host Actor World) (a : Actor) : Hold := hold.state ⟨none, none⟩ a c.history

theorem reach_hold {registry : File} {ok : Config Host Actor World → Label manager → Prop} {c : Config Host Actor World}
    (reach : Reach manager ok (.idle (.fresh registry)) c) (a : Actor) :
    c.Conforms hold ⟨none, none⟩ (fun _ => True) a :=
  reach.conforms trivial (fun _ _ served _ _ => serve_hold served) fun _ _ _ _ _ => trivial

theorem mem_started_cons {history : List (Event Host Actor)} {e : Event Host Actor} {appId : String}
    (member : appId ∈ started history) : appId ∈ started (e :: history) := by
  obtain ⟨e', earlier, named⟩ := List.mem_filterMap.mp member
  exact List.mem_filterMap.mpr ⟨e', List.mem_cons_of_mem e earlier, named⟩

theorem callOf_started {a : Actor} {history : List (Event Host Actor)} {cfg : StreamConfig}
    (entered : callOf a history = some (.start cfg)) : cfg.appId ∈ started history := by
  induction history with
  | nil => cases entered
  | cons e history ih =>
    unfold callOf at entered
    split at entered
    · rename_i call invoked
      split at entered
      · cases Option.some.inj entered
        exact List.mem_filterMap.mpr ⟨e, List.mem_cons_self .., by rw [invoked]⟩
      · exact mem_started_cons (ih entered)
    · exact mem_started_cons (ih entered)

theorem holdOf_call (a : Actor) (history : List (Event Host Actor)) :
    (hold.state ⟨none, none⟩ a history).call = callOf a history := by
  induction history with
  | nil => rfl
  | cons e history ih =>
    obtain ⟨b, op, r⟩ := e
    by_cases same : b = a
    · subst same
      rw [Protocol.state_own]
      cases op with
      | note n =>
        cases n with
        | invoked call => exact (if_pos rfl).symm
        | _ => exact ih
      | streamsRemove appId => cases r <;> exact ih
      | _ => exact ih
    · rw [Protocol.state_other _ _ _ same, ih]
      cases op with
      | note n =>
        cases n with
        | invoked call => exact (if_neg same).symm
        | _ => rfl
      | _ => rfl

/-- What is known of the directories in every run: those in the map are the ones of their
apps, and so is the one that a stop has in hand. -/
structure Housed (c : Config Host Actor World) : Prop where
  map : ∀ appId inst, c.world.streams.lookup appId = some inst → inst.rundir = rundirFor appId ∧ appId ∈ started c.history
  taken : ∀ a path, (holdOf c a).taken = some path →
    ∃ appId, callOf a c.history = some (.stop appId) ∧ path = rundirFor appId ∧ appId ∈ started c.history
  own : ∀ e earlier, e :: earlier <:+ c.history → ∀ path, e.op.touched = some path →
    ∃ call, callOf e.actor earlier = some call ∧ call.appId ∈ started c.history ∧
      rundirPlace call.appId <+: resolve [] path

section step
variable {c c' : Config Host Actor World} {a : Actor} {op : Op} {r : op.Ret}

theorem Housed.map_step (housed : Housed c) (allows : hold.allows (holdOf c a) op) :
    ∀ appId inst, (c.world.after a op r).streams.lookup appId = some inst →
      inst.rundir = rundirFor appId ∧ appId ∈ started (⟨a, op, r⟩ :: c.history) := by
  intro appId inst known
  have old (known : c.world.streams.lookup appId = some inst) :
      inst.rundir = rundirFor appId ∧ appId ∈ started (⟨a, op, r⟩ :: c.history) :=
    (housed.map appId inst known).imp id mem_started_cons
  cases op with
  | streamsInsert id inst' =>
    obtain ⟨cfg, call, rfl, rundir⟩ := allows
    by_cases same : appId = cfg.appId
    · subst same
      have new : inst' = inst := Option.some.inj ((Finmap.lookup_insert _).symm.trans known)
      rw [holdOf, holdOf_call] at call
      exact ⟨new ▸ rundir, mem_started_cons (callOf_started call)⟩
    · exact old ((Finmap.lookup_insert_of_ne _ same).symm.trans known)
  | streamsRemove id =>
    by_cases same : appId = id
    · subst same
      cases (Finmap.lookup_erase appId _).symm.trans known
    · exact old ((Finmap.lookup_erase_ne same).symm.trans known)
  | spawn _ _ _ | registryWriteTmp _ | registryRename => cases r <;> exact old known
  | _ => exact old known

/-- What a task has taken out is the directory of the app that it stops. -/
theorem Housed.taken_step (housed : Housed c) (allows : hold.allows (holdOf c a) op) (may : c.world.may a op r = true) :
    ∀ path, (hold.next (holdOf c a) op r).taken = some path →
      ∃ appId, (hold.next (holdOf c a) op r).call = some (.stop appId) ∧ path = rundirFor appId ∧
        appId ∈ started (⟨a, op, r⟩ :: c.history) := by
  intro path taken
  have old (taken : (holdOf c a).taken = some path) : ∃ appId, (holdOf c a).call = some (.stop appId) ∧
      path = rundirFor appId ∧ appId ∈ started (⟨a, op, r⟩ :: c.history) := by
    obtain ⟨appId, call, own, begun⟩ := housed.taken a path taken
    exact ⟨appId, (holdOf_call a c.history).trans call, own, mem_started_cons begun⟩
  cases op with
  | note n =>
    cases n with
    | invoked call => cases taken
    | _ => exact old taken
  | streamsRemove appId =>
    cases r with
    | none => exact old taken
    | some inst =>
      obtain ⟨_, known⟩ := World.may_streamsRemove may
      obtain ⟨rundir, begun⟩ := housed.map appId inst known.symm
      exact ⟨appId, allows, (Option.some.inj taken).symm.trans rundir, mem_started_cons begun⟩
  | _ => exact old taken

/-- What a call touches is in the directory of the app that its task starts or stops. -/
theorem Housed.own_step (housed : Housed c) (allows : hold.allows (holdOf c a) op) :
    ∀ path, op.touched = some path → ∃ call, callOf a c.history = some call ∧
      call.appId ∈ started (⟨a, op, r⟩ :: c.history) ∧ rundirPlace call.appId <+: resolve [] path := by
  intro path touched
  have starting {cfg : StreamConfig} (call : (holdOf c a).call = some (.start cfg))
      (inside : rundirPlace cfg.appId <+: resolve [] path) : ∃ call, callOf a c.history = some call ∧
        call.appId ∈ started (⟨a, op, r⟩ :: c.history) ∧ rundirPlace call.appId <+: resolve [] path := by
    rw [holdOf, holdOf_call] at call
    exact ⟨.start cfg, call, mem_started_cons (callOf_started call), inside⟩
  cases op with
  | createDirAll path' =>
    cases touched
    obtain ⟨cfg, call, rfl⟩ := allows
    exact starting call (List.prefix_refl _)
  | setPermissions path' mode =>
    cases touched
    obtain ⟨cfg, call, rfl | rfl⟩ := allows
    · exact starting call (List.prefix_refl _)
    · exact starting call (rundirPlace_socket _)
  | removeDirAll path' =>
    cases touched
    obtain ⟨appId, call, rfl, begun⟩ := housed.taken a _ allows
    exact ⟨.stop appId, call, mem_started_cons begun, List.prefix_refl _⟩
  | _ => cases touched

end step

theorem reach_housed {registry : File} {ok : Config Host Actor World → Label manager → Prop} {c : Config Host Actor World}
    (reach : Reach manager ok (.idle (.fresh registry)) c) : Housed c := by
  induction reach with
  | start =>
    refine ⟨fun appId inst known => ?_, fun a path taken => (nomatch taken), fun e earlier suffix => ?_⟩
    · cases (Finmap.lookup_empty appId).symm.trans known
    · exact absurd (List.suffix_nil.mp suffix) (List.cons_ne_nil _ _)
  | @next c l c' reach step admitted housed =>
    cases step with
    | begin _ _ | finish _ | drop _ _ => exact ⟨housed.map, housed.taken, housed.own⟩
    | env moved =>
      obtain ⟨exited, rfl⟩ := World.change_eq moved
      exact ⟨housed.map, housed.taken, housed.own⟩
    | @act a op next r at_work may =>
      have allows : hold.allows (holdOf c a) op := ((reach_hold reach a).running at_work).1
      refine ⟨housed.map_step allows, fun b path taken => ?_, fun e earlier suffix path touched => ?_⟩
      · by_cases same : b = a
        · subst same
          rw [holdOf, Protocol.state_own] at taken
          obtain ⟨appId, call, own, begun⟩ := housed.taken_step allows may path taken
          refine ⟨appId, ?_, own, begun⟩
          rw [← holdOf_call, Protocol.state_own]
          exact call
        · rw [holdOf, Protocol.state_other _ _ _ (Ne.symm same)] at taken
          obtain ⟨appId, call, own, begun⟩ := housed.taken b path taken
          refine ⟨appId, ?_, own, mem_started_cons begun⟩
          rw [← holdOf_call, Protocol.state_other _ _ _ (Ne.symm same), holdOf_call]
          exact call
      · rcases List.suffix_cons_iff.mp suffix with new | old
        · cases new
          exact housed.own_step allows path touched
        · obtain ⟨call, entered, begun, inside⟩ := housed.own e earlier old path touched
          exact ⟨call, entered, mem_started_cons begun, inside⟩

/-- In every run the directories are contained exactly as long as every app id leads to one
name in the directory of all streams, and no two active ones to the same. -/
theorem rundirs_contained_iff {registry : File} {c : Config Host Actor World}
    (reach : Reach manager (anyStep manager) (.idle (.fresh registry)) c) : Contained c ↔ Named c := by
  have housed := reach_housed reach
  have active {appId : String} (member : appId ∈ c.world.streams) : appId ∈ started c.history := by
    obtain ⟨inst, known⟩ := Finmap.mem_iff.mp member
    exact (housed.map appId inst known).2
  have place {appId name : String} (leads : Leads streamsDir appId name) : rundirPlace appId = streamsDir ++ [name] :=
    (rundirPlace_eq appId).trans leads.from
  constructor
  · intro contained
    refine ⟨fun appId begun => rundirPlace_child_iff.mp (contained.child appId begun), ?_⟩
    intro appId member other member' differ name leads leads'
    have apart := contained.apart appId member other member' differ
    rw [place leads, place leads', apart_child_iff] at apart
    exact apart rfl
  · intro named
    refine ⟨fun appId begun => rundirPlace_child_iff.mpr (named.names appId begun), ?_, ?_⟩
    · intro appId member other member' differ
      obtain ⟨name, leads⟩ := named.names appId (active member)
      obtain ⟨name', leads'⟩ := named.names other (active member')
      rw [place leads, place leads', apart_child_iff]
      rintro rfl
      exact named.differ appId member other member' differ name leads leads'
    · intro e earlier suffix path touched
      obtain ⟨call, entered, begun, inside⟩ := housed.own e earlier suffix path touched
      exact ⟨call, entered, rundirPlace_child_iff.mpr (named.names call.appId begun), inside⟩

/-- A second stream of foot. -/
def footSecond : StreamConfig := { foot with appId := "appSecond" }

/-- Both are started. -/
def feetStarted : List (Label manager) :=
  serving manager .ctl (.start foot) (checking foot false ++ spawning foot 0 ++ registering foot 0 0 []) ++
    serving manager .ctl (.start footSecond) (checking footSecond false ++ spawning footSecond 3 ++ registering footSecond 3 3 [foot])

theorem rundirs_contained_feet : ∃ c : Config Host Actor World,
    foot.appId ∈ c.world.streams ∧ footSecond.appId ∈ c.world.streams ∧ Contained c := by
  obtain ⟨c, reach, checked⟩ := replay_check (fun _ _ => true) (fun _ _ _ => trivial) (Config.idle (.fresh .missing))
    feetStarted (fun c => foot.appId ∈ c.world.streams ∧ footSecond.appId ∈ c.world.streams ∧
      ∀ appId ∈ started c.history, appId ∈ ["appBrowser", "appSecond"]) (by decide)
  obtain ⟨first, second, ids⟩ := of_decide_eq_true checked
  have plain (appId : String) (begun : appId ∈ started c.history) (name : String) : Leads streamsDir appId name ↔ name = appId := by
    have two : appId = "appBrowser" ∨ appId = "appSecond" := by simpa using ids appId begun
    rcases two with rfl | rfl
    · exact Proper.leads_iff (by decide) (by decide)
    · exact Proper.leads_iff (by decide) (by decide)
  have active (appId : String) (member : appId ∈ c.world.streams) : appId ∈ started c.history := by
    obtain ⟨inst, known⟩ := Finmap.mem_iff.mp member
    exact ((reach_housed reach).map appId inst known).2
  refine ⟨c, first, second, (rundirs_contained_iff reach).mpr ⟨fun appId begun => ⟨appId, (plain appId begun appId).mpr rfl⟩, ?_⟩⟩
  intro appId member other member' differ name leads leads'
  exact differ (((plain appId (active appId member) name).mp leads).symm.trans ((plain other (active other member') name).mp leads'))

/-- Two dots as an app id, sent as a start command for foot. -/
def dots : StreamConfig := { foot with appId := ".." }

/-- The directory of the app with two dots as its id holds those of all streams: it is opened
to all at the start, and removed with all it holds at the stop. -/
theorem dots_hold_all_streams : ctlRequest "bsdos/ctl/stream/start" "..:foot" = some (.start dots) ∧
    rundirPlace ".." = ["tmp", "bsdos"] ∧
    ∃ c : Config Host Actor World, Reach manager (anyStep manager) (.idle (.fresh .missing)) c ∧
      (∃ e ∈ c.history, e.op = .setPermissions (rundirFor "..") 0o777) ∧
      (∃ e ∈ c.history, e.op = .removeDirAll (rundirFor "..")) ∧ ¬ Contained c := by
  have place : rundirPlace ".." = ["tmp", "bsdos"] := by decide +kernel
  refine ⟨by decide +kernel, place, ?_⟩
  obtain ⟨c, reach, checked⟩ := replay_check (fun _ _ => true) (fun _ _ _ => trivial) (Config.idle (.fresh .missing))
    (serving manager .ctl (.start dots) (checking dots false ++ spawning dots 0 ++ registering dots 0 0 []) ++
      serving manager .ctl (.stop "..") (stopping dots (footInstance dots 0 0)))
    (fun c : Config Host Actor World => ∀ op ∈ [Op.setPermissions (rundirFor "..") 0o777, .removeDirAll (rundirFor ".."), .note (.invoked (.start dots))],
      op ∈ c.history.map fun e : Event Host Actor => (e.op : Op)) (by decide)
  have done := of_decide_eq_true checked
  obtain ⟨opening, opened⟩ := List.mem_map.mp (done _ (List.mem_cons_self ..))
  obtain ⟨emptying, emptied⟩ := List.mem_map.mp (done _ (List.mem_cons_of_mem _ (List.mem_cons_self ..)))
  obtain ⟨entry, entering, entered⟩ := List.mem_map.mp (done (.note (.invoked (.start dots))) (by simp))
  have begun : ".." ∈ started c.history := List.mem_filterMap.mpr ⟨entry, entering, by rw [entered]; rfl⟩
  refine ⟨c, reach, ⟨opening, opened⟩, ⟨emptying, emptied⟩, fun contained => ?_⟩
  obtain ⟨name, inside⟩ := contained.child ".." begun
  rw [place] at inside
  exact absurd (congrArg List.length inside) (by simp [streamsDir])

end Bsdos.Streams
