import Bsdos.Streams.Cancelled
import Mathlib.Data.Multiset.UnionInter

namespace Bsdos.Streams
open Effects

/-- What the monitor has in hand: the entries it reads under the lock, the streams it
has found dead and not yet set about to start, and the one whose start it is in and has
not yet put into the map. -/
structure Watch where
  listed : List (String × StreamInstance)
  pending : Multiset String
  current : Option String
  deriving DecidableEq

def Watch.idle : Watch := ⟨[], 0, none⟩

/-- The streams to start for an entry found dead. -/
def Watch.found (ω : Watch) (appId : String) : Multiset String :=
  Multiset.ofList ((ω.listed.filter fun e => e.1 = appId).map fun e => e.2.cfg.appId)

def Watch.next (ω : Watch) : (op : Op) → op.Ret → Watch
  | .interval _, _ => .idle
  | .streamsEntries, entries => { ω with listed := entries }
  | .unlock, _ => { ω with listed := [] }
  | .note (.died appId), _ => { ω with pending := ω.pending + ω.found appId }
  | .note (.invoked (.start cfg)), _ =>
    { ω with pending := ω.pending.erase cfg.appId, current := some cfg.appId }
  | .note (.returned (.start _) _), _ | .streamsInsert _ _, _ => { ω with current := none }
  | _, _ => ω

/-- The monitor starts streams it has found dead only, and leaves the map alone while it
looks through it. -/
def Watch.Admits (ω : Watch) : Op → Prop
  | .spawn appId _ _ => ω.current = some appId
  | .streamsInsert appId inst => ω.current = some appId ∧ inst.cfg.appId = appId ∧ ω.listed = []
  | .streamsRemove _ => ω.listed = []
  | .note (.invoked (.start cfg)) => cfg.appId ∈ ω.pending
  | _ => True

def watch : Protocol Host Watch := ⟨Watch.next, Watch.Admits⟩

section watch
variable {ω : Watch} {cfg : StreamConfig}

/-- The calls that have no part in what the monitor has in hand. -/
def Op.Unwatched : Op → Prop
  | .interval _ | .streamsEntries | .unlock | .note (.died _) | .note (.invoked (.start _))
  | .note (.returned (.start _) _) | .streamsInsert _ _ | .streamsRemove _ | .spawn _ _ _ => False
  | _ => True

theorem Op.Unwatched.watch {op : Op} (unwatched : op.Unwatched) (ω : Watch) :
    ω.Admits op ∧ ∀ r, ω.next op r = ω := by
  cases op with
  | note n =>
    cases n with
    | died _ => exact unwatched.elim
    | invoked c =>
      cases c with
      | start _ => exact unwatched.elim
      | stop _ => exact ⟨trivial, fun _ => rfl⟩
    | returned c _ =>
      cases c with
      | start _ => exact unwatched.elim
      | stop _ => exact ⟨trivial, fun _ => rfl⟩
    | restarting _ => exact ⟨trivial, fun _ => rfl⟩
  | interval _ | streamsEntries | unlock | streamsInsert _ _ | streamsRemove _ | spawn _ _ _ => exact unwatched.elim
  | _ => exact ⟨trivial, fun _ => rfl⟩

theorem watch_unwatched {α : Type} {p : Task α} (only : p.Only Op.Unwatched) :
    p.Follows watch (fun _ ω' => ω' = ω) ω := by
  refine only.keeps (fun ω' op unwatched same => ?_) rfl
  subst same
  exact unwatched.watch ω'

theorem clears_unwatched (op : Op) (clears : op.Clears) : op.Unwatched := by
  cases op with
  | registryLoad | registryMkdir | registryWriteTmp _ | registryRename | kill _ | wait _ | status _ _ | abort _
  | removeDirAll _ => trivial
  | _ => exact False.elim (clears.elim id id)

theorem watch_spawns {α : Type} {p : Task α} {appId : String} (only : p.Only (Op.Spawns appId))
    (current : ω.current = some appId) : p.Follows watch (fun _ ω' => ω' = ω) ω := by
  refine only.keeps (fun ω' op spawns same => ?_) rfl
  subst same
  cases op with
  | spawn id _ _ => exact ⟨spawns ▸ current, fun _ => rfl⟩
  | createDirAll _ | setPermissions _ _ | pathExists _ | sleep _ | kill _ | wait _ => exact ⟨trivial, fun _ => rfl⟩
  | _ => exact spawns.elim

/-- A start leaves alone what is pending. -/
theorem startBody_watched (current : ω.current = some cfg.appId) (unlisted : ω.listed = []) :
    (startBody cfg).run.Follows watch (fun _ ω' => ω'.listed = [] ∧ ω'.pending = ω.pending) ω := by
  rw [startBody_run, checkMembership_run]
  have same : ω.next .unlock () = ω := by
    show ({ ω with listed := [] } : Watch) = ω
    rw [← unlisted]
  refine ⟨trivial, fun _ => ⟨trivial, fun known => ⟨trivial, fun _ => ?_⟩⟩⟩
  show Prog.Follows watch _ _ (ω.next .unlock ())
  rw [same]
  cases known with
  | true => exact ⟨unlisted, rfl⟩
  | false =>
    refine (watch_spawns (spawnProcesses_only cfg _) current).bind fun r ω' same => ?_
    subst same
    cases r with
    | error e => exact ⟨unlisted, rfl⟩
    | ok procs =>
      refine ⟨trivial, fun _ => ⟨trivial, fun _ => ⟨trivial, fun _ => ⟨trivial, fun _ => ?_⟩⟩⟩⟩
      refine ⟨⟨current, rfl, unlisted⟩, fun _ => ?_⟩
      have recorded := watch_unwatched (ω := { ω' with current := none }) ((add_records cfg).mono fun op records => clears_unwatched op (.inr records))
      have closed : (do let _ ← (addToRegistry cfg).run; unlock : Task Unit).Follows watch
          (fun _ ω'' => ω''.listed = [] ∧ ω''.pending = ω'.pending) { ω' with current := none } :=
        recorded.bind fun _ ω'' same => ⟨trivial, fun _ => same ▸ ⟨rfl, rfl⟩⟩
      exact closed.bind fun _ _ left => left

/-- A start that is pending is one fewer when it is over. -/
theorem startStream_watched (pending : cfg.appId ∈ ω.pending) (unlisted : ω.listed = []) :
    (startStream cfg).run.Follows watch
      (fun _ ω' => ω' = ⟨[], ω.pending.erase cfg.appId, none⟩) ω := by
  unfold startStream
  rw [recorded_run]
  refine ⟨pending, fun _ => ?_⟩
  have body := @startBody_watched ⟨ω.listed, ω.pending.erase cfg.appId, some cfg.appId⟩ cfg rfl unlisted
  refine body.bind fun r ω' ⟨listed, rest⟩ => ⟨trivial, fun _ => ?_⟩
  show ({ ω' with current := none } : Watch) = _
  rw [Watch.mk.injEq]
  exact ⟨listed, rest, rfl⟩

theorem stopStream_watched (unlisted : ω.listed = []) (appId : String) :
    (stopStream appId).run.Follows watch (fun _ ω' => ω' = ω) ω := by
  unfold stopStream
  rw [recorded_run, stopBody_run]
  have same : ω.next .unlock () = ω := by
    show ({ ω with listed := [] } : Watch) = ω
    rw [← unlisted]
  refine ⟨trivial, fun _ => ?_⟩
  refine Prog.Follows.bind (M := fun _ ω' => ω' = ω) ?_ fun r ω' same => ⟨trivial, fun _ => same⟩
  refine ⟨trivial, fun _ => ⟨unlisted, fun found => ⟨trivial, fun _ => ?_⟩⟩⟩
  show Prog.Follows watch _ _ (ω.next .unlock ())
  rw [same]
  cases found with
  | none => exact rfl
  | some inst =>
    have clears := (cleared_only appId inst).mono clears_unwatched
    exact watch_unwatched clears

/-- Looking through the entries makes each stream found dead pending. -/
theorem collectDead_watched (entries : List (String × StreamInstance)) (among : ∀ e ∈ entries, e ∈ ω.listed) :
    (collectDead entries).Follows watch (fun dead ω' => ω'.listed = ω.listed ∧ ω'.current = ω.current ∧
      ω.pending + Multiset.ofList (dead.map fun d => d.2.appId) ≤ ω'.pending) ω := by
  induction entries generalizing ω with
  | nil => exact ⟨rfl, rfl, by simp⟩
  | cons entry entries ih =>
    have later : ∀ e ∈ entries, e ∈ ω.listed := fun e member => among e (List.mem_cons_of_mem _ member)
    have looks (child : Child) : (isDead child).Only Op.Unwatched := isDead_only (fun _ => trivial) child
    refine (watch_unwatched (looks _)).bind fun cageDead ω' same => ?_
    subst same
    refine (watch_unwatched (looks _)).bind fun tunnelDead ω' same => ?_
    subst same
    have looksUp : (appDead entry.2).Only Op.Unwatched := appDead_only (fun _ => trivial) (fun _ _ => trivial) entry.2
    refine (watch_unwatched looksUp).bind fun appDead ω' same => ?_
    subst same
    split
    · refine ⟨trivial, fun _ => ?_⟩
      refine (ih (ω := { ω' with pending := ω'.pending + ω'.found entry.1 }) later).bind fun dead ω'' ⟨listed, current, kept⟩ => ?_
      have own : entry ∈ ω'.listed.filter fun e => e.1 = entry.1 :=
        List.mem_filter.mpr ⟨among entry (List.mem_cons_self ..), decide_eq_true rfl⟩
      have found : {entry.2.cfg.appId} ≤ ω'.found entry.1 :=
        Multiset.singleton_le.mpr (List.mem_map.mpr ⟨entry, own, rfl⟩)
      refine ⟨listed, current, le_trans ?_ kept⟩
      rw [List.map_cons, ← Multiset.cons_coe, ← Multiset.singleton_add, ← add_assoc]
      exact Multiset.add_le_add_right (Multiset.add_le_add_left found)
    · exact ih later

/-- What the monitor has in hand between two restarts. -/
structure Watch.Restarting (dead : List (String × StreamConfig)) (ω : Watch) : Prop where
  listed : ω.listed = []
  current : ω.current = none
  pending : Multiset.ofList (dead.map fun d => d.2.appId) ≤ ω.pending

theorem restartDead_watched {dead : String × StreamConfig} {rest : List (String × StreamConfig)}
    (restarting : ω.Restarting (dead :: rest)) :
    (restartDead dead).Follows watch (fun _ => Watch.Restarting rest) ω := by
  refine (stopStream_watched restarting.listed dead.1).bind fun _ ω' same => ?_
  subst same
  refine ⟨trivial, fun _ => ⟨trivial, fun _ => ?_⟩⟩
  have pending : dead.2.appId ∈ ω'.pending := by
    refine Multiset.mem_of_le restarting.pending ?_
    simp
  refine (startStream_watched pending restarting.listed).bind fun _ ω'' same => ?_
  subst same
  refine ⟨rfl, rfl, ?_⟩
  have fewer := Multiset.erase_le_erase dead.2.appId restarting.pending
  simpa using fewer

theorem monitorTick_watched : monitorTick.Follows watch (fun _ => Watch.Restarting []) ω := by
  refine ⟨trivial, fun _ => ?_⟩
  have found : findDead.Follows watch (fun dead => Watch.Restarting dead) .idle := by
    refine ⟨trivial, fun _ => ⟨trivial, fun entries => ?_⟩⟩
    refine (collectDead_watched (ω := ⟨entries, 0, none⟩) entries fun _ member => member).bind fun dead ω' left => ?_
    obtain ⟨_, current, pending⟩ := left
    have kept : Multiset.ofList (dead.map fun d => d.2.appId) ≤ ω'.pending := by simpa using pending
    exact ⟨trivial, fun _ => ⟨rfl, current, kept⟩⟩
  refine found.bind fun dead ω' restarting => ?_
  exact Prog.Follows.each (I := Watch.Restarting) restarting fun dead rest ω' => restartDead_watched

end watch

/-- The streams the client has taken out of the map, less those it has begun to start. -/
def goneNext (gone : Finset String) : (op : Op) → op.Ret → Finset String
  | .note (.invoked (.start cfg)), _ => gone.erase cfg.appId
  | .streamsRemove appId, some _ => insert appId gone
  | _, _ => gone

/-- The client brings up only what it has begun to start, and a stop that succeeds has
taken its stream out of the map. -/
def Leaves (gone : Finset String) : Op → Prop
  | .spawn appId _ _ => appId ∉ gone
  | .streamsInsert appId inst => appId ∉ gone ∧ inst.cfg.appId = appId
  | .note (.returned (.stop appId) true) => appId ∈ gone
  | _ => True

def client : Protocol Host (Finset String) := ⟨goneNext, Leaves⟩

section client
variable {gone : Finset String} {cfg : StreamConfig}

theorem client_starts {α : Type} {p : Task α} {appId : String} (only : p.Only (Op.Starts appId))
    (back : appId ∉ gone) : p.Follows client (fun _ gone' => gone' = gone) gone := by
  refine only.keeps (fun gone' op starts same => ?_) rfl
  subst same
  cases op with
  | spawn id _ _ => exact ⟨starts ▸ back, fun _ => rfl⟩
  | streamsInsert id inst => exact ⟨⟨starts.1 ▸ back, starts.2.trans starts.1.symm⟩, fun _ => rfl⟩
  | note _ | streamsRemove _ | streamsEntries | interval _ => exact starts.elim
  | _ => exact ⟨trivial, fun _ => rfl⟩

theorem startStream_client (cfg : StreamConfig) :
    (startStream cfg).run.Follows client (fun _ _ => True) gone := by
  unfold startStream
  rw [recorded_run]
  refine ⟨trivial, fun _ => ?_⟩
  refine (client_starts (startBody_only cfg) (Finset.notMem_erase cfg.appId gone)).bind fun r gone' _ => ?_
  exact ⟨trivial, fun _ => trivial⟩

theorem client_clears {α : Type} {p : Task α} (only : p.Only Op.Clears) :
    p.Follows client (fun _ gone' => gone' = gone) gone := by
  refine only.keeps (fun gone' op clears same => ?_) rfl
  subst same
  cases op with
  | registryLoad | registryMkdir | registryWriteTmp _ | registryRename | kill _ | wait _ | status _ _ | abort _
  | removeDirAll _ => exact ⟨trivial, fun _ => rfl⟩
  | _ => exact False.elim (clears.elim id id)

theorem stopStream_client (appId : String) : (stopStream appId).run.Follows client (fun _ _ => True) gone := by
  unfold stopStream
  rw [recorded_run, stopBody_run]
  refine ⟨trivial, fun _ => ?_⟩
  refine Prog.Follows.bind (M := fun r gone' => r.isOk → appId ∈ gone') ?_ fun r gone' taken => ?_
  · refine ⟨trivial, fun _ => ⟨trivial, fun found => ⟨trivial, fun _ => ?_⟩⟩⟩
    cases found with
    | none => exact fun ok => nomatch ok
    | some inst =>
      refine (client_clears (cleared_only appId inst)).mono fun r gone' same _ => ?_
      subst same
      exact Finset.mem_insert_self appId gone
  · cases r with
    | ok _ => exact ⟨taken rfl, fun _ => trivial⟩
    | error e => exact ⟨trivial, fun _ => trivial⟩

theorem serve_client {request : Request} {program : Task Unit} (serves : serve .ctl request = some program) :
    program.Follows client (fun _ _ => True) gone := by
  cases request with
  | start cfg => exact Option.some.inj serves ▸ (startStream_client cfg).bind fun _ _ _ => trivial
  | stop appId => exact Option.some.inj serves ▸ (stopStream_client appId).bind fun _ _ _ => trivial
  | list =>
    exact Option.some.inj serves ▸ ⟨trivial, fun _ => ⟨trivial, fun _ => ⟨trivial, fun _ => trivial⟩⟩⟩
  | _ => cases serves

end client

/-- Entries are filed under the names in their configurations; the monitor looks through
the map as it is; a stream the client has taken out is in the map no more, and no longer
in the monitor's hands. -/
structure Settled (w : World) (ω : Watch) (gone : Finset String) : Prop where
  filed : ∀ appId inst, w.streams.lookup appId = some inst → inst.cfg.appId = appId
  listed : ∀ e ∈ ω.listed, w.holder = some .monitor ∧ w.streams.lookup e.1 = some e.2
  gone : ∀ appId ∈ gone, w.streams.lookup appId = none ∧ appId ∉ ω.pending ∧ ω.current ≠ some appId

section settled
variable {w : World} {ω : Watch} {gone : Finset String} {op : Op} {r : op.Ret}

theorem Settled.of_same {w' : World} (settled : Settled w ω gone) (streams : w'.streams = w.streams)
    (holder : w'.holder = w.holder) : Settled w' ω gone := by
  obtain ⟨filed, listed, gone⟩ := settled
  rw [← streams] at filed
  rw [← holder, ← streams] at listed
  rw [← streams] at gone
  exact ⟨filed, listed, gone⟩

/-- While somebody else has the lock, or nobody, the monitor is not looking through the map. -/
theorem Settled.unlisted (settled : Settled w ω gone) (other : w.holder ≠ some .monitor) : ω.listed = [] := by
  refine List.eq_nil_iff_forall_not_mem.mpr fun e member => ?_
  exact other (settled.listed e member).1

theorem World.mem_entries {entries : List (String × StreamInstance)} {a : Actor}
    (may : w.may a .streamsEntries entries = true) {e : String × StreamInstance} (member : e ∈ entries) :
    w.holder = some a ∧ w.streams.lookup e.1 = some e.2 := by
  obtain ⟨holder, same⟩ := Bool.and_eq_true_iff.mp may
  refine ⟨of_decide_eq_true holder, Finmap.mem_lookup_iff.mpr ?_⟩
  rw [of_decide_eq_true same]
  exact List.mem_map.mpr ⟨e, member, rfl⟩

/-- Where nothing is being looked through, an insertion of a filed instance under a name
the client has not taken out keeps the world settled. -/
theorem Settled.insert {appId : String} {inst : StreamInstance} (settled : Settled w ω gone) (unlisted : ω.listed = [])
    (back : appId ∉ gone) (filed : inst.cfg.appId = appId) :
    Settled { w with streams := w.streams.insert appId inst } ω gone := by
  refine ⟨fun id inst' known => ?_, fun e member => ?_, fun id member => ?_⟩
  · by_cases same : id = appId
    · subst same
      rw [Finmap.lookup_insert] at known
      exact Option.some.inj known ▸ filed
    · rw [Finmap.lookup_insert_of_ne _ same] at known
      exact settled.filed id inst' known
  · rw [unlisted] at member
    exact absurd member List.not_mem_nil
  · have other : id ≠ appId := fun same => back (same ▸ member)
    rw [Finmap.lookup_insert_of_ne _ other]
    exact settled.gone id member

theorem Settled.erase {appId : String} (settled : Settled w ω gone) (unlisted : ω.listed = []) :
    Settled { w with streams := w.streams.erase appId } ω gone := by
  have kept {id : String} {inst : StreamInstance} (known : (w.streams.erase appId).lookup id = some inst) :
      w.streams.lookup id = some inst := by
    by_cases same : id = appId
    · rw [same, Finmap.lookup_erase] at known
      cases known
    · rwa [Finmap.lookup_erase_ne same] at known
  refine ⟨fun id inst known => settled.filed id inst (kept known), fun e member => ?_, fun id member => ?_⟩
  · rw [unlisted] at member
    exact absurd member List.not_mem_nil
  · obtain ⟨absent, free⟩ := settled.gone id member
    refine ⟨?_, free⟩
    cases left : (w.streams.erase appId).lookup id with
    | none => rfl
    | some inst => exact nomatch absent.symm.trans (kept left)

theorem Settled.watches (settled : Settled w ω gone) (admits : ω.Admits op) (may : w.may .monitor op r = true) :
    Settled (w.after .monitor op r) (ω.next op r) gone := by
  cases op with
  | note n =>
    cases n with
    | died appId =>
      refine ⟨settled.filed, settled.listed, fun id member => ?_⟩
      obtain ⟨absent, free, other⟩ := settled.gone id member
      refine ⟨absent, fun pending => ?_, other⟩
      rcases Multiset.mem_add.mp pending with old | found
      · exact free old
      · obtain ⟨e, among, rfl⟩ := List.mem_map.mp found
        obtain ⟨_, known⟩ := settled.listed e (List.mem_of_mem_filter among)
        have absent : w.streams.lookup e.1 = none := settled.filed _ _ known ▸ absent
        cases absent.symm.trans known
    | invoked c =>
      cases c with
      | start cfg =>
        refine ⟨settled.filed, settled.listed, fun id member => ?_⟩
        obtain ⟨absent, free, _⟩ := settled.gone id member
        refine ⟨absent, fun pending => free (Multiset.mem_of_mem_erase pending), fun same => ?_⟩
        have pending : cfg.appId ∈ ω.pending := admits
        have same : cfg.appId = id := Option.some.inj same
        exact free (same ▸ pending)
      | stop _ => exact settled
    | returned c _ =>
      cases c with
      | start _ =>
        exact ⟨settled.filed, settled.listed, fun id member =>
          ⟨(settled.gone id member).1, (settled.gone id member).2.1, by simp [Watch.next]⟩⟩
      | stop _ => exact settled
    | restarting _ => exact settled
  | interval _ =>
    exact ⟨settled.filed, fun e member => absurd member List.not_mem_nil, fun id member =>
      ⟨(settled.gone id member).1, Multiset.notMem_zero id, by simp [Watch.next, Watch.idle]⟩⟩
  | lock =>
    have free : w.holder ≠ some .monitor := by
      rw [show w.holder = none from of_decide_eq_true may]
      exact fun held => nomatch held
    refine ⟨settled.filed, fun e member => ?_, settled.gone⟩
    have member : e ∈ ω.listed := member
    rw [settled.unlisted free] at member
    exact absurd member List.not_mem_nil
  | unlock => exact ⟨settled.filed, fun e member => absurd member List.not_mem_nil, settled.gone⟩
  | streamsEntries => exact ⟨settled.filed, fun e member => World.mem_entries may member, settled.gone⟩
  | streamsInsert appId inst =>
    obtain ⟨current, filed, unlisted⟩ := admits
    have back : appId ∉ gone := fun member => (settled.gone appId member).2.2 current
    obtain ⟨filed, _, gone⟩ := settled.insert unlisted back filed
    refine ⟨filed, fun e member => ?_, fun id member => ⟨(gone id member).1, (gone id member).2.1, by simp [Watch.next]⟩⟩
    rw [show (ω.next (.streamsInsert appId inst) r).listed = [] from unlisted] at member
    exact absurd member List.not_mem_nil
  | streamsRemove appId => exact settled.erase admits
  | spawn _ _ _ | registryWriteTmp _ | registryRename => cases r <;> exact settled.of_same rfl rfl
  | _ => exact settled.of_same rfl rfl

/-- A stream that is taken out of the map is not in the monitor's hands. -/
def Spares (ω : Watch) : (op : Op) → op.Ret → Bool
  | .streamsRemove appId, some _ => appId ∉ ω.pending ∧ ω.current ≠ some appId
  | _, _ => true

theorem Settled.leaves (settled : Settled w ω gone) (leaves : Leaves gone op) (may : w.may .ctl op r = true)
    (spares : Spares ω op r = true) :
    Settled (w.after .ctl op r) ω (goneNext gone op r) := by
  have held (mine : w.holder = some .ctl) : ω.listed = [] := by
    refine settled.unlisted ?_
    rw [mine]
    exact fun same => nomatch same
  have listed (unlisted : ω.listed = []) (e : String × StreamInstance) : e ∉ ω.listed := by
    rw [unlisted]
    exact List.not_mem_nil
  cases op with
  | note n =>
    cases n with
    | invoked c =>
      cases c with
      | start cfg =>
        exact ⟨settled.filed, settled.listed, fun id member => settled.gone id (Finset.mem_of_mem_erase member)⟩
      | stop _ => exact settled
    | _ => exact settled
  | lock =>
    have free : w.holder ≠ some .monitor := by
      rw [show w.holder = none from of_decide_eq_true may]
      exact fun held => nomatch held
    exact ⟨settled.filed, fun e member => absurd member (listed (settled.unlisted free) e), settled.gone⟩
  | unlock =>
    exact ⟨settled.filed, fun e member => absurd member (listed (held (of_decide_eq_true may)) e), settled.gone⟩
  | streamsInsert appId inst =>
    exact settled.insert (held (World.may_streamsInsert may)) leaves.1 leaves.2
  | streamsRemove appId =>
    obtain ⟨mine, known⟩ := World.may_streamsRemove may
    have erased : Settled { w with streams := w.streams.erase appId } _ _ := settled.erase (held mine)
    cases r with
    | none => exact erased
    | some inst =>
      obtain ⟨free, other⟩ := of_decide_eq_true spares
      refine ⟨erased.filed, erased.listed, fun id member => ?_⟩
      rcases Finset.mem_insert.mp member with rfl | old
      · exact ⟨Finmap.lookup_erase .., free, other⟩
      · exact erased.gone id old
  | spawn _ _ _ | registryWriteTmp _ | registryRename => cases r <;> exact settled.of_same rfl rfl
  | _ => exact settled.of_same rfl rfl

end settled

/-- What the monitor has in hand. -/
def watchOf (c : Config Host Actor World) : Watch := watch.state .idle .monitor c.history

/-- The streams the client has taken out of the map and not begun to start since. -/
def goneFor (c : Config Host Actor World) : Finset String := client.state ∅ .ctl c.history

/-- A client stop of the stream has returned Ok, and no client start of it has been
entered since. -/
def Stopped (appId : String) : List (Event Host Actor) → Bool
  | [] => false
  | ⟨.ctl, .note (.returned (.stop id) true), _⟩ :: history => id = appId || Stopped appId history
  | ⟨.ctl, .note (.invoked (.start cfg)), _⟩ :: history => cfg.appId ≠ appId && Stopped appId history
  | _ :: history => Stopped appId history

/-- The parties are the control subscriber and the monitor. -/
def twoParties (l : Label manager) : Bool :=
  match l with
  | .begin a _ => a = .ctl || a = .monitor
  | _ => true

/-- A client stop takes no stream out of the map that the monitor is about to restart. -/
def sparesRestarts (c : Config Host Actor World) (l : Label manager) : Bool :=
  match l with
  | .act ⟨.ctl, op, r⟩ => Spares (watchOf c) op r
  | _ => true

/-- The step puts the stream into the map, or spawns a process for it. -/
def Revives (appId : String) (l : Label manager) : Bool :=
  match l with
  | .act ⟨_, .streamsInsert id _, _⟩ => id = appId
  | .act ⟨_, .spawn id _ _, _⟩ => id = appId
  | _ => false

section runs
variable {registry : File} {c c' : Config Host Actor World} {l : Label manager}
  {ok : Config Host Actor World → Label manager → Prop}

theorem of_begin {a : Actor} {request : Request} (two : twoParties (.begin a request) = true) :
    a = .ctl ∨ a = .monitor := by
  simpa [twoParties] using two

theorem serve_watched {ω : Watch} {request : Request} {program : Task Unit}
    (serves : serve .monitor request = some program) :
    program.Follows watch (fun _ ω' => ω'.listed = [] ∧ ω'.current = none) ω := by
  cases request with
  | tick => exact Option.some.inj serves ▸ monitorTick_watched.mono fun _ _ left => ⟨left.listed, left.current⟩
  | _ => cases serves

theorem reach_watched (reach : Reach manager ok (.idle (.fresh registry)) c) :
    c.Conforms watch .idle (fun ω => ω.listed = [] ∧ ω.current = none) .monitor :=
  reach.conforms ⟨rfl, rfl⟩ (fun _ _ serves _ _ => serve_watched serves) fun _ _ _ dropped => nomatch dropped

theorem reach_client (reach : Reach manager ok (.idle (.fresh registry)) c) :
    c.Conforms client ∅ (fun _ => True) .ctl :=
  reach.conforms trivial (fun _ _ serves _ _ => serve_client serves) fun _ _ _ _ _ => trivial

/-- Whatever the client does, a stream that is stopped after it is one it has taken out. -/
theorem stopped_own {appId : String} {op : Op} {r : op.Ret} {history : List (Event Host Actor)} {gone : Finset String}
    (before : Stopped appId history = true → appId ∈ gone) (leaves : Leaves gone op)
    (stopped : Stopped appId (⟨.ctl, op, r⟩ :: history) = true) : appId ∈ goneNext gone op r := by
  cases op with
  | note n =>
    cases n with
    | invoked c =>
      cases c with
      | start cfg =>
        obtain ⟨other, stopped⟩ := Bool.and_eq_true_iff.mp stopped
        exact Finset.mem_erase_of_ne_of_mem (Ne.symm (of_decide_eq_true other)) (before stopped)
      | stop _ => exact before stopped
    | returned c ok =>
      cases c with
      | start _ => exact before stopped
      | stop id =>
        cases ok with
        | false => exact before stopped
        | true =>
          rcases Bool.or_eq_true_iff.mp stopped with own | stopped
          · exact of_decide_eq_true own ▸ leaves
          · exact before stopped
    | _ => exact before stopped
  | streamsRemove id =>
    cases r with
    | none => exact before stopped
    | some inst => exact Finset.mem_insert_of_mem (before stopped)
  | _ => exact before stopped

theorem stopped_other {appId : String} {a : Actor} {op : Op} {r : op.Ret} {history : List (Event Host Actor)}
    (other : a ≠ .ctl) (stopped : Stopped appId (⟨a, op, r⟩ :: history) = true) : Stopped appId history = true := by
  cases a with
  | ctl => exact absurd rfl other
  | _ => exact stopped

theorem reach_settled
    (reach : Reach manager (fun c l => (twoParties l && sparesRestarts c l) = true) (.idle (.fresh registry)) c) :
    Settled c.world (watchOf c) (goneFor c) ∧ ∀ appId, Stopped appId c.history = true → appId ∈ goneFor c := by
  induction reach with
  | start =>
    refine ⟨⟨fun appId inst known => ?_, fun e member => absurd member List.not_mem_nil, fun appId member => ?_⟩,
      fun appId stopped => nomatch stopped⟩
    · cases (Finmap.lookup_empty (β := fun _ => StreamInstance) appId).symm.trans known
    · exact absurd member (Finset.notMem_empty appId)
  | @next c l c' before step admitted ih =>
    obtain ⟨two, spares⟩ := Bool.and_eq_true_iff.mp admitted
    obtain ⟨settled, stopped⟩ := ih
    cases step with
    | @act a op next r at_work may =>
      have party := before.parties (P := fun a => a = .ctl ∨ a = .monitor)
        (fun c a request admitted => of_begin (Bool.and_eq_true_iff.mp admitted).1) a _ at_work
      rcases party with rfl | rfl
      · have leaves : Leaves (goneFor c) op := ((reach_client before).running at_work).1
        have own : goneFor ⟨manager.effect .ctl c.world op r, ⟨.ctl, op, r⟩ :: c.history,
            Function.update c.running .ctl (some (next r))⟩ = goneNext (goneFor c) op r := Protocol.state_own ..
        have other : watchOf ⟨manager.effect .ctl c.world op r, ⟨.ctl, op, r⟩ :: c.history,
            Function.update c.running .ctl (some (next r))⟩ = watchOf c := Protocol.state_other _ _ _ (by simp) _
        rw [own, other]
        exact ⟨settled.leaves leaves may spares, fun appId after => stopped_own (stopped appId) leaves after⟩
      · have admits : (watchOf c).Admits op := ((reach_watched before).running at_work).1
        have own : watchOf ⟨manager.effect .monitor c.world op r, ⟨.monitor, op, r⟩ :: c.history,
            Function.update c.running .monitor (some (next r))⟩ = (watchOf c).next op r := Protocol.state_own ..
        have other : goneFor ⟨manager.effect .monitor c.world op r, ⟨.monitor, op, r⟩ :: c.history,
            Function.update c.running .monitor (some (next r))⟩ = goneFor c := Protocol.state_other _ _ _ (by simp) _
        rw [own, other]
        exact ⟨settled.watches admits may, fun appId after => stopped appId (stopped_other (by simp) after)⟩
    | env moved =>
      obtain ⟨exited, rfl⟩ := World.change_eq moved
      exact ⟨settled.of_same rfl rfl, stopped⟩
    | _ => exact ⟨settled, stopped⟩

/-- Where a client stop takes no stream out of the map that the monitor is about to
restart, a stopped stream stays stopped. -/
theorem stopped_stays_stopped
    (reach : Reach manager (fun c l => (twoParties l && sparesRestarts c l) = true) (.idle (.fresh registry)) c)
    {appId : String} (stopped : Stopped appId c.history = true) (step : Step manager c l c') :
    Revives appId l = false := by
  obtain ⟨settled, gone⟩ := reach_settled reach
  have gone := gone appId stopped
  cases step with
  | @act a op next r at_work may =>
    refine Bool.eq_false_iff.mpr fun revives => ?_
    have party := reach.parties (P := fun a => a = .ctl ∨ a = .monitor)
      (fun c a request admitted => of_begin (Bool.and_eq_true_iff.mp admitted).1) a _ at_work
    rcases party with rfl | rfl
    · have leaves : Leaves (goneFor c) op := ((reach_client reach).running at_work).1
      cases op with
      | spawn id _ _ =>
        have same : id = appId := of_decide_eq_true revives
        exact leaves (same ▸ gone)
      | streamsInsert id _ =>
        have same : id = appId := of_decide_eq_true revives
        exact leaves.1 (same ▸ gone)
      | _ => cases revives
    · have admits : (watchOf c).Admits op := ((reach_watched reach).running at_work).1
      have spared := (settled.gone appId gone).2.2
      cases op with
      | spawn id _ _ =>
        have same : id = appId := of_decide_eq_true revives
        exact spared (same ▸ admits)
      | streamsInsert id _ =>
        have same : id = appId := of_decide_eq_true revives
        exact spared (same ▸ admits.1)
      | _ => cases revives
  | _ => rfl

end runs

/-! A stop in which everything goes well, call by call. -/

/-- The map entry is taken out. -/
def removing (appId : String) (found : Option StreamInstance) : List ((op : Op) × op.Ret) :=
  [⟨.note (.invoked (.stop appId)), ()⟩, ⟨.lock, ()⟩, ⟨.streamsRemove appId, found⟩, ⟨.unlock, ()⟩]

/-- The instance is torn down. -/
def tearingDown (inst : StreamInstance) : List ((op : Op) × op.Ret) :=
  let kills := inst.children.map fun child => (⟨.kill child, (.ok () : Except String Unit)⟩ : (op : Op) × op.Ret)
  let waits := inst.children.map fun child => (⟨.wait child, (.ok () : Except String Unit)⟩ : (op : Op) × op.Ret)
  kills ++ waits ++ [⟨.abort inst.forwarderHandle, ()⟩, ⟨.abort inst.inputHandle, ()⟩, ⟨.abort inst.resizeHandle, ()⟩,
    ⟨.removeDirAll inst.rundir, (.ok () : Except String Unit)⟩]

/-- The entry is taken out of a registry that holds `configs`. -/
def unregistering (appId : String) (configs : List StreamConfig) : List ((op : Op) × op.Ret) :=
  [⟨.registryLoad, (.ok configs : Except String (List StreamConfig))⟩, ⟨.registryMkdir, (.ok () : Except String Unit)⟩,
    ⟨.registryWriteTmp (removed appId configs), (.ok () : Except String Unit)⟩,
    ⟨.registryRename, (.ok () : Except String Unit)⟩]

/-- A whole stop of the only stream there is. -/
def stopping (cfg : StreamConfig) (inst : StreamInstance) : List ((op : Op) × op.Ret) :=
  removing cfg.appId (some inst) ++ tearingDown inst ++ unregistering cfg.appId [cfg] ++
    [⟨.note (.returned (.stop cfg.appId) true), ()⟩]

/-- Another stream. -/
def terminal : StreamConfig := { foot with appId := "appTerminal" }

/-- Two streams are started and one of them is stopped; then the cage of the other dies, and the monitor restarts that
one. -/
theorem stopped_stays_stopped_other : ∃ c c', Stopped foot.appId c.history = true ∧
    Step manager c (.act ⟨.monitor, .spawn terminal.appId .cage (cageCommand (rundirFor terminal.appId)),
      (.ok 6 : Except String Child)⟩) c' ∧
    Revives foot.appId (.act ⟨.monitor, .spawn terminal.appId .cage (cageCommand (rundirFor terminal.appId)),
      (.ok 6 : Except String Child)⟩) = false := by
  obtain ⟨c, reach, checked⟩ := replay_check (fun c l => twoParties l && sparesRestarts c l) (fun _ _ kept => kept)
    (Config.idle (.fresh .missing))
    (serving manager .ctl (.start foot) (checking foot false ++ spawning foot 0 ++ registering foot 0 0 []) ++
      serving manager .ctl (.start terminal)
        (checking terminal false ++ spawning terminal 3 ++ registering terminal 3 3 [foot]) ++
      serving manager .ctl (.stop foot.appId) (removing foot.appId (some (footInstance foot 0 0)) ++
        tearingDown (footInstance foot 0 0) ++ unregistering foot.appId (upserted terminal [foot]) ++
        [⟨.note (.returned (.stop foot.appId) true), ()⟩]) ++
      [.env (.exit 3), .begin .monitor .tick] ++
      calling manager .monitor ([⟨.interval 10, ()⟩, ⟨.lock, ()⟩,
        ⟨.streamsEntries, ([(terminal.appId, footInstance terminal 3 3)] : List (String × StreamInstance))⟩,
        ⟨.tryWait 3, (.ok true : Except String Bool)⟩, ⟨.tryWait 4, (.ok false : Except String Bool)⟩,
        ⟨.tryWait 5, (.ok false : Except String Bool)⟩, ⟨.note (.died terminal.appId), ()⟩, ⟨.unlock, ()⟩] ++
        stopping terminal (footInstance terminal 3 3) ++ [⟨.note (.restarting terminal.appId), ()⟩, ⟨.sleep 1000, ()⟩] ++
        checking terminal false ++ (spawning terminal 6).take 2))
    (fun c => Stopped foot.appId c.history && (c.fire (S := manager) (.act ⟨.monitor,
      .spawn terminal.appId .cage (cageCommand (rundirFor terminal.appId)), (.ok 6 : Except String Child)⟩)).isSome)
    (by decide +kernel)
  obtain ⟨stopped, fired⟩ := Bool.and_eq_true_iff.mp checked
  obtain ⟨c', fired⟩ := Option.isSome_iff_exists.mp fired
  have step := Config.fire_step fired
  exact ⟨c, c', stopped, step, stopped_stays_stopped reach stopped step⟩

/-- The cage of a stream dies, and the monitor lists the stream as dead; the client stops
the stream, with success; then the monitor spawns it anew. -/
theorem stopped_stream_restarted : ∃ c c',
    Reach manager (fun _ l => twoParties l) (.idle (.fresh .missing)) c ∧ Stopped foot.appId c.history = true ∧
    Step manager c (.act ⟨.monitor, .spawn foot.appId .cage (cageCommand (rundirFor foot.appId)),
      (.ok 3 : Except String Child)⟩) c' := by
  obtain ⟨c, reach, checked⟩ := replay_check (fun _ l => twoParties l) (fun _ _ kept => kept)
    (Config.idle (.fresh .missing))
    (serving manager .ctl (.start foot) (checking foot false ++ spawning foot 0 ++ registering foot 0 0 []) ++
      [.env (.exit 0), .begin .monitor .tick] ++
      calling manager .monitor [⟨.interval 10, ()⟩, ⟨.lock, ()⟩,
        ⟨.streamsEntries, ([(foot.appId, footInstance foot 0 0)] : List (String × StreamInstance))⟩,
        ⟨.tryWait 0, (.ok true : Except String Bool)⟩, ⟨.tryWait 1, (.ok false : Except String Bool)⟩,
        ⟨.tryWait 2, (.ok false : Except String Bool)⟩, ⟨.note (.died foot.appId), ()⟩, ⟨.unlock, ()⟩] ++
      serving manager .ctl (.stop foot.appId) (stopping foot (footInstance foot 0 0)) ++
      calling manager .monitor (removing foot.appId none ++ [⟨.note (.returned (.stop foot.appId) false), ()⟩,
        ⟨.note (.restarting foot.appId), ()⟩, ⟨.sleep 1000, ()⟩] ++ checking foot false ++ (spawning foot 3).take 2))
    (fun c => Stopped foot.appId c.history && (c.fire (S := manager) (.act ⟨.monitor,
      .spawn foot.appId .cage (cageCommand (rundirFor foot.appId)), (.ok 3 : Except String Child)⟩)).isSome)
    (by decide +kernel)
  obtain ⟨stopped, fired⟩ := Bool.and_eq_true_iff.mp checked
  obtain ⟨c', fired⟩ := Option.isSome_iff_exists.mp fired
  exact ⟨c, c', reach, stopped, Config.fire_step fired⟩

end Bsdos.Streams
