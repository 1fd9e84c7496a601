import Bsdos.Lifecycle.Eviction
import Mathlib.Data.Finset.Card

namespace Bsdos.Lifecycle
open Effects

/-- The lifecycle operations that were called, in order. -/
def invocations (moments : List (Moment Daemon World)) : List Call :=
  moments.filterMap fun m =>
    match m.op with
    | .note (.invoked call) => some call
    | _ => none

@[simp] theorem invocations_append (first second : List (Moment Daemon World)) :
    invocations (first ++ second) = invocations first ++ invocations second := List.filterMap_append

/-- The tracked jails whose processes hold memory. -/
def World.victims (w : World) : Finset String := w.priorities.keys.filter w.evictable

theorem World.mem_victims {w : World} {jail : String} :
    jail ∈ w.victims ↔ (∃ p, w.priorities.lookup jail = some p) ∧ w.evictable jail := by
  rw [World.victims, Finset.mem_filter, Finmap.mem_keys, Finmap.mem_iff]

/-- States are tracked under accepted names, priorities are filed under their own jail. -/
structure World.Sound (w : World) : Prop where
  valid : ∀ jail state, w.states.lookup jail = some state → ValidId jail
  filed : ∀ jail p, w.priorities.lookup jail = some p → p.jailId = jail

section exec
variable {policy : LifecyclePolicy} {a : Actor} {w w' : World} {moments : List (Moment Daemon World)}
  {jail : String} {r : Except String String}

theorem World.after_actsOn {op : Op} {r : op.Ret} (acts : op.ActsOn jail) :
    (w.after op r).priorities = w.priorities ∧ (w.after op r).memGuardDisabled = w.memGuardDisabled ∧
      ∀ other, other ≠ jail → (w.after op r).states.lookup other = w.states.lookup other := by
  cases op with
  | statesInsert id state =>
    obtain ⟨rfl, _⟩ := acts
    exact ⟨rfl, rfl, fun other different => Finmap.lookup_insert_of_ne _ different⟩
  | kill pid sig => cases r <;> exact ⟨rfl, rfl, fun _ _ => rfl⟩
  | jidByName _ | jailPids _ | output _ _ | pathExists _ | removeFile _ | unixTime => exact ⟨rfl, rfl, fun _ _ => rfl⟩
  | _ => exact acts.elim

/-- What acts on one jail calls no operation and leaves the priorities, the guard and
the states of other jails alone. -/
theorem exec_actsOn_frame {α : Type} {p : Task α} {value : α} (only : p.Only (Op.ActsOn jail))
    (exec : Exec (lifecycled policy) a p w moments value w') :
    invocations moments = [] ∧ w'.priorities = w.priorities ∧ w'.memGuardDisabled = w.memGuardDisabled ∧
      ∀ other, other ≠ jail → w'.states.lookup other = w.states.lookup other := by
  constructor
  · refine List.filterMap_eq_nil_iff.mpr fun m member => ?_
    have acts := exec.only only m member
    cases op : m.op with
    | note n => rw [op] at acts; exact acts.elim
    | _ => rfl
  · refine exec.preserve (I := fun u => u.priorities = w.priorities ∧ u.memGuardDisabled = w.memGuardDisabled ∧
      ∀ other, other ≠ jail → u.states.lookup other = w.states.lookup other) only
      (fun u op r acts _ same => ?_) ⟨rfl, rfl, fun _ _ => rfl⟩
    obtain ⟨priorities, guard, states⟩ := World.after_actsOn (w := u) (r := r) acts
    exact ⟨priorities.trans same.1, guard.trans same.2.1,
      fun other different => (states other different).trans (same.2.2 other different)⟩

theorem exec_removeWaylandSock_ok {value : Except String Unit}
    (exec : Exec (lifecycled policy) a (removeWaylandSock jail).run w moments value w') : value = .ok () := by
  obtain ⟨found, rest, _, _, removed⟩ := exec
  cases found with
  | false => exact removed.2.1
  | true =>
    obtain ⟨_, _, _, _, last⟩ := removed
    exact last.2.1

theorem exec_recycleTmp_ok {value : Except String Unit}
    (exec : Exec (lifecycled policy) a (recycleTmp jail).run w moments value w') : value = .ok () := by
  obtain ⟨_, listed, _, _, _, recycled, _⟩ := exec_attempt.mp exec
  cases listed with
  | error e => exact recycled.2.1
  | ok out =>
    obtain ⟨_, _, _, _, _, created, _⟩ := exec_attempt.mp recycled
    obtain ⟨_, _, _, _, _, last, _⟩ := exec_attempt.mp created
    exact last.2.1

/-- A kill that is let through leaves the jail dead. -/
theorem exec_killBody_dead (exec : Exec (lifecycled policy) a (killBody jail).run w moments r w') :
    w'.states.lookup jail = some .dead := by
  obtain ⟨_, _, _, _, _, killed, _⟩ := exec_attempt.mp exec
  rcases exec_tryBind.mp killed with ⟨_, _, _, _, _, removed, _⟩ | ⟨e, removed, _⟩
  · rcases exec_tryBind.mp removed with ⟨_, _, _, _, _, recycled, _⟩ | ⟨e, recycled, _⟩
    · obtain ⟨_, _, _, _, _, _, rfl⟩ := recycled
      exact Finmap.lookup_insert _
    · cases exec_recycleTmp_ok recycled
  · cases exec_removeWaylandSock_ok removed

/-- An operation on an accepted name is called once, and acts on its jail only. -/
theorem exec_operation_frame {c : Call} {body : String → Fallible String} (valid : ValidId c.jail)
    (only : (body c.jail).run.Only (Op.ActsOn c.jail))
    (exec : Exec (lifecycled policy) a (operation c body).run w moments r w') :
    invocations moments = [c] ∧ w'.priorities = w.priorities ∧ w'.memGuardDisabled = w.memGuardDisabled ∧
      (∀ other, other ≠ c.jail → w'.states.lookup other = w.states.lookup other) ∧
      ∃ inner, Exec (lifecycled policy) a (body c.jail).run w inner r w' := by
  obtain ⟨inner, rfl, ⟨_, exec⟩ | ⟨e, refused, _⟩⟩ := exec_operation.mp exec
  · obtain ⟨silent, priorities, guard, states⟩ := exec_actsOn_frame only exec
    refine ⟨?_, priorities, guard, states, inner, exec⟩
    rw [List.cons_append, ← List.singleton_append, invocations_append, invocations_append, silent]
    rfl
  · exact absurd (valid.symm.trans refused) (by simp)

/-- What is left of a world when one of its jails has been evicted. -/
structure Evicted (jail : String) (w w' : World) : Prop where
  dead : w'.states.lookup jail = some .dead
  others : ∀ other, other ≠ jail → w'.states.lookup other = w.states.lookup other
  priorities : w'.priorities = w.priorities
  guard : w'.memGuardDisabled = w.memGuardDisabled

theorem exec_evictJail (valid : ValidId jail) (exec : Exec (lifecycled policy) a (evictJail jail) w moments () w') :
    invocations moments = [.hibernate jail, .kill jail] ∧ Evicted jail w w' := by
  have unfolded : evictJail jail = .call (.note (.criticalEvicting jail)) fun _ =>
      (hibernateApplication jail).run >>= fun _ => (killApplication jail).run >>= fun _ => Prog.ret () := rfl
  rw [unfolded] at exec
  obtain ⟨⟨⟩, rest, _, rfl, evicting⟩ := exec
  obtain ⟨saving, _, u, _, hibernated, ending, rfl⟩ := exec_bind.mp evicting
  obtain ⟨killing, _, _, _, killed, ⟨rfl, _, rfl⟩, rfl⟩ := exec_bind.mp ending
  obtain ⟨saves, priorities, guard, states, _⟩ :=
    exec_operation_frame (c := .hibernate jail) valid (hibernateBody_only valid) hibernated
  obtain ⟨kills, priorities', guard', states', inner, body⟩ :=
    exec_operation_frame (c := .kill jail) valid (killBody_only valid) killed
  refine ⟨?_, exec_killBody_dead body, fun other different => ?_, ?_, ?_⟩
  · rw [← List.singleton_append, invocations_append, invocations_append, invocations_append, saves, kills]
    rfl
  · exact (states' other different).trans (states other different)
  · exact priorities'.trans priorities
  · exact guard'.trans guard

theorem exec_criticalJail_evicts (valid : ValidId jail) (evictable : w.evictable jail)
    (exec : Exec (lifecycled policy) a (criticalJail jail) w moments () w') :
    invocations moments = [.hibernate jail, .kill jail] ∧ Evicted jail w w' := by
  obtain ⟨state, rest, may, rfl, evicting⟩ := exec
  have read := World.may_statesGet may
  have held : Exec (lifecycled policy) a (evictJail jail) w rest () w' := by
    rcases evictable with running | frozen
    · cases read.trans running
      exact evicting
    · cases read.trans frozen
      exact evicting
  obtain ⟨calls, evicted⟩ := exec_evictJail valid held
  rw [← List.singleton_append, invocations_append, calls]
  exact ⟨rfl, evicted⟩

theorem exec_criticalJail_spares (spared : ¬ w.evictable jail)
    (exec : Exec (lifecycled policy) a (criticalJail jail) w moments () w') : invocations moments = [] ∧ w' = w := by
  obtain ⟨state, rest, may, rfl, tail⟩ := exec
  have read := World.may_statesGet may
  have left : Exec (lifecycled policy) a (Prog.ret () : Task Unit) w rest () w' := by
    cases state with
    | none => exact tail
    | some state =>
      cases state with
      | running => exact absurd (.inl read.symm) spared
      | frozen => exact absurd (.inr read.symm) spared
      | hibernated => exact tail
      | dead => exact tail
  obtain ⟨rfl, _, rfl⟩ := left
  exact ⟨rfl, rfl⟩

end exec

theorem evictedBefore_iff {p q : JailPriority} : p.EvictedBefore q ↔ q.priority.toNat < p.priority.toNat ∨
    (q.priority.toNat = p.priority.toNat ∧ p.lastActive ≤ q.lastActive) := by
  rw [JailPriority.EvictedBefore, UInt8.lt_iff_toNat_lt, ← UInt8.toNat_inj]

instance : Std.Total JailPriority.EvictedBefore where
  total p q := by
    rw [evictedBefore_iff, evictedBefore_iff]
    omega

instance : IsTrans JailPriority JailPriority.EvictedBefore where
  trans p q s first second := by
    rw [evictedBefore_iff] at *
    omega

/-- The first candidate goes before every tracked jail. -/
theorem sortCandidates_head {jails : List JailPriority} {jail : String} {rest : List String}
    (sorted : sortCandidates jails = jail :: rest) :
    ∃ p ∈ jails, p.jailId = jail ∧ ∀ q ∈ jails, p.EvictedBefore q := by
  unfold sortCandidates at sorted
  obtain ⟨p, others, order, rfl, _⟩ := List.map_eq_cons_iff.mp sorted
  have pairwise := List.pairwise_insertionSort JailPriority.EvictedBefore jails
  rw [order, List.pairwise_cons] at pairwise
  have same (q) : q ∈ jails ↔ q = p ∨ q ∈ others := by
    rw [← List.mem_insertionSort JailPriority.EvictedBefore, order, List.mem_cons]
  refine ⟨p, (same p).mpr (.inl rfl), rfl, fun q member => ?_⟩
  rcases (same q).mp member with rfl | later
  · exact Std.Refl.refl q
  · exact pairwise.1 q later

/-- A round of the monitor: the worlds around it, the priorities in the order the
map iterates them, and the calls after that read. -/
structure Tick where
  before : World
  jails : List JailPriority
  moments : List (Moment Daemon World)
  after : World

/-- The round is one under Critical pressure with the memory guard enabled. -/
def Tick.Runs (policy : LifecyclePolicy) (t : Tick) : Prop :=
  ∃ stats, MemPressure.fromStats stats = .critical ∧ t.before.memGuardDisabled = false ∧
    Exec (lifecycled policy) .monitor (monitorRound policy stats) t.before
      (⟨t.before, .prioritiesValues, t.jails⟩ :: t.moments) () t.after

/-- If some tracked jail holds memory, the round hibernates and kills exactly one such
jail, one that goes before all of them. -/
def Tick.Progress (t : Tick) : Prop :=
  t.before.victims.Nonempty → ∃ jail p, jail ∈ t.before.victims ∧ t.before.priorities.lookup jail = some p ∧
    (∀ other q, other ∈ t.before.victims → t.before.priorities.lookup other = some q → p.EvictedBefore q) ∧
    invocations t.moments = [.hibernate jail, .kill jail] ∧ t.after.states.lookup jail = some .dead

/-- No tracked jail holds memory, or the first in the eviction order does. -/
def Tick.HeadEvictable (t : Tick) : Prop :=
  t.before.victims = ∅ ∨ ∃ jail ∈ (sortCandidates t.jails).head?, t.before.evictable jail

section tick
variable {policy : LifecyclePolicy} {t : Tick}

theorem Tick.Runs.jails (runs : t.Runs policy) :
    t.before.priorities.entries.map Sigma.snd = Multiset.ofList t.jails := by
  obtain ⟨stats, _, _, exec⟩ := runs
  obtain ⟨jails, _, may, same, _⟩ := exec
  obtain ⟨same, _⟩ := List.cons.inj same
  cases same
  exact of_decide_eq_true may

theorem Tick.Runs.branch (runs : t.Runs policy) : ∃ moments, invocations t.moments = invocations moments ∧
    Exec (lifecycled policy) .monitor (Prog.each criticalJail ((sortCandidates t.jails).take 1)) t.before
      moments () t.after := by
  obtain ⟨stats, critical, enabled, jails, rest, _, same, exec⟩ := runs
  obtain ⟨same, rfl⟩ := List.cons.inj same
  cases same
  obtain ⟨skip, rest, may, same, exec⟩ := exec
  cases (World.may_guardLoad may).trans enabled
  simp only [critical] at exec
  exact ⟨rest, by rw [same]; rfl, exec⟩

theorem Tick.Runs.mem_jails (runs : t.Runs policy) (sound : t.before.Sound) {p : JailPriority} :
    p ∈ t.jails ↔ t.before.priorities.lookup p.jailId = some p := by
  have listed : p ∈ t.jails ↔ p ∈ t.before.priorities.entries.map Sigma.snd := by rw [runs.jails]; rfl
  rw [listed, Multiset.mem_map]
  constructor
  · rintro ⟨⟨key, _⟩, entry, rfl⟩
    have filed := Finmap.lookup_eq_some_iff.mpr entry
    rwa [sound.filed key _ filed]
  · intro filed
    exact ⟨⟨p.jailId, p⟩, Finmap.lookup_eq_some_iff.mp filed, rfl⟩

/-- The head of the candidates, where it holds memory, is evicted, and it goes before
every tracked jail. -/
theorem Tick.Runs.evicts (runs : t.Runs policy) (sound : t.before.Sound) {jail : String}
    (head : (sortCandidates t.jails).head? = some jail) (evictable : t.before.evictable jail) :
    invocations t.moments = [.hibernate jail, .kill jail] ∧ Evicted jail t.before t.after ∧
      ∃ p, t.before.priorities.lookup jail = some p ∧
        ∀ other q, t.before.priorities.lookup other = some q → p.EvictedBefore q := by
  obtain ⟨moments, calls, exec⟩ := runs.branch
  obtain ⟨rest, sorted⟩ := List.head?_eq_some_iff.mp head
  rw [sorted] at exec
  obtain ⟨own, _, _, _, evicting, ⟨rfl, _, rfl⟩, rfl⟩ := exec_bind.mp exec
  have valid : ValidId jail := by
    rcases evictable with tracked | tracked
    · exact sound.valid _ _ tracked
    · exact sound.valid _ _ tracked
  obtain ⟨made, evicted⟩ := exec_criticalJail_evicts valid evictable evicting
  obtain ⟨p, member, rfl, first⟩ := sortCandidates_head sorted
  rw [List.append_nil, made] at calls
  refine ⟨calls, evicted, p, (runs.mem_jails sound).mp member, fun other q filed => first q ?_⟩
  rw [runs.mem_jails sound, sound.filed other q filed]
  exact filed

/-- Where the head of the candidates holds no memory the round does nothing. -/
theorem Tick.Runs.spares (runs : t.Runs policy)
    (spared : ∀ jail ∈ (sortCandidates t.jails).head?, ¬ t.before.evictable jail) :
    invocations t.moments = [] ∧ t.after = t.before := by
  obtain ⟨moments, calls, exec⟩ := runs.branch
  cases sorted : sortCandidates t.jails with
  | nil =>
    rw [sorted] at exec
    obtain ⟨rfl, _, same⟩ := exec
    exact ⟨calls, same⟩
  | cons jail rest =>
    rw [sorted] at exec spared
    obtain ⟨own, _, _, _, sparing, ⟨rfl, _, rfl⟩, rfl⟩ := exec_bind.mp exec
    obtain ⟨none, same⟩ := exec_criticalJail_spares (spared jail rfl) sparing
    rw [List.append_nil, none] at calls
    exact ⟨calls, same⟩

theorem Tick.Runs.progress_iff (runs : t.Runs policy) (sound : t.before.Sound) : t.Progress ↔ t.HeadEvictable := by
  constructor
  · intro progress
    by_cases holds : t.before.victims.Nonempty
    · obtain ⟨jail, p, _, _, _, calls, _⟩ := progress holds
      by_contra headless
      have spared : ∀ jail ∈ (sortCandidates t.jails).head?, ¬ t.before.evictable jail :=
        fun jail head evictable => headless (.inr ⟨jail, head, evictable⟩)
      rw [(runs.spares spared).1] at calls
      cases calls
    · exact .inl (Finset.not_nonempty_iff_eq_empty.mp holds)
  · rintro (none | ⟨jail, head, evictable⟩) holds
    · exact absurd none holds.ne_empty
    · obtain ⟨calls, evicted, p, filed, first⟩ := runs.evicts sound head evictable
      exact ⟨jail, p, World.mem_victims.mpr ⟨⟨p, filed⟩, evictable⟩, filed, fun other q _ => first other q,
        calls, evicted.dead⟩

/-- What a round with an evictable head, or without anything to evict, makes of the tracked jails. -/
inductive Tick.Outcome (t : Tick) : Prop
  | quiet : invocations t.moments = [] → t.before.victims = ∅ → t.after = t.before → Outcome t
  | evicts (jail : String) (p : JailPriority) : invocations t.moments = [.hibernate jail, .kill jail] →
      jail ∈ t.before.victims → t.before.priorities.lookup jail = some p →
      (∀ other q, t.before.priorities.lookup other = some q → p.EvictedBefore q) →
      Evicted jail t.before t.after → Outcome t

theorem Tick.Runs.outcome (runs : t.Runs policy) (sound : t.before.Sound) (ready : t.HeadEvictable) : t.Outcome := by
  by_cases head : ∃ jail ∈ (sortCandidates t.jails).head?, t.before.evictable jail
  · obtain ⟨jail, head, evictable⟩ := head
    obtain ⟨calls, evicted, p, filed, first⟩ := runs.evicts sound head evictable
    exact .evicts jail p calls (World.mem_victims.mpr ⟨⟨p, filed⟩, evictable⟩) filed first evicted
  · obtain ⟨calls, same⟩ := runs.spares fun jail at_head evictable => head ⟨jail, at_head, evictable⟩
    exact .quiet calls (ready.resolve_right head) same

theorem Evicted.sound {jail : String} {w w' : World} (evicted : Evicted jail w w') (sound : w.Sound)
    (tracked : jail ∈ w.victims) : w'.Sound := by
  constructor
  · intro other state at_other
    by_cases same : other = jail
    · subst same
      rcases (World.mem_victims.mp tracked).2 with before | before
      · exact sound.valid _ _ before
      · exact sound.valid _ _ before
    · exact sound.valid other state (evicted.others other same ▸ at_other)
  · rw [evicted.priorities]
    exact sound.filed

theorem Evicted.victims {jail : String} {w w' : World} (evicted : Evicted jail w w') :
    w'.victims = w.victims.erase jail := by
  ext other
  rw [Finset.mem_erase, World.mem_victims, World.mem_victims, evicted.priorities]
  by_cases same : other = jail
  · subst same
    simp [World.evictable, evicted.dead]
  · simp [World.evictable, evicted.others other same, same]

/-- Nothing the monitor decides by has changed. -/
structure Calm (w w' : World) : Prop where
  states : w'.states = w.states
  priorities : w'.priorities = w.priorities

/-- Rounds one after the other, between which nobody writes the maps. -/
inductive Consecutive (policy : LifecyclePolicy) : World → List Tick → World → Prop
  | done {w w'} : Calm w w' → Consecutive policy w [] w'
  | tick {w t ticks w'} : Calm w t.before → t.Runs policy → Consecutive policy t.after ticks w' →
      Consecutive policy w (t :: ticks) w'

/-- The jails killed in a sequence of rounds, in order. -/
def killed (ticks : List Tick) : List String :=
  ticks.flatMap fun t => (invocations t.moments).filterMap fun
    | .kill jail => some jail
    | _ => none

/-- The jails killed are distinct tracked jails that held memory, in eviction order,
and with enough rounds they are all of them. -/
structure EvictsInOrder (w : World) (ticks : List Tick) (w' : World) : Prop where
  distinct : (killed ticks).Nodup
  held : ∀ jail ∈ killed ticks, jail ∈ w.victims
  ordered : (killed ticks).Pairwise fun first second => ∀ p q,
    w.priorities.lookup first = some p → w.priorities.lookup second = some q → p.EvictedBefore q
  all : w.victims.card ≤ ticks.length → (∀ jail ∈ w.victims, jail ∈ killed ticks) ∧ w'.victims = ∅

theorem Calm.victims {w w' : World} (calm : Calm w w') : w'.victims = w.victims := by
  ext jail
  simp only [World.mem_victims, World.evictable, calm.states, calm.priorities]

theorem Calm.sound {w w' : World} (calm : Calm w w') (sound : w.Sound) : w'.Sound :=
  ⟨calm.states ▸ sound.valid, calm.priorities ▸ sound.filed⟩

theorem Tick.Runs.sound_after (runs : t.Runs policy) (sound : t.before.Sound) : t.after.Sound := by
  by_cases head : ∃ jail ∈ (sortCandidates t.jails).head?, t.before.evictable jail
  · obtain ⟨jail, head, evictable⟩ := head
    obtain ⟨_, evicted, p, filed, _⟩ := runs.evicts sound head evictable
    exact evicted.sound sound (World.mem_victims.mpr ⟨⟨p, filed⟩, evictable⟩)
  · obtain ⟨_, same⟩ := runs.spares fun jail at_head evictable => head ⟨jail, at_head, evictable⟩
    rwa [same]

variable {w w' : World} {ticks : List Tick}

theorem EvictsInOrder.nil (calm : Calm w w') : EvictsInOrder w [] w' := by
  refine ⟨List.nodup_nil, by simp [killed], List.Pairwise.nil, fun few => ?_⟩
  have none : w.victims = ∅ := Finset.card_eq_zero.mp (Nat.le_zero.mp few)
  exact ⟨by simp [none], calm.victims.trans none⟩

theorem EvictsInOrder.cons (calm : Calm w t.before) (outcome : t.Outcome)
    (later : EvictsInOrder t.after ticks w') : EvictsInOrder w (t :: ticks) w' := by
  cases outcome with
  | quiet calls none same =>
    have silent : killed (t :: ticks) = killed ticks := by simp [killed, calls]
    have nothing : t.after.victims = ∅ := by rw [same, none]
    have empty : w.victims = ∅ := calm.victims.symm.trans none
    have gone := later.all (by simp [nothing])
    refine ⟨silent ▸ later.distinct, fun jail member => ?_, ?_, fun _ => ⟨by simp [empty], gone.2⟩⟩
    · have held := later.held jail (silent ▸ member)
      rw [nothing] at held
      cases held
    · rw [silent]
      have kept : t.after.priorities = w.priorities := by rw [same, calm.priorities]
      simpa only [kept] using later.ordered
  | evicts jail p calls tracked filed first evicted =>
    have heads : killed (t :: ticks) = jail :: killed ticks := by simp [killed, calls]
    have left : t.after.victims = w.victims.erase jail := evicted.victims.trans (by rw [calm.victims])
    rw [calm.victims] at tracked
    refine ⟨?_, ?_, ?_, fun few => ?_⟩
    · rw [heads, List.nodup_cons]
      refine ⟨fun again => ?_, later.distinct⟩
      have held := later.held jail again
      rw [left] at held
      exact absurd rfl (Finset.mem_erase.mp held).1
    · rw [heads]
      intro other member
      rcases List.mem_cons.mp member with rfl | after
      · exact tracked
      · have held := later.held other after
        rw [left] at held
        exact (Finset.mem_erase.mp held).2
    · rw [heads, List.pairwise_cons]
      constructor
      · intro other _ p' q at_jail at_other
        rw [← calm.priorities] at at_jail at_other
        cases at_jail.symm.trans filed
        exact first other q at_other
      · have kept : t.after.priorities = w.priorities := evicted.priorities.trans calm.priorities
        simpa only [kept] using later.ordered
    · have fewer : t.after.victims.card ≤ ticks.length := by
        rw [left, Finset.card_erase_of_mem tracked]
        rw [List.length_cons] at few
        omega
      obtain ⟨all, gone⟩ := later.all fewer
      refine ⟨fun other held => ?_, gone⟩
      rw [heads, List.mem_cons]
      by_cases same : other = jail
      · exact .inl same
      · exact .inr (all other (left ▸ Finset.mem_erase.mpr ⟨same, held⟩))

theorem Consecutive.evicts {policy : LifecyclePolicy} (run : Consecutive policy w ticks w') (sound : w.Sound)
    (ready : ∀ t ∈ ticks, t.HeadEvictable) : EvictsInOrder w ticks w' := by
  induction run with
  | done calm => exact .nil calm
  | tick calm runs _ ih =>
    have sound := calm.sound sound
    refine .cons calm (runs.outcome sound (ready _ (List.mem_cons_self ..))) ?_
    exact ih (runs.sound_after sound) fun t member => ready t (List.mem_cons_of_mem _ member)

theorem Consecutive.progress_iff {policy : LifecyclePolicy} (run : Consecutive policy w ticks w') (sound : w.Sound) :
    (∀ t ∈ ticks, t.Progress) ↔ ∀ t ∈ ticks, t.HeadEvictable := by
  induction run with
  | done calm => simp
  | tick calm runs _ ih =>
    have sound := calm.sound sound
    rw [List.forall_mem_cons, List.forall_mem_cons, runs.progress_iff sound, ih (runs.sound_after sound)]

end tick

section runs
variable {policy : LifecyclePolicy} {w w' : World} {c : Config Daemon Actor World} {ticks : List Tick}

theorem reach_sound (started : w.Started) (reach : Reach (lifecycled policy) (anyStep _) (Config.idle w) c) :
    c.world.Sound :=
  ⟨fun _ _ tracked => reach_states_valid started reach tracked, reach_priorities_filed started reach⟩

/-- From any reachable state, consecutive rounds under Critical pressure all make
progress, and evict the tracked jails in eviction order until none holds memory,
exactly where in every round the first candidate is one that holds memory. -/
theorem critical_progress_iff (started : w.Started)
    (reach : Reach (lifecycled policy) (anyStep _) (Config.idle w) c) (run : Consecutive policy c.world ticks w') :
    ((∀ t ∈ ticks, t.Progress) ∧ EvictsInOrder c.world ticks w') ↔ ∀ t ∈ ticks, t.HeadEvictable := by
  have sound := reach_sound started reach
  rw [run.progress_iff sound]
  exact ⟨And.left, fun ready => ⟨ready, run.evicts sound ready⟩⟩

/-- A round played from a reachable state is one of consecutive rounds. -/
theorem played_tick {stats : MemStats} {w w' : World} {moments : List (Moment Daemon World)}
    (critical : MemPressure.fromStats stats = .critical) (enabled : w.memGuardDisabled = false)
    (exec : Exec (lifecycled policy) .monitor (monitorRound policy stats) w moments () w') :
    ∃ t : Tick, t.before = w ∧ t.after = w' ∧ invocations t.moments = invocations moments ∧
      Consecutive policy w [t] w' := by
  have made := exec
  obtain ⟨jails, rest, _, rfl, _⟩ := made
  exact ⟨⟨w, jails, rest, w'⟩, rfl, rfl, rfl,
    .tick ⟨rfl, rfl⟩ ⟨stats, critical, enabled, exec⟩ (.done ⟨rfl, rfl⟩)⟩

/-- The memory at 10 percent. -/
def tenPercent : MemStats := ⟨100, 10, 0, 10⟩

/-- The only jail is thawed, and evicted in the next round. -/
theorem critical_progress_iff_one : ∃ (c : Config Daemon Actor World) (t : Tick), t.before = c.world ∧ t.before.victims = {"app"} ∧
    invocations t.moments = [.hibernate "app", .kill "app"] ∧
    (((∀ u ∈ [t], u.Progress) ∧ EvictsInOrder c.world [t] t.after) ↔ ∀ u ∈ [t], u.HeadEvictable) := by
  obtain ⟨c, reach, checked⟩ := replay_check (fun _ _ => true) (fun _ _ _ => trivial)
    (Config.idle (oneCandidate 200)) (thaw (.forPlatform false))
    (fun c => (c.world.memGuardDisabled = false ∧ c.world.victims = {"app"}) &&
      (play (lifecycled (.forPlatform false)) .monitor (monitorRound (.forPlatform false) tenPercent) c.world
      [⟨.prioritiesValues, ([⟨"app", 200, 0⟩] : List JailPriority)⟩, ⟨.guardLoad, false⟩,
        ⟨.statesGet "app", some .running⟩, ⟨.note (.criticalEvicting "app"), ()⟩,
        ⟨.note (.invoked (.hibernate "app")), ()⟩, ⟨.jidByName "app", .error "jail_get(app): errno=2"⟩,
        ⟨.unixTime, (0 : Nat)⟩,
        ⟨.output "zfs" ["snapshot", "bsdos/apps/app@hibernate-0"], .error "No such file or directory"⟩,
        ⟨.note (.returned (.hibernate "app") false), ()⟩, ⟨.note (.invoked (.kill "app")), ()⟩,
        ⟨.jidByName "app", .error "jail_get(app): errno=2"⟩, ⟨.pathExists "/jails/apps/app/tmp/wayland-0", false⟩,
        ⟨.output "zfs" ["list", "bsdos/apps/app/tmp"], .error "No such file or directory"⟩,
        ⟨.statesInsert "app" .dead, ()⟩, ⟨.note (.returned (.kill "app") true), ()⟩]).any
      fun out => invocations out.1 = [.hibernate "app", .kill "app"]) (by decide +kernel)
  obtain ⟨ready, played⟩ := Bool.and_eq_true_iff.mp checked
  obtain ⟨out, played, calls⟩ := (Option.any_eq_true _ _).mp played
  obtain ⟨enabled, victims⟩ := of_decide_eq_true ready
  obtain ⟨t, before, after, same, run⟩ := played_tick (by decide +kernel) enabled (play_exec played)
  refine ⟨c, t, before, before ▸ victims, same.trans (of_decide_eq_true calls), ?_⟩
  rw [after]
  exact critical_progress_iff (oneCandidate_started 200) reach run

/-- A priority is set for a name that is no jail, and the jail is thawed. -/
def ghostThenThaw (policy : LifecyclePolicy) : List (Label (lifecycled policy)) :=
  serving (lifecycled policy) (.conn 0) (.line "SET_PRIORITY ghost 255")
    [⟨.unixTime, (0 : Nat)⟩, ⟨.prioritiesInsert "ghost" ⟨"ghost", 255, 0⟩, ()⟩,
      ⟨.reply "+OK jail=ghost priority=255\n", ()⟩] ++ thaw policy

/-- With that name on top of the eviction order a round under Critical pressure leaves
the running jail alone. -/
theorem critical_without_progress : (oneCandidate 200).Started ∧
    ∃ (c : Config Daemon Actor World) (t : Tick) (w' : World),
      Reach (lifecycled (.forPlatform false)) (anyStep _) (Config.idle (oneCandidate 200)) c ∧
      Consecutive (.forPlatform false) c.world [t] w' ∧ ¬ t.Progress := by
  obtain ⟨c, reach, checked⟩ := replay_check (fun _ _ => true) (fun _ _ _ => trivial)
    (Config.idle (oneCandidate 200)) (ghostThenThaw (.forPlatform false))
    (fun c => (c.world.memGuardDisabled = false ∧ "app" ∈ c.world.victims) &&
      (play (lifecycled (.forPlatform false)) .monitor (monitorRound (.forPlatform false) tenPercent) c.world
      [⟨.prioritiesValues, ([⟨"app", 200, 0⟩, ⟨"ghost", 255, 0⟩] : List JailPriority)⟩, ⟨.guardLoad, false⟩,
        ⟨.statesGet "ghost", none⟩]).any fun out => invocations out.1 = []) (by decide +kernel)
  obtain ⟨ready, played⟩ := Bool.and_eq_true_iff.mp checked
  obtain ⟨out, played, calls⟩ := (Option.any_eq_true _ _).mp played
  obtain ⟨enabled, held⟩ := of_decide_eq_true ready
  obtain ⟨t, before, after, same, run⟩ := played_tick (by decide +kernel) enabled (play_exec played)
  refine ⟨oneCandidate_started 200, c, t, out.2.2, reach, run, fun progress => ?_⟩
  obtain ⟨_, _, _, _, _, made, _⟩ := progress ⟨"app", by rwa [before]⟩
  rw [same, of_decide_eq_true calls] at made
  cases made

end runs

end Bsdos.Lifecycle
