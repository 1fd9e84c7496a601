import Bsdos.Lifecycle.Idle
import Bsdos.Lifecycle.Pressure

namespace Bsdos.Lifecycle
open Effects

/-- What a tick of the monitor has read, and how far it is in its candidates. The exposed ones
are those it goes through without a look at their priority; `idle` and `found` are set by
what it reads of a jail, `current` is the jail of the operation it executes. -/
structure Round where
  figures : List Nat
  candidates : List String
  exposed : List String
  now : Option Nat
  idle : Option String
  found : Option String
  current : Option String
  deriving DecidableEq, Repr

namespace Round

def start : Round := ⟨[], [], [], none, none, none, none⟩

/-- The pressure for the figures read; nothing is done before all three are there. -/
def level (γ : Round) : MemPressure :=
  match γ.figures with
  | [total, free, inactive] => MemPressure.fromStats (statsOf total free inactive)
  | _ => .normal

/-- The candidates that the Warn and the Critical branch go through. -/
def first (policy : LifecyclePolicy) (shouldSkipKills : Bool) (candidates : List String) : MemPressure → List String
  | .warn => if policy.aggressiveFreeze then candidates.take 2 else []
  | .critical => if shouldSkipKills then [] else candidates.take 1
  | .normal | .oom => []

/-- The tick goes on to its next candidate. -/
def goesOn (γ : Round) : Round := { γ with exposed := γ.exposed.tail, idle := none }

/-- The Warn branch looks for idle jails, the Oom branch for those in the background. -/
def readEntry (γ : Round) (policy : LifecyclePolicy) (jail : String) (entry : Option JailPriority) : Round :=
  match γ.level with
  | .warn =>
    if γ.now.any (judgedIdle policy entry) then { γ with idle := some jail } else γ.goesOn
  | _ => { γ with found := if entry.any (·.priority = 0) then none else some jail }

/-- The tracked states the branch acts on. -/
def wants (γ : Round) (state : Option AppState) : Bool :=
  state = some .running || γ.level = .critical && state = some .frozen

def readState (γ : Round) (jail : String) (state : Option AppState) : Round :=
  if γ.wants state then { γ with found := some jail } else γ.goesOn

/-- The operation on the jail is over. -/
def passed (γ : Round) : Round := { γ.goesOn with found := none, current := none }

/-- The maps are such that the branch acts on an exposed jail: under Critical its tracked state is
Running or Frozen, under Warn it is Running and the jail is idle at the clock read. -/
def actsOn (γ : Round) (policy : LifecyclePolicy) (w : World) (jail : String) : Bool :=
  match γ.level with
  | .warn => γ.wants (w.states.lookup jail) &&
      (γ.idle = some jail || γ.now.any (judgedIdle policy (w.priorities.lookup jail)))
  | .critical => γ.wants (w.states.lookup jail)
  | .normal | .oom => false

/-- The call gives priority 0 to no jail the tick has found. -/
def leaves (γ : Round) : Op → Bool
  | .prioritiesInsert jail entry => γ.found ≠ some jail || entry.priority ≠ 0
  | _ => true

/-- No exposed candidate has priority 0 while the branch acts on it. -/
def Spares (γ : Round) (policy : LifecyclePolicy) (w : World) : Prop :=
  ∀ jail ∈ γ.exposed, γ.actsOn policy w jail → ¬ w.foreground jail

instance (γ : Round) (policy : LifecyclePolicy) (w : World) : Decidable (γ.Spares policy w) :=
  inferInstanceAs (Decidable (∀ jail ∈ γ.exposed, _ → ¬ _))

end Round

/-- The calls a tick makes of an operation are about the jail it found. -/
def rounds (policy : LifecyclePolicy) : Protocol Daemon Round where
  next γ
    | .sleep _, _ => .start
    | .sysctl _, .ok figure => { Round.start with figures := γ.figures ++ [figure] }
    | .prioritiesValues, jails => { Round.start with figures := γ.figures, candidates := sortCandidates jails }
    | .guardLoad, skip => { Round.start with
        figures := γ.figures, candidates := γ.candidates, exposed := Round.first policy skip γ.candidates γ.level }
    | .unixTime, now => if γ.current = none then { γ with now := some now } else γ
    | .prioritiesGet jail, entry => γ.readEntry policy jail entry
    | .statesGet jail, state => γ.readState jail state
    | .note (.invoked call), _ => { γ with current := some call.jail }
    | .note (.returned (.hibernate _) _), _ => { γ with current := none }
    | .note (.returned _ _), _ => γ.passed
    | _, _ => γ
  allows γ op := (∀ jail, γ.current = some jail → γ.found = some jail) ∧
    match op with
    | .note (.invoked call) => γ.found = some call.jail
    | .statesGet jail => jail ∈ γ.exposed ∧ (γ.level = .warn ∧ γ.idle = some jail ∨ γ.level = .critical)
    | .statesInsert jail _ => γ.found = some jail
    | .prioritiesInsert _ _ => False
    | _ => True

/-- Before and between its operations a tick has found no jail. -/
structure Round.At (γ : Round) (level : MemPressure) (exposed : List String) : Prop where
  level : γ.level = level
  exposed : γ.exposed = exposed
  found : γ.found = none
  current : γ.current = none

section follows
variable {jail : String} {policy : LifecyclePolicy} {γ : Round} {level : MemPressure} {exposed : List String}

theorem unengaged_of {found current : Option String} (rest : current = none) :
    ∀ id, current = some id → found = some id := by
  rintro id rfl
  cases rest

/-- What an operation does between its entry and its return is about its jail, and no reading of
the tick. -/
theorem Op.ActsOn.within {op : Op} (acts : op.ActsOn jail) (current : γ.current = some jail)
    (found : γ.found = some jail) :
    (rounds policy).allows γ op ∧ ∀ r, (rounds policy).next γ op r = γ := by
  have engaged : ∀ id, γ.current = some id → γ.found = some id := by
    intro id busy
    rw [found, ← current, busy]
  cases op with
  | statesInsert id state =>
    obtain ⟨rfl, _⟩ := acts
    exact ⟨⟨engaged, found⟩, fun _ => rfl⟩
  | unixTime =>
    refine ⟨⟨engaged, trivial⟩, fun now => if_neg ?_⟩
    rw [current]
    nofun
  | jidByName _ | jailPids _ | kill _ _ | output _ _ | pathExists _ | removeFile _ =>
    exact ⟨⟨engaged, trivial⟩, fun _ => rfl⟩
  | _ => exact acts.elim

/-- An operation on the jail found is one of the tick's, and leaves it as its return does. -/
theorem operation_reads (call : Call) {body : String → Fallible String} (found : γ.found = some call.jail)
    (current : γ.current = none)
    (only : ValidId call.jail → (body call.jail).run.Only (Op.ActsOn call.jail)) :
    (operation call body).run.Follows (rounds policy)
      (fun r γ' => γ' = (rounds policy).next { γ with current := some call.jail } (.note (.returned call r.isOk)) ()) γ := by
  have engaged : ∀ id, ({ γ with current := some call.jail } : Round).current = some id → γ.found = some id := by
    rintro id ⟨⟩
    exact found
  refine operation_follows (M := fun _ γ' => γ' = { γ with current := some call.jail })
    ⟨unengaged_of current, found⟩ (fun valid => ?_) (fun _ _ => rfl) ?_
  · refine (only valid).keeps (fun γ' op acts same => ?_) rfl
    subst same
    exact acts.within rfl found
  · rintro r _ rfl
    exact ⟨⟨engaged, trivial⟩, rfl⟩

theorem Round.passed_at {rest : List String} (at_level : γ.level = level) (exposed : γ.exposed = jail :: rest) :
    γ.passed.At level rest :=
  ⟨at_level, (congrArg List.tail exposed).trans List.tail_cons, rfl, rfl⟩

theorem Round.At.goesOn {rest : List String} (at_rest : γ.At level (jail :: rest)) : γ.goesOn.At level rest :=
  ⟨at_rest.level, (congrArg List.tail at_rest.exposed).trans List.tail_cons, at_rest.found, at_rest.current⟩

/-- Every operation but a hibernation, which a kill follows, is the last one on its jail. -/
theorem operation_passes (call : Call) {body : String → Fallible String} (last : ∀ id, call ≠ .hibernate id)
    (found : γ.found = some call.jail) (current : γ.current = none)
    (only : ValidId call.jail → (body call.jail).run.Only (Op.ActsOn call.jail)) :
    (operation call body).run.Follows (rounds policy) (fun _ γ' => γ' = γ.passed) γ := by
  refine (operation_reads call found current only).mono fun r γ' same => ?_
  subst same
  cases call with
  | hibernate id => exact absurd rfl (last id)
  | _ => rfl

theorem Round.wants_warn (warn : γ.level = .warn) (state : Option AppState) :
    γ.wants state = decide (state = some .running) := by
  simp [Round.wants, warn]

theorem Round.wants_critical (critical : γ.level = .critical) (state : Option AppState) :
    γ.wants state = decide (state = some .running ∨ state = some .frozen) := by
  simp [Round.wants, critical]

/-- The tick reads the figures the pressure is computed from. -/
theorem readMemStats_reads : readMemStats.run.Follows (rounds policy)
    (fun r γ' => γ'.exposed = [] ∧ γ'.found = none ∧ γ'.current = none ∧
      ∀ stats, r = .ok stats → γ'.level = MemPressure.fromStats stats) .start := by
  refine ⟨⟨unengaged_of rfl, trivial⟩, fun r => ?_⟩
  cases r with
  | error e => exact ⟨rfl, rfl, rfl, nofun⟩
  | ok total =>
    refine ⟨⟨unengaged_of rfl, trivial⟩, fun r => ?_⟩
    cases r with
    | error e => exact ⟨rfl, rfl, rfl, nofun⟩
    | ok free =>
      refine ⟨⟨unengaged_of rfl, trivial⟩, fun r => ?_⟩
      cases r with
      | error e => exact ⟨rfl, rfl, rfl, nofun⟩
      | ok inactive =>
        refine ⟨rfl, rfl, rfl, ?_⟩
        rintro stats ⟨⟩
        rfl

theorem warnJail_reads {now : Nat} {rest : List String} (at_rest : γ.At .warn (jail :: rest)) (clock : γ.now = some now) :
    (warnJail policy now jail).Follows (rounds policy) (fun _ γ' => γ'.At .warn rest ∧ γ'.now = some now) γ := by
  obtain ⟨level, exposed, found, current⟩ := at_rest
  have looked (entry : Option JailPriority) : (rounds policy).next γ (.prioritiesGet jail) entry =
      if judgedIdle policy entry now then { γ with idle := some jail } else γ.goesOn := by
    show γ.readEntry policy jail entry = _
    simp only [Round.readEntry, level, clock, Option.any_some]
  have read : (prioritiesGet jail).Follows (rounds policy) (fun entry γ' =>
      γ' = if judgedIdle policy entry now then { γ with idle := some jail } else γ.goesOn) γ :=
    ⟨⟨unengaged_of current, trivial⟩, looked⟩
  rw [warnJail, isIdlePast_eq]
  refine (read.bind fun entry γ' same => ?_).bind (M := fun idle γ' =>
    γ' = if idle then { γ with idle := some jail } else γ.goesOn) fun idle γ' same => ?_
  · exact same
  subst same
  cases idle with
  | false => exact ⟨Round.At.goesOn ⟨level, exposed, found, current⟩, clock⟩
  | true =>
    have tracked : (statesGet jail).Follows (rounds policy) (fun state γ' =>
        γ' = ({ γ with idle := some jail } : Round).readState jail state) { γ with idle := some jail } :=
      ⟨⟨unengaged_of current, exposed ▸ List.mem_cons_self, .inl ⟨level, rfl⟩⟩, fun _ => rfl⟩
    refine tracked.bind fun state γ' same => ?_
    subst same
    rw [Round.readState, Round.wants_warn (γ := { γ with idle := some jail }) level]
    by_cases running : state = some .running
    · rw [if_pos running, if_pos (decide_eq_true running)]
      refine ⟨⟨unengaged_of current, trivial⟩, fun _ => ?_⟩
      refine (operation_passes (γ := { γ with idle := some jail, found := some jail }) (.freeze jail) nofun rfl
        current freezeBody_only).bind fun r γ' same => ?_
      subst same
      exact ⟨Round.passed_at level exposed, clock⟩
    · rw [if_neg running, if_neg (by simpa using running)]
      exact ⟨Round.At.goesOn (γ := { γ with idle := some jail }) ⟨level, exposed, found, current⟩, clock⟩

theorem criticalJail_reads {rest : List String} (at_rest : γ.At .critical (jail :: rest)) :
    (criticalJail jail).Follows (rounds policy) (fun _ γ' => γ'.At .critical rest) γ := by
  obtain ⟨level, exposed, found, current⟩ := at_rest
  have tracked : (statesGet jail).Follows (rounds policy) (fun state γ' => γ' = γ.readState jail state) γ :=
    ⟨⟨unengaged_of current, exposed ▸ List.mem_cons_self, .inr level⟩, fun _ => rfl⟩
  have evict : (evictJail jail).Follows (rounds policy) (fun _ γ' => γ'.At .critical rest) { γ with found := some jail } := by
    refine ⟨⟨unengaged_of current, trivial⟩, fun _ => ?_⟩
    refine (operation_reads (γ := { γ with found := some jail }) (.hibernate jail) rfl current
      hibernateBody_only).bind fun r γ' same => ?_
    subst same
    refine (operation_passes (γ := { γ with found := some jail, current := none }) (.kill jail) nofun rfl rfl
      killBody_only).bind fun r γ' same => ?_
    subst same
    exact Round.passed_at level exposed
  refine tracked.bind fun state γ' same => ?_
  subst same
  rw [Round.readState, Round.wants_critical level]
  split
  · exact evict
  · exact evict
  · rename_i running frozen
    rw [if_neg (by simpa using ⟨running, frozen⟩)]
    exact Round.At.goesOn ⟨level, exposed, found, current⟩

theorem oomJail_reads (at_rest : γ.At .oom []) :
    (oomJail jail).Follows (rounds policy) (fun _ γ' => γ'.At .oom []) γ := by
  obtain ⟨level, exposed, found, current⟩ := at_rest
  have read : (prioritiesGet jail).Follows (rounds policy) (fun entry γ' =>
      γ' = { γ with found := if entry.any (·.priority = 0) then none else some jail }) γ := by
    refine ⟨⟨unengaged_of current, trivial⟩, fun entry => ?_⟩
    show γ.readEntry policy jail entry = _
    simp only [Round.readEntry, level]
  refine read.bind fun entry γ' same => ?_
  subst same
  have decided : (entry.map fun p => decide (p.priority = 0)).getD false = entry.any (·.priority = 0) := by
    cases entry <;> rfl
  simp only [decided]
  cases foreground : entry.any (·.priority = 0) with
  | true => exact ⟨level, exposed, rfl, current⟩
  | false =>
    refine (operation_passes (γ := { γ with found := some jail }) (.kill jail) nofun rfl current
      killBody_only).bind fun r γ' same => ?_
    subst same
    refine ⟨level, ?_, rfl, rfl⟩
    show γ.exposed.tail = []
    rw [exposed, List.tail_nil]

/-- Between two ticks no candidate is exposed and no jail found. -/
def Round.Over (γ : Round) : Prop := γ.exposed = [] ∧ γ.found = none ∧ γ.current = none

theorem Round.At.over (at_rest : γ.At level []) : γ.Over := ⟨at_rest.exposed, at_rest.found, at_rest.current⟩

theorem Round.At.unixTime (at_rest : γ.At level exposed) (now : Nat) :
    ((rounds policy).next γ .unixTime now).At level exposed ∧
      ((rounds policy).next γ .unixTime now).now = some now := by
  have read : (rounds policy).next γ .unixTime now = { γ with now := some now } := if_pos at_rest.current
  rw [read]
  exact ⟨⟨at_rest.level, at_rest.exposed, at_rest.found, at_rest.current⟩, rfl⟩

theorem monitorRound_reads {stats : MemStats} (rested : γ.Over) (pressure : γ.level = MemPressure.fromStats stats) :
    (monitorRound policy stats).Follows (rounds policy) (fun _ γ' => γ'.Over) γ := by
  refine ⟨⟨unengaged_of rested.2.2, trivial⟩, fun jails => ⟨⟨unengaged_of rfl, trivial⟩, fun skip => ?_⟩⟩
  have exposes : ((rounds policy).next ((rounds policy).next γ .prioritiesValues jails) .guardLoad skip).At
      (MemPressure.fromStats stats) (Round.first policy skip (sortCandidates jails) (MemPressure.fromStats stats)) := by
    refine ⟨pressure, ?_, rfl, rfl⟩
    rw [← pressure]
    rfl
  cases pressed : MemPressure.fromStats stats with
  | normal =>
    rw [pressed] at exposes
    exact exposes.over
  | warn =>
    rw [pressed] at exposes
    dsimp only
    cases aggressive : policy.aggressiveFreeze with
    | false =>
      simp only [Round.first, aggressive] at exposes
      exact exposes.over
    | true =>
      simp only [Round.first, aggressive] at exposes
      refine ⟨⟨unengaged_of exposes.current, trivial⟩, fun now => ?_⟩
      exact (Prog.Follows.each (P := rounds policy) (I := fun rest γ' => γ'.At .warn rest ∧ γ'.now = some now)
        (exposes.unixTime now) fun jail rest γ' kept => warnJail_reads kept.1 kept.2).mono fun _ γ' kept => kept.1.over
  | critical =>
    rw [pressed] at exposes
    cases skip with
    | true => exact exposes.over
    | false =>
      exact (Prog.Follows.each (P := rounds policy) (I := fun rest γ' => γ'.At .critical rest) exposes
        fun jail rest γ' kept => criticalJail_reads kept).mono fun _ γ' kept => kept.over
  | oom =>
    rw [pressed] at exposes
    cases skip with
    | true => exact exposes.over
    | false =>
      exact (Prog.Follows.each (P := rounds policy) (I := fun _ γ' => γ'.At .oom []) exposes
        fun jail _ γ' kept => oomJail_reads kept).mono fun _ γ' kept => kept.over

theorem runMonitor_reads (rested : γ.Over) :
    (runMonitor policy).Follows (rounds policy) (fun _ γ' => γ'.Over) γ := by
  have slept : (Prog.perform (E := Daemon) (.sleep 5)).Follows (rounds policy) (fun _ γ' => γ' = .start) γ :=
    ⟨⟨unengaged_of rested.2.2, trivial⟩, fun _ => rfl⟩
  refine slept.bind fun _ γ' fresh => ?_
  subst fresh
  refine readMemStats_reads.bind fun r γ' ⟨exposed, found, current, pressure⟩ => ?_
  cases r with
  | error e => exact ⟨exposed, found, current⟩
  | ok stats => exact monitorRound_reads ⟨exposed, found, current⟩ (pressure stats rfl)

end follows

section runs
variable {policy : LifecyclePolicy} {ok : Config Daemon Actor World → Label (lifecycled policy) → Prop}
  {w w' : World} {c c' : Config Daemon Actor World} {γ : Round}

/-- What the tick of the monitor has read, along a run. -/
def roundOf (policy : LifecyclePolicy) (c : Config Daemon Actor World) : Round :=
  (rounds policy).state .start .monitor c.history

theorem reach_reads (reach : Reach (lifecycled policy) ok (Config.idle w) c) :
    c.Conforms (rounds policy) .start Round.Over .monitor := by
  refine reach.conforms ⟨rfl, rfl, rfl⟩ (fun request program served γ rested => ?_) fun _ _ _ dropped => nomatch dropped
  cases request with
  | tick => cases served; exact runMonitor_reads rested
  | _ => cases served

/-- The calls after which the tick goes through its candidates. -/
def Op.lists : Op → Bool
  | .guardLoad | .unixTime => true
  | _ => false

/-- When a tick has its list and its guard, or its clock, no exposed candidate it acts on has
priority 0 in the map; until it has got past them no other task changes that, or gives priority 0
to the jail it has found. -/
def foregroundSpared (policy : LifecyclePolicy) (c : Config Daemon Actor World) : Label (lifecycled policy) → Bool
  | .act ⟨a, op, r⟩ =>
    if a = .monitor then op.lists → ((rounds policy).next (roundOf policy c) op r).Spares policy c.world
    else (roundOf policy c).leaves op ∧ (roundOf policy c).Spares policy (c.world.after op r)
  | _ => true

/-- What the tick is about to act on is not in the foreground. -/
structure Cleared (policy : LifecyclePolicy) (γ : Round) (w : World) : Prop where
  exposed : γ.Spares policy w
  found : ∀ jail, γ.found = some jail → ¬ w.foreground jail

theorem World.foreground_congr (same : w'.priorities = w.priorities) (jail : String) :
    w'.foreground jail ↔ w.foreground jail := by
  unfold World.foreground
  rw [same]

theorem Round.Spares.congr (spares : γ.Spares policy w) (states : w'.states = w.states)
    (priorities : w'.priorities = w.priorities) : γ.Spares policy w' := by
  intro jail member acts
  rw [World.foreground_congr priorities]
  refine spares jail member ?_
  simpa only [Round.actsOn, states, priorities] using acts

theorem Cleared.congr (cleared : Cleared policy γ w) (states : w'.states = w.states)
    (priorities : w'.priorities = w.priorities) : Cleared policy γ w' := by
  refine ⟨cleared.exposed.congr states priorities, fun jail found => ?_⟩
  rw [World.foreground_congr priorities]
  exact cleared.found jail found

/-- The fewer candidates are exposed, and the fewer of them are acted on, the less can go wrong. -/
theorem Round.Spares.fewer {γ' : Round} (spares : γ.Spares policy w) (exposed : ∀ jail ∈ γ'.exposed, jail ∈ γ.exposed)
    (acts : ∀ jail, γ'.actsOn policy w jail → γ.actsOn policy w jail) : γ'.Spares policy w :=
  fun jail member acted => spares jail (exposed jail member) (acts jail acted)

theorem Round.actsOn_warn (warn : γ.level = .warn) {jail : String} : γ.actsOn policy w jail ↔
    w.states.lookup jail = some .running ∧
      (γ.idle = some jail ∨ γ.now.any (judgedIdle policy (w.priorities.lookup jail))) := by
  simp only [Round.actsOn, warn, Round.wants_warn warn, Bool.and_eq_true, Bool.or_eq_true, decide_eq_true_eq]

theorem Round.actsOn_critical (critical : γ.level = .critical) {jail : String} :
    γ.actsOn policy w jail ↔ γ.wants (w.states.lookup jail) := by
  simp only [Round.actsOn, critical]

/-- The branch acts on no more jails with a jail read as idle that is idle, or with none. -/
theorem Round.actsOn_idle {γ' : Round} {jail : String} (acts : γ'.actsOn policy w jail) (level : γ'.level = γ.level)
    (now : γ'.now = γ.now)
    (idle : γ'.idle = some jail → γ.idle = some jail ∨ γ.now.any (judgedIdle policy (w.priorities.lookup jail))) :
    γ.actsOn policy w jail := by
  cases pressed : γ.level with
  | warn =>
    obtain ⟨running, judged⟩ := (Round.actsOn_warn (level.trans pressed)).mp acts
    refine (Round.actsOn_warn pressed).mpr ⟨running, ?_⟩
    rcases judged with found | judged
    · exact idle found
    · rw [now] at judged
      exact .inr judged
  | critical =>
    rw [Round.actsOn_critical pressed]
    have wanted := (Round.actsOn_critical (level.trans pressed)).mp acts
    rwa [Round.wants_critical (level.trans pressed), ← Round.wants_critical pressed] at wanted
  | _ => simp only [Round.actsOn, level.trans pressed, Bool.false_eq_true] at acts

theorem Round.Spares.goesOn (spares : γ.Spares policy w) : γ.goesOn.Spares policy w := by
  refine spares.fewer (fun _ member => List.mem_of_mem_tail member) fun id acts => ?_
  refine Round.actsOn_idle acts rfl rfl ?_
  rintro ⟨⟩

theorem Cleared.prioritiesGet (cleared : Cleared policy γ w) (jail : String) :
    Cleared policy (γ.readEntry policy jail (w.priorities.lookup jail)) w := by
  have other : Cleared policy
      { γ with found := if (w.priorities.lookup jail).any (·.priority = 0) then none else some jail } w := by
    refine ⟨cleared.exposed, ?_⟩
    rintro id found ⟨p, filed, zero⟩
    split at found
    · cases found
    · rename_i behind
      cases found
      exact behind (by rw [Option.mem_def.mp filed]; simpa using zero)
  unfold Round.readEntry
  cases γ.level with
  | warn =>
    dsimp only
    split
    · rename_i judged
      refine ⟨cleared.exposed.fewer (fun _ member => member) fun id acts => ?_, cleared.found⟩
      refine Round.actsOn_idle acts rfl rfl ?_
      rintro ⟨⟩
      exact .inr judged
    · exact ⟨cleared.exposed.goesOn, cleared.found⟩
  | _ => exact other

theorem Cleared.statesGet (cleared : Cleared policy γ w) {jail : String}
    (allowed : (rounds policy).allows γ (.statesGet jail)) :
    Cleared policy (γ.readState jail (w.states.lookup jail)) w := by
  obtain ⟨_, exposed, reads⟩ := allowed
  unfold Round.readState
  split
  · rename_i wanted
    refine ⟨cleared.exposed, ?_⟩
    rintro _ ⟨⟩
    refine cleared.exposed jail exposed ?_
    rcases reads with ⟨warn, idle⟩ | critical
    · rw [Round.wants_warn warn] at wanted
      exact (Round.actsOn_warn warn).mpr ⟨of_decide_eq_true wanted, .inl idle⟩
    · exact (Round.actsOn_critical critical).mpr wanted
  · exact ⟨cleared.exposed.goesOn, cleared.found⟩

theorem Cleared.statesInsert (cleared : Cleared policy γ w) {jail : String} (found : γ.found = some jail)
    (state : AppState) : Cleared policy γ { w with states := w.states.insert jail state } := by
  refine ⟨fun other member acts => ?_, cleared.found⟩
  by_cases same : other = jail
  · subst same
    exact cleared.found other found
  · refine cleared.exposed other member ?_
    simpa only [Round.actsOn, Finmap.lookup_insert_of_ne _ same] using acts

/-- A step of the monitor itself: its readings tell the truth, and what it writes is about the
jail it has found. -/
theorem Cleared.own (cleared : Cleared policy γ w) {op : Op} {r : op.Ret} (allowed : (rounds policy).allows γ op)
    (may : w.may op r) (spared : op.lists → ((rounds policy).next γ op r).Spares policy w) :
    Cleared policy ((rounds policy).next γ op r) (w.after op r) := by
  have fresh (figures : List Nat) (candidates : List String) :
      Cleared policy { Round.start with figures, candidates } w := ⟨fun _ member => (nomatch member), nofun⟩
  cases op with
  | sleep _ => exact fresh [] []
  | sysctl key =>
    cases r with
    | ok figure => exact fresh _ []
    | error e => exact cleared
  | prioritiesValues => exact fresh _ _
  | guardLoad => exact ⟨spared rfl, nofun⟩
  | unixTime =>
    have same : ((rounds policy).next γ .unixTime r).found = γ.found := by
      simp only [rounds]
      split <;> rfl
    refine ⟨spared rfl, ?_⟩
    rw [same]
    exact cleared.found
  | prioritiesGet jail =>
    have read := World.may_prioritiesGet may
    subst read
    exact cleared.prioritiesGet jail
  | statesGet jail =>
    have read := World.may_statesGet may
    subst read
    exact cleared.statesGet allowed
  | statesInsert jail state => exact cleared.statesInsert allowed.2 state
  | prioritiesInsert jail entry => exact allowed.2.elim
  | note n =>
    cases n with
    | returned call ok =>
      cases call with
      | hibernate id => exact ⟨cleared.exposed, cleared.found⟩
      | _ => exact ⟨cleared.exposed.goesOn, nofun⟩
    | _ => exact ⟨cleared.exposed, cleared.found⟩
  | kill pid sig => cases r <;> exact cleared.congr rfl rfl
  | _ => exact cleared.congr rfl rfl

/-- A step of another task leaves the jail found in the background. -/
theorem Cleared.leaves (cleared : Cleared policy γ w) {op : Op} (r : op.Ret) (leaves : γ.leaves op) {jail : String}
    (found : γ.found = some jail) : ¬ (w.after op r).foreground jail := by
  rcases World.after_priorities w op r with same | ⟨id, entry, rfl, inserted⟩
  · rw [World.foreground_congr same]
    exact cleared.found jail found
  · rintro ⟨p, filed, zero⟩
    rw [inserted] at filed
    by_cases here : jail = id
    · subst here
      cases (Finmap.lookup_insert _).symm.trans (Option.mem_def.mp filed)
      simp [Round.leaves, found, zero] at leaves
    · rw [Finmap.lookup_insert_of_ne _ here] at filed
      exact cleared.found jail found ⟨p, filed, zero⟩

theorem cleared_step {l : Label (lifecycled policy)}
    (reads : c.Conforms (rounds policy) .start Round.Over .monitor)
    (cleared : Cleared policy (roundOf policy c) c.world) (step : Step (lifecycled policy) c l c')
    (spared : foregroundSpared policy c l) : Cleared policy (roundOf policy c') c'.world := by
  cases step with
  | @act a op next r at_work may =>
    by_cases monitor : a = .monitor
    · subst monitor
      have allowed := (reads.running at_work).1
      simp only [foregroundSpared, if_true, decide_eq_true_eq] at spared
      simp only [roundOf, Protocol.state_own]
      exact cleared.own allowed may spared
    · simp only [foregroundSpared, if_neg monitor, Bool.decide_and, Bool.and_eq_true, decide_eq_true_eq] at spared
      simp only [roundOf, Protocol.state_other (rounds policy) _ _ (e := ⟨a, op, r⟩) monitor]
      exact ⟨spared.2, fun jail found => cleared.leaves r spared.1 found⟩
  | env moved =>
    obtain ⟨states, priorities⟩ := World.change_maps moved
    exact cleared.congr states priorities
  | drop at_work droppable => cases droppable
  | _ => exact cleared

theorem reach_cleared (reach : Reach (lifecycled policy) (fun c l => foregroundSpared policy c l) (Config.idle w) c) :
    Cleared policy (roundOf policy c) c.world := by
  induction reach with
  | start => exact ⟨fun _ member => (nomatch member), nofun⟩
  | next previous step spared ih => exact cleared_step (reach_reads previous) ih step spared

/-- Where the maps spare the exposed candidates of priority 0 when a tick has read them and as long
as it goes through them, and no jail it has found is given priority 0, the monitor acts on no
foreground jail. -/
theorem foreground_left_alone (reach : Reach (lifecycled policy) (fun c l => foregroundSpared policy c l) (Config.idle w) c)
    {op : Op} {r : op.Ret} {jail : String} (step : Step (lifecycled policy) c (.act ⟨.monitor, op, r⟩) c')
    (acts : (roundOf policy c).current = some jail ∨ ∃ call, op = .note (.invoked call) ∧ call.jail = jail) :
    ¬ c.world.foreground jail := by
  obtain ⟨going, entered⟩ := (reach_reads reach).allows step
  refine (reach_cleared reach).found jail ?_
  rcases acts with busy | ⟨call, rfl, rfl⟩
  · exact going jail busy
  · exact entered

/-- The SIGKILL of an eviction of a background jail. -/
theorem foreground_left_alone_background : ∃ c c', (roundOf (.forPlatform false) c).current = some "app" ∧
    Step (lifecycled (.forPlatform false)) c (.act ⟨.monitor, .kill 10 .kill, .ok ()⟩) c' ∧
    ¬ c.world.foreground "app" := by
  obtain ⟨c, reach, checked⟩ := replay_check (foregroundSpared _) (fun _ _ spared => spared)
    (Config.idle (oneCandidate 200))
    (thawThenCritical (.forPlatform false) 200 ⟨true, "exit status: 0", "", ""⟩ ++ savedThenKill (.forPlatform false))
    (fun c => (roundOf (.forPlatform false) c).current = some "app" && (c.fire (S := lifecycled (.forPlatform false))
      (.act ⟨.monitor, .kill 10 .kill, .ok ()⟩)).isSome) (by decide +kernel)
  obtain ⟨current, fired⟩ := Bool.and_eq_true_iff.mp checked
  obtain ⟨c', fired⟩ := Option.isSome_iff_exists.mp fired
  have step := Config.fire_step fired
  exact ⟨c, c', of_decide_eq_true current, step, foreground_left_alone reach step (.inl (of_decide_eq_true current))⟩

/-- The Critical branch kills the only jail although its priority is 0. -/
theorem foreground_evicted : (oneCandidate 0).Started ∧ ∃ c c',
    Reach (lifecycled (.forPlatform false)) (anyStep _) (Config.idle (oneCandidate 0)) c ∧
    (roundOf (.forPlatform false) c).current = some "app" ∧ c.world.foreground "app" ∧
    Step (lifecycled (.forPlatform false)) c (.act ⟨.monitor, .kill 10 .kill, .ok ()⟩) c' := by
  obtain ⟨c, reach, checked⟩ := replay_check (fun _ _ => true) (fun _ _ _ => trivial)
    (Config.idle (oneCandidate 0))
    (thawThenCritical (.forPlatform false) 0 ⟨true, "exit status: 0", "", ""⟩ ++ savedThenKill (.forPlatform false))
    (fun c => ((roundOf (.forPlatform false) c).current = some "app" ∧ c.world.foreground "app") &&
      (c.fire (S := lifecycled (.forPlatform false)) (.act ⟨.monitor, .kill 10 .kill, .ok ()⟩)).isSome) (by decide +kernel)
  obtain ⟨acts, fired⟩ := Bool.and_eq_true_iff.mp checked
  obtain ⟨c', fired⟩ := Option.isSome_iff_exists.mp fired
  obtain ⟨current, foreground⟩ := of_decide_eq_true acts
  exact ⟨oneCandidate_started 0, c, c', reach, current, foreground, Config.fire_step fired⟩

end runs

end Bsdos.Lifecycle
