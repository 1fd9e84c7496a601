import Bsdos.Lifecycle.Commands
import Mathlib.Data.List.Sort

namespace Bsdos.Lifecycle
open Effects

/-- Memory figures; the free share is kept exact, without the rounding of `f32`. -/
structure MemStats where
  totalPages : Nat
  freePages : Nat
  inactivePages : Nat
  freePct : ℚ
  deriving DecidableEq

def readMemStats : Fallible MemStats := do
  let total ← tryCall (.sysctl "vm.stats.vm.v_page_count") rfl
  let free ← tryCall (.sysctl "vm.stats.vm.v_free_count") rfl
  let inactive ← tryCall (.sysctl "vm.stats.vm.v_inactive_count") rfl
  let freePct : ℚ := if total > 0 then (free : ℚ) / total * 100 else 100
  return ⟨total, free, inactive, freePct⟩

inductive MemPressure
  | normal
  | warn
  | critical
  | oom
  deriving DecidableEq, Repr

def MemPressure.fromStats (stats : MemStats) : MemPressure :=
  let pct := ⌊stats.freePct⌋.toNat
  if 51 ≤ pct ∧ pct ≤ 100 then .normal
  else if 21 ≤ pct ∧ pct ≤ 50 then .warn
  else if 6 ≤ pct ∧ pct ≤ 20 then .critical
  else .oom

/-- `a` goes before `b`, or ties with it: priority descending, then `last_active` ascending. -/
def JailPriority.EvictedBefore (a b : JailPriority) : Prop :=
  b.priority < a.priority ∨ (b.priority = a.priority ∧ a.lastActive ≤ b.lastActive)

instance : DecidableRel JailPriority.EvictedBefore := fun a b =>
  inferInstanceAs (Decidable (b.priority < a.priority ∨ (b.priority = a.priority ∧ a.lastActive ≤ b.lastActive)))

/-- The stable sort of the tracked jails, taken in the map's iteration order. -/
def sortCandidates (jails : List JailPriority) : List String :=
  (jails.insertionSort JailPriority.EvictedBefore).map JailPriority.jailId

def evictionCandidates : Task (List String) := do
  let jails : List JailPriority ← call .prioritiesValues
  return sortCandidates jails

def prioritiesGet (jail : String) : Task (Option JailPriority) := call (.prioritiesGet jail)

def isIdlePast (jailId : String) (idleSecs now : Nat) : Task Bool := do
  match (← prioritiesGet jailId).map JailPriority.lastActive with
  | some 0 | none => return true
  | some ts => return idleSecs ≤ now - ts

/-- The Warn branch on one candidate. -/
def warnJail (policy : LifecyclePolicy) (now : Nat) (jailId : String) : Task Unit := do
  if ← isIdlePast jailId policy.idleFreezeSecs now then
    if (← statesGet jailId) = some .running then
      log (.warnFreezing jailId)
      let _ ← (freezeApplication jailId).run

/-- An eviction: a snapshot, then a kill to free the memory. -/
def evictJail (jailId : String) : Task Unit := do
  log (.criticalEvicting jailId)
  let _ ← (hibernateApplication jailId).run
  let _ ← (killApplication jailId).run

/-- The Critical branch on one candidate. -/
def criticalJail (jailId : String) : Task Unit := do
  match ← statesGet jailId with
  | some .running | some .frozen => evictJail jailId
  | _ => return

/-- The Oom branch on one candidate. -/
def oomJail (jailId : String) : Task Unit := do
  let isForeground := ((← prioritiesGet jailId).map fun p => decide (p.priority = 0)).getD false
  if !isForeground then
    let _ ← (killApplication jailId).run

/-- One round of the monitor on the figures read. -/
def monitorRound (policy : LifecyclePolicy) (stats : MemStats) : Task Unit := do
  let pressure := MemPressure.fromStats stats
  let candidates ← evictionCandidates
  let shouldSkipKills : Bool ← call .guardLoad
  match pressure with
  | .normal => return
  | .warn =>
    if policy.aggressiveFreeze then
      let now ← unixTimestamp
      Prog.each (warnJail policy now) (candidates.take 2)
  | .critical =>
    if !shouldSkipKills then Prog.each criticalJail (candidates.take 1)
  | .oom =>
    if !shouldSkipKills then Prog.each oomJail candidates

/-- One turn of the loop of `run_monitor`. -/
def runMonitor (policy : LifecyclePolicy) : Task Unit := do
  call (.sleep 5)
  match ← readMemStats.run with
  | .error _ => return
  | .ok stats => monitorRound policy stats

end Bsdos.Lifecycle
