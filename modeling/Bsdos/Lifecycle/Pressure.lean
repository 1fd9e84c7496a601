import Bsdos.Lifecycle.Monitor
import Mathlib.Algebra.Order.Floor.Ring
import Mathlib.Tactic.FieldSimp
import Mathlib.Tactic.Linarith
import Mathlib.Tactic.NormNum
import Mathlib.Tactic.Positivity

namespace Bsdos.Lifecycle
open Effects

/-- What is read when the counters stand so. -/
def statsOf (total free inactive : Nat) : MemStats :=
  ⟨total, free, inactive, if total > 0 then (free : ℚ) / total * 100 else 100⟩

/-- The share of free pages, in percent. -/
def percent (total free : Nat) : ℚ := 100 * free / total

/-- The levels as they are documented. -/
def documented (p : ℚ) : MemPressure :=
  if 50 < p then .normal else if 20 < p then .warn else if 5 ≤ p then .critical else .oom

/-- How severe a level is. -/
def MemPressure.rank : MemPressure → Nat
  | .normal => 0
  | .warn => 1
  | .critical => 2
  | .oom => 3

/-- A round of the monitor at a level. -/
def roundAt (policy : LifecyclePolicy) (level : MemPressure) : Task Unit := do
  let candidates ← evictionCandidates
  let shouldSkipKills : Bool ← call .guardLoad
  match level with
  | .normal => return
  | .warn =>
    if policy.aggressiveFreeze then
      let now ← unixTimestamp
      Prog.each (warnJail policy now) (candidates.take 2)
  | .critical =>
    if !shouldSkipKills then Prog.each criticalJail (candidates.take 1)
  | .oom =>
    if !shouldSkipKills then Prog.each oomJail candidates

theorem monitorRound_at (policy : LifecyclePolicy) (stats : MemStats) :
    monitorRound policy stats = roundAt policy (MemPressure.fromStats stats) := by
  unfold monitorRound roundAt
  rfl

/-- The levels for these counters are as documented: the level itself, that it grows no more
severe with more free pages, and that the round which kills every background jail is run
below five percent only. -/
structure Graded (total free : Nat) : Prop where
  level : ∀ inactive, MemPressure.fromStats (statsOf total free inactive) = documented (percent total free)
  antitone : ∀ fewer inactive, fewer ≤ free → (MemPressure.fromStats (statsOf total free inactive)).rank ≤
    (MemPressure.fromStats (statsOf total fewer inactive)).rank
  emergency : ∀ policy inactive, 5 ≤ percent total free →
    ∃ level, level ≠ .oom ∧ monitorRound policy (statsOf total free inactive) = roundAt policy level

/-- The share is not just above a threshold. -/
def Clear (p : ℚ) : Prop := ¬ (5 ≤ p ∧ p < 6) ∧ ¬ (20 < p ∧ p < 21) ∧ ¬ (50 < p ∧ p < 51)

/-- The whole percents that are compared with the levels. -/
def wholePercent (stats : MemStats) : Nat := ⌊stats.freePct⌋.toNat

section
variable {total free fewer : Nat} (positive : 0 < total)
include positive

theorem freePct_statsOf (inactive : Nat) : (statsOf total free inactive).freePct = percent total free := by
  rw [statsOf, if_pos positive, percent]
  ring

theorem percent_mono (fewer' : fewer ≤ free) : percent total fewer ≤ percent total free := by
  have counts : (fewer : ℚ) ≤ free := by exact_mod_cast fewer'
  have share : (0 : ℚ) < total := by exact_mod_cast positive
  rw [percent, percent, div_le_div_iff_of_pos_right share]
  linarith

theorem percent_bounds (within : free ≤ total) : 0 ≤ percent total free ∧ percent total free ≤ 100 := by
  have share : (0 : ℚ) < total := by exact_mod_cast positive
  have part : (free : ℚ) ≤ total := by exact_mod_cast within
  refine ⟨?_, ?_⟩
  · rw [percent]
    positivity
  · rw [percent, div_le_iff₀ share]
    linarith

/-- The share lies between the whole percents and the next ones. -/
theorem wholePercent_bounds (within : free ≤ total) (inactive : Nat) :
    (wholePercent (statsOf total free inactive) : ℚ) ≤ percent total free ∧
      percent total free < wholePercent (statsOf total free inactive) + 1 := by
  obtain ⟨low, _⟩ := percent_bounds positive within
  have whole : ((wholePercent (statsOf total free inactive) : Nat) : ℤ) = ⌊percent total free⌋ := by
    rw [wholePercent, freePct_statsOf positive, Int.toNat_of_nonneg (Int.floor_nonneg.mpr low)]
  have cast : ((wholePercent (statsOf total free inactive) : Nat) : ℚ) = (⌊percent total free⌋ : ℤ) := by
    rw [← whole]
    rfl
  rw [cast]
  exact ⟨Int.floor_le _, Int.lt_floor_add_one _⟩

end

theorem fromStats_whole {stats : MemStats} (bound : wholePercent stats ≤ 100) :
    MemPressure.fromStats stats = if 51 ≤ wholePercent stats then .normal else if 21 ≤ wholePercent stats then .warn
      else if 6 ≤ wholePercent stats then .critical else .oom := by
  show (if 51 ≤ wholePercent stats ∧ wholePercent stats ≤ 100 then _ else if 21 ≤ wholePercent stats ∧ wholePercent stats ≤ 50
    then _ else if 6 ≤ wholePercent stats ∧ wholePercent stats ≤ 20 then _ else _) = _
  by_cases normal : 51 ≤ wholePercent stats
  · rw [if_pos ⟨normal, bound⟩, if_pos normal]
  · rw [if_neg (fun both => normal both.1), if_neg normal]
    by_cases warn : 21 ≤ wholePercent stats
    · rw [if_pos ⟨warn, by omega⟩, if_pos warn]
    · rw [if_neg (fun both => warn both.1), if_neg warn]
      by_cases critical : 6 ≤ wholePercent stats
      · rw [if_pos ⟨critical, by omega⟩, if_pos critical]
      · rw [if_neg (fun both => critical both.1), if_neg critical]

/-- Whole percents classify a share as documented if and only if it is clear of the thresholds. -/
theorem whole_documented {n : Nat} {p : ℚ} (low : (n : ℚ) ≤ p) (high : p < n + 1) :
    (if 51 ≤ n then MemPressure.normal else if 21 ≤ n then .warn else if 6 ≤ n then .critical else .oom) = documented p ↔
      Clear p := by
  have above {m : Nat} (reached : m ≤ n) : (m : ℚ) ≤ p := le_trans (by exact_mod_cast reached) low
  have below {m : Nat} (missed : n < m) : p < m := lt_of_lt_of_le high (by exact_mod_cast missed)
  unfold documented Clear
  by_cases normal : 51 ≤ n
  · have least := above normal
    push_cast at least
    rw [if_pos normal, if_pos (by linarith)]
    exact ⟨fun _ => ⟨fun ⟨_, h⟩ => by linarith, fun ⟨_, h⟩ => by linarith, fun ⟨_, h⟩ => by linarith⟩, fun _ => rfl⟩
  · have under := below (Nat.lt_of_not_le normal)
    push_cast at under
    rw [if_neg normal]
    by_cases warn : 21 ≤ n
    · have least := above warn
      push_cast at least
      rw [if_pos warn]
      by_cases fifty : 50 < p
      · rw [if_pos fifty]
        exact ⟨nofun, fun clear => absurd ⟨fifty, under⟩ clear.2.2⟩
      · rw [if_neg fifty, if_pos (by linarith)]
        exact ⟨fun _ => ⟨fun ⟨_, h⟩ => by linarith, fun ⟨_, h⟩ => by linarith, fun ⟨h, _⟩ => fifty h⟩, fun _ => rfl⟩
    · have under := below (Nat.lt_of_not_le warn)
      push_cast at under
      have half : ¬ 50 < p := by linarith
      rw [if_neg warn, if_neg half]
      by_cases critical : 6 ≤ n
      · have least := above critical
        push_cast at least
        rw [if_pos critical]
        by_cases twenty : 20 < p
        · rw [if_pos twenty]
          exact ⟨nofun, fun clear => absurd ⟨twenty, under⟩ clear.2.1⟩
        · rw [if_neg twenty, if_pos (by linarith)]
          exact ⟨fun _ => ⟨fun ⟨_, h⟩ => by linarith, fun ⟨h, _⟩ => twenty h, fun ⟨h, _⟩ => by linarith⟩, fun _ => rfl⟩
      · have under := below (Nat.lt_of_not_le critical)
        push_cast at under
        have fifth : ¬ 20 < p := by linarith
        rw [if_neg critical, if_neg fifth]
        by_cases five : 5 ≤ p
        · rw [if_pos five]
          exact ⟨nofun, fun clear => absurd ⟨five, under⟩ clear.1⟩
        · rw [if_neg five]
          exact ⟨fun _ => ⟨fun ⟨h, _⟩ => five h, fun ⟨h, _⟩ => by linarith, fun ⟨h, _⟩ => by linarith⟩, fun _ => rfl⟩

theorem documented_oom {p : ℚ} (some : 5 ≤ p) : documented p ≠ .oom := by
  unfold documented
  split
  · nofun
  · split
    · nofun
    · nofun

section
variable {total free : Nat}

theorem wholePercent_le (positive : 0 < total) (within : free ≤ total) (inactive : Nat) :
    wholePercent (statsOf total free inactive) ≤ 100 := by
  obtain ⟨_, high⟩ := percent_bounds positive within
  obtain ⟨low, _⟩ := wholePercent_bounds positive within inactive
  have bound : (wholePercent (statsOf total free inactive) : ℚ) ≤ 100 := le_trans low high
  exact_mod_cast bound

/-- With fewer free pages the level is at least as severe. -/
theorem rank_antitone (positive : 0 < total) (within : free ≤ total) {fewer : Nat} (fewer' : fewer ≤ free) (inactive : Nat) :
    (MemPressure.fromStats (statsOf total free inactive)).rank ≤
      (MemPressure.fromStats (statsOf total fewer inactive)).rank := by
  have within' := Nat.le_trans fewer' within
  obtain ⟨low, _⟩ := wholePercent_bounds positive within' inactive
  obtain ⟨_, high⟩ := wholePercent_bounds positive within inactive
  have order : (wholePercent (statsOf total fewer inactive) : ℚ) < wholePercent (statsOf total free inactive) + 1 :=
    lt_of_le_of_lt (le_trans low (percent_mono positive fewer')) high
  have whole : wholePercent (statsOf total fewer inactive) < wholePercent (statsOf total free inactive) + 1 := by
    exact_mod_cast order
  rw [fromStats_whole (wholePercent_le positive within inactive), fromStats_whole (wholePercent_le positive within' inactive)]
  split_ifs <;> simp only [MemPressure.rank] <;> omega

/-- The levels are as documented if and only if the share of free pages is not just above a threshold. -/
theorem graded_iff (positive : 0 < total) (within : free ≤ total) : Graded total free ↔ Clear (percent total free) := by
  have level (inactive : Nat) : MemPressure.fromStats (statsOf total free inactive) = documented (percent total free) ↔
      Clear (percent total free) := by
    obtain ⟨low, high⟩ := wholePercent_bounds positive within inactive
    rw [fromStats_whole (wholePercent_le positive within inactive)]
    exact whole_documented low high
  refine ⟨fun graded => (level 0).mp (graded.level 0), fun clear => ⟨fun inactive => (level inactive).mpr clear,
    fun fewer inactive fewer' => rank_antitone positive within fewer' inactive, fun policy inactive some => ?_⟩⟩
  exact ⟨documented (percent total free), documented_oom some, by rw [monitorRound_at, (level inactive).mpr clear]⟩

end

theorem graded_iff_third : Graded 300 100 ↔ Clear (percent 300 100) := graded_iff (by decide) (by decide)

/-- With five and a half percent free, all background jails are killed. -/
theorem five_and_a_half_oom : ¬ ∀ total free, 0 < total → free ≤ total → Graded total free := by
  intro all
  have wrong := (all 1000 55 (by decide) (by decide)).level 0
  have share : percent 1000 55 = 11 / 2 := by norm_num [percent]
  have floor : ⌊(11 / 2 : ℚ)⌋ = 5 := by norm_num
  have whole : wholePercent (statsOf 1000 55 0) = 5 := by
    rw [wholePercent, freePct_statsOf (by decide), share, floor]
    rfl
  rw [share, fromStats_whole (by rw [whole]; decide), whole] at wrong
  norm_num [documented] at wrong
  cases wrong

end Bsdos.Lifecycle
