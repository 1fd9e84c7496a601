import Bsdos.Run.Ipa
import Bsdos.Run.Report
import Mathlib.Data.Finset.Card

namespace Bsdos.Run
open Macho

/-- What a finished process left behind. -/
structure Output where
  success : Bool
  stdout : List UInt8
  stderr : List UInt8

/-- `run` starts a program with its arguments. -/
def resolveDeps (run : String → List String → Except String Output) (machotool mainBinary : String)
    (embedded : List EmbeddedFramework) : Except RunError (List DepResolution) :=
  let index := buildIndex embedded
  match run machotool ["deps", mainBinary] with
  | .error e => .error (.ipa ("failed to run machotool (" ++ machotool ++ "): " ++ e))
  | .ok output =>
    if !output.success then
      .error (.ipa ("machotool deps " ++ mainBinary ++ " failed: " ++ Text.trim (Octets.fromUtf8Lossy output.stderr)))
    else .ok (resolveFromDepsOutput (Octets.fromUtf8Lossy output.stdout) index)

def depLine (res : DepResolution) : String :=
  match res.status with
  | .embedded path => "  EMBEDDED " ++ res.installName ++ " -> " ++ path ++ "\n"
  | .missing true => "  MISSING  " ++ res.installName ++ " (hard)\n"
  | .missing false => "  missing  " ++ res.installName ++ " (weak, ok)\n"

def missingHard (resolutions : List DepResolution) : Nat := resolutions.countP fun res => res.status = .missing true

def summary (missingHard : Nat) : String :=
  "  -> " ++ toString missingHard ++ " hard dep(s) MISSING from the IPA's own Frameworks/" ++
    (if missingHard = 0 then " — self-contained launch is viable" else " (these would need an external SDK / overlay)") ++ "\n"

/-- What is printed; nothing if there is no machotool or it fails. -/
def printDepResolution (machotool : Except RunError String) (run : String → List String → Except String Output)
    (binaryPath : String) (embedded : List EmbeddedFramework) : String :=
  match machotool with
  | .error _ => ""
  | .ok machotool =>
    match resolveDeps run machotool binaryPath embedded with
    | .error _ => ""
    | .ok resolutions =>
      "dependency resolution (vs embedded Frameworks/):\n" ++ String.join (resolutions.map depLine) ++
        summary (missingHard resolutions)

/-- What is read in a text, line by line. -/
def readsOf (text : String) : List (Bool × String) := (Text.lines text).filterMap readDepLine

/-- The first line for an install-name. -/
def firstRead (name : String) (reads : List (Bool × String)) : Option (Bool × String) := reads.find? fun read => read.2 = name

def statusOf (index : Index) (name : String) (hard : Bool) : DepStatus :=
  match resolveOne name index with
  | some path => .embedded path
  | none => .missing hard

/-- The hard dependencies that are reported missing are those that are. -/
def KeepsHard (index : Index) (depsStdout : String) : Prop :=
  ∀ name, ⟨name, .missing true⟩ ∈ resolveFromDepsOutput depsStdout index ↔
    resolveOne name index = none ∧ (true, name) ∈ readsOf depsStdout

variable {index : Index} {state : Resolving} {name : String} {status : DepStatus}

theorem resolveLine_mem (consistent : state.Consistent) {line : String} :
    ⟨name, status⟩ ∈ (resolveLine index state line).resolutions ↔ ⟨name, status⟩ ∈ state.resolutions ∨
      name ∉ state.names ∧ ∃ hard, readDepLine line = some (hard, name) ∧ status = statusOf index name hard := by
  unfold resolveLine
  cases readDepLine line with
  | none => simp
  | some read =>
    obtain ⟨hard, declared⟩ := read
    have seen_iff : declared ∈ state.seen ↔ declared ∈ state.names := by rw [consistent, List.mem_toFinset]
    dsimp only
    by_cases seen : declared ∈ state.seen
    · rw [if_pos seen]
      refine ⟨.inl, fun listed => listed.elim id ?_⟩
      rintro ⟨fresh, hard', read, -⟩
      cases read
      exact absurd (seen_iff.mp seen) fresh
    · rw [if_neg seen, List.mem_append, List.mem_singleton, DepResolution.mk.injEq]
      refine or_congr_right ⟨?_, ?_⟩
      · rintro ⟨rfl, same⟩
        exact ⟨mt seen_iff.mpr seen, hard, rfl, same⟩
      · rintro ⟨-, hard', read, same⟩
        cases read
        exact ⟨rfl, same⟩

theorem resolveLine_names (consistent : state.Consistent) {line : String} :
    name ∈ (resolveLine index state line).names ↔ name ∈ state.names ∨ declares line = some name := by
  obtain ⟨-, new, added, names⟩ := @resolveLine_adds index state consistent line
  rw [Resolving.names, added, List.map_append, names, List.mem_append, ← Resolving.names]
  cases declares line with
  | none => simp
  | some declared =>
    by_cases same : declared = name
    · subst same
      by_cases seen : declared ∈ state.names
      · simp [seen]
      · simp [List.removeAll, seen]
    · have other : name ∉ [declared].removeAll state.names := fun listed =>
        same (List.mem_singleton.mp (List.mem_of_mem_filter listed)).symm
      simp [same, other]

/-- A resolution is there before, or it comes from the first line for its name. -/
theorem foldl_mem {lines : List String} (consistent : state.Consistent) :
    ⟨name, status⟩ ∈ (lines.foldl (resolveLine index) state).resolutions ↔ ⟨name, status⟩ ∈ state.resolutions ∨
      name ∉ state.names ∧
        ∃ hard, firstRead name (lines.filterMap readDepLine) = some (hard, name) ∧ status = statusOf index name hard := by
  induction lines generalizing state with
  | nil => simp [firstRead]
  | cons line lines ih =>
    rw [List.foldl_cons, ih (resolveLine_adds consistent line).1, resolveLine_mem consistent, resolveLine_names consistent,
      List.filterMap_cons]
    cases read : readDepLine line with
    | none => simp [declares, read]
    | some found =>
      obtain ⟨hard, declared⟩ := found
      by_cases same : declared = name
      · simp [declares, read, firstRead, same]
      · simp [declares, read, firstRead, same]

theorem mem_resolve {depsStdout : String} : ⟨name, status⟩ ∈ resolveFromDepsOutput depsStdout index ↔
    ∃ hard, firstRead name (readsOf depsStdout) = some (hard, name) ∧ status = statusOf index name hard := by
  have all := @foldl_mem index ⟨[], ∅⟩ name status (Text.lines depsStdout) rfl
  rwa [Resolving.names, List.map_nil, or_iff_right List.not_mem_nil, and_iff_right List.not_mem_nil] at all

theorem mem_missing {depsStdout : String} : ⟨name, .missing true⟩ ∈ resolveFromDepsOutput depsStdout index ↔
    resolveOne name index = none ∧ firstRead name (readsOf depsStdout) = some (true, name) := by
  rw [mem_resolve]
  unfold statusOf
  cases resolveOne name index with
  | none => simp
  | some path => simp

theorem firstRead_mem {reads : List (Bool × String)} {read : Bool × String} (first : firstRead name reads = some read) :
    read ∈ reads ∧ read.2 = name :=
  ⟨List.mem_of_find?_eq_some first, by simpa using List.find?_some first⟩

/-- A missing dependency with a hard line has a hard line first. -/
def Upfront (index : Index) (reads : List (Bool × String)) : Prop :=
  ∀ name, resolveOne name index = none → (true, name) ∈ reads → firstRead name reads = some (true, name)

theorem keepsHard_iff {depsStdout : String} : KeepsHard index depsStdout ↔ Upfront index (readsOf depsStdout) := by
  constructor
  · exact fun kept name unresolved hard => (mem_missing.mp ((kept name).mpr ⟨unresolved, hard⟩)).2
  · intro upfront name
    rw [mem_missing]
    exact ⟨fun missing => ⟨missing.1, (firstRead_mem missing.2).1⟩, fun hard => ⟨hard.1, upfront name hard.1 hard.2⟩⟩

/-- The hard dependencies that are reported missing. -/
def hardNames (resolutions : List DepResolution) : Finset String :=
  ((resolutions.filter fun res => res.status = .missing true).map (·.installName)).toFinset

theorem mem_hardNames {resolutions : List DepResolution} : name ∈ hardNames resolutions ↔ ⟨name, .missing true⟩ ∈ resolutions := by
  rw [hardNames, List.mem_toFinset, List.mem_map]
  constructor
  · rintro ⟨⟨found, status⟩, listed, rfl⟩
    obtain ⟨listed, missing⟩ := List.mem_filter.mp listed
    cases of_decide_eq_true missing
    exact listed
  · exact fun listed => ⟨_, List.mem_filter.mpr ⟨listed, decide_eq_true rfl⟩, rfl⟩

theorem eraseDups_nodup {α : Type} [DecidableEq α] (as : List α) : as.eraseDups.Nodup := by
  induction length : as.length using Nat.strongRecOn generalizing as with
  | ind n ih =>
    cases as with
    | nil => exact List.nodup_nil
    | cons a as =>
      rw [List.eraseDups_cons, List.nodup_cons, List.mem_eraseDups]
      refine ⟨fun listed => ?_, ih _ ?_ _ rfl⟩
      · simpa using (List.mem_filter.mp listed).2
      · rw [← length, List.length_cons]
        exact Nat.lt_succ_of_le (List.length_filter_le ..)

/-- No name is counted twice. -/
theorem missingHard_card {depsStdout : String} : missingHard (resolveFromDepsOutput depsStdout index) =
    (hardNames (resolveFromDepsOutput depsStdout index)).card := by
  have distinct : ((resolveFromDepsOutput depsStdout index).map (·.installName)).Nodup := by
    rw [resolve_names]
    exact eraseDups_nodup _
  have kept := distinct.sublist ((List.filter_sublist (p := fun res => decide (res.status = .missing true))).map _)
  rw [hardNames, List.toFinset_card_of_nodup kept, List.length_map, missingHard, List.countP_eq_length_filter]

theorem readsOf_printDeps (path : String) (info : MachInfo) : readsOf (printDeps path info) =
    readsOf (textOf [.header path]) ++ info.slices.flatMap fun slice => readsOf (textOf slice.printed) := by
  have reads (entries : List Printed) : readsOf (textOf entries) =
      entries.flatMap fun entry => (Text.lines entry.text).filterMap readDepLine := by
    rw [readsOf, lines_textOf', List.filterMap_flatMap]
  simp only [printDeps_text, reads, report, List.flatMap_cons, List.flatMap_nil, List.append_nil, List.flatMap_assoc]

/-- What is found first does not depend on the order of the blocks if and only if each
block with something to find has the same first. -/
theorem find_perm_iff {α β : Type} {p : α → Bool} {front : List α} {blocks : List β} {f : β → List α} {a : α}
    (found : a ∈ front ++ blocks.flatMap f) (fits : p a = true) :
    (∀ blocks' : List β, blocks'.Perm blocks → (front ++ blocks'.flatMap f).find? p = some a) ↔
      front.find? p = some a ∨ front.find? p = none ∧ ∀ block ∈ blocks, ∀ b, (f block).find? p = some b → b = a := by
  cases first : front.find? p with
  | some b =>
    simp only [List.find?_append, first, Option.some_or, reduceCtorEq, false_and, or_false]
    exact ⟨fun always => always blocks (List.Perm.refl _), fun same _ _ => same⟩
  | none =>
    simp only [List.find?_append, first, Option.none_or, reduceCtorEq, false_or, true_and, List.find?_flatMap]
    constructor
    · intro always block member b here
      obtain ⟨before, after, rfl⟩ := List.append_of_mem member
      have moved := always (block :: (before ++ after)) List.perm_middle.symm
      rw [List.findSome?_cons, here] at moved
      exact Option.some.inj moved
    · intro same blocks' perm
      have inside : a ∈ blocks.flatMap f := (List.mem_append.mp found).resolve_left fun listed =>
        List.find?_eq_none.mp first a listed fits
      obtain ⟨block, member, listed⟩ := List.mem_flatMap.mp inside
      have some : (blocks'.findSome? fun block => (f block).find? p).isSome := by
        rw [List.findSome?_isSome_iff]
        exact ⟨block, perm.mem_iff.mpr member, List.find?_isSome.mpr ⟨a, listed, fits⟩⟩
      obtain ⟨b, here⟩ := Option.isSome_iff_exists.mp some
      obtain ⟨other, among, first⟩ := List.exists_of_findSome?_eq_some here
      rw [here, same other (perm.mem_iff.mp among) b first]

/-- In no slice the first line for a missing dependency is weak if another line for it is hard. -/
def Firm (index : Index) (path : String) (info : MachInfo) : Prop :=
  ∀ name, resolveOne name index = none → (true, name) ∈ readsOf (printDeps path info) →
    firstRead name (readsOf (textOf [.header path])) = some (true, name) ∨
      firstRead name (readsOf (textOf [.header path])) = none ∧
        ∀ slice ∈ info.slices, firstRead name (readsOf (textOf slice.printed)) ≠ some (false, name)

variable {path : String} {info : MachInfo}

theorem readsOf_perm {slices : List Slice} (perm : slices.Perm info.slices) (read : Bool × String) :
    read ∈ readsOf (printDeps path ⟨slices⟩) ↔ read ∈ readsOf (printDeps path info) := by
  rw [readsOf_printDeps, readsOf_printDeps, List.mem_append, List.mem_append]
  exact or_congr_right (perm.flatMap_right _).mem_iff

/-- The slices are in no order in which a missing dependency with a hard line has a weak one first. -/
theorem firm_iff : Firm index path info ↔
    ∀ slices : List Slice, slices.Perm info.slices → Upfront index (readsOf (printDeps path ⟨slices⟩)) := by
  have orders {name : String} (hard : (true, name) ∈ readsOf (printDeps path info)) :=
    find_perm_iff (readsOf_printDeps path info ▸ hard) (p := fun read => read.2 = name) (decide_eq_true rfl)
  have first (name : String) (slice : Slice) : firstRead name (readsOf (textOf slice.printed)) ≠ some (false, name) ↔
      ∀ read, firstRead name (readsOf (textOf slice.printed)) = some read → read = (true, name) := by
    constructor
    · rintro notWeak ⟨hard, found⟩ here
      obtain rfl : found = name := (firstRead_mem here).2
      cases hard with
      | true => rfl
      | false => exact absurd here notWeak
    · intro all weak
      exact absurd (all _ weak) (by simp)
  constructor
  · intro firm slices perm name unresolved hard
    have listed := (readsOf_perm perm _).mp hard
    rw [readsOf_printDeps]
    refine (orders listed).mpr ?_ slices perm
    refine (firm name unresolved listed).imp id (And.imp_right fun notWeak slice member => ?_)
    exact (first name slice).mp (notWeak slice member)
  · intro upfront name unresolved hard
    have always : ∀ slices : List Slice, slices.Perm info.slices → (readsOf (textOf [.header path]) ++
        slices.flatMap fun slice => readsOf (textOf slice.printed)).find? (fun read => read.2 = name) = some (true, name) := by
      intro slices perm
      have here := upfront slices perm name unresolved ((readsOf_perm perm _).mpr hard)
      rwa [readsOf_printDeps] at here
    refine ((orders hard).mp always).imp id (And.imp_right fun same slice member => ?_)
    exact (first name slice).mpr (same slice member)

/-- As many hard dependencies are reported missing as there are, if and only if these are all reported. -/
theorem missingHard_iff {depsStdout depsStdout' : String} (kept : KeepsHard index depsStdout)
    (same : ∀ read, read ∈ readsOf depsStdout' ↔ read ∈ readsOf depsStdout) :
    missingHard (resolveFromDepsOutput depsStdout' index) = missingHard (resolveFromDepsOutput depsStdout index) ↔
      KeepsHard index depsStdout' := by
  have inside : hardNames (resolveFromDepsOutput depsStdout' index) ⊆ hardNames (resolveFromDepsOutput depsStdout index) := by
    intro name listed
    obtain ⟨unresolved, first⟩ := mem_missing.mp (mem_hardNames.mp listed)
    exact mem_hardNames.mpr ((kept name).mpr ⟨unresolved, (same _).mp (firstRead_mem first).1⟩)
  rw [missingHard_card, missingHard_card]
  constructor
  · intro count name
    have equal := Finset.eq_of_subset_of_card_le inside (Nat.le_of_eq count.symm)
    rw [← mem_hardNames, equal, mem_hardNames, kept name, same]
  · intro kept'
    refine congrArg Finset.card (Finset.ext fun name => ?_)
    rw [mem_hardNames, mem_hardNames, kept name, kept' name, same]

/-- Hard dependencies are reported as such if and only if no weak line is before them; the
order of the slices does not matter if and only if this is so in each slice. -/
theorem keeps_hard_iff (embedded : List EmbeddedFramework) :
    (∀ depsStdout, KeepsHard (buildIndex embedded) depsStdout ↔ Upfront (buildIndex embedded) (readsOf depsStdout)) ∧
      ∀ path info, (KeepsHard (buildIndex embedded) (printDeps path info) ∧
        ∀ slices : List Slice, slices.Perm info.slices →
          missingHard (resolveFromDepsOutput (printDeps path ⟨slices⟩) (buildIndex embedded)) =
            missingHard (resolveFromDepsOutput (printDeps path info) (buildIndex embedded)) ∧
          summary (missingHard (resolveFromDepsOutput (printDeps path ⟨slices⟩) (buildIndex embedded))) =
            summary (missingHard (resolveFromDepsOutput (printDeps path info) (buildIndex embedded)))) ↔
        Firm (buildIndex embedded) path info := by
  refine ⟨fun _ => keepsHard_iff, fun path info => ?_⟩
  rw [firm_iff]
  constructor
  · rintro ⟨kept, counts⟩ slices perm
    exact keepsHard_iff.mp ((missingHard_iff kept (readsOf_perm perm)).mp (counts slices perm).1)
  · intro upfront
    have kept := keepsHard_iff.mpr (upfront info.slices (List.Perm.refl _))
    refine ⟨kept, fun slices perm => ?_⟩
    have count := (missingHard_iff kept (readsOf_perm perm)).mpr (keepsHard_iff.mpr (upfront slices perm))
    exact ⟨count, congrArg summary count⟩

/-- A library that one slice needs and that another can do without. -/
def halfWeak : MachInfo := ⟨[⟨"x86_64", 0x01000007, [⟨.weak, "A"⟩], []⟩, ⟨"arm64", 0x0100000c, [⟨.load, "A"⟩], []⟩]⟩

theorem weak_before_hard :
    ¬ ∀ embedded path info, KeepsHard (buildIndex embedded) (printDeps path info) ∧
      ∀ slices : List Slice, slices.Perm info.slices →
        missingHard (resolveFromDepsOutput (printDeps path ⟨slices⟩) (buildIndex embedded)) =
          missingHard (resolveFromDepsOutput (printDeps path info) (buildIndex embedded)) := by
  intro all
  obtain ⟨-, counts⟩ := all [] "" halfWeak
  have count := counts halfWeak.slices.reverse (List.reverse_perm _)
  have before : missingHard (resolveFromDepsOutput (printDeps "" halfWeak) (buildIndex [])) = 0 := by decide +kernel
  have after : missingHard (resolveFromDepsOutput (printDeps "" ⟨halfWeak.slices.reverse⟩) (buildIndex [])) = 1 := by
    decide +kernel
  rw [before, after] at count
  exact absurd count (by decide)

end Bsdos.Run
