import Bsdos.Lines
import Bsdos.Maps.Ordered
import Mathlib.Data.Finset.Insert

namespace Bsdos.Run

inductive DepStatus
  | embedded (path : String)
  | missing (hard : Bool)
  deriving DecidableEq

structure DepResolution where
  installName : String
  status : DepStatus
  deriving DecidableEq

/-- A loadable image that ships with the application. -/
structure EmbeddedFramework where
  name : String
  binary : String
  isFramework : Bool

abbrev Index := List (String × String)

def buildIndex (embedded : List EmbeddedFramework) : Index :=
  OrderedMap.ofEntries (embedded.map fun fw => (fw.name, fw.binary))

/-- The image with the last segment of an install-name for its name. -/
def resolveOne (installName : String) (index : Index) : Option String :=
  index.lookup ((Text.split '/' installName).getLastD installName)

/-- What one line says: an install-name, and whether the dependency is hard. -/
def readDepLine (line : String) : Option (Bool × String) :=
  if line.toList.head? = some '#' ∨ line.toList.head? = some '[' then none
  else match (Text.split '\t' line).filter fun f => !f.isEmpty with
    | kind :: installName :: _ =>
      if kind = "LOAD" ∨ kind = "REEXPORT" then some (true, installName)
      else if kind = "WEAK" then some (false, installName)
      else none
    | _ => none

structure Resolving where
  resolutions : List DepResolution
  seen : Finset String

def resolveLine (index : Index) (state : Resolving) (line : String) : Resolving :=
  match readDepLine line with
  | none => state
  | some (hard, installName) =>
    if installName ∈ state.seen then state
    else
      let status := match resolveOne installName index with
        | some path => .embedded path
        | none => .missing hard
      ⟨state.resolutions ++ [⟨installName, status⟩], insert installName state.seen⟩

def resolveFromDepsOutput (depsStdout : String) (index : Index) : List DepResolution :=
  ((Text.lines depsStdout).foldl (resolveLine index) ⟨[], ∅⟩).resolutions

/-- The install-name that a line declares. -/
def declares (line : String) : Option String := (readDepLine line).map Prod.snd

variable {index : Index} {state : Resolving} {line : String} {lines : List String}

def Resolving.names (state : Resolving) : List String := state.resolutions.map (·.installName)

/-- What is seen is what there is a resolution for. -/
def Resolving.Consistent (state : Resolving) : Prop := state.seen = state.names.toFinset

/-- A line adds the name it declares, if that is new, and nothing else. -/
theorem resolveLine_adds (consistent : state.Consistent) (line : String) : (resolveLine index state line).Consistent ∧
    ∃ new, (resolveLine index state line).resolutions = state.resolutions ++ new ∧
      new.map (·.installName) = ((declares line).toList.removeAll state.names) := by
  unfold resolveLine declares
  cases readDepLine line with
  | none => exact ⟨consistent, [], (List.append_nil _).symm, rfl⟩
  | some read =>
    obtain ⟨hard, name⟩ := read
    have seen_iff : name ∈ state.seen ↔ name ∈ state.names := by rw [consistent, List.mem_toFinset]
    dsimp only
    split
    · rename_i seen
      refine ⟨consistent, [], (List.append_nil _).symm, ?_⟩
      simp [List.removeAll, seen_iff.mp seen]
    · rename_i fresh
      refine ⟨?_, _, rfl, ?_⟩
      · rw [Resolving.Consistent, consistent]
        ext n
        simp only [Resolving.names, Finset.mem_insert, List.mem_toFinset, List.map_append, List.map_cons, List.map_nil,
          List.mem_append, List.mem_singleton]
        exact or_comm
      · simp [List.removeAll, mt seen_iff.mpr fresh]

theorem foldl_adds (lines : List String) (consistent : state.Consistent) :
    (lines.foldl (resolveLine index) state).Consistent ∧
    ∃ new, (lines.foldl (resolveLine index) state).resolutions = state.resolutions ++ new ∧
      new.map (·.installName) = ((lines.filterMap declares).removeAll state.names).eraseDups := by
  induction lines generalizing state with
  | nil => exact ⟨consistent, [], (List.append_nil _).symm, rfl⟩
  | cons line lines ih =>
    obtain ⟨consistent', first, added, names⟩ := @resolveLine_adds index state consistent line
    obtain ⟨final, rest, more, later⟩ := ih consistent'
    refine ⟨final, first ++ rest, by rw [List.foldl_cons, more, added, List.append_assoc], ?_⟩
    have now : (resolveLine index state line).names = state.names ++ (declares line).toList.removeAll state.names := by
      rw [Resolving.names, added, List.map_append, names]
      rfl
    rw [List.map_append, names, later, now]
    cases declared : declares line with
    | none => rw [List.filterMap_cons_none declared, Option.toList_none, List.nil_removeAll, List.append_nil, List.nil_append]
    | some name =>
      rw [List.filterMap_cons_some declared, Option.toList_some, List.cons_removeAll, List.cons_removeAll, List.nil_removeAll]
      by_cases seen : name ∈ state.names
      · rw [if_neg (by simpa using seen), if_neg (by simpa using seen), List.append_nil, List.nil_append]
      · rw [if_pos (by simpa using seen), if_pos (by simpa using seen), List.eraseDups_cons, List.singleton_append,
          List.removeAll, List.removeAll, List.filter_filter]
        refine congrArg (name :: List.eraseDups ·) (List.filter_congr fun x _ => ?_)
        by_cases same : x = name <;> simp [same]

/-- The names of the resolutions are the declared ones, each at its first place. -/
theorem resolve_names {depsStdout : String} : (resolveFromDepsOutput depsStdout index).map (·.installName) =
    ((Text.lines depsStdout).filterMap declares).eraseDups := by
  obtain ⟨-, new, added, names⟩ := @foldl_adds index ⟨[], ∅⟩ (Text.lines depsStdout) rfl
  rw [resolveFromDepsOutput, added, List.nil_append, names]
  simp [Resolving.names, List.removeAll]

/-- More lines leave the resolutions of the first ones alone. -/
theorem resolve_append {front back : String} (ended : Text.lines (front ++ back) = Text.lines front ++ Text.lines back) :
    ∃ new, resolveFromDepsOutput (front ++ back) index = resolveFromDepsOutput front index ++ new := by
  obtain ⟨consistent, -⟩ := @foldl_adds index ⟨[], ∅⟩ (Text.lines front) rfl
  obtain ⟨-, new, added, -⟩ := @foldl_adds index _ (Text.lines back) consistent
  refine ⟨new, ?_⟩
  rw [resolveFromDepsOutput, ended, List.foldl_append, added]
  rfl

/-- A declared name is not empty, and neither a tab nor the end of a line is in it. -/
theorem declares_clean {name : String} (ended : '\n' ∉ line.toList) (declared : declares line = some name) :
    name ≠ "" ∧ '\t' ∉ name.toList ∧ '\n' ∉ name.toList := by
  obtain ⟨⟨hard, declaredName⟩, read, same⟩ := Option.map_eq_some_iff.mp declared
  cases same
  have field : declaredName ∈ (Text.split '\t' line).filter fun f => !f.isEmpty := by
    unfold readDepLine at read
    split at read
    · exact absurd read nofun
    split at read
    · rename_i kind installName rest fields
      have second : installName ∈ (Text.split '\t' line).filter fun f => !f.isEmpty := by simp [fields]
      split at read
      · cases read
        exact second
      split at read
      · cases read
        exact second
      · exact absurd read nofun
    · exact absurd read nofun
  obtain ⟨piece, filled⟩ := List.mem_filter.mp field
  obtain ⟨tab, part⟩ := Text.split_pieces declaredName piece
  exact ⟨by simpa using filled, tab, fun inside => ended (part.subset inside)⟩

/-- The fields of a line that begins with a tab, a tag and a tab. -/
theorem split_tagged {tag : String} (free : '\t' ∉ tag.toList) (filled : tag ≠ "") (rest : String) :
    (Text.split '\t' ("\t" ++ tag ++ "\t" ++ rest)).filter (fun f => !f.isEmpty) =
      tag :: (Text.split '\t' rest).filter fun f => !f.isEmpty := by
  have tab : "\t" = String.singleton '\t' := by decide
  have line : "\t" ++ tag ++ "\t" ++ rest = "" ++ String.singleton '\t' ++ tag ++ String.singleton '\t' ++ rest := by
    rw [tab, String.empty_append]
  rw [line, Text.split_append, Text.split_append, Text.split_free free, Text.split_free (by simp)]
  simp [filled]

theorem head_tab (rest : String) : ¬ (("\t" ++ rest).toList.head? = some '#' ∨ ("\t" ++ rest).toList.head? = some '[') := by
  have tab : "\t".toList = ['\t'] := by decide
  rw [String.toList_append, tab]
  simp

/-- What follows a kind and a tab is declared. -/
theorem declares_kind {kind path : String} (known : kind = "LOAD" ∨ kind = "REEXPORT" ∨ kind = "WEAK") (free : '\t' ∉ path.toList) :
    declares ("\t" ++ kind ++ "\t" ++ path) = if path = "" then none else some path := by
  have tag : '\t' ∉ kind.toList ∧ kind ≠ "" := by
    rcases known with rfl | rfl | rfl <;> decide
  have notWeak : "WEAK" ≠ "LOAD" ∧ "WEAK" ≠ "REEXPORT" := by decide
  unfold declares readDepLine
  rw [String.append_assoc, String.append_assoc, if_neg (head_tab _), ← String.append_assoc, ← String.append_assoc,
    split_tagged tag.1 tag.2, Text.split_free free]
  by_cases empty : path = ""
  · subst empty
    rfl
  · rw [List.filter_cons_of_pos (by simpa using empty), if_neg empty]
    rcases known with rfl | rfl | rfl
    · rfl
    · rfl
    · simp [notWeak]

theorem declares_rpath (rest : String) : declares ("\tRPATH\t" ++ rest) = none := by
  have front : "\tRPATH\t" = "\t" ++ "RPATH" ++ "\t" := by decide
  have kinds : ¬ ("RPATH" = "LOAD" ∨ "RPATH" = "REEXPORT") ∧ "RPATH" ≠ "WEAK" := by decide
  unfold declares readDepLine
  rw [front, String.append_assoc, String.append_assoc, if_neg (head_tab _), ← String.append_assoc, ← String.append_assoc,
    split_tagged (by decide) (by decide)]
  cases (Text.split '\t' rest).filter fun f => !f.isEmpty with
  | nil => rfl
  | cons field fields =>
    simp only [if_neg kinds.1, if_neg kinds.2]
    rfl

theorem declares_header {c : Char} (header : c = '#' ∨ c = '[') (rest : String) :
    declares (String.singleton c ++ rest) = none := by
  have head : (String.singleton c ++ rest).toList.head? = some c := by
    rw [String.toList_append, String.toList_singleton]
    rfl
  unfold declares readDepLine
  rw [if_pos (by simpa only [head, Option.some.injEq] using header)]
  rfl

end Bsdos.Run
