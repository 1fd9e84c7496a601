import Bsdos.Effects.Results
import Bsdos.Macho.Parser

namespace Bsdos.Macho

def DepKind.tag : DepKind → String
  | .load => "LOAD"
  | .weak => "WEAK"
  | .reexport => "REEXPORT"

/-- What `deps` writes: for each slice a header and a line for each dependency and run path. -/
def printDeps (path : String) (info : MachInfo) : String :=
  "# deps " ++ path ++ "\n" ++ String.join (info.slices.map fun slice =>
    "[" ++ slice.arch ++ "]\n" ++ String.join (slice.deps.map fun dep => "\t" ++ dep.kind.tag ++ "\t" ++ dep.path ++ "\n") ++
      String.join (slice.rpaths.map fun rp => "\tRPATH\t" ++ rp ++ "\n"))

/-- One thing that is written, with the end of its line. -/
inductive Printed
  | header (path : String)
  | arch (name : String)
  | dep (d : Dep)
  | rpath (path : String)
  deriving DecidableEq

def Printed.front : Printed → String
  | .header _ => "# deps "
  | .arch _ => "["
  | .dep d => "\t" ++ d.kind.tag ++ "\t"
  | .rpath _ => "\tRPATH\t"

def Printed.rest : Printed → String
  | .header path => path
  | .arch name => name ++ "]"
  | .dep d => d.path
  | .rpath path => path

def Printed.text (entry : Printed) : String := entry.front ++ entry.rest ++ "\n"

def Slice.printed (slice : Slice) : List Printed :=
  .arch slice.arch :: (slice.deps.map .dep ++ slice.rpaths.map .rpath)

def report (path : String) (info : MachInfo) : List Printed := .header path :: info.slices.flatMap Slice.printed

def textOf (entries : List Printed) : String := String.join (entries.map Printed.text)

theorem printDeps_text (path : String) (info : MachInfo) : printDeps path info = textOf (report path info) := by
  have ends : "]\n" = "]" ++ "\n" := by decide
  have slices : ∀ slices : List Slice, String.join (slices.map fun slice =>
      "[" ++ slice.arch ++ "]\n" ++ String.join (slice.deps.map fun dep => "\t" ++ dep.kind.tag ++ "\t" ++ dep.path ++ "\n") ++
        String.join (slice.rpaths.map fun rp => "\tRPATH\t" ++ rp ++ "\n")) =
      String.join ((slices.flatMap Slice.printed).map Printed.text) := by
    intro slices
    induction slices with
    | nil => rfl
    | cons slice slices ih =>
      rw [List.map_cons, String.join_cons, ih, List.flatMap_cons, List.map_append, String.join_append, Slice.printed,
        List.map_cons, List.map_append, List.map_map, List.map_map, String.join_cons, String.join_append]
      simp only [ends, Printed.text, Printed.front, Printed.rest, Function.comp_def, String.append_assoc]
  rw [printDeps, slices, textOf, report, List.map_cons, String.join_cons, Printed.text, Printed.front, Printed.rest]

theorem hexDigit_newline {n : Nat} (small : n < 16) : Text.hexDigit n ≠ '\n' := by
  revert small
  revert n
  decide

theorem archName_newline (cputype : UInt32) : '\n' ∉ (archName cputype).toList := by
  have hex (bytes : List UInt8) : '\n' ∉ (Text.hexEncode bytes).toList := by
    intro inside
    rw [Text.hexEncode, String.toList_ofList] at inside
    obtain ⟨b, -, digit⟩ := List.mem_flatMap.mp inside
    have byte := b.toNat_lt
    rcases List.mem_cons.mp digit with high | low
    · exact hexDigit_newline (by omega) high.symm
    · exact hexDigit_newline (by omega) (List.mem_singleton.mp low).symm
  unfold archName
  split
  · decide
  split
  · decide
  split
  · decide
  split
  · decide
  rw [String.toList_append]
  exact fun inside => (List.mem_append.mp inside).elim (by decide) (hex _)

theorem parseThin_arch {buf : Bytes} {base : Nat} {slice : Slice} (ok : parseThin buf base = .ok slice) :
    slice.arch = archName slice.cputype := by
  unfold parseThin at ok
  obtain ⟨magic, -, ok⟩ := Results.bind_ok ok
  obtain ⟨⟨be, headerLen⟩, -, ok⟩ := Results.bind_ok ok
  obtain ⟨cputype, -, ok⟩ := Results.bind_ok ok
  obtain ⟨ncmds, -, ok⟩ := Results.bind_ok ok
  obtain ⟨sizeofcmds, -, ok⟩ := Results.bind_ok ok
  obtain ⟨cmdStart, -, ok⟩ := Results.bind_ok ok
  obtain ⟨cmdEnd, -, ok⟩ := Results.bind_ok ok
  dsimp only at ok
  split at ok
  · exact absurd ok nofun
  · obtain ⟨⟨deps, rpaths⟩, -, ok⟩ := Results.bind_ok ok
    cases Except.ok.inj ok
    rfl

theorem parseArchs_arch {buf : Bytes} {be : Bool} {left i : Nat} {before slices : List Slice}
    (named : ∀ slice ∈ before, slice.arch = archName slice.cputype) (ok : parseArchs buf be left i before = .ok slices) :
    ∀ slice ∈ slices, slice.arch = archName slice.cputype := by
  induction left generalizing i before with
  | zero =>
    cases Except.ok.inj ok
    exact named
  | succ left ih =>
    unfold parseArchs at ok
    obtain ⟨_, -, ok⟩ := Results.bind_ok ok
    obtain ⟨offset, -, ok⟩ := Results.bind_ok ok
    obtain ⟨size, -, ok⟩ := Results.bind_ok ok
    obtain ⟨sliceEnd, -, ok⟩ := Results.bind_ok ok
    dsimp only at ok
    split at ok
    · exact absurd ok nofun
    · obtain ⟨parsed, thin, ok⟩ := Results.bind_ok ok
      refine ih (fun slice member => ?_) ok
      rcases List.mem_append.mp member with earlier | new
      · exact named slice earlier
      · rw [List.mem_singleton.mp new]
        exact parseThin_arch thin

/-- The slices that are parsed have names for their architecture that stay on one line. -/
theorem parse_arch {buf : Bytes} {info : MachInfo} (ok : parse buf = .ok info) :
    ∀ slice ∈ info.slices, '\n' ∉ slice.arch.toList := by
  have named : ∀ slice ∈ info.slices, slice.arch = archName slice.cputype := by
    unfold parse at ok
    obtain ⟨magic, -, ok⟩ := Results.bind_ok ok
    split at ok
    · unfold parseFat at ok
      obtain ⟨nfat, -, ok⟩ := Results.bind_ok ok
      obtain ⟨tableBytes, -, ok⟩ := Results.bind_ok ok
      obtain ⟨tableEnd, -, ok⟩ := Results.bind_ok ok
      dsimp only at ok
      split at ok
      · exact absurd ok nofun
      · obtain ⟨slices, archs, ok⟩ := Results.bind_ok ok
        cases Except.ok.inj ok
        exact parseArchs_arch (fun _ member => absurd member List.not_mem_nil) archs
    split at ok
    · obtain ⟨parsed, thin, ok⟩ := Results.bind_ok ok
      cases Except.ok.inj ok
      intro slice member
      rw [List.mem_singleton.mp member]
      exact parseThin_arch thin
    · exact absurd ok nofun
  exact fun slice member => named slice member ▸ archName_newline slice.cputype

end Bsdos.Macho
