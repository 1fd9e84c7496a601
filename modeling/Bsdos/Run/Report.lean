import Mathlib.Algebra.Order.BigOperators.Group.List
import Mathlib.Algebra.Order.Group.Nat
import Bsdos.Macho.Report
import Bsdos.Macho.RoundTrip
import Bsdos.Run.Frameworks

namespace Bsdos.Run
open Macho

/-- The lines of a text after its first one. -/
def laterLines (text : String) : List String := (Text.lines (text ++ "\n")).tail

/-- The reader has of the report one resolution for each install-name, in the order of the
report, and none from a line that is not for a dependency. -/
structure Agrees (path : String) (info : MachInfo) (index : Index) : Prop where
  listed : (resolveFromDepsOutput (printDeps path info) index).map (·.installName) =
    ((info.slices.flatMap (·.deps)).map (·.path)).eraseDups
  silent : ∀ before entry after, report path info = before ++ entry :: after → (∀ dep, entry ≠ .dep dep) →
    resolveFromDepsOutput (textOf (before ++ [entry])) index = resolveFromDepsOutput (textOf before) index

/-- Install-names that fit on their line, and no line in the other paths that passes for a
dependency not listed before. -/
structure Plain (path : String) (info : MachInfo) : Prop where
  deps : ∀ slice ∈ info.slices, ∀ dep ∈ slice.deps, dep.path ≠ "" ∧ '\t' ∉ dep.path.toList ∧ '\n' ∉ dep.path.toList ∧
    dep.path.toList.getLast? ≠ some '\r'
  header : ∀ line ∈ laterLines path, declares line = none
  rpaths : ∀ before slice after, info.slices = before ++ slice :: after → ∀ rp ∈ slice.rpaths, ∀ line ∈ laterLines rp,
    ∀ name, declares line = some name → ∃ s ∈ before ++ [slice], ∃ dep ∈ s.deps, dep.path = name

def declaredBy (entry : Printed) : List String := (Text.lines entry.text).filterMap declares

/-- A line without the carriage return at its end. -/
def chomp (s : String) : String := if s.toList.getLast? = some '\r' then String.ofList s.toList.dropLast else s

theorem lines_single {s : String} (free : '\n' ∉ s.toList) : Text.lines (s ++ "\n") = [chomp s] := by
  have newline : "\n".toList = ['\n'] := by decide
  have nothing : Text.linesChars [] [] = [] := rfl
  unfold Text.lines chomp
  rw [String.toList_append, newline, Text.linesChars_first _ _ _ free, List.append_nil, List.head?_reverse, nothing]
  split
  · rw [List.map_singleton, List.tail_reverse, List.reverse_reverse]
  · rw [List.map_singleton, List.reverse_reverse, String.ofList_toList]

theorem front_fits (entry : Printed) : '\n' ∉ entry.front.toList ∧ entry.front.toList.getLast? ≠ some '\r' := by
  have tagged (kind : DepKind) : "\t" ++ kind.tag ++ "\t" ∈
      ["# deps ", "[", "\tLOAD\t", "\tWEAK\t", "\tREEXPORT\t", "\tRPATH\t"] := by
    cases kind <;> decide
  have fronts : entry.front ∈ ["# deps ", "[", "\tLOAD\t", "\tWEAK\t", "\tREEXPORT\t", "\tRPATH\t"] := by
    cases entry with
    | dep d => exact tagged d.kind
    | header _ => exact List.mem_cons_self
    | arch _ => exact List.mem_cons_of_mem _ List.mem_cons_self
    | rpath _ => simp [Printed.front]
  generalize entry.front = front at fronts
  revert front
  decide

variable {index : Index} {path : String} {info : MachInfo}

/-- The lines of what is written: the first one has the front of the entry. -/
theorem lines_text (entry : Printed) : ∃ first, Text.lines (entry.rest ++ "\n") = first :: laterLines entry.rest ∧
    Text.lines entry.text = (entry.front ++ first) :: laterLines entry.rest := by
  obtain ⟨first, rest, alone, behind⟩ := Text.lines_front (front_fits entry).1 (front_fits entry).2 entry.rest
  have later : laterLines entry.rest = rest := by rw [laterLines, alone, List.tail_cons]
  exact ⟨first, later ▸ alone, later ▸ behind⟩

theorem declaredBy_header (path : String) : declaredBy (.header path) = (laterLines path).filterMap declares := by
  have front : "# deps " = String.singleton '#' ++ " deps " := by decide
  obtain ⟨first, -, lines⟩ := lines_text (.header path)
  rw [declaredBy, lines, List.filterMap_cons_none]
  · rfl
  · rw [Printed.front, front, String.append_assoc]
    exact declares_header (.inl rfl) _

theorem declaredBy_rpath (path : String) : declaredBy (.rpath path) = (laterLines path).filterMap declares := by
  obtain ⟨first, -, lines⟩ := lines_text (.rpath path)
  rw [declaredBy, lines, List.filterMap_cons_none]
  · rfl
  · exact declares_rpath first

theorem declaredBy_arch {name : String} (free : '\n' ∉ name.toList) : declaredBy (.arch name) = [] := by
  have front : "[" = String.singleton '[' := by decide
  have whole : '\n' ∉ (name ++ "]").toList := by
    rw [String.toList_append]
    exact fun inside => (List.mem_append.mp inside).elim free (by decide)
  obtain ⟨first, alone, lines⟩ := lines_text (.arch name)
  rw [Printed.rest, lines_single whole] at alone
  rw [declaredBy, lines, List.filterMap_cons_none]
  · rw [Printed.rest, ← (List.cons.inj alone).2]
    rfl
  · rw [Printed.front, front]
    exact declares_header (.inr rfl) _

theorem chomp_free {s : String} {c : Char} (free : c ∉ s.toList) : c ∉ (chomp s).toList := by
  unfold chomp
  split
  · rw [String.toList_ofList]
    exact fun inside => free (List.dropLast_subset _ inside)
  · exact free

/-- The line of a dependency declares its name, but for a carriage return at the end. -/
theorem declaredBy_dep {d : Dep} (tab : '\t' ∉ d.path.toList) (newline : '\n' ∉ d.path.toList) :
    declaredBy (.dep d) = if chomp d.path = "" then [] else [chomp d.path] := by
  have known : d.kind.tag = "LOAD" ∨ d.kind.tag = "REEXPORT" ∨ d.kind.tag = "WEAK" := by
    cases d.kind <;> decide
  obtain ⟨first, alone, lines⟩ := lines_text (.dep d)
  rw [Printed.rest, lines_single newline] at alone
  obtain ⟨same, nothing⟩ := List.cons.inj alone
  rw [declaredBy, lines, Printed.rest, ← nothing, ← same, Printed.front, List.filterMap_cons,
    declares_kind known (chomp_free tab)]
  by_cases empty : chomp d.path = ""
  · rw [if_pos empty, if_pos empty]
    rfl
  · rw [if_neg empty, if_neg empty]
    rfl

theorem lines_textOf (entries : List Printed) (back : String) :
    Text.lines (textOf entries ++ back) = entries.flatMap (fun entry => Text.lines entry.text) ++ Text.lines back := by
  induction entries with
  | nil => rw [textOf, List.map_nil, String.join_nil, String.empty_append, List.flatMap_nil, List.nil_append]
  | cons entry entries ih =>
    rw [List.flatMap_cons, List.append_assoc, ← ih, textOf, List.map_cons, String.join_cons, ← textOf, Printed.text,
      String.append_assoc, Text.lines_append]

theorem lines_textOf' (entries : List Printed) :
    Text.lines (textOf entries) = entries.flatMap fun entry => Text.lines entry.text := by
  have all := lines_textOf entries ""
  have nothing : Text.lines "" = [] := by decide +kernel
  rwa [String.append_empty, nothing, List.append_nil] at all

theorem names_textOf (entries : List Printed) :
    (resolveFromDepsOutput (textOf entries) index).map (·.installName) = (entries.flatMap declaredBy).eraseDups := by
  rw [resolve_names, lines_textOf', List.filterMap_flatMap]
  rfl

theorem eraseDups_append_eq {xs ys : List String} : (xs ++ ys).eraseDups = xs.eraseDups ↔ ∀ y ∈ ys, y ∈ xs := by
  rw [List.eraseDups_append, List.append_right_eq_self]
  constructor
  · intro none y member
    by_contra new
    have kept : y ∈ (ys.removeAll xs).eraseDups := by simp [List.removeAll, member, new]
    rw [none] at kept
    exact List.not_mem_nil kept
  · intro all
    have nothing : ys.removeAll xs = [] := by
      rw [List.removeAll, List.filter_eq_nil_iff]
      exact fun y member => by simpa using all y member
    rw [nothing, List.eraseDups_nil]

/-- An entry is silent if it declares what has been declared before. -/
theorem silent_iff {before : List Printed} {entry : Printed} :
    resolveFromDepsOutput (textOf (before ++ [entry])) index = resolveFromDepsOutput (textOf before) index ↔
      ∀ name ∈ declaredBy entry, name ∈ before.flatMap declaredBy := by
  have text : textOf (before ++ [entry]) = textOf before ++ textOf [entry] := by
    rw [textOf, List.map_append, String.join_append, textOf, textOf]
  have ended : Text.lines (textOf before ++ textOf [entry]) = Text.lines (textOf before) ++ Text.lines (textOf [entry]) := by
    rw [lines_textOf, lines_textOf' before]
  obtain ⟨new, added⟩ := @resolve_append index _ _ ended
  have names := @names_textOf index (before ++ [entry])
  rw [List.flatMap_append, List.flatMap_singleton] at names
  rw [← eraseDups_append_eq, ← names, ← @names_textOf index before, text, added, List.map_append,
    List.append_right_eq_self, List.append_right_eq_self, List.map_eq_nil_iff]

/-- One element of a concatenation, with the part it is from. -/
theorem flatMap_eq_append_cons {α β : Type} {f : α → List β} {xs : List α} {before after : List β} {y : β}
    (same : xs.flatMap f = before ++ y :: after) :
    ∃ xs₁ x xs₂ front back, xs = xs₁ ++ x :: xs₂ ∧ f x = front ++ y :: back ∧ before = xs₁.flatMap f ++ front := by
  induction xs generalizing before with
  | nil => exact absurd same (by simp)
  | cons x xs ih =>
    rw [List.flatMap_cons] at same
    rcases List.append_eq_append_iff.mp same with ⟨front, rfl, rest⟩ | ⟨back, whole, rest⟩
    · obtain ⟨xs₁, x', xs₂, front', back, rfl, part, rfl⟩ := ih rest
      exact ⟨x :: xs₁, x', xs₂, front', back, rfl, part, by rw [List.flatMap_cons, List.append_assoc]⟩
    · cases back with
      | nil =>
        obtain ⟨xs₁, x', xs₂, front', back, rfl, part, none⟩ := @ih [] (by simpa using rest.symm)
        obtain ⟨nothing, rfl⟩ := List.append_eq_nil_iff.mp none.symm
        refine ⟨x :: xs₁, x', xs₂, [], back, rfl, part, ?_⟩
        rw [List.flatMap_cons, nothing, whole, List.append_nil, List.append_nil, List.append_nil]
      | cons y' back =>
        obtain ⟨rfl, -⟩ := List.cons.inj rest
        exact ⟨[], x, xs, before, back, rfl, whole, rfl⟩

/-- A run path is written after the dependencies of its slice and of those before. -/
theorem report_rpath {before after : List Printed} {rp : String} (split : report path info = before ++ .rpath rp :: after) :
    ∃ slices slice rest, info.slices = slices ++ slice :: rest ∧ rp ∈ slice.rpaths ∧
      ∀ s ∈ slices ++ [slice], ∀ dep ∈ s.deps, .dep dep ∈ before := by
  have rest : ∃ before', before = .header path :: before' ∧ info.slices.flatMap Slice.printed = before' ++ .rpath rp :: after := by
    rw [report] at split
    cases before with
    | nil => exact absurd (List.cons.inj split).1 (by simp)
    | cons entry before' =>
      obtain ⟨rfl, rest⟩ := List.cons.inj split
      exact ⟨before', rfl, rest⟩
  obtain ⟨before', rfl, rest⟩ := rest
  obtain ⟨slices, slice, later, front, back, whole, printed, rfl⟩ := flatMap_eq_append_cons rest
  have dep_printed {s : Slice} {dep : Dep} (member : dep ∈ s.deps) : .dep dep ∈ .arch s.arch :: s.deps.map Printed.dep :=
    List.mem_cons_of_mem _ (List.mem_map_of_mem member)
  have own : ∀ dep ∈ slice.deps, .dep dep ∈ front := by
    intro dep member
    rw [Slice.printed, ← List.cons_append] at printed
    rcases List.append_eq_append_iff.mp printed with ⟨more, rfl, -⟩ | ⟨more, whole, tail⟩
    · exact List.mem_append_left _ (dep_printed member)
    · cases more with
      | nil =>
        rw [List.append_nil] at whole
        exact whole ▸ dep_printed member
      | cons entry more =>
        obtain ⟨rfl, -⟩ := List.cons.inj tail
        have inside : .rpath rp ∈ .arch slice.arch :: slice.deps.map Printed.dep :=
          whole ▸ List.mem_append_right _ List.mem_cons_self
        simp at inside
  refine ⟨slices, slice, later, whole, ?_, ?_⟩
  · have inside : .rpath rp ∈ slice.printed := printed ▸ List.mem_append_right _ List.mem_cons_self
    simpa [Slice.printed] using inside
  · intro s member dep has
    refine List.mem_cons_of_mem _ ?_
    rcases List.mem_append.mp member with earlier | same
    · refine List.mem_append_left _ (List.mem_flatMap.mpr ⟨s, earlier, ?_⟩)
      exact List.mem_append_left (List.map Printed.rpath s.rpaths) (dep_printed has)
    · cases List.mem_singleton.mp same
      exact List.mem_append_right _ (own dep has)

theorem mem_report_dep {d : Dep} : .dep d ∈ report path info ↔ ∃ s ∈ info.slices, d ∈ s.deps := by
  simp [report, Slice.printed]

/-- The install-name of an entry for a dependency. -/
def depName : Printed → List String
  | .dep d => [d.path]
  | _ => []

theorem report_depName : (report path info).flatMap depName = (info.slices.flatMap (·.deps)).map (·.path) := by
  have slice_depName (slice : Slice) : slice.printed.flatMap depName = slice.deps.map (·.path) := by
    have deps : (slice.deps.map Printed.dep).flatMap depName = slice.deps.map (·.path) := by
      rw [List.flatMap_map, List.map_eq_flatMap]
      rfl
    have none : (slice.rpaths.map Printed.rpath).flatMap depName = [] := by
      rw [List.flatMap_map]
      exact List.flatMap_eq_nil_iff.mpr fun _ _ => rfl
    rw [Slice.printed, List.flatMap_cons, List.flatMap_append, deps, none, List.append_nil]
    rfl
  rw [report, List.flatMap_cons, List.map_flatMap, List.flatMap_assoc, funext slice_depName]
  rfl

/-- Where the entries for dependencies declare their names and the others nothing new, the
names are those of the dependencies. -/
theorem eraseDups_declared {entries : List Printed} (deps : ∀ d, .dep d ∈ entries → declaredBy (.dep d) = [d.path])
    (silent : ∀ before entry after, entries = before ++ entry :: after → (∀ d, entry ≠ .dep d) →
      ∀ name ∈ declaredBy entry, name ∈ before.flatMap declaredBy) :
    (entries.flatMap declaredBy).eraseDups = (entries.flatMap depName).eraseDups := by
  induction entries using List.reverseRecOn with
  | nil => rfl
  | append_singleton entries entry ih =>
    have same := ih (fun d member => deps d (List.mem_append_left _ member)) fun before entry' after split =>
      silent before entry' (after ++ [entry]) (by rw [split, List.append_assoc, List.cons_append])
    have members (name : String) : name ∈ entries.flatMap declaredBy ↔ name ∈ entries.flatMap depName := by
      rw [← List.mem_eraseDups, same, List.mem_eraseDups]
    rw [List.flatMap_append, List.flatMap_append, List.flatMap_singleton, List.flatMap_singleton]
    have other (declared : ∀ d, entry ≠ .dep d) (nothing : depName entry = []) :
        (entries.flatMap declaredBy ++ declaredBy entry).eraseDups = (entries.flatMap depName ++ depName entry).eraseDups := by
      rw [nothing, List.append_nil, ← same]
      exact eraseDups_append_eq.mpr (silent entries entry [] rfl declared)
    cases entry with
    | dep d =>
      rw [deps d (List.mem_append_right _ List.mem_cons_self), depName, List.eraseDups_append, List.eraseDups_append, same]
      simp only [List.removeAll, List.elem_eq_mem, members]
    | header path => exact other (fun _ => nofun) rfl
    | arch name => exact other (fun _ => nofun) rfl
    | rpath path => exact other (fun _ => nofun) rfl

/-- Where only entries for dependencies add names, what is declared is declared by them. -/
theorem declared_by_dep {entries : List Printed}
    (silent : ∀ before entry after, entries = before ++ entry :: after → (∀ d, entry ≠ .dep d) →
      ∀ name ∈ declaredBy entry, name ∈ before.flatMap declaredBy) :
    ∀ name ∈ entries.flatMap declaredBy, ∃ d, .dep d ∈ entries ∧ name ∈ declaredBy (.dep d) := by
  induction entries using List.reverseRecOn with
  | nil => exact fun _ member => absurd member List.not_mem_nil
  | append_singleton entries entry ih =>
    have earlier := ih fun before entry' after split =>
      silent before entry' (after ++ [entry]) (by rw [split, List.append_assoc, List.cons_append])
    have old (name : String) (member : name ∈ entries.flatMap declaredBy) :
        ∃ d, .dep d ∈ entries ++ [entry] ∧ name ∈ declaredBy (.dep d) := by
      obtain ⟨d, inside, declared⟩ := earlier name member
      exact ⟨d, List.mem_append_left _ inside, declared⟩
    intro name member
    rw [List.flatMap_append, List.flatMap_singleton] at member
    rcases List.mem_append.mp member with before | now
    · exact old name before
    by_cases dep : ∃ d, entry = .dep d
    · obtain ⟨d, rfl⟩ := dep
      exact ⟨d, List.mem_append_right _ List.mem_cons_self, now⟩
    · exact old name (silent entries entry [] rfl (fun d same => dep ⟨d, same⟩) name now)

theorem mem_declaredBy {entry : Printed} {name : String} (declared : name ∈ declaredBy entry) :
    name ≠ "" ∧ '\t' ∉ name.toList ∧ '\n' ∉ name.toList := by
  obtain ⟨line, read, declares⟩ := List.mem_filterMap.mp declared
  exact declares_clean (Text.lines_clean line read) declares

/-- A name that ends with a carriage return is declared by a longer one only. -/
theorem carriage_longer {d : Dep} {name : String} (tab : '\t' ∉ d.path.toList) (newline : '\n' ∉ d.path.toList)
    (declared : name ∈ declaredBy (.dep d)) (carriage : name.toList.getLast? = some '\r') :
    d.path.toList.getLast? = some '\r' ∧ name.toList.length < d.path.toList.length := by
  rw [declaredBy_dep tab newline] at declared
  split at declared
  · exact absurd declared List.not_mem_nil
  have same := List.mem_singleton.mp declared
  unfold chomp at same
  split at same
  · rename_i ends
    have filled : d.path.toList ≠ [] := fun empty => by simp [empty] at ends
    have longer := List.length_pos_iff.mpr filled
    rw [same, String.toList_ofList, List.length_dropLast]
    exact ⟨ends, by omega⟩
  · rename_i ends
    exact absurd (same ▸ carriage) ends

/-- Names that are declared by the entries for dependencies do not end with a carriage return:
each such name would be declared by a longer one. -/
theorem no_carriage {deps : List Dep} (clean : ∀ d ∈ deps, '\t' ∉ d.path.toList ∧ '\n' ∉ d.path.toList)
    (declared : ∀ d ∈ deps, ∃ d' ∈ deps, d.path ∈ declaredBy (.dep d')) :
    ∀ d ∈ deps, d.path.toList.getLast? ≠ some '\r' := by
  intro d member carriage
  have longer (n : Nat) : ∃ d ∈ deps, d.path.toList.getLast? = some '\r' ∧ n ≤ d.path.toList.length := by
    induction n with
    | zero => exact ⟨d, member, carriage, Nat.zero_le _⟩
    | succ n ih =>
      obtain ⟨d, member, carriage, long⟩ := ih
      obtain ⟨d', member', from_d'⟩ := declared d member
      obtain ⟨carriage', longer⟩ := carriage_longer (clean d' member').1 (clean d' member').2 from_d' carriage
      exact ⟨d', member', carriage', by omega⟩
  obtain ⟨d', member', -, long⟩ := longer ((deps.map fun d => d.path.toList.length).sum + 1)
  have bound := List.single_le_sum (fun _ _ => Nat.zero_le _) _ (List.mem_map_of_mem (f := fun d : Dep => d.path.toList.length) member')
  omega

/-- What is parsed is read back just where the report of it is plain. -/
theorem report_read_iff {buf : Bytes} (parsed : parse buf = .ok info) : Agrees path info index ↔ Plain path info := by
  have arch_silent {name : String} (member : .arch name ∈ report path info) : declaredBy (.arch name) = [] := by
    obtain ⟨slice, inside, rfl⟩ : ∃ slice ∈ info.slices, slice.arch = name := by
      simpa [report, Slice.printed, eq_comm] using member
    exact declaredBy_arch (parse_arch parsed slice inside)
  constructor
  · rintro ⟨listed, quiet⟩
    have silent (before : List Printed) (entry : Printed) (after : List Printed)
        (split : report path info = before ++ entry :: after) (other : ∀ d, entry ≠ .dep d) :
        ∀ name ∈ declaredBy entry, name ∈ before.flatMap declaredBy :=
      silent_iff.mp (quiet before entry after split other)
    have by_dep (before after : List Printed) (split : report path info = before ++ after) :
        ∀ name ∈ before.flatMap declaredBy, ∃ d, .dep d ∈ before ∧ name ∈ declaredBy (.dep d) :=
      declared_by_dep fun front entry back split' => silent front entry (back ++ after) (by
        rw [split, split', List.append_assoc, List.cons_append])
    have declared (d : Dep) (member : d ∈ info.slices.flatMap (·.deps)) : d.path ∈ (report path info).flatMap declaredBy := by
      rw [← List.mem_eraseDups, ← @names_textOf index, ← printDeps_text, listed, List.mem_eraseDups]
      exact List.mem_map_of_mem member
    have clean (d : Dep) (member : d ∈ info.slices.flatMap (·.deps)) :
        d.path ≠ "" ∧ '\t' ∉ d.path.toList ∧ '\n' ∉ d.path.toList := by
      obtain ⟨entry, -, inside⟩ := List.mem_flatMap.mp (declared d member)
      exact mem_declaredBy inside
    have carriage := @no_carriage (info.slices.flatMap (·.deps)) (fun d member => (clean d member).2) fun d member => by
      obtain ⟨d', inside, from_d'⟩ := by_dep _ [] (List.append_nil _).symm d.path (declared d member)
      exact ⟨d', List.mem_flatMap.mpr (mem_report_dep.mp inside), from_d'⟩
    refine ⟨?_, ?_, ?_⟩
    · intro slice inside d has
      have member : d ∈ info.slices.flatMap (·.deps) := List.mem_flatMap.mpr ⟨slice, inside, has⟩
      obtain ⟨filled, tab, newline⟩ := clean d member
      exact ⟨filled, tab, newline, carriage d member⟩
    · intro line later
      by_contra some
      obtain ⟨name, declares⟩ := Option.ne_none_iff_exists'.mp some
      have member : name ∈ declaredBy (.header path) := by
        rw [declaredBy_header]
        exact List.mem_filterMap.mpr ⟨line, later, declares⟩
      exact List.not_mem_nil (silent [] (.header path) _ rfl (fun d same => by cases same) name member)
    · intro slices slice rest whole rp inside line later name declares
      obtain ⟨front, back, rpaths⟩ := List.append_of_mem inside
      have split : report path info = (.header path :: (slices.flatMap Slice.printed ++
          (.arch slice.arch :: (slice.deps.map .dep ++ front.map .rpath)))) ++
          .rpath rp :: (back.map .rpath ++ rest.flatMap Slice.printed) := by
        simp [report, whole, Slice.printed, rpaths]
      have member : name ∈ declaredBy (.rpath rp) := by
        rw [declaredBy_rpath]
        exact List.mem_filterMap.mpr ⟨line, later, declares⟩
      obtain ⟨d, written, from_d⟩ := by_dep _ _ split name (silent _ _ _ split (fun d same => by cases same) name member)
      obtain ⟨s, among, has⟩ : ∃ s ∈ slices ++ [slice], d ∈ s.deps := by
        simpa [Slice.printed, or_and_right, exists_or] using written
      have reported : .dep d ∈ report path info := split ▸ List.mem_append_left _ written
      obtain ⟨s', inside', has'⟩ := mem_report_dep.mp reported
      have member' : d ∈ info.slices.flatMap (·.deps) := List.mem_flatMap.mpr ⟨s', inside', has'⟩
      obtain ⟨filled, tab, newline⟩ := clean d member'
      rw [declaredBy_dep tab newline, chomp, if_neg (carriage d member'), if_neg filled] at from_d
      exact ⟨s, among, d, has, (List.mem_singleton.mp from_d).symm⟩
  · intro plain
    have deps (d : Dep) (member : .dep d ∈ report path info) : declaredBy (.dep d) = [d.path] := by
      obtain ⟨slice, inside, member⟩ := mem_report_dep.mp member
      obtain ⟨filled, tab, newline, carriage⟩ := plain.deps slice inside d member
      rw [declaredBy_dep tab newline, chomp, if_neg carriage, if_neg filled]
    have silent (before : List Printed) (entry : Printed) (after : List Printed)
        (split : report path info = before ++ entry :: after) (other : ∀ d, entry ≠ .dep d) :
        ∀ name ∈ declaredBy entry, name ∈ before.flatMap declaredBy := by
      have member : entry ∈ report path info := split ▸ List.mem_append_right _ List.mem_cons_self
      intro name declared
      cases entry with
      | dep d => exact absurd rfl (other d)
      | header path' =>
        have same : path' = path := by
          simpa [report, Slice.printed] using member
        rw [same, declaredBy_header] at declared
        obtain ⟨line, later, declares⟩ := List.mem_filterMap.mp declared
        rw [plain.header line later] at declares
        exact absurd declares (by simp)
      | arch name' =>
        rw [arch_silent member] at declared
        exact absurd declared List.not_mem_nil
      | rpath rp =>
        obtain ⟨slices, slice, rest, whole, inside, written⟩ := report_rpath split
        rw [declaredBy_rpath] at declared
        obtain ⟨line, later, declares⟩ := List.mem_filterMap.mp declared
        obtain ⟨s, among, dep, has, rfl⟩ := plain.rpaths slices slice rest whole rp inside line later name declares
        refine List.mem_flatMap.mpr ⟨.dep dep, written s among dep has, ?_⟩
        rw [deps dep (split ▸ List.mem_append_left _ (written s among dep has))]
        exact List.mem_singleton_self _
    refine ⟨?_, fun before entry after split other => silent_iff.mpr (silent before entry after split other)⟩
    rw [printDeps_text, names_textOf, eraseDups_declared deps silent, report_depName]

theorem report_read_weak : Agrees "/Payload/App.app/App" ⟨[weakImage.slice]⟩ [] := by
  have slice : weakImage.slice = ⟨"arm64", 0x0100000c, [⟨.weak, "libobjc.A.dylib"⟩], ["@loader_path"]⟩ := by decide
  refine (report_read_iff (parse_encode weakImage)).mpr ⟨?_, ?_, ?_⟩
  · rw [slice]
    decide
  · have single : laterLines "/Payload/App.app/App" = [] := by decide +kernel
    exact fun line later => absurd (single ▸ later) List.not_mem_nil
  · have single : laterLines "@loader_path" = [] := by decide +kernel
    intro before slice' after whole rp inside line later
    have same : slice' = weakImage.slice := by
      have listed : [weakImage.slice] = before ++ slice' :: after := whole
      have member : slice' ∈ [weakImage.slice] := listed ▸ List.mem_append_right _ List.mem_cons_self
      exact List.mem_singleton.mp member
    rw [same, slice] at inside
    rw [List.mem_singleton.mp inside, single] at later
    exact absurd later List.not_mem_nil

/-- An image whose only run path has a line of its own for a library. -/
def forgedImage : Image where
  wide := true
  bigEndian := false
  cputype := 0x0100000c
  cpusubtype := 0
  filetype := 2
  flags := 0
  reserved := 0
  commands := [.rpath true ⟨[], "@loader_path\n\tLOAD\t/usr/lib/libz.dylib", [0], by decide, Or.inl rfl⟩]
  slack := []
  content := []
  fits := by decide

theorem forged_rpath_listed : parse forgedImage.encode = .ok ⟨[forgedImage.slice]⟩ ∧
    resolveFromDepsOutput (printDeps "/Payload/App.app/App" ⟨[forgedImage.slice]⟩) [] =
      [⟨"/usr/lib/libz.dylib", .missing true⟩] ∧
    ¬ Agrees "/Payload/App.app/App" ⟨[forgedImage.slice]⟩ [] := by
  have slice : forgedImage.slice =
      ⟨"arm64", 0x0100000c, [], ["@loader_path\n\tLOAD\t/usr/lib/libz.dylib"]⟩ := by decide
  have resolved : resolveFromDepsOutput (printDeps "/Payload/App.app/App" ⟨[forgedImage.slice]⟩) [] =
      [⟨"/usr/lib/libz.dylib", .missing true⟩] := by
    rw [slice]
    decide +kernel
  refine ⟨parse_encode forgedImage, resolved, fun agrees => ?_⟩
  have listed := agrees.listed
  rw [resolved, slice] at listed
  exact absurd listed (by decide)

end Bsdos.Run
