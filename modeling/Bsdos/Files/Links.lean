import Bsdos.Files.Path
import Mathlib.Data.Finmap

namespace Files
open Bsdos

inductive Item
  | file (content : List UInt8)
  | dir
  | link (target : String)
  | special
  deriving DecidableEq

/-- What is where, links not being followed. -/
abbrev Items := Place → Option Item

/-- The directory that a path is taken from. -/
def start (cwd : Place) (path : String) : Place := if path.toList.head? = some '/' then [] else cwd

/-- The names are taken one by one, each in a directory; at a link it is gone on from its
target by `again`. -/
def walkLinks (items : Items) (again : Place → List String → Option Place) : Place → List String → Option Place
  | here, [] => some here
  | here, name :: names =>
    if items here = some .dir then
      match items (enter here name) with
      | some (.link target) => again (start here target) (Text.split '/' target ++ names)
      | some _ => walkLinks items again (enter here name) names
      | none => none
    else none

/-- Where names lead, past so many links at most. -/
def follow (items : Items) : Nat → Place → List String → Option Place
  | 0 => walkLinks items fun _ _ => none
  | links + 1 => walkLinks items (follow items links)

/-- What is at the end of a path, past its links. -/
def stat (items : Items) (cwd : Place) (path : String) : Option Item :=
  (follow items 32 (start cwd path) (Text.split '/' path)).bind items

/-- The names lead down through directories, and to no link. -/
def Descends (items : Items) : Place → List String → Prop
  | _, [] => True
  | here, name :: names => Proper name ∧ items here = some .dir ∧
      (∃ item, items (here ++ [name]) = some item ∧ ∀ target, item ≠ .link target) ∧ Descends items (here ++ [name]) names

variable {items : Items} {again : Place → List String → Option Place} {here place : Place} {names rest : List String}

theorem walkLinks_descends (descends : Descends items here names) :
    walkLinks items again here names = some (here ++ names) := by
  induction names generalizing here with
  | nil => rw [List.append_nil, walkLinks]
  | cons name names ih =>
    obtain ⟨proper, dir, ⟨item, there, solid⟩, later⟩ := descends
    have next := ih later
    rw [List.append_assoc, List.singleton_append] at next
    rw [walkLinks, if_pos dir, proper.enter, there]
    cases item with
    | link target => exact absurd rfl (solid target)
    | file | dir | special => exact next

theorem walkLinks_behind (further : ∀ b ns, again b ns = some place → again b (ns ++ rest) = some (place ++ rest))
    (descends : Descends items place rest) (found : walkLinks items again here names = some place) :
    walkLinks items again here (names ++ rest) = some (place ++ rest) := by
  induction names generalizing here with
  | nil =>
    cases found
    exact walkLinks_descends descends
  | cons name names ih =>
    rw [List.cons_append, walkLinks]
    rw [walkLinks] at found
    split at found
    · rename_i dir
      rw [if_pos dir]
      split at found
      · rename_i target there
        rw [← List.append_assoc]
        exact further _ _ found
      · exact ih found
      · cases found
    · cases found

/-- Where a path leads, names that lead down from there go on. -/
theorem follow_behind {links : Nat} (descends : Descends items place rest)
    (found : follow items links here names = some place) : follow items links here (names ++ rest) = some (place ++ rest) := by
  induction links generalizing here names with
  | zero => exact walkLinks_behind (fun _ _ => nofun) descends found
  | succ links ih => exact walkLinks_behind (fun _ _ => ih) descends found

theorem walkLinks_empty {name : String} (further : ∀ b ns, again b (ns ++ "" :: name :: rest) = again b (ns ++ name :: rest)) :
    walkLinks items again here (names ++ "" :: name :: rest) = walkLinks items again here (names ++ name :: rest) := by
  induction names generalizing here with
  | nil =>
    rw [List.nil_append, List.nil_append, walkLinks, enter_empty]
    by_cases dir : items here = some .dir
    · rw [if_pos dir, dir]
    · rw [if_neg dir, walkLinks, if_neg dir]
  | cons first names ih =>
    rw [List.cons_append, List.cons_append, walkLinks, walkLinks]
    split
    · split
      · rw [← List.append_assoc, further, List.append_assoc]
      · exact ih
      · rfl
    · rfl

/-- An empty name before another changes nothing. -/
theorem follow_empty {links : Nat} {name : String} :
    follow items links here (names ++ "" :: name :: rest) = follow items links here (names ++ name :: rest) := by
  induction links generalizing here names with
  | zero => exact walkLinks_empty fun _ _ => rfl
  | succ links ih => exact walkLinks_empty fun _ _ => ih

/-- Not a link, whatever it is. -/
def Solid (items : Items) (place : Place) : Prop := ∀ target, items place ≠ some (.link target)

theorem Solid.of_dir (dir : items here = some .dir) : Solid items here := by
  intro target link
  cases dir.symm.trans link

theorem Solid.start {path : String} (root : Solid items []) (solid : Solid items here) : Solid items (start here path) := by
  unfold Files.start
  split
  · exact root
  · exact solid

theorem walkLinks_solid (root : Solid items []) (further : ∀ b ns, Solid items b → again b ns = some place → Solid items place)
    (solid : Solid items here) (found : walkLinks items again here names = some place) : Solid items place := by
  induction names generalizing here with
  | nil =>
    cases found
    exact solid
  | cons name names ih =>
    rw [walkLinks] at found
    split at found
    · split at found
      · exact further _ _ (root.start solid) found
      · rename_i item plain there
        exact ih (fun target link => plain target (Option.some.inj (there.symm.trans link))) found
      · cases found
    · cases found

/-- No path leads to a link. -/
theorem follow_solid {links : Nat} (root : Solid items []) (solid : Solid items here)
    (found : follow items links here names = some place) : Solid items place := by
  induction links generalizing here names with
  | zero => exact walkLinks_solid root (fun _ _ _ none => by cases none) solid found
  | succ links ih => exact walkLinks_solid root (fun _ _ start => ih start) solid found

theorem stat_solid {cwd : Place} {path : String} (root : Solid items []) (solid : Solid items cwd) (target : String) :
    stat items cwd path ≠ some (.link target) := by
  intro link
  obtain ⟨place, found, there⟩ := Option.bind_eq_some_iff.mp link
  exact follow_solid root (root.start solid) found target there

/-- The links and files of a system: whatever is in a place is in a directory. -/
structure LinkTree where
  items : Finmap fun _ : Place => Item
  root : items.lookup [] = some .dir
  closed : ∀ place ∈ items.keys, ∀ name ∈ place.getLast?,
    items.lookup place.dropLast = some .dir ∧ Proper name ∧ '/' ∉ name.toList

variable {t : LinkTree} {base rel : Place}

theorem LinkTree.above {name : String} (there : base ++ name :: rel ∈ t.items) :
    t.items.lookup base = some .dir ∧ Proper name ∧ '/' ∉ name.toList ∧ base ++ [name] ∈ t.items := by
  induction rel using List.reverseRecOn with
  | nil =>
    obtain ⟨dir, proper, free⟩ := t.closed _ (Finmap.mem_keys.mpr there) name (by simp)
    rw [List.dropLast_concat] at dir
    exact ⟨dir, proper, free, there⟩
  | append_singleton rel last ih =>
    have ends : base ++ name :: (rel ++ [last]) = (base ++ name :: rel) ++ [last] := by
      rw [List.append_assoc, List.cons_append]
    rw [ends] at there
    obtain ⟨dir, -⟩ := t.closed _ (Finmap.mem_keys.mpr there) last List.getLast?_concat
    rw [List.dropLast_concat] at dir
    exact ih (Finmap.mem_iff.mpr ⟨_, dir⟩)

theorem LinkTree.named (there : base ++ rel ∈ t.items) : ∀ name ∈ rel, Proper name ∧ '/' ∉ name.toList := by
  induction rel generalizing base with
  | nil => exact fun name member => absurd member List.not_mem_nil
  | cons name rel ih =>
    obtain ⟨-, proper, free, inside⟩ := t.above there
    intro other member
    rcases List.mem_cons.mp member with rfl | later
    · exact ⟨proper, free⟩
    · exact @ih (base ++ [name]) (by rwa [List.append_assoc, List.singleton_append]) other later

/-- What is not a link is led to by the names of its place. -/
theorem LinkTree.descends (there : base ++ rel ∈ t.items) (solid : Solid t.items.lookup (base ++ rel)) :
    Descends t.items.lookup base rel := by
  induction rel generalizing base with
  | nil => trivial
  | cons name rel ih =>
    obtain ⟨dir, proper, -, inside⟩ := t.above there
    have same : base ++ name :: rel = (base ++ [name]) ++ rel := by rw [List.append_assoc, List.singleton_append]
    rw [same] at there solid
    refine ⟨proper, dir, ?_, ih there solid⟩
    obtain ⟨item, found⟩ := Finmap.mem_iff.mp inside
    refine ⟨item, found, ?_⟩
    cases rel with
    | nil =>
      rintro target rfl
      exact solid target (by rwa [List.append_nil])
    | cons next rel =>
      obtain ⟨middle, -⟩ := t.above there
      rintro target rfl
      cases found.symm.trans middle

end Files
