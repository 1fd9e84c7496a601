import Bsdos.Files.Walk
import Mathlib.Logic.Function.Basic

namespace Files
open Bsdos

inductive Node
  | dir
  | file (content : List UInt8) (mode : Nat)
  deriving DecidableEq

/-- The files of a system, without links: whatever is in a place is in a directory. -/
structure Tree where
  node : Place → Option Node
  root : node [] = some .dir
  closed : ∀ place name, node (place ++ [name]) ≠ none → node place = some .dir

/-- Something new in a directory, or a file in place of another. -/
def Tree.add (t : Tree) (here : Place) (name : String) (n : Node) : Option Tree :=
  if fits : t.node here = some .dir ∧ t.node (here ++ [name]) ≠ some .dir then
    some {
      node := Function.update t.node (here ++ [name]) (some n)
      root := by
        rw [Function.update_of_ne (by simp), t.root]
      closed := by
        intro place name' filled
        have parent : t.node place = some .dir := by
          by_cases same : place ++ [name'] = here ++ [name]
          · exact (List.append_inj_left' same rfl) ▸ fits.1
          · rw [Function.update_of_ne same] at filled
            exact t.closed place name' filled
        have other : place ≠ here ++ [name] := fun same => fits.2 (same ▸ parent)
        rwa [Function.update_of_ne other] }
  else none

/-- `create_dir_all`, from a directory on. -/
def Tree.mkdirs (t : Tree) (here : Place) : List String → Option Tree
  | [] => some t
  | name :: names =>
    match t.node (here ++ [name]) with
    | some .dir => t.mkdirs (here ++ [name]) names
    | some (.file _ _) => none
    | none => (t.add here name .dir).bind fun t => t.mkdirs (here ++ [name]) names

def Tree.createDirAll (t : Tree) (place : Place) : Option Tree := t.mkdirs [] place

def Tree.createFile (t : Tree) (place : Place) (content : List UInt8) (mode : Nat) : Option Tree :=
  place.getLast?.bind fun name => t.add place.dropLast name (.file content mode)

/-- The components are taken one by one, each in a directory. -/
def Tree.walk (t : Tree) : Place → List String → Option Place
  | here, [] => some here
  | here, name :: names => if t.node here = some .dir then t.walk (enter here name) names else none

def Tree.lookup (t : Tree) (cwd : Place) (path : String) : Option Node :=
  (t.walk (if path.toList.head? = some '/' then [] else cwd) (Text.split '/' path)).bind t.node

variable {t t' : Tree} {here place : Place} {name : String} {n : Node}

theorem Tree.add_node (added : t.add here name n = some t') :
    t.node here = some .dir ∧ t.node (here ++ [name]) ≠ some .dir ∧
      ∀ place, t'.node place = if place = here ++ [name] then some n else t.node place := by
  unfold add at added
  split at added
  · rename_i fits
    cases added
    refine ⟨fits.1, fits.2, fun place => ?_⟩
    by_cases same : place = here ++ [name]
    · rw [if_pos same, same]
      exact Function.update_self ..
    · rw [if_neg same]
      exact Function.update_of_ne same ..
  · exact absurd added nofun

theorem Tree.prefix_dir (dir : t.node place = some .dir) (above : here <+: place) : t.node here = some .dir := by
  obtain ⟨names, rfl⟩ := above
  induction names using List.reverseRecOn with
  | nil => rwa [List.append_nil] at dir
  | append_singleton names name ih =>
    rw [← List.append_assoc] at dir
    exact ih (t.closed _ name (by rw [dir]; exact nofun))

/-- Making directories adds directories on the way, and leaves the rest alone. -/
theorem Tree.mkdirs_node {names : List String} (made : t.mkdirs here names = some t') :
    ∀ place, t'.node place = t.node place ∨ t.node place = none ∧ t'.node place = some .dir ∧ place <+: here ++ names := by
  induction names generalizing t here with
  | nil =>
    cases made
    exact fun _ => .inl rfl
  | cons name names ih =>
    intro place
    have path : here ++ name :: names = here ++ [name] ++ names := by simp
    unfold mkdirs at made
    split at made
    · rw [path]
      exact ih made place
    · exact absurd made nofun
    · rename_i absent
      obtain ⟨between, added, made⟩ := Option.bind_eq_some_iff.mp made
      obtain ⟨-, -, nodes⟩ := add_node added
      rcases ih made place with same | ⟨none, dir, way⟩
      · by_cases new : place = here ++ [name]
        · refine .inr ⟨new ▸ absent, ?_, ?_⟩
          · rw [same, nodes, if_pos new]
          · rw [path, new]
            exact List.prefix_append _ _
        · exact .inl (by rw [same, nodes, if_neg new])
      · by_cases new : place = here ++ [name]
        · rw [nodes, if_pos new] at none
          exact absurd none nofun
        · rw [nodes, if_neg new] at none
          exact .inr ⟨none, dir, path ▸ way⟩

theorem Tree.mkdirs_keeps {names : List String} (made : t.mkdirs here names = some t') (there : t.node place = some n) :
    t'.node place = some n := by
  rcases mkdirs_node made place with same | ⟨absent, -, -⟩
  · exact same.trans there
  · exact absurd (there.symm.trans absent) nofun

theorem Tree.walk_append {names names' : List String} :
    t.walk here (names ++ names') = (t.walk here names).bind fun here => t.walk here names' := by
  induction names generalizing here with
  | nil => rfl
  | cons name names ih =>
    rw [List.cons_append, walk, walk]
    split
    · exact ih
    · rfl

theorem Tree.walk_place {names : List String} (walked : t.walk here names = some place) : place = names.foldl enter here := by
  induction names generalizing here with
  | nil => exact (Option.some.inj walked).symm
  | cons name names ih =>
    unfold walk at walked
    split at walked
    · exact ih walked
    · exact absurd walked nofun

/-- What is found under a plain name in a directory. -/
theorem Tree.lookup_child {cwd : Place} {path : String} (dir : t.lookup cwd path = some .dir) (filled : path ≠ "")
    (proper : Proper name) (free : '/' ∉ name.toList) :
    t.lookup cwd (path ++ "/" ++ name) = t.node (resolve cwd path ++ [name]) := by
  have some : path.toList ≠ [] := fun none => filled (String.toList_eq_nil_iff.mp none)
  have first : (path ++ "/" ++ name).toList.head? = path.toList.head? := by
    rw [String.toList_append, String.toList_append, List.append_assoc, List.head?_append_of_ne_nil _ some]
  have slash : "/" = String.singleton '/' := by decide
  obtain ⟨place, walked, dir⟩ := Option.bind_eq_some_iff.mp dir
  unfold lookup
  rw [first, slash, Text.split_append, Text.split_free free, walk_append, walked, Option.bind_some, walk, if_pos dir, walk,
    Option.bind_some, proper.enter, walk_place walked]
  rfl

/-- What is looked up is where the path leads. -/
theorem Tree.lookup_resolve {cwd : Place} {path : String} (found : t.lookup cwd path = some n) :
    t.node (resolve cwd path) = some n := by
  obtain ⟨place, walked, there⟩ := Option.bind_eq_some_iff.mp found
  rw [walk_place walked] at there
  exact there

end Files
