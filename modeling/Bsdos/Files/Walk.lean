import Bsdos.Files.Path

namespace Files
open Bsdos

/-- What a relative path comes to: so many levels up, then these names down. -/
structure Walk where
  up : Nat
  down : List String
  deriving DecidableEq, Repr

/-- One more component: two dots take back the last name, or go up where there is none. -/
def Walk.enter (w : Walk) (name : String) : Walk :=
  if name = "" ∨ name = "." then w
  else if name = ".." then (if w.down = [] then ⟨w.up + 1, []⟩ else ⟨w.up, w.down.dropLast⟩)
  else ⟨w.up, w.down ++ [name]⟩

def walk (path : String) : Walk := (Text.split '/' path).foldl Walk.enter ⟨0, []⟩

/-- Where a walk leads. -/
def Walk.from (w : Walk) (here : Place) : Place := here.take (here.length - w.up) ++ w.down

/-- A path that comes back to the base by the names it has gone up past, and enters `name`
there. -/
def Leads (base : Place) (path name : String) : Prop :=
  (walk path).down = base.drop (base.length - (walk path).up) ++ [name]

instance {base : Place} {path name : String} : Decidable (Leads base path name) :=
  inferInstanceAs (Decidable (_ = _))

theorem Walk.enter_from (w : Walk) (here : Place) (name : String) :
    Files.enter (w.from here) name = (w.enter name).from here := by
  by_cases stays : name = "" ∨ name = "."
  · simp only [Files.enter, Walk.enter, if_pos stays]
  by_cases back : name = ".."
  · subst back
    rw [enter_dotdot]
    simp only [Walk.enter, if_neg stays, if_true]
    by_cases top : w.down = []
    · simp only [Walk.from, top, if_true, List.append_nil]
      rw [List.dropLast_eq_take, List.take_take, List.length_take]
      exact congrArg (here.take ·) (by omega)
    · simp only [Walk.from, if_neg top, List.dropLast_append_of_ne_nil top]
  · simp only [Files.enter, Walk.enter, if_neg stays, if_neg back, Walk.from, List.append_assoc]

theorem walk_from (names : List String) (w : Walk) (here : Place) :
    names.foldl Files.enter (w.from here) = (names.foldl Walk.enter w).from here := by
  induction names generalizing w with
  | nil => rfl
  | cons name names ih => rw [List.foldl_cons, List.foldl_cons, Walk.enter_from, ih]

/-- A path below another one is walked from there. -/
theorem resolve_below {cwd : Place} {base path : String} (filled : base ≠ "") :
    resolve cwd (base ++ "/" ++ path) = (walk path).from (resolve cwd base) := by
  have first : (base ++ "/" ++ path).toList.head? = base.toList.head? := by
    have some : base.toList ≠ [] := fun none => filled (String.toList_eq_nil_iff.mp none)
    rw [String.toList_append, String.toList_append, List.append_assoc, List.head?_append_of_ne_nil _ some]
  unfold resolve walk
  rw [first, show base ++ "/" ++ path = base ++ String.singleton '/' ++ path from rfl, Text.split_append, List.foldl_append]
  rw [← walk_from]
  refine congrArg (fun here => (Text.split '/' path).foldl enter here) ?_
  simp only [Walk.from, Nat.sub_zero, List.take_length, List.append_nil]

/-- What a name leads to is a child of the base. -/
theorem child_from_iff {base : Place} {path : String} :
    Child base ((walk path).from base) ↔ ∃ name, Leads base path name := by
  refine exists_congr fun name => ?_
  have whole : base ++ [name] = base.take (base.length - (walk path).up) ++
      (base.drop (base.length - (walk path).up) ++ [name]) := by
    rw [← List.append_assoc, List.take_append_drop]
  unfold Walk.from Leads
  rw [whole]
  exact List.append_right_inj _

theorem Leads.from {base : Place} {path name : String} (leads : Leads base path name) :
    (walk path).from base = base ++ [name] := by
  unfold Walk.from
  rw [leads, ← List.append_assoc, List.take_append_drop]

theorem walk_plain {name : String} (proper : Proper name) (free : '/' ∉ name.toList) : walk name = ⟨0, [name]⟩ := by
  unfold walk
  rw [Text.split_free free, List.foldl_cons, List.foldl_nil, Walk.enter, if_neg (fun dot => dot.elim proper.1 proper.2.1),
    if_neg proper.2.2, List.nil_append]

theorem resolve_child {cwd : Place} {base name : String} (filled : base ≠ "") (proper : Proper name) (free : '/' ∉ name.toList) :
    resolve cwd (base ++ "/" ++ name) = resolve cwd base ++ [name] := by
  rw [resolve_below filled, walk_plain proper free]
  simp only [Walk.from, Nat.sub_zero, List.take_length]

/-- A plain name leads to itself, from every directory. -/
theorem Proper.leads_iff {base : Place} {path name : String} (proper : Proper path) (free : '/' ∉ path.toList) :
    Leads base path name ↔ name = path := by
  unfold Leads
  rw [walk_plain proper free]
  simp only [Nat.sub_zero, List.drop_length, List.nil_append, List.singleton_inj]
  exact eq_comm

/-- `Path::join`: an absolute path takes the place of the base. -/
def join (base path : String) : String := if path.toList.head? = some '/' then path else base ++ "/" ++ path

/-- `place` is below `base`, however deep. -/
def Inside (base place : Place) : Prop := ∃ more, more ≠ [] ∧ place = base ++ more

/-- A path that ends below the base it is joined to: an absolute one that leads there, or one
that comes back by the names it has gone up past. -/
def Stays (base : Place) (path : String) : Prop :=
  if path.toList.head? = some '/' then Inside base (resolve [] path)
  else Inside (base.drop (base.length - (walk path).up)) (walk path).down

theorem inside_join_iff {cwd : Place} {base path : String} (filled : base ≠ "") :
    Inside (resolve cwd base) (resolve cwd (join base path)) ↔ Stays (resolve cwd base) path := by
  unfold join Stays
  by_cases absolute : path.toList.head? = some '/'
  · rw [if_pos absolute, if_pos absolute]
    have same : resolve cwd path = resolve [] path := by
      unfold resolve
      rw [if_pos absolute, if_pos absolute]
    rw [same]
  · rw [if_neg absolute, if_neg absolute, resolve_below filled]
    refine exists_congr fun more => and_congr_right fun _ => ?_
    have whole : resolve cwd base ++ more = (resolve cwd base).take ((resolve cwd base).length - (walk path).up) ++
        ((resolve cwd base).drop ((resolve cwd base).length - (walk path).up) ++ more) := by
      rw [← List.append_assoc, List.take_append_drop]
    unfold Walk.from
    rw [whole]
    exact List.append_right_inj _

theorem Proper.stays {base : Place} {name : String} (proper : Proper name) (free : '/' ∉ name.toList) : Stays base name := by
  have relative : name.toList.head? ≠ some '/' := fun head => free (List.mem_of_head? head)
  unfold Stays
  rw [if_neg relative, walk_plain proper free]
  exact ⟨[name], nofun, by simp⟩

end Files
