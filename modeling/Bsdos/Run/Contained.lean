import Bsdos.Effects.Results
import Bsdos.Run.Ipa

namespace Bsdos.Run
open Files

/-- Two dots in a row somewhere. -/
def Dotted (name : String) : Prop := ['.', '.'] <:+: name.toList

instance (name : String) : Decidable (Dotted name) := inferInstanceAs (Decidable (_ <:+: _))

section extract
variable {cwd : Place} {tmp : String} {t t' : Tree}

/-- A walk along names without two dots goes down only. -/
theorem foldl_enter {names : List String} (plain : ∀ name ∈ names, ¬ Dotted name) (here : Place) :
    ∃ more, names.foldl enter here = here ++ more ∧ ∀ name ∈ more, ¬ Dotted name := by
  induction names generalizing here with
  | nil => exact ⟨[], (List.append_nil _).symm, fun _ => (absurd · List.not_mem_nil)⟩
  | cons name names ih =>
    rw [List.forall_mem_cons] at plain
    obtain ⟨more, walked, clean⟩ := ih plain.2 (enter here name)
    rw [List.foldl_cons, walked]
    unfold enter
    split
    · exact ⟨more, rfl, clean⟩
    split
    · rename_i dots
      exact absurd (by rw [dots]; decide) plain.1
    · exact ⟨name :: more, by rw [List.append_assoc, List.singleton_append], List.forall_mem_cons.mpr ⟨plain.1, clean⟩⟩

theorem pieces_undotted {name : String} (undotted : ¬ Dotted name) : ∀ piece ∈ Text.split '/' name, ¬ Dotted piece :=
  fun piece member dots => undotted (dots.trans (Text.split_pieces piece member).2)

/-- An entry that passes the check leads into the temporary directory. -/
theorem entry_place {name : String} (filled : tmp ≠ "") (undotted : ¬ Dotted name) (relative : name.toList.head? ≠ some '/') :
    ∃ more, resolve cwd (join tmp name) = resolve cwd tmp ++ more ∧ ∀ name ∈ more, ¬ Dotted name := by
  have some : tmp.toList ≠ [] := fun none => filled (String.toList_eq_nil_iff.mp none)
  have first : (tmp ++ "/" ++ name).toList.head? = tmp.toList.head? := by
    rw [String.toList_append, String.toList_append, List.append_assoc, List.head?_append_of_ne_nil _ some]
  have slash : "/" = String.singleton '/' := by decide
  obtain ⟨more, walked, clean⟩ := foldl_enter (pieces_undotted undotted) (resolve cwd tmp)
  refine ⟨more, ?_, clean⟩
  rw [join, if_neg relative, ← walked]
  unfold resolve
  rw [first, slash, Text.split_append, List.foldl_append]

/-- Of a tree only what is below a directory has changed, and there are no names with two dots. -/
structure Below (base : Place) (before after : Tree) : Prop where
  made : after.node base = some .dir
  inside : ∀ place, after.node place ≠ before.node place → Inside base place
  undotted : ∀ more, after.node (base ++ more) ≠ none → ∀ name ∈ more, ¬ Dotted name

variable {base : Place} {before : Tree}

theorem Below.createDirAll {place more : Place} (below : Below base before t) (clean : ∀ name ∈ more, ¬ Dotted name)
    (way : place <+: base ++ more) (created : t.createDirAll place = some t') : Below base before t' := by
  have nodes (p : Place) : t'.node p = t.node p ∨ t.node p = none ∧ ∃ rest, rest ≠ [] ∧ p = base ++ rest ∧ rest <+: more := by
    rcases Tree.mkdirs_node created p with same | ⟨absent, -, prefixed⟩
    · exact .inl same
    refine .inr ⟨absent, ?_⟩
    rcases List.prefix_or_prefix_of_prefix (prefixed.trans way) (List.prefix_append base more) with above | ⟨rest, rfl⟩
    · exact absurd ((Tree.prefix_dir below.made above).symm.trans absent) nofun
    · refine ⟨rest, ?_, rfl, (List.prefix_append_right_inj base).mp (prefixed.trans way)⟩
      rintro rfl
      rw [List.append_nil] at absent
      exact absurd (below.made.symm.trans absent) nofun
  refine ⟨Tree.mkdirs_keeps created below.made, fun p changed => ?_, fun rest there name member => ?_⟩
  · rcases nodes p with same | ⟨-, rest, filled, same, -⟩
    · exact below.inside p (same ▸ changed)
    · exact ⟨rest, filled, same⟩
  · rcases nodes (base ++ rest) with same | ⟨-, rest', -, same, way⟩
    · exact below.undotted rest (same ▸ there) name member
    · rw [List.append_cancel_left same] at member
      exact clean name (way.subset member)

theorem Below.createFile {more : Place} {content : List UInt8} {mode : Nat} (below : Below base before t)
    (clean : ∀ name ∈ more, ¬ Dotted name) (created : t.createFile (base ++ more) content mode = some t') :
    Below base before t' := by
  obtain ⟨last, ends, added⟩ := Option.bind_eq_some_iff.mp created
  obtain ⟨-, notDir, nodes⟩ := Tree.add_node added
  have whole : (base ++ more).dropLast ++ [last] = base ++ more := List.dropLast_append_getLast? last ends
  rw [whole] at notDir nodes
  have other : base ≠ base ++ more := fun same => notDir (same ▸ below.made)
  refine ⟨?_, fun p changed => ?_, fun rest there name member => ?_⟩
  · rw [nodes, if_neg other]
    exact below.made
  · by_cases same : p = base ++ more
    · exact ⟨more, fun none => other (by rw [none, List.append_nil]), same⟩
    · rw [nodes, if_neg same] at changed
      exact below.inside p changed
  · by_cases same : base ++ rest = base ++ more
    · rw [List.append_cancel_left same] at member
      exact clean name member
    · rw [nodes, if_neg same] at there
      exact below.undotted rest there name member

/-- One entry keeps to the temporary directory. -/
theorem Below.extractEntry {entry : Entry} (filled : tmp ≠ "") (below : Below (resolve cwd tmp) before t)
    (extracted : extractEntry cwd tmp t entry = .ok t') : Below (resolve cwd tmp) before t' := by
  unfold Run.extractEntry at extracted
  split at extracted
  · exact absurd extracted nofun
  rename_i safe
  rw [not_or] at safe
  have undotted : ¬ Dotted entry.name := fun dots => safe.1 (by
    have two : "..".toList = ['.', '.'] := by decide
    unfold Text.contains
    rw [two]
    exact decide_eq_true dots)
  obtain ⟨more, dest, clean⟩ := @entry_place cwd tmp _ filled undotted safe.2
  have orIo_ok {α : Type} {r : Option α} {a : α} (ok : orIo r = .ok a) : r = some a := by
    cases r with
    | none => exact absurd ok nofun
    | some b => exact congrArg some (Except.ok.inj ok)
  dsimp only at extracted
  rw [dest] at extracted
  split at extracted
  · exact below.createDirAll clean (List.prefix_refl _) (orIo_ok extracted)
  · obtain ⟨parent, created, written⟩ := Results.bind_ok extracted
    exact (below.createDirAll clean (List.dropLast_prefix _) (orIo_ok created)).createFile clean (orIo_ok written)

/-- All entries keep to the temporary directory. -/
theorem Below.extractIpa {entries : List (Except RunError Entry)} (filled : tmp ≠ "") (below : Below (resolve cwd tmp) before t)
    (extracted : extractIpa cwd tmp t entries = .ok t') : Below (resolve cwd tmp) before t' := by
  induction entries generalizing t with
  | nil =>
    cases extracted
    exact below
  | cons entry entries ih =>
    cases entry with
    | error e => exact absurd extracted nofun
    | ok entry =>
      obtain ⟨between, first, rest⟩ := Results.bind_ok extracted
      exact ih (below.extractEntry filled first) rest

/-- Nothing is yet in the directory. -/
theorem Below.fresh (made : t.node base = some .dir) (fresh : ∀ name, t.node (base ++ [name]) = none) : Below base t t := by
  refine ⟨made, fun place changed => absurd rfl changed, fun more there name member => ?_⟩
  obtain ⟨first, rest, rfl⟩ := List.exists_cons_of_ne_nil (List.ne_nil_of_mem member)
  have entered : t.node (base ++ [first]) ≠ none := by
    rcases List.eq_nil_or_concat rest with rfl | ⟨front, last, rfl⟩
    · exact there
    · have split : base ++ first :: (front ++ [last]) = base ++ [first] ++ front ++ [last] := by simp
      rw [List.concat_eq_append, split] at there
      rw [Tree.prefix_dir (t.closed _ last there) (List.prefix_append _ _)]
      exact nofun
  exact absurd (fresh first) entered

end extract

section find
variable {cwd : Place} {tmp payload appDir binary : String} {t : Tree} {names : List String} {name : String}

theorem findAppDir_ok (found : findAppDir t cwd payload names = .ok appDir) :
    ∃ name ∈ names, appDir = join payload name ∧ t.lookup cwd appDir = some .dir ∧ isAppName name := by
  induction names with
  | nil => exact absurd found nofun
  | cons name names ih =>
    unfold findAppDir at found
    dsimp only at found
    split at found
    · rename_i fits
      cases found
      exact ⟨name, List.mem_cons_self, rfl, fits⟩
    · obtain ⟨name, member, rest⟩ := ih found
      exact ⟨name, List.mem_cons_of_mem _ member, rest⟩

theorem findBinary_ok (found : findBinary t cwd tmp names = .ok (appDir, binary)) :
    ∃ name ∈ names, appDir = join (join tmp "Payload") name ∧ t.lookup cwd appDir = some .dir ∧ isAppName name ∧
      binary = join appDir (execName t cwd appDir) := by
  unfold findBinary at found
  dsimp only at found
  split at found
  · exact absurd found nofun
  obtain ⟨app, chosen, found⟩ := Results.bind_ok found
  split at found
  · exact absurd found nofun
  cases found
  obtain ⟨name, member, path, dir, app⟩ := findAppDir_ok chosen
  exact ⟨name, member, path, dir, app, rfl⟩

/-- The stem of a bundle's name is a plain name. -/
theorem fileStem_plain (proper : Proper name) (free : '/' ∉ name.toList) (app : isAppName name) (undotted : ¬ Dotted name) :
    Proper (fileStem (payload ++ "/" ++ name)) ∧ '/' ∉ (fileStem (payload ++ "/" ++ name)).toList := by
  obtain ⟨stem, rfl⟩ := isAppName_shape app
  have free' : '/' ∉ stem := fun inside => free (by rw [String.toList_ofList]; exact List.mem_append_left _ inside)
  by_cases filled : stem = []
  · subst filled
    show Proper (fileStem (payload ++ "/" ++ ".app")) ∧ '/' ∉ (fileStem (payload ++ "/" ++ ".app")).toList
    rw [fileStem_bare]
    exact ⟨proper, free⟩
  · have dots (c : List Char) (dotted : ['.', '.'] <:+: c ++ ['.', 'a', 'p', 'p']) : String.ofList stem ≠ String.ofList c := by
      intro same
      refine undotted ?_
      rw [Dotted, String.toList_ofList, String.ofList_inj.mp same]
      exact dotted
    rw [fileStem_app free' filled, String.toList_ofList]
    refine ⟨⟨?_, dots ['.'] (by decide), dots ['.', '.'] (by decide)⟩, free'⟩
    exact fun empty => filled (String.ofList_inj.mp (empty.trans (by decide : "" = String.ofList [])))

end find

section contained
variable {cwd : Place} {tmp appDir binary : String} {t t' : Tree} {entries : List (Except RunError Entry)} {names : List String}

/-- An archive is extracted into the temporary directory only, and its executable is in the
bundle just where the executable that the Info.plist names is. -/
theorem ipa_contained_iff (filled : tmp ≠ "") (made : t.node (resolve cwd tmp) = some .dir)
    (fresh : ∀ name, t.node (resolve cwd tmp ++ [name]) = none) (extracted : extractIpa cwd tmp t entries = .ok t')
    (listed : ∀ name ∈ names, Proper name ∧ '/' ∉ name.toList)
    (found : findBinary t' cwd tmp names = .ok (appDir, binary)) :
    ((∀ place, t'.node place ≠ t.node place → Inside (resolve cwd tmp) place) ∧
        Inside (resolve cwd appDir) (resolve cwd binary)) ↔
      ∀ content mode name, t'.node (resolve cwd appDir ++ ["Info.plist"]) = some (.file content mode) →
        readBundleExecutable content = some name → Stays (resolve cwd appDir) name := by
  have below := (Below.fresh made fresh).extractIpa filled extracted
  obtain ⟨name, member, path, dir, app, rfl⟩ := findBinary_ok found
  obtain ⟨proper, free⟩ := listed name member
  have plain : join (join tmp "Payload") name = join tmp "Payload" ++ "/" ++ name :=
    if_neg fun head => free (List.mem_of_head? head)
  rw [plain] at path
  have appFilled : appDir ≠ "" := by
    rw [path]
    intro empty
    exact absurd (congrArg String.toList empty) (by simp)
  have payload : join tmp "Payload" = tmp ++ "/" ++ "Payload" := if_neg (by decide)
  have payloadFilled : tmp ++ "/" ++ "Payload" ≠ "" := fun empty => absurd (congrArg String.toList empty) (by simp)
  have place : resolve cwd appDir = resolve cwd tmp ++ ["Payload", name] := by
    rw [path, payload, resolve_child payloadFilled proper free, resolve_child filled (by decide) (by decide), List.append_assoc,
      List.singleton_append]
  have undotted : ¬ Dotted name := by
    refine below.undotted ["Payload", name] ?_ name (by simp)
    rw [← place, Tree.lookup_resolve dir]
    exact nofun
  have plist : t'.lookup cwd (join appDir "Info.plist") = t'.node (resolve cwd appDir ++ ["Info.plist"]) := by
    rw [join, if_neg (by decide)]
    exact Tree.lookup_child dir appFilled (by decide) (by decide)
  have default : Stays (resolve cwd appDir) (fileStem appDir) := by
    obtain ⟨stemProper, stemFree⟩ := fileStem_plain proper free app undotted
    rw [path]
    exact stemProper.stays stemFree
  rw [inside_join_iff appFilled]
  unfold execName
  rw [plist]
  constructor
  · rintro ⟨-, stays⟩ content mode named isFile read
    rw [isFile] at stays
    dsimp only at stays
    rwa [read, Option.getD_some] at stays
  · intro stays
    refine ⟨below.inside, ?_⟩
    cases node : t'.node (resolve cwd appDir ++ ["Info.plist"]) with
    | none => exact default
    | some n =>
      cases n with
      | dir => exact default
      | file content mode =>
        dsimp only
        cases read : readBundleExecutable content with
        | none => exact default
        | some named => exact stays content mode named node read

end contained

/-- A host with a shell and a new temporary directory. -/
def host : Tree where
  node place :=
    if place ∈ [[], ["bin"], ["tmp"], ["tmp", ".tmpQv3Xk1"]] then some .dir
    else if place = ["bin", "sh"] then some (.file [] 0o755)
    else none
  root := by decide
  closed := by
    intro place name filled
    have cut : place = (place ++ [name]).dropLast := List.dropLast_concat.symm
    have known : place ++ [name] ∈ [[], ["bin"], ["tmp"], ["tmp", ".tmpQv3Xk1"], ["bin", "sh"]] := by
      by_contra other
      simp only [List.mem_cons, not_or] at other
      exact filled (by simp [other])
    rw [cut]
    revert known
    generalize place ++ [name] = child
    revert child
    decide

/-- An application whose Info.plist names an executable. -/
def archive (executable : String) : List (Except RunError Entry) :=
  [.ok ⟨"Payload/App.app/Info.plist", false,
      ("<plist><dict>\n<key>CFBundleExecutable</key>\n<string>" ++ executable ++ "</string>\n</dict></plist>\n").toUTF8.toList,
      none⟩,
    .ok ⟨"Payload/App.app/App", false, [0xcf, 0xfa, 0xed, 0xfe], some 0o755⟩]

theorem host_fresh (name : String) : host.node (resolve [] "/tmp/.tmpQv3Xk1" ++ [name]) = none := by
  have place : resolve [] "/tmp/.tmpQv3Xk1" = ["tmp", ".tmpQv3Xk1"] := by decide +kernel
  rw [place]
  simp [host]

theorem ipa_contained_app : ∃ t', extractIpa [] "/tmp/.tmpQv3Xk1" host (archive "App") = .ok t' ∧
    findBinary t' [] "/tmp/.tmpQv3Xk1" ["App.app"] =
      .ok ("/tmp/.tmpQv3Xk1/Payload/App.app", "/tmp/.tmpQv3Xk1/Payload/App.app/App") ∧
    (∀ place, t'.node place ≠ host.node place → Inside (resolve [] "/tmp/.tmpQv3Xk1") place) ∧
    Inside (resolve [] "/tmp/.tmpQv3Xk1/Payload/App.app") (resolve [] "/tmp/.tmpQv3Xk1/Payload/App.app/App") := by
  have run : (extractIpa [] "/tmp/.tmpQv3Xk1" host (archive "App") >>= fun t' =>
      findBinary t' [] "/tmp/.tmpQv3Xk1" ["App.app"] >>= fun found =>
        .ok (found, (t'.node (resolve [] "/tmp/.tmpQv3Xk1/Payload/App.app" ++ ["Info.plist"])).bind fun n =>
          match n with
          | .file content _ => readBundleExecutable content
          | .dir => none)) =
      .ok (("/tmp/.tmpQv3Xk1/Payload/App.app", "/tmp/.tmpQv3Xk1/Payload/App.app/App"), some "App") := by decide +kernel
  obtain ⟨t', extracted, run⟩ := Results.bind_ok run
  obtain ⟨_, found, both⟩ := Results.bind_ok run
  obtain ⟨rfl, written⟩ := Prod.mk.inj (Except.ok.inj both)
  refine ⟨t', extracted, found, (ipa_contained_iff (by decide) (by decide +kernel) host_fresh extracted (by decide) found).mpr ?_⟩
  intro content mode name file read
  rw [file, Option.bind_some] at written
  cases read.symm.trans written
  exact Proper.stays (by decide) (by decide)

/-- A bundle that runs the shell of the host. -/
theorem host_shell_selected : ∃ t', extractIpa [] "/tmp/.tmpQv3Xk1" host (archive "/bin/sh") = .ok t' ∧
    findBinary t' [] "/tmp/.tmpQv3Xk1" ["App.app"] = .ok ("/tmp/.tmpQv3Xk1/Payload/App.app", "/bin/sh") ∧
    host.node (resolve [] "/bin/sh") = some (.file [] 0o755) ∧
    ¬ Inside (resolve [] "/tmp/.tmpQv3Xk1/Payload/App.app") (resolve [] "/bin/sh") := by
  have run : (extractIpa [] "/tmp/.tmpQv3Xk1" host (archive "/bin/sh") >>= fun t' =>
      findBinary t' [] "/tmp/.tmpQv3Xk1" ["App.app"]) = .ok ("/tmp/.tmpQv3Xk1/Payload/App.app", "/bin/sh") := by decide +kernel
  obtain ⟨t', extracted, found⟩ := Results.bind_ok run
  refine ⟨t', extracted, found, by decide +kernel, ?_⟩
  have places : resolve [] "/tmp/.tmpQv3Xk1/Payload/App.app" = ["tmp", ".tmpQv3Xk1", "Payload", "App.app"] ∧
      resolve [] "/bin/sh" = ["bin", "sh"] := by decide +kernel
  rw [places.1, places.2]
  rintro ⟨more, -, same⟩
  exact absurd same (by simp)

end Bsdos.Run
