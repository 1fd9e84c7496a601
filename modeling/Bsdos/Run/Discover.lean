import Bsdos.Effects.Results
import Bsdos.Maps.Sorted
import Bsdos.Run.Frameworks
import Bsdos.Run.Ipa
import Mathlib.Data.String.Basic

namespace Bsdos.Run
open Files

def isFile (t : Tree) (cwd : Place) (path : String) : Bool :=
  match t.lookup cwd path with
  | some (.file _ _) => true
  | _ => false

/-- The pattern taken away as often as it is in front. -/
def trimMatches (pat : List Char) : Nat → List Char → List Char
  | 0, s => s
  | fuel + 1, s => if pat <+: s then trimMatches pat fuel (s.drop pat.length) else s

def trimEndMatches (s pat : String) : String :=
  String.ofList (trimMatches pat.toList.reverse s.toList.length s.toList.reverse).reverse

def endsWith (s pat : String) : Bool := pat.toList.isSuffixOf s.toList

/-- What an entry of Frameworks is taken for: `Foo.framework` for the image `Foo` inside it, a `.dylib` for itself. -/
def embeddedAt (t : Tree) (cwd : Place) (fwDir fileName : String) : Option EmbeddedFramework :=
  let path := join fwDir fileName
  if t.lookup cwd path = some .dir ∧ endsWith fileName ".framework" then
    let stem := trimEndMatches fileName ".framework"
    let binary := join path stem
    if isFile t cwd binary then some ⟨stem, binary, true⟩ else none
  else if isFile t cwd path ∧ endsWith fileName ".dylib" then some ⟨fileName, path, false⟩
  else none

/-- The images that ship with the application; `names` are the entries of its Frameworks directory in the order
in which the system lists them. -/
def discoverFrameworks (t : Tree) (cwd : Place) (appDir : String) (names : List String) : List EmbeddedFramework :=
  let fwDir := join appDir "Frameworks"
  if t.lookup cwd fwDir = some .dir then Sorting.sortBy (·.name) (names.filterMap (embeddedAt t cwd fwDir)) else []

/-- What `read_dir` may list of each directory: the names in it, each once, in any order. -/
structure Lists (t : Tree) (cwd : Place) (readDir : String → List String) : Prop where
  nodup : ∀ path, (readDir path).Nodup
  mem : ∀ path name, name ∈ readDir path ↔ t.lookup cwd path = some .dir ∧ t.node (resolve cwd path ++ [name]) ≠ none
  plain : ∀ path, ∀ name ∈ readDir path, '/' ∉ name.toList

/-- What is run: the application, its main executable, the images that come with it, and what each install-name
is resolved to. -/
structure Choice where
  appDir : String
  binary : String
  embedded : List EmbeddedFramework
  resolution : String → Option String

def choice (t : Tree) (cwd : Place) (extractDir : String) (readDir : String → List String) : Option Choice :=
  match findBinary t cwd extractDir (readDir (join extractDir "Payload")) with
  | .error _ => none
  | .ok (appDir, binary) =>
    let embedded := discoverFrameworks t cwd appDir (readDir (join appDir "Frameworks"))
    some ⟨appDir, binary, embedded, fun installName => resolveOne installName (buildIndex embedded)⟩

def isAppDir (t : Tree) (cwd : Place) (payload name : String) : Bool :=
  t.lookup cwd (join payload name) = some .dir && isAppName name

/-- The main executable of an application, if it is there. -/
def executableOf (t : Tree) (cwd : Place) (appDir : String) : Option String :=
  let binary := join appDir (execName t cwd appDir)
  if (t.lookup cwd binary).isSome then some binary else none

/-- No two entries of Frameworks are taken for images with one name. -/
def Untied (t : Tree) (cwd : Place) (fwDir : String) (names : List String) : Prop :=
  ∀ name ∈ names, ∀ name' ∈ names, ∀ fw fw', embeddedAt t cwd fwDir name = some fw → embeddedAt t cwd fwDir name' = some fw' →
    fw.name = fw'.name → name = name'

/-- The application directories that are listed in Payload. -/
def appDirs (t : Tree) (cwd : Place) (payload : String) (names : List String) : List String :=
  (names.filter (isAppDir t cwd payload)).map (join payload)

/-- There is nothing to choose: no application has its executable, or there is only one, and the images
that come with it have different names. -/
def Determined (t : Tree) (cwd : Place) (extractDir : String) (readDir : String → List String) : Prop :=
  let payload := join extractDir "Payload"
  (∀ appDir ∈ appDirs t cwd payload (readDir payload), executableOf t cwd appDir = none) ∨
    ∃ appDir, appDirs t cwd payload (readDir payload) = [appDir] ∧
      Untied t cwd (join appDir "Frameworks") (readDir (join appDir "Frameworks"))

section chosen
variable {t : Tree} {cwd : Place} {extractDir payload appDir : String} {names : List String}

theorem findAppDir_first : findAppDir t cwd payload names =
    match (appDirs t cwd payload names).head? with
    | some appDir => .ok appDir
    | none => .error (.ipa ("no *.app bundle found inside Payload/ (" ++ payload ++ ")")) := by
  induction names with
  | nil => rfl
  | cons name names ih =>
    unfold findAppDir appDirs
    by_cases app : t.lookup cwd (join payload name) = some .dir ∧ isAppName name
    · rw [if_pos app, List.filter_cons_of_pos (by simp [isAppDir, app.1, app.2])]
      rfl
    · rw [if_neg app, List.filter_cons_of_neg (by simpa [isAppDir] using app)]
      exact ih

theorem findBinary_first {binary : String} (found : findBinary t cwd extractDir names = .ok (appDir, binary)) :
    (appDirs t cwd (join extractDir "Payload") names).head? = some appDir ∧ binary = join appDir (execName t cwd appDir) := by
  unfold findBinary at found
  dsimp only at found
  split at found
  · exact absurd found (by simp [throw, throwThe, MonadExceptOf.throw, bind, Except.bind])
  obtain ⟨app, chosen, found⟩ := Results.bind_ok found
  split at found
  · exact absurd found (by simp [throw, throwThe, MonadExceptOf.throw, bind, Except.bind])
  cases Except.ok.inj found
  rw [findAppDir_first] at chosen
  cases head : (appDirs t cwd (join extractDir "Payload") names).head? with
  | none =>
    rw [head] at chosen
    cases chosen
  | some app =>
    rw [head] at chosen
    cases Except.ok.inj chosen
    exact ⟨rfl, rfl⟩

/-- What is run if this application is the one. -/
def choiceAt (t : Tree) (cwd : Place) (readDir : String → List String) (appDir : String) : Option Choice :=
  (executableOf t cwd appDir).map fun binary =>
    let embedded := discoverFrameworks t cwd appDir (readDir (join appDir "Frameworks"))
    ⟨appDir, binary, embedded, fun installName => resolveOne installName (buildIndex embedded)⟩

variable {readDir readDir' : String → List String}

/-- The first application that is listed is the one. -/
theorem choice_first (listed : Lists t cwd readDir) : choice t cwd extractDir readDir =
    (appDirs t cwd (join extractDir "Payload") (readDir (join extractDir "Payload"))).head?.bind (choiceAt t cwd readDir) := by
  unfold choice findBinary
  by_cases dir : t.lookup cwd (join extractDir "Payload") = some .dir
  · rw [if_neg (by simpa using dir), findAppDir_first]
    cases (appDirs t cwd (join extractDir "Payload") (readDir (join extractDir "Payload"))).head? with
    | none => rfl
    | some appDir =>
      simp only [bind, Except.bind, choiceAt, executableOf, Option.bind_some]
      cases found : t.lookup cwd (join appDir (execName t cwd appDir)) with
      | none => rfl
      | some _ => rfl
  · have none : readDir (join extractDir "Payload") = [] :=
      List.eq_nil_iff_forall_not_mem.mpr fun name member => dir ((listed.mem _ name).mp member).1
    rw [if_pos dir, none]
    rfl

theorem Lists.perm (listed : Lists t cwd readDir) (listed' : Lists t cwd readDir') (path : String) :
    (readDir' path).Perm (readDir path) := by
  rw [List.perm_ext_iff_of_nodup (listed'.nodup path) (listed.nodup path)]
  exact fun name => (listed'.mem path name).trans (listed.mem path name).symm

/-- One directory listed in another order. -/
theorem Lists.reorder (listed : Lists t cwd readDir) {path : String} (perm : names.Perm (readDir path)) :
    Lists t cwd (Function.update readDir path names) := by
  have each (path' : String) : (Function.update readDir path names path').Perm (readDir path') := by
    by_cases here : path' = path
    · rw [here, Function.update_self]
      exact perm
    · rw [Function.update_of_ne here]
  exact ⟨fun path' => (each path').nodup_iff.mpr (listed.nodup path'),
    fun path' name => (each path').mem_iff.trans (listed.mem path' name),
    fun path' name member => listed.plain path' name ((each path').mem_iff.mp member)⟩

theorem join_plain {base name : String} (free : '/' ∉ name.toList) : join base name = base ++ "/" ++ name :=
  if_neg fun head => free (List.mem_of_head? head)

theorem join_plain_inj {base name name' : String} (free : '/' ∉ name.toList) (free' : '/' ∉ name'.toList)
    (same : join base name = join base name') : name = name' := by
  rw [join_plain free, join_plain free'] at same
  exact (String.append_right_inj _).mp same

theorem trimMatches_suffix (pat : List Char) (fuel : Nat) (s : List Char) : trimMatches pat fuel s <:+ s := by
  induction fuel generalizing s with
  | zero => exact List.suffix_refl s
  | succ fuel ih =>
    unfold trimMatches
    split
    · exact (ih _).trans (List.drop_suffix _ _)
    · exact List.suffix_refl s

theorem trimEndMatches_plain {s pat : String} (free : '/' ∉ s.toList) : '/' ∉ (trimEndMatches s pat).toList := by
  rw [trimEndMatches, String.toList_ofList, List.mem_reverse]
  exact fun inside => free (List.mem_reverse.mp ((trimMatches_suffix _ _ _).subset inside))

theorem embeddedAt_shape {fwDir name : String} {fw : EmbeddedFramework} (found : embeddedAt t cwd fwDir name = some fw) :
    fw.isFramework = true ∧ fw.name = trimEndMatches name ".framework" ∧ fw.binary = join (join fwDir name) fw.name ∨
      fw.isFramework = false ∧ fw.name = name := by
  unfold embeddedAt at found
  dsimp only at found
  split at found
  · split at found
    · cases found
      dsimp only
      simp only [and_self, true_or]
    · cases found
  split at found
  · cases found
    dsimp only
    simp only [and_self, or_true]
  · cases found

/-- Different entries are taken for different images. -/
theorem embeddedAt_inj {fwDir name name' : String} {fw : EmbeddedFramework} (free : '/' ∉ name.toList) (free' : '/' ∉ name'.toList)
    (found : embeddedAt t cwd fwDir name = some fw) (found' : embeddedAt t cwd fwDir name' = some fw) : name = name' := by
  rcases embeddedAt_shape found with ⟨bundle, stem, binary⟩ | ⟨bare, this⟩ <;>
    rcases embeddedAt_shape found' with ⟨bundle', stem', binary'⟩ | ⟨bare', this'⟩
  · have plain : '/' ∉ fw.name.toList := by
      rw [stem]
      exact trimEndMatches_plain free
    rw [binary, join_plain plain, join_plain plain] at binary'
    exact join_plain_inj free free' ((String.append_left_inj _).mp ((String.append_left_inj _).mp binary'))
  · exact absurd (bundle.symm.trans bare') (by decide)
  · exact absurd (bare.symm.trans bundle') (by decide)
  · exact this.symm.trans this'

/-- The inventory of a directory is the same in every order exactly if its images have different names. -/
theorem discoverFrameworks_iff (listed : Lists t cwd readDir) :
    (∀ names : List String, names.Perm (readDir (join appDir "Frameworks")) → discoverFrameworks t cwd appDir names =
      discoverFrameworks t cwd appDir (readDir (join appDir "Frameworks"))) ↔
    Untied t cwd (join appDir "Frameworks") (readDir (join appDir "Frameworks")) := by
  by_cases dir : t.lookup cwd (join appDir "Frameworks") = some .dir
  · simp only [discoverFrameworks, if_pos dir]
    rw [Sorting.sortBy_filterMap_iff]
    simp only [List.mem_filterMap]
    constructor
    · intro distinct name member name' member' fw fw' found found' tied
      have same := distinct fw ⟨name, member, found⟩ fw' ⟨name', member', found'⟩ tied
      exact embeddedAt_inj (listed.plain _ name member) (listed.plain _ name' member') found (same ▸ found')
    · rintro untied fw ⟨name, member, found⟩ fw' ⟨name', member', found'⟩ tied
      have same := untied name member name' member' fw fw' found found' tied
      exact Option.some.inj (found.symm.trans (same ▸ found'))
  · have none : readDir (join appDir "Frameworks") = [] :=
      List.eq_nil_iff_forall_not_mem.mpr fun name member => dir ((listed.mem _ name).mp member).1
    simp only [discoverFrameworks, if_neg dir, implies_true, true_iff, none]
    exact fun name member => absurd member List.not_mem_nil

theorem choiceAt_appDir {found : Choice} (ok : choiceAt t cwd readDir appDir = some found) :
    found.appDir = appDir ∧ found.embedded = discoverFrameworks t cwd appDir (readDir (join appDir "Frameworks")) := by
  obtain ⟨binary, -, rfl⟩ := Option.map_eq_some_iff.mp ok
  exact ⟨rfl, rfl⟩

/-- Any application can be the one that is listed first. -/
theorem Lists.front (listed : Lists t cwd readDir) (member : appDir ∈ appDirs t cwd payload (readDir payload)) :
    ∃ readDir', Lists t cwd readDir' ∧ (appDirs t cwd payload (readDir' payload)).head? = some appDir := by
  obtain ⟨name, kept, rfl⟩ := List.mem_map.mp member
  obtain ⟨inside, app⟩ := List.mem_filter.mp kept
  obtain ⟨before, after, whole⟩ := List.append_of_mem inside
  have moved : (name :: (before ++ after)).Perm (readDir payload) := whole ▸ List.perm_middle.symm
  refine ⟨_, listed.reorder moved, ?_⟩
  rw [Function.update_self, appDirs, List.filter_cons_of_pos app]
  rfl

theorem Lists.appDirs_nodup (listed : Lists t cwd readDir) : (appDirs t cwd payload (readDir payload)).Nodup :=
  ((listed.nodup payload).filter _).map_on fun name member name' member' same =>
    join_plain_inj (listed.plain _ name (List.mem_filter.mp member).1) (listed.plain _ name' (List.mem_filter.mp member').1) same

theorem frameworks_elsewhere (listed : Lists t cwd readDir) (member : appDir ∈ appDirs t cwd payload (readDir payload)) :
    payload ≠ join appDir "Frameworks" := by
  obtain ⟨name, kept, rfl⟩ := List.mem_map.mp member
  rw [join_plain (by decide), join_plain (listed.plain _ name (List.mem_filter.mp kept).1)]
  intro same
  have lengths := congrArg String.length same
  simp only [String.length_append] at lengths
  have slash : "/".length = 1 := by decide
  omega

/-- What is run does not depend on the order in which directories are listed exactly if there is nothing to choose. -/
theorem choice_determined_iff (listed : Lists t cwd readDir) :
    (∀ readDir', Lists t cwd readDir' → choice t cwd extractDir readDir' = choice t cwd extractDir readDir) ↔
      Determined t cwd extractDir readDir := by
  have apps (readDir' : String → List String) (listed' : Lists t cwd readDir') :
      (appDirs t cwd (join extractDir "Payload") (readDir' (join extractDir "Payload"))).Perm
        (appDirs t cwd (join extractDir "Payload") (readDir (join extractDir "Payload"))) :=
    ((listed.perm listed' _).filter _).map _
  constructor
  · intro same
    have each (appDir : String) (member : appDir ∈ appDirs t cwd (join extractDir "Payload") (readDir (join extractDir "Payload"))) :
        ∃ readDir', choiceAt t cwd readDir' appDir = choice t cwd extractDir readDir := by
      obtain ⟨readDir', listed', head⟩ := listed.front member
      refine ⟨readDir', ?_⟩
      rw [← same readDir' listed', choice_first listed', head]
      rfl
    by_cases none : ∀ appDir ∈ appDirs t cwd (join extractDir "Payload") (readDir (join extractDir "Payload")),
        executableOf t cwd appDir = Option.none
    · exact .inl none
    simp only [not_forall] at none
    obtain ⟨appDir, member, runs⟩ := none
    obtain ⟨binary, exec⟩ := Option.ne_none_iff_exists'.mp runs
    obtain ⟨readDir₁, first⟩ := each appDir member
    obtain ⟨found, chosen⟩ : ∃ found, choice t cwd extractDir readDir = some found := ⟨_, by rw [← first, choiceAt, exec]; rfl⟩
    have alone : ∀ appDir' ∈ appDirs t cwd (join extractDir "Payload") (readDir (join extractDir "Payload")), appDir' = appDir := by
      intro appDir' member'
      obtain ⟨readDir₂, other⟩ := each appDir' member'
      exact (choiceAt_appDir (other.trans chosen)).1.symm.trans (choiceAt_appDir (first.trans chosen)).1
    have only : appDirs t cwd (join extractDir "Payload") (readDir (join extractDir "Payload")) = [appDir] := by
      refine List.perm_singleton.mp ((List.perm_ext_iff_of_nodup listed.appDirs_nodup (List.nodup_singleton _)).mpr fun appDir' => ?_)
      rw [List.mem_singleton]
      exact ⟨alone appDir', fun here => here ▸ member⟩
    refine .inr ⟨appDir, only, (discoverFrameworks_iff listed).mp fun names perm => ?_⟩
    have listed' := listed.reorder perm
    have again := same _ listed'
    rw [chosen, choice_first listed', Function.update_of_ne (frameworks_elsewhere listed member), only] at again
    rw [choice_first listed, only] at chosen
    have inventory := (choiceAt_appDir again).2
    rw [Function.update_self] at inventory
    exact inventory.symm.trans (choiceAt_appDir chosen).2
  · rintro (none | ⟨appDir, only, untied⟩) readDir' listed'
    · have stopped (readDir'' : String → List String) (listed'' : Lists t cwd readDir'') :
          choice t cwd extractDir readDir'' = Option.none := by
        rw [choice_first listed'', Option.bind_eq_none_iff]
        intro appDir head
        rw [choiceAt, none appDir ((apps readDir'' listed'').mem_iff.mp (List.mem_of_head? head))]
        rfl
      rw [stopped readDir' listed', stopped readDir listed]
    · have only' := apps readDir' listed'
      rw [only, List.perm_singleton] at only'
      rw [choice_first listed', choice_first listed, only, only']
      have inventory := (discoverFrameworks_iff listed).mpr untied _ (listed.perm listed' _)
      simp only [List.head?_cons, Option.bind_some, choiceAt, inventory]

end chosen
/-- The same entries, each directory listed the other way round. -/
theorem Lists.reverse {t : Tree} {cwd : Place} {readDir : String → List String} (listed : Lists t cwd readDir) :
    Lists t cwd fun path => (readDir path).reverse :=
  ⟨fun path => List.nodup_reverse.mpr (listed.nodup path), fun path name => List.mem_reverse.trans (listed.mem path name),
    fun path name member => listed.plain path name (List.mem_reverse.mp member)⟩

/-- The directories and files of a file system. -/
structure Inventory (entries : List (Place × Node)) : Prop where
  distinct : (entries.map Prod.fst).Nodup
  root : ([], .dir) ∈ entries
  closed : ∀ entry ∈ entries, (entry.1.dropLast, .dir) ∈ entries
  plain : ∀ entry ∈ entries, '/' ∉ (entry.1.getLastD "").toList

def nodeAt (entries : List (Place × Node)) (place : Place) : Option Node :=
  (entries.find? (·.1 = place)).map Prod.snd

theorem Inventory.nodeAt_iff {entries : List (Place × Node)} (inventory : Inventory entries) {place : Place} {n : Node} :
    nodeAt entries place = some n ↔ (place, n) ∈ entries := by
  unfold nodeAt
  constructor
  · intro found
    obtain ⟨entry, first, rfl⟩ := Option.map_eq_some_iff.mp found
    have here : entry.1 = place := by simpa using List.find?_some first
    exact here ▸ List.mem_of_find?_eq_some first
  · intro member
    obtain ⟨entry, first⟩ := Option.isSome_iff_exists.mp
      ((List.find?_isSome (p := fun entry => entry.1 = place)).mpr ⟨(place, n), member, decide_eq_true rfl⟩)
    have here : entry.1 = place := by simpa using List.find?_some first
    have same := List.inj_on_of_nodup_map inventory.distinct (List.mem_of_find?_eq_some first) member here
    rw [first, same]
    rfl

def treeOf (entries : List (Place × Node)) (inventory : Inventory entries) : Tree where
  node := nodeAt entries
  root := inventory.nodeAt_iff.mpr inventory.root
  closed place name filled := by
    obtain ⟨n, found⟩ := Option.ne_none_iff_exists'.mp filled
    have parent := inventory.closed _ (inventory.nodeAt_iff.mp found)
    rw [List.dropLast_concat] at parent
    exact inventory.nodeAt_iff.mpr parent

/-- Its directories, listed in the order of the entries. -/
def readDirOf (t : Tree) (entries : List (Place × Node)) (path : String) : List String :=
  if t.lookup [] path = some .dir then
    (entries.filter fun entry => entry.1 ≠ [] ∧ entry.1.dropLast = resolve [] path).map fun entry => entry.1.getLastD ""
  else []

theorem readDirOf_lists {entries : List (Place × Node)} (inventory : Inventory entries) :
    Lists (treeOf entries inventory) [] (readDirOf (treeOf entries inventory) entries) := by
  have last {place : Place} (filled : place ≠ []) : place = place.dropLast ++ [place.getLastD ""] := by
    rw [List.getLastD_eq_getLast?, List.getLast?_eq_some_getLast filled, Option.getD_some, List.dropLast_append_getLast]
  constructor
  · intro path
    unfold readDirOf
    split
    · refine (inventory.distinct.of_map.filter _).map_on fun entry member entry' member' same => ?_
      have here := of_decide_eq_true (List.mem_filter.mp member).2
      have here' := of_decide_eq_true (List.mem_filter.mp member').2
      refine List.inj_on_of_nodup_map inventory.distinct (List.mem_filter.mp member).1 (List.mem_filter.mp member').1 ?_
      rw [last here.1, last here'.1, here.2, here'.2, same]
    · exact List.nodup_nil
  · intro path name
    unfold readDirOf
    by_cases dir : (treeOf entries inventory).lookup [] path = some .dir
    · rw [if_pos dir, and_iff_right dir, List.mem_map]
      constructor
      · rintro ⟨entry, member, rfl⟩
        have here := of_decide_eq_true (List.mem_filter.mp member).2
        have found := inventory.nodeAt_iff.mpr (List.mem_filter.mp member).1
        rw [← here.2, ← last here.1]
        exact Option.ne_none_iff_exists'.mpr ⟨_, found⟩
      · intro filled
        obtain ⟨n, found⟩ := Option.ne_none_iff_exists'.mp filled
        have member := inventory.nodeAt_iff.mp found
        exact ⟨_, List.mem_filter.mpr ⟨member, decide_eq_true ⟨by simp, List.dropLast_concat⟩⟩, by simp⟩
    · rw [if_neg dir]
      exact ⟨fun member => absurd member List.not_mem_nil, fun found => absurd found.1 dir⟩
  · intro path name member
    unfold readDirOf at member
    split at member
    · obtain ⟨entry, kept, rfl⟩ := List.mem_map.mp member
      exact inventory.plain entry (List.mem_filter.mp kept).1
    · cases member

/-- Extracted applications, each with its executable and the entries of its Frameworks directory, with their images. -/
def extracted (apps : List (String × String × List (String × String))) : List (Place × Node) :=
  [([], .dir), (["x"], .dir), (["x", "Payload"], .dir)] ++ apps.flatMap fun app =>
    [(["x", "Payload", app.1], .dir), (["x", "Payload", app.1, app.2.1], .file [] 0o755),
      (["x", "Payload", app.1, "Frameworks"], .dir)] ++
    app.2.2.flatMap fun fw => [(["x", "Payload", app.1, "Frameworks", fw.1], .dir),
      (["x", "Payload", app.1, "Frameworks", fw.1, fw.2], .file [] 0o755)]

theorem extracted_determined :
    Inventory (extracted [("App.app", "App", [("Foo.framework", "Foo"), ("Bar.framework", "Bar")])]) :=
  ⟨by decide, by decide, by decide, by decide⟩

theorem extracted_tied :
    Inventory (extracted [("App.app", "App", [("Foo.framework", "Foo"), ("Foo.framework.framework", "Foo")])]) :=
  ⟨by decide, by decide, by decide, by decide⟩

theorem extracted_twice : Inventory (extracted [("A.app", "A", []), ("B.app", "B", [])]) :=
  ⟨by decide, by decide, by decide, by decide⟩

theorem choice_determined_two :
    let entries := extracted [("App.app", "App", [("Foo.framework", "Foo"), ("Bar.framework", "Bar")])]
    let t := treeOf entries extracted_determined
    Lists t [] (readDirOf t entries) ∧
      (choice t [] "/x" (readDirOf t entries)).map (fun found => (found.binary, found.embedded.map (·.name))) =
        some ("/x/Payload/App.app/App", ["Bar", "Foo"]) ∧
      ∀ readDir', Lists t [] readDir' → choice t [] "/x" readDir' = choice t [] "/x" (readDirOf t entries) := by
  intro entries t
  have listed := readDirOf_lists extracted_determined
  have names : readDirOf t entries (join "/x/Payload/App.app" "Frameworks") = ["Foo.framework", "Bar.framework"] := by decide +kernel
  refine ⟨listed, by decide +kernel, (choice_determined_iff listed).mpr (.inr ⟨"/x/Payload/App.app", by decide +kernel, ?_⟩)⟩
  rw [names]
  intro name member name' member' fw fw' found found' tied
  have stems : ∀ name ∈ ["Foo.framework", "Bar.framework"],
      (embeddedAt t [] (join "/x/Payload/App.app" "Frameworks") name).map (·.name) = some (trimEndMatches name ".framework") := by
    decide +kernel
  have distinct : ∀ name ∈ ["Foo.framework", "Bar.framework"], ∀ name' ∈ ["Foo.framework", "Bar.framework"],
      trimEndMatches name ".framework" = trimEndMatches name' ".framework" → name = name' := by
    decide
  have stem := stems name member
  have stem' := stems name' member'
  rw [found, Option.map_some] at stem
  rw [found', Option.map_some] at stem'
  exact distinct name member name' member' (by rw [← Option.some.inj stem, ← Option.some.inj stem', tied])

theorem choice_undetermined :
    (let entries := extracted [("App.app", "App", [("Foo.framework", "Foo"), ("Foo.framework.framework", "Foo")])]
      let t := treeOf entries extracted_tied
      let readDir := readDirOf t entries
      Lists t [] readDir ∧ Lists t [] (fun path => (readDir path).reverse) ∧
        (choice t [] "/x" readDir).bind (·.resolution "@rpath/Foo.framework/Foo") =
          some "/x/Payload/App.app/Frameworks/Foo.framework.framework/Foo" ∧
        (choice t [] "/x" fun path => (readDir path).reverse).bind (·.resolution "@rpath/Foo.framework/Foo") =
          some "/x/Payload/App.app/Frameworks/Foo.framework/Foo") ∧
    (let entries := extracted [("A.app", "A", []), ("B.app", "B", [])]
      let t := treeOf entries extracted_twice
      let readDir := readDirOf t entries
      Lists t [] readDir ∧ Lists t [] (fun path => (readDir path).reverse) ∧
        (choice t [] "/x" readDir).map (·.binary) = some "/x/Payload/A.app/A" ∧
        (choice t [] "/x" fun path => (readDir path).reverse).map (·.binary) = some "/x/Payload/B.app/B") := by
  refine ⟨⟨readDirOf_lists _, (readDirOf_lists _).reverse, ?_, ?_⟩, readDirOf_lists _, (readDirOf_lists _).reverse, ?_, ?_⟩
  · decide +kernel
  · decide +kernel
  · decide +kernel
  · decide +kernel

end Bsdos.Run
