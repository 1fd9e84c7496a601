import Bsdos.Files.Tree
import Bsdos.Plist.Info

namespace Bsdos.Run
open Files

inductive RunError
  | io
  | zip
  | ipa (message : String)
  deriving DecidableEq

def orIo {α : Type} : Option α → Except RunError α
  | some a => .ok a
  | none => .error .io

/-- An entry of the archive, as the library hands it out. -/
structure Entry where
  name : String
  isDir : Bool
  content : List UInt8
  unixMode : Option Nat

def extractEntry (cwd : Place) (tmp : String) (t : Tree) (entry : Entry) : Except RunError Tree :=
  if Text.contains entry.name ".." ∨ entry.name.toList.head? = some '/' then
    .error (.ipa ("IPA contains unsafe entry name: " ++ entry.name))
  else
    let dest := resolve cwd (join tmp entry.name)
    if entry.isDir then orIo (t.createDirAll dest)
    else do
      let t ← orIo (t.createDirAll dest.dropLast)
      orIo (t.createFile dest entry.content (entry.unixMode.getD 0o644))

/-- The entries are extracted one after the other, into a temporary directory that is there. -/
def extractIpa (cwd : Place) (tmp : String) : Tree → List (Except RunError Entry) → Except RunError Tree
  | t, [] => .ok t
  | _, .error e :: _ => .error e
  | t, .ok entry :: entries => do
    let t ← extractEntry cwd tmp t entry
    extractIpa cwd tmp t entries

def isAppName (name : String) : Bool := ['.', 'a', 'p', 'p'].isSuffixOf name.toList

/-- The first directory that is listed with a name in `.app`. -/
def findAppDir (t : Tree) (cwd : Place) (payload : String) : List String → Except RunError String
  | [] => .error (.ipa ("no *.app bundle found inside Payload/ (" ++ payload ++ ")"))
  | name :: names =>
    let path := join payload name
    if t.lookup cwd path = some .dir ∧ isAppName name then .ok path else findAppDir t cwd payload names

/-- The name at the end of a path without what follows its last dot, unless that is all of it. -/
def fileStem (path : String) : String :=
  let name := (Text.split '/' path).getLastD path
  let before := ((name.toList.reverse.dropWhile (· ≠ '.')).drop 1).reverse
  if before = [] then name else String.ofList before

/-- `CFBundleExecutable` of an Info.plist, if it can be read. -/
def readBundleExecutable (bytes : List UInt8) : Option String :=
  if Plist.isBplist bytes then
    match Plist.parseBplist bytes with
    | .error _ => none
    | .ok root => root.getString "CFBundleExecutable"
  else (Plist.extractStringAfterKey (Octets.fromUtf8Lossy bytes).toList "CFBundleExecutable".toList).map String.ofList

def execName (t : Tree) (cwd : Place) (appDir : String) : String :=
  let defaultName := fileStem appDir
  match t.lookup cwd (join appDir "Info.plist") with
  | some (.file content _) => (readBundleExecutable content).getD defaultName
  | _ => defaultName

/-- The bundle and its main executable; `names` are the entries of Payload in the order in
which the system lists them. -/
def findBinary (t : Tree) (cwd : Place) (extractDir : String) (names : List String) : Except RunError (String × String) := do
  let payload := join extractDir "Payload"
  if t.lookup cwd payload ≠ some .dir then
    throw (.ipa ("Payload/ directory not found inside IPA (extracted to " ++ extractDir ++ ")"))
  let appDir ← findAppDir t cwd payload names
  let binary := join appDir (execName t cwd appDir)
  if (t.lookup cwd binary).isNone then
    throw (.ipa ("binary not found at " ++ binary ++ ": expected CFBundleExecutable=" ++ execName t cwd appDir))
  return (appDir, binary)

/-- The stem of an application directory is its name without `.app`. -/
theorem fileStem_app {payload : String} {front : List Char} (free : '/' ∉ front) (filled : front ≠ []) :
    fileStem (payload ++ "/" ++ String.ofList (front ++ ['.', 'a', 'p', 'p'])) = String.ofList front := by
  have plain : '/' ∉ (String.ofList (front ++ ['.', 'a', 'p', 'p'])).toList := by
    rw [String.toList_ofList]
    exact fun inside => (List.mem_append.mp inside).elim free (by decide)
  have slash : "/" = String.singleton '/' := by decide
  have before : ((front ++ ['.', 'a', 'p', 'p']).reverse.dropWhile (· ≠ '.')).drop 1 = front.reverse := by
    rw [List.reverse_append]
    rfl
  rw [fileStem, slash, Text.split_append, Text.split_free plain]
  simp only [List.getLastD_concat, String.toList_ofList]
  rw [before, List.reverse_reverse, if_neg filled]

theorem fileStem_bare (payload : String) : fileStem (payload ++ "/" ++ ".app") = ".app" := by
  have slash : "/" = String.singleton '/' := by decide
  have plain : '/' ∉ ".app".toList := by decide
  rw [fileStem, slash, Text.split_append, Text.split_free plain]
  simp only [List.getLastD_concat]
  decide

theorem isAppName_shape {name : String} (app : isAppName name = true) :
    ∃ front, name = String.ofList (front ++ ['.', 'a', 'p', 'p']) := by
  obtain ⟨front, whole⟩ := List.isSuffixOf_iff_suffix.mp app
  exact ⟨front, by rw [whole, String.ofList_toList]⟩

end Bsdos.Run
