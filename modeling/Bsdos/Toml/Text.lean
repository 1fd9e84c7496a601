import Bsdos.Toml.Value

namespace Bsdos.Toml

/-- The values that are written out. -/
inductive Scalar
  | string (text : String)
  | integer (n : Nat)
  | boolean (b : Bool)
  | strings (texts : List String)

def upperHex (n : Nat) : Char := if n < 10 then Char.ofNat (n + '0'.toNat) else Char.ofNat (n - 10 + 'A'.toNat)

/-- A character of a basic string. -/
def escape (c : Char) : List Char :=
  if c = '\\' then ['\\', '\\']
  else if c = '"' then ['\\', '"']
  else if c = '\n' then ['\\', 'n']
  else if c = '\r' then ['\\', 'r']
  else if c = '\t' then ['\\', 't']
  else if c.toNat < 0x20 then ['\\', 'u', '0', '0', upperHex (c.toNat / 16), upperHex (c.toNat % 16)]
  else [c]

def basicString (text : String) : String := "\"" ++ String.ofList (text.toList.flatMap escape) ++ "\""

def Scalar.text : Scalar → String
  | .string text => basicString text
  | .integer n => toString n
  | .boolean b => if b then "true" else "false"
  | .strings texts => "[" ++ ", ".intercalate (texts.map basicString) ++ "]"

def Scalar.value : Scalar → Value
  | .string text => .string text
  | .integer n => .integer n
  | .boolean b => .boolean b
  | .strings texts => .array (texts.map .string)

/-- A table of a document: its name, and its keys with their values. -/
abbrev Section := String × List (String × Scalar)

def Section.text (s : Section) : String :=
  "[" ++ s.1 ++ "]\n" ++ String.join (s.2.map fun entry => entry.1 ++ " = " ++ entry.2.text ++ "\n") ++ "\n"

def Section.value (s : Section) : String × Value := (s.1, .table (s.2.map fun entry => (entry.1, entry.2.value)))

/-- A document of comments and then tables. -/
def documentText (comments : List String) (sections : List Section) : String :=
  String.join (comments.map fun comment => "# " ++ comment ++ "\n") ++ "\n" ++ String.join (sections.map Section.text)

def document (sections : List Section) : Table := sections.map Section.value

/-- A key that needs no quotes. -/
def Bare (key : String) : Prop := key ≠ "" ∧ ∀ c ∈ key.toList, c.isAlphanum ∨ c = '-' ∨ c = '_'

instance (key : String) : Decidable (Bare key) := @instDecidableAnd _ _ _ (List.decidableBAll _ _)

/-- The reader takes a document, if it takes it at all, for what it says. -/
def Library.Conforming (toml : Library) : Prop := ∀ comments : List String, ∀ sections : List Section,
  (∀ comment ∈ comments, '\n' ∉ comment.toList) →
  (∀ s ∈ sections, Bare s.1 ∧ ∀ entry ∈ s.2, Bare entry.1) →
  ∀ doc, toml.parse (documentText comments sections) = some doc → doc = document sections

/-- A reader of one document only. -/
def Library.only (s : String) (doc : Table) : Library :=
  ⟨fun s' => if s' = s then some doc else none, fun _ => "TOML parse error at line 1, column 1"⟩

theorem Library.only_parse {s : String} {doc : Table} : (Library.only s doc).parse s = some doc := if_pos rfl

end Bsdos.Toml
