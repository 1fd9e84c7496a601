import Bsdos.Lines
import Bsdos.Plist.Provision

namespace Bsdos.Plist
open Search

/-- Text between two tags, as it is written. -/
structure Raw where
  text : Chars
  clean : '<' ∉ text
  deriving DecidableEq

/-- The attributes in the header of a file: of the declaration, and of the property list. -/
def Raw.declaration : Raw := ⟨" version=\"1.0\"?>".toList, by decide⟩

def Raw.version : Raw := ⟨" version=\"1.0\">".toList, by decide⟩

/-- An XML property list. An empty container may be written as one tag or as two. -/
inductive Element
  | string (raw : Raw)
  | bool (b : Bool)
  | emptyArray
  | emptyDict
  | array (items : List Element)
  | dict (pairs : List (Raw × Element))

/-- What stands on one line. -/
inductive Token
  | xml (attributes : Raw)
  | doctype (declaration : Raw)
  | plist (attributes : Raw)
  | closePlist
  | key (raw : Raw)
  | string (raw : Raw)
  | bool (b : Bool)
  | emptyArray
  | emptyDict
  | openArray
  | closeArray
  | openDict
  | closeDict
  deriving DecidableEq

def Token.text : Token → Chars
  | .xml attributes => ['<', '?', 'x', 'm', 'l'] ++ attributes.text
  | .doctype declaration => ['<', '!', 'D', 'O', 'C', 'T', 'Y', 'P', 'E'] ++ declaration.text
  | .plist attributes => ['<', 'p', 'l', 'i', 's', 't'] ++ attributes.text
  | .closePlist => ['<', '/', 'p', 'l', 'i', 's', 't', '>']
  | .key raw => keyTag raw.text
  | .string raw => stringOpen ++ (raw.text ++ stringClose)
  | .bool b => if b then ['<', 't', 'r', 'u', 'e', '/', '>'] else ['<', 'f', 'a', 'l', 's', 'e', '/', '>']
  | .emptyArray => ['<', 'a', 'r', 'r', 'a', 'y', '/', '>']
  | .emptyDict => ['<', 'd', 'i', 'c', 't', '/', '>']
  | .openArray => arrayOpen
  | .closeArray => arrayClose
  | .openDict => dictOpen
  | .closeDict => dictClose

/-- One tag or text element for each line, in the order in which they are written. -/
def Element.tokens : Element → List Token
  | .string raw => [.string raw]
  | .bool b => [.bool b]
  | .emptyArray => [.emptyArray]
  | .emptyDict => [.emptyDict]
  | .array items => .openArray :: (all items ++ [.closeArray])
  | .dict pairs => .openDict :: (each pairs ++ [.closeDict])
where
  all : List Element → List Token
    | [] => []
    | item :: items => item.tokens ++ all items
  each : List (Raw × Element) → List Token
    | [] => []
    | (key, value) :: rest => .key key :: (value.tokens ++ each rest)

/-- The entries of all dictionaries in an element, in the order in which they are written. -/
def Element.entries : Element → List (Raw × Element)
  | .array items => all items
  | .dict pairs => each pairs
  | _ => []
where
  all : List Element → List (Raw × Element)
    | [] => []
    | item :: items => item.entries ++ all items
  each : List (Raw × Element) → List (Raw × Element)
    | [] => []
    | (key, value) :: rest => (key, value) :: (value.entries ++ each rest)

def Element.bool? : Element → Option Bool
  | .bool b => some b
  | _ => none

def Element.string? : Element → Option Chars
  | .string raw => some raw.text
  | _ => none

/-- What a search in the text comes by: a key, or a dictionary written with two tags. -/
inductive Event
  | key (raw : Raw)
  | dict (pairs : List (Raw × Element))

def Element.events : Element → List Event
  | .array items => all items
  | .dict pairs => .dict pairs :: each pairs
  | _ => []
where
  all : List Element → List Event
    | [] => []
    | item :: items => item.events ++ all items
  each : List (Raw × Element) → List Event
    | [] => []
    | (key, value) :: rest => .key key :: (value.events ++ each rest)

/-- A line of the file: a token behind blanks. -/
structure Line where
  indent : Chars
  token : Token
  blank : ∀ c ∈ indent, c = ' ' ∨ c = '\t'

theorem blank_nil : ∀ c ∈ ([] : Chars), c = ' ' ∨ c = '\t' := List.forall_mem_nil _

theorem blank_tab : ∀ c ∈ ['\t'], c = ' ' ∨ c = '\t' := List.forall_mem_singleton.mpr (.inr rfl)

/-- A token at the start of its line, and one behind a tab. -/
def Line.flush (token : Token) : Line := ⟨[], token, blank_nil⟩

def Line.tabbed (token : Token) : Line := ⟨['\t'], token, blank_tab⟩

def Line.text (line : Line) : Chars := line.indent ++ (line.token.text ++ ['\n'])

def docText (lines : List Line) : Chars := lines.flatMap Line.text

/-- The tokens of a file: the header, the property list, the last tag. -/
def docTokens (attributes : Raw) (doctype : Option Raw) (version : Raw) (root : Element) : List Token :=
  .xml attributes :: (doctype.toList.map .doctype ++ .plist version :: (root.tokens ++ [.closePlist]))

/-- What a scan for the value of a key finds among the tokens; the flag says that the key
has just been read. -/
def scanTokens {β : Type} (value : Token → Option β) (key : Chars) : Bool → List Token → Option β
  | _, [] => none
  | false, token :: rest => scanTokens value key (token.text = keyTag key) rest
  | true, token :: rest => (value token).elim (scanTokens value key false rest) some

/-- The first value of a key that is of the right kind. -/
def firstOf {β : Type} (value : Element → Option β) (key : Chars) (entries : List (Raw × Element)) : Option β :=
  entries.findSome? fun entry => if entry.1.text = key then value entry.2 else none

end Bsdos.Plist
