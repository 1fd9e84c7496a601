import Bsdos.Search.Substring
import Bsdos.Text

namespace Bsdos.Plist
open Search

abbrev Chars := List Char

def keyTag (key : Chars) : Chars := ['<', 'k', 'e', 'y', '>'] ++ (key ++ ['<', '/', 'k', 'e', 'y', '>'])

def stringOpen : Chars := ['<', 's', 't', 'r', 'i', 'n', 'g', '>']

def stringClose : Chars := ['<', '/', 's', 't', 'r', 'i', 'n', 'g', '>']

def arrayOpen : Chars := ['<', 'a', 'r', 'r', 'a', 'y', '>']

def arrayClose : Chars := ['<', '/', 'a', 'r', 'r', 'a', 'y', '>']

def stripPrefix (front line : Chars) : Option Chars := if front <+: line then some (line.drop front.length) else none

def stripSuffix (back line : Chars) : Option Chars :=
  if back <:+ line then some (line.take (line.length - back.length)) else none

/-- The value of a line that is a string element. -/
def stringValue (line : Chars) : Option Chars := (stripPrefix stringOpen line).bind (stripSuffix stringClose)

/-- The scan for a string; the flag says that the line of the key has been read and the
next line that is not blank decides. -/
def stringAfter (tag : Chars) : Bool → List Chars → Option Chars
  | _, [] => none
  | false, line :: rest => stringAfter tag (Text.trimChars line = tag) rest
  | true, line :: rest =>
    let nxt := Text.trimChars line
    if nxt = [] then stringAfter tag true rest
    else (stringValue nxt).elim (stringAfter tag false rest) some

def extractStringAfterKey (content key : Chars) : Option Chars :=
  stringAfter (keyTag key) false (Text.linesChars [] content)

/-- The scan for a boolean. -/
def boolAfter (tag : Chars) : Bool → List Chars → Option Bool
  | _, [] => none
  | false, line :: rest => boolAfter tag (Text.trimChars line = tag) rest
  | true, line :: rest =>
    let nxt := Text.trimChars line
    if nxt = [] then boolAfter tag true rest
    else if ['<', 't', 'r', 'u', 'e'] <+: nxt then some true
    else if ['<', 'f', 'a', 'l', 's', 'e'] <+: nxt then some false
    else boolAfter tag false rest

def extractBoolAfterKey (content key : Chars) : Option Bool := boolAfter (keyTag key) false (Text.linesChars [] content)

def keyIsPresent (content key : Chars) : Bool :=
  (Text.linesChars [] content).any fun line => Text.trimChars line = keyTag key

/-- Every string element inside a line. -/
def inlineStrings : Nat → Chars → List Chars
  | 0, _ => []
  | fuel + 1, rest =>
    match find stringOpen rest with
    | none => []
    | some start =>
      let after := rest.drop (start + stringOpen.length)
      match find stringClose after with
      | none => []
      | some stop => after.take stop :: inlineStrings fuel (after.drop (stop + stringClose.length))

def collectInlineArrayStrings (line : Chars) : List Chars := inlineStrings line.length line

/-- How far the scan for an array has come. -/
inductive ArrayScan
  | seeking
  | keyRead
  | inArray

/-- The scan for an array. Only the first line with the key is looked at. -/
def arrayAfter (tag : Chars) : ArrayScan → List Chars → List Chars
  | _, [] => []
  | .seeking, line :: rest =>
    let trimmed := Text.trimChars line
    if ¬ tag <:+: trimmed then arrayAfter tag .seeking rest
    else
      let afterKey := (stripPrefix tag trimmed).map Text.trimChars
      if afterKey.any fun after => arrayOpen <+: after then
        let after := afterKey.getD []
        collectInlineArrayStrings after ++ if arrayClose <:+: after then [] else arrayAfter tag .inArray rest
      else arrayAfter tag .keyRead rest
  | .keyRead, line :: rest =>
    let nxt := Text.trimChars line
    if nxt = [] then arrayAfter tag .keyRead rest
    else if arrayOpen <+: nxt then
      collectInlineArrayStrings nxt ++ if arrayClose <:+: nxt then [] else arrayAfter tag .inArray rest
    else []
  | .inArray, line :: rest =>
    let nxt := Text.trimChars line
    if arrayClose <+: nxt then [] else (stringValue nxt).toList ++ arrayAfter tag .inArray rest

def extractArrayAfterKey (content key : Chars) : List Chars := arrayAfter (keyTag key) .seeking (Text.linesChars [] content)

end Bsdos.Plist
