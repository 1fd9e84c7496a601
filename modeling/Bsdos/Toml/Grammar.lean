import Bsdos.Scanning
import Bsdos.Toml.Text

namespace Bsdos.Toml.Grammar
open Scanning

inductive Token
  | newline
  | openBracket
  | closeBracket
  | comma
  | equals
  | word (cs : List Char)
  | text (cs : List Char)
  deriving DecidableEq, Repr

/-- Where the reader stands. Of a `\u` or `\U` there are so many digits to come; `refused` is
for good. The characters of the token being read come last first. -/
inductive Mode
  | between
  | comment
  | word (cs : List Char)
  | quoted (cs : List Char)
  | escaped (cs : List Char)
  | code (left value : Nat) (cs : List Char)
  | refused
  deriving DecidableEq, Repr

def isBare (c : Char) : Bool := c.isAlphanum || c = '-' || c = '_'

/-- The characters that may stand in a comment, and in a string: no control characters but the tab. -/
def isText (c : Char) : Bool := c = '\t' || (0x20 ≤ c.toNat && c.toNat ≠ 0x7F)

def start (c : Char) : List Token × Mode :=
  if c = '\n' then ([.newline], .between)
  else if c = ' ' || c = '\t' then ([], .between)
  else if c = '[' then ([.openBracket], .between)
  else if c = ']' then ([.closeBracket], .between)
  else if c = ',' then ([.comma], .between)
  else if c = '=' then ([.equals], .between)
  else if c = '"' then ([], .quoted [])
  else if c = '#' then ([], .comment)
  else if isBare c then ([], .word [c])
  else ([], .refused)

def hexValue (c : Char) : Option Nat :=
  if '0' ≤ c ∧ c ≤ '9' then some (c.toNat - '0'.toNat)
  else if 'a' ≤ c ∧ c ≤ 'f' then some (c.toNat - 'a'.toNat + 10)
  else if 'A' ≤ c ∧ c ≤ 'F' then some (c.toNat - 'A'.toNat + 10)
  else none

/-- The character after a backslash. -/
def afterBackslash (cs : List Char) (c : Char) : Mode :=
  if c = 'b' then .quoted (Char.ofNat 0x08 :: cs)
  else if c = 't' then .quoted ('\t' :: cs)
  else if c = 'n' then .quoted ('\n' :: cs)
  else if c = 'f' then .quoted (Char.ofNat 0x0C :: cs)
  else if c = 'r' then .quoted ('\r' :: cs)
  else if c = '"' then .quoted ('"' :: cs)
  else if c = '\\' then .quoted ('\\' :: cs)
  else if c = 'u' then .code 4 0 cs
  else if c = 'U' then .code 8 0 cs
  else .refused

/-- The end of a code: a surrogate, or what is beyond Unicode, stands for no character. -/
def coded (value : Nat) (cs : List Char) : Mode :=
  if value < 0xD800 ∨ 0xDFFF < value ∧ value < 0x110000 then .quoted (Char.ofNat value :: cs) else .refused

def step : Mode → Char → List Token × Mode
  | .between, c => start c
  | .comment, c =>
    if c = '\n' then ([.newline], .between) else ([], if isText c then .comment else .refused)
  | .word cs, c => if isBare c then ([], .word (c :: cs)) else (.word cs.reverse :: (start c).1, (start c).2)
  | .quoted cs, c =>
    if c = '"' then ([.text cs.reverse], .between)
    else if c = '\\' then ([], .escaped cs)
    else ([], if isText c then .quoted (c :: cs) else .refused)
  | .escaped cs, c => ([], afterBackslash cs c)
  | .code left value cs, c =>
    match hexValue c with
    | none => ([], .refused)
    | some digit => ([], if left = 1 then coded (16 * value + digit) cs else .code (left - 1) (16 * value + digit) cs)
  | .refused, _ => ([], .refused)

/-- What the end of the text makes of the token being read. -/
def finish : Mode → Option (List Token)
  | .between | .comment => some []
  | .word cs => some [.word cs.reverse]
  | _ => none

def lex (cs : List Char) : Option (List Token) :=
  (finish (run step .between cs).2).map ((run step .between cs).1 ++ ·)

/-- The tokens of each line. -/
def cut : List Token → List (List Token)
  | [] => [[]]
  | .newline :: rest => [] :: cut rest
  | token :: rest => (token :: (cut rest).headD []) :: (cut rest).tail

/-- The rest of an array of strings. -/
def readItems : List Token → Option (List String)
  | [.text cs, .closeBracket] => some [String.ofList cs]
  | .text cs :: .comma :: rest => (readItems rest).map (String.ofList cs :: ·)
  | _ => none

def readValue : List Token → Option Value
  | [.text cs] => some (.string (String.ofList cs))
  | [.word cs] =>
    if cs = "true".toList then some (.boolean true) else if cs = "false".toList then some (.boolean false) else none
  | [.openBracket, .closeBracket] => some (.array [])
  | .openBracket :: rest => (readItems rest).map fun texts => .array (texts.map .string)
  | _ => none

inductive Line
  | blank
  | header (name : String)
  | entry (key : String) (value : Value)

def readLine : List Token → Option Line
  | [] => some .blank
  | [.openBracket, .word cs, .closeBracket] => some (.header (String.ofList cs))
  | .word cs :: .equals :: rest => (readValue rest).map (.entry (String.ofList cs))
  | _ => none

/-- The entries before the first header, and the tables. A name is given once. -/
def assemble : List Line → Option (Table × Table)
  | [] => some ([], [])
  | .blank :: lines => assemble lines
  | .entry key value :: lines => (assemble lines).bind fun read =>
    if key ∈ read.1.map Prod.fst then none else some ((key, value) :: read.1, read.2)
  | .header name :: lines => (assemble lines).bind fun read =>
    if name ∈ read.2.map Prod.fst then none else some ([], (name, .table read.1) :: read.2)

def readLines (tokens : List Token) : Option (Table × Table) := ((cut tokens).mapM readLine).bind assemble

/-- A reader for a part of TOML 1.0: tables of strings, booleans and arrays of strings under bare keys. -/
def readDocument (s : String) : Option Table :=
  ((lex s.toList).bind readLines).bind fun read => if read.1.isEmpty then some read.2 else none

end Bsdos.Toml.Grammar
