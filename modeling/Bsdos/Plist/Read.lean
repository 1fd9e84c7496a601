import Bsdos.Plist.Markup

namespace Bsdos.Plist
open Search

/-- What follows each `<` of a token. -/
def Token.bodies : Token → List Chars
  | .xml attributes => [['?', 'x', 'm', 'l'] ++ attributes.text]
  | .doctype declaration => [['!', 'D', 'O', 'C', 'T', 'Y', 'P', 'E'] ++ declaration.text]
  | .plist attributes => [['p', 'l', 'i', 's', 't'] ++ attributes.text]
  | .closePlist => [['/', 'p', 'l', 'i', 's', 't', '>']]
  | .key raw => [['k', 'e', 'y', '>'] ++ raw.text, ['/', 'k', 'e', 'y', '>']]
  | .string raw => [['s', 't', 'r', 'i', 'n', 'g', '>'] ++ raw.text, ['/', 's', 't', 'r', 'i', 'n', 'g', '>']]
  | .bool b => if b then [['t', 'r', 'u', 'e', '/', '>']] else [['f', 'a', 'l', 's', 'e', '/', '>']]
  | .emptyArray => [['a', 'r', 'r', 'a', 'y', '/', '>']]
  | .emptyDict => [['d', 'i', 'c', 't', '/', '>']]
  | .openArray => [['a', 'r', 'r', 'a', 'y', '>']]
  | .closeArray => [['/', 'a', 'r', 'r', 'a', 'y', '>']]
  | .openDict => [['d', 'i', 'c', 't', '>']]
  | .closeDict => [['/', 'd', 'i', 'c', 't', '>']]

theorem Token.text_bodies (token : Token) : token.text = joined '<' token.bodies := by
  cases token with
  | bool b => cases b <;> rfl
  | key raw => simp [text, bodies, joined, keyTag]
  | string raw => simp [text, bodies, joined, stringOpen, stringClose]
  | _ => simp [text, bodies, joined, arrayOpen, arrayClose, dictOpen, dictClose]

theorem Token.bodies_clean (token : Token) : ∀ body ∈ token.bodies, '<' ∉ body := by
  cases token with
  | bool b => cases b <;> simp [bodies]
  | xml raw | doctype raw | plist raw | key raw | string raw =>
    have clean := raw.clean
    simp [bodies, clean]
  | _ => simp [bodies]

theorem Line.indent_clean (line : Line) : '<' ∉ line.indent := by
  intro member
  rcases line.blank '<' member with wrong | wrong
  · exact absurd wrong (by decide)
  · exact absurd wrong (by decide)

/-- A line is skipped by a search for something that its token does not have. -/
theorem Line.find_skip {line : Line} {n rest : Chars} (apart : Apart '<' n ('\n' :: rest) line.token.bodies) :
    find ('<' :: n) (line.text ++ rest) = (find ('<' :: n) rest).map (line.text.length + ·) := by
  have ended : line.text ++ rest = line.indent ++ (joined '<' line.token.bodies ++ '\n' :: rest) := by
    rw [text, line.token.text_bodies, List.append_assoc, List.append_assoc, List.singleton_append]
  have last : find ('<' :: n) ('\n' :: rest) = (find ('<' :: n) rest).map (1 + ·) :=
    @Search.find_skip Char _ n ['\n'] rest '<' (by decide)
  rw [ended, Search.find_skip line.indent_clean, find_joined line.token.bodies_clean apart, last, shift_shift, shift_shift,
    text, line.token.text_bodies, List.length_append, List.length_append, List.length_singleton, Nat.add_assoc]

theorem Token.apart_key {token : Token} {key : Chars} (clean : '<' ∉ key) (other : token.text ≠ keyTag key) (rest : Chars) :
    Apart '<' (['k', 'e', 'y', '>'] ++ (key ++ ['<', '/', 'k', 'e', 'y', '>'])) rest token.bodies := by
  cases token with
  | bool b => cases b <;> simp [bodies, Apart]
  | key raw =>
    refine ⟨fun here => other ?_, ?_⟩
    · have later : key ++ '<' :: ['/', 'k', 'e', 'y', '>'] <+: raw.text ++ '<' :: (['/', 'k', 'e', 'y', '>'] ++ rest) := by
        simpa [joined, List.cons_prefix_cons] using here
      rw [text, (prefix_separated clean raw.clean later).1]
    · simp [Apart, joined]
  | _ => simp [bodies, Apart, joined]

theorem Token.apart_openDict {token : Token} (other : token ≠ .openDict) (rest : Chars) :
    Apart '<' ['d', 'i', 'c', 't', '>'] rest token.bodies := by
  cases token with
  | bool b => cases b <;> simp [bodies, Apart]
  | openDict => exact absurd rfl other
  | _ => simp [bodies, Apart, joined]

theorem Token.apart_closeDict {token : Token} (other : token ≠ .closeDict) (rest : Chars) :
    Apart '<' ['/', 'd', 'i', 'c', 't', '>'] rest token.bodies := by
  cases token with
  | bool b => cases b <;> simp [bodies, Apart]
  | closeDict => exact absurd rfl other
  | _ => simp [bodies, Apart, joined]

theorem Token.apart_openArray {token : Token} (other : token ≠ .openArray) (rest : Chars) :
    Apart '<' ['a', 'r', 'r', 'a', 'y', '>'] rest token.bodies := by
  cases token with
  | bool b => cases b <;> simp [bodies, Apart]
  | openArray => exact absurd rfl other
  | _ => simp [bodies, Apart, joined]

theorem Token.apart_closeArray {token : Token} (other : token ≠ .closeArray) (rest : Chars) :
    Apart '<' ['/', 'a', 'r', 'r', 'a', 'y', '>'] rest token.bodies := by
  cases token with
  | bool b => cases b <;> simp [bodies, Apart]
  | closeArray => exact absurd rfl other
  | _ => simp [bodies, Apart, joined]

theorem Token.apart_string {token : Token} (other : ∀ raw, token ≠ .string raw) (rest : Chars) :
    Apart '<' ['s', 't', 'r', 'i', 'n', 'g', '>'] rest token.bodies := by
  cases token with
  | bool b => cases b <;> simp [bodies, Apart]
  | string raw => exact absurd rfl (other raw)
  | _ => simp [bodies, Apart, joined]

/-- The character after the first `<`. -/
def Token.second : Token → Char
  | .xml _ => '?'
  | .doctype _ => '!'
  | .plist _ => 'p'
  | .closePlist => '/'
  | .key _ => 'k'
  | .string _ => 's'
  | .bool b => if b then 't' else 'f'
  | .emptyArray => 'a'
  | .emptyDict => 'd'
  | .openArray => 'a'
  | .closeArray => '/'
  | .openDict => 'd'
  | .closeDict => '/'

theorem Token.text_head (token : Token) : ∃ tail, token.text = '<' :: token.second :: tail := by
  cases token with
  | bool b => cases b <;> exact ⟨_, rfl⟩
  | _ => exact ⟨_, rfl⟩

theorem Token.second_solid (token : Token) :
    Text.isWhitespace token.second = false ∧ token.second ≠ '\n' ∧ token.second ≠ '\r' := by
  cases token with
  | bool b => cases b <;> decide
  | _ =>
    simp only [second]
    decide

theorem Line.indent_blank (line : Line) : ∀ c ∈ line.indent, Text.isWhitespace c = true := by
  intro c member
  rcases line.blank c member with rfl | rfl <;> decide

theorem Line.indent_newline (line : Line) : '\n' ∉ line.indent := by
  intro member
  rcases line.blank '\n' member with wrong | wrong
  · exact absurd wrong (by decide)
  · exact absurd wrong (by decide)

/-- The lines of a text, each with what is read of it. -/
theorem linesChars_docText (lines : List Line) :
    Text.linesChars [] (docText lines) = lines.flatMap fun line => Text.linesChars [] line.text := by
  induction lines with
  | nil => rfl
  | cons line lines ih =>
    have whole : docText (line :: lines) = line.indent ++ line.token.text ++ '\n' :: docText lines := by
      simp [docText, Line.text]
    have ended : line.text = line.indent ++ line.token.text ++ ['\n'] := by simp [Line.text]
    rw [whole, Text.linesChars_append, ih, List.flatMap_cons, ended]

/-- The first line that is read of a token begins as the token does. -/
theorem Line.first (line : Line) :
    ∃ first others kept, Text.linesChars [] line.text = first :: others ∧
      Text.trimChars first = '<' :: line.token.second :: kept := by
  obtain ⟨tail, headed⟩ := line.token.text_head
  obtain ⟨solid, newline, carriage⟩ := line.token.second_solid
  obtain ⟨middle, back, split, whole⟩ := List.eq_append_cons_of_mem (List.mem_append_right tail (List.mem_singleton_self '\n'))
  have text : line.text = (line.indent ++ '<' :: line.token.second :: middle) ++ '\n' :: back := by
    rw [Line.text, headed, List.cons_append, List.cons_append, split, List.append_assoc, List.cons_append, List.cons_append]
  have clear : '\n' ∉ line.indent ++ '<' :: line.token.second :: middle := by
    have fresh := line.indent_newline
    simp [fresh, whole, newline.symm]
  have kept : ∃ rest, (if ((line.indent ++ '<' :: line.token.second :: middle).reverse ++ []).head? = some '\r' then
      ((line.indent ++ '<' :: line.token.second :: middle).reverse ++ []).tail else
        (line.indent ++ '<' :: line.token.second :: middle).reverse ++ []).reverse =
      line.indent ++ '<' :: ([] ++ line.token.second :: rest) := by
    have reversed : (line.indent ++ '<' :: line.token.second :: middle).reverse ++ [] =
        middle.reverse ++ line.token.second :: '<' :: line.indent.reverse := by simp
    rw [reversed]
    cases middle.reverse with
    | nil =>
      rw [List.nil_append, List.head?_cons, if_neg (by simpa using carriage)]
      exact ⟨[], by simp⟩
    | cons c more =>
      split
      · exact ⟨more.reverse, by simp⟩
      · exact ⟨more.reverse ++ [c], by simp⟩
  obtain ⟨rest, kept⟩ := kept
  obtain ⟨tail', trimmed, _⟩ := Text.trimChars_keeps line.indent_blank (show Text.isWhitespace '<' = false by decide) solid [] rest
  exact ⟨_, _, tail', by rw [text, Text.linesChars_first _ _ _ clear], kept ▸ trimmed⟩

/-- A token on one line. -/
def Token.Single (token : Token) : Prop := '\n' ∉ token.text ∧ ∃ middle, token.text = '<' :: (middle ++ ['>'])

theorem Line.single {line : Line} (single : line.token.Single) :
    Text.linesChars [] line.text = [line.indent ++ line.token.text] ∧
      Text.trimChars (line.indent ++ line.token.text) = line.token.text := by
  obtain ⟨whole, middle, shape⟩ := single
  have clear : '\n' ∉ line.indent ++ line.token.text := by
    have fresh := line.indent_newline
    simp [fresh, whole]
  have solid : Text.isWhitespace '<' = false ∧ Text.isWhitespace '>' = false := by decide
  obtain ⟨kept, trimmed, none⟩ := Text.trimChars_keeps line.indent_blank solid.1 solid.2 middle []
  rw [none rfl, ← shape] at trimmed
  refine ⟨?_, trimmed⟩
  have text : line.text = (line.indent ++ line.token.text) ++ '\n' :: [] := by rw [Line.text, List.append_assoc]
  have last : ((line.indent ++ line.token.text).reverse ++ []).head? = some '>' := by
    rw [shape]
    simp
  rw [text, Text.linesChars_first _ _ _ clear, last, if_neg (by decide), List.append_nil, List.reverse_reverse]
  rfl

theorem Token.key_single {token : Token} {key : Chars} (same : token.text = keyTag key) (whole : '\n' ∉ key) :
    token.Single := by
  refine ⟨?_, ['k', 'e', 'y', '>'] ++ (key ++ ['<', '/', 'k', 'e', 'y']), ?_⟩
  · simp [same, keyTag, whole]
  · simp [same, keyTag]

theorem Token.string_single {raw : Raw} (whole : '\n' ∉ raw.text) : (Token.string raw).Single := by
  refine ⟨?_, ['s', 't', 'r', 'i', 'n', 'g', '>'] ++ (raw.text ++ ['<', '/', 's', 't', 'r', 'i', 'n', 'g']), ?_⟩
  · simp [text, stringOpen, stringClose, whole]
  · simp [text, stringOpen, stringClose]

theorem Token.bool_single (b : Bool) : (Token.bool b).Single := by
  cases b with
  | true => exact ⟨by decide, ['t', 'r', 'u', 'e', '/'], rfl⟩
  | false => exact ⟨by decide, ['f', 'a', 'l', 's', 'e', '/'], rfl⟩

theorem Token.array_single : openArray.Single ∧ closeArray.Single ∧ emptyArray.Single :=
  ⟨⟨by decide, ['a', 'r', 'r', 'a', 'y'], rfl⟩, ⟨by decide, ['/', 'a', 'r', 'r', 'a', 'y'], rfl⟩,
    ⟨by decide, ['a', 'r', 'r', 'a', 'y', '/'], rfl⟩⟩

/-- No line that is read of a token has a tag that the token does not have. -/
theorem Line.no_infix {line : Line} {n read : Chars} (apart : Apart '<' n ['\n'] line.token.bodies)
    (member : read ∈ Text.linesChars [] line.text) : ¬ '<' :: n <:+: Text.trimChars read := by
  intro inside
  have within := Text.linesChars_infix [] line.text member
  rw [List.reverse_nil, List.nil_append] at within
  have whole : find ('<' :: n) (line.text ++ []) = none := by
    rw [@Line.find_skip line n [] apart]
    rfl
  rw [List.append_nil] at whole
  exact find_infix ((inside.trans (Text.trimChars_infix read)).trans within) whole

/-- The scans for a string and for a boolean, as one. -/
def scanLines {β : Type} (value : Chars → Option β) (tag : Chars) : Bool → List Chars → Option β
  | _, [] => none
  | false, line :: rest => scanLines value tag (Text.trimChars line = tag) rest
  | true, line :: rest =>
    if Text.trimChars line = [] then scanLines value tag true rest
    else (value (Text.trimChars line)).elim (scanLines value tag false rest) some

def boolValue (nxt : Chars) : Option Bool :=
  if ['<', 't', 'r', 'u', 'e'] <+: nxt then some true else if ['<', 'f', 'a', 'l', 's', 'e'] <+: nxt then some false else none

theorem stringAfter_eq (tag : Chars) (flag : Bool) (lines : List Chars) :
    stringAfter tag flag lines = scanLines stringValue tag flag lines := by
  induction lines generalizing flag with
  | nil => cases flag <;> rfl
  | cons line rest ih => cases flag <;> simp only [stringAfter, scanLines, ih]

theorem boolAfter_eq (tag : Chars) (flag : Bool) (lines : List Chars) :
    boolAfter tag flag lines = scanLines boolValue tag flag lines := by
  induction lines generalizing flag with
  | nil => cases flag <;> rfl
  | cons line rest ih =>
    cases flag with
    | false => simp only [boolAfter, scanLines, ih]
    | true =>
      simp only [boolAfter, scanLines, ih, boolValue]
      split
      · rfl
      · split
        · rfl
        · split <;> rfl

section Scan
variable {β : Type} {value : Chars → Option β} {tag : Chars} {front back : List Chars}

theorem scanLines_skip (others : ∀ read ∈ front, Text.trimChars read ≠ tag) :
    scanLines value tag false (front ++ back) = scanLines value tag false back := by
  induction front with
  | nil => rfl
  | cons line front ih =>
    have here := others line List.mem_cons_self
    rw [List.cons_append, scanLines, decide_eq_false here, ih fun read member => others read (List.mem_cons_of_mem _ member)]

variable {key : Chars} {worth : Token → Option β}

/-- The scan over the lines of a file is the scan over its tokens, if the value of a line
is that of its token. -/
theorem scanLines_tokens (clean : '<' ∉ key) (whole : '\n' ∉ key) {lines : List Line}
    (agrees : ∀ line ∈ lines, ∀ first others, Text.linesChars [] line.text = first :: others →
      value (Text.trimChars first) = worth line.token) (flag : Bool) :
    scanLines value (keyTag key) flag (Text.linesChars [] (docText lines)) =
      scanTokens worth key flag (lines.map Line.token) := by
  rw [linesChars_docText]
  induction lines generalizing flag with
  | nil => cases flag <;> rfl
  | cons line lines ih =>
    have rest := ih fun line member => agrees line (List.mem_cons_of_mem _ member)
    rw [List.flatMap_cons, List.map_cons]
    have others (other : line.token.text ≠ keyTag key) (read : Chars) (member : read ∈ Text.linesChars [] line.text) :
        Text.trimChars read ≠ keyTag key := fun same =>
      line.no_infix (Token.apart_key clean other ['\n']) member (same ▸ List.infix_refl _)
    cases flag with
    | false =>
      by_cases same : line.token.text = keyTag key
      · obtain ⟨read, trimmed⟩ := line.single (Token.key_single same whole)
        rw [read, List.singleton_append, scanLines, trimmed, rest, scanTokens]
      · rw [scanLines_skip (others same), scanTokens, decide_eq_false same, rest]
    | true =>
      obtain ⟨first, later, kept, read, trimmed⟩ := line.first
      have passed : scanLines value (keyTag key) false (later ++ lines.flatMap fun line => Text.linesChars [] line.text) =
          scanTokens worth key false (lines.map Line.token) := by
        by_cases same : line.token.text = keyTag key
        · have one := (line.single (Token.key_single same whole)).1
          rw [read] at one
          rw [(List.cons.inj one).2, List.nil_append, rest]
        · rw [scanLines_skip fun read' member => others same read' (read ▸ List.mem_cons_of_mem _ member), rest]
      rw [read, List.cons_append, scanLines, trimmed, if_neg (List.cons_ne_nil _ _), ← trimmed,
        agrees line List.mem_cons_self first later read, scanTokens, passed]

end Scan

def Token.bool? : Token → Option Bool
  | .bool b => some b
  | _ => none

def Token.string? : Token → Option Chars
  | .string raw => some raw.text
  | _ => none

theorem boolValue_token {line : Line} {first : Chars} {others : List Chars}
    (read : Text.linesChars [] line.text = first :: others) : boolValue (Text.trimChars first) = line.token.bool? := by
  obtain ⟨first', others', kept, read', trimmed⟩ := line.first
  rw [read'] at read
  obtain ⟨rfl, rfl⟩ := List.cons.inj read
  cases token : line.token with
  | bool b =>
    obtain ⟨single, text⟩ := line.single (token ▸ Token.bool_single b)
    rw [read'] at single
    rw [(List.cons.inj single).1, text, token]
    cases b <;> rfl
  | _ =>
    rw [trimmed, token]
    simp [boolValue, Token.second, Token.bool?]

theorem stringValue_string (raw : Raw) : stringValue (Token.string raw).text = some raw.text := by
  have opened : stripPrefix stringOpen (Token.string raw).text = some (raw.text ++ stringClose) := by
    rw [Token.text, stripPrefix, if_pos (List.prefix_append _ _), List.drop_left]
  have closed : stripSuffix stringClose (raw.text ++ stringClose) = some raw.text := by
    rw [stripSuffix, if_pos (List.suffix_append _ _), List.length_append, Nat.add_sub_cancel, List.take_left]
  rw [stringValue, opened, Option.bind_some, closed]

theorem stringValue_token {line : Line} {first : Chars} {others : List Chars}
    (whole : ∀ raw, line.token = .string raw → '\n' ∉ raw.text)
    (read : Text.linesChars [] line.text = first :: others) : stringValue (Text.trimChars first) = line.token.string? := by
  obtain ⟨first', others', kept, read', trimmed⟩ := line.first
  rw [read'] at read
  obtain ⟨rfl, rfl⟩ := List.cons.inj read
  cases token : line.token with
  | string raw =>
    obtain ⟨single, text⟩ := line.single (token ▸ Token.string_single (whole raw token))
    rw [read'] at single
    rw [(List.cons.inj single).1, text, token, stringValue_string]
    rfl
  | bool b =>
    rw [trimmed, token]
    cases b <;> simp [stringValue, stripPrefix, stringOpen, Token.second, Token.string?]
  | _ =>
    rw [trimmed, token]
    simp [stringValue, stripPrefix, stringOpen, Token.second, Token.string?]

theorem keyTag_inj {key key' : Chars} : keyTag key = keyTag key' ↔ key = key' := by
  rw [keyTag, keyTag, List.append_right_inj, List.append_left_inj]

/-- An element begins with a token that is not a key. -/
theorem Element.tokens_head (e : Element) : ∃ token later, e.tokens = token :: later ∧ ∀ key, token.text ≠ keyTag key := by
  cases e with
  | bool b => exact ⟨_, _, rfl, fun key => by cases b <;> simp [Token.text, keyTag]⟩
  | _ => exact ⟨_, _, rfl, fun key => by simp [Token.text, keyTag, stringOpen, arrayOpen, dictOpen]⟩

/-- An element that is written as one token. -/
structure Leaf (e : Element) (token : Token) : Prop where
  tokens : e.tokens = [token]
  entries : e.entries = []
  events : e.events = []
  notKey : ∀ key, token.text ≠ keyTag key
  notOpen : token ≠ .openDict
  notClose : token ≠ .closeDict
  notLast : token ≠ .closePlist

/-- Induction on a property list, its lists of items and its lists of pairs at once. -/
theorem Element.induction {P : Element → Prop} {A : List Element → Prop} {E : List (Raw × Element) → Prop}
    (leaf : ∀ e token, Leaf e token → P e) (array : ∀ items, A items → P (.array items))
    (dict : ∀ pairs, E pairs → P (.dict pairs)) (none : A []) (item : ∀ e items, P e → A items → A (e :: items))
    (nothing : E []) (pair : ∀ key e pairs, P e → E pairs → E ((key, e) :: pairs)) :
    (∀ e, P e) ∧ (∀ items, A items) ∧ ∀ pairs, E pairs := by
  have single (e : Element) (token : Token) (tokens : e.tokens = [token]) (entries : e.entries = [])
      (events : e.events = []) (others : token ≠ .openDict ∧ token ≠ .closeDict ∧ token ≠ .closePlist) : P e := by
    obtain ⟨token', later, split, notKey⟩ := e.tokens_head
    obtain ⟨rfl, _⟩ := List.cons.inj (tokens.symm.trans split)
    exact leaf e token ⟨tokens, entries, events, notKey, others.1, others.2.1, others.2.2⟩
  have all (e : Element) : P e := by
    refine @Element.rec P A E (fun pair => P pair.2) (fun raw => ?_) (fun b => ?_) ?_ ?_ array dict none item nothing
      (fun entry pairs => pair entry.1 entry.2 pairs) (fun _ _ here => here) e
    · exact single _ _ rfl rfl rfl (by simp)
    · exact single _ _ rfl rfl rfl (by simp)
    · exact single _ _ rfl rfl rfl (by simp)
    · exact single _ _ rfl rfl rfl (by simp)
  refine ⟨all, fun items => ?_, fun pairs => ?_⟩
  · induction items with
    | nil => exact none
    | cons e items ih => exact item e items (all e) ih
  · induction pairs with
    | nil => exact nothing
    | cons entry pairs ih => exact pair entry.1 entry.2 pairs (all entry.2) ih

section Tree
variable {β : Type} {worth : Token → Option β} {value : Element → Option β} {key : Chars}

theorem scanTokens_pass {token : Token} (other : token.text ≠ keyTag key) (rest : List Token) :
    scanTokens worth key false (token :: rest) = scanTokens worth key false rest := by
  rw [scanTokens, decide_eq_false other]

theorem firstOf_cons (entry : Raw × Element) (rest : List (Raw × Element)) :
    firstOf value key (entry :: rest) = (if entry.1.text = key then value entry.2 else none).or (firstOf value key rest) := by
  rw [firstOf, List.findSome?_cons]
  cases if entry.1.text = key then value entry.2 else none <;> rfl

theorem firstOf_append (front back : List (Raw × Element)) :
    firstOf value key (front ++ back) = (firstOf value key front).or (firstOf value key back) := by
  induction front with
  | nil => rfl
  | cons entry front ih => rw [List.cons_append, firstOf_cons, firstOf_cons, ih, Option.or_assoc]

/-- The scan over the tokens of a property list finds the first value of the key, at
whatever depth. -/
theorem scanTokens_tree (heads : ∀ e token later, Element.tokens e = token :: later → worth token = value e) :
    (∀ (e : Element) rest, scanTokens worth key false (e.tokens ++ rest) =
      (firstOf value key e.entries).or (scanTokens worth key false rest)) ∧
    (∀ items rest, scanTokens worth key false (Element.tokens.all items ++ rest) =
      (firstOf value key (Element.entries.all items)).or (scanTokens worth key false rest)) ∧
    ∀ pairs rest, scanTokens worth key false (Element.tokens.each pairs ++ rest) =
      (firstOf value key (Element.entries.each pairs)).or (scanTokens worth key false rest) := by
  refine Element.induction ?_ ?_ ?_ ?_ ?_ ?_ ?_
  · intro e token leaf rest
    rw [leaf.tokens, leaf.entries, List.singleton_append, scanTokens_pass (leaf.notKey key)]
    rfl
  · intro items ih rest
    have opened : Token.openArray.text ≠ keyTag key := by simp [Token.text, keyTag, arrayOpen]
    have closed : Token.closeArray.text ≠ keyTag key := by simp [Token.text, keyTag, arrayClose]
    rw [Element.tokens, Element.entries, List.cons_append, scanTokens_pass opened, List.append_assoc, ih,
      List.singleton_append, scanTokens_pass closed]
  · intro pairs ih rest
    have opened : Token.openDict.text ≠ keyTag key := by simp [Token.text, keyTag, dictOpen]
    have closed : Token.closeDict.text ≠ keyTag key := by simp [Token.text, keyTag, dictClose]
    rw [Element.tokens, Element.entries, List.cons_append, scanTokens_pass opened, List.append_assoc, ih,
      List.singleton_append, scanTokens_pass closed]
  · intro rest
    rfl
  · intro e items here there rest
    rw [Element.tokens.all, Element.entries.all, List.append_assoc, here, there, firstOf_append, Option.or_assoc]
  · intro rest
    rfl
  · intro key' e pairs here there rest
    obtain ⟨token, later, split, notKey⟩ := e.tokens_head
    rw [Element.tokens.each, Element.entries.each, firstOf_cons, firstOf_append, List.cons_append, List.append_assoc,
      scanTokens, Option.or_assoc, Option.or_assoc, ← there, ← here]
    by_cases same : key'.text = key
    · have tag : (Token.key key').text = keyTag key := keyTag_inj.mpr same
      rw [decide_eq_true tag, if_pos same, split, List.cons_append, scanTokens_pass (notKey key), scanTokens,
        heads e token later split]
      cases value e <;> rfl
    · have tag : (Token.key key').text ≠ keyTag key := fun equal => same (keyTag_inj.mp equal)
      rw [decide_eq_false tag, if_neg same]
      rfl

theorem scanTokens_front {front : List Token} (others : ∀ token ∈ front, token.text ≠ keyTag key) (rest : List Token) :
    scanTokens worth key false (front ++ rest) = scanTokens worth key false rest := by
  induction front with
  | nil => rfl
  | cons token front ih =>
    rw [List.cons_append, scanTokens_pass (others token List.mem_cons_self),
      ih fun token member => others token (List.mem_cons_of_mem _ member)]

/-- The keys among the tokens are those of the entries. -/
theorem keys_tree :
    (∀ e : Element, (∃ token ∈ e.tokens, token.text = keyTag key) ↔ ∃ pair ∈ e.entries, pair.1.text = key) ∧
    (∀ items, (∃ token ∈ Element.tokens.all items, token.text = keyTag key) ↔
      ∃ pair ∈ Element.entries.all items, pair.1.text = key) ∧
    ∀ pairs, (∃ token ∈ Element.tokens.each pairs, token.text = keyTag key) ↔
      ∃ pair ∈ Element.entries.each pairs, pair.1.text = key := by
  refine Element.induction ?_ ?_ ?_ ?_ ?_ ?_ ?_
  · intro e token leaf
    simp [leaf.tokens, leaf.entries, leaf.notKey key]
  · intro items ih
    rw [Element.entries, ← ih]
    simp [Element.tokens, Token.text, keyTag, arrayOpen, arrayClose]
  · intro pairs ih
    rw [Element.entries, ← ih]
    simp [Element.tokens, Token.text, keyTag, dictOpen, dictClose]
  · simp [Element.tokens.all, Element.entries.all]
  · intro e items here there
    simp only [Element.tokens.all, Element.entries.all, List.mem_append, or_and_right, exists_or, here, there]
  · simp [Element.tokens.each, Element.entries.each]
  · intro key' e pairs here there
    have tag : (Token.key key').text = keyTag key ↔ key'.text = key := keyTag_inj
    simp only [Element.tokens.each, Element.entries.each, List.mem_cons, List.mem_append, or_and_right, exists_or, here, there,
      exists_eq_left, tag]

end Tree

/-- A text whose last line ends with the last tag. -/
theorem linesChars_ending {front : List Line} {line : Line} {middle : Chars} (shape : line.token.text = middle ++ ['>']) :
    Text.linesChars [] (docText front ++ (line.indent ++ line.token.text)) = Text.linesChars [] (docText (front ++ [line])) := by
  have unended : docText front ++ (line.indent ++ line.token.text) = (docText front ++ line.indent ++ middle) ++ ['>'] := by
    simp only [shape, List.append_assoc]
  have ended : docText (front ++ [line]) = (docText front ++ line.indent ++ middle) ++ ['>', '\n'] := by
    simp [docText, Line.text, shape]
  rw [unended, ended, Text.linesChars_last _ _ (by decide) (by decide)]

theorem keyIsPresent_iff {lines : List Line} {text key : Chars} (read : Text.linesChars [] text = Text.linesChars [] (docText lines))
    (clean : '<' ∉ key) (whole : '\n' ∉ key) :
    keyIsPresent text key = true ↔ ∃ token ∈ lines.map Line.token, token.text = keyTag key := by
  rw [keyIsPresent, read, linesChars_docText, List.any_eq_true]
  constructor
  · rintro ⟨line', member, same⟩
    obtain ⟨line, inside, read'⟩ := List.mem_flatMap.mp member
    refine ⟨line.token, List.mem_map_of_mem inside, ?_⟩
    by_contra other
    have equal : Text.trimChars line' = keyTag key := of_decide_eq_true same
    exact line.no_infix (Token.apart_key clean other ['\n']) read' (equal ▸ List.infix_refl _)
  · rintro ⟨token, member, tag⟩
    obtain ⟨line, inside, rfl⟩ := List.mem_map.mp member
    obtain ⟨read', trimmed⟩ := line.single (Token.key_single tag whole)
    exact ⟨line.indent ++ line.token.text, List.mem_flatMap.mpr ⟨line, inside, by rw [read']; exact List.mem_singleton_self _⟩,
      decide_eq_true (trimmed.trans tag)⟩

theorem extractBool_tokens {lines : List Line} {text key : Chars}
    (read : Text.linesChars [] text = Text.linesChars [] (docText lines)) (clean : '<' ∉ key) (whole : '\n' ∉ key) :
    extractBoolAfterKey text key = scanTokens Token.bool? key false (lines.map Line.token) := by
  rw [extractBoolAfterKey, boolAfter_eq, read]
  exact scanLines_tokens clean whole (fun line _ first others split => boolValue_token split) false

theorem extractString_tokens {lines : List Line} {text key : Chars}
    (read : Text.linesChars [] text = Text.linesChars [] (docText lines)) (clean : '<' ∉ key) (whole : '\n' ∉ key)
    (strings : ∀ line ∈ lines, ∀ raw, line.token = .string raw → '\n' ∉ raw.text) :
    extractStringAfterKey text key = scanTokens Token.string? key false (lines.map Line.token) := by
  rw [extractStringAfterKey, stringAfter_eq, read]
  exact scanLines_tokens clean whole (fun line member first others split => stringValue_token (strings line member) split) false

/-- The scan for an array, over tokens. -/
def arrayTokens (key : Chars) : ArrayScan → List Token → List Chars
  | _, [] => []
  | .seeking, token :: rest => arrayTokens key (if token.text = keyTag key then .keyRead else .seeking) rest
  | .keyRead, token :: rest => if token = .openArray then arrayTokens key .inArray rest else []
  | .inArray, token :: rest => if token = .closeArray then [] else token.string?.toList ++ arrayTokens key .inArray rest

section ArrayScan
variable {key tag : Chars} {front back : List Chars}

theorem arrayAfter_seek (others : ∀ read ∈ front, ¬ tag <:+: Text.trimChars read) :
    arrayAfter tag .seeking (front ++ back) = arrayAfter tag .seeking back := by
  induction front with
  | nil => rfl
  | cons line front ih =>
    rw [List.cons_append, arrayAfter, if_pos (others line List.mem_cons_self),
      ih fun read member => others read (List.mem_cons_of_mem _ member)]

theorem arrayAfter_inside (others : ∀ read ∈ front, ¬ arrayClose <+: Text.trimChars read ∧
    stringValue (Text.trimChars read) = none) :
    arrayAfter tag .inArray (front ++ back) = arrayAfter tag .inArray back := by
  induction front with
  | nil => rfl
  | cons line front ih =>
    obtain ⟨open', none⟩ := others line List.mem_cons_self
    rw [List.cons_append, arrayAfter, if_neg open', none, ih fun read member => others read (List.mem_cons_of_mem _ member)]
    rfl

theorem arrayAfter_key (line : Chars) (trimmed : Text.trimChars line = tag) :
    arrayAfter tag .seeking (line :: back) = arrayAfter tag .keyRead back := by
  have after : (stripPrefix tag tag).map Text.trimChars = some [] := by
    rw [stripPrefix, if_pos (List.prefix_refl _), List.drop_length]
    rfl
  rw [arrayAfter, trimmed, if_neg (not_not.mpr (List.infix_refl _)), after]
  rfl

/-- The scan over the lines of a file is the scan over its tokens. -/
theorem arrayAfter_tokens (clean : '<' ∉ key) (whole : '\n' ∉ key) {lines : List Line}
    (strings : ∀ line ∈ lines, ∀ raw, line.token = .string raw → '\n' ∉ raw.text) (mode : ArrayScan) :
    arrayAfter (keyTag key) mode (Text.linesChars [] (docText lines)) = arrayTokens key mode (lines.map Line.token) := by
  rw [linesChars_docText]
  induction lines generalizing mode with
  | nil => cases mode <;> rfl
  | cons line lines ih =>
    have rest := fun mode => ih (fun line member => strings line (List.mem_cons_of_mem _ member)) mode
    rw [List.flatMap_cons, List.map_cons]
    cases mode with
    | seeking =>
      by_cases same : line.token.text = keyTag key
      · obtain ⟨read, trimmed⟩ := line.single (Token.key_single same whole)
        rw [read, List.singleton_append, arrayAfter_key _ (trimmed.trans same), rest, arrayTokens, if_pos same]
      · have others : ∀ read ∈ Text.linesChars [] line.text, ¬ keyTag key <:+: Text.trimChars read :=
          fun read member => line.no_infix (Token.apart_key clean same ['\n']) member
        rw [arrayAfter_seek others, rest, arrayTokens, if_neg same]
    | keyRead =>
      by_cases opens : line.token = .openArray
      · obtain ⟨read, trimmed⟩ := line.single (opens ▸ Token.array_single.1)
        have text : line.token.text = arrayOpen := by rw [opens]; rfl
        have inline : collectInlineArrayStrings arrayOpen = [] := by decide
        rw [read, List.singleton_append, arrayAfter, trimmed, text, if_neg (by decide), if_pos (List.prefix_refl _), inline,
          if_neg (by decide), rest, arrayTokens, if_pos opens]
        rfl
      · obtain ⟨first, others, kept, read, trimmed⟩ := line.first
        have other : ¬ arrayOpen <+: Text.trimChars first := fun here =>
          line.no_infix (Token.apart_openArray opens ['\n']) (read ▸ List.mem_cons_self) here.isInfix
        have filled : Text.trimChars first ≠ [] := by
          rw [trimmed]
          exact List.cons_ne_nil _ _
        rw [read, List.cons_append, arrayAfter, if_neg filled, if_neg other, arrayTokens, if_neg opens]
    | inArray =>
      by_cases closes : line.token = .closeArray
      · obtain ⟨read, trimmed⟩ := line.single (closes ▸ Token.array_single.2.1)
        have text : line.token.text = arrayClose := by rw [closes]; rfl
        rw [read, List.singleton_append, arrayAfter, trimmed, text, if_pos (List.prefix_refl _), arrayTokens, if_pos closes]
      · have open' (read : Chars) (member : read ∈ Text.linesChars [] line.text) : ¬ arrayClose <+: Text.trimChars read :=
          fun here => line.no_infix (Token.apart_closeArray closes ['\n']) member here.isInfix
        rw [arrayTokens, if_neg closes]
        cases token : line.token with
        | string raw =>
          obtain ⟨read, trimmed⟩ := line.single (token ▸ Token.string_single (strings line List.mem_cons_self raw token))
          have here := open' _ (read ▸ List.mem_singleton_self _)
          rw [trimmed] at here
          rw [read, List.singleton_append, arrayAfter, trimmed, if_neg here, rest, token, stringValue_string]
          rfl
        | _ =>
          have none (read : Chars) (member : read ∈ Text.linesChars [] line.text) : stringValue (Text.trimChars read) = none := by
            have other : ¬ stringOpen <+: Text.trimChars read := fun here =>
              line.no_infix (Token.apart_string (by simp [token]) ['\n']) member here.isInfix
            rw [stringValue, stripPrefix, if_neg other]
            rfl
          rw [arrayAfter_inside fun read member => ⟨open' read member, none read member⟩, rest]
          rfl

end ArrayScan

end Bsdos.Plist
