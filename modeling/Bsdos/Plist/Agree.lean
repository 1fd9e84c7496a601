import Bsdos.Plist.Isolate
import Bsdos.Plist.Info

namespace Bsdos.Plist
open Octets Search

/-- The characters that a property list writes for a text. -/
def escape (cs : Chars) : Chars := cs.flatMap fun c =>
  if c = '&' then ['&', 'a', 'm', 'p', ';'] else if c = '<' then ['&', 'l', 't', ';']
  else if c = '>' then ['&', 'g', 't', ';'] else [c]

theorem mem_escape {c : Char} {cs : Chars} (member : c ∈ escape cs) : c ∈ cs ∨ c ∈ ['&', 'a', 'm', 'p', 'l', 't', 'g', ';'] := by
  obtain ⟨d, inside, piece⟩ := List.mem_flatMap.mp member
  split at piece
  · exact .inr (by simp only [List.mem_cons] at piece ⊢; tauto)
  · split at piece
    · exact .inr (by simp only [List.mem_cons] at piece ⊢; tauto)
    · split at piece
      · exact .inr (by simp only [List.mem_cons] at piece ⊢; tauto)
      · exact .inl (List.mem_singleton.mp piece ▸ inside)

theorem escape_clean (cs : Chars) : '<' ∉ escape cs := by
  intro member
  obtain ⟨d, inside, piece⟩ := List.mem_flatMap.mp member
  split at piece
  · exact absurd piece (by decide)
  · split at piece
    · exact absurd piece (by decide)
    · rename_i other
      split at piece
      · exact absurd piece (by decide)
      · exact other (List.mem_singleton.mp piece).symm

theorem escape_plain {cs : Chars} (plain : ∀ c ∈ cs, c ≠ '&' ∧ c ≠ '<' ∧ c ≠ '>') : escape cs = cs := by
  induction cs with
  | nil => rfl
  | cons c cs ih =>
    obtain ⟨amp, less, greater⟩ := plain c List.mem_cons_self
    have whole : escape (c :: cs) = c :: escape cs := by
      simp [escape, amp, less, greater]
    rw [whole, ih fun c member => plain c (List.mem_cons_of_mem _ member)]

/-- A text is written as one without the special characters only if it is that text. -/
theorem escape_eq_iff {cs key : Chars} (plain : ∀ c ∈ key, c ≠ '&' ∧ c ≠ '<' ∧ c ≠ '>') : escape cs = key ↔ cs = key := by
  constructor
  · intro same
    have special : ∀ c ∈ cs, c ≠ '&' ∧ c ≠ '<' ∧ c ≠ '>' := by
      intro c member
      have written : '&' ∈ escape cs ∨ c ≠ '&' ∧ c ≠ '<' ∧ c ≠ '>' := by
        by_cases amp : c = '&'
        · exact .inl (List.mem_flatMap.mpr ⟨c, member, by simp [amp]⟩)
        · by_cases less : c = '<'
          · exact .inl (List.mem_flatMap.mpr ⟨c, member, by simp [less]⟩)
          · by_cases greater : c = '>'
            · exact .inl (List.mem_flatMap.mpr ⟨c, member, by simp [greater]⟩)
            · exact .inr ⟨amp, less, greater⟩
      exact written.resolve_left fun wrong => (plain '&' (same ▸ wrong)).1 rfl
    rw [← same, escape_plain special]
  · rintro rfl
    exact escape_plain plain

def escapeRaw (s : String) : Raw := ⟨escape s.toList, escape_clean s.toList⟩

/-- A text without line breaks. -/
structure OneLine where
  text : String
  whole : '\n' ∉ text.toList

/-- A value of an Info.plist. -/
inductive Datum
  | string (s : OneLine)
  | bool (b : Bool)
  | strings (items : List OneLine)
  | dict (pairs : List (String × Datum))

/-- How it is written as XML; empty containers as one tag or as two. -/
def Datum.element (selfClosed : Bool) : Datum → Element
  | .string s => .string (escapeRaw s.text)
  | .bool b => .bool b
  | .strings items =>
    if selfClosed && items.isEmpty then .emptyArray else .array (items.map fun s => .string (escapeRaw s.text))
  | .dict pairs => if selfClosed && pairs.isEmpty then .emptyDict else .dict (each pairs)
where
  each : List (String × Datum) → List (Raw × Element)
    | [] => []
    | (key, value) :: rest => (escapeRaw key, value.element selfClosed) :: each rest

/-- What a binary property list is decoded to. -/
def Datum.value : Datum → BPlistValue
  | .string s => .str s.text
  | .bool b => .bool b
  | .strings items => .array (items.map fun s => .str s.text)
  | .dict pairs => .dict (OrderedMap.ofEntries (each pairs))
where
  each : List (String × Datum) → List (String × BPlistValue)
    | [] => []
    | (key, datum) :: rest => (key, datum.value) :: each rest

/-- The entries of all dictionaries in a value, in the order in which they are written. -/
def Datum.entries : Datum → List (String × Datum)
  | .dict pairs => each pairs
  | _ => []
where
  each : List (String × Datum) → List (String × Datum)
    | [] => []
    | (key, value) :: rest => (key, value) :: (value.entries ++ each rest)

theorem Datum.induction {P : Datum → Prop} {E : List (String × Datum) → Prop} (string : ∀ s, P (.string s))
    (bool : ∀ b, P (.bool b)) (strings : ∀ items, P (.strings items)) (dict : ∀ pairs, E pairs → P (.dict pairs))
    (nothing : E []) (pair : ∀ key d pairs, P d → E pairs → E ((key, d) :: pairs)) :
    (∀ d, P d) ∧ ∀ pairs, E pairs := by
  have all (d : Datum) : P d := by
    exact @Datum.rec P E (fun pair => P pair.2) string bool strings dict nothing
      (fun entry pairs => pair entry.1 entry.2 pairs) (fun _ _ here => here) d
  refine ⟨all, fun pairs => ?_⟩
  induction pairs with
  | nil => exact nothing
  | cons entry pairs ih => exact pair entry.1 entry.2 pairs (all entry.2) ih

theorem strings_tokens (items : List OneLine) :
    Element.tokens.all (items.map fun s => Element.string (escapeRaw s.text)) =
      items.map fun s => Token.string (escapeRaw s.text) := by
  induction items with
  | nil => rfl
  | cons s items ih =>
    rw [List.map_cons, Element.tokens.all, ih]
    rfl

section Written
variable (selfClosed : Bool)

theorem strings_entries (items : List OneLine) :
    Element.entries.all (items.map fun s => Element.string (escapeRaw s.text)) = [] := by
  induction items with
  | nil => rfl
  | cons s items ih =>
    rw [List.map_cons, Element.entries.all, ih]
    rfl

/-- The entries of the text are those of the value. -/
theorem element_entries :
    (∀ d : Datum, (d.element selfClosed).entries = d.entries.map fun entry => (escapeRaw entry.1, entry.2.element selfClosed)) ∧
    ∀ pairs, Element.entries.each (Datum.element.each selfClosed pairs) =
      (Datum.entries.each pairs).map fun entry => (escapeRaw entry.1, entry.2.element selfClosed) := by
  refine Datum.induction (fun s => rfl) (fun b => rfl) ?_ ?_ rfl ?_
  · intro items
    rw [Datum.element]
    split
    · rfl
    · exact strings_entries items
  · intro pairs ih
    rw [Datum.element, Datum.entries, ← ih]
    split
    · rename_i empty
      have none : pairs = [] := List.isEmpty_iff.mp (Bool.and_eq_true_iff.mp empty).2
      rw [none]
      rfl
    · rfl
  · intro key d pairs here there
    rw [Datum.element.each, Element.entries.each, Datum.entries.each, List.map_cons, List.map_append, here, there]

/-- No text element that is written has a line break. -/
theorem element_whole :
    (∀ d : Datum, ∀ token ∈ (d.element selfClosed).tokens, ∀ raw, token = .string raw → '\n' ∉ raw.text) ∧
    ∀ pairs, ∀ token ∈ Element.tokens.each (Datum.element.each selfClosed pairs), ∀ raw, token = .string raw →
      '\n' ∉ raw.text := by
  have written (s : OneLine) : '\n' ∉ (escapeRaw s.text).text := fun member =>
    (mem_escape member).elim s.whole fun wrong => absurd wrong (by decide)
  refine Datum.induction ?_ ?_ ?_ ?_ (by simp [Datum.element.each, Element.tokens.each]) ?_
  · intro s token member raw same
    obtain rfl := List.mem_singleton.mp member
    obtain rfl := Token.string.inj same
    exact written s
  · intro b token member raw same
    obtain rfl := List.mem_singleton.mp member
    cases same
  · intro items token member raw same
    rw [Datum.element] at member
    split at member
    · obtain rfl := List.mem_singleton.mp member
      cases same
    · have inside : token ∈ Element.tokens.all (items.map fun s => Element.string (escapeRaw s.text)) := by
        rw [Element.tokens, List.mem_cons, List.mem_append, List.mem_singleton] at member
        rcases member with wrong | inside | wrong
        · cases same.symm.trans wrong
        · exact inside
        · cases same.symm.trans wrong
      rw [strings_tokens] at inside
      obtain ⟨s, _, rfl⟩ := List.mem_map.mp inside
      obtain rfl := Token.string.inj same
      exact written s
  · intro pairs ih token member raw same
    rw [Datum.element] at member
    split at member
    · obtain rfl := List.mem_singleton.mp member
      cases same
    · rw [Element.tokens, List.mem_cons, List.mem_append, List.mem_singleton] at member
      rcases member with wrong | inside | wrong
      · cases same.symm.trans wrong
      · exact ih token inside raw same
      · cases same.symm.trans wrong
  · intro key d pairs here there token member raw same
    rw [Datum.element.each, Element.tokens.each, List.mem_cons, List.mem_append] at member
    rcases member with wrong | within | later
    · cases same.symm.trans wrong
    · exact here token within raw same
    · exact there token later raw same

end Written

def Datum.string? : Datum → Option String
  | .string s => some s.text
  | _ => none

def Datum.bool? : Datum → Option Bool
  | .bool b => some b
  | _ => none

def Datum.items : Datum → List String
  | .strings items => items.map OneLine.text
  | _ => []

/-- The first value of a key that is of the right kind. -/
def firstDatum {β : Type} (value : Datum → Option β) (key : String) (entries : List (String × Datum)) : Option β :=
  entries.findSome? fun entry => if entry.1 = key then value entry.2 else none

/-- A key that is written as it is. -/
def PlainKey (key : String) : Prop := ∀ c ∈ key.toList, c ≠ '&' ∧ c ≠ '<' ∧ c ≠ '>' ∧ c ≠ '\n'

instance (key : String) : Decidable (PlainKey key) := List.decidableBAll _ _

theorem escapeRaw_eq_iff {s key : String} (plain : PlainKey key) : (escapeRaw s).text = key.toList ↔ s = key := by
  have special : ∀ c ∈ key.toList, c ≠ '&' ∧ c ≠ '<' ∧ c ≠ '>' := fun c member =>
    ⟨(plain c member).1, (plain c member).2.1, (plain c member).2.2.1⟩
  rw [escapeRaw, escape_eq_iff special, String.toList_inj]

section Fields
variable {β γ : Type} {key : String} {selfClosed : Bool} {rest : List Token}

theorem firstOf_entries {value : Element → Option γ} {value' : Datum → Option γ} (plain : PlainKey key)
    (agrees : ∀ d, value (Datum.element selfClosed d) = value' d) (entries : List (String × Datum)) :
    firstOf value key.toList (entries.map fun entry => (escapeRaw entry.1, entry.2.element selfClosed)) =
      firstDatum value' key entries := by
  rw [firstOf, firstDatum, List.findSome?_map]
  congr 1
  funext entry
  simp only [Function.comp_apply, escapeRaw_eq_iff plain, agrees]

theorem arrayTokens_front {key : Chars} {front : List Token} (others : ∀ token ∈ front, token.text ≠ keyTag key)
    (rest : List Token) : arrayTokens key .seeking (front ++ rest) = arrayTokens key .seeking rest := by
  induction front with
  | nil => rfl
  | cons token front ih =>
    rw [List.cons_append, arrayTokens, if_neg (others token List.mem_cons_self),
      ih fun token member => others token (List.mem_cons_of_mem _ member)]

theorem arrayTokens_inside (key : Chars) (items : List OneLine) (rest : List Token) :
    arrayTokens key .inArray (items.map (fun s => Token.string (escapeRaw s.text)) ++ .closeArray :: rest) =
      items.map fun s => escape s.text.toList := by
  induction items with
  | nil => rw [List.map_nil, List.nil_append, arrayTokens, if_pos rfl, List.map_nil]
  | cons s items ih =>
    rw [List.map_cons, List.cons_append, arrayTokens, if_neg (by simp), ih]
    rfl

/-- After the key the strings of an array are collected, and nothing of other values. -/
theorem arrayTokens_value (key : Chars) (d : Datum) :
    arrayTokens key .keyRead ((d.element selfClosed).tokens ++ rest) = d.items.map fun s => escape s.toList := by
  have other {token : Token} (notOpen : token ≠ .openArray) (rest : List Token) :
      arrayTokens key .keyRead (token :: rest) = [] := by
    rw [arrayTokens, if_neg notOpen]
  cases d with
  | string s => exact other (by simp) _
  | bool b => exact other (by simp) _
  | strings items =>
    rw [Datum.element]
    split
    · rename_i empty
      rw [List.isEmpty_iff.mp (Bool.and_eq_true_iff.mp empty).2]
      exact other (by simp) _
    · rw [Element.tokens, List.cons_append, arrayTokens, if_pos rfl, strings_tokens, List.append_assoc,
        List.singleton_append, arrayTokens_inside, Datum.items, List.map_map]
      rfl
  | dict pairs =>
    rw [Datum.element]
    split
    · exact other (by simp) _
    · exact other (by simp) _

/-- The scan for an array over the tokens of a value stops at the first entry with the key. -/
theorem arrayTokens_tree (plain : PlainKey key) :
    (∀ (d : Datum) rest, arrayTokens key.toList .seeking ((d.element selfClosed).tokens ++ rest) =
      (firstDatum some key d.entries).elim (arrayTokens key.toList .seeking rest)
        fun d => d.items.map fun s => escape s.toList) ∧
    ∀ pairs rest, arrayTokens key.toList .seeking
        (Element.tokens.each (Datum.element.each selfClosed pairs) ++ rest) =
      (firstDatum some key (Datum.entries.each pairs)).elim (arrayTokens key.toList .seeking rest)
        fun d => d.items.map fun s => escape s.toList := by
  have pass {token : Token} (other : token.text ≠ keyTag key.toList) (rest : List Token) :
      arrayTokens key.toList .seeking (token :: rest) = arrayTokens key.toList .seeking rest := by
    rw [arrayTokens, if_neg other]
  have text (raw : Raw) : (Token.string raw).text ≠ keyTag key.toList := by simp [Token.text, keyTag, stringOpen]
  refine Datum.induction ?_ ?_ ?_ ?_ ?_ ?_
  · intro s rest
    exact pass (text _) rest
  · intro b rest
    exact pass (by cases b <;> simp [Token.text, keyTag]) rest
  · intro items rest
    have none : (Datum.strings items).entries = [] := rfl
    rw [Datum.element, none]
    split
    · exact pass (by simp [Token.text, keyTag]) rest
    · have strings : ∀ token ∈ items.map (fun s => Token.string (escapeRaw s.text)), token.text ≠ keyTag key.toList := by
        intro token member
        obtain ⟨s, _, rfl⟩ := List.mem_map.mp member
        exact text _
      rw [Element.tokens, strings_tokens, List.cons_append, pass (by simp [Token.text, keyTag, arrayOpen]), List.append_assoc,
        arrayTokens_front strings]
      exact pass (by simp [Token.text, keyTag, arrayClose]) rest
  · intro pairs ih rest
    rw [Datum.element]
    split
    · rename_i empty
      rw [List.isEmpty_iff.mp (Bool.and_eq_true_iff.mp empty).2]
      exact pass (by simp [Token.text, keyTag]) rest
    · rw [Element.tokens, List.cons_append, pass (by simp [Token.text, keyTag, dictOpen]), List.append_assoc, ih,
        List.singleton_append, pass (by simp [Token.text, keyTag, dictClose])]
      rfl
  · intro rest
    rfl
  · intro key' d pairs here there rest
    rw [Datum.element.each, Element.tokens.each, Datum.entries.each, List.cons_append, List.append_assoc, arrayTokens]
    have first : firstDatum some key ((key', d) :: (d.entries ++ Datum.entries.each pairs)) =
        if key' = key then some d else
          (firstDatum some key d.entries).or (firstDatum some key (Datum.entries.each pairs)) := by
      rw [firstDatum, List.findSome?_cons, List.findSome?_append]
      split
      · rename_i found
        split at found
        · rename_i same
          rw [if_pos same, found]
        · cases found
      · rename_i found
        split at found
        · cases found
        · rename_i other
          rw [if_neg other]
          rfl
    have tag : (Token.key (escapeRaw key')).text = keyTag key.toList ↔ key' = key :=
      keyTag_inj.trans (escapeRaw_eq_iff plain)
    rw [first]
    by_cases same : key' = key
    · rw [if_pos (tag.mpr same), if_pos same, arrayTokens_value]
      rfl
    · rw [if_neg (fun equal => same (tag.mp equal)), if_neg same, here, there]
      cases firstDatum some key d.entries <;> rfl

end Fields

/-- An Info.plist of a dictionary with distinct keys, as XML with one tag or text element on each line. -/
structure InfoDoc where
  attributes : Raw
  doctype : Option Raw
  version : Raw
  top : List (String × Datum)
  distinct : (top.map Prod.fst).Nodup
  selfClosed : Bool
  lines : List Line
  tokens : lines.map Line.token = docTokens attributes doctype version ((Datum.dict top).element selfClosed)

def InfoDoc.bytes (doc : InfoDoc) : Bytes := utf8 (docText doc.lines)

/-- All entries, in the order in which they are written. -/
def InfoDoc.deep (doc : InfoDoc) : List (String × Datum) := Datum.entries.each doc.top

/-- The header has no key. -/
theorem header_plain (attributes : Raw) (doctype : Option Raw) (version : Raw) (key : Chars) :
    ∀ token ∈ Token.xml attributes :: (doctype.toList.map .doctype ++ [.plist version]), token.text ≠ keyTag key := by
  intro token member
  simp only [List.mem_cons, List.mem_append, List.mem_map, List.not_mem_nil, or_false] at member
  rcases member with rfl | ⟨declaration, _, rfl⟩ | rfl
  · simp [Token.text, keyTag]
  · simp [Token.text, keyTag]
  · simp [Token.text, keyTag]

namespace InfoDoc
variable (doc : InfoDoc) {key : String}

theorem tokens_split : doc.lines.map Line.token =
    (Token.xml doc.attributes :: (doc.doctype.toList.map .doctype ++ [.plist doc.version])) ++
      (((Datum.dict doc.top).element doc.selfClosed).tokens ++ [.closePlist]) := by
  rw [doc.tokens, docTokens, List.cons_append, List.append_assoc, List.singleton_append]

theorem whole : ∀ line ∈ doc.lines, ∀ raw, line.token = .string raw → '\n' ∉ raw.text := by
  intro line member raw same
  have inside : line.token ∈ doc.lines.map Line.token := List.mem_map_of_mem member
  rw [doc.tokens, docTokens] at inside
  simp only [List.mem_cons, List.mem_append, List.mem_map, List.not_mem_nil, or_false, same, reduceCtorEq, false_or,
    and_false, exists_false] at inside
  exact (element_whole doc.selfClosed).1 (.dict doc.top) _ inside raw rfl

/-- A scan for a key finds the first value of the right kind, at any depth. -/
theorem scan {β γ : Type} {worth : Token → Option β} {value' : Datum → Option γ} {f : γ → β} (plain : PlainKey key)
    (value : Element → Option β) (heads : ∀ e token later, Element.tokens e = token :: later → worth token = value e)
    (agrees : ∀ d, value (Datum.element doc.selfClosed d) = (value' d).map f) :
    scanTokens worth key.toList false (doc.lines.map Line.token) = (firstDatum value' key doc.deep).map f := by
  have last : scanTokens worth key.toList false [Token.closePlist] = none := by
    rw [scanTokens_pass (by simp [Token.text, keyTag])]
    rfl
  have found : firstDatum (fun d => (value' d).map f) key doc.deep = (firstDatum value' key doc.deep).map f := by
    rw [firstDatum, firstDatum, List.map_findSome?]
    congr 1
    funext entry
    rw [Function.comp_apply]
    split <;> rfl
  rw [doc.tokens_split, scanTokens_front (header_plain _ _ _ _), (scanTokens_tree heads).1,
    (element_entries doc.selfClosed).1, firstOf_entries plain agrees, last, Option.or_none]
  exact found

theorem clean (plain : PlainKey key) : '<' ∉ key.toList ∧ '\n' ∉ key.toList :=
  ⟨fun member => (plain _ member).2.1 rfl, fun member => (plain _ member).2.2.2 rfl⟩

theorem string (plain : PlainKey key) :
    extractStringAfterKey (docText doc.lines) key.toList =
      (firstDatum Datum.string? key doc.deep).map fun s => escape s.toList := by
  rw [extractString_tokens rfl (clean plain).1 (clean plain).2 doc.whole]
  refine doc.scan plain Element.string? ?_ ?_
  · intro e token later split
    cases e <;> cases split <;> rfl
  · intro d
    cases d with
    | strings items | dict items =>
      rw [Datum.element]
      split <;> rfl
    | _ => rfl

theorem bool (plain : PlainKey key) :
    extractBoolAfterKey (docText doc.lines) key.toList = firstDatum Datum.bool? key doc.deep := by
  have same : (firstDatum Datum.bool? key doc.deep).map id = firstDatum Datum.bool? key doc.deep := Option.map_id'
  rw [extractBool_tokens rfl (clean plain).1 (clean plain).2, ← same]
  refine doc.scan plain Element.bool? ?_ ?_
  · intro e token later split
    cases e <;> cases split <;> rfl
  · intro d
    cases d with
    | strings items | dict items =>
      rw [Datum.element]
      split <;> rfl
    | _ => rfl

theorem array (plain : PlainKey key) :
    extractArrayAfterKey (docText doc.lines) key.toList =
      (firstDatum some key doc.deep).elim [] fun d => d.items.map fun s => escape s.toList := by
  have last : arrayTokens key.toList .seeking [Token.closePlist] = [] := by
    rw [arrayTokens, if_neg (by simp [Token.text, keyTag])]
    rfl
  rw [extractArrayAfterKey, arrayAfter_tokens (clean plain).1 (clean plain).2 doc.whole, doc.tokens_split,
    arrayTokens_front (header_plain _ _ _ _), (arrayTokens_tree plain).1, last]
  rfl

/-- The file is not taken for a binary one. -/
theorem not_binary : isBplist doc.bytes = false := by
  have first : ∃ line rest, doc.lines = line :: rest := by
    have split := doc.tokens
    cases lines : doc.lines with
    | nil =>
      rw [lines] at split
      cases split
    | cons line rest => exact ⟨line, rest, rfl⟩
  obtain ⟨line, rest, lines⟩ := first
  obtain ⟨tail, headed⟩ := line.token.text_head
  refine decide_eq_false fun magic => ?_
  have text : docText doc.lines = line.indent ++ '<' :: (line.token.second :: tail ++ '\n' :: docText rest) := by
    rw [lines, docText, List.flatMap_cons, Line.text, headed]
    simp [docText]
  have head : ∃ c more, docText doc.lines = c :: more ∧ (c = ' ' ∨ c = '\t' ∨ c = '<') := by
    rw [text]
    cases indent : line.indent with
    | nil => exact ⟨'<', _, rfl, by simp⟩
    | cons c blanks =>
      refine ⟨c, _, rfl, ?_⟩
      rcases line.blank c (indent ▸ List.mem_cons_self) with space | tab
      · exact .inl space
      · exact .inr (.inl tab)
  obtain ⟨c, more, starts, blank⟩ := head
  rw [InfoDoc.bytes, starts] at magic
  rcases blank with rfl | rfl | rfl
  · rw [utf8_cons (by decide), bplistMagic, List.cons_prefix_cons] at magic
    exact absurd magic.1 (by decide)
  · rw [utf8_cons (by decide), bplistMagic, List.cons_prefix_cons] at magic
    exact absurd magic.1 (by decide)
  · rw [utf8_cons (by decide), bplistMagic, List.cons_prefix_cons] at magic
    exact absurd magic.1 (by decide)

theorem parsed : parseInfoPlistBytes doc.bytes = .ok (parseInfoPlist (docText doc.lines)) := by
  have text := fromUtf8Lossy_utf8 (String.ofList (docText doc.lines))
  rw [String.toList_ofList] at text
  rw [parseInfoPlistBytes, doc.not_binary, InfoDoc.bytes, text, String.toList_ofList]
  rfl

end InfoDoc

theorem parseBplist_magic {bytes : Bytes} {root : BPlistValue} (decoded : parseBplist bytes = .ok root) :
    isBplist bytes = true := by
  unfold parseBplist at decoded
  by_cases short : bytes.length < 8 + 32
  · rw [if_pos short] at decoded
    cases decoded
  · by_cases magic : bytes.take 8 ≠ bplistMagic
    · rw [if_neg short, if_pos magic] at decoded
      cases decoded
    · exact decide_eq_true (not_not.mp magic ▸ List.take_prefix 8 bytes)

section Top
variable {top : List (String × Datum)}

theorem each_lookup (key : String) : (Datum.value.each top).lookup key = (top.lookup key).map Datum.value := by
  induction top with
  | nil => rfl
  | cons entry top ih =>
    rw [Datum.value.each, List.lookup_cons, List.lookup_cons, ih]
    split <;> rfl

theorem each_keys : (Datum.value.each top).map Prod.fst = top.map Prod.fst := by
  induction top with
  | nil => rfl
  | cons entry top ih => rw [Datum.value.each, List.map_cons, List.map_cons, ih]

/-- An entry of the dictionary itself is among those at any depth. -/
theorem top_deep {entry : String × Datum} (member : entry ∈ top) : entry ∈ Datum.entries.each top := by
  induction top with
  | nil => cases member
  | cons first rest ih =>
    rw [Datum.entries.each, List.mem_cons, List.mem_append]
    rcases List.mem_cons.mp member with here | later
    · exact .inl here
    · exact .inr (.inr (ih later))

variable (distinct : (top.map Prod.fst).Nodup) (key : String)
include distinct

theorem value_get : (Datum.dict top).value.get key = (top.lookup key).map Datum.value := by
  have keys : ((Datum.value.each top).map Prod.fst).Nodup := each_keys ▸ distinct
  rw [Datum.value, BPlistValue.get, OrderedMap.lookup_ofEntries keys, each_lookup]

theorem value_getString : (Datum.dict top).value.getString key = (top.lookup key).bind Datum.string? := by
  rw [BPlistValue.getString, value_get distinct]
  cases top.lookup key with
  | none => rfl
  | some d => cases d <;> rfl

theorem value_getBool : (Datum.dict top).value.getBool key = (top.lookup key).bind Datum.bool? := by
  rw [BPlistValue.getBool, value_get distinct]
  cases top.lookup key with
  | none => rfl
  | some d => cases d <;> rfl

theorem value_getArrayStrings :
    (Datum.dict top).value.getArrayStrings key = (top.lookup key).elim [] Datum.items := by
  rw [BPlistValue.getArrayStrings, value_get distinct]
  cases top.lookup key with
  | none => rfl
  | some d =>
    cases d with
    | strings items =>
      have strings : ∀ items : List OneLine,
          (items.map fun s => BPlistValue.str s.text).filterMap BPlistValue.str? = items.map OneLine.text := by
        intro items
        rw [List.filterMap_map]
        exact congrFun (@List.filterMap_eq_map' _ _ OneLine.text) items
      exact strings items
    | _ => rfl

/-- A value that is nowhere is not at the top. -/
theorem lookup_none {β : Type} {value : Datum → Option β} (none : firstDatum value key (Datum.entries.each top) = none) :
    (top.lookup key).bind value = .none := by
  cases found : top.lookup key with
  | none => rfl
  | some d =>
    have member := (OrderedMap.lookup_eq_some distinct).mp found
    have here := List.findSome?_eq_none_iff.mp none _ (top_deep member)
    rwa [if_pos rfl] at here

end Top

/-- A string whose first value at any depth is written as the value at the top. -/
def StringAgrees (top : List (String × Datum)) (key default : String) : Prop :=
  ∀ s, firstDatum Datum.string? key (Datum.entries.each top) = some s →
    String.ofList (escape s.toList) = ((top.lookup key).bind Datum.string?).getD default

def BoolAgrees (top : List (String × Datum)) (key : String) : Prop :=
  ∀ b, firstDatum Datum.bool? key (Datum.entries.each top) = some b →
    b = ((top.lookup key).bind Datum.bool?).getD false

/-- The first value of any kind has the item if the one at the top has it. -/
def ArrayAgrees (top : List (String × Datum)) (key item : String) : Prop :=
  ∀ d, firstDatum some key (Datum.entries.each top) = some d →
    (item ∈ d.items ↔ item ∈ (top.lookup key).elim [] Datum.items)

structure Agrees (top : List (String × Datum)) : Prop where
  identifier : StringAgrees top "CFBundleIdentifier" "unknown.bundle"
  executable : StringAgrees top "CFBundleExecutable" "AppBinary"
  name : StringAgrees top "CFBundleName" ""
  displayName : StringAgrees top "CFBundleDisplayName" ""
  arm64 : ArrayAgrees top "UIRequiredDeviceCapabilities" "arm64"
  osVersion : StringAgrees top "MinimumOSVersion" ""
  client : BoolAgrees top "com.apple.security.network.client"
  server : BoolAgrees top "com.apple.security.network.server"

section Agree
variable (doc : InfoDoc) {key : String} (plain : PlainKey key)
include plain

theorem string_iff (default : String) :
    stringOr (docText doc.lines) key default = ((Datum.dict doc.top).value.getString key).getD default ↔
      StringAgrees doc.top key default := by
  rw [stringOr, doc.string plain, value_getString doc.distinct, StringAgrees, InfoDoc.deep]
  cases found : firstDatum Datum.string? key (Datum.entries.each doc.top) with
  | none => simp [lookup_none doc.distinct key found]
  | some s => simp

theorem bool_iff :
    (extractBoolAfterKey (docText doc.lines) key.toList).getD false =
        ((Datum.dict doc.top).value.getBool key).getD false ↔ BoolAgrees doc.top key := by
  rw [doc.bool plain, value_getBool doc.distinct, BoolAgrees, InfoDoc.deep]
  cases found : firstDatum Datum.bool? key (Datum.entries.each doc.top) with
  | none => simp [lookup_none doc.distinct key found]
  | some b => simp

theorem array_iff {item : String} (written : PlainKey item) :
    ((extractArrayAfterKey (docText doc.lines) key.toList).any (· = item.toList)) =
        ((Datum.dict doc.top).value.getArrayStrings key).any (· = item) ↔ ArrayAgrees doc.top key item := by
  have same (d : Datum) : (d.items.map fun s => escape s.toList).any (· = item.toList) = true ↔ item ∈ d.items := by
    rw [List.any_map, List.any_eq_true]
    constructor
    · rintro ⟨s, member, equal⟩
      exact escapeRaw_eq_iff written |>.mp (of_decide_eq_true equal) ▸ member
    · intro member
      exact ⟨item, member, decide_eq_true ((escapeRaw_eq_iff written).mpr rfl)⟩
  have there (items : List String) : items.any (· = item) = true ↔ item ∈ items := by simp
  rw [doc.array plain, value_getArrayStrings doc.distinct, ArrayAgrees, InfoDoc.deep, Bool.eq_iff_iff, there]
  cases found : firstDatum some key (Datum.entries.each doc.top) with
  | none =>
    have absent : doc.top.lookup key = none := by
      have nowhere := lookup_none doc.distinct key found
      rwa [Option.bind_fun_some] at nowhere
    simp [absent]
  | some d => simp only [Option.elim, same, Option.some.injEq, forall_eq']

end Agree

theorem agree_keys : PlainKey "CFBundleIdentifier" ∧ PlainKey "CFBundleExecutable" ∧ PlainKey "CFBundleName" ∧
    PlainKey "CFBundleDisplayName" ∧ PlainKey "UIRequiredDeviceCapabilities" ∧ PlainKey "arm64" ∧
    PlainKey "MinimumOSVersion" ∧ PlainKey "com.apple.security.network.client" ∧
    PlainKey "com.apple.security.network.server" := by
  decide

/-- A text and a binary Info.plist of one dictionary give the same information if and only if
for each key the first value at any depth, as it is written, is the one at the top. -/
theorem info_agrees_iff (doc : InfoDoc) (bin : Bytes) (decoded : parseBplist bin = .ok (Datum.dict doc.top).value) :
    parseInfoPlistBytes doc.bytes = parseInfoPlistBytes bin ↔ Agrees doc.top := by
  obtain ⟨identifier, executable, name, displayName, capabilities, arm64, osVersion, client, server⟩ := agree_keys
  have binary : parseInfoPlistBytes bin = .ok (bundleInfoFromBplist (Datum.dict doc.top).value) := by
    rw [parseInfoPlistBytes, parseBplist_magic decoded, if_pos rfl, decoded]
    rfl
  rw [doc.parsed, binary, Except.ok.injEq, parseInfoPlist, bundleInfoFromBplist, BundleInfo.mk.injEq,
    string_iff doc identifier, string_iff doc executable, string_iff doc name, string_iff doc displayName,
    array_iff doc capabilities arm64, string_iff doc osVersion, bool_iff doc client, bool_iff doc server]
  exact ⟨fun ⟨a, b, c, d, e, f, g, h⟩ => ⟨a, b, c, d, e, f, g, h⟩, fun ⟨a, b, c, d, e, f, g, h⟩ => ⟨a, b, c, d, e, f, g, h⟩⟩

/-- An Info.plist with the name of the bundle only. -/
def nameInfo (name : OneLine) : InfoDoc where
  attributes := .declaration
  doctype := none
  version := .version
  top := [("CFBundleName", .string name)]
  distinct := List.nodup_singleton _
  selfClosed := false
  lines := [.flush (.xml .declaration), .flush (.plist .version), .flush .openDict,
    .tabbed (.key (escapeRaw "CFBundleName")), .tabbed (.string (escapeRaw name.text)), .flush .closeDict,
    .flush .closePlist]
  tokens := rfl

/-- The same as a binary property list, for a name of so many ASCII characters. -/
def nameBin (length : UInt8) (name : Bytes) : Bytes :=
  [0x62, 0x70, 0x6c, 0x69, 0x73, 0x74, 0x30, 0x30, 0xD1, 1, 2] ++
    [0x5C, 0x43, 0x46, 0x42, 0x75, 0x6E, 0x64, 0x6C, 0x65, 0x4E, 0x61, 0x6D, 0x65] ++ (0x50 + length) :: name ++
    [8, 11, 24, 0, 0, 0, 0, 0, 0, 1, 1, 0, 0, 0, 0, 0, 0, 0, 3, 0, 0, 0, 0, 0, 0, 0, 0, 0, 0, 0, 0, 0, 0, 0, 25 + length]

theorem info_agrees_iff_demo : parseInfoPlistBytes (nameInfo ⟨"Demo", by decide⟩).bytes =
      parseInfoPlistBytes (nameBin 4 [0x44, 0x65, 0x6D, 0x6F]) ↔ Agrees (nameInfo ⟨"Demo", by decide⟩).top :=
  info_agrees_iff (nameInfo ⟨"Demo", by decide⟩) (nameBin 4 [0x44, 0x65, 0x6D, 0x6F]) rfl

def ampersandName : OneLine := ⟨"A & B", by decide⟩

/-- A name with an ampersand is not read back as it was. -/
theorem ampersand_differs :
    ¬ ∀ (doc : InfoDoc) (bin : Bytes), parseBplist bin = .ok (Datum.dict doc.top).value →
      parseInfoPlistBytes doc.bytes = parseInfoPlistBytes bin := by
  intro all
  have same := all (nameInfo ampersandName) (nameBin 5 [0x41, 0x20, 0x26, 0x20, 0x42]) rfl
  rw [(nameInfo ampersandName).parsed, parseInfoPlistBytes, if_pos (by decide)] at same
  have binary : parseBplist (nameBin 5 [0x41, 0x20, 0x26, 0x20, 0x42]) =
      .ok (Datum.dict [("CFBundleName", .string ampersandName)]).value := rfl
  rw [binary] at same
  have name := congrArg BundleInfo.bundleName (Except.ok.inj same)
  exact absurd name (by decide)

end Bsdos.Plist
