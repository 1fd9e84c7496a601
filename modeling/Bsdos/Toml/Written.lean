import Bsdos.Toml.Grammar

namespace Bsdos.Toml
namespace Grammar
open Scanning

/-- A text that can be written into a document: it has no delete character, the one control
character that is not escaped. -/
def Clean (text : String) : Prop := ∀ c ∈ text.toList, c.toNat ≠ 0x7F

instance (text : String) : Decidable (Clean text) := List.decidableBAll _ _

theorem hexValue_upperHex {n : Nat} (digit : n < 16) : hexValue (upperHex n) = some n := by
  revert n
  decide

theorem step_code {left value digit : Nat} {c : Char} (hex : hexValue c = some digit) (cs : List Char) :
    step (.code (left + 2) value cs) c = ([], .code (left + 1) (16 * value + digit) cs) := by
  simp only [step, hex]
  rfl

theorem step_code_last {value digit : Nat} {c : Char} (hex : hexValue c = some digit) (cs : List Char) :
    step (.code 1 value cs) c = ([], coded (16 * value + digit) cs) := by
  simp only [step, hex]
  rfl

/-- The escape sequence of a control character. -/
theorem run_control {c : Char} (control : c.toNat < 0x20) (cs : List Char) :
    run step (.quoted cs) ['\\', 'u', '0', '0', upperHex (c.toNat / 16), upperHex (c.toNat % 16)] =
      ([], .quoted (c :: cs)) := by
  have zero : hexValue '0' = some 0 := by decide
  have high := @hexValue_upperHex (c.toNat / 16) (by omega)
  have low := @hexValue_upperHex (c.toNat % 16) (by omega)
  have value : 16 * (16 * (16 * (16 * 0 + 0) + 0) + c.toNat / 16) + c.toNat % 16 = c.toNat := by omega
  have ends : coded c.toNat cs = .quoted (c :: cs) := by
    unfold coded
    rw [if_pos (Or.inl (by omega)), Char.ofNat_toNat]
  have last := @step_code_last (16 * (16 * (16 * 0 + 0) + 0) + c.toNat / 16) _ _ low cs
  rw [value, ends] at last
  have opens : run step (.quoted cs) ['\\', 'u'] = ([], .code 4 0 cs) := rfl
  exact run_then opens (run_cons (step_code zero cs) (run_cons (step_code zero cs) (run_cons (step_code high cs)
    (run_cons last rfl))))

theorem run_escape {c : Char} (clean : c.toNat ≠ 0x7F) (cs : List Char) :
    run step (.quoted cs) (escape c) = ([], .quoted (c :: cs)) := by
  unfold escape
  by_cases backslash : c = '\\'
  · subst backslash; rfl
  by_cases quote : c = '"'
  · subst quote; rfl
  by_cases newline : c = '\n'
  · subst newline; rfl
  by_cases return_ : c = '\r'
  · subst return_; rfl
  by_cases tab : c = '\t'
  · subst tab; rfl
  rw [if_neg backslash, if_neg quote, if_neg newline, if_neg return_, if_neg tab]
  by_cases control : c.toNat < 0x20
  · rw [if_pos control]
    exact run_control control cs
  · have text : isText c = true := by
      simp only [isText, Bool.or_eq_true, Bool.and_eq_true, decide_eq_true_eq]
      exact Or.inr ⟨by omega, clean⟩
    rw [if_neg control]
    simp only [run, step, if_neg quote, if_neg backslash, if_pos text, List.append_nil]

theorem run_escaped {text : List Char} (clean : ∀ c ∈ text, c.toNat ≠ 0x7F) (cs : List Char) :
    run step (.quoted cs) (text.flatMap escape) = ([], .quoted (text.reverse ++ cs)) := by
  induction text generalizing cs with
  | nil => rfl
  | cons c text ih =>
    rw [List.flatMap_cons, List.reverse_cons, List.append_assoc]
    exact run_then (run_escape (clean c (List.mem_cons_self ..)) cs)
      (ih (fun c' member => clean c' (List.mem_cons_of_mem _ member)) (c :: cs))

theorem run_basicString {text : String} (clean : Clean text) :
    run step .between (basicString text).toList = ([.text text.toList], .between) := by
  have opens : run step .between ['"'] = ([], .quoted []) := rfl
  have closes (cs : List Char) : run step (.quoted cs) ['"'] = ([.text cs.reverse], .between) := rfl
  have whole := run_then opens (run_then (run_escaped clean []) (closes _))
  rw [List.append_nil, List.reverse_reverse] at whole
  unfold basicString
  rw [String.toList_append, String.toList_append, List.append_assoc]
  exact (congrArg (fun cs => run step .between (['"'] ++ (cs ++ ['"']))) String.toList_ofList).trans whole

theorem isBare_start {c : Char} (bare : isBare c = true) : start c = ([], .word [c]) := by
  have other {c' : Char} (refused : isBare c' = false) : c ≠ c' := by
    rintro rfl
    rw [bare] at refused
    cases refused
  have blank : ¬(decide (c = ' ') || decide (c = '\t')) = true := by
    simp only [Bool.or_eq_true, decide_eq_true_eq, not_or]
    exact ⟨other (by decide), other (by decide)⟩
  unfold start
  rw [if_neg (other (by decide)), if_neg blank, if_neg (other (by decide)), if_neg (other (by decide)),
    if_neg (other (by decide)), if_neg (other (by decide)), if_neg (other (by decide)), if_neg (other (by decide)),
    if_pos bare]

theorem run_word {read cs : List Char} (bare : ∀ c ∈ cs, isBare c = true) :
    run step (.word read) cs = ([], .word (cs.reverse ++ read)) := by
  induction cs generalizing read with
  | nil => rfl
  | cons c cs ih =>
    rw [List.reverse_cons, List.append_assoc]
    have first : step (.word read) c = ([], .word (c :: read)) := if_pos (bare c (List.mem_cons_self ..))
    exact run_cons first (@ih (c :: read) fun c' member => bare c' (List.mem_cons_of_mem _ member))

/-- A bare key, up to the character that ends it. -/
theorem run_key {key : String} (bare : Bare key) {c : Char} {rest : List Char} {out : List Token} {mode : Mode}
    (ends : isBare c = false) (after : run step .between (c :: rest) = (out, mode)) :
    run step .between (key.toList ++ c :: rest) = (.word key.toList :: out, mode) := by
  have letters : ∀ c ∈ key.toList, isBare c = true := by
    intro c member
    have kinds := bare.2 c member
    simp only [isBare, Bool.or_eq_true, decide_eq_true_eq]
    rcases kinds with letter | hyphen | underscore
    · exact Or.inl (Or.inl letter)
    · exact Or.inl (Or.inr hyphen)
    · exact Or.inr underscore
  have filled : key.toList ≠ [] := fun none => bare.1 (String.toList_eq_nil_iff.mp none)
  have stops (cs : List Char) : run step (.word cs) (c :: rest) = (.word cs.reverse :: out, mode) := by
    refine Eq.trans ?_ (congrArg (fun read : List Token × Mode => (Token.word cs.reverse :: read.1, read.2)) after)
    simp only [run, step, ends, Bool.false_eq_true, if_false, List.cons_append]
  cases cut : key.toList with
  | nil => exact absurd cut filled
  | cons first more =>
    rw [cut] at letters
    have read := @run_word [first] more fun c member => letters c (List.mem_cons_of_mem _ member)
    have front : run step .between (first :: more) = ([], .word (more.reverse ++ [first])) :=
      run_cons (show step .between first = ([], .word [first]) from isBare_start (letters first (List.mem_cons_self ..))) read
    rw [run_then front (stops _)]
    simp

/-- The values that are read: strings that can be written, booleans, and arrays of such strings. -/
def Plain : Scalar → Prop
  | .string text => Clean text
  | .boolean _ => True
  | .strings texts => ∀ text ∈ texts, Clean text
  | .integer _ => False

def itemTokens : List String → List Token
  | [] => []
  | [text] => [.text text.toList]
  | text :: texts => .text text.toList :: .comma :: itemTokens texts

def valueTokens : Scalar → List Token
  | .string text => [.text text.toList]
  | .boolean b => [.word (if b then "true" else "false").toList]
  | .strings texts => .openBracket :: (itemTokens texts ++ [.closeBracket])
  | .integer _ => []

theorem run_items {texts : List String} (clean : ∀ text ∈ texts, Clean text) :
    run step .between (", ".intercalate (texts.map basicString)).toList = (itemTokens texts, .between) := by
  have comma : run step .between ", ".toList = ([.comma], .between) := rfl
  induction texts with
  | nil => rfl
  | cons text texts ih =>
    have first := run_basicString (clean text (List.mem_cons_self ..))
    have later := ih fun text' member => clean text' (List.mem_cons_of_mem _ member)
    cases texts with
    | nil =>
      rw [List.map_singleton, String.intercalate_singleton]
      exact first
    | cons text' texts =>
      rw [List.map_cons, String.intercalate_cons_of_ne_nil (by simp), String.toList_append, String.toList_append]
      exact run_then (run_then first comma) later

theorem readItems_items {text : String} {texts : List String} :
    readItems (itemTokens (text :: texts) ++ [.closeBracket]) = some (text :: texts) := by
  induction texts generalizing text with
  | nil => exact congrArg (fun text => some [text]) String.ofList_toList
  | cons text' texts ih =>
    have unfolded : itemTokens (text :: text' :: texts) ++ [.closeBracket] =
        .text text.toList :: .comma :: (itemTokens (text' :: texts) ++ [.closeBracket]) := rfl
    rw [unfolded, readItems, ih, Option.map_some, String.ofList_toList]

/-- A value and the end of its line. -/
theorem run_value {value : Scalar} (plain : Plain value) :
    run step .between (value.text.toList ++ ['\n']) = (valueTokens value ++ [.newline], .between) := by
  have ends : run step .between ['\n'] = ([.newline], .between) := rfl
  cases value with
  | string text => exact run_then (run_basicString plain) ends
  | boolean b => cases b <;> decide
  | strings texts =>
    have opens : run step .between "[".toList = ([.openBracket], .between) := rfl
    have closes : run step .between "]".toList = ([.closeBracket], .between) := rfl
    rw [Scalar.text, String.toList_append, String.toList_append]
    exact run_then (run_then (run_then opens (run_items plain)) closes) ends
  | integer n => exact plain.elim

theorem readValue_tokens {value : Scalar} (plain : Plain value) : readValue (valueTokens value) = some value.value := by
  cases value with
  | string text => exact congrArg (fun text => some (Value.string text)) String.ofList_toList
  | boolean b => cases b <;> rfl
  | strings texts =>
    cases texts with
    | nil => rfl
    | cons text texts =>
      have bracket : readValue (valueTokens (.strings (text :: texts))) =
          (readItems (itemTokens (text :: texts) ++ [.closeBracket])).map fun texts => .array (texts.map .string) := by
        cases texts <;> rfl
      rw [bracket, readItems_items]
      rfl
  | integer n => exact plain.elim

theorem valueTokens_line (value : Scalar) : Token.newline ∉ valueTokens value := by
  have items (texts : List String) : Token.newline ∉ itemTokens texts := by
    induction texts with
    | nil => exact List.not_mem_nil
    | cons text texts ih =>
      cases texts with
      | nil => simp [itemTokens]
      | cons text' texts => simpa [itemTokens] using ih
  cases value with
  | strings texts => simpa [valueTokens] using items texts
  | _ => simp [valueTokens]

theorem cut_cons {token : Token} (other : token ≠ .newline) (rest : List Token) :
    cut (token :: rest) = (token :: (cut rest).headD []) :: (cut rest).tail := by
  cases token with
  | newline => exact absurd rfl other
  | _ => rfl

theorem cut_line {line : List Token} (free : Token.newline ∉ line) (rest : List Token) :
    cut (line ++ .newline :: rest) = line :: cut rest := by
  induction line with
  | nil => rfl
  | cons token line ih =>
    have later := ih fun member => free (List.mem_cons_of_mem _ member)
    have other : token ≠ .newline := fun same => free (same ▸ List.mem_cons_self ..)
    rw [List.cons_append, cut_cons other, later, List.headD_cons, List.tail_cons]

/-- A line comes before the lines after it. -/
theorem readLines_line {line : List Token} {l : Line} (free : Token.newline ∉ line) (read : readLine line = some l)
    (rest : List Token) : readLines (line ++ .newline :: rest) =
      ((cut rest).mapM readLine).bind fun lines => assemble (l :: lines) := by
  unfold readLines
  rw [cut_line free, List.mapM_cons, read]
  cases (cut rest).mapM readLine <;> rfl

section lines
variable {rest : List Token} {entries tables : Table}

theorem readLines_blank : readLines (.newline :: rest) = readLines rest :=
  (@readLines_line [] .blank List.not_mem_nil rfl rest).trans rfl

theorem readLines_entry {key : String} {value : Scalar} (plain : Plain value)
    (read : readLines rest = some (entries, tables)) (fresh : key ∉ entries.map Prod.fst) :
    readLines (.word key.toList :: .equals :: (valueTokens value ++ .newline :: rest)) =
      some ((key, value.value) :: entries, tables) := by
  have free : Token.newline ∉ Token.word key.toList :: .equals :: valueTokens value := by
    simpa using valueTokens_line value
  have line : readLine (.word key.toList :: .equals :: valueTokens value) = some (.entry key value.value) := by
    rw [readLine, readValue_tokens plain, String.ofList_toList]
    rfl
  have whole := readLines_line free line rest
  obtain ⟨lines, found, assembled⟩ := Option.bind_eq_some_iff.mp read
  rw [found] at whole
  refine whole.trans ?_
  rw [Option.bind_some, assemble, assembled, Option.bind_some, if_neg fresh]

theorem readLines_header {name : String} (read : readLines rest = some (entries, tables))
    (fresh : name ∉ tables.map Prod.fst) :
    readLines (.openBracket :: .word name.toList :: .closeBracket :: .newline :: rest) =
      some ([], (name, .table entries) :: tables) := by
  have line : readLine [.openBracket, .word name.toList, .closeBracket] = some (.header name) := by
    rw [readLine, String.ofList_toList]
  have whole := readLines_line (by simp) line rest
  obtain ⟨lines, found, assembled⟩ := Option.bind_eq_some_iff.mp read
  rw [found] at whole
  refine whole.trans ?_
  rw [Option.bind_some, assemble, assembled, Option.bind_some, if_neg fresh]

end lines

/-- The tokens of an entry, and of a table. -/
def entryTokens (entry : String × Scalar) : List Token :=
  .word entry.1.toList :: .equals :: (valueTokens entry.2 ++ [.newline])

def sectionTokens (s : Section) : List Token :=
  .openBracket :: .word s.1.toList :: .closeBracket :: .newline :: (s.2.flatMap entryTokens ++ [.newline])

/-- A table that can be written: bare keys, each of them once, and values that are read. -/
structure WrittenSection (s : Section) : Prop where
  name : Bare s.1
  keys : ∀ entry ∈ s.2, Bare entry.1
  once : (s.2.map Prod.fst).Nodup
  plain : ∀ entry ∈ s.2, Plain entry.2

theorem WrittenSection.of_keys {name : String} {entries : List (String × Scalar)} {keys : List String}
    (same : entries.map Prod.fst = keys) (bare : Bare name ∧ (∀ key ∈ keys, Bare key) ∧ keys.Nodup)
    (plain : ∀ entry ∈ entries, Plain entry.2) : WrittenSection (name, entries) where
  name := bare.1
  keys entry member := bare.2.1 entry.1 (same ▸ List.mem_map_of_mem member)
  once := same ▸ bare.2.2
  plain := plain

theorem run_entry {entry : String × Scalar} (key : Bare entry.1) (plain : Plain entry.2) :
    run step .between (entry.1 ++ " = " ++ entry.2.text ++ "\n").toList = (entryTokens entry, .between) := by
  have equals : run step .between ['=', ' '] = ([.equals], .between) := rfl
  have after : run step .between (' ' :: (['=', ' '] ++ (entry.2.text.toList ++ ['\n']))) =
      (.equals :: (valueTokens entry.2 ++ [.newline]), .between) :=
    run_cons (show step .between ' ' = ([], .between) from rfl) (run_then equals (run_value plain))
  have whole := run_key key (by decide) after
  simp only [String.toList_append, List.append_assoc]
  exact whole

theorem run_section {s : Section} (written : WrittenSection s) :
    run step .between s.text.toList = (sectionTokens s, .between) := by
  have opens : run step .between "[".toList = ([.openBracket], .between) := rfl
  have ends : run step .between [']', '\n'] = ([.closeBracket, .newline], .between) := rfl
  have name := run_key written.name (by decide) ends
  have entries := run_flatMap (fun entry member => run_entry (written.keys entry member) (written.plain entry member))
  have blank : run step .between "\n".toList = ([.newline], .between) := rfl
  have whole := run_then (run_then (run_then opens name) entries) blank
  unfold Section.text
  simp only [String.toList_append, String.toList_join, List.flatMap_map, List.append_assoc] at whole ⊢
  exact whole

theorem readLines_entries {entries : List (String × Scalar)} {rest : List Token} {tables : Table}
    (read : readLines rest = some ([], tables)) (once : (entries.map Prod.fst).Nodup)
    (plain : ∀ entry ∈ entries, Plain entry.2) : readLines (entries.flatMap entryTokens ++ rest) =
      some (entries.map fun entry => (entry.1, entry.2.value), tables) := by
  induction entries with
  | nil => exact read
  | cons entry entries ih =>
    rw [List.map_cons, List.nodup_cons] at once
    have later := ih once.2 fun entry' member => plain entry' (List.mem_cons_of_mem _ member)
    have fresh : entry.1 ∉ (entries.map fun entry => (entry.1, entry.2.value)).map Prod.fst := by
      rw [List.map_map]
      exact once.1
    have whole := readLines_entry (plain entry (List.mem_cons_self ..)) later fresh
    rw [List.flatMap_cons, List.append_assoc, entryTokens]
    simp only [List.cons_append, List.append_assoc, List.nil_append]
    exact whole

theorem readLines_sections {sections : List Section} (written : ∀ s ∈ sections, WrittenSection s)
    (once : (sections.map Prod.fst).Nodup) :
    readLines (sections.flatMap sectionTokens) = some ([], document sections) := by
  induction sections with
  | nil => rfl
  | cons s sections ih =>
    rw [List.map_cons, List.nodup_cons] at once
    have later := ih (fun s' member => written s' (List.mem_cons_of_mem _ member)) once.2
    have here := written s (List.mem_cons_self ..)
    have entries := readLines_entries (readLines_blank.trans later) here.once here.plain
    have fresh : s.1 ∉ (document sections).map Prod.fst := by
      unfold document
      rw [List.map_map]
      exact once.1
    have whole := readLines_header entries fresh
    rw [List.flatMap_cons, sectionTokens]
    simp only [List.cons_append, List.append_assoc, List.nil_append]
    exact whole

/-- A document that can be written: comments of one line without control characters, tables
that can be written, and each name once. -/
structure Written (comments : List String) (sections : List Section) : Prop where
  comments : ∀ comment ∈ comments, ∀ c ∈ comment.toList, isText c = true
  each : ∀ s ∈ sections, WrittenSection s
  once : (sections.map Prod.fst).Nodup

theorem run_comment {comment : String} (text : ∀ c ∈ comment.toList, isText c = true) :
    run step .between ("# " ++ comment ++ "\n").toList = ([.newline], .between) := by
  have opens : run step .between "# ".toList = ([], .comment) := rfl
  have ends : run step .comment "\n".toList = ([.newline], .between) := rfl
  have inside (cs : List Char) (text : ∀ c ∈ cs, isText c = true) : run step .comment cs = ([], .comment) := by
    induction cs with
    | nil => rfl
    | cons c cs ih =>
      have newline : c ≠ '\n' := by
        rintro rfl
        exact absurd (text _ (List.mem_cons_self ..)) (by decide)
      have first : step .comment c = ([], .comment) := by
        rw [step, if_neg newline, if_pos (text c (List.mem_cons_self ..))]
      exact run_cons first (ih fun c' member => text c' (List.mem_cons_of_mem _ member))
  rw [String.toList_append, String.toList_append]
  exact run_then (run_then opens (inside _ text)) ends

theorem readLines_comments {comments : List String} {rest : List Token} :
    readLines (comments.flatMap (fun _ => [Token.newline]) ++ rest) = readLines rest := by
  induction comments with
  | nil => rfl
  | cons comment comments ih => exact readLines_blank.trans ih

/-- What can be written is read again. -/
theorem readDocument_written {comments : List String} {sections : List Section} (written : Written comments sections) :
    readDocument (documentText comments sections) = some (document sections) := by
  have front := run_flatMap fun comment member => run_comment (written.comments comment member)
  have blank : run step .between "\n".toList = ([.newline], .between) := rfl
  have tables := run_flatMap fun s member => run_section (written.each s member)
  have whole := run_then (run_then front blank) tables
  have text : (documentText comments sections).toList = comments.flatMap (fun comment => ("# " ++ comment ++ "\n").toList) ++
      "\n".toList ++ sections.flatMap fun s => s.text.toList := by
    unfold documentText
    simp only [String.toList_append, String.toList_join, List.flatMap_map]
  have lexed : lex (documentText comments sections).toList =
      some (comments.flatMap (fun _ => [Token.newline]) ++ [.newline] ++ sections.flatMap sectionTokens) := by
    unfold lex
    rw [text, whole]
    exact congrArg some (List.append_nil _)
  unfold readDocument
  rw [lexed, Option.bind_some, List.append_assoc, readLines_comments, List.singleton_append, readLines_blank,
    readLines_sections written.each written.once]
  rfl

theorem mem_escape {c : Char} (delete : c.toNat = 0x7F) : c ∈ escape c := by
  have same : c = Char.ofNat 0x7F := by rw [← delete, Char.ofNat_toNat]
  subst same
  decide

/-- A delete character in a string stands in the document. -/
theorem mem_documentText {comments : List String} {sections : List Section} {s : Section} {key text : String} {c : Char}
    (here : s ∈ sections) (entry : (key, .string text) ∈ s.2) (member : c ∈ text.toList) (delete : c.toNat = 0x7F) :
    c ∈ (documentText comments sections).toList := by
  have written : c ∈ (basicString text).toList := by
    unfold basicString
    simp only [String.toList_append, String.toList_ofList, List.mem_append, List.mem_flatMap]
    exact Or.inl (Or.inr ⟨c, member, mem_escape delete⟩)
  have listed : c ∈ s.text.toList := by
    unfold Section.text
    simp only [String.toList_append, String.toList_join, List.flatMap_map, List.mem_append, List.mem_flatMap]
    exact Or.inl (Or.inr ⟨_, entry, Or.inl (Or.inr written)⟩)
  unfold documentText
  simp only [String.toList_append, String.toList_join, List.flatMap_map, List.mem_append, List.mem_flatMap]
  exact Or.inr ⟨s, here, listed⟩

theorem clean_of_all {p : Char → Bool} {text : String} (delete : p (Char.ofNat 0x7F) = false)
    (all : ∀ c ∈ text.toList, p c = true) : Clean text := by
  intro c member same
  have known := all c member
  rw [← Char.ofNat_toNat c, same, delete] at known
  cases known

theorem clean_append {s t : String} : Clean (s ++ t) ↔ Clean s ∧ Clean t := by
  unfold Clean
  rw [String.toList_append]
  exact List.forall_mem_append

/-- The control characters that stand nowhere in a document. -/
def isForbidden (c : Char) : Bool := (c.toNat < 0x20 && c ≠ '\t' && c ≠ '\n' && c ≠ '\r') || c.toNat = 0x7F

theorem isForbidden_chars {c : Char} (forbidden : isForbidden c = true) : start c = ([], .refused) ∧ isText c = false ∧
    isBare c = false ∧ hexValue c = none ∧ c ≠ '\n' ∧ c ≠ '"' ∧ c ≠ '\\' ∧ c ∉ ['b', 't', 'n', 'f', 'r', 'u', 'U'] := by
  have kinds : ∀ n < 128, isForbidden (Char.ofNat n) = true → start (Char.ofNat n) = ([], .refused) ∧
      isText (Char.ofNat n) = false ∧ isBare (Char.ofNat n) = false ∧ hexValue (Char.ofNat n) = none := by
    decide
  have others : ∀ n < 128, isForbidden (Char.ofNat n) = true → Char.ofNat n ≠ '\n' ∧ Char.ofNat n ≠ '"' ∧
      Char.ofNat n ≠ '\\' ∧ Char.ofNat n ∉ ['b', 't', 'n', 'f', 'r', 'u', 'U'] := by
    decide
  have small : c.toNat < 128 := by
    simp only [isForbidden, Bool.or_eq_true, Bool.and_eq_true, decide_eq_true_eq] at forbidden
    omega
  have kind := kinds c.toNat small
  have other := others c.toNat small
  rw [Char.ofNat_toNat] at kind other
  obtain ⟨start, text, bare, hex⟩ := kind forbidden
  exact ⟨start, text, bare, hex, other forbidden⟩

theorem step_forbidden {c : Char} (forbidden : isForbidden c = true) (mode : Mode) : (step mode c).2 = .refused := by
  obtain ⟨start, text, bare, hex, newline, quote, backslash, letters⟩ := isForbidden_chars forbidden
  simp only [List.mem_cons, List.not_mem_nil, or_false, not_or] at letters
  obtain ⟨b, t, n, f, r, u, U⟩ := letters
  cases mode with
  | between => simp only [step, start]
  | comment => simp only [step, newline, text, if_false, Bool.false_eq_true]
  | word cs => simp only [step, bare, start, Bool.false_eq_true, if_false]
  | quoted cs => simp only [step, quote, backslash, text, if_false, Bool.false_eq_true]
  | escaped cs => simp only [step, afterBackslash, b, t, n, f, r, u, U, quote, backslash, if_false]
  | code left value cs => simp only [step, hex]
  | refused => rfl

theorem lex_forbidden {cs : List Char} {c : Char} (member : c ∈ cs) (forbidden : isForbidden c = true) : lex cs = none := by
  obtain ⟨front, back, rfl⟩ := List.append_of_mem member
  have ends : (run step .between (front ++ c :: back)).2 = .refused := by
    have stuck : run step .refused back = ([], .refused) := run_stuck fun _ => rfl
    rw [run_append, run, step_forbidden forbidden, stuck]
  rw [lex, ends]
  rfl

end Grammar

/-- A reader of TOML 1.0 takes what the grammar above takes, and for the same, and it takes no
text with a control character that may stand nowhere. -/
structure Library.Standard (toml : Library) : Prop where
  reads : ∀ s doc, Grammar.readDocument s = some doc → toml.parse s = some doc
  refuses : ∀ s, ∀ c ∈ s.toList, Grammar.isForbidden c = true → toml.parse s = none

/-- A reader of that grammar and of nothing else. -/
def Library.grammar : Library := ⟨Grammar.readDocument, fun _ => "TOML parse error at line 1, column 1"⟩

theorem Library.grammar_standard : Library.grammar.Standard where
  reads _ _ read := read
  refuses s c member forbidden := by
    show Grammar.readDocument s = none
    rw [Grammar.readDocument, Grammar.lex_forbidden member forbidden]
    rfl

end Bsdos.Toml
