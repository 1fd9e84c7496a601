import Mathlib.Data.List.Infix
import Mathlib.Tactic.Common

namespace Conf

inductive Token
  | text (cs : List Char)
  | assign
  | semicolon
  | openBrace
  | closeBrace
  deriving DecidableEq, Repr

/-- Where a reader stands: between two tokens, in a word, after a slash that may open a
comment, in a comment, in a quoted string, or after a backslash in one. The characters of
the token being read come last first. -/
inductive Mode
  | between
  | word (cs : List Char)
  | slash (cs : List Char)
  | comment
  | quoted (cs : List Char)
  | escaped (cs : List Char)
  deriving DecidableEq, Repr

def escape : Char → Char
  | 'n' => '\n'
  | 'r' => '\r'
  | 't' => '\t'
  | c => c

def isBlank (c : Char) : Bool := c = ' ' ∨ c = '\t' ∨ c = '\r' ∨ c = '\n'

/-- The characters that can begin a word, a slash apart. -/
def isPlain (c : Char) : Bool :=
  !isBlank c && c ≠ '#' && c ≠ '"' && c ≠ '/' && c ≠ '{' && c ≠ '}' && c ≠ '=' && c ≠ ';'

/-- A character that belongs to no token being read. -/
def start (c : Char) : List Token × Mode :=
  if isBlank c then ([], .between)
  else match c with
    | '#' => ([], .comment)
    | '"' => ([], .quoted [])
    | '/' => ([], .slash [])
    | '{' => ([.openBrace], .between)
    | '}' => ([.closeBrace], .between)
    | '=' => ([.assign], .between)
    | ';' => ([.semicolon], .between)
    | c => ([], .word [c])

/-- A character after those of a word. -/
def inWord (cs : List Char) (c : Char) : List Token × Mode :=
  if isPlain c then ([], .word (c :: cs))
  else if c = '/' then ([], .slash cs)
  else (.text cs.reverse :: (start c).1, (start c).2)

def step : Mode → Char → List Token × Mode
  | .between, c => start c
  | .word cs, c => inWord cs c
  | .slash cs, c =>
    if c = '/' then (if cs.isEmpty then [] else [.text cs.reverse], .comment)
    else inWord ('/' :: cs) c
  | .comment, c => ([], if c = '\n' then .between else .comment)
  | .quoted cs, c =>
    if c = '"' then ([.text cs.reverse], .between)
    else if c = '\\' then ([], .escaped cs)
    else ([], .quoted (c :: cs))
  | .escaped cs, c => ([], .quoted (escape c :: cs))

/-- The tokens that end within a text, and where it leaves the reader. -/
def run (mode : Mode) : List Char → List Token × Mode
  | [] => ([], mode)
  | c :: cs =>
    let first := step mode c
    let rest := run first.2 cs
    (first.1 ++ rest.1, rest.2)

/-- What the end of the text makes of the token being read. -/
def finish : Mode → Option (List Token)
  | .between | .comment => some []
  | .word cs => some [.text cs.reverse]
  | .slash cs => some [.text ('/' :: cs).reverse]
  | .quoted _ | .escaped _ => none

/-- The tokens of a text, where every string in it is closed. -/
def lex (mode : Mode) (cs : List Char) : Option (List Token) :=
  (finish (run mode cs).2).map ((run mode cs).1 ++ ·)

/-- A parameter: a flag, or a name with its value. -/
structure Param where
  name : List Char
  value : Option (List Char)
  deriving DecidableEq, Repr

inductive Item
  | param (p : Param)
  | block (name : List Char) (params : List Param)
  deriving DecidableEq, Repr

/-- The items of a file, given the block that is open, if one is. -/
def parse : Option (List Char × List Param) → List Token → Option (List Item)
  | none, [] => some []
  | some (name, params), .closeBrace :: rest => (parse none rest).map (.block name params :: ·)
  | none, .text name :: .openBrace :: rest => parse (some (name, [])) rest
  | none, .text name :: .semicolon :: rest => (parse none rest).map (.param ⟨name, none⟩ :: ·)
  | some (block, params), .text name :: .semicolon :: rest => parse (some (block, params ++ [⟨name, none⟩])) rest
  | none, .text name :: .assign :: .text value :: .semicolon :: rest =>
    (parse none rest).map (.param ⟨name, some value⟩ :: ·)
  | some (block, params), .text name :: .assign :: .text value :: .semicolon :: rest =>
    parse (some (block, params ++ [⟨name, some value⟩])) rest
  | _, _ => none

/-- The items a text is read as. -/
def read (cs : List Char) : Option (List Item) := (lex .between cs).bind (parse none)

def Param.tokens (p : Param) : List Token :=
  match p.value with
  | none => [.text p.name, .semicolon]
  | some value => [.text p.name, .assign, .text value, .semicolon]

def Item.tokens : Item → List Token
  | .param p => p.tokens
  | .block name params => .text name :: .openBrace :: (params.flatMap Param.tokens ++ [.closeBrace])

attribute [grind =] run step start inWord isPlain finish parse

theorem run_append (mode : Mode) (cs cs' : List Char) :
    run mode (cs ++ cs') = ((run mode cs).1 ++ (run (run mode cs).2 cs').1, (run (run mode cs).2 cs').2) := by
  induction cs generalizing mode with
  | nil => rfl
  | cons c cs ih => simp only [List.cons_append, run, ih, List.append_assoc]

theorem lex_append (mode : Mode) (cs cs' : List Char) :
    lex mode (cs ++ cs') = (lex (run mode cs).2 cs').map ((run mode cs).1 ++ ·) := by
  unfold lex
  rw [run_append]
  cases finish (run (run mode cs).2 cs').2 with
  | none => rfl
  | some last => simp only [Option.map_some, List.append_assoc]

theorem run_then {mode mode' mode'' : Mode} {cs cs' : List Char} {tokens tokens' : List Token}
    (first : run mode cs = (tokens, mode')) (second : run mode' cs' = (tokens', mode'')) :
    run mode (cs ++ cs') = (tokens ++ tokens', mode'') := by
  rw [run_append, first, second]

/-- The tokens before a point come before those after it. -/
theorem lex_after {mode mode' : Mode} {cs cs' : List Char} {tokens : List Token}
    (ran : run mode cs = (tokens, mode')) : lex mode (cs ++ cs') = (lex mode' cs').map (tokens ++ ·) := by
  rw [lex_append, ran]

theorem run_comment {cs : List Char} (line : '\n' ∉ cs) : run .comment cs = ([], .comment) := by
  induction cs with
  | nil => rfl
  | cons c cs ih =>
    have stays : c ≠ '\n' := fun same => line (same ▸ List.mem_cons_self ..)
    simp only [run, step, if_neg stays, ih fun later => line (List.mem_cons_of_mem _ later), List.nil_append]

theorem run_quoted {read cs : List Char} (quote : '"' ∉ cs) (backslash : '\\' ∉ cs) :
    run (.quoted read) cs = ([], .quoted (cs.reverse ++ read)) := by
  induction cs generalizing read with
  | nil => rfl
  | cons c cs ih =>
    have open_ : c ≠ '"' := fun same => quote (same ▸ List.mem_cons_self ..)
    have plain : c ≠ '\\' := fun same => backslash (same ▸ List.mem_cons_self ..)
    simp only [run, step, if_neg open_, if_neg plain, List.nil_append, List.reverse_cons, List.append_assoc,
      ih (fun later => quote (List.mem_cons_of_mem _ later)) fun later => backslash (List.mem_cons_of_mem _ later),
      List.singleton_append]

theorem run_word {read cs : List Char} (plain : ∀ c ∈ cs, isPlain c = true) :
    run (.word read) cs = ([], .word (cs.reverse ++ read)) := by
  induction cs generalizing read with
  | nil => rfl
  | cons c cs ih =>
    have first := plain c (List.mem_cons_self ..)
    simp only [run, step, inWord, first, if_true, List.nil_append, List.reverse_cons, List.append_assoc,
      ih fun c' later => plain c' (List.mem_cons_of_mem _ later), List.singleton_append]

/-- A word ends before a character that is no part of one. -/
theorem run_word_end {read cs : List Char} {tokens : List Token} {mode : Mode}
    (ends : cs.head?.any (fun c => !isPlain c && c ≠ '/') = true) (after : run .between cs = (tokens, mode)) :
    run (.word read) cs = (.text read.reverse :: tokens, mode) := by
  cases cs with
  | nil => cases ends
  | cons c cs =>
    simp only [List.head?_cons, Option.any_some, Bool.and_eq_true, Bool.not_eq_true', decide_eq_true_eq] at ends
    simp only [run, step] at after
    simp only [run, step, inWord, ends.1, if_neg ends.2]
    cases after
    rfl

theorem run_quote {read cs tokens : List _} {mode : Mode} (closes : cs.head? = some '"')
    (after : run .between cs.tail = (tokens, mode)) : run (.quoted read) cs = (.text read.reverse :: tokens, mode) := by
  obtain ⟨rest, rfl⟩ := List.head?_eq_some_iff.mp closes
  rw [List.tail_cons] at after
  simp only [run, step, if_true, after, List.singleton_append]

theorem start_plain {c : Char} (plain : isPlain c = true) : start c = ([], .word [c]) := by
  simp only [isPlain, Bool.and_eq_true, Bool.not_eq_true', decide_eq_true_eq] at plain
  obtain ⟨⟨⟨⟨⟨⟨⟨blank, hash⟩, quote⟩, slash⟩, opens⟩, closes⟩, assign⟩, semicolon⟩ := plain
  unfold start
  rw [blank]
  split
  · rename_i h
    cases h
  · split <;> first | contradiction | rfl

/-- A word read from between two tokens. -/
theorem run_between_word {c : Char} {cs : List Char} (plain : ∀ c' ∈ c :: cs, isPlain c' = true) :
    run .between (c :: cs) = ([], .word (c :: cs).reverse) := by
  have rest := @run_word [c] _ fun c' later => plain c' (List.mem_cons_of_mem _ later)
  simp only [run, step, start_plain (plain c (List.mem_cons_self ..)), rest, List.nil_append, List.reverse_cons]

theorem run_slash_word {read cs : List Char} (plain : ∀ c ∈ cs, isPlain c = true) (filled : cs ≠ []) :
    run (.slash read) cs = ([], .word (cs.reverse ++ '/' :: read)) := by
  cases cs with
  | nil => exact absurd rfl filled
  | cons c cs =>
    have first := plain c (List.mem_cons_self ..)
    have other : c ≠ '/' := by
      rintro rfl
      exact absurd first (by decide)
    have rest := @run_word (c :: '/' :: read) _ fun c' later => plain c' (List.mem_cons_of_mem _ later)
    simp only [run, step, inWord, if_neg other, first, if_true, rest, List.nil_append, List.reverse_cons,
      List.append_assoc, List.singleton_append]

/-- A line of comment text, and what follows it up to a line's end, holds no token. -/
theorem lex_comment_iff {cs : List Char} : lex .comment cs = some [] ↔ run .comment (cs ++ ['\n']) = ([], .between) := by
  rw [run_append, lex]
  cases ends : (run .comment cs).2 with
  | between | comment => simp [finish, run, step, start, isBlank]
  | word read => simp [finish, run, step, inWord, isPlain, start, isBlank]
  | slash read => simp [finish, run, step, inWord, isPlain, start, isBlank]
  | quoted read => simp [finish, run, step]
  | escaped read => simp [finish, run, step]

/-- At the end of a line a reader is between two tokens, unless a string goes on. -/
theorem run_line_end (mode : Mode) (cs : List Char) :
    (run mode (cs ++ ['\n'])).2 = .between ∨ ∃ read, (run mode (cs ++ ['\n'])).2 = .quoted read := by
  rw [run_append]
  cases (run mode cs).2 with
  | between | comment | word _ => exact Or.inl rfl
  | slash _ => exact Or.inl rfl
  | quoted read => exact Or.inr ⟨'\n' :: read, rfl⟩
  | escaped read => exact Or.inr ⟨'\n' :: read, rfl⟩

/-- A quoted string that came out shorter than `bound`: closed, or still open. -/
def Short (bound : Nat) (out : List Token × Mode) : Prop :=
  (∃ value rest, out.1 = .text value :: rest ∧ value.length < bound) ∨
    out.1 = [] ∧ ((∃ cs, out.2 = .quoted cs ∧ cs.length < bound) ∨ ∃ cs, out.2 = .escaped cs)

theorem Short.mono {bound bound' : Nat} {out : List Token × Mode} (short : Short bound out) (le : bound ≤ bound') :
    Short bound' out := by
  rcases short with ⟨value, rest, closed, less⟩ | ⟨none, ⟨cs, still, less⟩ | backslash⟩
  · exact Or.inl ⟨value, rest, closed, by omega⟩
  · exact Or.inr ⟨none, Or.inl ⟨cs, still, by omega⟩⟩
  · exact Or.inr ⟨none, Or.inr backslash⟩

/-- A quoted string is read as at most as many characters as it is written with. -/
theorem run_quoted_bound (cs : List Char) : ∀ read : List Char,
    Short (read.length + cs.length + 1) (run (.quoted read) cs) ∧
    Short (read.length + cs.length + 1) (run (.escaped read) cs) := by
  induction cs with
  | nil =>
    intro read
    exact ⟨Or.inr ⟨rfl, Or.inl ⟨read, rfl, Nat.lt_succ_self _⟩⟩, Or.inr ⟨rfl, Or.inr ⟨read, rfl⟩⟩⟩
  | cons c cs ih =>
    intro read
    have one_more {c' : Char} : Short (read.length + (c :: cs).length + 1) (run (.quoted (c' :: read)) cs) := by
      refine (ih (c' :: read)).1.mono ?_
      simp only [List.length_cons]
      omega
    refine ⟨?_, one_more⟩
    by_cases quote : c = '"'
    · refine Or.inl ⟨read.reverse, (run .between cs).1, ?_, ?_⟩
      · simp only [run, step, if_pos quote, List.singleton_append]
      · rw [List.length_reverse]
        omega
    by_cases backslash : c = '\\'
    · have after : run (.quoted read) (c :: cs) = run (.escaped read) cs := by
        simp only [run, step, if_neg quote, if_pos backslash, List.nil_append]
      rw [after]
      refine (ih read).2.mono ?_
      simp only [List.length_cons]
      omega
    · have after : run (.quoted read) (c :: cs) = run (.quoted (c :: read)) cs := by
        simp only [run, step, if_neg quote, if_neg backslash, List.nil_append]
      rw [after]
      exact one_more

/-- With a quote or a backslash among them, it is read as fewer. -/
theorem run_quoted_short {cs : List Char} (special : '"' ∈ cs ∨ '\\' ∈ cs) (read : List Char) :
    Short (read.length + cs.length) (run (.quoted read) cs) := by
  induction cs generalizing read with
  | nil => simp at special
  | cons c cs ih =>
    by_cases quote : c = '"'
    · refine Or.inl ⟨read.reverse, (run .between cs).1, ?_, ?_⟩
      · simp only [run, step, if_pos quote, List.singleton_append]
      · rw [List.length_reverse, List.length_cons]
        omega
    by_cases backslash : c = '\\'
    · have after : run (.quoted read) (c :: cs) = run (.escaped read) cs := by
        simp only [run, step, if_neg quote, if_pos backslash, List.nil_append]
      rw [after]
      exact (run_quoted_bound cs read).2
    · have after : run (.quoted read) (c :: cs) = run (.quoted (c :: read)) cs := by
        simp only [run, step, if_neg quote, if_neg backslash, List.nil_append]
      have later : '"' ∈ cs ∨ '\\' ∈ cs := by
        rcases special with member | member
        · exact Or.inl ((List.mem_cons.mp member).resolve_left fun same => quote same.symm)
        · exact Or.inr ((List.mem_cons.mp member).resolve_left fun same => backslash same.symm)
      rw [after]
      refine (ih later (c :: read)).mono ?_
      simp only [List.length_cons]
      omega

/-- These are the tokens of the items, those of an open block that are still to come first. -/
def Written (tokens : List Token) (items : List Item) : Option (List Char × List Param) → Prop
  | none => tokens = items.flatMap Item.tokens
  | some (name, params) => ∃ more rest, items = .block name (params ++ more) :: rest ∧
      tokens = more.flatMap Param.tokens ++ .closeBrace :: rest.flatMap Item.tokens

/-- Whatever is parsed was written as its own tokens. -/
theorem parse_written {current : Option (List Char × List Param)} {tokens : List Token} {items : List Item}
    (parsed : parse current tokens = some items) : Written tokens items current := by
  fun_induction parse current tokens generalizing items with
  | case1 => cases parsed; rfl
  | case2 name params rest ih =>
    obtain ⟨others, later, rfl⟩ := Option.map_eq_some_iff.mp parsed
    have rest_written : rest = others.flatMap Item.tokens := ih later
    exact ⟨[], others, by rw [List.append_nil], by rw [rest_written]; rfl⟩
  | case3 name rest ih =>
    obtain ⟨more, others, rfl, rfl⟩ := ih parsed
    simp only [Written, List.flatMap_cons, Item.tokens, List.nil_append, List.cons_append, List.append_assoc]
  | case4 name rest ih =>
    obtain ⟨others, later, rfl⟩ := Option.map_eq_some_iff.mp parsed
    have rest_written : rest = others.flatMap Item.tokens := ih later
    rw [rest_written]
    rfl
  | case5 block params name rest ih =>
    obtain ⟨more, others, rfl, rfl⟩ := ih parsed
    exact ⟨⟨name, none⟩ :: more, others, by rw [List.append_assoc]; rfl, rfl⟩
  | case6 name value rest ih =>
    obtain ⟨others, later, rfl⟩ := Option.map_eq_some_iff.mp parsed
    have rest_written : rest = others.flatMap Item.tokens := ih later
    rw [rest_written]
    rfl
  | case7 block params name value rest ih =>
    obtain ⟨more, others, rfl, rfl⟩ := ih parsed
    exact ⟨⟨name, some value⟩ :: more, others, by rw [List.append_assoc]; rfl, rfl⟩
  | case8 => simp_all

theorem parse_params {name : List Char} {params more : List Param} {rest : List Token} :
    parse (some (name, params)) (more.flatMap Param.tokens ++ .closeBrace :: rest) =
      (parse none rest).map (.block name (params ++ more) :: ·) := by
  induction more generalizing params with
  | nil => simp only [List.flatMap_nil, List.nil_append, parse, List.append_nil]
  | cons p more ih =>
    obtain ⟨key, value⟩ := p
    cases value with
    | none =>
      simp only [List.flatMap_cons, Param.tokens, List.cons_append, List.nil_append, parse, ih, List.append_assoc]
    | some value =>
      simp only [List.flatMap_cons, Param.tokens, List.cons_append, List.nil_append, parse, ih, List.append_assoc]

/-- Items are parsed back from their tokens. -/
theorem parse_complete (items : List Item) : parse none (items.flatMap Item.tokens) = some items := by
  induction items with
  | nil => rfl
  | cons item items ih =>
    cases item with
    | param p =>
      obtain ⟨name, value⟩ := p
      cases value with
      | none => simp only [List.flatMap_cons, Item.tokens, Param.tokens, List.cons_append, List.nil_append, parse, ih, Option.map_some]
      | some value =>
        simp only [List.flatMap_cons, Item.tokens, Param.tokens, List.cons_append, List.nil_append, parse, ih, Option.map_some]
    | block name params =>
      simp only [List.flatMap_cons, Item.tokens, List.cons_append, List.append_assoc, parse, parse_params, ih,
        List.nil_append, Option.map_some]

/-- A text is read as certain items exactly if its tokens are theirs. -/
theorem read_iff {cs : List Char} {items : List Item} :
    read cs = some items ↔ lex .between cs = some (items.flatMap Item.tokens) := by
  constructor
  · intro whole
    obtain ⟨tokens, lexed, parsed⟩ := Option.bind_eq_some_iff.mp whole
    have written : tokens = items.flatMap Item.tokens := parse_written parsed
    rw [lexed, written]
  · intro lexed
    rw [read, lexed, Option.bind_some, parse_complete]

end Conf
