import Mathlib.Algebra.GroupWithZero.Nat
import Mathlib.Data.List.Infix
import Mathlib.Tactic.Common

namespace Shell

/-- A character of a word: one that stands for itself, or one that begins an expansion or
belongs to a pattern. What an expansion comes to is not read. -/
inductive Part
  | literal (c : Char)
  | active (c : Char)
  deriving DecidableEq, Repr

inductive Token
  | word (parts : List Part)
  | operator (c : Char)
  deriving DecidableEq, Repr

/-- Where a reader stands: outside of quotations, after a backslash there, between single or
double quotes, after a backslash between double quotes, or in a comment. -/
inductive Mode
  | outer
  | escaped
  | single
  | double
  | doubleEscaped
  | comment
  deriving DecidableEq, Repr

/-- With the word being read, if one has begun. -/
structure State where
  mode : Mode
  word : Option (List Part)
  deriving DecidableEq, Repr

def State.parts (s : State) : List Part := s.word.getD []

/-- The word being read goes on. -/
def State.push (s : State) (mode : Mode) (parts : List Part) : State := ⟨mode, some (s.parts ++ parts)⟩

/-- The word being read ends. -/
def State.flush (s : State) : List Token := (s.word.map Token.word).toList

def isBlank (c : Char) : Bool := c = ' ' ∨ c = '\t'

/-- The characters that end a word and are tokens themselves; a newline ends a command. -/
def isOperator (c : Char) : Bool := c ∈ ['\n', '|', '&', ';', '<', '>', '(', ')']

/-- The characters that begin an expansion, also between double quotes. -/
def isExpansion (c : Char) : Bool := c = '$' ∨ c = '`'

/-- The characters of patterns. -/
def isPattern (c : Char) : Bool := c ∈ ['*', '?', '[']

/-- A character outside of quotations. -/
def outer (s : State) (c : Char) : List Token × State :=
  if isBlank c then (s.flush, ⟨.outer, none⟩)
  else if isOperator c then (s.flush ++ [.operator c], ⟨.outer, none⟩)
  else if c = '\\' then ([], ⟨.escaped, s.word⟩)
  else if c = '\'' then ([], s.push .single [])
  else if c = '"' then ([], s.push .double [])
  else if c = '#' ∧ s.word = none then ([], ⟨.comment, none⟩)
  else if isExpansion c ∨ isPattern c ∨ (c = '~' ∧ s.word = none) then ([], s.push .outer [.active c])
  else ([], s.push .outer [.literal c])

def step (s : State) (c : Char) : List Token × State :=
  match s.mode with
  | .outer => outer s c
  | .escaped => if c = '\n' then ([], ⟨.outer, s.word⟩) else ([], s.push .outer [.literal c])
  | .single => if c = '\'' then ([], s.push .outer []) else ([], s.push .single [.literal c])
  | .double =>
    if c = '"' then ([], s.push .outer [])
    else if c = '\\' then ([], s.push .doubleEscaped [])
    else if isExpansion c then ([], s.push .double [.active c])
    else ([], s.push .double [.literal c])
  | .doubleEscaped =>
    if c = '\n' then ([], s.push .double [])
    else if isExpansion c ∨ c = '"' ∨ c = '\\' then ([], s.push .double [.literal c])
    else ([], s.push .double [.literal '\\', .literal c])
  | .comment => if c = '\n' then ([.operator c], ⟨.outer, none⟩) else ([], s)

/-- The tokens of a text; one that ends within a quotation has none. -/
def lex (s : State) : List Char → Option (List Token)
  | [] => if s.mode = .outer ∨ s.mode = .comment then some s.flush else none
  | c :: cs => (lex (step s c).2 cs).map ((step s c).1 ++ ·)

/-- The tokens of a command line. -/
def read (line : String) : Option (List Token) := lex ⟨.outer, none⟩ line.toList

/-- A word that stands for itself. -/
def exactly (text : String) : Token := .word (text.toList.map Part.literal)

/-- A piece of a word as it is written. -/
inductive Piece
  | bare (text : String)
  | quoted (text : String)
  deriving DecidableEq, Repr

def Piece.chars : Piece → List Char
  | .bare text => text.toList
  | .quoted text => '\'' :: text.toList ++ ['\'']

/-- What the piece is meant to say. -/
def Piece.meant : Piece → List Char
  | .bare text | .quoted text => text.toList

abbrev Written := List Piece

def Written.chars (w : Written) : List Char := w.flatMap Piece.chars

def Written.meant (w : Written) : List Char := w.flatMap Piece.meant

/-- Words with a blank between any two. -/
def lineChars : List Written → List Char
  | [] => []
  | [w] => w.chars
  | w :: words => w.chars ++ ' ' :: lineChars words

/-- The words that a written line is meant to have. -/
def meant (words : List Written) : List Token := words.map fun w => .word (w.meant.map Part.literal)

theorem meant_nil : meant [] = [] := rfl

theorem meant_cons (w : Written) (words : List Written) : meant (w :: words) = .word (w.meant.map .literal) :: meant words := rfl

theorem meant_append (words words' : List Written) : meant (words ++ words') = meant words ++ meant words' := List.map_append

/-- A character that stands for itself outside of quotations, at least within a word. -/
def isOrdinary (c : Char) : Bool :=
  !isBlank c && !isOperator c && !isExpansion c && !isPattern c && c ≠ '\\' && c ≠ '\'' && c ≠ '"'

def Piece.Clean : Piece → Prop
  | .bare text => ∀ c ∈ text.toList, isOrdinary c
  | .quoted text => '\'' ∉ text.toList

/-- A written word that is there, whose pieces stand for themselves, and that does not look
like a comment or a home directory at its start. -/
structure Written.Clean (w : Written) : Prop where
  pieces : ∀ piece ∈ w, piece.Clean
  starts : ∃ c, w.chars.head? = some c ∧ c ≠ '#' ∧ c ≠ '~'

/-! Every character is paid for at most once: a quote in single quotation marks costs nothing,
any other character one, and so does each word, for the blank before it. A text that has
words worth all it pays for is written without backslashes and double quotes. -/

def Part.char : Part → Char
  | .literal c | .active c => c

def cost (c : Char) : Nat := if c = '\'' then 0 else 1

def price (cs : List Char) : Nat := (cs.map cost).sum

def worth (parts : List Part) : Nat := price (parts.map Part.char)

def Token.worth : Token → Nat
  | .word parts => Shell.worth parts + 1
  | .operator _ => 0

def worths (tokens : List Token) : Nat := (tokens.map Token.worth).sum

/-- What a backslash has paid before it is clear what it does. -/
def Mode.credit : Mode → Nat
  | .doubleEscaped => 1
  | _ => 0

/-- What has been paid and not been spent on a token. -/
def State.worth (s : State) : Nat := Shell.worth s.parts + 1 + s.mode.credit

/-- No part is a quote. -/
def Quoteless (parts : List Part) : Prop := ∀ p ∈ parts, p.char ≠ '\''

def Token.Quoteless : Token → Prop
  | .word parts => Shell.Quoteless parts
  | .operator _ => True

theorem cost_quote : cost '\'' = 0 := rfl

theorem cost_other {c : Char} (other : c ≠ '\'') : cost c = 1 := if_neg other

theorem price_append (cs cs' : List Char) : price (cs ++ cs') = price cs + price cs' := by
  simp only [price, List.map_append, List.sum_append]

theorem price_cons (c : Char) (cs : List Char) : price (c :: cs) = cost c + price cs := by
  simp only [price, List.map_cons, List.sum_cons]

theorem worth_append (parts parts' : List Part) : worth (parts ++ parts') = worth parts + worth parts' := by
  simp only [worth, List.map_append, price_append]

theorem worth_literal (cs : List Char) : worth (cs.map .literal) = price cs := by
  have same : (cs.map Part.literal).map Part.char = cs := by
    rw [List.map_map]
    exact List.map_id'' (fun _ => rfl) cs
  unfold worth
  rw [same]

theorem worth_nil : worth [] = 0 := rfl

theorem worth_cons (p : Part) (parts : List Part) : worth (p :: parts) = cost p.char + worth parts := price_cons ..

theorem worths_nil : worths [] = 0 := rfl

theorem worths_cons (token : Token) (tokens : List Token) : worths (token :: tokens) = token.worth + worths tokens := by
  simp only [worths, List.map_cons, List.sum_cons]

theorem worths_append (tokens tokens' : List Token) : worths (tokens ++ tokens') = worths tokens + worths tokens' := by
  simp only [worths, List.map_append, List.sum_append]

theorem State.push_worth (s : State) (mode : Mode) (parts : List Part) :
    (s.push mode parts).worth = Shell.worth s.parts + Shell.worth parts + 1 + mode.credit := by
  simp only [State.worth, State.push, State.parts, Option.getD_some, worth_append]

theorem State.flush_worth (s : State) : worths s.flush ≤ Shell.worth s.parts + 1 := by
  obtain ⟨mode, word⟩ := s
  cases word with
  | none => exact Nat.zero_le _
  | some parts => exact Nat.le_of_eq (worths_cons ..)

section step
variable {s : State} {c : Char}

/-- What a step leaves over of what there is and what it is paid: nothing, or one. -/
def Spends (s : State) (c : Char) (next : List Token × State) : Prop :=
  worths next.1 + next.2.worth ≤ s.worth + cost c

theorem spends_push {mode : Mode} {parts : List Part} (paid : worth parts + mode.credit ≤ s.mode.credit + cost c) :
    Spends s c ([], s.push mode parts) := by
  unfold Spends
  rw [worths_nil, State.push_worth, State.worth]
  omega

theorem spends_none {mode : Mode} (credit : mode.credit = 0) : Spends s c ([], s.push mode []) :=
  spends_push (by rw [worth_nil, credit]; exact Nat.zero_le _)

theorem spends_one {mode : Mode} {part : Part} (same : part.char = c) (credit : mode.credit = 0) :
    Spends s c ([], s.push mode [part]) :=
  spends_push (by rw [worth_cons, worth_nil, same, credit]; omega)

theorem outer_spends (mode : s.mode = .outer) : Spends s c (outer s c) := by
  have flush := s.flush_worth
  have idle : State.worth ⟨.outer, none⟩ = 1 := rfl
  have credit : s.mode.credit = 0 := by rw [mode]; rfl
  by_cases quote : c = '\''
  · subst quote
    exact spends_none rfl
  have paid := cost_other quote
  unfold outer
  split
  · show worths s.flush + State.worth ⟨.outer, none⟩ ≤ s.worth + cost c
    rw [idle, State.worth]
    omega
  split
  · show worths (s.flush ++ [.operator c]) + State.worth ⟨.outer, none⟩ ≤ s.worth + cost c
    rw [worths_append, idle, State.worth]
    show worths s.flush + 0 + 1 ≤ _
    omega
  split
  · show 0 + (Shell.worth s.parts + 1 + 0) ≤ s.worth + cost c
    rw [State.worth]
    omega
  split
  · exact spends_none rfl
  split
  · show 0 + 1 ≤ s.worth + cost c
    omega
  split
  · exact spends_one rfl rfl
  · exact spends_one rfl rfl

/-- A step spends no more than what there is and what it is paid. -/
theorem step_spends (s : State) (c : Char) : Spends s c (step s c) := by
  unfold step
  cases mode : s.mode with
  | outer => exact outer_spends mode
  | escaped =>
    simp only
    split
    · show 0 + (Shell.worth s.parts + 1 + 0) ≤ s.worth + cost c
      rw [State.worth]
      omega
    · exact spends_one rfl rfl
  | single =>
    simp only
    split
    · exact spends_none rfl
    · exact spends_one rfl rfl
  | double =>
    simp only
    split
    · exact spends_none rfl
    split
    · rename_i backslash
      exact spends_push (by rw [cost_other (backslash ▸ by decide)]; exact Nat.le_add_left ..)
    split
    · exact spends_one rfl rfl
    · exact spends_one rfl rfl
  | doubleEscaped =>
    simp only
    split
    · exact spends_none rfl
    split
    · exact spends_one rfl rfl
    · refine spends_push ?_
      rw [worth_cons, worth_cons, worth_nil, mode]
      show 1 + (cost c + 0) + 0 ≤ 1 + cost c
      omega
  | comment =>
    simp only
    split
    · show 0 + 0 + 1 ≤ s.worth + cost c
      rw [State.worth]
      omega
    · show 0 + s.worth ≤ s.worth + cost c
      omega

end step

/-- The tokens of a text are worth no more than what is paid for it. -/
theorem lex_worth {s : State} {cs : List Char} {tokens : List Token} (read : lex s cs = some tokens) :
    worths tokens ≤ s.worth + price cs := by
  induction cs generalizing s tokens with
  | nil =>
    unfold lex at read
    obtain ⟨_, flushed⟩ := Option.ite_none_right_eq_some.mp read
    cases Option.some.inj flushed
    have flush := s.flush_worth
    rw [State.worth]
    omega
  | cons c cs ih =>
    obtain ⟨rest, later, rfl⟩ := Option.map_eq_some_iff.mp read
    have spends : worths (step s c).1 + (step s c).2.worth ≤ s.worth + cost c := step_spends s c
    have rests := ih later
    rw [worths_append, price_cons]
    omega

section tight
variable {s : State} {c : Char}

theorem Quoteless.push {parts : List Part} (quoteless : Quoteless s.parts) (more : Quoteless parts) (mode : Mode) :
    Quoteless (s.push mode parts).parts := by
  intro p member
  rcases List.mem_append.mp member with old | new
  · exact quoteless p old
  · exact more p new

theorem quoteless_none : Quoteless [] := fun _ member => absurd member List.not_mem_nil

theorem quoteless_one {p : Part} (same : p.char = c) (other : c ≠ '\'') : Quoteless [p] := by
  intro p' member
  rw [List.mem_singleton.mp member, same]
  exact other

theorem Quoteless.flush (quoteless : Quoteless s.parts) : ∀ token ∈ s.flush, token.Quoteless := by
  obtain ⟨mode, word⟩ := s
  cases word with
  | none => exact fun _ member => absurd member List.not_mem_nil
  | some parts => exact fun _ member => List.mem_singleton.mp member ▸ quoteless

/-- Nothing is wasted on the way from `s` over `c`. -/
def Tight (s : State) (c : Char) : Prop := s.worth + cost c ≤ worths (step s c).1 + (step s c).2.worth

/-- Where nothing is wasted, a reader outside of double quotes stays there, and meets quotes
as quotation marks only. -/
theorem Tight.quoteless (tight : Tight s c) (mode : s.mode = .outer ∨ s.mode = .single) (quoteless : Quoteless s.parts) :
    ((step s c).2.mode = .outer ∨ (step s c).2.mode = .single) ∧ Quoteless (step s c).2.parts ∧
      ∀ token ∈ (step s c).1, token.Quoteless := by
  have none : ∀ token ∈ ([] : List Token), token.Quoteless := fun _ member => absurd member List.not_mem_nil
  have worth : s.worth = Shell.worth s.parts + 1 := by rcases mode with mode | mode <;> simp [State.worth, mode, Mode.credit]
  unfold Tight at tight
  unfold step at tight ⊢
  rcases mode with mode | mode
  · simp only [mode] at tight ⊢
    by_cases quote : c = '\''
    · subst quote
      exact ⟨.inr rfl, quoteless.push quoteless_none _, none⟩
    have paid := cost_other quote
    unfold outer at tight ⊢
    split
    · exact ⟨.inl rfl, quoteless_none, quoteless.flush⟩
    split
    · refine ⟨.inl rfl, quoteless_none, fun token member => ?_⟩
      rcases List.mem_append.mp member with flushed | new
      · exact quoteless.flush token flushed
      · exact List.mem_singleton.mp new ▸ trivial
    rename_i word op
    rw [if_neg word, if_neg op] at tight
    split
    · rename_i backslash
      rw [if_pos backslash] at tight
      have stays : State.worth ⟨.escaped, s.word⟩ = Shell.worth s.parts + 1 := rfl
      rw [worths_nil, stays] at tight
      omega
    rename_i backslash
    rw [if_neg backslash, if_neg quote] at tight
    split
    · rename_i double
      rw [if_pos double, worths_nil, State.push_worth, worth_nil] at tight
      have credit : Mode.credit .double = 0 := rfl
      omega
    rename_i double
    rw [if_neg double] at tight
    split
    · rename_i comment
      rw [if_pos comment] at tight
      have idle : State.worth ⟨.comment, Option.none⟩ = 1 := rfl
      rw [worths_nil, idle] at tight
      omega
    split
    · exact ⟨.inl rfl, quoteless.push (quoteless_one (p := .active c) rfl quote) _, none⟩
    · exact ⟨.inl rfl, quoteless.push (quoteless_one (p := .literal c) rfl quote) _, none⟩
  · simp only [mode]
    split
    · exact ⟨.inl rfl, quoteless.push quoteless_none _, none⟩
    · rename_i quote
      exact ⟨.inr rfl, quoteless.push (quoteless_one (p := .literal c) rfl quote) _, none⟩

/-- A text whose tokens are worth all that is paid for it has no quote in a token. -/
theorem lex_quoteless {cs : List Char} {tokens : List Token} (read : lex s cs = some tokens)
    (full : worths tokens = s.worth + price cs) (mode : s.mode = .outer ∨ s.mode = .single)
    (quoteless : Quoteless s.parts) : ∀ token ∈ tokens, token.Quoteless := by
  induction cs generalizing s tokens with
  | nil =>
    unfold lex at read
    obtain ⟨_, flushed⟩ := Option.ite_none_right_eq_some.mp read
    cases Option.some.inj flushed
    exact quoteless.flush
  | cons c cs ih =>
    obtain ⟨rest, later, rfl⟩ := Option.map_eq_some_iff.mp read
    have spends : worths (step s c).1 + (step s c).2.worth ≤ s.worth + cost c := step_spends s c
    have rests := lex_worth later
    rw [worths_append, price_cons] at full
    have tight : Tight s c := by
      unfold Tight
      omega
    obtain ⟨mode', quoteless', emitted⟩ := tight.quoteless mode quoteless
    intro token member
    rcases List.mem_append.mp member with first | last
    · exact emitted token first
    · exact ih later (by omega) mode' quoteless' token last

end tight

/-! A reader at a place within a written word. -/

theorem lex_silent {s s' : State} {c : Char} {cs : List Char} (silent : step s c = ([], s')) : lex s (c :: cs) = lex s' cs := by
  rw [lex, silent]
  exact Option.map_id'

section written
variable {s s' : State} {before said rest : List Char}

/-- The reader has come past `before`, the first characters of a word, and has read them as
`said`. -/
structure At (s : State) (before said : List Char) : Prop where
  mode : s.mode = .outer
  parts : s.parts = said.map .literal
  begun : s.word = none ↔ before = []

theorem at_start : At ⟨.outer, none⟩ [] [] := ⟨rfl, rfl, by simp⟩

theorem At.worth (stands : At s before said) : s.worth = price said + 1 := by
  rw [State.worth, stands.mode, stands.parts, worth_literal]
  rfl

theorem At.flush (stands : At s before said) (begun : before ≠ []) : s.flush = [.word (said.map .literal)] := by
  obtain ⟨mode, word⟩ := s
  cases word with
  | none => exact absurd (stands.begun.mp rfl) begun
  | some parts => exact congrArg (fun parts => [Token.word parts]) stands.parts

theorem At.flush_none (stands : At s [] said) : s.flush = [] := by
  unfold State.flush
  rw [stands.begun.mpr rfl]
  rfl

/-- A character that begins no word as it would begin a comment or a home directory. -/
def Begins (before : List Char) (c : Char) : Prop := before = [] → c ≠ '#' ∧ c ≠ '~'

theorem isOrdinary_iff {c : Char} : isOrdinary c = true ↔ (isBlank c = false ∧ isOperator c = false ∧
    isExpansion c = false ∧ isPattern c = false) ∧ c ≠ '\\' ∧ c ≠ '\'' ∧ c ≠ '"' := by
  simp only [isOrdinary, Bool.and_eq_true, Bool.not_eq_true', ne_eq, decide_not, decide_eq_false_iff_not]
  tauto

theorem At.push {c : Char} (stands : At s before said) : At (s.push .outer [.literal c]) (before ++ [c]) (said ++ [c]) := by
  refine ⟨rfl, ?_, ?_⟩
  · show s.parts ++ [Part.literal c] = _
    rw [stands.parts, List.map_append]
    rfl
  · exact iff_of_false (by simp [State.push]) (by simp)

/-- An ordinary character is read as itself. -/
theorem At.ordinary {c : Char} (stands : At s before said) (ordinary : isOrdinary c = true) (begins : Begins before c) :
    step s c = ([], s.push .outer [.literal c]) := by
  obtain ⟨⟨blank, operator, expansion, pattern⟩, backslash, quote, double⟩ := isOrdinary_iff.mp ordinary
  have comment : ¬ (c = '#' ∧ s.word = none) := fun ⟨hash, fresh⟩ => (begins (stands.begun.mp fresh)).1 hash
  have home : ¬ (c = '~' ∧ s.word = none) := fun ⟨tilde, fresh⟩ => (begins (stands.begun.mp fresh)).2 tilde
  unfold step
  simp only [stands.mode]
  unfold outer
  simp only [blank, operator, expansion, pattern, if_neg backslash, if_neg quote, if_neg double, if_neg comment, home,
    Bool.false_eq_true, if_false, or_self]

/-- A reader of ordinary characters. -/
theorem At.bare {cs : List Char} (stands : At s before said) (ordinary : ∀ c ∈ cs, isOrdinary c = true)
    (begins : ∀ c, cs.head? = some c → Begins before c) :
    ∃ s', At s' (before ++ cs) (said ++ cs) ∧ ∀ rest, lex s (cs ++ rest) = lex s' rest := by
  induction cs generalizing s before said with
  | nil => exact ⟨s, by simpa only [List.append_nil] using stands, fun _ => rfl⟩
  | cons c cs ih =>
    have first := stands.ordinary (ordinary c (List.mem_cons_self ..)) (begins c rfl)
    obtain ⟨s', there, later⟩ := ih stands.push (fun c' member => ordinary c' (List.mem_cons_of_mem c member))
      fun _ _ empty => absurd empty (List.append_ne_nil_of_right_ne_nil _ (List.cons_ne_nil _ _))
    refine ⟨s', by simpa only [List.append_assoc, List.singleton_append] using there, fun rest => ?_⟩
    rw [List.cons_append, lex_silent first, ← later rest]

/-- What is between single quotes is read as it is. -/
theorem lex_single {cs : List Char} (free : '\'' ∉ cs) (word rest : List Char) :
    lex ⟨.single, some (word.map .literal)⟩ (cs ++ '\'' :: rest) = lex ⟨.outer, some ((word ++ cs).map .literal)⟩ rest := by
  induction cs generalizing word with
  | nil =>
    have closed : step ⟨.single, some (word.map .literal)⟩ '\'' = ([], ⟨.outer, some (word.map .literal)⟩) := by
      simp only [step, if_true, State.push, State.parts, Option.getD_some, List.append_nil]
    rw [List.nil_append, lex_silent closed, List.append_nil]
  | cons c cs ih =>
    have other : c ≠ '\'' := fun same => free (same ▸ List.mem_cons_self ..)
    have kept : step ⟨.single, some (word.map .literal)⟩ c = ([], ⟨.single, some ((word ++ [c]).map .literal)⟩) := by
      simp only [step, if_neg other, State.push, State.parts, Option.getD_some, List.map_append, List.map_singleton]
    have further := ih (fun member => free (List.mem_cons_of_mem c member)) (word ++ [c])
    rw [List.cons_append, lex_silent kept, further, List.append_assoc, List.singleton_append]

theorem At.quoted {cs : List Char} (stands : At s before said) (free : '\'' ∉ cs) :
    ∃ s', At s' (before ++ '\'' :: cs ++ ['\'']) (said ++ cs) ∧
      ∀ rest, lex s ('\'' :: cs ++ ['\''] ++ rest) = lex s' rest := by
  refine ⟨⟨.outer, some ((said ++ cs).map .literal)⟩, ⟨rfl, rfl, iff_of_false (by simp) (by simp)⟩, fun rest => ?_⟩
  have opened : step s '\'' = ([], ⟨.single, some (said.map .literal)⟩) := by
    unfold step
    simp only [stands.mode]
    show ([], s.push .single []) = _
    rw [State.push, stands.parts, List.append_nil]
  rw [List.cons_append, List.cons_append, List.append_assoc, List.singleton_append, lex_silent opened,
    lex_single free said rest]

/-- A clean piece is read as it is meant. -/
theorem At.piece {piece : Piece} (stands : At s before said) (clean : piece.Clean)
    (begins : ∀ c, piece.chars.head? = some c → Begins before c) :
    ∃ s', At s' (before ++ piece.chars) (said ++ piece.meant) ∧ ∀ rest, lex s (piece.chars ++ rest) = lex s' rest := by
  cases piece with
  | bare text => exact stands.bare clean begins
  | quoted text => simpa only [Piece.chars, Piece.meant, List.append_assoc, List.cons_append] using stands.quoted clean

theorem At.word {w : Written} (stands : At s before said) (clean : ∀ piece ∈ w, piece.Clean)
    (begins : ∀ c, w.chars.head? = some c → Begins before c) :
    ∃ s', At s' (before ++ w.chars) (said ++ w.meant) ∧ ∀ rest, lex s (w.chars ++ rest) = lex s' rest := by
  induction w generalizing s before said with
  | nil => exact ⟨s, by simpa only [Written.chars, Written.meant, List.flatMap_nil, List.append_nil] using stands, fun _ => rfl⟩
  | cons piece w ih =>
    have own : ∀ c, piece.chars.head? = some c → Begins before c := fun c head => by
      refine begins c ?_
      rw [Written.chars, List.flatMap_cons]
      rw [List.head?_append, head]
      rfl
    obtain ⟨s', there, first⟩ := stands.piece (clean piece (List.mem_cons_self ..)) own
    have others : ∀ c, (Written.chars w).head? = some c → Begins (before ++ piece.chars) c := fun c head empty => by
      obtain ⟨fresh, none⟩ := List.append_eq_nil_iff.mp empty
      refine begins c ?_ fresh
      rw [Written.chars, List.flatMap_cons, none]
      exact head
    obtain ⟨s'', end', later⟩ := ih there (fun piece' member => clean piece' (List.mem_cons_of_mem piece member)) others
    refine ⟨s'', by simpa only [Written.chars, Written.meant, List.flatMap_cons, List.append_assoc] using end', fun rest => ?_⟩
    rw [Written.chars, List.flatMap_cons, List.append_assoc, first, ← later rest]
    rfl

theorem At.lex_blank (stands : At s before said) (cs : List Char) :
    lex s (' ' :: cs) = (lex ⟨.outer, none⟩ cs).map (s.flush ++ ·) := by
  have ended : step s ' ' = (s.flush, ⟨.outer, none⟩) := by
    unfold step
    simp only [stands.mode]
    rfl
  rw [lex, ended]

theorem At.lex_end (stands : At s before said) : lex s [] = some s.flush := if_pos (.inl stands.mode)

/-- A line of clean words is read as it is meant. -/
theorem lex_clean {words : List Written} (clean : ∀ w ∈ words, w.Clean) :
    lex ⟨.outer, none⟩ (lineChars words) = some (meant words) := by
  induction words with
  | nil => rfl
  | cons w words ih =>
    have own := clean w (List.mem_cons_self ..)
    obtain ⟨first, head, plain⟩ := own.starts
    have filled : w.chars ≠ [] := fun none => by rw [none] at head; cases head
    obtain ⟨s', there, word⟩ := at_start.word own.pieces fun c start _ => by
      cases head.symm.trans start
      exact plain
    have flush := there.flush filled
    cases words with
    | nil =>
      have last := word []
      rw [List.append_nil] at last
      rw [lineChars, last, there.lex_end, flush]
      rfl
    | cons w' words =>
      rw [lineChars, word, there.lex_blank, ih fun w'' member => clean w'' (List.mem_cons_of_mem w member), flush]
      · rfl
      · exact List.cons_ne_nil _ _

/-- Once it has begun, a word goes on or ends. -/
theorem step_begun (mode : Mode) (parts : List Part) (c : Char) (other : mode ≠ .comment) :
    (∃ mode' more, mode' ≠ .comment ∧ step ⟨mode, some parts⟩ c = ([], ⟨mode', some (parts ++ more)⟩)) ∨
      ∃ rest, (step ⟨mode, some parts⟩ c).1 = .word parts :: rest := by
  have goes (mode' : Mode) (more : List Part) (other' : mode' ≠ .comment)
      (same : step ⟨mode, some parts⟩ c = ([], State.push ⟨mode, some parts⟩ mode' more)) :
      (∃ mode' more, mode' ≠ .comment ∧ step ⟨mode, some parts⟩ c = ([], ⟨mode', some (parts ++ more)⟩)) ∨
        ∃ rest, (step ⟨mode, some parts⟩ c).1 = .word parts :: rest := .inl ⟨mode', more, other', same⟩
  have stays (mode' : Mode) (other' : mode' ≠ .comment) (same : step ⟨mode, some parts⟩ c = ([], ⟨mode', some parts⟩)) :
      (∃ mode' more, mode' ≠ .comment ∧ step ⟨mode, some parts⟩ c = ([], ⟨mode', some (parts ++ more)⟩)) ∨
        ∃ rest, (step ⟨mode, some parts⟩ c).1 = .word parts :: rest :=
    .inl ⟨mode', [], other', by rw [same, List.append_nil]⟩
  cases mode with
  | outer =>
    by_cases blank : isBlank c = true
    · exact .inr ⟨[], by simp only [step, outer, if_pos blank]; rfl⟩
    by_cases operator : isOperator c = true
    · exact .inr ⟨[.operator c], by simp only [step, outer, if_neg blank, if_pos operator]; rfl⟩
    by_cases backslash : c = '\\'
    · exact stays .escaped (by decide) (by simp only [step, outer, if_neg blank, if_neg operator, if_pos backslash])
    by_cases quote : c = '\''
    · exact goes .single [] (by decide) (by simp only [step, outer, if_neg blank, if_neg operator, if_neg backslash, if_pos quote])
    by_cases double : c = '"'
    · exact goes .double [] (by decide) (by
        simp only [step, outer, if_neg blank, if_neg operator, if_neg backslash, if_neg quote, if_pos double])
    have comment : ¬ (c = '#' ∧ some parts = none) := fun ⟨_, absent⟩ => nomatch absent
    by_cases active : isExpansion c = true ∨ isPattern c = true ∨ (c = '~' ∧ some parts = none)
    · exact goes .outer [.active c] (by decide) (by
        simp only [step, outer, if_neg blank, if_neg operator, if_neg backslash, if_neg quote, if_neg double, if_neg comment,
          if_pos active])
    · exact goes .outer [.literal c] (by decide) (by
        simp only [step, outer, if_neg blank, if_neg operator, if_neg backslash, if_neg quote, if_neg double, if_neg comment,
          if_neg active])
  | escaped =>
    by_cases newline : c = '\n'
    · exact stays .outer (by decide) (by simp only [step, if_pos newline])
    · exact goes .outer [.literal c] (by decide) (by simp only [step, if_neg newline])
  | single =>
    by_cases quote : c = '\''
    · exact goes .outer [] (by decide) (by simp only [step, if_pos quote])
    · exact goes .single [.literal c] (by decide) (by simp only [step, if_neg quote])
  | double =>
    by_cases double : c = '"'
    · exact goes .outer [] (by decide) (by simp only [step, if_pos double])
    by_cases backslash : c = '\\'
    · exact goes .doubleEscaped [] (by decide) (by simp only [step, if_neg double, if_pos backslash])
    by_cases expansion : isExpansion c = true
    · exact goes .double [.active c] (by decide) (by simp only [step, if_neg double, if_neg backslash, if_pos expansion])
    · exact goes .double [.literal c] (by decide) (by simp only [step, if_neg double, if_neg backslash, if_neg expansion])
  | doubleEscaped =>
    by_cases newline : c = '\n'
    · exact goes .double [] (by decide) (by simp only [step, if_pos newline])
    by_cases special : isExpansion c = true ∨ c = '"' ∨ c = '\\'
    · exact goes .double [.literal c] (by decide) (by simp only [step, if_neg newline, if_pos special])
    · exact goes .double [.literal '\\', .literal c] (by decide) (by simp only [step, if_neg newline, if_neg special])
  | comment => exact absurd rfl other

/-- The first token of a text that goes on with a word begins with that word. -/
theorem lex_begun {mode : Mode} {parts : List Part} {cs : List Char} {tokens : List Token} (other : mode ≠ .comment)
    (read : lex ⟨mode, some parts⟩ cs = some tokens) : ∃ more rest, tokens = .word (parts ++ more) :: rest := by
  induction cs generalizing mode parts tokens with
  | nil =>
    unfold lex at read
    obtain ⟨_, flushed⟩ := Option.ite_none_right_eq_some.mp read
    cases Option.some.inj flushed
    exact ⟨[], [], by rw [List.append_nil]; rfl⟩
  | cons c cs ih =>
    rcases step_begun mode parts c other with ⟨mode', more, other', silent⟩ | ⟨rest, emits⟩
    · rw [lex_silent silent] at read
      obtain ⟨more', rest, rfl⟩ := ih other' read
      exact ⟨more ++ more', rest, by rw [List.append_assoc]⟩
    · obtain ⟨rest', _, rfl⟩ := Option.map_eq_some_iff.mp read
      exact ⟨[], rest ++ rest', by rw [emits, List.append_nil]; rfl⟩

end written

section back
variable {s : State} {before said : List Char} {more : List Part} {tokens : List Token}

/-- A character that is read as itself where nothing is wasted is an ordinary one. -/
theorem At.char_back {c : Char} {cs : List Char} (stands : At s before said) (quote : c ≠ '\'')
    (read : lex s (c :: cs) = some (.word ((said ++ [c]).map .literal ++ more) :: tokens))
    (full : worths (.word ((said ++ [c]).map .literal ++ more) :: tokens) = s.worth + price (c :: cs)) :
    isOrdinary c = true ∧ Begins before c := by
  obtain ⟨rest, later, split⟩ := Option.map_eq_some_iff.mp read
  have paid := lex_worth later
  rw [← split, worths_append, price_cons, cost_other quote, stands.worth] at full
  have idle (mode : Mode) (plain : mode.credit = 0) : State.worth ⟨mode, none⟩ = 1 := by
    simp only [State.worth, plain]
    rfl
  have shorter {w : List Token} (ended : s.flush ++ w = .word ((said ++ [c]).map .literal ++ more) :: tokens)
      (begun : before ≠ []) : False := by
    rw [stands.flush begun] at ended
    have same := Token.word.inj (List.cons.inj ended).1
    have length := congrArg List.length same
    simp at length
  unfold step at split later full paid
  simp only [stands.mode] at split later full paid
  unfold outer at split later full paid
  by_cases blank : isBlank c = true
  · simp only [if_pos blank] at split later full paid
    by_cases fresh : before = []
    · subst fresh
      rw [stands.flush_none, worths_nil] at full
      rw [idle _ rfl] at paid
      omega
    · exact (shorter split fresh).elim
  by_cases operator : isOperator c = true
  · simp only [if_neg blank, if_pos operator, List.append_assoc] at split
    by_cases fresh : before = []
    · subst fresh
      rw [stands.flush_none] at split
      cases split
    · exact (shorter split fresh).elim
  by_cases backslash : c = '\\'
  · simp only [if_neg blank, if_neg operator, if_pos backslash, worths_nil] at full paid
    have stays : State.worth ⟨.escaped, s.word⟩ = Shell.worth s.parts + 1 := rfl
    rw [stays, stands.parts, worth_literal] at paid
    omega
  by_cases double : c = '"'
  · simp only [if_neg blank, if_neg operator, if_neg backslash, if_neg quote, if_pos double, worths_nil] at full paid
    have stays : State.worth (s.push .double []) = Shell.worth s.parts + 1 := by rw [State.push_worth]; rfl
    rw [stays, stands.parts, worth_literal] at paid
    omega
  by_cases comment : c = '#' ∧ s.word = none
  · simp only [if_neg blank, if_neg operator, if_neg backslash, if_neg quote, if_neg double, if_pos comment, worths_nil] at full paid
    rw [idle _ rfl] at paid
    omega
  simp only [if_neg blank, if_neg operator, if_neg backslash, if_neg quote, if_neg double, if_neg comment] at split later
  by_cases active : isExpansion c = true ∨ isPattern c = true ∨ (c = '~' ∧ s.word = none)
  · simp only [if_pos active] at split later
    obtain ⟨more', rest', begun⟩ := lex_begun (by decide) later
    rw [begun, stands.parts] at split
    have same := Token.word.inj (List.cons.inj split).1
    rw [List.map_append, List.append_assoc, List.append_assoc] at same
    cases (List.cons.inj (List.append_cancel_left same)).1
  rw [not_or, not_or] at active
  obtain ⟨expansion, pattern, home⟩ := active
  refine ⟨isOrdinary_iff.mpr ⟨⟨?_, ?_, ?_, ?_⟩, backslash, quote, double⟩, fun fresh => ⟨?_, ?_⟩⟩
  · exact Bool.eq_false_iff.mpr blank
  · exact Bool.eq_false_iff.mpr operator
  · exact Bool.eq_false_iff.mpr expansion
  · exact Bool.eq_false_iff.mpr pattern
  · exact fun hash => comment ⟨hash, stands.begun.mpr fresh⟩
  · exact fun tilde => home ⟨tilde, stands.begun.mpr fresh⟩

theorem At.bare_back {cs rest : List Char} (stands : At s before said) (free : '\'' ∉ cs)
    (read : lex s (cs ++ rest) = some (.word ((said ++ cs).map .literal ++ more) :: tokens))
    (full : worths (.word ((said ++ cs).map .literal ++ more) :: tokens) = s.worth + price (cs ++ rest)) :
    (∀ c ∈ cs, isOrdinary c = true) ∧ ∀ c, cs.head? = some c → Begins before c := by
  induction cs generalizing s before said with
  | nil => exact ⟨fun _ member => absurd member List.not_mem_nil, fun _ none => nomatch none⟩
  | cons c cs ih =>
    have other : c ≠ '\'' := fun same => free (same ▸ List.mem_cons_self ..)
    have split : (said ++ c :: cs).map Part.literal ++ more = (said ++ [c]).map .literal ++ (cs.map .literal ++ more) := by
      simp only [List.map_append, List.map_cons, List.map_nil, List.append_assoc, List.nil_append, List.cons_append]
    have split' : (said ++ c :: cs).map Part.literal ++ more = (said ++ [c] ++ cs).map .literal ++ more := by
      rw [List.append_assoc, List.singleton_append]
    obtain ⟨ordinary, begins⟩ := stands.char_back other (split ▸ read) (split ▸ full)
    have first := stands.ordinary ordinary begins
    rw [List.cons_append, lex_silent first, split'] at read
    have left : (s.push .outer [.literal c]).worth + price (cs ++ rest) = s.worth + price (c :: cs ++ rest) := by
      rw [stands.push.worth, stands.worth, List.cons_append, price_cons, price_append said, price_cons]
      show price said + (cost c + 0) + 1 + _ = _
      omega
    obtain ⟨others, _⟩ := ih stands.push (fun member => free (List.mem_cons_of_mem c member)) read
      ((split' ▸ full).trans left.symm)
    refine ⟨fun c' member => ?_, fun c' head => Option.some.inj head ▸ begins⟩
    rcases List.mem_cons.mp member with rfl | later
    · exact ordinary
    · exact others c' later

theorem Piece.price_chars (piece : Piece) : price piece.chars = price piece.meant := by
  cases piece with
  | bare text => rfl
  | quoted text =>
    show price ('\'' :: text.toList ++ ['\'']) = price text.toList
    rw [price_append, price_cons, price_cons, cost_quote]
    show 0 + price text.toList + (0 + 0) = _
    omega

theorem Written.price_chars (w : Written) : price w.chars = price w.meant := by
  induction w with
  | nil => rfl
  | cons piece w ih =>
    rw [Written.chars, Written.meant, List.flatMap_cons, List.flatMap_cons, price_append, price_append, piece.price_chars]
    exact congrArg (price piece.meant + ·) ih

/-- A piece that is read as it is meant, where nothing is wasted, is clean. -/
theorem At.piece_back {piece : Piece} {rest : List Char} (stands : At s before said) (free : '\'' ∉ piece.meant)
    (read : lex s (piece.chars ++ rest) = some (.word ((said ++ piece.meant).map .literal ++ more) :: tokens))
    (full : worths (.word ((said ++ piece.meant).map .literal ++ more) :: tokens) = s.worth + price (piece.chars ++ rest)) :
    piece.Clean ∧ ∀ c, piece.chars.head? = some c → Begins before c := by
  cases piece with
  | bare text => exact stands.bare_back free read full
  | quoted text =>
    refine ⟨free, fun c head _ => ?_⟩
    cases Option.some.inj head
    decide

theorem At.word_back {w : Written} {rest : List Char} (stands : At s before said) (free : '\'' ∉ w.meant)
    (read : lex s (w.chars ++ rest) = some (.word ((said ++ w.meant).map .literal) :: tokens))
    (full : worths (.word ((said ++ w.meant).map .literal) :: tokens) = s.worth + price (w.chars ++ rest)) :
    (∀ piece ∈ w, piece.Clean) ∧ ∀ c, w.chars.head? = some c → Begins before c := by
  induction w generalizing s before said with
  | nil => exact ⟨fun _ member => absurd member List.not_mem_nil, fun _ none => nomatch none⟩
  | cons piece w ih =>
    have meant : Written.meant (piece :: w) = piece.meant ++ Written.meant w := List.flatMap_cons
    have chars : Written.chars (piece :: w) = piece.chars ++ Written.chars w := List.flatMap_cons
    have split : (said ++ Written.meant (piece :: w)).map Part.literal =
        (said ++ piece.meant).map .literal ++ (Written.meant w).map .literal := by
      rw [meant, ← List.append_assoc, List.map_append]
    rw [meant, List.mem_append, not_or] at free
    rw [chars, List.append_assoc] at read full
    obtain ⟨clean, begins⟩ := stands.piece_back free.1 (split ▸ read) (split ▸ full)
    obtain ⟨s', there, first⟩ := stands.piece clean begins
    rw [first, meant, ← List.append_assoc] at read
    rw [meant, ← List.append_assoc, price_append, piece.price_chars, stands.worth] at full
    obtain ⟨others, later⟩ := ih there free.2 read (by rw [full, there.worth, price_append said]; omega)
    refine ⟨fun piece' member => ?_, fun c head => ?_⟩
    · rcases List.mem_cons.mp member with rfl | further
      · exact clean
      · exact others piece' further
    · rw [chars, List.head?_append] at head
      cases own : piece.chars.head? with
      | some c' =>
        rw [own] at head
        cases Option.some.inj head
        exact begins c own
      | none =>
        rw [own, Option.none_or] at head
        have empty := List.head?_eq_none_iff.mp own
        have same := later c head
        rwa [empty, List.append_nil] at same

theorem price_line (w : Written) (words : List Written) :
    worths (meant (w :: words)) = 1 + price (lineChars (w :: words)) := by
  have one (w : Written) : Token.worth (.word (w.meant.map .literal)) = price w.chars + 1 := by
    rw [Token.worth, worth_literal, w.price_chars]
  induction words generalizing w with
  | nil =>
    show Token.worth (.word (w.meant.map .literal)) + 0 = 1 + price w.chars
    rw [one]
    omega
  | cons w' words ih =>
    have later := ih w'
    rw [meant, List.map_cons, worths_cons, one]
    show _ + worths (meant (w' :: words)) = 1 + price (w.chars ++ ' ' :: lineChars (w' :: words))
    rw [later, price_append, price_cons, cost_other (by decide)]
    omega

/-- A line that is read as it is meant is made of clean words. -/
theorem lex_clean_back {words : List Written} (free : ∀ w ∈ words, '\'' ∉ w.meant)
    (read : lex ⟨.outer, none⟩ (lineChars words) = some (meant words)) : ∀ w ∈ words, w.Clean := by
  induction words with
  | nil => exact fun _ member => absurd member List.not_mem_nil
  | cons w words ih =>
    have own := free w (List.mem_cons_self ..)
    have full := price_line w words
    have start : State.worth ⟨.outer, none⟩ = 1 := rfl
    have back (rest : List Char) (line : lineChars (w :: words) = w.chars ++ rest) :
        (∀ piece ∈ w, piece.Clean) ∧ ∀ c, w.chars.head? = some c → Begins [] c := by
      have read' : lex ⟨.outer, none⟩ (w.chars ++ rest) = some (.word (w.meant.map .literal) :: meant words) := by
        rw [← line, read]
        rfl
      have full' : worths (.word (w.meant.map .literal) :: meant words) = State.worth ⟨.outer, none⟩ + price (w.chars ++ rest) := by
        rw [← line, start, ← full]
        rfl
      exact at_start.word_back own read' full'
    have clean (pieces : ∀ piece ∈ w, piece.Clean) (begins : ∀ c, w.chars.head? = some c → Begins [] c)
        (filled : w.chars ≠ []) : w.Clean := by
      refine ⟨pieces, w.chars.head filled, List.head?_eq_some_head filled, ?_⟩
      exact begins _ (List.head?_eq_some_head filled) rfl
    cases words with
    | nil =>
      obtain ⟨pieces, begins⟩ := back [] (List.append_nil _).symm
      intro w' member
      rw [List.mem_singleton.mp member]
      refine clean pieces begins fun none => ?_
      rw [lineChars, none] at read
      cases read
    | cons w' words =>
      obtain ⟨pieces, begins⟩ := back (' ' :: lineChars (w' :: words)) rfl
      obtain ⟨s', there, word⟩ := at_start.word pieces begins
      rw [lineChars, word, there.lex_blank] at read
      · obtain ⟨rest, later, split⟩ := Option.map_eq_some_iff.mp read
        by_cases empty : w.chars = []
        · rw [List.nil_append, empty] at there
          rw [there.flush_none, List.nil_append] at split
          have paid := lex_worth later
          have line : lineChars (w :: w' :: words) = w.chars ++ ' ' :: lineChars (w' :: words) := rfl
          rw [split, full, start, line, price_append, price_cons, cost_other (by decide)] at paid
          omega
        · rw [there.flush (by simpa using empty)] at split
          cases (List.cons.inj split).2
          intro w'' member
          rcases List.mem_cons.mp member with rfl | further
          · exact clean pieces begins empty
          · exact ih (fun w'' member => free w'' (List.mem_cons_of_mem w member)) later w'' further
      · exact List.cons_ne_nil _ _

/-- A line has exactly the words it is meant to have if and only if all its words are clean. -/
theorem lex_line_iff {words : List Written} :
    lex ⟨.outer, none⟩ (lineChars words) = some (meant words) ↔ ∀ w ∈ words, w.Clean := by
  constructor
  · intro read
    refine lex_clean_back (fun w member => ?_) read
    have full : worths (meant words) = State.worth ⟨.outer, none⟩ + price (lineChars words) := by
      cases words with
      | nil => exact absurd member List.not_mem_nil
      | cons w' words => exact price_line w' words
    have quoteless := lex_quoteless read full (.inl rfl) quoteless_none _ (List.mem_map_of_mem member)
    intro quote
    exact quoteless _ (List.mem_map_of_mem quote) rfl
  · exact lex_clean

end back

section clean
variable {text : String} {w : Written}

/-- A text that is a word without quotation marks. -/
def isClean (text : String) : Bool :=
  text.toList.all isOrdinary && text.toList.head?.any fun c => c ≠ '#' && c ≠ '~'

theorem isClean_iff : isClean text = true ↔
    (∀ c ∈ text.toList, isOrdinary c = true) ∧ ∃ c, text.toList.head? = some c ∧ c ≠ '#' ∧ c ≠ '~' := by
  simp only [isClean, Bool.and_eq_true, List.all_eq_true, Option.any_eq_true, ne_eq, decide_not,
    Bool.not_eq_true', decide_eq_false_iff_not]

/-- After a clean text a word is clean if its other pieces are. -/
theorem clean_led (led : isClean text = true) : Written.Clean (.bare text :: w) ↔ ∀ piece ∈ w, piece.Clean := by
  obtain ⟨ordinary, c, head, plain⟩ := isClean_iff.mp led
  constructor
  · intro clean piece member
    exact clean.pieces piece (List.mem_cons_of_mem _ member)
  · intro pieces
    refine ⟨fun piece member => ?_, c, ?_, plain⟩
    · rcases List.mem_cons.mp member with rfl | further
      · exact ordinary
      · exact pieces piece further
    · rw [Written.chars, List.flatMap_cons, List.head?_append]
      show text.toList.head?.or _ = some c
      rw [head]
      rfl

theorem clean_bare : Written.Clean [.bare text] ↔ isClean text = true := by
  constructor
  · intro clean
    obtain ⟨c, head, plain⟩ := clean.starts
    rw [Written.chars, List.flatMap_singleton] at head
    exact isClean_iff.mpr ⟨clean.pieces _ (List.mem_singleton_self _), c, head, plain⟩
  · exact fun led => (clean_led led).mpr fun _ member => absurd member List.not_mem_nil

theorem clean_quoted : Written.Clean [.quoted text] ↔ '\'' ∉ text.toList := by
  constructor
  · exact fun clean => clean.pieces _ (List.mem_singleton_self _)
  · exact fun free => ⟨fun piece member => List.mem_singleton.mp member ▸ free, '\'', rfl, by decide, by decide⟩

end clean

/-- A command line, given as it is written, has the intended words if and only if it is
written in clean words. -/
theorem read_line_iff {line : String} {words : List Written} {intended : List String} (text : line.toList = lineChars words)
    (same : meant words = intended.map exactly) : read line = some (intended.map exactly) ↔ ∀ w ∈ words, w.Clean := by
  unfold read
  rw [text, ← same]
  exact lex_line_iff

end Shell
