import Bsdos.Scanning
import Mathlib.Data.List.TakeWhile
import Mathlib.Tactic.Common

namespace Json
open Scanning

inductive Token
  | beginArray
  | endArray
  | beginObject
  | endObject
  | colon
  | comma
  | word (cs : List Char)
  | text (cs : List Char)
  deriving DecidableEq, Repr

/-- A character of a string, or a UTF-16 code unit that is written for one. -/
inductive Piece
  | char (c : Char)
  | unit (value : Nat)
  deriving DecidableEq, Repr

/-- Where the reader stands. Of a code unit there are so many digits to come; the characters
of a word come last first; `refused` is for good. -/
inductive Mode
  | between
  | word (cs : List Char)
  | quoted (ps : List Piece)
  | escaped (ps : List Piece)
  | code (left value : Nat) (ps : List Piece)
  | refused
  deriving DecidableEq, Repr

def isBlank (c : Char) : Bool := c = ' ' || c = '\t' || c = '\n' || c = '\r'

/-- The characters that end a word. -/
def isDelimiter (c : Char) : Bool :=
  isBlank c || c = '[' || c = ']' || c = '\x7b' || c = '\x7d' || c = ':' || c = ',' || c = '"'

def start (c : Char) : List Token × Mode :=
  if isBlank c then ([], .between)
  else if c = '[' then ([.beginArray], .between)
  else if c = ']' then ([.endArray], .between)
  else if c = '\x7b' then ([.beginObject], .between)
  else if c = '\x7d' then ([.endObject], .between)
  else if c = ':' then ([.colon], .between)
  else if c = ',' then ([.comma], .between)
  else if c = '"' then ([], .quoted [])
  else ([], .word [c])

def isExponent : List Char → Bool
  | [] => true
  | e :: rest =>
    let digits := match rest with
      | '+' :: digits | '-' :: digits => digits
      | digits => digits
    (e = 'e' || e = 'E') && !digits.isEmpty && digits.all Char.isDigit

/-- What may come after the integer part of a number. -/
def isFraction : List Char → Bool
  | '.' :: rest => (rest.head?.any Char.isDigit) && isExponent (rest.dropWhile Char.isDigit)
  | rest => isExponent rest

/-- A number without its sign has no zero before other digits. -/
def isUnsigned : List Char → Bool
  | [] => false
  | c :: rest => if c = '0' then isFraction rest else c.isDigit && isFraction (rest.dropWhile Char.isDigit)

def isNumber : List Char → Bool
  | '-' :: rest => isUnsigned rest
  | cs => isUnsigned cs

def isWord (cs : List Char) : Bool :=
  cs = "true".toList || cs = "false".toList || cs = "null".toList || isNumber cs

def hexDigit (c : Char) : Option Nat :=
  if '0' ≤ c ∧ c ≤ '9' then some (c.toNat - '0'.toNat)
  else if 'a' ≤ c ∧ c ≤ 'f' then some (c.toNat - 'a'.toNat + 10)
  else if 'A' ≤ c ∧ c ≤ 'F' then some (c.toNat - 'A'.toNat + 10)
  else none

/-- The character after a backslash. -/
def afterBackslash (ps : List Piece) (c : Char) : Mode :=
  if c = '"' then .quoted (ps ++ [.char '"'])
  else if c = '\\' then .quoted (ps ++ [.char '\\'])
  else if c = '/' then .quoted (ps ++ [.char '/'])
  else if c = 'b' then .quoted (ps ++ [.char (Char.ofNat 0x08)])
  else if c = 'f' then .quoted (ps ++ [.char (Char.ofNat 0x0C)])
  else if c = 'n' then .quoted (ps ++ [.char '\n'])
  else if c = 'r' then .quoted (ps ++ [.char '\r'])
  else if c = 't' then .quoted (ps ++ [.char '\t'])
  else if c = 'u' then .code 4 0 ps
  else .refused

def isHigh (unit : Nat) : Bool := 0xD800 ≤ unit && unit ≤ 0xDBFF

def isLow (unit : Nat) : Bool := 0xDC00 ≤ unit && unit ≤ 0xDFFF

/-- The text that is written, after a high surrogate that waits for its low one. A surrogate
alone stands for no character. -/
def assemble : Option Nat → List Piece → Option (List Char)
  | none, [] => some []
  | none, .char c :: ps => (assemble none ps).map (c :: ·)
  | none, .unit value :: ps =>
    if isHigh value then assemble (some value) ps
    else if isLow value then none
    else (assemble none ps).map (Char.ofNat value :: ·)
  | some high, .unit low :: ps =>
    if isLow low then
      (assemble none ps).map (Char.ofNat (0x10000 + (high - 0xD800) * 0x400 + (low - 0xDC00)) :: ·)
    else none
  | some _, _ => none

def closed (ps : List Piece) : List Token × Mode :=
  match assemble none ps with
  | some cs => ([.text cs], .between)
  | none => ([], .refused)

def step : Mode → Char → List Token × Mode
  | .between, c => start c
  | .word cs, c =>
    if isDelimiter c then
      if isWord cs.reverse then (.word cs.reverse :: (start c).1, (start c).2) else ([], .refused)
    else ([], .word (c :: cs))
  | .quoted ps, c =>
    if c = '"' then closed ps
    else if c = '\\' then ([], .escaped ps)
    else ([], if 0x20 ≤ c.toNat then .quoted (ps ++ [.char c]) else .refused)
  | .escaped ps, c => ([], afterBackslash ps c)
  | .code left value ps, c =>
    match hexDigit c with
    | none => ([], .refused)
    | some digit =>
      ([], if left = 1 then .quoted (ps ++ [.unit (16 * value + digit)]) else .code (left - 1) (16 * value + digit) ps)
  | .refused, _ => ([], .refused)

/-- What the end of the text makes of the token being read. -/
def finish : Mode → Option (List Token)
  | .between => some []
  | .word cs => if isWord cs.reverse then some [.word cs.reverse] else none
  | _ => none

/-- The tokens of a text of RFC 8259. -/
def lex (cs : List Char) : Option (List Token) :=
  (finish (run step .between cs).2).map ((run step .between cs).1 ++ ·)

/-! What a text costs: no less is written for it than this. -/

/-- The characters that a string has to escape. -/
def isSpecial (c : Char) : Bool := c = '"' || c = '\\' || c.toNat < 0x20

def cost (c : Char) : Nat := if isSpecial c then 2 else 1

def costs : List Char → Nat
  | [] => 0
  | c :: cs => cost c + costs cs

def Piece.cost : Piece → Nat
  | .char c => Json.cost c
  | .unit _ => 6

def pieceCosts : List Piece → Nat
  | [] => 0
  | p :: ps => p.cost + pieceCosts ps

/-- What has been written at least of the string being read. -/
def Mode.spent : Mode → Nat
  | .quoted ps => pieceCosts ps
  | .escaped ps => pieceCosts ps + 1
  | .code left _ ps => pieceCosts ps + (6 - left)
  | _ => 0

theorem cost_le (c : Char) : cost c ≤ 2 := by
  unfold cost
  split <;> omega

theorem costs_cons (c : Char) (cs : List Char) : costs (c :: cs) = cost c + costs cs := rfl

theorem pieceCosts_concat (ps : List Piece) (p : Piece) : pieceCosts (ps ++ [p]) = pieceCosts ps + p.cost := by
  induction ps with
  | nil => exact Nat.add_comm p.cost 0
  | cons q ps ih =>
    change q.cost + pieceCosts (ps ++ [p]) = q.cost + pieceCosts ps + p.cost
    rw [ih, Nat.add_assoc]

theorem length_lt_costs {cs : List Char} {c : Char} (member : c ∈ cs) (special : isSpecial c = true) :
    cs.length < costs cs := by
  have all (cs : List Char) : cs.length ≤ costs cs := by
    induction cs with
    | nil => exact Nat.le_refl 0
    | cons c cs ih =>
      rw [List.length_cons, costs_cons, cost]
      split <;> omega
  induction cs with
  | nil => cases member
  | cons c' cs ih =>
    rw [List.length_cons, costs_cons]
    rcases List.mem_cons.mp member with rfl | later
    · have bound := all cs
      rw [cost, if_pos special]
      omega
    · have bound := ih later
      rw [cost]
      split <;> omega

/-- A text that is read costs no more than what is written for it. -/
theorem costs_assemble {high : Option Nat} {ps : List Piece} {cs : List Char} (read : assemble high ps = some cs) :
    costs cs ≤ pieceCosts ps := by
  induction ps generalizing high cs with
  | nil =>
    cases high with
    | none =>
      obtain rfl := Option.some.inj read
      exact Nat.le_refl 0
    | some _ => cases read
  | cons p ps ih =>
    have more (c : Char) (bound : cost c ≤ p.cost) (rest : (assemble none ps).map (c :: ·) = some cs) :
        costs cs ≤ pieceCosts (p :: ps) := by
      obtain ⟨cs', tail, rfl⟩ := Option.map_eq_some_iff.mp rest
      exact Nat.add_le_add bound (ih tail)
    have unit (c : Char) : cost c ≤ 6 := Nat.le_trans (cost_le c) (by omega)
    cases p with
    | char c =>
      cases high with
      | none => exact more c (Nat.le_refl _) read
      | some _ => cases read
    | unit value =>
      cases high with
      | none =>
        unfold assemble at read
        split at read
        · exact Nat.le_trans (ih read) (Nat.le_add_left ..)
        · split at read
          · cases read
          · exact more _ (unit _) read
      | some high =>
        unfold assemble at read
        split at read
        · exact more _ (unit _) read
        · cases read

/-- No string ends here, and none has begun. -/
def Idle (read : List Token × Mode) : Prop := read.2.spent = 0 ∧ ∀ cs, Token.text cs ∉ read.1

theorem start_idle (c : Char) : Idle (start c) := by
  have begins (mode : Mode) (none : mode.spent = 0) : Idle ([], mode) := ⟨none, fun _ => List.not_mem_nil⟩
  have lone (token : Token) (other : ∀ cs, Token.text cs ≠ token) : Idle ([token], .between) :=
    ⟨rfl, fun cs member => other cs (List.mem_singleton.mp member)⟩
  unfold start
  refine iteInduction (fun _ => begins _ rfl) fun _ => ?_
  refine iteInduction (fun _ => lone _ fun _ => Token.noConfusion) fun _ => ?_
  refine iteInduction (fun _ => lone _ fun _ => Token.noConfusion) fun _ => ?_
  refine iteInduction (fun _ => lone _ fun _ => Token.noConfusion) fun _ => ?_
  refine iteInduction (fun _ => lone _ fun _ => Token.noConfusion) fun _ => ?_
  refine iteInduction (fun _ => lone _ fun _ => Token.noConfusion) fun _ => ?_
  refine iteInduction (fun _ => lone _ fun _ => Token.noConfusion) fun _ => ?_
  refine iteInduction (fun _ => begins _ rfl) fun _ => ?_
  exact begins _ rfl

/-- No more than this has been written of the string being read. -/
def Within (n : Nat) (mode : Mode) : Prop := mode.spent ≤ n

theorem afterBackslash_spent (ps : List Piece) (c : Char) : Within (pieceCosts ps + 2) (afterBackslash ps c) := by
  have char (c : Char) : Within (pieceCosts ps + 2) (.quoted (ps ++ [.char c])) := by
    have bound := cost_le c
    rw [Within, Mode.spent, pieceCosts_concat, Piece.cost]
    omega
  unfold afterBackslash
  refine iteInduction (fun _ => char _) fun _ => ?_
  refine iteInduction (fun _ => char _) fun _ => ?_
  refine iteInduction (fun _ => char _) fun _ => ?_
  refine iteInduction (fun _ => char _) fun _ => ?_
  refine iteInduction (fun _ => char _) fun _ => ?_
  refine iteInduction (fun _ => char _) fun _ => ?_
  refine iteInduction (fun _ => char _) fun _ => ?_
  refine iteInduction (fun _ => char _) fun _ => ?_
  refine iteInduction (fun _ => Nat.le_refl _) fun _ => ?_
  exact Nat.zero_le _

theorem spent_step (mode : Mode) (c : Char) :
    (step mode c).2.spent ≤ mode.spent + 1 ∧ ∀ cs, .text cs ∈ (step mode c).1 → costs cs ≤ mode.spent := by
  obtain ⟨none, silent⟩ := start_idle c
  cases mode with
  | between => exact ⟨none ▸ Nat.zero_le _, fun cs member => absurd member (silent cs)⟩
  | word w =>
    simp only [step]
    split
    · split
      · refine ⟨none ▸ Nat.zero_le _, fun cs member => ?_⟩
        rcases List.mem_cons.mp member with other | later
        · cases other
        · exact absurd later (silent cs)
      · exact ⟨Nat.zero_le _, fun cs member => absurd member List.not_mem_nil⟩
    · exact ⟨Nat.zero_le _, fun cs member => absurd member List.not_mem_nil⟩
  | quoted ps =>
    simp only [step]
    split
    · unfold closed
      cases read : assemble Option.none ps with
      | none => exact ⟨Nat.zero_le _, fun cs member => absurd member List.not_mem_nil⟩
      | some text =>
        refine ⟨Nat.zero_le _, fun cs member => ?_⟩
        obtain rfl := Token.text.inj (List.mem_singleton.mp member)
        exact costs_assemble read
    · rename_i quote
      split
      · exact ⟨Nat.le_refl _, fun cs member => absurd member List.not_mem_nil⟩
      · rename_i backslash
        refine ⟨?_, fun cs member => absurd member List.not_mem_nil⟩
        split
        · rename_i text
          have plain : isSpecial c = false := by
            simp only [isSpecial, quote, backslash, decide_false, Bool.false_or, decide_eq_false_iff_not]
            omega
          rw [Mode.spent, pieceCosts_concat, Piece.cost, cost, if_neg (by simp [plain])]
          exact Nat.le_refl _
        · exact Nat.zero_le _
  | escaped ps => exact ⟨afterBackslash_spent ps c, fun cs member => absurd member List.not_mem_nil⟩
  | code left value ps =>
    simp only [step]
    cases hexDigit c with
    | none => exact ⟨Nat.zero_le _, fun cs member => absurd member List.not_mem_nil⟩
    | some digit =>
      refine ⟨?_, fun cs member => absurd member List.not_mem_nil⟩
      show (if left = 1 then Mode.quoted _ else .code _ _ ps).spent ≤ pieceCosts ps + (6 - left) + 1
      split
      · rename_i last
        rw [Mode.spent, pieceCosts_concat, Piece.cost]
        omega
      · rw [Mode.spent]
        omega
  | refused => exact ⟨Nat.zero_le _, fun cs member => absurd member List.not_mem_nil⟩

/-- However a text is read, its strings cost no more than its length. -/
theorem spent_run (mode : Mode) (text : List Char) : (run step mode text).2.spent ≤ mode.spent + text.length ∧
    ∀ cs, .text cs ∈ (run step mode text).1 → costs cs ≤ mode.spent + text.length := by
  induction text generalizing mode with
  | nil => exact ⟨Nat.le_refl _, fun cs member => absurd member List.not_mem_nil⟩
  | cons c text ih =>
    obtain ⟨spent, first⟩ := spent_step mode c
    obtain ⟨ends, later⟩ := ih (step mode c).2
    rw [List.length_cons]
    refine ⟨?_, fun cs member => ?_⟩
    · show (run step (step mode c).2 text).2.spent ≤ _
      omega
    · rcases List.mem_append.mp member with here | there
      · have bound := first cs here
        omega
      · have bound := later cs there
        omega

/-! What is written plainly. -/

theorem assemble_chars (cs : List Char) : assemble none (cs.map .char) = some cs := by
  induction cs with
  | nil => rfl
  | cons c cs ih =>
    rw [List.map_cons, assemble, ih]
    rfl

theorem run_refused (cs : List Char) : run step .refused cs = ([], .refused) := run_stuck fun _ => rfl

/-- A character that needs no escape stands for itself. -/
theorem step_plain {c : Char} (plain : isSpecial c = false) (ps : List Piece) :
    step (.quoted ps) c = ([], .quoted (ps ++ [.char c])) := by
  simp only [isSpecial, Bool.or_eq_false_iff, decide_eq_false_iff_not] at plain
  obtain ⟨⟨quote, backslash⟩, text⟩ := plain
  simp only [step, if_neg quote, if_neg backslash, if_pos (Nat.le_of_not_lt text)]

/-- What is read character by character. -/
theorem run_chars {write : Char → List Char} {cs : List Char}
    (each : ∀ c ∈ cs, ∀ ps, run step (.quoted ps) (write c) = ([], .quoted (ps ++ [.char c]))) (ps : List Piece) :
    run step (.quoted ps) (cs.flatMap write) = ([], .quoted (ps ++ cs.map .char)) := by
  induction cs generalizing ps with
  | nil =>
    rw [List.map_nil, List.append_nil]
    rfl
  | cons c cs ih =>
    rw [List.flatMap_cons, List.map_cons]
    have later := ih (fun c' member => each c' (List.mem_cons_of_mem _ member)) (ps ++ [.char c])
    rw [List.append_assoc] at later
    exact run_then (each c (List.mem_cons_self ..) ps) later

theorem run_plain {cs : List Char} (plain : ∀ c ∈ cs, isSpecial c = false) (ps : List Piece) :
    run step (.quoted ps) cs = ([], .quoted (ps ++ cs.map .char)) := by
  have whole : run step (.quoted ps) (cs.flatMap fun c => [c]) = ([], .quoted (ps ++ cs.map .char)) :=
    run_chars (fun c member ps => run_cons (step_plain (plain c member) ps) rfl) ps
  rwa [List.flatMap_singleton'] at whole

theorem step_close (ps : List Piece) : step (.quoted ps) '"' = closed ps := rfl

theorem closed_chars (cs : List Char) : closed (cs.map .char) = ([.text cs], .between) := by
  rw [closed, assemble_chars]

theorem digit_cases {c : Char} (digit : c.isDigit = true) : isDelimiter c = false ∧ start c = ([], .word [c]) := by
  have other {c' : Char} (none : c'.isDigit = false) : c ≠ c' := by
    rintro rfl
    rw [digit] at none
    cases none
  have blank : isBlank c = false := by
    simp only [isBlank, Bool.or_eq_false_iff, decide_eq_false_iff_not]
    exact ⟨⟨⟨other (by decide), other (by decide)⟩, other (by decide)⟩, other (by decide)⟩
  refine ⟨?_, ?_⟩
  · simp only [isDelimiter, Bool.or_eq_false_iff, decide_eq_false_iff_not, blank, true_and]
    exact ⟨⟨⟨⟨⟨⟨other (by decide), other (by decide)⟩, other (by decide)⟩, other (by decide)⟩, other (by decide)⟩,
      other (by decide)⟩, other (by decide)⟩
  · unfold start
    rw [if_neg (by simp [blank]), if_neg (other (by decide)), if_neg (other (by decide)), if_neg (other (by decide)),
      if_neg (other (by decide)), if_neg (other (by decide)), if_neg (other (by decide)), if_neg (other (by decide))]

/-- The first digit of a number is no zero, except where the number is zero. -/
theorem toDigits_head (n : Nat) : Nat.toDigits 10 n = ['0'] ∨ ∃ c rest, Nat.toDigits 10 n = c :: rest ∧ c ≠ '0' := by
  induction n using Nat.strongRecOn with
  | ind n ih =>
    by_cases small : n < 10
    · rw [Nat.toDigits_of_lt_base small]
      by_cases zero : n = 0
      · subst zero
        exact .inl rfl
      · have digit : ∀ n < 10, n ≠ 0 → n.digitChar ≠ '0' := by decide
        exact .inr ⟨_, _, rfl, digit n small zero⟩
    · rw [Nat.toDigits_of_base_le (by decide) (by omega)]
      rcases ih (n / 10) (by omega) with zero | ⟨c, rest, front, nonzero⟩
      · have value := Nat.ofDigitChars_ten_toDigits (n := n / 10)
        rw [zero] at value
        have none : Nat.ofDigitChars 10 ['0'] 0 = 0 := by decide
        omega
      · exact .inr ⟨c, rest ++ _, by rw [front]; rfl, nonzero⟩

theorem isWord_digits (n : Nat) : isWord (Nat.toDigits 10 n) = true := by
  have digits (c : Char) (member : c ∈ Nat.toDigits 10 n) : c.isDigit = true :=
    Nat.isDigit_of_mem_toDigits (by decide) (by decide) member
  have unsigned : isUnsigned (Nat.toDigits 10 n) = true := by
    rcases toDigits_head n with zero | ⟨c, rest, front, nonzero⟩
    · rw [zero]
      rfl
    · rw [front] at digits ⊢
      have all : rest.dropWhile Char.isDigit = [] :=
        List.dropWhile_eq_nil_iff.mpr fun c' member => digits c' (List.mem_cons_of_mem _ member)
      rw [isUnsigned, if_neg nonzero, all, digits c (List.mem_cons_self ..)]
      rfl
  have number : isNumber (Nat.toDigits 10 n) = true := by
    unfold isNumber
    split
    · rename_i rest same
      have sign := digits '-' (same ▸ List.mem_cons_self ..)
      cases sign
    · exact unsigned
  rw [isWord, number, Bool.or_true]

/-- A number, up to the character that ends it. -/
theorem run_digits (n : Nat) {c : Char} {rest : List Char} {out : List Token} {mode : Mode}
    (ends : isDelimiter c = true) (after : run step .between (c :: rest) = (out, mode)) :
    run step .between (Nat.toDigits 10 n ++ c :: rest) = (.word (Nat.toDigits 10 n) :: out, mode) := by
  have digits (c : Char) (member : c ∈ Nat.toDigits 10 n) : c.isDigit = true :=
    Nat.isDigit_of_mem_toDigits (by decide) (by decide) member
  have word (read cs : List Char) (all : ∀ c ∈ cs, c.isDigit = true) :
      run step (.word read) cs = ([], .word (cs.reverse ++ read)) := by
    induction cs generalizing read with
    | nil => rfl
    | cons c cs ih =>
      rw [List.reverse_cons, List.append_assoc]
      have inside := (digit_cases (all c (List.mem_cons_self ..))).1
      have first : step (.word read) c = ([], .word (c :: read)) := if_neg (by simp [inside])
      exact run_cons first (ih (c :: read) fun c' member => all c' (List.mem_cons_of_mem _ member))
  obtain ⟨first, cs, split⟩ := List.exists_cons_of_ne_nil (Nat.toDigits_ne_nil (n := n) (b := 10))
  have last : run step (.word (Nat.toDigits 10 n).reverse) (c :: rest) = (.word (Nat.toDigits 10 n) :: out, mode) := by
    have here : step (.word (Nat.toDigits 10 n).reverse) c =
        (.word (Nat.toDigits 10 n) :: (start c).1, (start c).2) := by
      rw [step, if_pos ends, List.reverse_reverse, if_pos (isWord_digits n)]
    obtain ⟨front, back⟩ := Prod.mk.inj after
    rw [run, here, ← front, ← back]
    rfl
  rw [split] at digits last ⊢
  have opens : step .between first = ([], .word [first]) := (digit_cases (digits first (List.mem_cons_self ..))).2
  have through := word [first] cs fun c' member => digits c' (List.mem_cons_of_mem _ member)
  rw [← List.reverse_cons] at through
  exact run_cons opens (run_then through last)

/-- Nothing is read on from a refused text. -/
theorem run_of_append {mode : Mode} {cs cs' : List Char} (read : (run step mode (cs ++ cs')).2 ≠ .refused) :
    (run step mode cs).2 ≠ .refused := by
  intro stuck
  rw [run_append, stuck, run_refused] at read
  exact read rfl

theorem run_between {cs : List Char} (ends : (run step .between cs).2 = .between) :
    run step .between cs = ((run step .between cs).1, .between) := Prod.ext rfl ends

theorem lex_run {cs : List Char} {tokens : List Token} (read : lex cs = some tokens) :
    (run step .between cs).2 ≠ .refused := by
  obtain ⟨last, ends, _⟩ := Option.map_eq_some_iff.mp read
  intro stuck
  rw [stuck] at ends
  cases ends

theorem lex_of_run {cs : List Char} {tokens : List Token} (read : run step .between cs = (tokens, .between)) :
    lex cs = some tokens := by
  rw [lex, read]
  exact congrArg some (List.append_nil tokens)

/-- Elements with a comma between any two of them. -/
def separated : List (List Token) → List Token
  | [] => []
  | [tokens] => tokens
  | tokens :: rest => tokens ++ .comma :: separated rest

theorem mem_separated {parts : List (List Token)} {cs : List Char} (member : .text cs ∈ separated parts) :
    ∃ tokens ∈ parts, .text cs ∈ tokens := by
  induction parts with
  | nil => cases member
  | cons tokens rest ih =>
    cases rest with
    | nil => exact ⟨tokens, List.mem_singleton_self tokens, member⟩
    | cons next rest =>
      rcases List.mem_append.mp member with here | later
      · exact ⟨tokens, List.mem_cons_self .., here⟩
      · rcases List.mem_cons.mp later with other | later
        · cases other
        · obtain ⟨tokens', there, inside⟩ := ih later
          exact ⟨tokens', List.mem_cons_of_mem _ there, inside⟩

section separated
variable {A : Type} {sep : String} {text : A → String} {parts : List A}

theorem run_intercalate (comma : run step .between sep.toList = ([.comma], .between)) {tokens : A → List Token}
    (each : ∀ a ∈ parts, run step .between (text a).toList = (tokens a, .between)) :
    run step .between (sep.intercalate (parts.map text)).toList = (separated (parts.map tokens), .between) := by
  induction parts with
  | nil => rfl
  | cons a rest ih =>
    have first := each a (List.mem_cons_self ..)
    have later := ih fun a' member => each a' (List.mem_cons_of_mem _ member)
    cases rest with
    | nil => rwa [List.map_singleton, List.map_singleton, String.intercalate_singleton]
    | cons next rest =>
      rw [List.map_cons, List.map_cons, String.intercalate_cons_cons, String.toList_append, String.toList_append,
        List.append_assoc]
      exact run_then first (run_then comma later)

/-- What is not refused has no part that is. -/
theorem between_of_intercalate (comma : run step .between sep.toList = ([.comma], .between))
    (each : ∀ a ∈ parts, (run step .between (text a).toList).2 ≠ .refused → (run step .between (text a).toList).2 = .between)
    (read : (run step .between (sep.intercalate (parts.map text)).toList).2 ≠ .refused) :
    ∀ a ∈ parts, (run step .between (text a).toList).2 = .between := by
  induction parts with
  | nil => exact fun a member => absurd member List.not_mem_nil
  | cons a rest ih =>
    have own := each a (List.mem_cons_self ..)
    have others := ih fun a' member => each a' (List.mem_cons_of_mem _ member)
    refine List.forall_mem_cons.mpr ?_
    cases rest with
    | nil =>
      rw [List.map_singleton, String.intercalate_singleton] at read
      exact ⟨own read, fun a member => absurd member List.not_mem_nil⟩
    | cons next rest =>
      rw [List.map_cons, List.map_cons, String.intercalate_cons_cons, String.toList_append, String.toList_append,
        List.append_assoc] at read
      have first := own (run_of_append read)
      rw [run_append, first, run_append, comma] at read
      exact ⟨first, others read⟩

end separated

end Json
