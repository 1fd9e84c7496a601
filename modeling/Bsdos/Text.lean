import Mathlib.Algebra.Group.Nat.Defs
import Mathlib.Data.List.Infix
import Mathlib.Data.List.TakeWhile

namespace Bsdos.Text

/-- The characters with the Unicode property White_Space. -/
def isWhitespace (c : Char) : Bool :=
  let n := c.toNat
  (9 ≤ n && n ≤ 13) || n = 0x20 || n = 0x85 || n = 0xA0 || n = 0x1680 ||
    (0x2000 ≤ n && n ≤ 0x200A) || n = 0x2028 || n = 0x2029 || n = 0x202F || n = 0x205F || n = 0x3000

def trimChars (cs : List Char) : List Char :=
  ((cs.dropWhile isWhitespace).reverse.dropWhile isWhitespace).reverse

@[irreducible] def trim (s : String) : String := String.ofList (trimChars s.toList)

/-- The maximal blank-free runs of a text; `word` is the run being read, reversed. -/
def words (word : List Char) : List Char → List (List Char)
  | [] => if word.isEmpty then [] else [word.reverse]
  | c :: cs =>
    if isWhitespace c then (if word.isEmpty then words [] cs else word.reverse :: words [] cs)
    else words (c :: word) cs

@[irreducible] def splitWhitespace (s : String) : List String := (words [] s.toList).map String.ofList

/-- At most `n` pieces; the last one keeps the remaining separators. -/
def splitnChars (sep : Char) : Nat → List Char → List (List Char)
  | 0, _ => []
  | 1, cs => [cs]
  | n + 2, cs =>
    match cs.span (· ≠ sep) with
    | (piece, []) => [piece]
    | (piece, _ :: rest) => piece :: splitnChars sep (n + 1) rest

@[irreducible] def splitn (n : Nat) (sep : Char) (s : String) : List String :=
  (splitnChars sep n s.toList).map String.ofList

/-- The lines of a text, without their terminators; `line` is the line being
read, reversed. -/
def linesChars (line : List Char) : List Char → List (List Char)
  | [] => if line.isEmpty then [] else [line.reverse]
  | c :: cs =>
    if c = '\n' then (if line.head? = some '\r' then line.tail else line).reverse :: linesChars [] cs
    else linesChars (c :: line) cs

attribute [grind =] linesChars splitnChars

@[irreducible] def lines (s : String) : List String := (linesChars [] s.toList).map String.ofList

@[irreducible] def contains (s needle : String) : Bool := decide (needle.toList <:+: s.toList)

def digits (n : Nat) : List Char → Option Nat
  | [] => some n
  | c :: cs => if '0' ≤ c ∧ c ≤ '9' then digits (10 * n + (c.toNat - '0'.toNat)) cs else none

/-- A number below a bound in decimal, with an optional plus sign. -/
@[irreducible] def parseBelow (bound : Nat) (s : String) : Option Nat :=
  let cs := match s.toList with
    | '+' :: rest => rest
    | cs => cs
  match cs with
  | [] => none
  | cs => (digits 0 cs).bind fun n => if n < bound then some n else none

/-- A `u8` in decimal, with an optional plus sign. -/
@[irreducible] def parseU8 (s : String) : Option UInt8 :=
  let cs := match s.toList with
    | '+' :: rest => rest
    | cs => cs
  match cs with
  | [] => none
  | cs => (digits 0 cs).bind fun n => if n < 256 then some (UInt8.ofNat n) else none

/-- The pieces between the separators; `piece` is the one being read, reversed. -/
def splitChars (sep : Char) (piece : List Char) : List Char → List (List Char)
  | [] => [piece.reverse]
  | c :: cs => if c = sep then piece.reverse :: splitChars sep [] cs else splitChars sep (c :: piece) cs

@[irreducible] def split (sep : Char) (s : String) : List String := (splitChars sep [] s.toList).map String.ofList

/-- Whether a text is a `u64` in decimal, with an optional plus sign. -/
@[irreducible] def isU64 (s : String) : Bool :=
  let cs := match s.toList with
    | '+' :: rest => rest
    | cs => cs
  match cs with
  | [] => false
  | cs => (digits 0 cs).any fun n => n < 2 ^ 64

/-- The first `n` bytes, where they end between two characters. -/
def bytePrefixChars : Nat → List Char → Option (List Char)
  | 0, _ => some []
  | _ + 1, [] => none
  | n + 1, c :: cs => if c.utf8Size ≤ n + 1 then (bytePrefixChars (n + 1 - c.utf8Size) cs).map (c :: ·) else none

@[irreducible] def bytePrefix (n : Nat) (s : String) : Option String := (bytePrefixChars n s.toList).map String.ofList

def hexDigit (n : Nat) : Char := if n < 10 then Char.ofNat (n + '0'.toNat) else Char.ofNat (n - 10 + 'a'.toNat)

/-- Two lowercase hexadecimal digits for each byte. -/
def hexEncode (bytes : List UInt8) : String :=
  String.ofList (bytes.flatMap fun b => [hexDigit (b.toNat / 16), hexDigit (b.toNat % 16)])

theorem splitnChars_piece {sep : Char} {n : Nat} {piece rest : List Char} (free : sep ∉ piece) :
    splitnChars sep (n + 2) (piece ++ sep :: rest) = piece :: splitnChars sep (n + 1) rest := by
  have whole : (piece ++ sep :: rest).span (· ≠ sep) = (piece, sep :: rest) := by
    rw [List.span_eq_takeWhile_dropWhile]
    have kept : ∀ c ∈ piece, decide (c ≠ sep) = true := fun c member => by
      have other : c ≠ sep := fun same => free (same ▸ member)
      simpa only [decide_eq_true_eq] using other
    rw [List.takeWhile_append_of_pos kept, List.dropWhile_append_of_pos kept]
    simp
  rw [splitnChars, whole]

/-- A text with a piece before the first separator. -/
theorem splitn_pair {sep : Char} {piece rest : String} (free : sep ∉ piece.toList) :
    splitn 2 sep (piece ++ String.singleton sep ++ rest) = [piece, rest] := by
  unfold splitn
  have text : (piece ++ String.singleton sep ++ rest).toList = piece.toList ++ sep :: rest.toList := by
    simp only [String.toList_append, String.toList_singleton, List.append_assoc, List.singleton_append]
  rw [text, splitnChars_piece free]
  simp only [splitnChars, List.map_cons, List.map_nil, String.ofList_toList]

theorem splitChars_free {sep : Char} {piece cs : List Char} (free : sep ∉ cs) :
    splitChars sep piece cs = [piece.reverse ++ cs] := by
  induction cs generalizing piece with
  | nil => simp only [splitChars, List.append_nil]
  | cons c cs ih =>
    have other : c ≠ sep := fun same => free (same ▸ List.mem_cons_self ..)
    have later : sep ∉ cs := fun member => free (List.mem_cons_of_mem _ member)
    simp only [splitChars, if_neg other, ih later, List.reverse_cons, List.append_assoc,
      List.singleton_append]

theorem splitChars_append {sep : Char} {piece cs cs' : List Char} :
    splitChars sep piece (cs ++ sep :: cs') =
      splitChars sep piece cs ++ splitChars sep [] cs' := by
  induction cs generalizing piece with
  | nil => simp only [List.nil_append, splitChars, if_true, List.singleton_append]
  | cons c cs ih =>
    by_cases same : c = sep
    · simp only [List.cons_append, splitChars, if_pos same, ih]
    · simp only [List.cons_append, splitChars, if_neg same, ih]

theorem split_free {sep : Char} {s : String} (free : sep ∉ s.toList) : split sep s = [s] := by
  unfold split
  rw [splitChars_free free]
  simp only [List.reverse_nil, List.nil_append, List.map_cons, List.map_nil, String.ofList_toList]

theorem split_append {sep : Char} {s t : String} :
    split sep (s ++ String.singleton sep ++ t) = split sep s ++ split sep t := by
  unfold split
  rw [← List.map_append, ← splitChars_append]
  simp only [String.toList_append, String.toList_singleton, List.append_assoc, List.singleton_append]

theorem splitChars_pieces {sep : Char} {piece cs : List Char} (free : sep ∉ piece) :
    ∀ part ∈ splitChars sep piece cs, sep ∉ part ∧ part <:+: piece.reverse ++ cs := by
  have clean : sep ∉ piece.reverse := fun inside => free (List.mem_reverse.mp inside)
  induction cs generalizing piece with
  | nil =>
    intro part member
    rw [List.mem_singleton.mp member, List.append_nil]
    exact ⟨clean, List.infix_refl _⟩
  | cons c cs ih =>
    intro part member
    rw [splitChars] at member
    split at member
    · rcases List.mem_cons.mp member with rfl | later
      · exact ⟨clean, (List.prefix_append _ _).isInfix⟩
      · obtain ⟨clean', inside⟩ := ih List.not_mem_nil (by simp) part later
        rw [List.reverse_nil, List.nil_append] at inside
        exact ⟨clean', inside.trans ((List.suffix_cons c cs).trans (List.suffix_append _ _)).isInfix⟩
    · rename_i other
      have free' : sep ∉ c :: piece := by simpa [free] using fun same => other same.symm
      obtain ⟨clean', inside⟩ := ih free' (fun inside => free' (List.mem_reverse.mp inside)) part member
      rw [List.reverse_cons, List.append_assoc, List.singleton_append] at inside
      exact ⟨clean', inside⟩

/-- A piece has no separator, and is a part of the text. -/
theorem split_pieces {sep : Char} {s : String} : ∀ part ∈ split sep s, sep ∉ part.toList ∧ part.toList <:+: s.toList := by
  intro part member
  unfold split at member
  obtain ⟨chars, read, rfl⟩ := List.mem_map.mp member
  obtain ⟨clean, inside⟩ := splitChars_pieces List.not_mem_nil chars read
  rw [String.toList_ofList]
  exact ⟨clean, inside⟩

/-- A name is checked for its length and its alphabet before anything else is made of it. -/
theorem checked_name_iff {ε α : Type} {valid : Char → Bool} {name : String} {n : Nat} {e : ε} {refusal : Char → ε}
    {rest : Except ε α} {a : α} :
    (if name.isEmpty ∨ name.utf8ByteSize > n then Except.error e
      else
        match name.toList.find? fun ch => !valid ch with
        | some ch => Except.error (refusal ch)
        | none => rest) = .ok a ↔
      name ≠ "" ∧ name.utf8ByteSize ≤ n ∧ (∀ c ∈ name.toList, valid c = true) ∧ rest = .ok a := by
  by_cases outside : name.isEmpty ∨ name.utf8ByteSize > n
  · rw [if_pos outside]
    refine iff_of_false (by simp) ?_
    rintro ⟨filled, short, -⟩
    rcases outside with empty | long
    · exact filled (String.isEmpty_iff.mp empty)
    · omega
  · rw [if_neg outside]
    obtain ⟨filled, short⟩ := not_or.mp outside
    cases found : name.toList.find? fun ch => !valid ch with
    | none =>
      have all : ∀ c ∈ name.toList, valid c = true := by simpa using List.find?_eq_none.mp found
      exact ⟨fun ok => ⟨fun empty => filled (String.isEmpty_iff.mpr empty), Nat.le_of_not_lt short, all, ok⟩, fun ok => ok.2.2.2⟩
    | some c =>
      refine iff_of_false (by simp) ?_
      rintro ⟨-, -, all, -⟩
      have bad := List.find?_some found
      rw [all c (List.mem_of_find?_eq_some found)] at bad
      cases bad

end Bsdos.Text
