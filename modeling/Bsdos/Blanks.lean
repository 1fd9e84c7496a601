import Bsdos.Text

namespace Bsdos.Text

variable {cs rest word : List Char} {c sep : Char}

/-- There is no blank at either end. -/
structure Trimmed (cs : List Char) : Prop where
  first : ∀ c, cs.head? = some c → isWhitespace c = false
  last : ∀ c, cs.getLast? = some c → isWhitespace c = false

theorem dropWhile_head {p : Char → Bool} (cs : List Char) : ∀ c, (cs.dropWhile p).head? = some c → p c = false := by
  intro c head
  have kept := List.head?_dropWhile_not p cs
  rw [head] at kept
  exact kept

theorem trimChars_trimmed (cs : List Char) : Trimmed (trimChars cs) := by
  have last : ∀ c, (trimChars cs).getLast? = some c → isWhitespace c = false := by
    intro c ends
    rw [trimChars, List.getLast?_reverse] at ends
    exact dropWhile_head _ c ends
  refine ⟨fun c begins => ?_, last⟩
  obtain ⟨front, whole⟩ := (List.dropWhile_suffix (l := (cs.dropWhile isWhitespace).reverse) isWhitespace)
  have kept : trimChars cs ++ front.reverse = cs.dropWhile isWhitespace := by
    rw [trimChars, ← List.reverse_append, whole, List.reverse_reverse]
  refine dropWhile_head cs c ?_
  rw [← kept, List.head?_append, begins, Option.some_or]

theorem dropWhile_trimmed (first : ∀ c, cs.head? = some c → isWhitespace c = false) : cs.dropWhile isWhitespace = cs := by
  cases cs with
  | nil => rfl
  | cons c cs => rw [List.dropWhile_cons, if_neg (by simp [first c rfl])]

/-- A text without blanks at its ends stays as it is. -/
theorem Trimmed.same (trimmed : Trimmed cs) : trimChars cs = cs := by
  rw [trimChars, dropWhile_trimmed trimmed.first, dropWhile_trimmed, List.reverse_reverse]
  exact fun c head => trimmed.last c (by rwa [List.head?_reverse] at head)

theorem words_blank (blank : isWhitespace c = true) (cs : List Char) : words [] (c :: cs) = words [] cs := by
  rw [words, if_pos blank, List.isEmpty_nil, if_pos rfl]

theorem words_dropWhile (cs : List Char) : words [] (cs.dropWhile isWhitespace) = words [] cs := by
  induction cs with
  | nil => rfl
  | cons c cs ih =>
    rw [List.dropWhile_cons]
    split
    · rename_i blank
      rw [ih, words_blank blank]
    · rfl

theorem words_solid (solid : ∀ c ∈ word, isWhitespace c = false) (read rest : List Char) :
    words read (word ++ rest) = words (word.reverse ++ read) rest := by
  induction word generalizing read with
  | nil => rfl
  | cons c word ih =>
    have here : isWhitespace c = false := solid c List.mem_cons_self
    rw [List.cons_append, words, if_neg (by simp [here]), ih fun d member => solid d (List.mem_cons_of_mem _ member)]
    simp

/-- A word up to the next blank comes first. -/
theorem words_first (solid : ∀ c ∈ word, isWhitespace c = false) (filled : word ≠ [])
    (ends : ∀ c, rest.head? = some c → isWhitespace c = true) : words [] (word ++ rest) = word :: words [] rest := by
  have some : ¬ word.reverse.isEmpty := by simpa using filled
  rw [words_solid solid, List.append_nil]
  cases rest with
  | nil => rw [words, if_neg some, List.reverse_reverse, words, List.isEmpty_nil, if_pos rfl]
  | cons c rest =>
    rw [words, if_pos (ends c rfl), if_neg some, List.reverse_reverse, words_blank (ends c rfl)]

/-- A text is blank, or it has a first word. -/
theorem words_cases (cs : List Char) : (∀ c ∈ cs, isWhitespace c = true) ∧ words [] cs = [] ∨
    ∃ indent word rest : List Char, (∀ c ∈ indent, isWhitespace c = true) ∧ word ≠ [] ∧
      (∀ c ∈ word, isWhitespace c = false) ∧ (∀ c, rest.head? = some c → isWhitespace c = true) ∧
      cs = indent ++ (word ++ rest) ∧ words [] cs = word :: words [] rest := by
  have whole := List.takeWhile_append_dropWhile (p := isWhitespace) (l := cs)
  have blank : ∀ c ∈ cs.takeWhile isWhitespace, isWhitespace c = true := fun c member => List.mem_takeWhile_imp member
  have begins := dropWhile_head (p := isWhitespace) cs
  rw [← words_dropWhile cs]
  generalize cs.dropWhile isWhitespace = later at whole begins
  cases later with
  | nil =>
    rw [List.append_nil] at whole
    exact .inl ⟨whole ▸ blank, rfl⟩
  | cons c later =>
    have split := List.takeWhile_append_dropWhile (p := fun c => !isWhitespace c) (l := c :: later)
    have solid : ∀ d ∈ (c :: later).takeWhile fun c => !isWhitespace c, isWhitespace d = false := fun d member => by
      simpa using List.mem_takeWhile_imp member
    have ends : ∀ d, ((c :: later).dropWhile fun c => !isWhitespace c).head? = some d → isWhitespace d = true :=
      fun d head => by simpa using dropWhile_head (c :: later) d head
    have filled : ((c :: later).takeWhile fun c => !isWhitespace c) ≠ [] := by simp [begins c rfl]
    have first := words_first solid filled ends
    rw [split] at first
    exact .inr ⟨_, _, _, blank, filled, solid, ends, by rw [split, whole], first⟩

/-- A text without the separator is the only piece. -/
theorem splitnChars_whole {n : Nat} (free : sep ∉ cs) : splitnChars sep (n + 1) cs = [cs] := by
  cases n with
  | zero => rfl
  | succ n =>
    have whole : cs.span (· ≠ sep) = (cs, []) := by
      have kept : ∀ c ∈ cs, decide (c ≠ sep) = true := fun c member => by
        have other : c ≠ sep := fun same => free (same ▸ member)
        simpa only [decide_eq_true_eq] using other
      rw [List.span_eq_takeWhile_dropWhile, List.takeWhile_eq_self_iff.mpr kept, List.dropWhile_eq_nil_iff.mpr kept]
    rw [splitnChars, whole]

/-- Where a text has a separator, it has a first one. -/
theorem splitnChars_cases (sep : Char) (n : Nat) (cs : List Char) :
    sep ∉ cs ∧ splitnChars sep (n + 2) cs = [cs] ∨ ∃ piece rest : List Char, sep ∉ piece ∧ cs = piece ++ sep :: rest ∧
      splitnChars sep (n + 2) cs = piece :: splitnChars sep (n + 1) rest := by
  by_cases free : sep ∈ cs
  · obtain ⟨piece, rest, rfl, before⟩ := List.eq_append_cons_of_mem free
    exact .inr ⟨piece, rest, before, rfl, splitnChars_piece before⟩
  · exact .inl ⟨free, splitnChars_whole free⟩

/-! The same for texts. -/

variable {s piece rest word : String}

theorem trim_trimmed (s : String) : Trimmed (trim s).toList := by
  unfold trim
  rw [String.toList_ofList]
  exact trimChars_trimmed _

theorem trim_same (trimmed : Trimmed s.toList) : trim s = s := by
  unfold trim
  rw [trimmed.same, String.ofList_toList]

theorem splitn_whole {n : Nat} (free : sep ∉ s.toList) : splitn (n + 1) sep s = [s] := by
  unfold splitn
  rw [splitnChars_whole free, List.map_singleton, String.ofList_toList]

theorem splitn_piece {n : Nat} (free : sep ∉ piece.toList) (rest : String) :
    splitn (n + 2) sep (piece ++ String.singleton sep ++ rest) = piece :: splitn (n + 1) sep rest := by
  have text : (piece ++ String.singleton sep ++ rest).toList = piece.toList ++ sep :: rest.toList := by
    rw [String.toList_append, String.toList_append, String.toList_singleton, List.append_assoc]
    rfl
  unfold splitn
  rw [text, splitnChars_piece free, List.map_cons, String.ofList_toList]

theorem splitn_cases (sep : Char) (n : Nat) (s : String) :
    sep ∉ s.toList ∧ splitn (n + 2) sep s = [s] ∨ ∃ piece rest : String, sep ∉ piece.toList ∧
      s = piece ++ String.singleton sep ++ rest ∧ splitn (n + 2) sep s = piece :: splitn (n + 1) sep rest := by
  rcases splitnChars_cases sep n s.toList with ⟨free, -⟩ | ⟨piece, rest, free, whole, -⟩
  · exact .inl ⟨free, splitn_whole free⟩
  · have same : s = String.ofList piece ++ String.singleton sep ++ String.ofList rest := by
      refine String.toList_inj.mp ?_
      rw [String.toList_append, String.toList_append, String.toList_singleton, String.toList_ofList, String.toList_ofList,
        whole, List.append_assoc]
      rfl
    have free' : sep ∉ (String.ofList piece).toList := by rwa [String.toList_ofList]
    exact .inr ⟨_, _, free', same, same ▸ splitn_piece free' _⟩

theorem splitWhitespace_word (solid : ∀ c ∈ word.toList, isWhitespace c = false) (filled : word ≠ "")
    (ends : ∀ c, rest.toList.head? = some c → isWhitespace c = true) :
    splitWhitespace (word ++ rest) = word :: splitWhitespace rest := by
  have some : word.toList ≠ [] := fun none => filled (String.toList_eq_nil_iff.mp none)
  unfold splitWhitespace
  rw [String.toList_append, words_first solid some ends, List.map_cons, String.ofList_toList]

theorem splitWhitespace_blank (blank : isWhitespace c = true) (s : String) :
    splitWhitespace (String.singleton c ++ s) = splitWhitespace s := by
  unfold splitWhitespace
  rw [String.toList_append, String.toList_singleton, List.singleton_append, words_blank blank]

/-- A text is blank, or it has a first word. -/
theorem splitWhitespace_cases (s : String) : (∀ c ∈ s.toList, isWhitespace c = true) ∧ splitWhitespace s = [] ∨
    ∃ indent word rest : String, (∀ c ∈ indent.toList, isWhitespace c = true) ∧ word ≠ "" ∧
      (∀ c ∈ word.toList, isWhitespace c = false) ∧ (∀ c, rest.toList.head? = some c → isWhitespace c = true) ∧
      s = indent ++ (word ++ rest) ∧ splitWhitespace s = word :: splitWhitespace rest := by
  unfold splitWhitespace
  rcases words_cases s.toList with ⟨blank, none⟩ | ⟨indent, word, rest, blank, filled, solid, ends, whole, first⟩
  · exact .inl ⟨blank, by rw [none, List.map_nil]⟩
  · refine .inr ⟨String.ofList indent, String.ofList word, String.ofList rest, ?_, ?_, ?_, ?_, ?_, ?_⟩
    · rwa [String.toList_ofList]
    · exact fun empty => filled (by rw [← String.toList_ofList (l := word), empty]; rfl)
    · rwa [String.toList_ofList]
    · rwa [String.toList_ofList]
    · rw [← String.ofList_append, ← String.ofList_append, ← whole, String.ofList_toList]
    · rw [first, List.map_cons, String.toList_ofList]

end Bsdos.Text
