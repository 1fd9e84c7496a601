import Bsdos.Text

namespace Bsdos.Text

variable {line front back cs : List Char} {c : Char}

/-- A line that is ended is read before what comes after it. -/
theorem linesChars_append (line front back : List Char) :
    linesChars line (front ++ '\n' :: back) = linesChars line (front ++ ['\n']) ++ linesChars [] back := by
  induction front generalizing line with
  | nil => simp only [List.nil_append, linesChars, if_true, List.isEmpty_nil, List.cons_append]
  | cons c front ih =>
    rw [List.cons_append, List.cons_append, linesChars, linesChars]
    split
    · rw [ih, List.cons_append]
    · rw [ih]

/-- The last line may do without its end. -/
theorem linesChars_last (line front : List Char) {last : Char} (newline : last ≠ '\n') (carriage : last ≠ '\r') :
    linesChars line (front ++ [last]) = linesChars line (front ++ [last, '\n']) := by
  induction front generalizing line with
  | nil => simp [linesChars, newline, carriage]
  | cons c front ih =>
    rw [List.cons_append, List.cons_append, linesChars, linesChars]
    split
    · rw [ih]
    · rw [ih]

/-- A line is a part of the text. -/
theorem linesChars_infix (line cs : List Char) {read : List Char} (member : read ∈ linesChars line cs) :
    read <:+: line.reverse ++ cs := by
  induction cs generalizing line with
  | nil =>
    rw [linesChars] at member
    split at member
    · cases member
    · rw [List.mem_singleton.mp member, List.append_nil]
  | cons c cs ih =>
    rw [linesChars] at member
    split at member
    · rcases List.mem_cons.mp member with rfl | later
      · have inside : (if line.head? = some '\r' then line.tail else line).reverse <:+: line.reverse := by
          rw [List.reverse_infix]
          split
          · exact (List.tail_suffix line).isInfix
          · exact List.infix_refl _
        exact inside.trans (List.prefix_append _ _).isInfix
      · have inside := ih [] later
        rw [List.reverse_nil, List.nil_append] at inside
        exact inside.trans ((List.suffix_cons c cs).trans (List.suffix_append _ _)).isInfix
    · have inside := ih (c :: line) member
      rwa [List.reverse_cons, List.append_assoc, List.singleton_append] at inside

/-- What comes before the first end of a line is its line. -/
theorem linesChars_first (line front back : List Char) (whole : '\n' ∉ front) :
    linesChars line (front ++ '\n' :: back) =
      (if (front.reverse ++ line).head? = some '\r' then (front.reverse ++ line).tail else front.reverse ++ line).reverse ::
        linesChars [] back := by
  induction front generalizing line with
  | nil =>
    rw [List.nil_append, linesChars, if_pos rfl]
    rfl
  | cons c front ih =>
    rw [List.mem_cons, not_or] at whole
    have other : c ≠ '\n' := fun same => whole.1 same.symm
    rw [List.cons_append, linesChars, if_neg other, ih _ whole.2, List.reverse_cons, List.append_assoc, List.singleton_append]

theorem linesChars_clean {line cs : List Char} (free : '\n' ∉ line) : ∀ read ∈ linesChars line cs, '\n' ∉ read := by
  induction cs generalizing line with
  | nil =>
    intro read member
    rw [linesChars] at member
    split at member
    · cases member
    · rw [List.mem_singleton.mp member]
      exact fun inside => free (List.mem_reverse.mp inside)
  | cons c cs ih =>
    intro read member
    rw [linesChars] at member
    split at member
    · rcases List.mem_cons.mp member with rfl | later
      · intro inside
        have inside := List.mem_reverse.mp inside
        split at inside
        · exact free (List.mem_of_mem_tail inside)
        · exact free inside
      · exact ih List.not_mem_nil read later
    · rename_i other
      exact ih (by simpa [free] using fun same => other same.symm) read member

/-- What is before a text on its first line stays there, if it leaves the end of the line alone. -/
theorem linesChars_front {front : List Char} (free : '\n' ∉ front) (ends : front.getLast? ≠ some '\r') (cs : List Char) :
    ∃ first rest, linesChars [] (cs ++ ['\n']) = first :: rest ∧ linesChars [] (front ++ (cs ++ ['\n'])) = (front ++ first) :: rest := by
  obtain ⟨head, back, whole, cut⟩ : ∃ head back, '\n' ∉ head ∧ cs ++ ['\n'] = head ++ '\n' :: back := by
    by_cases more : '\n' ∈ cs
    · obtain ⟨head, back, rfl, whole⟩ := List.eq_append_cons_of_mem more
      exact ⟨head, back ++ ['\n'], whole, by simp⟩
    · exact ⟨cs, [], more, rfl⟩
  have front_whole : '\n' ∉ front ++ head := fun inside => (List.mem_append.mp inside).elim free whole
  refine ⟨_, _, by rw [cut, linesChars_first _ _ _ whole], ?_⟩
  rw [cut, ← List.append_assoc, linesChars_first _ _ _ front_whole]
  cases reversed : head.reverse with
  | nil =>
    rw [List.reverse_append, reversed, List.nil_append, List.append_nil, List.nil_append, List.head?_reverse, if_neg ends,
      List.head?_nil, if_neg nofun, List.reverse_reverse, List.reverse_nil, List.append_nil]
  | cons c more =>
    simp only [List.reverse_append, reversed, List.cons_append, List.append_nil, List.head?_cons, List.tail_cons]
    split <;> simp

theorem lines_append (front back : String) : lines (front ++ "\n" ++ back) = lines (front ++ "\n") ++ lines back := by
  have newline : "\n".toList = ['\n'] := by decide
  unfold lines
  simp only [String.toList_append, newline, List.append_assoc, List.singleton_append]
  rw [linesChars_append, List.map_append]

theorem lines_clean {s : String} : ∀ line ∈ lines s, '\n' ∉ line.toList := by
  intro line member
  unfold lines at member
  obtain ⟨chars, read, rfl⟩ := List.mem_map.mp member
  rw [String.toList_ofList]
  exact linesChars_clean List.not_mem_nil chars read

theorem lines_front {front : String} (free : '\n' ∉ front.toList) (ends : front.toList.getLast? ≠ some '\r') (s : String) :
    ∃ first rest, lines (s ++ "\n") = first :: rest ∧ lines (front ++ s ++ "\n") = (front ++ first) :: rest := by
  have newline : "\n".toList = ['\n'] := by decide
  obtain ⟨first, rest, alone, behind⟩ := linesChars_front free ends s.toList
  refine ⟨String.ofList first, rest.map String.ofList, ?_, ?_⟩
  · unfold lines
    rw [String.toList_append, newline, alone, List.map_cons]
  · unfold lines
    rw [String.append_assoc, String.toList_append, String.toList_append, newline, behind, List.map_cons,
      String.ofList_append, String.ofList_toList]

theorem trimChars_infix (cs : List Char) : trimChars cs <:+: cs := by
  unfold trimChars
  have front : (cs.dropWhile isWhitespace).reverse.dropWhile isWhitespace <:+ (cs.dropWhile isWhitespace).reverse :=
    List.dropWhile_suffix _
  have back := List.reverse_prefix.mpr front
  rw [List.reverse_reverse] at back
  exact back.isInfix.trans (List.dropWhile_suffix _).isInfix

theorem dropWhile_blank {indent rest : List Char} (blank : ∀ c ∈ indent, isWhitespace c = true) (solid : isWhitespace c = false) :
    (indent ++ c :: rest).dropWhile isWhitespace = c :: rest := by
  induction indent with
  | nil => simp [solid]
  | cons d indent ih =>
    rw [List.cons_append, List.dropWhile_cons, if_pos (blank d List.mem_cons_self)]
    exact ih fun c member => blank c (List.mem_cons_of_mem _ member)

theorem dropWhile_keeps {solid : isWhitespace c = false} (front back : List Char) :
    ∃ kept, (front ++ c :: back).dropWhile isWhitespace = kept ++ c :: back ∧ (front = [] → kept = []) := by
  induction front with
  | nil => exact ⟨[], dropWhile_blank (by simp) solid, fun _ => rfl⟩
  | cons d front ih =>
    rw [List.cons_append, List.dropWhile_cons]
    split
    · obtain ⟨kept, cut, _⟩ := ih
      exact ⟨kept, cut, fun wrong => nomatch wrong⟩
    · exact ⟨d :: front, rfl, fun wrong => nomatch wrong⟩

/-- Trimming keeps what begins and ends with a character that is not blank. -/
theorem trimChars_keeps {indent : List Char} (blank : ∀ c ∈ indent, isWhitespace c = true) {c d : Char}
    (solid : isWhitespace c = false) (solid' : isWhitespace d = false) (middle rest : List Char) :
    ∃ kept, trimChars (indent ++ c :: (middle ++ d :: rest)) = c :: (middle ++ d :: kept) ∧ (rest = [] → kept = []) := by
  obtain ⟨kept, cut, none⟩ := @dropWhile_keeps d solid' rest.reverse (middle.reverse ++ [c])
  have back : (c :: (middle ++ d :: rest)).reverse = rest.reverse ++ d :: (middle.reverse ++ [c]) := by simp
  refine ⟨kept.reverse, ?_, fun empty => ?_⟩
  · rw [trimChars, dropWhile_blank blank solid, back, cut]
    simp
  · rw [none (by rw [empty]; rfl)]
    rfl

end Bsdos.Text
