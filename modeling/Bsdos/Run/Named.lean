import Bsdos.Lifecycle.Calls
import Bsdos.Run.Jpk
import Mathlib.Data.List.TakeWhile

namespace Bsdos.Run
open Plist Toml

def letterOrDot (c : Char) : Bool := c.isAlphanum || c = '.'

/-- The letters and digits of an identifier in lower case, with its dots. -/
def lettersAndDots (cs : List Char) : List Char := (cs.filter letterOrDot).map Char.toLower

/-- The parts of an identifier between its dots, reduced to their letters and digits in lower
case; parts that have none are left out. -/
def words (cs : List Char) : List (List Char) := (Text.splitChars '.' [] (lettersAndDots cs)).filter (· ≠ [])

/-- The last of them. -/
def lastWord (id : String) : List Char := (words id.toList).getLastD "unknownipa".toList

theorem isAlphanum_eq (c : Char) : c.isAlphanum =
    (decide ('A'.val ≤ c.val ∧ c.val ≤ 'Z'.val) || decide ('a'.val ≤ c.val) && decide (c.val ≤ 'z'.val) ||
      decide ('0'.val ≤ c.val) && decide (c.val ≤ '9'.val)) := rfl

theorem isAlphanum_toLower {c : Char} (letter : c.isAlphanum = true) :
    c.toLower.isAlphanum = true ∧ Pkgd.validAppIdChar c.toLower = true ∧ c.toLower.toLower = c.toLower ∧
      c.toLower ≠ '.' ∧ Lifecycle.validChar c.toLower = true ∧ c.toLower.utf8Size = 1 := by
  have ascii : ∀ n < 128, (Char.ofNat n).isAlphanum = true → (Char.ofNat n).toLower.isAlphanum = true ∧
      Pkgd.validAppIdChar (Char.ofNat n).toLower = true ∧ (Char.ofNat n).toLower.toLower = (Char.ofNat n).toLower ∧
      (Char.ofNat n).toLower ≠ '.' ∧ Lifecycle.validChar (Char.ofNat n).toLower = true ∧
      (Char.ofNat n).toLower.utf8Size = 1 := by
    decide
  have small : c.toNat < 128 := by
    simp only [isAlphanum_eq, Bool.or_eq_true, Bool.and_eq_true, decide_eq_true_eq, UInt32.le_iff_toNat_le] at letter
    have least : 'Z'.val.toNat = 90 ∧ 'z'.val.toNat = 122 ∧ '9'.val.toNat = 57 := by decide
    have number : c.toNat = c.val.toNat := rfl
    simp only [Char.reduceVal, UInt32.reduceToNat] at letter
    omega
  have same := ascii c.toNat small
  rw [Char.ofNat_toNat] at same
  exact same letter

theorem not_isAlphanum_toLower {c : Char} (other : c.isAlphanum = false) :
    c.toLower = c ∧ (Pkgd.validAppIdChar c = true ↔ c = '.' ∨ c = '-') := by
  simp only [isAlphanum_eq, Bool.or_eq_false_iff, Bool.and_eq_false_iff, decide_eq_false_iff_not] at other
  obtain ⟨⟨upper, lower⟩, digit⟩ := other
  constructor
  · exact dif_neg upper
  · simp only [Pkgd.validAppIdChar, decide_eq_true_eq]
    constructor
    · rintro (inside | inside | dot | hyphen)
      · rcases lower with below | above
        · exact absurd inside.1 below
        · exact absurd inside.2 above
      · rcases digit with below | above
        · exact absurd inside.1 below
        · exact absurd inside.2 above
      · exact Or.inl dot
      · exact Or.inr hyphen
    · rintro (dot | hyphen)
      · exact Or.inr (Or.inr (Or.inl dot))
      · exact Or.inr (Or.inr (Or.inr hyphen))

/-- What becomes of a character of a bundle identifier. -/
def sanitisedChar (c : Char) : Char := if Pkgd.validAppIdChar c.toLower then c.toLower else '-'

def separator (c : Char) : Bool := c = '.' || c = '-'

theorem sanitisedChar_cases (c : Char) :
    (c.isAlphanum = true ∧ sanitisedChar c = c.toLower) ∨ (c = '.' ∧ sanitisedChar c = '.') ∨
      (c.isAlphanum = false ∧ c ≠ '.' ∧ sanitisedChar c = '-') := by
  unfold sanitisedChar
  cases letter : c.isAlphanum with
  | true =>
    obtain ⟨_, valid, _⟩ := isAlphanum_toLower letter
    exact Or.inl ⟨rfl, if_pos valid⟩
  | false =>
    obtain ⟨lower, valid⟩ := not_isAlphanum_toLower letter
    rw [lower]
    by_cases dot : c = '.'
    · exact Or.inr (Or.inl ⟨dot, by rw [dot]; decide⟩)
    · refine Or.inr (Or.inr ⟨rfl, dot, ?_⟩)
      split
      · rename_i accepted
        exact (valid.mp accepted).resolve_left dot
      · rfl

/-- Such a character is its own lower case, and a letter or digit where it separates nothing. -/
theorem sanitisedChar_clean (c : Char) : (sanitisedChar c).toLower = sanitisedChar c ∧
    (separator (sanitisedChar c) = false → (sanitisedChar c).isAlphanum = true) := by
  rcases sanitisedChar_cases c with ⟨letter, same⟩ | ⟨_, same⟩ | ⟨_, _, same⟩
  · rw [same]
    obtain ⟨alphanum, _, lower, _⟩ := isAlphanum_toLower letter
    exact ⟨lower, fun _ => alphanum⟩
  · rw [same]
    decide
  · rw [same]
    decide

theorem letterOrDot_letter {c : Char} (letter : c.isAlphanum = true) : letterOrDot c = true := by
  unfold letterOrDot
  rw [letter]
  rfl

theorem lettersAndDots_sanitised (cs : List Char) : lettersAndDots (cs.map sanitisedChar) = lettersAndDots cs := by
  induction cs with
  | nil => rfl
  | cons c cs ih =>
    unfold lettersAndDots at ih ⊢
    rw [List.map_cons]
    rcases sanitisedChar_cases c with ⟨letter, same⟩ | ⟨dot, same⟩ | ⟨other, undotted, same⟩
    · obtain ⟨alphanum, _, lower, _⟩ := isAlphanum_toLower letter
      rw [same, List.filter_cons_of_pos (letterOrDot_letter alphanum),
        List.filter_cons_of_pos (letterOrDot_letter letter), List.map_cons, List.map_cons, lower, ih]
    · rw [same, dot, List.filter_cons_of_pos (by decide), List.filter_cons_of_pos (by decide), List.map_cons,
        List.map_cons, ih]
    · have out : ¬letterOrDot c = true := by
        unfold letterOrDot
        rw [other, decide_eq_false undotted]
        decide
      rw [same, List.filter_cons_of_neg (by decide), List.filter_cons_of_neg out, ih]

theorem lettersAndDots_append (cs cs' : List Char) :
    lettersAndDots (cs ++ cs') = lettersAndDots cs ++ lettersAndDots cs' := by
  unfold lettersAndDots
  rw [List.filter_append, List.map_append]

theorem words_append_dot (cs cs' : List Char) : words (cs ++ '.' :: cs') = words cs ++ words cs' := by
  have dot : lettersAndDots ('.' :: cs') = '.' :: lettersAndDots cs' := rfl
  unfold words
  rw [lettersAndDots_append, dot, Text.splitChars_append, List.filter_append]

/-- A part without a dot is one word, or none where it has no letter or digit. -/
theorem words_free {cs : List Char} (free : '.' ∉ cs) :
    words cs = [(cs.filter Char.isAlphanum).map Char.toLower].filter (· ≠ []) := by
  have letters : lettersAndDots cs = (cs.filter Char.isAlphanum).map Char.toLower := by
    refine congrArg (List.map Char.toLower) (List.filter_congr fun c member => ?_)
    have other : c ≠ '.' := fun same => free (same ▸ member)
    rw [letterOrDot, decide_eq_false other, Bool.or_false]
  have still : '.' ∉ (cs.filter Char.isAlphanum).map Char.toLower := by
    intro member
    obtain ⟨c, kept, dot⟩ := List.mem_map.mp member
    exact (isAlphanum_toLower (List.mem_filter.mp kept).2).2.2.2.1 dot
  unfold words
  rw [letters, Text.splitChars_free still, List.reverse_nil, List.nil_append]

theorem words_separators_before {junk : List Char} (only : ∀ c ∈ junk, separator c = true) (cs : List Char) :
    words (junk ++ cs) = words cs := by
  induction junk with
  | nil => rfl
  | cons c junk ih =>
    rw [← ih fun c' member => only c' (List.mem_cons_of_mem _ member)]
    have either := only c (List.mem_cons_self ..)
    simp only [separator, Bool.or_eq_true, decide_eq_true_eq] at either
    rcases either with rfl | rfl
    · exact words_append_dot [] (junk ++ cs)
    · rfl

theorem words_separators_after {junk : List Char} (only : ∀ c ∈ junk, separator c = true) (cs : List Char) :
    words (cs ++ junk) = words cs := by
  induction junk generalizing cs with
  | nil => rw [List.append_nil]
  | cons c junk ih =>
    have later : words (cs ++ c :: junk) = words (cs ++ [c]) := by
      rw [← ih (fun c' member => only c' (List.mem_cons_of_mem _ member)) (cs ++ [c]), List.append_assoc]
      rfl
    have either := only c (List.mem_cons_self ..)
    simp only [separator, Bool.or_eq_true, decide_eq_true_eq] at either
    rw [later]
    rcases either with rfl | rfl
    · rw [words_append_dot]
      exact List.append_nil _
    · unfold words
      rw [lettersAndDots_append]
      exact congrArg (fun letters => (Text.splitChars '.' [] letters).filter (· ≠ [])) (List.append_nil _)

/-- An identifier without the separators around it. -/
def trimmed (cs : List Char) : List Char := ((cs.dropWhile separator).reverse.dropWhile separator).reverse

theorem words_trimmed (cs : List Char) : words (trimmed cs) = words cs := by
  have junk : ∀ c ∈ cs.takeWhile separator, separator c = true := fun c member => List.mem_takeWhile_imp member
  have before := words_separators_before junk (cs.dropWhile separator)
  rw [List.takeWhile_append_dropWhile] at before
  have whole := congrArg List.reverse
    (@List.takeWhile_append_dropWhile _ separator (cs.dropWhile separator).reverse)
  rw [List.reverse_append, List.reverse_reverse] at whole
  rw [before, ← whole]
  refine (words_separators_after (fun c member => ?_) _).symm
  exact List.mem_takeWhile_imp (List.mem_reverse.mp member)

theorem trimmed_last (cs : List Char) : trimmed cs = [] ∨ ∃ front c, trimmed cs = front ++ [c] ∧ separator c = false := by
  unfold trimmed
  cases kept : (cs.dropWhile separator).reverse.dropWhile separator with
  | nil => exact Or.inl rfl
  | cons c rest =>
    refine Or.inr ⟨rest.reverse, c, by rw [List.reverse_cons], ?_⟩
    have head := List.head?_dropWhile_not separator (cs.dropWhile separator).reverse
    rw [kept] at head
    simpa using head

theorem trimmed_mem {cs : List Char} {c : Char} (member : c ∈ trimmed cs) : c ∈ cs := by
  have inside := List.dropWhile_suffix separator |>.subset (List.mem_reverse.mp member)
  exact List.dropWhile_suffix separator |>.subset (List.mem_reverse.mp inside)

section parts
variable {front back : List Char} (free : '.' ∉ back) (lower : ∀ c ∈ back, c.toLower = c)
  (some_letter : back.filter Char.isAlphanum ≠ [])
include free some_letter

/-- The name for a jail is made of the letters and digits that follow the last dot. -/
theorem deriveJailName_parts :
    deriveJailName (String.ofList (front ++ '.' :: back)) = "app_" ++ String.ofList (back.filter Char.isAlphanum) := by
  have cut : String.ofList (front ++ '.' :: back) =
      String.ofList front ++ String.singleton '.' ++ String.ofList back := by
    refine String.toList_inj.mp ?_
    simp only [String.toList_append, String.toList_ofList, String.toList_singleton, List.append_assoc,
      List.singleton_append]
  have alone : Text.split '.' (String.ofList back) = [String.ofList back] :=
    Text.split_free (by rw [String.toList_ofList]; exact free)
  unfold deriveJailName
  rw [cut, Text.split_append, alone, List.getLastD_concat]
  dsimp only
  rw [String.toList_ofList, if_neg (by simpa using some_letter)]

include lower

theorem words_back : words back = [back.filter Char.isAlphanum] := by
  have still : (back.filter Char.isAlphanum).map Char.toLower = back.filter Char.isAlphanum :=
    (List.map_congr_left fun c member => lower c (List.mem_filter.mp member).1).trans (List.map_id _)
  rw [words_free free, still]
  exact List.filter_cons_of_pos (decide_eq_true some_letter)

end parts

/-- A list that holds a dot is cut at its last one. -/
theorem cut_last_dot {cs : List Char} (dot : '.' ∈ cs) : ∃ front back, cs = front ++ '.' :: back ∧ '.' ∉ back := by
  obtain ⟨back, front, cut, free⟩ := List.eq_append_cons_of_mem (List.mem_reverse.mpr dot)
  refine ⟨front.reverse, back.reverse, ?_, fun member => free (List.mem_reverse.mp member)⟩
  have whole := congrArg List.reverse cut
  rw [List.reverse_reverse, List.reverse_append, List.reverse_cons, List.append_assoc] at whole
  exact whole

/-- The jail of an application is named by the last word of its bundle identifier. -/
theorem deriveJailName_sanitise (id : String) :
    deriveJailName (sanitiseAppId id) = "app_" ++ String.ofList (lastWord id) := by
  have unfolded : sanitiseAppId id = if (trimmed (id.toList.map sanitisedChar)).isEmpty then "org.bsdos.unknown-ipa"
      else if !(trimmed (id.toList.map sanitisedChar)).contains '.' then
        "org.bsdos." ++ String.ofList (trimmed (id.toList.map sanitisedChar))
      else String.ofList (trimmed (id.toList.map sanitisedChar)) := rfl
  have same : words (trimmed (id.toList.map sanitisedChar)) = words id.toList := by
    rw [words_trimmed]
    unfold words
    rw [lettersAndDots_sanitised]
  have clean : ∀ c ∈ trimmed (id.toList.map sanitisedChar), c.toLower = c ∧ (separator c = false → c.isAlphanum = true) := by
    intro c member
    obtain ⟨c, _, rfl⟩ := List.mem_map.mp (trimmed_mem member)
    exact sanitisedChar_clean c
  have last := trimmed_last (id.toList.map sanitisedChar)
  unfold lastWord
  rw [unfolded, ← same]
  generalize trimmed (id.toList.map sanitisedChar) = s at last clean ⊢
  rcases last with rfl | ⟨front, c, whole, kept⟩
  · decide +kernel
  have lower : ∀ c ∈ s, c.toLower = c := fun c member => (clean c member).1
  have letter : c.isAlphanum = true := (clean c (by rw [whole]; simp)).2 kept
  have filled : ¬s.isEmpty = true := by
    rw [whole]
    simp
  rw [if_neg filled]
  by_cases dot : '.' ∈ s
  · obtain ⟨front', back, cut, free⟩ := cut_last_dot dot
    have member : c ∈ back := by
      cases back with
      | nil =>
        have ends := congrArg List.getLast? (whole.symm.trans cut)
        rw [List.getLast?_concat, List.getLast?_concat] at ends
        rw [Option.some.inj ends] at kept
        cases kept
      | cons first back =>
        have ends := congrArg List.getLast? (whole.symm.trans cut)
        rw [List.getLast?_concat, List.getLast?_append_cons, List.getLast?_cons_cons] at ends
        exact List.mem_of_getLast? ends.symm
    have some_letter : back.filter Char.isAlphanum ≠ [] := List.ne_nil_of_mem (List.mem_filter.mpr ⟨member, letter⟩)
    have contained : ¬(!s.contains '.') = true := by simpa using dot
    have lower' : ∀ c ∈ back, c.toLower = c := fun c inside => lower c (by rw [cut]; simp [inside])
    rw [if_neg contained, cut, deriveJailName_parts free some_letter, words_append_dot, words_back free lower' some_letter,
      List.getLastD_concat]
  · have some_letter : s.filter Char.isAlphanum ≠ [] :=
      List.ne_nil_of_mem (List.mem_filter.mpr ⟨by rw [whole]; simp, letter⟩)
    have uncontained : (!s.contains '.') = true := by simpa using dot
    have named : "org.bsdos." ++ String.ofList s = String.ofList ("org.bsdos".toList ++ '.' :: s) := by
      refine String.toList_inj.mp ?_
      simp only [String.toList_append, String.toList_ofList]
      rfl
    rw [if_pos uncontained, named, deriveJailName_parts dot some_letter, words_back dot lower some_letter]
    rfl

theorem lastWord_letter {id : String} : ∀ c ∈ lastWord id, Lifecycle.validChar c = true ∧ c.utf8Size = 1 := by
  unfold lastWord words
  intro c member
  rcases List.eq_nil_or_concat ((Text.splitChars '.' [] (lettersAndDots id.toList)).filter (· ≠ [])) with
    none | ⟨front, word, cut⟩
  · rw [none] at member
    have fallback : "unknownipa".toList.all (fun c => Lifecycle.validChar c && c.utf8Size == 1) = true := by decide
    simpa using List.all_eq_true.mp fallback c member
  · rw [List.concat_eq_append] at cut
    rw [cut, List.getLastD_concat] at member
    have listed : word ∈ (Text.splitChars '.' [] (lettersAndDots id.toList)).filter (· ≠ []) := by
      rw [cut]
      exact List.mem_append_right _ (List.mem_singleton_self _)
    obtain ⟨free, inside⟩ := Text.splitChars_pieces List.not_mem_nil word (List.mem_filter.mp listed).1
    obtain ⟨raw, kept, rfl⟩ := List.mem_map.mp (inside.subset member)
    have letter : raw.isAlphanum = true := by
      rcases Bool.or_eq_true _ _ |>.mp (List.mem_filter.mp kept).2 with letter | dot
      · exact letter
      · have dot := of_decide_eq_true dot
        subst dot
        exact absurd member free
    obtain ⟨_, _, _, _, valid, single⟩ := isAlphanum_toLower letter
    exact ⟨valid, single⟩

theorem utf8ByteSize_single {word : List Char} (single : ∀ c ∈ word, c.utf8Size = 1) :
    (String.ofList word).utf8ByteSize = word.length := by
  induction word with
  | nil => rfl
  | cons c word ih =>
    have cut : String.ofList (c :: word) = String.singleton c ++ String.ofList word := by
      refine String.toList_inj.mp ?_
      simp only [String.toList_append, String.toList_ofList, String.toList_singleton, List.singleton_append]
    rw [cut, String.utf8ByteSize_append, String.utf8ByteSize_singleton, single c (List.mem_cons_self ..),
      ih fun c' member => single c' (List.mem_cons_of_mem _ member), List.length_cons, Nat.add_comm]

/-- What the daemon makes of the name. -/
theorem validateJailId_app_iff {word : List Char} (letters : ∀ c ∈ word, Lifecycle.validChar c = true ∧ c.utf8Size = 1) :
    Lifecycle.validateJailId ("app_" ++ String.ofList word) = .ok ("app_" ++ String.ofList word) ↔ word.length ≤ 60 := by
  have size : ("app_" ++ String.ofList word).utf8ByteSize = 4 + word.length := by
    rw [String.utf8ByteSize_append, utf8ByteSize_single fun c member => (letters c member).2]
    rfl
  have front : ∀ c ∈ "app_".toList, Lifecycle.validChar c = true := List.all_eq_true.mp (by decide)
  have valid : ∀ c ∈ ("app_" ++ String.ofList word).toList, Lifecycle.validChar c = true := by
    rw [String.toList_append]
    intro c member
    rcases List.mem_append.mp member with inside | inside
    · exact front c inside
    · rw [String.toList_ofList] at inside
      exact (letters c inside).1
  rw [Lifecycle.validateJailId_ok_iff, size]
  constructor
  · rintro ⟨-, -, short, -⟩
    omega
  · intro short
    refine ⟨rfl, ?_, by omega, valid⟩
    rw [ne_eq, ← String.toList_inj, String.toList_append]
    nofun

/-- The jail a descriptor asks for. -/
def jailName (sections : List Section) : Option Scalar := (sections.lookup "runtime").bind (·.lookup "jail_name")

/-- A value the lifecycle daemon takes for the name of a jail. -/
def NamesJail (value : Option Scalar) : Prop := ∃ name, value = some (.string name) ∧ Lifecycle.validateJailId name = .ok name

/-- The descriptors of two applications ask for different jails, and the lifecycle daemon
accepts the names of both. -/
structure KeptApart (bundle bundle' : BundleInfo) : Prop where
  differ : ∀ policy policy', jailName (produced bundle policy) ≠ jailName (produced bundle' policy')
  accepted : ∀ policy, NamesJail (jailName (produced bundle policy))
  accepted' : ∀ policy, NamesJail (jailName (produced bundle' policy))

theorem jailName_produced (bundle : BundleInfo) (policy : JailPolicy) :
    jailName (produced bundle policy) = some (.string ("app_" ++ String.ofList (lastWord bundle.bundleIdentifier))) := by
  rw [← deriveJailName_sanitise]
  rfl

theorem namesJail_iff (bundle : BundleInfo) (policy : JailPolicy) :
    NamesJail (jailName (produced bundle policy)) ↔ (lastWord bundle.bundleIdentifier).length ≤ 60 := by
  rw [jailName_produced, ← validateJailId_app_iff lastWord_letter]
  constructor
  · rintro ⟨name, same, accepted⟩
    rw [Scalar.string.inj (Option.some.inj same)]
    exact accepted
  · exact fun accepted => ⟨_, rfl, accepted⟩

theorem app_inj {word word' : List Char} :
    some (Scalar.string ("app_" ++ String.ofList word)) = some (.string ("app_" ++ String.ofList word')) ↔ word = word' := by
  constructor
  · intro same
    have names : "app_" ++ String.ofList word = "app_" ++ String.ofList word' := Scalar.string.inj (Option.some.inj same)
    rw [← String.toList_inj, String.toList_append, String.toList_append] at names
    have words := List.append_cancel_left names
    rw [String.toList_ofList, String.toList_ofList] at words
    exact words
  · exact fun same => by rw [same]

theorem descriptor_text (bundle : BundleInfo) (policy : JailPolicy) :
    ∃ comments, ipaToJpkDescriptor bundle policy = documentText comments (produced bundle policy) :=
  ⟨["Generated by bsdos-run from an unpacked IPA (Info.plist + entitlements).",
    "Conforms to SPEC_jpk_descriptor_v1 §3."], ipaToJpkDescriptor_text bundle policy⟩

/-- Two applications are kept apart exactly if the last words of their bundle
identifiers differ and have at most sixty letters and digits. -/
theorem jail_names_identify_iff (bundle bundle' : BundleInfo) :
    (∀ policy, ∃ comments, ipaToJpkDescriptor bundle policy = documentText comments (produced bundle policy)) ∧
    (KeptApart bundle bundle' ↔ lastWord bundle.bundleIdentifier ≠ lastWord bundle'.bundleIdentifier ∧
      (lastWord bundle.bundleIdentifier).length ≤ 60 ∧ (lastWord bundle'.bundleIdentifier).length ≤ 60) := by
  refine ⟨descriptor_text bundle, ?_⟩
  have differ (policy policy' : JailPolicy) : jailName (produced bundle policy) ≠ jailName (produced bundle' policy') ↔
      lastWord bundle.bundleIdentifier ≠ lastWord bundle'.bundleIdentifier := by
    rw [jailName_produced, jailName_produced, not_iff_not]
    exact app_inj
  have policy : JailPolicy := ⟨.disable, false, false⟩
  constructor
  · intro apart
    exact ⟨(differ policy policy).mp (apart.differ policy policy), (namesJail_iff bundle policy).mp (apart.accepted policy),
      (namesJail_iff bundle' policy).mp (apart.accepted' policy)⟩
  · rintro ⟨other, short, short'⟩
    exact ⟨fun policy policy' => (differ policy policy').mpr other, fun policy => (namesJail_iff bundle policy).mpr short,
      fun policy => (namesJail_iff bundle' policy).mpr short'⟩

/-- An application with this bundle identifier. -/
def namedBundle (id : String) : BundleInfo := ⟨id, "App", "Short", "My App", true, "13.0", false, false⟩

/-- Two applications of different vendors that get one jail. -/
theorem vendors_share_jail :
    sanitiseAppId "com.alpha.notes" ≠ sanitiseAppId "com.beta.notes" ∧
      (∀ policy, jailName (produced (namedBundle "com.alpha.notes") policy) = some (.string "app_notes")) ∧
      (∀ policy, jailName (produced (namedBundle "com.beta.notes") policy) = some (.string "app_notes")) ∧
      ¬KeptApart (namedBundle "com.alpha.notes") (namedBundle "com.beta.notes") := by
  have alpha (policy : JailPolicy) : jailName (produced (namedBundle "com.alpha.notes") policy) = some (.string "app_notes") := by
    have name : "app_" ++ String.ofList (lastWord "com.alpha.notes") = "app_notes" := by decide
    rw [jailName_produced, ← name]
    rfl
  have beta (policy : JailPolicy) : jailName (produced (namedBundle "com.beta.notes") policy) = some (.string "app_notes") := by
    have name : "app_" ++ String.ofList (lastWord "com.beta.notes") = "app_notes" := by decide
    rw [jailName_produced, ← name]
    rfl
  refine ⟨by decide, alpha, beta, fun apart => ?_⟩
  exact apart.differ ⟨.disable, false, false⟩ ⟨.disable, false, false⟩ ((alpha _).trans (beta _).symm)

end Bsdos.Run
