import Bsdos.Effects.Machine
import Bsdos.Octets.Boundary
import Bsdos.Plist.Isolate
import Bsdos.Search.Occurrences

namespace Bsdos.Plist
open Search

/-- `<key>Entitlements</key>`. -/
def scopeKey : Chars := keyTag "Entitlements".toList

/-- What comes after the first key. -/
def AfterKey (xml rest : Chars) : Prop := ∃ keyPos, FirstAt scopeKey xml keyPos ∧ rest = xml.drop (keyPos + scopeKey.length)

/-- The text from the first `<dict>` after the first key on. -/
def DictFrom (xml dict : Chars) : Prop :=
  ∃ rest dictRel, AfterKey xml rest ∧ FirstAt dictOpen rest dictRel ∧ dict = rest.drop dictRel

/-- As many dictionaries are opened as closed. -/
def BalancedTags (text : Chars) : Prop := occurrences dictOpen text = occurrences dictClose text

/-- The shortest beginning of the text that ends with a closing tag and is balanced. -/
structure ShortestBalanced (text scope : Chars) : Prop where
  front : scope <+: text
  ends : dictClose <:+ scope
  balanced : BalancedTags scope
  shortest : ∀ p, p <+: scope → p ≠ scope → dictClose <:+ p → ¬ BalancedTags p

section Tags
variable {rest : Chars}

theorem opens_open : occurrences dictOpen (dictOpen ++ rest) = 1 + occurrences dictOpen rest :=
  @occurrences_here _ _ ['d', 'i', 'c', 't', '>'] rest '<' (by decide)

theorem closes_open : occurrences dictClose (dictOpen ++ rest) = occurrences dictClose rest :=
  @occurrences_piece _ _ ['/', 'd', 'i', 'c', 't', '>'] rest '<' ['d', 'i', 'c', 't', '>'] (by decide) (by simp)

theorem closes_close : occurrences dictClose (dictClose ++ rest) = 1 + occurrences dictClose rest :=
  @occurrences_here _ _ ['/', 'd', 'i', 'c', 't', '>'] rest '<' (by decide)

theorem opens_close : occurrences dictOpen (dictClose ++ rest) = occurrences dictOpen rest :=
  @occurrences_piece _ _ ['d', 'i', 'c', 't', '>'] rest '<' ['/', 'd', 'i', 'c', 't', '>'] (by decide) (by simp)

end Tags

/-- A beginning of a text is within the first piece, or the piece is part of it. -/
theorem front_cases {piece rest q : Chars} (front : q <+: piece ++ rest) :
    q.length < piece.length ∨ ∃ q', q = piece ++ q' ∧ q' <+: rest := by
  by_cases short : q.length < piece.length
  · exact .inl short
  · obtain ⟨q', rfl⟩ := List.prefix_of_prefix_length_le (List.prefix_append piece rest) front (Nat.not_lt.mp short)
    exact .inr ⟨q', rfl, (List.prefix_append_right_inj piece).mp front⟩

/-- Up to the end of the dictionary more tags have been opened than closed. -/
theorem dictExtent_above {depth : Nat} {text q : Chars} (positive : 0 < depth) (front : q <+: text)
    (before : ∀ n, dictExtent depth text = some n → q.length < n) :
    occurrences dictClose q < depth + occurrences dictOpen q := by
  generalize size : text.length = length
  induction length using Nat.strong_induction_on generalizing depth text q with
  | _ length ih =>
    by_cases opens : dictOpen <+: text
    · obtain ⟨rest, rfl⟩ := opens
      rcases front_cases front with short | ⟨q', rfl, inside⟩
      · rw [occurrences_short (show q.length < dictClose.length from Nat.lt_trans short (by decide))]
        omega
      · have later := @ih rest.length (by rw [← size, List.length_append]; simp [dictOpen]) (depth + 1) rest q' (by omega) inside
          (fun n ends => by
            have bound := before (dictOpen.length + n) (by rw [dictExtent_open, ends]; rfl)
            rw [List.length_append] at bound
            omega) rfl
        rw [opens_open, closes_open]
        omega
    by_cases closes : dictClose <+: text
    · obtain ⟨rest, rfl⟩ := closes
      rw [dictExtent_close] at before
      rcases front_cases front with short | ⟨q', rfl, inside⟩
      · rw [occurrences_short short]
        omega
      · by_cases last : depth - 1 = 0
        · have bound := before dictClose.length (by rw [if_pos last])
          rw [List.length_append] at bound
          omega
        · have later := @ih rest.length (by rw [← size, List.length_append]; simp [dictClose]) (depth - 1) rest q' (by omega)
            inside (fun n ends => by
              have bound := before (dictClose.length + n) (by rw [if_neg last, ends]; rfl)
              rw [List.length_append] at bound
              omega) rfl
          rw [opens_close, closes_close]
          omega
    · cases text with
      | nil =>
        obtain rfl := List.prefix_nil.mp front
        exact positive
      | cons c cs =>
        rw [dictExtent_next opens closes] at before
        cases q with
        | nil => exact positive
        | cons c' q' =>
          obtain ⟨rfl, inside⟩ := List.cons_prefix_cons.mp front
          have later := @ih cs.length (by rw [← size]; exact Nat.lt_succ_self _) depth cs q' positive inside
            (fun n ends => by
              have bound := before (1 + n) (by rw [ends]; rfl)
              rw [List.length_cons] at bound
              omega) rfl
          rw [occurrences_next fun here => opens (here.trans front), occurrences_next fun here => closes (here.trans front)]
          exact later

/-- At the end of the dictionary the last tag that was open is closed. -/
theorem dictExtent_meets {depth n : Nat} {text : Chars} (positive : 0 < depth) (ends : dictExtent depth text = some n) :
    n ≤ text.length ∧ dictClose <:+ text.take n ∧
      occurrences dictClose (text.take n) = depth + occurrences dictOpen (text.take n) := by
  generalize size : text.length = length
  induction length using Nat.strong_induction_on generalizing depth text n with
  | _ length ih =>
    by_cases opens : dictOpen <+: text
    · obtain ⟨rest, rfl⟩ := opens
      rw [dictExtent_open] at ends
      obtain ⟨k, within, rfl⟩ := Option.map_eq_some_iff.mp ends
      have shorter : rest.length < length := by
        rw [← size, List.length_append]
        simp [dictOpen]
      obtain ⟨bound, last, meets⟩ := ih rest.length shorter (by omega) within rfl
      rw [List.take_length_add_append, opens_open, closes_open]
      refine ⟨by rw [← size, List.length_append]; omega, last.trans (List.suffix_append _ _), by omega⟩
    by_cases closes : dictClose <+: text
    · obtain ⟨rest, rfl⟩ := closes
      rw [dictExtent_close] at ends
      have shorter : rest.length < length := by
        rw [← size, List.length_append]
        simp [dictClose]
      by_cases last : depth - 1 = 0
      · rw [if_pos last] at ends
        cases ends
        rw [List.take_left]
        have one : occurrences dictClose dictClose = 1 := by decide
        have none : occurrences dictOpen dictClose = 0 := by decide
        refine ⟨by rw [← size, List.length_append]; omega, List.suffix_refl _, by omega⟩
      · rw [if_neg last] at ends
        obtain ⟨k, within, rfl⟩ := Option.map_eq_some_iff.mp ends
        obtain ⟨bound, tail, meets⟩ := ih rest.length shorter (by omega) within rfl
        rw [List.take_length_add_append, opens_close, closes_close]
        refine ⟨by rw [← size, List.length_append]; omega, tail.trans (List.suffix_append _ _), by omega⟩
    · cases text with
      | nil => cases ends
      | cons c cs =>
        rw [dictExtent_next opens closes] at ends
        obtain ⟨k, within, rfl⟩ := Option.map_eq_some_iff.mp ends
        obtain ⟨bound, tail, meets⟩ := ih cs.length (by rw [← size]; exact Nat.lt_succ_self _) positive within rfl
        have front : c :: cs.take k <+: c :: cs := List.cons_prefix_cons.mpr ⟨rfl, List.take_prefix k cs⟩
        rw [Nat.add_comm 1 k, List.take_succ_cons, occurrences_next fun here => opens (here.trans front),
          occurrences_next fun here => closes (here.trans front)]
        refine ⟨by rw [← size, List.length_cons]; omega, tail.trans (List.suffix_cons _ _), meets⟩

/-- A beginning of a dictionary that ends with a closing tag goes on after the opening tag. -/
theorem closed_front {body p : Chars} (front : p <+: dictOpen ++ body) (closed : dictClose <:+ p) :
    ∃ inner, p = dictOpen ++ inner ∧ inner <+: body := by
  rcases front_cases front with short | goes
  · have long := closed.length_le
    have tags : dictOpen.length < dictClose.length := by decide
    omega
  · exact goes

theorem balanced_inner {inner : Chars} :
    BalancedTags (dictOpen ++ inner) ↔ occurrences dictClose inner = 1 + occurrences dictOpen inner := by
  rw [BalancedTags, opens_open, closes_open]
  exact eq_comm

/-- The text of a dictionary ends where its tags are balanced for the first time. -/
theorem dictExtent_shortest {body scope : Chars} :
    (∃ n, dictExtent 1 body = some n ∧ scope = (dictOpen ++ body).take (dictOpen.length + n)) ↔
      ShortestBalanced (dictOpen ++ body) scope := by
  constructor
  · rintro ⟨n, ends, rfl⟩
    obtain ⟨bound, last, meets⟩ := dictExtent_meets Nat.one_pos ends
    rw [List.take_length_add_append]
    have inside : dictOpen ++ body.take n <+: dictOpen ++ body := (List.prefix_append_right_inj _).mpr (List.take_prefix n body)
    refine ⟨inside, last.trans (List.suffix_append _ _), balanced_inner.mpr meets, fun p front other closed balanced => ?_⟩
    obtain ⟨inner, rfl, within⟩ := closed_front (front.trans inside) closed
    have front' : inner <+: body.take n := (List.prefix_append_right_inj _).mp front
    have shorter : inner.length < n := by
      have width : (body.take n).length = n := List.length_take_of_le bound
      rcases Nat.lt_or_eq_of_le front'.length_le with less | same
      · omega
      · exact absurd (congrArg (dictOpen ++ ·) (front'.eq_of_length same)) other
    have above := dictExtent_above Nat.one_pos within (fun k ends' => by
      cases ends.symm.trans ends'
      exact shorter)
    have meets' := balanced_inner.mp balanced
    omega
  · intro whole
    obtain ⟨inner, rfl, within⟩ := closed_front whole.front whole.ends
    have meets := balanced_inner.mp whole.balanced
    cases ends : dictExtent 1 body with
    | none =>
      have above := dictExtent_above Nat.one_pos within (fun n some' => by cases ends.symm.trans some')
      omega
    | some n =>
      obtain ⟨bound, last, meets'⟩ := dictExtent_meets Nat.one_pos ends
      refine ⟨n, rfl, ?_⟩
      rw [List.take_length_add_append]
      rcases Nat.lt_trichotomy inner.length n with less | same | more
      · have above := dictExtent_above Nat.one_pos within (fun k ends' => by
          cases ends.symm.trans ends'
          exact less)
        omega
      · rw [List.prefix_iff_eq_take.mp within, same]
      · have front : body.take n <+: inner :=
          List.prefix_of_prefix_length_le (List.take_prefix n body) within (by rw [List.length_take]; omega)
        have other : dictOpen ++ body.take n ≠ dictOpen ++ inner := by
          intro same
          have width := congrArg List.length (List.append_cancel_left same)
          rw [List.length_take] at width
          omega
        exact absurd (balanced_inner.mpr meets') (whole.shortest _ ((List.prefix_append_right_inj _).mpr front) other
          (last.trans (List.suffix_append _ _)))

/-- It has no end if its tags are never balanced. -/
theorem dictExtent_none {body : Chars} :
    dictExtent 1 body = none ↔ ∀ p, p <+: dictOpen ++ body → dictClose <:+ p → ¬ BalancedTags p := by
  constructor
  · intro none p front closed balanced
    obtain ⟨inner, rfl, within⟩ := closed_front front closed
    have above := dictExtent_above Nat.one_pos within (fun n some' => by cases none.symm.trans some')
    have meets := balanced_inner.mp balanced
    omega
  · intro never
    cases ends : dictExtent 1 body with
    | none => rfl
    | some n =>
      obtain ⟨bound, last, meets⟩ := dictExtent_meets Nat.one_pos ends
      exact absurd (balanced_inner.mpr meets) (never _ ((List.prefix_append_right_inj _).mpr (List.take_prefix n body))
        (last.trans (List.suffix_append _ _)))

section Isolate
variable {xml rest dict : Chars}

theorem find_after_key : find dictOpen (scopeKey ++ rest) = (find dictOpen rest).map (scopeKey.length + ·) := by
  have split : scopeKey ++ rest = '<' :: ("key>Entitlements".toList) ++ ('<' :: "/key>".toList ++ rest) := rfl
  have first : ¬ ['d', 'i', 'c', 't', '>'] <+: "key>Entitlements".toList ++ ('<' :: "/key>".toList ++ rest) := by
    intro here
    exact absurd (List.cons_prefix_cons.mp here).1 (by decide)
  have second : ¬ ['d', 'i', 'c', 't', '>'] <+: "/key>".toList ++ rest := by
    intro here
    exact absurd (List.cons_prefix_cons.mp here).1 (by decide)
  rw [split, dictOpen, find_piece (by decide) first, find_piece (by decide) second, shift_shift]
  rfl

theorem AfterKey.unique {rest' : Chars} (after : AfterKey xml rest) (after' : AfterKey xml rest') : rest = rest' := by
  obtain ⟨keyPos, first, rfl⟩ := after
  obtain ⟨keyPos', first', rfl⟩ := after'
  rw [first.unique first']

theorem DictFrom.unique {dict' : Chars} (dicts : DictFrom xml dict) (dicts' : DictFrom xml dict') : dict = dict' := by
  obtain ⟨rest, dictRel, after, first, rfl⟩ := dicts
  obtain ⟨rest', dictRel', after', first', rfl⟩ := dicts'
  cases after.unique after'
  rw [first.unique first']

/-- Where the walk begins, if it does. -/
theorem isolate_eq : (isolateEntitlementsDict xml = none ∧ ((¬ scopeKey <:+: xml) ∨ ∃ rest, AfterKey xml rest ∧ ¬ dictOpen <:+: rest)) ∨
    ∃ body, DictFrom xml (dictOpen ++ body) ∧ isolateEntitlementsDict xml =
      (dictExtent 1 body).map fun n => (dictOpen ++ body).take (dictOpen.length + n) := by
  rw [isolateEntitlementsDict]
  cases key : find (keyTag "Entitlements".toList) xml with
  | none => exact .inl ⟨rfl, .inl ((find_none_iff (by decide)).mp key)⟩
  | some keyPos =>
    have first : FirstAt scopeKey xml keyPos := (find_firstAt_iff (by decide)).mp key
    obtain ⟨rest, split⟩ := first.1
    have after : AfterKey xml rest := ⟨keyPos, first, by rw [← List.drop_drop, ← split, List.drop_left]⟩
    simp only [bind, Option.bind, pure, ← split, find_after_key]
    cases found : find dictOpen rest with
    | none => exact .inl ⟨rfl, .inr ⟨rest, after, (find_none_iff (by decide)).mp found⟩⟩
    | some dictRel =>
      have opens : FirstAt dictOpen rest dictRel := (find_firstAt_iff (by decide)).mp found
      obtain ⟨body, whole⟩ := opens.1
      refine .inr ⟨body, ⟨rest, dictRel, after, opens, whole⟩, ?_⟩
      simp only [Option.map_some, List.drop_length_add_append, ← whole, List.drop_left]
      change Option.bind (dictExtent 1 body) _ = _
      cases dictExtent 1 body <;> rfl

/-- Without the key or an opening tag after it there is no dictionary. -/
theorem DictFrom.present (dicts : DictFrom xml dict) :
    ¬ ((¬ scopeKey <:+: xml) ∨ ∃ rest, AfterKey xml rest ∧ ¬ dictOpen <:+: rest) := by
  obtain ⟨rest, dictRel, after, opens, -⟩ := dicts
  rintro (noKey | ⟨rest', after', noTag⟩)
  · obtain ⟨keyPos, first, -⟩ := after
    exact noKey (first.1.isInfix.trans (List.drop_suffix keyPos xml).isInfix)
  · cases after.unique after'
    exact noTag (opens.1.isInfix.trans (List.drop_suffix dictRel rest).isInfix)

theorem isolate_some_iff {scope : Chars} :
    isolateEntitlementsDict xml = some scope ↔ ∃ dict, DictFrom xml dict ∧ ShortestBalanced dict scope := by
  rcases @isolate_eq xml with ⟨none, missing⟩ | ⟨body, dicts, found⟩
  · rw [none]
    refine iff_of_false (by simp) ?_
    rintro ⟨dict, dicts, -⟩
    exact dicts.present missing
  · rw [found, Option.map_eq_some_iff]
    constructor
    · rintro ⟨n, ends, same⟩
      exact ⟨_, dicts, dictExtent_shortest.mp ⟨n, ends, same.symm⟩⟩
    · rintro ⟨dict, dicts', shortest⟩
      cases dicts.unique dicts'
      obtain ⟨n, ends, same⟩ := dictExtent_shortest.mpr shortest
      exact ⟨n, ends, same.symm⟩

theorem isolate_none_iff : isolateEntitlementsDict xml = none ↔
    (¬ scopeKey <:+: xml) ∨ (∃ rest, AfterKey xml rest ∧ ¬ dictOpen <:+: rest) ∨
      ∃ dict, DictFrom xml dict ∧ ∀ p, p <+: dict → dictClose <:+ p → ¬ BalancedTags p := by
  rw [← or_assoc]
  rcases @isolate_eq xml with ⟨none, missing⟩ | ⟨body, dicts, found⟩
  · exact iff_of_true none (.inl missing)
  · rw [found, Option.map_eq_none_iff, dictExtent_none, or_iff_right dicts.present]
    constructor
    · exact fun never => ⟨_, dicts, never⟩
    · rintro ⟨dict, dicts', never⟩
      cases dicts.unique dicts'
      exact never

end Isolate

end Bsdos.Plist
