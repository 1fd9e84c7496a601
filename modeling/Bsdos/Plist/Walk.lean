import Bsdos.Plist.Balanced

namespace Bsdos.Plist.Walk
open Octets Machine Relation Search

/-- The byte length of the sequence that starts with this byte. -/
def utf8CharLen (b : UInt8) : Nat := if b ≥ 0xF0 then 4 else if b ≥ 0xE0 then 3 else if b ≥ 0xC0 then 2 else 1

/-- `hay.find(needle)`, a position in bytes. -/
def findBytes (needle hay : Chars) : Option Nat := (find needle hay).map fun i => (utf8 (hay.take i)).length

/-- The variables of the loop. -/
structure Cursor where
  depth : Nat
  idx : Nat

/-- What one iteration comes to. -/
inductive Turn
  | next (cursor : Cursor)
  | found (scope : Chars)
  | over

def turn (xml : Chars) (dictStart : Nat) (cursor : Cursor) : Guarded Unit Turn :=
  if cursor.idx < (utf8 xml).length then do
    if dictOpen <+: (← inside (textFrom xml cursor.idx)) then
      return .next { depth := ← add cursor.depth 1, idx := ← add cursor.idx (utf8 dictOpen).length }
    else if dictClose <+: (← inside (textFrom xml cursor.idx)) then
      let depth ← sub cursor.depth 1
      if depth = 0 then
        let stop ← add cursor.idx (utf8 dictClose).length
        return .found (← inside (textRange xml dictStart stop))
      return .next { depth := depth, idx := ← add cursor.idx (utf8 dictClose).length }
    else return .next { cursor with idx := ← add cursor.idx (utf8CharLen (← index (utf8 xml) cursor.idx)) }
  else return .over

/-- The loop, for at most so many iterations. -/
def loop (xml : Chars) (dictStart : Nat) : Nat → Cursor → Guarded Unit (Option Chars)
  | 0, _ => .error (.refused ())
  | fuel + 1, cursor => do
    match ← turn xml dictStart cursor with
    | .next cursor' => loop xml dictStart fuel cursor'
    | .found scope => return some scope
    | .over => return none

/-- Where the loop starts, with the position of the dictionary. -/
def start (xml : Chars) : Guarded Unit (Option (Nat × Cursor)) :=
  match findBytes (keyTag "Entitlements".toList) xml with
  | none => return none
  | some keyPos => do
    let afterKey ← inside (textFrom xml keyPos)
    match findBytes dictOpen afterKey with
    | none => return none
    | some dictRel => do
      let dictStart ← add keyPos dictRel
      let bodyStart ← add dictStart (utf8 dictOpen).length
      return some (dictStart, { depth := 1, idx := bodyStart })

/-- Every iteration moves on by a byte at least, so that their number is bounded by the length. -/
def isolateEntitlementsDict (xml : Chars) : Guarded Unit (Option Chars) := do
  match ← start xml with
  | none => return none
  | some (dictStart, cursor) => loop xml dictStart ((utf8 xml).length + 1) cursor

/-- The loop comes to this cursor. -/
def Visits (xml : Chars) (cursor : Cursor) : Prop :=
  ∃ dictStart first, start xml = .ok (some (dictStart, first)) ∧
    ReflTransGen (fun cursor cursor' => turn xml dictStart cursor = .ok (.next cursor')) first cursor

theorem utf8CharLen_first (c : Char) (rest : Chars) : ∃ b, (utf8 (c :: rest))[0]? = some b ∧ utf8CharLen b = c.utf8Size := by
  obtain ⟨first, tail, encoded, sizes⟩ := utf8EncodeChar_first c
  refine ⟨first, by rw [utf8, List.flatMap_cons, encoded]; rfl, ?_⟩
  have f0 : first ≥ 0xF0 ↔ 0xF0 ≤ first.toNat := UInt8.le_iff_toNat_le
  have e0 : first ≥ 0xE0 ↔ 0xE0 ≤ first.toNat := UInt8.le_iff_toNat_le
  have c0 : first ≥ 0xC0 ↔ 0xC0 ≤ first.toNat := UInt8.le_iff_toNat_le
  simp only [utf8CharLen, f0, e0, c0]
  rcases sizes with ⟨size, low⟩ | ⟨size, low, high⟩ | ⟨size, low, high⟩ | ⟨size, low⟩
  · rw [if_neg (by omega), if_neg (by omega), if_neg (by omega), size]
  · rw [if_neg (by omega), if_neg (by omega), if_pos (by omega), size]
  · rw [if_neg (by omega), if_pos (by omega), size]
  · rw [if_pos (by omega), size]

/-- The cursor is where `back` begins, between characters. -/
structure At (xml front mid back : Chars) (cursor : Cursor) : Prop where
  split : xml = front ++ (mid ++ back)
  idx : cursor.idx = (utf8 (front ++ mid)).length
  positive : 0 < cursor.depth
  bound : cursor.depth ≤ cursor.idx
  addressable : (utf8 xml).length < 2 ^ 63

section Turn
variable {xml front mid back rest : Chars} {cursor : Cursor}

theorem At.read (here : At xml front mid back cursor) : textFrom xml cursor.idx = some back := by
  rw [here.idx, here.split, ← List.append_assoc]
  exact textFrom_boundary

theorem At.length (here : At xml front mid back cursor) : (utf8 xml).length = cursor.idx + (utf8 back).length := by
  rw [here.idx, here.split, ← List.append_assoc, utf8_length_append (front ++ mid)]

theorem At.move {piece : Chars} (here : At xml front mid (piece ++ rest) cursor) {depth : Nat} (positive : 0 < depth)
    (bound : depth ≤ cursor.idx + (utf8 piece).length) :
    At xml front (mid ++ piece) rest { depth := depth, idx := cursor.idx + (utf8 piece).length } := by
  have moved : cursor.idx + (utf8 piece).length = (utf8 (front ++ (mid ++ piece))).length := by
    rw [← List.append_assoc, utf8_length_append (front ++ mid), here.idx]
  refine ⟨by rw [here.split, List.append_assoc], moved, positive, bound, here.addressable⟩

theorem At.turn_over (here : At xml front mid [] cursor) (dictStart : Nat) : turn xml dictStart cursor = .ok .over := by
  have length := here.length
  rw [turn, if_neg (by rw [length]; exact Nat.lt_irrefl _)]
  rfl

theorem At.turn_open (here : At xml front mid (dictOpen ++ rest) cursor) (dictStart : Nat) :
    turn xml dictStart cursor =
      .ok (.next { depth := cursor.depth + 1, idx := cursor.idx + (utf8 dictOpen).length }) := by
  have length := here.length
  have small := here.addressable
  have bound := here.bound
  have tag : (utf8 dictOpen).length = 6 := by decide
  rw [utf8_length_append] at length
  rw [turn, if_pos (by omega), here.read, inside_some, ok_bind, if_pos (List.prefix_append _ _), add_small (by omega), ok_bind,
    add_small (by omega)]
  rfl

theorem At.turn_close (here : At xml front mid (dictClose ++ rest) cursor) (deep : cursor.depth ≠ 1) (dictStart : Nat) :
    turn xml dictStart cursor =
      .ok (.next { depth := cursor.depth - 1, idx := cursor.idx + (utf8 dictClose).length }) := by
  have length := here.length
  have small := here.addressable
  have positive := here.positive
  have tag : (utf8 dictClose).length = 7 := by decide
  have other : ¬ dictOpen <+: dictClose ++ rest := by simp [dictOpen, dictClose]
  rw [utf8_length_append] at length
  rw [turn, if_pos (by omega), here.read, inside_some, ok_bind, if_neg other, ok_bind, if_pos (List.prefix_append _ _),
    sub_small (by omega), ok_bind, if_neg (by omega), add_small (by omega)]
  rfl

theorem At.turn_last (here : At xml front mid (dictClose ++ rest) cursor) (last : cursor.depth = 1) (dictStart : Nat) :
    turn xml dictStart cursor = (inside (textRange xml dictStart (cursor.idx + (utf8 dictClose).length)) >>= fun scope =>
      .ok (.found scope)) := by
  have length := here.length
  have small := here.addressable
  have tag : (utf8 dictClose).length = 7 := by decide
  have other : ¬ dictOpen <+: dictClose ++ rest := by simp [dictOpen, dictClose]
  rw [utf8_length_append] at length
  rw [turn, if_pos (by omega), here.read, inside_some, ok_bind, if_neg other, ok_bind, if_pos (List.prefix_append _ _),
    sub_small (by omega), ok_bind, if_pos (by omega), add_small (by omega), ok_bind]
  rfl

theorem At.turn_found (here : At xml front mid (dictClose ++ rest) cursor) (last : cursor.depth = 1) :
    turn xml (utf8 front).length cursor = .ok (.found (mid ++ dictClose)) := by
  have stop : cursor.idx + (utf8 dictClose).length = (utf8 (front ++ (mid ++ dictClose))).length := by
    rw [← List.append_assoc, utf8_length_append (front ++ mid), here.idx]
  have whole : xml = front ++ ((mid ++ dictClose) ++ rest) := by rw [here.split, List.append_assoc]
  have found : textRange xml (utf8 front).length (utf8 (front ++ (mid ++ dictClose))).length = some (mid ++ dictClose) := by
    rw [whole]
    exact textRange_boundary
  rw [here.turn_last last, stop, found]
  rfl

theorem At.turn_next {c : Char} (here : At xml front mid (c :: rest) cursor) (notOpen : ¬ dictOpen <+: c :: rest)
    (notClose : ¬ dictClose <+: c :: rest) (dictStart : Nat) :
    turn xml dictStart cursor = .ok (.next { depth := cursor.depth, idx := cursor.idx + (utf8 [c]).length }) := by
  have length := here.length
  have small := here.addressable
  have positive := c.utf8Size_pos
  obtain ⟨b, first, size⟩ := utf8CharLen_first c rest
  have byte : (utf8 xml)[cursor.idx]? = some b := by
    rw [here.split, ← List.append_assoc, utf8_append, here.idx, List.getElem?_append_right (Nat.le_refl _), Nat.sub_self]
    exact first
  have width : (utf8 [c]).length = c.utf8Size := by rw [utf8_length_cons]; rfl
  rw [utf8_length_cons] at length
  rw [turn, if_pos (by omega), here.read, inside_some, ok_bind, if_neg notOpen, ok_bind, if_neg notClose, index, byte, ok_bind,
    size, add_small (by omega), width]
  rfl

end Turn

section Loop
variable {xml front mid back : Chars} {cursor cursor' : Cursor}

/-- An iteration that goes on ends between characters. -/
theorem At.turned (here : At xml front mid back cursor) {dictStart : Nat}
    (goes : turn xml dictStart cursor = .ok (.next cursor')) : ∃ mid' back', At xml front mid' back' cursor' := by
  by_cases opens : dictOpen <+: back
  · obtain ⟨rest, rfl⟩ := opens
    rw [here.turn_open] at goes
    cases goes
    have tag : (utf8 dictOpen).length = 6 := by decide
    exact ⟨_, _, here.move (Nat.succ_pos _) (by have bound := here.bound; omega)⟩
  by_cases closes : dictClose <+: back
  · obtain ⟨rest, rfl⟩ := closes
    have positive := here.positive
    have bound := here.bound
    by_cases last : cursor.depth = 1
    · rw [here.turn_last last] at goes
      cases ranged : (inside (textRange xml dictStart (cursor.idx + (utf8 dictClose).length)) : Guarded Unit Chars) with
      | error e =>
        rw [ranged] at goes
        cases goes
      | ok scope =>
        rw [ranged] at goes
        cases goes
    · rw [here.turn_close last] at goes
      cases goes
      exact ⟨_, _, here.move (by omega) (by omega)⟩
  · cases back with
    | nil =>
      rw [here.turn_over] at goes
      cases goes
    | cons c rest =>
      rw [here.turn_next opens closes] at goes
      cases goes
      have single : At xml front mid ([c] ++ rest) cursor := here
      exact ⟨_, _, single.move here.positive (Nat.le_add_right_of_le here.bound)⟩

/-- The loop finds the end of the dictionary, or that there is none. -/
theorem At.loop_extent (here : At xml front mid back cursor) {fuel : Nat} (enough : back.length < fuel) :
    loop xml (utf8 front).length fuel cursor = .ok ((dictExtent cursor.depth back).map fun n => mid ++ back.take n) := by
  induction fuel generalizing mid back cursor with
  | zero => exact absurd enough (Nat.not_lt_zero _)
  | succ fuel ih =>
    have positive := here.positive
    have bound := here.bound
    by_cases opens : dictOpen <+: back
    · obtain ⟨rest, rfl⟩ := opens
      have shorter : rest.length < fuel := by
        rw [List.length_append] at enough
        have tag : dictOpen.length = 6 := rfl
        omega
      have tag : (utf8 dictOpen).length = 6 := by decide
      have later := ih (here.move (Nat.succ_pos cursor.depth) (by omega)) shorter
      rw [loop, here.turn_open, ok_bind]
      dsimp only
      rw [later, dictExtent_open, Option.map_map]
      congr 2
      funext n
      rw [Function.comp_apply, List.take_length_add_append, List.append_assoc]
    by_cases closes : dictClose <+: back
    · obtain ⟨rest, rfl⟩ := closes
      have shorter : rest.length < fuel := by
        rw [List.length_append] at enough
        have tag : dictClose.length = 7 := rfl
        omega
      by_cases last : cursor.depth = 1
      · rw [loop, here.turn_found last, ok_bind, dictExtent_close, last, if_pos rfl, Option.map_some, List.take_left]
        rfl
      · have later := ih (here.move (show 0 < cursor.depth - 1 by omega) (by omega)) shorter
        rw [loop, here.turn_close last, ok_bind]
        dsimp only
        rw [later, dictExtent_close, if_neg (by omega), Option.map_map]
        congr 2
        funext n
        rw [Function.comp_apply, List.take_length_add_append, List.append_assoc]
    · cases back with
      | nil =>
        rw [loop, here.turn_over, ok_bind]
        rfl
      | cons c rest =>
        have single : At xml front mid ([c] ++ rest) cursor := here
        have later := ih (single.move positive (Nat.le_add_right_of_le bound)) (Nat.lt_of_succ_lt_succ enough)
        rw [loop, here.turn_next opens closes, ok_bind]
        dsimp only
        rw [later, dictExtent_next opens closes, Option.map_map]
        congr 2
        funext n
        rw [Function.comp_apply, Nat.add_comm 1 n, List.take_succ_cons, List.append_assoc]
        rfl

end Loop

/-- The loop starts behind the opening tag, with the depth one, or there is none. -/
theorem start_cases {xml : Chars} (addressable : (utf8 xml).length < 2 ^ 63) :
    start xml = .ok none ∧ Plist.isolateEntitlementsDict xml = none ∨
      ∃ front body cursor, start xml = .ok (some ((utf8 front).length, cursor)) ∧ At xml front dictOpen body cursor ∧
        cursor.depth = 1 ∧ Plist.isolateEntitlementsDict xml = (dictExtent 1 body).map fun n => dictOpen ++ body.take n := by
  rw [start, findBytes]
  cases key : find (keyTag "Entitlements".toList) xml with
  | none => exact .inl ⟨rfl, by rw [Plist.isolateEntitlementsDict, key]; rfl⟩
  | some keyPos =>
    have slice : textFrom xml (utf8 (xml.take keyPos)).length = some (xml.drop keyPos) := by
      have split : textFrom (xml.take keyPos ++ xml.drop keyPos) (utf8 (xml.take keyPos)).length = some (xml.drop keyPos) :=
        textFrom_boundary
      rw [List.take_append_drop] at split
      exact split
    rw [Option.map_some]
    dsimp only
    rw [slice, inside_some, ok_bind, findBytes]
    cases found : find dictOpen (xml.drop keyPos) with
    | none =>
      refine .inl ⟨rfl, ?_⟩
      simp only [Plist.isolateEntitlementsDict, key, found, bind, Option.bind]
    | some dictRel =>
      have opens : FirstAt dictOpen (xml.drop keyPos) dictRel := (find_firstAt_iff (by decide)).mp found
      obtain ⟨body, whole⟩ := opens.1
      have place : xml = (xml.take keyPos ++ (xml.drop keyPos).take dictRel) ++ (dictOpen ++ body) := by
        rw [whole, List.append_assoc, List.take_append_drop, List.take_append_drop]
      have length : (utf8 (xml.take keyPos)).length + (utf8 ((xml.drop keyPos).take dictRel)).length =
          (utf8 (xml.take keyPos ++ (xml.drop keyPos).take dictRel)).length := (utf8_length_append _ _).symm
      generalize xml.take keyPos ++ (xml.drop keyPos).take dictRel = front at place length
      have total : (utf8 xml).length = (utf8 front).length + ((utf8 dictOpen).length + (utf8 body).length) := by
        rw [place, utf8_length_append, utf8_length_append]
      have tag : (utf8 dictOpen).length = 6 := by decide
      rw [Option.map_some]
      dsimp only
      rw [add_small (by omega), ok_bind, length, add_small (by omega), ok_bind]
      refine .inr ⟨front, body, _, rfl, ⟨place, (utf8_length_append _ _).symm, Nat.one_pos, ?_, addressable⟩, rfl, ?_⟩
      · have one : 1 ≤ (utf8 dictOpen).length := by omega
        exact Nat.le_add_left_of_le one
      · simp only [Plist.isolateEntitlementsDict, key, found, bind, Option.bind, ← whole, List.drop_left, pure]
        change Option.bind (dictExtent 1 body) _ = _
        cases dictExtent 1 body with
        | none => rfl
        | some n => exact congrArg some (List.take_length_add_append n)

section Main
variable {xml : Chars} (addressable : (utf8 xml).length < 2 ^ 63)
include addressable

/-- The walk over bytes does not fault and finds what the walk over characters finds. -/
theorem isolate_defined : isolateEntitlementsDict xml = .ok (Plist.isolateEntitlementsDict xml) := by
  rw [isolateEntitlementsDict]
  rcases start_cases addressable with ⟨started, none⟩ | ⟨front, body, cursor, started, here, one, found⟩
  · rw [started, none]
    rfl
  · have length := here.length
    have shorter := utf8_length_le body
    rw [started, ok_bind]
    dsimp only
    rw [here.loop_extent (by omega), found, one]

theorem visits_boundary {cursor : Cursor} (visits : Visits xml cursor) : IsBoundary xml cursor.idx := by
  obtain ⟨dictStart, first, started, goes⟩ := visits
  rcases start_cases addressable with ⟨none, -⟩ | ⟨front, body, cursor', started', here, -⟩
  · cases started.symm.trans none
  · cases started.symm.trans started'
    have there : ∃ mid back, At xml front mid back cursor := by
      induction goes with
      | refl => exact ⟨_, _, here⟩
      | tail _ step ih =>
        obtain ⟨mid, back, between⟩ := ih
        exact between.turned step
    obtain ⟨mid, back, between⟩ := there
    exact ⟨front ++ mid, back, by rw [between.split, List.append_assoc], between.idx⟩

/-- The walk comes to an end without a fault, always between characters. What it gives is the shortest balanced beginning
of the text from the first `<dict>` after the first key on, and it gives nothing exactly if there is none. -/
theorem walk_balanced :
    (∃ result, isolateEntitlementsDict xml = .ok result) ∧
      (∀ cursor, Visits xml cursor → IsBoundary xml cursor.idx) ∧
      (∀ scope, isolateEntitlementsDict xml = .ok (some scope) ↔ ∃ dict, DictFrom xml dict ∧ ShortestBalanced dict scope) ∧
      (isolateEntitlementsDict xml = .ok none ↔
        (¬ scopeKey <:+: xml) ∨ (∃ rest, AfterKey xml rest ∧ ¬ dictOpen <:+: rest) ∨
          ∃ dict, DictFrom xml dict ∧ ∀ p, p <+: dict → dictClose <:+ p → ¬ BalancedTags p) := by
  have defined := isolate_defined addressable
  refine ⟨⟨_, defined⟩, fun cursor => visits_boundary addressable, fun scope => ?_, ?_⟩
  · rw [defined, Except.ok.injEq]
    exact isolate_some_iff
  · rw [defined, Except.ok.injEq]
    exact isolate_none_iff

end Main

/-- A dictionary within the dictionary, after a character of two bytes. -/
theorem walk_balanced_nested :
    (utf8 "é<key>Entitlements</key><dict><dict></dict></dict>".toList).length < 2 ^ 63 ∧
      ∃ dict, DictFrom "é<key>Entitlements</key><dict><dict></dict></dict>".toList dict ∧
        ShortestBalanced dict "<dict><dict></dict></dict>".toList := by
  have addressable : (utf8 "é<key>Entitlements</key><dict><dict></dict></dict>".toList).length < 2 ^ 63 := by decide
  exact ⟨addressable, ((walk_balanced addressable).2.2.1 _).mp (by decide +kernel)⟩

end Bsdos.Plist.Walk
