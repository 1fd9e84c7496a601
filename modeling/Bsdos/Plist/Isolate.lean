import Bsdos.Plist.Read

namespace Bsdos.Plist
open Search

theorem dictEnd_fuel {fuel fuel' depth : Nat} {text : Chars} (enough : text.length ≤ fuel) (enough' : text.length ≤ fuel') :
    dictEnd fuel depth text = dictEnd fuel' depth text := by
  induction fuel generalizing fuel' depth text with
  | zero =>
    have none : text = [] := List.length_eq_zero_iff.mp (by omega)
    subst none
    cases fuel' <;> rfl
  | succ fuel ih =>
    cases text with
    | nil => cases fuel' <;> rfl
    | cons c cs =>
      cases fuel' with
      | zero => simp at enough'
      | succ fuel' =>
        have shorter (k : Nat) (positive : 0 < k) (bound : Nat) (longer : (c :: cs).length ≤ bound + 1) :
            ((c :: cs).drop k).length ≤ bound := by
          rw [List.length_drop]
          omega
        have length : cs.length + 1 = (c :: cs).length := rfl
        simp only [dictEnd]
        rw [ih (shorter dictOpen.length (by decide) fuel enough) (shorter dictOpen.length (by decide) fuel' enough'),
          ih (shorter dictClose.length (by decide) fuel enough) (shorter dictClose.length (by decide) fuel' enough'),
          @ih fuel' depth cs (by omega) (by omega)]

/-- How far it is to the end of the dictionary, whatever the fuel. -/
def dictExtent (depth : Nat) (text : Chars) : Option Nat := dictEnd text.length depth text

section Extent
variable {depth : Nat} {text rest raw : Chars}

theorem dictExtent_open : dictExtent depth (dictOpen ++ rest) = (dictExtent (depth + 1) rest).map (dictOpen.length + ·) := by
  have length : (dictOpen ++ rest).length = rest.length + 5 + 1 := by simp [dictOpen]
  have whole : dictOpen ++ rest = '<' :: ((['d', 'i', 'c', 't', '>'] : Chars) ++ rest) := rfl
  rw [dictExtent, length, whole, dictEnd, ← whole, if_pos (List.prefix_append _ _), List.drop_left,
    dictEnd_fuel (by omega) (Nat.le_refl _)]
  rfl

theorem dictExtent_close : dictExtent depth (dictClose ++ rest) =
    if depth - 1 = 0 then some dictClose.length else (dictExtent (depth - 1) rest).map (dictClose.length + ·) := by
  have length : (dictClose ++ rest).length = rest.length + 6 + 1 := by simp [dictClose]
  have whole : dictClose ++ rest = '<' :: ((['/', 'd', 'i', 'c', 't', '>'] : Chars) ++ rest) := rfl
  have other : ¬ dictOpen <+: dictClose ++ rest := by simp [dictOpen, dictClose]
  rw [dictExtent, length, whole, dictEnd, ← whole, if_neg other, if_pos (List.prefix_append _ _), List.drop_left,
    dictEnd_fuel (by omega) (Nat.le_refl _)]
  rfl

theorem dictExtent_next {c : Char} (notOpen : ¬ dictOpen <+: c :: rest) (notClose : ¬ dictClose <+: c :: rest) :
    dictExtent depth (c :: rest) = (dictExtent depth rest).map (1 + ·) := by
  rw [dictExtent, List.length_cons, dictEnd, if_neg notOpen, if_neg notClose]
  rfl

theorem dictExtent_skip (clear : '<' ∉ raw) :
    dictExtent depth (raw ++ rest) = (dictExtent depth rest).map (raw.length + ·) := by
  induction raw with
  | nil => simp
  | cons c raw ih =>
    rw [List.mem_cons, not_or] at clear
    have notOpen : ¬ dictOpen <+: c :: (raw ++ rest) := fun here => clear.1 (List.cons_prefix_cons.mp here).1
    have notClose : ¬ dictClose <+: c :: (raw ++ rest) := fun here => clear.1 (List.cons_prefix_cons.mp here).1
    rw [List.cons_append, dictExtent_next notOpen notClose, ih clear.2, shift_shift, List.length_cons,
      Nat.add_comm 1]

theorem dictExtent_joined {bodies : List Chars} (clear : ∀ body ∈ bodies, '<' ∉ body)
    (notOpen : Apart '<' ['d', 'i', 'c', 't', '>'] rest bodies)
    (notClose : Apart '<' ['/', 'd', 'i', 'c', 't', '>'] rest bodies) :
    dictExtent depth (joined '<' bodies ++ rest) = (dictExtent depth rest).map ((joined '<' bodies).length + ·) := by
  induction bodies with
  | nil => simp [joined]
  | cons body bodies ih =>
    have whole : joined '<' (body :: bodies) ++ rest = '<' :: (body ++ (joined '<' bodies ++ rest)) := by simp [joined]
    have length : (joined '<' (body :: bodies)).length = body.length + (joined '<' bodies).length + 1 := by simp [joined]
    have opens : ¬ dictOpen <+: '<' :: (body ++ (joined '<' bodies ++ rest)) := fun here =>
      notOpen.1 (List.cons_prefix_cons.mp here).2
    have closes : ¬ dictClose <+: '<' :: (body ++ (joined '<' bodies ++ rest)) := fun here =>
      notClose.1 (List.cons_prefix_cons.mp here).2
    rw [whole, length, dictExtent_next opens closes, dictExtent_skip (clear body List.mem_cons_self),
      ih (fun body member => clear body (List.mem_cons_of_mem _ member)) notOpen.2 notClose.2, shift_shift, shift_shift,
      Nat.add_comm 1, Nat.add_right_comm]

/-- The depth after these tokens, unless they close the dictionary. -/
def levels : Nat → List Token → Option Nat
  | depth, [] => some depth
  | depth, token :: tokens =>
    if token = .openDict then levels (depth + 1) tokens
    else if token = .closeDict then if depth - 1 = 0 then none else levels (depth - 1) tokens
    else levels depth tokens

theorem Line.dictExtent (line : Line) :
    dictExtent depth (line.text ++ rest) =
      if line.token = .openDict then (dictExtent (depth + 1) rest).map (line.text.length + ·)
      else if line.token = .closeDict then
        if depth - 1 = 0 then some (line.indent.length + dictClose.length)
        else (dictExtent (depth - 1) rest).map (line.text.length + ·)
      else (dictExtent depth rest).map (line.text.length + ·) := by
  have ended : line.text ++ rest = line.indent ++ (line.token.text ++ '\n' :: rest) := by
    rw [text, List.append_assoc, List.append_assoc, List.singleton_append]
  have length : line.text.length = line.indent.length + (line.token.text.length + 1) := by
    rw [text, List.length_append, List.length_append, List.length_singleton]
  have last (depth : Nat) : Plist.dictExtent depth ('\n' :: rest) = (Plist.dictExtent depth rest).map (1 + ·) :=
    @dictExtent_skip depth rest ['\n'] (by decide)
  rw [ended, dictExtent_skip line.indent_clean, length]
  by_cases opens : line.token = .openDict
  · have text : line.token.text = dictOpen := by rw [opens]; rfl
    rw [if_pos opens, text, dictExtent_open, last, shift_shift, shift_shift, Nat.add_assoc]
  · rw [if_neg opens]
    by_cases closes : line.token = .closeDict
    · have text : line.token.text = dictClose := by rw [closes]; rfl
      rw [if_pos closes, text, dictExtent_close]
      split
      · rfl
      · rw [last, shift_shift, shift_shift, Nat.add_assoc]
    · rw [if_neg closes, line.token.text_bodies,
        dictExtent_joined line.token.bodies_clean (Token.apart_openDict opens _) (Token.apart_closeDict closes _), last,
        shift_shift, shift_shift, Nat.add_assoc]

/-- Lines that leave the dictionary open are passed. -/
theorem dictExtent_docText {lines : List Line} {depth' : Nat} (open' : levels depth (lines.map Line.token) = some depth') :
    dictExtent depth (docText lines ++ rest) = (dictExtent depth' rest).map ((docText lines).length + ·) := by
  induction lines generalizing depth with
  | nil =>
    obtain rfl := Option.some.inj open'
    simp [docText]
  | cons line lines ih =>
    have whole : docText (line :: lines) = line.text ++ docText lines := rfl
    rw [List.map_cons, levels] at open'
    rw [whole, List.append_assoc, line.dictExtent, List.length_append]
    split at open'
    · rename_i opens
      rw [if_pos opens, ih open', shift_shift]
    · rename_i opens
      rw [if_neg opens]
      split at open'
      · rename_i closes
        rw [if_pos closes]
        split at open'
        · cases open'
        · rename_i deeper
          rw [if_neg deeper, ih open', shift_shift]
      · rename_i closes
        rw [if_neg closes, ih open', shift_shift]

end Extent

/-- An element opens as many dictionaries as it closes. -/
theorem levels_tree :
    (∀ (e : Element) depth rest, levels (depth + 1) (e.tokens ++ rest) = levels (depth + 1) rest) ∧
    (∀ items depth rest, levels (depth + 1) (Element.tokens.all items ++ rest) = levels (depth + 1) rest) ∧
    ∀ pairs depth rest, levels (depth + 1) (Element.tokens.each pairs ++ rest) = levels (depth + 1) rest := by
  refine Element.induction ?_ ?_ ?_ ?_ ?_ ?_ ?_
  · intro e token leaf depth rest
    rw [leaf.tokens, List.singleton_append, levels, if_neg leaf.notOpen, if_neg leaf.notClose]
  · intro items ih depth rest
    rw [Element.tokens, List.cons_append, List.append_assoc, levels, if_neg (by simp), if_neg (by simp), ih,
      List.singleton_append, levels, if_neg (by simp), if_neg (by simp)]
  · intro pairs ih depth rest
    rw [Element.tokens, List.cons_append, List.append_assoc, levels, if_pos rfl, ih, List.singleton_append, levels,
      if_neg (by simp), if_pos rfl, if_neg (by omega), Nat.add_sub_cancel]
  · intro depth rest
    rfl
  · intro e items here there depth rest
    rw [Element.tokens.all, List.append_assoc, here, there]
  · intro depth rest
    rfl
  · intro key e pairs here there depth rest
    rw [Element.tokens.each, List.cons_append, List.append_assoc, levels, if_neg (by simp), if_neg (by simp), here, there]

/-- The tokens with what a search comes by. After a dictionary is opened its own tokens follow. -/
inductive Trace : List Token → List Event → Prop
  | nil : Trace [] []
  | key {raw tokens events} : Trace tokens events → Trace (.key raw :: tokens) (.key raw :: events)
  | dict {pairs tokens events} : Trace (Element.tokens.each pairs ++ .closeDict :: tokens) events →
      Trace (.openDict :: (Element.tokens.each pairs ++ .closeDict :: tokens)) (.dict pairs :: events)
  | pass {token tokens events} : (∀ key, token.text ≠ keyTag key) → token ≠ .openDict → Trace tokens events →
      Trace (token :: tokens) events

theorem trace_tree :
    (∀ (e : Element) tokens events, Trace tokens events → Trace (e.tokens ++ tokens) (e.events ++ events)) ∧
    (∀ items tokens events, Trace tokens events →
      Trace (Element.tokens.all items ++ tokens) (Element.events.all items ++ events)) ∧
    ∀ pairs tokens events, Trace tokens events →
      Trace (Element.tokens.each pairs ++ tokens) (Element.events.each pairs ++ events) := by
  refine Element.induction ?_ ?_ ?_ ?_ ?_ ?_ ?_
  · intro e token leaf tokens events later
    rw [leaf.tokens, leaf.events]
    exact .pass leaf.notKey leaf.notOpen later
  · intro items ih tokens events later
    have closed : Trace (.closeArray :: tokens) events :=
      .pass (fun key => by simp [Token.text, keyTag, arrayClose]) (by simp) later
    rw [Element.tokens, Element.events, List.cons_append, List.append_assoc]
    exact .pass (fun key => by simp [Token.text, keyTag, arrayOpen]) (by simp) (ih _ _ closed)
  · intro pairs ih tokens events later
    have closed : Trace (.closeDict :: tokens) events :=
      .pass (fun key => by simp [Token.text, keyTag, dictClose]) (by simp) later
    rw [Element.tokens, Element.events, List.cons_append, List.append_assoc]
    exact .dict (ih _ _ closed)
  · intro tokens events later
    exact later
  · intro e items here there tokens events later
    rw [Element.tokens.all, Element.events.all, List.append_assoc, List.append_assoc]
    exact here _ _ (there _ _ later)
  · intro tokens events later
    exact later
  · intro key e pairs here there tokens events later
    rw [Element.tokens.each, Element.events.each, List.cons_append, List.append_assoc, List.cons_append, List.append_assoc]
    exact .key (here _ _ (there _ _ later))

def Event.isKey (key : Chars) : Event → Bool
  | .key raw => raw.text = key
  | .dict _ => false

def Event.dict? : Event → Option (List (Raw × Element))
  | .key _ => none
  | .dict pairs => some pairs

/-- The first occurrence of a key, in the tokens and among the events. -/
theorem Trace.key_split {tokens : List Token} {events : List Event} (trace : Trace tokens events) (key : Chars) :
    (∀ token ∈ tokens, token.text ≠ keyTag key) ∧ events.dropWhile (fun event => !event.isKey key) = [] ∨
      ∃ front token back raw later, tokens = front ++ token :: back ∧ token.text = keyTag key ∧
        (∀ token ∈ front, token.text ≠ keyTag key) ∧
        events.dropWhile (fun event => !event.isKey key) = .key raw :: later ∧ Trace back later := by
  induction trace with
  | nil => exact .inl ⟨by simp, rfl⟩
  | @key raw tokens events later ih =>
    by_cases same : raw.text = key
    · refine .inr ⟨[], .key raw, tokens, raw, events, rfl, keyTag_inj.mpr same, by simp, ?_, later⟩
      rw [List.dropWhile_cons, if_neg (by simp [Event.isKey, same])]
    · have other : (Token.key raw).text ≠ keyTag key := fun equal => same (keyTag_inj.mp equal)
      rw [List.dropWhile_cons, if_pos (by simp [Event.isKey, same])]
      rcases ih with ⟨none, empty⟩ | ⟨front, token, back, raw', later', rfl, tag, none, rest, trace⟩
      · exact .inl ⟨List.forall_mem_cons.mpr ⟨other, none⟩, empty⟩
      · exact .inr ⟨.key raw :: front, token, back, raw', later', rfl, tag, List.forall_mem_cons.mpr ⟨other, none⟩, rest, trace⟩
  | @dict pairs tokens events later ih =>
    have other : Token.openDict.text ≠ keyTag key := by simp [Token.text, keyTag, dictOpen]
    rw [List.dropWhile_cons, if_pos (by rfl)]
    rcases ih with ⟨none, empty⟩ | ⟨front, token, back, raw', later', split, tag, none, rest, trace⟩
    · exact .inl ⟨List.forall_mem_cons.mpr ⟨other, none⟩, empty⟩
    · exact .inr ⟨.openDict :: front, token, back, raw', later', by rw [split]; rfl, tag,
        List.forall_mem_cons.mpr ⟨other, none⟩, rest, trace⟩
  | @pass token' tokens events notKey _ later ih =>
    rcases ih with ⟨none, empty⟩ | ⟨front, token, back, raw', later', rfl, tag, none, rest, trace⟩
    · exact .inl ⟨List.forall_mem_cons.mpr ⟨notKey key, none⟩, empty⟩
    · exact .inr ⟨token' :: front, token, back, raw', later', rfl, tag,
        List.forall_mem_cons.mpr ⟨notKey key, none⟩, rest, trace⟩

/-- The first dictionary that is opened, in the tokens and among the events. -/
theorem Trace.dict_split {tokens : List Token} {events : List Event} (trace : Trace tokens events) :
    (∀ token ∈ tokens, token ≠ .openDict) ∧ events.findSome? Event.dict? = none ∨
      ∃ front pairs back, tokens = front ++ .openDict :: (Element.tokens.each pairs ++ .closeDict :: back) ∧
        (∀ token ∈ front, token ≠ .openDict) ∧ events.findSome? Event.dict? = some pairs := by
  induction trace with
  | nil => exact .inl ⟨by simp, rfl⟩
  | @key raw tokens events later ih =>
    rw [List.findSome?_cons]
    rcases ih with ⟨none, empty⟩ | ⟨front, pairs, back, rfl, none, found⟩
    · exact .inl ⟨List.forall_mem_cons.mpr ⟨by simp, none⟩, empty⟩
    · exact .inr ⟨.key raw :: front, pairs, back, rfl, List.forall_mem_cons.mpr ⟨by simp, none⟩, found⟩
  | @dict pairs tokens events later ih =>
    exact .inr ⟨[], pairs, tokens, rfl, by simp, rfl⟩
  | @pass token tokens events notKey notOpen later ih =>
    rcases ih with ⟨none, empty⟩ | ⟨front, pairs, back, rfl, none, found⟩
    · exact .inl ⟨List.forall_mem_cons.mpr ⟨notOpen, none⟩, empty⟩
    · exact .inr ⟨token :: front, pairs, back, rfl, List.forall_mem_cons.mpr ⟨notOpen, none⟩, found⟩

theorem find_docText {lines : List Line} {n rest : Chars}
    (apart : ∀ line ∈ lines, ∀ rest, Apart '<' n rest line.token.bodies) :
    find ('<' :: n) (docText lines ++ rest) = (find ('<' :: n) rest).map ((docText lines).length + ·) := by
  induction lines with
  | nil => simp [docText]
  | cons line lines ih =>
    have whole : docText (line :: lines) = line.text ++ docText lines := rfl
    rw [whole, List.append_assoc, Line.find_skip (apart line List.mem_cons_self _),
      ih fun line member => apart line (List.mem_cons_of_mem _ member), shift_shift, List.length_append]

theorem find_none {lines : List Line} {line : Line} {n : Chars}
    (apart : ∀ line ∈ lines, ∀ rest, Apart '<' n rest line.token.bodies) (last : Apart '<' n [] line.token.bodies) :
    find ('<' :: n) (docText lines ++ (line.indent ++ line.token.text)) = none := by
  have ended := find_joined line.token.bodies_clean last
  rw [List.append_nil] at ended
  rw [find_docText apart, Search.find_skip line.indent_clean, line.token.text_bodies, ended]
  rfl

def Line.bare (line : Line) : Line := { line with indent := [], blank := by simp }

theorem Line.text_bare (line : Line) : line.text = line.indent ++ line.bare.text := rfl

theorem docText_append (front back : List Line) : docText (front ++ back) = docText front ++ docText back :=
  List.flatMap_append

theorem docText_cons (line : Line) (lines : List Line) : docText (line :: lines) = line.text ++ docText lines := rfl

/-- The text from an opening tag to the line that closes the dictionary. -/
def scopeText (inner : List Line) (closeLine : Line) : Chars :=
  dictOpen ++ '\n' :: (docText inner ++ (closeLine.indent ++ dictClose))

section Isolate
variable {front mid inner back : List Line} {keyLine openLine closeLine : Line} {key tail : Chars}

/-- The search for a key finds its line. -/
theorem find_key (clean : '<' ∉ key) (none : ∀ line ∈ front, line.token.text ≠ keyTag key)
    (tag : keyLine.token.text = keyTag key) (rest : Chars) :
    find (keyTag key) (docText front ++ (keyLine.text ++ rest)) = some ((docText front).length + keyLine.indent.length) := by
  have needle : keyTag key = '<' :: (['k', 'e', 'y', '>'] ++ (key ++ ['<', '/', 'k', 'e', 'y', '>'])) := rfl
  have here : keyTag key <+: keyLine.bare.text ++ rest := by
    have text : keyLine.bare.text = keyLine.token.text ++ ['\n'] := rfl
    rw [text, tag, List.append_assoc]
    exact List.prefix_append _ _
  rw [needle, find_docText fun line member rest => Token.apart_key clean (none line member) rest, keyLine.text_bare,
    List.append_assoc, Search.find_skip keyLine.indent_clean, ← needle, find_here here, Option.map_some, Option.map_some,
    Nat.add_zero]

theorem find_dictOpen (notOpen : ∀ line ∈ mid, line.token ≠ .openDict) (opens : openLine.token = .openDict) (rest : Chars) :
    find dictOpen (docText mid ++ (openLine.text ++ rest)) = some ((docText mid).length + openLine.indent.length) := by
  have here : dictOpen <+: openLine.bare.text ++ rest := by
    have text : openLine.bare.text = openLine.token.text ++ ['\n'] := rfl
    rw [text, opens, List.append_assoc]
    exact List.prefix_append _ _
  have needle : dictOpen = '<' :: ['d', 'i', 'c', 't', '>'] := rfl
  rw [needle, find_docText fun line member rest => Token.apart_openDict (notOpen line member) rest, openLine.text_bare,
    List.append_assoc, Search.find_skip openLine.indent_clean, ← needle, find_here here, Option.map_some, Option.map_some,
    Nat.add_zero]

theorem dictEnd_scope (level : levels 1 (inner.map Line.token) = some 1) (closes : closeLine.token = .closeDict)
    (rest : Chars) :
    dictExtent 1 ('\n' :: (docText inner ++ (closeLine.text ++ rest))) =
      some (1 + ((docText inner).length + (closeLine.indent.length + dictClose.length))) := by
  have newline : dictExtent 1 ('\n' :: (docText inner ++ (closeLine.text ++ rest))) =
      (dictExtent 1 (docText inner ++ (closeLine.text ++ rest))).map (1 + ·) :=
    @dictExtent_skip 1 _ ['\n'] (by decide)
  rw [newline, dictExtent_docText level, closeLine.dictExtent, if_neg (by rw [closes]; simp), if_pos closes, if_pos rfl]
  rfl

/-- The scope is the first dictionary that is opened after the first occurrence of the key. -/
theorem isolate_found (none : ∀ line ∈ front, line.token.text ≠ keyTag "Entitlements".toList)
    (tag : keyLine.token.text = keyTag "Entitlements".toList) (notOpen : ∀ line ∈ mid, line.token ≠ .openDict)
    (opens : openLine.token = .openDict) (level : levels 1 (inner.map Line.token) = some 1)
    (closes : closeLine.token = .closeDict) :
    isolateEntitlementsDict (docText (front ++ keyLine :: (mid ++ openLine :: (inner ++ closeLine :: back))) ++ tail) =
      some (scopeText inner closeLine) := by
  have clean : '<' ∉ "Entitlements".toList := by decide
  have notDict : keyLine.bare.token ≠ .openDict := by
    intro wrong
    have text : keyLine.bare.token.text = keyTag "Entitlements".toList := tag
    rw [wrong] at text
    simp [Token.text, keyTag, dictOpen] at text
  have whole : docText (front ++ keyLine :: (mid ++ openLine :: (inner ++ closeLine :: back))) ++ tail =
      docText front ++ (keyLine.text ++ (docText mid ++ (openLine.text ++ (docText inner ++
        (closeLine.text ++ (docText back ++ tail)))))) := by
    simp only [docText_append, docText_cons, List.append_assoc]
  have afterKey (rest : Chars) : (docText front ++ (keyLine.text ++ rest)).drop
      ((docText front).length + keyLine.indent.length) = keyLine.bare.text ++ rest := by
    rw [← List.drop_drop, List.drop_left, keyLine.text_bare, List.append_assoc, List.drop_left]
  have keyed (rest : Chars) : keyLine.bare.text ++ (docText mid ++ rest) = docText (keyLine.bare :: mid) ++ rest := by
    rw [docText_cons, List.append_assoc]
  have dict (rest : Chars) : (docText (keyLine.bare :: mid) ++ (openLine.text ++ rest)).drop
      ((docText (keyLine.bare :: mid)).length + openLine.indent.length) = dictOpen ++ '\n' :: rest := by
    have text : openLine.bare.text = dictOpen ++ ['\n'] := by
      change openLine.token.text ++ ['\n'] = _
      rw [opens]
      rfl
    rw [← List.drop_drop, List.drop_left, openLine.text_bare, List.append_assoc, List.drop_left, text, List.append_assoc,
      List.singleton_append]
  have stop := @dictEnd_scope inner closeLine level closes (docText back ++ tail)
  have taken (rest : Chars) : (dictOpen ++ '\n' :: (docText inner ++ (closeLine.text ++ rest))).take (dictOpen.length +
      (1 + ((docText inner).length + (closeLine.indent.length + dictClose.length)))) = scopeText inner closeLine := by
    have closing : closeLine.text = (closeLine.indent ++ dictClose) ++ ['\n'] := by
      rw [Line.text, closes, List.append_assoc]
      rfl
    have split : dictOpen ++ '\n' :: (docText inner ++ (closeLine.text ++ rest)) =
        scopeText inner closeLine ++ ('\n' :: rest) := by
      rw [closing, scopeText]
      simp only [List.append_assoc, List.cons_append, List.nil_append]
    rw [split]
    refine List.take_left' ?_
    simp only [scopeText, List.length_append, List.length_cons]
    omega
  have opened := @find_dictOpen (keyLine.bare :: mid) openLine (List.forall_mem_cons.mpr ⟨notDict, notOpen⟩) opens
  rw [whole, isolateEntitlementsDict, find_key clean none tag]
  simp only [bind, Option.bind, afterKey, keyed, opened, dict, List.drop_left]
  have extent : dictEnd ('\n' :: (docText inner ++ (closeLine.text ++ (docText back ++ tail)))).length 1
      ('\n' :: (docText inner ++ (closeLine.text ++ (docText back ++ tail)))) = _ := stop
  rw [extent]
  exact congrArg some (taken _)

theorem isolate_none (clean : ∀ line ∈ front, line.token.text ≠ keyTag "Entitlements".toList)
    (last : keyLine.token.text ≠ keyTag "Entitlements".toList) :
    isolateEntitlementsDict (docText front ++ (keyLine.indent ++ keyLine.token.text)) = none := by
  have absent : find (keyTag "Entitlements".toList) (docText front ++ (keyLine.indent ++ keyLine.token.text)) = none :=
    find_none (fun line member rest => Token.apart_key (by decide) (clean line member) rest)
      (Token.apart_key (by decide) last [])
  rw [isolateEntitlementsDict, absent]
  rfl

theorem isolate_no_dict {last : Line} (none : ∀ line ∈ front, line.token.text ≠ keyTag "Entitlements".toList)
    (tag : keyLine.token.text = keyTag "Entitlements".toList) (notOpen : ∀ line ∈ mid, line.token ≠ .openDict)
    (end' : last.token ≠ .openDict) :
    isolateEntitlementsDict (docText (front ++ keyLine :: mid) ++ (last.indent ++ last.token.text)) = Option.none := by
  have notDict : keyLine.bare.token ≠ .openDict := by
    intro wrong
    have text : keyLine.bare.token.text = keyTag "Entitlements".toList := tag
    rw [wrong] at text
    simp [Token.text, keyTag, dictOpen] at text
  have afterKey (rest : Chars) : (docText front ++ (keyLine.text ++ rest)).drop
      ((docText front).length + keyLine.indent.length) = keyLine.bare.text ++ rest := by
    rw [← List.drop_drop, List.drop_left, keyLine.text_bare, List.append_assoc, List.drop_left]
  have absent : find dictOpen (keyLine.bare.text ++ (docText mid ++ (last.indent ++ last.token.text))) = Option.none := by
    have all : ∀ line ∈ keyLine.bare :: mid, line.token ≠ .openDict := List.forall_mem_cons.mpr ⟨notDict, notOpen⟩
    rw [← List.append_assoc, ← docText_cons]
    exact find_none (fun line member rest => Token.apart_openDict (all line member) rest) (Token.apart_openDict end' [])
  rw [docText_append, docText_cons, List.append_assoc, List.append_assoc, isolateEntitlementsDict,
    find_key (by decide) none tag]
  simp only [bind, Option.bind, afterKey, absent]

end Isolate

end Bsdos.Plist
