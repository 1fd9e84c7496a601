import Bsdos.Plist.Isolate

namespace Bsdos.Plist
open Octets Search

/-- A provisioning profile: bytes without the mark of a property list, the property list,
and any bytes. -/
structure Profile where
  front : Bytes
  attributes : Raw
  doctype : Option Raw
  version : Raw
  root : Element
  lines : List Line
  closing : Line
  back : Bytes
  tokens : lines.map Line.token = .xml attributes :: (doctype.toList.map .doctype ++ .plist version :: root.tokens)
  closes : closing.token = .closePlist
  start : lines.head?.map Line.indent = some []
  unmarked : find xmlOpen (front ++ xmlOpen) = some front.length

def Profile.text (profile : Profile) : Chars :=
  docText profile.lines ++ (profile.closing.indent ++ profile.closing.token.text)

def Profile.bytes (profile : Profile) : Bytes := profile.front ++ (utf8 profile.text ++ profile.back)

/-- The entries of the dictionary at the top. -/
def Element.pairs : Element → List (Raw × Element)
  | .dict pairs => pairs
  | _ => []

/-- The entries of the dictionary that the key Entitlements at the top stands for. -/
def Element.entitlements (root : Element) : List (Raw × Element) :=
  (root.pairs.find? fun pair => pair.1.text = "Entitlements".toList).elim [] fun pair => pair.2.pairs

/-- One of the boolean network keys is mapped to true, or one of the others is there. -/
def Granted (pairs : List (Raw × Element)) : Prop :=
  (∃ pair ∈ pairs, pair.1.text ∈ networkBoolKeys ∧ pair.2.bool? = some true) ∨
    ∃ pair ∈ pairs, pair.1.text ∈ networkPresenceKeys

/-- The entries that are looked at: those, at whatever depth, of the first dictionary that is
opened after the first key Entitlements, wherever they are; all entries if there is none. -/
def Element.scope (root : Element) : List (Raw × Element) :=
  ((root.events.dropWhile fun event => !event.isKey "Entitlements".toList).findSome? Event.dict?).elim root.entries
    Element.entries.each

/-- For one of the boolean network keys the first boolean value is true, or one of the
others is there. -/
def Found (entries : List (Raw × Element)) : Prop :=
  (∃ key ∈ networkBoolKeys, firstOf Element.bool? key entries = some true) ∨
    ∃ pair ∈ entries, pair.1.text ∈ networkPresenceKeys

theorem utf8_newline (front : Chars) : utf8 (front ++ ['\n']) = utf8 front ++ [0x0A] := utf8_append front ['\n']

theorem utf8_joined (bodies : List Chars) : utf8 (joined '<' bodies) = joined 0x3C (bodies.map utf8) := by
  induction bodies with
  | nil => rfl
  | cons body bodies ih =>
    have whole : joined '<' (body :: bodies) = '<' :: (body ++ joined '<' bodies) := rfl
    rw [whole, utf8_cons (by decide), utf8_append, ih]
    rfl

theorem Token.apart_closePlist {token : Token} (other : token ≠ .closePlist) (rest : Bytes) :
    Apart 0x3C [0x2F, 0x70, 0x6C, 0x69, 0x73, 0x74, 0x3E] rest (token.bodies.map utf8) := by
  have plain (c : Char) (cs : Chars) : c.toNat < 0x80 → utf8 (c :: cs) = UInt8.ofNat c.toNat :: utf8 cs :=
    fun ascii => utf8_cons ascii cs
  cases token with
  | closePlist => exact absurd rfl other
  | bool b => cases b <;> simp [bodies, Apart, plain]
  | _ => simp [bodies, Apart, joined, plain]

theorem Line.find_bytes {line : Line} {n rest : Bytes} (apart : Apart 0x3C n (0x0A :: rest) (line.token.bodies.map utf8)) :
    find (0x3C :: n) (utf8 line.text ++ rest) = (find (0x3C :: n) rest).map ((utf8 line.text).length + ·) := by
  have ended : utf8 line.text ++ rest =
      utf8 line.indent ++ (joined 0x3C (line.token.bodies.map utf8) ++ 0x0A :: rest) := by
    rw [text, utf8_append, utf8_newline, line.token.text_bodies, utf8_joined, List.append_assoc, List.append_assoc,
      List.singleton_append]
  have length : (utf8 line.text).length =
      (utf8 line.indent).length + ((joined 0x3C (line.token.bodies.map utf8)).length + 1) := by
    rw [text, utf8_append, utf8_newline, line.token.text_bodies, utf8_joined, List.length_append, List.length_append,
      List.length_singleton]
  have last : find (0x3C :: n) (0x0A :: rest) = (find (0x3C :: n) rest).map (1 + ·) :=
    @Search.find_skip UInt8 _ n [0x0A] rest 0x3C (by decide)
  have clean : ∀ body ∈ line.token.bodies.map utf8, (0x3C : UInt8) ∉ body := by
    intro body member inside
    obtain ⟨chars, known, rfl⟩ := List.mem_map.mp member
    exact line.token.bodies_clean chars known (@utf8_ascii chars '<' (by decide) inside)
  have indent : (0x3C : UInt8) ∉ utf8 line.indent := fun inside => line.indent_clean (@utf8_ascii _ '<' (by decide) inside)
  rw [ended, Search.find_skip indent, find_joined clean apart, last, shift_shift, shift_shift, length, Nat.add_assoc]

theorem tokens_inner :
    (∀ e : Element, ∀ token ∈ e.tokens, token ≠ .closePlist) ∧
    (∀ items, ∀ token ∈ Element.tokens.all items, token ≠ .closePlist) ∧
    ∀ pairs, ∀ token ∈ Element.tokens.each pairs, token ≠ .closePlist := by
  refine Element.induction ?_ ?_ ?_ ?_ ?_ ?_ ?_
  · intro e token leaf
    rw [leaf.tokens, List.forall_mem_singleton]
    exact leaf.notLast
  · intro items ih
    rw [Element.tokens, List.forall_mem_cons, List.forall_mem_append, List.forall_mem_singleton]
    exact ⟨by simp, ih, by simp⟩
  · intro pairs ih
    rw [Element.tokens, List.forall_mem_cons, List.forall_mem_append, List.forall_mem_singleton]
    exact ⟨by simp, ih, by simp⟩
  · exact List.forall_mem_nil _
  · intro e items here there
    rw [Element.tokens.all, List.forall_mem_append]
    exact ⟨here, there⟩
  · exact List.forall_mem_nil _
  · intro key e pairs here there
    rw [Element.tokens.each, List.forall_mem_cons, List.forall_mem_append]
    exact ⟨by simp, here, there⟩

/-- The tokens before the property list. -/
def Profile.header (profile : Profile) : List Token :=
  .xml profile.attributes :: (profile.doctype.toList.map .doctype ++ [.plist profile.version])

theorem Profile.lines_tokens (profile : Profile) : profile.lines.map Line.token = profile.header ++ profile.root.tokens := by
  rw [profile.tokens, header, List.cons_append, List.append_assoc, List.singleton_append]

theorem Profile.header_plain (profile : Profile) :
    ∀ token ∈ profile.header, (∀ key, token.text ≠ keyTag key) ∧ token ≠ .openDict ∧ token ≠ .closePlist := by
  rw [header, List.forall_mem_cons, List.forall_mem_append, List.forall_mem_singleton]
  refine ⟨⟨fun key => by simp [Token.text, keyTag], by simp, by simp⟩, ?_,
    ⟨fun key => by simp [Token.text, keyTag], by simp, by simp⟩⟩
  intro token member
  obtain ⟨raw, _, rfl⟩ := List.mem_map.mp member
  exact ⟨fun key => by simp [Token.text, keyTag], by simp, by simp⟩

/-- The property list is found in the profile. -/
theorem Profile.embedded (profile : Profile) : extractEmbeddedPlist profile.bytes = some (String.ofList profile.text) := by
  have opening : ∃ later, utf8 profile.text = xmlOpen ++ later := by
    obtain ⟨line, others, split⟩ : ∃ line others, profile.lines = line :: others := by
      cases lines : profile.lines with
      | nil => have tokens := profile.tokens; rw [lines] at tokens; cases tokens
      | cons line others => exact ⟨line, others, rfl⟩
    have token : line.token = .xml profile.attributes := by
      have tokens := profile.tokens
      rw [split] at tokens
      exact (List.cons.inj tokens).1
    have indent : line.indent = [] := by
      have start := profile.start
      rw [split] at start
      exact Option.some.inj start
    have text : profile.text = ['<', '?', 'x', 'm', 'l'] ++ (profile.attributes.text ++ (['\n'] ++ (docText others ++
        (profile.closing.indent ++ profile.closing.token.text)))) := by
      rw [Profile.text, split, docText_cons, Line.text, indent, token]
      simp only [Token.text, List.append_assoc, List.nil_append]
    rw [text, utf8_append]
    exact ⟨_, rfl⟩
  have closing : utf8 (profile.closing.indent ++ profile.closing.token.text) = utf8 profile.closing.indent ++ plistClose := by
    rw [utf8_append, profile.closes]
    rfl
  have skipped (lines : List Line) (notLast : ∀ line ∈ lines, line.token ≠ .closePlist) (rest : Bytes) :
      find plistClose (utf8 (docText lines) ++ rest) = (find plistClose rest).map ((utf8 (docText lines)).length + ·) := by
    induction lines with
    | nil => simp [docText, utf8]
    | cons line lines ih =>
      have needle : plistClose = 0x3C :: [0x2F, 0x70, 0x6C, 0x69, 0x73, 0x74, 0x3E] := rfl
      rw [docText_cons, utf8_append, List.append_assoc, needle,
        line.find_bytes (Token.apart_closePlist (notLast line List.mem_cons_self) _), ← needle,
        ih fun line member => notLast line (List.mem_cons_of_mem _ member), shift_shift, List.length_append]
  have notLast : ∀ line ∈ profile.lines, line.token ≠ .closePlist := by
    intro line member
    have inside : line.token ∈ profile.header ++ profile.root.tokens :=
      profile.lines_tokens ▸ List.mem_map_of_mem member
    rcases List.mem_append.mp inside with before | within
    · exact (profile.header_plain _ before).2.2
    · exact tokens_inner.1 _ _ within
  obtain ⟨later, opened⟩ := opening
  have start : findSubslice profile.bytes xmlOpen = some profile.front.length := by
    have whole : profile.bytes = (profile.front ++ xmlOpen) ++ (later ++ profile.back) := by
      rw [bytes, opened, List.append_assoc, List.append_assoc]
    have short : ¬ (xmlOpen = [] ∨ xmlOpen.length > ((profile.front ++ xmlOpen) ++ (later ++ profile.back)).length) := by
      simp only [List.length_append, not_or]
      exact ⟨by decide, by omega⟩
    rw [whole, findSubslice, if_neg short, find_append profile.unmarked (by rw [List.length_append])]
  have stop : find plistClose (utf8 profile.text ++ profile.back) =
      some ((utf8 (docText profile.lines)).length + (utf8 profile.closing.indent).length) := by
    have indent : (0x3C : UInt8) ∉ utf8 profile.closing.indent := fun inside =>
      profile.closing.indent_clean (@utf8_ascii _ '<' (by decide) inside)
    have needle : plistClose = 0x3C :: [0x2F, 0x70, 0x6C, 0x69, 0x73, 0x74, 0x3E] := rfl
    rw [text, utf8_append, closing, List.append_assoc, List.append_assoc, skipped _ notLast]
    rw [needle, Search.find_skip indent, ← needle, find_here (List.prefix_append _ _)]
    simp
  have length : (utf8 profile.text).length =
      (utf8 (docText profile.lines)).length + (utf8 profile.closing.indent).length + plistClose.length := by
    rw [text, utf8_append, closing, List.length_append, List.length_append, Nat.add_assoc]
  have short : ¬ (plistClose = [] ∨ plistClose.length > (utf8 profile.text ++ profile.back).length) := by
    simp only [List.length_append, not_or]
    exact ⟨by decide, by omega⟩
  have dropped : profile.bytes.drop profile.front.length = utf8 profile.text ++ profile.back := List.drop_left
  have strict : fromUtf8 (utf8 profile.text) = some (String.ofList profile.text) := by
    have read := fromUtf8_utf8 (String.ofList profile.text)
    rwa [String.toList_ofList] at read
  rw [extractEmbeddedPlist, start]
  simp only [bind, Option.bind, dropped, findSubslice, if_neg short, stop]
  rw [← length, List.take_left, strict]

theorem Profile.trace (profile : Profile) : Trace (profile.header ++ profile.root.tokens) profile.root.events := by
  have inner := trace_tree.1 profile.root [] [] .nil
  rw [List.append_nil, List.append_nil] at inner
  have plain := profile.header_plain
  generalize profile.header = header at plain ⊢
  induction header with
  | nil => exact inner
  | cons token header ih =>
    have here := plain token List.mem_cons_self
    exact .pass here.1 here.2.1 (ih fun token member => plain token (List.mem_cons_of_mem _ member))

/-- The text that is looked at is read as the lines of an element, without other keys. -/
theorem Profile.scope (profile : Profile) :
    ∃ lines e front back, Text.linesChars [] ((isolateEntitlementsDict profile.text).getD profile.text) =
        Text.linesChars [] (docText lines) ∧
      lines.map Line.token = front ++ (Element.tokens e ++ back) ∧ Element.entries e = profile.root.scope ∧
      (∀ token ∈ front, ∀ key, token.text ≠ keyTag key) ∧ ∀ token ∈ back, ∀ key, token.text ≠ keyTag key := by
  have closes := profile.closes
  have lastKey (key : Chars) : profile.closing.token.text ≠ keyTag key := by
    rw [closes]
    simp [Token.text, keyTag]
  have lastDict : profile.closing.token ≠ .openDict := by
    rw [closes]
    simp
  have fallback (isolated : isolateEntitlementsDict profile.text = none) (entries : profile.root.entries = profile.root.scope) :
      ∃ lines e front back, Text.linesChars [] ((isolateEntitlementsDict profile.text).getD profile.text) =
          Text.linesChars [] (docText lines) ∧
        lines.map Line.token = front ++ (Element.tokens e ++ back) ∧ Element.entries e = profile.root.scope ∧
        (∀ token ∈ front, ∀ key, token.text ≠ keyTag key) ∧ ∀ token ∈ back, ∀ key, token.text ≠ keyTag key := by
    refine ⟨profile.lines ++ [profile.closing], profile.root, profile.header, [profile.closing.token], ?_, ?_, entries,
      fun token member => (profile.header_plain token member).1, ?_⟩
    · rw [isolated]
      exact @linesChars_ending _ _ ['<', '/', 'p', 'l', 'i', 's', 't'] (by rw [closes]; rfl)
    · rw [List.map_append, profile.lines_tokens, List.append_assoc]
      rfl
    · intro token member key
      rw [List.mem_singleton.mp member]
      exact lastKey key
  rcases profile.trace.key_split "Entitlements".toList with ⟨none, empty⟩ | ⟨before, token, after, raw, later, split, tag, none, events, trace⟩
  · have entries : profile.root.entries = profile.root.scope := by
      rw [Element.scope, empty]
      rfl
    refine fallback ?_ entries
    refine isolate_none (fun line member => none line.token ?_) (lastKey _)
    rw [← profile.lines_tokens]
    exact List.mem_map_of_mem member
  · obtain ⟨front, tailLines, splitLines, frontTokens, tailTokens⟩ :=
      List.map_eq_append_iff.mp (profile.lines_tokens.trans split)
    obtain ⟨keyLine, mid, tailSplit, keyToken, midTokens⟩ := List.map_eq_cons_iff.mp tailTokens
    have frontPlain : ∀ line ∈ front, line.token.text ≠ keyTag "Entitlements".toList := fun line member =>
      none line.token (frontTokens ▸ List.mem_map_of_mem member)
    rcases trace.dict_split with ⟨noDict, absent⟩ | ⟨between, pairs, rest, split', notOpen, found⟩
    · have entries : profile.root.entries = profile.root.scope := by
        rw [Element.scope, events, List.findSome?_cons]
        simp only [Event.dict?, absent, Option.elim]
      refine fallback ?_ entries
      rw [text, splitLines, tailSplit]
      exact isolate_no_dict frontPlain (keyToken ▸ tag)
        (fun line member => noDict line.token (midTokens ▸ List.mem_map_of_mem member)) lastDict
    · obtain ⟨passed, openTail, midSplit, passedTokens, openTokens⟩ := List.map_eq_append_iff.mp (midTokens.trans split')
      obtain ⟨openLine, restLines, openSplit, openToken, restTokens⟩ := List.map_eq_cons_iff.mp openTokens
      obtain ⟨inner, closeTail, restSplit, innerTokens, closeTokens⟩ := List.map_eq_append_iff.mp restTokens
      obtain ⟨closeLine, afterwards, closeSplit, closeToken, _⟩ := List.map_eq_cons_iff.mp closeTokens
      have level : levels 1 (inner.map Line.token) = some 1 := by
        have balanced := levels_tree.2.2 pairs 0 []
        rw [List.append_nil] at balanced
        rw [innerTokens, balanced]
        rfl
      have isolated : isolateEntitlementsDict profile.text = some (scopeText inner closeLine) := by
        rw [text, splitLines, tailSplit, midSplit, openSplit, restSplit, closeSplit]
        exact isolate_found frontPlain (keyToken ▸ tag)
          (fun line member => notOpen line.token (passedTokens ▸ List.mem_map_of_mem member)) openToken level closeToken
      refine ⟨openLine.bare :: (inner ++ [closeLine]), .dict pairs, [], [], ?_, ?_, ?_, by simp, by simp⟩
      · have opening : openLine.bare.text = dictOpen ++ ['\n'] := by
          change openLine.token.text ++ ['\n'] = _
          rw [openToken]
          rfl
        have ending := @linesChars_ending (openLine.bare :: inner) closeLine ['<', '/', 'd', 'i', 'c', 't']
          (by rw [closeToken]; rfl)
        have whole : scopeText inner closeLine = docText (openLine.bare :: inner) ++ (closeLine.indent ++ closeLine.token.text) := by
          rw [scopeText, docText_cons, opening, closeToken, List.append_assoc, List.append_assoc, List.singleton_append]
          rfl
        rw [isolated, Option.getD_some, whole, ending]
        rfl
      · have bare : openLine.bare.token = .openDict := openToken
        rw [List.map_cons, List.map_append, innerTokens, bare, List.map_singleton, closeToken, List.append_nil]
        rfl
      · rw [Element.scope, events, List.findSome?_cons]
        simp only [Event.dict?, found, Option.elim, Element.entries]

theorem networkKeys_plain :
    (∀ key ∈ networkBoolKeys, '<' ∉ key ∧ '\n' ∉ key) ∧ ∀ key ∈ networkPresenceKeys, '<' ∉ key ∧ '\n' ∉ key := by
  decide

/-- A profile is parsed, and grants the network for what is found in the scope. -/
theorem Profile.parse (profile : Profile) :
    ∃ ent, parseMobileprovision profile.bytes = .ok ent ∧ (ent.network = true ↔ Found profile.root.scope) := by
  refine ⟨entitlementsFromXml profile.text, ?_, ?_⟩
  · rw [parseMobileprovision, profile.embedded]
    simp only [orFail, bind, Except.bind, pure, Except.pure, String.toList_ofList]
  obtain ⟨lines, e, front, back, read, tokens, entries, frontPlain, backPlain⟩ := profile.scope
  have heads (e : Element) (token : Token) (later : List Token) (split : e.tokens = token :: later) :
      token.bool? = e.bool? := by
    cases e <;> cases split <;> rfl
  have bool (key : Chars) (plain : '<' ∉ key ∧ '\n' ∉ key) :
      extractBoolAfterKey ((isolateEntitlementsDict profile.text).getD profile.text) key =
        firstOf Element.bool? key profile.root.scope := by
    have ended : scanTokens Token.bool? key false back = none := by
      have passed := @scanTokens_front _ Token.bool? key back (fun token member => backPlain token member key) []
      rw [List.append_nil] at passed
      rw [passed]
      rfl
    rw [extractBool_tokens read plain.1 plain.2, tokens, scanTokens_front fun token member => frontPlain token member key,
      (scanTokens_tree heads).1, ended, Option.or_none, entries]
  have present (key : Chars) (plain : '<' ∉ key ∧ '\n' ∉ key) :
      keyIsPresent ((isolateEntitlementsDict profile.text).getD profile.text) key = true ↔
        ∃ pair ∈ profile.root.scope, pair.1.text = key := by
    rw [keyIsPresent_iff read plain.1 plain.2, tokens, ← entries, ← keys_tree.1]
    constructor
    · rintro ⟨token, member, tag⟩
      rcases List.mem_append.mp member with before | later
      · exact absurd tag (frontPlain token before key)
      · rcases List.mem_append.mp later with within | after
        · exact ⟨token, within, tag⟩
        · exact absurd tag (backPlain token after key)
    · rintro ⟨token, member, tag⟩
      exact ⟨token, List.mem_append_right _ (List.mem_append_left _ member), tag⟩
  have flag : (entitlementsFromXml profile.text).network =
      ((networkBoolKeys.any fun key =>
          (extractBoolAfterKey ((isolateEntitlementsDict profile.text).getD profile.text) key).getD false) ||
        networkPresenceKeys.any fun key => keyIsPresent ((isolateEntitlementsDict profile.text).getD profile.text) key) := rfl
  rw [flag, Bool.or_eq_true, List.any_eq_true, List.any_eq_true, Found]
  refine or_congr (exists_congr fun key => and_congr_right fun member => ?_) ⟨?_, ?_⟩
  · rw [bool key (networkKeys_plain.1 key member)]
    cases firstOf Element.bool? key profile.root.scope <;> simp
  · rintro ⟨key, member, here⟩
    obtain ⟨pair, inside, same⟩ := (present key (networkKeys_plain.2 key member)).mp here
    exact ⟨pair, inside, same ▸ member⟩
  · rintro ⟨pair, inside, member⟩
    exact ⟨pair.1.text, member, (present _ (networkKeys_plain.2 _ member)).mpr ⟨pair, inside, rfl⟩⟩

/-- What is found in the scope decides as the direct entries of the Entitlements dictionary do. -/
def Undisturbed (root : Element) : Prop := Found root.scope ↔ Granted root.entitlements

/-- The network is granted for the direct entries of the Entitlements dictionary, and only
for them, if and only if nothing else that is looked at decides otherwise. -/
theorem network_scoped_iff (profile : Profile) (bundle : BundleInfo) :
    ∃ ent, parseMobileprovision profile.bytes = .ok ent ∧
      ((ent.network = true ↔ Granted profile.root.entitlements) ∧
        ((policyFromEntitlements bundle (some ent)).network = .inherit → Granted profile.root.entitlements) ↔
          Undisturbed profile.root) ∧
      ∀ (other : Profile) (ent' : Entitlements), parseMobileprovision other.bytes = .ok ent' → Undisturbed profile.root →
        Undisturbed other.root → other.root.entitlements = profile.root.entitlements → ent'.network = ent.network := by
  obtain ⟨ent, parsed, network⟩ := profile.parse
  have policy : (policyFromEntitlements bundle (some ent)).network = .inherit ↔ ent.network = true := by
    cases value : ent.network <;> simp [policyFromEntitlements, value]
  refine ⟨ent, parsed, ?_, fun other ent' parsed' here there same => ?_⟩
  · rw [policy, network, Undisturbed]
    exact ⟨fun both => both.1, fun exact' => ⟨exact', exact'.mp⟩⟩
  · obtain ⟨ent'', parsed'', network''⟩ := other.parse
    obtain rfl := Except.ok.inj (parsed'.symm.trans parsed'')
    unfold Undisturbed at here there
    rw [Bool.eq_iff_iff, network, network'', here, there, same]

def clientKey : Raw := ⟨"com.apple.security.network.client".toList, by decide⟩

/-- A profile without entitlements that has a network key at the top. -/
def strayProfile : Profile where
  front := [0x30, 0x82, 0xFF, 0x00]
  attributes := .declaration
  doctype := none
  version := .version
  root := .dict [(clientKey, .bool true)]
  lines := [.flush (.xml .declaration), .flush (.plist .version), .flush .openDict, .tabbed (.key clientKey),
    .tabbed (.bool true), .flush .closeDict]
  closing := .flush .closePlist
  back := [0x00, 0xDE]
  tokens := rfl
  closes := rfl
  start := rfl
  unmarked := by decide

/-- It is granted the network. -/
theorem stray_key_grants :
    ¬ ∀ profile : Profile, ∃ ent, parseMobileprovision profile.bytes = .ok ent ∧
      (ent.network = true ↔ Granted profile.root.entitlements) := by
  intro all
  obtain ⟨ent, parsed, claimed⟩ := all strayProfile
  obtain ⟨ent', parsed', found⟩ := strayProfile.parse
  obtain rfl := Except.ok.inj (parsed.symm.trans parsed')
  have granted : Found strayProfile.root.scope :=
    .inl ⟨clientKey.text, List.mem_cons_self, by decide⟩
  have none : strayProfile.root.entitlements = [] := by decide
  have wrong := claimed.mp (found.mpr granted)
  rw [none] at wrong
  simp [Granted] at wrong

end Bsdos.Plist
