import Bsdos.Conf.Grammar
import Bsdos.Jpk.Roots

namespace Bsdos.Jpk
open Effects Conf

/-- The parameters of an `ip4 = inherit` jail and of one without a network. -/
def networkParams (network : Bool) : List Param :=
  if network then [⟨"ip4".toList, some "inherit".toList⟩]
  else [⟨"ip4".toList, some "disable".toList⟩, ⟨"ip6".toList, some "disable".toList⟩]

/-- What the configuration of a package is meant to say. -/
def intended (manifest : Manifest) (jailRoot : String) : Item :=
  .block manifest.id.toList <|
    [⟨"path".toList, some jailRoot.toList⟩, ⟨"host.hostname".toList, some manifest.id.toList⟩,
      ⟨"persist".toList, none⟩, ⟨"mount.devfs".toList, none⟩,
      ⟨"devfs_ruleset".toList, some (toString manifest.devfsRuleset.toNat).toList⟩,
      ⟨"exec.start".toList, some manifest.entry.toList⟩,
      ⟨"exec.stop".toList, some "/bin/sh /etc/rc.shutdown".toList⟩] ++ networkParams manifest.network

/-- The configuration in parts: before the version, between it and the entry, after the entry. -/
def confHead (id : String) : List Char := "# Сгенерировано bsdos-pkgd для ".toList ++ id.toList ++ " v".toList

def hostLine : List Char := "\";\n".toList ++ "    host.hostname = \"".toList

def rulesetLine : List Char :=
  "\";\n".toList ++ ("    persist;\n".toList ++ ("    mount.devfs;\n".toList ++ "    devfs_ruleset = ".toList))

def startLine : List Char := ";\n".toList ++ "    exec.start = \"".toList

def confFront (id root digits : List Char) : List Char :=
  id ++ ((" \x7b\n".toList ++ "    path = \"".toList) ++ (root ++ (hostLine ++ (id ++ (rulesetLine ++ (digits ++ startLine))))))

def confBack (network : Bool) : List Char :=
  "\";\n".toList ++ ("    exec.stop = \"/bin/sh /etc/rc.shutdown\";\n".toList ++
    ((if network then "    ip4 = inherit;\n" else "    ip4 = disable;\n    ip6 = disable;\n").toList ++ "\x7d\n".toList))

theorem generateJailConf_parts (manifest : Manifest) (root : String) :
    (generateJailConf manifest root).toList = confHead manifest.id ++ ((manifest.version.toList ++ ['\n']) ++
      (confFront manifest.id.toList root.toList (toString manifest.devfsRuleset.toNat).toList ++
        (manifest.entry.toList ++ confBack manifest.network))) := by
  unfold generateJailConf confHead confFront confBack hostLine rulesetLine startLine
  simp only [String.toList_append, List.append_assoc]
  rfl

section parts
variable {id root digits : List Char} {network : Bool}

/-- The tokens before the value of `exec.start`, and those after it. -/
def frontTokens (id root digits : List Char) : List Token :=
  [.text id, .openBrace, .text "path".toList, .assign, .text root, .semicolon, .text "host.hostname".toList, .assign,
    .text id, .semicolon, .text "persist".toList, .semicolon, .text "mount.devfs".toList, .semicolon,
    .text "devfs_ruleset".toList, .assign, .text digits, .semicolon, .text "exec.start".toList, .assign]

def backTokens (network : Bool) : List Token :=
  [.text "exec.stop".toList, .assign, .text "/bin/sh /etc/rc.shutdown".toList, .semicolon] ++
    ((networkParams network).flatMap Param.tokens ++ [.closeBrace])

theorem intended_tokens (manifest : Manifest) (root : String) : [intended manifest root].flatMap Item.tokens =
    frontTokens manifest.id.toList root.toList (toString manifest.devfsRuleset.toNat).toList ++
      .text manifest.entry.toList :: .semicolon :: backTokens manifest.network := by
  simp only [intended, backTokens, frontTokens, List.flatMap_cons, List.flatMap_nil, Item.tokens, Param.tokens,
    List.append_nil, List.cons_append, List.nil_append]

/-- After the closing quote of the entry. -/
theorem run_back (network : Bool) : run .between (confBack network).tail = (.semicolon :: backTokens network, .between) := by
  cases network <;> decide

theorem lex_back (cs : List Char) :
    lex (.quoted cs) (confBack network) = some (.text cs.reverse :: .semicolon :: backTokens network) := by
  have closes : (confBack network).head? = some '"' := by cases network <;> decide
  simp only [lex, run_quote closes (run_back network), finish, Option.map_some, List.append_nil]

/-- After a backslash the closing quote is part of the string, and the last one is missing. -/
theorem lex_back_escaped (cs : List Char) : lex (.escaped cs) (confBack network) = none := by
  have cut : ∃ stop, confBack network = '"' :: (";\n    exec.stop = ".toList ++ stop) ∧ stop.head? = some '"' ∧
      ∃ tokens open_, run .between stop.tail = (tokens, .quoted open_) := by
    refine ⟨"\"/bin/sh /etc/rc.shutdown\";\n".toList ++ ((if network then "    ip4 = inherit;\n" else
        "    ip4 = disable;\n    ip6 = disable;\n").toList ++ "\x7d\n".toList), ?_, by cases network <;> decide,
      _, (";\n".toList ++ ((if network then "    ip4 = inherit;\n" else
        "    ip4 = disable;\n    ip6 = disable;\n").toList ++ "\x7d\n".toList)).reverse, Prod.ext rfl ?_⟩
    · cases network <;> decide
    · cases network <;> decide
  obtain ⟨stop, whole, closes, tokens, open_, after⟩ := cut
  have inside : run (.quoted ('"' :: cs)) ";\n    exec.stop = ".toList =
      ([], .quoted (";\n    exec.stop = ".toList.reverse ++ '"' :: cs)) :=
    run_quoted (by decide) (by decide)
  have ran := run_then inside (run_quote closes after)
  have unclosed : (run (.escaped cs) (confBack network)).2 = .quoted open_ := by
    rw [whole]
    exact congrArg Prod.snd ran
  simp only [lex, unclosed, finish, Option.map_none]

theorem run_front (name : ∀ c ∈ id, isPlain c = true) (nonempty : id ≠ []) (unescaped : '\\' ∉ id)
    (quote : '"' ∉ root) (backslash : '\\' ∉ root)
    (number : ∀ c ∈ digits, isPlain c = true) (some_digit : digits ≠ []) :
    run .between (confFront id root digits) = (frontTokens id root digits, .quoted []) := by
  have word {cs : List Char} (plain : ∀ c ∈ cs, isPlain c = true) (filled : cs ≠ []) :
      run .between cs = ([], .word cs.reverse) := by
    cases cs with
    | nil => exact absurd rfl filled
    | cons c cs => exact run_between_word plain
  have id_quote : '"' ∉ id := fun member => absurd (name _ member) (by decide)
  have at_path (cs : List Char) : run (.word cs) (" \x7b\n".toList ++ "    path = \"".toList) =
      ([.text cs.reverse, .openBrace, .text "path".toList, .assign], .quoted []) :=
    run_word_end (by decide) (by decide)
  have at_host (cs : List Char) : run (.quoted cs) hostLine =
      ([.text cs.reverse, .semicolon, .text "host.hostname".toList, .assign], .quoted []) :=
    run_quote (by decide) (by decide)
  have at_ruleset (cs : List Char) : run (.quoted cs) rulesetLine =
      ([.text cs.reverse, .semicolon, .text "persist".toList, .semicolon, .text "mount.devfs".toList, .semicolon,
        .text "devfs_ruleset".toList, .assign], .between) :=
    run_quote (by decide) (by decide)
  have at_start (cs : List Char) : run (.word cs) startLine =
      ([.text cs.reverse, .semicolon, .text "exec.start".toList, .assign], .quoted []) :=
    run_word_end (by decide) (by decide)
  have whole := run_then (word name nonempty) (run_then (at_path _) (run_then (run_quoted quote backslash)
    (run_then (at_host _) (run_then (run_quoted id_quote unescaped) (run_then (at_ruleset _)
      (run_then (word number some_digit) (at_start _)))))))
  rw [confFront, whole]
  simp only [List.reverse_reverse, List.append_nil, List.nil_append, List.cons_append, frontTokens]

/-- Read from within a string, the front closes it and goes on with another word. -/
theorem run_front_quoted (name : ∀ c ∈ id, isPlain c = true) (unescaped : '\\' ∉ id)
    (word : run .between root = ([], .word root.reverse)) (cs : List Char) :
    ∃ value rest mode, run (.quoted cs) (confFront id root digits) = (.text value :: .text root :: rest, mode) := by
  have id_quote : '"' ∉ id := fun member => absurd (name _ member) (by decide)
  have inside : run (.quoted (id.reverse ++ cs)) " \x7b\n    path = ".toList =
      ([], .quoted (" \x7b\n    path = ".toList.reverse ++ (id.reverse ++ cs))) :=
    run_quoted (by decide) (by decide)
  have closes (cs : List Char) : run (.quoted cs) ['"'] = ([.text cs.reverse], .between) := rfl
  have at_host (cs : List Char) : ∃ rest mode, run (.word cs) hostLine = (.text cs.reverse :: rest, mode) :=
    ⟨_, _, run_word_end (by decide) rfl⟩
  obtain ⟨rest, mode, host⟩ := at_host root.reverse
  have path : " \x7b\n".toList ++ "    path = \"".toList = " \x7b\n    path = ".toList ++ ['"'] := by decide
  have front := run_then (run_quoted id_quote unescaped) (run_then (run_then inside (closes _)) (run_then word host))
  have cut : confFront id root digits = (id ++ ((" \x7b\n    path = ".toList ++ ['"']) ++ (root ++ hostLine))) ++
      (id ++ (rulesetLine ++ (digits ++ startLine))) := by
    rw [confFront, path]
    simp only [List.append_assoc]
  rw [cut, run_then front rfl, List.reverse_reverse]
  exact ⟨_, _, _, rfl⟩

end parts

/-- Two texts in a row. -/
def twins : List Token → Bool
  | .text _ :: .text _ :: _ => true
  | _ :: rest => twins rest
  | [] => false

theorem twins_append {tokens rest : List Token} {value value' : List Char} :
    twins (tokens ++ .text value :: .text value' :: rest) = true := by
  induction tokens with
  | nil => rfl
  | cons token tokens ih =>
    cases token with
    | text cs =>
      cases tokens with
      | nil => rfl
      | cons next tokens =>
        cases next with
        | text cs' => rfl
        | _ => exact ih
    | _ => exact ih

/-- An entry is read as one string, as it is, exactly if it has neither a quote nor a backslash. -/
theorem lex_entry_iff {entry : List Char} {network : Bool} :
    lex (.quoted []) (entry ++ confBack network) = some (.text entry :: .semicolon :: backTokens network) ↔
      '"' ∉ entry ∧ '\\' ∉ entry := by
  constructor
  · intro whole
    by_contra unclean
    have special : '"' ∈ entry ∨ '\\' ∈ entry := by
      by_contra neither
      exact unclean (not_or.mp neither)
    rw [lex_append] at whole
    rcases run_quoted_short special [] with ⟨value, rest, closed, shorter⟩ | ⟨none, ⟨read, still, shorter⟩ | ⟨read, still⟩⟩
    · obtain ⟨later, _, same⟩ := Option.map_eq_some_iff.mp whole
      rw [closed, List.cons_append] at same
      have value_entry : value = entry := Token.text.inj (List.cons.inj same).1
      rw [value_entry, List.length_nil, Nat.zero_add] at shorter
      exact absurd shorter (Nat.lt_irrefl _)
    · rw [none, still, lex_back] at whole
      cases whole
      simp at shorter
    · rw [none, still, lex_back_escaped] at whole
      cases whole
  · rintro ⟨quote, backslash⟩
    rw [lex_after (run_quoted quote backslash), lex_back, Option.map_some, List.nil_append, List.append_nil,
      List.reverse_reverse]

theorem validAppIdChar_plain {c : Char} (valid : Pkgd.validAppIdChar c = true) : isPlain c = true ∧ c ≠ '\\' ∧ c ≠ '\n' := by
  have other {c' : Char} (refused : Pkgd.validAppIdChar c' = false) : c ≠ c' := by
    rintro rfl
    rw [valid] at refused
    cases refused
  refine ⟨?_, other (by decide), other (by decide)⟩
  simp only [isPlain, isBlank, Bool.and_eq_true, Bool.not_eq_true', decide_eq_true_eq, decide_eq_false_iff_not, not_or]
  exact ⟨⟨⟨⟨⟨⟨⟨⟨other (by decide), other (by decide), other (by decide), other (by decide)⟩, other (by decide)⟩,
    other (by decide)⟩, other (by decide)⟩, other (by decide)⟩, other (by decide)⟩, other (by decide)⟩, other (by decide)⟩

theorem accepted_chars {id : String} (accepted : Manifest.validateId id = .ok ()) :
    ∀ c ∈ id.toList, Pkgd.validAppIdChar c = true := (Manifest.validateId_ok_iff.mp accepted).2.2

theorem toString_digits (n : Nat) : (∀ c ∈ (toString n).toList, isPlain c = true) ∧ (toString n).toList ≠ [] := by
  have digits : (toString n).toList = Nat.toDigits 10 n := Nat.toList_repr
  rw [digits]
  refine ⟨fun c member => ?_, Nat.toDigits_ne_nil⟩
  have digit := Nat.isDigit_of_mem_toDigits (by decide) (by decide) member
  have valid : Pkgd.validAppIdChar c = true := by
    simp only [Char.isDigit, Bool.and_eq_true, decide_eq_true_eq] at digit
    exact decide_eq_true (Or.inr (Or.inl digit))
  exact (validAppIdChar_plain valid).1

/-- The root of an accepted package is a word, and can stand in quotes. -/
theorem jailRoot_word {id : String} (accepted : Manifest.validateId id = .ok ()) :
    run .between (jailRoot id).toList = ([], .word (jailRoot id).toList.reverse) ∧
      '"' ∉ (jailRoot id).toList ∧ '\\' ∉ (jailRoot id).toList := by
  have chars := accepted_chars accepted
  have filled : id.toList ≠ [] := fun none => (validateId_name accepted).1 (String.toList_eq_nil_iff.mp none)
  have root : (jailRoot id).toList = "/jails/apps/".toList ++ id.toList := by
    have joins : jailRoot id = jailsDir ++ "/" ++ id := by
      unfold jailRoot joined Pkgd.join
      rw [if_neg (by decide)]
    rw [joins, String.toList_append]
    rfl
  have base : run .between "/jails/apps/".toList = ([], .slash "/jails/apps".toList.reverse) := by decide
  rw [root]
  refine ⟨?_, ?_, ?_⟩
  · rw [run_then base (run_slash_word (fun c member => (validAppIdChar_plain (chars c member)).1) filled),
      List.reverse_append]
    rfl
  · intro member
    rcases List.mem_append.mp member with member | member
    · exact absurd member (by decide)
    · exact absurd (chars _ member) (by decide)
  · intro member
    rcases List.mem_append.mp member with member | member
    · exact absurd member (by decide)
    · exact absurd (chars _ member) (by decide)

theorem front_single {id root digits entry : List Char} {network : Bool} :
    twins (frontTokens id root digits ++ .text entry :: .semicolon :: backTokens network) = false := by
  cases network <;> rfl

/-- Tokens that begin like a block come first of all, where there is one block only. -/
theorem front_leads {id root digits entry : List Char} {network : Bool} {tokens rest : List Token}
    (same : tokens ++ (frontTokens id root digits ++ rest) =
      frontTokens id root digits ++ .text entry :: .semicolon :: backTokens network) : tokens = [] := by
  have once : Token.openBrace ∉ (frontTokens id root digits).drop 2 ++ .text entry :: .semicolon :: backTokens network := by
    cases network <;> simp [frontTokens, backTokens, networkParams, Param.tokens]
  cases tokens with
  | nil => rfl
  | cons first tokens =>
    have later := (List.cons.inj same).2
    cases tokens with
    | nil => cases (List.cons.inj later).1
    | cons second tokens =>
      refine absurd ?_ once
      have after : tokens ++ (frontTokens id root digits ++ rest) =
          (frontTokens id root digits).drop 2 ++ .text entry :: .semicolon :: backTokens network := (List.cons.inj later).2
      rw [← after]
      exact List.mem_append_right _ (List.mem_append_left _ (List.mem_cons_of_mem _ (List.mem_cons_self ..)))

theorem run_head {manifest : Manifest} (accepted : Manifest.validateId manifest.id = .ok ()) :
    run .between (confHead manifest.id) = ([], .comment) := by
  have line : '\n' ∉ "# Сгенерировано bsdos-pkgd для ".toList := by decide
  have opens : run .between "# Сгенерировано bsdos-pkgd для ".toList = ([], .comment) := by decide
  have id_line : '\n' ∉ manifest.id.toList :=
    fun member => (validAppIdChar_plain (accepted_chars accepted _ member)).2.2 rfl
  exact run_then (run_then opens (run_comment id_line)) (run_comment (by decide))

theorem run_body {manifest : Manifest} (accepted : Manifest.validateId manifest.id = .ok ()) :
    run .between (confFront manifest.id.toList (jailRoot manifest.id).toList (toString manifest.devfsRuleset.toNat).toList) =
      (frontTokens manifest.id.toList (jailRoot manifest.id).toList (toString manifest.devfsRuleset.toNat).toList,
        .quoted []) := by
  have chars := accepted_chars accepted
  have plain : ∀ c ∈ manifest.id.toList, isPlain c = true := fun c member => (validAppIdChar_plain (chars c member)).1
  have filled : manifest.id.toList ≠ [] := fun none => (validateId_name accepted).1 (String.toList_eq_nil_iff.mp none)
  have unescaped : '\\' ∉ manifest.id.toList := fun member => absurd (chars _ member) (by decide)
  obtain ⟨_, quote, backslash⟩ := jailRoot_word accepted
  obtain ⟨number, some_digit⟩ := toString_digits manifest.devfsRuleset.toNat
  exact run_front plain filled unescaped quote backslash number some_digit

/-- Where the version holds no token, the configuration depends on how the entry is read. -/
theorem lex_conf {manifest : Manifest} (accepted : Manifest.validateId manifest.id = .ok ())
    (quiet : run .comment (manifest.version.toList ++ ['\n']) = ([], .between)) :
    lex .between (generateJailConf manifest (jailRoot manifest.id)).toList =
      (lex (.quoted []) (manifest.entry.toList ++ confBack manifest.network)).map
        (frontTokens manifest.id.toList (jailRoot manifest.id).toList (toString manifest.devfsRuleset.toNat).toList ++ ·) := by
  rw [generateJailConf_parts, lex_after (run_head accepted), lex_after quiet, lex_after (run_body accepted),
    Option.map_map, Option.map_map]
  rfl

/-- The configuration of an accepted package says what it is meant to say exactly if the
version holds no token of its own and the entry has neither a quote nor a backslash. -/
theorem jail_conf_intended_iff {manifest : Manifest} (accepted : Manifest.validateId manifest.id = .ok ()) :
    read (generateJailConf manifest (jailRoot manifest.id)).toList = some [intended manifest (jailRoot manifest.id)] ↔
      lex .comment manifest.version.toList = some [] ∧ '"' ∉ manifest.entry.toList ∧ '\\' ∉ manifest.entry.toList := by
  have chars := accepted_chars accepted
  have plain : ∀ c ∈ manifest.id.toList, isPlain c = true := fun c member => (validAppIdChar_plain (chars c member)).1
  have unescaped : '\\' ∉ manifest.id.toList := fun member => absurd (chars _ member) (by decide)
  have word := (jailRoot_word accepted).1
  rw [read_iff, intended_tokens, generateJailConf_parts, lex_after (run_head accepted), lex_append, lex_comment_iff,
    ← @lex_entry_iff _ manifest.network]
  have ends := run_line_end .comment manifest.version.toList
  generalize run .comment (manifest.version.toList ++ ['\n']) = out at ends ⊢
  obtain ⟨tokens, mode⟩ := out
  rcases ends with rfl | ⟨cs, rfl⟩
  · rw [lex_after (run_body accepted), Option.map_map, Option.map_map]
    constructor
    · intro whole
      obtain ⟨rest, lexed, same⟩ := Option.map_eq_some_iff.mp whole
      have none := front_leads same
      subst none
      refine ⟨rfl, ?_⟩
      exact lexed.trans (congrArg some (List.append_cancel_left same))
    · rintro ⟨quiet, entry⟩
      obtain ⟨rfl, _⟩ := Prod.ext_iff.mp quiet
      rw [entry]
      rfl
  · constructor
    · intro whole
      obtain ⟨value, rest, mode, first⟩ := run_front_quoted plain unescaped word cs
      rw [lex_after first, Option.map_map, Option.map_map] at whole
      obtain ⟨later, _, same⟩ := Option.map_eq_some_iff.mp whole
      have twice := congrArg twins same
      rw [front_single] at twice
      exact absurd (twins_append.symm.trans twice) (by decide)
    · rintro ⟨quiet, _⟩
      cases quiet

theorem jail_conf_intended_foot :
    read (generateJailConf ⟨"org.bsdos.foot", "foot", "1.0", "/usr/local/bin/foot", false, [], 4⟩
        (jailRoot "org.bsdos.foot")).toList =
      some [intended ⟨"org.bsdos.foot", "foot", "1.0", "/usr/local/bin/foot", false, [], 4⟩ (jailRoot "org.bsdos.foot")] :=
  (@jail_conf_intended_iff ⟨"org.bsdos.foot", "foot", "1.0", "/usr/local/bin/foot", false, [], 4⟩
    (by decide)).mpr ⟨by decide, by decide, by decide⟩

/-- A package without a network whose entry closes its own quotes. -/
def quotingManifest : Manifest :=
  ⟨"org.bsdos.foot", "foot", "1.0", "/bin/sh\"; ip4 = \"inherit", false, [], 4⟩

/-- Its configuration is that of one jail, with a parameter that inherits the network. -/
theorem entry_inherits_network : Manifest.validateId quotingManifest.id = .ok () ∧ quotingManifest.network = false ∧
    (∃ params, read (generateJailConf quotingManifest (jailRoot quotingManifest.id)).toList =
      some [.block quotingManifest.id.toList params] ∧ ⟨"ip4".toList, some "inherit".toList⟩ ∈ params) ∧
    read (generateJailConf quotingManifest (jailRoot quotingManifest.id)).toList ≠
      some [intended quotingManifest (jailRoot quotingManifest.id)] := by
  have accepted : Manifest.validateId quotingManifest.id = .ok () := by decide
  have entry : lex (.quoted []) (quotingManifest.entry.toList ++ confBack quotingManifest.network) =
      some ([.text "/bin/sh".toList, .semicolon, .text "ip4".toList, .assign, .text "inherit".toList, .semicolon] ++
        backTokens false) := by
    decide +kernel
  have said : read (generateJailConf quotingManifest (jailRoot quotingManifest.id)).toList =
      some [.block quotingManifest.id.toList
        ([⟨"path".toList, some (jailRoot quotingManifest.id).toList⟩, ⟨"host.hostname".toList, some quotingManifest.id.toList⟩,
          ⟨"persist".toList, none⟩, ⟨"mount.devfs".toList, none⟩,
          ⟨"devfs_ruleset".toList, some (toString quotingManifest.devfsRuleset.toNat).toList⟩,
          ⟨"exec.start".toList, some "/bin/sh".toList⟩, ⟨"ip4".toList, some "inherit".toList⟩,
          ⟨"exec.stop".toList, some "/bin/sh /etc/rc.shutdown".toList⟩] ++ networkParams false)] := by
    rw [read_iff, lex_conf accepted (by decide), entry]
    rfl
  refine ⟨accepted, rfl, ⟨_, said, by simp⟩, ?_⟩
  rw [said]
  intro same
  obtain ⟨-, params⟩ := Item.block.inj (List.singleton_inj.mp (Option.some.inj same))
  exact absurd (congrArg List.length params) (by decide)

end Bsdos.Jpk
