import Bsdos.Octets.Strict
import Bsdos.Search.Cut

namespace Octets

/-- A C string, without the byte that ends it. -/
structure CString where
  bytes : List UInt8
  plain : 0 ∉ bytes
  deriving DecidableEq

/-- An entry of the environment, at the first `=` after its first byte. -/
def parseVar : List UInt8 → Option (List UInt8 × List UInt8)
  | [] => none
  | b :: bs => (Search.cut 61 bs).map fun parts => (b :: parts.1, parts.2)

/-- `env::vars`: entries that have no `=` are passed over, and it panics at one that is no text. -/
def vars (environ : List CString) : Option (List (String × String)) :=
  (environ.filterMap fun entry => parseVar entry.bytes).mapM fun entry => do
    let key ← fromUtf8 entry.1
    let value ← fromUtf8 entry.2
    return (key, value)

/-- `getenv`: the value of the first entry for the name. -/
def getenv (environ : List CString) (name : String) : Option (List UInt8) :=
  environ.findSome? fun entry =>
    let front := utf8 name.toList ++ [61]
    if front <+: entry.bytes then some (entry.bytes.drop front.length) else none

/-- A name that an entry of the environment can have. -/
def ProperKey (key : String) : Prop := utf8 key.toList ≠ [] ∧ 61 ∉ (utf8 key.toList).tail

instance {key : String} : Decidable (ProperKey key) := inferInstanceAs (Decidable (_ ∧ _))

section Environment
variable {environ envp : List CString} {inherited overriding : List (String × String)} {name : String} {key value : List UInt8}

theorem utf8_inj {s s' : String} (same : utf8 s.toList = utf8 s'.toList) : s = s' := by
  have read := fromUtf8_utf8 s
  rw [same, fromUtf8_utf8] at read
  exact (Option.some.inj read).symm

theorem parseVar_iff {entry : List UInt8} :
    parseVar entry = some (key, value) ↔ entry = key ++ 61 :: value ∧ key ≠ [] ∧ 61 ∉ key.tail := by
  constructor
  · intro parsed
    cases entry with
    | nil => cases parsed
    | cons b bs =>
      obtain ⟨parts, found, same⟩ := Option.map_eq_some_iff.mp parsed
      cases same
      obtain ⟨whole, free⟩ := Search.cut_iff.mp found
      exact ⟨congrArg (b :: ·) whole, List.cons_ne_nil _ _, free⟩
  · rintro ⟨rfl, filled, plain⟩
    obtain ⟨b, bs, rfl⟩ := List.exists_cons_of_ne_nil filled
    have found : Search.cut 61 (bs ++ 61 :: value) = some (bs, value) := Search.cut_iff.mpr ⟨rfl, plain⟩
    rw [List.cons_append, parseVar, found, Option.map_some]

theorem parseVar_front {entry : List UInt8} (filled : key ≠ []) (plain : 61 ∉ key) :
    key ++ [61] <+: entry ↔ ∃ value, parseVar entry = some (key, value) := by
  have tail : 61 ∉ key.tail := fun inside => plain (List.mem_of_mem_tail inside)
  constructor
  · rintro ⟨value, rfl⟩
    exact ⟨value, parseVar_iff.mpr ⟨List.append_assoc _ _ _, filled, tail⟩⟩
  · rintro ⟨value, parsed⟩
    rw [(parseVar_iff.mp parsed).1]
    exact ⟨value, List.append_assoc _ _ _⟩

/-- A variable is looked up in the entries as they are taken apart. -/
theorem getenv_parsed (filled : name ≠ "") (plain : '=' ∉ name.toList) :
    getenv environ name = (environ.filterMap fun entry => parseVar entry.bytes).lookup (utf8 name.toList) := by
  have filled' : utf8 name.toList ≠ [] := utf8_filled fun empty => filled (by rw [← String.ofList_toList (s := name), empty])
  have plain' : 61 ∉ utf8 name.toList := fun inside => plain (utf8_ascii (by decide) inside)
  induction environ with
  | nil => rfl
  | cons entry environ ih =>
    rw [getenv, List.findSome?_cons, List.filterMap_cons]
    by_cases front : utf8 name.toList ++ [61] <+: entry.bytes
    · obtain ⟨value, parsed⟩ := (parseVar_front filled' plain').mp front
      have split : utf8 name.toList ++ 61 :: value = (utf8 name.toList ++ [61]) ++ value := List.append_cons ..
      rw [if_pos front, parsed, List.lookup_cons_self, (parseVar_iff.mp parsed).1, split, List.drop_left]
    · rw [if_neg front]
      refine ih.trans ?_
      cases parsed : parseVar entry.bytes with
      | none => rfl
      | some pair =>
        have other : utf8 name.toList ≠ pair.1 := fun same => front ((parseVar_front filled' plain').mpr ⟨pair.2, same ▸ parsed⟩)
        rw [List.lookup_cons, beq_false_of_ne other]

theorem lookup_pairs (pairs : List (String × String)) :
    (pairs.map fun entry => (utf8 entry.1.toList, utf8 entry.2.toList)).lookup (utf8 name.toList) =
      (pairs.lookup name).map fun value => utf8 value.toList := by
  induction pairs with
  | nil => rfl
  | cons entry pairs ih =>
    obtain ⟨key, value⟩ := entry
    rw [List.map_cons, List.lookup_cons, List.lookup_cons, ih]
    by_cases same : name = key
    · subst same
      rw [beq_self_eq_true, beq_self_eq_true]
      rfl
    · rw [beq_false_of_ne same, beq_false_of_ne fun same' => same (utf8_inj same')]

theorem vars_parsed (read : vars environ = some inherited) : (environ.filterMap fun entry => parseVar entry.bytes) =
    inherited.map fun entry => (utf8 entry.1.toList, utf8 entry.2.toList) := by
  unfold vars at read
  generalize (environ.filterMap fun entry => parseVar entry.bytes) = entries at read
  induction entries generalizing inherited with
  | nil =>
    cases read
    rfl
  | cons entry entries ih =>
    rw [List.mapM_cons] at read
    obtain ⟨pair, first, read⟩ := Option.bind_eq_some_iff.mp read
    obtain ⟨rest, later, ends⟩ := Option.bind_eq_some_iff.mp read
    cases ends
    obtain ⟨key, isKey, first⟩ := Option.bind_eq_some_iff.mp first
    obtain ⟨value, isValue, ends⟩ := Option.bind_eq_some_iff.mp first
    cases ends
    rw [List.map_cons, ← ih later, ← fromUtf8_iff.mp isKey, ← fromUtf8_iff.mp isValue]

theorem entries_parsed {pairs : List (String × String)}
    (proper : ∀ entry ∈ pairs, ProperKey entry.1)
    (made : envp.map CString.bytes = pairs.map fun entry => utf8 (entry.1 ++ "=" ++ entry.2).toList) :
    (envp.filterMap fun entry => parseVar entry.bytes) = pairs.map fun entry => (utf8 entry.1.toList, utf8 entry.2.toList) := by
  have bytes : (envp.filterMap fun entry => parseVar entry.bytes) = (envp.map CString.bytes).filterMap parseVar := by
    rw [List.filterMap_map]
    rfl
  rw [bytes, made]
  clear made bytes
  induction pairs with
  | nil => rfl
  | cons entry pairs ih =>
    obtain ⟨filled, plain⟩ := proper entry List.mem_cons_self
    have text : utf8 (entry.1 ++ "=" ++ entry.2).toList = utf8 entry.1.toList ++ 61 :: utf8 entry.2.toList := by
      rw [String.toList_append, String.toList_append, utf8_append, utf8_append, List.append_assoc]
      rfl
    rw [List.map_cons, List.map_cons, List.filterMap_cons, text, parseVar_iff.mpr ⟨rfl, filled, plain⟩,
      ih fun entry member => proper entry (List.mem_cons_of_mem _ member)]

theorem lookup_none_iff {α β : Type} [DecidableEq α] {entries : List (α × β)} {a : α} :
    entries.lookup a = none ↔ a ∉ entries.map Prod.fst := by
  rw [List.lookup_eq_none_iff, List.mem_map]
  constructor
  · rintro none ⟨entry, member, rfl⟩
    exact absurd (none entry member) (by simp)
  · intro absent entry member
    exact bne_iff_ne.mpr fun same => absent ⟨entry, member, same.symm⟩

/-- What is kept is looked up where nothing overrides it. -/
theorem lookup_overridden {α β : Type} [DecidableEq α] (kept overriding : List (α × β)) (a : α) :
    ((kept.filter fun entry => entry.1 ∉ overriding.map Prod.fst) ++ overriding).lookup a =
      (overriding.lookup a).or (kept.lookup a) := by
  induction kept with
  | nil => rw [List.filter_nil, List.nil_append, List.lookup_nil, Option.or_none]
  | cons entry kept ih =>
    by_cases overridden : entry.1 ∈ overriding.map Prod.fst
    · rw [List.filter_cons_of_neg (by simpa using overridden), ih]
      cases found : overriding.lookup a with
      | some value => rfl
      | none =>
        have other : a ≠ entry.1 := fun same => lookup_none_iff.mp found (same ▸ overridden)
        rw [List.lookup_cons, beq_false_of_ne other]
    · rw [List.filter_cons_of_pos (by simpa using overridden), List.cons_append, List.lookup_cons, List.lookup_cons, ih]
      by_cases same : a = entry.1
      · rw [lookup_none_iff.mpr (same ▸ overridden), same, beq_self_eq_true]
        rfl
      · rw [beq_false_of_ne same]

/-- An environment with some variables in place of the inherited ones, as its reader sees it. -/
theorem getenv_overridden (read : vars environ = some inherited) (proper : ∀ entry ∈ overriding, ProperKey entry.1)
    (made : envp.map CString.bytes = ((inherited.filter fun entry => entry.1 ∉ overriding.map Prod.fst) ++ overriding).map
      fun entry => utf8 (entry.1 ++ "=" ++ entry.2).toList) (filled : name ≠ "") (plain : '=' ∉ name.toList) :
    getenv envp name = ((overriding.lookup name).map fun value => utf8 value.toList).or (getenv environ name) := by
  have parsed := vars_parsed read
  have proper' : ∀ entry ∈ inherited, ProperKey entry.1 := fun entry member => by
    have among := List.mem_map_of_mem (f := fun entry : String × String => (utf8 entry.1.toList, utf8 entry.2.toList)) member
    rw [← parsed] at among
    obtain ⟨original, -, found⟩ := List.mem_filterMap.mp among
    exact (parseVar_iff.mp found).2
  have all := entries_parsed (fun entry member => (List.mem_append.mp member).elim
    (fun kept => proper' entry (List.mem_of_mem_filter kept)) (proper entry)) made
  rw [getenv_parsed filled plain, all, lookup_pairs, lookup_overridden, getenv_parsed filled plain, parsed, lookup_pairs,
    Option.map_or]

end Environment

end Octets
