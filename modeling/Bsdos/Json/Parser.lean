import Bsdos.Json.Lexer

namespace Json

/-- A value of RFC 8259. Numbers are kept as they are written, and members in their order. -/
inductive Value
  | null
  | boolean (b : Bool)
  | number (cs : List Char)
  | string (cs : List Char)
  | array (elements : List Value)
  | object (members : List (List Char × Value))

/-- The arrays and objects around a value, innermost first, with what has been read of them. -/
inductive Frame
  | array (elements : List Value)
  | object (members : List (List Char × Value)) (name : List Char)

/-- What has to come next: a value, the name of a member, the colon after a name, or, after a
value, what goes on with or ends the frame it is in. Where a frame has just been opened it may
be closed at once. -/
inductive State
  | value (opened : Bool) (frames : List Frame)
  | name (opened : Bool) (members : List (List Char × Value)) (frames : List Frame)
  | colon (members : List (List Char × Value)) (name : List Char) (frames : List Frame)
  | done (value : Value) (frames : List Frame)

def ofWord (cs : List Char) : Value :=
  if cs = "true".toList then .boolean true
  else if cs = "false".toList then .boolean false
  else if cs = "null".toList then .null
  else .number cs

def advance : State → Token → Option State
  | .value _ frames, .word cs => some (.done (ofWord cs) frames)
  | .value _ frames, .text cs => some (.done (.string cs) frames)
  | .value _ frames, .beginArray => some (.value true (.array [] :: frames))
  | .value _ frames, .beginObject => some (.name true [] frames)
  | .value true (.array _ :: frames), .endArray => some (.done (.array []) frames)
  | .name _ members frames, .text cs => some (.colon members cs frames)
  | .name true _ frames, .endObject => some (.done (.object []) frames)
  | .colon members name frames, .colon => some (.value false (.object members name :: frames))
  | .done value (.array elements :: frames), .comma => some (.value false (.array (elements ++ [value]) :: frames))
  | .done value (.array elements :: frames), .endArray => some (.done (.array (elements ++ [value])) frames)
  | .done value (.object members name :: frames), .comma => some (.name false (members ++ [(name, value)]) frames)
  | .done value (.object members name :: frames), .endObject => some (.done (.object (members ++ [(name, value)])) frames)
  | _, _ => none

def ended : State → Option Value
  | .done value [] => some value
  | _ => none

/-- Where these tokens lead. -/
def follow (state : State) (tokens : List Token) : Option State := tokens.foldlM advance state

/-- The value of a JSON text, if it is one. -/
def parse (text : List Char) : Option Value := do
  let tokens ← lex text
  let state ← follow (.value false []) tokens
  ended state

theorem follow_cons (state : State) (token : Token) (tokens : List Token) :
    follow state (token :: tokens) = (advance state token).bind fun next => follow next tokens := List.foldlM_cons

theorem follow_append (state : State) (tokens tokens' : List Token) :
    follow state (tokens ++ tokens') = (follow state tokens).bind fun next => follow next tokens' :=
  List.foldlM_append

theorem follow_then {state next last : State} {tokens tokens' : List Token} (first : follow state tokens = some next)
    (second : follow next tokens' = some last) : follow state (tokens ++ tokens') = some last := by
  rw [follow_append, first]
  exact second

/-- An array of what these tokens stand for. -/
theorem follow_separated {A : Type} {tokens : A → List Token} {value : A → Value} {frames : List Frame}
    (each : ∀ a opened frames, follow (.value opened frames) (tokens a) = some (.done (value a) frames)) (a : A) (rest : List A)
    (opened : Bool) (before : List Value) :
    follow (.value opened (.array before :: frames)) (separated ((a :: rest).map tokens) ++ [.endArray]) =
      some (.done (.array (before ++ (a :: rest).map value)) frames) := by
  induction rest generalizing a opened before with
  | nil => exact follow_then (each a opened (.array before :: frames)) rfl
  | cons next rest ih =>
    have later := ih next false (before ++ [value a])
    rw [List.append_assoc] at later
    have after : follow (.done (value a) (.array before :: frames))
        (.comma :: (separated ((next :: rest).map tokens) ++ [.endArray])) = _ := (follow_cons ..).trans later
    show follow _ ((tokens a ++ .comma :: separated ((next :: rest).map tokens)) ++ [.endArray]) = _
    rw [List.append_assoc]
    exact follow_then (each a opened (.array before :: frames)) after

theorem follow_array {A : Type} {tokens : A → List Token} {value : A → Value} {frames : List Frame}
    (each : ∀ a opened frames, follow (.value opened frames) (tokens a) = some (.done (value a) frames)) (parts : List A) :
    follow (.value true (.array [] :: frames)) (separated (parts.map tokens) ++ [.endArray]) =
      some (.done (.array (parts.map value)) frames) := by
  cases parts with
  | nil => rfl
  | cons a rest => exact follow_separated each a rest true []

/-- Every string of the value is one that has been read, names of members aside. -/
inductive Value.Strings (P : List Char → Prop) : Value → Prop
  | null : Strings P .null
  | boolean (b : Bool) : Strings P (.boolean b)
  | number (cs : List Char) : Strings P (.number cs)
  | string (cs : List Char) : P cs → Strings P (.string cs)
  | array (elements : List Value) : (∀ v ∈ elements, Strings P v) → Strings P (.array elements)
  | object (members : List (List Char × Value)) : (∀ m ∈ members, Strings P m.2) → Strings P (.object members)

def Frame.Strings (P : List Char → Prop) : Frame → Prop
  | .array elements => ∀ v ∈ elements, v.Strings P
  | .object members _ => ∀ m ∈ members, m.2.Strings P

def State.Strings (P : List Char → Prop) : State → Prop
  | .value _ frames => ∀ f ∈ frames, f.Strings P
  | .name _ members frames | .colon members _ frames => (∀ m ∈ members, m.2.Strings P) ∧ ∀ f ∈ frames, f.Strings P
  | .done v frames => v.Strings P ∧ ∀ f ∈ frames, f.Strings P

section
variable {P : List Char → Prop} {state next : State}

theorem ofWord_strings (cs : List Char) : (ofWord cs).Strings P := by
  unfold ofWord
  split_ifs
  · exact .boolean true
  · exact .boolean false
  · exact .null
  · exact .number cs

theorem strings_concat {elements : List Value} {value : Value} (old : ∀ v ∈ elements, v.Strings P) (new : value.Strings P) :
    ∀ v ∈ elements ++ [value], v.Strings P := by
  intro v member
  rcases List.mem_append.mp member with early | last
  · exact old v early
  · exact List.mem_singleton.mp last ▸ new

theorem members_concat {members : List (List Char × Value)} {name : List Char} {value : Value}
    (old : ∀ m ∈ members, m.2.Strings P) (new : value.Strings P) : ∀ m ∈ members ++ [(name, value)], m.2.Strings P := by
  intro m member
  rcases List.mem_append.mp member with early | last
  · exact old m early
  · exact List.mem_singleton.mp last ▸ new

theorem advance_strings {token : Token} (given : ∀ cs, token = .text cs → P cs) (strings : state.Strings P)
    (moved : advance state token = some next) : next.Strings P := by
  cases state with
  | value opened frames =>
    cases token with
    | word cs =>
      obtain rfl := Option.some.inj moved
      exact ⟨ofWord_strings cs, strings⟩
    | text cs =>
      obtain rfl := Option.some.inj moved
      exact ⟨.string cs (given cs rfl), strings⟩
    | beginArray =>
      obtain rfl := Option.some.inj moved
      exact List.forall_mem_cons.mpr ⟨fun _ member => absurd member List.not_mem_nil, strings⟩
    | beginObject =>
      obtain rfl := Option.some.inj moved
      exact ⟨fun _ member => absurd member List.not_mem_nil, strings⟩
    | endArray =>
      rcases opened with _ | _
      · cases moved
      rcases frames with _ | ⟨_ | _, frames⟩
      · cases moved
      · obtain rfl := Option.some.inj moved
        exact ⟨.array [] fun _ member => absurd member List.not_mem_nil, (List.forall_mem_cons.mp strings).2⟩
      · cases moved
    | _ => cases opened <;> cases moved
  | name opened members frames =>
    obtain ⟨inside, around⟩ := strings
    cases token with
    | text cs =>
      obtain rfl := Option.some.inj moved
      exact ⟨inside, around⟩
    | endObject =>
      rcases opened with _ | _
      · cases moved
      · obtain rfl := Option.some.inj moved
        exact ⟨.object [] fun _ member => absurd member List.not_mem_nil, around⟩
    | _ => cases opened <;> cases moved
  | colon members name frames =>
    obtain ⟨inside, around⟩ := strings
    cases token with
    | colon =>
      obtain rfl := Option.some.inj moved
      exact List.forall_mem_cons.mpr ⟨inside, around⟩
    | _ => cases moved
  | done v frames =>
    obtain ⟨own, around⟩ := strings
    rcases frames with _ | ⟨⟨elements⟩ | ⟨members, name⟩, frames⟩
    · cases token <;> cases moved
    · obtain ⟨inside, outside⟩ := List.forall_mem_cons.mp around
      cases token with
      | comma =>
        obtain rfl := Option.some.inj moved
        exact List.forall_mem_cons.mpr ⟨strings_concat inside own, outside⟩
      | endArray =>
        obtain rfl := Option.some.inj moved
        exact ⟨.array _ (strings_concat inside own), outside⟩
      | _ => cases moved
    · obtain ⟨inside, outside⟩ := List.forall_mem_cons.mp around
      cases token with
      | comma =>
        obtain rfl := Option.some.inj moved
        exact ⟨members_concat inside own, outside⟩
      | endObject =>
        obtain rfl := Option.some.inj moved
        exact ⟨.object _ (members_concat inside own), outside⟩
      | _ => cases moved

theorem follow_strings {tokens : List Token} (given : ∀ cs, .text cs ∈ tokens → P cs) (strings : state.Strings P)
    (moved : follow state tokens = some next) : next.Strings P := by
  induction tokens generalizing state with
  | nil =>
    obtain rfl := Option.some.inj moved
    exact strings
  | cons token tokens ih =>
    rw [follow_cons] at moved
    obtain ⟨middle, first, later⟩ := Option.bind_eq_some_iff.mp moved
    have own : ∀ cs, token = .text cs → P cs := fun cs same => given cs (same ▸ List.mem_cons_self ..)
    exact ih (fun cs member => given cs (List.mem_cons_of_mem _ member)) (advance_strings own strings first) later

/-- Every string of a JSON text is one of its tokens. -/
theorem parse_strings {text : List Char} {tokens : List Token} {v : Value} (read : lex text = some tokens)
    (given : ∀ cs, .text cs ∈ tokens → P cs) (parsed : parse text = some v) : v.Strings P := by
  obtain ⟨tokens', read', parsed⟩ := Option.bind_eq_some_iff.mp parsed
  obtain rfl := Option.some.inj (read.symm.trans read')
  obtain ⟨last, followed, ends⟩ := Option.bind_eq_some_iff.mp parsed
  have initial : (State.value false []).Strings P := fun _ member => absurd member List.not_mem_nil
  have strings := follow_strings given initial followed
  cases last with
  | done w frames =>
    cases frames with
    | nil =>
      obtain rfl := Option.some.inj ends
      exact strings.1
    | cons _ _ => cases ends
  | _ => cases ends

end

/-! Members are looked up by their names, the first one of a name. -/

def Value.get (v : Value) (name : String) : Option Value :=
  match v with
  | .object members => (members.find? fun m => decide (m.1 = name.toList)).map Prod.snd
  | _ => none

def Value.text : Value → Option String
  | .string cs => some (String.ofList cs)
  | _ => none

/-- A number without sign, fraction and exponent. -/
def Value.natural : Value → Option Nat
  | .number cs => if cs.all Char.isDigit then some (Nat.ofDigitChars 10 cs 0) else none
  | _ => none

def Value.elements : Value → Option (List Value)
  | .array elements => some elements
  | _ => none

theorem Value.Strings.get {P : List Char → Prop} {v w : Value} {name : String} (strings : v.Strings P)
    (found : v.get name = some w) : w.Strings P := by
  cases strings with
  | object members inside =>
    obtain ⟨m, there, rfl⟩ := Option.map_eq_some_iff.mp found
    exact inside m (List.mem_of_find?_eq_some there)
  | _ => cases found

theorem Value.Strings.text {P : List Char → Prop} {v : Value} {s : String} (strings : v.Strings P)
    (read : v.text = some s) : P s.toList := by
  cases strings with
  | string cs own =>
    obtain rfl := Option.some.inj read
    rwa [String.toList_ofList]
  | _ => cases read

theorem Value.Strings.elements {P : List Char → Prop} {v : Value} {es : List Value} (strings : v.Strings P)
    (read : v.elements = some es) : ∀ e ∈ es, e.Strings P := by
  cases strings with
  | array elements inside =>
    obtain rfl := Option.some.inj read
    exact inside
  | _ => cases read

theorem ofWord_digits (n : Nat) : (ofWord (Nat.toDigits 10 n)).natural = some n := by
  have digits : (Nat.toDigits 10 n).all Char.isDigit = true :=
    List.all_eq_true.mpr fun c member => Nat.isDigit_of_mem_toDigits (by decide) (by decide) member
  have other {cs : List Char} (letters : cs.all Char.isDigit = false) : Nat.toDigits 10 n ≠ cs := by
    rintro rfl
    rw [digits] at letters
    cases letters
  unfold ofWord
  rw [if_neg (other (by decide)), if_neg (other (by decide)), if_neg (other (by decide))]
  exact (if_pos digits).trans (congrArg some Nat.ofDigitChars_ten_toDigits)

section elements
variable {A B : Type} {f : A → Option B}

theorem mapM_map {C : Type} {g : C → A} {h : C → B} (each : ∀ c, f (g c) = some (h c)) (cs : List C) :
    (cs.map g).mapM f = some (cs.map h) := by
  induction cs with
  | nil => rfl
  | cons c cs ih =>
    rw [List.map_cons, List.mapM_cons, each, ih]
    rfl

theorem mem_mapM {as : List A} {bs : List B} (read : as.mapM f = some bs) : ∀ b ∈ bs, ∃ a ∈ as, f a = some b := by
  induction as generalizing bs with
  | nil =>
    obtain rfl := Option.some.inj read
    exact fun b member => absurd member List.not_mem_nil
  | cons a as ih =>
    rw [List.mapM_cons] at read
    obtain ⟨b, first, read⟩ := Option.bind_eq_some_iff.mp read
    obtain ⟨rest, later, ends⟩ := Option.bind_eq_some_iff.mp read
    obtain rfl := Option.some.inj ends
    refine List.forall_mem_cons.mpr ⟨⟨a, List.mem_cons_self .., first⟩, fun b' member => ?_⟩
    obtain ⟨a', there, same⟩ := ih later b' member
    exact ⟨a', List.mem_cons_of_mem _ there, same⟩

end elements

end Json
