import Bsdos.Json.Parser
import Mathlib.Data.List.Nodup

namespace Bsdos.Streams
open Json Scanning

/-- A process of a stream, with its process id and what `try_wait` says of it: nothing while it
runs, its exit code when it has died. -/
structure Component where
  id : Nat
  positive : 0 < id
  tryWait : Except String (Option Int)

def Component.alive (c : Component) : Bool := c.tryWait.toOption.join.isNone

def Component.Dead (c : Component) : Prop := ∃ code, c.tryWait = .ok (some code)

structure Pipeline where
  cage : Component
  tunnel : Component
  app : Component

/-- The active streams, each once, in whatever order the map has them. -/
structure ActiveStreams where
  entries : List (String × Pipeline)
  once : (entries.map Prod.fst).Nodup

def ActiveStreams.ids (active : ActiveStreams) : List String := active.entries.map Prod.fst

/-- The id that the report shows for a process. -/
def Component.shown (c : Component) : Nat := if c.alive then c.id else 0

def healthEntry (id : String) (inst : Pipeline) : String :=
  "\x7b\"id\":\"" ++ id ++ "\",\"cage\":" ++ toString inst.cage.shown ++ ",\"tunnel\":" ++ toString inst.tunnel.shown ++
    ",\"app\":" ++ toString inst.app.shown ++ "\x7d"

def healthSnapshot (pid : Nat) (zenohState : String) (active : ActiveStreams) : String :=
  "\x7b\"pid\":" ++ toString pid ++ ",\"zenoh\":\"" ++ zenohState ++ "\",\"streams\":[" ++
    ",".intercalate (active.entries.map fun e => healthEntry e.1 e.2) ++ "]\x7d"

/-- Which characters the debug format of a string writes as they are: those that are printable
and extend no grapheme. What it does to the characters of ASCII is fixed. -/
structure DebugTable where
  plain : Char → Bool
  control : ∀ c : Char, c.toNat < 0x20 → plain c = false
  ascii : ∀ c : Char, 0x20 ≤ c.toNat → c.toNat < 0x7F → plain c = true
  delete : plain '\x7f' = false

/-- The table of a format that prints ASCII alone. -/
instance : Inhabited DebugTable where
  default := {
    plain := fun c => decide (0x20 ≤ c.toNat ∧ c.toNat < 0x7F)
    control := fun _ low => decide_eq_false fun printed => Nat.not_lt.mpr printed.1 low
    ascii := fun _ low high => decide_eq_true ⟨low, high⟩
    delete := rfl
  }

def escapeDebug (table : DebugTable) (c : Char) : List Char :=
  if c = '\x00' then ['\\', '0']
  else if c = '\t' then ['\\', 't']
  else if c = '\r' then ['\\', 'r']
  else if c = '\n' then ['\\', 'n']
  else if c = '"' then ['\\', '"']
  else if c = '\\' then ['\\', '\\']
  else if table.plain c then [c]
  else ['\\', 'u', '\x7b'] ++ Nat.toDigits 16 c.toNat ++ ['\x7d']

/-- A string in the debug format. -/
def debugText (table : DebugTable) (s : String) : String :=
  "\"" ++ String.ofList (s.toList.flatMap (escapeDebug table)) ++ "\""

def debugTexts (table : DebugTable) (texts : List String) : String :=
  "[" ++ ", ".intercalate (texts.map (debugText table)) ++ "]"

def readyText (table : DebugTable) (pid : Nat) (active : List String) : String :=
  "\x7b\"pid\":" ++ toString pid ++ ",\"zenoh\":\"open\",\"streams\":" ++ debugTexts table active ++ "\x7d"

/-! What a subscriber reads out of the reports. -/

structure StreamHealth where
  id : String
  cage : Nat
  tunnel : Nat
  app : Nat

structure Report (S : Type) where
  pid : Nat
  zenoh : String
  streams : List S

def readStream (v : Json.Value) : Option StreamHealth := do
  let id ← (v.get "id").bind Value.text
  let cage ← (v.get "cage").bind Value.natural
  let tunnel ← (v.get "tunnel").bind Value.natural
  let app ← (v.get "app").bind Value.natural
  return ⟨id, cage, tunnel, app⟩

def readReport {S : Type} (stream : Json.Value → Option S) (v : Json.Value) : Option (Report S) := do
  let pid ← (v.get "pid").bind Value.natural
  let zenoh ← (v.get "zenoh").bind Value.text
  let elements ← (v.get "streams").bind Value.elements
  let streams ← elements.mapM stream
  return ⟨pid, zenoh, streams⟩

/-- The text is a JSON document, and read as one it tells the active streams, each once, and
the id zero for the dead components and no others. -/
def TellsHealth (text : String) (active : ActiveStreams) : Prop :=
  ∃ v report, parse text.toList = some v ∧ readReport readStream v = some report ∧
    (report.streams.map StreamHealth.id).Perm active.ids ∧
    ∀ h ∈ report.streams, ∀ e ∈ active.entries, h.id = e.1 →
      (h.cage = 0 ↔ e.2.cage.Dead) ∧ (h.tunnel = 0 ↔ e.2.tunnel.Dead) ∧ (h.app = 0 ↔ e.2.app.Dead)

def TellsReady (text : String) (active : List String) : Prop :=
  ∃ v report, parse text.toList = some v ∧ readReport Value.text v = some report ∧ report.streams.Perm active

theorem Component.shown_eq_zero (c : Component) : c.shown = 0 ↔ c.Dead := by
  unfold shown alive Dead
  have positive := c.positive
  rcases c.tryWait with e | _ | code
  · exact ⟨fun zero => absurd zero (Nat.ne_of_gt positive), fun ⟨_, wrong⟩ => nomatch wrong⟩
  · exact ⟨fun zero => absurd zero (Nat.ne_of_gt positive), fun ⟨_, wrong⟩ => nomatch wrong⟩
  · exact ⟨fun _ => ⟨code, rfl⟩, fun _ => rfl⟩

section report

/-- A report with this text between the brackets. -/
def reportChars (pid : Nat) (body : List Char) : List Char :=
  "\x7b\"pid\":".toList ++ (Nat.toDigits 10 pid ++ (",\"zenoh\":\"open\",\"streams\":[".toList ++
    (body ++ "]\x7d".toList)))

theorem toString_digits (n : Nat) : (toString n).toList = Nat.toDigits 10 n := Nat.toList_repr

theorem healthSnapshot_toList (pid : Nat) (active : ActiveStreams) : (healthSnapshot pid "open" active).toList =
    reportChars pid (",".intercalate (active.entries.map fun e => healthEntry e.1 e.2)).toList := by
  have zenoh : ",\"zenoh\":\"open\",\"streams\":[".toList =
      ",\"zenoh\":\"".toList ++ ("open".toList ++ "\",\"streams\":[".toList) := by decide
  unfold healthSnapshot reportChars
  simp only [zenoh, String.toList_append, toString_digits, List.append_assoc]

theorem readyText_toList (table : DebugTable) (pid : Nat) (active : List String) : (readyText table pid active).toList =
    reportChars pid (", ".intercalate (active.map (debugText table))).toList := by
  have opens : ",\"zenoh\":\"open\",\"streams\":[".toList = ",\"zenoh\":\"open\",\"streams\":".toList ++ "[".toList := by
    decide
  have closes : "]\x7d".toList = "]".toList ++ "\x7d".toList := by decide
  unfold readyText debugTexts reportChars
  simp only [opens, closes, String.toList_append, toString_digits, List.append_assoc]

def reportTokens (pid : Nat) : List Token :=
  [.beginObject, .text "pid".toList, .colon, .word (Nat.toDigits 10 pid), .comma, .text "zenoh".toList, .colon,
    .text "open".toList, .comma, .text "streams".toList, .colon, .beginArray]

theorem run_reportChars (pid : Nat) (body : List Char) : run step .between (reportChars pid body) =
    (reportTokens pid ++ (run step .between (body ++ "]\x7d".toList)).1,
      (run step .between (body ++ "]\x7d".toList)).2) := by
  have opens : run step .between "\x7b\"pid\":".toList = ([.beginObject, .text "pid".toList, .colon], .between) := by
    decide
  have zenoh : run step .between ",\"zenoh\":\"open\",\"streams\":[".toList = ([.comma, .text "zenoh".toList, .colon,
      .text "open".toList, .comma, .text "streams".toList, .colon, .beginArray], .between) := by
    decide
  have later : run step .between (body ++ "]\x7d".toList) = (_, _) := rfl
  have whole := run_then opens (run_digits pid (by decide) (run_then zenoh later))
  exact whole

theorem run_closing : run step .between "]\x7d".toList = ([.endArray, .endObject], .between) := by
  decide

def reportValue (pid : Nat) (elements : List Json.Value) : Json.Value :=
  .object [("pid".toList, ofWord (Nat.toDigits 10 pid)), ("zenoh".toList, .string "open".toList),
    ("streams".toList, .array elements)]

/-- A report whose elements can be read is a JSON text. -/
theorem parse_report {A : Type} {parts : List A} {tokens : A → List Token} {value : A → Json.Value} (pid : Nat)
    {body : List Char} (read : run step .between body = (separated (parts.map tokens), .between))
    (each : ∀ a opened frames, follow (.value opened frames) (tokens a) = some (.done (value a) frames)) :
    parse (reportChars pid body) = some (reportValue pid (parts.map value)) := by
  have whole := run_reportChars pid body
  rw [run_then read run_closing] at whole
  have head : follow (.value false []) (reportTokens pid) = some (.value true [.array [], .object
      [("pid".toList, ofWord (Nat.toDigits 10 pid)), ("zenoh".toList, .string "open".toList)] "streams".toList]) := rfl
  have closes (v : Json.Value) (members : List (List Char × Json.Value)) (name : List Char) :
      follow (.done v [.object members name]) [.endObject] = some (.done (.object (members ++ [(name, v)])) []) := rfl
  have elements := follow_then head (follow_then (follow_array each parts) (closes _ _ _))
  rw [List.append_assoc] at elements
  unfold parse
  rw [lex_of_run whole]
  exact (congrArg (fun state => state.bind ended) elements)

theorem readReport_value {S : Type} {stream : Json.Value → Option S} (pid : Nat) (elements : List Json.Value) :
    readReport stream (reportValue pid elements) =
      (elements.mapM stream).map fun streams => ⟨pid, "open", streams⟩ := by
  have number : ((reportValue pid elements).get "pid").bind Value.natural = some pid := ofWord_digits pid
  have zenoh : ((reportValue pid elements).get "zenoh").bind Value.text = some "open" := rfl
  have streams : ((reportValue pid elements).get "streams").bind Value.elements = some elements := rfl
  unfold readReport
  rw [number, zenoh, streams, Option.map_eq_bind]
  rfl

end report

section health

/-- What an entry has before the id, and the beginning of what comes after it. -/
def entryHead : List Char := "\x7b\"id\":\"".toList

def cageKey : List Char := ",\"cage\":".toList

/-- An entry from the quote that ends the id. -/
def entryTail (inst : Pipeline) : List Char :=
  cageKey ++ (Nat.toDigits 10 inst.cage.shown ++ (",\"tunnel\":".toList ++ (Nat.toDigits 10 inst.tunnel.shown ++
    (",\"app\":".toList ++ (Nat.toDigits 10 inst.app.shown ++ ['\x7d'])))))

theorem healthEntry_toList (id : String) (inst : Pipeline) :
    (healthEntry id inst).toList = entryHead ++ (id.toList ++ '"' :: entryTail inst) := by
  have digits (n : Nat) : (toString n).toList = Nat.toDigits 10 n := Nat.toList_repr
  unfold healthEntry
  simp only [String.toList_append, digits, List.append_assoc]
  rfl

theorem run_entryHead : run step .between entryHead = ([.beginObject, .text "id".toList, .colon], .quoted []) := by
  decide

theorem run_cageKey : run step .between cageKey = ([.comma, .text "cage".toList, .colon], .between) := by
  decide

def tailTokens (inst : Pipeline) : List Token :=
  [.comma, .text "cage".toList, .colon, .word (Nat.toDigits 10 inst.cage.shown), .comma, .text "tunnel".toList, .colon,
    .word (Nat.toDigits 10 inst.tunnel.shown), .comma, .text "app".toList, .colon,
    .word (Nat.toDigits 10 inst.app.shown), .endObject]

theorem run_entryTail (inst : Pipeline) : run step .between (entryTail inst) = (tailTokens inst, .between) := by
  have closes : run step .between ['\x7d'] = ([.endObject], .between) := by decide
  have app := run_digits inst.app.shown (by decide) closes
  have appKey : run step .between ",\"app\":".toList = ([.comma, .text "app".toList, .colon], .between) := by decide
  have tunnelKey : run step .between ",\"tunnel\":".toList = ([.comma, .text "tunnel".toList, .colon], .between) := by
    decide
  have tunnel := run_digits inst.tunnel.shown (by decide) (run_then appKey app)
  have cage := run_digits inst.cage.shown (by decide) (run_then tunnelKey tunnel)
  exact run_then run_cageKey cage

theorem run_mode (mode : Mode) (c : Char) (cs : List Char) :
    (run step mode (c :: cs)).2 = (run step (step mode c).2 cs).2 := rfl

/-- Reading goes on after the key only where the quote before it has ended a string. -/
theorem quoted_of_cageKey {mode : Mode} (read : (run step mode ('"' :: cageKey)).2 ≠ .refused) :
    ∃ ps, mode = .quoted ps := by
  have opened : (run step (.quoted []) cageKey).2 = .refused := by decide
  have stuck (cs : List Char) : (run step .refused cs).2 = .refused := congrArg Prod.snd (run_refused cs)
  rw [run_mode] at read
  cases mode with
  | between => exact absurd opened read
  | word cs =>
    refine absurd ?_ read
    have ends : isDelimiter '"' = true := by decide
    rw [step, if_pos ends]
    by_cases word : isWord cs.reverse = true
    · rw [if_pos word]
      exact opened
    · rw [if_neg word]
      exact stuck cageKey
  | quoted ps => exact ⟨ps, rfl⟩
  | escaped ps =>
    refine absurd ?_ read
    have split : cageKey = [',', '"', 'c', 'a', 'g', 'e', '"', ':'] := by decide
    have quote : step (.escaped ps) '"' = ([], .quoted (ps ++ [.char '"'])) := rfl
    rw [quote, split, run_mode, step_plain (by decide), run_mode, step_close, closed]
    cases assemble none (ps ++ [.char '"'] ++ [.char ',']) with
    | none => exact stuck _
    | some cs => show (run step .between ['c', 'a', 'g', 'e', '"', ':']).2 = .refused; decide
  | code left value ps =>
    have none : hexDigit '"' = none := by decide
    refine absurd ?_ read
    rw [step, none]
    exact stuck cageKey
  | refused => exact absurd (stuck cageKey) read

def fixedTexts : List (List Char) :=
  ["pid".toList, "zenoh".toList, "open".toList, "streams".toList, "id".toList, "cage".toList, "tunnel".toList,
    "app".toList]

/-- All strings among these tokens are the report's own. -/
def Fixed (tokens : List Token) : Prop := ∀ t ∈ tokens, ∀ cs, t = .text cs → cs ∈ fixedTexts

/-- What a string of the report can be: one of its own, or one that is read within an id, at no
more than the length of the id, and the id itself where nothing in it has to be escaped. -/
def Told (ids : List String) (cs : List Char) : Prop :=
  cs ∈ fixedTexts ∨
  ∃ id ∈ ids, costs cs ≤ id.toList.length ∧ ((∀ c ∈ id.toList, isSpecial c = false) → cs = id.toList)

theorem Told.mono {ids ids' : List String} {cs : List Char} (told : Told ids cs) (more : ∀ id ∈ ids, id ∈ ids') :
    Told ids' cs := by
  rcases told with own | ⟨id, member, bound, same⟩
  · exact .inl own
  · exact .inr ⟨id, more id member, bound, same⟩

theorem fixed_head : Fixed [.beginObject, .text "id".toList, .colon] := by
  intro t member cs same
  subst same
  have only : Token.text cs = .text "id".toList := by simpa using member
  rw [Token.text.inj only]
  decide

theorem fixed_tail (inst : Pipeline) : Fixed (tailTokens inst) := by
  intro t member cs same
  subst same
  have only : cs = "cage".toList ∨ cs = "tunnel".toList ∨ cs = "app".toList := by simpa [tailTokens] using member
  rcases only with rfl | rfl | rfl <;> decide

/-- An entry is read to its end, or not at all. -/
theorem run_healthEntry {id : String} {inst : Pipeline}
    (read : (run step .between (healthEntry id inst).toList).2 ≠ .refused) :
    (run step .between (healthEntry id inst).toList).2 = .between ∧
      ∀ cs, .text cs ∈ (run step .between (healthEntry id inst).toList).1 → Told [id] cs := by
  rw [healthEntry_toList, run_append, run_entryHead] at read ⊢
  rw [run_append] at read ⊢
  obtain ⟨spent, within⟩ := spent_run (.quoted []) id.toList
  have plain (clean : ∀ c ∈ id.toList, isSpecial c = false) :
      run step (.quoted []) id.toList = ([], .quoted (id.toList.map .char)) := run_plain clean []
  generalize run step (.quoted []) id.toList = inside at read spent within plain ⊢
  obtain ⟨out, mode⟩ := inside
  have ended : (run step mode ('"' :: cageKey)).2 ≠ .refused := by
    have split : '"' :: entryTail inst = ('"' :: cageKey) ++ _ := rfl
    rw [split] at read
    exact run_of_append read
  obtain ⟨ps, rfl⟩ := quoted_of_cageKey ended
  have after : run step (.quoted ps) ('"' :: entryTail inst) =
      ((closed ps).1 ++ (run step (closed ps).2 (entryTail inst)).1, (run step (closed ps).2 (entryTail inst)).2) := rfl
  rw [after] at read ⊢
  have bound : pieceCosts ps ≤ id.toList.length := by
    have all : pieceCosts ps ≤ pieceCosts [] + id.toList.length := spent
    have none : pieceCosts [] = 0 := rfl
    omega
  cases assembled : assemble none ps with
  | none =>
    have stuck : closed ps = ([], .refused) := by rw [closed, assembled]
    rw [stuck, run_refused] at read
    exact absurd rfl read
  | some text =>
    have closes : closed ps = ([.text text], .between) := by rw [closed, assembled]
    rw [closes, run_entryTail]
    refine ⟨rfl, fun cs member => ?_⟩
    rcases List.mem_append.mp member with head | later
    · exact .inl (fixed_head _ head cs rfl)
    rcases List.mem_append.mp later with read | later
    · refine .inr ⟨id, List.mem_singleton_self id, ?_, fun clean => ?_⟩
      · have bound := within cs read
        have none : (Mode.quoted []).spent = 0 := rfl
        omega
      · obtain ⟨rfl, _⟩ := Prod.mk.inj (plain clean)
        cases read
    rcases List.mem_append.mp later with last | tail
    · obtain rfl := Token.text.inj (List.mem_singleton.mp last)
      refine .inr ⟨id, List.mem_singleton_self id, Nat.le_trans (costs_assemble assembled) bound, fun clean => ?_⟩
      obtain ⟨_, same⟩ := Prod.mk.inj (plain clean)
      obtain rfl := Mode.quoted.inj same
      exact Option.some.inj (assembled.symm.trans (assemble_chars id.toList))
    · exact .inl (fixed_tail inst _ tail cs rfl)

def entryTokens (id : String) (inst : Pipeline) : List Token :=
  .beginObject :: .text "id".toList :: .colon :: .text id.toList :: tailTokens inst

theorem run_healthEntry_clean {id : String} (clean : ∀ c ∈ id.toList, isSpecial c = false) (inst : Pipeline) :
    run step .between (healthEntry id inst).toList = (entryTokens id inst, .between) := by
  have closes : step (.quoted (id.toList.map .char)) '"' = ([.text id.toList], .between) :=
    (step_close _).trans (closed_chars id.toList)
  have whole := run_then run_entryHead (run_then (run_plain clean []) (run_cons closes (run_entryTail inst)))
  rw [healthEntry_toList]
  exact whole

def entryValue (e : String × Pipeline) : Json.Value :=
  .object [("id".toList, .string e.1.toList), ("cage".toList, ofWord (Nat.toDigits 10 e.2.cage.shown)),
    ("tunnel".toList, ofWord (Nat.toDigits 10 e.2.tunnel.shown)), ("app".toList, ofWord (Nat.toDigits 10 e.2.app.shown))]

theorem follow_entryTokens (e : String × Pipeline) (opened : Bool) (frames : List Frame) :
    follow (.value opened frames) (entryTokens e.1 e.2) = some (.done (entryValue e) frames) := rfl

def tellEntry (e : String × Pipeline) : StreamHealth := ⟨e.1, e.2.cage.shown, e.2.tunnel.shown, e.2.app.shown⟩

theorem readStream_value (e : String × Pipeline) : readStream (entryValue e) = some (tellEntry e) := by
  have id : ((entryValue e).get "id").bind Value.text = some e.1 := congrArg some String.ofList_toList
  have cage : ((entryValue e).get "cage").bind Value.natural = some e.2.cage.shown := ofWord_digits _
  have tunnel : ((entryValue e).get "tunnel").bind Value.natural = some e.2.tunnel.shown := ofWord_digits _
  have app : ((entryValue e).get "app").bind Value.natural = some e.2.app.shown := ofWord_digits _
  unfold readStream
  rw [id, cage, tunnel, app]
  rfl

theorem run_comma : run step .between ",".toList = ([.comma], .between) := by
  decide

/-- The report is right where no id has a character that needs an escape. -/
theorem tellsHealth_clean {pid : Nat} {active : ActiveStreams}
    (clean : ∀ id ∈ active.ids, ∀ c ∈ id.toList, isSpecial c = false) :
    TellsHealth (healthSnapshot pid "open" active) active := by
  have each : ∀ e ∈ active.entries, run step .between (healthEntry e.1 e.2).toList = (entryTokens e.1 e.2, .between) :=
    fun e member => run_healthEntry_clean (clean e.1 (List.mem_map_of_mem member)) e.2
  have parsed := parse_report pid (run_intercalate run_comma each) follow_entryTokens
  rw [← healthSnapshot_toList] at parsed
  have read : readReport readStream (reportValue pid (active.entries.map entryValue)) = _ := readReport_value pid _
  rw [mapM_map readStream_value] at read
  refine ⟨_, _, parsed, read, ?_, fun h told e member same => ?_⟩
  · rw [ActiveStreams.ids, List.map_map]
    exact .refl _
  · obtain ⟨e', there, rfl⟩ := List.mem_map.mp told
    obtain rfl := List.inj_on_of_nodup_map active.once there member same
    exact ⟨e'.2.cage.shown_eq_zero, e'.2.tunnel.shown_eq_zero, e'.2.app.shown_eq_zero⟩

/-- What the report tells of the streams is among the strings of its text. -/
theorem readReport_told {P : List Char → Prop} {v : Json.Value} {report : Report StreamHealth} (strings : v.Strings P)
    (read : readReport readStream v = some report) : ∀ h ∈ report.streams, P h.id.toList := by
  obtain ⟨_, _, read⟩ := Option.bind_eq_some_iff.mp read
  obtain ⟨_, _, read⟩ := Option.bind_eq_some_iff.mp read
  obtain ⟨elements, found, read⟩ := Option.bind_eq_some_iff.mp read
  obtain ⟨streams, each, ends⟩ := Option.bind_eq_some_iff.mp read
  obtain rfl := Option.some.inj ends
  obtain ⟨array, there, listed⟩ := Option.bind_eq_some_iff.mp found
  intro h member
  obtain ⟨w, inside, told⟩ := mem_mapM each h member
  obtain ⟨id, named, told⟩ := Option.bind_eq_some_iff.mp told
  obtain ⟨_, _, told⟩ := Option.bind_eq_some_iff.mp told
  obtain ⟨_, _, told⟩ := Option.bind_eq_some_iff.mp told
  obtain ⟨_, _, told⟩ := Option.bind_eq_some_iff.mp told
  obtain rfl := Option.some.inj told
  obtain ⟨value, got, read⟩ := Option.bind_eq_some_iff.mp named
  exact (((strings.get there).elements listed w inside).get got).text read

/-- Among finitely many, where each has a greater one, there is none. -/
theorem none_of_greater {A : Type} {P : A → Prop} {size : A → Nat} {as : List A}
    (greater : ∀ a ∈ as, P a → ∃ b ∈ as, P b ∧ size a < size b) : ∀ a ∈ as, ¬ P a := by
  have bounded (as : List A) : ∃ bound, ∀ a ∈ as, size a ≤ bound := by
    induction as with
    | nil => exact ⟨0, fun a member => absurd member List.not_mem_nil⟩
    | cons a as ih =>
      obtain ⟨bound, below⟩ := ih
      exact ⟨max (size a) bound, List.forall_mem_cons.mpr ⟨Nat.le_max_left .., fun b member =>
        Nat.le_trans (below b member) (Nat.le_max_right ..)⟩⟩
  obtain ⟨bound, below⟩ := bounded as
  have far (n : Nat) : ∀ a ∈ as, bound < size a + n → ¬ P a := by
    induction n with
    | zero =>
      intro a member long
      have small := below a member
      omega
    | succ n ih =>
      intro a member long own
      obtain ⟨b, there, also, more⟩ := greater a member own
      exact ih b there (by omega) also
  exact fun a member => far (bound + 1) a member (by omega)

theorem fixed_plain {cs : List Char} (fixed : cs ∈ fixedTexts) {c : Char} (member : c ∈ cs) :
    isSpecial c = false := by
  have all : (fixedTexts.all fun cs => cs.all fun c => decide (isSpecial c = false)) = true := by decide
  exact of_decide_eq_true (List.all_eq_true.mp (List.all_eq_true.mp all cs fixed) c member)

theorem fixed_report (pid : Nat) : Fixed (reportTokens pid) := by
  intro t member cs same
  subst same
  have only : cs = "pid".toList ∨ cs = "zenoh".toList ∨ cs = "open".toList ∨ cs = "streams".toList := by
    simpa [reportTokens] using member
  rcases only with rfl | rfl | rfl | rfl <;> decide

/-- A report that can be read has no strings but its own and what is read within an id. -/
theorem told_of_parse {pid : Nat} {active : ActiveStreams} {v : Json.Value}
    (parsed : parse (healthSnapshot pid "open" active).toList = some v) : v.Strings (Told active.ids) := by
  rw [healthSnapshot_toList] at parsed
  obtain ⟨tokens, lexed, _⟩ := Option.bind_eq_some_iff.mp parsed
  have whole := lex_run lexed
  rw [run_reportChars] at whole
  have ends := between_of_intercalate run_comma (fun e _ read => (run_healthEntry read).1) (run_of_append whole)
  have each : ∀ e ∈ active.entries, run step .between (healthEntry e.1 e.2).toList =
      ((run step .between (healthEntry e.1 e.2).toList).1, .between) := fun e member => run_between (ends e member)
  have body := run_reportChars pid (",".intercalate (active.entries.map fun e => healthEntry e.1 e.2)).toList
  rw [run_then (run_intercalate run_comma each) run_closing] at body
  have read := Option.some.inj (lexed.symm.trans (lex_of_run body))
  refine parse_strings lexed (fun cs member => ?_) parsed
  rw [read] at member
  rcases List.mem_append.mp member with head | later
  · exact .inl (fixed_report pid _ head cs rfl)
  rcases List.mem_append.mp later with inside | last
  · obtain ⟨tokens, there, own⟩ := mem_separated inside
    obtain ⟨e, entry, rfl⟩ := List.mem_map.mp there
    have read : (run step .between (healthEntry e.1 e.2).toList).2 ≠ .refused := by
      rw [ends e entry]
      exact Mode.noConfusion
    have told : Told [e.1] cs := (run_healthEntry read).2 cs own
    have active_id : e.1 ∈ active.ids := List.mem_map_of_mem entry
    exact told.mono fun id only => List.mem_singleton.mp only ▸ active_id
  · simp at last

theorem clean_of_tellsHealth {pid : Nat} {active : ActiveStreams}
    (told : TellsHealth (healthSnapshot pid "open" active) active) : ∀ id ∈ active.ids, ∀ c ∈ id.toList, isSpecial c = false := by
  obtain ⟨v, report, parsed, read, perm, _⟩ := told
  have all : ∀ id ∈ active.ids, Told active.ids id.toList := by
    intro id member
    obtain ⟨h, there, rfl⟩ := List.mem_map.mp (perm.mem_iff.mpr member)
    exact readReport_told (told_of_parse parsed) read h there
  have longer : ∀ id ∈ active.ids, (∃ c ∈ id.toList, isSpecial c = true) →
      ∃ other ∈ active.ids, (∃ c ∈ other.toList, isSpecial c = true) ∧ id.toList.length < other.toList.length := by
    rintro id member ⟨c, inside, special⟩
    rcases all id member with own | ⟨other, there, bound, same⟩
    · rw [fixed_plain own inside] at special
      cases special
    · refine ⟨other, there, ?_, Nat.lt_of_lt_of_le (length_lt_costs inside special) bound⟩
      by_contra none
      have clean : ∀ c ∈ other.toList, isSpecial c = false := fun c member =>
        Bool.eq_false_iff.mpr fun special => none ⟨c, member, special⟩
      exact none ⟨c, same clean ▸ inside, special⟩
  have none := none_of_greater longer
  exact fun id member c inside => Bool.eq_false_iff.mpr fun special => none id member ⟨c, inside, special⟩

end health

section ready
variable {table : DebugTable}

/-- What a debug escape of JSON's stands for, or what is written as it is. -/
def DebugPlain (table : DebugTable) (c : Char) : Prop := c ∈ ['\t', '\r', '\n', '"', '\\'] ∨ table.plain c = true

/-- A character that is escaped as in JSON, or not at all, is read as itself; of any other the
reader refuses the escape. -/
theorem run_escapeDebug (table : DebugTable) (c : Char) (ps : List Piece) :
    (DebugPlain table c ∧ run step (.quoted ps) (escapeDebug table c) = ([], .quoted (ps ++ [.char c]))) ∨
    ¬ DebugPlain table c ∧ (run step (.quoted ps) (escapeDebug table c)).2 = .refused := by
  unfold escapeDebug
  by_cases nul : c = '\x00'
  · subst nul
    refine .inr ⟨?_, rfl⟩
    rintro (named | plain)
    · exact absurd named (by decide)
    · rw [table.control _ (by decide)] at plain
      cases plain
  rw [if_neg nul]
  by_cases tab : c = '\t'
  · subst tab
    exact .inl ⟨.inl (by decide), rfl⟩
  rw [if_neg tab]
  by_cases return_ : c = '\r'
  · subst return_
    exact .inl ⟨.inl (by decide), rfl⟩
  rw [if_neg return_]
  by_cases newline : c = '\n'
  · subst newline
    exact .inl ⟨.inl (by decide), rfl⟩
  rw [if_neg newline]
  by_cases quote : c = '"'
  · subst quote
    exact .inl ⟨.inl (by decide), rfl⟩
  rw [if_neg quote]
  by_cases backslash : c = '\\'
  · subst backslash
    exact .inl ⟨.inl (by decide), rfl⟩
  rw [if_neg backslash]
  by_cases plain : table.plain c = true
  · have text : ¬ c.toNat < 0x20 := fun control => by
      rw [table.control c control] at plain
      cases plain
    have clean : isSpecial c = false := by
      simp only [isSpecial, quote, backslash, text, decide_false, Bool.or_false]
    rw [if_pos plain]
    exact .inl ⟨.inr plain, run_cons (step_plain clean ps) rfl⟩
  · rw [if_neg plain]
    refine .inr ⟨?_, congrArg Prod.snd (run_refused _)⟩
    rintro (named | printed)
    · simp [tab, return_, newline, quote, backslash] at named
    · exact plain printed

theorem debugText_toList (id : String) :
    (debugText table id).toList = '"' :: (id.toList.flatMap (escapeDebug table) ++ ['"']) := by
  unfold debugText
  have quote : "\"".toList = ['"'] := by decide
  simp only [String.toList_append, String.toList_ofList, quote, List.cons_append, List.nil_append]

theorem run_debugText {id : String} (written : ∀ c ∈ id.toList, DebugPlain table c) :
    run step .between (debugText table id).toList = ([.text id.toList], .between) := by
  have each : ∀ c ∈ id.toList, ∀ ps, run step (.quoted ps) (escapeDebug table c) = ([], .quoted (ps ++ [.char c])) := by
    intro c member ps
    rcases run_escapeDebug table c ps with ⟨_, read⟩ | ⟨other, _⟩
    · exact read
    · exact absurd (written c member) other
  have opens : step .between '"' = ([], .quoted []) := by decide
  have closes : run step (.quoted (id.toList.map .char)) ['"'] = ([.text id.toList], .between) :=
    run_cons ((step_close _).trans (closed_chars id.toList)) rfl
  rw [debugText_toList]
  exact run_cons opens (run_then (run_chars each []) closes)

theorem debugPlain_of_run {id : String} (read : (run step .between (debugText table id).toList).2 ≠ .refused) :
    ∀ c ∈ id.toList, DebugPlain table c := by
  have opens : step .between '"' = ([], .quoted []) := by decide
  have inner (ps : List Piece) (cs : List Char)
      (read : (run step (.quoted ps) (cs.flatMap (escapeDebug table))).2 ≠ .refused) : ∀ c ∈ cs, DebugPlain table c := by
    induction cs generalizing ps with
    | nil => exact fun c member => absurd member List.not_mem_nil
    | cons c cs ih =>
      rw [List.flatMap_cons] at read
      rcases run_escapeDebug table c ps with ⟨written, first⟩ | ⟨_, stuck⟩
      · rw [run_append, first] at read
        exact List.forall_mem_cons.mpr ⟨written, ih _ read⟩
      · exact absurd stuck (run_of_append read)
  rw [debugText_toList, run_mode, opens] at read
  exact inner [] id.toList (run_of_append read)

theorem run_commaBlank : run step .between ", ".toList = ([.comma], .between) := by
  decide

theorem follow_text (id : String) (opened : Bool) (frames : List Frame) :
    follow (.value opened frames) [.text id.toList] = some (.done (.string id.toList) frames) := rfl

theorem text_string (id : String) : Value.text (.string id.toList) = some id := congrArg some String.ofList_toList

theorem tellsReady_iff {pid : Nat} {active : List String} : TellsReady (readyText table pid active) active ↔
    ∀ id ∈ active, ∀ c ∈ id.toList, DebugPlain table c := by
  constructor
  · rintro ⟨v, _, parsed, _, _⟩
    rw [readyText_toList] at parsed
    obtain ⟨tokens, lexed, _⟩ := Option.bind_eq_some_iff.mp parsed
    have whole := lex_run lexed
    rw [run_reportChars] at whole
    have each : ∀ id ∈ active, (run step .between (debugText table id).toList).2 ≠ .refused →
        (run step .between (debugText table id).toList).2 = .between :=
      fun id _ read => congrArg Prod.snd (run_debugText (debugPlain_of_run read))
    intro id member
    refine debugPlain_of_run ?_
    rw [between_of_intercalate run_commaBlank each (run_of_append whole) id member]
    exact Mode.noConfusion
  · intro written
    have parsed := parse_report pid (run_intercalate run_commaBlank fun id member => run_debugText (written id member))
      follow_text
    rw [← readyText_toList] at parsed
    have read : readReport Value.text (reportValue pid (active.map fun id => .string id.toList)) = _ := readReport_value pid _
    rw [mapM_map text_string, List.map_id'] at read
    exact ⟨_, _, parsed, read, .refl _⟩

end ready

theorem tellsHealth_iff {pid : Nat} {active : ActiveStreams} : TellsHealth (healthSnapshot pid "open" active) active ↔
    ∀ id ∈ active.ids, ∀ c ∈ id.toList, isSpecial c = false :=
  ⟨clean_of_tellsHealth, tellsHealth_clean⟩

/-- The reports are JSON documents that tell the active streams just where every character of
an id is printed as it is and needs no escape. -/
theorem reports_tell_iff (table : DebugTable) (pid : Nat) (active : ActiveStreams) :
    TellsHealth (healthSnapshot pid "open" active) active ∧ TellsReady (readyText table pid active.ids) active.ids ↔
    ∀ id ∈ active.ids, ∀ c ∈ id.toList, isSpecial c = false ∧ table.plain c = true := by
  rw [tellsHealth_iff, tellsReady_iff]
  have named : ['\t', '\r', '\n', '"', '\\'].all isSpecial = true := by decide
  constructor
  · rintro ⟨health, ready⟩ id member c inside
    refine ⟨health id member c inside, ?_⟩
    rcases ready id member c inside with escaped | plain
    · cases (List.all_eq_true.mp named c escaped).symm.trans (health id member c inside)
    · exact plain
  · intro both
    exact ⟨fun id member c inside => (both id member c inside).1, fun id member c inside => .inr (both id member c inside).2⟩

def runningComponent : Component := ⟨7, Nat.zero_lt_succ 6, .ok none⟩

def runningPipeline : Pipeline := ⟨runningComponent, runningComponent, runningComponent⟩

theorem odd_ids_differ : "say \"hi\"" ≠ "bell\x07" := by
  decide

/-- A stream with a quote in its id, and one with a bell. -/
def oddStreams : ActiveStreams :=
  ⟨[("say \"hi\"", runningPipeline), ("bell\x07", runningPipeline)], List.nodup_cons.mpr
    ⟨fun member => odd_ids_differ (List.mem_singleton.mp member), List.nodup_singleton _⟩⟩

/-- The quote is written as it is, and the bell with an escape that JSON does not have. -/
theorem odd_ids_not_told : ¬ TellsHealth (healthSnapshot 1 "open" oddStreams) oddStreams ∧
    ∀ table, ¬ TellsReady (readyText table 1 oddStreams.ids) oddStreams.ids := by
  refine ⟨fun told => ?_, fun table told => ?_⟩
  · have clean := clean_of_tellsHealth told "say \"hi\"" (List.mem_cons_self ..) '"' (by decide)
    cases clean
  · have bell : "bell\x07" ∈ oddStreams.ids := List.mem_cons_of_mem _ (List.mem_singleton_self _)
    rcases tellsReady_iff.mp told "bell\x07" bell '\x07' (by decide) with named | plain
    · exact absurd named (by decide)
    · rw [table.control _ (by decide)] at plain
      cases plain

end Bsdos.Streams
