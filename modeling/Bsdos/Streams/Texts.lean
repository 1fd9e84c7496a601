import Bsdos.Blanks
import Bsdos.Lines
import Bsdos.Streams.Calls
import Bsdos.Streams.Control

namespace Bsdos.Streams
open Effects

/-- Neither a separator nor a blank. -/
def wordChar (c : Char) : Bool := !(c = ':' || c = ',' || Text.isWhitespace c)

/-- What the text of a stream command gives: two words and a URL that may be anything. -/
structure StreamText where
  id : String
  command : String
  url : String
  named : id ≠ ""
  id_word : ∀ c ∈ id.toList, wordChar c = true
  command_word : ∀ c ∈ command.toList, wordChar c = true
  url_trimmed : Text.Trimmed url.toList

def StreamText.text (e : StreamText) : String := e.id ++ ":" ++ e.command ++ ":" ++ e.url

def StreamText.config (e : StreamText) : StreamConfig :=
  { StreamConfig.default with appId := e.id, app := e.command, url := e.url }

/-- A stop with this payload ends a stream of this configuration, in any world that has one. -/
def StoppedBy (cfg : StreamConfig) (payload : String) : Prop :=
  ∀ w inst, w.streams.lookup cfg.appId = some inst →
    ∀ moments r w', Exec manager .ctl (stopStream (Text.trim payload)).run w moments r w' →
      r = .ok () ∧ w'.streams.lookup cfg.appId = none

variable {cfg : StreamConfig} {appId : String} {w w' : World} {moments : List (Moment Host World)}

theorem word_free (word : ∀ c ∈ appId.toList, wordChar c = true) {sep : Char} (special : wordChar sep = false) :
    sep ∉ appId.toList := fun member =>
  Bool.false_ne_true (special.symm.trans (word sep member))

theorem word_solid (word : ∀ c ∈ appId.toList, wordChar c = true) : ∀ c ∈ appId.toList, Text.isWhitespace c = false := by
  intro c member
  have here := word c member
  simp only [wordChar, Bool.not_eq_true', Bool.or_eq_false_iff] at here
  exact here.2

theorem StreamText.chars (e : StreamText) :
    e.text.toList = e.id.toList ++ ':' :: (e.command.toList ++ ':' :: e.url.toList) := by
  simp only [text, String.toList_append, List.append_assoc]
  rfl

/-- The texts keep their ends, so that nothing is trimmed. -/
theorem StreamText.trimmed (e : StreamText) : Text.Trimmed e.text.toList := by
  constructor
  · intro c begins
    have some : e.id.toList ≠ [] := fun none => e.named (String.toList_eq_nil_iff.mp none)
    rw [e.chars, List.head?_append_of_ne_nil _ some] at begins
    exact word_solid e.id_word c (List.mem_of_mem_head? begins)
  · intro c ends
    have colons : e.text.toList = e.id.toList ++ ':' :: e.command.toList ++ ':' :: e.url.toList := by
      rw [e.chars, List.append_assoc, List.cons_append]
    rw [colons, List.getLast?_append_of_ne_nil _ (by simp), List.getLast?_cons] at ends
    cases last : e.url.toList.getLast? with
    | none =>
      rw [last] at ends
      cases Option.some.inj ends
      decide
    | some d =>
      rw [last] at ends
      cases Option.some.inj ends
      exact e.url_trimmed.last d last

theorem StreamText.started (e : StreamText) : ctlStart e.text = some e.config :=
  ctlStart_payload (word_free e.id_word rfl) (word_free e.command_word rfl)

theorem StreamText.entry (e : StreamText) : autostreamEntry e.text = some e.config := by
  have kept := Text.trim_same e.trimmed
  have filled : ¬ e.text.isEmpty = true := by
    rw [String.isEmpty_iff, ← String.toList_eq_nil_iff, e.chars]
    simp
  rw [autostreamEntry, kept, if_neg filled]
  exact e.started

theorem StreamText.commaless (e : StreamText) (free : ',' ∉ e.url.toList) : ',' ∉ e.text.toList := by
  have id : ',' ∉ e.id.toList := word_free e.id_word rfl
  have command : ',' ∉ e.command.toList := word_free e.command_word rfl
  rw [e.chars]
  simp [id, command, free]

/-- Texts that are joined with the separator are split again, each with its own pieces. -/
theorem split_intercalate {sep : Char} (first : String) (texts : List String) :
    Text.split sep ((String.singleton sep).intercalate (first :: texts)) = (first :: texts).flatMap (Text.split sep) := by
  induction texts generalizing first with
  | nil => rw [String.intercalate_singleton, List.flatMap_cons, List.flatMap_nil, List.append_nil]
  | cons second texts ih =>
    rw [String.intercalate_cons_cons, Text.split_append, ih, ← List.flatMap_cons]

/-- A URL without commas is read whole. -/
theorem parse_joined {entries : List StreamText} (free : ∀ e ∈ entries, ',' ∉ e.url.toList) :
    parseAutostreamEnv (",".intercalate (entries.map StreamText.text)) = entries.map StreamText.config := by
  have comma : "," = String.singleton ',' := by decide
  cases entries with
  | nil =>
    have nothing : Text.split ',' "" = [""] := Text.split_free (by decide)
    have blank : autostreamEntry "" = none := by
      have empty : Text.trim "" = "" := Text.trim_same ⟨fun c head => absurd head (by simp), fun c last => absurd last (by simp)⟩
      rw [autostreamEntry, empty]
      rfl
    rw [List.map_nil, String.intercalate_nil, parseAutostreamEnv, nothing, List.filterMap_cons, blank]
    rfl
  | cons first rest =>
    have each : ∀ entries : List StreamText, (∀ e ∈ entries, ',' ∉ e.url.toList) →
        ((entries.map StreamText.text).flatMap (Text.split ',')).filterMap autostreamEntry =
          entries.map StreamText.config := by
      intro entries free
      induction entries with
      | nil => rfl
      | cons e entries ih =>
        rw [List.forall_mem_cons] at free
        rw [List.map_cons, List.flatMap_cons, Text.split_free (e.commaless free.1), List.singleton_append,
          List.filterMap_cons_some e.entry, ih free.2, List.map_cons]
    rw [parseAutostreamEnv, comma, List.map_cons, split_intercalate, ← List.map_cons]
    exact each (first :: rest) free

/-- A piece of a text has only characters of the text. -/
theorem splitnChars_mem {sep : Char} {n : Nat} {cs : List Char} : ∀ piece ∈ Text.splitnChars sep (n + 1) cs, ∀ c ∈ piece, c ∈ cs := by
  induction n generalizing cs with
  | zero =>
    intro piece member c inside
    rwa [← List.mem_singleton.mp member]
  | succ n ih =>
    rcases Text.splitnChars_cases sep n cs with ⟨-, one⟩ | ⟨piece, rest, -, rfl, more⟩
    · intro piece member c inside
      rw [one] at member
      rwa [← List.mem_singleton.mp member]
    · rw [more, List.forall_mem_cons]
      refine ⟨fun c inside => List.mem_append_left _ inside, fun later member c inside => ?_⟩
      exact List.mem_append_right _ (List.mem_cons_of_mem _ (ih later member c inside))

/-- No comma is left in what is read. -/
theorem parse_commaless {autostream : String} (read : cfg ∈ parseAutostreamEnv autostream) : ',' ∉ cfg.url.toList := by
  obtain ⟨entry, piece, given⟩ := List.mem_filterMap.mp read
  obtain ⟨free, -⟩ := Text.split_pieces entry piece
  have trimmed : ',' ∉ (Text.trim entry).toList := by
    unfold Text.trim
    rw [String.toList_ofList]
    exact fun inside => free ((Text.trimChars_infix _).subset inside)
  unfold autostreamEntry Text.splitn at given
  split at given
  · cases given
  · have pieces := @splitnChars_mem ':' 2 (Text.trim entry).toList
    generalize Text.splitnChars ':' 3 (Text.trim entry).toList = parts at given pieces
    match parts with
    | [] => cases given
    | [_] => cases given
    | [appId, app] =>
      cases Option.some.inj given
      change ',' ∉ "about:blank".toList
      decide
    | appId :: app :: url :: rest =>
      cases Option.some.inj given
      change ',' ∉ (String.ofList url).toList
      rw [String.toList_ofList]
      exact fun inside => trimmed (pieces url (by simp) ',' inside)

/-- The calls that leave the map of streams alone. -/
def Op.LeavesMap : Op → Prop
  | .streamsInsert _ _ | .streamsRemove _ => False
  | _ => True

theorem clears_leavesMap (op : Op) (clears : op.Clears) : op.LeavesMap := by
  cases op with
  | streamsInsert _ _ | streamsRemove _ => exact clears.elim id id
  | _ => trivial

theorem exec_leavesMap {α : Type} {p : Task α} {value : α} (exec : Exec manager .ctl p w moments value w')
    (only : p.Only Op.LeavesMap) : w'.streams = w.streams := by
  refine exec.preserve (I := fun u => u.streams = w.streams) only (fun u op r leaves _ same => ?_) rfl
  refine Eq.trans ?_ same
  cases op with
  | streamsInsert _ _ | streamsRemove _ => exact leaves.elim
  | spawn _ _ _ | registryWriteTmp _ | registryRename => cases r <;> rfl
  | _ => rfl

/-- A stop takes the stream of its id from the map, and fails if there is none. -/
theorem stopStream_takes {r : Except StreamError Unit} (exec : Exec manager .ctl (stopStream appId).run w moments r w') :
    r = (if (w.streams.lookup appId).isSome then .ok () else .error (.notFound appId)) ∧ w'.streams = w.streams.erase appId := by
  unfold stopStream at exec
  rw [recorded_run, stopBody_run] at exec
  obtain ⟨_, _, _, rfl, exec⟩ := exec
  obtain ⟨first, answer, middle, rest, body, back, rfl⟩ := exec_bind.mp exec
  obtain ⟨_, _, _, rfl, body⟩ := body
  obtain ⟨found, _, may, rfl, body⟩ := body
  obtain ⟨_, _, _, rfl, body⟩ := body
  obtain ⟨_, _, _, rfl, rfl, rfl, rfl⟩ := back
  have there : found = w.streams.lookup appId :=
    (@World.may_streamsRemove { w with holder := some .ctl } .ctl appId found may).2
  rw [← there]
  cases found with
  | none =>
    obtain ⟨-, rfl, rfl⟩ := body
    exact ⟨rfl, rfl⟩
  | some inst =>
    have streams := exec_leavesMap body ((cleared_only appId inst).mono clears_leavesMap)
    obtain ⟨_, _, _, _, -, body, -⟩ := exec_bind.mp body
    obtain ⟨_, _, _, _, -, ended, -⟩ := exec_bind.mp body
    obtain ⟨-, rfl, -⟩ := ended
    exact ⟨rfl, streams⟩

/-- A start that goes well registers the stream under the id of its configuration. -/
theorem startStream_registers (exec : Exec manager .ctl (startStream cfg).run w moments (.ok ()) w') :
    ∃ inst, inst.cfg = cfg ∧ w'.streams.lookup cfg.appId = some inst := by
  unfold startStream at exec
  rw [recorded_run, startBody_run, checkMembership_run] at exec
  obtain ⟨_, _, _, rfl, exec⟩ := exec
  obtain ⟨first, answer, middle, rest, body, back, rfl⟩ := exec_bind.mp exec
  obtain ⟨_, _, _, rfl, _, same, rfl⟩ := back
  obtain ⟨_, _, _, later, check, body, rfl⟩ := exec_bind.mp body
  obtain ⟨_, _, _, rfl, check⟩ := check
  obtain ⟨known, _, _, rfl, check⟩ := check
  obtain ⟨_, _, _, rfl, rfl, rfl, rfl⟩ := check
  cases known with
  | true =>
    obtain ⟨-, rfl, -⟩ := body
    cases same
  | false =>
    obtain ⟨_, spawned, _, _, -, body, -⟩ := exec_bind.mp body
    cases spawned with
    | error e =>
      obtain ⟨-, rfl, -⟩ := body
      cases same
    | ok procs =>
      obtain ⟨_, _, _, _, registered, ended, -⟩ := exec_bind.mp body
      obtain ⟨-, -, rfl⟩ := ended
      obtain ⟨_, _, _, -, registered⟩ := registered
      obtain ⟨_, _, _, -, registered⟩ := registered
      obtain ⟨_, _, _, -, registered⟩ := registered
      obtain ⟨_, _, _, -, registered⟩ := registered
      obtain ⟨_, _, _, -, registered⟩ := registered
      have only : ((addToRegistry cfg).run >>= fun _ => unlock).Only Op.LeavesMap := by
        have unlocks : unlock.Only Op.LeavesMap := ⟨trivial, fun _ => trivial⟩
        exact ((add_records cfg).mono fun op records => clears_leavesMap op (.inr records)).bind fun _ => unlocks
      refine ⟨_, ?_, (congrArg (Finmap.lookup cfg.appId) (exec_leavesMap registered only)).trans (Finmap.lookup_insert _)⟩
      rfl

/-- A stop for an unknown id runs into an error. -/
theorem stopStream_unknown (free : w.holder = none) (unknown : w.streams.lookup appId = none) :
    ∃ moments w', Exec manager .ctl (stopStream appId).run w moments (.error (.notFound appId)) w' := by
  have removes : World.may { w with holder := some .ctl } .ctl (.streamsRemove appId) none = true := by
    simp [World.may, unknown, truly]
  have locks : manager.may .ctl w .lock () = true := decide_eq_true free
  have unlocks : World.may { w with holder := some .ctl, streams := w.streams.erase appId } .ctl .unlock () = true := by
    simp [World.may]
  unfold stopStream
  rw [recorded_run, stopBody_run]
  exact ⟨_, _, (), _, rfl, rfl, exec_bind.mpr ⟨_, _, _, _, ⟨(), _, locks, rfl, none, _, removes, rfl, (), _,
    unlocks, rfl, rfl, rfl, rfl⟩, ⟨(), _, rfl, rfl, rfl, rfl, rfl⟩, rfl⟩⟩

/-- A payload stops the stream if and only if it is the id but for blanks around it. -/
theorem stoppedBy_iff {payload : String} : StoppedBy cfg payload ↔ Text.trim payload = cfg.appId := by
  constructor
  · intro stopped
    by_contra other
    let inst : StreamInstance := ⟨cfg.appId, cfg, 0, 0, 0, rundirFor cfg.appId, 0, 0, 0⟩
    let w : World := { World.fresh .missing with streams := Finmap.singleton cfg.appId inst }
    have unknown : w.streams.lookup (Text.trim payload) = none := by
      rw [Finmap.lookup_eq_none]
      exact fun member => other (Finmap.mem_singleton _ _ _ |>.mp member)
    obtain ⟨moments, w', exec⟩ := @stopStream_unknown (Text.trim payload) w rfl unknown
    obtain ⟨ended, -⟩ := stopped w inst (Finmap.lookup_singleton_eq) moments _ w' exec
    cases ended
  · intro same w inst known moments r w' exec
    obtain ⟨rfl, streams⟩ := stopStream_takes exec
    rw [same, known, Option.isSome_some, if_pos rfl]
    refine ⟨rfl, ?_⟩
    rw [streams, same, Finmap.lookup_erase]

/-- The autostart variable gives back the streams it was made of if and only if no URL has a
comma; the control topic always does; and a stream that the control topic starts is stopped
under the id it was given if and only if no blank is around that id in the start payload. -/
theorem stream_texts_iff (entries : List StreamText) :
    (parseAutostreamEnv (",".intercalate (entries.map StreamText.text)) = entries.map StreamText.config ↔
      ∀ e ∈ entries, ',' ∉ e.url.toList) ∧
      (∀ e : StreamText, ctlStart e.text = some e.config) ∧
      ∀ text cfg, ctlStart text = some cfg →
        (∀ w moments w', Exec manager .ctl (startStream cfg).run w moments (.ok ()) w' →
          ∃ inst, inst.cfg = cfg ∧ w'.streams.lookup cfg.appId = some inst) ∧
        ∀ payload, Text.trim payload = Text.trim cfg.appId → (StoppedBy cfg payload ↔ Text.Trimmed cfg.appId.toList) := by
  refine ⟨⟨fun read e member => ?_, parse_joined⟩, StreamText.started,
    fun text cfg _ => ⟨fun w moments w' => startStream_registers, fun payload same => ?_⟩⟩
  · have listed : e.config ∈ parseAutostreamEnv (",".intercalate (entries.map StreamText.text)) :=
      read ▸ List.mem_map.mpr ⟨e, member, rfl⟩
    exact parse_commaless listed
  · rw [stoppedBy_iff, same]
    exact ⟨fun kept => kept ▸ Text.trim_trimmed cfg.appId, Text.trim_same⟩

theorem maps_words : "appMaps".toList.all wordChar = true ∧ "firefox".toList.all wordChar = true := by decide

theorem maps_url : Text.Trimmed "https://example.org/@48,11".toList := by
  refine ⟨fun c head => ?_, fun c last => ?_⟩
  · have first : "https://example.org/@48,11".toList.head? = some 'h' := by decide
    cases Option.some.inj (first.symm.trans head)
    decide
  · have final : "https://example.org/@48,11".toList.getLast? = some '1' := by decide
    cases Option.some.inj (final.symm.trans last)
    decide

theorem maps_named : "appMaps" ≠ "" := by decide

def mapsText : StreamText where
  id := "appMaps"
  command := "firefox"
  url := "https://example.org/@48,11"
  named := maps_named
  id_word := List.all_eq_true.mp maps_words.1
  command_word := List.all_eq_true.mp maps_words.2
  url_trimmed := maps_url

theorem maps_start : ctlStart (" appMaps" ++ ":" ++ "firefox" ++ ":" ++ "https://example.org/@48,11") =
    some { mapsText.config with appId := " appMaps" } := ctlStart_payload (by decide) (by decide)

theorem maps_trim : Text.trim " appMaps" = "appMaps" := by decide +kernel

/-- A stream with a blank before its id is not stopped under the id. -/
theorem stream_texts_maps : ¬ StoppedBy { mapsText.config with appId := " appMaps" } "appMaps" := by
  have same : Text.trim "appMaps" = Text.trim " appMaps" := by decide +kernel
  intro stopped
  have trimmed := (((stream_texts_iff []).2.2 _ _ maps_start).2 "appMaps" same).mp stopped
  exact absurd ((Text.trim_same trimmed).symm.trans maps_trim) (by decide)

/-- A comma cuts the URL in the autostart variable, and a blank before the id makes a stream
that the id does not stop. -/
theorem maps_misread :
    ¬ (∀ entries : List StreamText,
      parseAutostreamEnv (",".intercalate (entries.map StreamText.text)) = entries.map StreamText.config) ∧
    ¬ ∀ text cfg, ctlStart text = some cfg → ∀ payload, Text.trim payload = Text.trim cfg.appId → StoppedBy cfg payload := by
  constructor
  · intro all
    have read := all [mapsText]
    have listed : mapsText.config ∈ parseAutostreamEnv (",".intercalate ([mapsText].map StreamText.text)) :=
      read ▸ List.mem_singleton_self _
    exact parse_commaless listed (by decide)
  · intro all
    have same : Text.trim "appMaps" = Text.trim " appMaps" := by decide +kernel
    have stopped := stoppedBy_iff.mp (all _ _ maps_start "appMaps" same)
    rw [same, maps_trim] at stopped
    exact absurd stopped (by decide)

end Bsdos.Streams
