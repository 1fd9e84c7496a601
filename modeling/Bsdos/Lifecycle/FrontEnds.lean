import Bsdos.Blanks
import Bsdos.Lifecycle.Dispatch
import Bsdos.Lifecycle.Served

namespace Bsdos.Lifecycle
open Effects

def ZenohResponse.ok : ZenohResponse → Bool
  | .done _ _ _ => true
  | .failed _ _ _ => false
  | .status _ => true
  | .unknown _ => false

/-- The task performs this operation, and its answer tells how that went. -/
def Performs {α : Type} (succeeds : α → Bool) (task : Task α) (c : Call) : Prop :=
  ∃ answer : Except String String → α, task = answer <$> (application c).run ∧ ∀ r, succeeds (answer r) = r.isOk

/-- On this line both front ends freeze and thaw the same jails. -/
def Alike (line : String) : Prop :=
  ∀ jail, ∀ c ∈ [Call.freeze jail, .thaw jail],
    Performs Prod.fst (dispatchCmd line) c ↔ Performs ZenohResponse.ok (dispatchZenohCmd line) c

/-- A name without blanks, one space behind the command, and then the end or another space. -/
def Spaced (cmd line : String) : Prop :=
  ∃ jail : String, jail ≠ "" ∧ (∀ c ∈ jail.toList, Text.isWhitespace c = false) ∧
    (line = cmd ++ " " ++ jail ∨ ∃ rest, line = cmd ++ " " ++ jail ++ " " ++ rest)

/-- A task that begins with a call made for an operation. -/
def Begins {α : Type} (task : Task α) (c : Call) : Prop := ∃ next, task = .call (.note (.invoked c)) next

variable {α β : Type} {c c' : Call} {task : Task α} {line jail : String}

theorem Begins.map (begins : Begins task c) (f : α → β) : Begins (f <$> task) c := by
  obtain ⟨next, rfl⟩ := begins
  exact ⟨_, rfl⟩

theorem application_begins (c : Call) : Begins (application c).run c := by
  cases c with
  | freeze jail => exact ⟨_, rfl⟩
  | thaw jail => exact ⟨_, rfl⟩
  | hibernate jail => exact ⟨_, rfl⟩
  | restore jail => exact ⟨_, rfl⟩
  | kill jail => exact ⟨_, rfl⟩

theorem Begins.unique (begins : Begins task c) (begins' : Begins task c') : c = c' := by
  obtain ⟨next, rfl⟩ := begins
  obtain ⟨next', same⟩ := begins'
  injection same with op _
  exact Note.invoked.inj (Op.note.inj op)

theorem Performs.begins {succeeds : α → Bool} (performs : Performs succeeds task c) : Begins task c := by
  obtain ⟨answer, rfl, -⟩ := performs
  exact (application_begins c).map answer

theorem aside_idle (only : task.Only Op.Aside) : ¬ Begins task c := by
  rintro ⟨next, rfl⟩
  exact only.1

theorem toResult_performs (c : Call) : Performs Prod.fst (toResult <$> (application c).run) c := by
  refine ⟨toResult, rfl, fun r => ?_⟩
  cases r with
  | ok _ => rfl
  | error _ => rfl

theorem zenohResult_performs (cmd appId : String) (c : Call) :
    Performs ZenohResponse.ok (zenohResult cmd appId <$> (application c).run) c := by
  refine ⟨zenohResult cmd appId, rfl, fun r => ?_⟩
  cases r with
  | ok _ => rfl
  | error _ => rfl

/-- The word for an operation that both front ends know. -/
def Call.word : Call → String
  | .freeze _ => "FREEZE"
  | .thaw _ => "THAW"
  | .hibernate _ => "HIBERNATE"
  | .restore _ => "RESTORE"
  | .kill _ => "KILL"

theorem dispatchCmd_performs : Performs Prod.fst (dispatchCmd line) c ↔
    (Text.splitWhitespace line)[0]? = some c.word ∧ (Text.splitWhitespace line)[1]? = some c.jail := by
  have only (c' : Call) (performs : Performs Prod.fst (toResult <$> (application c').run) c) : c = c' :=
    performs.begins.unique ((application_begins c').map toResult)
  unfold dispatchCmd
  dsimp only
  generalize (Text.splitWhitespace line)[0]? = cmd
  generalize (Text.splitWhitespace line)[1]? = id
  constructor
  · intro performs
    split at performs
    · cases only (.freeze _) performs
      exact ⟨rfl, rfl⟩
    · cases only (.thaw _) performs
      exact ⟨rfl, rfl⟩
    · cases only (.hibernate _) performs
      exact ⟨rfl, rfl⟩
    · cases only (.restore _) performs
      exact ⟨rfl, rfl⟩
    · cases only (.kill _) performs
      exact ⟨rfl, rfl⟩
    · exact absurd performs.begins (aside_idle ((statusApplication_aside _).bind fun _ => trivial))
    · exact absurd performs.begins (aside_idle (listJailsText_aside.bind fun _ => trivial))
    · exact absurd performs.begins (aside_idle ⟨trivial, fun _ => ⟨rfl, fun _ => trivial⟩⟩)
    · exact absurd performs.begins (aside_idle ((readMemStats_only fun _ => trivial).bind fun _ => trivial))
    · exact absurd performs.begins (aside_idle ⟨trivial, fun _ => trivial⟩)
    · exact absurd performs.begins (aside_idle ⟨trivial, fun _ => ⟨trivial, fun _ => trivial⟩⟩)
    · exact absurd performs.begins (aside_idle trivial)
    · exact absurd performs.begins (aside_idle trivial)
  · rintro ⟨rfl, rfl⟩
    cases c with
    | freeze jail => exact toResult_performs (.freeze jail)
    | thaw jail => exact toResult_performs (.thaw jail)
    | hibernate jail => exact toResult_performs (.hibernate jail)
    | restore jail => exact toResult_performs (.restore jail)
    | kill jail => exact toResult_performs (.kill jail)

theorem dispatchZenohCmd_performs (known : c ∈ [Call.freeze jail, .thaw jail]) :
    Performs ZenohResponse.ok (dispatchZenohCmd line) c ↔
      (Text.splitn 3 ' ' line)[0]?.getD "" = c.word ∧ (Text.splitn 3 ' ' line)[1]?.getD "" = c.jail := by
  have only (cmd appId : String) (c' : Call)
      (performs : Performs ZenohResponse.ok (zenohResult cmd appId <$> (application c').run) c) : c = c' :=
    performs.begins.unique ((application_begins c').map _)
  unfold dispatchZenohCmd
  dsimp only
  generalize (Text.splitn 3 ' ' line)[0]?.getD "" = cmd
  generalize (Text.splitn 3 ' ' line)[1]?.getD "" = id
  constructor
  · intro performs
    split at performs
    · cases only _ _ (.freeze _) performs
      exact ⟨rfl, rfl⟩
    · cases only _ _ (.thaw _) performs
      exact ⟨rfl, rfl⟩
    · have collect : collectStatus.Only Op.Aside :=
        Prog.Only.bind ⟨trivial, fun _ => trivial⟩ fun _ => statusEntries_aside _
      exact absurd performs.begins (aside_idle (collect.bind fun _ => trivial))
    · exact absurd performs.begins (aside_idle trivial)
  · rintro ⟨rfl, rfl⟩
    rcases List.mem_cons.mp known with rfl | later
    · exact zenohResult_performs "FREEZE" jail (.freeze jail)
    · rw [List.mem_singleton.mp later]
      exact zenohResult_performs "THAW" jail (.thaw jail)

/-! The two ways of taking a line apart. -/

variable {cmd : String}

/-- What the bridge reads as the name is between the first two spaces. -/
theorem splitn_three (spaceless : ' ' ∉ cmd.toList) :
    (Text.splitn 3 ' ' line)[0]?.getD "" = cmd ∧ (Text.splitn 3 ' ' line)[1]?.getD "" = jail ↔ ' ' ∉ jail.toList ∧
      (line = cmd ∧ jail = "" ∨ line = cmd ++ " " ++ jail ∨ ∃ rest, line = cmd ++ " " ++ jail ++ " " ++ rest) := by
  constructor
  · rintro ⟨first, second⟩
    rcases Text.splitn_cases ' ' 1 line with ⟨free, one⟩ | ⟨piece, later, free, rfl, more⟩
    · rw [one] at first second
      subst first second
      exact ⟨List.not_mem_nil, .inl ⟨rfl, rfl⟩⟩
    · rw [more] at first second
      subst first
      rcases Text.splitn_cases ' ' 0 later with ⟨free', two⟩ | ⟨piece', rest, free', rfl, three⟩
      · rw [two] at second
        subst second
        exact ⟨free', .inr (.inl rfl)⟩
      · rw [three] at second
        subst second
        exact ⟨free', .inr (.inr ⟨rest, by simp only [String.append_assoc]; rfl⟩)⟩
  · rintro ⟨free, ⟨rfl, rfl⟩ | rfl | ⟨rest, rfl⟩⟩
    · rw [Text.splitn_whole spaceless]
      exact ⟨rfl, rfl⟩
    · have parts : Text.splitn 3 ' ' (cmd ++ " " ++ jail) = cmd :: Text.splitn 2 ' ' jail := Text.splitn_piece spaceless jail
      rw [parts, Text.splitn_whole free]
      exact ⟨rfl, rfl⟩
    · have parts : Text.splitn 3 ' ' (cmd ++ " " ++ (jail ++ " " ++ rest)) = cmd :: Text.splitn 2 ' ' (jail ++ " " ++ rest) :=
        Text.splitn_piece spaceless _
      have parts' : Text.splitn 2 ' ' (jail ++ " " ++ rest) = jail :: Text.splitn 1 ' ' rest := Text.splitn_piece free rest
      have whole : cmd ++ " " ++ jail ++ " " ++ rest = cmd ++ " " ++ (jail ++ " " ++ rest) := by
        simp only [String.append_assoc]
      rw [whole, parts, parts']
      exact ⟨rfl, rfl⟩

/-- A line without blanks at its ends is one word, or it has a second one. -/
theorem splitWhitespace_two (trimmed : Text.Trimmed line.toList) (read : (Text.splitWhitespace line)[0]? = some cmd) :
    line = cmd ∧ (Text.splitWhitespace line)[1]? = none ∨
      ∃ id, id ≠ "" ∧ (∀ c ∈ id.toList, Text.isWhitespace c = false) ∧ (Text.splitWhitespace line)[1]? = some id := by
  rcases Text.splitWhitespace_cases line with ⟨-, none⟩ | ⟨indent, word, rest, blank, filled, solid, ends, rfl, first⟩
  · rw [none] at read
    cases read
  · rw [first] at read
    cases Option.some.inj read
    by_cases more : rest = ""
    · subst more
      cases chars : indent.toList with
      | nil =>
        have nothing : Text.splitWhitespace "" = [] := by
          unfold Text.splitWhitespace
          rfl
        rw [first, nothing, String.toList_eq_nil_iff.mp chars, String.empty_append, String.append_empty]
        exact .inl ⟨rfl, rfl⟩
      | cons c indent' =>
        have begins := trimmed.first c (by rw [String.toList_append, chars]; rfl)
        have blank' := blank c (chars ▸ List.mem_cons_self)
        exact absurd blank' (by rw [begins]; exact Bool.false_ne_true)
    · refine .inr ?_
      rw [first, List.getElem?_cons_succ]
      rcases Text.splitWhitespace_cases rest with ⟨all, -⟩ | ⟨_, id, _, _, filled', solid', _, _, second⟩
      · have some : rest.toList ≠ [] := fun none => more (String.toList_eq_nil_iff.mp none)
        have last := trimmed.last (rest.toList.getLast some) (by
          rw [String.toList_append, String.toList_append, ← List.append_assoc, List.getLast?_append_of_ne_nil _ some,
            List.getLast?_eq_getLast_of_ne_nil some])
        exact absurd (all _ (List.getLast_mem some)) (by rw [last]; exact Bool.false_ne_true)
      · exact ⟨id, filled', solid', by rw [second]; rfl⟩

/-- What is read in a spaced line. -/
theorem Spaced.read (spaced : Spaced cmd line) (filled : cmd ≠ "") (solid : ∀ c ∈ cmd.toList, Text.isWhitespace c = false) :
    ∃ id, ' ' ∉ id.toList ∧ (line = cmd ++ " " ++ id ∨ ∃ rest, line = cmd ++ " " ++ id ++ " " ++ rest) ∧
      id ≠ "" ∧ (Text.splitWhitespace line)[0]? = some cmd ∧ (Text.splitWhitespace line)[1]? = some id := by
  obtain ⟨id, filled', solid', shape⟩ := spaced
  have blank : Text.isWhitespace ' ' = true := by decide
  have spaceless : ' ' ∉ id.toList := fun member => Bool.false_ne_true (( solid' ' ' member).symm.trans blank)
  have begins (rest : String) : ∀ c, (" " ++ rest).toList.head? = some c → Text.isWhitespace c = true := by
    intro c head
    rw [String.toList_append] at head
    cases Option.some.inj head
    exact blank
  have first (rest : String) : Text.splitWhitespace (cmd ++ (" " ++ rest)) = cmd :: Text.splitWhitespace rest := by
    rw [Text.splitWhitespace_word solid filled (begins rest)]
    exact congrArg (cmd :: ·) (Text.splitWhitespace_blank blank rest)
  refine ⟨id, spaceless, shape, filled', ?_⟩
  rcases shape with rfl | ⟨rest, rfl⟩
  · have alone : Text.splitWhitespace (id ++ "") = id :: Text.splitWhitespace "" :=
      Text.splitWhitespace_word solid' filled' (fun c head => absurd head (by simp))
    rw [String.append_empty] at alone
    rw [String.append_assoc, first, alone]
    exact ⟨rfl, rfl⟩
  · have second := Text.splitWhitespace_word solid' filled' (begins rest)
    simp only [String.append_assoc]
    rw [first, second]
    exact ⟨rfl, rfl⟩

/-- The two ways agree on a command if and only if a line for it is spaced. -/
theorem spaced_iff (trimmed : Text.Trimmed line.toList) (filled : cmd ≠ "")
    (solid : ∀ c ∈ cmd.toList, Text.isWhitespace c = false) :
    (∀ jail, ((Text.splitWhitespace line)[0]? = some cmd ∧ (Text.splitWhitespace line)[1]? = some jail) ↔
      ((Text.splitn 3 ' ' line)[0]?.getD "" = cmd ∧ (Text.splitn 3 ' ' line)[1]?.getD "" = jail)) ↔
    ((Text.splitWhitespace line)[0]? = some cmd → Spaced cmd line) := by
  have blank : Text.isWhitespace ' ' = true := by decide
  have spaceless : ' ' ∉ cmd.toList := fun member => Bool.false_ne_true ((solid ' ' member).symm.trans blank)
  constructor
  · intro agree read
    rcases splitWhitespace_two trimmed read with ⟨rfl, one⟩ | ⟨id, filled', solid', second⟩
    · have empty : ' ' ∉ "".toList := by decide
      have socket := ((agree "").mpr ((splitn_three spaceless).mpr ⟨empty, .inl ⟨rfl, rfl⟩⟩)).2
      rw [one] at socket
      cases socket
    · obtain ⟨-, alone | shape⟩ := (splitn_three spaceless).mp ((agree id).mp ⟨read, second⟩)
      · exact absurd alone.2 filled'
      · exact ⟨id, filled', solid', shape⟩
  · intro spaced jail
    constructor
    · rintro ⟨first, second⟩
      obtain ⟨id, free, shape, -, -, second'⟩ := (spaced first).read filled solid
      cases Option.some.inj (second.symm.trans second')
      exact (splitn_three spaceless).mpr ⟨free, .inr shape⟩
    · intro bridge
      have read : (Text.splitWhitespace line)[0]? = some cmd := by
        have begins (rest : String) (ends : ∀ c, rest.toList.head? = some c → Text.isWhitespace c = true) :
            (Text.splitWhitespace (cmd ++ rest))[0]? = some cmd := by
          rw [Text.splitWhitespace_word solid filled ends]
          rfl
        have space (rest : String) : ∀ c, (" " ++ rest).toList.head? = some c → Text.isWhitespace c = true := by
          intro c head
          rw [String.toList_append] at head
          cases Option.some.inj head
          exact blank
        obtain ⟨-, ⟨rfl, -⟩ | rfl | ⟨rest, rfl⟩⟩ := (splitn_three spaceless).mp bridge
        · have alone := begins "" fun c head => absurd head (by simp)
          rwa [String.append_empty] at alone
        · rw [String.append_assoc]
          exact begins _ (space _)
        · simp only [String.append_assoc]
          exact begins _ (space _)
      obtain ⟨id, free, shape, -, -, second⟩ := (spaced read).read filled solid
      have same := ((splitn_three spaceless).mpr ⟨free, .inr shape⟩).2
      exact ⟨read, second.trans (congrArg some (same.symm.trans bridge.2))⟩

/-- Both front ends freeze and thaw the same jails on a text if and only if, where it is for
one of these commands, a single space and a name follow, and then the end or another space. -/
theorem dispatch_alike_iff (text : String) : Alike (Text.trim text) ↔
    ∀ cmd ∈ ["FREEZE", "THAW"], (Text.splitWhitespace (Text.trim text))[0]? = some cmd → Spaced cmd (Text.trim text) := by
  have word : ∀ cmd ∈ ["FREEZE", "THAW"], cmd ≠ "" ∧ ∀ c ∈ cmd.toList, Text.isWhitespace c = false := by
    have freeze : "FREEZE".toList.all (fun c => !Text.isWhitespace c) = true := by decide
    have thaw : "THAW".toList.all (fun c => !Text.isWhitespace c) = true := by decide
    intro cmd member
    rcases List.mem_cons.mp member with rfl | later
    · exact ⟨by decide, fun c inside => by simpa using List.all_eq_true.mp freeze c inside⟩
    · rw [List.mem_singleton.mp later]
      exact ⟨by decide, fun c inside => by simpa using List.all_eq_true.mp thaw c inside⟩
  have trimmed := Text.trim_trimmed text
  generalize Text.trim text = line at trimmed
  have each : ∀ cmd ∈ ["FREEZE", "THAW"], _ := fun cmd member => spaced_iff trimmed (word cmd member).1 (word cmd member).2
  constructor
  · intro alike cmd member
    refine (each cmd member).mp fun jail => ?_
    rcases List.mem_cons.mp member with rfl | later
    · have here := alike jail (.freeze jail) List.mem_cons_self
      rwa [dispatchCmd_performs, dispatchZenohCmd_performs List.mem_cons_self] at here
    · have last : Call.thaw jail ∈ [Call.freeze jail, .thaw jail] := List.mem_cons_of_mem _ List.mem_cons_self
      have here := alike jail (.thaw jail) last
      rw [dispatchCmd_performs, dispatchZenohCmd_performs last] at here
      rwa [List.mem_singleton.mp later]
  · intro spaced jail c known
    rw [dispatchCmd_performs, dispatchZenohCmd_performs known]
    rcases List.mem_cons.mp known with rfl | later
    · exact (each "FREEZE" List.mem_cons_self).mpr (spaced _ List.mem_cons_self) jail
    · have last : "THAW" ∈ ["FREEZE", "THAW"] := List.mem_cons_of_mem _ List.mem_cons_self
      rw [List.mem_singleton.mp later]
      exact (each "THAW" last).mpr (spaced _ last) jail

/-- Two blanks before the name: the socket thaws the jail, the bridge has no name. -/
theorem aligned_apart : ¬ ∀ text, Alike (Text.trim text) := by
  intro all
  have alike := all "THAW   appBrowser" "appBrowser" (.thaw "appBrowser") (List.mem_cons_of_mem _ List.mem_cons_self)
  have trimmed : Text.trim "THAW   appBrowser" = "THAW   appBrowser" := by decide +kernel
  have socket : (Text.splitWhitespace "THAW   appBrowser")[0]? = some "THAW" ∧
      (Text.splitWhitespace "THAW   appBrowser")[1]? = some "appBrowser" := by decide +kernel
  have bridge : (Text.splitn 3 ' ' "THAW   appBrowser")[1]?.getD "" = "" := by decide +kernel
  rw [trimmed, dispatchCmd_performs, dispatchZenohCmd_performs (List.mem_cons_of_mem _ List.mem_cons_self), bridge] at alike
  exact absurd (alike.mp socket).2 (by decide)

end Bsdos.Lifecycle
