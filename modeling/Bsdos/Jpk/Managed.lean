import Bsdos.Jpk.JailConf
import Bsdos.Lifecycle.Execution

namespace Bsdos.Jpk
open Effects Conf

/-- What a command does once its jail is accepted. -/
def commandBody : Lifecycle.Call → String → Lifecycle.Fallible String
  | .freeze _ => Lifecycle.freezeBody
  | .thaw _ => Lifecycle.thawBody
  | .hibernate _ => Lifecycle.hibernateBody
  | .restore _ => Lifecycle.restoreBody
  | .kill _ => Lifecycle.killBody

theorem application_commandBody (c : Lifecycle.Call) : Lifecycle.application c = Lifecycle.operation c (commandBody c) := by
  cases c <;> rfl

/-- A jail by that name is not one inside another jail, the lifecycle daemon accepts the name,
and every command for it is carried out: it ends the way its body ends. -/
structure Manageable (name : String) : Prop where
  own : ∀ parent child, name ≠ parent ++ "." ++ child
  accepted : Lifecycle.validateJailId name = .ok name
  served : ∀ policy actor w moments r w', ∀ c : Lifecycle.Call, c.jail = name →
    Exec (Lifecycle.lifecycled policy) actor (Lifecycle.application c).run w moments r w' →
    ∃ inner, moments = ⟨w, .note (.invoked c), ()⟩ :: inner ++ [⟨w', .note (.returned c r.isOk), ()⟩] ∧
      Exec (Lifecycle.lifecycled policy) actor (commandBody c name).run w inner r w'

theorem served_of_accepted {policy : Lifecycle.LifecyclePolicy} {actor : Lifecycle.Actor} {w w' : Lifecycle.World}
    {moments : List (Moment Lifecycle.Daemon Lifecycle.World)} {r : Except String String} {c : Lifecycle.Call}
    (accepted : Lifecycle.ValidId c.jail)
    (exec : Exec (Lifecycle.lifecycled policy) actor (Lifecycle.application c).run w moments r w') :
    ∃ inner, moments = ⟨w, .note (.invoked c), ()⟩ :: inner ++ [⟨w', .note (.returned c r.isOk), ()⟩] ∧
      Exec (Lifecycle.lifecycled policy) actor (commandBody c c.jail).run w inner r w' := by
  rw [application_commandBody] at exec
  obtain ⟨inner, shape, ⟨_, ran⟩ | ⟨e, refused, _⟩⟩ := Lifecycle.exec_operation.mp exec
  · exact ⟨inner, shape, ran⟩
  · rw [accepted] at refused
    cases refused

theorem dotted_iff {name : String} : (∀ parent child, name ≠ parent ++ "." ++ child) ↔ '.' ∉ name.toList := by
  constructor
  · intro own dot
    obtain ⟨parent, child, cut⟩ := List.append_of_mem dot
    refine own (String.ofList parent) (String.ofList child) (String.toList_inj.mp ?_)
    rw [cut, String.toList_append, String.toList_append, String.toList_ofList, String.toList_ofList]
    simp
  · rintro free parent child rfl
    exact free (by simp)

theorem validAppIdChar_validChar {c : Char} (valid : Pkgd.validAppIdChar c = true) : Lifecycle.validChar c = true ↔ c ≠ '.' := by
  unfold Lifecycle.validChar
  simp only [Pkgd.validAppIdChar, decide_eq_true_eq] at valid ⊢
  constructor
  · rintro valid' rfl
    revert valid'
    decide
  · intro other
    rcases valid with letter | digit | dot | hyphen
    · exact Or.inl letter
    · exact Or.inr (Or.inr (Or.inl digit))
    · exact absurd dot other
    · exact Or.inr (Or.inr (Or.inr (Or.inl hyphen)))

/-- Of the ids that are accepted for a package, the daemon accepts those without a dot that
are not too long. -/
theorem validateJailId_iff {id : String} (accepted : Manifest.validateId id = .ok ()) :
    Lifecycle.validateJailId id = .ok id ↔ '.' ∉ id.toList ∧ id.utf8ByteSize ≤ 64 := by
  have chars := accepted_chars accepted
  rw [Lifecycle.validateJailId_ok_iff]
  constructor
  · rintro ⟨-, -, short, valid⟩
    exact ⟨fun dot => (validAppIdChar_validChar (chars '.' dot)).mp (valid '.' dot) rfl, short⟩
  · rintro ⟨free, short⟩
    refine ⟨rfl, (validateId_name accepted).1, short, fun c member => ?_⟩
    refine (validAppIdChar_validChar (chars c member)).mpr ?_
    rintro rfl
    exact free member

theorem manageable_iff {id : String} (accepted : Manifest.validateId id = .ok ()) :
    Manageable id ↔ '.' ∉ id.toList ∧ id.utf8ByteSize ≤ 64 := by
  rw [← validateJailId_iff accepted]
  constructor
  · exact fun manageable => manageable.accepted
  · intro valid
    refine ⟨dotted_iff.mpr ((validateJailId_iff accepted).mp valid).1, valid, ?_⟩
    rintro policy actor w moments r w' c rfl exec
    exact served_of_accepted valid exec

/-- The jail a configuration describes first: the text before its first brace. -/
def firstJail (conf : List Char) : Option (List Char) :=
  match (run .between conf).1 with
  | .text name :: .openBrace :: _ => some name
  | _ => none

/-- Where the version holds no token of its own. -/
theorem firstJail_conf {manifest : Manifest} (accepted : Manifest.validateId manifest.id = .ok ())
    (quiet : lex .comment manifest.version.toList = some []) :
    firstJail (generateJailConf manifest (jailRoot manifest.id)).toList = some manifest.id.toList := by
  unfold firstJail
  rw [generateJailConf_parts, run_then (run_head accepted) (run_then (lex_comment_iff.mp quiet)
    (run_then (run_body accepted) rfl))]
  rfl

/-- The line that opens the jail, whatever the version. -/
theorem generateJailConf_opens (manifest : Manifest) (root : String) :
    ∃ head body, generateJailConf manifest root = head ++ "\n" ++ manifest.id ++ " \x7b\n" ++ body := by
  unfold generateJailConf
  refine ⟨"# Сгенерировано bsdos-pkgd для " ++ manifest.id ++ " v" ++ manifest.version, ?_, ?_⟩
  rotate_left
  · simp only [String.append_assoc]
    rfl

/-- An installation names the jail by the id of the package. Of the accepted ids, those that
name a jail of its own which every command reaches are the ones without a dot that have at
most 64 bytes. -/
theorem installed_manageable_iff {id : String} (accepted : Manifest.validateId id = .ok ()) :
    (∀ manifest : Manifest, manifest.id = id →
      (∃ head body, generateJailConf manifest (jailRoot id) = head ++ "\n" ++ id ++ " \x7b\n" ++ body) ∧
      (lex .comment manifest.version.toList = some [] →
        firstJail (generateJailConf manifest (jailRoot id)).toList = some id.toList)) ∧
    (Manageable id ↔ '.' ∉ id.toList ∧ id.utf8ByteSize ≤ 64) := by
  refine ⟨?_, manageable_iff accepted⟩
  rintro manifest rfl
  exact ⟨generateJailConf_opens manifest _, firstJail_conf accepted⟩

theorem installed_manageable_foot : Manifest.validateId "foot" = .ok () ∧ Manageable "foot" := by
  have accepted : Manifest.validateId "foot" = .ok () := by decide
  exact ⟨accepted, (installed_manageable_iff accepted).2.mpr ⟨by decide, by decide⟩⟩

/-- The id that the manifest's own tests accept names a jail inside another one, and every
command for it is refused. -/
theorem reverse_dns_unmanageable : Manifest.validateId "com.example.app-01" = .ok () ∧
    "com.example.app-01" = "com.example" ++ "." ++ "app-01" ∧
    Lifecycle.validateJailId "com.example.app-01" = .error "invalid char in jail_id: ." ∧
    ¬Manageable "com.example.app-01" := by
  have accepted : Manifest.validateId "com.example.app-01" = .ok () := by decide
  have dotted : '.' ∈ "com.example.app-01".toList := by decide
  refine ⟨accepted, by decide, by decide, ?_⟩
  intro manageable
  exact ((manageable_iff accepted).mp manageable).1 dotted

end Bsdos.Jpk
