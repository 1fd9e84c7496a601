import Bsdos.Pkgd.Names
import Bsdos.Run.Named
import Bsdos.Toml.Written

namespace Bsdos.Run
open Plist Toml Grammar Pkgd

/-- A bundle identifier without what is no letter or digit at its ends. -/
def core (id : String) : List Char :=
  ((id.toList.dropWhile fun c => !c.isAlphanum).reverse.dropWhile fun c => !c.isAlphanum).reverse

/-- Where there is no dot inside, ten more characters are put before it. -/
def Fits (id : String) : Prop := (core id).length ≤ if '.' ∈ core id then 128 else 118

instance (id : String) : Decidable (Fits id) := inferInstanceAs (Decidable (_ ≤ _))

theorem sanitisedChar_valid (c : Char) : validAppIdChar (sanitisedChar c) = true ∧ (sanitisedChar c).utf8Size = 1 := by
  rcases sanitisedChar_cases c with ⟨letter, same⟩ | ⟨_, same⟩ | ⟨_, _, same⟩
  · obtain ⟨_, valid, _, _, _, single⟩ := isAlphanum_toLower letter
    rw [same]
    exact ⟨valid, single⟩
  · rw [same]
    decide
  · rw [same]
    decide

theorem separator_sanitisedChar (c : Char) : separator (sanitisedChar c) = !c.isAlphanum := by
  rcases sanitisedChar_cases c with ⟨letter, same⟩ | ⟨rfl, same⟩ | ⟨other, _, same⟩
  · obtain ⟨alphanum, _⟩ := isAlphanum_toLower letter
    rw [same, letter]
    unfold separator
    have kept {c' : Char} (refused : c'.isAlphanum = false) : c.toLower ≠ c' := by
      intro same
      rw [same, refused] at alphanum
      cases alphanum
    rw [decide_eq_false (kept (by decide)), decide_eq_false (kept (by decide))]
    rfl
  · rw [same]
    decide
  · rw [same, other]
    decide

theorem trimmed_core (id : String) : trimmed (id.toList.map sanitisedChar) = (core id).map sanitisedChar := by
  have separators : separator ∘ sanitisedChar = fun c => !c.isAlphanum := funext separator_sanitisedChar
  unfold trimmed core
  rw [List.dropWhile_map, separators, ← List.map_reverse, List.dropWhile_map, separators, ← List.map_reverse]

theorem dot_core (id : String) : '.' ∈ (core id).map sanitisedChar ↔ '.' ∈ core id := by
  rw [List.mem_map]
  constructor
  · rintro ⟨c, member, dot⟩
    rcases sanitisedChar_cases c with ⟨letter, same⟩ | ⟨rfl, _⟩ | ⟨_, _, same⟩
    · exact absurd (same.symm.trans dot) (isAlphanum_toLower letter).2.2.2.1
    · exact member
    · rw [same] at dot
      exact absurd dot (by decide)
  · exact fun member => ⟨'.', member, by decide⟩

/-- A sanitised id is made of valid characters of one byte each, with a dot among them. -/
theorem sanitiseAppId_spec (id : String) : ∃ cs, sanitiseAppId id = String.ofList cs ∧
    (∀ c ∈ cs, validAppIdChar c = true ∧ c.utf8Size = 1) ∧ '.' ∈ cs ∧ (cs.length ≤ 128 ↔ Fits id) := by
  have unfolded : sanitiseAppId id = if ((core id).map sanitisedChar).isEmpty then "org.bsdos.unknown-ipa"
      else if !((core id).map sanitisedChar).contains '.' then "org.bsdos." ++ String.ofList ((core id).map sanitisedChar)
      else String.ofList ((core id).map sanitisedChar) := by
    rw [← trimmed_core]
    rfl
  have valid : ∀ c ∈ (core id).map sanitisedChar, validAppIdChar c = true ∧ c.utf8Size = 1 := by
    intro c member
    obtain ⟨c, _, rfl⟩ := List.mem_map.mp member
    exact sanitisedChar_valid c
  rw [unfolded]
  by_cases none : ((core id).map sanitisedChar).isEmpty
  · have valid : "org.bsdos.unknown-ipa".toList.all (fun c => validAppIdChar c && c.utf8Size == 1) = true := by decide
    refine ⟨"org.bsdos.unknown-ipa".toList, ?_, fun c member => ?_, by decide, ?_⟩
    · rw [if_pos none, String.ofList_toList]
    · simpa using List.all_eq_true.mp valid c member
    · have nothing : core id = [] := by simpa using none
      have short : "org.bsdos.unknown-ipa".toList.length ≤ 128 := by decide
      exact iff_of_true short (by rw [Fits, nothing]; decide)
  · rw [if_neg none]
    by_cases dot : '.' ∈ core id
    · have contained : ¬(!((core id).map sanitisedChar).contains '.') = true := by
        simpa using (dot_core id).mpr dot
      refine ⟨_, if_neg contained, valid, (dot_core id).mpr dot, ?_⟩
      rw [List.length_map, Fits, if_pos dot]
    · have uncontained : (!((core id).map sanitisedChar).contains '.') = true := by
        simpa using fun inside => dot ((dot_core id).mp (List.mem_map.mpr inside))
      refine ⟨"org.bsdos.".toList ++ (core id).map sanitisedChar, ?_, ?_, ?_, ?_⟩
      · rw [if_pos uncontained]
        refine String.toList_inj.mp ?_
        simp only [String.toList_append, String.toList_ofList]
      · have front : "org.bsdos.".toList.all (fun c => validAppIdChar c && c.utf8Size == 1) = true := by decide
        intro c member
        rcases List.mem_append.mp member with inside | inside
        · simpa using List.all_eq_true.mp front c inside
        · exact valid c inside
      · exact List.mem_append_left _ (by decide)
      · have ten : "org.bsdos.".toList.length = 10 := by decide
        rw [List.length_append, ten, List.length_map, Fits, if_neg dot]
        omega

theorem validateAppId_sanitise_iff (id : String) : validateAppId (sanitiseAppId id) = .ok () ↔ Fits id := by
  obtain ⟨cs, same, valid, dot, fits⟩ := sanitiseAppId_spec id
  have size := utf8ByteSize_single fun c member => (valid c member).2
  rw [same, ← fits, validateAppId_ok_iff, size, String.toList_ofList]
  constructor
  · rintro ⟨-, short, -⟩
    exact short
  · intro short
    refine ⟨?_, short, fun c member => (valid c member).1, dot⟩
    rw [ne_eq, ← String.toList_inj, String.toList_ofList]
    exact List.ne_nil_of_mem dot

/-- The descriptor that a produced document says. -/
def decoded (bundle : BundleInfo) (policy : JailPolicy) : Schema.JpkDescriptor where
  header :=
    { schemaVersion := "1.0", id := sanitiseAppId bundle.bundleIdentifier, version := "0.1.0", name := bestName bundle,
      description := "iOS app " ++ bestName bundle ++ " repackaged for bsdOS", homepage := "", license := "",
      authors := [], maintainer := "" }
  compatibility :=
    { bsdosCodenameMin := "Woodpecker", arch := ["aarch64", "amd64"], bsdosCodenameMax := "", freebsdMin := "15.1",
      freebsdMax := "" }
  runtime :=
    { runtimeType := "jail", entrypoint := bundle.bundleExecutable,
      jailName := deriveJailName (sanitiseAppId bundle.bundleIdentifier), needsWayland := true, needsInput := true,
      needsGpu := policy.gpu, needsAudio := policy.audio, needsModem := false }
  permissions :=
    { network := jpkNetwork policy.network, filesystem := "ro", capabilities := [], maxOpenFiles := none,
      maxMemoryMb := none, maxCpuPercent := none, maxDiskMb := none, networkIngress := false, networkEgress := false }
  build := none
  update := none
  discovery := none

theorem readDescriptor_produced (bundle : BundleInfo) (policy : JailPolicy) :
    Schema.readDescriptor (document (produced bundle policy)) = some (decoded bundle policy) := by
  rfl

variable {toml : Library} {bundle : BundleInfo} {policy : JailPolicy}

/-- The checks left open are those of the id and of the entrypoint. -/
theorem decoded_validate_iff :
    (decoded bundle policy).validate = .ok () ↔ Fits bundle.bundleIdentifier ∧ bundle.bundleExecutable ≠ "" := by
  have semver : validateSemver "0.1.0" = .ok () := by decide +kernel
  have network : oneOf "permissions.network" (jpkNetwork policy.network) ["none", "inet", "inet6", "unix-only"] = .ok () := by
    cases policy.network <;> rfl
  have filesystem : oneOf "permissions.filesystem" "ro" ["ro", "rw", "private-tmpfs"] = .ok () := rfl
  rw [← validateAppId_sanitise_iff]
  unfold Schema.JpkDescriptor.validate Schema.JpkDescriptor.checked Pkgd.JpkDescriptor.validate decoded
  dsimp only
  rw [semver, network, filesystem]
  cases checked : validateAppId (sanitiseAppId bundle.bundleIdentifier) with
  | error e => exact ⟨nofun, fun both => nomatch both.1⟩
  | ok u =>
    by_cases empty : bundle.bundleExecutable = ""
    · rw [empty]
      exact ⟨nofun, fun both => absurd rfl both.2⟩
    · have filled : ¬bundle.bundleExecutable.isEmpty = true := fun none => empty (String.isEmpty_iff.mp none)
      refine iff_of_true ?_ ⟨rfl, empty⟩
      rw [if_neg filled]
      rfl

theorem clean_sanitise (id : String) : Clean (sanitiseAppId id) ∧ Clean (deriveJailName (sanitiseAppId id)) := by
  obtain ⟨cs, same, valid, _⟩ := sanitiseAppId_spec id
  constructor
  · refine @clean_of_all validAppIdChar _ (by decide) ?_
    rw [same, String.toList_ofList]
    exact fun c member => (valid c member).1
  · rw [deriveJailName_sanitise, clean_append]
    refine ⟨by decide, @clean_of_all Lifecycle.validChar _ (by decide) ?_⟩
    rw [String.toList_ofList]
    exact fun c member => (lastWord_letter c member).1

theorem written_produced (name : Clean (bestName bundle)) (executable : Clean bundle.bundleExecutable) :
    Written ["Generated by bsdos-run from an unpacked IPA (Info.plist + entitlements).",
      "Conforms to SPEC_jpk_descriptor_v1 §3."] (produced bundle policy) := by
  obtain ⟨id, jail⟩ := clean_sanitise bundle.bundleIdentifier
  have described : Clean ("iOS app " ++ bestName bundle ++ " repackaged for bsdOS") :=
    clean_append.mpr ⟨clean_append.mpr ⟨by decide, name⟩, by decide⟩
  have network : Clean (jpkNetwork policy.network) := by cases policy.network <;> decide
  have names : ["meta", "compatibility", "runtime", "permissions"].Nodup := by decide
  have comments : ∀ comment ∈ ["Generated by bsdos-run from an unpacked IPA (Info.plist + entitlements).",
      "Conforms to SPEC_jpk_descriptor_v1 §3."], comment.toList.all isText = true := by
    decide
  refine ⟨fun comment listed => List.all_eq_true.mp (comments comment listed), ?_, names⟩
  have header : Bare "meta" ∧ (∀ key ∈ ["schema_version", "id", "version", "name", "description", "homepage", "license"],
      Bare key) ∧ ["schema_version", "id", "version", "name", "description", "homepage", "license"].Nodup := by
    decide
  have compatibility : Bare "compatibility" ∧ (∀ key ∈ ["bsdos_codename_min", "freebsd_min", "arch"], Bare key) ∧
      ["bsdos_codename_min", "freebsd_min", "arch"].Nodup := by
    decide
  have runtime : Bare "runtime" ∧ (∀ key ∈ ["type", "jail_name", "entrypoint", "needs_wayland", "needs_input",
      "needs_gpu", "needs_audio"], Bare key) ∧ ["type", "jail_name", "entrypoint", "needs_wayland", "needs_input",
      "needs_gpu", "needs_audio"].Nodup := by
    decide
  have permissions : Bare "permissions" ∧ (∀ key ∈ ["network", "filesystem"], Bare key) ∧
      ["network", "filesystem"].Nodup := by
    decide
  unfold produced
  simp only [List.forall_mem_cons, List.not_mem_nil, false_imp_iff, implies_true, and_true]
  refine ⟨.of_keys rfl header ?_, .of_keys rfl compatibility ?_, .of_keys rfl runtime ?_, .of_keys rfl permissions ?_⟩
  all_goals simp only [List.forall_mem_cons, List.not_mem_nil, false_imp_iff, implies_true, and_true, Grammar.Plain]
  · exact ⟨by decide, id, by decide, name, described, by decide, by decide⟩
  · exact ⟨by decide, by decide, by decide, by decide⟩
  · exact ⟨by decide, jail, executable⟩
  · exact ⟨network, by decide⟩

/-- What a descriptor is made for: it is valid TOML, the package tool accepts it, and it says
what the bundle and the policy say. -/
structure Faithful (toml : Library) (bundle : BundleInfo) (policy : JailPolicy) : Prop where
  valid : ∃ doc, toml.parse (ipaToJpkDescriptor bundle policy) = some doc
  accepted : ∃ d, Schema.fromTomlStr toml (ipaToJpkDescriptor bundle policy) = .ok d ∧ d.validate = .ok () ∧
    d.header.name = bestName bundle ∧ d.runtime.entrypoint = bundle.bundleExecutable ∧
    d.runtime.needsGpu = policy.gpu ∧ d.runtime.needsAudio = policy.audio ∧
    (d.permissions.network = "inet" ↔ policy.network = .inherit)

theorem parse_produced (standard : toml.Standard) (name : Clean (bestName bundle))
    (executable : Clean bundle.bundleExecutable) :
    toml.parse (ipaToJpkDescriptor bundle policy) = some (document (produced bundle policy)) := by
  rw [ipaToJpkDescriptor_text]
  exact standard.reads _ _ (readDocument_written (written_produced name executable))

/-- A delete character in the name or in the executable makes the text no document. -/
theorem clean_of_parse (standard : toml.Standard) {doc : Table}
    (parsed : toml.parse (ipaToJpkDescriptor bundle policy) = some doc) :
    Clean (bestName bundle) ∧ Clean bundle.bundleExecutable := by
  have refused {key text : String} (listed : ∃ s ∈ produced bundle policy, (key, .string text) ∈ s.2) : Clean text := by
    obtain ⟨s, here, entry⟩ := listed
    intro c member delete
    have forbidden : isForbidden c = true := by
      simp only [isForbidden, delete, decide_true, Bool.or_true]
    rw [ipaToJpkDescriptor_text] at parsed
    rw [standard.refuses _ c (mem_documentText here entry member delete) forbidden] at parsed
    cases parsed
  constructor
  · exact @refused "name" _ ⟨_, List.mem_cons_self .., by simp⟩
  · exact @refused "entrypoint" _ ⟨_, List.mem_cons_of_mem _ (List.mem_cons_of_mem _ (List.mem_cons_self ..)), by simp⟩

/-- The descriptor of an application is faithful exactly if its name and its executable have no
delete character, it has an executable, and its id is not too long. -/
theorem descriptor_faithful_iff (standard : toml.Standard) (bundle : BundleInfo) (policy : JailPolicy) :
    Faithful toml bundle policy ↔ Clean (bestName bundle) ∧ Clean bundle.bundleExecutable ∧
      bundle.bundleExecutable ≠ "" ∧ Fits bundle.bundleIdentifier := by
  constructor
  · rintro ⟨⟨doc, parsed⟩, d, read, valid, _⟩
    obtain ⟨name, executable⟩ := clean_of_parse standard parsed
    obtain ⟨doc', parsed', decodes⟩ := Library.read_iff.mp (Results.mapError_ok.mp read)
    cases Option.some.inj (parsed'.symm.trans (parse_produced standard name executable))
    cases Option.some.inj (decodes.symm.trans (readDescriptor_produced bundle policy))
    obtain ⟨fits, filled⟩ := decoded_validate_iff.mp valid
    exact ⟨name, executable, filled, fits⟩
  · rintro ⟨name, executable, filled, fits⟩
    have parsed := @parse_produced toml bundle policy standard name executable
    refine ⟨⟨_, parsed⟩, decoded bundle policy, ?_, decoded_validate_iff.mpr ⟨fits, filled⟩, rfl, rfl, rfl, rfl, ?_⟩
    · exact Results.mapError_ok.mpr (Library.read_iff.mpr ⟨_, parsed, readDescriptor_produced bundle policy⟩)
    · show jpkNetwork policy.network = "inet" ↔ policy.network = .inherit
      cases policy.network <;> decide

theorem descriptor_faithful_app :
    Faithful Library.grammar ⟨"com.example.app", "App", "Short", "My \"App\"", true, "13.0", false, false⟩
      ⟨.inherit, false, true⟩ :=
  (descriptor_faithful_iff Library.grammar_standard _ _).mpr
    ⟨by decide, by decide, by decide, by decide⟩

/-- An application with a delete character in its name. -/
def deleteBundle : BundleInfo := ⟨"com.example.app", "App", "Short", "My\x7fApp", true, "13.0", false, false⟩

/-- Whatever reads TOML refuses its descriptor. -/
theorem delete_unreadable : (∀ toml : Library, toml.Standard → ∀ policy,
      toml.parse (ipaToJpkDescriptor deleteBundle policy) = none) ∧
    Library.grammar.Standard ∧ ¬Faithful Library.grammar deleteBundle ⟨.disable, false, false⟩ := by
  have unclean : ¬Clean (bestName deleteBundle) := by decide
  have refused (toml : Library) (standard : toml.Standard) (policy : JailPolicy) :
      toml.parse (ipaToJpkDescriptor deleteBundle policy) = none := by
    cases parsed : toml.parse (ipaToJpkDescriptor deleteBundle policy) with
    | none => rfl
    | some doc => exact absurd (clean_of_parse standard parsed).1 unclean
  refine ⟨refused, Library.grammar_standard, ?_⟩
  rintro ⟨⟨doc, parsed⟩, _⟩
  rw [refused _ Library.grammar_standard] at parsed
  cases parsed

end Bsdos.Run
