import Bsdos.Pkgd.Understood
import Bsdos.Plist.Provision
import Bsdos.Toml.Text

namespace Bsdos.Run
open Plist Toml

def bestName (bundle : BundleInfo) : String :=
  if !bundle.displayName.isEmpty then bundle.displayName
  else if !bundle.bundleName.isEmpty then bundle.bundleName
  else bundle.bundleIdentifier

def jpkNetwork : JailNetwork → String
  | .inherit => "inet"
  | .disable => "none"

/-- A reverse-DNS identifier in lower case. -/
def sanitiseAppId (raw : String) : String :=
  let mapped := raw.toList.map fun c => if Pkgd.validAppIdChar c.toLower then c.toLower else '-'
  let separator (c : Char) : Bool := c = '.' || c = '-'
  let s := ((mapped.dropWhile separator).reverse.dropWhile separator).reverse
  if s.isEmpty then "org.bsdos.unknown-ipa"
  else if !s.contains '.' then "org.bsdos." ++ String.ofList s
  else String.ofList s

/-- A name for the jail from what follows the last dot. -/
def deriveJailName (appId : String) : String :=
  let last := (Text.split '.' appId).getLastD appId
  let cleaned := last.toList.filter Char.isAlphanum
  if cleaned.isEmpty then "appIpa" else "app_" ++ String.ofList cleaned

def escapeTomlBasic (s : String) : String := String.ofList (s.toList.flatMap fun c =>
  if c = '\\' then ['\\', '\\']
  else if c = '"' then ['\\', '"']
  else if c = '\n' then ['\\', 'n']
  else if c = '\r' then ['\\', 'r']
  else if c = '\t' then ['\\', 't']
  else if c.toNat < 0x20 then ['\\', 'u', '0', '0', upperHex (c.toNat / 16), upperHex (c.toNat % 16)]
  else [c])

def pushKvStr (out key value : String) : String := out ++ key ++ " = \"" ++ escapeTomlBasic value ++ "\"\n"

def pushKvBool (out key : String) (value : Bool) : String := out ++ key ++ (if value then " = true\n" else " = false\n")

def ipaToJpkDescriptor (bundle : BundleInfo) (policy : JailPolicy) : String :=
  let appId := sanitiseAppId bundle.bundleIdentifier
  let arch := "[\"aarch64\", \"amd64\"]"
  let jailName := deriveJailName appId
  let name := bestName bundle
  let out := "# Generated by bsdos-run from an unpacked IPA (Info.plist + entitlements).\n"
  let out := out ++ "# Conforms to SPEC_jpk_descriptor_v1 §3.\n\n"
  let out := out ++ "[meta]\n"
  let out := pushKvStr out "schema_version" "1.0"
  let out := pushKvStr out "id" appId
  let out := pushKvStr out "version" "0.1.0"
  let out := pushKvStr out "name" name
  let out := pushKvStr out "description" ("iOS app " ++ name ++ " repackaged for bsdOS")
  let out := pushKvStr out "homepage" ""
  let out := pushKvStr out "license" ""
  let out := out ++ "\n" ++ "[compatibility]\n"
  let out := pushKvStr out "bsdos_codename_min" "Woodpecker"
  let out := pushKvStr out "freebsd_min" "15.1"
  let out := out ++ "arch = " ++ arch ++ "\n" ++ "\n" ++ "[runtime]\n"
  let out := pushKvStr out "type" "jail"
  let out := pushKvStr out "jail_name" jailName
  let out := pushKvStr out "entrypoint" bundle.bundleExecutable
  let out := pushKvBool out "needs_wayland" true
  let out := pushKvBool out "needs_input" true
  let out := pushKvBool out "needs_gpu" policy.gpu
  let out := pushKvBool out "needs_audio" policy.audio
  let out := out ++ "\n" ++ "[permissions]\n"
  let out := pushKvStr out "network" (jpkNetwork policy.network)
  let out := pushKvStr out "filesystem" "ro"
  out ++ "\n"

/-- What a produced descriptor says. -/
def produced (bundle : BundleInfo) (policy : JailPolicy) : List Section :=
  let appId := sanitiseAppId bundle.bundleIdentifier
  let name := bestName bundle
  [("meta", [("schema_version", .string "1.0"), ("id", .string appId), ("version", .string "0.1.0"),
      ("name", .string name), ("description", .string ("iOS app " ++ name ++ " repackaged for bsdOS")),
      ("homepage", .string ""), ("license", .string "")]),
    ("compatibility", [("bsdos_codename_min", .string "Woodpecker"), ("freebsd_min", .string "15.1"),
      ("arch", .strings ["aarch64", "amd64"])]),
    ("runtime", [("type", .string "jail"), ("jail_name", .string (deriveJailName appId)),
      ("entrypoint", .string bundle.bundleExecutable), ("needs_wayland", .boolean true), ("needs_input", .boolean true),
      ("needs_gpu", .boolean policy.gpu), ("needs_audio", .boolean policy.audio)]),
    ("permissions", [("network", .string (jpkNetwork policy.network)), ("filesystem", .string "ro")])]

theorem pushKvStr_eq (out key value : String) :
    pushKvStr out key value = out ++ (key ++ " = " ++ (Scalar.string value).text ++ "\n") := by
  have quoted : " = \"" = " = " ++ "\"" ∧ "\"\n" = "\"" ++ "\n" := by decide
  rw [pushKvStr, quoted.1, quoted.2]
  simp only [Scalar.text, basicString, escapeTomlBasic, String.append_assoc]
  rfl

theorem pushKvBool_eq (out key : String) (value : Bool) :
    pushKvBool out key value = out ++ (key ++ " = " ++ (Scalar.boolean value).text ++ "\n") := by
  have line : (if value then " = true\n" else " = false\n") = " = " ++ (Scalar.boolean value).text ++ "\n" := by
    cases value <;> decide
  rw [pushKvBool, line]
  simp only [String.append_assoc]

theorem ipaToJpkDescriptor_text (bundle : BundleInfo) (policy : JailPolicy) : ipaToJpkDescriptor bundle policy =
    documentText ["Generated by bsdos-run from an unpacked IPA (Info.plist + entitlements).",
      "Conforms to SPEC_jpk_descriptor_v1 §3."] (produced bundle policy) := by
  have comments : "# Generated by bsdos-run from an unpacked IPA (Info.plist + entitlements).\n" =
        "# " ++ "Generated by bsdos-run from an unpacked IPA (Info.plist + entitlements)." ++ "\n" ∧
      "# Conforms to SPEC_jpk_descriptor_v1 §3.\n\n" = "# " ++ "Conforms to SPEC_jpk_descriptor_v1 §3." ++ "\n" ++ "\n" := by
    decide
  have headers : "[meta]\n" = "[" ++ "meta" ++ "]\n" ∧ "[compatibility]\n" = "[" ++ "compatibility" ++ "]\n" ∧
      "[runtime]\n" = "[" ++ "runtime" ++ "]\n" ∧ "[permissions]\n" = "[" ++ "permissions" ++ "]\n" := by
    decide
  have arch : "arch = " ++ "[\"aarch64\", \"amd64\"]" = "arch" ++ " = " ++ (Scalar.strings ["aarch64", "amd64"]).text := by
    decide
  have listed (out rest : String) : out ++ "arch = " ++ "[\"aarch64\", \"amd64\"]" ++ rest =
      out ++ ("arch" ++ " = " ++ (Scalar.strings ["aarch64", "amd64"]).text ++ rest) := by
    rw [← arch]
    simp only [String.append_assoc]
  simp only [ipaToJpkDescriptor, pushKvStr_eq, pushKvBool_eq]
  rw [comments.1, comments.2, headers.1, headers.2.1, headers.2.2.1, headers.2.2.2, listed]
  simp only [documentText, produced, Section.text, List.map_cons, List.map_nil, String.join_cons, String.join_nil,
    String.append_assoc, String.append_empty]

variable {toml : Library} {bundle : BundleInfo} {policy : JailPolicy}

theorem produced_parse {doc : Table} (conforming : toml.Conforming)
    (parsed : toml.parse (ipaToJpkDescriptor bundle policy) = some doc) : doc = document (produced bundle policy) := by
  rw [ipaToJpkDescriptor_text] at parsed
  refine conforming _ _ ?_ ?_ doc parsed
  · decide
  · simp only [produced, List.forall_mem_cons, List.not_mem_nil, false_imp_iff, implies_true, and_true]
    decide

/-- No descriptor made from an application says what the lifecycle daemon asks for. -/
theorem produced_refused (conforming : toml.Conforming) {path : String} {l : Lifecycle.JpkDescriptor} :
    Lifecycle.parseDescriptor toml path (.ok (ipaToJpkDescriptor bundle policy)) ≠ .ok l := by
  intro ok
  obtain ⟨doc, parsed, read⟩ := Pkgd.Schema.parseDescriptor_iff.mp ok
  cases produced_parse conforming parsed
  obtain ⟨-, -, permissions⟩ := Pkgd.Schema.lifecycle_readDescriptor_iff.mp read
  obtain ⟨v, found, read⟩ := Fields.required_iff.mp permissions
  have section_permissions : (document (produced bundle policy)).lookup "permissions" = some (.table
      [("network", .string (jpkNetwork policy.network)), ("filesystem", .string "ro")]) := by rfl
  cases Option.some.inj (found.symm.trans section_permissions)
  exact absurd read nofun

/-- Such a descriptor, made from an application and accepted for installation. The lifecycle daemon refuses it, like every
other one. -/
theorem produced_not_understood :
    let bundle : BundleInfo := ⟨"com.example.app", "App", "Short", "My App", true, "13.0", false, false⟩
    let policy : JailPolicy := ⟨.disable, false, false⟩
    let s := ipaToJpkDescriptor bundle policy
    let toml := Library.only s (document (produced bundle policy))
    ((∃ d, Pkgd.Schema.fromTomlStr toml s = .ok d ∧ d.validate = .ok ()) ∧
        ∀ path l, Lifecycle.parseDescriptor toml path (.ok s) ≠ .ok l) ∧
      ∀ (toml : Library) (bundle : BundleInfo) (policy : JailPolicy), toml.Conforming →
        ∀ path l, Lifecycle.parseDescriptor toml path (.ok (ipaToJpkDescriptor bundle policy)) ≠ .ok l := by
  intro bundle policy s toml
  refine ⟨?_, fun _ _ _ conforming _ _ => produced_refused conforming⟩
  have parsed : toml.parse s = some (document (produced bundle policy)) := Library.only_parse
  constructor
  · have accepted : (Pkgd.Schema.readDescriptor (document (produced bundle policy))).map (fun d => d.validate) =
        some (.ok ()) := by decide +kernel
    obtain ⟨d, read, valid⟩ := Option.map_eq_some_iff.mp accepted
    exact ⟨d, Results.mapError_ok.mpr (Library.read_iff.mpr ⟨_, parsed, read⟩), valid⟩
  · intro path l ok
    obtain ⟨doc, parsed', read⟩ := Pkgd.Schema.parseDescriptor_iff.mp ok
    cases Option.some.inj (parsed.symm.trans parsed')
    have refused : (Lifecycle.readDescriptor (document (produced bundle policy))).isNone := by decide
    rw [read] at refused
    exact absurd refused nofun

end Bsdos.Run
