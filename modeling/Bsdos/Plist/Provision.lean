import Bsdos.Plist.Info

namespace Bsdos.Plist
open Octets Search

structure Entitlements where
  applicationIdentifier : String
  getTaskAllow : Bool
  network : Bool
  apsEnvironment : String
  deriving DecidableEq, Repr

def networkBoolKeys : List Chars :=
  ["com.apple.security.network.client".toList, "com.apple.security.network.server".toList]

def networkPresenceKeys : List Chars :=
  ["com.apple.developer.networking.wifi-info".toList, "com.apple.developer.networking.multipath".toList,
    "com.apple.developer.networking.networkextension".toList, "com.apple.developer.networking.vpn.api".toList,
    "com.apple.developer.associated-domains".toList]

def findSubslice (haystack needle : Bytes) : Option Nat :=
  if needle = [] ∨ needle.length > haystack.length then none else find needle haystack

/-- `<?xml` in bytes. -/
def xmlOpen : Bytes := [0x3C, 0x3F, 0x78, 0x6D, 0x6C]

/-- `</plist>` in bytes. -/
def plistClose : Bytes := [0x3C, 0x2F, 0x70, 0x6C, 0x69, 0x73, 0x74, 0x3E]

def extractEmbeddedPlist (bytes : Bytes) : Option String := do
  let start ← findSubslice bytes xmlOpen
  let closeRel ← findSubslice (bytes.drop start) plistClose
  fromUtf8 ((bytes.drop start).take (closeRel + plistClose.length))

def dictOpen : Chars := ['<', 'd', 'i', 'c', 't', '>']

def dictClose : Chars := ['<', '/', 'd', 'i', 'c', 't', '>']

/-- How far it is to the end of the tag that closes the dictionary. Every step reads a
character, so the length of the text is enough fuel. -/
def dictEnd : Nat → Nat → Chars → Option Nat
  | 0, _, _ => none
  | _ + 1, _, [] => none
  | fuel + 1, depth, c :: cs =>
    if dictOpen <+: c :: cs then (dictEnd fuel (depth + 1) ((c :: cs).drop dictOpen.length)).map (dictOpen.length + ·)
    else if dictClose <+: c :: cs then
      if depth - 1 = 0 then some dictClose.length
      else (dictEnd fuel (depth - 1) ((c :: cs).drop dictClose.length)).map (dictClose.length + ·)
    else (dictEnd fuel depth cs).map (1 + ·)

def isolateEntitlementsDict (xml : Chars) : Option Chars := do
  let keyPos ← find (keyTag "Entitlements".toList) xml
  let afterKey := xml.drop keyPos
  let dictRel ← find dictOpen afterKey
  let dict := afterKey.drop dictRel
  let body := dict.drop dictOpen.length
  let stop ← dictEnd body.length 1 body
  return dict.take (dictOpen.length + stop)

def entitlementsFromXml (xml : Chars) : Entitlements :=
  let scope := (isolateEntitlementsDict xml).getD xml
  { applicationIdentifier := stringOr scope "application-identifier" ""
    getTaskAllow := (extractBoolAfterKey scope "get-task-allow".toList).getD false
    network := (networkBoolKeys.any fun key => (extractBoolAfterKey scope key).getD false) ||
      networkPresenceKeys.any fun key => keyIsPresent scope key
    apsEnvironment := stringOr scope "aps-environment" "" }

def parseMobileprovision (bytes : Bytes) : Except RunError Entitlements := do
  let xml ← orFail "no XML plist found inside mobileprovision" (extractEmbeddedPlist bytes)
  return entitlementsFromXml xml.toList

inductive JailNetwork
  | inherit
  | disable
  deriving DecidableEq, Repr

structure JailPolicy where
  network : JailNetwork
  audio : Bool
  gpu : Bool
  deriving DecidableEq, Repr

def policyFromBundle (bundle : BundleInfo) : JailPolicy where
  network := if bundle.networkClient || bundle.networkServer then .inherit else .disable
  audio := false
  gpu := false

/-- The profile, where there is one, decides on the network. -/
def policyFromEntitlements (bundle : BundleInfo) (provision : Option Entitlements) : JailPolicy :=
  match provision with
  | none => policyFromBundle bundle
  | some ent => { policyFromBundle bundle with network := if ent.network then .inherit else .disable }

end Bsdos.Plist
