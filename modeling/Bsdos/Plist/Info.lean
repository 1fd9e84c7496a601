import Bsdos.Plist.Binary
import Bsdos.Plist.Scan

namespace Bsdos.Plist
open Octets

/-- The metadata from Info.plist needed to launch the application and derive a jail policy. -/
structure BundleInfo where
  bundleIdentifier : String
  bundleExecutable : String
  bundleName : String
  displayName : String
  requiresArm64 : Bool
  minimumOsVersion : String
  networkClient : Bool
  networkServer : Bool
  deriving DecidableEq, Repr

def bundleInfoFromBplist (root : BPlistValue) : BundleInfo where
  bundleIdentifier := (root.getString "CFBundleIdentifier").getD "unknown.bundle"
  bundleExecutable := (root.getString "CFBundleExecutable").getD "AppBinary"
  bundleName := (root.getString "CFBundleName").getD ""
  displayName := (root.getString "CFBundleDisplayName").getD ""
  requiresArm64 := (root.getArrayStrings "UIRequiredDeviceCapabilities").any (· = "arm64")
  minimumOsVersion := (root.getString "MinimumOSVersion").getD ""
  networkClient := (root.getBool "com.apple.security.network.client").getD false
  networkServer := (root.getBool "com.apple.security.network.server").getD false

/-- A string of a plist text, or its default. -/
def stringOr (content : Chars) (key default : String) : String :=
  ((extractStringAfterKey content key.toList).map String.ofList).getD default

def parseInfoPlist (content : Chars) : BundleInfo where
  bundleIdentifier := stringOr content "CFBundleIdentifier" "unknown.bundle"
  bundleExecutable := stringOr content "CFBundleExecutable" "AppBinary"
  bundleName := stringOr content "CFBundleName" ""
  displayName := stringOr content "CFBundleDisplayName" ""
  requiresArm64 := (extractArrayAfterKey content "UIRequiredDeviceCapabilities".toList).any (· = "arm64".toList)
  minimumOsVersion := stringOr content "MinimumOSVersion" ""
  networkClient := (extractBoolAfterKey content "com.apple.security.network.client".toList).getD false
  networkServer := (extractBoolAfterKey content "com.apple.security.network.server".toList).getD false

def isBplist (bytes : Bytes) : Bool := bplistMagic <+: bytes

def parseInfoPlistBytes (bytes : Bytes) : Except RunError BundleInfo :=
  if isBplist bytes then do
    let root ← parseBplist bytes
    return bundleInfoFromBplist root
  else .ok (parseInfoPlist (fromUtf8Lossy bytes).toList)

end Bsdos.Plist
