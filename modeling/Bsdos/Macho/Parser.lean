import Bsdos.Octets.Slice
import Bsdos.Octets.Unicode
import Bsdos.Text

namespace Bsdos.Macho
open Octets

abbrev Bytes := List UInt8

def mhMagic : UInt32 := 0xfeedface

def mhCigam : UInt32 := 0xcefaedfe

def mhMagic64 : UInt32 := 0xfeedfacf

def mhCigam64 : UInt32 := 0xcffaedfe

def fatMagic : UInt32 := 0xcafebabe

def fatCigam : UInt32 := 0xbebafeca

def lcReqDyld : UInt32 := 0x80000000

def lcLoadDylib : UInt32 := 0x0000000c

def lcLoadWeakDylib : UInt32 := 0x00000018

def lcReexportDylib : UInt32 := 0x0000001f

def lcRpath : UInt32 := 0x0000001c

/-- What kind of dependency a path came from. -/
inductive DepKind
  | load
  | weak
  | reexport
  deriving DecidableEq, Repr

structure Dep where
  kind : DepKind
  path : String
  deriving DecidableEq, Repr

/-- Parsed view of a single thin image. -/
structure Slice where
  arch : String
  cputype : UInt32
  deps : List Dep
  rpaths : List String
  deriving DecidableEq, Repr

structure MachInfo where
  slices : List Slice
  deriving DecidableEq, Repr

inductive MachError
  | truncated (need has : Nat)
  | badMagic (magic : UInt32)
  | outOfBounds (what : String)
  | badLoadCommand (what : String)
  deriving DecidableEq, Repr

def orFail {α : Type} (e : MachError) : Option α → Except MachError α
  | some a => .ok a
  | none => .error e

def readU32 (buf : Bytes) (off : Nat) (be : Bool) (what : String) : Except MachError UInt32 := do
  let stop ← orFail (.outOfBounds what) (checkedAdd off 4)
  let bytes ← orFail (.outOfBounds what) (slice buf off stop)
  return UInt32.ofNat (if be then ofBe bytes else ofLe bytes)

def archName (cputype : UInt32) : String :=
  if cputype = 0x01000007 then "x86_64"
  else if cputype = 0x0100000c then "arm64"
  else if cputype = 0x00000007 then "i386"
  else if cputype = 0x0000000c then "arm"
  else "cputype:0x" ++ Text.hexEncode (toBe 4 cputype.toNat)

def readLcStr (buf : Bytes) (cmdOff cmdsize strOff : Nat) : Except MachError String := do
  if strOff < 8 ∨ strOff ≥ cmdsize then throw (.badLoadCommand "lc_str offset out of command")
  let absStart ← orFail (.badLoadCommand "lc_str start overflow") (checkedAdd cmdOff strOff)
  let absEnd ← orFail (.badLoadCommand "lc_str end overflow") (checkedAdd cmdOff cmdsize)
  let region ← orFail (.outOfBounds "lc_str region") (slice buf absStart absEnd)
  return fromUtf8Lossy (region.takeWhile (· ≠ 0))

/-- The dependency and the run path that a load command declares. -/
def readCommand (buf : Bytes) (be : Bool) (off cmdsize : Nat) (cmd : UInt32) :
    Except MachError (List Dep × List String) :=
  let id := cmd &&& ~~~lcReqDyld
  if id = lcLoadDylib ∨ id = lcLoadWeakDylib ∨ id = lcReexportDylib then do
    let kind := if id = lcLoadDylib then DepKind.load else if id = lcLoadWeakDylib then .weak else .reexport
    let nameOff ← readU32 buf (off + 8) be "dylib name_off"
    let path ← readLcStr buf off cmdsize nameOff.toNat
    return ([⟨kind, path⟩], [])
  else if id = lcRpath then do
    let pathOff ← readU32 buf (off + 8) be "rpath path_off"
    let path ← readLcStr buf off cmdsize pathOff.toNat
    return ([], [path])
  else return ([], [])

/-- The loop over the load commands, from the command at `off` on. -/
def readCommands (buf : Bytes) (be : Bool) (cmdEnd : Nat) :
    Nat → Nat → List Dep → List String → Except MachError (List Dep × List String)
  | 0, _, deps, rpaths => return (deps, rpaths)
  | ncmds + 1, off, deps, rpaths => do
    let hdrEnd ← orFail (.badLoadCommand "command header overflow") (checkedAdd off 8)
    if hdrEnd > cmdEnd then throw (.badLoadCommand "command header past region")
    let cmd ← readU32 buf off be "lc cmd"
    let cmdsize ← readU32 buf (off + 4) be "lc cmdsize"
    if cmdsize.toNat < 8 then throw (.badLoadCommand "cmdsize < 8")
    let next ← orFail (.badLoadCommand "cmdsize overflow") (checkedAdd off cmdsize.toNat)
    if next > cmdEnd then throw (.badLoadCommand "cmdsize past region")
    let (dep, rpath) ← readCommand buf be off cmdsize.toNat cmd
    readCommands buf be cmdEnd ncmds next (deps ++ dep) (rpaths ++ rpath)

/-- The byte order and the length of the header that a magic number stands for. -/
def headerOf (magic : UInt32) : Except MachError (Bool × Nat) :=
  if magic = mhMagic then .ok (false, 28)
  else if magic = mhMagic64 then .ok (false, 32)
  else if magic = mhCigam then .ok (true, 28)
  else if magic = mhCigam64 then .ok (true, 32)
  else .error (.badMagic magic)

def parseThin (buf : Bytes) (base : Nat) : Except MachError Slice := do
  let magic ← readU32 buf base false "thin magic"
  let (be, headerLen) ← headerOf magic
  let cputype ← readU32 buf (base + 4) be "cputype"
  let ncmds ← readU32 buf (base + 16) be "ncmds"
  let sizeofcmds ← readU32 buf (base + 20) be "sizeofcmds"
  let cmdStart ← orFail (.outOfBounds "cmd region start") (checkedAdd base headerLen)
  let cmdEnd ← orFail (.outOfBounds "cmd region end") (checkedAdd cmdStart sizeofcmds.toNat)
  if cmdEnd > buf.length then throw (.outOfBounds "cmd region")
  let (deps, rpaths) ← readCommands buf be cmdEnd ncmds.toNat cmdStart [] []
  return ⟨archName cputype, cputype, deps, rpaths⟩

/-- The loop over the fat_arch table, from entry `i` on. -/
def parseArchs (buf : Bytes) (be : Bool) : Nat → Nat → List Slice → Except MachError (List Slice)
  | 0, _, slices => return slices
  | left + 1, i, slices => do
    let base := 8 + i * 20
    let _cputype ← readU32 buf base be "fat cputype"
    let offset ← readU32 buf (base + 8) be "fat offset"
    let size ← readU32 buf (base + 12) be "fat size"
    let sliceEnd ← orFail (.outOfBounds "fat slice range") (checkedAdd offset.toNat size.toNat)
    if sliceEnd > buf.length then throw (.outOfBounds "fat slice range")
    let parsed ← parseThin buf offset.toNat
    parseArchs buf be left (i + 1) (slices ++ [parsed])

def parseFat (buf : Bytes) (swapped : Bool) : Except MachError MachInfo := do
  let be := !swapped
  let nfat ← readU32 buf 4 be "nfat_arch"
  let tableBytes ← orFail (.outOfBounds "fat_arch table") (checkedMul nfat.toNat 20)
  let tableEnd ← orFail (.outOfBounds "fat_arch table") (checkedAdd 8 tableBytes)
  if tableEnd > buf.length then throw (.outOfBounds "fat_arch table")
  let slices ← parseArchs buf be nfat.toNat 0 []
  return ⟨slices⟩

def parse (buf : Bytes) : Except MachError MachInfo := do
  let magic ← readU32 buf 0 false "magic"
  if magic = fatMagic ∨ magic = fatCigam then parseFat buf (magic = fatMagic)
  else if magic = mhMagic ∨ magic = mhMagic64 ∨ magic = mhCigam ∨ magic = mhCigam64 then
    let parsed ← parseThin buf 0
    return ⟨[parsed]⟩
  else throw (.badMagic magic)

end Bsdos.Macho
