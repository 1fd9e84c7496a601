import Bsdos.Plist.Binary
import Mathlib.Logic.Relation

namespace Bsdos.Plist
open Octets

/-- How many objects a reader meets that follows every reference, keys included. -/
def BPlistValue.visits : BPlistValue → Nat
  | .array items => 1 + all items
  | .dict map => 1 + entries map
  | _ => 1
where
  all : List BPlistValue → Nat
    | [] => 0
    | item :: items => item.visits + all items
  entries : List (String × BPlistValue) → Nat
    | [] => 0
    | (_, value) :: rest => 1 + value.visits + entries rest

/-- Where the number of elements of an object is: in its marker, or in an integer of
`2 ^ pow` bytes after it. -/
inductive Count
  | inline
  | extended (pow : Nat)
  deriving DecidableEq

/-- An object as it is stored. Containers refer to their elements by object number. -/
inductive Stored
  | null
  | bool (b : Bool)
  | int (pow : Nat) (n : Int)
  | single (bits : UInt32)
  | double (bits : UInt64)
  | data (count : Count) (bytes : Bytes)
  | ascii (count : Count) (text : String)
  | unicode (count : Count) (text : String)
  | array (count : Count) (refs : List Nat)
  | dict (count : Count) (refs : List (Nat × Nat))

def Count.Fits : Count → Nat → Prop
  | .inline, n => n < 0xF
  | .extended pow, n => pow ≤ 4 ∧ n < 256 ^ 2 ^ pow

/-- Integers of fewer than eight bytes are unsigned. -/
def Stored.Fits (refSize : Nat) : Stored → Prop
  | .int pow n => pow ≤ 4 ∧ -2 ^ 63 ≤ n ∧ n < 2 ^ 63 ∧ (pow < 3 → 0 ≤ n ∧ n < 256 ^ 2 ^ pow)
  | .data count bytes => count.Fits bytes.length
  | .ascii count text => count.Fits text.toList.length ∧ ∀ c ∈ text.toList, c.toNat < 0x80
  | .unicode count text => count.Fits (utf16 text.toList).length
  | .array count refs => count.Fits refs.length ∧ ∀ ref ∈ refs, ref < 256 ^ refSize
  | .dict count refs => count.Fits refs.length ∧ ∀ ref ∈ refs, ref.1 < 256 ^ refSize ∧ ref.2 < 256 ^ refSize
  | _ => True

/-- The marker of an object with so many elements, and the number where it does not fit
into the marker. -/
def Count.encode (kind n : Nat) : Count → Bytes
  | .inline => [UInt8.ofNat (16 * kind + n)]
  | .extended pow => UInt8.ofNat (16 * kind + 0xF) :: UInt8.ofNat (0x10 + pow) :: toBe (2 ^ pow) n

def Stored.encode (refSize : Nat) : Stored → Bytes
  | .null => [0x00]
  | .bool b => [if b then 0x09 else 0x08]
  | .int pow n => UInt8.ofNat (0x10 + pow) :: toBe (2 ^ pow) (n % 256 ^ 2 ^ pow).toNat
  | .single bits => 0x22 :: toBe 4 bits.toNat
  | .double bits => 0x23 :: toBe 8 bits.toNat
  | .data count bytes => count.encode 0x4 bytes.length ++ bytes
  | .ascii count text =>
    count.encode 0x5 text.toList.length ++ text.toList.map fun c => UInt8.ofNat c.toNat
  | .unicode count text => count.encode 0x6 (utf16 text.toList).length ++ bytesBe (utf16 text.toList)
  | .array count refs => count.encode 0xA refs.length ++ refs.flatMap (toBe refSize)
  | .dict count refs =>
    count.encode 0xD refs.length ++ (refs.flatMap (fun ref => toBe refSize ref.1) ++
      refs.flatMap fun ref => toBe refSize ref.2)

/-- The value of an object, given the values of the objects it refers to. -/
def Stored.Means (child : Nat → BPlistValue → Prop) : Stored → BPlistValue → Prop
  | .null, tree => tree = .null
  | .bool b, tree => tree = .bool b
  | .int _ n, tree => tree = .int n
  | .single bits, tree => tree = .real (Float32.ofBits bits).toFloat
  | .double bits, tree => tree = .real (Float.ofBits bits)
  | .data _ bytes, tree => tree = .data bytes
  | .ascii _ text, tree => tree = .str text
  | .unicode _ text, tree => tree = .str text
  | .array _ refs, tree => ∃ items, List.Forall₂ child refs items ∧ tree = .array items
  | .dict _ refs, tree => ∃ entries : List (String × BPlistValue),
      List.Forall₂ (fun ref entry => child ref.1 (.str entry.1) ∧ child ref.2 entry.2) refs entries ∧
        (entries.map Prod.fst).Nodup ∧ tree = .dict (OrderedMap.ofEntries entries)

/-- The tree that unfolds from an object, nested at most so deep. -/
def Unfolds (objects : List Stored) : Nat → Nat → BPlistValue → Prop
  | 0, _, _ => False
  | depth + 1, i, tree => ∃ stored, objects[i]? = some stored ∧ stored.Means (Unfolds objects depth) tree

def Stored.refs : Stored → List Nat
  | .array _ refs => refs
  | .dict _ refs => refs.map Prod.fst ++ refs.map Prod.snd
  | _ => []

/-- One object refers to the other, directly or not. -/
def Reaches (objects : List Stored) : Nat → Nat → Prop :=
  Relation.ReflTransGen fun i j => ∃ stored, objects[i]? = some stored ∧ j ∈ stored.refs

/-- A number of sixteen bytes is one that its first eight bytes give. -/
def Count.Narrow : Count → Nat → Prop
  | .inline, _ => True
  | .extended pow, n => pow ≤ 3 ∨ n = 0

def Stored.Narrow : Stored → Prop
  | .int pow n => pow ≤ 3 ∨ n = 0 ∨ n = -1
  | .data count bytes => count.Narrow bytes.length
  | .ascii count text => count.Narrow text.toList.length
  | .unicode count text => count.Narrow (utf16 text.toList).length
  | .array count refs => count.Narrow refs.length
  | .dict count refs => count.Narrow refs.length
  | _ => True

/-- No object that is reached stores a number in sixteen bytes that its first eight do
not give. -/
def AllNarrow (objects : List Stored) (i : Nat) : Prop :=
  ∀ j, Reaches objects i j → ∀ stored, objects[j]? = some stored → stored.Narrow

/-- A binary property list: objects in any order and anywhere, their offsets, the trailer. -/
structure Encoding where
  objects : List Stored
  offsets : List Nat
  body : Bytes
  unused : Bytes
  offsetIntSize : Nat
  objectRefSize : Nat
  topObject : Nat
  offsetTableOffset : Nat
  depth : Nat
  tree : BPlistValue
  unused_length : unused.length = 6
  intSize : 1 ≤ offsetIntSize ∧ offsetIntSize ≤ 8
  refSize : 1 ≤ objectRefSize ∧ objectRefSize ≤ 8
  fits : ∀ stored ∈ objects, stored.Fits objectRefSize
  offsets_fit : ∀ off ∈ offsets, off < 256 ^ offsetIntSize
  small : body.length + 40 < 2 ^ 63
  placed : List.Forall₂ (fun stored off => Holds (bplistMagic ++ body) off (stored.encode objectRefSize)) objects offsets
  table : Holds (bplistMagic ++ body) offsetTableOffset (offsets.flatMap (toBe offsetIntSize))
  unfolds : Unfolds objects depth topObject tree

def Encoding.trailer (file : Encoding) : Bytes :=
  file.unused ++ (UInt8.ofNat file.offsetIntSize :: UInt8.ofNat file.objectRefSize ::
    (toBe 8 file.objects.length ++ (toBe 8 file.topObject ++ toBe 8 file.offsetTableOffset)))

def Encoding.bytes (file : Encoding) : Bytes := bplistMagic ++ file.body ++ file.trailer

def Encoding.Narrow (file : Encoding) : Prop := AllNarrow file.objects file.topObject

end Bsdos.Plist
