import Mathlib.Algebra.Group.Nat.Defs
import Mathlib.Data.List.Basic

namespace Bsdos.Toml

inductive Value
  | string (text : String)
  | integer (n : Int)
  | float (x : Float)
  | boolean (b : Bool)
  | datetime (text : String)
  | array (items : List Value)
  | table (entries : List (String × Value))

abbrev Table := List (String × Value)

def Value.string? : Value → Option String
  | .string text => some text
  | _ => none

def Value.boolean? : Value → Option Bool
  | .boolean b => some b
  | _ => none

/-- An integer of an unsigned type that ends below a bound. -/
def Value.below? (bound : Nat) : Value → Option Nat
  | .integer n => if 0 ≤ n ∧ n < bound then some n.toNat else none
  | _ => none

def Value.u8? (v : Value) : Option UInt8 := (v.below? (2 ^ 8)).map UInt8.ofNat

def Value.u32? (v : Value) : Option UInt32 := (v.below? (2 ^ 32)).map UInt32.ofNat

def Value.u64? (v : Value) : Option UInt64 := (v.below? (2 ^ 64)).map UInt64.ofNat

def Value.strings? : Value → Option (List String)
  | .array items => items.mapM Value.string?
  | _ => none

theorem Value.string?_iff {v : Value} {text : String} : v.string? = some text ↔ v = .string text := by
  cases v <;> simp [string?]

theorem Value.below?_iff {v : Value} {bound n : Nat} : v.below? bound = some n ↔ v = .integer n ∧ n < bound := by
  cases v with
  | integer m =>
    simp only [below?, Option.ite_none_right_eq_some, Option.some.injEq, integer.injEq]
    omega
  | _ => simp [below?]

theorem Value.u8?_iff {v : Value} {n : UInt8} : v.u8? = some n ↔ v = .integer n.toNat := by
  simp only [u8?, Option.map_eq_some_iff, below?_iff]
  constructor
  · rintro ⟨m, ⟨rfl, below⟩, rfl⟩
    rw [UInt8.toNat_ofNat_of_lt' below]
  · exact fun same => ⟨n.toNat, ⟨same, n.toNat_lt⟩, UInt8.ofNat_toNat⟩

theorem Value.u32?_iff {v : Value} {n : UInt32} : v.u32? = some n ↔ v = .integer n.toNat := by
  simp only [u32?, Option.map_eq_some_iff, below?_iff]
  constructor
  · rintro ⟨m, ⟨rfl, below⟩, rfl⟩
    rw [UInt32.toNat_ofNat_of_lt' below]
  · exact fun same => ⟨n.toNat, ⟨same, n.toNat_lt⟩, UInt32.ofNat_toNat⟩

theorem Value.u64?_iff {v : Value} {n : UInt64} : v.u64? = some n ↔ v = .integer n.toNat := by
  simp only [u64?, Option.map_eq_some_iff, below?_iff]
  constructor
  · rintro ⟨m, ⟨rfl, below⟩, rfl⟩
    rw [UInt64.toNat_ofNat_of_lt' below]
  · exact fun same => ⟨n.toNat, ⟨same, n.toNat_lt⟩, UInt64.ofNat_toNat⟩

/-- What the fields of a structure are read from: entries by name, or items in the order of
the declaration. -/
inductive Fields
  | named (entries : Table)
  | listed (items : List Value)

/-- A date is an entry of a private name. -/
def Value.fields? : Value → Option Fields
  | .table entries => some (.named entries)
  | .array items => some (.listed items)
  | .datetime _ => some (.named [])
  | _ => none

namespace Fields
variable {α : Type}

def get? : Fields → Nat → String → Option Value
  | .named entries, _, name => entries.lookup name
  | .listed items, place, _ => items[place]?

/-- A field that has to be there. -/
def required (f : Fields) (read : Value → Option α) (place : Nat) (name : String) : Option α :=
  (f.get? place name).bind read

/-- A field with a default, for where it is not there. -/
def defaulted (f : Fields) (default : α) (read : Value → Option α) (place : Nat) (name : String) : Option α :=
  match f.get? place name with
  | some v => read v
  | none => some default

def optional (f : Fields) (read : Value → Option α) (place : Nat) (name : String) : Option (Option α) :=
  f.defaulted none (fun v => (read v).map some) place name

variable {f : Fields} {read : Value → Option α} {place : Nat} {name : String} {default a : α}

theorem required_iff : f.required read place name = some a ↔ ∃ v, f.get? place name = some v ∧ read v = some a := by
  rw [required, Option.bind_eq_some_iff]

theorem defaulted_iff : f.defaulted default read place name = some a ↔
    f.required read place name = some a ∨ f.get? place name = none ∧ a = default := by
  rw [required, defaulted]
  cases f.get? place name with
  | none => simp [eq_comm]
  | some v => simp

theorem optional_iff {a : Option α} : f.optional read place name = some a ↔
    (∃ x, a = some x ∧ f.required read place name = some x) ∨ f.get? place name = none ∧ a = none := by
  rw [required, optional, defaulted]
  cases f.get? place name with
  | none => simp [eq_comm]
  | some v => simp [Option.map_eq_some_iff, and_comm, eq_comm]

end Fields

/-- The reader of the format: the table of a text, if it is one, and what it says against a
text that is not of the wanted form. -/
structure Library where
  parse : String → Option Table
  complaint : String → String

def Library.read {α : Type} (toml : Library) (decode : Table → Option α) (s : String) : Except String α :=
  match (toml.parse s).bind decode with
  | some a => .ok a
  | none => .error (toml.complaint s)

theorem Library.read_iff {α : Type} {toml : Library} {decode : Table → Option α} {s : String} {a : α} :
    toml.read decode s = .ok a ↔ ∃ doc, toml.parse s = some doc ∧ decode doc = some a := by
  rw [read, ← Option.bind_eq_some_iff]
  cases (toml.parse s).bind decode with
  | none => exact ⟨nofun, nofun⟩
  | some b => rw [Except.ok.injEq, Option.some.injEq]

end Bsdos.Toml
