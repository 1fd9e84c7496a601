import Bsdos.Effects.Results
import Bsdos.Macho.RoundTrip
import Mathlib.Data.List.Forall2

namespace Bsdos.Macho
open Octets

/-- The number at `off`, in the byte order of the file. -/
def u32At (buf : Bytes) (be : Bool) (off : Nat) : UInt32 :=
  UInt32.ofNat (if be then ofBe (part buf off 4) else ofLe (part buf off 4))

/-- The commands that hold the offset of a string. -/
def Naming (cmd : UInt32) : Prop :=
  cmd &&& ~~~lcReqDyld ∈ [lcLoadDylib, lcLoadWeakDylib, lcReexportDylib, lcRpath]

instance (cmd : UInt32) : Decidable (Naming cmd) := inferInstanceAs (Decidable (_ ∈ _))

/-- Of the commands from `off` on, those that name something have the offset of the name before `stop`. -/
def NamesBefore (buf : Bytes) (be : Bool) (stop : Nat) : Nat → Nat → Prop
  | 0, _ => True
  | ncmds + 1, off =>
    (Naming (u32At buf be off) → off + 12 ≤ stop) ∧ NamesBefore buf be stop ncmds (off + (u32At buf be (off + 4)).toNat)

/-- The header at `base` and its region of load commands end before `base + size`. -/
def RegionWithin (buf : Bytes) (base size : Nat) : Prop :=
  ∀ be headerLen, headerOf (u32At buf false base) = .ok (be, headerLen) →
    headerLen + (u32At buf be (base + 20)).toNat ≤ size

/-- Also the offsets of names, which may be past the end of their own command. -/
def NamesWithin (buf : Bytes) (base size : Nat) : Prop :=
  ∀ be headerLen, headerOf (u32At buf false base) = .ok (be, headerLen) →
    NamesBefore buf be (base + size) (u32At buf be (base + 16)).toNat (base + headerLen)

/-- What a fat_arch entry says of where its slice is. -/
structure Extent where
  offset : Nat
  size : Nat
  deriving DecidableEq, Repr

def Extent.bytes (extent : Extent) (buf : Bytes) : Bytes := part buf extent.offset extent.size

/-- The byte order of a fat header and its number of slices. -/
def fatHeader (buf : Bytes) : Option (Bool × Nat) :=
  if u32At buf false 0 = fatMagic then some (false, (u32At buf false 4).toNat)
  else if u32At buf false 0 = fatCigam then some (true, (u32At buf true 4).toNat)
  else none

def extentAt (buf : Bytes) (be : Bool) (i : Nat) : Extent :=
  ⟨(u32At buf be (8 + i * 20 + 8)).toNat, (u32At buf be (8 + i * 20 + 12)).toNat⟩

def extents (buf : Bytes) (be : Bool) (nfat : Nat) : List Extent := (List.range nfat).map (extentAt buf be)

section Readers
variable {buf : Bytes} {be : Bool} {base size off : Nat} {what : String}

theorem u32At_lt (buf : Bytes) (be : Bool) (off : Nat) : (u32At buf be off).toNat < 2 ^ 32 := UInt32.toNat_lt _

theorem readU32_ok (inside : off + 4 ≤ buf.length) (small : off + 4 < 2 ^ 64) :
    readU32 buf off be what = .ok (u32At buf be off) := by
  have there : slice buf off (off + 4) = some (part buf off 4) := by
    rw [slice, if_pos ⟨by omega, inside⟩, Nat.add_sub_cancel_left, part]
  rw [readU32, checkedAdd_small small]
  simp only [orFail, there, bind, Except.bind, pure, Except.pure, u32At]

theorem readU32_part (inside : base + size ≤ buf.length) (fits : off + 4 ≤ size) (small : base + size < 2 ^ 63) :
    readU32 (part buf base size) off be what = readU32 buf (base + off) be what := by
  rw [readU32, readU32, checkedAdd_small (by omega), checkedAdd_small (by omega)]
  simp only [orFail, bind, Except.bind, slice_part inside fits, Nat.add_assoc]

theorem readU32_past (inside : base + size ≤ buf.length) (past : size < off + 4) (small : off + 4 < 2 ^ 64) :
    readU32 (part buf base size) off be what = .error (.outOfBounds what) := by
  rw [readU32, checkedAdd_small small]
  simp only [orFail, bind, Except.bind, slice_past_part inside past]

theorem u32At_part (fits : off + 4 ≤ size) :
    u32At (part buf base size) be off = u32At buf be (base + off) := by
  have same : part (part buf base size) off 4 = part buf (base + off) 4 := by
    simp only [part]
    rw [List.drop_take, List.take_take, List.drop_drop, Nat.min_eq_left (by omega)]
  rw [u32At, u32At, same]

theorem readLcStr_part {cmdsize strOff : Nat} (inside : base + size ≤ buf.length) (fits : off + cmdsize ≤ size)
    (small : base + size < 2 ^ 63) :
    readLcStr (part buf base size) off cmdsize strOff = readLcStr buf (base + off) cmdsize strOff := by
  unfold readLcStr
  by_cases bad : strOff < 8 ∨ strOff ≥ cmdsize
  · rw [if_pos bad, if_pos bad]
    rfl
  · rw [if_neg bad, if_neg bad, checkedAdd_small (by omega), checkedAdd_small (by omega),
      checkedAdd_small (by omega), checkedAdd_small (by omega)]
    simp only [orFail, bind, Except.bind, slice_part inside fits, Nat.add_assoc]

/-- A command whose name is out of reach is not read. -/
theorem readCommand_part {cmdsize : Nat} {cmd : UInt32} {names : List Dep × List String}
    (inside : base + size ≤ buf.length) (fits : off + cmdsize ≤ size) (header : 8 ≤ cmdsize) (small : base + size < 2 ^ 63) :
    readCommand (part buf base size) be off cmdsize cmd = .ok names ↔
      (Naming cmd → off + 12 ≤ size) ∧ readCommand buf be (base + off) cmdsize cmd = .ok names := by
  have naming : Naming cmd ↔ (cmd &&& ~~~lcReqDyld = lcLoadDylib ∨ cmd &&& ~~~lcReqDyld = lcLoadWeakDylib ∨
      cmd &&& ~~~lcReqDyld = lcReexportDylib) ∨ cmd &&& ~~~lcReqDyld = lcRpath := by
    simp only [Naming, List.mem_cons, List.not_mem_nil, or_false, or_assoc]
  unfold readCommand
  by_cases named : Naming cmd
  · by_cases reach : off + 12 ≤ size
    · have field (what : String) := @readU32_part buf be base size (off + 8) what inside (by omega) small
      simp only [field, readLcStr_part inside fits small, ← Nat.add_assoc, named, reach, true_imp_iff, true_and]
    · have field (what : String) := @readU32_past buf be base size (off + 8) what inside (by omega) (by omega)
      simp only [field, named, reach, true_imp_iff, false_and, iff_false]
      split
      · exact nofun
      · rw [if_pos ((naming.mp named).resolve_left ‹_›)]
        exact nofun
  · have neither := mt naming.mpr named
    rw [not_or] at neither
    simp only [if_neg neither.1, if_neg neither.2, named, false_imp_iff, true_and]

theorem orFail_ok {α : Type} {e : MachError} {o : Option α} {a : α} : orFail e o = .ok a ↔ o = some a := by
  cases o <;> simp [orFail]

theorem checkedAdd_some {a b c : Nat} : checkedAdd a b = some c ↔ a + b < 2 ^ 64 ∧ a + b = c := by
  simp [checkedAdd]

theorem checkedMul_some {a b c : Nat} : checkedMul a b = some c ↔ a * b < 2 ^ 64 ∧ a * b = c := by
  simp [checkedMul]

theorem readU32_iff {n : UInt32} :
    readU32 buf off be what = .ok n ↔ (off + 4 < 2 ^ 64 ∧ off + 4 ≤ buf.length) ∧ u32At buf be off = n := by
  by_cases small : off + 4 < 2 ^ 64
  · by_cases inside : off + 4 ≤ buf.length
    · simp only [readU32_ok inside small, Except.ok.injEq, small, inside, true_and]
    · have none : slice buf off (off + 4) = none := if_neg (by omega)
      simp [readU32, checkedAdd_small small, orFail, none, bind, Except.bind, inside]
  · have none : checkedAdd off 4 = none := if_neg small
    refine ⟨fun ok => ?_, fun ok => absurd ok.1.1 small⟩
    rw [readU32, none] at ok
    exact absurd ok (by simp [orFail, bind, Except.bind])

/-- The step of the loop over load commands. -/
theorem readCommands_succ {ncmds cmdEnd : Nat} {deps : List Dep} {rpaths : List String} {names : List Dep × List String}
    (inside : cmdEnd ≤ buf.length) (small : cmdEnd < 2 ^ 63) :
    readCommands buf be cmdEnd (ncmds + 1) off deps rpaths = .ok names ↔
      (off + 8 ≤ cmdEnd ∧ 8 ≤ (u32At buf be (off + 4)).toNat ∧ off + (u32At buf be (off + 4)).toNat ≤ cmdEnd) ∧
        ∃ found, readCommand buf be off (u32At buf be (off + 4)).toNat (u32At buf be off) = .ok found ∧
          readCommands buf be cmdEnd ncmds (off + (u32At buf be (off + 4)).toNat) (deps ++ found.1) (rpaths ++ found.2) =
            .ok names := by
  have size := u32At_lt buf be (off + 4)
  rw [readCommands]
  simp only [Results.bind_ok_iff, Results.guard_ok, orFail_ok, checkedAdd_some, readU32_iff]
  constructor
  · rintro ⟨_, ⟨_, rfl⟩, header, _, ⟨_, rfl⟩, _, ⟨_, rfl⟩, large, _, ⟨_, rfl⟩, ends, found, read, rest⟩
    exact ⟨⟨by omega, by omega, by omega⟩, found, read, rest⟩
  · rintro ⟨⟨header, large, ends⟩, found, read, rest⟩
    exact ⟨_, ⟨by omega, rfl⟩, by omega, _, ⟨by omega, rfl⟩, _, ⟨by omega, rfl⟩, by omega, _, ⟨by omega, rfl⟩, by omega,
      found, read, rest⟩

/-- The loop over load commands that all end within the part. -/
theorem readCommands_part {ncmds cmdEnd : Nat} {deps : List Dep} {rpaths : List String} {names : List Dep × List String}
    (inside : base + size ≤ buf.length) (fits : cmdEnd ≤ size) (small : base + size < 2 ^ 62) :
    readCommands (part buf base size) be cmdEnd ncmds off deps rpaths = .ok names ↔
      NamesBefore buf be (base + size) ncmds (base + off) ∧
        readCommands buf be (base + cmdEnd) ncmds (base + off) deps rpaths = .ok names := by
  induction ncmds generalizing off deps rpaths with
  | zero => simp only [readCommands, NamesBefore, true_and]
  | succ ncmds ih =>
    have whole := part_length inside
    rw [readCommands_succ (by omega) (by omega), readCommands_succ (by omega) (by omega), NamesBefore]
    by_cases header : off + 8 ≤ cmdEnd
    · rw [u32At_part (by omega), u32At_part (by omega), ← Nat.add_assoc]
      constructor
      · rintro ⟨⟨_, large, ends⟩, found, read, rest⟩
        have here := (readCommand_part inside (by omega) large (by omega)).mp read
        have later := ih.mp rest
        rw [← Nat.add_assoc] at later
        exact ⟨⟨fun naming => by have reach := here.1 naming; omega, later.1⟩, ⟨by omega, large, by omega⟩, found, here.2, later.2⟩
      · rintro ⟨⟨reach, before⟩, ⟨_, large, ends⟩, found, read, rest⟩
        have here : Naming (u32At buf be (base + off)) → off + 12 ≤ size := fun naming => by have reached := reach naming; omega
        rw [Nat.add_assoc base off] at before rest
        exact ⟨⟨header, large, by omega⟩, found, (readCommand_part inside (by omega) large (by omega)).mpr ⟨here, read⟩,
          ih.mpr ⟨before, rest⟩⟩
    · exact ⟨fun ok => absurd ok.1.1 header, fun ok => absurd ok.2.1.1 (by omega)⟩

theorem headerOf_length {magic : UInt32} {headerLen : Nat} (ok : headerOf magic = .ok (be, headerLen)) :
    28 ≤ headerLen ∧ headerLen ≤ 32 := by
  unfold headerOf at ok
  repeat (split at ok; · cases ok; decide)
  cases ok

/-- What an accepted thin image has to be. -/
theorem parseThin_iff {slice : Slice} (small : base < 2 ^ 62) :
    parseThin buf base = .ok slice ↔
      ∃ be headerLen, headerOf (u32At buf false base) = .ok (be, headerLen) ∧
        base + headerLen + (u32At buf be (base + 20)).toNat ≤ buf.length ∧
        ∃ names, readCommands buf be (base + headerLen + (u32At buf be (base + 20)).toNat) (u32At buf be (base + 16)).toNat
            (base + headerLen) [] [] = .ok names ∧
          slice = ⟨archName (u32At buf be (base + 4)), u32At buf be (base + 4), names.1, names.2⟩ := by
  unfold parseThin
  simp only [Results.bind_ok_iff, Results.guard_ok, orFail_ok, checkedAdd_some, readU32_iff, Prod.exists]
  constructor
  · rintro ⟨_, ⟨_, rfl⟩, be, headerLen, header, _, ⟨_, rfl⟩, _, ⟨_, rfl⟩, _, ⟨_, rfl⟩, _, ⟨_, rfl⟩, _, ⟨_, rfl⟩, inside,
      deps, rpaths, read, same⟩
    exact ⟨be, headerLen, header, by omega, deps, rpaths, read, (Except.ok.inj same).symm⟩
  · rintro ⟨be, headerLen, header, inside, deps, rpaths, read, rfl⟩
    have bounds := headerOf_length header
    have count := u32At_lt buf be (base + 20)
    exact ⟨_, ⟨⟨by omega, by omega⟩, rfl⟩, be, headerLen, header, _, ⟨⟨by omega, by omega⟩, rfl⟩, _, ⟨⟨by omega, by omega⟩, rfl⟩,
      _, ⟨⟨by omega, by omega⟩, rfl⟩, _, ⟨by omega, rfl⟩, _, ⟨by omega, rfl⟩, by omega, deps, rpaths, read, rfl⟩

/-- A slice is the one of its own bytes alone if its commands and names are within them. -/
theorem parseThin_part {slice : Slice} (inside : base + size ≤ buf.length) (small : base + size < 2 ^ 61) :
    parseThin (part buf base size) 0 = .ok slice ↔
      (RegionWithin buf base size ∧ NamesWithin buf base size) ∧ parseThin buf base = .ok slice := by
  have fields {off : Nat} {be : Bool} (fits : off + 4 ≤ size) : u32At (part buf base size) be off = u32At buf be (base + off) :=
    u32At_part fits
  rw [parseThin_iff (by omega), parseThin_iff (by omega), part_length inside]
  simp only [Nat.zero_add]
  constructor
  · rintro ⟨be, headerLen, header, region, names, read, rfl⟩
    have bounds := headerOf_length header
    rw [fields (by omega)] at header region
    rw [fields (by omega), fields (by omega)] at read
    rw [fields (by omega)]
    have parts := (readCommands_part inside region (by omega)).mp read
    have only {be' : Bool} {headerLen' : Nat} (other : headerOf (u32At buf false base) = .ok (be', headerLen')) :
        be = be' ∧ headerLen = headerLen' := Prod.mk.inj (Except.ok.inj (header.symm.trans other))
    refine ⟨⟨fun be' headerLen' other => ?_, fun be' headerLen' other => ?_⟩, be, headerLen, header, by omega, names, ?_, rfl⟩
    · obtain ⟨rfl, rfl⟩ := only other
      exact region
    · obtain ⟨rfl, rfl⟩ := only other
      exact parts.1
    · rw [Nat.add_assoc base]
      exact parts.2
  · rintro ⟨⟨within, reach⟩, be, headerLen, header, _, names, read, rfl⟩
    have bounds := headerOf_length header
    have region := within be headerLen header
    rw [Nat.add_assoc base headerLen] at read
    refine ⟨be, headerLen, ?_, ?_, names, ?_, ?_⟩
    · rw [fields (by omega)]
      exact header
    · rw [fields (by omega)]
      exact region
    · rw [fields (by omega), fields (by omega)]
      exact (readCommands_part inside region (by omega)).mpr ⟨reach be headerLen header, read⟩
    · rw [fields (by omega)]

/-- The loop over the fat_arch table, each of whose entries is in the file. -/
theorem parseArchs_extents {left i : Nat} {before slices : List Slice} (table : 8 + (i + left) * 20 ≤ buf.length)
    (few : i + left < 2 ^ 32) (ok : parseArchs buf be left i before = .ok slices) :
    ∃ parsed, slices = before ++ parsed ∧ List.Forall₂ (fun extent slice => extent.offset + extent.size ≤ buf.length ∧
      parseThin buf extent.offset = .ok slice) ((List.range' i left).map (extentAt buf be)) parsed := by
  induction left generalizing i before with
  | zero => exact ⟨[], by rw [← Except.ok.inj ok, List.append_nil], .nil⟩
  | succ left ih =>
    rw [parseArchs] at ok
    simp only [Results.bind_ok_iff, Results.guard_ok, orFail_ok, checkedAdd_some, readU32_iff] at ok
    obtain ⟨_, _, _, ⟨_, rfl⟩, _, ⟨_, rfl⟩, _, ⟨_, rfl⟩, inside, slice, thin, rest⟩ := ok
    obtain ⟨parsed, whole, each⟩ := ih (by omega) (by omega) rest
    refine ⟨slice :: parsed, by rw [whole, List.append_assoc, List.singleton_append], ?_⟩
    rw [List.range'_succ, List.map_cons]
    exact .cons ⟨Nat.not_lt.mp inside, thin⟩ each

end Readers

theorem parse_extents {buf : Bytes} {info : MachInfo} {be : Bool} {nfat : Nat} (parsed : parse buf = .ok info)
    (fat : fatHeader buf = some (be, nfat)) :
    List.Forall₂ (fun extent slice => extent.offset + extent.size ≤ buf.length ∧ parseThin buf extent.offset = .ok slice)
      (extents buf be nfat) info.slices := by
  have header : (u32At buf false 0 = fatMagic ∨ u32At buf false 0 = fatCigam) ∧
      be = (!decide (u32At buf false 0 = fatMagic)) ∧ nfat = (u32At buf be 4).toNat := by
    unfold fatHeader at fat
    split at fat
    · obtain ⟨rfl, rfl⟩ := Prod.mk.inj (Option.some.inj fat)
      rename_i plain
      exact ⟨.inl plain, by rw [decide_eq_true plain]; rfl, rfl⟩
    split at fat
    · obtain ⟨rfl, rfl⟩ := Prod.mk.inj (Option.some.inj fat)
      rename_i other swapped
      exact ⟨.inr swapped, by rw [decide_eq_false other]; rfl, rfl⟩
    · cases fat
  obtain ⟨magic, order, count⟩ := header
  have few := u32At_lt buf be 4
  rw [parse] at parsed
  obtain ⟨_, read, parsed⟩ := Results.bind_ok parsed
  obtain ⟨_, rfl⟩ := readU32_iff.mp read
  rw [if_pos magic, parseFat] at parsed
  simp only [Results.bind_ok_iff, Results.guard_ok, orFail_ok, checkedAdd_some, checkedMul_some, readU32_iff, ← order] at parsed
  obtain ⟨_, ⟨_, rfl⟩, _, ⟨_, rfl⟩, _, ⟨_, rfl⟩, table, slices, archs, same⟩ := parsed
  obtain ⟨found, whole, each⟩ := parseArchs_extents (by omega) (by omega) archs
  rw [← Except.ok.inj same, whole, List.nil_append, extents, count, List.range_eq_range']
  exact each

/-- Pairs of one relation are pairs of another when the first of each has a property. -/
theorem forall₂_same {α β : Type} {R S : α → β → Prop} {P : α → Prop} {as : List α} {bs : List β}
    (held : List.Forall₂ R as bs) (same : ∀ a b, R a b → (S a b ↔ P a)) : List.Forall₂ S as bs ↔ ∀ a ∈ as, P a := by
  induction held with
  | nil => simp
  | cons here _ ih => rw [List.forall₂_cons, List.forall_mem_cons, ih, same _ _ here]

/-- The slices of an accepted fat file are read from their own bytes, and there are some, when the header
counts at least one and each has its load commands and the offsets of their names within its size. -/
theorem fat_slices_own_bytes {buf : Bytes} {info : MachInfo} {be : Bool} {nfat : Nat} (parsed : parse buf = .ok info)
    (fat : fatHeader buf = some (be, nfat)) :
    (info.slices ≠ [] ∧
      List.Forall₂ (fun extent slice => parseThin (extent.bytes buf) 0 = .ok slice) (extents buf be nfat) info.slices ∧
      ∀ extent ∈ extents buf be nfat, RegionWithin buf extent.offset extent.size) ↔
    0 < nfat ∧ ∀ extent ∈ extents buf be nfat,
      RegionWithin buf extent.offset extent.size ∧ NamesWithin buf extent.offset extent.size := by
  have each := parse_extents parsed fat
  have count : (extents buf be nfat).length = nfat := by rw [extents, List.length_map, List.length_range]
  have slices : info.slices ≠ [] ↔ 0 < nfat := by rw [← List.length_pos_iff, ← each.length_eq, count]
  have own (extent : Extent) (slice : Slice) (here : extent ∈ extents buf be nfat ∧ extent.offset + extent.size ≤ buf.length ∧
      parseThin buf extent.offset = .ok slice) : parseThin (extent.bytes buf) 0 = .ok slice ↔
        RegionWithin buf extent.offset extent.size ∧ NamesWithin buf extent.offset extent.size := by
    obtain ⟨i, -, rfl⟩ := List.mem_map.mp here.1
    have offset := u32At_lt buf be (8 + i * 20 + 8)
    have size := u32At_lt buf be (8 + i * 20 + 12)
    rw [Extent.bytes, parseThin_part here.2.1 (by simp only [extentAt]; omega), and_iff_left here.2.2]
  rw [slices, forall₂_same ((List.forall₂_and_left _ _).mpr ⟨fun _ member => member, each⟩) own]
  exact ⟨fun held => ⟨held.1, held.2.1⟩, fun held => ⟨held.1, held.2, fun extent member => (held.2 extent member).1⟩⟩

/-- A fat file with one slice, an image without load commands, and this size for it. -/
def shortFat (size : UInt32) : Bytes :=
  toBe 4 fatMagic.toNat ++ (toBe 4 1 ++ FatArch.encode true ⟨0x0100000c, 0, 28, size, 0⟩) ++
    (toLe 4 mhMagic.toNat ++ toLe 4 12 ++ List.replicate 20 0)

/-- A fat file with one slice, an image that names one library. -/
def libraryFat : Bytes :=
  toBe 4 fatMagic.toNat ++ (toBe 4 1 ++ FatArch.encode true ⟨0x0100000c, 0, 28, 60, 0⟩) ++
    (toLe 4 mhMagic.toNat ++ toLe 4 12 ++ List.replicate 8 0 ++ toLe 4 1 ++ toLe 4 32 ++ List.replicate 4 0) ++
    (toLe 4 lcLoadDylib.toNat ++ toLe 4 32 ++ toLe 4 24 ++ List.replicate 12 0 ++ [0x6c, 0x69, 0x62, 0x41, 0, 0, 0, 0])

theorem fat_slices_own_bytes_whole :
    fatHeader libraryFat = some (true, 1) ∧ (∃ info, parse libraryFat = .ok info ∧
      info.slices = [⟨"arm", 12, [⟨.load, "libA"⟩], []⟩] ∧
      List.Forall₂ (fun extent slice => parseThin (extent.bytes libraryFat) 0 = .ok slice)
        (extents libraryFat true 1) info.slices) := by
  have fat : fatHeader libraryFat = some (true, 1) := by decide
  have parsed : parse libraryFat = .ok ⟨[⟨"arm", 12, [⟨.load, "libA"⟩], []⟩]⟩ := by decide
  have only : extents libraryFat true 1 = [⟨28, 60⟩] := by decide
  have header : headerOf (u32At libraryFat false 28) = .ok (false, 28) := by decide
  have commands : (u32At libraryFat false (28 + 16)).toNat = 1 := by decide
  have held : ∀ extent ∈ extents libraryFat true 1,
      RegionWithin libraryFat extent.offset extent.size ∧ NamesWithin libraryFat extent.offset extent.size := by
    intro extent member
    rw [only] at member
    obtain rfl := List.mem_singleton.mp member
    refine ⟨fun be headerLen other => ?_, fun be headerLen other => ?_⟩
    · obtain ⟨rfl, rfl⟩ := Prod.mk.inj (Except.ok.inj (header.symm.trans other))
      decide
    · obtain ⟨rfl, rfl⟩ := Prod.mk.inj (Except.ok.inj (header.symm.trans other))
      rw [commands]
      exact ⟨fun _ => by decide, trivial⟩
  have own := (fat_slices_own_bytes parsed fat).mpr ⟨by decide, held⟩
  exact ⟨fat, _, parsed, rfl, own.2.1⟩

theorem short_slice_accepted :
    fatHeader (toBe 4 fatMagic.toNat ++ toBe 4 0) = some (true, 0) ∧
    parse (toBe 4 fatMagic.toNat ++ toBe 4 0) = .ok ⟨[]⟩ ∧
    fatHeader (shortFat 24) = some (true, 1) ∧ extents (shortFat 24) true 1 = [⟨28, 24⟩] ∧
    parse (shortFat 24) = .ok ⟨[⟨"arm", 12, [], []⟩]⟩ ∧
    parseThin ((⟨28, 24⟩ : Extent).bytes (shortFat 24)) 0 = .error (.outOfBounds "cmd region") := by
  decide

end Bsdos.Macho
