import Bsdos.Effects.Machine
import Bsdos.Macho.Slices

namespace Bsdos.Macho.Bounded
open Octets Machine Relation

/-- The widths of a word. -/
inductive Usize
  | u32
  | u64
  deriving DecidableEq, Repr

def Usize.bits : Usize → Nat
  | .u32 => 32
  | .u64 => 64

/-- The size of so many words, in bytes. -/
def Usize.words (usize : Usize) (n : Nat) : Nat := n * (usize.bits / 8)

def fail {α : Type} (e : MachError) : Guarded MachError α := .error (.refused e)

def readU32 (usize : Usize) (buf : Bytes) (off : Nat) (be : Bool) (what : String) : Guarded MachError UInt32 := do
  let stop ← refuse (orFail (.outOfBounds what) (checkedAddOn usize.bits off 4))
  let bytes ← refuse (orFail (.outOfBounds what) (slice buf off stop))
  let arr := [← index bytes 0, ← index bytes 1, ← index bytes 2, ← index bytes 3]
  return UInt32.ofNat (if be then ofBe arr else ofLe arr)

/-- The bytes of a string that starts with `len` and is doubled until it holds `size`. -/
def doubledTo (len size : Nat) : Nat := if size ≤ len then len else if size ≤ 2 * len then 2 * len else 4 * len

/-- `String::from_utf8_lossy(bytes).into_owned()`: three bytes replace what is malformed. -/
def lossy (usize : Usize) (bytes : Bytes) : Guarded MachError String :=
  demand (doubledTo bytes.length (fromUtf8Lossy bytes).utf8ByteSize ≤ isizeMax usize.bits) .capacity (fromUtf8Lossy bytes)

/-- What runs to the first NUL, or to the end. -/
def upToNul (region : Bytes) : Guarded MachError Bytes :=
  match region.findIdx? (· = 0) with
  | some n => range region 0 n
  | none => .ok region

def readLcStr (usize : Usize) (buf : Bytes) (cmdOff cmdsize strOff : Nat) : Guarded MachError String := do
  if strOff < 8 ∨ strOff ≥ cmdsize then fail (.badLoadCommand "lc_str offset out of command")
  let absStart ← refuse (orFail (.badLoadCommand "lc_str start overflow") (checkedAddOn usize.bits cmdOff strOff))
  let absEnd ← refuse (orFail (.badLoadCommand "lc_str end overflow") (checkedAddOn usize.bits cmdOff cmdsize))
  let region ← refuse (orFail (.outOfBounds "lc_str region") (slice buf absStart absEnd))
  lossy usize (← upToNul region)

/-- The dependency and the run path that a load command declares. -/
def readCommand (usize : Usize) (buf : Bytes) (be : Bool) (off cmdsize : Nat) (cmd : UInt32) :
    Guarded MachError (List Dep × List String) :=
  let id := cmd &&& ~~~lcReqDyld
  if id = lcLoadDylib ∨ id = lcLoadWeakDylib ∨ id = lcReexportDylib then do
    let kind := if id = lcLoadDylib then DepKind.load else if id = lcLoadWeakDylib then .weak else .reexport
    let nameOff ← readU32 usize buf (← addOn usize.bits off 8) be "dylib name_off"
    let path ← readLcStr usize buf off cmdsize nameOff.toNat
    return ([⟨kind, path⟩], [])
  else if id = lcRpath then do
    let pathOff ← readU32 usize buf (← addOn usize.bits off 8) be "rpath path_off"
    let path ← readLcStr usize buf off cmdsize pathOff.toNat
    return ([], [path])
  else return ([], [])

/-- The variables of the loop over the load commands. -/
structure Cursor where
  off : Nat
  deps : List Dep
  rpaths : List String

/-- One load command. A `Dep` has four words, a `String` three. -/
def turn (usize : Usize) (buf : Bytes) (be : Bool) (cmdEnd : Nat) (cursor : Cursor) : Guarded MachError Cursor := do
  let hdrEnd ← refuse (orFail (.badLoadCommand "command header overflow") (checkedAddOn usize.bits cursor.off 8))
  if hdrEnd > cmdEnd then fail (.badLoadCommand "command header past region")
  let cmd ← readU32 usize buf cursor.off be "lc cmd"
  let cmdsize ← readU32 usize buf (← addOn usize.bits cursor.off 4) be "lc cmdsize"
  if cmdsize.toNat < 8 then fail (.badLoadCommand "cmdsize < 8")
  let next ← refuse (orFail (.badLoadCommand "cmdsize overflow") (checkedAddOn usize.bits cursor.off cmdsize.toNat))
  if next > cmdEnd then fail (.badLoadCommand "cmdsize past region")
  let (dep, rpath) ← readCommand usize buf be cursor.off cmdsize.toNat cmd
  let deps ← dep.foldlM (push usize.bits (usize.words 4)) cursor.deps
  let rpaths ← rpath.foldlM (push usize.bits (usize.words 3)) cursor.rpaths
  return { off := next, deps := deps, rpaths := rpaths }

def readCommands (usize : Usize) (buf : Bytes) (be : Bool) (cmdEnd : Nat) : Nat → Cursor → Guarded MachError Cursor
  | 0, cursor => return cursor
  | ncmds + 1, cursor => do readCommands usize buf be cmdEnd ncmds (← turn usize buf be cmdEnd cursor)

/-- How many load commands are read before the loop finishes or fails. -/
def completed (usize : Usize) (buf : Bytes) (be : Bool) (cmdEnd : Nat) : Nat → Cursor → Nat
  | 0, _ => 0
  | ncmds + 1, cursor =>
    match turn usize buf be cmdEnd cursor with
    | .ok cursor' => 1 + completed usize buf be cmdEnd ncmds cursor'
    | .error _ => 0

/-- The header of an image and the region of its load commands. -/
structure Region where
  be : Bool
  cputype : UInt32
  ncmds : Nat
  sizeofcmds : Nat
  cmdStart : Nat
  cmdEnd : Nat

def readRegion (usize : Usize) (buf : Bytes) (base : Nat) : Guarded MachError Region := do
  let magic ← readU32 usize buf base false "thin magic"
  let (be, headerLen) ← refuse (headerOf magic)
  let cputype ← readU32 usize buf (← addOn usize.bits base 4) be "cputype"
  let ncmds ← readU32 usize buf (← addOn usize.bits base 16) be "ncmds"
  let sizeofcmds ← readU32 usize buf (← addOn usize.bits base 20) be "sizeofcmds"
  let cmdStart ← refuse (orFail (.outOfBounds "cmd region start") (checkedAddOn usize.bits base headerLen))
  let cmdEnd ← refuse (orFail (.outOfBounds "cmd region end") (checkedAddOn usize.bits cmdStart sizeofcmds.toNat))
  if cmdEnd > buf.length then fail (.outOfBounds "cmd region")
  return { be := be, cputype := cputype, ncmds := ncmds.toNat, sizeofcmds := sizeofcmds.toNat, cmdStart := cmdStart,
           cmdEnd := cmdEnd }

/-- Where the loop over the load commands starts. -/
def Region.first (region : Region) : Cursor := { off := region.cmdStart, deps := [], rpaths := [] }

def parseThin (usize : Usize) (buf : Bytes) (base : Nat) : Guarded MachError Slice := do
  let region ← readRegion usize buf base
  let last ← readCommands usize buf region.be region.cmdEnd region.ncmds region.first
  return ⟨archName region.cputype, region.cputype, last.deps, last.rpaths⟩

/-- The loop over the fat_arch table, from entry `i` on. -/
def parseArchs (usize : Usize) (buf : Bytes) (be : Bool) : Nat → Nat → List Slice → Guarded MachError (List Slice)
  | 0, _, slices => return slices
  | left + 1, i, slices => do
    let base ← addOn usize.bits 8 (← mulOn usize.bits i 20)
    let _cputype ← readU32 usize buf base be "fat cputype"
    let offset ← readU32 usize buf (← addOn usize.bits base 8) be "fat offset"
    let size ← readU32 usize buf (← addOn usize.bits base 12) be "fat size"
    let sliceEnd ← refuse (orFail (.outOfBounds "fat slice range") (checkedAddOn usize.bits offset.toNat size.toNat))
    if sliceEnd > buf.length then fail (.outOfBounds "fat slice range")
    let parsed ← parseThin usize buf offset.toNat
    parseArchs usize buf be left (i + 1) (slices ++ [parsed])

/-- A `Slice` has ten words: three of three, and the CPU type. -/
def parseFat (usize : Usize) (buf : Bytes) (swapped : Bool) : Guarded MachError MachInfo := do
  let be := !swapped
  let nfat ← readU32 usize buf 4 be "nfat_arch"
  let tableBytes ← refuse (orFail (.outOfBounds "fat_arch table") (checkedMulOn usize.bits nfat.toNat 20))
  let tableEnd ← refuse (orFail (.outOfBounds "fat_arch table") (checkedAddOn usize.bits 8 tableBytes))
  if tableEnd > buf.length then fail (.outOfBounds "fat_arch table")
  withCapacity (capacityOf usize.bits (usize.words 10)) nfat.toNat
  let slices ← parseArchs usize buf be nfat.toNat 0 []
  return ⟨slices⟩

/-- The parser with every step that can fault, on either width. -/
def parse (usize : Usize) (buf : Bytes) : Guarded MachError MachInfo := do
  let magic ← readU32 usize buf 0 false "magic"
  if magic = fatMagic ∨ magic = fatCigam then parseFat usize buf (magic = fatMagic)
  else if magic = mhMagic ∨ magic = mhMagic64 ∨ magic = mhCigam ∨ magic = mhCigam64 then
    let parsed ← parseThin usize buf 0
    return ⟨[parsed]⟩
  else fail (.badMagic magic)

section Follows
variable {usize : Usize} {buf : Bytes} {be : Bool} {off : Nat} {what : String}

theorem Usize.bits_pos (usize : Usize) : 2 ^ 31 ≤ 2 ^ (usize.bits - 1) ∧ 2 ^ (usize.bits - 1) * 2 = 2 ^ usize.bits := by
  cases usize <;> decide

theorem checkedAddOn_follows (usize : Usize) (e : MachError) (a b : Nat) :
    Follows (usize = .u64) (refuse (orFail e (checkedAddOn usize.bits a b))) (orFail e (checkedAdd a b)) := by
  refine .refuse fun wide => ?_
  subst wide
  rfl

theorem checkedAddOn_ok {e : MachError} {a b c : Nat}
    (summed : (refuse (orFail e (checkedAddOn usize.bits a b)) : Guarded MachError Nat) = .ok c) :
    a + b < 2 ^ usize.bits ∧ c = a + b := by
  rw [checkedAddOn] at summed
  split at summed
  · rename_i small
    cases summed
    exact ⟨small, rfl⟩
  · cases summed

theorem slice_ok {e : MachError} {stop : Nat} {bytes : Bytes}
    (read : (refuse (orFail e (slice buf off stop)) : Guarded MachError Bytes) = .ok bytes) :
    off ≤ stop ∧ stop ≤ buf.length ∧ bytes.length = stop - off := by
  rw [slice] at read
  split at read
  · rename_i inside
    cases read
    refine ⟨inside.1, inside.2, ?_⟩
    rw [List.length_take, List.length_drop]
    omega
  · cases read

/-- Four bytes are read one by one. -/
theorem indexed_four {bytes : Bytes} (four : bytes.length = 4) : (do
    let arr := [← index bytes 0, ← index bytes 1, ← index bytes 2, ← index bytes 3]
    return UInt32.ofNat (if be then ofBe arr else ofLe arr) : Guarded MachError UInt32) =
      .ok (UInt32.ofNat (if be then ofBe bytes else ofLe bytes)) := by
  match bytes, four with
  | [a, b, c, d], _ => rfl

theorem readU32_follows (usize : Usize) (buf : Bytes) (off : Nat) (be : Bool) (what : String) :
    Follows (usize = .u64) (readU32 usize buf off be what) (Macho.readU32 buf off be what) := by
  rw [readU32, Macho.readU32]
  refine (checkedAddOn_follows usize _ off 4).bind fun stop summed => ?_
  refine (Follows.refuse fun _ => rfl).bind fun bytes read => ?_
  obtain ⟨-, rfl⟩ := checkedAddOn_ok summed
  rw [indexed_four (by rw [(slice_ok read).2.2]; omega)]
  exact .pure

theorem upToNul_ok (region : Bytes) : upToNul region = .ok (region.takeWhile (· ≠ 0)) := by
  have ends : region.takeWhile (· ≠ 0) = region.take (region.findIdx (· = 0)) := by
    rw [List.takeWhile_eq_take_findIdx_not]
    simp only [ne_eq, decide_not, Bool.not_not]
  rw [upToNul, ends]
  cases found : region.findIdx? (· = 0) with
  | none => rw [List.findIdx?_eq_none_iff_findIdx_eq.mp found, List.take_length]
  | some n =>
    obtain ⟨inside, same⟩ := List.findIdx?_eq_some_iff_findIdx_eq.mp found
    dsimp only
    rw [range_inside (Nat.zero_le n) (Nat.le_of_lt inside), same, List.drop_zero, Nat.sub_zero]

theorem readLcStr_follows (usize : Usize) (buf : Bytes) (cmdOff cmdsize strOff : Nat) :
    Follows (usize = .u64) (readLcStr usize buf cmdOff cmdsize strOff) (Macho.readLcStr buf cmdOff cmdsize strOff) := by
  rw [readLcStr, Macho.readLcStr]
  by_cases out : strOff < 8 ∨ strOff ≥ cmdsize
  · rw [if_pos out, if_pos out]
    exact .stop
  rw [if_neg out, if_neg out]
  refine (checkedAddOn_follows usize _ _ _).bind fun absStart _ => (checkedAddOn_follows usize _ _ _).bind fun absEnd _ => ?_
  refine (Follows.refuse fun _ => rfl).bind fun region read => ?_
  rw [upToNul_ok, ok_bind]
  exact .demand

theorem readCommand_follows (usize : Usize) (buf : Bytes) (be : Bool) (cmdsize : Nat) (cmd : UInt32)
    (small : off + 8 < 2 ^ usize.bits) :
    Follows (usize = .u64) (readCommand usize buf be off cmdsize cmd) (Macho.readCommand buf be off cmdsize cmd) := by
  rw [readCommand, Macho.readCommand, addOn_small small]
  dsimp only
  split
  · refine (readU32_follows usize buf (off + 8) be _).bind fun nameOff _ => ?_
    exact (readLcStr_follows usize buf off cmdsize nameOff.toNat).bind fun path _ => .pure
  split
  · refine (readU32_follows usize buf (off + 8) be _).bind fun pathOff _ => ?_
    exact (readLcStr_follows usize buf off cmdsize pathOff.toNat).bind fun path _ => .pure
  · exact .pure

variable {cmdEnd : Nat} {cursor cursor' : Cursor}

/-- A load command that is read is at least its header, and within the region. -/
theorem turn_advances (goes : turn usize buf be cmdEnd cursor = .ok cursor') :
    cursor.off + 8 ≤ cursor'.off ∧ cursor'.off ≤ cmdEnd := by
  rw [turn] at goes
  obtain ⟨hdrEnd, -, checked⟩ := Results.bind_ok goes
  by_cases past : hdrEnd > cmdEnd
  · rw [if_pos past] at checked
    cases checked
  rw [if_neg past] at checked
  obtain ⟨cmd, -, rest⟩ := Results.bind_ok checked
  obtain ⟨at4, -, rest⟩ := Results.bind_ok rest
  obtain ⟨cmdsize, -, sized⟩ := Results.bind_ok rest
  by_cases short : cmdsize.toNat < 8
  · rw [if_pos short] at sized
    cases sized
  rw [if_neg short] at sized
  obtain ⟨next, summed, ended⟩ := Results.bind_ok sized
  obtain ⟨-, rfl⟩ := checkedAddOn_ok summed
  by_cases beyond : cursor.off + cmdsize.toNat > cmdEnd
  · rw [if_pos beyond] at ended
    cases ended
  rw [if_neg beyond] at ended
  obtain ⟨names, -, pushed⟩ := Results.bind_ok ended
  obtain ⟨deps, -, pushed⟩ := Results.bind_ok pushed
  obtain ⟨rpaths, -, made⟩ := Results.bind_ok pushed
  cases Except.ok.inj made
  exact ⟨Nat.add_le_add_left (Nat.not_lt.mp short) _, Nat.not_lt.mp beyond⟩

variable (small : cmdEnd < 2 ^ usize.bits)
include small

/-- A load command is read without a fault, and the rest follows. -/
theorem turn_follows {α : Type} {k : Cursor → Guarded MachError α} {k' : Nat → List Dep → List String → Except MachError α}
    (next : ∀ cursor', Follows (usize = .u64) (k cursor') (k' cursor'.off cursor'.deps cursor'.rpaths)) :
    Follows (usize = .u64) (turn usize buf be cmdEnd cursor >>= k) (do
      let hdrEnd ← orFail (.badLoadCommand "command header overflow") (checkedAdd cursor.off 8)
      if hdrEnd > cmdEnd then throw (.badLoadCommand "command header past region")
      let cmd ← Macho.readU32 buf cursor.off be "lc cmd"
      let cmdsize ← Macho.readU32 buf (cursor.off + 4) be "lc cmdsize"
      if cmdsize.toNat < 8 then throw (.badLoadCommand "cmdsize < 8")
      let next ← orFail (.badLoadCommand "cmdsize overflow") (checkedAdd cursor.off cmdsize.toNat)
      if next > cmdEnd then throw (.badLoadCommand "cmdsize past region")
      let (dep, rpath) ← Macho.readCommand buf be cursor.off cmdsize.toNat cmd
      k' next (cursor.deps ++ dep) (cursor.rpaths ++ rpath)) := by
  rw [turn, bind_assoc]
  refine (checkedAddOn_follows usize _ _ _).bind fun hdrEnd summed => ?_
  obtain ⟨-, rfl⟩ := checkedAddOn_ok summed
  by_cases past : cursor.off + 8 > cmdEnd
  · rw [if_pos past, if_pos past]
    exact .stop
  rw [if_neg past, if_neg past, bind_assoc]
  refine (readU32_follows usize buf cursor.off be _).bind fun cmd _ => ?_
  rw [addOn_small (by omega), ok_bind, bind_assoc]
  refine (readU32_follows usize buf (cursor.off + 4) be _).bind fun cmdsize _ => ?_
  by_cases short : cmdsize.toNat < 8
  · rw [if_pos short, if_pos short]
    exact .stop
  rw [if_neg short, if_neg short, bind_assoc]
  refine (checkedAddOn_follows usize _ _ _).bind fun nextOff summed => ?_
  by_cases beyond : nextOff > cmdEnd
  · rw [if_pos beyond, if_pos beyond]
    exact .stop
  rw [if_neg beyond, if_neg beyond, bind_assoc]
  refine (readCommand_follows usize buf be cmdsize.toNat cmd (by omega)).bind fun names _ => ?_
  dsimp only
  rw [bind_assoc]
  refine .past (pushes_cases _ _ _ _) ?_
  rw [bind_assoc]
  refine .past (pushes_cases _ _ _ _) ?_
  exact next { off := nextOff, deps := cursor.deps ++ names.1, rpaths := cursor.rpaths ++ names.2 }

theorem readCommands_follows (ncmds : Nat) :
    Follows (usize = .u64) (readCommands usize buf be cmdEnd ncmds cursor >>= fun last => .ok (last.deps, last.rpaths))
      (Macho.readCommands buf be cmdEnd ncmds cursor.off cursor.deps cursor.rpaths) := by
  induction ncmds generalizing cursor with
  | zero => exact .pure
  | succ ncmds ih =>
    rw [readCommands, Macho.readCommands, bind_assoc]
    exact turn_follows small fun cursor' => ih

end Follows

/-- The loop comes to this cursor. -/
def Visits (usize : Usize) (buf : Bytes) (region : Region) (cursor : Cursor) : Prop :=
  ReflTransGen (fun cursor cursor' => turn usize buf region.be region.cmdEnd cursor = .ok cursor') region.first cursor

section Region
variable {usize : Usize} {buf : Bytes}

/-- The region of an image's load commands is in the buffer. -/
theorem readRegion_inside {base : Nat} {region : Region} (read : readRegion usize buf base = .ok region) :
    region.cmdEnd = region.cmdStart + region.sizeofcmds ∧ region.cmdEnd ≤ buf.length := by
  rw [readRegion] at read
  obtain ⟨magic, -, rest⟩ := Results.bind_ok read
  obtain ⟨⟨be, headerLen⟩, -, rest⟩ := Results.bind_ok rest
  obtain ⟨at4, -, rest⟩ := Results.bind_ok rest
  obtain ⟨cputype, -, rest⟩ := Results.bind_ok rest
  obtain ⟨at16, -, rest⟩ := Results.bind_ok rest
  obtain ⟨ncmds, -, rest⟩ := Results.bind_ok rest
  obtain ⟨at20, -, rest⟩ := Results.bind_ok rest
  obtain ⟨sizeofcmds, -, rest⟩ := Results.bind_ok rest
  obtain ⟨cmdStart, -, rest⟩ := Results.bind_ok rest
  obtain ⟨cmdEnd, ended, last⟩ := Results.bind_ok rest
  obtain ⟨-, rfl⟩ := checkedAddOn_ok ended
  by_cases past : cmdStart + sizeofcmds.toNat > buf.length
  · rw [if_pos past] at last
    cases last
  rw [if_neg past] at last
  cases Except.ok.inj last
  exact ⟨rfl, Nat.not_lt.mp past⟩

/-- The loop stays in the region. -/
theorem visits_inside {base : Nat} {region : Region} (read : readRegion usize buf base = .ok region) {cursor : Cursor}
    (visits : Visits usize buf region cursor) : region.cmdStart ≤ cursor.off ∧ cursor.off ≤ region.cmdEnd := by
  have ends := (readRegion_inside read).1
  induction visits with
  | refl => exact ⟨Nat.le_refl _, by rw [ends]; exact Nat.le_add_right _ _⟩
  | tail _ step ih =>
    have advance := turn_advances step
    omega

/-- Every load command that is read takes eight bytes of the region at least. -/
theorem completed_le {be : Bool} {cmdEnd ncmds : Nat} {cursor : Cursor} (inside : cursor.off ≤ cmdEnd) :
    cursor.off + completed usize buf be cmdEnd ncmds cursor * 8 ≤ cmdEnd := by
  induction ncmds generalizing cursor with
  | zero =>
    rw [completed]
    omega
  | succ ncmds ih =>
    rw [completed]
    cases step : turn usize buf be cmdEnd cursor with
    | error e =>
      dsimp only
      omega
    | ok cursor' =>
      have advance := turn_advances step
      have later := ih advance.2
      dsimp only
      omega

end Region

section Whole
variable {usize : Usize} {buf : Bytes} (addressable : buf.length < 2 ^ (usize.bits - 1))
include addressable

theorem parseThin_follows {base : Nat} (inside : base ≤ buf.length) :
    Follows (usize = .u64) (parseThin usize buf base) (Macho.parseThin buf base) := by
  have width := usize.bits_pos
  rw [parseThin, readRegion, Macho.parseThin, bind_assoc]
  refine (readU32_follows usize buf base false _).bind fun magic read => ?_
  rw [bind_assoc]
  refine (Follows.refuse fun _ => rfl).bind fun header known => ?_
  obtain ⟨be, headerLen⟩ := header
  dsimp only
  rw [addOn_small (by omega), ok_bind, bind_assoc]
  refine (readU32_follows usize buf (base + 4) be _).bind fun cputype _ => ?_
  rw [addOn_small (by omega), ok_bind, bind_assoc]
  refine (readU32_follows usize buf (base + 16) be _).bind fun ncmds _ => ?_
  rw [addOn_small (by omega), ok_bind, bind_assoc]
  refine (readU32_follows usize buf (base + 20) be _).bind fun sizeofcmds _ => ?_
  rw [bind_assoc]
  refine (checkedAddOn_follows usize _ _ _).bind fun cmdStart started => ?_
  rw [bind_assoc]
  refine (checkedAddOn_follows usize _ _ _).bind fun cmdEnd ended => ?_
  by_cases past : cmdEnd > buf.length
  · rw [if_pos past, if_pos past]
    exact .stop
  rw [if_neg past, if_neg past]
  have names := @readCommands_follows usize buf be cmdEnd ⟨cmdStart, [], []⟩ (by omega) ncmds.toNat
  have made := names.bind (f := fun names => pure (⟨archName cputype, cputype, names.1, names.2⟩ : Slice)) fun _ _ => .pure
  rw [bind_assoc] at made
  exact made

theorem parseArchs_follows {be : Bool} {left i : Nat} {slices : List Slice} (table : 8 + (i + left) * 20 ≤ buf.length) :
    Follows (usize = .u64) (parseArchs usize buf be left i slices) (Macho.parseArchs buf be left i slices) := by
  have width := usize.bits_pos
  induction left generalizing i slices with
  | zero => exact .pure
  | succ left ih =>
    have whole : (i + (left + 1)) * 20 = i * 20 + 20 + left * 20 := by omega
    rw [parseArchs, Macho.parseArchs, mulOn_small (by omega), ok_bind, addOn_small (by omega), ok_bind]
    refine (readU32_follows usize buf (8 + i * 20) be _).bind fun cputype _ => ?_
    rw [addOn_small (by omega), ok_bind]
    refine (readU32_follows usize buf (8 + i * 20 + 8) be _).bind fun offset _ => ?_
    rw [addOn_small (by omega), ok_bind]
    refine (readU32_follows usize buf (8 + i * 20 + 12) be _).bind fun size _ => ?_
    refine (checkedAddOn_follows usize _ _ _).bind fun sliceEnd summed => ?_
    obtain ⟨-, rfl⟩ := checkedAddOn_ok summed
    by_cases past : offset.toNat + size.toNat > buf.length
    · rw [if_pos past, if_pos past]
      exact .stop
    rw [if_neg past, if_neg past]
    refine (parseThin_follows addressable (show offset.toNat ≤ buf.length by omega)).bind fun parsed _ => ?_
    exact ih (by omega)

theorem parseFat_follows (swapped : Bool) :
    Follows (usize = .u64) (parseFat usize buf swapped) (Macho.parseFat buf swapped) := by
  rw [parseFat, Macho.parseFat]
  dsimp only
  refine (readU32_follows usize buf 4 _ _).bind fun nfat _ => ?_
  refine Follows.bind (.refuse fun wide => by subst wide; rfl) fun tableBytes product => ?_
  refine (checkedAddOn_follows usize _ _ _).bind fun tableEnd summed => ?_
  obtain ⟨-, rfl⟩ := checkedAddOn_ok summed
  have bytes : tableBytes = nfat.toNat * 20 := by
    rw [checkedMulOn] at product
    split at product
    · cases product
      rfl
    · cases product
  subst bytes
  by_cases past : 8 + nfat.toNat * 20 > buf.length
  · rw [if_pos past, if_pos past]
    exact .stop
  rw [if_neg past, if_neg past]
  exact .past (demand_cases _ _ _) ((parseArchs_follows addressable (by omega)).bind fun slices _ => .pure)

/-- On 64 bits the parser does what it does without the steps that can fault, unless one does. -/
theorem parse_follows : Follows (usize = .u64) (parse usize buf) (Macho.parse buf) := by
  rw [parse, Macho.parse]
  refine (readU32_follows usize buf 0 false _).bind fun magic _ => ?_
  split
  · exact parseFat_follows addressable _
  split
  · exact (parseThin_follows addressable (Nat.zero_le _)).bind fun parsed _ => .pure
  · exact .stop

end Whole

end Bsdos.Macho.Bounded
