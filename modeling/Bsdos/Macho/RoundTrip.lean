import Bsdos.Macho.Parser

namespace Bsdos.Macho
open Octets

/-- A number in the byte order of the file. -/
def u32 (be : Bool) (n : UInt32) : Bytes := if be then toBe 4 n.toNat else toLe 4 n.toNat

/-- The string of a load command: bytes between the fixed fields and the path, the path,
and bytes after it, which begin with a zero unless the command ends with the path. -/
structure LcStr where
  gap : Bytes
  path : String
  tail : Bytes
  clean : '\x00' ∉ path.toList
  ends : tail.head? = some 0 ∨ tail = [] ∧ path ≠ ""

def LcStr.encode (str : LcStr) : Bytes := str.gap ++ (utf8 str.path.toList ++ str.tail)

def DepKind.id : DepKind → UInt32
  | .load => lcLoadDylib
  | .weak => lcLoadWeakDylib
  | .reexport => lcReexportDylib

/-- None of the four commands that the parser looks into. -/
def Uninteresting (id : UInt32) : Prop :=
  id &&& ~~~lcReqDyld ∉ [lcLoadDylib, lcLoadWeakDylib, lcReexportDylib, lcRpath]

inductive Command
  | dylib (kind : DepKind) (required : Bool) (timestamp current compatibility : UInt32) (name : LcStr)
  | rpath (required : Bool) (path : LcStr)
  | other (id : UInt32) (body : Bytes) (uninteresting : Uninteresting id)

def withReqDyld (required : Bool) (id : UInt32) : UInt32 := if required then id ||| lcReqDyld else id

def Command.id : Command → UInt32
  | .dylib kind required _ _ _ _ => withReqDyld required kind.id
  | .rpath required _ => withReqDyld required lcRpath
  | .other id _ _ => id

/-- What follows cmd and cmdsize. -/
def Command.body (be : Bool) : Command → Bytes
  | .dylib _ _ timestamp current compatibility name =>
    u32 be (UInt32.ofNat (24 + name.gap.length)) ++
      (u32 be timestamp ++ u32 be current ++ u32 be compatibility ++ name.encode)
  | .rpath _ path => u32 be (UInt32.ofNat (12 + path.gap.length)) ++ path.encode
  | .other _ body _ => body

def Command.size (be : Bool) (command : Command) : Nat := 8 + (command.body be).length

def Command.encode (be : Bool) (command : Command) : Bytes :=
  u32 be command.id ++ (u32 be (UInt32.ofNat (command.size be)) ++ command.body be)

def Command.deps : Command → List Dep
  | .dylib kind _ _ _ _ name => [⟨kind, name.path⟩]
  | _ => []

def Command.rpaths : Command → List String
  | .rpath _ path => [path.path]
  | _ => []

/-- The load commands of an image and the bytes that are left of their region. -/
def region (be : Bool) (commands : List Command) (slack : Bytes) : Bytes := commands.flatMap (Command.encode be) ++ slack

/-- A thin image. -/
structure Image where
  wide : Bool
  bigEndian : Bool
  cputype : UInt32
  cpusubtype : UInt32
  filetype : UInt32
  flags : UInt32
  reserved : UInt32
  commands : List Command
  slack : Bytes
  content : Bytes
  fits : (region bigEndian commands slack).length < 2 ^ 32

def Image.header (image : Image) : Bytes :=
  u32 image.bigEndian (if image.wide then mhMagic64 else mhMagic) ++ (u32 image.bigEndian image.cputype ++
    (u32 image.bigEndian image.cpusubtype ++ u32 image.bigEndian image.filetype ++
      (u32 image.bigEndian (UInt32.ofNat image.commands.length) ++
        (u32 image.bigEndian (UInt32.ofNat (region image.bigEndian image.commands image.slack).length) ++
          (u32 image.bigEndian image.flags ++ if image.wide then u32 image.bigEndian image.reserved else [])))))

def Image.encode (image : Image) : Bytes :=
  image.header ++ (region image.bigEndian image.commands image.slack ++ image.content)

/-- What is to be read of an image. -/
def Image.slice (image : Image) : Slice :=
  ⟨archName image.cputype, image.cputype, image.commands.flatMap Command.deps, image.commands.flatMap Command.rpaths⟩

variable {buf : Bytes} {be : Bool} {off : Nat}

@[simp] theorem u32_length (be : Bool) (n : UInt32) : (u32 be n).length = 4 := by
  cases be <;> simp [u32]

theorem readU32_holds {n : UInt32} {what : String} (holds : Holds buf off (u32 be n)) (small : off + 4 < 2 ^ 64) :
    readU32 buf off be what = .ok n := by
  have there := holds.slice
  rw [u32_length] at there
  have bound : n.toNat < 256 ^ 4 := n.toNat_lt
  have value : UInt32.ofNat (if be then ofBe (u32 be n) else ofLe (u32 be n)) = n := by
    cases be with
    | true => rw [if_pos rfl, u32, if_pos rfl, ofBe_toBe bound, UInt32.ofNat_toNat]
    | false => rw [if_neg (by simp), u32, if_neg (by simp), ofLe_toLe bound, UInt32.ofNat_toNat]
  rw [readU32, checkedAdd_small small]
  simp only [orFail, there, bind, Except.bind, pure, Except.pure, value]

theorem LcStr.cut (str : LcStr) :
    (utf8 str.path.toList ++ str.tail).takeWhile (· ≠ 0) = utf8 str.path.toList := by
  have clean : ∀ byte ∈ utf8 str.path.toList, decide (byte ≠ 0) = true := by
    intro byte member
    refine decide_eq_true fun zero => str.clean ?_
    subst zero
    exact utf8_zero member
  have stops : str.tail.takeWhile (· ≠ 0) = [] := by
    rcases str.ends with zero | ⟨none, _⟩
    · obtain ⟨rest, whole⟩ := List.head?_eq_some_iff.mp zero
      rw [whole]
      rfl
    · rw [none]
      rfl
  rw [List.takeWhile_append_of_pos clean, stops, List.append_nil]

theorem LcStr.filled (str : LcStr) : 0 < (utf8 str.path.toList ++ str.tail).length := by
  refine List.length_pos_iff.mpr ?_
  rcases str.ends with zero | ⟨_, some⟩
  · obtain ⟨rest, whole⟩ := List.head?_eq_some_iff.mp zero
    rw [whole]
    simp
  · have nonempty := utf8_filled (mt String.toList_eq_nil_iff.mp some)
    simp [nonempty]

/-- The path of a load command, wherever in it the path is. -/
theorem readLcStr_holds {front : Bytes} {str : LcStr} (holds : Holds buf off (front ++ str.encode))
    (fixed : 8 ≤ front.length) (small : off + (front ++ str.encode).length < 2 ^ 64) :
    readLcStr buf off (front ++ str.encode).length (front.length + str.gap.length) = .ok str.path := by
  have filled := str.filled
  have there := holds.right.right.slice
  have size : (front ++ str.encode).length =
      front.length + str.gap.length + (utf8 str.path.toList ++ str.tail).length := by
    simp only [LcStr.encode, List.length_append]
    omega
  rw [size] at small ⊢
  have start : off + front.length + str.gap.length = off + (front.length + str.gap.length) := by omega
  have stop : off + (front.length + str.gap.length) + (utf8 str.path.toList ++ str.tail).length =
      off + (front.length + str.gap.length + (utf8 str.path.toList ++ str.tail).length) := by omega
  rw [start, stop] at there
  have inside : ¬ (front.length + str.gap.length < 8 ∨
      front.length + str.gap.length ≥ front.length + str.gap.length + (utf8 str.path.toList ++ str.tail).length) := by
    omega
  rw [readLcStr, if_neg inside, checkedAdd_small (by omega), checkedAdd_small small]
  simp only [orFail, there, bind, Except.bind, pure, Except.pure, str.cut, fromUtf8Lossy_utf8]

theorem withReqDyld_masked (required : Bool) {id : UInt32}
    (known : id = lcLoadDylib ∨ id = lcLoadWeakDylib ∨ id = lcReexportDylib ∨ id = lcRpath) :
    withReqDyld required id &&& ~~~lcReqDyld = id := by
  cases required <;> rcases known with rfl | rfl | rfl | rfl <;> decide

/-- The offset field of a load command's string, and the string. -/
theorem readField_holds {front fields : Bytes} {str : LcStr} {fixed : Nat} (what : String)
    (holds : Holds buf off (front ++ (u32 be (UInt32.ofNat (fixed + str.gap.length)) ++ (fields ++ str.encode))))
    (prefixed : front.length = 8) (counts : fixed = 12 + fields.length)
    (small : off + (fixed + str.encode.length) < 2 ^ 64) (narrow : fixed + str.encode.length < 2 ^ 32) :
    (do
      let strOff ← readU32 buf (off + 8) be what
      readLcStr buf off (fixed + str.encode.length) strOff.toNat) = .ok str.path := by
  have gap : str.gap.length ≤ str.encode.length := by
    simp only [LcStr.encode, List.length_append]
    omega
  have field := holds.right.left
  rw [prefixed] at field
  have value : (UInt32.ofNat (fixed + str.gap.length)).toNat = fixed + str.gap.length := by
    rw [UInt32.toNat_ofNat']
    exact Nat.mod_eq_of_lt (by omega)
  have whole : front ++ (u32 be (UInt32.ofNat (fixed + str.gap.length)) ++ (fields ++ str.encode)) =
      front ++ u32 be (UInt32.ofNat (fixed + str.gap.length)) ++ fields ++ str.encode := by
    simp only [List.append_assoc]
  rw [whole] at holds
  have lengths : (front ++ u32 be (UInt32.ofNat (fixed + str.gap.length)) ++ fields).length = fixed := by
    simp only [List.length_append, u32_length]
    omega
  have read := readLcStr_holds holds (by omega) (by rw [List.length_append, lengths]; exact small)
  rw [List.length_append, lengths] at read
  rw [readU32_holds field (by omega)]
  simp only [bind, Except.bind, value, read]

/-- What a load command declares. -/
theorem readCommand_holds (command : Command) (holds : Holds buf off (command.encode be))
    (small : off + command.size be < 2 ^ 64) (narrow : command.size be < 2 ^ 32) :
    readCommand buf be off (command.size be) command.id = .ok (command.deps, command.rpaths) := by
  have front : (u32 be command.id ++ u32 be (UInt32.ofNat (command.size be))).length = 8 := by
    simp only [List.length_append, u32_length]
  rw [Command.encode, ← List.append_assoc] at holds
  cases command with
  | dylib kind required timestamp current compatibility name =>
    have size : (Command.dylib kind required timestamp current compatibility name).size be = 24 + name.encode.length := by
      simp only [Command.size, Command.body, List.length_append, u32_length]
      omega
    have fields : 24 = 12 + (u32 be timestamp ++ u32 be current ++ u32 be compatibility).length := by
      simp only [List.length_append, u32_length]
    rw [size] at small narrow
    have read := readField_holds "dylib name_off" holds front fields small narrow
    have masked : withReqDyld required kind.id &&& ~~~lcReqDyld = kind.id :=
      withReqDyld_masked required (by cases kind <;> simp [DepKind.id])
    rw [size, readCommand, Command.id, masked]
    simp only [bind, Except.bind] at read ⊢
    cases offset : readU32 buf (off + 8) be "dylib name_off" with
    | error e =>
      rw [offset] at read
      cases read
    | ok nameOff =>
      rw [offset] at read
      simp only [read]
      cases kind <;> rfl
  | rpath required path =>
    have size : (Command.rpath required path).size be = 12 + path.encode.length := by
      simp only [Command.size, Command.body, List.length_append, u32_length]
      omega
    rw [size] at small narrow
    have read := @readField_holds buf be off _ [] path 12 "rpath path_off" holds front rfl small narrow
    have masked : withReqDyld required lcRpath &&& ~~~lcReqDyld = lcRpath := withReqDyld_masked required (by simp)
    rw [size, readCommand, Command.id, masked]
    simp only [bind, Except.bind] at read ⊢
    cases offset : readU32 buf (off + 8) be "rpath path_off" with
    | error e =>
      rw [offset] at read
      cases read
    | ok pathOff =>
      rw [offset] at read
      simp only [read]
      rfl
  | other id body uninteresting =>
    simp only [Uninteresting, List.mem_cons, List.not_mem_nil, or_false, not_or] at uninteresting
    obtain ⟨load, weak, reexport, rpath⟩ := uninteresting
    simp only [readCommand, Command.id, load, weak, reexport, rpath, or_self, if_false]
    rfl

@[simp] theorem Command.encode_length (command : Command) : (command.encode be).length = command.size be := by
  simp only [Command.encode, Command.size, List.length_append, u32_length]
  omega

/-- The loop over load commands that are all there. -/
theorem readCommands_holds {cmdEnd : Nat} (commands : List Command) (deps : List Dep) (rpaths : List String)
    (holds : Holds buf off (commands.flatMap (Command.encode be)))
    (inside : off + (commands.flatMap (Command.encode be)).length ≤ cmdEnd)
    (narrow : (commands.flatMap (Command.encode be)).length < 2 ^ 32) (small : cmdEnd < 2 ^ 64) :
    readCommands buf be cmdEnd commands.length off deps rpaths =
      .ok (deps ++ commands.flatMap Command.deps, rpaths ++ commands.flatMap Command.rpaths) := by
  induction commands generalizing off deps rpaths with
  | nil => simp [readCommands, pure, Except.pure]
  | cons command commands ih =>
    rw [List.flatMap_cons] at holds
    rw [List.flatMap_cons, List.length_append, Command.encode_length] at inside narrow
    have size : 8 ≤ command.size be := Nat.le_add_right ..
    have first := holds.left
    have later := holds.right
    rw [Command.encode_length] at later
    have id : readU32 buf off be "lc cmd" = .ok command.id := readU32_holds first.left (by omega)
    have cmdsize : readU32 buf (off + 4) be "lc cmdsize" = .ok (UInt32.ofNat (command.size be)) := by
      have field := first.right.left
      rw [u32_length] at field
      exact readU32_holds field (by omega)
    have value : (UInt32.ofNat (command.size be)).toNat = command.size be := by
      rw [UInt32.toNat_ofNat']
      exact Nat.mod_eq_of_lt (by omega)
    have declared := readCommand_holds command first (by omega) (by omega)
    have rest := ih (deps ++ command.deps) (rpaths ++ command.rpaths) later (by omega) (by omega)
    rw [List.length_cons, readCommands, checkedAdd_small (by omega)]
    have header : ¬ off + 8 > cmdEnd := by omega
    have least : ¬ command.size be < 8 := by omega
    have next : ¬ off + command.size be > cmdEnd := by omega
    simp only [orFail, id, cmdsize, value, bind, Except.bind, if_neg header, if_neg least,
      checkedAdd_small (show off + command.size be < 2 ^ 64 by omega), if_neg next, declared, rest, List.flatMap_cons,
      List.append_assoc]

/-- Read as little-endian, the magic number of an image tells the byte order and the width. -/
theorem headerOf_magic (wide : Bool) (what : String)
    (holds : Holds buf off (u32 be (if wide then mhMagic64 else mhMagic))) (small : off + 4 < 2 ^ 64) :
    ∃ magic, readU32 buf off false what = .ok magic ∧ headerOf magic = .ok (be, if wide then 32 else 28) ∧
      magic ≠ fatMagic ∧ magic ≠ fatCigam ∧
      (magic = mhMagic ∨ magic = mhMagic64 ∨ magic = mhCigam ∨ magic = mhCigam64) := by
  have swapped : toBe 4 mhMagic.toNat = toLe 4 mhCigam.toNat ∧ toBe 4 mhMagic64.toNat = toLe 4 mhCigam64.toNat := by
    decide
  cases be with
  | false =>
    refine ⟨_, readU32_holds holds small, ?_⟩
    cases wide <;> decide
  | true =>
    have disk : u32 true (if wide then mhMagic64 else mhMagic) = u32 false (if wide then mhCigam64 else mhCigam) := by
      cases wide
      · exact swapped.1
      · exact swapped.2
    rw [disk] at holds
    refine ⟨_, readU32_holds holds small, ?_⟩
    cases wide <;> decide

theorem Image.header_length (image : Image) : image.header.length = if image.wide then 32 else 28 := by
  cases wide : image.wide <;> simp [Image.header, wide]

/-- The number of load commands is at most the size of their region. -/
theorem commands_length_le (commands : List Command) :
    commands.length ≤ (commands.flatMap (Command.encode be)).length := by
  induction commands with
  | nil => exact Nat.le_refl 0
  | cons command commands ih =>
    have size : 8 ≤ command.size be := Nat.le_add_right ..
    rw [List.flatMap_cons, List.length_append, Command.encode_length, List.length_cons]
    omega

/-- An image is read the same wherever it is in a file. -/
theorem parseThin_holds (image : Image) (holds : Holds buf off image.encode) (low : off < 2 ^ 32) :
    parseThin buf off = .ok image.slice := by
  obtain ⟨magic, read, header, _⟩ := headerOf_magic image.wide "thin magic" holds.left.left (by omega)
  have fits := image.fits
  have total : (image.commands.flatMap (Command.encode image.bigEndian)).length +
      image.slack.length = (region image.bigEndian image.commands image.slack).length := by
    rw [region, List.length_append]
  have count := @commands_length_le image.bigEndian image.commands
  have cputype : readU32 buf (off + 4) image.bigEndian "cputype" = .ok image.cputype := by
    have field := holds.left.right.left
    rw [u32_length] at field
    exact readU32_holds field (by omega)
  have fields := holds.left.right.right.right
  simp only [List.length_append, u32_length] at fields
  have ncmds : readU32 buf (off + 16) image.bigEndian "ncmds" = .ok (UInt32.ofNat image.commands.length) :=
    readU32_holds fields.left (by omega)
  have sizeofcmds : readU32 buf (off + 20) image.bigEndian "sizeofcmds" =
      .ok (UInt32.ofNat (region image.bigEndian image.commands image.slack).length) := by
    have field := fields.right.left
    rw [u32_length] at field
    exact readU32_holds field (by omega)
  have number : (UInt32.ofNat image.commands.length).toNat = image.commands.length := by
    rw [UInt32.toNat_ofNat']
    exact Nat.mod_eq_of_lt (by omega)
  have size : (UInt32.ofNat (region image.bigEndian image.commands image.slack).length).toNat =
      (region image.bigEndian image.commands image.slack).length := by
    rw [UInt32.toNat_ofNat']
    exact Nat.mod_eq_of_lt (by omega)
  have length : (if image.wide then 32 else 28) ≤ 32 := by split <;> omega
  have commands := holds.right.left
  rw [image.header_length] at commands
  have bound := commands.bound
  have listed := @readCommands_holds buf image.bigEndian _ (off + (if image.wide then 32 else 28) +
    (region image.bigEndian image.commands image.slack).length) image.commands [] [] commands.left (by omega) (by omega)
    (by omega)
  have inside : ¬ off + (if image.wide then 32 else 28) +
      (region image.bigEndian image.commands image.slack).length > buf.length := by omega
  simp only [parseThin, read, header, cputype, ncmds, sizeofcmds, orFail, bind, Except.bind, number, size,
    checkedAdd_small (show off + (if image.wide then 32 else 28) < 2 ^ 64 by omega),
    checkedAdd_small (show off + (if image.wide then 32 else 28) +
      (region image.bigEndian image.commands image.slack).length < 2 ^ 64 by omega), if_neg inside, listed,
    List.nil_append]
  rfl

/-- One entry of the table of a fat file. -/
structure FatArch where
  cputype : UInt32
  cpusubtype : UInt32
  offset : UInt32
  size : UInt32
  align : UInt32

def FatArch.encode (be : Bool) (arch : FatArch) : Bytes :=
  u32 be arch.cputype ++ (u32 be arch.cpusubtype ++ (u32 be arch.offset ++ (u32 be arch.size ++ u32 be arch.align)))

/-- A fat file, its header in either byte order: the table, and at the place each entry
gives the image packed there. -/
structure Packed (be : Bool) (archs : List (FatArch × Image)) (buf : Bytes) : Prop where
  count : archs.length < 2 ^ 32
  table : Holds buf 0 (u32 be fatMagic ++
    (u32 be (UInt32.ofNat archs.length) ++ archs.flatMap fun packed => packed.1.encode be))
  sized : ∀ packed ∈ archs, packed.1.size.toNat = packed.2.encode.length
  images : ∀ packed ∈ archs, Holds buf packed.1.offset.toNat packed.2.encode

theorem FatArch.encode_length (arch : FatArch) : (arch.encode be).length = 20 := by
  simp only [FatArch.encode, List.length_append, u32_length]

theorem parseArchs_holds (archs : List (FatArch × Image)) (i : Nat) (slices : List Slice)
    (table : Holds buf (8 + i * 20) (archs.flatMap fun packed => packed.1.encode be))
    (few : i + archs.length ≤ 2 ^ 32) (sized : ∀ packed ∈ archs, packed.1.size.toNat = packed.2.encode.length)
    (images : ∀ packed ∈ archs, Holds buf packed.1.offset.toNat packed.2.encode) :
    parseArchs buf be archs.length i slices = .ok (slices ++ archs.map fun packed => packed.2.slice) := by
  induction archs generalizing i slices with
  | nil => simp [parseArchs, pure, Except.pure]
  | cons packed archs ih =>
    obtain ⟨arch, image⟩ := packed
    rw [List.flatMap_cons] at table
    rw [List.length_cons] at few
    have entry := table.left
    have later := table.right
    rw [FatArch.encode_length, show 8 + i * 20 + 20 = 8 + (i + 1) * 20 by omega] at later
    have here : Holds buf arch.offset.toNat image.encode := images _ (List.mem_cons_self ..)
    have size : arch.size.toNat = image.encode.length := sized _ (List.mem_cons_self ..)
    have cputype : readU32 buf (8 + i * 20) be "fat cputype" = .ok arch.cputype := readU32_holds entry.left (by omega)
    have place := entry.right.right
    rw [u32_length, u32_length] at place
    have offset : readU32 buf (8 + i * 20 + 8) be "fat offset" = .ok arch.offset := readU32_holds place.left (by omega)
    have extent := place.right.left
    rw [u32_length] at extent
    have length : readU32 buf (8 + i * 20 + 12) be "fat size" = .ok arch.size := readU32_holds extent (by omega)
    have low : arch.offset.toNat < 2 ^ 32 := arch.offset.toNat_lt
    have narrow : arch.size.toNat < 2 ^ 32 := arch.size.toNat_lt
    have bound := here.bound
    have inside : ¬ arch.offset.toNat + arch.size.toNat > buf.length := by
      rw [size]
      omega
    have parsed := parseThin_holds image here low
    have rest := ih (i + 1) (slices ++ [image.slice]) later (by omega)
      (fun packed member => sized packed (List.mem_cons_of_mem _ member))
      fun packed member => images packed (List.mem_cons_of_mem _ member)
    rw [List.length_cons, parseArchs]
    simp only [cputype, offset, length, orFail, bind, Except.bind,
      checkedAdd_small (show arch.offset.toNat + arch.size.toNat < 2 ^ 64 by omega), if_neg inside, parsed, rest,
      List.map_cons, List.append_assoc, List.singleton_append]

/-- The table of a fat file is read in the byte order its magic number is written in. -/
theorem parse_packed {archs : List (FatArch × Image)} (packed : Packed be archs buf) :
    parse buf = .ok ⟨archs.map fun packed => packed.2.slice⟩ := by
  have disk : u32 be fatMagic = u32 false (if be then fatCigam else fatMagic) := by
    cases be <;> decide
  have magic : readU32 buf 0 false "magic" = .ok (if be then fatCigam else fatMagic) := by
    have field := packed.table.left
    rw [disk] at field
    exact readU32_holds field (by omega)
  have either : (if be then fatCigam else fatMagic) = fatMagic ∨ (if be then fatCigam else fatMagic) = fatCigam := by
    cases be <;> decide
  have order : (!decide ((if be then fatCigam else fatMagic) = fatMagic)) = be := by
    cases be <;> decide
  have count := packed.count
  have rest := packed.table.right
  rw [u32_length] at rest
  have nfat : readU32 buf 4 be "nfat_arch" = .ok (UInt32.ofNat archs.length) :=
    readU32_holds rest.left (by omega)
  have number : (UInt32.ofNat archs.length).toNat = archs.length := by
    rw [UInt32.toNat_ofNat']
    exact Nat.mod_eq_of_lt (by omega)
  have table := rest.right
  rw [u32_length] at table
  have size : (archs.flatMap fun packed => packed.1.encode be).length = archs.length * 20 := by
    simp only [List.length_flatMap, FatArch.encode_length, List.map_const', List.sum_replicate_nat]
  have bound := table.bound
  rw [size] at bound
  have inside : ¬ 8 + archs.length * 20 > buf.length := by omega
  have small : checkedMul archs.length 20 = some (archs.length * 20) := if_pos (by omega)
  have listed := parseArchs_holds archs 0 [] table (by omega) packed.sized packed.images
  rw [parse, magic]
  simp only [bind, Except.bind, if_pos either, parseFat, order, nfat, number, small, orFail,
    checkedAdd_small (show 8 + archs.length * 20 < 2 ^ 64 by omega), if_neg inside, listed, List.nil_append]
  rfl

theorem parse_encode (image : Image) : parse image.encode = .ok ⟨[image.slice]⟩ := by
  have holds : Holds image.encode 0 image.encode := by
    have whole := Holds.whole image.encode []
    rwa [List.append_nil] at whole
  obtain ⟨magic, read, _, notFat, notSwapped, thin⟩ := headerOf_magic image.wide "magic" holds.left.left (by omega)
  rw [parse, read]
  simp only [bind, Except.bind, notFat, notSwapped, or_self, if_false, if_pos thin,
    parseThin_holds image holds (by omega)]
  rfl

/-- Parsing inverts encoding: of an image alone, of images in a fat file, whatever the byte
orders, and of an image in the other byte order. -/
theorem parse_inverts_encoding :
    (∀ image : Image, parse image.encode = .ok ⟨[image.slice]⟩) ∧
    (∀ (be : Bool) (archs : List (FatArch × Image)) (buf : Bytes), Packed be archs buf →
      parse buf = .ok ⟨archs.map fun packed => packed.2.slice⟩) ∧
    ∀ image image' : Image, image'.cputype = image.cputype → image'.commands = image.commands →
      parse image'.encode = parse image.encode := by
  refine ⟨parse_encode, fun _ _ _ => parse_packed, fun image image' cputype commands => ?_⟩
  rw [parse_encode, parse_encode, Image.slice, Image.slice, cputype, commands]

/-- A big-endian image with a weak dependency and a run path. -/
def weakImage : Image where
  wide := true
  bigEndian := true
  cputype := 0x0100000c
  cpusubtype := 0
  filetype := 2
  flags := 0
  reserved := 0
  commands := [.dylib .weak true 0 0 0 ⟨[], "libobjc.A.dylib", [0], by decide, Or.inl rfl⟩,
    .other 0x80000022 [0, 0, 0, 0] (by unfold Uninteresting; decide),
    .rpath true ⟨[0], "@loader_path", [], by decide, Or.inr ⟨rfl, by decide⟩⟩]
  slack := []
  content := []
  fits := by decide

/-- A fat file with a little-endian header and that image. -/
def weakFat : Bytes :=
  u32 false fatMagic ++ (u32 false 1 ++ FatArch.encode false ⟨0x0100000c, 0, 32, 109, 4⟩) ++
    ([0, 0, 0, 0] ++ weakImage.encode)

theorem parse_inverts_encoding_weak :
    parse weakImage.encode = .ok ⟨[⟨"arm64", 0x0100000c, [⟨.weak, "libobjc.A.dylib"⟩], ["@loader_path"]⟩]⟩ ∧
    parse weakFat = .ok ⟨[⟨"arm64", 0x0100000c, [⟨.weak, "libobjc.A.dylib"⟩], ["@loader_path"]⟩]⟩ := by
  have slice : weakImage.slice = ⟨"arm64", 0x0100000c, [⟨.weak, "libobjc.A.dylib"⟩], ["@loader_path"]⟩ := by decide
  have length : weakImage.encode.length = 109 := by decide +kernel
  have packed : Packed false [(⟨0x0100000c, 0, 32, 109, 4⟩, weakImage)] weakFat := by
    refine ⟨by decide, Holds.whole _ _, ?_, ?_⟩
    · simp [length]
    · have inside : Holds ([0, 0, 0, 0] ++ weakImage.encode) 4 weakImage.encode :=
        ⟨by simp, List.prefix_refl _⟩
      intro packed member
      rw [List.mem_singleton.mp member]
      exact inside.shift
  rw [← slice]
  exact ⟨parse_inverts_encoding.1 weakImage, parse_inverts_encoding.2.1 false _ weakFat packed⟩

end Bsdos.Macho
