import Bsdos.Macho.Bounded

namespace Bsdos.Macho.Bounded
open Octets Machine

/-- What the load command at `off` says of its size, and of where its name is. -/
def sizeAt (buf : Bytes) (be : Bool) (off : Nat) : Nat := (u32At buf be (off + 4)).toNat

def nameOffAt (buf : Bytes) (be : Bool) (off : Nat) : Nat := (u32At buf be (off + 8)).toNat

/-- The bytes of the name. -/
def nameAt (buf : Bytes) (be : Bool) (off : Nat) : Bytes :=
  (part buf (off + nameOffAt buf be off) (sizeAt buf be off - nameOffAt buf be off)).takeWhile (· ≠ 0)

/-- The load command names a library. -/
def NamesDep (cmd : UInt32) : Prop := cmd &&& ~~~lcReqDyld ∈ [lcLoadDylib, lcLoadWeakDylib, lcReexportDylib]

def NamesRpath (cmd : UInt32) : Prop := cmd &&& ~~~lcReqDyld = lcRpath

instance (cmd : UInt32) : Decidable (NamesDep cmd) := inferInstanceAs (Decidable (_ ∈ _))

instance (cmd : UInt32) : Decidable (NamesRpath cmd) := inferInstanceAs (Decidable (_ = _))

/-- The load command is in the region, and its name, if it has one, in the command. -/
def Sound (buf : Bytes) (be : Bool) (cmdEnd off : Nat) : Prop :=
  off + 8 ≤ cmdEnd ∧ 8 ≤ sizeAt buf be off ∧ off + sizeAt buf be off ≤ cmdEnd ∧
    (Naming (u32At buf be off) →
      off + 12 ≤ buf.length ∧ 8 ≤ nameOffAt buf be off ∧ nameOffAt buf be off < sizeAt buf be off)

instance (buf : Bytes) (be : Bool) (cmdEnd off : Nat) : Decidable (Sound buf be cmdEnd off) :=
  inferInstanceAs (Decidable (_ ∧ _ ∧ _ ∧ _))

/-- Where the load commands are, from `off` on, up to one that is not sound; and whether there is none. -/
def commandsFrom (buf : Bytes) (be : Bool) (cmdEnd : Nat) : Nat → Nat → List Nat × Bool
  | 0, _ => ([], true)
  | ncmds + 1, off =>
    if Sound buf be cmdEnd off then
      let later := commandsFrom buf be cmdEnd ncmds (off + sizeAt buf be off)
      (off :: later.1, later.2)
    else ([], false)

/-- The text of the name needs more bytes than there can be. -/
def Bulky (usize : Usize) (name : Bytes) : Prop :=
  isizeMax usize.bits < doubledTo name.length (fromUtf8Lossy name).utf8ByteSize

instance (usize : Usize) (name : Bytes) : Decidable (Bulky usize name) := inferInstanceAs (Decidable (_ < _))

/-- How many libraries, and how many run paths, the vectors of an image hold. -/
def Usize.deps (usize : Usize) : Nat := growthOf usize.bits (usize.words 4)

def Usize.rpaths (usize : Usize) : Nat := growthOf usize.bits (usize.words 3)

/-- The load commands name more libraries or run paths than can be held, or something whose name cannot. -/
def Overfills (usize : Usize) (buf : Bytes) (be : Bool) (commands : List Nat) : Prop :=
  (∃ off ∈ commands, Naming (u32At buf be off) ∧ Bulky usize (nameAt buf be off)) ∨
    usize.deps < commands.countP (fun off => NamesDep (u32At buf be off)) ∨
    usize.rpaths < commands.countP (fun off => NamesRpath (u32At buf be off))

instance (usize : Usize) (buf : Bytes) (be : Bool) (commands : List Nat) : Decidable (Overfills usize buf be commands) :=
  inferInstanceAs (Decidable (_ ∨ _ ∨ _))

/-- The header of an image and the region of its load commands, where both are in the buffer. -/
def regionAt (buf : Bytes) (base : Nat) : Option Region :=
  match headerOf (u32At buf false base) with
  | .error _ => none
  | .ok (be, headerLen) =>
    let sizeofcmds := (u32At buf be (base + 20)).toNat
    if base + headerLen + sizeofcmds ≤ buf.length then
      some { be := be, cputype := u32At buf be (base + 4), ncmds := (u32At buf be (base + 16)).toNat
             sizeofcmds := sizeofcmds, cmdStart := base + headerLen, cmdEnd := base + headerLen + sizeofcmds }
    else none

/-- The image at `base` has too much in its load commands. -/
def OverfullImage (usize : Usize) (buf : Bytes) (base : Nat) : Prop :=
  ∃ region ∈ regionAt buf base,
    Overfills usize buf region.be (commandsFrom buf region.be region.cmdEnd region.ncmds region.cmdStart).1

instance (usize : Usize) (buf : Bytes) (base : Nat) : Decidable (OverfullImage usize buf base) :=
  inferInstanceAs (Decidable (∃ region ∈ regionAt buf base, _))

/-- The image at `base` is sound. -/
def SoundImage (buf : Bytes) (base : Nat) : Prop :=
  ∃ region ∈ regionAt buf base, (commandsFrom buf region.be region.cmdEnd region.ncmds region.cmdStart).2 = true

instance (buf : Bytes) (base : Nat) : Decidable (SoundImage buf base) :=
  inferInstanceAs (Decidable (∃ region ∈ regionAt buf base, _))

/-- Where the images of a fat file are, from entry `i` on, up to one that is not sound; and whether there is none. -/
def imagesFrom (buf : Bytes) (be : Bool) : Nat → Nat → List Nat × Bool
  | 0, _ => ([], true)
  | left + 1, i =>
    let extent := extentAt buf be i
    if extent.offset + extent.size ≤ buf.length then
      if SoundImage buf extent.offset then
        let later := imagesFrom buf be left (i + 1)
        (extent.offset :: later.1, later.2)
      else ([extent.offset], false)
    else ([], false)

/-- The file has more images than can be held, or one with too much in its load commands. -/
def Overfull (usize : Usize) (buf : Bytes) : Prop :=
  (fatHeader buf = none ∧ OverfullImage usize buf 0) ∨ ∃ fat ∈ fatHeader buf, 8 + fat.2 * 20 ≤ buf.length ∧
    (capacityOf usize.bits (usize.words 10) < fat.2 ∨ ∃ base ∈ (imagesFrom buf fat.1 fat.2 0).1, OverfullImage usize buf base)

instance (usize : Usize) (buf : Bytes) : Decidable (Overfull usize buf) :=
  inferInstanceAs (Decidable (_ ∨ ∃ fat ∈ fatHeader buf, _))

section Readers
variable {usize : Usize} {buf : Bytes} {be : Bool} {off : Nat} (addressable : buf.length < 2 ^ (usize.bits - 1))
include addressable

theorem readU32_inside (inside : off + 4 ≤ buf.length) (what : String) :
    readU32 usize buf off be what = .ok (u32At buf be off) := by
  have width := usize.bits_pos
  have there : slice buf off (off + 4) = some (part buf off 4) := by
    rw [slice, if_pos ⟨by omega, inside⟩, Nat.add_sub_cancel_left, part]
  have four : (part buf off 4).length = 4 := by
    rw [part, List.length_take, List.length_drop]
    omega
  rw [readU32, checkedAddOn, if_pos (by omega), orFail, refuse_ok, ok_bind, there, orFail, refuse_ok, ok_bind,
    indexed_four four]
  rfl

omit addressable in
theorem readU32_outside (outside : buf.length < off + 4) (what : String) :
    readU32 usize buf off be what = .error (.refused (.outOfBounds what)) := by
  have none : slice buf off (off + 4) = none := if_neg (by omega)
  rw [readU32, checkedAddOn]
  by_cases small : off + 4 < 2 ^ usize.bits
  · rw [if_pos small, orFail, refuse_ok, ok_bind, none]
    rfl
  · rw [if_neg small]
    rfl

theorem readLcStr_inside {cmdsize strOff : Nat} (inside : off + cmdsize ≤ buf.length) (low : 8 ≤ strOff) (high : strOff < cmdsize) :
    readLcStr usize buf off cmdsize strOff = lossy usize ((part buf (off + strOff) (cmdsize - strOff)).takeWhile (· ≠ 0)) := by
  have width := usize.bits_pos
  have there : slice buf (off + strOff) (off + cmdsize) = some (part buf (off + strOff) (cmdsize - strOff)) := by
    rw [slice, if_pos ⟨by omega, inside⟩, part, Nat.add_sub_add_left]
  rw [readLcStr, if_neg (by omega), checkedAddOn, if_pos (by omega), orFail, refuse_ok, ok_bind, checkedAddOn,
    if_pos (by omega), orFail, refuse_ok, ok_bind, there, orFail, refuse_ok, ok_bind, upToNul_ok, ok_bind]

omit addressable in
theorem readLcStr_outside {cmdsize strOff : Nat} (outside : ¬ (8 ≤ strOff ∧ strOff < cmdsize)) :
    ∃ e, readLcStr usize buf off cmdsize strOff = .error (.refused e) := by
  rw [readLcStr, if_pos (by omega)]
  exact ⟨_, rfl⟩

end Readers

theorem naming_iff (cmd : UInt32) : Naming cmd ↔ NamesDep cmd ∨ NamesRpath cmd := by
  simp only [Naming, NamesDep, NamesRpath, List.mem_cons, List.not_mem_nil, or_false, or_assoc]

theorem namesDep_iff (cmd : UInt32) : NamesDep cmd ↔ cmd &&& ~~~lcReqDyld = lcLoadDylib ∨
    cmd &&& ~~~lcReqDyld = lcLoadWeakDylib ∨ cmd &&& ~~~lcReqDyld = lcReexportDylib := by
  simp only [NamesDep, List.mem_cons, List.not_mem_nil, or_false]

theorem namesRpath_only {cmd : UInt32} (dep : NamesDep cmd) : ¬ NamesRpath cmd := by
  intro rpath
  rw [NamesDep, rpath] at dep
  revert dep
  decide

section Commands
variable {usize : Usize} {buf : Bytes} {be : Bool} {off : Nat} (addressable : buf.length < 2 ^ (usize.bits - 1))
include addressable

theorem readU32_ends (what : String) :
    Ends False (off + 4 ≤ buf.length) (· = u32At buf be off) (readU32 usize buf off be what) := by
  by_cases inside : off + 4 ≤ buf.length
  · rw [readU32_inside addressable inside]
    exact .gives not_false inside rfl
  · rw [readU32_outside (by omega)]
    exact .refuses not_false inside _

theorem readLcStr_ends {cmdsize strOff : Nat} (inside : off + cmdsize ≤ buf.length) :
    Ends ((8 ≤ strOff ∧ strOff < cmdsize) ∧ Bulky usize ((part buf (off + strOff) (cmdsize - strOff)).takeWhile (· ≠ 0)))
      (8 ≤ strOff ∧ strOff < cmdsize) (fun _ => True) (readLcStr usize buf off cmdsize strOff) := by
  by_cases within : 8 ≤ strOff ∧ strOff < cmdsize
  · rw [readLcStr_inside addressable inside within.1 within.2]
    refine (Ends.demand.mono fun _ _ => trivial).congr ?_ ⟨fun _ => within, fun _ => trivial⟩
    rw [Nat.not_le]
    exact (and_iff_right within).symm
  · obtain ⟨e, refused⟩ := @readLcStr_outside usize buf off cmdsize strOff within
    rw [refused]
    exact .refuses (fun both => within both.1) within e

/-- How many names a load command adds. -/
def adds (p : Prop) [Decidable p] : Nat := if p then 1 else 0

theorem readCommand_ends {cmdsize : Nat} {cmd : UInt32} (header : off + 8 ≤ buf.length) (inside : off + cmdsize ≤ buf.length) :
    Ends (Naming cmd ∧ (off + 12 ≤ buf.length ∧ 8 ≤ nameOffAt buf be off ∧ nameOffAt buf be off < cmdsize) ∧
        Bulky usize ((part buf (off + nameOffAt buf be off) (cmdsize - nameOffAt buf be off)).takeWhile (· ≠ 0)))
      (Naming cmd → off + 12 ≤ buf.length ∧ 8 ≤ nameOffAt buf be off ∧ nameOffAt buf be off < cmdsize)
      (fun names => names.1.length = adds (NamesDep cmd) ∧ names.2.length = adds (NamesRpath cmd))
      (readCommand usize buf be off cmdsize cmd) := by
  have width := usize.bits_pos
  rw [readCommand, addOn_small (by omega)]
  dsimp only
  rw [ok_bind, ok_bind]
  by_cases dep : NamesDep cmd
  · have naming := (naming_iff cmd).mpr (.inl dep)
    rw [if_pos ((namesDep_iff cmd).mp dep)]
    apply Ends.congr
    · exact (readU32_ends addressable _).read ((readLcStr_ends addressable inside).made fun path _ =>
        ⟨(if_pos dep).symm, (if_neg (namesRpath_only dep)).symm⟩)
    · simp only [naming, true_and, nameOffAt, Nat.add_assoc, and_assoc]
    · simp only [naming, true_imp_iff, nameOffAt, Nat.add_assoc]
  rw [if_neg ((namesDep_iff cmd).not.mp dep)]
  by_cases rpath : NamesRpath cmd
  · have naming := (naming_iff cmd).mpr (.inr rpath)
    rw [if_pos (show cmd &&& ~~~lcReqDyld = lcRpath from rpath)]
    apply Ends.congr
    · exact (readU32_ends addressable _).read ((readLcStr_ends addressable inside).made fun path _ =>
        ⟨(if_neg dep).symm, (if_pos rpath).symm⟩)
    · simp only [naming, true_and, nameOffAt, Nat.add_assoc, and_assoc]
    · simp only [naming, true_imp_iff, nameOffAt, Nat.add_assoc]
  · have nameless : ¬ Naming cmd := fun naming => ((naming_iff cmd).mp naming).elim dep rpath
    rw [if_neg (show ¬ cmd &&& ~~~lcReqDyld = lcRpath from rpath)]
    refine Ends.congr (Ends.ret ⟨(if_neg dep).symm, (if_neg rpath).symm⟩) ?_ ?_
    · simp only [nameless, false_and]
    · simp only [nameless, false_imp_iff]

omit addressable in
/-- A sum that is checked against a bound. -/
theorem sum_ends {α : Type} {full sound : Prop} {post : α → Prop} {a b bound : Nat} {e e' : MachError}
    {f : Nat → Guarded MachError α} (small : bound < 2 ^ usize.bits) (next : a + b ≤ bound → Ends full sound post (f (a + b))) :
    Ends (a + b ≤ bound ∧ full) (a + b ≤ bound ∧ sound) post
      (refuse (orFail e (checkedAddOn usize.bits a b)) >>= fun stop => if stop > bound then fail e' else f stop) := by
  by_cases within : a + b ≤ bound
  · rw [checkedAddOn, if_pos (by omega), orFail, refuse_ok, ok_bind, if_neg (Nat.not_lt.mpr within)]
    exact (next within).congr (and_iff_right within).symm (and_iff_right within).symm
  have unmet : ∀ p, ¬ (a + b ≤ bound ∧ p) := fun p both => within both.1
  rw [checkedAddOn]
  split
  · rw [orFail, refuse_ok, ok_bind, if_pos (Nat.not_le.mp within)]
    exact .refuses (unmet _) (unmet _) _
  · exact .refuses (unmet _) (unmet _) _

omit addressable in
/-- The names of a load command go to the end of the vectors. -/
theorem pushed_ends {cursor : Cursor} {names : List Dep × List String} {next n m : Nat}
    (deps : cursor.deps.length ≤ usize.deps) (rpaths : cursor.rpaths.length ≤ usize.rpaths)
    (added : names.1.length = n ∧ names.2.length = m) :
    Ends (usize.deps < cursor.deps.length + n ∨ usize.rpaths < cursor.rpaths.length + m) True
      (fun cursor' => cursor'.off = next ∧ cursor'.deps.length = cursor.deps.length + n ∧
        cursor'.rpaths.length = cursor.rpaths.length + m)
      (do
        let deps ← names.1.foldlM (push usize.bits (usize.words 4)) cursor.deps
        let rpaths ← names.2.foldlM (push usize.bits (usize.words 3)) cursor.rpaths
        return { off := next, deps := deps, rpaths := rpaths } : Guarded MachError Cursor) := by
  obtain ⟨rfl, rfl⟩ := added
  apply Ends.congr
  · apply (Ends.pushes deps).bind
    intro all listed
    apply (Ends.pushes rpaths).made
    intro paths found
    exact ⟨rfl, listed, found⟩
  · rw [true_and]
    rfl
  · rw [true_and]

/-- One load command overflows the vectors, or the text of its name does not fit. -/
theorem turn_ends {cmdEnd : Nat} {cursor : Cursor} (inside : cmdEnd ≤ buf.length)
    (deps : cursor.deps.length ≤ usize.deps) (rpaths : cursor.rpaths.length ≤ usize.rpaths) :
    Ends (Sound buf be cmdEnd cursor.off ∧ ((Naming (u32At buf be cursor.off) ∧ Bulky usize (nameAt buf be cursor.off)) ∨
        usize.deps < cursor.deps.length + adds (NamesDep (u32At buf be cursor.off)) ∨
        usize.rpaths < cursor.rpaths.length + adds (NamesRpath (u32At buf be cursor.off))))
      (Sound buf be cmdEnd cursor.off)
      (fun next => next.off = cursor.off + sizeAt buf be cursor.off ∧
        next.deps.length = cursor.deps.length + adds (NamesDep (u32At buf be cursor.off)) ∧
        next.rpaths.length = cursor.rpaths.length + adds (NamesRpath (u32At buf be cursor.off)))
      (turn usize buf be cmdEnd cursor) := by
  have width := usize.bits_pos
  have bounded : cmdEnd < 2 ^ usize.bits := by omega
  rw [turn]
  apply Ends.congr
  · apply sum_ends bounded
    intro header
    rw [readU32_inside addressable (by omega), ok_bind, addOn_small (by omega), ok_bind,
      readU32_inside addressable (by omega), ok_bind]
    apply Ends.check
    apply sum_ends bounded
    intro fits
    apply (readCommand_ends addressable (by omega) (by omega)).bind
    intro names added
    dsimp only
    exact pushed_ends deps rpaths added
  · have names : ∀ {named within bulky overrun : Prop}, (named ∧ within ∧ bulky) ∨ (named → within) ∧ overrun ↔
        (named → within) ∧ (named ∧ bulky ∨ overrun) := by tauto
    rw [names, Nat.not_lt, Sound, and_assoc, and_assoc, and_assoc]
    rfl
  · rw [and_true, Nat.not_lt]
    rfl

omit addressable in
/-- What the first command overruns is overrun with the later ones. -/
theorem overrun_iff {first later : Prop} {deps rpaths d n c r m k : Nat} :
    (first ∨ deps < d + n ∨ rpaths < r + m) ∨ later ∨ deps < d + n + c ∨ rpaths < r + m + k ↔
      (first ∨ later) ∨ deps < d + (c + n) ∨ rpaths < r + (k + m) := by
  constructor
  · rintro ((bulky | crowd) | bulky | crowd)
    · exact .inl (.inl bulky)
    · exact .inr (by omega)
    · exact .inl (.inr bulky)
    · exact .inr (by omega)
  · rintro ((bulky | bulky) | crowd)
    · exact .inl (.inl bulky)
    · exact .inr (.inl bulky)
    · exact .inr (.inr (by omega))

/-- The load commands are read up to one that is not sound. -/
theorem readCommands_ends {cmdEnd ncmds : Nat} {cursor : Cursor} (inside : cmdEnd ≤ buf.length)
    (deps : cursor.deps.length ≤ usize.deps) (rpaths : cursor.rpaths.length ≤ usize.rpaths) :
    Ends
      ((∃ off ∈ (commandsFrom buf be cmdEnd ncmds cursor.off).1, Naming (u32At buf be off) ∧ Bulky usize (nameAt buf be off)) ∨
        usize.deps < cursor.deps.length +
          (commandsFrom buf be cmdEnd ncmds cursor.off).1.countP (fun off => NamesDep (u32At buf be off)) ∨
        usize.rpaths < cursor.rpaths.length +
          (commandsFrom buf be cmdEnd ncmds cursor.off).1.countP (fun off => NamesRpath (u32At buf be off)))
      ((commandsFrom buf be cmdEnd ncmds cursor.off).2 = true) (fun _ => True)
      (readCommands usize buf be cmdEnd ncmds cursor) := by
  induction ncmds generalizing cursor with
  | zero =>
    refine .gives ?_ rfl trivial
    simp only [commandsFrom, List.not_mem_nil, false_and, exists_false, List.countP_nil, false_or]
    omega
  | succ ncmds ih =>
    rw [readCommands, commandsFrom]
    have first := (@turn_ends usize buf be addressable cmdEnd cursor inside deps rpaths).fitting
    apply Ends.congr
    · apply first.bind
      rintro cursor' ⟨⟨next, listed, found⟩, fits, sound⟩
      have room := not_or.mp fun overrun => fits ⟨sound, .inr overrun⟩
      have held := @ih cursor' (by omega) (by omega)
      rw [next, listed, found] at held
      exact held
    · by_cases sound : Sound buf be cmdEnd cursor.off
      · rw [if_pos sound]
        simp only [sound, true_and, List.exists_mem_cons_iff, List.countP_cons, decide_eq_true_eq, adds]
        exact overrun_iff
      · rw [if_neg sound]
        simp only [sound, false_and, or_self, List.not_mem_nil, exists_false, List.countP_nil, false_or, false_iff]
        omega
    · by_cases sound : Sound buf be cmdEnd cursor.off
      · rw [if_pos sound, and_iff_right sound]
      · simp only [sound, false_and, if_false, Bool.false_eq_true]

theorem readRegion_ends {base : Nat} (inside : base ≤ buf.length) :
    Ends False ((regionAt buf base).isSome) (fun region => regionAt buf base = some region) (readRegion usize buf base) := by
  have width := usize.bits_pos
  rw [readRegion]
  cases header : headerOf (u32At buf false base) with
  | error e =>
    have outside : regionAt buf base = none := by rw [regionAt, header]
    by_cases there : base + 4 ≤ buf.length
    · rw [readU32_inside addressable there, ok_bind, header, refuse_error]
      exact .refuses not_false (by simp only [outside, Option.isSome_none, Bool.false_eq_true, not_false_iff]) e
    · rw [readU32_outside (Nat.not_le.mp there)]
      exact .refuses not_false (by simp only [outside, Option.isSome_none, Bool.false_eq_true, not_false_iff]) _
  | ok known =>
    obtain ⟨be, headerLen⟩ := known
    have long := headerOf_length header
    have region : regionAt buf base = if base + headerLen + (u32At buf be (base + 20)).toNat ≤ buf.length then
        some { be := be, cputype := u32At buf be (base + 4), ncmds := (u32At buf be (base + 16)).toNat
               sizeofcmds := (u32At buf be (base + 20)).toNat, cmdStart := base + headerLen
               cmdEnd := base + headerLen + (u32At buf be (base + 20)).toNat } else none := by
      rw [regionAt, header]
    apply Ends.congr
    · apply (readU32_ends addressable _).read
      rw [header, refuse_ok, ok_bind]
      dsimp only
      rw [addOn_small (by omega), ok_bind]
      apply (readU32_ends addressable _).read
      rw [addOn_small (by omega), ok_bind]
      apply (readU32_ends addressable _).read
      rw [addOn_small (by omega), ok_bind]
      apply (readU32_ends addressable _).read
      rw [checkedAddOn, if_pos (by omega), orFail, refuse_ok, ok_bind]
      apply sum_ends
      · omega
      intro fits
      apply Ends.ret
      rw [region, if_pos fits]
    · simp only [and_false]
    · rw [region]
      simp only [and_true]
      split
      · exact iff_of_true (by omega) rfl
      · exact iff_of_false (by omega) Bool.false_ne_true

omit addressable in
theorem regionAt_some {base : Nat} {region : Region} (found : regionAt buf base = some region) :
    region.cmdEnd ≤ buf.length ∧ region.ncmds < 2 ^ 32 := by
  rw [regionAt] at found
  split at found
  · cases found
  dsimp only at found
  split at found
  · rename_i within
    cases found
    exact ⟨within, u32At_lt buf _ _⟩
  · cases found

theorem parseThin_ends {base : Nat} (inside : base ≤ buf.length) :
    Ends (OverfullImage usize buf base) (SoundImage buf base) (fun _ => True) (parseThin usize buf base) := by
  have read : ∀ region, regionAt buf base = some region →
      Ends (OverfullImage usize buf base) (SoundImage buf base) (fun _ => True)
        (readCommands usize buf region.be region.cmdEnd region.ncmds region.first) := by
    intro region found
    have within := (regionAt_some found).1
    have held := @readCommands_ends usize buf region.be addressable region.cmdEnd region.ncmds region.first within
      (Nat.zero_le _) (Nat.zero_le _)
    apply held.congr
    · rw [OverfullImage, found]
      simp only [Option.mem_some_iff, exists_eq_left', Overfills, Region.first, List.length_nil, Nat.zero_add]
    · rw [SoundImage, found]
      simp only [Option.mem_some_iff, exists_eq_left', Region.first]
  rw [parseThin]
  apply Ends.congr
  · apply (readRegion_ends addressable inside).bind
    intro region found
    apply (read region found).made
    exact fun _ _ => trivial
  · rw [false_or]
    refine and_iff_right_of_imp ?_
    rintro ⟨region, found, -⟩
    exact Option.isSome_of_mem found
  · refine and_iff_right_of_imp ?_
    rintro ⟨region, found, -⟩
    exact Option.isSome_of_mem found

section Images
variable {left i : Nat}
omit addressable

theorem imagesFrom_overfull :
    ((extentAt buf be i).offset + (extentAt buf be i).size ≤ buf.length ∧
        (OverfullImage usize buf (extentAt buf be i).offset ∨ SoundImage buf (extentAt buf be i).offset ∧
          ∃ base ∈ (imagesFrom buf be left (i + 1)).1, OverfullImage usize buf base)) ↔
      ∃ base ∈ (imagesFrom buf be (left + 1) i).1, OverfullImage usize buf base := by
  rw [imagesFrom]
  by_cases within : (extentAt buf be i).offset + (extentAt buf be i).size ≤ buf.length
  swap
  · simp only [within, false_and, if_false, List.not_mem_nil, exists_false]
  by_cases sound : SoundImage buf (extentAt buf be i).offset
  · simp only [within, sound, true_and, if_true, List.exists_mem_cons_iff]
  · simp only [within, sound, true_and, if_true, false_and, or_false, if_false, List.mem_singleton, exists_eq_left]

theorem imagesFrom_sound :
    ((extentAt buf be i).offset + (extentAt buf be i).size ≤ buf.length ∧ SoundImage buf (extentAt buf be i).offset ∧
        (imagesFrom buf be left (i + 1)).2 = true) ↔ (imagesFrom buf be (left + 1) i).2 = true := by
  rw [imagesFrom]
  by_cases within : (extentAt buf be i).offset + (extentAt buf be i).size ≤ buf.length
  swap
  · simp only [within, false_and, if_false, Bool.false_eq_true]
  by_cases sound : SoundImage buf (extentAt buf be i).offset
  · simp only [within, sound, true_and, if_true]
  · simp only [within, sound, false_and, and_false, if_true, if_false, Bool.false_eq_true]

end Images

/-- The images of a fat file are read up to one that is not sound. -/
theorem parseArchs_ends {left i : Nat} {slices : List Slice} (table : 8 + (i + left) * 20 ≤ buf.length) :
    Ends (∃ base ∈ (imagesFrom buf be left i).1, OverfullImage usize buf base) ((imagesFrom buf be left i).2 = true)
      (fun _ => True) (parseArchs usize buf be left i slices) := by
  have width := usize.bits_pos
  induction left generalizing i slices with
  | zero =>
    refine .gives ?_ rfl trivial
    rintro ⟨base, listed, -⟩
    cases listed
  | succ left ih =>
    have whole : (i + (left + 1)) * 20 = i * 20 + 20 + left * 20 := by omega
    rw [parseArchs, mulOn_small (by omega), ok_bind, addOn_small (by omega), ok_bind,
      readU32_inside addressable (by omega), ok_bind, addOn_small (by omega), ok_bind,
      readU32_inside addressable (by omega), ok_bind, addOn_small (by omega), ok_bind,
      readU32_inside addressable (by omega), ok_bind]
    apply Ends.congr
    · apply sum_ends
      · omega
      intro fits
      apply (parseThin_ends addressable (by omega)).bind
      exact fun image _ => ih (by omega)
    · exact imagesFrom_overfull
    · exact imagesFrom_sound

theorem parseFat_ends (swapped : Bool) :
    Ends (8 + (u32At buf (!swapped) 4).toNat * 20 ≤ buf.length ∧
        (capacityOf usize.bits (usize.words 10) < (u32At buf (!swapped) 4).toNat ∨
          ∃ base ∈ (imagesFrom buf (!swapped) (u32At buf (!swapped) 4).toNat 0).1, OverfullImage usize buf base))
      (8 + (u32At buf (!swapped) 4).toNat * 20 ≤ buf.length ∧
        (imagesFrom buf (!swapped) (u32At buf (!swapped) 4).toNat 0).2 = true)
      (fun _ => True) (parseFat usize buf swapped) := by
  have width := usize.bits_pos
  rw [parseFat]
  dsimp only
  by_cases there : 4 + 4 ≤ buf.length
  swap
  · rw [readU32_outside (Nat.not_le.mp there)]
    exact .refuses (fun both => there (by omega)) (fun both => there (by omega)) _
  rw [readU32_inside addressable there, ok_bind, checkedMulOn]
  split
  swap
  · exact .refuses (fun both => by omega) (fun both => by omega) _
  rw [orFail, refuse_ok, ok_bind]
  apply sum_ends
  · omega
  intro fits
  apply Ends.congr
  · apply Ends.demand.bind
    intro _ _
    apply (parseArchs_ends addressable (by omega)).made
    exact fun _ _ => trivial
  · rw [true_and, Nat.not_le]
  · rw [true_and]

/-- The parser is defined exactly where the file is not overfull. -/
theorem parse_defined_iff : (∃ result, parse usize buf = refuse result) ↔ ¬ Overfull usize buf := by
  have image := @parseThin_ends usize buf addressable 0 (Nat.zero_le _)
  rw [parse]
  by_cases there : 0 + 4 ≤ buf.length
  swap
  · rw [readU32_outside (Nat.not_le.mp there)]
    refine iff_of_true ⟨.error _, rfl⟩ ?_
    rintro (⟨-, overfull⟩ | ⟨fat, -, table, -⟩)
    · refine image.defined_iff.mp ⟨.error (.outOfBounds "thin magic"), ?_⟩ overfull
      rw [parseThin, readRegion, readU32_outside (Nat.not_le.mp there)]
      rfl
    · omega
  rw [readU32_inside addressable there, ok_bind]
  by_cases be : u32At buf false 0 = fatMagic
  · have fat : fatHeader buf = some (false, (u32At buf false 4).toNat) := by rw [fatHeader, if_pos be]
    rw [if_pos (.inl be), (parseFat_ends addressable _).defined_iff, Overfull, fat]
    simp only [be, decide_true, Bool.not_true, reduceCtorEq, false_and, false_or, Option.mem_some_iff, exists_eq_left']
  by_cases le : u32At buf false 0 = fatCigam
  · have fat : fatHeader buf = some (true, (u32At buf true 4).toNat) := by rw [fatHeader, if_neg be, if_pos le]
    rw [if_pos (.inr le), (parseFat_ends addressable _).defined_iff, Overfull, fat]
    simp only [be, decide_false, Bool.not_false, reduceCtorEq, false_and, false_or, Option.mem_some_iff, exists_eq_left']
  have thin : fatHeader buf = none := by rw [fatHeader, if_neg be, if_neg le]
  have overfull : Overfull usize buf ↔ OverfullImage usize buf 0 := by
    rw [Overfull, thin]
    simp only [true_and, Option.not_mem_none, false_and, exists_false, or_false]
  rw [if_neg (not_or.mpr ⟨be, le⟩), overfull]
  split
  · have made : Ends _ _ (fun _ => True) (parseThin usize buf 0 >>= fun parsed => .ok (⟨[parsed]⟩ : MachInfo)) :=
      image.made fun _ _ => trivial
    exact made.defined_iff
  · rename_i unknown
    obtain ⟨not32, not64, not32be, not64be⟩ : _ ∧ _ ∧ _ ∧ _ := by simpa only [not_or] using unknown
    have bad : headerOf (u32At buf false 0) = .error (.badMagic (u32At buf false 0)) := by
      rw [headerOf, if_neg not32, if_neg not64, if_neg not32be, if_neg not64be]
    refine iff_of_true ⟨.error _, rfl⟩ ?_
    rintro ⟨region, found, -⟩
    rw [regionAt, bad] at found
    cases found

end Commands

section Wide
variable {buf : Bytes} {be : Bool}

theorem commandsFrom_length {cmdEnd ncmds off : Nat} : (commandsFrom buf be cmdEnd ncmds off).1.length ≤ ncmds := by
  induction ncmds generalizing off with
  | zero => exact Nat.le_refl 0
  | succ ncmds ih =>
    rw [commandsFrom]
    split
    · exact Nat.succ_le_succ ih
    · exact Nat.zero_le _

theorem doubledTo_le (len size : Nat) : doubledTo len size ≤ 4 * len := by
  unfold doubledTo
  split
  · omega
  split <;> omega

/-- A name has less than `2 ^ 32` bytes, and its text four times as many. -/
theorem bulky_wide (off : Nat) : ¬ Bulky .u64 (nameAt buf be off) := by
  have size : sizeAt buf be off < 2 ^ 32 := u32At_lt buf be (off + 4)
  have short : (nameAt buf be off).length ≤ sizeAt buf be off - nameOffAt buf be off :=
    (List.takeWhile_prefix _).length_le.trans (List.length_take_le _ _)
  have room : 4 * 2 ^ 32 ≤ isizeMax Usize.u64.bits := by decide
  have text := doubledTo_le (nameAt buf be off).length (fromUtf8Lossy (nameAt buf be off)).utf8ByteSize
  rw [Bulky]
  omega

theorem overfullImage_wide (base : Nat) : ¬ OverfullImage .u64 buf base := by
  rintro ⟨region, found, ⟨off, -, -, bulky⟩ | many⟩
  · exact bulky_wide off bulky
  have ncmds := (regionAt_some found).2
  have held := @commandsFrom_length buf region.be region.cmdEnd region.ncmds region.cmdStart
  have deps : 2 ^ 32 ≤ Usize.u64.deps := by decide
  have rpaths : 2 ^ 32 ≤ Usize.u64.rpaths := by decide
  rcases many with crowd | crowd
  · exact absurd ((crowd.trans_le List.countP_le_length).trans_le held) (by omega)
  · exact absurd ((crowd.trans_le List.countP_le_length).trans_le held) (by omega)

theorem fatHeader_lt {fat : Bool × Nat} (found : fatHeader buf = some fat) : fat.2 < 2 ^ 32 := by
  rw [fatHeader] at found
  split at found
  · cases found
    exact u32At_lt buf false 4
  split at found
  · cases found
    exact u32At_lt buf true 4
  · cases found

/-- With words of 64 bits everything that four bytes can count fits. -/
theorem overfull_wide : ¬ Overfull .u64 buf := by
  have images : 2 ^ 32 ≤ capacityOf Usize.u64.bits (Usize.u64.words 10) := by decide
  rintro (⟨-, image⟩ | ⟨fat, found, -, many | ⟨base, -, image⟩⟩)
  · exact overfullImage_wide 0 image
  · have count := fatHeader_lt found
    omega
  · exact overfullImage_wide base image

end Wide

/-- The parser gives slices or an error, without a fault on the way, exactly where the file is not overfull; with words of
64 bits none is, and the result is that of the parser without the steps that can fault. Whatever image it reads, every
load command moves on by eight bytes at least and stays in the region, so that no more of them are read than fit there. -/
theorem parse_bounded {usize : Usize} {buf : Bytes} (addressable : buf.length < 2 ^ (usize.bits - 1)) :
    ((∃ result, parse usize buf = refuse result) ↔ ¬ Overfull usize buf) ∧
      (usize = .u64 → ¬ Overfull usize buf ∧ parse usize buf = refuse (Macho.parse buf)) ∧
      ∀ base region, readRegion usize buf base = .ok region →
        (region.cmdEnd = region.cmdStart + region.sizeofcmds ∧ region.cmdEnd ≤ buf.length) ∧
          (∀ cursor cursor', Visits usize buf region cursor → turn usize buf region.be region.cmdEnd cursor = .ok cursor' →
            region.cmdStart ≤ cursor.off ∧ cursor.off + 8 ≤ cursor'.off ∧ cursor'.off ≤ region.cmdEnd) ∧
          completed usize buf region.be region.cmdEnd region.ncmds region.first ≤ region.sizeofcmds / 8 := by
  refine ⟨parse_defined_iff addressable, fun wide => ?_, fun base region read => ?_⟩
  · have fits : ¬ Overfull usize buf := by
      subst wide
      exact overfull_wide
    obtain ⟨result, ran⟩ := (parse_defined_iff addressable).mpr fits
    exact ⟨fits, ran.trans (congrArg refuse (parse_follows addressable result ran wide))⟩
  · have ends := readRegion_inside read
    refine ⟨ends, fun cursor cursor' visits step => ?_, ?_⟩
    · have advance := turn_advances step
      exact ⟨(visits_inside read visits).1, advance.1, advance.2⟩
    · have bound := @completed_le usize buf region.be region.cmdEnd region.ncmds region.first (visits_inside read .refl).2
      have start : region.first.off = region.cmdStart := rfl
      omega

theorem parse_bounded_library : libraryFat.length < 2 ^ (Usize.u32.bits - 1) ∧ ¬ Overfull .u32 libraryFat ∧
    ∃ result, parse .u32 libraryFat = refuse result := by
  have addressable : libraryFat.length < 2 ^ (Usize.u32.bits - 1) := by decide
  have fits : ¬ Overfull .u32 libraryFat := by decide
  exact ⟨addressable, fits, (parse_bounded addressable).1.mpr fits⟩

section Crowded

/-- A fat file with so many empty entries. -/
def emptyFat (nfat : Nat) : Bytes := toBe 4 fatMagic.toNat ++ toBe 4 nfat ++ List.replicate (nfat * 20) 0

variable {nfat : Nat}

theorem emptyFat_length : (emptyFat nfat).length = 8 + nfat * 20 := by
  rw [emptyFat, List.length_append, List.length_append, toBe_length, toBe_length, List.length_replicate]

theorem emptyFat_header (small : nfat < 2 ^ 32) : fatHeader (emptyFat nfat) = some (true, nfat) := by
  have magic : part (emptyFat nfat) 0 4 = toBe 4 fatMagic.toNat := by
    rw [emptyFat, List.append_assoc, part, List.drop_zero, List.take_left' (toBe_length _ _)]
  have count : part (emptyFat nfat) 4 4 = toBe 4 nfat := by
    rw [emptyFat, List.append_assoc, part, List.drop_left' (toBe_length _ _), List.take_left' (toBe_length _ _)]
  have cigam : u32At (emptyFat nfat) false 0 = fatCigam := by
    rw [u32At, magic]
    decide
  have number : u32At (emptyFat nfat) true 4 = UInt32.ofNat nfat := by
    rw [u32At, count, if_pos rfl, ofBe_toBe small]
  rw [fatHeader, cigam, if_neg (by decide), if_pos rfl, number, UInt32.toNat_ofNat_of_lt' small]

theorem crowded_fat_faults : (emptyFat 53687092).length = 1073741848 ∧
    (emptyFat 53687092).length < 2 ^ (Usize.u32.bits - 1) ∧
    ¬ ∃ result, parse .u32 (emptyFat 53687092) = refuse result := by
  have addressable : (emptyFat 53687092).length < 2 ^ (Usize.u32.bits - 1) := by
    rw [emptyFat_length]
    decide
  refine ⟨emptyFat_length, addressable, fun defined => (parse_defined_iff addressable).mp defined ?_⟩
  refine .inr ⟨(true, 53687092), emptyFat_header (by decide), ?_, .inl (by decide)⟩
  rw [emptyFat_length]

end Crowded

end Bsdos.Macho.Bounded
