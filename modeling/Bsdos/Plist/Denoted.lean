import Bsdos.Effects.Results
import Bsdos.Plist.Decoded
import Mathlib.Data.List.Forall2

namespace Bsdos.Plist
open Octets

/-- The tree that unfolds from an object of a file, through objects that all have a property, nested at
most so deep. -/
def DenotesBy (Only : Stored → Prop) (buf : Bytes) (offsets : List Nat) (refSize : Nat) : Nat → Nat → BPlistValue → Prop
  | 0, _, _ => False
  | depth + 1, i, tree => ∃ stored, StoredAt buf offsets refSize i stored ∧ Only stored ∧
      stored.Means (DenotesBy Only buf offsets refSize depth) tree

/-- The offsets of the objects, as they are in the table. -/
def offsetTable (bytes : Bytes) : List Nat :=
  let trailer := readTrailer bytes
  (List.range trailer.numObjects).map fun i =>
    ofBe (part bytes (trailer.offsetTableOffset + i * trailer.offsetIntSize) trailer.offsetIntSize)

def AssignsBy (Only : Stored → Prop) (bytes : Bytes) (tree : BPlistValue) : Prop :=
  ∃ depth, DenotesBy Only bytes (offsetTable bytes) (readTrailer bytes).objectRefSize depth (readTrailer bytes).topObject tree

/-- The value that the format assigns to the top object of a file. -/
def Assigns (bytes : Bytes) (tree : BPlistValue) : Prop := AssignsBy (fun _ => True) bytes tree

/-- The file is well formed below its top object, and no number there is stored in sixteen bytes of which
the first eight do not give it. -/
def NarrowFile (bytes : Bytes) : Prop := ∃ tree, AssignsBy Stored.Narrow bytes tree

theorem Stored.Means.imp {child child' : Nat → BPlistValue → Prop} (below : ∀ ref tree, child ref tree → child' ref tree)
    {stored : Stored} {tree : BPlistValue} (means : stored.Means child tree) : stored.Means child' tree := by
  cases stored with
  | array count refs =>
    obtain ⟨items, each, made⟩ := means
    exact ⟨items, each.imp below, made⟩
  | dict count refs =>
    obtain ⟨entries, each, distinct, made⟩ := means
    exact ⟨entries, each.imp fun ref entry both => ⟨below _ _ both.1, below _ _ both.2⟩, distinct, made⟩
  | _ => exact means

/-- What an object without children means does not depend on other objects. -/
theorem Stored.Means.leaf {child : Nat → BPlistValue → Prop} {stored : Stored} {tree : BPlistValue} (leaf : stored.Leaf)
    (means : stored.Means child tree) (child' : Nat → BPlistValue → Prop) : stored.Means child' tree := by
  cases stored with
  | array count refs => exact leaf.elim
  | dict count refs => exact leaf.elim
  | _ => exact means

section Denoted
variable {buf : Bytes} {offsets : List Nat} {refSize fuel depth i d d' : Nat} {tree tree' : BPlistValue} {α β : Type}

theorem DenotesBy.imp {Only Only' : Stored → Prop} (weaker : ∀ stored, Only stored → Only' stored)
    (denotes : DenotesBy Only buf offsets refSize depth i tree) : DenotesBy Only' buf offsets refSize depth i tree := by
  induction depth generalizing i tree with
  | zero => exact denotes.elim
  | succ depth ih =>
    obtain ⟨stored, object, only, means⟩ := denotes
    exact ⟨stored, object, weaker stored only, means.imp fun _ _ => ih⟩

/-- A run over a list makes each of its steps. -/
theorem Budget.mapM_each {step : α → Budget β} {refs : List α} {items : List β} (ran : refs.mapM step d = .ok (items, d')) :
    List.Forall₂ (fun ref item => ∃ d d', step ref d = .ok (item, d')) refs items := by
  induction refs generalizing items d with
  | nil =>
    cases Budget.pure_ok.mp ran
    exact .nil
  | cons ref refs ih =>
    rw [List.mapM_cons] at ran
    obtain ⟨item, left, first, ran⟩ := Budget.bind_ok.mp ran
    obtain ⟨items, left', others, done⟩ := Budget.bind_ok.mp ran
    cases Budget.pure_ok.mp done
    exact .cons ⟨d, left, first⟩ (ih others)

theorem parseEntry_ok {child : Nat → Budget BPlistValue} {ref : Nat × Nat} {entry : BPlistValue × BPlistValue}
    (ran : parseEntry child ref d = .ok (entry, d')) :
    ∃ between, child ref.1 d = .ok (entry.1, between) ∧ child ref.2 between = .ok (entry.2, d') := by
  obtain ⟨keyObj, afterKey, keyRan, ran⟩ := Budget.bind_ok.mp ran
  obtain ⟨valObj, afterValue, valueRan, made⟩ := Budget.bind_ok.mp ran
  cases Budget.pure_ok.mp made
  exact ⟨afterKey, keyRan, valueRan⟩

/-- What is found twice for each of a list is the same list. -/
theorem forall₂_unique {γ : Type} {R : α → β → Prop} {S : α → γ → Prop} {f : β → γ} {as : List α} {bs : List β} {cs : List γ}
    (left : List.Forall₂ R as bs) (right : List.Forall₂ S as cs) (unique : ∀ a b c, R a b → S a c → c = f b) :
    cs = bs.map f := by
  induction left generalizing cs with
  | nil => rw [List.forall₂_nil_left_iff.mp right, List.map_nil]
  | cons here _ ih =>
    obtain ⟨c, cs', there, others, rfl⟩ := List.forall₂_cons_left_iff.mp right
    rw [ih others, unique _ _ _ here there, List.map_cons]

variable {trailer : Trailer} (measured : Measured buf trailer.objectRefSize)
include measured

/-- If the objects are narrow, what is read is what they mean. -/
theorem DenotesBy.read (denotes : DenotesBy Stored.Narrow buf offsets trailer.objectRefSize depth i tree)
    (ran : parseObject buf offsets trailer fuel i d = .ok (tree', d')) : tree' = tree := by
  induction depth generalizing fuel i d d' tree tree' with
  | zero => exact denotes.elim
  | succ depth ih =>
    obtain ⟨stored, object, narrow, means⟩ := denotes
    cases d with
    | zero => exact absurd (parseObject_spent offsets trailer fuel i) (by rw [ran]; simp)
    | succ d =>
      cases fuel with
      | zero => cases ran
      | succ fuel =>
        by_cases leaf : stored.Leaf
        · rw [object.leaf measured leaf] at ran
          cases ran
          obtain ⟨off, -, holds⟩ := object.held
          exact (Stored.read_iff holds object.fits leaf measured.small means).mpr narrow
        · cases stored with
          | array count refs =>
            obtain ⟨items, below, rfl⟩ := means
            obtain ⟨items', left, all, made⟩ := (object.array measured).mp ran
            cases made
            have kept : count.Narrow refs.length := narrow
            rw [if_pos kept] at all
            have same := forall₂_unique (f := id) below (Budget.mapM_each all)
              (fun ref item item' means ⟨_, _, ran⟩ => ih means ran)
            rw [same, List.map_id]
          | dict count refs =>
            obtain ⟨entries, below, distinct, rfl⟩ := means
            obtain ⟨entries', left, all, made⟩ := (object.dict measured).mp ran
            cases made
            have kept : count.Narrow refs.length := narrow
            rw [if_pos kept] at all
            have same := forall₂_unique (f := fun entry : String × BPlistValue => (BPlistValue.str entry.1, entry.2)) below
              (Budget.mapM_each all) (fun ref entry entry' means ⟨_, _, ran⟩ => by
                obtain ⟨between, keyRan, valueRan⟩ := parseEntry_ok ran
                exact Prod.ext (ih means.1 keyRan) (ih means.2 valueRan))
            rw [same, foldl_insertEntry]
            rfl
          | _ => exact absurd trivial leaf

theorem DenotesBy.key {Only : Stored → Prop} {key : String} {value : BPlistValue}
    (denotes : DenotesBy Only buf offsets trailer.objectRefSize depth i (.str key))
    (ran : parseObject buf offsets trailer fuel i d = .ok (value, d')) : ∃ key', value = .str key' ∧ (key' = key ∨ key' = "") := by
  cases depth with
  | zero => exact denotes.elim
  | succ depth =>
    obtain ⟨stored, object, -, means⟩ := denotes
    exact object.key measured means ran

/-- If what is read is what the objects mean, they are narrow. -/
theorem DenotesBy.narrow (denotes : DenotesBy (fun _ => True) buf offsets trailer.objectRefSize depth i tree)
    (ran : parseObject buf offsets trailer fuel i d = .ok (tree, d')) :
    DenotesBy Stored.Narrow buf offsets trailer.objectRefSize depth i tree := by
  induction depth generalizing fuel i d d' tree with
  | zero => exact denotes.elim
  | succ depth ih =>
    obtain ⟨stored, object, -, means⟩ := denotes
    cases d with
    | zero => exact absurd (parseObject_spent offsets trailer fuel i) (by rw [ran]; simp)
    | succ d =>
      cases fuel with
      | zero => cases ran
      | succ fuel =>
        by_cases leaf : stored.Leaf
        · rw [object.leaf measured leaf] at ran
          obtain ⟨off, -, holds⟩ := object.held
          have read : stored.read = tree := (Prod.mk.inj (Except.ok.inj ran)).1
          exact ⟨stored, object, (Stored.read_iff holds object.fits leaf measured.small means).mp read, means.leaf leaf _⟩
        · cases stored with
          | array count refs =>
            obtain ⟨items, below, rfl⟩ := means
            obtain ⟨items', left, all, made⟩ := (object.array measured).mp ran
            cases made
            have kept : count.Narrow refs.length := by
              by_contra wide
              rw [if_neg wide] at all
              cases Budget.pure_ok.mp all
              exact wide (below.length_eq ▸ Count.narrow_zero)
            rw [if_pos kept] at all
            have each := below.mp (fun ref item means ⟨_, _, ran⟩ => ih means ran) (Budget.mapM_each all)
            exact ⟨_, object, kept, items, each, rfl⟩
          | dict count refs =>
            obtain ⟨entries, below, distinct, rfl⟩ := means
            obtain ⟨read, left, all, made⟩ := (object.dict measured).mp ran
            have perm := OrderedMap.ofEntries_perm distinct
            obtain ⟨tree, rfl⟩ := Prod.mk.inj made
            have kept : count.Narrow refs.length := by
              by_contra wide
              rw [if_neg wide] at all
              cases Budget.pure_ok.mp all
              have none : OrderedMap.ofEntries entries = [] := BPlistValue.dict.inj tree
              have empty : refs.length = 0 := by
                rw [below.length_eq, ← perm.length_eq, none]
                rfl
              exact wide (empty ▸ Count.narrow_zero)
            rw [if_pos kept] at all
            have text : ∀ ref key, DenotesBy (fun _ => True) buf offsets trailer.objectRefSize depth ref (.str key) →
                ∀ value d d', parseObject buf offsets trailer fuel ref d = .ok (value, d') →
                  ∃ key', value = .str key' ∧ (key' = key ∨ key' = "") :=
              fun _ _ means _ _ _ ran => means.key measured ran
            obtain ⟨keyed, rfl, keys⟩ := entries_keys text below all
            rw [foldl_insertEntry] at tree
            have same := OrderedMap.ofEntries_inj distinct keys (BPlistValue.dict.inj tree).symm
            subst same
            refine ⟨_, object, kept, keyed, ?_, distinct, rfl⟩
            refine below.mp ?_ (List.forall₂_map_right_iff.mp (Budget.mapM_each all))
            rintro ref entry means ⟨_, _, ran⟩
            obtain ⟨between, keyRan, valueRan⟩ := parseEntry_ok ran
            exact ⟨ih means.1 keyRan, ih means.2 valueRan⟩
          | _ => exact absurd trivial leaf

end Denoted
/-- The loop over the offset table gives what is in it. -/
theorem readOffsets_table {bytes : Bytes} {tableOffset size left i : Nat} {offsets : List Nat} (narrow : size ≤ 8)
    (ok : readOffsets bytes tableOffset size left i = .ok offsets) :
    offsets = (List.range' i left).map fun i => ofBe (part bytes (tableOffset + i * size) size) := by
  induction left generalizing i offsets with
  | zero => exact (Except.ok.inj ok).symm
  | succ left ih =>
    rw [readOffsets] at ok
    simp only [Results.guard_ok] at ok
    obtain ⟨-, ok⟩ := ok
    obtain ⟨rest, others, made⟩ := Results.bind_ok ok
    have eight : (part bytes (tableOffset + i * size) size).take 8 = part bytes (tableOffset + i * size) size :=
      List.take_of_length_le ((List.length_take_le _ _).trans narrow)
    rw [← Except.ok.inj made, ih others, List.range'_succ, List.map_cons, readBeUint]
    exact congrArg (fun bytes => ofBe bytes :: _) eight

/-- A file that is decoded is decoded by reading its top object. -/
theorem parseBplist_ok {bytes : Bytes} {tree : BPlistValue} (addressable : bytes.length < 2 ^ 63)
    (ok : parseBplist bytes = .ok tree) : Measured bytes (readTrailer bytes).objectRefSize ∧
      ∃ left, parseObject bytes (offsetTable bytes) (readTrailer bytes) depthBudget (readTrailer bytes).topObject depthBudget =
        .ok (tree, left) := by
  rw [parseBplist] at ok
  simp only [Results.guard_ok] at ok
  obtain ⟨long, magic, intSize, refSize, some, top, ok⟩ := ok
  obtain ⟨span, -, ok⟩ := Results.bind_ok ok
  obtain ⟨stop, -, ok⟩ := Results.bind_ok ok
  obtain ⟨inside, ok⟩ := Results.guard_ok.mp ok
  obtain ⟨offsets, table, ok⟩ := Results.bind_ok ok
  obtain ⟨⟨value, left⟩, ran, made⟩ := Results.bind_ok ok
  cases Except.ok.inj made
  refine ⟨⟨by omega, by omega, addressable⟩, left, ?_⟩
  have same := readOffsets_table (by omega) table
  rw [offsetTable, List.range_eq_range', ← same]
  exact ran

/-- A decoded file has the value that the format assigns to it exactly if the format assigns one, through
objects of which none stores a number in sixteen bytes that its first eight do not give. -/
theorem decoded_assigned_iff {bytes : Bytes} {tree : BPlistValue} (addressable : bytes.length < 2 ^ 63)
    (ok : parseBplist bytes = .ok tree) : Assigns bytes tree ↔ NarrowFile bytes := by
  obtain ⟨measured, left, ran⟩ := parseBplist_ok addressable ok
  constructor
  · rintro ⟨depth, denotes⟩
    exact ⟨tree, depth, denotes.narrow measured ran⟩
  · rintro ⟨tree', depth, denotes⟩
    rw [denotes.read measured ran]
    exact ⟨depth, denotes.imp fun _ _ => trivial⟩

/-- What an encoding encodes is what the format assigns to it. -/
theorem Encoding.assigns (file : Encoding) {Only : Stored → Prop} (all : ∀ stored ∈ file.objects, Only stored) :
    AssignsBy Only file.bytes file.tree := by
  have table : offsetTable file.bytes = file.offsets := by
    have read := readOffsets_table file.intSize.2 file.readOffsets
    rw [offsetTable, file.readTrailer, List.range_eq_range', read]
    rfl
  have each {depth i : Nat} {tree : BPlistValue} (unfolds : Unfolds file.objects depth i tree) :
      DenotesBy Only file.bytes file.offsets file.geometry.objectRefSize depth i tree := by
    induction depth generalizing i tree with
    | zero => exact unfolds.elim
    | succ depth ih =>
      obtain ⟨stored, known, means⟩ := unfolds
      exact ⟨stored, file.objects_placed.found known, all stored (List.mem_of_getElem? known), means.imp fun _ _ => ih⟩
  refine ⟨file.depth, ?_⟩
  rw [table, file.readTrailer]
  exact each file.unfolds

theorem unused_zeros : ([0, 0, 0, 0, 0, 0] : Bytes).length = 6 := rfl

theorem one_byte_wide : 1 ≤ 1 ∧ 1 ≤ 8 := by decide

theorem eight_fits : ∀ off ∈ [8], off < 256 ^ 1 := by decide

/-- A file with nothing but an integer. -/
def integerFile (pow : Nat) (n : Int) (fits : (Stored.int pow n).Fits 1) : Encoding where
  objects := [.int pow n]
  offsets := [8]
  body := (Stored.int pow n).encode 1 ++ [8]
  unused := [0, 0, 0, 0, 0, 0]
  offsetIntSize := 1
  objectRefSize := 1
  topObject := 0
  offsetTableOffset := 8 + ((Stored.int pow n).encode 1).length
  depth := 1
  tree := .int n
  unused_length := unused_zeros
  intSize := one_byte_wide
  refSize := one_byte_wide
  fits := by simpa using fits
  offsets_fit := eight_fits
  small := by
    have width : 2 ^ pow ≤ 2 ^ 4 := Nat.pow_le_pow_right (by omega) fits.1
    simp only [Stored.encode, List.length_append, List.length_cons, toBe_length, List.length_nil]
    omega
  placed := .cons ((Holds.shift (Holds.whole _ _))) .nil
  table := by
    have held : Holds (bplistMagic ++ (Stored.int pow n).encode 1 ++ [8]) ((bplistMagic ++ (Stored.int pow n).encode 1).length + 0)
        [8] := (Holds.whole [8] []).shift
    rw [List.append_assoc, List.length_append] at held
    exact held
  unfolds := ⟨_, rfl, rfl⟩

theorem wide_fits : (Stored.int 4 1).Fits 1 := by simp [Stored.Fits]

def entryObjects : List Stored := [.dict .inline [(1, 2)], .ascii .inline "a", .array .inline [3], .int 0 42]

theorem entryObjects_fit : ∀ stored ∈ entryObjects, stored.Fits 1 := by
  simp [entryObjects, Stored.Fits, Count.Fits]

theorem entryObjects_narrow : ∀ stored ∈ entryObjects, stored.Narrow := by
  simp [entryObjects, Stored.Narrow, Count.Narrow]

theorem entryObjects_unfold : Unfolds entryObjects 3 0 (.dict (OrderedMap.ofEntries [("a", .array [.int 42])])) :=
  ⟨_, rfl, [("a", .array [.int 42])],
    .cons ⟨⟨_, rfl, rfl⟩, _, rfl, [.int 42], .cons ⟨_, rfl, rfl⟩ .nil, rfl⟩ .nil, by decide, rfl⟩

/-- A dictionary with one entry, `a`, whose value is an array of one number. -/
def entryFile : Encoding where
  objects := entryObjects
  offsets := [8, 11, 13, 15]
  body := [0xD1, 1, 2, 0x51, 0x61, 0xA1, 3, 0x10, 42, 8, 11, 13, 15]
  unused := [0, 0, 0, 0, 0, 0]
  offsetIntSize := 1
  objectRefSize := 1
  topObject := 0
  offsetTableOffset := 17
  depth := 3
  tree := .dict (OrderedMap.ofEntries [("a", .array [.int 42])])
  unused_length := unused_zeros
  intSize := one_byte_wide
  refSize := one_byte_wide
  fits := entryObjects_fit
  offsets_fit := by decide
  small := by decide
  placed := .cons ⟨by decide, by decide⟩ (.cons ⟨by decide, by decide⟩ (.cons ⟨by decide, by decide⟩
    (.cons ⟨by decide, by decide⟩ .nil)))
  table := ⟨by decide, by decide⟩
  unfolds := entryObjects_unfold

theorem decoded_assigned_entry : entryFile.bytes.length < 2 ^ 63 ∧
    parseBplist entryFile.bytes = .ok (.dict [("a", .array [.int 42])]) ∧
    Assigns entryFile.bytes (.dict [("a", .array [.int 42])]) := by
  have addressable : entryFile.bytes.length < 2 ^ 63 := by decide
  have ok : parseBplist entryFile.bytes = .ok (.dict [("a", .array [.int 42])]) := by rfl
  have narrow : NarrowFile entryFile.bytes := ⟨_, entryFile.assigns entryObjects_narrow⟩
  exact ⟨addressable, ok, (decoded_assigned_iff addressable ok).mpr narrow⟩

/-- The number one in sixteen bytes is read as zero. -/
theorem sixteen_bytes_misread : parseBplist (integerFile 4 1 wide_fits).bytes = .ok (.int 0) ∧
    Assigns (integerFile 4 1 wide_fits).bytes (.int 1) ∧ ¬ Assigns (integerFile 4 1 wide_fits).bytes (.int 0) := by
  refine ⟨by rfl, (integerFile 4 1 wide_fits).assigns fun _ _ => trivial, ?_⟩
  rintro ⟨depth, denotes⟩
  cases depth with
  | zero => exact denotes
  | succ depth =>
    obtain ⟨stored, object, -, means⟩ := denotes
    obtain ⟨off, place, holds⟩ := object.held
    have eight : (offsetTable (integerFile 4 1 wide_fits).bytes)[(readTrailer (integerFile 4 1 wide_fits).bytes).topObject]? =
        some 8 := by decide
    cases Option.some.inj (eight.symm.trans place)
    cases stored with
    | int pow n =>
      cases means
      have head := holds.head
      have four : pow = 4 := by
        have width := object.fits.1
        have known : (integerFile 4 1 wide_fits).bytes[8]? = some 0x14 := by decide
        have same := Option.some.inj (known.symm.trans head)
        have each : ∀ pow ≤ 4, (0x14 : UInt8) = UInt8.ofNat (0x10 + pow) → pow = 4 := by decide
        exact each pow width same
      subst four
      have taken := holds.taken
      revert taken
      decide
    | array count refs =>
      obtain ⟨items, -, wrong⟩ := means
      cases wrong
    | dict count refs =>
      obtain ⟨entries, -, -, wrong⟩ := means
      cases wrong
    | _ => cases means

end Bsdos.Plist
