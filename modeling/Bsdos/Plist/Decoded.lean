import Bsdos.Plist.Encoding

namespace Bsdos.Plist
open Octets

variable {α β : Type} {d d' : Nat} {buf rest bytes : Bytes} {off : Nat}

theorem Budget.bind_ok {x : Budget α} {f : α → Budget β} {r : β × Nat} :
    (x >>= f) d = .ok r ↔ ∃ a left, x d = .ok (a, left) ∧ f a left = .ok r := by
  change (x d >>= fun p => f p.1 p.2) = .ok r ↔ _
  cases x d with
  | error e => simp [bind, Except.bind]
  | ok p =>
    refine ⟨fun ran => ⟨p.1, p.2, rfl, ran⟩, ?_⟩
    rintro ⟨a, left, first, ran⟩
    obtain rfl := Except.ok.inj first
    exact ran

theorem Budget.pure_ok {a : α} {r : α × Nat} : (pure a : Budget α) d = .ok r ↔ r = (a, d) := by
  change Except.ok (a, d) = .ok r ↔ _
  simp [eq_comm]

/-- A step that the budget does not matter for. -/
theorem Budget.set_run (n d : Nat) : StateT.set (m := Except RunError) n d = .ok (⟨⟩, n) := rfl

theorem Budget.lift_bind {x : Except RunError α} {a : α} (known : x = .ok a) {f : α → Budget β} :
    ((liftM x : Budget α) >>= f) d = f a d := by
  subst known
  rfl

theorem sliceAt_holds (holds : Holds buf off bytes) (small : buf.length < 2 ^ 64) :
    sliceAt buf off bytes.length = .ok bytes := by
  have bound := holds.bound
  rw [sliceAt, checkedAdd_small (by omega)]
  simp only [orFail, bind, Except.bind, holds.slice]

theorem readBeUint_toBe {width n : Nat} (fits : n < 256 ^ width) :
    readBeUint (toBe width n) = n / 256 ^ (width - 8) := by
  have taken : (toBe width n).take 8 = toBe (width - (width - 8)) (n / 256 ^ (width - 8)) := by
    rw [toBe, List.take_reverse, toLe_length, toLe_drop, toBe]
  have power : 256 ^ (width - 8) * 256 ^ (width - (width - 8)) = 256 ^ width := by
    rw [← Nat.pow_add]
    congr 1
    omega
  rw [readBeUint, taken, ofBe_toBe]
  exact Nat.div_lt_of_lt_mul (power ▸ fits)

theorem readBeUint_small {width n : Nat} (fits : n < 256 ^ width) (narrow : width ≤ 8) : readBeUint (toBe width n) = n := by
  rw [readBeUint_toBe fits, Nat.sub_eq_zero_of_le narrow, Nat.pow_zero, Nat.div_one]

theorem marker_parts {kind n : Nat} (kinds : kind < 16) (small : n < 16) :
    UInt8.ofNat (16 * kind + n) >>> 4 = UInt8.ofNat kind ∧ (UInt8.ofNat (16 * kind + n) &&& 0x0F).toNat = n := by
  have all : ∀ kind < 16, ∀ n < 16, UInt8.ofNat (16 * kind + n) >>> 4 = UInt8.ofNat kind ∧
      (UInt8.ofNat (16 * kind + n) &&& 0x0F).toNat = n := by decide
  exact all kind kinds n small

/-- The number of elements that is read. -/
def Count.seen : Count → Nat → Nat
  | .inline, n => n
  | .extended pow, n => n / 256 ^ (2 ^ pow - 8)

theorem Count.seen_narrow {count : Count} {n : Nat} (fits : count.Fits n) (small : n < 2 ^ 63) :
    count.Narrow n ∧ count.seen n = n ∨ ¬ count.Narrow n ∧ count.seen n = 0 ∧ 0 < n := by
  cases count with
  | inline => exact .inl ⟨trivial, rfl⟩
  | extended pow =>
    by_cases narrow : pow ≤ 3
    · have width : 2 ^ pow ≤ 2 ^ 3 := Nat.pow_le_pow_right (by omega) narrow
      refine .inl ⟨.inl narrow, ?_⟩
      rw [seen, Nat.sub_eq_zero_of_le (by omega), Nat.pow_zero, Nat.div_one]
    · have four : pow = 4 := by
        have bound := fits.1
        omega
      subst four
      have none : n / 256 ^ (2 ^ 4 - 8) = 0 := Nat.div_eq_of_lt (by omega)
      by_cases zero : n = 0
      · exact .inl ⟨.inr zero, none.trans zero.symm⟩
      · exact .inr ⟨fun narrow => narrow.elim (by omega) zero, none, by omega⟩

/-- The marker of an object with a number of elements. -/
def Count.marker (kind n : Nat) : Count → UInt8
  | .inline => UInt8.ofNat (16 * kind + n)
  | .extended _ => UInt8.ofNat (16 * kind + 0xF)

theorem Count.encode_head (count : Count) (kind n : Nat) :
    ∃ tail, count.encode kind n = count.marker kind n :: tail := by
  cases count with
  | inline => exact ⟨_, rfl⟩
  | extended pow => exact ⟨_, rfl⟩

theorem Count.marker_kind {count : Count} {kind n : Nat} (fits : count.Fits n) (kinds : kind < 16) :
    count.marker kind n >>> 4 = UInt8.ofNat kind := by
  cases count with
  | inline => exact (marker_parts kinds (Nat.lt_succ_of_lt fits)).1
  | extended pow => exact (marker_parts kinds (by omega)).1

theorem readCount_holds {count : Count} {kind n : Nat} (holds : Holds buf off (count.encode kind n)) (fits : count.Fits n)
    (kinds : kind < 16) (small : buf.length < 2 ^ 64) :
    readCount buf off (count.marker kind n &&& 0x0F).toNat = .ok (count.seen n, off + (count.encode kind n).length) := by
  cases count with
  | inline =>
    have info : (Count.inline.marker kind n &&& 0x0F).toNat = n := (marker_parts kinds (Nat.lt_succ_of_lt fits)).2
    rw [info, readCount, if_pos (Nat.ne_of_lt fits)]
    rfl
  | extended pow =>
    have info : ((Count.extended pow).marker kind n &&& 0x0F).toNat = 0xF := (marker_parts kinds (by omega)).2
    have split : (Count.extended pow).encode kind n =
        [(Count.extended pow).marker kind n] ++ ([UInt8.ofNat (16 * 1 + pow)] ++ toBe (2 ^ pow) n) := rfl
    rw [split] at holds
    have next := holds.right.head
    obtain ⟨isInt, power⟩ := marker_parts (show 1 < 16 by omega) (show pow < 16 by have bound := fits.1; omega)
    have number := sliceAt_holds holds.right.right small
    rw [toBe_length] at number
    rw [info, readCount, if_neg (by simp)]
    have intMarker : buf[off + 1]? = some (UInt8.ofNat (16 * 1 + pow)) := next
    have typed : UInt8.ofNat (16 * 1 + pow) >>> 4 = 0x1 := isInt
    have data : sliceAt buf (off + 2) (2 ^ pow) = .ok (toBe (2 ^ pow) n) := number
    simp only [intMarker, orFail, bind, Except.bind, typed, ne_eq, not_true_eq_false, if_false, power, data, pure, Except.pure,
      readBeUint_toBe fits.2, split, Count.seen, List.length_append, List.length_singleton, toBe_length]
    congr 2
    omega

theorem Count.narrow_zero {count : Count} : count.Narrow 0 := by
  cases count with
  | inline => trivial
  | extended pow => exact .inr rfl

instance (count : Count) (n : Nat) : Decidable (count.Narrow n) := by
  cases count with
  | inline => exact isTrue trivial
  | extended pow => exact inferInstanceAs (Decidable (pow ≤ 3 ∨ n = 0))

/-- The elements that are read: all of them, or none if their number is lost. -/
theorem sliceAt_seen {count : Count} {width n : Nat} (holds : Holds buf off bytes) (length : bytes.length = n * width)
    (fits : count.Fits n) (bound : n < 2 ^ 63) (small : buf.length < 2 ^ 64) :
    sliceAt buf off (count.seen n * width) = .ok (if count.Narrow n then bytes else []) := by
  rcases Count.seen_narrow fits bound with ⟨narrow, seen⟩ | ⟨wide, seen, _⟩
  · rw [seen, if_pos narrow, ← length]
    exact sliceAt_holds holds small
  · have none : Holds buf off [] := ⟨holds.1, List.nil_prefix⟩
    rw [seen, if_neg wide, Nat.zero_mul]
    exact sliceAt_holds none small

/-- What the parser makes of an object without children. -/
def Stored.read : Stored → BPlistValue
  | .bool b => .bool b
  | .int pow n => .int (asI64 ((n % 256 ^ 2 ^ pow).toNat / 256 ^ (2 ^ pow - 8)))
  | .single bits => .real (Float32.ofBits bits).toFloat
  | .double bits => .real (Float.ofBits bits)
  | .data count bytes => .data (if count.Narrow bytes.length then bytes else [])
  | .ascii count text => .str (if count.Narrow text.toList.length then text else "")
  | .unicode count text => .str (if count.Narrow (utf16 text.toList).length then text else "")
  | _ => .null

def Stored.Leaf : Stored → Prop
  | .array _ _ => False
  | .dict _ _ => False
  | _ => True

theorem ascii_utf8 {cs : List Char} (ascii : ∀ c ∈ cs, c.toNat < 0x80) : cs.map (fun c => UInt8.ofNat c.toNat) = utf8 cs := by
  induction cs with
  | nil => rfl
  | cons c cs ih =>
    rw [List.map_cons, ih fun c' member => ascii c' (List.mem_cons_of_mem _ member), utf8_cons (ascii c List.mem_cons_self)]

theorem parseScalar_int {pow : Nat} {n : Int} {refSize : Nat} (holds : Holds buf off ((Stored.int pow n).encode refSize))
    (fits : (Stored.int pow n).Fits refSize) (small : buf.length < 2 ^ 63) :
    parseScalar buf off (UInt8.ofNat (0x10 + pow)) = .ok (Stored.int pow n).read := by
  obtain ⟨typed, info⟩ := marker_parts (show 1 < 16 by omega) (show pow < 16 by have bound := fits.1; omega)
  have kind : UInt8.ofNat (0x10 + pow) >>> 4 = 1 := typed
  have power : (UInt8.ofNat (0x10 + pow) &&& 0x0F).toNat = pow := info
  have split : (Stored.int pow n).encode refSize =
      [UInt8.ofNat (0x10 + pow)] ++ toBe (2 ^ pow) (n % 256 ^ 2 ^ pow).toNat := rfl
  rw [split] at holds
  have data := sliceAt_holds holds.right (by omega)
  rw [toBe_length] at data
  have inside : (n % 256 ^ 2 ^ pow).toNat < 256 ^ 2 ^ pow := by
    have positive : (0 : Int) < 256 ^ 2 ^ pow := Int.pow_pos (by omega)
    have below := Int.emod_lt_of_pos n positive
    have least := Int.emod_nonneg n (Int.ne_of_gt positive)
    have cast : ((256 ^ 2 ^ pow : Nat) : Int) = 256 ^ 2 ^ pow := by push_cast; rfl
    omega
  have number : sliceAt buf (off + 1) (2 ^ pow) = .ok (toBe (2 ^ pow) (n % 256 ^ 2 ^ pow).toNat) := data
  rw [parseScalar]
  simp only [kind, power, number, bind, Except.bind, pure, Except.pure, readBeUint_toBe inside, Stored.read]
  rfl

theorem parseScalar_data {count : Count} {refSize : Nat} (holds : Holds buf off ((Stored.data count bytes).encode refSize))
    (fits : count.Fits bytes.length) (small : buf.length < 2 ^ 63) :
    parseScalar buf off (count.marker 0x4 bytes.length) = .ok (Stored.data count bytes).read := by
  have bound := holds.right.bound
  have number := readCount_holds holds.left fits (by omega) (by omega)
  have kind : count.marker 0x4 bytes.length >>> 4 = 4 := Count.marker_kind fits (by omega)
  have data := sliceAt_seen holds.right (Nat.mul_one _).symm fits (by omega) (by omega)
  rw [Nat.mul_one] at data
  rw [parseScalar]
  simp only [kind, number, data, bind, Except.bind, pure, Except.pure]
  rfl

theorem parseScalar_ascii {count : Count} {text : String} {refSize : Nat}
    (holds : Holds buf off ((Stored.ascii count text).encode refSize)) (fits : (Stored.ascii count text).Fits refSize)
    (small : buf.length < 2 ^ 63) :
    parseScalar buf off (count.marker 0x5 text.toList.length) = .ok (Stored.ascii count text).read := by
  have bound := holds.right.bound
  rw [List.length_map] at bound
  have number := readCount_holds holds.left fits.1 (by omega) (by omega)
  have kind : count.marker 0x5 text.toList.length >>> 4 = 5 := Count.marker_kind fits.1 (by omega)
  have data := sliceAt_seen holds.right (by rw [List.length_map, Nat.mul_one]) fits.1 (by omega) (by omega)
  rw [Nat.mul_one, ascii_utf8 fits.2] at data
  rw [parseScalar, Stored.read]
  by_cases narrow : count.Narrow text.toList.length
  · simp only [kind, number, data, if_pos narrow, bind, Except.bind, pure, Except.pure, fromUtf8Lossy_utf8]
    rfl
  · simp only [kind, number, data, if_neg narrow, bind, Except.bind, pure, Except.pure]
    rfl

theorem parseScalar_unicode {count : Count} {text : String} {refSize : Nat}
    (holds : Holds buf off ((Stored.unicode count text).encode refSize)) (fits : (Stored.unicode count text).Fits refSize)
    (small : buf.length < 2 ^ 63) :
    parseScalar buf off (count.marker 0x6 (utf16 text.toList).length) = .ok (Stored.unicode count text).read := by
  have bound := holds.right.bound
  rw [bytesBe_length] at bound
  have number := readCount_holds holds.left fits (by omega) (by omega)
  have kind : count.marker 0x6 (utf16 text.toList).length >>> 4 = 6 := Count.marker_kind fits (by omega)
  have data := sliceAt_seen holds.right (by rw [bytesBe_length, Nat.mul_comm]) fits (by omega) (by omega)
  have seen : count.seen (utf16 text.toList).length * 2 < 2 ^ 64 := by
    rcases Count.seen_narrow fits (by omega) with ⟨_, seen⟩ | ⟨_, seen, _⟩ <;> rw [seen] <;> omega
  have byteLen : checkedMul (count.seen (utf16 text.toList).length) 2 = some _ := if_pos seen
  rw [parseScalar, Stored.read]
  by_cases narrow : count.Narrow (utf16 text.toList).length
  · simp only [kind, number, byteLen, orFail, data, if_pos narrow, bind, Except.bind, pure, Except.pure, decodeUtf16Be,
      unitsBe_bytesBe, fromUtf16Lossy_utf16]
    rfl
  · simp only [kind, number, byteLen, orFail, data, if_neg narrow, bind, Except.bind, pure, Except.pure, decodeUtf16Be]
    rfl

theorem parseScalar_real {refSize : Nat} {stored : Stored} {marker : UInt8} {width bits : Nat} {value : BPlistValue}
    (holds : Holds buf off (stored.encode refSize)) (encoded : stored.encode refSize = marker :: toBe width bits)
    (typed : marker >>> 4 = 0x2) (power : 2 ^ (marker &&& 0x0F).toNat = width) (fits : bits < 256 ^ width)
    (reads : ∀ data, ofBe data = bits → parseReal width data = .ok value) (small : buf.length < 2 ^ 63) :
    parseScalar buf off marker = .ok value := by
  have split : stored.encode refSize = [marker] ++ toBe width bits := encoded
  rw [split] at holds
  have data := sliceAt_holds holds.right (by omega)
  rw [toBe_length] at data
  have number : sliceAt buf (off + 1) width = .ok (toBe width bits) := data
  rw [parseScalar]
  simp only [typed, power, number, bind, Except.bind, reads _ (ofBe_toBe fits)]
  rfl

/-- An object without children, wherever it is. -/
theorem parseScalar_holds {stored : Stored} {refSize : Nat} (holds : Holds buf off (stored.encode refSize))
    (fits : stored.Fits refSize) (leaf : stored.Leaf) (small : buf.length < 2 ^ 63) :
    ∃ marker, buf[off]? = some marker ∧ marker >>> 4 ≠ 0xA ∧ marker >>> 4 ≠ 0xD ∧
      parseScalar buf off marker = .ok stored.read := by
  have counted {count : Count} {kind n : Nat} {payload : Bytes} {fits : count.Fits n} (small : kind < 7)
      (holds : Holds buf off (count.encode kind n ++ payload)) : buf[off]? = some (count.marker kind n) ∧
        count.marker kind n >>> 4 ≠ 0xA ∧ count.marker kind n >>> 4 ≠ 0xD := by
    obtain ⟨tail, encoded⟩ := count.encode_head kind n
    rw [encoded] at holds
    have kinds : ∀ kind < 7, UInt8.ofNat kind ≠ 0xA ∧ UInt8.ofNat kind ≠ 0xD := by decide
    rw [Count.marker_kind fits (by omega)]
    exact ⟨holds.head, kinds kind small⟩
  cases stored with
  | null => exact ⟨0x00, holds.head, by decide, by decide, rfl⟩
  | bool b =>
    cases b with
    | true => exact ⟨0x09, holds.head, by decide, by decide, rfl⟩
    | false => exact ⟨0x08, holds.head, by decide, by decide, rfl⟩
  | int pow n =>
    have typed : UInt8.ofNat (0x10 + pow) >>> 4 = 1 :=
      (marker_parts (show 1 < 16 by omega) (show pow < 16 by have bound := fits.1; omega)).1
    exact ⟨_, holds.head, by rw [typed]; decide, by rw [typed]; decide, parseScalar_int holds fits small⟩
  | single bits =>
    refine ⟨0x22, holds.head, by decide, by decide, parseScalar_real holds rfl (by decide) rfl bits.toNat_lt ?_ small⟩
    intro data value
    rw [parseReal, if_pos rfl, value, UInt32.ofNat_toNat]
    rfl
  | double bits =>
    refine ⟨0x23, holds.head, by decide, by decide, parseScalar_real holds rfl (by decide) rfl bits.toNat_lt ?_ small⟩
    intro data value
    rw [parseReal, if_neg (by omega), if_pos rfl, value, UInt64.ofNat_toNat]
    rfl
  | data count bytes =>
    obtain ⟨head, other, other'⟩ := @counted _ _ _ _ fits (by omega) holds
    exact ⟨_, head, other, other', parseScalar_data holds fits small⟩
  | ascii count text =>
    obtain ⟨head, other, other'⟩ := @counted _ _ _ _ fits.1 (by omega) holds
    exact ⟨_, head, other, other', parseScalar_ascii holds fits small⟩
  | unicode count text =>
    obtain ⟨head, other, other'⟩ := @counted _ _ _ _ fits (by omega) holds
    exact ⟨_, head, other, other', parseScalar_unicode holds fits small⟩
  | array count refs => exact leaf.elim
  | dict count refs => exact leaf.elim

theorem read_int {pow refSize : Nat} {n : Int} (fits : (Stored.int pow n).Fits refSize) :
    asI64 ((n % 256 ^ 2 ^ pow).toNat / 256 ^ (2 ^ pow - 8)) = n ↔ (Stored.int pow n).Narrow := by
  obtain ⟨width, low, high, unsigned⟩ := fits
  have narrow : (Stored.int pow n).Narrow ↔ pow ≤ 3 ∨ n = 0 ∨ n = -1 := Iff.rfl
  have pows : pow = 0 ∨ pow = 1 ∨ pow = 2 ∨ pow = 3 ∨ pow = 4 := by omega
  rw [asI64, narrow]
  clear narrow
  rcases pows with rfl | rfl | rfl | rfl | rfl
  · have bound := unsigned (by omega)
    simp only [Nat.reducePow, Int.reducePow, Nat.reduceSub, Nat.div_one] at *
    split <;> omega
  · have bound := unsigned (by omega)
    simp only [Nat.reducePow, Int.reducePow, Nat.reduceSub, Nat.div_one] at *
    split <;> omega
  · have bound := unsigned (by omega)
    simp only [Nat.reducePow, Int.reducePow, Nat.reduceSub, Nat.div_one] at *
    split <;> omega
  · simp only [Nat.reducePow, Int.reducePow, Nat.reduceSub, Nat.div_one] at *
    split <;> omega
  · simp only [Nat.reducePow, Int.reducePow, Nat.reduceSub] at *
    by_cases negative : n < 0
    · have wrapped : n % 340282366920938463463374607431768211456 = n + 340282366920938463463374607431768211456 := by omega
      rw [wrapped]
      split <;> omega
    · have kept : n % 340282366920938463463374607431768211456 = n := by omega
      rw [kept]
      split <;> omega

/-- Elements whose number is lost are missed. -/
theorem Count.read_iff {count : Count} {n : Nat} {empty whole : α} (fits : count.Fits n) (bound : n < 2 ^ 63)
    (missed : 0 < n → empty ≠ whole) : (if count.Narrow n then whole else empty) = whole ↔ count.Narrow n := by
  by_cases narrow : count.Narrow n
  · rw [if_pos narrow]
    exact iff_of_true rfl narrow
  · rcases Count.seen_narrow fits bound with ⟨kept, _⟩ | ⟨_, _, filled⟩
    · exact absurd kept narrow
    · rw [if_neg narrow]
      exact iff_of_false (missed filled) narrow

theorem text_filled {text : String} (filled : 0 < text.toList.length) : "" ≠ text := by
  rintro rfl
  exact absurd filled (by simp)

/-- The parser makes of an object without children what it means, unless a number is lost. -/
theorem Stored.read_iff {stored : Stored} {refSize : Nat} {child : Nat → BPlistValue → Prop} {tree : BPlistValue}
    (holds : Holds buf off (stored.encode refSize)) (fits : stored.Fits refSize) (leaf : stored.Leaf)
    (small : buf.length < 2 ^ 63) (means : stored.Means child tree) : stored.read = tree ↔ stored.Narrow := by
  cases stored with
  | null => simp only [means.symm, Stored.read, Stored.Narrow]
  | bool b => simp only [means.symm, Stored.read, Stored.Narrow]
  | int pow n =>
    subst means
    rw [← read_int fits, Stored.read, BPlistValue.int.injEq]
  | single bits => simp only [means.symm, Stored.read, Stored.Narrow]
  | double bits => simp only [means.symm, Stored.read, Stored.Narrow]
  | data count bytes =>
    subst means
    have bound := holds.right.bound
    rw [Stored.read, BPlistValue.data.injEq]
    exact Count.read_iff fits (by omega) fun filled => (List.length_pos_iff.mp filled).symm
  | ascii count text =>
    subst means
    have bound := holds.right.bound
    rw [List.length_map] at bound
    rw [Stored.read, BPlistValue.str.injEq]
    exact Count.read_iff fits.1 (by omega) text_filled
  | unicode count text =>
    subst means
    have bound := holds.right.bound
    rw [bytesBe_length] at bound
    rw [Stored.read, BPlistValue.str.injEq]
    refine Count.read_iff fits (by omega) fun filled => ?_
    rintro rfl
    exact absurd filled (by decide)
  | array count refs => exact leaf.elim
  | dict count refs => exact leaf.elim

theorem flatMap_toBe {refs : List α} {width : Nat} {number : α → Nat} :
    (refs.flatMap fun ref => toBe width (number ref)).length = refs.length * width := by
  induction refs with
  | nil => simp
  | cons ref refs ih =>
    rw [List.flatMap_cons, List.length_append, ih, toBe_length, List.length_cons, Nat.add_mul]
    omega

/-- The loop over the references of an array reads them all. -/
theorem parseItems_holds {refSize refsStart : Nat} {child : Nat → Budget BPlistValue} {refs : List Nat} {i : Nat}
    (holds : Holds buf (refsStart + i * refSize) (refs.flatMap (toBe refSize))) (fits : ∀ ref ∈ refs, ref < 256 ^ refSize)
    (narrow : refSize ≤ 8) (small : buf.length < 2 ^ 63) :
    parseItems buf refSize refsStart child refs.length i = refs.mapM child := by
  induction refs generalizing i with
  | nil => rfl
  | cons ref refs ih =>
    rw [List.flatMap_cons] at holds
    have here := sliceAt_holds holds.left (by omega)
    have later := holds.right
    rw [toBe_length] at here later
    have next : refsStart + i * refSize + refSize = refsStart + (i + 1) * refSize := by
      rw [Nat.add_mul]
      omega
    rw [next] at later
    have rest := ih later fun ref member => fits ref (List.mem_cons_of_mem _ member)
    funext d
    rw [List.length_cons, parseItems, Budget.lift_bind here, rest, readBeUint_small (fits ref List.mem_cons_self) narrow,
      List.mapM_cons]

/-- The key and the value of an entry, in the order in which they are read. -/
def parseEntry (child : Nat → Budget BPlistValue) (ref : Nat × Nat) : Budget (BPlistValue × BPlistValue) := do
  let keyObj ← child ref.1
  let valObj ← child ref.2
  return (keyObj, valObj)

/-- The loop over the entries of a dictionary reads them all. -/
theorem parseEntries_holds {refSize keysStart valuesStart : Nat} {child : Nat → Budget BPlistValue}
    {refs : List (Nat × Nat)} {i : Nat} {map : List (String × BPlistValue)}
    (keys : Holds buf (keysStart + i * refSize) (refs.flatMap fun ref => toBe refSize ref.1))
    (values : Holds buf (valuesStart + i * refSize) (refs.flatMap fun ref => toBe refSize ref.2))
    (fits : ∀ ref ∈ refs, ref.1 < 256 ^ refSize ∧ ref.2 < 256 ^ refSize) (narrow : refSize ≤ 8) (small : buf.length < 2 ^ 63)
    {r : List (String × BPlistValue) × Nat} :
    parseEntries buf refSize keysStart valuesStart child refs.length i map d = .ok r ↔
      ∃ entries left, refs.mapM (parseEntry child) d = .ok (entries, left) ∧
        r = (entries.foldl (fun map entry => insertEntry map entry.1 entry.2) map, left) := by
  induction refs generalizing i map d with
  | nil =>
    constructor
    · intro done
      exact ⟨[], d, rfl, Budget.pure_ok.mp done⟩
    · rintro ⟨entries, left, ran, rfl⟩
      cases ran
      rfl
  | cons ref refs ih =>
    rw [List.flatMap_cons] at keys values
    have key := sliceAt_holds keys.left (by omega)
    have value := sliceAt_holds values.left (by omega)
    have laterKeys := keys.right
    have laterValues := values.right
    rw [toBe_length] at key value laterKeys laterValues
    have next (start : Nat) : start + i * refSize + refSize = start + (i + 1) * refSize := by
      rw [Nat.add_mul]
      omega
    rw [next] at laterKeys laterValues
    have bounds := fits ref List.mem_cons_self
    have rest {d' : Nat} {map' : List (String × BPlistValue)} :=
      @ih d' (i + 1) map' laterKeys laterValues fun ref member => fits ref (List.mem_cons_of_mem _ member)
    rw [List.length_cons, parseEntries, Budget.lift_bind key, Budget.lift_bind value, readBeUint_small bounds.1 narrow,
      readBeUint_small bounds.2 narrow, List.mapM_cons, Budget.bind_ok]
    constructor
    · rintro ⟨keyObj, afterKey, keyRan, ran⟩
      obtain ⟨valObj, afterValue, valueRan, ran⟩ := Budget.bind_ok.mp ran
      obtain ⟨entries, left, others, rfl⟩ := rest.mp ran
      have entry : parseEntry child ref d = .ok ((keyObj, valObj), afterValue) :=
        Budget.bind_ok.mpr ⟨_, _, keyRan, Budget.bind_ok.mpr ⟨_, _, valueRan, rfl⟩⟩
      exact ⟨(keyObj, valObj) :: entries, left,
        Budget.bind_ok.mpr ⟨_, _, entry, Budget.bind_ok.mpr ⟨_, _, others, rfl⟩⟩, rfl⟩
    · rintro ⟨entries, left, ran, rfl⟩
      obtain ⟨entry, afterEntry, entryRan, ran⟩ := Budget.bind_ok.mp ran
      obtain ⟨later, final, others, done⟩ := Budget.bind_ok.mp ran
      obtain ⟨keyObj, afterKey, keyRan, ran⟩ := Budget.bind_ok.mp entryRan
      obtain ⟨valObj, afterValue, valueRan, made⟩ := Budget.bind_ok.mp ran
      cases Budget.pure_ok.mp made
      cases Budget.pure_ok.mp done
      exact ⟨keyObj, afterKey, keyRan, Budget.bind_ok.mpr ⟨valObj, _, valueRan, rest.mpr ⟨later, _, others, rfl⟩⟩⟩

/-- A run over a list gives the elements expected if and only if each of its steps does. -/
theorem Budget.mapM_iff {step : α → Budget β} {cost : β → Nat} {Good : α → Prop} {limit : Nat} {refs : List α}
    {items : List β}
    (each : List.Forall₂ (fun ref item => ∀ d d', d ≤ limit → (step ref d = .ok (item, d') ↔ cost item + d' = d ∧ Good ref))
      refs items) (enough : d ≤ limit) :
    refs.mapM step d = .ok (items, d') ↔ (items.map cost).sum + d' = d ∧ ∀ ref ∈ refs, Good ref := by
  induction each generalizing d with
  | nil =>
    rw [List.mapM_nil, Budget.pure_ok]
    simp
  | @cons ref item refs items here _ ih =>
    rw [List.mapM_cons, Budget.bind_ok, List.map_cons, List.sum_cons, List.forall_mem_cons]
    constructor
    · rintro ⟨item', left, first, ran⟩
      obtain ⟨items', left', others, done⟩ := Budget.bind_ok.mp ran
      cases Budget.pure_ok.mp done
      obtain ⟨spent, good⟩ := (here d left enough).mp first
      obtain ⟨spent', goods⟩ := (ih (by omega)).mp others
      exact ⟨by omega, good, goods⟩
    · rintro ⟨spent, good, goods⟩
      exact ⟨item, (items.map cost).sum + d', (here _ _ enough).mpr ⟨by omega, good⟩,
        Budget.bind_ok.mpr ⟨items, d', (ih (by omega)).mpr ⟨rfl, goods⟩, rfl⟩⟩

theorem BPlistValue.visits_array (items : List BPlistValue) :
    (BPlistValue.array items).visits = (items.map visits).sum + 1 := by
  have total : visits.all items = (items.map visits).sum := by
    induction items with
    | nil => rfl
    | cons item items ih => rw [visits.all, ih, List.map_cons, List.sum_cons]
  rw [visits, total]
  omega

theorem BPlistValue.visits_dict (map : List (String × BPlistValue)) :
    (BPlistValue.dict map).visits = (map.map fun entry => 1 + entry.2.visits).sum + 1 := by
  have total : visits.entries map = (map.map fun entry => 1 + entry.2.visits).sum := by
    induction map with
    | nil => rfl
    | cons entry map ih => rw [visits.entries, ih, List.map_cons, List.sum_cons]
  rw [visits, total]
  omega

theorem Stored.visits_leaf {stored : Stored} {child : Nat → BPlistValue → Prop} {tree : BPlistValue} (leaf : stored.Leaf)
    (means : stored.Means child tree) : tree.visits = 1 := by
  cases stored with
  | array count refs => exact leaf.elim
  | dict count refs => exact leaf.elim
  | _ => subst means; rfl

theorem allNarrow_iff {objects : List Stored} {i : Nat} {stored : Stored} (known : objects[i]? = some stored) :
    AllNarrow objects i ↔ stored.Narrow ∧ ∀ ref ∈ stored.refs, AllNarrow objects ref := by
  constructor
  · intro all
    refine ⟨all i .refl stored known, fun ref member j reaches => all j (.head ⟨stored, known, member⟩ reaches)⟩
  · rintro ⟨here, others⟩ j reaches stored' known'
    rcases Relation.ReflTransGen.cases_head reaches with rfl | ⟨ref, ⟨stored'', known'', member⟩, onward⟩
    · rw [known] at known'
      exact Option.some.inj known' ▸ here
    · rw [known] at known''
      exact others ref (Option.some.inj known'' ▸ member) j onward stored' known'

/-- The objects are in the file where their offsets say. -/
structure Placed (buf : Bytes) (objects : List Stored) (offsets : List Nat) (refSize : Nat) : Prop where
  positive : 1 ≤ refSize
  narrow : refSize ≤ 8
  small : buf.length < 2 ^ 63
  fits : ∀ stored ∈ objects, stored.Fits refSize
  held : List.Forall₂ (fun stored off => Holds buf off (stored.encode refSize)) objects offsets

theorem parseObject_spent (offsets : List Nat) (trailer : Trailer) (fuel i : Nat) :
    parseObject buf offsets trailer fuel i 0 = .error (.plist "bplist nesting too deep") := by
  cases fuel <;> rfl

theorem BPlistValue.visits_pos (tree : BPlistValue) : 0 < tree.visits := by
  cases tree with
  | array items =>
    rw [visits_array]
    omega
  | dict map =>
    rw [visits_dict]
    omega
  | _ => exact Nat.one_pos

/-- What is inserted into a map by entries whose keys are strings. -/
theorem foldl_insertEntry (entries map : List (String × BPlistValue)) :
    (entries.map fun entry => (BPlistValue.str entry.1, entry.2)).foldl (fun map entry => insertEntry map entry.1 entry.2) map =
      entries.foldl (fun map entry => OrderedMap.insert entry.1 entry.2 map) map := by
  rw [List.foldl_map]
  rfl

/-- A parser that reads the objects below a limit of the budget. -/
def Reads (objects : List Stored) (depth limit : Nat) (parse : Nat → Budget BPlistValue) : Prop :=
  ∀ i tree, Unfolds objects depth i tree → ∀ d d', d ≤ limit →
    (parse i d = .ok (tree, d') ↔ tree.visits + d' = d ∧ AllNarrow objects i)

theorem Reads.entry {objects : List Stored} {depth limit : Nat} {parse : Nat → Budget BPlistValue}
    (reads : Reads objects depth limit parse) {ref : Nat × Nat} {entry : String × BPlistValue}
    (means : Unfolds objects depth ref.1 (.str entry.1) ∧ Unfolds objects depth ref.2 entry.2) (enough : d ≤ limit) :
    parseEntry parse ref d = .ok ((.str entry.1, entry.2), d') ↔
      (1 + entry.2.visits) + d' = d ∧ AllNarrow objects ref.1 ∧ AllNarrow objects ref.2 := by
  have one : (BPlistValue.str entry.1).visits = 1 := rfl
  rw [parseEntry, Budget.bind_ok]
  constructor
  · rintro ⟨keyObj, afterKey, keyRan, ran⟩
    obtain ⟨valObj, afterValue, valueRan, made⟩ := Budget.bind_ok.mp ran
    cases Budget.pure_ok.mp made
    obtain ⟨spent, good⟩ := (reads _ _ means.1 d afterKey enough).mp keyRan
    obtain ⟨spent', good'⟩ := (reads _ _ means.2 afterKey d' (by omega)).mp valueRan
    exact ⟨by omega, good, good'⟩
  · rintro ⟨spent, good, good'⟩
    exact ⟨_, _, (reads _ _ means.1 d (entry.2.visits + d') enough).mpr ⟨by omega, good⟩,
      Budget.bind_ok.mpr ⟨_, _, (reads _ _ means.2 _ d' (by omega)).mpr ⟨rfl, good'⟩, rfl⟩⟩

theorem Reads.items {objects : List Stored} {depth limit : Nat} {parse : Nat → Budget BPlistValue}
    (reads : Reads objects depth limit parse) {refs : List Nat} {items : List BPlistValue}
    (below : List.Forall₂ (Unfolds objects depth) refs items) (enough : d ≤ limit) :
    refs.mapM parse d = .ok (items, d') ↔
      (items.map BPlistValue.visits).sum + d' = d ∧ ∀ ref ∈ refs, AllNarrow objects ref :=
  Budget.mapM_iff (below.imp reads) enough

theorem Reads.entries {objects : List Stored} {depth limit : Nat} {parse : Nat → Budget BPlistValue}
    (reads : Reads objects depth limit parse) {refs : List (Nat × Nat)} {entries : List (String × BPlistValue)}
    (below : List.Forall₂ (fun ref entry => Unfolds objects depth ref.1 (.str entry.1) ∧ Unfolds objects depth ref.2 entry.2)
      refs entries) (enough : d ≤ limit) :
    refs.mapM (parseEntry parse) d = .ok (entries.map fun entry => (.str entry.1, entry.2), d') ↔
      (entries.map fun entry => 1 + entry.2.visits).sum + d' = d ∧
        ∀ ref ∈ refs.map Prod.fst ++ refs.map Prod.snd, AllNarrow objects ref := by
  have each : List.Forall₂ (fun ref item => ∀ d d', d ≤ limit → (parseEntry parse ref d = .ok (item, d') ↔
      1 + item.2.visits + d' = d ∧ (AllNarrow objects ref.1 ∧ AllNarrow objects ref.2)))
      refs (entries.map fun entry => (BPlistValue.str entry.1, entry.2)) := by
    rw [List.forall₂_map_right_iff]
    exact below.imp fun ref entry means d d' enough => reads.entry means enough
  rw [@Budget.mapM_iff _ _ _ _ _ (fun item => 1 + item.2.visits) _ _ _ _ each enough, List.map_map]
  refine and_congr Iff.rfl ⟨fun all ref member => ?_, fun all ref member => ⟨?_, ?_⟩⟩
  · rcases List.mem_append.mp member with key | value
    · obtain ⟨pair, inside, rfl⟩ := List.mem_map.mp key
      exact (all pair inside).1
    · obtain ⟨pair, inside, rfl⟩ := List.mem_map.mp value
      exact (all pair inside).2
  · exact all ref.1 (List.mem_append_left _ (List.mem_map_of_mem member))
  · exact all ref.2 (List.mem_append_right _ (List.mem_map_of_mem member))

/-- References of a size that is read, in a file that has an address for each byte. -/
structure Measured (buf : Bytes) (refSize : Nat) : Prop where
  positive : 1 ≤ refSize
  narrow : refSize ≤ 8
  small : buf.length < 2 ^ 63

/-- The object is where its offset says. -/
structure StoredAt (buf : Bytes) (offsets : List Nat) (refSize i : Nat) (stored : Stored) : Prop where
  fits : stored.Fits refSize
  held : ∃ off, offsets[i]? = some off ∧ Holds buf off (stored.encode refSize)

section StoredAt
variable {offsets : List Nat} {trailer : Trailer} {fuel i : Nat} {stored : Stored}
variable (measured : Measured buf trailer.objectRefSize)
include measured

theorem StoredAt.leaf (object : StoredAt buf offsets trailer.objectRefSize i stored) (leaf : stored.Leaf) :
    parseObject buf offsets trailer (fuel + 1) i (d + 1) = .ok (stored.read, d) := by
  obtain ⟨fits, off, offset, holds⟩ := object
  obtain ⟨marker, first, notArray, notDict, parsed⟩ := parseScalar_holds holds fits leaf measured.small
  rw [parseObject]
  simp only [bind, StateT.bind, get, getThe, MonadStateOf.get, StateT.get, pure, Except.pure, Except.bind, set, Budget.set_run,
    offset, first, orFail, liftM, monadLift, MonadLift.monadLift, StateT.lift, notArray, notDict, if_false, parsed,
    Nat.add_sub_cancel, Nat.succ_ne_zero]

/-- The marker and the number of elements of an object. -/
theorem StoredAt.counted {count : Count} {kind n : Nat} {payload : Bytes}
    (object : StoredAt buf offsets trailer.objectRefSize i stored)
    (encoded : stored.encode trailer.objectRefSize = count.encode kind n ++ payload) (fits : count.Fits n)
    (kinds : kind < 16) :
    ∃ off, offsets[i]? = some off ∧ buf[off]? = some (count.marker kind n) ∧
      count.marker kind n >>> 4 = UInt8.ofNat kind ∧
      readCount buf off (count.marker kind n &&& 0x0F).toNat = .ok (count.seen n, off + (count.encode kind n).length) ∧
      Holds buf (off + (count.encode kind n).length) payload := by
  obtain ⟨_, off, offset, holds⟩ := object
  have small := measured.small
  obtain ⟨tail, headed⟩ := count.encode_head kind n
  rw [encoded] at holds
  have number := readCount_holds holds.left fits kinds (by omega)
  have payloads := holds.right
  rw [headed] at holds
  exact ⟨off, offset, holds.head, Count.marker_kind fits kinds, number, payloads⟩

theorem StoredAt.array {count : Count} {refs : List Nat}
    (object : StoredAt buf offsets trailer.objectRefSize i (.array count refs))
    {r : BPlistValue × Nat} :
    parseObject buf offsets trailer (fuel + 1) i (d + 1) = .ok r ↔ ∃ items left,
      (if count.Narrow refs.length then refs else []).mapM (parseObject buf offsets trailer fuel) d = .ok (items, left) ∧
        r = (.array items, left) := by
  have fits := object.fits
  obtain ⟨off, offset, first, kind, number, elements⟩ := object.counted measured rfl fits.1 (by omega)
  have small := measured.small
  have length := elements.bound
  rw [flatMap_toBe] at length
  have bound : refs.length < 2 ^ 63 := by
    have least := Nat.le_mul_of_pos_right refs.length measured.positive
    omega
  have typed : count.marker 0xA refs.length >>> 4 = 0xA := kind
  have items : parseItems buf trailer.objectRefSize (off + (count.encode 0xA refs.length).length)
      (parseObject buf offsets trailer fuel) (count.seen refs.length) 0 =
        (if count.Narrow refs.length then refs else []).mapM (parseObject buf offsets trailer fuel) := by
    rcases Count.seen_narrow fits.1 bound with ⟨narrow, seen⟩ | ⟨wide, seen, _⟩
    · rw [seen, if_pos narrow]
      exact parseItems_holds (by simpa using elements) fits.2 measured.narrow small
    · rw [seen, if_neg wide]
      rfl
  have run : parseObject buf offsets trailer (fuel + 1) i (d + 1) =
      ((if count.Narrow refs.length then refs else []).mapM (parseObject buf offsets trailer fuel) >>=
        fun items => pure (.array items)) d := by
    rw [parseObject, ← items]
    simp only [bind, StateT.bind, get, getThe, MonadStateOf.get, StateT.get, pure, Except.pure, Except.bind, set, Budget.set_run,
      offset, first, orFail, liftM, monadLift, MonadLift.monadLift, StateT.lift, typed, if_true, number,
      Nat.add_sub_cancel, Nat.succ_ne_zero, if_false]
  rw [run, Budget.bind_ok]
  simp only [Budget.pure_ok]

theorem StoredAt.dict {count : Count} {refs : List (Nat × Nat)}
    (object : StoredAt buf offsets trailer.objectRefSize i (.dict count refs))
    {r : BPlistValue × Nat} :
    parseObject buf offsets trailer (fuel + 1) i (d + 1) = .ok r ↔ ∃ entries left,
      (if count.Narrow refs.length then refs else []).mapM (parseEntry (parseObject buf offsets trailer fuel)) d =
        .ok (entries, left) ∧
      r = (.dict (entries.foldl (fun map entry => insertEntry map entry.1 entry.2) []), left) := by
  have fits := object.fits
  obtain ⟨off, offset, first, kind, number, elements⟩ := object.counted measured rfl fits.1 (by omega)
  have small := measured.small
  have keys := elements.left
  have values := elements.right
  have length := values.bound
  rw [flatMap_toBe] at values
  rw [flatMap_toBe, flatMap_toBe] at length
  have bound : refs.length < 2 ^ 63 := by
    have least := Nat.le_mul_of_pos_right refs.length measured.positive
    omega
  have typed : count.marker 0xD refs.length >>> 4 = 0xD := kind
  have seen : count.seen refs.length * trailer.objectRefSize ≤ refs.length * trailer.objectRefSize := by
    rcases Count.seen_narrow fits.1 bound with ⟨_, seen⟩ | ⟨_, seen, _⟩
    · rw [seen]
    · rw [seen, Nat.zero_mul]
      exact Nat.zero_le _
  have layout : checkedAdd (off + (count.encode 0xD refs.length).length)
      (count.seen refs.length * trailer.objectRefSize % 2 ^ 64) =
        some (off + (count.encode 0xD refs.length).length + count.seen refs.length * trailer.objectRefSize) := by
    rw [Nat.mod_eq_of_lt (by omega), checkedAdd_small (by omega)]
  have map (r' : List (String × BPlistValue) × Nat) :
      parseEntries buf trailer.objectRefSize (off + (count.encode 0xD refs.length).length)
        (off + (count.encode 0xD refs.length).length + count.seen refs.length * trailer.objectRefSize)
        (parseObject buf offsets trailer fuel) (count.seen refs.length) 0 [] d = .ok r' ↔ ∃ entries left,
          (if count.Narrow refs.length then refs else []).mapM (parseEntry (parseObject buf offsets trailer fuel)) d =
            .ok (entries, left) ∧
          r' = (entries.foldl (fun map entry => insertEntry map entry.1 entry.2) [], left) := by
    rcases Count.seen_narrow fits.1 bound with ⟨narrow, seen⟩ | ⟨wide, seen, _⟩
    · rw [seen, if_pos narrow]
      rw [← Nat.add_zero (off + _), ← Nat.zero_mul trailer.objectRefSize] at keys
      rw [← Nat.add_zero (off + _ + _), ← Nat.zero_mul trailer.objectRefSize] at values
      exact parseEntries_holds keys values fits.2 measured.narrow small
    · have none : Holds buf (off + (count.encode 0xD refs.length).length + 0 * trailer.objectRefSize)
          (([] : List (Nat × Nat)).flatMap fun ref => toBe trailer.objectRefSize ref.1) := by
        rw [Nat.zero_mul]
        exact ⟨keys.1, List.nil_prefix⟩
      rw [seen, if_neg wide, Nat.zero_mul, Nat.add_zero]
      exact parseEntries_holds none none (by simp) measured.narrow small
  have other : (0xD : UInt8) ≠ 0xA := by decide
  have run : parseObject buf offsets trailer (fuel + 1) i (d + 1) =
      (parseEntries buf trailer.objectRefSize (off + (count.encode 0xD refs.length).length)
        (off + (count.encode 0xD refs.length).length + count.seen refs.length * trailer.objectRefSize)
        (parseObject buf offsets trailer fuel) (count.seen refs.length) 0 [] >>= fun map => pure (.dict map)) d := by
    rw [parseObject]
    simp only [bind, StateT.bind, get, getThe, MonadStateOf.get, StateT.get, pure, Except.pure, Except.bind, set, Budget.set_run,
      offset, first, orFail, liftM, monadLift, MonadLift.monadLift, StateT.lift, typed, if_true, number, layout,
      Nat.add_sub_cancel, Nat.succ_ne_zero, if_false, other]
  rw [run, Budget.bind_ok]
  constructor
  · rintro ⟨made, left, ran, done⟩
    obtain ⟨entries, left', read, rfl, rfl⟩ := (map _).mp ran
    exact ⟨entries, _, read, Budget.pure_ok.mp done⟩
  · rintro ⟨entries, left, read, rfl⟩
    exact ⟨_, left, (map _).mpr ⟨entries, left, read, rfl⟩, rfl⟩

/-- A text is read as it is, or as the empty text. -/
theorem StoredAt.key {child : Nat → BPlistValue → Prop} {key : String}
    (object : StoredAt buf offsets trailer.objectRefSize i stored) (means : stored.Means child (.str key)) {value : BPlistValue}
    (ran : parseObject buf offsets trailer fuel i d = .ok (value, d')) : ∃ key', value = .str key' ∧ (key' = key ∨ key' = "") := by
  cases d with
  | zero => exact absurd (parseObject_spent offsets trailer fuel i) (by rw [ran]; simp)
  | succ d =>
    cases fuel with
    | zero => cases ran
    | succ fuel =>
      have text : stored.Leaf ∧ ∃ key', stored.read = .str key' ∧ (key' = key ∨ key' = "") := by
        cases stored with
        | ascii count text =>
          cases means
          refine ⟨trivial, _, rfl, ?_⟩
          split
          · exact .inl rfl
          · exact .inr rfl
        | unicode count text =>
          cases means
          refine ⟨trivial, _, rfl, ?_⟩
          split
          · exact .inl rfl
          · exact .inr rfl
        | array count refs =>
          obtain ⟨items, _, wrong⟩ := means
          cases wrong
        | dict count refs =>
          obtain ⟨entries, _, _, wrong⟩ := means
          cases wrong
        | _ => cases means
      rw [object.leaf measured text.1] at ran
      obtain ⟨key', read, related⟩ := text.2
      cases ran
      exact ⟨key', read, related⟩

omit measured in
/-- The entries that are read have the keys that they should have, or the empty key. -/
theorem entries_keys {parse : Nat → Budget BPlistValue} {Key : Nat → String → Prop} {Value : Nat → BPlistValue → Prop}
    (text : ∀ ref key, Key ref key → ∀ value d d', parse ref d = .ok (value, d') →
      ∃ key', value = .str key' ∧ (key' = key ∨ key' = ""))
    {refs : List (Nat × Nat)} {expected : List (String × BPlistValue)} {entries : List (BPlistValue × BPlistValue)}
    (means : List.Forall₂ (fun ref entry => Key ref.1 entry.1 ∧ Value ref.2 entry.2) refs expected)
    (ran : refs.mapM (parseEntry parse) d = .ok (entries, d')) :
    ∃ read : List (String × BPlistValue), entries = read.map (fun entry => (.str entry.1, entry.2)) ∧
      List.Forall₂ (fun entry' entry => entry'.1 = entry.1 ∨ entry'.1 = "") read expected := by
  induction means generalizing d entries with
  | nil =>
    cases Budget.pure_ok.mp ran
    exact ⟨[], rfl, .nil⟩
  | cons here _ ih =>
    rw [List.mapM_cons] at ran
    obtain ⟨entry, left, first, ran⟩ := Budget.bind_ok.mp ran
    obtain ⟨later, left', others, done⟩ := Budget.bind_ok.mp ran
    cases Budget.pure_ok.mp done
    obtain ⟨keyObj, afterKey, keyRan, ran⟩ := Budget.bind_ok.mp first
    obtain ⟨valObj, afterValue, valueRan, made⟩ := Budget.bind_ok.mp ran
    cases Budget.pure_ok.mp made
    obtain ⟨key', rfl, related⟩ := text _ _ here.1 _ _ _ keyRan
    obtain ⟨read, rfl, kept⟩ := ih others
    exact ⟨(key', valObj) :: read, rfl, .cons related kept⟩

end StoredAt

section Placed
variable {objects : List Stored} {offsets : List Nat} {trailer : Trailer} {fuel depth i : Nat} {stored : Stored}
  {tree : BPlistValue}
variable (placed : Placed buf objects offsets trailer.objectRefSize)
include placed

theorem Placed.measured : Measured buf trailer.objectRefSize := ⟨placed.positive, placed.narrow, placed.small⟩

theorem Placed.found (known : objects[i]? = some stored) : StoredAt buf offsets trailer.objectRefSize i stored := by
  obtain ⟨bound, here⟩ := List.getElem?_eq_some_iff.mp known
  have bound' : i < offsets.length := placed.held.length_eq ▸ bound
  have holds := (List.forall₂_iff_get.mp placed.held).2 i bound bound'
  exact ⟨placed.fits stored (List.mem_of_getElem? known), _, List.getElem?_eq_getElem bound', here ▸ holds⟩

/-- A key is read as it is, or as the empty key. -/
theorem Placed.key {key : String} (unfolds : Unfolds objects depth i (.str key)) {value : BPlistValue}
    (ran : parseObject buf offsets trailer fuel i d = .ok (value, d')) : ∃ key', value = .str key' ∧ (key' = key ∨ key' = "") := by
  cases depth with
  | zero => exact unfolds.elim
  | succ depth =>
    obtain ⟨stored, known, means⟩ := unfolds
    exact (placed.found known).key placed.measured means ran

theorem Placed.array_iff {count : Count} {refs : List Nat} {items : List BPlistValue}
    (known : objects[i]? = some (.array count refs)) (below : List.Forall₂ (Unfolds objects depth) refs items)
    (reads : Reads objects depth fuel (parseObject buf offsets trailer fuel)) (enough : d ≤ fuel) :
    parseObject buf offsets trailer (fuel + 1) i (d + 1) = .ok (.array items, d') ↔
      (BPlistValue.array items).visits + d' = d + 1 ∧ AllNarrow objects i := by
  have narrowness : (Stored.array count refs).Narrow ↔ count.Narrow refs.length := Iff.rfl
  rw [(placed.found known).array placed.measured, BPlistValue.visits_array, allNarrow_iff known, narrowness]
  by_cases narrow : count.Narrow refs.length
  · rw [if_pos narrow]
    constructor
    · rintro ⟨items', left, ran, made⟩
      cases made
      obtain ⟨spent, good⟩ := (reads.items below enough).mp ran
      exact ⟨by omega, narrow, good⟩
    · rintro ⟨spent, _, good⟩
      exact ⟨items, d', (reads.items below enough).mpr ⟨by omega, good⟩, rfl⟩
  · rw [if_neg narrow]
    refine iff_of_false ?_ fun kept => narrow kept.2.1
    rintro ⟨items', left, ran, made⟩
    cases made
    cases Budget.pure_ok.mp ran
    have empty : refs.length = 0 := below.length_eq
    exact narrow (empty ▸ Count.narrow_zero)

theorem Placed.dict_iff {count : Count} {refs : List (Nat × Nat)} {entries : List (String × BPlistValue)}
    (known : objects[i]? = some (.dict count refs))
    (below : List.Forall₂ (fun ref entry => Unfolds objects depth ref.1 (.str entry.1) ∧ Unfolds objects depth ref.2 entry.2)
      refs entries) (distinct : (entries.map Prod.fst).Nodup)
    (reads : Reads objects depth fuel (parseObject buf offsets trailer fuel)) (enough : d ≤ fuel) :
    parseObject buf offsets trailer (fuel + 1) i (d + 1) = .ok (.dict (OrderedMap.ofEntries entries), d') ↔
      (BPlistValue.dict (OrderedMap.ofEntries entries)).visits + d' = d + 1 ∧ AllNarrow objects i := by
  have narrowness : (Stored.dict count refs).Narrow ↔ count.Narrow refs.length := Iff.rfl
  have perm := OrderedMap.ofEntries_perm distinct
  have spent := (perm.map fun entry => 1 + entry.2.visits).sum_nat
  rw [(placed.found known).dict placed.measured, BPlistValue.visits_dict, allNarrow_iff known, narrowness, spent]
  by_cases narrow : count.Narrow refs.length
  · rw [if_pos narrow]
    constructor
    · rintro ⟨read, left, ran, made⟩
      have text : ∀ ref key, Unfolds objects depth ref (.str key) → ∀ value d d',
          parseObject buf offsets trailer fuel ref d = .ok (value, d') → ∃ key', value = .str key' ∧ (key' = key ∨ key' = "") :=
        fun _ _ unfolds _ _ _ => placed.key unfolds
      obtain ⟨keyed, rfl, keys⟩ := entries_keys text below ran
      obtain ⟨tree, rfl⟩ := Prod.mk.inj made
      rw [foldl_insertEntry] at tree
      have same := OrderedMap.ofEntries_inj distinct keys (BPlistValue.dict.inj tree).symm
      subst same
      obtain ⟨spent, good⟩ := (reads.entries below enough).mp ran
      exact ⟨by omega, narrow, good⟩
    · rintro ⟨spent, _, good⟩
      refine ⟨_, d', (reads.entries below enough).mpr ⟨by omega, good⟩, ?_⟩
      rw [foldl_insertEntry]
      rfl
  · rw [if_neg narrow]
    refine iff_of_false ?_ fun kept => narrow kept.2.1
    rintro ⟨read, left, ran, made⟩
    cases Budget.pure_ok.mp ran
    have none : OrderedMap.ofEntries entries = [] := BPlistValue.dict.inj (Prod.mk.inj made).1
    have empty : refs.length = 0 := by
      rw [below.length_eq, ← perm.length_eq, none]
      rfl
    exact narrow (empty ▸ Count.narrow_zero)

/-- The parser returns the tree of an object if and only if there is an object left in the
budget for every visit and no number is lost. -/
theorem Placed.parseObject_iff (enough : d ≤ fuel) (unfolds : Unfolds objects depth i tree) :
    parseObject buf offsets trailer fuel i d = .ok (tree, d') ↔ tree.visits + d' = d ∧ AllNarrow objects i := by
  induction depth generalizing fuel i tree d d' with
  | zero => exact unfolds.elim
  | succ depth ih =>
    obtain ⟨stored, known, means⟩ := unfolds
    have positive := tree.visits_pos
    cases d with
    | zero =>
      rw [parseObject_spent]
      simp only [reduceCtorEq, false_iff]
      omega
    | succ d =>
      cases fuel with
      | zero => omega
      | succ fuel =>
        have reads : Reads objects depth fuel (parseObject buf offsets trailer fuel) :=
          fun i tree below d d' enough => ih enough below
        by_cases leaf : stored.Leaf
        · obtain ⟨fits, off, offset, holds⟩ := placed.found known
          have none : stored.refs = [] := by
            cases stored with
            | array count refs => exact leaf.elim
            | dict count refs => exact leaf.elim
            | _ => rfl
          rw [(placed.found known).leaf placed.measured leaf, allNarrow_iff known, ← Stored.read_iff holds fits leaf placed.small means, none,
            Stored.visits_leaf leaf means, Except.ok.injEq, Prod.mk.injEq]
          constructor
          · rintro ⟨same, rfl⟩
            exact ⟨by omega, same, by simp⟩
          · rintro ⟨spent, same, _⟩
            exact ⟨same, by omega⟩
        · cases stored with
          | array count refs =>
            obtain ⟨items, below, rfl⟩ := means
            exact placed.array_iff known below reads (by omega)
          | dict count refs =>
            obtain ⟨entries, below, distinct, rfl⟩ := means
            exact placed.dict_iff known below distinct reads (by omega)
          | _ => exact absurd trivial leaf

end Placed

theorem Stored.encode_filled (stored : Stored) (refSize : Nat) : 0 < (stored.encode refSize).length := by
  have counted (count : Count) (kind n : Nat) (payload : Bytes) : 0 < (count.encode kind n ++ payload).length := by
    obtain ⟨tail, encoded⟩ := count.encode_head kind n
    rw [encoded]
    exact Nat.succ_pos _
  cases stored with
  | data count bytes => exact counted ..
  | ascii count text => exact counted ..
  | unicode count text => exact counted ..
  | array count refs => exact counted ..
  | dict count refs => exact counted ..
  | _ => exact Nat.succ_pos _

/-- The loop over the offset table reads it. -/
theorem readOffsets_holds {tableOffset size : Nat} {offsets : List Nat} {i : Nat}
    (holds : Holds buf (tableOffset + i * size) (offsets.flatMap (toBe size)))
    (inside : ∀ off ∈ offsets, off < 256 ^ size ∧ off < buf.length) (narrow : size ≤ 8) :
    readOffsets buf tableOffset size offsets.length i = .ok offsets := by
  induction offsets generalizing i with
  | nil => rfl
  | cons off offsets ih =>
    rw [List.flatMap_cons] at holds
    have here := holds.left.taken
    have later := holds.right
    rw [toBe_length] at here later
    have next : tableOffset + i * size + size = tableOffset + (i + 1) * size := by
      rw [Nat.add_mul]
      omega
    rw [next] at later
    have bounds := inside off List.mem_cons_self
    have rest := ih later fun off member => inside off (List.mem_cons_of_mem _ member)
    rw [List.length_cons, readOffsets]
    simp only [here, readBeUint_small bounds.1 narrow, rest, ge_iff_le, Nat.not_le.mpr bounds.2, if_false, bind, Except.bind, pure,
      Except.pure]

/-- The trailer that an encoding is read to have. -/
def Encoding.geometry (file : Encoding) : Trailer where
  offsetIntSize := file.offsetIntSize
  objectRefSize := file.objectRefSize
  numObjects := file.objects.length
  topObject := file.topObject
  offsetTableOffset := file.offsetTableOffset

theorem Encoding.trailer_length (file : Encoding) : file.trailer.length = 32 := by
  simp only [trailer, List.length_append, List.length_cons, toBe_length, file.unused_length]

theorem Encoding.bytes_length (file : Encoding) : file.bytes.length = 8 + file.body.length + 32 := by
  rw [bytes, List.length_append, List.length_append, file.trailer_length]
  rfl

theorem Encoding.top (file : Encoding) : file.topObject < file.objects.length := by
  have unfolds := file.unfolds
  cases depth : file.depth with
  | zero => rw [depth] at unfolds; exact unfolds.elim
  | succ depth' =>
    rw [depth] at unfolds
    obtain ⟨stored, known, _⟩ := unfolds
    exact (List.getElem?_eq_some_iff.mp known).1

theorem Encoding.table_bound (file : Encoding) :
    file.offsetTableOffset + file.objects.length * file.offsetIntSize ≤ 8 + file.body.length := by
  have bound := file.table.bound
  have magic : bplistMagic.length = 8 := rfl
  rw [flatMap_toBe, List.length_append, magic, ← file.placed.length_eq] at bound
  exact bound

theorem Encoding.objects_small (file : Encoding) : file.objects.length < 2 ^ 63 := by
  have small := file.small
  have table := file.table_bound
  have least := Nat.le_mul_of_pos_right file.objects.length file.intSize.1
  omega

theorem Encoding.readTrailer (file : Encoding) : readTrailer file.bytes = file.geometry := by
  have objects := file.objects_small
  have top := file.top
  have table := file.table_bound
  have small := file.small
  have intSize := file.intSize
  have refSize := file.refSize
  have last : file.bytes.drop (file.bytes.length - 32) = file.trailer := by
    rw [file.bytes_length, bytes, List.drop_left']
    rw [List.length_append, Nat.add_sub_cancel]
    rfl
  have byte {n : Nat} (low : n ≤ 8) : (UInt8.ofNat n).toNat = n := by
    rw [UInt8.toNat_ofNat']
    omega
  have number {n : Nat} (low : n < 2 ^ 63) (rest : Bytes) : readBeUint ((toBe 8 n ++ rest).take 8) = n := by
    rw [List.take_left' (toBe_length 8 n), readBeUint_small (by omega) (by omega)]
  have unused := file.unused_length
  have offset : readBeUint ((toBe 8 file.offsetTableOffset ++ []).take 8) = file.offsetTableOffset := number (by omega) []
  rw [List.append_nil] at offset
  have geometry (n : Nat) (rest : Bytes) : (toBe 8 n ++ rest).drop 8 = rest := List.drop_left' (toBe_length 8 n)
  have parts (k : Nat) : file.trailer.drop (6 + k) =
      (UInt8.ofNat file.offsetIntSize :: UInt8.ofNat file.objectRefSize ::
        (toBe 8 file.objects.length ++ (toBe 8 file.topObject ++ toBe 8 file.offsetTableOffset))).drop k := by
    rw [trailer, ← List.drop_drop, List.drop_left' unused]
  have first : file.trailer.getD 6 0 = UInt8.ofNat file.offsetIntSize := by
    rw [List.getD_eq_getElem?_getD, trailer, List.getElem?_append_right (Nat.le_of_eq unused), unused]
    rfl
  have second : file.trailer.getD 7 0 = UInt8.ofNat file.objectRefSize := by
    rw [List.getD_eq_getElem?_getD, trailer, List.getElem?_append_right (by omega), unused]
    rfl
  have third : file.trailer.drop 8 = toBe 8 file.objects.length ++ (toBe 8 file.topObject ++ toBe 8 file.offsetTableOffset) :=
    parts 2
  have fourth : file.trailer.drop 16 = toBe 8 file.topObject ++ toBe 8 file.offsetTableOffset := by
    have further : file.trailer.drop 16 = (file.trailer.drop 8).drop 8 := by rw [List.drop_drop]
    rw [further, third, geometry]
  have fifth : file.trailer.drop 24 = toBe 8 file.offsetTableOffset := by
    have further : file.trailer.drop 24 = (file.trailer.drop 16).drop 8 := by rw [List.drop_drop]
    rw [further, fourth, geometry]
  rw [Plist.readTrailer, Encoding.geometry]
  simp only [last, first, second, third, fourth, fifth, byte intSize.2, byte refSize.2, number objects,
    number (Nat.lt_trans top objects), offset]

theorem Encoding.objects_placed (file : Encoding) :
    Placed file.bytes file.objects file.offsets file.geometry.objectRefSize where
  positive := file.refSize.1
  narrow := file.refSize.2
  small := by
    have small := file.small
    rw [file.bytes_length]
    omega
  fits := file.fits
  held := file.placed.imp fun _ _ holds => holds.extend _

theorem Encoding.readOffsets (file : Encoding) :
    readOffsets file.bytes file.offsetTableOffset file.offsetIntSize file.objects.length 0 = .ok file.offsets := by
  have table : Holds file.bytes (file.offsetTableOffset + 0 * file.offsetIntSize)
      (file.offsets.flatMap (toBe file.offsetIntSize)) := by
    rw [Nat.zero_mul]
    exact file.table.extend _
  rw [file.placed.length_eq]
  refine readOffsets_holds table (fun off member => ⟨file.offsets_fit off member, ?_⟩) file.intSize.2
  obtain ⟨i, inside, rfl⟩ := List.getElem_of_mem member
  have bound' : i < file.objects.length := file.placed.length_eq ▸ inside
  have holds := (List.forall₂_iff_get.mp file.objects_placed.held).2 i bound' inside
  have bound := holds.bound
  have filled := Stored.encode_filled (file.objects.get ⟨i, bound'⟩) file.objectRefSize
  have place : file.offsets.get ⟨i, inside⟩ = file.offsets[i] := rfl
  have size : file.geometry.objectRefSize = file.objectRefSize := rfl
  rw [size, place] at bound
  omega

/-- An encoding is parsed by parsing its root with the whole budget. -/
theorem Encoding.parse_eq (file : Encoding) :
    parseBplist file.bytes =
      (parseObject file.bytes file.offsets file.geometry depthBudget file.topObject depthBudget).map Prod.fst := by
  have table := file.table_bound
  have small := file.small
  have length := file.bytes_length
  have top := file.top
  have intSize := file.intSize
  have refSize := file.refSize
  have magic : file.bytes.take 8 = bplistMagic := by
    rw [bytes, List.append_assoc]
    exact List.take_left' rfl
  have span : checkedMul file.objects.length file.offsetIntSize = some (file.objects.length * file.offsetIntSize) :=
    if_pos (by omega)
  have stop := checkedAdd_small (show file.offsetTableOffset + file.objects.length * file.offsetIntSize < 2 ^ 64 by omega)
  rw [parseBplist]
  simp only [magic, file.readTrailer, geometry, span, stop, orFail, file.readOffsets, bind, Except.bind, pure, Except.pure,
    StateT.run, ne_eq, not_true_eq_false, if_false]
  rw [if_neg (by omega), if_neg (by omega), if_neg (by omega), if_neg (by omega), if_neg (by omega), if_neg (by omega)]
  simp only [Except.map]

theorem Encoding.parse_ok (file : Encoding) :
    parseBplist file.bytes = .ok file.tree ↔ ∃ left, file.tree.visits + left = depthBudget ∧ file.Narrow := by
  have reads (left : Nat) := @Placed.parseObject_iff depthBudget left file.bytes file.objects file.offsets file.geometry
    depthBudget file.depth file.topObject file.tree file.objects_placed (Nat.le_refl _) file.unfolds
  rw [file.parse_eq]
  constructor
  · intro ran
    cases result : parseObject file.bytes file.offsets file.geometry depthBudget file.topObject depthBudget with
    | error e => rw [result] at ran; cases ran
    | ok r =>
      rw [result] at ran
      obtain ⟨tree, left⟩ := r
      cases ran
      exact ⟨left, (reads left).mp result⟩
  · rintro ⟨left, spent, narrow⟩
    rw [(reads left).mpr ⟨spent, narrow⟩]
    rfl

/-- A binary property list is decoded completely if and only if at most 256 objects are
visited on the way and no number of sixteen bytes is lost. -/
theorem parse_bplist_iff (file : Encoding) :
    parseBplist file.bytes = .ok file.tree ↔ file.tree.visits ≤ depthBudget ∧ file.Narrow := by
  rw [file.parse_ok]
  constructor
  · rintro ⟨left, spent, narrow⟩
    exact ⟨by omega, narrow⟩
  · rintro ⟨enough, narrow⟩
    exact ⟨depthBudget - file.tree.visits, by omega, narrow⟩

theorem forall₂_replicate {R : α → β → Prop} {a : α} {b : β} (related : R a b) (n : Nat) :
    List.Forall₂ R (List.replicate n a) (List.replicate n b) := by
  induction n with
  | zero => exact .nil
  | succ n ih => exact .cons related ih

/-- An array of 256 references to the same null. -/
def crowdedFile : Encoding where
  objects := [.array (.extended 1) (List.replicate 256 1), .null]
  offsets := [8, 268]
  body := [0xAF, 0x11, 0x01, 0x00] ++ List.replicate 256 1 ++ [0x00, 0x00, 0x08, 0x01, 0x0C]
  unused := [0, 0, 0, 0, 0, 0]
  offsetIntSize := 2
  objectRefSize := 1
  topObject := 0
  offsetTableOffset := 269
  depth := 2
  tree := .array (List.replicate 256 .null)
  unused_length := rfl
  intSize := by decide
  refSize := by decide
  fits := by
    intro stored member
    rcases List.mem_cons.mp member with rfl | later
    · refine ⟨⟨by decide, by decide +kernel⟩, fun ref inside => ?_⟩
      rw [List.eq_of_mem_replicate inside]
      decide
    · rw [List.mem_singleton.mp later]
      trivial
  offsets_fit := by decide
  small := by decide +kernel
  placed := .cons ⟨by decide +kernel, by decide +kernel⟩ (.cons ⟨by decide +kernel, by decide +kernel⟩ .nil)
  table := ⟨by decide +kernel, by decide +kernel⟩
  unfolds := ⟨_, rfl, _, forall₂_replicate ⟨.null, rfl, rfl⟩ 256, rfl⟩

/-- Two levels are enough for a file that is not decoded. -/
theorem crowded_not_decoded :
    ¬ ∀ file : Encoding, file.depth ≤ 250 → parseBplist file.bytes = .ok file.tree := by
  intro all
  obtain ⟨left, spent, _⟩ := crowdedFile.parse_ok.mp (all crowdedFile (by decide))
  have many : crowdedFile.tree.visits = 257 := by decide +kernel
  have budget : depthBudget = 256 := rfl
  omega

end Bsdos.Plist
