import Bsdos.Octets.Unicode
import Bsdos.Search.Cut
import Bsdos.Text

namespace Bsdos.Streams
open Octets

/-- `split_once`: what is before the first separator, and what is after it. -/
def splitOnce (sep : Char) (s : String) : Option (String × String) :=
  (Search.cut sep s.toList).map fun parts => (String.ofList parts.1, String.ofList parts.2)

/-- `str::parse::<u32>`. -/
def parseU32 (s : String) : Option UInt32 := (Text.parseBelow 4294967296 s).map UInt32.ofNat

def parseSizeRequest (s : String) : Option (UInt32 × UInt32 × UInt32) := do
  let (wh, scaleStr) ← splitOnce '@' s
  let (wStr, hStr) ← splitOnce 'x' wh
  let w ← parseU32 wStr
  let h ← parseU32 hStr
  let scale := max ((parseU32 scaleStr).getD 1) 1
  if w = 0 ∨ h = 0 then none else some (w, h, scale)

def computeLogicalSize (w h scale : UInt32) : Option (UInt32 × UInt32) :=
  if scale = 0 then none
  else
    let lw := w / scale
    let lh := h / scale
    if lw = 0 ∨ lh = 0 then none else some (lw, lh)

def modeText (w h : UInt32) : String := toString w.toNat ++ "x" ++ toString h.toNat

def computeRandrMode (sizeStr : String) : Option String := do
  let (w, h, _) ← parseSizeRequest sizeStr
  if w = 0 ∨ h = 0 then none else some (modeText w h)

/-- A call of `wlr-randr`; what comes of it is not looked at. -/
structure RandrCommand where
  args : List String
  env : List (String × String)
  deriving DecidableEq

def randr (rundir mode : String) : RandrCommand where
  args := ["--output", "HEADLESS-1", "--custom-mode", mode]
  env := [("XDG_RUNTIME_DIR", rundir), ("WAYLAND_DISPLAY", "wayland-0")]

/-- What the handler of a stream runs for the payloads it gets, until its subscriber ends. -/
def streamResizeHandler (rundir : String) (payloads : List (List UInt8)) : List RandrCommand :=
  payloads.filterMap fun payload => do
    let sizeStr ← fromUtf8 payload
    let (w, h, _) ← parseSizeRequest sizeStr
    if w = 0 ∨ h = 0 then none else some (randr rundir (modeText w h))

/-- The one of the host, which goes by the logical size. -/
def resizeSubscriber (rundir : String) (payloads : List (List UInt8)) : List RandrCommand :=
  payloads.filterMap fun payload => do
    let sizeStr ← fromUtf8 payload
    let (w, h, s) ← parseSizeRequest sizeStr
    let (lw, lh) ← computeLogicalSize w h s
    some (randr rundir (modeText lw lh))

/-! What is accepted. -/

/-- A number of 32 bits in decimal, with leading zeros and one plus sign as they come. -/
def Decimal (s : String) (n : UInt32) : Prop :=
  ∃ ds, (s.toList = ds ∨ s.toList = '+' :: ds) ∧ ds ≠ [] ∧ (∀ c ∈ ds, c.isDigit = true) ∧ Nat.ofDigitChars 10 ds 0 = n.toNat

theorem splitOnce_iff {sep : Char} {s front back : String} :
    splitOnce sep s = some (front, back) ↔ s = front ++ String.singleton sep ++ back ∧ sep ∉ front.toList := by
  have chars : s = front ++ String.singleton sep ++ back ↔ s.toList = front.toList ++ sep :: back.toList := by
    rw [← String.toList_inj, String.toList_append, String.toList_append, String.toList_singleton, List.append_assoc,
      List.singleton_append]
  rw [chars, ← Search.cut_iff, splitOnce, Option.map_eq_some_iff]
  constructor
  · rintro ⟨parts, found, same⟩
    cases same
    rwa [String.toList_ofList, String.toList_ofList]
  · intro found
    exact ⟨_, found, by rw [String.ofList_toList, String.ofList_toList]⟩

theorem isDigit_iff {c : Char} : c.isDigit = true ↔ '0' ≤ c ∧ c ≤ '9' := by
  rw [Char.isDigit, Bool.and_eq_true, decide_eq_true_eq, decide_eq_true_eq]
  rfl

theorem digits_iff {cs : List Char} {n m : Nat} :
    Text.digits n cs = some m ↔ (∀ c ∈ cs, c.isDigit = true) ∧ Nat.ofDigitChars 10 cs n = m := by
  induction cs generalizing n with
  | nil =>
    rw [Text.digits, Option.some.injEq, Nat.ofDigitChars_nil]
    exact ⟨fun same => ⟨fun c member => absurd member List.not_mem_nil, same⟩, fun both => both.2⟩
  | cons c cs ih =>
    rw [Text.digits, Nat.ofDigitChars_cons, List.forall_mem_cons, isDigit_iff, and_assoc, ← ih]
    by_cases digit : '0' ≤ c ∧ c ≤ '9'
    · rw [if_pos digit]
      exact (and_iff_right digit).symm
    · rw [if_neg digit]
      exact iff_of_false nofun fun both => digit both.1

/-- What follows the sign, if there is one. -/
def unsigned (cs : List Char) : List Char :=
  match cs with
  | '+' :: rest => rest
  | cs => cs

theorem parseBelow_unsigned (bound : Nat) (s : String) : Text.parseBelow bound s =
    if unsigned s.toList = [] then none else (Text.digits 0 (unsigned s.toList)).bind fun n => if n < bound then some n else none := by
  rw [Text.parseBelow]
  cases chars : s.toList with
  | nil => rfl
  | cons c cs =>
    by_cases plus : c = '+'
    · subst plus
      cases cs <;> rfl
    · rw [if_neg (by simp [unsigned, plus])]
      simp only [unsigned, List.cons.injEq, plus, false_and, imp_self, implies_true]

theorem parseU32_unsigned {s : String} {n : UInt32} : parseU32 s = some n ↔ unsigned s.toList ≠ [] ∧
    (∀ c ∈ unsigned s.toList, c.isDigit = true) ∧ Nat.ofDigitChars 10 (unsigned s.toList) 0 = n.toNat := by
  rw [parseU32, parseBelow_unsigned]
  by_cases empty : unsigned s.toList = []
  · rw [if_pos empty]
    exact iff_of_false nofun fun all => all.1 empty
  · rw [if_neg empty, ← digits_iff, Option.map_eq_some_iff]
    constructor
    · rintro ⟨m, read, rfl⟩
      obtain ⟨m', digits, small⟩ := Option.bind_eq_some_iff.mp read
      split at small
      · cases small
        rename_i fits
        exact ⟨empty, by rw [digits, UInt32.toNat_ofNat_of_lt' fits]⟩
      · cases small
    · rintro ⟨-, digits⟩
      refine ⟨n.toNat, ?_, UInt32.ofNat_toNat⟩
      rw [digits, Option.bind_some, if_pos n.toNat_lt]

theorem unsigned_digit {ds : List Char} (digits : ∀ c ∈ ds, c.isDigit = true) : unsigned ds = ds := by
  cases ds with
  | nil => rfl
  | cons c ds =>
    have first := digits c List.mem_cons_self
    by_cases plus : c = '+'
    · subst plus
      cases first
    · simp [unsigned, plus]

theorem parseU32_iff {s : String} {n : UInt32} : parseU32 s = some n ↔ Decimal s n := by
  rw [parseU32_unsigned]
  constructor
  · rintro ⟨filled, digits, value⟩
    refine ⟨unsigned s.toList, ?_, filled, digits, value⟩
    unfold unsigned
    split
    · rename_i rest whole
      exact .inr whole
    · exact .inl rfl
  · rintro ⟨ds, rfl | signed, filled, digits, value⟩
    · rw [unsigned_digit digits]
      exact ⟨filled, digits, value⟩
    · rw [signed]
      exact ⟨filled, digits, value⟩

theorem Decimal.unique {s : String} {n m : UInt32} (reads : Decimal s n) (reads' : Decimal s m) : n = m :=
  Option.some.inj ((parseU32_iff.mpr reads).symm.trans (parseU32_iff.mpr reads'))

theorem Decimal.free {s : String} {n : UInt32} (reads : Decimal s n) {c : Char} (other : c.isDigit = false) (sign : c ≠ '+') :
    c ∉ s.toList := by
  obtain ⟨ds, text, -, digits, -⟩ := reads
  have outside : c ∉ ds := fun inside => by
    rw [digits c inside] at other
    cases other
  rcases text with rfl | signed
  · exact outside
  · rw [signed, List.mem_cons, not_or]
    exact ⟨sign, outside⟩

/-- The scale that is taken for what is after the `@`. -/
def Scaled (s : String) (scale : UInt32) : Prop := Decimal s scale ∧ scale ≠ 0 ∨ scale = 1 ∧ ∀ n, Decimal s n → n = 0

theorem max_one (n : UInt32) : max n 1 = if n = 0 then 1 else n := by
  have small : n ≤ 1 ↔ n.toNat ≤ 1 := UInt32.le_iff_toNat_le
  have zero : n = 0 ↔ n.toNat = 0 := UInt32.toNat_inj.symm
  have one : n = 1 ↔ n.toNat = 1 := UInt32.toNat_inj.symm
  rw [show max n 1 = if n ≤ 1 then 1 else n from rfl]
  by_cases low : n ≤ 1
  · rw [if_pos low]
    split
    · rfl
    · rename_i filled
      have positive := mt zero.mpr filled
      have most := small.mp low
      exact (one.mpr (by omega)).symm
  · have filled : n ≠ 0 := fun empty => low (small.mpr (by rw [zero.mp empty]; omega))
    rw [if_neg low, if_neg filled]

theorem scaled_iff {s : String} {scale : UInt32} : max ((parseU32 s).getD 1) 1 = scale ↔ Scaled s scale := by
  rw [max_one, Scaled]
  cases read : parseU32 s with
  | none =>
    have none (n : UInt32) : ¬ Decimal s n := fun reads => by
      rw [parseU32_iff.mpr reads] at read
      cases read
    rw [Option.getD_none, if_neg (by decide)]
    constructor
    · rintro rfl
      exact .inr ⟨rfl, fun n reads => absurd reads (none n)⟩
    · rintro (⟨reads, -⟩ | ⟨rfl, -⟩)
      · exact absurd reads (none scale)
      · rfl
  | some n =>
    have reads := parseU32_iff.mp read
    rw [Option.getD_some]
    constructor
    · rintro rfl
      split
      · rename_i zero
        exact .inr ⟨rfl, fun m reads' => reads'.unique reads |>.trans zero⟩
      · rename_i filled
        exact .inl ⟨reads, filled⟩
    · rintro (⟨reads', filled⟩ | ⟨rfl, zero⟩)
      · rw [reads.unique reads', if_neg filled]
      · rw [if_pos (zero n reads)]

theorem parseSizeRequest_read {s : String} {w h scale : UInt32} (read : parseSizeRequest s = some (w, h, scale)) :
    ∃ wStr hStr scaleStr, s = wStr ++ "x" ++ hStr ++ "@" ++ scaleStr ∧ Decimal wStr w ∧ Decimal hStr h ∧ w ≠ 0 ∧ h ≠ 0 ∧
      Scaled scaleStr scale := by
  obtain ⟨⟨wh, scaleStr⟩, outer, read⟩ := Option.bind_eq_some_iff.mp read
  obtain ⟨⟨wStr, hStr⟩, inner, read⟩ := Option.bind_eq_some_iff.mp read
  obtain ⟨w', isW, read⟩ := Option.bind_eq_some_iff.mp read
  obtain ⟨h', isH, read⟩ := Option.bind_eq_some_iff.mp read
  split at read
  · cases read
  · rename_i filled
    obtain ⟨filledW, filledH⟩ := not_or.mp filled
    cases read
    refine ⟨wStr, hStr, scaleStr, ?_, parseU32_iff.mp isW, parseU32_iff.mp isH, filledW, filledH, scaled_iff.mp rfl⟩
    rw [(splitOnce_iff.mp outer).1, (splitOnce_iff.mp inner).1]
    rfl

/-- Exactly these texts are requests: two positive numbers with an `x` between them, an `@`, and anything after it. -/
theorem parseSizeRequest_iff {s : String} {w h scale : UInt32} : parseSizeRequest s = some (w, h, scale) ↔
    ∃ wStr hStr scaleStr, s = wStr ++ "x" ++ hStr ++ "@" ++ scaleStr ∧ Decimal wStr w ∧ Decimal hStr h ∧ w ≠ 0 ∧ h ≠ 0 ∧
      Scaled scaleStr scale := by
  constructor
  · exact parseSizeRequest_read
  · rintro ⟨wStr, hStr, scaleStr, rfl, isW, isH, filledW, filledH, scaled⟩
    have outer : splitOnce '@' (wStr ++ "x" ++ hStr ++ "@" ++ scaleStr) = some (wStr ++ "x" ++ hStr, scaleStr) := by
      refine splitOnce_iff.mpr ⟨rfl, ?_⟩
      rw [String.toList_append, String.toList_append, List.mem_append, List.mem_append, not_or, not_or]
      exact ⟨⟨isW.free (by decide) (by decide), by decide⟩, isH.free (by decide) (by decide)⟩
    have inner : splitOnce 'x' (wStr ++ "x" ++ hStr) = some (wStr, hStr) :=
      splitOnce_iff.mpr ⟨rfl, isW.free (by decide) (by decide)⟩
    simp only [parseSizeRequest, outer, inner, parseU32_iff.mpr isW, parseU32_iff.mpr isH, bind, Option.bind]
    rw [if_neg (not_or.mpr ⟨filledW, filledH⟩), scaled_iff.mpr scaled]

theorem Scaled.filled {s : String} {scale : UInt32} (scaled : Scaled s scale) : scale ≠ 0 := by
  rcases scaled with ⟨-, filled⟩ | ⟨rfl, -⟩
  · exact filled
  · decide

/-- The checks for zero that come after the parser never stop anything. -/
theorem parseSizeRequest_filled {s : String} {w h scale : UInt32} (read : parseSizeRequest s = some (w, h, scale)) :
    w ≠ 0 ∧ h ≠ 0 ∧ scale ≠ 0 := by
  obtain ⟨_, _, _, -, -, -, filledW, filledH, scaled⟩ := parseSizeRequest_read read
  exact ⟨filledW, filledH, scaled.filled⟩

theorem computeRandrMode_read (s : String) : computeRandrMode s = (parseSizeRequest s).map fun r => modeText r.1 r.2.1 := by
  unfold computeRandrMode
  cases read : parseSizeRequest s with
  | none => rfl
  | some r =>
    obtain ⟨w, h, scale⟩ := r
    obtain ⟨filledW, filledH, -⟩ := parseSizeRequest_filled read
    exact if_neg (not_or.mpr ⟨filledW, filledH⟩)

theorem div_zero_iff {n scale : UInt32} (filled : scale ≠ 0) : n / scale = 0 ↔ n.toNat < scale.toNat := by
  have positive : scale.toNat ≠ 0 := fun empty => filled (UInt32.toNat_inj.mp empty)
  rw [← UInt32.toNat_inj, UInt32.toNat_div]
  exact Nat.div_eq_zero_iff_lt (Nat.pos_of_ne_zero positive)

theorem computeLogicalSize_some {w h scale : UInt32} (filled : scale ≠ 0) : computeLogicalSize w h scale =
    if scale.toNat ≤ w.toNat ∧ scale.toNat ≤ h.toNat then some (w / scale, h / scale) else none := by
  rw [computeLogicalSize, if_neg filled]
  simp only [div_zero_iff filled]
  by_cases fits : scale.toNat ≤ w.toNat ∧ scale.toNat ≤ h.toNat
  · rw [if_pos fits, if_neg (by omega)]
  · rw [if_neg fits, if_pos (by omega)]

/-- The size that a payload asks for, and its scale. -/
def requested (payload : List UInt8) : Option (UInt32 × UInt32 × UInt32) := (fromUtf8 payload).bind parseSizeRequest

theorem requested_filled {payload : List UInt8} {r : UInt32 × UInt32 × UInt32} (read : requested payload = some r) :
    r.1 ≠ 0 ∧ r.2.1 ≠ 0 ∧ r.2.2 ≠ 0 := by
  obtain ⟨s, -, read⟩ := Option.bind_eq_some_iff.mp read
  exact parseSizeRequest_filled read

theorem physical_step (rundir : String) (payload : List UInt8) :
    (do
      let sizeStr ← fromUtf8 payload
      let (w, h, _) ← parseSizeRequest sizeStr
      if w = 0 ∨ h = 0 then none else some (randr rundir (modeText w h))) =
      (requested payload).map fun r => randr rundir (modeText r.1 r.2.1) := by
  rw [requested]
  cases fromUtf8 payload with
  | none => rfl
  | some s =>
    cases read : parseSizeRequest s with
    | none => simp only [bind, Option.bind, read, Option.map_none]
    | some r =>
      obtain ⟨filledW, filledH, -⟩ := parseSizeRequest_filled read
      simp only [bind, Option.bind, read, Option.map_some]
      exact if_neg (not_or.mpr ⟨filledW, filledH⟩)

theorem logical_step (rundir : String) (payload : List UInt8) :
    (do
      let sizeStr ← fromUtf8 payload
      let (w, h, s) ← parseSizeRequest sizeStr
      let (lw, lh) ← computeLogicalSize w h s
      some (randr rundir (modeText lw lh))) =
      (requested payload).bind fun r =>
        if r.2.2.toNat ≤ r.1.toNat ∧ r.2.2.toNat ≤ r.2.1.toNat then
          some (randr rundir (modeText (r.1 / r.2.2) (r.2.1 / r.2.2)))
        else none := by
  rw [requested]
  cases fromUtf8 payload with
  | none => rfl
  | some s =>
    cases read : parseSizeRequest s with
    | none => simp only [bind, Option.bind, read]
    | some r =>
      obtain ⟨-, -, filled⟩ := parseSizeRequest_filled read
      simp only [bind, Option.bind, read, computeLogicalSize_some filled]
      by_cases fits : r.2.2.toNat ≤ r.1.toNat ∧ r.2.2.toNat ≤ r.2.1.toNat
      · rw [if_pos fits, if_pos fits]
      · rw [if_neg fits, if_neg fits]

/-- Whatever comes in: the handler of a stream runs the command for the physical size of each request, in their order,
and that of the host the one for the logical size, but where the scale is larger than a side; no size is zero, and the
mode is the one that is computed of the text. -/
theorem resize_modes (rundir : String) (payloads : List (List UInt8)) :
    (∀ r ∈ payloads.filterMap requested, r.1 ≠ 0 ∧ r.2.1 ≠ 0 ∧ r.2.2 ≠ 0) ∧
    streamResizeHandler rundir payloads = (payloads.filterMap requested).map (fun r => randr rundir (modeText r.1 r.2.1)) ∧
    streamResizeHandler rundir payloads =
      (payloads.filterMap fun payload => (fromUtf8 payload).bind computeRandrMode).map (randr rundir) ∧
    resizeSubscriber rundir payloads =
      ((payloads.filterMap requested).filter fun r => r.2.2.toNat ≤ r.1.toNat ∧ r.2.2.toNat ≤ r.2.1.toNat).map
        fun r => randr rundir (modeText (r.1 / r.2.2) (r.2.1 / r.2.2)) := by
  refine ⟨?_, ?_, ?_, ?_⟩
  · intro r member
    obtain ⟨payload, -, read⟩ := List.mem_filterMap.mp member
    exact requested_filled read
  · rw [streamResizeHandler, List.map_filterMap]
    exact List.filterMap_congr fun payload _ => physical_step rundir payload
  · rw [streamResizeHandler, List.map_filterMap]
    refine List.filterMap_congr fun payload _ => (physical_step rundir payload).trans ?_
    rw [requested]
    cases fromUtf8 payload with
    | none => rfl
    | some s =>
      rw [Option.bind_some, Option.bind_some, computeRandrMode_read, Option.map_map]
      rfl
  · rw [resizeSubscriber, List.filterMap_congr fun payload _ => logical_step rundir payload]
    induction payloads with
    | nil => rfl
    | cons payload payloads ih =>
      rw [List.filterMap_cons, List.filterMap_cons, ih]
      cases requested payload with
      | none => rfl
      | some r =>
        rw [Option.bind_some, List.filter_cons]
        by_cases fits : r.2.2.toNat ≤ r.1.toNat ∧ r.2.2.toNat ≤ r.2.1.toNat
        · rw [if_pos fits, if_pos (decide_eq_true fits), List.map_cons]
        · rw [if_neg fits, if_neg (by rwa [decide_eq_true_eq])]

end Bsdos.Streams
