import Mathlib.Data.Set.Basic

namespace Bsdos.Wlstream

/-- A rectangle in pixels. -/
structure Rect where
  x : UInt16
  y : UInt16
  w : UInt16
  h : UInt16
  deriving DecidableEq, Repr

def Rect.zero : Rect := ⟨0, 0, 0, 0⟩

def Rect.isZero (r : Rect) : Bool := r.w == 0 || r.h == 0

/-- `a.saturating_add(b)`. -/
def saturatingAdd (a b : UInt16) : UInt16 := if a.toNat + b.toNat < 65536 then a + b else 65535

/-- `a.saturating_sub(b)`. -/
def saturatingSub (a b : UInt16) : UInt16 := if b ≤ a then a - b else 0

def clampDamage (damage : Rect) (surfaceW surfaceH : UInt16) : Option Rect :=
  if damage.isZero then some ⟨0, 0, surfaceW, surfaceH⟩
  else
    let x := min damage.x surfaceW
    let y := min damage.y surfaceH
    let x2 := min (saturatingAdd damage.x damage.w) surfaceW
    let y2 := min (saturatingAdd damage.y damage.h) surfaceH
    let w := saturatingSub x2 x
    let h := saturatingSub y2 y
    if w = 0 ∨ h = 0 then none else some ⟨x, y, w, h⟩

def mergeDamage (d1 d2 : Rect) : Rect :=
  if d1.isZero then d2
  else if d2.isZero then d1
  else
    let x1 := min d1.x d2.x
    let y1 := min d1.y d2.y
    let x2 := max (saturatingAdd d1.x d1.w) (saturatingAdd d2.x d2.w)
    let y2 := max (saturatingAdd d1.y d1.h) (saturatingAdd d2.y d2.h)
    ⟨x1, y1, saturatingSub x2 x1, saturatingSub y2 y1⟩

/-! The pixels of a rectangle. -/

/-- The pixels from one corner to the other. -/
def box (left top right bottom : Nat) : Set (Nat × Nat) := {p | (left ≤ p.1 ∧ p.1 < right) ∧ top ≤ p.2 ∧ p.2 < bottom}

def Rect.pixels (r : Rect) : Set (Nat × Nat) := box r.x.toNat r.y.toNat (r.x.toNat + r.w.toNat) (r.y.toNat + r.h.toNat)

/-- The pixels that a surface can have: its sides have two bytes each. -/
def screen : Set (Nat × Nat) := box 0 0 65535 65535

section Words
variable {a b : UInt16}

theorem toNat_saturatingAdd (a b : UInt16) : (saturatingAdd a b).toNat = min (a.toNat + b.toNat) 65535 := by
  rw [saturatingAdd]
  split
  · rename_i small
    rw [UInt16.toNat_add, Nat.mod_eq_of_lt small]
    omega
  · change 65535 = _
    omega

theorem toNat_saturatingSub (a b : UInt16) : (saturatingSub a b).toNat = a.toNat - b.toNat := by
  rw [saturatingSub]
  split
  · rename_i ordered
    exact UInt16.toNat_sub_of_le _ _ ordered
  · rename_i larger
    rw [UInt16.le_iff_toNat_le] at larger
    change 0 = _
    omega

theorem toNat_min (a b : UInt16) : (min a b).toNat = min a.toNat b.toNat := by
  rw [show min a b = if a ≤ b then a else b from rfl]
  split
  · rename_i below
    exact (Nat.min_eq_left (UInt16.le_iff_toNat_le.mp below)).symm
  · rename_i above
    exact (Nat.min_eq_right (Nat.le_of_not_le fun below => above (UInt16.le_iff_toNat_le.mpr below))).symm

theorem toNat_max (a b : UInt16) : (max a b).toNat = max a.toNat b.toNat := by
  rw [show max a b = if a ≤ b then b else a from rfl]
  split
  · rename_i below
    exact (Nat.max_eq_right (UInt16.le_iff_toNat_le.mp below)).symm
  · rename_i above
    exact (Nat.max_eq_left (Nat.le_of_not_le fun below => above (UInt16.le_iff_toNat_le.mpr below))).symm

theorem toNat_zero_iff : a = 0 ↔ a.toNat = 0 := UInt16.toNat_inj.symm

end Words

section Boxes
variable {l t r b l' t' r' b' : Nat}

theorem box_inter : box l t r b ∩ box l' t' r' b' = box (max l l') (max t t') (min r r') (min b b') := by
  ext p
  simp only [box, Set.mem_inter_iff, Set.mem_ofPred_eq]
  omega

theorem box_empty (none : r ≤ l ∨ b ≤ t) : box l t r b = ∅ := by
  ext p
  simp only [box, Set.mem_ofPred_eq, Set.mem_empty_iff_false, iff_false]
  omega

/-- A box with pixels lies in another exactly if its corners do. -/
theorem box_subset_iff (wide : l < r) (high : t < b) :
    box l t r b ⊆ box l' t' r' b' ↔ (l' ≤ l ∧ r ≤ r') ∧ t' ≤ t ∧ b ≤ b' := by
  constructor
  · intro inside
    have first : (l, t) ∈ box l' t' r' b' := inside ⟨⟨Nat.le_refl l, wide⟩, Nat.le_refl t, high⟩
    have last : (r - 1, b - 1) ∈ box l' t' r' b' := by
      apply inside
      simp only [box, Set.mem_ofPred_eq]
      omega
    simp only [box, Set.mem_ofPred_eq] at first last
    omega
  · rintro corners p ⟨across, down⟩
    simp only [box, Set.mem_ofPred_eq]
    omega

end Boxes

theorem Rect.isZero_iff (r : Rect) : r.isZero = true ↔ r.w.toNat = 0 ∨ r.h.toNat = 0 := by
  rw [isZero, Bool.or_eq_true, beq_iff_eq, beq_iff_eq, toNat_zero_iff, toNat_zero_iff]

theorem Rect.pixels_zero {r : Rect} (zero : r.isZero = true) : r.pixels = ∅ := by
  rw [isZero_iff] at zero
  exact box_empty (by omega)

theorem Rect.pixels_ne {r : Rect} (filled : ¬ r.isZero = true) : r.pixels ≠ ∅ := by
  rw [isZero_iff] at filled
  have corner : (r.x.toNat, r.y.toNat) ∈ r.pixels := by
    simp only [pixels, box, Set.mem_ofPred_eq]
    omega
  exact Set.nonempty_iff_ne_empty.mp ⟨_, corner⟩

section Side
variable {x w side : Nat}

/-- A side that is clamped to nothing has nothing on the surface. -/
theorem clampedSide_empty (fits : side < 65536) (none : min (min (x + w) 65535) side - min x side = 0) :
    min (x + w) side ≤ max x 0 := by
  omega

theorem clampedSide_ends (fits : side < 65536) (some : ¬ min (min (x + w) 65535) side - min x side = 0) :
    min x side = max x 0 ∧ min x side + (min (min (x + w) 65535) side - min x side) = min (x + w) side := by
  omega

end Side

/-- What is clamped is what of the damage is on the surface, and the whole surface for damage of no size. -/
theorem clampDamage_pixels (damage : Rect) (surfaceW surfaceH : UInt16) :
    (clampDamage damage surfaceW surfaceH).elim ∅ Rect.pixels =
      if damage.isZero then box 0 0 surfaceW.toNat surfaceH.toNat
      else damage.pixels ∩ box 0 0 surfaceW.toNat surfaceH.toNat := by
  rw [clampDamage]
  by_cases zero : damage.isZero = true
  · rw [if_pos zero, if_pos zero, Option.elim_some, Rect.pixels]
    change box 0 0 (0 + surfaceW.toNat) (0 + surfaceH.toNat) = _
    rw [Nat.zero_add, Nat.zero_add]
  · have widest := surfaceW.toNat_lt
    have highest := surfaceH.toNat_lt
    rw [if_neg zero, if_neg zero, Rect.pixels, box_inter]
    dsimp only
    simp only [toNat_zero_iff, toNat_saturatingSub, toNat_min, toNat_saturatingAdd]
    split
    · rename_i none
      exact (box_empty (none.imp (clampedSide_empty widest) (clampedSide_empty highest))).symm
    · rename_i some
      obtain ⟨wide, high⟩ := not_or.mp some
      obtain ⟨left, right⟩ := clampedSide_ends widest wide
      obtain ⟨top, bottom⟩ := clampedSide_ends highest high
      rw [Option.elim_some, Rect.pixels]
      simp only [toNat_saturatingSub, toNat_min, toNat_saturatingAdd]
      rw [right, bottom, left, top]

/-- There is none exactly where there is damage, but none of it on the surface. -/
theorem clampDamage_none_iff (damage : Rect) (surfaceW surfaceH : UInt16) : clampDamage damage surfaceW surfaceH = none ↔
    damage.isZero = false ∧ damage.pixels ∩ box 0 0 surfaceW.toNat surfaceH.toNat = ∅ := by
  by_cases zero : damage.isZero = true
  · rw [clampDamage, if_pos zero, zero]
    exact ⟨fun none => absurd none (Option.some_ne_none _), fun both => absurd both.1 Bool.true_eq_false.mp⟩
  · have pixels := clampDamage_pixels damage surfaceW surfaceH
    rw [if_neg zero] at pixels
    refine ⟨fun none => ⟨Bool.eq_false_iff.mpr zero, ?_⟩, fun both => ?_⟩
    · rw [← pixels, none, Option.elim_none]
    · rw [both.2, clampDamage, if_neg zero] at pixels
      rw [clampDamage, if_neg zero]
      dsimp only at pixels ⊢
      split
      · rfl
      · rename_i filled
        rw [if_neg filled, Option.elim_some] at pixels
        exact absurd pixels (Rect.pixels_ne (by simpa only [Rect.isZero_iff, ← toNat_zero_iff] using filled))

section Merged
variable {d d' r : Rect}

/-- The pixels of a rectangle that a surface can have. -/
def Rect.onScreen (r : Rect) : Set (Nat × Nat) := r.pixels ∩ screen

/-- A rectangle without pixels, or one whose first pixel a surface can have. -/
def Rect.Placed (r : Rect) : Prop := r.isZero = true ∨ r.x.toNat < 65535 ∧ r.y.toNat < 65535

theorem Rect.onScreen_zero (zero : d.isZero = true) : d.onScreen = ∅ := by
  rw [onScreen, pixels_zero zero, Set.empty_inter]

theorem Rect.onScreen_subset_iff (filled : ¬ d.isZero = true) (placed : d.x.toNat < 65535 ∧ d.y.toNat < 65535) :
    d.onScreen ⊆ r.pixels ↔ (r.x.toNat ≤ d.x.toNat ∧ min (d.x.toNat + d.w.toNat) 65535 ≤ r.x.toNat + r.w.toNat) ∧
      r.y.toNat ≤ d.y.toNat ∧ min (d.y.toNat + d.h.toNat) 65535 ≤ r.y.toNat + r.h.toNat := by
  rw [isZero_iff] at filled
  rw [onScreen, screen, pixels, box_inter, Nat.max_eq_left (Nat.zero_le _), Nat.max_eq_left (Nat.zero_le _), pixels,
    box_subset_iff (by omega) (by omega)]

/-- Two rectangles with pixels, merged. -/
theorem mergeDamage_filled (filled : ¬ d.isZero = true) (filled' : ¬ d'.isZero = true) :
    (mergeDamage d d').x.toNat = min d.x.toNat d'.x.toNat ∧ (mergeDamage d d').y.toNat = min d.y.toNat d'.y.toNat ∧
    (mergeDamage d d').x.toNat + (mergeDamage d d').w.toNat =
      max (min (d.x.toNat + d.w.toNat) 65535) (min (d'.x.toNat + d'.w.toNat) 65535) ∧
    (mergeDamage d d').y.toNat + (mergeDamage d d').h.toNat =
      max (min (d.y.toNat + d.h.toNat) 65535) (min (d'.y.toNat + d'.h.toNat) 65535) := by
  have left := d.x.toNat_lt
  have top := d.y.toNat_lt
  rw [mergeDamage, if_neg filled, if_neg filled']
  refine ⟨toNat_min _ _, toNat_min _ _, ?_, ?_⟩
  · rw [toNat_saturatingSub, toNat_min, toNat_max, toNat_saturatingAdd, toNat_saturatingAdd]
    omega
  · rw [toNat_saturatingSub, toNat_min, toNat_max, toNat_saturatingAdd, toNat_saturatingAdd]
    omega

/-- Along one axis, what holds both pieces holds what they are merged into, and no less does. -/
theorem mergedSide_iff {x w x' w' m e l r : Nat} (start : m = min x x')
    (ends : m + e = max (min (x + w) 65535) (min (x' + w') 65535)) :
    l ≤ m ∧ min (m + e) 65535 ≤ r ↔ (l ≤ x ∧ min (x + w) 65535 ≤ r) ∧ l ≤ x' ∧ min (x' + w') 65535 ≤ r := by
  have whole : min (m + e) 65535 = m + e := by
    rw [ends]
    exact Nat.min_eq_left (Nat.max_le.mpr ⟨Nat.min_le_right _ _, Nat.min_le_right _ _⟩)
  rw [whole, ends, start, Nat.le_min, Nat.max_le, and_and_and_comm]

theorem mergeDamage_within (placed : d.Placed) (placed' : d'.Placed) : (mergeDamage d d').Placed ∧
    ∀ r : Rect, (mergeDamage d d').onScreen ⊆ r.pixels ↔ d.onScreen ⊆ r.pixels ∧ d'.onScreen ⊆ r.pixels := by
  by_cases zero : d.isZero = true
  · rw [mergeDamage, if_pos zero, Rect.onScreen_zero zero]
    exact ⟨placed', fun r => ⟨fun inside => ⟨Set.empty_subset _, inside⟩, And.right⟩⟩
  · by_cases zero' : d'.isZero = true
    · rw [mergeDamage, if_neg zero, if_pos zero', Rect.onScreen_zero zero']
      exact ⟨placed, fun r => ⟨fun inside => ⟨inside, Set.empty_subset _⟩, And.left⟩⟩
    · obtain ⟨left, top, right, bottom⟩ := mergeDamage_filled zero zero'
      obtain ⟨across, down⟩ := placed.resolve_left zero
      obtain ⟨across', down'⟩ := placed'.resolve_left zero'
      have sizes : ¬ (d.w.toNat = 0 ∨ d.h.toNat = 0) := fun none => zero ((Rect.isZero_iff d).mpr none)
      have filled : ¬ (mergeDamage d d').isZero = true := by
        rw [Rect.isZero_iff]
        omega
      have start : (mergeDamage d d').x.toNat < 65535 ∧ (mergeDamage d d').y.toNat < 65535 := by omega
      refine ⟨.inr start, fun r => ?_⟩
      rw [Rect.onScreen_subset_iff filled start, Rect.onScreen_subset_iff zero ⟨across, down⟩,
        Rect.onScreen_subset_iff zero' ⟨across', down'⟩, mergedSide_iff left right, mergedSide_iff top bottom, and_and_and_comm]

theorem foldl_mergeDamage {ds : List Rect} (placed : d.Placed) (all : ∀ d' ∈ ds, d'.Placed) (r : Rect) :
    (ds.foldl mergeDamage d).onScreen ⊆ r.pixels ↔ d.onScreen ⊆ r.pixels ∧ ∀ d' ∈ ds, d'.onScreen ⊆ r.pixels := by
  induction ds generalizing d with
  | nil => exact ⟨fun inside => ⟨inside, fun d' member => absurd member List.not_mem_nil⟩, And.left⟩
  | cons d' ds ih =>
    obtain ⟨next, both⟩ := mergeDamage_within placed (all d' List.mem_cons_self)
    rw [List.foldl_cons, ih next fun d'' member => all d'' (List.mem_cons_of_mem _ member), both r, List.forall_mem_cons,
      and_assoc]

/-- However much damage is merged, and in whatever order, the result is the least rectangle that
has all of its pixels that a surface can have. -/
theorem mergeDamage_least {ds : List Rect} (placed : ∀ d ∈ ds, d.Placed) (r : Rect) :
    (ds.foldl mergeDamage .zero).onScreen ⊆ r.pixels ↔ ∀ d ∈ ds, d.onScreen ⊆ r.pixels := by
  have zero : Rect.zero.isZero = true := rfl
  rw [foldl_mergeDamage (.inl zero) placed, Rect.onScreen_zero zero]
  exact ⟨And.right, fun all => ⟨Set.empty_subset _, all⟩⟩

theorem mergeDamage_least_two : ([⟨1, 1, 2, 2⟩, ⟨5, 0, 1, 1⟩] : List Rect).foldl mergeDamage .zero = ⟨1, 0, 5, 3⟩ ∧
    ∀ d ∈ ([⟨1, 1, 2, 2⟩, ⟨5, 0, 1, 1⟩] : List Rect), d.onScreen ⊆ (⟨1, 0, 5, 3⟩ : Rect).pixels :=
  ⟨by decide, (mergeDamage_least (List.forall_mem_cons.mpr
    ⟨.inr (by decide), List.forall_mem_singleton.mpr (.inr (by decide))⟩) _).mp (Set.inter_subset_left ..)⟩

/-- A rectangle whose first pixel no surface has stretches what it is merged with. -/
example : (([⟨65535, 0, 1, 1⟩, ⟨0, 0, 1, 1⟩] : List Rect).foldl mergeDamage .zero).w = 65535 := by decide

end Merged

end Bsdos.Wlstream
