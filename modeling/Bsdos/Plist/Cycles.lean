import Bsdos.Plist.Checked

namespace Bsdos.Plist.Checked
open Octets Machine Relation

/-- How many references follow the marker. -/
def references (marker : UInt8) (count : Nat) : Nat :=
  if marker >>> 4 = 0xA then count else if marker >>> 4 = 0xD then 2 * count else 0

/-- The object `i` is a container, and `j` is among its references. -/
def Contains (bytes : Bytes) (i j : Nat) : Prop :=
  let refSize := (Plist.readTrailer bytes).objectRefSize
  ∃ start marker count refsStart, (offsetTable bytes)[i]? = some start ∧ bytes[start]? = some marker ∧
    Plist.readCount bytes start (marker &&& 0x0F).toNat = .ok (count, refsStart) ∧
    ∃ k, k < references marker count ∧ refAt bytes refSize (refsStart + k * refSize) = some j

/-- Directly or indirectly. -/
def ContainsItself (bytes : Bytes) (i : Nat) : Prop := TransGen (Contains bytes) i i

section Walk
variable {room : Room} {bytes : Bytes} {refSize left i j k : Nat}

/-- If no reference is past the end, all are followed. -/
theorem mem_itemRefs {refsStart : Nat} (whole : none ∉ itemRefs bytes refSize refsStart left i) (inside : k < left)
    (found : refAt bytes refSize (refsStart + (i + k) * refSize) = some j) :
    some j ∈ itemRefs bytes refSize refsStart left i := by
  induction left generalizing i k with
  | zero => exact absurd inside (Nat.not_lt_zero k)
  | succ left ih =>
    rw [itemRefs] at whole ⊢
    cases here : refAt bytes refSize (refsStart + i * refSize) with
    | none =>
      rw [here] at whole
      exact absurd (List.mem_singleton.mpr rfl) whole
    | some ref =>
      rw [here] at whole
      cases k with
      | zero =>
        rw [Nat.add_zero, here] at found
        rw [found]
        exact List.mem_cons_self
      | succ k =>
        have later : i + (k + 1) = i + 1 + k := by omega
        rw [later] at found
        exact List.mem_cons_of_mem _ (ih (fun none => whole (List.mem_cons_of_mem _ none)) (Nat.lt_of_succ_lt_succ inside) found)

theorem mem_entryRefs {keysStart valuesStart : Nat} (whole : none ∉ entryRefs bytes refSize keysStart valuesStart left i)
    (inside : k < left) (found : refAt bytes refSize (keysStart + (i + k) * refSize) = some j ∨
      refAt bytes refSize (valuesStart + (i + k) * refSize) = some j) :
    some j ∈ entryRefs bytes refSize keysStart valuesStart left i := by
  induction left generalizing i k with
  | zero => exact absurd inside (Nat.not_lt_zero k)
  | succ left ih =>
    rw [entryRefs] at whole ⊢
    cases key : refAt bytes refSize (keysStart + i * refSize) with
    | none =>
      rw [key] at whole
      exact absurd (List.mem_singleton.mpr rfl) whole
    | some keyRef =>
      cases value : refAt bytes refSize (valuesStart + i * refSize) with
      | none =>
        rw [key, value] at whole
        exact absurd (List.mem_singleton.mpr rfl) whole
      | some valueRef =>
        rw [key, value] at whole
        cases k with
        | zero =>
          rw [Nat.add_zero, key, value] at found
          rcases found with same | same
          · rw [same]
            exact List.mem_cons_self
          · rw [same]
            exact List.mem_cons_of_mem _ List.mem_cons_self
        | succ k =>
          have later : i + (k + 1) = i + 1 + k := by omega
          rw [later] at found
          have rest := ih (fun none => whole (List.mem_cons_of_mem _ (List.mem_cons_of_mem _ none)))
            (Nat.lt_of_succ_lt_succ inside) found
          exact List.mem_cons_of_mem _ (List.mem_cons_of_mem _ rest)

/-- The references that are followed from an object are all that it contains. -/
theorem met_complete {refs : List (Option Nat)}
    (followed : met room bytes (offsetTable bytes) (Plist.readTrailer bytes).objectRefSize i = .refs refs) (whole : none ∉ refs)
    (contains : Contains bytes i j) : some j ∈ refs := by
  obtain ⟨start, marker, count, refsStart, offset, first, read, k, inside, found⟩ := contains
  rw [met, offset] at followed
  dsimp only at followed
  rw [first] at followed
  dsimp only at followed
  rw [metAt] at followed
  rw [references] at inside
  by_cases array : marker >>> 4 = 0xA
  · rw [if_pos array, read] at followed
    rw [if_pos array] at inside
    dsimp only at followed
    by_cases oversized : room.items < count
    · rw [if_pos oversized] at followed
      cases followed
    · rw [if_neg oversized] at followed
      obtain rfl := Met.refs.inj followed
      exact mem_itemRefs whole inside (by rw [Nat.zero_add]; exact found)
  rw [if_neg array] at followed inside
  by_cases dict : marker >>> 4 = 0xD
  · rw [if_pos dict, read] at followed
    rw [if_pos dict] at inside
    dsimp only at followed
    split at followed
    · cases followed
    split at followed
    · cases followed
    obtain rfl := Met.refs.inj followed
    by_cases key : k < count
    · exact mem_entryRefs whole key (.inl (by rw [Nat.zero_add]; exact found))
    · have value : refsStart + k * (Plist.readTrailer bytes).objectRefSize = refsStart +
          count * (Plist.readTrailer bytes).objectRefSize + (k - count) * (Plist.readTrailer bytes).objectRefSize := by
        rw [Nat.add_assoc, ← Nat.add_mul, Nat.add_sub_cancel' (by omega)]
      rw [value] at found
      exact mem_entryRefs whole (show k - count < count by omega) (.inr (by rw [Nat.zero_add]; exact found))
  · rw [if_neg dict] at inside
    exact absurd inside (Nat.not_lt_zero k)

theorem walk_length (met : Nat → Met) (budget : Nat) (refs : List (Option Nat)) : (walk met budget refs).1.length ≤ budget := by
  induction budget generalizing refs with
  | zero =>
    rcases refs with _ | ⟨_ | idx, rest⟩ <;> exact Nat.le_refl 0
  | succ budget ih =>
    rcases refs with _ | ⟨_ | idx, rest⟩
    · exact Nat.zero_le _
    · exact Nat.zero_le _
    · rw [walk, List.length_cons]
      cases met idx with
      | malformed => exact Nat.succ_le_succ (Nat.zero_le _)
      | oversized => exact Nat.succ_le_succ (Nat.zero_le _)
      | refs refs => exact Nat.succ_le_succ (ih (refs ++ rest))

/-- Where the visit comes to its end, nothing that is visited lies on an endless descent. -/
theorem walk_done {met : Nat → Met} {R : Nat → Nat → Prop}
    (complete : ∀ i refs j, met i = .refs refs → none ∉ refs → R i j → some j ∈ refs) {budget : Nat} {refs : List (Option Nat)}
    (done : (walk met budget refs).2 = .done) :
    none ∉ refs ∧ (∀ i, some i ∈ refs → Acc (fun j i => R i j) i) ∧
      ∀ i ∈ (walk met budget refs).1, Acc (fun j i => R i j) i := by
  induction budget generalizing refs with
  | zero =>
    rcases refs with _ | ⟨_ | idx, rest⟩
    · simp [walk]
    · cases done
    · cases done
  | succ budget ih =>
    rcases refs with _ | ⟨_ | idx, rest⟩
    · simp [walk]
    · cases done
    · rw [walk] at done ⊢
      cases followed : met idx with
      | malformed =>
        rw [followed] at done
        cases done
      | oversized =>
        rw [followed] at done
        cases done
      | refs inner =>
        rw [followed] at done
        obtain ⟨whole, ahead, visited⟩ := ih done
        have here : Acc (fun j i => R i j) idx := by
          refine Acc.intro idx fun j contained => ahead j (List.mem_append_left _ ?_)
          exact complete idx inner j followed (fun none => whole (List.mem_append_left _ none)) contained
        refine ⟨?_, ?_, ?_⟩
        · simp only [List.mem_cons, reduceCtorEq, false_or]
          exact fun none => whole (List.mem_append_right _ none)
        · intro i member
          rcases List.mem_cons.mp member with same | later
          · cases same
            exact here
          · exact ahead i (List.mem_append_right _ later)
        · intro i member
          rcases List.mem_cons.mp member with rfl | later
          · exact here
          · exact visited i later

end Walk

section Fuel
variable {room : Room} {bytes : Bytes} {α β : Type} {meter : Meter}

theorem bind_same {x x' : Budget α} {f f' : α → Budget β} (first : x meter = x' meter)
    (next : ∀ a meter', x meter = (.ok a, meter') → f a meter' = f' a meter') : (x >>= f) meter = (x' >>= f') meter := by
  change ExceptT.bindCont f (x meter).1 (x meter).2 = ExceptT.bindCont f' (x' meter).1 (x' meter).2
  rw [← first]
  cases ran : x meter with
  | mk result meter' =>
    cases result with
    | error e => rfl
    | ok a => exact next a meter' ran

theorem lift_same {x : Guarded RunError α} {f f' : α → Budget β} (next : ∀ a, f a meter = f' a meter) :
    ((liftM x : Budget α) >>= f) meter = ((liftM x : Budget α) >>= f') meter := by
  cases x with
  | error e => rfl
  | ok a => exact next a

section Loops
variable {refSize fuel : Nat} {child child' : Nat → Budget BPlistValue}
  (same : ∀ idx meter, meter.depth ≤ fuel → child idx meter = child' idx meter)
  (counts : ∀ idx meter value meter', meter.depth ≤ fuel → child idx meter = (.ok value, meter') → meter'.depth ≤ meter.depth)
include same counts

theorem parseItems_same {refsStart left i : Nat} (enough : meter.depth ≤ fuel) :
    parseItems bytes refSize refsStart child left i meter = parseItems bytes refSize refsStart child' left i meter := by
  induction left generalizing i meter with
  | zero => rfl
  | succ left ih =>
    rw [parseItems, parseItems]
    refine lift_same fun refPos => lift_same fun refBytes => ?_
    refine bind_same (same _ meter enough) fun item meter' ran => ?_
    have less := counts _ meter item meter' enough ran
    exact bind_same (ih (less.trans enough)) fun items meter'' _ => rfl

theorem parseEntries_same {keysStart valuesStart left i : Nat} {map : List (String × BPlistValue)}
    (enough : meter.depth ≤ fuel) : parseEntries bytes refSize keysStart valuesStart child left i map meter =
      parseEntries bytes refSize keysStart valuesStart child' left i map meter := by
  induction left generalizing i map meter with
  | zero => rfl
  | succ left ih =>
    rw [parseEntries, parseEntries]
    refine lift_same fun keyPos => lift_same fun valPos => lift_same fun keyRef => lift_same fun valRef => ?_
    refine bind_same (same _ meter enough) fun keyObj meter' ran => ?_
    have less := counts _ meter keyObj meter' enough ran
    refine bind_same (same _ meter' (less.trans enough)) fun valObj meter'' ran' => ?_
    have less' := counts _ meter' valObj meter'' (less.trans enough) ran'
    exact ih (less'.trans (less.trans enough))

end Loops

theorem parseObject_spent (room : Room) (bytes : Bytes) (offsets : List Nat) (trailer : Trailer) (fuel idx : Nat) (decoded : List Nat) :
    parseObject room bytes offsets trailer fuel idx ⟨0, decoded⟩ =
      (.error (.refused (.plist "bplist nesting too deep")), ⟨0, decoded⟩) := by
  cases fuel <;> rfl

variable {offsets : List Nat} {trailer : Trailer} {fuel idx : Nat} (addressable : bytes.length < 2 ^ 63)
include addressable

/-- With as much fuel as budget, it is the budget that is spent first. -/
theorem parseObject_more (enough : meter.depth ≤ fuel) :
    parseObject room bytes offsets trailer (fuel + 1) idx meter = parseObject room bytes offsets trailer fuel idx meter := by
  induction fuel generalizing idx meter with
  | zero =>
    obtain ⟨depth, decoded⟩ := meter
    obtain rfl : depth = 0 := Nat.le_zero.mp enough
    rw [parseObject_spent, parseObject_spent]
  | succ fuel ih =>
    obtain ⟨depth, decoded⟩ := meter
    cases depth with
    | zero => rw [parseObject_spent, parseObject_spent]
    | succ depth =>
      have same := fun idx meter (enough : meter.depth ≤ fuel) => @ih meter idx enough
      have counts (idx : Nat) (meter : Meter) (value : BPlistValue) (meter' : Meter) (enough : meter.depth ≤ fuel)
          (ran : parseObject room bytes offsets trailer (fuel + 1) idx meter = (.ok value, meter')) : meter'.depth ≤ meter.depth := by
        have tracks := @parseObject_tracks meter room bytes offsets trailer fuel idx [] addressable enough
        rw [← same idx meter enough, ran] at tracks
        generalize Plist.parseObject bytes offsets trailer fuel idx meter.depth = plain at tracks
        cases tracks with
        | done less logged still => exact less
      have less : depth ≤ fuel := Nat.le_of_succ_le_succ enough
      rw [parseObject, parseObject, counted_down, counted_down]
      refine lift_same fun start => lift_same fun marker => ?_
      dsimp only
      by_cases array : marker >>> 4 = 0xA
      · rw [if_pos array, if_pos array]
        refine lift_same fun counted => lift_same fun _ => ?_
        exact bind_same (parseItems_same same counts less) fun items meter' _ => rfl
      rw [if_neg array, if_neg array]
      by_cases dict : marker >>> 4 = 0xD
      · rw [if_pos dict, if_pos dict]
        refine lift_same fun counted => lift_same fun span => lift_same fun valuesStart => ?_
        exact bind_same (parseEntries_same same counts less) fun map meter' _ => rfl
      · rw [if_neg dict, if_neg dict]

theorem parseObject_enough (enough : meter.depth ≤ fuel) (more : Nat) :
    parseObject room bytes offsets trailer (fuel + more) idx meter = parseObject room bytes offsets trailer fuel idx meter := by
  induction more with
  | zero => rfl
  | succ more ih => rw [← Nat.add_assoc, parseObject_more addressable (by omega), ih]

end Fuel

theorem acc_irrefl {α : Type} {r : α → α → Prop} {a : α} (acc : Acc r a) : ¬ r a a := by
  induction acc with
  | intro a _ ih => exact fun self => ih a self self

/-- Where the visit comes to its end, nothing that is visited contains itself. -/
theorem walked_acyclic {room : Room} {bytes : Bytes} {i : Nat} (done : (walkFile room bytes).2 = .done)
    (member : i ∈ (walkFile room bytes).1) : ¬ ContainsItself bytes i := by
  intro itself
  have visited := @walk_done (met room bytes (offsetTable bytes) (Plist.readTrailer bytes).objectRefSize) (Contains bytes)
    (fun i refs j => met_complete) depthBudget [some (Plist.readTrailer bytes).topObject] done
  exact acc_irrefl (visited.2.2 i member).transGen (transGen_swap.mpr itself)

section Cycles
variable {room : Room} {bytes : Bytes} (addressable : bytes.length < 2 ^ 63)
include addressable

/-- The recursion ends by itself: whatever more it could do than the budget allows does not matter. -/
theorem parseMetered_enough {fuel : Nat} (enough : depthBudget ≤ fuel) :
    parseMetered room fuel bytes = parseMetered room depthBudget bytes := by
  obtain ⟨more, rfl⟩ := Nat.exists_eq_add_of_le enough
  have same (offsets : List Nat) (trailer : Trailer) :
      (parseObject room bytes offsets trailer (depthBudget + more) trailer.topObject).run.run ⟨depthBudget, []⟩ =
        (parseObject room bytes offsets trailer depthBudget trailer.topObject).run.run ⟨depthBudget, []⟩ :=
    @parseObject_enough room bytes ⟨depthBudget, []⟩ offsets trailer depthBudget trailer.topObject addressable
      (Nat.le_refl depthBudget) more
  simp only [parseMetered, same]

theorem decodedBy_length : (decodedBy room bytes).length ≤ depthBudget := by
  have outcome := parseBplistIn_outcome room addressable
  generalize decodedBy room bytes = decoded, parseBplistIn room bytes = ran, Plist.parseBplist bytes = plain at outcome ⊢
  cases outcome with
  | refused _ _ | full _ _ _ => exact Nat.zero_le _
  | _ => exact walk_length _ _ _

/-- No more objects are decoded than the budget allows, and the recursion ends by itself. With a vector that serves
whatever has at most `isize::MAX` bytes, a file in which a container that is decoded contains itself is refused, unless the
visit comes to an oversized object. -/
theorem cycles_rejected_iff (size : Nat) :
    ((decodedBy (bySize size) bytes).length ≤ 256 ∧
        ∀ fuel, 256 ≤ fuel → parseMetered (bySize size) fuel bytes = parseMetered (bySize size) 256 bytes) ∧
      ((∀ i ∈ decodedBy (bySize size) bytes, ContainsItself bytes i →
          ∃ e, parseBplistIn (bySize size) bytes = .error (.refused e)) ↔
        ¬ (MeetsOversizedIn (bySize size) bytes ∧ ∃ i ∈ (walkFile (bySize size) bytes).1, ContainsItself bytes i)) := by
  refine ⟨⟨decodedBy_length addressable, fun fuel => parseMetered_enough addressable⟩, ?_⟩
  have outcome := parseBplistIn_outcome (bySize size) addressable
  generalize decodedBy (bySize size) bytes = decoded, parseBplistIn (bySize size) bytes = ran,
    Plist.parseBplist bytes = plain at outcome ⊢
  cases outcome with
  | oversized headed fits ends f =>
    constructor
    · rintro rejected ⟨-, i, member, itself⟩
      obtain ⟨e, refused⟩ := rejected i member itself
      cases refused
    · intro sound i member itself
      exact absurd ⟨⟨headed, fits, ends⟩, i, member, itself⟩ sound
  | stuck headed ends e =>
    refine iff_of_true (fun _ _ _ => ⟨e, rfl⟩) fun meets => ?_
    cases ends.symm.trans meets.1.2.2
  | done headed ends value =>
    refine iff_of_true (fun i member itself => absurd itself (walked_acyclic ends member)) fun meets => ?_
    cases ends.symm.trans meets.1.2.2
  | refused unheaded e => exact iff_of_true (fun _ _ _ => ⟨e, rfl⟩) fun meets => unheaded meets.1.1
  | full many held =>
    exact iff_of_true (fun _ member => absurd member List.not_mem_nil) fun meets => absurd meets.1.2.1 (Nat.not_le.mpr many)

end Cycles

/-- An array of itself behind an array that declares 200 elements. -/
def crampedCycle : Bytes :=
  bplistMagic ++ [0xA2, 1, 0] ++ [0xAF, 0x10, 200] ++ [8, 11] ++ [0, 0, 0, 0, 0, 0, 1, 1] ++ toBe 8 2 ++ toBe 8 0 ++ toBe 8 14

/-- There is room for two hundred elements, which a file of 48 bytes does not have. -/
theorem cycles_rejected_cramped : crampedCycle.length = 48 ∧ 0 ∈ decodedBy (bySize 32) crampedCycle ∧
    ContainsItself crampedCycle 0 ∧ ∃ e, parseBplistIn (bySize 32) crampedCycle = .error (.refused e) := by
  have addressable : crampedCycle.length < 2 ^ 63 := by decide
  have member : 0 ∈ decodedBy (bySize 32) crampedCycle := by decide
  have contains : ContainsItself crampedCycle 0 :=
    .single ⟨8, 0xA2, 2, 9, by decide, by decide, rfl, 1, by decide, by decide⟩
  have sound : ¬ MeetsOversizedIn (bySize 32) crampedCycle := by decide
  exact ⟨by decide, member, contains,
    (cycles_rejected_iff addressable 32).2.mpr (fun both => sound both.1) 0 member contains⟩

/-- An array of an oversized array and itself. -/
def crowdedCycle : Bytes :=
  bplistMagic ++ [0xA2, 1, 0] ++ [0xAF, 0x13, 0xff, 0xff, 0xff, 0xff, 0xff, 0xff, 0xff, 0xff] ++ [8, 11] ++
    [0, 0, 0, 0, 0, 0, 1, 1] ++ toBe 8 2 ++ toBe 8 0 ++ toBe 8 21

theorem crowded_cycle_faults : 0 ∈ decodedBy (bySize 32) crowdedCycle ∧ ContainsItself crowdedCycle 0 ∧
    parseBplistIn (bySize 32) crowdedCycle = .error (.fault .capacity) :=
  ⟨by decide, .single ⟨8, 0xA2, 2, 9, by decide, by decide, rfl, 1, by decide, by decide⟩, rfl⟩

end Bsdos.Plist.Checked
