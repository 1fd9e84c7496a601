import Bsdos.Wlstream.Compositor

namespace Bsdos.Wlstream
open Octets Framing Compositor

/-- The events of a payload, as far as they can be read. -/
def decoded (frame : Bytes) : List StreamEvent := items (parseEvents frame)

/-- What a viewer makes of the payloads that are published. -/
def view (decompress : Bytes → Option Bytes) (c : Compositor) (frames : List Bytes) : Compositor :=
  run decompress c (frames.flatMap decoded)

/-- The data that an event brings for a pool. -/
def StreamEvent.brings (decompress : Bytes → Option Bytes) (pool : UInt32) : StreamEvent → Option Bytes
  | .poolData poolId _ _ _ _ rawLen lz4Data => if poolId = pool then decompressed decompress rawLen lz4Data else none
  | _ => none

/-- The data of a pool after these events: the last that was brought for it. -/
def contents (decompress : Bytes → Option Bytes) (events : List StreamEvent) (pool : UInt32) : Option Bytes :=
  events.reverse.findSome? (StreamEvent.brings decompress pool)

/-- The data that an event draws after these events: a commit draws its pool, if that has all the
bytes that the commit names. -/
def draws (decompress : Bytes → Option Bytes) (events : List StreamEvent) : StreamEvent → Option Bytes
  | .surfaceCommit _ poolId offset _ bufHeight bufStride .. =>
    (contents decompress events poolId).filter fun data => offset.toNat + bufStride.toNat * bufHeight.toNat ≤ data.length
  | _ => none

/-- What is shown is what this event draws of these bytes: their size, every byte of every pixel,
and the damage, if any of it is on the surface, else the whole of it. -/
def Shows (data : Bytes) (c : Compositor) : StreamEvent → Prop
  | .surfaceCommit _ _ offset bufWidth bufHeight bufStride format damageX damageY damageW damageH =>
    let damage : Rect := ⟨damageX, damageY, damageW, damageH⟩
    let surface := box 0 0 bufWidth.toNat bufHeight.toNat
    (c.frame.width.toNat = bufWidth.toNat ∧ c.frame.height.toNat = bufHeight.toNat ∧
      c.frame.stride.toNat = bufWidth.toNat * 4 ∧ c.frame.data.length = bufHeight.toNat * (bufWidth.toNat * 4)) ∧
    (∀ x y k, (x, y) ∈ surface → k < 4 → c.frame.data[y * (bufWidth.toNat * 4) + (4 * x + k)]? = some (
      if format = 1 ∧ k = 3 then 0xFF
      else if 4 * x + k < bufStride.toNat then data.getD (offset.toNat + y * bufStride.toNat + (4 * x + k)) 0
      else 0)) ∧
    (damage.pixels ∩ surface = ∅ → c.lastDamage.pixels = surface) ∧
    (damage.pixels ∩ surface ≠ ∅ → c.lastDamage.pixels = damage.pixels ∩ surface) ∧ c.dirty = true
  | _ => False

/-- The picture alone: what is drawn, not what it was drawn from. -/
def picture (c : Compositor) : FrameOutput × Bool × Rect := (c.frame, c.dirty, c.lastDamage)

section Steps
variable {decompress : Bytes → Option Bytes} {c : Compositor} {e : StreamEvent} {pool : UInt32} {data : Bytes}

/-- What an event leaves of the pools. -/
theorem handle_pools : ((handle decompress c e).pools.lookup pool).map Pool.data =
    (e.brings decompress pool).or ((c.pools.lookup pool).map Pool.data) := by
  cases e with
  | poolData poolId width height stride format rawLen lz4Data =>
    rw [handle, handlePoolData, StreamEvent.brings]
    cases decompressed decompress rawLen lz4Data with
    | none =>
      rw [ite_self]
      rfl
    | some data =>
      dsimp only
      by_cases same : poolId = pool
      · subst same
        rw [Finmap.lookup_insert, if_pos rfl]
        rfl
      · rw [Finmap.lookup_insert_of_ne _ (Ne.symm same), if_neg same, Option.none_or]
  | surfaceCommit surfaceId poolId offset bufWidth bufHeight bufStride format damageX damageY damageW damageH =>
    have same : (handleSurfaceCommit c surfaceId poolId offset bufWidth bufHeight bufStride format damageX damageY damageW
        damageH).pools = c.pools := by
      unfold handleSurfaceCommit
      split
      · rfl
      · dsimp only
        split <;> rfl
    exact congrArg (fun pools => (Finmap.lookup pool pools).map Pool.data) same
  | _ => rfl

theorem contents_snoc (events : List StreamEvent) : contents decompress (events ++ [e]) pool =
    (e.brings decompress pool).or (contents decompress events pool) := by
  rw [contents, List.reverse_append, List.reverse_singleton, List.singleton_append, List.findSome?_cons, contents]
  cases e.brings decompress pool <;> rfl

theorem run_snoc (events : List StreamEvent) : run decompress c (events ++ [e]) = handle decompress (run decompress c events) e := by
  rw [run, List.foldl_append]
  rfl

theorem run_pools (events : List StreamEvent) :
    ((run decompress new events).pools.lookup pool).map Pool.data = contents decompress events pool := by
  induction events using List.reverseRecOn with
  | nil => rfl
  | append_singleton events e ih => rw [run_snoc, handle_pools, contents_snoc, ih]

end Steps

section Drawn
variable {decompress : Bytes → Option Bytes} {c : Compositor} {e : StreamEvent} {data : Bytes} {events : List StreamEvent}

/-- The damage of a commit: clamped, or the whole surface where nothing is left. -/
theorem clamped_pixels (damage : Rect) (surfaceW surfaceH : UInt16) :
    ((clampDamage damage surfaceW surfaceH).getD ⟨0, 0, surfaceW, surfaceH⟩).pixels =
      if damage.pixels ∩ box 0 0 surfaceW.toNat surfaceH.toNat = ∅ then box 0 0 surfaceW.toNat surfaceH.toNat
      else damage.pixels ∩ box 0 0 surfaceW.toNat surfaceH.toNat := by
  have surface : (⟨0, 0, surfaceW, surfaceH⟩ : Rect).pixels = box 0 0 surfaceW.toNat surfaceH.toNat := by
    rw [Rect.pixels]
    change box 0 0 (0 + surfaceW.toNat) (0 + surfaceH.toNat) = _
    rw [Nat.zero_add, Nat.zero_add]
  have pixels := clampDamage_pixels damage surfaceW surfaceH
  have none_iff := clampDamage_none_iff damage surfaceW surfaceH
  cases clamped : clampDamage damage surfaceW surfaceH with
  | none => rw [Option.getD_none, surface, if_pos (none_iff.mp clamped).2]
  | some r =>
    rw [clamped, Option.elim_some] at pixels
    rw [Option.getD_some, pixels]
    by_cases zero : damage.isZero = true
    · rw [if_pos zero, Rect.pixels_zero zero, Set.empty_inter, if_pos rfl]
    · have left : damage.pixels ∩ box 0 0 surfaceW.toNat surfaceH.toNat ≠ ∅ := fun none =>
        Option.some_ne_none r (clamped.symm.trans (none_iff.mpr ⟨Bool.eq_false_iff.mpr zero, none⟩))
      rw [if_neg zero, if_neg left]

theorem handle_shows (known : ∀ pool, (c.pools.lookup pool).map Pool.data = contents decompress events pool)
    (drawn : draws decompress events e = some data) : Shows data (handle decompress c e) e := by
  cases e with
  | surfaceCommit surfaceId poolId offset bufWidth bufHeight bufStride format damageX damageY damageW damageH =>
    obtain ⟨here, enough⟩ := Option.filter_eq_some_iff.mp drawn
    have enough := of_decide_eq_true enough
    rw [← known poolId, Option.map_eq_some_iff] at here
    obtain ⟨pool, found, rfl⟩ := here
    have size : (bufWidth.toUInt32 * 4).toNat = bufWidth.toNat * 4 := by
      have small := bufWidth.toNat_lt
      rw [UInt32.toNat_mul, UInt16.toNat_toUInt32]
      exact Nat.mod_eq_of_lt (by change bufWidth.toNat * 4 < 2 ^ 32; omega)
    have clamped := clamped_pixels ⟨damageX, damageY, damageW, damageH⟩ bufWidth bufHeight
    rw [handle, handleSurfaceCommit, found]
    dsimp only
    rw [UInt16.toNat_toUInt32, UInt16.toNat_toUInt32, if_neg (Nat.not_lt.mpr enough)]
    refine ⟨⟨UInt16.toNat_toUInt32 _, UInt16.toNat_toUInt32 _, size, commitPixels_length enough⟩, ?_, ?_, ?_, rfl⟩
    · rintro x y k ⟨across, down⟩ channel
      have last : (4 * x + k) % 4 = 3 ↔ k = 3 := by omega
      dsimp only
      rw [commitPixels_get enough down.2 (by omega)]
      simp only [last]
    · intro none
      exact clamped.trans (if_pos none)
    · intro some
      exact clamped.trans (if_neg some)
  | _ => cases drawn

theorem handle_still (known : ∀ pool, (c.pools.lookup pool).map Pool.data = contents decompress events pool)
    (none : draws decompress events e = none) : picture (handle decompress c e) = picture c := by
  cases e with
  | surfaceCommit surfaceId poolId offset bufWidth bufHeight bufStride format damageX damageY damageW damageH =>
    rw [handle, handleSurfaceCommit]
    have here := known poolId
    cases found : c.pools.lookup poolId with
    | none => rfl
    | some pool =>
      rw [found, Option.map_some] at here
      have short : pool.data.length < offset.toNat + bufStride.toNat * bufHeight.toNat := by
        have refused := Option.filter_eq_none_iff.mp none pool.data here.symm
        exact Nat.lt_of_not_le fun enough => refused (decide_eq_true enough)
      dsimp only
      rw [UInt16.toNat_toUInt32, if_pos short]
  | poolData poolId width height stride format rawLen lz4Data =>
    rw [handle, handlePoolData]
    split <;> rfl
  | _ => rfl

/-- Where an item stands in a list that has grown by one. -/
theorem split_snoc {α : Type} {xs front back : List α} {x y : α} (split : xs ++ [x] = front ++ y :: back) :
    back = [] ∧ front = xs ∧ y = x ∨ ∃ back', back = back' ++ [x] ∧ xs = front ++ y :: back' := by
  rcases List.eq_nil_or_concat back with rfl | ⟨back', z, rfl⟩
  · obtain ⟨rfl, last⟩ := List.append_inj' split rfl
    exact .inl ⟨rfl, rfl, (List.cons.inj last).1.symm⟩
  · rw [List.concat_eq_append, ← List.cons_append, ← List.append_assoc] at split
    obtain ⟨rfl, last⟩ := List.append_inj' split rfl
    obtain rfl := (List.cons.inj last).1
    exact .inr ⟨back', List.concat_eq_append, rfl⟩

theorem Shows.still {c' : Compositor} (shows : Shows data c e) (same : picture c' = picture c) : Shows data c' e := by
  obtain ⟨frame, rest⟩ := Prod.mk.inj same
  obtain ⟨dirty, damage⟩ := Prod.mk.inj rest
  cases e with
  | surfaceCommit =>
    unfold Shows at shows ⊢
    rwa [frame, dirty, damage]
  | _ => exact shows

/-- After any run of events, what is shown is what the last event that draws has drawn; and if no
event draws, nothing is shown. -/
theorem run_shows (decompress : Bytes → Option Bytes) (events : List StreamEvent) :
    (∃ before commit after data, events = before ++ commit :: after ∧ draws decompress before commit = some data ∧
      Shows data (run decompress new events) commit ∧
      ∀ front e back, after = front ++ e :: back → draws decompress (before ++ commit :: front) e = none) ∨
    (∀ before e after, events = before ++ e :: after → draws decompress before e = none) ∧
      picture (run decompress new events) = (⟨0, 0, 0, []⟩, false, .zero) := by
  induction events using List.reverseRecOn with
  | nil => exact .inr ⟨fun before e after split => by simp at split, rfl⟩
  | append_singleton events e ih =>
    rw [run_snoc]
    cases drawn : draws decompress events e with
    | some data =>
      refine .inl ⟨events, e, [], data, rfl, drawn, handle_shows (fun _ => run_pools events) drawn, ?_⟩
      intro front e' back split
      simp at split
    | none =>
      have still := handle_still (fun _ => run_pools events) drawn
      rcases ih with ⟨before, commit, after, data, rfl, drew, shows, later⟩ | ⟨never, blank⟩
      · refine .inl ⟨before, commit, after ++ [e], data, by simp, drew, ?_, ?_⟩
        · exact shows.still still
        · intro front e' back split
          rcases split_snoc split with ⟨rfl, rfl, rfl⟩ | ⟨back', rfl, rfl⟩
          · exact drawn
          · exact later front e' back' rfl
      · refine .inr ⟨fun before e' after split => ?_, still.trans blank⟩
        rcases split_snoc split with ⟨rfl, rfl, rfl⟩ | ⟨back', rfl, rfl⟩
        · exact drawn
        · exact never before e' back' rfl

end Drawn

end Bsdos.Wlstream
