import Mathlib.Data.List.Perm.Basic
import Mathlib.Data.List.Nodup
import Mathlib.Order.Defs.LinearOrder

namespace OrderedMap

variable {κ ν : Type} [DecidableEq κ] [LT κ] [DecidableLT κ]

/-- `BTreeMap::insert`, on the entries in the order of their keys. -/
def insert (key : κ) (value : ν) : List (κ × ν) → List (κ × ν)
  | [] => [(key, value)]
  | entry :: rest =>
    if key = entry.1 then (key, value) :: rest
    else if key < entry.1 then (key, value) :: entry :: rest
    else entry :: insert key value rest

/-- The map that these insertions make, the first one first. -/
def ofEntries (entries : List (κ × ν)) : List (κ × ν) := entries.foldl (fun map entry => insert entry.1 entry.2 map) []

theorem mem_insert {key : κ} {value : ν} {map : List (κ × ν)} {entry : κ × ν} (member : entry ∈ insert key value map) :
    entry = (key, value) ∨ entry ∈ map := by
  induction map with
  | nil => exact .inl (List.mem_singleton.mp member)
  | cons first rest ih =>
    unfold insert at member
    split at member
    · rcases List.mem_cons.mp member with here | later
      · exact .inl here
      · exact .inr (List.mem_cons_of_mem _ later)
    · split at member
      · exact List.mem_cons.mp member
      · rcases List.mem_cons.mp member with here | later
        · exact .inr (here ▸ List.mem_cons_self)
        · rcases ih later with new | old
          · exact .inl new
          · exact .inr (List.mem_cons_of_mem _ old)

theorem insert_perm {key : κ} {map : List (κ × ν)} (fresh : key ∉ map.map Prod.fst) (value : ν) :
    (insert key value map).Perm ((key, value) :: map) := by
  induction map with
  | nil => exact List.Perm.refl _
  | cons first rest ih =>
    simp only [List.map_cons, List.mem_cons, not_or] at fresh
    unfold insert
    rw [if_neg fresh.1]
    by_cases before : key < first.1
    · rw [if_pos before]
    · rw [if_neg before]
      exact ((ih fresh.2).cons first).trans (List.Perm.swap _ _ _)

theorem mem_foldl {entries map : List (κ × ν)} {entry : κ × ν}
    (member : entry ∈ entries.foldl (fun map entry => insert entry.1 entry.2 map) map) : entry ∈ entries ∨ entry ∈ map := by
  induction entries generalizing map with
  | nil => exact .inr member
  | cons first rest ih =>
    rcases ih member with later | inserted
    · exact .inl (List.mem_cons_of_mem _ later)
    · rcases mem_insert inserted with new | old
      · exact .inl (new ▸ List.mem_cons_self)
      · exact .inr old

theorem foldl_perm {entries map : List (κ × ν)} (distinct : ((entries ++ map).map Prod.fst).Nodup) :
    (entries.foldl (fun map entry => insert entry.1 entry.2 map) map).Perm (entries ++ map) := by
  induction entries generalizing map with
  | nil => exact List.Perm.refl _
  | cons first rest ih =>
    have moved : ((rest ++ first :: map).map Prod.fst).Perm ((first :: rest ++ map).map Prod.fst) :=
      List.perm_middle.map Prod.fst
    have apart := (moved.nodup_iff.mpr distinct)
    have fresh : first.1 ∉ map.map Prod.fst := by
      rw [List.map_append, List.map_cons] at apart
      exact (List.nodup_cons.mp apart.of_append_right).1
    have inserted := insert_perm fresh first.2
    have later : ((rest ++ insert first.1 first.2 map).map Prod.fst).Nodup :=
      (((inserted.append_left rest).map Prod.fst).nodup_iff).mpr apart
    exact (ih later).trans ((inserted.append_left rest).trans List.perm_middle)

theorem mem_ofEntries {entries : List (κ × ν)} {entry : κ × ν} (member : entry ∈ ofEntries entries) : entry ∈ entries :=
  (mem_foldl member).resolve_right List.not_mem_nil

/-- Insertions at distinct keys: the map has exactly these entries. -/
theorem ofEntries_perm {entries : List (κ × ν)} (distinct : (entries.map Prod.fst).Nodup) :
    (ofEntries entries).Perm entries := by
  have perm := @foldl_perm κ ν _ _ _ entries [] (by rwa [List.append_nil])
  rwa [List.append_nil] at perm

omit [DecidableEq κ] [LT κ] [DecidableLT κ] in
theorem index_of_key {entries : List (κ × ν)} (distinct : (entries.map Prod.fst).Nodup) {i j : Nat}
    (bound : i < entries.length) (bound' : j < entries.length) (same : entries[j].1 = entries[i].1) : j = i := by
  have inside (n : Nat) (within : n < entries.length) : n < (entries.map Prod.fst).length := by
    rwa [List.length_map]
  have keyAt (n : Nat) (within : n < entries.length) :
      (entries.map Prod.fst).get ⟨n, inside n within⟩ = entries[n].1 := List.getElem_map _
  have equal := (List.Nodup.get_inj_iff distinct).mp ((keyAt j bound').trans (same.trans (keyAt i bound).symm))
  exact Fin.mk.inj equal

/-- Insertions that differ from insertions at distinct keys only in values, and in keys that
have become one and the same key, make the same map only if they are the same insertions. -/
theorem ofEntries_inj {entries entries' : List (κ × ν)} {lost : κ} (distinct : (entries.map Prod.fst).Nodup)
    (keys : List.Forall₂ (fun entry' entry => entry'.1 = entry.1 ∨ entry'.1 = lost) entries' entries)
    (same : ofEntries entries' = ofEntries entries) : entries' = entries := by
  have found {entry : κ × ν} (member : entry ∈ entries) : entry ∈ entries' :=
    mem_ofEntries (same ▸ (ofEntries_perm distinct).mem_iff.mpr member)
  have length := keys.length_eq
  have related (i : Nat) (bound : i < entries.length) :
      entries'[i].1 = entries[i].1 ∨ entries'[i].1 = lost := (List.forall₂_iff_get.mp keys).2 i (by omega) bound
  have kept (i : Nat) (bound : i < entries.length) : entries'[i].1 = entries[i].1 := by
    by_cases missing : entries[i].1 = lost
    · exact (related i bound).elim id fun other => other.trans missing.symm
    · obtain ⟨j, inside, entry⟩ := List.getElem_of_mem (found (List.getElem_mem bound))
      have key : entries'[j].1 = entries[i].1 := congrArg Prod.fst entry
      have other : entries[j].1 = entries[i].1 :=
        (related j (by omega)).elim (fun unchanged => unchanged.symm.trans key) fun changed =>
          absurd (key.symm.trans changed) missing
      have index := index_of_key distinct bound (by omega) other
      subst index
      exact key
  refine List.ext_getElem length fun i bound' bound => ?_
  obtain ⟨j, inside, entry⟩ := List.getElem_of_mem (found (List.getElem_mem bound))
  have key : entries[j].1 = entries[i].1 := (kept j (by omega)).symm.trans (congrArg Prod.fst entry)
  have index := index_of_key distinct bound (by omega) key
  subst index
  exact entry

omit [LT κ] [DecidableLT κ] in
theorem lookup_eq_some {entries : List (κ × ν)} (distinct : (entries.map Prod.fst).Nodup) {key : κ} {value : ν} :
    entries.lookup key = some value ↔ (key, value) ∈ entries := by
  induction entries with
  | nil => simp
  | cons first rest ih =>
    rw [List.map_cons, List.nodup_cons] at distinct
    rw [List.lookup_cons, List.mem_cons]
    by_cases same : key = first.1
    · subst same
      have fresh : (first.1, value) ∉ rest := fun member =>
        distinct.1 (List.mem_map.mpr ⟨_, member, rfl⟩)
      simp [fresh, Prod.ext_iff, eq_comm]
    · have other : (key == first.1) = false := by simpa using same
      have apart : (key, value) ≠ first := fun equal => same (congrArg Prod.fst equal)
      simp [other, apart, ih distinct.2]

/-- What is found in the map is what was inserted at the key. -/
theorem lookup_ofEntries {entries : List (κ × ν)} (distinct : (entries.map Prod.fst).Nodup) (key : κ) :
    (ofEntries entries).lookup key = entries.lookup key := by
  have perm := ofEntries_perm distinct
  have distinct' : ((ofEntries entries).map Prod.fst).Nodup := (perm.map Prod.fst).nodup_iff.mpr distinct
  refine Option.ext fun value => ?_
  rw [lookup_eq_some distinct', lookup_eq_some distinct, perm.mem_iff]

end OrderedMap
