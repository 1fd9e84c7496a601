import Mathlib.Data.Finmap

namespace Maps

variable {K V : Type} [DecidableEq K] {key : V → K} {entries : List V} {m : Finmap fun _ : K => V} {k : K} {v : V}

/-- A list of entries that has what a map has, each entry under its own key. -/
structure Represents (key : V → K) (entries : List V) (m : Finmap fun _ : K => V) : Prop where
  once : (entries.map key).Nodup
  finds : ∀ k v, m.lookup k = some v ↔ v ∈ entries ∧ key v = k

theorem Represents.empty : Represents key [] ∅ where
  once := List.nodup_nil
  finds k v := by
    rw [Finmap.lookup_empty]
    exact ⟨nofun, fun listed => absurd listed.1 List.not_mem_nil⟩

theorem Represents.mem_keys_iff (represents : Represents key entries m) : k ∈ entries.map key ↔ k ∈ m := by
  rw [List.mem_map, Finmap.mem_iff]
  exact exists_congr fun v => (represents.finds k v).symm

/-- What is discarded from the list is erased from the map. -/
theorem Represents.discard (represents : Represents key entries m) (k : K) :
    Represents key (entries.filter fun v => key v ≠ k) (m.erase k) where
  once := represents.once.sublist (List.filter_sublist.map key)
  finds k' v := by
    rw [List.mem_filter, decide_eq_true_eq]
    by_cases same : k' = k
    · subst same
      rw [Finmap.lookup_erase]
      exact ⟨nofun, fun listed => absurd listed.2 listed.1.2⟩
    · rw [Finmap.lookup_erase_ne same, represents.finds]
      constructor
      · rintro ⟨listed, rfl⟩
        exact ⟨⟨listed, same⟩, rfl⟩
      · rintro ⟨⟨listed, -⟩, here⟩
        exact ⟨listed, here⟩

/-- What is put at the end of the list, in place of what has its key, is inserted in the map. -/
theorem Represents.upsert (represents : Represents key entries m) (v : V) :
    Represents key ((entries.filter fun v' => key v' ≠ key v) ++ [v]) (m.insert (key v) v) where
  once := by
    rw [List.map_append, List.map_singleton, List.nodup_append_comm, List.singleton_append, List.nodup_cons]
    refine ⟨?_, (represents.discard (key v)).once⟩
    rw [(represents.discard (key v)).mem_keys_iff]
    exact fun inside => absurd rfl (Finmap.mem_erase.mp inside).1
  finds k' v' := by
    rw [List.mem_append, List.mem_singleton]
    by_cases same : k' = key v
    · subst same
      rw [Finmap.lookup_insert, Option.some_inj]
      constructor
      · rintro rfl
        exact ⟨Or.inr rfl, rfl⟩
      · rintro ⟨listed | rfl, here⟩
        · exact absurd here (of_decide_eq_true (List.mem_filter.mp listed).2)
        · rfl
    · rw [Finmap.lookup_insert_of_ne m same, ← Finmap.lookup_erase_ne same, (represents.discard (key v)).finds]
      constructor
      · rintro ⟨listed, here⟩
        exact ⟨Or.inl listed, here⟩
      · rintro ⟨listed | rfl, here⟩
        · exact ⟨listed, here⟩
        · exact absurd here.symm same

/-- Nothing is discarded exactly if nothing is there under the key. -/
theorem Represents.discard_length_iff (represents : Represents key entries m) :
    (entries.filter fun v => key v ≠ k).length = entries.length ↔ k ∉ m := by
  rw [List.length_filter_eq_length_iff, ← represents.mem_keys_iff, List.mem_map]
  constructor
  · rintro all ⟨v, listed, here⟩
    exact absurd here (of_decide_eq_true (all v listed))
  · intro absent v listed
    exact decide_eq_true fun here => absent ⟨v, listed, here⟩

end Maps
