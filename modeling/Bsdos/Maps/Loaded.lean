import Mathlib.Data.Finmap

namespace Maps

variable {A K V : Type} {m : Finmap fun _ : K => V}

/-- The entries of a map, one after another. -/
def Lists (m : Finmap fun _ : K => V) (listed : List (K × V)) : Prop :=
  m.entries = Multiset.ofList (listed.map fun e => (⟨e.1, e.2⟩ : Sigma fun _ : K => V))

/-- Every map can be listed. -/
theorem Lists.exists (m : Finmap fun _ : K => V) : ∃ listed, Lists m listed := by
  refine ⟨m.entries.toList.map fun e => (e.1, e.2), ?_⟩
  unfold Lists
  rw [List.map_map]
  exact ((congrArg Multiset.ofList (List.map_id _)).trans m.entries.coe_toList).symm

theorem Lists.perm_iff {listed listed' : List (K × V)} (lists : Lists m listed) :
    Lists m listed' ↔ listed'.Perm listed := by
  have pairs : Function.Injective fun e : K × V => (⟨e.1, e.2⟩ : Sigma fun _ : K => V) := by
    rintro ⟨k, v⟩ ⟨k', v'⟩ same
    cases same
    rfl
  unfold Lists at lists ⊢
  rw [lists, Multiset.coe_eq_coe, List.perm_comm, List.map_perm_map_iff pairs]

/-- The items yield one value only under each key. -/
def Agree (yield : A → Option V) (key : V → K) (items : List A) : Prop :=
  ∀ a ∈ items, ∀ b ∈ items, ∀ v v', yield a = some v → yield b = some v' → key v = key v' → v = v'

variable {yield : A → Option V} {key : V → K} {items : List A}

theorem Agree.perm {items' : List A} (agree : Agree yield key items) (perm : items'.Perm items) : Agree yield key items' :=
  fun a member b member' => agree a (perm.mem_iff.mp member) b (perm.mem_iff.mp member')

variable [DecidableEq K]

theorem Lists.mem_iff {listed : List (K × V)} (lists : Lists m listed) {k : K} {v : V} :
    (k, v) ∈ listed ↔ m.lookup k = some v := by
  rw [Finmap.lookup_eq_some_iff, lists, Multiset.mem_coe, List.mem_map]
  constructor
  · exact fun member => ⟨_, member, rfl⟩
  · rintro ⟨⟨k', v'⟩, member, same⟩
    cases same
    exact member

/-- What an item yields goes into the map under its key, in place of what is there. -/
def put (yield : A → Option V) (key : V → K) (m : Finmap fun _ : K => V) (a : A) : Finmap fun _ : K => V :=
  (yield a).elim m fun v => m.insert (key v) v

theorem lookup_load_last {a : A} {v : V} (yielded : yield a = some v) :
    ((items ++ [a]).foldl (put yield key) m).lookup (key v) = some v := by
  rw [List.foldl_append, List.foldl_cons, List.foldl_nil, put, yielded]
  exact Finmap.lookup_insert _

/-- The last item that yields a value under a key decides. -/
theorem lookup_load (k : K) : (items.foldl (put yield key) m).lookup k =
    ((items.filterMap yield).filter fun v => key v = k).getLast?.or (m.lookup k) := by
  induction items using List.reverseRecOn with
  | nil => rfl
  | append_singleton items a ih =>
    rw [List.foldl_append, List.foldl_cons, List.foldl_nil, List.filterMap_append, List.filter_append]
    unfold put
    cases yielded : yield a with
    | none =>
      rw [List.filterMap_cons_none yielded, List.filterMap_nil, List.filter_nil, List.append_nil]
      exact ih
    | some v =>
      rw [List.filterMap_cons_some yielded, List.filterMap_nil, Option.elim_some]
      by_cases same : key v = k
      · simp only [List.filter_cons, same, decide_true, if_true, List.filter_nil, List.getLast?_concat, Option.some_or]
        rw [← same, Finmap.lookup_insert]
      · simp only [List.filter_cons, same, decide_false, Bool.false_eq_true, if_false, List.filter_nil, List.append_nil]
        rw [Finmap.lookup_insert_of_ne _ (Ne.symm same)]
        exact ih

theorem load_eq_empty_iff : items.foldl (put yield key) ∅ = ∅ ↔ ∀ a ∈ items, yield a = none := by
  have found (k : K) := @lookup_load A K V ∅ yield key items _ k
  simp only [Finmap.lookup_empty, Option.or_none] at found
  constructor
  · intro empty a member
    cases yielded : yield a with
    | none => rfl
    | some v =>
      have absent := found (key v)
      rw [empty, Finmap.lookup_empty, eq_comm, List.getLast?_eq_none_iff, List.filter_eq_nil_iff] at absent
      exact absurd (decide_eq_true rfl) (absent v (List.mem_filterMap.mpr ⟨a, member, yielded⟩))
  · intro none
    refine Finmap.ext_lookup fun k => ?_
    rw [found, List.filterMap_eq_nil_iff.mpr none]
    rfl

/-- Where they do, a value is found under its key if some item yields it. -/
theorem Agree.lookup_load_iff (agree : Agree yield key items) {k : K} {v : V} :
    (items.foldl (put yield key) ∅).lookup k = some v ↔ ∃ a ∈ items, yield a = some v ∧ key v = k := by
  have listed (v : V) : v ∈ (items.filterMap yield).filter (fun v => key v = k) ↔
      ∃ a ∈ items, yield a = some v ∧ key v = k := by
    rw [List.mem_filter, List.mem_filterMap, decide_eq_true_eq]
    constructor
    · rintro ⟨⟨a, member, yielded⟩, here⟩
      exact ⟨a, member, yielded, here⟩
    · rintro ⟨a, member, yielded, here⟩
      exact ⟨⟨a, member, yielded⟩, here⟩
  rw [lookup_load, Finmap.lookup_empty, Option.or_none, ← listed]
  constructor
  · exact List.mem_of_getLast?
  · intro member
    cases last : ((items.filterMap yield).filter fun v => key v = k).getLast? with
    | none =>
      rw [List.getLast?_eq_none_iff.mp last] at member
      exact absurd member List.not_mem_nil
    | some v' =>
      obtain ⟨a, member, yielded, here⟩ := (listed v).mp member
      obtain ⟨b, member', yielded', here'⟩ := (listed v').mp (List.mem_of_getLast? last)
      rw [agree a member b member' v v' yielded yielded' (here.trans here'.symm)]

/-- What is loaded into an empty map depends on no order exactly if the items agree. -/
theorem load_perm_iff [DecidableEq A] : (∀ l l' : List A, l.Perm items → l'.Perm items →
    l.foldl (put yield key) ∅ = l'.foldl (put yield key) ∅) ↔ Agree yield key items := by
  constructor
  · intro same a member b member' v v' yielded yielded' key_eq
    by_cases one : a = b
    · rw [one, yielded'] at yielded
      exact (Option.some.inj yielded).symm
    -- the two items come last, in either order
    obtain ⟨rest, front⟩ : ∃ rest, items.Perm (a :: b :: rest) :=
      ⟨(items.erase a).erase b, (List.perm_cons_erase member).trans
        ((List.perm_cons_erase ((List.mem_erase_of_ne (Ne.symm one)).mpr member')).cons a)⟩
    have found := congrArg (Finmap.lookup (key v)) (same (rest ++ [b] ++ [a]) (rest ++ [a] ++ [b])
      (by simpa using (List.perm_append_comm.trans (List.Perm.swap a b rest)).trans front.symm)
      (by simpa using List.perm_append_comm.trans front.symm))
    rw [lookup_load_last yielded, key_eq, lookup_load_last yielded'] at found
    exact Option.some.inj found
  · intro agree l l' perm perm'
    refine Finmap.ext_lookup fun k => Option.ext fun v => ?_
    rw [(agree.perm perm).lookup_load_iff, (agree.perm perm').lookup_load_iff]
    exact exists_congr fun a => and_congr_left fun _ => perm.mem_iff.trans perm'.mem_iff.symm

end Maps
