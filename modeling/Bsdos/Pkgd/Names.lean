import Bsdos.Effects.Results
import Bsdos.Files.Path
import Bsdos.Pkgd.Install

namespace Bsdos.Pkgd
open Files

theorem validAppIdChar_slash : validAppIdChar '/' = false := by decide

theorem validateAppId_ok_iff {id : String} : validateAppId id = .ok () ↔
    id ≠ "" ∧ id.utf8ByteSize ≤ 128 ∧ (∀ c ∈ id.toList, validAppIdChar c = true) ∧ '.' ∈ id.toList := by
  refine Text.checked_name_iff.trans ?_
  rw [← List.contains_iff_mem]
  cases id.toList.contains '.' <;> simp

/-- The characters of an accepted id make it a single component. -/
theorem slash_free {id : String} (valid : ∀ c ∈ id.toList, validAppIdChar c = true) : '/' ∉ id.toList := by
  intro member
  have fine := valid '/' member
  rw [validAppIdChar_slash] at fine
  cases fine

theorem validateAppId_name {id : String} (accepted : validateAppId id = .ok ()) : id ≠ "" ∧ '/' ∉ id.toList := by
  obtain ⟨filled, -, valid, -⟩ := validateAppId_ok_iff.mp accepted
  exact ⟨filled, slash_free valid⟩

theorem under_ok {field : String} {checked : Except String Unit} (ok : under field checked = .ok ()) :
    checked = .ok () := by
  cases checked with
  | ok u => rfl
  | error e => cases ok

theorem validate_name {d : JpkDescriptor} (accepted : d.validate = .ok ()) :
    d.header.id ≠ "" ∧ '/' ∉ d.header.id.toList := by
  unfold JpkDescriptor.validate at accepted
  by_cases version : d.header.schemaVersion ≠ "1.0"
  · simp only [if_pos version] at accepted
    obtain ⟨_, refused, _⟩ := Results.bind_ok accepted
    cases refused
  · simp only [if_neg version] at accepted
    obtain ⟨_, checked, _⟩ := Results.bind_ok accepted
    exact validateAppId_name (under_ok checked)

/-- A name joined to a path is one more of its names; where the path ended in a slash, it
takes the place of the empty one. -/
theorem split_join {root name : String} (free : '/' ∉ name.toList) :
    Text.split '/' (join root name) = Text.split '/' root ++ [name] ∨
      ∃ front, Text.split '/' root = front ++ [""] ∧ Text.split '/' (join root name) = front ++ [name] := by
  have alone : Text.split '/' name = [name] := Text.split_free free
  have nothing : Text.split '/' "" = [""] := Text.split_free (by simp)
  by_cases empty : root.isEmpty
  · have none : root = "" := String.isEmpty_iff.mp empty
    subst none
    have joins : join "" name = name := by rw [join, if_pos (Or.inl empty), String.empty_append]
    exact Or.inr ⟨[], nothing, joins ▸ alone⟩
  by_cases slash : root.toList.getLast? = some '/'
  · have joins : join root name = root ++ name := if_pos (Or.inr slash)
    obtain ⟨front, ends⟩ := List.getLast?_eq_some_iff.mp slash
    have cut : root = String.ofList front ++ String.singleton '/' ++ "" := by
      rw [← String.toList_inj, ends]
      simp
    have cut' : root ++ name = String.ofList front ++ String.singleton '/' ++ name := by
      conv_lhs => rw [cut]
      rw [String.append_empty]
    refine Or.inr ⟨Text.split '/' (String.ofList front), ?_, ?_⟩
    · conv_lhs => rw [cut]
      rw [Text.split_append, nothing]
    · rw [joins, cut', Text.split_append, alone]
  · have joins : join root name = root ++ String.singleton '/' ++ name := if_neg fun either => either.elim empty slash
    exact Or.inl (by rw [joins, Text.split_append, alone])

/-- A path with a name joined to it is taken from where the path is. -/
theorem head_join {root name : String} (free : '/' ∉ name.toList) :
    (join root name).toList.head? = some '/' ↔ root.toList.head? = some '/' := by
  by_cases empty : root.isEmpty
  · have none : root = "" := String.isEmpty_iff.mp empty
    subst none
    rw [join, if_pos (Or.inl empty), String.empty_append]
    exact ⟨fun first => absurd (List.mem_of_mem_head? first) free, fun first => by simp at first⟩
  · have filled : root.toList ≠ [] := fun none => empty (String.isEmpty_iff.mpr (String.toList_eq_nil_iff.mp none))
    have begins (rest : String) : (root ++ rest).toList.head? = root.toList.head? := by
      rw [String.toList_append, List.head?_append_of_ne_nil _ filled]
    unfold join
    split
    · rw [begins]
    · rw [String.append_assoc, begins]

/-- Joining a name to a path enters it from there. -/
theorem resolve_join {cwd : Place} {root name : String} (free : '/' ∉ name.toList) :
    resolve cwd (join root name) = enter (resolve cwd root) name := by
  have from_there : (if (join root name).toList.head? = some '/' then [] else cwd) =
      if root.toList.head? = some '/' then [] else cwd := by simp only [head_join free]
  unfold resolve
  rw [from_there]
  rcases split_join free with split | ⟨front, before, split⟩
  · rw [split, List.foldl_append, List.foldl_cons, List.foldl_nil]
  · rw [split, before, List.foldl_append, List.foldl_append, List.foldl_cons, List.foldl_nil, List.foldl_cons,
      List.foldl_nil, enter_empty]

theorem toList_loop (bytes : ByteArray) (i : Nat) (read : List UInt8) (bound : i ≤ bytes.size) :
    ByteArray.toList.loop bytes i read = read.reverse ++ bytes.data.toList.drop i := by
  fun_induction ByteArray.toList.loop bytes i read with
  | case1 i read inside ih =>
    have there : i < bytes.data.toList.length := by simpa using inside
    rw [ih (by omega), List.reverse_cons, List.append_assoc, List.drop_eq_getElem_cons there]
    have same : bytes.get! i = bytes.data.toList[i] := by
      have inside' : i < bytes.data.size := inside
      simp only [ByteArray.get!, getElem!_pos bytes.data i inside', Array.getElem_toList]
    rw [same]
    rfl
  | case2 i read outside =>
    have none : bytes.data.toList.drop i = [] := List.drop_eq_nil_of_le (by simpa using outside)
    rw [none, List.append_nil]

theorem bytesOf_inj {s t : String} (same : bytesOf s = bytesOf t) : s = t := by
  have whole (bytes : ByteArray) : bytes.toList = bytes.data.toList :=
    (toList_loop bytes 0 [] (Nat.zero_le _)).trans (by rw [List.reverse_nil, List.nil_append, List.drop_zero])
  unfold bytesOf at same
  rw [whole, whole] at same
  exact String.toByteArray_inj.mp (ByteArray.ext (Array.toList_inj.mp same))

end Bsdos.Pkgd
