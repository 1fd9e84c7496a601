import Bsdos.Effects.Results
import Bsdos.Octets.Slice
import Mathlib.Algebra.Group.Nat.Defs

namespace Machine
open Octets

/-- What a step on machine words and buffers must not do. -/
inductive Fault
  | index
  | overflow
  | shift
  | capacity
  deriving DecidableEq, Repr

/-- Why a computation does not go on: it refuses its input, or one of its steps faults. -/
inductive Stop (ε : Type)
  | refused (e : ε)
  | fault (f : Fault)
  deriving DecidableEq, Repr

abbrev Guarded (ε : Type) := Except (Stop ε)

variable {ε α β : Type}

def demand (p : Prop) [Decidable p] (f : Fault) (a : α) : Guarded ε α := if p then .ok a else .error (.fault f)

/-- The sum in a word of so many bits. -/
def addOn (bits a b : Nat) : Guarded ε Nat := demand (a + b < 2 ^ bits) .overflow (a + b)

def mulOn (bits a b : Nat) : Guarded ε Nat := demand (a * b < 2 ^ bits) .overflow (a * b)

/-- `a.checked_add(b)`. -/
def checkedAddOn (bits a b : Nat) : Option Nat := if a + b < 2 ^ bits then some (a + b) else none

def checkedMulOn (bits a b : Nat) : Option Nat := if a * b < 2 ^ bits then some (a * b) else none

/-- The operations on 64 bits. -/
def add (a b : Nat) : Guarded ε Nat := demand (a + b < 2 ^ 64) .overflow (a + b)

def mul (a b : Nat) : Guarded ε Nat := demand (a * b < 2 ^ 64) .overflow (a * b)

def sub (a b : Nat) : Guarded ε Nat := demand (b ≤ a) .overflow (a - b)

/-- `1 << n`. -/
def bit (n : Nat) : Guarded ε Nat := demand (n < 64) .shift (2 ^ n)

/-- `items[i]`. -/
def index (items : List α) (i : Nat) : Guarded ε α :=
  match items[i]? with
  | some a => .ok a
  | none => .error (.fault .index)

/-- `buf[start..stop]`. -/
def range (buf : List UInt8) (start stop : Nat) : Guarded ε (List UInt8) :=
  match slice buf start stop with
  | some bytes => .ok bytes
  | none => .error (.fault .index)

/-- An index or a range that must be there. -/
def inside (x : Option α) : Guarded ε α :=
  match x with
  | some a => .ok a
  | none => .error (.fault .index)

/-- `target.copy_from_slice(source)` for an array of `n`. -/
def copyFromSlice (n : Nat) (source : List UInt8) : Guarded ε (List UInt8) := demand (source.length = n) .index source

/-- `isize::MAX`, the most bytes that are allocated at once. -/
def isizeMax (bits : Nat) : Nat := 2 ^ (bits - 1) - 1

/-- How many elements of `size` bytes a vector is allocated for. -/
def capacityOf (bits size : Nat) : Nat := isizeMax bits / size

/-- How many a vector grows to that starts with four elements and doubles what it has. -/
def growthOf (bits size : Nat) : Nat := 2 ^ Nat.log2 (capacityOf bits size)

/-- `Vec::with_capacity(n)`, where no more than `limit` elements are allowed. -/
def withCapacity (limit n : Nat) : Guarded ε Unit := demand (n ≤ limit) .capacity ()

/-- `items.push(item)`, where an element has `size` bytes. -/
def push (bits size : Nat) (items : List α) (item : α) : Guarded ε (List α) :=
  demand (items.length < growthOf bits size) .capacity (items ++ [item])

/-- A computation all of whose steps are defined on every input. -/
def refuse (x : Except ε α) : Guarded ε α := x.mapError .refused

theorem demand_met {p : Prop} [Decidable p] {f : Fault} {a : α} (met : p) : demand p f a = (.ok a : Guarded ε α) := if_pos met

theorem addOn_small {bits a b : Nat} (small : a + b < 2 ^ bits) : addOn bits a b = (.ok (a + b) : Guarded ε Nat) := if_pos small

theorem mulOn_small {bits a b : Nat} (small : a * b < 2 ^ bits) : mulOn bits a b = (.ok (a * b) : Guarded ε Nat) := if_pos small

theorem add_small {a b : Nat} (small : a + b < 2 ^ 64) : add a b = (.ok (a + b) : Guarded ε Nat) := if_pos small

theorem mul_small {a b : Nat} (small : a * b < 2 ^ 64) : mul a b = (.ok (a * b) : Guarded ε Nat) := if_pos small

theorem sub_small {a b : Nat} (small : b ≤ a) : sub a b = (.ok (a - b) : Guarded ε Nat) := if_pos small

theorem bit_small {n : Nat} (small : n < 64) : bit n = (.ok (2 ^ n) : Guarded ε Nat) := if_pos small

theorem mul_large {a b : Nat} (large : 2 ^ 64 ≤ a * b) : mul a b = (.error (.fault .overflow) : Guarded ε Nat) :=
  if_neg (Nat.not_lt.mpr large)

theorem withCapacity_small {limit n : Nat} (small : n ≤ limit) : withCapacity limit n = (.ok () : Guarded ε Unit) := if_pos small

theorem withCapacity_large {limit n : Nat} (large : limit < n) :
    withCapacity limit n = (.error (.fault .capacity) : Guarded ε Unit) := if_neg (Nat.not_le.mpr large)

theorem inside_some {a : α} : inside (some a) = (.ok a : Guarded ε α) := rfl

theorem index_inside {items : List α} {i : Nat} (inside : i < items.length) :
    index items i = (.ok (items.get ⟨i, inside⟩) : Guarded ε α) := by
  rw [index, List.getElem?_eq_getElem inside]
  rfl

theorem range_inside {buf : List UInt8} {start stop : Nat} (ordered : start ≤ stop) (inside : stop ≤ buf.length) :
    range buf start stop = (.ok ((buf.drop start).take (stop - start)) : Guarded ε (List UInt8)) := by
  rw [range, slice, if_pos ⟨ordered, inside⟩]

@[simp] theorem refuse_ok {a : α} : refuse (.ok a) = (.ok a : Guarded ε α) := rfl

@[simp] theorem refuse_error {e : ε} : refuse (.error e) = (.error (.refused e) : Guarded ε α) := rfl

theorem ok_bind {a : α} {f : α → Except ε β} : (Except.ok a >>= f) = f a := rfl

/-- Steps that are defined one after the other are defined together. -/
theorem refuse_bind {x : Except ε α} {f : α → Guarded ε β} {f' : α → Except ε β} (each : ∀ a, x = .ok a → f a = refuse (f' a)) :
    refuse x >>= f = refuse (x >>= f') := by
  cases x with
  | error e => rfl
  | ok a => exact each a rfl

/-- Where the computation does not fault it does on a condition what another one does. -/
def Follows (condition : Prop) (x : Guarded ε α) (y : Except ε α) : Prop :=
  ∀ result, x = refuse result → condition → result = y

section Follows
variable {condition : Prop}

theorem Follows.bind {x : Guarded ε α} {y : Except ε α} {f : α → Guarded ε β} {g : α → Except ε β}
    (first : Follows condition x y) (next : ∀ a, x = .ok a → Follows condition (f a) (g a)) :
    Follows condition (x >>= f) (y >>= g) := by
  intro result ran holds
  cases given : x with
  | error stop =>
    rw [given] at ran
    cases stop with
    | refused e =>
      rw [← first (.error e) given holds]
      cases result with
      | error e' =>
        cases ran
        rfl
      | ok b => cases ran
    | fault f => cases result <;> cases ran
  | ok a =>
    rw [given] at ran
    rw [← first (.ok a) given holds]
    exact next a given result ran holds

theorem refuse_inj {x y : Except ε α} (same : (refuse x : Guarded ε α) = refuse y) : x = y := by
  cases x <;> cases y <;> cases same <;> rfl

/-- A step that is defined on every input. -/
theorem Follows.refuse {x y : Except ε α} (same : condition → x = y) : Follows condition (Machine.refuse x) y :=
  fun _ ran holds => (refuse_inj ran).symm.trans (same holds)

theorem Follows.pure {a : α} : Follows condition (Pure.pure a : Guarded ε α) (Pure.pure a) :=
  .refuse (x := .ok a) fun _ => rfl

theorem Follows.stop {e : ε} : Follows condition (.error (.refused e) : Guarded ε α) (.error e) :=
  .refuse (x := .error e) fun _ => rfl

/-- A step that gives what it demands. -/
theorem Follows.demand {p : Prop} [Decidable p] {f : Fault} {a : α} :
    Follows condition (Machine.demand p f a : Guarded ε α) (.ok a) := by
  intro result ran _
  rw [Machine.demand] at ran
  split at ran
  · exact (refuse_inj (x := .ok a) ran).symm
  · cases result <;> cases ran

/-- A step that faults or gives what is known is no part of the other computation. -/
theorem Follows.past {x : Guarded ε α} {a : α} {f : α → Guarded ε β} {y : Except ε β}
    (known : (∃ fault, x = .error (.fault fault)) ∨ x = .ok a) (next : Follows condition (f a) y) :
    Follows condition (x >>= f) y := by
  rcases known with ⟨fault, faults⟩ | given
  · intro result ran _
    rw [faults] at ran
    cases result <;> cases ran
  · rw [given]
    exact next

end Follows

theorem demand_cases (p : Prop) [Decidable p] (f : Fault) (a : α) :
    (∃ fault, (demand p f a : Guarded ε α) = .error (.fault fault)) ∨ (demand p f a : Guarded ε α) = .ok a := by
  unfold demand
  split
  · exact .inr rfl
  · exact .inl ⟨f, rfl⟩

theorem pushes_cases (bits size : Nat) (items more : List α) :
    (∃ fault, (more.foldlM (push bits size) items : Guarded ε (List α)) = .error (.fault fault)) ∨
      (more.foldlM (push bits size) items : Guarded ε (List α)) = .ok (items ++ more) := by
  induction more generalizing items with
  | nil => exact .inr (by rw [List.append_nil]; rfl)
  | cons item more ih =>
    rw [List.foldlM_cons]
    rcases demand_cases (ε := ε) (items.length < growthOf bits size) .capacity (items ++ [item]) with ⟨fault, faults⟩ | given
    · exact .inl ⟨fault, by rw [push, faults]; rfl⟩
    · rw [push, given, ok_bind, List.append_cons items item more]
      exact ih (items ++ [item])

theorem pushes_fit {bits size : Nat} {items more : List α} (fits : items.length + more.length ≤ growthOf bits size) :
    (more.foldlM (push bits size) items : Guarded ε (List α)) = .ok (items ++ more) := by
  induction more generalizing items with
  | nil => exact congrArg Except.ok (List.append_nil items).symm
  | cons item more ih =>
    rw [List.length_cons] at fits
    rw [List.foldlM_cons, push, demand_met (by omega), ok_bind, List.append_cons items item more]
    exact ih (by rw [List.length_append, List.length_singleton]; omega)

theorem pushes_over {bits size : Nat} {items more : List α} (held : items.length ≤ growthOf bits size)
    (exceeds : growthOf bits size < items.length + more.length) :
    ∃ f, (more.foldlM (push bits size) items : Guarded ε (List α)) = .error (.fault f) := by
  rcases pushes_cases (ε := ε) bits size items more with faults | given
  · exact faults
  · induction more generalizing items with
    | nil => exact absurd held (Nat.not_le.mpr exceeds)
    | cons item more ih =>
      rw [List.length_cons] at exceeds
      rw [List.foldlM_cons] at given ⊢
      by_cases room : items.length < growthOf bits size
      · rw [push, demand_met room, ok_bind] at given ⊢
        rw [List.append_cons items item more] at given
        exact ih (by rw [List.length_append, List.length_singleton]; omega)
          (by rw [List.length_append, List.length_singleton]; omega) given
      · exact ⟨.capacity, by rw [push, demand, if_neg room]; rfl⟩

/-- The computation faults exactly where there is too much of something, refuses its input otherwise exactly where that is
not sound, and gives a value that meets `post` in all other cases. -/
inductive Ends (full sound : Prop) (post : α → Prop) : Guarded ε α → Prop
  | faults (overfull : full) (f : Fault) : Ends full sound post (.error (.fault f))
  | refuses (fits : ¬ full) (unsound : ¬ sound) (e : ε) : Ends full sound post (.error (.refused e))
  | gives (fits : ¬ full) (whole : sound) {a : α} (meets : post a) : Ends full sound post (.ok a)

section Ends
variable {full full' sound sound' : Prop} {post : α → Prop} {x : Guarded ε α}

theorem Ends.congr (ends : Ends full sound post x) (full_iff : full ↔ full') (sound_iff : sound ↔ sound') :
    Ends full' sound' post x := by
  rw [← propext full_iff, ← propext sound_iff]
  exact ends

theorem Ends.mono {post' : α → Prop} (ends : Ends full sound post x) (imp : ∀ a, post a → post' a) :
    Ends full sound post' x := by
  cases ends with
  | faults overfull f => exact .faults overfull f
  | refuses fits unsound e => exact .refuses fits unsound e
  | gives fits whole meets => exact .gives fits whole (imp _ meets)

/-- A value is given where there is not too much, and what there is is sound. -/
theorem Ends.fitting (ends : Ends full sound post x) : Ends full sound (fun a => post a ∧ ¬ full ∧ sound) x := by
  cases ends with
  | faults overfull f => exact .faults overfull f
  | refuses fits unsound e => exact .refuses fits unsound e
  | gives fits whole meets => exact .gives fits whole ⟨meets, fits, whole⟩

theorem Ends.ret {a : α} (meets : post a) : Ends False True post (.ok a : Guarded ε α) := .gives not_false trivial meets

/-- What comes after a step matters where its input was sound. -/
theorem Ends.bind {post' : β → Prop} {f : α → Guarded ε β} (first : Ends full sound post x)
    (next : ∀ a, post a → Ends full' sound' post' (f a)) : Ends (full ∨ sound ∧ full') (sound ∧ sound') post' (x >>= f) := by
  cases first with
  | faults overfull fault => exact .faults (.inl overfull) fault
  | refuses fits unsound e => exact .refuses (fun either => either.elim fits fun both => unsound both.1) (fun both => unsound both.1) e
  | gives fits whole meets =>
    rename_i a
    rw [ok_bind]
    exact (next a meets).congr (by simp only [fits, whole, false_or, true_and]) (by simp only [whole, true_and])

/-- A step that cannot fault, and whose value is known. -/
theorem Ends.read {post' : β → Prop} {a : α} {f : α → Guarded ε β} (first : Ends False sound (· = a) x)
    (next : Ends full' sound' post' (f a)) : Ends (sound ∧ full') (sound ∧ sound') post' (x >>= f) := by
  refine (first.bind fun _ same => ?_).congr (by rw [false_or]) Iff.rfl
  rw [same]
  exact next

/-- A value that is made of what a computation gives. -/
theorem Ends.made {post' : β → Prop} {f : α → β} (ends : Ends full sound post x) (made : ∀ a, post a → post' (f a)) :
    Ends full sound post' (x >>= fun a => .ok (f a)) :=
  (ends.bind fun a meets => .ret (made a meets)).congr (by simp only [and_false, or_false]) (by simp only [and_true])

theorem Ends.check {p : Prop} [Decidable p] {e : ε} (ends : Ends full sound post x) :
    Ends (¬ p ∧ full) (¬ p ∧ sound) post (if p then .error (.refused e) else x) := by
  by_cases holds : p
  · rw [if_pos holds]
    exact .refuses (fun both => both.1 holds) (fun both => both.1 holds) e
  · rw [if_neg holds]
    exact ends.congr (by simp only [holds, not_false_iff, true_and]) (by simp only [holds, not_false_iff, true_and])

theorem Ends.demand {p : Prop} [Decidable p] {f : Fault} {a : α} :
    Ends (¬ p) True (· = a) (Machine.demand p f a : Guarded ε α) := by
  unfold Machine.demand
  split
  · rename_i holds
    exact .gives (not_not.mpr holds) trivial rfl
  · rename_i fails
    exact .faults fails f

theorem Ends.pushes {bits size : Nat} {items more : List α} (held : items.length ≤ growthOf bits size) :
    Ends (growthOf bits size < items.length + more.length) True (fun all => all.length = items.length + more.length)
      (more.foldlM (push bits size) items : Guarded ε (List α)) := by
  by_cases exceeds : growthOf bits size < items.length + more.length
  · obtain ⟨f, faults⟩ := pushes_over (ε := ε) held exceeds
    rw [faults]
    exact .faults exceeds f
  · rw [pushes_fit (Nat.not_lt.mp exceeds)]
    exact .gives exceeds trivial List.length_append

theorem Ends.defined_iff (ends : Ends full sound post x) : (∃ result, x = refuse result) ↔ ¬ full := by
  cases ends with
  | faults overfull f =>
    refine iff_of_false ?_ (not_not.mpr overfull)
    rintro ⟨result, same⟩
    cases result <;> cases same
  | refuses fits unsound e => exact iff_of_true ⟨.error e, rfl⟩ fits
  | gives fits whole meets =>
    rename_i a
    exact iff_of_true ⟨.ok a, rfl⟩ fits

end Ends

end Machine
