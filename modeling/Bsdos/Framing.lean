import Bsdos.Effects.Results
import Mathlib.Data.List.Infix

namespace Framing

/-- How items are written, and how the first of them is read back from a text. -/
structure Code (B E ε : Type) where
  write : E → List B
  next : List B → Except ε (E × List B)
  Fits : E → Prop
  next_write : ∀ e rest, Fits e → next (write e ++ rest) = .ok (e, rest)
  write_next : ∀ text e rest, next text = .ok (e, rest) → Fits e ∧ text = write e ++ rest
  filled : ∀ e, write e ≠ []

variable {B E ε : Type} {code : Code B E ε} {text text' back tail tail' : List B} {es es' : List E} {e : E}

/-- Items are read one after another until nothing is left or something is no item; `n` bounds
how many. -/
def readAll (code : Code B E ε) : Nat → List B → List (Except ε E)
  | 0, _ => []
  | _ + 1, [] => []
  | n + 1, b :: bs =>
    match code.next (b :: bs) with
    | .ok (e, rest) => .ok e :: readAll code n rest
    | .error err => [.error err]

/-- The items that a text begins with, and what is left where no further item begins. -/
inductive Reads (code : Code B E ε) : List B → List E → List B → Prop
  | stop {text : List B} (none : text = [] ∨ ∃ err, code.next text = .error err) : Reads code text [] text
  | item {e : E} {es : List E} {text tail : List B} (fits : code.Fits e) (later : Reads code text es tail) :
    Reads code (code.write e ++ text) (e :: es) tail

/-- What is left is an error, if it is anything. -/
def ending (code : Code B E ε) (tail : List B) : List (Except ε E) :=
  match tail with
  | [] => []
  | b :: bs =>
    match code.next (b :: bs) with
    | .ok _ => []
    | .error err => [.error err]

theorem Code.write_pos (code : Code B E ε) (e : E) : 0 < (code.write e).length :=
  List.length_pos_iff.mpr (code.filled e)

theorem Reads.split (reads : Reads code text es tail) : text = es.flatMap code.write ++ tail ∧ ∀ e ∈ es, code.Fits e := by
  induction reads with
  | stop => exact ⟨rfl, fun e member => absurd member List.not_mem_nil⟩
  | item fits later ih =>
    refine ⟨?_, List.forall_mem_cons.mpr ⟨fits, ih.2⟩⟩
    rw [List.flatMap_cons, List.append_assoc, ← ih.1]

/-- No item begins where the reading stops. -/
theorem Reads.stopped (reads : Reads code text es tail) : tail = [] ∨ ∃ err, code.next tail = .error err := by
  induction reads with
  | stop none => exact none
  | item _ _ ih => exact ih

theorem Reads.nothing (reads : Reads code text es tail) {e : E} {rest : List B} (fits : code.Fits e) :
    tail ≠ code.write e ++ rest := by
  rintro rfl
  rcases reads.stopped with empty | ⟨err, refused⟩
  · exact code.filled e (List.append_eq_nil_iff.mp empty).1
  · rw [code.next_write e rest fits] at refused
    cases refused

theorem Reads.written (fits : ∀ e ∈ es, code.Fits e) (none : tail = [] ∨ ∃ err, code.next tail = .error err) :
    Reads code (es.flatMap code.write ++ tail) es tail := by
  induction es with
  | nil => exact .stop none
  | cons e es ih =>
    rw [List.flatMap_cons, List.append_assoc]
    exact .item (fits e List.mem_cons_self) (ih fun e' member => fits e' (List.mem_cons_of_mem _ member))

/-- Items are read of every text, and as many as there are bytes are enough. -/
theorem readAll_reads (code : Code B E ε) {n : Nat} (enough : text.length ≤ n) :
    ∃ es tail, Reads code text es tail ∧ readAll code n text = es.map .ok ++ ending code tail := by
  induction n generalizing text with
  | zero =>
    obtain rfl := List.length_eq_zero_iff.mp (Nat.le_zero.mp enough)
    exact ⟨[], [], .stop (.inl rfl), rfl⟩
  | succ n ih =>
    cases text with
    | nil => exact ⟨[], [], .stop (.inl rfl), rfl⟩
    | cons b bs =>
      cases found : code.next (b :: bs) with
      | error err =>
        refine ⟨[], b :: bs, .stop (.inr ⟨err, found⟩), ?_⟩
        simp only [readAll, ending, found, List.map_nil, List.nil_append]
      | ok read =>
        obtain ⟨e, rest⟩ := read
        obtain ⟨fits, whole⟩ := code.write_next _ _ _ found
        have shorter : rest.length ≤ n := by
          have length := congrArg List.length whole
          have pos := code.write_pos e
          rw [List.length_append, List.length_cons] at length
          rw [List.length_cons] at enough
          omega
        obtain ⟨es, tail, reads, rest_reads⟩ := ih shorter
        refine ⟨e :: es, tail, whole ▸ .item fits reads, ?_⟩
        simp only [readAll, found, rest_reads, List.map_cons, List.cons_append]

/-- Of a longer text, at least the same items are read. -/
theorem Reads.extend (reads : Reads code text es tail) (longer : Reads code (text ++ back) es' tail') : es <+: es' := by
  induction reads generalizing es' with
  | stop => exact List.nil_prefix
  | @item e es text tail fits later ih =>
    rw [List.append_assoc] at longer
    generalize whole : code.write e ++ (text ++ back) = all at longer
    cases longer with
    | stop none =>
      subst whole
      exact absurd rfl (Reads.nothing (.stop none) fits)
    | @item e' es' text' _ fits' later' =>
      have first := code.next_write e (text ++ back) fits
      rw [whole, code.next_write e' text' fits'] at first
      obtain ⟨rfl, rfl⟩ := Prod.mk.inj (Except.ok.inj first)
      exact List.cons_prefix_cons.mpr ⟨rfl, ih later'⟩

theorem Reads.unique (reads : Reads code text es tail) (reads' : Reads code text es' tail') : es = es' ∧ tail = tail' := by
  have whole : Reads code (text ++ []) es tail := by rwa [List.append_nil]
  have whole' : Reads code (text ++ []) es' tail' := by rwa [List.append_nil]
  obtain rfl := (reads.extend whole').eq_of_length_le (reads'.extend whole).length_le
  exact ⟨rfl, List.append_cancel_left (reads.split.1.symm.trans reads'.split.1)⟩

/-- No text begins with more items than are read of it. -/
theorem Reads.longest (reads : Reads code text es tail) (fits : ∀ e ∈ es', code.Fits e)
    (whole : text = es'.flatMap code.write ++ back) : es' <+: es := by
  obtain ⟨later, left, rest, -⟩ := readAll_reads code (Nat.le_refl back.length)
  have all : Reads code text (es' ++ later) left := by
    rw [whole]
    clear whole reads
    induction es' with
    | nil => exact rest
    | cons e es' ih =>
      rw [List.flatMap_cons, List.append_assoc]
      exact .item (fits e List.mem_cons_self) (ih fun e' member => fits e' (List.mem_cons_of_mem _ member))
  rw [(reads.unique all).1]
  exact List.prefix_append es' later

theorem ending_stopped (none : tail = [] ∨ ∃ err, code.next tail = .error err) :
    ending code tail = [] ∧ tail = [] ∨ tail ≠ [] ∧ ∃ err, code.next tail = .error err ∧ ending code tail = [.error err] := by
  cases tail with
  | nil => exact .inl ⟨rfl, rfl⟩
  | cons b bs =>
    rcases none with empty | ⟨err, refused⟩
    · cases empty
    · refine .inr ⟨List.cons_ne_nil b bs, err, refused, ?_⟩
      simp only [ending, refused]

theorem readAll_enough (code : Code B E ε) {n : Nat} (enough : text.length ≤ n) :
    readAll code n text = readAll code text.length text := by
  obtain ⟨es, tail, reads, all⟩ := readAll_reads code enough
  obtain ⟨es', tail', reads', all'⟩ := readAll_reads code (Nat.le_refl text.length)
  obtain ⟨rfl, rfl⟩ := reads.unique reads'
  rw [all, all']

/-- What is read tells the items. -/
theorem oks_inj {errs errs' : List (Except ε E)} (errors : ∀ x ∈ errs, ∃ err, x = .error err)
    (errors' : ∀ x ∈ errs', ∃ err, x = .error err) (same : es.map Except.ok ++ errs = es'.map Except.ok ++ errs') :
    es = es' ∧ errs = errs' := by
  induction es generalizing es' with
  | nil =>
    cases es' with
    | nil => exact ⟨rfl, same⟩
    | cons e' es' =>
      obtain ⟨err, wrong⟩ := errors (.ok e') (by rw [List.map_nil, List.nil_append] at same; rw [same]; exact List.mem_cons_self)
      cases wrong
  | cons e es ih =>
    cases es' with
    | nil =>
      obtain ⟨err, wrong⟩ := errors' (.ok e) (by rw [List.map_nil, List.nil_append] at same; rw [← same]; exact List.mem_cons_self)
      cases wrong
    | cons e' es' =>
      rw [List.map_cons, List.map_cons, List.cons_append, List.cons_append, List.cons.injEq] at same
      obtain ⟨rfl, rfl⟩ := ih same.2
      exact ⟨by rw [Except.ok.inj same.1], rfl⟩

/-- The items among what is read. -/
def items : List (Except ε E) → List E
  | [] => []
  | .ok e :: rest => e :: items rest
  | .error _ :: rest => items rest

theorem items_append (front back : List (Except ε E)) : items (front ++ back) = items front ++ items back := by
  induction front with
  | nil => rfl
  | cons x front ih =>
    cases x with
    | ok e => exact congrArg (List.cons e) ih
    | error err => exact ih

theorem items_oks (es : List E) : items (es.map fun e => (.ok e : Except ε E)) = es := by
  induction es with
  | nil => rfl
  | cons e es ih => exact congrArg (List.cons e) ih

theorem items_read (es : List E) (tail : List B) : items (es.map .ok ++ ending code tail) = es := by
  have none : items (ending code tail) = [] := by
    unfold ending
    split
    · rfl
    · split
      · rfl
      · rfl
  rw [items_append, items_oks, none, List.append_nil]

/-- The items that are whole in the first `n` places of what is written. -/
def whole (code : Code B E ε) : Nat → List E → List E
  | _, [] => []
  | n, e :: es => if (code.write e).length ≤ n then e :: whole code (n - (code.write e).length) es else []

/-- A part of an item is no item. -/
theorem next_cut {n : Nat} (fits : code.Fits e) (short : n < (code.write e).length) :
    (code.write e ++ text).take n = [] ∨ ∃ err, code.next ((code.write e ++ text).take n) = .error err := by
  cases found : code.next ((code.write e ++ text).take n) with
  | error err => exact .inr ⟨err, rfl⟩
  | ok read =>
    obtain ⟨e', rest⟩ := read
    obtain ⟨fits', front⟩ := code.write_next _ _ _ found
    have again : code.next (code.write e' ++ (rest ++ (code.write e ++ text).drop n)) = .ok (e', _) :=
      code.next_write e' _ fits'
    rw [← List.append_assoc, ← front, List.take_append_drop, code.next_write e text fits] at again
    obtain ⟨rfl, -⟩ := Prod.mk.inj (Except.ok.inj again)
    have length := congrArg List.length front
    rw [List.length_take, List.length_append, List.length_append] at length
    omega

theorem Reads.cut (n : Nat) (fits : ∀ e ∈ es, code.Fits e) :
    ∃ tail, Reads code ((es.flatMap code.write).take n) (whole code n es) tail := by
  induction es generalizing n with
  | nil =>
    rw [List.flatMap_nil, List.take_nil]
    exact ⟨[], .stop (.inl rfl)⟩
  | cons e es ih =>
    have first := fits e List.mem_cons_self
    rw [List.flatMap_cons, whole]
    by_cases inside : (code.write e).length ≤ n
    · obtain ⟨tail, later⟩ := ih (n - (code.write e).length) fun e' member => fits e' (List.mem_cons_of_mem _ member)
      rw [if_pos inside, List.take_append, List.take_of_length_le inside]
      exact ⟨tail, .item first later⟩
    · rw [if_neg inside]
      exact ⟨_, .stop (next_cut first (Nat.lt_of_not_le inside))⟩

end Framing
