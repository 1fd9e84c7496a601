import Mathlib.Data.List.Basic

namespace Scanning

variable {M C T : Type} (step : M → C → List T × M)

/-- What a reader gives out while it reads a text, and how the text leaves it. -/
def run (mode : M) : List C → List T × M
  | [] => ([], mode)
  | c :: cs => ((step mode c).1 ++ (run (step mode c).2 cs).1, (run (step mode c).2 cs).2)

variable {step} {mode mode' mode'' : M} {cs cs' : List C} {out out' : List T}

theorem run_append (mode : M) (cs cs' : List C) : run step mode (cs ++ cs') =
    ((run step mode cs).1 ++ (run step (run step mode cs).2 cs').1, (run step (run step mode cs).2 cs').2) := by
  induction cs generalizing mode with
  | nil => rfl
  | cons c cs ih => simp only [List.cons_append, run, ih, List.append_assoc]

/-- A text is read after another from where that one left the reader. -/
theorem run_then (first : run step mode cs = (out, mode')) (second : run step mode' cs' = (out', mode'')) :
    run step mode (cs ++ cs') = (out ++ out', mode'') := by
  rw [run_append, first, second]

theorem run_cons {c : C} (first : step mode c = (out, mode')) (second : run step mode' cs = (out', mode'')) :
    run step mode (c :: cs) = (out ++ out', mode'') := by
  rw [run, first, second]

/-- A text in parts, each of which leaves the reader where it was. -/
theorem run_flatMap {A : Type} {text : A → List C} {given : A → List T} {parts : List A}
    (each : ∀ a ∈ parts, run step mode (text a) = (given a, mode)) :
    run step mode (parts.flatMap text) = (parts.flatMap given, mode) := by
  induction parts with
  | nil => rfl
  | cons a parts ih =>
    rw [List.flatMap_cons, List.flatMap_cons]
    exact run_then (each a (List.mem_cons_self ..)) (ih fun a' member => each a' (List.mem_cons_of_mem _ member))

/-- From a mode that cannot be left. -/
theorem run_stuck (stuck : ∀ c, step mode c = ([], mode)) : run step mode cs = ([], mode) := by
  induction cs with
  | nil => rfl
  | cons c cs ih => exact run_cons (stuck c) ih

end Scanning
