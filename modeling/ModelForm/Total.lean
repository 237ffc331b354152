/-!
# Totals

The total of a list of numbers. Counts of nodes and places are totals over children, and the
measures by which work-lists end are totals over pending work.
-/

namespace ModelForm

def total : List Nat → Nat
  | []      => 0
  | n :: ns => n + total ns

@[simp] theorem total_nil : total [] = 0 := rfl

@[simp] theorem total_cons (n : Nat) (ns : List Nat) : total (n :: ns) = n + total ns := rfl

@[simp] theorem total_append (ms ns : List Nat) : total (ms ++ ns) = total ms + total ns := by
  induction ms with
  | nil => simp
  | cons m ms ih => simp [ih, Nat.add_assoc]

/-- No number of a list exceeds the total. -/
theorem le_total_of_mem {n : Nat} {ns : List Nat} (h : n ∈ ns) : n ≤ total ns := by
  induction ns with
  | nil => cases h
  | cons k ks ih =>
    rw [total_cons]
    rcases List.mem_cons.mp h with rfl | h
    · exact Nat.le_add_right _ _
    · exact Nat.le_trans (ih h) (Nat.le_add_left _ _)

/-- A factor of all numbers is a factor of the total. -/
theorem total_map_mul {γ : Type} (k : Nat) (f : γ → Nat) (cs : List γ) :
    total (cs.map fun c => k * f c) = k * total (cs.map f) := by
  induction cs with
  | nil => rfl
  | cons c cs ih => simp only [List.map_cons, total_cons, ih, Nat.mul_add]

/-- The length of a concatenation is the total of the lengths. -/
theorem length_flatMap_eq_total {γ δ : Type} (f : γ → List δ) (cs : List γ) :
    (cs.flatMap f).length = total (cs.map fun c => (f c).length) := by
  induction cs with
  | nil => rfl
  | cons c cs ih => rw [List.flatMap_cons, List.length_append, ih, List.map_cons, total_cons]

end ModelForm
