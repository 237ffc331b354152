import ModelForm.ValueType

/-!
# Names of types

The text of an array type is put together from two walks down its layers: one counts them and the
count becomes a run of commas, the other finds the type below. Together they lose nothing.

* `ValueType.repeat_innermost` — the layers put back around the innermost type.
* `ValueType.commas_inj` — the length of a run of commas, read off a text.
* `ValueType.render_faithful` — two types with the same text are the same.
-/

namespace ModelForm

namespace ValueType

/-! ## Layers -/

theorem innermost_mem_unlayered (t : ValueType) : t.innermost ∈ unlayered := by
  induction t with
  | array element ih => exact ih
  | _ => decide

theorem repeat_innermost (t : ValueType) : Nat.repeat array t.arrayDims t.innermost = t := by
  induction t with
  | array element ih => exact congrArg array ih
  | _ => rfl

theorem mem_unlayered_or_array (t : ValueType) :
    t ∈ unlayered ∨ ∃ element, t = array element := by
  cases t with
  | array element => exact Or.inr ⟨element, rfl⟩
  | _ => exact Or.inl (by decide)

/-! ## Texts -/

theorem render?_eq (t : ValueType) : t.render? = some t.render := by
  rw [render, Option.some_get]

theorem render_array (element : ValueType) : (array element).render =
    "array[" ++ String.ofList (List.replicate element.arrayDims ',') ++ "] " ++
      element.innermost.keyword := by
  have h : (array element).render? = some ("array[" ++
      String.ofList (List.replicate element.arrayDims ',') ++ "] " ++
        element.innermost.keyword) := by
    rw [render?, commas?_array]
    rfl
  exact Option.get_of_eq_some _ h

example : (array (array (array vector))).render = "array[,,] vector" := by
  decide

/-- A type that is not an array is written as its keyword. -/
theorem render_of_unlayered {t : ValueType} (h : t ∈ unlayered) : t.render = t.keyword := by
  have hall : ∀ t ∈ unlayered, t.render = t.keyword := by decide
  exact hall t h

/-! ## Telling types apart -/

theorem keyword_inj {s t : ValueType} (hs : s ∈ unlayered) (ht : t ∈ unlayered)
    (h : s.keyword = t.keyword) : s = t := by
  have hall : ∀ s ∈ unlayered, ∀ t ∈ unlayered, s.keyword = t.keyword → s = t := by decide
  exact hall s hs t ht h

theorem bracket_not_mem_keyword {t : ValueType} (h : t ∈ unlayered) :
    '[' ∉ t.keyword.toList := by
  have hall : ∀ t ∈ unlayered, '[' ∉ t.keyword.toList := by decide
  exact hall t h

/-- The bracket ends a run of commas, so its length can be read off. -/
theorem commas_inj {m n : Nat} {xs ys : List Char}
    (h : List.replicate m ',' ++ ']' :: xs = List.replicate n ',' ++ ']' :: ys) :
    m = n ∧ xs = ys := by
  -- each step takes a comma off both runs, and a comma never stands where the bracket is
  induction m generalizing n with
  | zero =>
    cases n with
    | zero => exact ⟨rfl, (List.cons.inj h).2⟩
    | succ n => exact absurd (List.cons.inj h).1 (by decide)
  | succ m ih =>
    cases n with
    | zero => exact absurd (List.cons.inj h).1 (by decide)
    | succ n =>
      obtain ⟨hlength, hrest⟩ := ih (List.cons.inj h).2
      exact ⟨congrArg (· + 1) hlength, hrest⟩

/-- The text of an array, character by character. -/
theorem toList_render_array (element : ValueType) : (array element).render.toList =
    "array[".toList ++ (List.replicate element.arrayDims ',' ++
      ']' :: ' ' :: element.innermost.keyword.toList) := by
  rw [render_array]
  simp

theorem render_array_ne {t : ValueType} (h : t ∈ unlayered) (element : ValueType) :
    (array element).render ≠ t.render := by
  intro hsame
  apply bracket_not_mem_keyword h
  rw [← render_of_unlayered h, ← hsame, toList_render_array]
  exact List.mem_append_left _ (by decide)

theorem render_array_inj {element element' : ValueType}
    (h : (array element).render = (array element').render) : element = element' := by
  have hchars := congrArg String.toList h
  rw [toList_render_array, toList_render_array, List.append_cancel_left_eq] at hchars
  -- the commas give the number of layers, and what follows the bracket the type below them
  obtain ⟨hdims, hkeyword⟩ := commas_inj hchars
  have hinnermost : element.innermost = element'.innermost :=
    keyword_inj (innermost_mem_unlayered element) (innermost_mem_unlayered element')
      (String.toList_inj.mp (List.cons.inj hkeyword).2)
  rw [← repeat_innermost element, ← repeat_innermost element', hdims, hinnermost]

theorem eq_of_render_eq {s t : ValueType} (h : s.render = t.render) : s = t := by
  rcases mem_unlayered_or_array s with hs | ⟨element, rfl⟩
  · rcases mem_unlayered_or_array t with ht | ⟨element', rfl⟩
    · rw [render_of_unlayered hs, render_of_unlayered ht] at h
      exact keyword_inj hs ht h
    · exact absurd h.symm (render_array_ne hs element')
  · rcases mem_unlayered_or_array t with ht | ⟨element', rfl⟩
    · exact absurd h (render_array_ne ht element)
    · exact congrArg array (render_array_inj h)

/-- **Types are told apart by their texts.** Every type has a text, since an array has a layer that
can be taken off the count, and no other type has the same text. The layers that are counted, put
around the innermost type, are the type again. -/
theorem render_faithful :
    (∀ s t : ValueType, s.render = t.render ↔ s = t) ∧
      (∀ element : ValueType, 1 ≤ (array element).arrayDims) ∧
      (∀ t : ValueType, t.render? = some t.render) ∧
      ∀ t : ValueType, t.innermost ∈ unlayered ∧
        Nat.repeat array t.arrayDims t.innermost = t := by
  refine ⟨?_, one_le_arrayDims, render?_eq, ?_⟩
  · intro s t
    exact ⟨eq_of_render_eq, congrArg render⟩
  · intro t
    exact ⟨innermost_mem_unlayered t, repeat_innermost t⟩

end ValueType

end ModelForm
