/-!
Places in a list: what comes before an element and what comes after it. A record of calls is often put
together from parts, and a place in the whole is a place in one of them.
-/

namespace Brewhouse

variable {α : Type} {xs ys before after : List α} {x y : α}

/-- A place in two lists, one after the other, is a place in the first or in the second. -/
theorem append_eq_append_cons_iff :
    xs ++ ys = before ++ x :: after ↔
      (∃ rest, xs = before ++ x :: rest ∧ after = rest ++ ys) ∨
        ∃ rest, before = xs ++ rest ∧ ys = rest ++ x :: after := by
  constructor
  · intro h
    rcases List.append_eq_append_iff.mp h with ⟨rest, hbefore, hys⟩ | ⟨rest, hxs, hrest⟩
    · exact Or.inr ⟨rest, hbefore, hys⟩
    · cases rest with
      | nil => exact Or.inr ⟨[], by rw [hxs, List.append_nil, List.append_nil], hrest.symm⟩
      | cons first rest =>
          obtain ⟨rfl, hafter⟩ := List.cons.inj hrest
          exact Or.inl ⟨rest, hxs, hafter⟩
  · rintro (⟨rest, rfl, rfl⟩ | ⟨rest, rfl, rfl⟩)
    · rw [List.append_assoc, List.cons_append]
    · rw [List.append_assoc]

/-- A place in a list is the last one or it is a place in what is before the last one. -/
theorem concat_eq_append_cons_iff :
    xs ++ [y] = before ++ x :: after ↔
      (xs = before ∧ y = x ∧ after = []) ∨ ∃ rest, xs = before ++ x :: rest ∧ after = rest ++ [y] := by
  have hlast (rest : List α) : [y] = rest ++ x :: after ↔ rest = [] ∧ y = x ∧ after = [] := by
    cases rest <;> simp [eq_comm]
  rw [append_eq_append_cons_iff, or_comm]
  simp only [hlast]
  refine or_congr_left ⟨?_, ?_⟩
  · rintro ⟨_, rfl, rfl, hx, hafter⟩
    exact ⟨(List.append_nil xs).symm, hx, hafter⟩
  · rintro ⟨rfl, hx, hafter⟩
    exact ⟨[], (List.append_nil xs).symm, rfl, hx, hafter⟩

end Brewhouse
