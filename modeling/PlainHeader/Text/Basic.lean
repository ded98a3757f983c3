/-!
# Texts, bytes and pieces

A text is its list of characters and a file its list of bytes. Both are cut in the same
way: `pieces` cuts at every element of one kind and drops it, so that gluing the pieces
back needs only the elements that were dropped.
-/

namespace PlainHeader

/-- Characters in reading order. -/
abbrev Text := List Char

/-- Octets in file order. -/
abbrev Bytes := List UInt8

section
variable {α : Type}

/-- The first piece, and all pieces after it. -/
def cut (ends : α → Bool) (xs : List α) : List α × List (List α) :=
  xs.foldr (fun x found => if ends x then ([], found.1 :: found.2) else (x :: found.1, found.2)) ([], [])

/-- The pieces between the elements that end one. The last piece has no end of its own;
    it is empty when the list is empty or stops at an end. -/
def pieces (ends : α → Bool) (xs : List α) : List (List α) :=
  (cut ends xs).1 :: (cut ends xs).2

@[simp] theorem pieces_nil (ends : α → Bool) : pieces ends [] = [[]] := rfl

theorem pieces_cons_end {ends : α → Bool} {x : α} (h : ends x = true) (xs : List α) :
    pieces ends (x :: xs) = [] :: pieces ends xs := by
  simp [pieces, cut, h]

theorem pieces_cons {ends : α → Bool} {x : α} (h : ends x = false) (xs : List α) :
    pieces ends (x :: xs) = (x :: (cut ends xs).1) :: (cut ends xs).2 := by
  simp [pieces, cut, h]

/-- Cutting works on both sides of an end independently. -/
theorem pieces_append_end {ends : α → Bool} {x : α} (h : ends x = true) (xs ys : List α) :
    pieces ends (xs ++ x :: ys) = pieces ends xs ++ pieces ends ys := by
  induction xs with
  | nil => rw [List.nil_append, pieces_cons_end h]; rfl
  | cons y xs ih =>
    by_cases hy : ends y = true
    · rw [List.cons_append, pieces_cons_end hy, pieces_cons_end hy, ih]; rfl
    · have hy : ends y = false := by simpa using hy
      simp only [pieces, List.cons_append, List.cons.injEq] at ih
      rw [List.cons_append, pieces_cons hy, pieces_cons hy, ih.1, ih.2]; rfl

/-- No piece holds an end. -/
theorem not_end_of_mem_pieces {ends : α → Bool} {xs piece : List α} (h : piece ∈ pieces ends xs) :
    ∀ x ∈ piece, ends x = false := by
  induction xs generalizing piece with
  | nil => simp_all
  | cons y xs ih =>
    by_cases hy : ends y = true
    · rw [pieces_cons_end hy] at h
      rcases List.mem_cons.1 h with rfl | h
      · simp
      · exact ih h
    · have hy : ends y = false := by simpa using hy
      rw [pieces_cons hy] at h
      rcases List.mem_cons.1 h with rfl | h
      · intro x hx
        rcases List.mem_cons.1 hx with rfl | hx
        · exact hy
        · exact ih (by simp [pieces]) x hx
      · exact ih (by simp [pieces, h])

end

end PlainHeader
