import NextFit.Failure

/-! # Bytes in groups

A byte string in hexadecimal, with a space after every few bytes.
-/

namespace NextFit.Hex

/-- Cut a list into pieces of `width` elements; the last piece may be shorter. -/
def pieces {α : Type} (width : Nat) : List α → List (List α)
  | [] => []
  | x :: rest => (x :: rest.take (width - 1)) :: pieces width (rest.drop (width - 1))
termination_by xs => xs.length
decreasing_by
  simp only [List.length_drop, List.length_cons]
  omega

/-- A byte string with a space between groups of `width` bytes. -/
def grouped (bs : List UInt8) (width : Nat) : Except Fault String :=
  if width = 0 then throw .emptyGroup
  else return " ".intercalate ((pieces width bs).map ofBytes)

/-- The pieces of a list make up the list. -/
theorem flatten_pieces {α : Type} (width : Nat) (xs : List α) : (pieces width xs).flatten = xs := by
  fun_induction pieces width xs with
  | case1 => rfl
  | case2 x rest ih => rw [List.flatten_cons, ih, List.cons_append, List.take_append_drop]

/-- A piece of a positive width is not longer than the width. -/
theorem length_of_mem_pieces {α : Type} {width : Nat} (positive : 0 < width) {xs piece : List α}
    (h : piece ∈ pieces width xs) : piece.length ≤ width := by
  fun_induction pieces width xs with
  | case1 => simp at h
  | case2 x rest ih =>
      rcases List.mem_cons.1 h with rfl | later
      · simp only [List.length_cons, List.length_take]
        omega
      · exact ih later

end NextFit.Hex
