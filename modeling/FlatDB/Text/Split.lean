/-
# Splitting at a separator

Records are split at tabs, files at newlines.  Both are one operation on lists:
cut at every occurrence of a separator, so that a list with `n` separators has
`n + 1` pieces, some of which may be empty.  Nothing is dropped, hence joining
the pieces again gives the list back, and a piece that holds no separator can
be read off the front.
-/

namespace FlatDB

namespace Split

variable {α : Type} [DecidableEq α]

/-- The pieces of a list between the occurrences of `sep`, in order.  There is
always at least one. -/
def pieces (sep : α) : List α → List (List α)
  | [] => [[]]
  | x :: xs => if x = sep then [] :: pieces sep xs else (pieces sep xs).modifyHead (x :: ·)

/-- The pieces put together again, with `sep` between neighbours. -/
def join (sep : α) : List (List α) → List α
  | [] => []
  | [piece] => piece
  | piece :: rest => piece ++ sep :: join sep rest

@[simp]
theorem pieces_nil (sep : α) : pieces sep [] = [[]] := rfl

theorem pieces_ne_nil (sep : α) (xs : List α) : pieces sep xs ≠ [] := by
  induction xs with
  | nil => simp [pieces]
  | cons x xs ih =>
    unfold pieces
    split
    · simp
    · intro h
      cases hp : pieces sep xs with
      | nil => exact ih hp
      | cons p ps => simp [hp] at h

/-- A list without separators is a single piece. -/
theorem pieces_of_not_mem {sep : α} {xs : List α} (h : sep ∉ xs) : pieces sep xs = [xs] := by
  induction xs with
  | nil => rfl
  | cons x xs ih =>
    have hx : x ≠ sep := fun e => h (e ▸ List.mem_cons_self)
    simp [pieces, hx, ih (fun hm => h (List.mem_cons_of_mem _ hm))]

/-- What stands before the first separator is the first piece. -/
theorem pieces_append_cons {sep : α} {xs : List α} (h : sep ∉ xs) (ys : List α) :
    pieces sep (xs ++ sep :: ys) = xs :: pieces sep ys := by
  induction xs with
  | nil => simp [pieces]
  | cons x xs ih =>
    have hx : x ≠ sep := fun e => h (e ▸ List.mem_cons_self)
    simp [pieces, hx, ih (fun hm => h (List.mem_cons_of_mem _ hm))]

/-- The pieces on the two sides of a separator. -/
theorem pieces_append_separator (sep : α) (xs ys : List α) :
    pieces sep (xs ++ sep :: ys) = pieces sep xs ++ pieces sep ys := by
  induction xs with
  | nil => simp [pieces]
  | cons x xs ih =>
    by_cases here : x = sep
    · simp [pieces, here, ih]
    · rw [List.cons_append, pieces, if_neg here, ih, pieces, if_neg here]
      cases first : pieces sep xs with
      | nil => exact absurd first (pieces_ne_nil sep xs)
      | cons p ps => rfl

/-- There is one piece more than there are separators. -/
theorem length_pieces (sep : α) (xs : List α) :
    (pieces sep xs).length = xs.count sep + 1 := by
  induction xs with
  | nil => rfl
  | cons x xs ih =>
    by_cases hx : x = sep
    · simp [pieces, hx, ih]
    · simp [pieces, hx, ih]

/-- No piece holds the separator. -/
theorem not_mem_of_mem_pieces {sep : α} {xs piece : List α} (h : piece ∈ pieces sep xs) :
    sep ∉ piece := by
  induction xs generalizing piece with
  | nil => simp_all [pieces]
  | cons x xs ih =>
    by_cases hx : x = sep
    · simp only [pieces, hx, if_true, List.mem_cons] at h
      rcases h with rfl | h
      · simp
      · exact ih h
    · cases hp : pieces sep xs with
      | nil => exact absurd hp (pieces_ne_nil sep xs)
      | cons p ps =>
        simp only [pieces, hx, if_false, hp, List.modifyHead_cons, List.mem_cons] at h
        rcases h with rfl | h
        · have : sep ∉ p := ih (by simp [hp])
          simp [this, Ne.symm hx]
        · exact ih (by simp [hp, h])

/-- Splitting loses nothing. -/
@[simp]
theorem join_pieces (sep : α) (xs : List α) : join sep (pieces sep xs) = xs := by
  induction xs with
  | nil => rfl
  | cons x xs ih =>
    cases hp : pieces sep xs with
    | nil => exact absurd hp (pieces_ne_nil sep xs)
    | cons p ps =>
      rw [hp] at ih
      by_cases hx : x = sep
      · simp [pieces, hx, hp, join, ih]
      · cases ps with
        | nil => simp_all [pieces, join]
        | cons q qs => simp_all [pieces, join]

end Split

end FlatDB
