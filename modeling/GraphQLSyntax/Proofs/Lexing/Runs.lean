/-!
# Runs at the front of a text

A scan takes the longest run of characters of one class. What it takes and what it leaves are told apart
by the first character that is not of the class.
-/

set_option autoImplicit false

namespace GraphQLSyntax

variable {α : Type} {p : α → Bool}

/-- The first element, if there is one, is not of the class. -/
def StopsAt (p : α → Bool) (rest : List α) : Prop :=
  ∀ a ∈ rest.head?, p a = false

theorem take_length_takeWhile (p : α → Bool) (xs : List α) :
    xs.take (xs.takeWhile p).length = xs.takeWhile p :=
  (List.prefix_iff_eq_take.mp (List.takeWhile_prefix p)).symm

theorem of_mem_takeWhile {xs : List α} {a : α} (h : a ∈ xs.takeWhile p) : p a = true :=
  List.all_eq_true.mp List.all_takeWhile a h

theorem stopsAt_dropWhile (p : α → Bool) (xs : List α) : StopsAt p (xs.dropWhile p) := by
  intro a ha
  have hHead := List.head?_dropWhile_not p xs
  rw [Option.mem_def.mp ha] at hHead
  simpa using hHead

theorem takeWhile_append_stop {xs rest : List α} (hxs : ∀ a ∈ xs, p a = true) (hRest : StopsAt p rest) :
    (xs ++ rest).takeWhile p = xs := by
  rw [List.takeWhile_append_of_pos hxs]
  cases rest with
  | nil => simp
  | cons a rest => simp [hRest a rfl]

theorem dropWhile_append_stop {xs rest : List α} (hxs : ∀ a ∈ xs, p a = true) (hRest : StopsAt p rest) :
    (xs ++ rest).dropWhile p = rest := by
  rw [List.dropWhile_append_of_pos hxs]
  cases rest with
  | nil => rfl
  | cons a rest => simp [hRest a rfl]

end GraphQLSyntax
