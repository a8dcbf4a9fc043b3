/-!
# Pieces of a Text

A text cut at every occurrence of a separator. A text has one piece more than it
has separators, so the empty text has one piece, which is empty.

## Main definitions

* `pieces`: The pieces between separators.

## Theorems

* `pieces_ne_nil`: There always is a piece.
-/

namespace PolyCalc

namespace Text

/-- The pieces of a text between the occurrences of a separator. -/
def pieces (separator : Char) : List Char → List (List Char)
  | [] => [[]]
  | c :: rest =>
    if c = separator then [] :: pieces separator rest
    else
      match pieces separator rest with
      | [] => [[c]]
      | piece :: others => (c :: piece) :: others

theorem pieces_ne_nil (separator : Char) (text : List Char) : pieces separator text ≠ [] := by
  cases text with
  | nil => exact List.cons_ne_nil _ _
  | cons c rest =>
    rw [pieces]
    split
    · exact List.cons_ne_nil _ _
    · split <;> exact List.cons_ne_nil _ _

end Text

end PolyCalc
