import PolyCalc.Text.Pieces

/-!
# The Lines of a Text

A text that is appended to line by line has a line break at its end, and what is
appended starts a new line. The break at the end ends the last line and does not
start another one, so a text without anything in it has no line. With that, the
lines of a text behind another one are counted apart from it.

## Main definitions

* `EndsLine`: A text behind which a new line starts.
* `lines`: The lines of a text.

## Theorems

* `pieces_append_cons`: Pieces on both sides of a separator.
* `lines_append`: Lines behind other lines.
* `lines_flatMap`: Lines that were written one after the other.
-/

namespace PolyCalc

namespace Text

/-- A text behind which a new line starts: it has nothing in it, or a line break at
    its end. -/
def EndsLine (text : List Char) : Prop := text = [] ∨ text.getLast? = some '\n'

instance (text : List Char) : Decidable (EndsLine text) :=
  inferInstanceAs (Decidable (_ ∨ _))

/-- The lines of a text: the pieces between line breaks, where a break at the end
    starts no further line. -/
def lines (text : List Char) : List (List Char) :=
  if EndsLine text then (pieces '\n' text).dropLast else pieces '\n' text

/-! ## Pieces -/

theorem pieces_cons_self (separator : Char) (text : List Char) :
    pieces separator (separator :: text) = [] :: pieces separator text := if_pos rfl

theorem pieces_cons_of_ne {separator c : Char} (h : c ≠ separator) {text piece : List Char}
    {others : List (List Char)} (htext : pieces separator text = piece :: others) :
    pieces separator (c :: text) = (c :: piece) :: others := by
  rw [pieces, if_neg h, htext]

theorem pieces_append_cons (separator : Char) (text rest : List Char) :
    pieces separator (text ++ separator :: rest)
      = pieces separator text ++ pieces separator rest := by
  induction text with
  | nil =>
      rw [List.nil_append, pieces_cons_self]
      rfl
  | cons c text ih =>
      rw [List.cons_append]
      by_cases hc : c = separator
      · rw [hc, pieces_cons_self, pieces_cons_self, ih, List.cons_append]
      · rcases List.exists_cons_of_ne_nil (pieces_ne_nil separator text) with
          ⟨piece, others, htext⟩
        rw [htext, List.cons_append] at ih
        rw [pieces_cons_of_ne hc ih, pieces_cons_of_ne hc htext, List.cons_append]

/-! ## Lines -/

/-- Behind a text that ends a line, the pieces are those of the new text. -/
theorem pieces_append {text : List Char} (h : EndsLine text) (rest : List Char) :
    pieces '\n' (text ++ rest) = lines text ++ pieces '\n' rest := by
  rw [lines, if_pos h]
  rcases h with rfl | h
  · rfl
  · rcases List.getLast?_eq_some_iff.1 h with ⟨front, rfl⟩
    have hlast : pieces '\n' (front ++ ['\n']) = pieces '\n' front ++ [[]] :=
      pieces_append_cons '\n' front []
    rw [List.append_assoc, List.singleton_append, pieces_append_cons, hlast,
      List.dropLast_concat]

theorem endsLine_append_iff {text : List Char} (h : EndsLine text) (rest : List Char) :
    EndsLine (text ++ rest) ↔ EndsLine rest := by
  cases rest with
  | nil =>
      rw [List.append_nil]
      exact iff_of_true h (.inl rfl)
  | cons c rest =>
      have hlast : (text ++ c :: rest).getLast? = (c :: rest).getLast? := by
        rw [List.getLast?_append, List.getLast?_eq_some_getLast (List.cons_ne_nil c rest),
          Option.some_or]
      unfold EndsLine
      rw [hlast, or_iff_right (List.append_ne_nil_of_right_ne_nil _ (List.cons_ne_nil c rest)),
        or_iff_right (List.cons_ne_nil c rest)]

/-- Lines behind a text that ends a line are further lines. -/
theorem lines_append {text : List Char} (h : EndsLine text) (rest : List Char) :
    lines (text ++ rest) = lines text ++ lines rest := by
  by_cases hrest : EndsLine rest
  · rw [lines, if_pos ((endsLine_append_iff h rest).2 hrest), pieces_append h,
      List.dropLast_append_of_ne_nil (pieces_ne_nil _ _), lines.eq_def rest, if_pos hrest]
  · rw [lines, if_neg (fun hend => hrest ((endsLine_append_iff h rest).1 hend)), pieces_append h,
      lines.eq_def rest, if_neg hrest]

theorem pieces_of_not_mem {separator : Char} {text : List Char} (h : separator ∉ text) :
    pieces separator text = [text] := by
  induction text with
  | nil => rfl
  | cons c text ih =>
      rw [List.mem_cons, not_or] at h
      exact pieces_cons_of_ne (Ne.symm h.1) (ih h.2)

theorem endsLine_concat (line : List Char) : EndsLine (line ++ ['\n']) :=
  .inr List.getLast?_concat

/-- Lines written one after the other, each with a line break behind it, are the
    lines of the text. -/
theorem lines_flatMap {written : List (List Char)} (h : ∀ line ∈ written, '\n' ∉ line) :
    lines (written.flatMap fun line => line ++ ['\n']) = written := by
  induction written with
  | nil => rfl
  | cons line written ih =>
      have hline : pieces '\n' (line ++ ['\n']) = pieces '\n' line ++ [[]] :=
        pieces_append_cons '\n' line []
      have hfirst : lines (line ++ ['\n']) = [line] := by
        rw [lines, if_pos (endsLine_concat line), hline, List.dropLast_concat,
          pieces_of_not_mem (h line List.mem_cons_self)]
      rw [List.flatMap_cons, lines_append (endsLine_concat line), hfirst,
        ih fun l hl => h l (List.mem_cons_of_mem _ hl)]
      rfl

example : lines ['a', '\n', 'b', 'c', '\n'] = [['a'], ['b', 'c']] := by decide

end Text

end PolyCalc
