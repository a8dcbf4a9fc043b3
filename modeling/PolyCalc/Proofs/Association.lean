import Mathlib.Data.List.Nodup

/-!
# Association Lists

A list of rows with a key and a value each stands for the map that its first rows of
each key make up. Setting a key replaces the values of its rows, or puts a new row
behind all others where there is none, and so keeps the order of the keys. Keys that
stood once still do.

The files of a folder and the entries of a section are kept like this.

## Theorems

* `lookup_set`: Setting a key changes the value of that key only.
* `nodup_keys_set`: No key comes to stand twice.
-/

namespace PolyCalc

namespace Association

variable {α β : Type} [DecidableEq α]

theorem lookup_cons_of_ne {p q : α} (h : q ≠ p) (value : β) (rows : List (α × β)) :
    ((p, value) :: rows).lookup q = rows.lookup q := by
  have hne : (q == p) = false := beq_eq_false_iff_ne.2 h
  rw [List.lookup_cons, hne]

/-- Replacing the values of a key leaves those of all others. -/
theorem lookup_replace (rows : List (α × β)) (key q : α) (value : β) :
    (rows.map fun row => if row.1 = key then (key, value) else row).lookup q
      = if q = key then (rows.lookup q).map (fun _ => value) else rows.lookup q := by
  induction rows with
  | nil => simp
  | cons row rows ih =>
      rcases row with ⟨p, old⟩
      rw [List.map_cons]
      by_cases hp : p = key
      · subst hp
        rw [if_pos rfl]
        by_cases hq : q = p
        · subst hq
          rw [List.lookup_cons_self, List.lookup_cons_self, if_pos rfl, Option.map_some]
        · rw [lookup_cons_of_ne hq, lookup_cons_of_ne hq, ih]
      · rw [if_neg hp]
        by_cases hq : q = p
        · subst hq
          rw [List.lookup_cons_self, List.lookup_cons_self, if_neg hp]
        · rw [lookup_cons_of_ne hq, lookup_cons_of_ne hq, ih]

/-- Setting a key changes the value of that key only. -/
theorem lookup_set (rows : List (α × β)) (key q : α) (value : β) :
    (if (rows.lookup key).isSome then
        rows.map fun row => if row.1 = key then (key, value) else row
      else rows ++ [(key, value)]).lookup q
      = if q = key then some value else rows.lookup q := by
  by_cases hsome : (rows.lookup key).isSome
  · rw [if_pos hsome, lookup_replace]
    by_cases hq : q = key
    · subst hq
      rcases Option.isSome_iff_exists.1 hsome with ⟨old, hold⟩
      rw [if_pos rfl, if_pos rfl, hold, Option.map_some]
    · rw [if_neg hq, if_neg hq]
  · rw [if_neg hsome, List.lookup_append]
    by_cases hq : q = key
    · subst hq
      rw [if_pos rfl, Option.not_isSome_iff_eq_none.1 hsome, Option.none_or,
        List.lookup_cons_self]
    · rw [if_neg hq, lookup_cons_of_ne hq, List.lookup_nil, Option.or_none]

/-- A key has a value if it has a row. -/
theorem isSome_lookup_iff (rows : List (α × β)) (key : α) :
    (rows.lookup key).isSome ↔ key ∈ rows.map Prod.fst := by
  induction rows with
  | nil => simp only [List.lookup_nil, Option.isSome_none, Bool.false_eq_true, List.map_nil,
      List.not_mem_nil]
  | cons row rows ih =>
      rcases row with ⟨p, value⟩
      rw [List.map_cons, List.mem_cons]
      by_cases hkey : key = p
      · subst hkey
        simp only [List.lookup_cons_self, Option.isSome_some, true_or]
      · rw [lookup_cons_of_ne hkey, ih, or_iff_right hkey]

/-- The value of a key is that of its row, where keys stand once. -/
theorem lookup_eq_some_iff {rows : List (α × β)} (h : (rows.map Prod.fst).Nodup) {key : α}
    {value : β} : rows.lookup key = some value ↔ (key, value) ∈ rows := by
  induction rows with
  | nil => simp only [List.lookup_nil, reduceCtorEq, List.not_mem_nil]
  | cons row rows ih =>
      rcases row with ⟨p, old⟩
      rw [List.map_cons, List.nodup_cons] at h
      rw [List.mem_cons, Prod.mk.injEq]
      by_cases hkey : key = p
      · subst hkey
        have hnot : (key, value) ∉ rows := fun hmem =>
          h.1 (List.mem_map.2 ⟨(key, value), hmem, rfl⟩)
        rw [List.lookup_cons_self, Option.some.injEq, or_iff_left hnot, and_iff_right rfl,
          eq_comm]
      · rw [lookup_cons_of_ne hkey, ih h.2, or_iff_right fun heq => hkey heq.1]

/-- Setting a key lets no key stand twice. -/
theorem nodup_keys_set {rows : List (α × β)} (h : (rows.map Prod.fst).Nodup) (key : α)
    (value : β) :
    ((if (rows.lookup key).isSome then
        rows.map fun row => if row.1 = key then (key, value) else row
      else rows ++ [(key, value)]).map Prod.fst).Nodup := by
  by_cases hsome : (rows.lookup key).isSome
  · have hkeys : (rows.map fun row => if row.1 = key then (key, value) else row).map Prod.fst
        = rows.map Prod.fst := by
      rw [List.map_map]
      refine List.map_congr_left fun row _ => ?_
      by_cases hrow : row.1 = key
      · rw [Function.comp_apply, if_pos hrow, hrow]
      · rw [Function.comp_apply, if_neg hrow]
    rw [if_pos hsome, hkeys]
    exact h
  · rw [if_neg hsome, List.map_append, List.nodup_append]
    rw [isSome_lookup_iff] at hsome
    refine ⟨h, List.nodup_singleton _, ?_⟩
    intro a ha b hb heq
    rw [List.map_singleton, List.mem_singleton] at hb
    rw [heq, hb] at ha
    exact hsome ha

end Association

end PolyCalc
