import Mathlib.Data.List.Forall2

/-!
# Computations That May Fail

A computation in `Except` that is made of others has a value exactly if each of
them has one, and its fault is the first one that comes up. The lemmas here take
such a computation apart, in sequence and along a list.

## Theorems

* `exists_of_bind_eq_ok`: Both parts of a sequence have values.
* `bind_eq_error_iff`: The fault is that of either part.
* `map_eq_ok_iff`, `map_eq_error_iff`: A function of a value that may be missing.
* `toOption_eq_some_iff`: A value with its fault forgotten.
* `mapM_eq_ok_iff`: The values along a list stand in order.
* `mapM_append_eq_ok_iff`: Two lists in sequence have their values in sequence.
* `mapM_cons_eq_ok_iff`: So do an element and a list.
* `exists_mapM_eq_ok`: They are there if each of them is.
* `exists_of_mem_of_mapM_eq_ok`: Each value along a list comes from an element.
* `mapM_eq_ok_map`, `eq_map_of_mapM_eq_ok`: The values of a function that may only fail.
* `mapM_eq_error`: The first fault along a list is reported.
-/

namespace PolyCalc

variable {α β ε : Type}

theorem exists_of_bind_eq_ok {x : Except ε α} {f : α → Except ε β} {b : β}
    (h : (x >>= f) = .ok b) : ∃ a, x = .ok a ∧ f a = .ok b := by
  cases x with
  | error fault => cases h
  | ok a => exact ⟨a, rfl, h⟩

theorem bind_eq_error_iff {x : Except ε α} {f : α → Except ε β} {fault : ε} :
    (x >>= f) = .error fault ↔ x = .error fault ∨ ∃ a, x = .ok a ∧ f a = .error fault := by
  cases x with
  | error other => simp [bind, Except.bind]
  | ok a => simp [bind, Except.bind]

theorem map_eq_ok_iff {x : Except ε α} {f : α → β} {b : β} :
    x.map f = .ok b ↔ ∃ a, x = .ok a ∧ f a = b := by
  cases x with
  | error fault => simp [Except.map]
  | ok a => simp [Except.map]

theorem map_eq_error_iff {x : Except ε α} {f : α → β} {fault : ε} :
    x.map f = .error fault ↔ x = .error fault := by
  cases x with
  | error fault => simp [Except.map]
  | ok a => simp [Except.map]

theorem toOption_eq_some_iff {x : Except ε α} {a : α} : x.toOption = some a ↔ x = .ok a := by
  cases x with
  | error fault => simp [Except.toOption]
  | ok b => simp [Except.toOption]

theorem mapM_eq_ok_iff {f : α → Except ε β} {l : List α} {m : List β} :
    l.mapM f = .ok m ↔ List.Forall₂ (fun a b => f a = .ok b) l m := by
  induction l generalizing m with
  | nil =>
      rw [List.mapM_nil, List.forall₂_nil_left_iff]
      exact ⟨fun h => (Except.ok.inj h).symm, fun h => congrArg Except.ok h.symm⟩
  | cons a l ih =>
      rw [List.mapM_cons, List.forall₂_cons_left_iff]
      cases ha : f a with
      | error fault =>
          refine ⟨(fun h => by cases h), ?_⟩
          rintro ⟨b, n, hb, -, -⟩
          cases hb
      | ok b =>
          cases hl : l.mapM f with
          | error fault =>
              refine ⟨(fun h => by cases h), ?_⟩
              rintro ⟨b', n, -, hn, -⟩
              rw [← ih, hl] at hn
              cases hn
          | ok n =>
              constructor
              · intro h
                cases h
                exact ⟨b, n, rfl, ih.1 hl, rfl⟩
              · rintro ⟨b', n', hb, hn, rfl⟩
                cases hb
                rw [← ih, hl] at hn
                cases hn
                rfl

/-- The values along two lists in sequence are those of each, in sequence. -/
theorem mapM_append_eq_ok_iff {f : α → Except ε β} {l l' : List α} {m : List β} :
    (l ++ l').mapM f = .ok m
      ↔ ∃ n n', l.mapM f = .ok n ∧ l'.mapM f = .ok n' ∧ m = n ++ n' := by
  rw [List.mapM_append]
  constructor
  · intro h
    rcases exists_of_bind_eq_ok h with ⟨n, hn, h⟩
    rcases exists_of_bind_eq_ok h with ⟨n', hn', h⟩
    exact ⟨n, n', hn, hn', (Except.ok.inj h).symm⟩
  · rintro ⟨n, n', hn, hn', rfl⟩
    rw [hn, hn']
    rfl

theorem mapM_cons_eq_ok_iff {f : α → Except ε β} {a : α} {l : List α} {m : List β} :
    (a :: l).mapM f = .ok m ↔ ∃ b n, f a = .ok b ∧ l.mapM f = .ok n ∧ m = b :: n := by
  simp only [mapM_eq_ok_iff, List.forall₂_cons_left_iff]

theorem exists_mapM_eq_ok {f : α → Except ε β} {l : List α}
    (h : ∀ a ∈ l, ∃ b, f a = .ok b) : ∃ m, l.mapM f = .ok m := by
  induction l with
  | nil => exact ⟨[], rfl⟩
  | cons a l ih =>
      rcases h a List.mem_cons_self with ⟨b, hb⟩
      rcases ih fun c hc => h c (List.mem_cons_of_mem _ hc) with ⟨m, hm⟩
      exact ⟨b :: m, mapM_eq_ok_iff.2 (.cons hb (mapM_eq_ok_iff.1 hm))⟩

theorem exists_of_mem_of_mapM_eq_ok {f : α → Except ε β} {l : List α} {m : List β}
    (h : l.mapM f = .ok m) {b : β} (hb : b ∈ m) : ∃ a ∈ l, f a = .ok b := by
  have hvalues := mapM_eq_ok_iff.1 h
  clear h
  induction hvalues with
  | nil => cases hb
  | @cons a c l m ha _ ih =>
      rcases List.mem_cons.1 hb with rfl | hb
      · exact ⟨a, List.mem_cons_self, ha⟩
      · obtain ⟨a', ha', hvalue⟩ := ih hb
        exact ⟨a', List.mem_cons_of_mem _ ha', hvalue⟩

/-- Values that are known one by one are known along the list. -/
theorem mapM_eq_ok_map {f : α → Except ε β} {g : α → β} {l : List α}
    (h : ∀ a ∈ l, f a = .ok (g a)) : l.mapM f = .ok (l.map g) := by
  rw [mapM_eq_ok_iff, List.forall₂_map_right_iff, List.forall₂_same]
  exact h

theorem eq_map_of_mapM_eq_ok {f : α → Except ε β} {g : α → β} {l : List α} {m : List β}
    (hf : ∀ a b, f a = .ok b → b = g a) (h : l.mapM f = .ok m) : m = l.map g := by
  have hequal : List.Forall₂ Eq (l.map g) m :=
    List.forall₂_map_left_iff.2 ((mapM_eq_ok_iff.1 h).imp fun a b hb => (hf a b hb).symm)
  exact (List.forall₂_eq_eq_eq ▸ hequal : l.map g = m).symm

/-- The first element without a value is the fault. -/
theorem mapM_eq_error {f : α → Except ε β} {before after : List α} {a : α}
    {fault : ε} (hbefore : ∀ b ∈ before, ∃ value, f b = .ok value) (ha : f a = .error fault) :
    (before ++ a :: after).mapM f = .error fault := by
  induction before with
  | nil =>
      rw [List.nil_append, List.mapM_cons, ha]
      rfl
  | cons b before ih =>
      rcases hbefore b List.mem_cons_self with ⟨value, hvalue⟩
      rw [List.cons_append, List.mapM_cons, hvalue,
        ih fun c hc => hbefore c (List.mem_cons_of_mem _ hc)]
      rfl

end PolyCalc
