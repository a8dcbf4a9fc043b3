import PolyCalc.Proofs.Expression.Grammar

/-!
# Reading Stops as Late as the Grammar Allows

A text that is no text of the grammar may start with one. The readers stop
somewhere in it, and this module proves that they stop behind the longest
grammatical text that it starts with. The rest may be anything, so nothing can be
assumed about what follows a term any more, and the `_append` lemmas of the
grammar do not apply to the last one.

They are replaced by a weaker property that holds in front of any rest: where a
well-formed piece stands, the reader takes at least that piece. It may take more,
digits that happen to follow, an `x` behind a number, and the last term of a
reading is then prolonged. Every other term of a reading has the sign of the next
one behind it and is read as it is. So a reading of a part of the text is followed
up to its last term, and what is left over is no longer than what the reading
leaves.

## Main definitions

* `InLanguage`: The texts of the grammar.
* `IsLeftOver`: What stands behind the longest text of the grammar.

## Theorems

* `exists_readUnsigned_append`, `exists_readPower_append`,
  `exists_readTerm_append`: A reader takes at least the piece before it.
* `exists_readTerm_spelling`: So it takes the first term of a reading.
* `length_readChain_spelling_le`, `exists_readTerms_of_isReading`: A chain takes at
  least the reading before it.
* `isLeftOver_of_readTerms`, `isLeftOver_of_readTerms_eq_none`: What is left over.
-/

namespace PolyCalc

namespace Expression

/-- The texts of the grammar. -/
def InLanguage (s : List Char) : Prop := ∃ terms, IsReading terms s

/-- What is left of a text behind the longest text of the grammar that it starts
    with, or all of it if it starts with none. -/
def IsLeftOver (s left : List Char) : Prop :=
  (∃ longest, s = longest ++ left ∧ InLanguage longest
    ∧ ∀ other, other <+: s → InLanguage other → other.length ≤ longest.length)
  ∨ (left = s ∧ ∀ other, other <+: s → ¬InLanguage other)

/-! ## Pieces of a term -/

theorem readDigits_append_of_forall {digits : List Char} (rest : List Char)
    (hd : ∀ c ∈ digits, c.isDigit = true) :
    readDigits (digits ++ rest) = (digits ++ (readDigits rest).1, (readDigits rest).2) := by
  rw [readDigits, List.takeWhile_append_of_pos hd, List.dropWhile_append_of_pos hd]
  rfl

theorem length_readDigits_le (s : List Char) : (readDigits s).2.length ≤ s.length := by
  have hlength := length_readDigits s
  omega

/-- Where a number stands, at least that number is taken. A number of digits alone
    may be prolonged by a point, and any number by digits. -/
theorem exists_readUnsigned_append {number : List Char} (rest : List Char)
    (h : IsUnsignedNumber number) :
    ∃ taken left, readUnsigned (number ++ rest) = some (taken, left)
      ∧ left.length ≤ rest.length := by
  have hrest := length_readDigits_le rest
  have hdot (tail : List Char) : NotAhead Char.isDigit ('.' :: tail) := notAhead_cons (by decide)
  rcases h with ⟨hne, hd⟩ | ⟨whole, fraction, ⟨hne, hd⟩, hf, rfl⟩ | ⟨fraction, ⟨hne, hd⟩, rfl⟩
  · have hread := readDigits_append_of_forall rest hd
    have hmore : number ++ (readDigits rest).1 ≠ [] := List.append_ne_nil_of_left_ne_nil hne _
    by_cases hpoint : NotAhead (· == '.') (readDigits rest).2
    · exact ⟨_, _, readUnsigned_of_whole hread hmore hpoint, hrest⟩
    · -- A point follows the digits, and it is taken with the digits behind it.
      cases htail : (readDigits rest).2 with
      | nil =>
          rw [htail] at hpoint
          exact absurd (fun c hc => by cases hc) hpoint
      | cons c after =>
          rw [htail] at hpoint hread hrest
          have hc : c = '.' := Decidable.byContradiction fun hc =>
            hpoint (notAhead_cons (beq_eq_false_iff_ne.2 hc))
          subst hc
          rw [List.length_cons] at hrest
          exact ⟨_, _, readUnsigned_of_point hread hmore rfl,
            Nat.le_trans (length_readDigits_le after) (Nat.le_of_lt hrest)⟩
  · have hfraction : ∀ c ∈ fraction, c.isDigit = true := by
      rcases hf with rfl | hf
      · exact List.forall_mem_nil _
      · exact hf.2
    rw [List.append_assoc, List.cons_append]
    exact ⟨_, _, readUnsigned_of_point (readDigits_append hd (hdot _)) hne
      (readDigits_append_of_forall rest hfraction), hrest⟩
  · exact ⟨_, _, readUnsigned_of_fraction (readDigits_of_notAhead (hdot _))
      (readDigits_append_of_forall rest hd) (List.append_ne_nil_of_left_ne_nil hne _), hrest⟩

/-- Where the `x` of a term stands, it is taken with its exponent. -/
theorem exists_readPower_append {exponent : Option (List Char)} (rest : List Char)
    (h : exponent = none ∨ ∃ s, exponent = some s ∧ IsDigits s) :
    ∃ taken left, readPower (powerSpelling exponent ++ rest) = some (taken, left)
      ∧ left.length ≤ rest.length := by
  rcases h with rfl | ⟨digits, rfl, hne, hd⟩
  · -- Behind a lone `x` there may be an exponent all the same.
    cases hread : readPower ('x' :: rest) with
    | none =>
        unfold readPower at hread
        split at hread
        · split at hread <;> cases hread
        · cases hread
        · rename_i hnot
          exact (hnot rest rfl).elim
    | some result =>
        have hlength := length_lt_of_readPower hread
        rw [List.length_cons] at hlength
        exact ⟨result.1, result.2, hread, by omega⟩
  · have hread := readDigits_append_of_forall rest hd
    have hrest := length_readDigits_le rest
    cases digits with
    | nil => exact absurd rfl hne
    | cons d digits =>
        refine ⟨some (d :: digits ++ (readDigits rest).1), _, ?_, hrest⟩
        simp only [powerSpelling, Option.map_some, Option.getD_some, List.cons_append,
          readPower] at hread ⊢
        rw [hread]

/-- Where a term stands, a term with its sign is taken that is at least as long. -/
theorem exists_readTerm_append {t : RawTerm} (rest : List Char) (h : t.WellFormed) :
    ∃ taken left, readTerm (t.chars ++ rest) = some (taken, left)
      ∧ taken.sign = t.sign ∧ left.length ≤ rest.length := by
  rcases t with ⟨sign, shape, coefficient, exponent⟩
  rcases h with ⟨hsign, hcoefficient, hexponent⟩
  simp only at hsign hcoefficient hexponent
  cases shape with
  | scaled =>
      rcases hcoefficient with ⟨number, rfl, hnumber⟩
      have hbody := notAhead_sign_of_isUnsignedNumber hnumber (powerSpelling exponent ++ rest)
      rcases exists_readPower_append rest hexponent with ⟨taken, left, hpower, hle⟩
      rw [chars_scaled, List.append_assoc, List.append_assoc]
      exact ⟨_, left, readTerm_of_scaled (readSign_append hsign hbody)
        (readUnsigned_append hnumber (notAhead_cons (by decide))) hpower, rfl, hle⟩
  | constant =>
      rcases hcoefficient with ⟨number, rfl, hnumber⟩
      have hbody := notAhead_sign_of_isUnsignedNumber hnumber rest
      rcases exists_readUnsigned_append rest hnumber with ⟨taken, tail, hread, hle⟩
      rw [chars_constant, List.append_assoc]
      -- The number is free-standing here, but the rest may make it a coefficient.
      cases hpower : readPower tail with
      | none =>
          exact ⟨_, tail, readTerm_of_constant (readSign_append hsign hbody) hread hpower, rfl, hle⟩
      | some power =>
          have hlt := length_lt_of_readPower hpower
          exact ⟨_, power.2, readTerm_of_scaled (readSign_append hsign hbody) hread hpower, rfl,
            by omega⟩
  | bare =>
      subst hcoefficient
      rcases exists_readPower_append rest hexponent with ⟨taken, left, hpower, hle⟩
      rw [chars_bare, List.append_assoc]
      exact ⟨_, left, readTerm_of_bare (readSign_append hsign (notAhead_cons (by decide)))
        (readUnsigned_cons_x _) hpower, rfl, hle⟩

/-! ## Chains -/

/-- The first of several terms is read as it is if another one follows, and the last
    one is taken at least. -/
theorem exists_readTerm_spelling {t : RawTerm} {terms : List RawTerm} (rest : List Char)
    (ht : t.WellFormed) (h : ∀ u ∈ terms, u.WellFormed) (hsigned : ∀ u ∈ terms, u.sign ≠ none) :
    ∃ taken left, readTerm (spelling (t :: terms) ++ rest) = some (taken, left)
      ∧ taken.sign = t.sign
      ∧ (left = spelling terms ++ rest ∨ terms = [] ∧ left.length ≤ rest.length) := by
  rw [spelling_cons_append]
  cases terms with
  | nil =>
      rcases exists_readTerm_append rest ht with ⟨taken, left, hread, hsign, hle⟩
      exact ⟨taken, left, hread, hsign, .inr ⟨rfl, hle⟩⟩
  | cons u terms =>
      -- The next term starts with its sign, which ends this one.
      have hend : TermEnd (spelling (u :: terms) ++ rest) := by
        rw [spelling_cons_append]
        exact termEnd_chars_append _ (h u List.mem_cons_self) (hsigned u List.mem_cons_self)
      exact ⟨t, _, readTerm_append ht hend, rfl, .inl rfl⟩

theorem length_readChain_le (s : List Char) : (readChain s).2.length ≤ s.length := by
  have hspelled : s = spelling (readChain s).1 ++ (readChain s).2 := (readChain_sound rfl).1
  have hlength := congrArg List.length hspelled
  rw [List.length_append] at hlength
  omega

/-- Where signed terms stand, a chain leaves no more than stands behind them. -/
theorem length_readChain_spelling_le {terms : List RawTerm} (rest : List Char)
    (h : ∀ t ∈ terms, t.WellFormed) (hsigned : ∀ t ∈ terms, t.sign ≠ none) :
    (readChain (spelling terms ++ rest)).2.length ≤ rest.length := by
  induction terms with
  | nil => exact length_readChain_le rest
  | cons t terms ih =>
      have htail : ∀ u ∈ terms, u.WellFormed := fun u hu => h u (List.mem_cons_of_mem _ hu)
      have htailSigned : ∀ u ∈ terms, u.sign ≠ none :=
        fun u hu => hsigned u (List.mem_cons_of_mem _ hu)
      rcases exists_readTerm_spelling rest (h t List.mem_cons_self) htail htailSigned with
        ⟨taken, left, hread, hsign, hleft⟩
      have htaken : taken.sign ≠ none := hsign ▸ hsigned t List.mem_cons_self
      rw [readChain_of_signed hread htaken]
      rcases hleft with rfl | ⟨-, hle⟩
      · exact ih htail htailSigned
      · exact Nat.le_trans (length_readChain_le left) hle

/-- Where a reading stands, terms are read that leave no more than stands behind it. -/
theorem exists_readTerms_of_isReading {terms : List RawTerm} {s : List Char} (rest : List Char)
    (h : IsReading terms s) :
    ∃ taken left, readTerms (s ++ rest) = some (taken, left) ∧ left.length ≤ rest.length := by
  rcases h with ⟨hne, hwell, hsigned, rfl⟩
  rcases List.exists_cons_of_ne_nil hne with ⟨first, others, rfl⟩
  have hothers : ∀ t ∈ others, t.WellFormed := fun t ht => hwell t (List.mem_cons_of_mem _ ht)
  rcases exists_readTerm_spelling rest (hwell first List.mem_cons_self) hothers hsigned with
    ⟨taken, left, hread, -, hleft⟩
  refine ⟨taken :: (readChain left).1, (readChain left).2, ?_, ?_⟩
  · rw [readTerms, hread]
    rfl
  · rcases hleft with rfl | ⟨-, hle⟩
    · exact length_readChain_spelling_le rest hothers hsigned
    · exact Nat.le_trans (length_readChain_le left) hle

/-! ## What is left over -/

/-- The rest of a text is left over behind the longest text of the grammar. -/
theorem isLeftOver_of_readTerms {s left : List Char} {terms : List RawTerm}
    (h : readTerms s = some (terms, left)) : IsLeftOver s left := by
  rcases exists_isReading_of_readTerms h with ⟨longest, hs, hreading⟩
  refine .inl ⟨longest, hs, ⟨terms, hreading⟩, ?_⟩
  rintro other ⟨rest, hother⟩ ⟨reading, hreads⟩
  -- A longer one would leave less than what the readers leave at most.
  rcases exists_readTerms_of_isReading rest hreads with ⟨taken, last, hread, hle⟩
  rw [hother, h] at hread
  cases hread
  have hlength := congrArg List.length (hother.trans hs)
  rw [List.length_append, List.length_append] at hlength
  omega

/-- A text of which nothing can be read starts with no text of the grammar. -/
theorem isLeftOver_of_readTerms_eq_none {s : List Char} (h : readTerms s = none) :
    IsLeftOver s s := by
  refine .inr ⟨rfl, ?_⟩
  rintro other ⟨rest, hother⟩ ⟨reading, hreads⟩
  rcases exists_readTerms_of_isReading rest hreads with ⟨taken, last, hread, -⟩
  rw [hother, h] at hread
  cases hread

/-- There is one left-over of a text only. -/
theorem IsLeftOver.unique {s left left' : List Char} (h : IsLeftOver s left)
    (h' : IsLeftOver s left') : left = left' := by
  rcases h with ⟨longest, hs, hin, hmax⟩ | ⟨rfl, hnone⟩
  · rcases h' with ⟨longest', hs', hin', hmax'⟩ | ⟨rfl, hnone'⟩
    · -- Each of the two is as long as the other, and they start one text.
      have hle := hmax longest' ⟨left', hs'.symm⟩ hin'
      have hge := hmax' longest ⟨left, hs.symm⟩ hin
      exact (List.append_inj (hs.symm.trans hs') (by omega)).2
    · exact absurd hin (hnone' longest ⟨left, hs.symm⟩)
  · rcases h' with ⟨longest', hs', hin', -⟩ | ⟨hs', -⟩
    · exact absurd hin' (hnone longest' ⟨left', hs'.symm⟩)
    · exact hs'.symm

end Expression

end PolyCalc
