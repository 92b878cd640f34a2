import Mathlib.Data.List.TakeWhile
import PhpOutline.Lexeme.Delimited
import PhpOutline.Lexeme.Word

/-!
# The word that follows

The search for the next word tries every way to read what stands before it as blanks and comments.
`Leads` says which ways there are: a line comment may be broken off anywhere, and a block comment
may run on past its closing mark to a later one. A word is found if and only if some way leads to
one, and the word that is found is one of those (`leads_of_ahead?`, `isSome_ahead?`).
-/

namespace PhpOutline.Lexeme

/-- The ways from a text to a word in it. -/
inductive Leads : List Char → List Char → Prop
  | word {c : Char} {s : List Char} (hc : isIdentStart c = true) :
      Leads (c :: s) (c :: s.takeWhile isIdentRest)
  | gap {c : Char} {s w : List Char} (hc : isGap c = true) (h : Leads s w) : Leads (c :: s) w
  | hash {skipped rest w : List Char} (hattr : (skipped ++ rest).head? ≠ some '[')
      (hline : ∀ c ∈ skipped, c ≠ '\r' ∧ c ≠ '\n') (h : Leads rest w) :
        Leads ('#' :: (skipped ++ rest)) w
  | slashes {skipped rest w : List Char} (hline : ∀ c ∈ skipped, c ≠ '\r' ∧ c ≠ '\n')
      (h : Leads rest w) :
      Leads ('/' :: '/' :: (skipped ++ rest)) w
  | block {skipped rest w : List Char} (h : Leads rest w) :
      Leads ('/' :: '*' :: (skipped ++ '*' :: '/' :: rest)) w

def ahead? (s : List Char) : Option (List Char) := (lookahead s).first?

variable {c : Char} {s r w : List Char} {i m : Nat}

/-! ## The table of suffixes -/

theorem lookahead_cons : lookahead (c :: s) = (c :: s, ahead? (c :: s)) :: lookahead s := rfl

theorem head?_lookahead (s : List Char) : (lookahead s).head? = some (s, ahead? s) := by
  cases s <;> rfl

theorem drop_lookahead (h : i ≤ s.length) : (lookahead s).drop i = lookahead (s.drop i) := by
  induction i generalizing s with
  | zero => rfl
  | succ i ih =>
    cases s with
    | nil => simp at h
    | cons c s =>
      rw [lookahead_cons, List.drop_succ_cons, List.drop_succ_cons]
      exact ih (by simpa using h)

theorem getElem?_lookahead (h : i ≤ s.length) :
    (lookahead s)[i]? = some (s.drop i, ahead? (s.drop i)) := by
  rw [← List.head?_drop, drop_lookahead h, head?_lookahead]

/-! ## Line comments -/

theorem last?_take (h : m ≤ s.length) :
    Lookahead.last? ((lookahead s).take (m + 1)) =
      (ahead? (s.drop m)).or (Lookahead.last? ((lookahead s).take m)) := by
  rw [List.take_add_one, getElem?_lookahead h]
  simp only [Lookahead.last?, Option.toList_some, List.reverse_append, List.reverse_singleton,
    List.singleton_append, List.findSome?_cons]
  cases ahead? (s.drop m) <;> rfl

theorem exists_of_last? (h : m ≤ s.length)
    (hw : Lookahead.last? ((lookahead s).take (m + 1)) = some w) :
    ∃ i ≤ m, ahead? (s.drop i) = some w := by
  induction m with
  | zero =>
    rw [last?_take h] at hw
    exact ⟨0, Nat.le_refl _, by simpa [Lookahead.last?] using hw⟩
  | succ m ih =>
    rw [last?_take h] at hw
    cases hm : ahead? (s.drop (m + 1)) with
    | some u =>
      rw [hm] at hw
      exact ⟨m + 1, Nat.le_refl _, by rw [hm]; exact hw⟩
    | none =>
      rw [hm] at hw
      obtain ⟨i, hi, hw⟩ := ih (by omega) hw
      exact ⟨i, by omega, hw⟩

theorem isSome_last? (h : m ≤ s.length) (hi : i ≤ m) (hw : (ahead? (s.drop i)).isSome = true) :
    (Lookahead.last? ((lookahead s).take (m + 1))).isSome = true := by
  induction m with
  | zero =>
    obtain rfl : i = 0 := by omega
    rw [last?_take h, Option.isSome_or, hw]
    rfl
  | succ m ih =>
    rw [last?_take h, Option.isSome_or]
    rcases Nat.eq_or_lt_of_le hi with rfl | hlt
    · rw [hw]
      rfl
    · rw [ih (by omega) (by omega), Bool.or_true]

theorem lineLength_le (s : List Char) : lineLength s ≤ s.length :=
  (List.takeWhile_prefix _).length_le

theorem not_break_of_lt (hi : i ≤ lineLength s) : ∀ c ∈ s.take i, c ≠ '\r' ∧ c ≠ '\n' := by
  intro c hc
  have heq : (s.takeWhile fun c => c ≠ '\r' ∧ c ≠ '\n') = s.take (lineLength s) :=
    List.prefix_iff_eq_take.mp (List.takeWhile_prefix _)
  have hmem := List.take_subset_take_left s hi hc
  rw [← heq] at hmem
  simpa using List.mem_takeWhile_imp hmem

theorem length_le_lineLength {skipped rest : List Char} (h : ∀ c ∈ skipped, c ≠ '\r' ∧ c ≠ '\n') :
    skipped.length ≤ lineLength (skipped ++ rest) := by
  rw [lineLength, List.takeWhile_append_of_pos (by simpa using h)]
  simp

/-! ## Block comments -/

theorem afterClosing?_cons : Lookahead.afterClosing? (lookahead (c :: s)) =
    if ['*', '/'].isPrefixOf (c :: s) then
      (ahead? (s.drop 1)).or (Lookahead.afterClosing? (lookahead s))
    else Lookahead.afterClosing? (lookahead s) := by
  rw [lookahead_cons, Lookahead.afterClosing?]
  by_cases h : ['*', '/'].isPrefixOf (c :: s) = true
  · cases s with
    | nil => simp at h
    | cons d s => rfl
  · rw [if_neg h, if_neg h]

theorem exists_of_afterClosing? (h : Lookahead.afterClosing? (lookahead s) = some w) :
    ∃ skipped rest, s = skipped ++ '*' :: '/' :: rest ∧ ahead? rest = some w := by
  induction s with
  | nil => cases h
  | cons c s ih =>
    rw [afterClosing?_cons] at h
    have further : Lookahead.afterClosing? (lookahead s) = some w →
        ∃ skipped rest, c :: s = skipped ++ '*' :: '/' :: rest ∧ ahead? rest = some w := by
      intro h
      obtain ⟨skipped, rest, rfl, hw⟩ := ih h
      exact ⟨c :: skipped, rest, rfl, hw⟩
    by_cases hmark : ['*', '/'].isPrefixOf (c :: s) = true
    · rw [if_pos hmark] at h
      obtain ⟨rest, hrest⟩ := List.isPrefixOf_iff_prefix.mp hmark
      simp only [List.cons_append, List.nil_append] at hrest
      cases hrest
      rw [List.drop_succ_cons, List.drop_zero] at h
      cases hw : ahead? rest with
      | some u => exact ⟨[], rest, rfl, by rw [hw] at h ⊢; exact h⟩
      | none =>
        rw [hw] at h
        exact further h
    · rw [if_neg hmark] at h
      exact further h

theorem isSome_afterClosing? {skipped rest : List Char} (hw : (ahead? rest).isSome = true) :
    (Lookahead.afterClosing? (lookahead (skipped ++ '*' :: '/' :: rest))).isSome = true := by
  induction skipped with
  | nil =>
    rw [List.nil_append, afterClosing?_cons, if_pos (by simp), Option.isSome_or,
      List.drop_succ_cons, List.drop_zero, hw]
    rfl
  | cons c skipped ih =>
    rw [List.cons_append, afterClosing?_cons]
    split
    · rw [Option.isSome_or, ih, Bool.or_true]
    · exact ih

theorem afterClosing?_of_find? (h : Text.find? ['*', '/'] s = some i)
    (hw : ahead? (s.drop (i + 2)) = some w) :
    Lookahead.afterClosing? (lookahead s) = some w := by
  induction s generalizing i with
  | nil => cases h
  | cons c s ih =>
    rw [Text.find?] at h
    rw [afterClosing?_cons]
    split at h
    · rename_i hmark
      cases h
      rw [if_pos hmark, show s.drop 1 = (c :: s).drop (0 + 2) from rfl, hw]
      rfl
    · rename_i hmark
      obtain ⟨j, hj, rfl⟩ := Option.map_eq_some_iff.mp h
      rw [if_neg hmark]
      exact ih hj (by simpa using hw)

/-! ## From the first character on -/

theorem ne_of_isIdentStart {d : Char} (hc : isIdentStart c = true) (hd : isIdentStart d = false) :
    c ≠ d := by
  rintro rfl
  rw [hc] at hd
  cases hd

theorem isGap_of_isIdentStart (hc : isIdentStart c = true) : isGap c = false := by
  rw [isGap, List.contains_eq_mem, decide_eq_false_iff_not]
  simp only [List.mem_cons, List.not_mem_nil, or_false, not_or]
  exact ⟨ne_of_isIdentStart hc rfl, ne_of_isIdentStart hc rfl, ne_of_isIdentStart hc rfl,
    ne_of_isIdentStart hc rfl⟩

theorem ahead?_gap (hc : isGap c = true) : ahead? (c :: s) = ahead? s := by
  show wordFrom? c s (lookahead s) = ahead? s
  unfold wordFrom?
  rw [if_pos hc]
  rfl

theorem ahead?_word (hc : isIdentStart c = true) :
    ahead? (c :: s) = some (c :: s.takeWhile isIdentRest) := by
  show wordFrom? c s (lookahead s) = _
  unfold wordFrom?
  rw [isGap_of_isIdentStart hc, if_neg Bool.false_ne_true, if_pos hc]

theorem ahead?_hash (hs : s.head? ≠ some '[') :
    ahead? ('#' :: s) = Lookahead.last? ((lookahead s).take (lineLength s + 1)) := by
  cases s with
  | nil => rfl
  | cons c s =>
    show wordFrom? '#' (c :: s) (lookahead (c :: s)) = _
    have hc : c ≠ '[' := by simpa using hs
    simp [wordFrom?, isGap, isIdentStart, hc]

theorem ahead?_slashes :
    ahead? ('/' :: '/' :: r) = Lookahead.last? ((lookahead r).take (lineLength r + 1)) :=
  rfl

theorem ahead?_block : ahead? ('/' :: '*' :: r) = Lookahead.afterClosing? (lookahead r) := rfl

theorem ahead?_cases (h : ahead? (c :: s) = some w) :
    isGap c = true ∨ isIdentStart c = true ∨ (c = '#' ∧ s.head? ≠ some '[') ∨
      (c = '/' ∧ ∃ r, s = '/' :: r) ∨ (c = '/' ∧ ∃ r, s = '*' :: r) := by
  change wordFrom? c s (lookahead s) = some w at h
  unfold wordFrom? at h
  split at h
  · exact .inl ‹_›
  split at h
  · exact .inr (.inl ‹_›)
  split at h
  · cases h
  · rename_i hattr
    refine .inr (.inr (.inl ⟨rfl, fun hs => ?_⟩))
    obtain ⟨r, rfl⟩ := List.head?_eq_some_iff.mp hs
    exact hattr r rfl
  · exact .inr (.inr (.inr (.inr ⟨rfl, _, rfl⟩)))
  · exact .inr (.inr (.inr (.inl ⟨rfl, _, rfl⟩)))
  · cases h

theorem leads_of_ahead? (h : ahead? s = some w) : Leads s w := by
  -- by induction on the length of the text: what is found is found in what is left behind a blank
  -- or a comment
  induction hn : s.length using Nat.strongRecOn generalizing s with
  | ind n ih =>
    have further : ∀ {r : List Char}, r.length < s.length → ahead? r = some w → Leads r w :=
      fun hlt hr =>
      ih _ (by omega) hr rfl
    cases s with
    | nil => cases h
    | cons c s =>
      rw [List.length_cons] at further
      rcases ahead?_cases h with hc | hc | ⟨rfl, hs⟩ | ⟨rfl, r, rfl⟩ | ⟨rfl, r, rfl⟩
      · rw [ahead?_gap hc] at h
        exact .gap hc (further (Nat.lt_succ_self _) h)
      · rw [ahead?_word hc] at h
        cases h
        exact .word hc
      · rw [ahead?_hash hs] at h
        obtain ⟨i, hi, hw⟩ := exists_of_last? (lineLength_le s) h
        have hrest := further (by rw [List.length_drop]; omega) hw
        have := Leads.hash (by rw [List.take_append_drop]; exact hs) (not_break_of_lt hi) hrest
        rwa [List.take_append_drop] at this
      · rw [ahead?_slashes] at h
        obtain ⟨i, hi, hw⟩ := exists_of_last? (lineLength_le r) h
        have hrest := further (by rw [List.length_drop, List.length_cons]; omega) hw
        have := Leads.slashes (not_break_of_lt hi) hrest
        rwa [List.take_append_drop] at this
      · rw [ahead?_block] at h
        obtain ⟨skipped, rest, rfl, hw⟩ := exists_of_afterClosing? h
        exact .block (further (by simp; omega) hw)

theorem isSome_ahead? (h : Leads s w) : (ahead? s).isSome = true := by
  induction h with
  | word hc => rw [ahead?_word hc]; rfl
  | gap hc _ ih => rw [ahead?_gap hc]; exact ih
  | @hash skipped rest w hattr hline _ ih =>
    rw [ahead?_hash hattr]
    exact isSome_last? (lineLength_le _) (length_le_lineLength hline)
      (by rw [List.drop_left]; exact ih)
  | @slashes skipped rest w hline _ ih =>
    rw [ahead?_slashes]
    exact isSome_last? (lineLength_le _) (length_le_lineLength hline)
      (by rw [List.drop_left]; exact ih)
  | block _ ih =>
    rw [ahead?_block]
    exact isSome_afterClosing? ih

theorem wordAhead?_eq (s : List Char) : wordAhead? s = ahead? s := by
  induction s with
  | nil => rfl
  | cons c s ih =>
    by_cases hgap : isGap c = true
    · rw [ahead?_gap hgap, ← ih, wordAhead?, wordAhead?, List.dropWhile_cons_of_pos hgap]
    · rw [wordAhead?, List.dropWhile_cons_of_neg hgap]
      by_cases hc : c = '#' ∨ c = '/'
      · exact if_pos hc
      · -- no comment starts here, so the table is not looked at
        show (if c = '#' ∨ c = '/' then _ else wordFrom? c s []) = wordFrom? c s (lookahead s)
        rw [if_neg hc]
        obtain ⟨hhash, hslash⟩ := not_or.mp hc
        unfold wordFrom?
        simp [hgap, hhash, hslash]

/-! ## Behind blanks and comments

If a word is found behind a blank or a comment as it is read, then the same word is found before. -/

theorem ahead?_blanks (s : List Char) : ahead? (s.drop (s.takeWhile isGap).length) = ahead? s := by
  induction s with
  | nil => rfl
  | cons c s ih =>
    by_cases hc : isGap c = true
    · rw [List.takeWhile_cons_of_pos hc, List.length_cons, List.drop_succ_cons, ih, ahead?_gap hc]
    · rw [List.takeWhile_cons_of_neg hc]
      rfl

theorem lineCommentLength_cases (s : List Char) :
    lineCommentLength s = lineLength s ∨ ∃ r, s.drop (lineCommentLength s) = '?' :: '>' :: r := by
  induction s with
  | nil => exact .inl rfl
  | cons c s ih =>
    rw [lineCommentLength]
    split
    · rename_i hend
      rcases hend with rfl | rfl | htag
      · exact .inl rfl
      · exact .inl rfl
      · obtain ⟨r, hr⟩ := List.isPrefixOf_iff_prefix.mp htag
        exact .inr ⟨r, hr.symm⟩
    · rename_i hend
      obtain ⟨hfeed, hend⟩ := not_or.mp hend
      obtain ⟨hreturn, _⟩ := not_or.mp hend
      rcases ih with ih | ⟨r, hr⟩
      · left
        rw [ih, lineLength, lineLength, List.takeWhile_cons_of_pos (by simp [hfeed, hreturn]),
          List.length_cons, Nat.add_comm]
      · exact .inr ⟨r, by rw [Nat.add_comm, List.drop_succ_cons, hr]⟩

theorem last?_of_lineComment (hw : ahead? (s.drop (lineCommentLength s)) = some w) :
    Lookahead.last? ((lookahead s).take (lineLength s + 1)) = some w := by
  rcases lineCommentLength_cases s with h | ⟨r, hr⟩
  · rw [last?_take (lineLength_le s), ← h, hw]
    rfl
  · rw [hr] at hw
    cases hw

theorem ahead?_lineComment (hc : (c = '#' ∧ s.head? ≠ some '[') ∨ (c = '/' ∧ s.head? = some '/'))
    (hw : ahead? ((c :: s).drop (lineCommentLength (c :: s))) = some w) :
    ahead? (c :: s) = some w := by
  rcases hc with ⟨rfl, hs⟩ | ⟨rfl, hs⟩
  · rw [lineCommentLength, if_neg (by simp), Nat.add_comm, List.drop_succ_cons] at hw
    rw [ahead?_hash hs]
    exact last?_of_lineComment hw
  · obtain ⟨r, rfl⟩ := List.head?_eq_some_iff.mp hs
    rw [lineCommentLength, if_neg (by simp), lineCommentLength, if_neg (by simp), ← Nat.add_assoc,
      Nat.add_comm, List.drop_succ_cons, List.drop_succ_cons] at hw
    rw [ahead?_slashes]
    exact last?_of_lineComment hw

theorem ahead?_blockComment (hs : s.head? = some '*') (hi : blockCommentLength? ('/' :: s) = some i)
    (hw : ahead? (('/' :: s).drop i) = some w) : ahead? ('/' :: s) = some w := by
  obtain ⟨r, rfl⟩ := List.head?_eq_some_iff.mp hs
  obtain ⟨j, hj, rfl⟩ := Option.map_eq_some_iff.mp hi
  rw [ahead?_block]
  exact afterClosing?_of_find? hj hw

end PhpOutline.Lexeme
