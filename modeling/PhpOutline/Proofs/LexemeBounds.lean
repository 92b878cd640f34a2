import PhpOutline.Proofs.Dispatch

/-!
# Every chunk lies in the text

A reader answers with lengths. Here every length is shown to be positive and to stay inside the
text that was read, reader by reader, and from that every chunk (`chunk_fits`): its lexemes are
not empty and together no longer than the text.
-/

namespace PhpOutline

/-! ## Searching -/

theorem Text.find?_add_length_le {pat s : List Char} {n : Nat} (h : Text.find? pat s = some n) :
    n + pat.length ≤ s.length := by
  induction s generalizing n with
  | nil =>
    unfold Text.find? at h
    split at h
    · rename_i hp
      cases h; simp [List.isEmpty_iff.mp hp]
    · cases h
  | cons c s ih =>
    unfold Text.find? at h
    split at h
    · rename_i hp
      cases h; simpa using length_le_of_isPrefixOf hp
    · obtain ⟨m, hm, rfl⟩ := Option.map_eq_some_iff.mp h
      have := ih hm
      simp only [List.length_cons]; omega

theorem Text.startsWithWord_iff {word s : List Char} :
    Text.startsWithWord word s = true ↔ ∃ w rest, s = w ++ rest ∧ w.map Char.toLower = word := by
  rw [Text.startsWithWord, List.isPrefixOf_iff_prefix]
  constructor
  · intro h
    have hlength := h.length_le
    refine ⟨s.take word.length, s.drop word.length, (List.take_append_drop _ _).symm,
      (h.eq_of_length ?_).symm⟩
    simp only [List.length_map, List.length_take] at hlength ⊢
    omega
  · rintro ⟨w, rest, rfl, rfl⟩
    exact ⟨[], by rw [List.append_nil, List.length_map, List.take_left]⟩

theorem Text.length_le_of_startsWithWord {w s : List Char} (h : Text.startsWithWord w s = true) :
    w.length ≤ s.length := by
  have := length_le_of_isPrefixOf h
  simp only [List.length_map, List.length_take] at this
  omega

namespace Lexeme

/-! ## Markup and comments -/

theorem tagBlankLength?_le {s : List Char} {n : Nat} (h : tagBlankLength? s = some n) :
    n ≤ s.length := by
  unfold tagBlankLength? at h
  split at h
  · cases h; simp
  · cases h; simp
  · split at h
    · cases h; simp
    · cases h

theorem openTag?_bounds {s : List Char} {k : Kind} {n : Nat} (h : openTag? s = some (k, n)) :
    0 < n ∧ n ≤ s.length := by
  unfold openTag? at h
  split at h
  · rename_i hp
    have := length_le_of_isPrefixOf hp
    cases h
    simpa using this
  · split at h
    · rename_i hw
      have hw := Text.length_le_of_startsWithWord hw
      obtain ⟨b, hb, he⟩ := Option.map_eq_some_iff.mp h
      have hb := tagBlankLength?_le hb
      cases he
      simp only [List.length_cons, List.length_nil, List.length_drop] at hw hb
      omega
    · cases h

theorem findOpenTag_none {s : List Char} {n : Nat} (h : findOpenTag s = (n, none)) :
    n = s.length := by
  induction s generalizing n with
  | nil => cases h; rfl
  | cons c s ih =>
    unfold findOpenTag at h
    cases ht : openTag? (c :: s) with
    | some tag => simp [ht] at h
    | none =>
      cases hf : findOpenTag s with
      | mk m t =>
        simp only [ht, hf, Prod.mk.injEq] at h
        obtain ⟨rfl, rfl⟩ := h
        simp [ih hf]

theorem findOpenTag_some {s : List Char} {n : Nat} {tag : Kind × Nat}
    (h : findOpenTag s = (n, some tag)) :
    0 < tag.2 ∧ n + tag.2 ≤ s.length := by
  induction s generalizing n with
  | nil => cases h
  | cons c s ih =>
    unfold findOpenTag at h
    cases ht : openTag? (c :: s) with
    | some t =>
      simp only [ht, Prod.mk.injEq, Option.some.injEq] at h
      obtain ⟨rfl, rfl⟩ := h
      simpa using openTag?_bounds ht
    | none =>
      cases hf : findOpenTag s with
      | mk m t =>
        simp only [ht, hf, Prod.mk.injEq] at h
        obtain ⟨rfl, rfl⟩ := h
        have := ih hf
        simp only [List.length_cons]; omega

theorem closeTagLength_bounds {s : List Char} (h : ['?', '>'].isPrefixOf s = true) :
    0 < closeTagLength s ∧ closeTagLength s ≤ s.length := by
  have h2 := length_le_of_isPrefixOf h
  have hd : (s.drop 2).length = s.length - 2 := List.length_drop
  simp only [List.length_cons, List.length_nil] at h2
  unfold closeTagLength
  split <;> (rename_i e; try rw [e] at hd; simp only [List.length_cons] at hd) <;> omega

theorem lineCommentLength_le (s : List Char) : lineCommentLength s ≤ s.length := by
  induction s with
  | nil => simp [lineCommentLength]
  | cons c s ih =>
    unfold lineCommentLength
    split
    · omega
    · simp only [List.length_cons]; omega

theorem lineCommentLength_pos {c : Char} {s : List Char} (h : c = '#' ∨ c = '/') :
    0 < lineCommentLength (c :: s) := by
  have hmark : ¬ (c = '\n' ∨ c = '\r' ∨ ['?', '>'].isPrefixOf (c :: s) = true) := by
    rcases h with rfl | rfl <;> simp
  rw [lineCommentLength, if_neg hmark]
  omega

theorem blockCommentLength?_bounds {s : List Char} {n : Nat} (hs : ['/', '*'].isPrefixOf s = true)
    (h : blockCommentLength? s = some n) : 0 < n ∧ n ≤ s.length := by
  obtain ⟨m, hm, rfl⟩ := Option.map_eq_some_iff.mp h
  have h2 := length_le_of_isPrefixOf hs
  have hm := Text.find?_add_length_le hm
  simp only [List.length_cons, List.length_nil, List.length_drop] at h2 hm
  omega

theorem closingLength?_bounds {q : Char} {s : List Char} {n : Nat}
    (h : closingLength? q s = some n) :
    0 < n ∧ n ≤ s.length := by
  fun_induction closingLength? q s generalizing n with
  | case1 => cases h
  | case2 => cases h
  | case3 _ s ih =>
    obtain ⟨m, hm, rfl⟩ := Option.map_eq_some_iff.mp h
    have := ih hm
    simp only [List.length_cons]; omega
  | case4 => cases h; simp
  | case5 c s _ _ _ ih =>
    obtain ⟨m, hm, rfl⟩ := Option.map_eq_some_iff.mp h
    have := ih hm
    simp only [List.length_cons]; omega

/-! ## Heredocs -/

theorem label_length_le (s : List Char) : (label s).length ≤ s.length := by
  unfold label
  split
  · simp
  · rename_i c s
    have := (List.takeWhile_sublist (l := s) isLabelRest).length_le
    split
    · simpa using this
    · simp

theorem lineBreakLength_le (s : List Char) : lineBreakLength s ≤ s.length := by
  unfold lineBreakLength
  split <;> simp

theorem labelPart?_bounds {s l : List Char} {n : Nat} (h : labelPart? s = some (l, n)) :
    l ≠ [] ∧ n ≤ s.length := by
  unfold labelPart? at h
  split at h
  · cases h
  · rename_i q s
    split at h
    · split at h
      · cases h
      · rename_i hl
        split at h
        · rename_i hq
          cases h
          have : (label s).length < s.length := by
            rcases Nat.lt_or_ge (label s).length s.length with h' | h'
            · exact h'
            · simp [List.drop_eq_nil_of_le h'] at hq
          exact ⟨hl, by simp only [List.length_cons]; omega⟩
        · cases h
    · split at h
      · cases h
      · rename_i hl
        cases h
        exact ⟨hl, label_length_le _⟩

theorem heredocHeader?_bounds {s : List Char} {hd : HeredocHeader}
    (h : heredocHeader? s = some hd) :
    hd.label ≠ [] ∧ 0 < hd.length ∧ hd.length ≤ s.length := by
  unfold heredocHeader? at h
  split at h
  · dsimp only at h
    split at h
    · cases h
    · rename_i l n hl
      split at h
      · cases h
      · rename_i b hb
        have hlab := labelPart?_bounds hl
        have hbr := lineBreakLength_le (s.drop (3 + ((s.drop 3).takeWhile isBlank).length + n))
        cases h
        refine ⟨hlab.1, by simp only; omega, ?_⟩
        rw [hb] at hbr
        simp only [List.length_drop] at hbr ⊢
        omega
  · cases h

theorem closesHeredoc_bound {l s : List Char} (h : closesHeredoc l s = true) :
    (s.takeWhile isBlank).length + l.length ≤ s.length := by
  unfold closesHeredoc at h
  rw [Bool.and_eq_true] at h
  have hp := length_le_of_isPrefixOf h.1
  have hs := congrArg List.length (List.takeWhile_append_dropWhile (p := isBlank) (l := s))
  rw [List.length_append] at hs
  omega

theorem heredocBody?_bounds {l s : List Char} {body close : Nat} (hl : l ≠ [])
    (h : heredocBody? l s = some (body, close)) : 0 < close ∧ body + close ≤ s.length := by
  have hpos : 0 < l.length := List.length_pos_iff.mpr hl
  fun_induction heredocBody? l s generalizing body with
  | case1 s hc =>
    have := closesHeredoc_bound hc
    cases h
    omega
  | case2 s _ line hlt =>
    rename_i ih
    obtain ⟨⟨b, c⟩, hb, he⟩ := Option.map_eq_some_iff.mp h
    cases he
    have := ih hb
    simp only [List.length_drop] at this
    omega
  | case3 => cases h

/-! ## Numbers, names and operators -/

theorem groupsLength_le (p : Char → Bool) (s : List Char) : groupsLength p s ≤ s.length := by
  fun_induction groupsLength p s with
  | case1 => omega
  | case2 s n hn ih =>
    have := (List.takeWhile_sublist (l := s) p).length_le
    simp only [List.length_drop, List.length_cons] at ih ⊢
    omega
  | case3 => omega

theorem digitsLength_le (p : Char → Bool) (s : List Char) : digitsLength p s ≤ s.length := by
  unfold digitsLength
  split
  · omega
  · rename_i n hn
    have hg := groupsLength_le p (s.drop (n + 1))
    have := (List.takeWhile_sublist (l := s) p).length_le
    simp only [List.length_drop] at hg
    omega

theorem digitsLength_pos {p : Char → Bool} {c : Char} (s : List Char) (hc : p c = true) :
    0 < digitsLength p (c :: s) := by
  unfold digitsLength
  rw [List.takeWhile_cons_of_pos hc, List.length_cons]
  dsimp only
  omega

theorem markedLength_le (p : Char → Bool) (mark : Char) (s : List Char) :
    markedLength p mark s ≤ s.length := by
  unfold markedLength
  split
  · rename_i m s
    have := digitsLength_le p s
    split
    · split
      · omega
      · simp only [List.length_cons]; omega
    · omega
  · omega

theorem exponentLength_le (s : List Char) : exponentLength s ≤ s.length := by
  unfold exponentLength
  split
  · rename_i e s
    split
    · dsimp only
      split
      · omega
      · rename_i n hn
        have := Nat.le_trans (Nat.le_of_eq hn.symm) (digitsLength_le _ _)
        simp only [List.length_drop, List.length_cons] at this ⊢
        omega
    · omega
  · omega

theorem fractionLength_le (whole : Nat) (s : List Char) : fractionLength whole s ≤ s.length := by
  unfold fractionLength
  split
  · rename_i s
    have := digitsLength_le Char.isDigit s
    simp only [List.length_cons]
    split
    · split <;> omega
    · omega
  · omega

theorem decimalLength_le (s : List Char) : decimalLength s ≤ s.length := by
  unfold decimalLength
  dsimp only
  split
  · omega
  · rename_i n hn
    have hd := digitsLength_le Char.isDigit s
    have hf := fractionLength_le (digitsLength Char.isDigit s)
      (s.drop (digitsLength Char.isDigit s))
    have he := exponentLength_le (s.drop (n + 1))
    simp only [List.length_drop] at hf he
    omega

theorem decimalLength_pos {s : List Char}
    (h : 0 < digitsLength Char.isDigit s + fractionLength (digitsLength Char.isDigit s)
      (s.drop (digitsLength Char.isDigit s))) : 0 < decimalLength s := by
  unfold decimalLength
  dsimp only
  split
  · omega
  · omega

theorem numberLength_le (s : List Char) : numberLength s ≤ s.length := by
  have hx := markedLength_le isHexDigit 'x' s
  have hb := markedLength_le isBinaryDigit 'b' s
  have ho := markedLength_le isOctalDigit 'o' s
  unfold numberLength
  split
  · omega
  · split
    · omega
    · split
      · omega
      · exact decimalLength_le s

theorem numberLength_pos {s : List Char} (h : 0 < decimalLength s) : 0 < numberLength s := by
  unfold numberLength
  split
  · omega
  · split
    · omega
    · split
      · omega
      · exact h

theorem identLength_le (s : List Char) : identLength s ≤ s.length := by
  unfold identLength
  split
  · simp
  · rename_i c s
    have := (List.takeWhile_sublist (l := s) isIdentRest).length_le
    simp only [List.length_cons]
    split <;> omega

theorem segmentsLength_le (s : List Char) : segmentsLength s ≤ s.length := by
  fun_induction segmentsLength s with
  | case1 => omega
  | case2 s n hn ih =>
    have := identLength_le s
    simp only [List.length_drop, List.length_cons] at ih ⊢
    omega
  | case3 => omega

theorem nameLength_le (s : List Char) : nameLength s ≤ s.length := by
  unfold nameLength
  dsimp only
  split
  · omega
  · rename_i n hn
    have hi := Nat.le_trans (Nat.le_of_eq hn.symm) (identLength_le _)
    have hs := segmentsLength_le (s.drop ((if ['\\'].isPrefixOf s = true then 1 else 0) + (n + 1)))
    simp only [List.length_drop] at hi hs
    omega

theorem variableLength_le (s : List Char) : variableLength s ≤ s.length := by
  unfold variableLength
  split
  · rename_i s
    have := identLength_le s
    simp only [List.length_cons]
    split <;> omega
  · omega

theorem operators_length_pos : ∀ op ∈ operators, 0 < op.length := by
  decide

theorem operator?_bounds {s : List Char} {k : Kind} {n : Nat} (h : operator? s = some (k, n)) :
    0 < n ∧ n ≤ s.length := by
  unfold operator? at h
  split at h
  · rename_i op hop
    have hp : op.toList.isPrefixOf s = true := by simpa using List.find?_some hop
    have hle := length_le_of_isPrefixOf hp
    have hpos := operators_length_pos op (List.mem_of_find?_eq_some hop)
    cases h
    rw [String.length_toList] at hle
    exact ⟨hpos, hle⟩
  · split at h
    · cases h
    · obtain ⟨_, _, he⟩ := Option.map_eq_some_iff.mp h
      cases he
      simp

end Lexeme

/-! ## Chunks -/

namespace Lexer

open Lexeme

/-- The lexemes of a chunk are not empty and lie, one after another, in the text. -/
structure Chunk.Fits (k : Chunk) (s : List Char) : Prop where
  pos : ∀ l ∈ k.lexemes, 0 < l.2
  size_pos : 0 < k.size
  size_le : k.size ≤ s.length

theorem Chunk.fits_one {kind : Kind} {n : Nat} {s : List Char} {mode : Mode}
    (h : 0 < n ∧ n ≤ s.length) :
    Chunk.Fits ⟨[(kind, n)], mode⟩ s where
  pos := by simpa using h.1
  size_pos := by simpa [Chunk.size] using h.1
  size_le := by simpa [Chunk.size] using h.2

theorem Chunk.Fits.cons {kind : Kind} {n : Nat} {ls : List (Kind × Nat)} {mode : Mode}
    {s : List Char} (h : Chunk.Fits ⟨ls, mode⟩ (s.drop n)) (hn : 0 < n) :
    Chunk.Fits ⟨(kind, n) :: ls, mode⟩ s := by
  obtain ⟨hpos, hsize, hle⟩ := h
  have hs : Chunk.size ⟨(kind, n) :: ls, mode⟩ = n + Chunk.size ⟨ls, mode⟩ := rfl
  rw [List.length_drop] at hle
  refine ⟨?_, by omega, by omega⟩
  intro l hl
  rcases List.mem_cons.mp hl with rfl | hl
  · exact hn
  · exact hpos l hl

theorem htmlChunk_fits (c : Char) (s : List Char) : (htmlChunk (c :: s)).Fits (c :: s) := by
  unfold htmlChunk
  split
  · rename_i n h
    have := findOpenTag_none h
    exact Chunk.fits_one (by simp [this])
  · rename_i tag h
    have := findOpenTag_some h
    exact Chunk.fits_one (by omega)
  · rename_i n tag hn h
    have := findOpenTag_some h
    refine Chunk.Fits.cons (Chunk.fits_one ?_) (Nat.pos_of_ne_zero fun e => hn e)
    rw [List.length_drop]; omega

theorem heredoc_fits {line : Nat} {hd : HeredocHeader} {s : List Char} {k : Chunk}
    (hh : heredocHeader? s = some hd) (h : heredoc line hd s = .ok k) : k.Fits s := by
  obtain ⟨hl, hpos, hle⟩ := heredocHeader?_bounds hh
  unfold heredoc at h
  split at h
  · cases h
  · rename_i close hb
    have := heredocBody?_bounds hl hb
    cases h
    exact (Chunk.fits_one (by omega)).cons hpos
  · rename_i body close hn hb
    have := heredocBody?_bounds hl hb
    cases h
    refine Chunk.Fits.cons (Chunk.Fits.cons (Chunk.fits_one ?_) (Nat.pos_of_ne_zero fun e => hn e))
      hpos
    rw [List.length_drop]; omega

theorem numberLength_pos_of_startsNumber {c : Char} {s : List Char}
    (h : startsNumber c (c :: s) = true) :
    0 < numberLength (c :: s) := by
  apply numberLength_pos
  apply decimalLength_pos
  unfold startsNumber at h
  simp only [Bool.or_eq_true, Bool.and_eq_true, beq_iff_eq, List.drop_one, List.tail_cons] at h
  rcases h with hd | ⟨rfl, hd⟩
  · have := digitsLength_pos s hd
    omega
  · -- a point before a digit: the whole part is empty and the fraction takes both
    cases s with
    | nil => simp at hd
    | cons d s =>
      have hp := digitsLength_pos s (p := Char.isDigit) (c := d) (by simpa using hd)
      have h0 : digitsLength Char.isDigit ('.' :: d :: s) = 0 := by
        simp [digitsLength, show Char.isDigit '.' = false by decide]
      rw [h0, List.drop_zero]
      simp only [fractionLength]
      split <;> omega

theorem dollar_fits (c : Char) (s : List Char) : (dollar (c :: s)).Fits (c :: s) := by
  have := variableLength_le (c :: s)
  unfold dollar
  split
  · exact Chunk.fits_one (by simp)
  · rename_i n hn
    exact Chunk.fits_one ⟨Nat.pos_of_ne_zero fun e => hn e, this⟩

theorem name_fits (ctx : Context) (c : Char) (s : List Char) :
    (name ctx (c :: s)).Fits (c :: s) := by
  have := nameLength_le (c :: s)
  unfold name
  split
  · exact Chunk.fits_one (by simp)
  · rename_i n hn
    exact Chunk.fits_one ⟨Nat.pos_of_ne_zero fun e => hn e, this⟩

theorem phpChunk_fits {ctx : Context} {line : Nat} {c : Char} {s : List Char} {k : Chunk}
    (h : phpChunk ctx line c (c :: s) = .ok k) : k.Fits (c :: s) := by
  have hselects := phpChunk_selects ctx line c s
  rw [h] at hselects
  cases hselects with
  | blank hc =>
    have := (List.takeWhile_sublist (l := c :: s) isBlankChar).length_le
    exact Chunk.fits_one ⟨by simp [List.takeWhile_cons_of_pos hc], this⟩
  | closeTag => exact Chunk.fits_one (closeTagLength_bounds rfl)
  | attributeOpen => exact Chunk.fits_one (by simp)
  | lineComment hc =>
    refine Chunk.fits_one ⟨lineCommentLength_pos ?_, lineCommentLength_le _⟩
    rcases hc with ⟨hc, _⟩ | ⟨hc, _⟩
    · exact .inl hc
    · exact .inr hc
  | blockComment h =>
    obtain ⟨n, hn, rfl⟩ := eq_of_blockComment h
    exact Chunk.fits_one (blockCommentLength?_bounds rfl hn)
  | quotation _ h =>
    obtain ⟨n, hn, rfl⟩ := eq_of_quotation h
    have := closingLength?_bounds hn
    exact Chunk.fits_one ⟨by omega, by simp at this ⊢; omega⟩
  | heredoc hh h => exact heredoc_fits hh h
  | dollar => exact dollar_fits '$' s
  | number hs => exact Chunk.fits_one ⟨numberLength_pos_of_startsNumber hs, numberLength_le _⟩
  | name _ => exact name_fits ctx c s
  | punctuation _ h =>
    obtain ⟨kind, n, ho, rfl⟩ := eq_of_punctuation h
    exact Chunk.fits_one (operator?_bounds ho)

theorem chunk_fits {st : State} {c : Char} {s : List Char} {k : Chunk}
    (h : st.chunk c (c :: s) = .ok k) : k.Fits (c :: s) := by
  unfold State.chunk at h
  split at h
  · cases h; exact htmlChunk_fits c s
  · exact phpChunk_fits h

end Lexer

end PhpOutline
