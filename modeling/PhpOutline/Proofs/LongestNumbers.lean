import PhpOutline.Proofs.LongestForms

/-!
# Numbers as the longest match

A number is a hexadecimal, binary or octal integer with its mark, or a decimal one that may have a
fraction and an exponent. Its reader tries one after another. It takes the longest number all the
same: behind a mark no decimal number goes further than the zero before it, and each part of a
decimal number ends where the next one starts.
-/

namespace PhpOutline

namespace Lexeme

/-- Groups of digits with an underscore between each two. -/
def Digits (isDigit : Char → Bool) : List Char → Prop :=
  Separated '_' fun w => w ≠ [] ∧ ∀ c ∈ w, isDigit c = true

inductive Marked (isDigit : Char → Bool) (mark : Char) : List Char → Prop
  | intro {m : Char} {w : List Char} (hm : m = mark ∨ m = mark.toUpper) (hw : Digits isDigit w) :
      Marked isDigit mark ('0' :: m :: w)

/-- A point with digits behind it, or alone behind a whole part. -/
inductive IsFraction (whole : List Char) : List Char → Prop
  | point (h : whole ≠ []) : IsFraction whole ['.']
  | digits {w : List Char} (h : Digits Char.isDigit w) : IsFraction whole ('.' :: w)

inductive IsExponent : List Char → Prop
  | intro {e : Char} {sign w : List Char} (he : e = 'e' ∨ e = 'E')
      (hsign : sign ∈ [[], ['+'], ['-']]) (hw : Digits Char.isDigit w) :
        IsExponent (e :: (sign ++ w))

/-- The three parts of a decimal number. The first two are not both absent. -/
structure IsDecimal (whole fraction exponent : List Char) : Prop where
  units : whole = [] ∨ Digits Char.isDigit whole
  tenths : fraction = [] ∨ IsFraction whole fraction
  power : exponent = [] ∨ IsExponent exponent
  present : whole ≠ [] ∨ fraction ≠ []

inductive NumberForm : List Char → Prop
  | hex {w : List Char} (h : Marked isHexDigit 'x' w) : NumberForm w
  | binary {w : List Char} (h : Marked isBinaryDigit 'b' w) : NumberForm w
  | octal {w : List Char} (h : Marked isOctalDigit 'o' w) : NumberForm w
  | decimal {whole fraction exponent : List Char} (h : IsDecimal whole fraction exponent) :
      NumberForm (whole ++ (fraction ++ exponent))

def IsFloat (w : List Char) : Prop :=
  ∃ whole fraction exponent, IsDecimal whole fraction exponent ∧
  w = whole ++ (fraction ++ exponent) ∧
    (fraction ≠ [] ∨ exponent ≠ [])

variable {p : Char → Bool} {c m mark : Char} {s t u w whole fraction exponent : List Char}

/-! ## Digits -/

theorem Digits.chars (h : Digits p w) : ∀ c ∈ w, p c = true ∨ c = '_' :=
  Separated.forall_mem h (fun _ hu c hc => .inl (hu.2 c hc)) (.inr rfl)

theorem Digits.length_pos (h : Digits p w) : 0 < w.length :=
  List.length_pos_iff.mpr (Separated.ne_nil (fun _ hu => hu.1) h)

theorem measures_digitsLength (hp : p '_' = false) (s : List Char) :
    Measures (Digits p) s (digitsLength p s) := by
  change Measures _ s (runLength (fun s => (s.takeWhile p).length) (groupsLength p) s)
  apply measures_runLength
  · intro s
    refine ⟨fun u hu h => length_le_takeWhile hu h.2, fun h => ?_⟩
    refine ⟨s.takeWhile p, List.takeWhile_prefix p, ⟨fun hnil => h (by rw [hnil]; rfl), ?_⟩, rfl⟩
    exact fun c hc => List.all_eq_true.mp List.all_takeWhile c hc
  · exact fun w h => h.1
  · intro w h hmem
    rw [h.2 '_' hmem] at hp
    cases hp
  · intro s
    cases h : (s.takeWhile p).length <;> simp [groupsLength, h]
  · intro s hs
    unfold groupsLength
    split
    · simp at hs
    · rfl

theorem digitsLength_append (hp : p '_' = false) (hw : w = [] ∨ Digits p w)
    (hstop : ∀ c, t.head? = some c → p c = false ∧ c ≠ '_') :
    digitsLength p (w ++ t) = w.length := by
  apply (measures_digitsLength hp (w ++ t)).eq_length hw
  intro c hc u hu hmem
  obtain ⟨hdigit, hunder⟩ := hstop c hc
  rcases hu.chars c hmem with h | h
  · rw [h] at hdigit
    cases hdigit
  · exact hunder h

/-! ## Marks -/

theorem mem_marks : mark ∈ ['x', 'b', 'o'] ↔ mark = 'x' ∨ mark = 'b' ∨ mark = 'o' := by simp

theorem toLower_eq_iff (hmark : mark ∈ ['x', 'b', 'o']) :
    m.toLower = mark ↔ m = mark ∨ m = mark.toUpper := by
  have hascii : ∀ n < 128, (Char.ofNat n).toLower = mark ↔ Char.ofNat n = mark ∨
      Char.ofNat n = mark.toUpper := by
    rcases mem_marks.mp hmark with rfl | rfl | rfl <;> decide +kernel
  by_cases hm : m.toNat < 128
  · have := hascii m.toNat hm
    rwa [Char.ofNat_toNat] at this
  · have hlow : mark.toUpper.toNat < 128 := by
      rcases mem_marks.mp hmark with rfl | rfl | rfl <;> decide
    rw [toLower_of_past_ascii (not_lt.mp hm)]
    constructor
    · exact .inl
    · intro h
      rcases h with h | h
      · exact h
      · rw [h] at hm
        exact absurd hlow hm

theorem mark_not_decimal (hmark : mark ∈ ['x', 'b', 'o']) (hm : m = mark ∨ m = mark.toUpper) :
    m.isDigit = false ∧ m ∉ ['_', '.', 'e', 'E', '+', '-'] := by
  rcases mem_marks.mp hmark with rfl | rfl | rfl <;> rcases hm with rfl | rfl <;> decide

theorem markedLength_cons (p : Char → Bool) (mark m : Char) (s : List Char) :
    markedLength p mark ('0' :: m :: s) =
      if m.toLower = mark ∧ digitsLength p s ≠ 0 then 2 + digitsLength p s else 0 := by
  rw [markedLength]
  by_cases hm : m.toLower = mark
  · rw [if_pos hm]
    split
    · rename_i h
      rw [if_neg (by simp [h])]
    · rename_i n h
      rw [if_pos ⟨hm, by omega⟩, h]
  · rw [if_neg hm, if_neg (fun h => hm h.1)]

theorem cons_of_markedLength (h : markedLength p mark s ≠ 0) :
    ∃ m r, s = '0' :: m :: r ∧ m.toLower = mark ∧ digitsLength p r ≠ 0 := by
  unfold markedLength at h
  split at h
  · rename_i m r
    have hlength := markedLength_cons p mark m r
    rw [markedLength] at hlength
    rw [hlength] at h
    by_cases hm : m.toLower = mark ∧ digitsLength p r ≠ 0
    · exact ⟨m, r, rfl, hm⟩
    · rw [if_neg hm] at h
      exact absurd rfl h
  · exact absurd rfl h

theorem measures_markedLength (hp : p '_' = false) (hmark : mark ∈ ['x', 'b', 'o'])
    (s : List Char) :
    Measures (Marked p mark) s (markedLength p mark s) where
  bound u hu h := by
    cases h with
    | @intro m w hm hw =>
      obtain ⟨t, rfl⟩ := hu
      have hle := (measures_digitsLength hp (w ++ t)).bound w (List.prefix_append w t) hw
      have hpos := hw.length_pos
      rw [List.cons_append, List.cons_append, markedLength_cons,
        if_pos ⟨(toLower_eq_iff hmark).mpr hm, by omega⟩, List.length_cons, List.length_cons]
      omega
  reached h := by
    obtain ⟨m, r, rfl, hm, hdigits⟩ := cons_of_markedLength h
    obtain ⟨w, hw, hform, hlength⟩ := (measures_digitsLength hp r).reached hdigits
    refine ⟨'0' :: m :: w, ?_, .intro ((toLower_eq_iff hmark).mp hm) hform, ?_⟩
    · exact List.cons_prefix_cons.mpr ⟨rfl, List.cons_prefix_cons.mpr ⟨rfl, hw⟩⟩
    · rw [markedLength_cons, if_pos ⟨hm, hdigits⟩, List.length_cons, List.length_cons]
      omega

theorem markedLength_eq_zero {q : Char → Bool} {other : Char} (h : markedLength p mark s ≠ 0)
    (hne : mark ≠ other) :
    markedLength q other s = 0 := by
  obtain ⟨m, r, rfl, hm, -⟩ := cons_of_markedLength h
  rw [markedLength_cons, if_neg]
  exact fun hother => hne (hm.symm.trans hother.1)

/-! ## The parts of a decimal number -/

theorem underscore_not_digit : Char.isDigit '_' = false := by decide

def signLength : List Char → Nat
  | '+' :: _ => 1
  | '-' :: _ => 1
  | _ => 0

theorem exponentLength_cons (e : Char) (s : List Char) :
    exponentLength (e :: s) =
      if (e = 'e' ∨ e = 'E') ∧ digitsLength Char.isDigit (s.drop (signLength s)) ≠ 0 then
        1 + signLength s + digitsLength Char.isDigit (s.drop (signLength s))
      else 0 := by
  unfold exponentLength
  dsimp only
  by_cases he : e = 'e' ∨ e = 'E'
  · rw [if_pos he]
    split
    · rename_i h
      change digitsLength Char.isDigit (s.drop (signLength s)) = 0 at h
      rw [if_neg (by simp [h])]
    · rename_i n h
      change digitsLength Char.isDigit (s.drop (signLength s)) = n + 1 at h
      rw [if_pos ⟨he, by omega⟩, h]
      rfl
  · rw [if_neg he, if_neg (fun h => he h.1)]

theorem signLength_append {sign : List Char} (hsign : sign ∈ [[], ['+'], ['-']])
    (hw : Digits Char.isDigit w) :
    signLength (sign ++ (w ++ t)) = sign.length := by
  simp only [List.mem_cons, List.not_mem_nil, or_false] at hsign
  rcases hsign with rfl | rfl | rfl
  · obtain ⟨c, r, rfl⟩ := List.exists_cons_of_length_pos hw.length_pos
    have hc := hw.chars c (by simp)
    rw [List.nil_append, List.cons_append]
    unfold signLength
    split
    · rename_i h
      cases h
      revert hc
      decide
    · rename_i h
      cases h
      revert hc
      decide
    · rfl
  · rfl
  · rfl

theorem exists_sign (s : List Char) :
    ∃ sign t, s = sign ++ t ∧ sign ∈ [[], ['+'], ['-']] ∧ sign.length = signLength s := by
  unfold signLength
  split
  · exact ⟨['+'], _, rfl, by simp, rfl⟩
  · exact ⟨['-'], _, rfl, by simp, rfl⟩
  · exact ⟨[], _, rfl, by simp, rfl⟩

theorem measures_exponentLength (s : List Char) : Measures IsExponent s (exponentLength s) where
  bound u hu h := by
    cases h with
    | @intro e sign w he hsign hw =>
      obtain ⟨t, rfl⟩ := hu
      have hle := (measures_digitsLength underscore_not_digit (w ++ t)).bound w
        (List.prefix_append w t) hw
      have hpos := hw.length_pos
      rw [List.cons_append, List.append_assoc, exponentLength_cons, signLength_append hsign hw,
        List.drop_left, if_pos ⟨he, by omega⟩, List.length_cons, List.length_append]
      omega
  reached h := by
    cases s with
    | nil => exact absurd rfl h
    | cons e s =>
      rw [exponentLength_cons] at h ⊢
      by_cases he : (e = 'e' ∨ e = 'E') ∧ digitsLength Char.isDigit (s.drop (signLength s)) ≠ 0
      · rw [if_pos he]
        obtain ⟨sign, t, rfl, hsign, hlength⟩ := exists_sign s
        rw [← hlength, List.drop_left] at he ⊢
        obtain ⟨w, ⟨r, rfl⟩, hform, hdigits⟩ :=
          (measures_digitsLength underscore_not_digit t).reached he.2
        refine ⟨e :: (sign ++ w), ⟨r, by simp⟩, .intro he.1 hsign hform, ?_⟩
        rw [List.length_cons, List.length_append]
        omega
      · rw [if_neg he] at h
        exact absurd rfl h

theorem measures_fractionLength (whole s : List Char) :
    Measures (IsFraction whole) s (fractionLength whole.length s) where
  bound u hu h := by
    cases h with
    | point h =>
      obtain ⟨t, rfl⟩ := hu
      have := List.length_pos_iff.mpr h
      rw [List.singleton_append, fractionLength]
      split
      · rw [if_neg (by omega)]
        simp
      · simp
    | @digits w h =>
      obtain ⟨t, rfl⟩ := hu
      have hle := (measures_digitsLength underscore_not_digit (w ++ t)).bound w
        (List.prefix_append w t) h
      have hpos := h.length_pos
      rw [List.cons_append, fractionLength, List.length_cons]
      split
      · omega
      · omega
  reached h := by
    unfold fractionLength at h ⊢
    split at h
    · rename_i s
      split at h
      · by_cases hwhole : whole.length = 0
        · rw [if_pos hwhole] at h
          exact absurd rfl h
        · refine ⟨['.'], by simp, .point (fun hnil => hwhole (by rw [hnil]; rfl)), ?_⟩
          simp [hwhole]
      · rename_i n hn
        obtain ⟨w, hw, hform, hlength⟩ := (measures_digitsLength underscore_not_digit s).reached
          (by omega)
        refine ⟨'.' :: w, List.cons_prefix_cons.mpr ⟨rfl, hw⟩, .digits hform, ?_⟩
        rw [List.length_cons]
        omega
    · exact absurd rfl h

/-! ## Decimal numbers -/

theorem decimalLength_append (hwhole : digitsLength Char.isDigit (whole ++ t) = whole.length) :
    decimalLength (whole ++ t) =
      if whole.length + fractionLength whole.length t = 0 then 0
      else whole.length + fractionLength whole.length t +
        exponentLength (t.drop (fractionLength whole.length t)) := by
  unfold decimalLength
  dsimp only
  rw [hwhole, List.drop_left]
  split
  · rename_i h
    rw [if_pos h]
  · rename_i n h
    have hdrop : (whole ++ t).drop (whole.length + fractionLength whole.length t) =
        t.drop (fractionLength whole.length t) := by
      rw [← List.drop_drop, List.drop_left]
    rw [if_neg (by omega), ← hdrop, h]

theorem digitsLength_le_decimalLength (s : List Char) :
    digitsLength Char.isDigit s ≤ decimalLength s := by
  obtain ⟨whole, t, rfl, -, hlength⟩ := (measures_digitsLength underscore_not_digit s).exists_split
  rw [decimalLength_append hlength.symm]
  split
  · omega
  · omega

theorem IsFraction.head (h : IsFraction whole fraction) : ∃ r, fraction = '.' :: r := by
  cases h with
  | point => exact ⟨[], rfl⟩
  | @digits w => exact ⟨w, rfl⟩

theorem IsExponent.head (h : IsExponent exponent) :
    ∃ e r, exponent = e :: r ∧ (e = 'e' ∨ e = 'E') := by
  cases h with
  | intro he => exact ⟨_, _, rfl, he⟩

theorem IsFraction.chars (h : IsFraction whole fraction) :
    ∀ c ∈ fraction, c = '.' ∨ c.isDigit = true ∨ c = '_' := by
  cases h with
  | point => simp
  | digits h =>
    intro c hc
    rcases List.mem_cons.mp hc with hc | hc
    · exact .inl hc
    · exact .inr (h.chars c hc)

theorem IsDecimal.stop (h : IsDecimal whole fraction exponent)
    (hmore : fraction ≠ [] ∨ exponent ≠ []) :
    ∀ c, (fraction ++ (exponent ++ t)).head? = some c → c.isDigit = false ∧ c ≠ '_' := by
  intro c hc
  rcases h.tenths with rfl | hfraction
  · rcases h.power with rfl | hexponent
    · simp at hmore
    · obtain ⟨e, r, rfl, he⟩ := hexponent.head
      cases hc
      rcases he with rfl | rfl <;> decide
  · obtain ⟨r, rfl⟩ := hfraction.head
    cases hc
    decide

theorem fractionLength_append (htenths : fraction = [] ∨ IsFraction whole fraction)
    (hexponent : IsExponent exponent) :
    fractionLength whole.length (fraction ++ (exponent ++ t)) = fraction.length := by
  apply (measures_fractionLength whole _).eq_length htenths
  intro c hc u hu hmem
  obtain ⟨e, r, rfl, he⟩ := hexponent.head
  cases hc
  have := hu.chars _ hmem
  rcases he with rfl | rfl <;> revert this <;> decide

theorem measures_decimalLength (s : List Char) :
    Measures (fun w => ∃ whole fraction exponent,
      IsDecimal whole fraction exponent ∧ w = whole ++ (fraction ++ exponent)) s
        (decimalLength s) where
  bound u hu h := by
    obtain ⟨whole, fraction, exponent, hdecimal, rfl⟩ := h
    obtain ⟨t, rfl⟩ := hu
    rw [List.append_assoc, List.append_assoc]
    -- only where something is behind the digits is it certain that they end there
    by_cases hmore : fraction ≠ [] ∨ exponent ≠ []
    · rw [decimalLength_append (digitsLength_append underscore_not_digit hdecimal.units
        (hdecimal.stop hmore))]
      have hpresent : whole.length + fraction.length ≠ 0 := by
        rcases hdecimal.present with h | h <;> have := List.length_pos_iff.mpr h <;> omega
      rcases hdecimal.power with rfl | hexponent
      · have hle : fraction.length ≤ fractionLength whole.length (fraction ++ t) := by
          rcases hdecimal.tenths with rfl | htenths
          · exact Nat.zero_le _
          · exact (measures_fractionLength whole _).bound fraction
              (List.prefix_append fraction t) htenths
        rw [List.nil_append, List.append_nil, List.length_append]
        split
        · omega
        · omega
      · have hle := (measures_exponentLength (exponent ++ t)).bound exponent
          (List.prefix_append exponent t) hexponent
        rw [fractionLength_append hdecimal.tenths hexponent, if_neg hpresent, List.drop_left,
          List.length_append, List.length_append]
        omega
    · simp only [ne_eq, not_or, not_not] at hmore
      obtain ⟨rfl, rfl⟩ := hmore
      rcases hdecimal.units with rfl | hunits
      · simp
      · have hle := (measures_digitsLength underscore_not_digit (whole ++ t)).bound whole
          (List.prefix_append whole t) hunits
        have := digitsLength_le_decimalLength (whole ++ t)
        simp only [List.nil_append, List.append_nil]
        omega
  reached h := by
    obtain ⟨whole, t, rfl, hunits, hwhole⟩ :=
      (measures_digitsLength underscore_not_digit s).exists_split
    obtain ⟨fraction, t, rfl, htenths, hfraction⟩ := (measures_fractionLength whole t).exists_split
    obtain ⟨exponent, t, rfl, hpower, hexponent⟩ := (measures_exponentLength t).exists_split
    rw [decimalLength_append hwhole.symm, ← hfraction, List.drop_left, ← hexponent] at h ⊢
    by_cases hzero : whole.length + fraction.length = 0
    · rw [if_pos hzero] at h
      exact absurd rfl h
    · refine ⟨whole ++ (fraction ++ exponent), ⟨t, by simp⟩,
        ⟨_, _, _, ⟨hunits, htenths, hpower, ?_⟩, rfl⟩, ?_⟩
      · rw [ne_eq, ne_eq, ← List.length_eq_zero_iff, ← List.length_eq_zero_iff]
        omega
      · rw [if_neg hzero, List.length_append, List.length_append]
        omega

/-! ## Numbers -/

theorem decimalLength_of_mark (hmark : mark ∈ ['x', 'b', 'o']) (hm : m = mark ∨ m = mark.toUpper) :
    decimalLength ('0' :: m :: s) = 1 := by
  obtain ⟨hdigit, hchars⟩ := mark_not_decimal hmark hm
  simp only [List.mem_cons, not_or] at hchars
  obtain ⟨hunderscore, hpoint, he, hE, _⟩ := hchars
  have hwhole : digitsLength Char.isDigit (['0'] ++ m :: s) = ['0'].length := by
    apply digitsLength_append underscore_not_digit
    · exact .inr (.one ⟨by simp, by simp⟩)
    · intro c hc
      cases hc
      exact ⟨hdigit, hunderscore⟩
  have hfraction : fractionLength ['0'].length (m :: s) = 0 := by
    unfold fractionLength
    split
    · rename_i heq
      exact absurd (List.cons.inj heq).1 hpoint
    · rfl
  have hexponent : exponentLength (m :: s) = 0 := by
    rw [exponentLength_cons, if_neg]
    exact fun h => h.1.elim he hE
  have := decimalLength_append hwhole
  rw [hfraction, List.drop_zero, hexponent] at this
  exact this

theorem decimalLength_of_markedLength (hmark : mark ∈ ['x', 'b', 'o'])
    (h : markedLength p mark s ≠ 0) :
    decimalLength s = 1 := by
  obtain ⟨m, r, rfl, hm, -⟩ := cons_of_markedLength h
  exact decimalLength_of_mark hmark ((toLower_eq_iff hmark).mp hm)

theorem numberLength_eq (s : List Char) :
    numberLength s =
      if markedLength isHexDigit 'x' s ≠ 0 then markedLength isHexDigit 'x' s
      else if markedLength isBinaryDigit 'b' s ≠ 0 then markedLength isBinaryDigit 'b' s
      else if markedLength isOctalDigit 'o' s ≠ 0 then markedLength isOctalDigit 'o' s
      else decimalLength s := by
  unfold numberLength
  cases markedLength isHexDigit 'x' s with
  | succ n => rfl
  | zero =>
    cases markedLength isBinaryDigit 'b' s with
    | succ n => rfl
    | zero => cases markedLength isOctalDigit 'o' s <;> rfl

theorem numberForm_iff :
    NumberForm w ↔ Marked isHexDigit 'x' w ∨ Marked isBinaryDigit 'b' w ∨
      Marked isOctalDigit 'o' w ∨ ∃ whole fraction exponent, IsDecimal whole fraction exponent ∧
      w = whole ++ (fraction ++ exponent) := by
  constructor
  · intro h
    cases h with
    | hex h => exact .inl h
    | binary h => exact .inr (.inl h)
    | octal h => exact .inr (.inr (.inl h))
    | decimal h => exact .inr (.inr (.inr ⟨_, _, _, h, rfl⟩))
  · rintro (h | h | h | ⟨whole, fraction, exponent, h, rfl⟩)
    · exact .hex h
    · exact .binary h
    · exact .octal h
    · exact .decimal h

/-- The first of two readers that takes anything is the one that takes more. -/
theorem Measures.orElse {f g : List Char → Prop} {n k : Nat} (hf : Measures f s n)
    (hg : Measures g s k) (hle : n ≠ 0 → k ≤ n) :
    Measures (fun w => f w ∨ g w) s (if n ≠ 0 then n else k) := by
  by_cases hn : n = 0
  · rw [if_neg (not_not.mpr hn)]
    refine ⟨fun u hu h => ?_, fun hk => ?_⟩
    · rcases h with h | h
      · have := hf.bound u hu h
        omega
      · exact hg.bound u hu h
    · obtain ⟨w, hw, hform, hlength⟩ := hg.reached hk
      exact ⟨w, hw, .inr hform, hlength⟩
  · rw [if_pos hn]
    refine ⟨fun u hu h => ?_, fun _ => ?_⟩
    · rcases h with h | h
      · exact hf.bound u hu h
      · exact (hg.bound u hu h).trans (hle hn)
    · obtain ⟨w, hw, hform, hlength⟩ := hf.reached hn
      exact ⟨w, hw, .inl hform, hlength⟩

theorem measures_numberLength (s : List Char) : Measures NumberForm s (numberLength s) := by
  have hform : NumberForm = fun w => Marked isHexDigit 'x' w ∨ Marked isBinaryDigit 'b' w ∨
      Marked isOctalDigit 'o' w ∨
        ∃ whole fraction exponent, IsDecimal whole fraction exponent ∧
        w = whole ++ (fraction ++ exponent) :=
    funext fun w => propext numberForm_iff
  rw [hform, numberLength_eq]
  apply (measures_markedLength (by decide) (by decide) s).orElse
  · apply (measures_markedLength (by decide) (by decide) s).orElse
    · apply (measures_markedLength (by decide) (by decide) s).orElse (measures_decimalLength s)
      intro h
      rw [decimalLength_of_markedLength (by decide) h]
      omega
    · intro h
      rw [markedLength_eq_zero h (by decide), decimalLength_of_markedLength (by decide) h]
      simp only [ne_eq, not_true_eq_false, if_false]
      omega
  · intro h
    rw [markedLength_eq_zero h (by decide), markedLength_eq_zero h (by decide),
      decimalLength_of_markedLength (by decide) h]
    simp only [ne_eq, not_true_eq_false, if_false]
    omega

/-! ## Floats -/

theorem IsExponent.chars (h : IsExponent exponent) :
    ∀ c ∈ exponent, c.isDigit = true ∨ c ∈ ['_', '.', 'e', 'E', '+', '-'] := by
  cases h with
  | @intro e sign w he hsign hw =>
    intro c hc
    rcases List.mem_cons.mp hc with rfl | hc
    · rcases he with rfl | rfl <;> simp
    · rcases List.mem_append.mp hc with hc | hc
      · simp only [List.mem_cons, List.not_mem_nil, or_false] at hsign
        rcases hsign with rfl | rfl | rfl <;> simp_all
      · rcases hw.chars c hc with h | rfl
        · exact .inl h
        · simp

theorem IsDecimal.chars (h : IsDecimal whole fraction exponent) :
    ∀ c ∈ whole ++ (fraction ++ exponent), c.isDigit = true ∨
      c ∈ ['_', '.', 'e', 'E', '+', '-'] := by
  intro c hc
  rcases List.mem_append.mp hc with hc | hc
  · rcases h.units with rfl | hunits
    · simp at hc
    · rcases hunits.chars c hc with h | rfl <;> simp_all
  · rcases List.mem_append.mp hc with hc | hc
    · rcases h.tenths with rfl | htenths
      · simp at hc
      · rcases htenths.chars c hc with rfl | h | rfl <;> simp_all
    · rcases h.power with rfl | hpower
      · simp at hc
      · exact hpower.chars c hc

theorem IsDecimal.isMarked (h : IsDecimal whole fraction exponent) :
    isMarked (whole ++ (fraction ++ exponent)) = false := by
  have hchars := h.chars
  revert hchars
  generalize whole ++ (fraction ++ exponent) = w
  intro hchars
  unfold Lexeme.isMarked
  split
  · rename_i m r
    by_contra hm
    have hmark : m.toLower ∈ ['x', 'b', 'o'] := by
      rwa [Bool.not_eq_false, List.contains_iff_mem] at hm
    obtain ⟨hdigit, hother⟩ := mark_not_decimal hmark ((toLower_eq_iff hmark).mp rfl)
    rcases hchars m (by simp) with h | h
    · rw [hdigit] at h
      cases h
    · exact hother h
  · rfl

theorem Marked.isMarked (hmark : mark ∈ ['x', 'b', 'o']) (h : Marked p mark w) :
    isMarked w = true := by
  cases h with
  | intro hm hw =>
    rw [← (toLower_eq_iff hmark).mpr hm] at hmark
    exact List.contains_iff_mem.mpr hmark

/-- A point, an `e` or an `E` stands in a decimal number only at the start of its fraction or
exponent. -/
theorem IsDecimal.any_iff (h : IsDecimal whole fraction exponent) :
    (whole ++ (fraction ++ exponent)).any (['.', 'e', 'E'].contains ·) = true ↔ fraction ≠ [] ∨
      exponent ≠ [] := by
  rw [List.any_append, List.any_append]
  have hunits : whole.any (['.', 'e', 'E'].contains ·) = false := by
    rcases h.units with rfl | hunits
    · rfl
    · rw [List.any_eq_false]
      intro c hc hmem
      have hc := hunits.chars c hc
      simp only [List.contains_iff_mem, List.mem_cons, List.not_mem_nil, or_false] at hmem
      rcases hmem with rfl | rfl | rfl <;> revert hc <;> decide
  have htenths : fraction.any (['.', 'e', 'E'].contains ·) = true ↔ fraction ≠ [] := by
    rcases h.tenths with rfl | htenths
    · simp
    · obtain ⟨r, rfl⟩ := htenths.head
      simp
  have hpower : exponent.any (['.', 'e', 'E'].contains ·) = true ↔ exponent ≠ [] := by
    rcases h.power with rfl | hpower
    · simp
    · obtain ⟨e, r, rfl, rfl | rfl⟩ := hpower.head <;> simp
  rw [hunits, Bool.false_or, Bool.or_eq_true, htenths, hpower]

theorem numberKind_of (h : NumberForm w) :
    (IsFloat w → numberKind w = .dnumber) ∧ (¬ IsFloat w → numberKind w = .lnumber) := by
  have hfloat : IsFloat w ↔ (!isMarked w && w.any (['.', 'e', 'E'].contains ·)) = true := by
    constructor
    · rintro ⟨whole, fraction, exponent, hdecimal, rfl, hmore⟩
      rw [hdecimal.isMarked, hdecimal.any_iff.mpr hmore]
      rfl
    · intro hkind
      rw [Bool.and_eq_true, Bool.not_eq_true'] at hkind
      rcases numberForm_iff.mp h with h | h | h | ⟨whole, fraction, exponent, hdecimal, rfl⟩
      · simp [h.isMarked (by decide)] at hkind
      · simp [h.isMarked (by decide)] at hkind
      · simp [h.isMarked (by decide)] at hkind
      · exact ⟨whole, fraction, exponent, hdecimal, rfl, hdecimal.any_iff.mp hkind.2⟩
  unfold numberKind
  exact ⟨fun h => if_pos (hfloat.mp h), fun h => if_neg (fun hkind => h (hfloat.mpr hkind))⟩

end Lexeme

end PhpOutline
