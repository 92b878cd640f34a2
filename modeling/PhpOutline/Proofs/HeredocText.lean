import PhpOutline.Lexeme.Heredoc
import PhpOutline.Proofs.ListFacts

/-!
# The text of a heredoc

What the header of a heredoc looks like (`Heads`) and which lines close it (`ClosesAt`), said of the
text itself. The reader of headers finds exactly these headers, and the search for the end of a
heredoc fails if and only if no line of the text closes it.
-/

namespace PhpOutline

namespace Lexeme

def IsLabel (l : List Char) : Prop :=
  ∃ c r, l = c :: r ∧ isLabelStart c = true ∧ ∀ d ∈ r, isLabelRest d = true

/-- A label as it is written in a header: alone, or between two quotes of one kind. -/
inductive Writes (l : List Char) : List Char → Prop
  | bare : Writes l l
  | quoted {q : Char} (hq : q = '"' ∨ q = '\'') : Writes l (q :: (l ++ [q]))

/-- The header of a heredoc with a label, up to the end of its line. -/
inductive Heads (l : List Char) : List Char → Prop
  | mk {blanks part eol : List Char} (hblanks : ∀ c ∈ blanks, isBlank c = true)
      (hpart : Writes l part) (heol : eol = ['\n'] ∨ eol = ['\r', '\n']) :
        Heads l (['<', '<', '<'] ++ blanks ++ part ++ eol)

/-- A line starts here that closes the heredoc: blanks and the label, which is no longer word
there. -/
def ClosesAt (l s : List Char) : Prop :=
  ∃ indent rest, s = indent ++ l ++ rest ∧ (∀ c ∈ indent, isBlank c = true) ∧
    ∀ c, rest.head? = some c → Text.isAlphanumeric c = false ∧ c ≠ '_'

/-- A text behind which a line starts. -/
def EndsLine (a : List Char) : Prop := a = [] ∨ a.getLast? = some '\n'

variable {l s part : List Char} {n : Nat}

/-! ## Labels -/

theorem isBlank_of_isLabelStart {c : Char} (h : isLabelStart c = true) : isBlank c = false := by
  by_contra hblank
  simp only [isBlank, Bool.not_eq_false, Bool.or_eq_true, beq_iff_eq] at hblank
  rcases hblank with rfl | rfl <;> revert h <;> decide

theorem IsLabel.label_append (h : IsLabel l) (hs : ∀ c, s.head? = some c → isLabelRest c = false) :
    label (l ++ s) = l := by
  obtain ⟨c, r, rfl, hc, hr⟩ := h
  rw [List.cons_append, label, if_pos hc, takeWhile_append_of_head? hr hs]

theorem label_prefix (s : List Char) : label s <+: s := by
  cases s with
  | nil => exact List.nil_prefix
  | cons c s =>
    rw [label]
    split
    · exact List.cons_prefix_cons.mpr ⟨rfl, List.takeWhile_prefix _⟩
    · exact List.nil_prefix

theorem isLabel_label (h : label s ≠ []) : IsLabel (label s) := by
  cases s with
  | nil => exact absurd rfl h
  | cons c s =>
    rw [label] at h ⊢
    split
    · rename_i hc
      exact ⟨c, _, rfl, hc, fun d hd => List.mem_takeWhile_imp hd⟩
    · rename_i hc
      rw [if_neg hc] at h
      exact absurd rfl h

theorem labelPart?_ok (h : labelPart? s = some (l, n)) :
    IsLabel l ∧ ∃ part rest, s = part ++ rest ∧ Writes l part ∧ part.length = n := by
  unfold labelPart? at h
  split at h
  · cases h
  · rename_i q s
    split at h
    · rename_i hq
      split at h
      · cases h
      · rename_i hne
        split at h
        · rename_i hclose
          cases h
          have hlabel := isLabel_label hne
          obtain ⟨r, hr⟩ := label_prefix s
          generalize label s = l at hlabel hr hclose
          subst hr
          rw [List.drop_left] at hclose
          obtain ⟨rest, rfl⟩ := List.head?_eq_some_iff.mp hclose
          exact ⟨hlabel, q :: (l ++ [q]), rest, by simp, .quoted hq, by simp⟩
        · cases h
    · split at h
      · cases h
      · rename_i hne
        cases h
        obtain ⟨r, hr⟩ := label_prefix (q :: s)
        exact ⟨isLabel_label hne, _, r, hr.symm, .bare, rfl⟩

theorem isLabelRest_quote {q : Char} (hq : q = '"' ∨ q = '\'') : isLabelRest q = false := by
  rcases hq with rfl | rfl <;> rfl

theorem labelPart?_append (hl : IsLabel l) (hpart : Writes l part)
    (hs : ∀ c, s.head? = some c → isLabelRest c = false) :
    labelPart? (part ++ s) = some (l, part.length) := by
  cases hpart with
  | bare =>
    have hlabel := hl.label_append hs
    obtain ⟨c, r, rfl, hc, _⟩ := hl
    have hq : ¬ (c = '"' ∨ c = '\'') := by
      intro hq
      have := isLabelRest_quote hq
      rw [isLabelRest, hc] at this
      cases this
    rw [List.cons_append] at hlabel ⊢
    rw [labelPart?, if_neg hq, hlabel]
  | @quoted q hq =>
    have hlabel : label (l ++ q :: s) = l := hl.label_append (by simp [isLabelRest_quote hq])
    obtain ⟨c, r, rfl, _⟩ := hl
    simp only [List.cons_append, List.append_assoc, List.nil_append] at hlabel ⊢
    rw [labelPart?, if_pos hq, hlabel]
    simp

/-! ## Headers -/

theorem lineBreakLength_append {eol : List Char} (h : eol = ['\n'] ∨ eol = ['\r', '\n']) :
    lineBreakLength (eol ++ s) = eol.length := by
  rcases h with rfl | rfl <;> rfl

theorem lineBreakLength_ok (h : lineBreakLength s = n + 1) :
    ∃ eol rest, s = eol ++ rest ∧ (eol = ['\n'] ∨ eol = ['\r', '\n']) ∧ eol.length = n + 1 := by
  unfold lineBreakLength at h
  split at h
  · rename_i rest
    exact ⟨_, rest, rfl, .inr rfl, h⟩
  · rename_i rest
    exact ⟨_, rest, rfl, .inl rfl, h⟩
  · cases h

theorem heredocHeader?_blanks {blanks : List Char} (hblanks : ∀ c ∈ blanks, isBlank c = true)
    (hs : ∀ c, s.head? = some c → isBlank c = false) :
    heredocHeader? (['<', '<', '<'] ++ (blanks ++ s)) =
      (labelPart? s).bind fun (l, n) =>
        match lineBreakLength (s.drop n) with
        | 0 => none
        | b + 1 => some ⟨l, 3 + blanks.length + n + (b + 1)⟩ := by
  have hmark : ['<', '<', '<'].isPrefixOf (['<', '<', '<'] ++ (blanks ++ s)) = true := by simp
  have hdrop : ∀ m, (['<', '<', '<'] ++ (blanks ++ s)).drop (3 + blanks.length + m) = s.drop m := by
    intro m
    rw [← List.drop_drop, ← List.append_assoc, List.drop_left' (by simp; omega)]
  unfold heredocHeader?
  rw [if_pos hmark]
  dsimp only
  rw [show (['<', '<', '<'] ++ (blanks ++ s)).drop 3 = blanks ++ s from rfl,
    takeWhile_append_of_head? hblanks hs,
    show (['<', '<', '<'] ++ (blanks ++ s)).drop (3 + blanks.length) = s from hdrop 0]
  cases labelPart? s with
  | none => rfl
  | some part =>
    obtain ⟨l, n⟩ := part
    have hbehind := hdrop n
    dsimp only [Option.bind_some]
    generalize (['<', '<', '<'] ++ (blanks ++ s)).drop (3 + blanks.length + n) = r at hbehind ⊢
    subst hbehind
    rfl

theorem heredocHeader?_eq_some_iff {header : HeredocHeader} :
    heredocHeader? s = some header ↔
      IsLabel header.label ∧ ∃ head body, s = head ++ body ∧ Heads header.label head ∧
      head.length = header.length := by
  constructor
  · intro h
    have hmark : ['<', '<', '<'] <+: s := by
      unfold heredocHeader? at h
      split at h
      · rename_i hmark
        exact List.isPrefixOf_iff_prefix.mp hmark
      · cases h
    obtain ⟨r, rfl⟩ := hmark
    -- the blanks are taken as far as they go, so what is behind them starts with none
    have hblanks : ∀ c ∈ r.takeWhile isBlank, isBlank c = true := fun c hc =>
      List.mem_takeWhile_imp hc
    have hbehind : ∀ c, (r.dropWhile isBlank).head? = some c → isBlank c = false := by
      intro c hc
      have := List.head?_dropWhile_not isBlank r
      rw [hc] at this
      simpa using this
    rw [← List.takeWhile_append_dropWhile (p := isBlank) (l := r)] at h ⊢
    generalize r.takeWhile isBlank = blanks at hblanks h ⊢
    generalize r.dropWhile isBlank = t at hbehind h ⊢
    rw [heredocHeader?_blanks hblanks hbehind] at h
    obtain ⟨⟨l, n⟩, hpart, h⟩ := Option.bind_eq_some_iff.mp h
    obtain ⟨hl, part, rest, rfl, hwrites, rfl⟩ := labelPart?_ok hpart
    dsimp only at h
    rw [List.drop_left] at h
    split at h
    · cases h
    · rename_i b hb
      cases h
      obtain ⟨eol, body, rfl, heol, hlength⟩ := lineBreakLength_ok hb
      refine ⟨hl, ['<', '<', '<'] ++ blanks ++ part ++ eol,
        body, by simp, .mk hblanks hwrites heol, ?_⟩
      simp [hlength]
      omega
  · obtain ⟨l, n⟩ := header
    rintro ⟨hl, head, body, rfl, hhead, rfl⟩
    dsimp only at hl hhead
    obtain ⟨hblanks, hpart, heol⟩ := hhead
    rename_i blanks part eol
    -- neither the blanks nor the label can be read on into what stands behind them
    have hbehind : ∀ c, (part ++ (eol ++ body)).head? = some c → isBlank c = false := by
      obtain ⟨d, r, rfl, hd, _⟩ := hl
      cases hpart with
      | bare => simpa using isBlank_of_isLabelStart hd
      | quoted hq => rcases hq with rfl | rfl <;> simp <;> rfl
    have hrest : ∀ c, (eol ++ body).head? = some c → isLabelRest c = false := by
      rcases heol with rfl | rfl <;> simp <;> rfl
    have hwhole : ['<', '<', '<'] ++ blanks ++ part ++ eol ++ body =
        ['<', '<', '<'] ++ (blanks ++ (part ++ (eol ++ body))) := by simp
    rw [hwhole, heredocHeader?_blanks hblanks hbehind, labelPart?_append hl hpart hrest,
      Option.bind_some]
    dsimp only
    rw [List.drop_left, lineBreakLength_append heol]
    have hpos : eol.length = (eol.length - 1) + 1 := by rcases heol with rfl | rfl <;> rfl
    rw [hpos]
    simp
    omega

/-! ## Closing lines -/

theorem closesHeredoc_iff (hl : IsLabel l) : closesHeredoc l s = true ↔ ClosesAt l s := by
  unfold closesHeredoc
  dsimp only
  rw [Bool.and_eq_true]
  constructor
  · rintro ⟨hstarts, hrest⟩
    obtain ⟨rest, heq⟩ := List.isPrefixOf_iff_prefix.mp hstarts
    rw [← heq, List.drop_left] at hrest
    refine ⟨s.takeWhile isBlank, rest, ?_, fun c hc => List.mem_takeWhile_imp hc, fun c hc => ?_⟩
    · rw [List.append_assoc, heq, List.takeWhile_append_dropWhile]
    · obtain ⟨t, rfl⟩ := List.head?_eq_some_iff.mp hc
      simpa using hrest
  · rintro ⟨indent, rest, rfl, hindent, hrest⟩
    have hdrop : (indent ++ l ++ rest).dropWhile isBlank = l ++ rest := by
      obtain ⟨c, r, rfl, hc, _⟩ := hl
      rw [List.append_assoc, List.dropWhile_append_of_pos hindent, List.cons_append,
        List.dropWhile_cons_of_neg (by rw [isBlank_of_isLabelStart hc]; exact Bool.false_ne_true)]
    rw [hdrop, List.drop_left]
    refine ⟨List.isPrefixOf_iff_prefix.mpr (List.prefix_append l rest), ?_⟩
    cases rest with
    | nil => rfl
    | cons c rest => simpa using hrest c rfl

theorem not_mem_line (s : List Char) : '\n' ∉ s.takeWhile (· ≠ '\n') :=
  fun hmem => by simpa using List.mem_takeWhile_imp hmem

theorem line_append (h : (s.takeWhile (· ≠ '\n')).length < s.length) :
    s.takeWhile (· ≠ '\n') ++ '\n' :: s.drop ((s.takeWhile (· ≠ '\n')).length + 1) = s := by
  induction s with
  | nil => simp at h
  | cons c s ih =>
    by_cases hc : c = '\n'
    · simp [hc]
    · have hcons : (c :: s).takeWhile (· ≠ '\n') = c :: s.takeWhile (· ≠ '\n') :=
        List.takeWhile_cons_of_pos (by simpa using hc)
      rw [hcons] at h ⊢
      rw [List.length_cons, List.drop_succ_cons, List.cons_append, ih (by simpa using h)]

theorem EndsLine.cases {a b line rest : List Char} (h : EndsLine a) (hline : '\n' ∉ line)
    (heq : line ++ '\n' :: rest = a ++ b) :
    a = [] ∨ ∃ a', a = line ++ '\n' :: a' ∧ rest = a' ++ b ∧ EndsLine a' := by
  rcases h with h | h
  · exact .inl h
  · right
    rcases List.append_eq_append_iff.mp heq with ⟨as, rfl, has⟩ | ⟨bs, rfl, _⟩
    · cases as with
      | nil =>
        exfalso
        rw [List.append_nil] at h
        exact hline (List.mem_of_getLast? h)
      | cons c as =>
        obtain ⟨rfl, rfl⟩ := List.cons.inj has
        refine ⟨as, rfl, rfl, ?_⟩
        rcases as.eq_nil_or_concat with rfl | ⟨as, d, rfl⟩
        · exact .inl rfl
        · right
          rw [List.concat_eq_append] at h ⊢
          rw [List.append_cons, ← List.append_assoc, List.getLast?_concat] at h
          rw [List.getLast?_concat, h]
    · exfalso
      exact hline (List.mem_append_left _ (List.mem_of_getLast? h))

theorem heredocBody?_eq_none_iff (hl : IsLabel l) :
    heredocBody? l s = none ↔ ∀ a b, s = a ++ b → EndsLine a → ¬ ClosesAt l b := by
  fun_induction heredocBody? l s with
  | case1 s hc =>
    simp only [reduceCtorEq, false_iff]
    intro h
    exact h [] s rfl (.inl rfl) ((closesHeredoc_iff hl).mp hc)
  | case2 s hc line hlt ih =>
    have hsplit := line_append hlt
    rw [Option.map_eq_none_iff, ih]
    constructor
    · intro h a b heq ha
      rcases ha.cases (not_mem_line s) (hsplit.trans heq) with rfl | ⟨a', _, hrest, ha'⟩
      · rw [List.nil_append] at heq
        rw [← closesHeredoc_iff hl, ← heq]
        exact hc
      · exact h a' b hrest ha'
    · intro h a b heq ha
      refine h (s.takeWhile (· ≠ '\n') ++ '\n' :: a) b ?_ (.inr ?_)
      · rw [List.append_assoc, List.cons_append, ← heq, hsplit]
      · rcases ha with rfl | ha
        · rw [List.getLast?_concat]
        · rw [List.getLast?_append, List.getLast?_cons, ha]
          simp
  | case3 s hc line hlt =>
    refine ⟨fun _ a b heq ha => ?_, fun _ => rfl⟩
    have hnone : '\n' ∉ s := by
      have hall := (List.takeWhile_prefix (· ≠ '\n')).eq_of_length_le (Nat.le_of_not_lt hlt)
      rw [← hall]
      exact not_mem_line s
    rcases ha with rfl | ha
    · rw [← closesHeredoc_iff hl, ← List.nil_append b, ← heq]
      exact hc
    · rw [heq] at hnone
      exact absurd (List.mem_append_left b (List.mem_of_getLast? ha)) hnone

end Lexeme

end PhpOutline
