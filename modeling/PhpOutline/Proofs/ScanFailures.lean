import PhpOutline.Proofs.EnumKeyword
import PhpOutline.Proofs.HeredocText

/-!
# Where reading fails

A source has no tokens if reading comes, in PHP, to a text that starts with something that never
ends, or with a character that no lexeme starts with. `Fault` lists these texts by what stands in
them, and `Scans` is the reading up to there. Every other text in PHP starts with a lexeme.
-/

namespace PhpOutline

open Lexeme

/-! ## What never ends -/

/-- A text in which every backslash has the character behind it with it. -/
inductive Escaped : List Char → Prop
  | nil : Escaped []
  | plain {c : Char} {s : List Char} (hc : c ≠ '\\') (h : Escaped s) : Escaped (c :: s)
  | pair {c : Char} {s : List Char} (h : Escaped s) : Escaped ('\\' :: c :: s)

/-- A control character that is no blank of the language. -/
def IsControl (c : Char) : Prop :=
  (c.toNat < 32 ∧ c ≠ '\t' ∧ c ≠ '\n' ∧ c ≠ '\r') ∨ c.toNat = 127

instance (c : Char) : Decidable (IsControl c) := by unfold IsControl; infer_instance

/-- The texts in PHP that cannot be read on, and the errors of a reading that comes to them on a
line. -/
inductive Fault (line : Nat) : List Char → LexError → Prop
  | string {q : Char} {s : List Char} (hq : q ∈ ['\'', '"', '\x60'])
      (h : ∀ a b, s = a ++ q :: b → ¬ Escaped a) :
      Fault line (q :: s) (.unterminatedString line)
  | comment {s : List Char} (h : ¬ ['*', '/'] <:+: s) :
      Fault line ('/' :: '*' :: s) (.unterminatedComment line)
  | heredoc {l head body : List Char} (hl : IsLabel l) (hhead : Heads l head)
      (h : ∀ a b, body = a ++ b → EndsLine a → ¬ ClosesAt l b) :
      Fault line (head ++ body) (.unterminatedHeredoc (.ofList l) line)
  | character {c : Char} {s : List Char} (hc : IsControl c) :
      Fault line (c :: s) (.unexpectedCharacter c line)

namespace Lexeme

variable {q c : Char} {s : List Char}

theorem escaped_pair : Escaped ('\\' :: c :: s) ↔ Escaped s := by
  constructor
  · intro h
    cases h with
    | plain hc => exact absurd rfl hc
    | pair h => exact h
  · exact .pair

theorem escaped_plain (hc : c ≠ '\\') : Escaped (c :: s) ↔ Escaped s := by
  constructor
  · intro h
    cases h with
    | plain _ h => exact h
    | pair => exact absurd rfl hc
  · exact .plain hc

theorem not_escaped_backslash : ¬ Escaped ['\\'] := by
  intro h
  cases h with
  | plain hc => exact hc rfl

theorem ne_backslash (hlast : c = '\\' → s = [] → False)
    (hpair : ∀ d r, c = '\\' → s = d :: r → False) : c ≠ '\\' := by
  intro hc
  cases s with
  | nil => exact hlast hc rfl
  | cons d r => exact hpair d r hc rfl

/-- A string is not closed if and only if every later quote of its kind belongs to an escape. -/
theorem closingLength?_eq_none_iff (hq : q ≠ '\\') :
    closingLength? q s = none ↔ ∀ a b, s = a ++ q :: b → ¬ Escaped a := by
  fun_induction closingLength? q s with
  | case1 => simp
  | case2 =>
    refine ⟨fun _ a b h => ?_, fun _ => rfl⟩
    cases a with
    | nil => exact absurd (List.cons.inj h).1.symm hq
    | cons d a => simp at h
  | case3 c s ih =>
    rw [Option.map_eq_none_iff, ih]
    constructor
    · intro h a b heq ha
      rcases a with _ | ⟨d, _ | ⟨e, a⟩⟩
      · exact hq (List.cons.inj heq).1.symm
      · obtain ⟨rfl, _⟩ := List.cons.inj heq
        exact not_escaped_backslash ha
      · obtain ⟨hd, hrest⟩ := List.cons.inj heq
        rw [← hd] at ha
        exact h a b (List.cons.inj hrest).2 (escaped_pair.mp ha)
    · intro h a b heq ha
      exact h ('\\' :: c :: a) b (by rw [heq]; rfl) (.pair ha)
  | case4 s =>
    simp only [reduceCtorEq, false_iff]
    exact fun h => h [] s rfl .nil
  | case5 c s hlast hpair hne ih =>
    have hc := ne_backslash hlast hpair
    rw [Option.map_eq_none_iff, ih]
    constructor
    · intro h a b heq ha
      cases a with
      | nil => exact hne (List.cons.inj heq).1
      | cons d a =>
        obtain ⟨hd, hrest⟩ := List.cons.inj heq
        rw [← hd] at ha
        exact h a b hrest ((escaped_plain hc).mp ha)
    · intro h a b heq ha
      exact h (c :: a) b (by rw [heq]; rfl) (.plain hc ha)

/-! ## Strings byte by byte

In bytes, a backslash has one byte with it, which may be the first of several of a character. The
bytes behind that one are above ASCII, so the search loses no quote by it and finds none that is not
there. -/

def closingByteLength? (quote : UInt8) : List UInt8 → Option Nat
  | [] => none
  | b :: s =>
    if b = 92 then (closingByteLength? quote (s.drop 1)).map (· + 2)
    else if b = quote then some 1
    else (closingByteLength? quote s).map (· + 1)
termination_by s => s.length

def bytesOf (s : List Char) : List UInt8 := s.flatMap String.utf8EncodeChar

theorem bytesOf_cons (c : Char) (s : List Char) :
    bytesOf (c :: s) = String.utf8EncodeChar c ++ bytesOf s :=
  rfl

theorem utf8EncodeChar_cases (c : Char) :
    (c.toNat < 128 ∧ String.utf8EncodeChar c = [UInt8.ofNat c.toNat]) ∨
    (128 ≤ c.toNat ∧ ∀ b ∈ String.utf8EncodeChar c, 128 ≤ b.toNat) := by
  by_cases hc : c.val.toNat ≤ 127
  · refine .inl ⟨Nat.lt_succ_of_le hc, ?_⟩
    unfold String.utf8EncodeChar
    dsimp only
    rw [if_pos hc]
    rfl
  · exact .inr ⟨Nat.lt_of_not_le hc, fun b hb => le_of_mem_utf8EncodeChar hc hb⟩

theorem utf8EncodeChar_eq_cons (c : Char) :
    ∃ b bs, String.utf8EncodeChar c = b :: bs ∧ ∀ b' ∈ bs, 128 ≤ b'.toNat := by
  rcases utf8EncodeChar_cases c with ⟨-, h⟩ | ⟨-, h⟩
  · exact ⟨_, [], h, by simp⟩
  · obtain ⟨b, bs, hbs⟩ := List.exists_cons_of_ne_nil String.utf8EncodeChar_ne_nil
    rw [hbs] at h
    exact ⟨b, bs, hbs, (List.forall_mem_cons.mp h).2⟩

theorem closingByteLength?_plain {quote b : UInt8} {s : List UInt8} (hslash : b ≠ 92)
    (hquote : b ≠ quote) :
    closingByteLength? quote (b :: s) = (closingByteLength? quote s).map (· + 1) := by
  rw [closingByteLength?, if_neg hslash, if_neg hquote]

theorem closingByteLength?_high {quote : UInt8} {bs s : List UInt8} (hq : quote.toNat < 128)
    (h : ∀ b ∈ bs, 128 ≤ b.toNat) :
    closingByteLength? quote (bs ++ s) = (closingByteLength? quote s).map (· + bs.length) := by
  induction bs with
  | nil => simp
  | cons b bs ih =>
    rw [List.forall_mem_cons] at h
    have hslash : b ≠ 92 := by
      rintro rfl
      exact absurd h.1 (by decide)
    have hquote : b ≠ quote := by
      rintro rfl
      omega
    rw [List.cons_append, closingByteLength?_plain hslash hquote, ih h.2, Option.map_map]
    rfl

theorem map_length_take_cons (c : Char) (s : List Char) (o : Option Nat) :
    (o.map (· + 1)).map (fun n => (bytesOf ((c :: s).take n)).length) =
      (o.map fun n => (bytesOf (s.take n)).length).map (· + (String.utf8EncodeChar c).length) := by
  cases o with
  | none => rfl
  | some n => simp [List.take_succ_cons, bytesOf_cons, Nat.add_comm]

theorem eq_of_byte_eq {c d : Char} (hc : c.toNat < 128) (hd : d.toNat < 128)
    (h : UInt8.ofNat c.toNat = UInt8.ofNat d.toNat) : c = d := by
  have hnat := congrArg UInt8.toNat h
  rw [UInt8.toNat_ofNat', UInt8.toNat_ofNat'] at hnat
  exact Char.toNat_inj.mp (by omega)

theorem closingByteLength?_bytesOf (hq : isQuote q = true) :
    closingByteLength? (UInt8.ofNat q.toNat) (bytesOf s) =
      (closingLength? q s).map fun n => (bytesOf (s.take n)).length := by
  obtain ⟨hascii, hslash⟩ : q.toNat < 128 ∧ q ≠ '\\' := by
    rw [isQuote, List.contains_iff_mem] at hq
    simp only [List.mem_cons, List.not_mem_nil, or_false] at hq
    rcases hq with rfl | rfl | rfl <;> decide
  have hbyte : (UInt8.ofNat q.toNat).toNat < 128 := by
    rw [UInt8.toNat_ofNat']
    omega
  have hplain : ∀ {c : Char}, c.toNat < 128 → c ≠ '\\' → UInt8.ofNat c.toNat ≠ 92 :=
    fun hc hne h => hne (eq_of_byte_eq hc (by decide) h)
  have hescape : String.utf8EncodeChar '\\' = [92] := rfl
  fun_induction closingLength? q s with
  | case1 => rw [bytesOf, List.flatMap_nil, closingByteLength?]; rfl
  | case2 =>
    rw [bytesOf_cons, hescape, List.singleton_append, closingByteLength?, if_pos rfl, bytesOf,
      List.flatMap_nil, List.drop_nil, closingByteLength?]
    rfl
  | case3 d s ih =>
    obtain ⟨b, bs, hd, hbs⟩ := utf8EncodeChar_eq_cons d
    have htwo : (closingLength? q s).map (· + 2) =
        ((closingLength? q s).map (· + 1)).map (· + 1) := by
      rw [Option.map_map]
      rfl
    rw [htwo, map_length_take_cons, map_length_take_cons, ← ih, bytesOf_cons, hescape,
      List.singleton_append, closingByteLength?, if_pos rfl, bytesOf_cons, hd, List.cons_append,
      List.drop_one, List.tail_cons, closingByteLength?_high hbyte hbs, Option.map_map,
      Option.map_map]
    rfl
  | case4 s =>
    rcases utf8EncodeChar_cases q with ⟨-, henc⟩ | ⟨hhigh, -⟩
    · rw [bytesOf_cons, henc, List.singleton_append, closingByteLength?,
        if_neg (hplain hascii hslash), if_pos rfl, Option.map_some, List.take_succ_cons,
        List.take_zero, bytesOf_cons, henc]
      rfl
    · omega
  | case5 c s hlast hpair hne ih =>
    have hc := ne_backslash hlast hpair
    rw [map_length_take_cons, ← ih, bytesOf_cons]
    rcases utf8EncodeChar_cases c with ⟨hlow, henc⟩ | ⟨-, hhigh⟩
    · rw [henc, List.singleton_append,
        closingByteLength?_plain (hplain hlow hc) fun h => hne (eq_of_byte_eq hlow hascii h)]
      rfl
    · exact closingByteLength?_high hbyte hhigh

/-! ## Comments and punctuation -/

theorem find?_eq_none_iff {pat : List Char} (hpat : pat ≠ []) :
    Text.find? pat s = none ↔ ¬ pat <:+: s := by
  induction s with
  | nil => simp [Text.find?, hpat]
  | cons c s ih =>
    unfold Text.find?
    rw [List.infix_cons_iff, ← List.isPrefixOf_iff_prefix]
    split
    · rename_i h
      simp [h]
    · rename_i h
      simp [h, ih]

theorem blockCommentLength?_eq_none_iff :
    blockCommentLength? ('/' :: '*' :: s) = none ↔ ¬ ['*', '/'] <:+: s := by
  rw [blockCommentLength?, Option.map_eq_none_iff]
  exact find?_eq_none_iff (by simp)

theorem operator?_eq_none_iff : operator? (c :: s) = none ↔ punctuationKind? c = none := by
  -- a longer operator starts with a character that is punctuation by itself
  have hfirst : ∀ op ∈ operators, (op.toList.head?.bind punctuationKind?).isSome = true := by
    decide +kernel
  unfold operator?
  cases hop : operators.find? (·.toList.isPrefixOf (c :: s)) with
  | none => simp
  | some op =>
    have hkind := hfirst op (List.mem_of_find?_eq_some hop)
    have hprefix := List.find?_some hop
    cases hlist : op.toList with
    | nil =>
      rw [hlist] at hkind
      cases hkind
    | cons d r =>
      rw [hlist] at hkind hprefix
      obtain ⟨rfl, _⟩ := cons_of_isPrefixOf hprefix
      simpa [Option.isSome_iff_ne_none] using hkind

end Lexeme

namespace Lexer

variable {ctx : Context} {line : Nat} {c : Char} {s : List Char} {e : LexError}

instance (c : Char) : Decidable (StartsPunctuation c) :=
  decidable_of_iff (isBlankChar c = false ∧ isQuote c = false ∧ c ≠ '#' ∧ c ≠ '$' ∧
    c.isDigit = false ∧ c ≠ '\\' ∧
      isIdentStart c = false)
    ⟨fun ⟨h1, h2, h3, h4, h5, h6, h7⟩ => ⟨h1, h2, h3, h4, h5, h6, h7⟩,
      fun ⟨h1, h2, h3, h4, h5, h6, h7⟩ => ⟨h1, h2, h3, h4, h5, h6, h7⟩⟩

theorem StartsPunctuation.toNat_lt (h : StartsPunctuation c) : c.toNat < 128 := by
  have hident := h.ident
  simp only [isIdentStart, Bool.or_eq_false_iff, decide_eq_false_iff_not] at hident
  omega

/-- The control characters are what is left when every character that starts a lexeme is taken
away. -/
theorem isControl_iff : IsControl c ↔ StartsPunctuation c ∧ punctuationKind? c = none := by
  have hascii : ∀ n < 128, IsControl (Char.ofNat n) ↔
      StartsPunctuation (Char.ofNat n) ∧ punctuationKind? (Char.ofNat n) = none := by
    decide +kernel
  have hchar : c.toNat < 128 → (IsControl c ↔ StartsPunctuation c ∧ punctuationKind? c = none) := by
    intro hc
    have := hascii c.toNat hc
    rwa [Char.ofNat_toNat] at this
  constructor
  · intro h
    refine (hchar ?_).mp h
    rcases h with h | h
    · omega
    · omega
  · intro h
    exact (hchar h.1.toNat_lt).mpr h

/-! The other way round: the start of a faulty text selects its reader, and no reader before it. -/

theorem phpChunk_of_isQuote (hc : isQuote c = true) :
    phpChunk ctx line c (c :: s) = quotation line c (c :: s) := by
  rw [isQuote, List.contains_iff_mem] at hc
  simp only [List.mem_cons, List.not_mem_nil, or_false] at hc
  rcases hc with rfl | rfl | rfl <;> rfl

theorem phpChunk_of_blockComment :
    phpChunk ctx line '/' ('/' :: '*' :: s) = blockComment line ('/' :: '*' :: s) := rfl

theorem phpChunk_of_heredocHeader? {header : HeredocHeader}
    (h : heredocHeader? ('<' :: s) = some header) :
    phpChunk ctx line '<' ('<' :: s) = heredoc line header ('<' :: s) := by
  simp [phpChunk, isBlankChar, isQuote, h]

theorem phpChunk_of_isControl (hc : IsControl c) :
    phpChunk ctx line c (c :: s) = .error (.unexpectedCharacter c line) := by
  obtain ⟨hstarts, hkind⟩ := isControl_iff.mp hc
  have hne : ∀ d, ¬ IsControl d → c ≠ d := fun d hd heq => hd (heq ▸ hc)
  have hselects := phpChunk_selects ctx line c s
  generalize hr : phpChunk ctx line c (c :: s) = r at hselects ⊢
  cases hselects with
  | blank h =>
    rw [hstarts.blank] at h
    cases h
  | closeTag => exact absurd rfl (hne '?' (by decide))
  | attributeOpen => exact absurd rfl hstarts.hash
  | lineComment h =>
    rcases h with ⟨h, _⟩ | ⟨h, _⟩
    · exact absurd h hstarts.hash
    · exact absurd h (hne '/' (by decide))
  | blockComment => exact absurd rfl (hne '/' (by decide))
  | quotation h =>
    rw [hstarts.quote] at h
    cases h
  | heredoc => exact absurd rfl (hne '<' (by decide))
  | dollar => exact absurd rfl hstarts.dollar
  | number h =>
    simp only [startsNumber, hstarts.digit, Bool.false_or, Bool.and_eq_true, beq_iff_eq] at h
    exact absurd h.1 (hne '.' (by decide))
  | name h =>
    rcases h with h | h
    · exact absurd h hstarts.separator
    · rw [hstarts.ident] at h
      cases h
  | punctuation _ h =>
    rw [← h, punctuation, operator?_eq_none_iff.mpr hkind]

/-! Each reader fails by one fault. -/

theorem blockComment_error_iff :
    blockComment line ('/' :: '*' :: s) = .error e ↔ ¬ ['*', '/'] <:+: s ∧
      e = .unterminatedComment line := by
  rw [← blockCommentLength?_eq_none_iff, blockComment]
  cases blockCommentLength? ('/' :: '*' :: s) <;> simp [eq_comm]

theorem quotation_error_iff (hc : c ∈ ['\'', '"', '\x60']) :
    quotation line c (c :: s) = .error e ↔
      (∀ a b, s = a ++ c :: b → ¬ Escaped a) ∧ e = .unterminatedString line := by
  have hne : c ≠ '\\' := by
    rintro rfl
    revert hc
    decide
  rw [← closingLength?_eq_none_iff hne, quotation, List.drop_one, List.tail_cons]
  cases closingLength? c s <;> simp [eq_comm]

theorem heredoc_error_iff {header : HeredocHeader} {head body : List Char}
    (hl : IsLabel header.label) (hlength : head.length = header.length) :
    heredoc line header (head ++ body) = .error e ↔
      (∀ a b, body = a ++ b → EndsLine a → ¬ ClosesAt header.label b) ∧
        e = .unterminatedHeredoc (.ofList header.label) line := by
  rw [← heredocBody?_eq_none_iff hl, heredoc, ← hlength, List.drop_left]
  cases heredocBody? header.label body with
  | none => simp [eq_comm]
  | some parts =>
    obtain ⟨_ | n, close⟩ := parts <;> simp

theorem punctuation_error_iff :
    punctuation line c (c :: s) = .error e ↔ punctuationKind? c = none ∧
      e = .unexpectedCharacter c line := by
  rw [← operator?_eq_none_iff, punctuation]
  cases operator? (c :: s) <;> simp [eq_comm]

theorem phpChunk_error_iff : phpChunk ctx line c (c :: s) = .error e ↔ Fault line (c :: s) e := by
  constructor
  · intro h
    have hselects := phpChunk_selects ctx line c s
    rw [h] at hselects
    cases hselects with
    | blockComment h =>
      obtain ⟨hopen, rfl⟩ := blockComment_error_iff.mp h
      exact .comment hopen
    | quotation hc h =>
      rw [isQuote, List.contains_iff_mem] at hc
      obtain ⟨hopen, rfl⟩ := (quotation_error_iff hc).mp h
      exact .string hc hopen
    | heredoc hh h =>
      obtain ⟨hl, head, body, heq, hhead, hlength⟩ := heredocHeader?_eq_some_iff.mp hh
      rw [heq] at h ⊢
      obtain ⟨hopen, rfl⟩ := (heredoc_error_iff hl hlength).mp h
      exact .heredoc hl hhead hopen
    | punctuation hc h =>
      obtain ⟨hkind, rfl⟩ := punctuation_error_iff.mp h
      exact .character (isControl_iff.mpr ⟨hc, hkind⟩)
  · intro h
    generalize hr : c :: s = r at h
    cases h with
    | string hq h =>
      obtain ⟨rfl, rfl⟩ := List.cons.inj hr
      rw [phpChunk_of_isQuote (List.contains_iff_mem.mpr hq)]
      exact (quotation_error_iff hq).mpr ⟨h, rfl⟩
    | comment h =>
      obtain ⟨rfl, rfl⟩ := List.cons.inj hr
      rw [phpChunk_of_blockComment]
      exact blockComment_error_iff.mpr ⟨h, rfl⟩
    | @heredoc l head body hl hhead h =>
      have hheader : heredocHeader? (c :: s) = some ⟨l, head.length⟩ :=
        heredocHeader?_eq_some_iff.mpr ⟨hl, head, body, hr, hhead, rfl⟩
      obtain rfl : c = '<' := by
        cases hhead
        exact (List.cons.inj hr).1
      rw [← hr, phpChunk_of_heredocHeader? hheader, hr]
      exact (heredoc_error_iff hl rfl).mpr ⟨h, rfl⟩
    | character hc =>
      obtain ⟨rfl, rfl⟩ := List.cons.inj hr
      exact phpChunk_of_isControl hc

/-! ## Reading up to a place -/

/-- Reading some chunks: from a state and a text to the tokens cut off, the state behind them and
the rest of the text. -/
inductive Scans : State → List Char → List Token → State → List Char → Prop
  | refl (st : State) (s : List Char) : Scans st s [] st s
  | step {st st' : State} {c : Char} {s r : List Char} {k : Chunk} {ts : List Token}
      (hk : st.chunk c (c :: s) = .ok k)
      (h : Scans { (st.cut k.lexemes (c :: s)).2 with mode := k.mode }
        (s.drop (k.size - 1)) ts st' r) :
      Scans st (c :: s) ((st.cut k.lexemes (c :: s)).1 ++ ts) st' r

variable {st st' : State} {ts us : List Token} {r : List Char} {k : Chunk}

theorem tokensFrom_error_iff :
    tokensFrom st s = .error e ↔ ∃ ts st' c r, Scans st s ts st' (c :: r) ∧
      st'.chunk c (c :: r) = .error e := by
  constructor
  · intro h
    fun_induction tokensFrom st s with
    | case1 => cases h
    | case2 st c s e' hk =>
      cases h
      exact ⟨[], st, c, s, .refl _ _, hk⟩
    | case3 st c s k hk us st' hcut e' hrest ih =>
      cases h
      obtain ⟨ts, st'', d, r, hscans, hfails⟩ := ih hrest
      exact ⟨(st.cut k.lexemes (c :: s)).1 ++ ts, st'', d, r, .step hk (by rw [hcut]; exact hscans),
        hfails⟩
    | case4 => cases h
  · rintro ⟨ts, st', c, r, hscans, hfails⟩
    generalize hr : c :: r = t at hscans
    induction hscans with
    | refl st t =>
      subst hr
      rw [tokensFrom, hfails]
    | @step st st' d s t k ts hk _ ih =>
      rw [tokensFrom, hk]
      dsimp only
      rw [ih hfails hr]

theorem textOf_append (ts us : List Token) : textOf (ts ++ us) = textOf ts ++ textOf us :=
  List.flatMap_append

theorem textOf_cut (st : State) (ls : List (Kind × Nat)) (s : List Char) :
    textOf (st.cut ls s).1 = s.take (Chunk.size ⟨ls, .php⟩) ∧
      (st.cut ls s).2.line = st.line + (textOf (st.cut ls s).1).count '\n' := by
  induction ls generalizing st s with
  | nil => exact ⟨rfl, rfl⟩
  | cons l ls ih =>
    obtain ⟨kind, n⟩ := l
    obtain ⟨htext, hline⟩ := ih (st.push (st.token kind n s)) (s.drop n)
    have hfirst : (st.token kind n s).text.toList = s.take n := String.toList_ofList
    have hsize : Chunk.size ⟨(kind, n) :: ls, .php⟩ = n + Chunk.size ⟨ls, .php⟩ := rfl
    simp only [State.cut, textOf, List.flatMap_cons] at htext hline ⊢
    rw [hline, hfirst, htext, hsize, List.take_add, List.count_append]
    refine ⟨rfl, ?_⟩
    rw [State.push, hfirst, Nat.add_assoc]

theorem Scans.place (h : Scans st s ts st' r) :
    textOf ts ++ r = s ∧ st'.line = st.line + (textOf ts).count '\n' := by
  induction h with
  | refl => exact ⟨rfl, rfl⟩
  | @step st st' c s r k ts hk _ ih =>
    obtain ⟨htext, hline⟩ := textOf_cut st k.lexemes (c :: s)
    have hdrop : s.drop (k.size - 1) = (c :: s).drop k.size := by
      rw [← List.drop_succ_cons (a := c), Nat.sub_add_cancel (chunk_fits hk).size_pos]
    rw [hdrop] at ih
    constructor
    · rw [textOf_append, List.append_assoc, ih.1, htext]
      exact List.take_append_drop k.size (c :: s)
    · rw [ih.2, textOf_append, List.count_append]
      show (st.cut k.lexemes (c :: s)).2.line + _ = _
      rw [hline, Nat.add_assoc]

theorem chunk_error_iff :
    st.chunk c (c :: s) = .error e ↔ st.mode = .php ∧ Fault st.line (c :: s) e := by
  unfold State.chunk
  cases hmode : st.mode with
  | html => simp
  | php => simp [phpChunk_error_iff]

end Lexer

theorem Fault.ne_nil {line : Nat} {r : List Char} {e : LexError} (h : Fault line r e) : r ≠ [] := by
  cases h with
  | string | comment | character => simp
  | heredoc _ hhead =>
    cases hhead
    simp

theorem tokenize_error_iff {source : String} {e : LexError} :
    tokenize source = .error e ↔ ∃ (ts : List Token) (st : Lexer.State) (r : List Char),
      Lexer.Scans {} source.toList ts st r ∧ st.mode = .php ∧ textOf ts ++ r = source.toList ∧
        Fault (1 + (textOf ts).count '\n') r e := by
  rw [tokenize, Lexer.tokensFrom_error_iff]
  constructor
  · rintro ⟨ts, st, c, r, hscans, hfails⟩
    obtain ⟨hmode, hfault⟩ := Lexer.chunk_error_iff.mp hfails
    obtain ⟨htext, hline⟩ := hscans.place
    rw [hline] at hfault
    exact ⟨ts, st, c :: r, hscans, hmode, htext, hfault⟩
  · rintro ⟨ts, st, r, hscans, hmode, _, hfault⟩
    obtain ⟨c, r, rfl⟩ := List.exists_cons_of_ne_nil hfault.ne_nil
    refine ⟨ts, st, c, r, hscans, Lexer.chunk_error_iff.mpr ⟨hmode, ?_⟩⟩
    rw [hscans.place.2]
    exact hfault

theorem Lexer.Scans.line_lt {source : String} {ts : List Token} {st : Lexer.State} {r : List Char}
    (h : Lexer.Scans {} source.toList ts st r) (hn : lineFeeds source.toByteArray < 2 ^ 32 - 1) :
    st.line < 2 ^ 32 := by
  obtain ⟨htext, hline⟩ := h.place
  have hcount : (textOf ts).count '\n' + r.count '\n' = source.toList.count '\n' := by
    rw [← List.count_append, htext]
  have hfirst : st.line = 1 + (textOf ts).count '\n' := hline
  rw [lineFeeds_toByteArray] at hn
  omega

/-- Reading a source fails if and only if it comes, in PHP and behind tokens that are all the text
before, to a string, a comment or a heredoc that never ends or to a control character. The error
names which, and the line on which it starts, a 32-bit number if the source has fewer than `2 ^ 32 -
1` line feeds. So no printable character and none past ASCII is ever refused. Where a string ends is
the same for its characters and for its bytes. -/
theorem tokenize_fails_at_fault (source : String) :
    (∀ e, tokenize source = .error e ↔ ∃ (ts : List Token) (st : Lexer.State) (r : List Char),
      Lexer.Scans {} source.toList ts st r ∧ st.mode = .php ∧ textOf ts ++ r = source.toList ∧
        Fault (1 + (textOf ts).count '\n') r e) ∧
    (lineFeeds source.toByteArray < 2 ^ 32 - 1 → ∀ ts st r, Lexer.Scans {} source.toList ts st r →
      st.line = 1 + (textOf ts).count '\n' ∧ st.line < 2 ^ 32) ∧
    (∀ c line, 32 ≤ c.toNat → c.toNat ≠ 127 →
      tokenize source ≠ .error (.unexpectedCharacter c line)) ∧
    ∀ q s, isQuote q = true → closingByteLength? (UInt8.ofNat q.toNat) (bytesOf s) =
      (closingLength? q s).map fun n => (bytesOf (s.take n)).length := by
  refine ⟨fun e => tokenize_error_iff, fun hn ts st r hscans => ⟨hscans.place.2, hscans.line_lt hn⟩,
    fun c line hlow hdel herror => ?_, fun q s => closingByteLength?_bytesOf⟩
  obtain ⟨_, _, r, _, _, _, hfault⟩ := tokenize_error_iff.mp herror
  cases hfault with
  | character hc =>
    rcases hc with ⟨hlt, _⟩ | heq
    · omega
    · exact hdel heq

theorem tokenize_fails_at_fault_sample :
    tokenize "<?php\n$é =\n'a\\';" = .error (.unterminatedString 3) ∧
    (∃ (ts : List Token) (st : Lexer.State) (r : List Char),
      Lexer.Scans {} "<?php\n$é =\n'a\\';".toList ts st r ∧ st.mode = .php ∧
        textOf ts ++ r = "<?php\n$é =\n'a\\';".toList ∧
        Fault (1 + (textOf ts).count '\n') r (.unterminatedString 3) ∧
        st.line = 1 + (textOf ts).count '\n' ∧ st.line < 2 ^ 32) ∧
    tokenize "<?php\n$é =\n'a\\';" ≠ .error (.unexpectedCharacter 'é' 2) ∧
    closingByteLength? 39 (bytesOf "\\é';".toList) = some 4 := by
  have h : tokenize "<?php\n$é =\n'a\\';" = .error (.unterminatedString 3) := by cbv
  have hn : lineFeeds "<?php\n$é =\n'a\\';".toByteArray < 2 ^ 32 - 1 := by
    rw [lineFeeds_toByteArray]
    decide
  obtain ⟨hfails, hlines, hprintable, hbytes⟩ := tokenize_fails_at_fault "<?php\n$é =\n'a\\';"
  obtain ⟨ts, st, r, hscans, hmode, htext, hfault⟩ := (hfails _).mp h
  exact ⟨h, ⟨ts, st, r, hscans, hmode, htext, hfault, hlines hn ts st r hscans⟩,
    hprintable 'é' 2 (by decide) (by decide), hbytes '\'' "\\é';".toList rfl⟩

end PhpOutline
