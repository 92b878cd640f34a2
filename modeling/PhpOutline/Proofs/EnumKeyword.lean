import PhpOutline.Proofs.ClosingBrackets
import PhpOutline.Proofs.TokenPlacement
import PhpOutline.Proofs.WordAhead

/-!
# The word `enum`

Whether `enum` is a keyword is decided from the text behind it, before that text is cut into tokens.
If the next token that is no blank and no comment starts with a word, this is the word that decides.
Otherwise a word may still be found, inside of a comment or behind it, and `enum` is taken for a
keyword where no declaration follows.
-/

namespace PhpOutline

open Lexeme

def codeKinds (ts : List Token) : List Kind := (ts.map (·.kind)).filter Taxonomy.php.isCode

/-- Whether a word behind these tokens can only be a name: after a member access, or where a
function or a constant gets its name. -/
def NameForced (before : List Token) : Prop :=
  ∃ k, (codeKinds before).getLast? = some k ∧
    (k ∈ [Kind.objectOperator, .doubleColon, .functionKw, .constKw] ∨
      (k = .ampersand ∧ (codeKinds before).dropLast.getLast? = some .functionKw))

def isSpacing (k : Kind) : Bool := [Kind.whitespace, .comment, .docComment].contains k

def leadingWord? : List Char → Option (List Char)
  | [] => none
  | c :: s => if isIdentStart c then some (c :: s.takeWhile isIdentRest) else none

/-- The word at the start of the first token that is no blank and no comment. -/
def nextWord? (ts : List Token) : Option (List Char) :=
  (ts.find? fun t => !isSpacing t.kind).bind fun t => leadingWord? t.text.toList

/-- Whether a word starts the list of what a type extends or implements. -/
def Inherits (w : List Char) : Prop := w.map Char.toLower ∈ ["extends".toList, "implements".toList]

def textOf (ts : List Token) : List Char := ts.flatMap (·.text.toList)

namespace Lexer

variable {ctx : Context} {line n : Nat} {c : Char} {s w : List Char} {k : Chunk} {kind : Kind}

/-! ## What a chunk holds -/

theorem isSpacing_nameKind (ctx : Context) (text after : List Char) :
    isSpacing (nameKind ctx text after) = false :=
  nameKind_of (by decide) (by decide) ctx text after

theorem isSpacing_operatorKinds : ∀ kind ∈ operatorKinds, isSpacing kind = false := by decide

theorem isIdentStart_of_isDigit (h : c.isDigit = true) : isIdentStart c = false := by
  simp only [Char.isDigit, Bool.and_eq_true, decide_eq_true_eq, UInt32.le_iff_toNat_le,
    ge_iff_le] at h
  change 48 ≤ c.toNat ∧ c.toNat ≤ 57 at h
  by_contra hstart
  simp only [isIdentStart, Char.isAlpha, Char.isUpper, Char.isLower, Bool.not_eq_false,
    Bool.or_eq_true, Bool.and_eq_true, decide_eq_true_eq, UInt32.le_iff_toNat_le, ge_iff_le,
    beq_iff_eq] at hstart
  change (((65 ≤ c.toNat ∧ c.toNat ≤ 90) ∨ (97 ≤ c.toNat ∧ c.toNat ≤ 122)) ∨ c = '_') ∨
    128 ≤ c.toNat at hstart
  rcases hstart with ((hc | hc) | rfl) | hc
  · omega
  · omega
  · simp at h
  · omega

def Chunk.Other (k : Chunk) : Prop :=
  ∃ l rest, k.lexemes = l :: rest ∧ isSpacing l.1 = false ∧
    ∀ l' ∈ rest, l'.1 = .encapsedAndWhitespace ∨ l'.1 = .endHeredoc

theorem Chunk.other_one (h : isSpacing kind = false) : (Chunk.one kind n).Other :=
  ⟨_, [], rfl, h, by simp⟩

theorem heredoc_other {header : HeredocHeader} (h : heredoc line header s = .ok k) : k.Other := by
  unfold heredoc at h
  split at h
  · cases h
  · cases h
    exact ⟨_, _, rfl, rfl, by simp⟩
  · cases h
    exact ⟨_, _, rfl, rfl, by simp⟩

theorem dollar_other (s : List Char) : (dollar s).Other := by
  unfold dollar
  split
  · exact Chunk.other_one rfl
  · exact Chunk.other_one rfl

theorem number_other (s : List Char) : (number s).Other := by
  unfold number numberKind
  split
  · exact Chunk.other_one rfl
  · exact Chunk.other_one rfl

theorem name_other (ctx : Context) (s : List Char) : (name ctx s).Other := by
  unfold name
  split
  · exact Chunk.other_one rfl
  · exact Chunk.other_one (isSpacing_nameKind _ _ _)

theorem phpChunk_cases (h : phpChunk ctx line c (c :: s) = .ok k) :
    (isBlankChar c = true ∧ k = .one .whitespace ((c :: s).takeWhile isBlankChar).length) ∨
    (((c = '#' ∧ s.head? ≠ some '[') ∨ (c = '/' ∧ s.head? = some '/')) ∧
      k = .one .comment (lineCommentLength (c :: s))) ∨
    (c = '/' ∧ s.head? = some '*' ∧ ∃ n, blockCommentLength? (c :: s) = some n ∧
      k = .one (blockCommentKind (c :: s)) n) ∨
    (isIdentStart c = true ∧ k = name ctx (c :: s)) ∨ (isIdentStart c = false ∧ k.Other) := by
  have hselects := phpChunk_selects ctx line c s
  rw [h] at hselects
  cases hselects with
  | blank hc => exact .inl ⟨hc, rfl⟩
  | closeTag => exact .inr (.inr (.inr (.inr ⟨rfl, _, [], rfl, rfl, by simp⟩)))
  | attributeOpen => exact .inr (.inr (.inr (.inr ⟨rfl, Chunk.other_one rfl⟩)))
  | lineComment hc => exact .inr (.inl ⟨hc, rfl⟩)
  | blockComment h =>
    obtain ⟨n, hn, rfl⟩ := eq_of_blockComment h
    exact .inr (.inr (.inl ⟨rfl, rfl, n, hn, rfl⟩))
  | quotation hquote h =>
    obtain ⟨n, -, rfl⟩ := eq_of_quotation h
    refine .inr (.inr (.inr (.inr ⟨?_, Chunk.other_one rfl⟩)))
    rw [isQuote, List.contains_iff_mem] at hquote
    simp only [List.mem_cons, List.not_mem_nil, or_false] at hquote
    rcases hquote with rfl | rfl | rfl <;> rfl
  | heredoc _ h => exact .inr (.inr (.inr (.inr ⟨rfl, heredoc_other h⟩)))
  | dollar => exact .inr (.inr (.inr (.inr ⟨rfl, dollar_other _⟩)))
  | number hnumber =>
    refine .inr (.inr (.inr (.inr ⟨?_, number_other _⟩)))
    simp only [startsNumber, Bool.or_eq_true, Bool.and_eq_true, beq_iff_eq] at hnumber
    rcases hnumber with hdigit | ⟨rfl, _⟩
    · exact isIdentStart_of_isDigit hdigit
    · rfl
  | name =>
    cases hc : isIdentStart c with
    | true => exact .inr (.inr (.inr (.inl ⟨rfl, rfl⟩)))
    | false => exact .inr (.inr (.inr (.inr ⟨rfl, name_other _ _⟩)))
  | punctuation hc h =>
    obtain ⟨kind, n, hop, rfl⟩ := eq_of_punctuation h
    exact .inr (.inr (.inr (.inr ⟨hc.ident, Chunk.other_one
      (isSpacing_operatorKinds _ (operator?_mem hop))⟩)))

/-! ## Words among the tokens -/

variable {st : State} {before after ts : List Token} {t : Token}

theorem isTrivia_htmlChunk (s : List Char) :
    ∀ l ∈ (htmlChunk s).lexemes, Taxonomy.php.isTrivia l.1 = true := by
  have tag : ∀ {n : Nat} {tag : Kind × Nat}, findOpenTag s = (n, some tag) →
      Taxonomy.php.isTrivia tag.1 = true := by
    intro n tag h
    rcases kind_of_findOpenTag h with hk | hk
    · rw [hk]; rfl
    · rw [hk]; rfl
  unfold htmlChunk
  split
  · simp; rfl
  · rename_i h
    simpa using tag h
  · rename_i h
    simpa using ⟨rfl, tag h⟩

theorem isSome_leadingWord? : (leadingWord? (c :: s)).isSome = isIdentStart c := by
  rw [leadingWord?]
  cases h : isIdentStart c <;> simp

theorem chunk_of_word (hk : st.chunk c (c :: s) = .ok k)
    (hcut : (st.cut k.lexemes (c :: s)).1 = before ++ t :: after)
    (hcode : Taxonomy.php.isCode t.kind = true) (hbody : t.kind ≠ .encapsedAndWhitespace)
    (hend : t.kind ≠ .endHeredoc) (hword : (leadingWord? t.text.toList).isSome = true) :
    st.mode = .php ∧ isIdentStart c = true ∧ k = name st.context (c :: s) := by
  have hkinds := st.kinds_cut k.lexemes (c :: s)
  rw [hcut] at hkinds
  have hmem : t.kind ∈ k.lexemes.map (·.1) := by rw [← hkinds]; simp
  have hpos := (chunk_fits hk).pos
  rw [Taxonomy.isCode, Bool.not_eq_true'] at hcode
  have one : ∀ {kind n}, Taxonomy.php.isTrivia kind = true → k ≠ .one kind n := by
    rintro kind n htrivia rfl
    simp only [Chunk.one, List.map_cons, List.map_nil, List.mem_singleton] at hmem
    rw [hmem, htrivia] at hcode
    cases hcode
  unfold State.chunk at hk
  split at hk
  · cases hk
    obtain ⟨l, hl, heq⟩ := List.mem_map.mp hmem
    have := isTrivia_htmlChunk _ l hl
    simp [heq, hcode] at this
  · rename_i hmode
    rcases phpChunk_cases hk with ⟨_, rfl⟩ | ⟨_, rfl⟩ | ⟨_, _, n, _, rfl⟩ | ⟨hc, rfl⟩ |
      ⟨hc, l, rest, hls, _, hrest⟩
    · exact absurd rfl (one rfl)
    · exact absurd rfl (one rfl)
    · refine absurd rfl (one ?_)
      rcases blockCommentKind_cases (c :: s) with h | h
      · rw [h]; rfl
      · rw [h]; rfl
    · exact ⟨hmode, hc, rfl⟩
    · -- the first lexeme starts with no word, and behind it stand parts of a heredoc only
      rw [hls] at hcut
      cases before with
      | nil =>
        obtain ⟨rfl, _⟩ := List.cons.inj hcut
        obtain ⟨m, hm⟩ := Nat.exists_eq_succ_of_ne_zero (Nat.ne_of_gt (hpos l (by rw [hls]; simp)))
        rw [State.token, String.toList_ofList, hm, List.take_succ_cons, isSome_leadingWord?,
          hc] at hword
        cases hword
      | cons u before =>
        obtain ⟨_, hcut⟩ := List.cons.inj hcut
        rw [hls] at hkinds
        have hkinds : (before ++ t :: after).map (·.kind) = rest.map (·.1) := by
          simpa using (List.cons.inj hkinds).2
        have hmem : t.kind ∈ rest.map (·.1) := by rw [← hkinds]; simp
        obtain ⟨l', hl', heq⟩ := List.mem_map.mp hmem
        rcases hrest l' hl' with h | h
        · exact absurd (heq.symm.trans h) hbody
        · exact absurd (heq.symm.trans h) hend

theorem identLength_le_nameLength (hc : isIdentStart c = true) :
    identLength (c :: s) ≤ nameLength (c :: s) := by
  have hlead : ['\\'].isPrefixOf (c :: s) = false := by
    simp [List.isPrefixOf_cons_cons, (ne_of_isIdentStart (d := '\\') hc rfl).symm]
  unfold nameLength
  dsimp only
  rw [hlead, if_neg Bool.false_ne_true, List.drop_zero]
  split
  · omega
  · omega

theorem name_eq (ctx : Context) (hc : isIdentStart c = true) :
    name ctx (c :: s) =
      .one (nameKind ctx ((c :: s).take (nameLength (c :: s)))
        ((c :: s).drop (nameLength (c :: s)))) (nameLength (c :: s)) := by
  have hpos := identLength_le_nameLength (s := s) hc
  rw [identLength, if_pos hc] at hpos
  unfold name
  split
  · omega
  · rfl

theorem context_cut (st : State) (ls : List (Kind × Nat)) (s : List Char) :
    (st.cut ls s).2.context = ((st.cut ls s).1.map (·.kind)).foldl Context.push st.context := by
  induction ls generalizing st s with
  | nil => rfl
  | cons l ls ih =>
    obtain ⟨kind, n⟩ := l
    simp only [State.cut, List.map_cons, List.foldl_cons, ih]
    rfl

theorem tokensFrom_word (h : tokensFrom st s = .ok (before ++ t :: after))
    (hcode : Taxonomy.php.isCode t.kind = true) (hbody : t.kind ≠ .encapsedAndWhitespace)
    (hend : t.kind ≠ .endHeredoc) (hword : (leadingWord? t.text.toList).isSome = true) :
    ∃ (st' : State) (r : List Char), st'.mode = .php ∧ tokensFrom st' r = .ok after ∧
      t.kind = nameKind ((before.map (·.kind)).foldl Context.push st.context) t.text.toList r := by
  -- by the recursion over the chunks: the kind of a name is found from the code before it and the
  -- text behind it, and that text is read next
  fun_induction tokensFrom st s generalizing before with
  | case1 st => simp at h
  | case2 => cases h
  | case3 => cases h
  | case4 st c s k hk us st' hcut vs hvs ih =>
    have hcontext := context_cut st k.lexemes (c :: s)
    rw [hcut] at hcontext
    have heq : us ++ vs = before ++ t :: after := Except.ok.inj h
    have further : ∀ rest, before = us ++ rest → vs = rest ++ t :: after →
        ∃ (st' : State) (r : List Char), st'.mode = .php ∧ tokensFrom st' r = .ok after ∧
        t.kind =
          nameKind ((before.map (·.kind)).foldl Context.push st.context) t.text.toList r := by
      rintro rest rfl rfl
      obtain ⟨st'', r, hmode, hread, hkind⟩ := ih hvs
      refine ⟨st'', r, hmode, hread, ?_⟩
      rw [List.map_append, List.foldl_append, ← hcontext]
      exact hkind
    rcases List.append_eq_append_iff.mp heq with ⟨rest, hbefore, hvs'⟩ | ⟨cs, hus, hcs⟩
    · exact further rest hbefore hvs'
    · cases cs with
      | nil => exact further [] (by simpa using hus.symm) hcs.symm
      | cons u post =>
        obtain ⟨rfl, rfl⟩ := List.cons.inj hcs
        obtain ⟨hmode, hc, rfl⟩ := chunk_of_word hk (by rw [hcut]; exact hus) hcode hbody hend hword
        rw [name_eq st.context hc] at hcut hvs
        have hsize : s.drop (nameLength (c :: s) - 1) = (c :: s).drop (nameLength (c :: s)) := by
          have hpos := identLength_le_nameLength (s := s) hc
          rw [identLength, if_pos hc] at hpos
          rw [← List.drop_succ_cons (a := c), Nat.sub_add_cancel (by omega)]
        cases hcut
        obtain ⟨rfl, hus⟩ := List.append_eq_singleton_iff.mp hus.symm |>.resolve_right (by simp)
        obtain ⟨rfl, rfl⟩ := List.cons.inj hus
        refine ⟨_, _, rfl, hvs, ?_⟩
        show nameKind _ _ _ = nameKind st.context (String.ofList _).toList
          (s.drop (nameLength (c :: s) + 0 - 1))
        rw [String.toList_ofList, Nat.add_zero, hsize]

/-! ## The next word -/

theorem nextWord?_cons_spacing (h : isSpacing t.kind = true) :
    nextWord? (t :: ts) = nextWord? ts := by
  simp [nextWord?, h]

theorem nextWord?_cons (h : isSpacing t.kind = false) :
    nextWord? (t :: ts) = leadingWord? t.text.toList := by
  simp [nextWord?, h]

theorem isBlankChar_eq : isBlankChar = isGap := by
  funext c
  simp only [isBlankChar, isGap, List.contains_eq_mem, List.mem_cons, List.not_mem_nil, or_false,
    decide_eq_decide]
  tauto

theorem leadingWord?_name (hc : isIdentStart c = true) :
    leadingWord? ((c :: s).take (nameLength (c :: s))) = ahead? (c :: s) := by
  have hle := identLength_le_nameLength (s := s) hc
  rw [identLength, if_pos hc] at hle
  obtain ⟨m, hm⟩ : ∃ m, nameLength (c :: s) = m + 1 := ⟨nameLength (c :: s) - 1, by omega⟩
  rw [hm, List.take_succ_cons, leadingWord?, if_pos hc, ahead?_word hc, ← List.take_takeWhile,
    List.take_of_length_le (by omega)]

theorem ahead?_of_nextWord? (h : tokensFrom st s = .ok ts) (hmode : st.mode = .php)
    (hw : nextWord? ts = some w) :
    ahead? s = some w := by
  -- by the recursion over the chunks: if the first token that is no blank and no comment starts
  -- with a word, then the search finds this word
  fun_induction tokensFrom st s generalizing ts with
  | case1 st =>
    cases h
    cases hw
  | case2 => cases h
  | case3 => cases h
  | case4 st c s k hk us st' hcut vs hvs ih =>
    cases h
    have hpos := (chunk_fits hk).pos
    have behind : ∀ {kind n}, isSpacing kind = true → k = .one kind n →
        ahead? ((c :: s).drop n) = some w := by
      rintro kind n hspace rfl
      cases hcut
      have hn : 0 < n := hpos (kind, n) (by simp [Chunk.one])
      have hrest := ih hvs rfl (by rwa [List.singleton_append, nextWord?_cons_spacing hspace] at hw)
      rw [← Nat.sub_add_cancel hn, List.drop_succ_cons]
      exact hrest
    unfold State.chunk at hk
    rw [hmode] at hk
    rcases phpChunk_cases hk with
      ⟨_, heq⟩ | ⟨hc, heq⟩ | ⟨rfl, hs, n, hn, heq⟩ | ⟨hc, rfl⟩ | ⟨hc, l, rest, hls, hspace, _⟩
    · rw [← ahead?_blanks, ← isBlankChar_eq]
      exact behind rfl heq
    · exact ahead?_lineComment hc (behind rfl heq)
    · refine ahead?_blockComment hs hn (behind ?_ heq)
      rcases blockCommentKind_cases ('/' :: s) with h | h
      · rw [h]; rfl
      · rw [h]; rfl
    · rw [name_eq st.context hc] at hcut
      cases hcut
      rw [List.singleton_append, nextWord?_cons (isSpacing_nameKind _ _ _), State.token,
        String.toList_ofList, leadingWord?_name hc] at hw
      exact hw
    · -- what is neither spacing nor a name does not start with a word
      obtain ⟨m, hm⟩ := Nat.exists_eq_succ_of_ne_zero (Nat.ne_of_gt (hpos l (by rw [hls]; simp)))
      rw [hls] at hcut
      cases hcut
      rw [List.cons_append, nextWord?_cons hspace, State.token, String.toList_ofList, hm,
        List.take_succ_cons] at hw
      have := isSome_leadingWord? (c := c) (s := s.take m)
      rw [hw, hc] at this
      cases this

end Lexer

/-! ## The word itself -/

variable {source : String} {before after : List Token} {t : Token}

theorem context_eq (ts : List Token) :
    (ts.map (·.kind)).foldl Context.push {} =
      ⟨(codeKinds ts).getLast?, (codeKinds ts).dropLast.getLast?⟩ := by
  induction ts using List.reverseRecOn with
  | nil => rfl
  | append_singleton ts t ih =>
    rw [List.map_append, List.foldl_append, ih, codeKinds, codeKinds, List.map_append,
      List.filter_append]
    by_cases htrivia : Taxonomy.php.isTrivia t.kind = true
    · simp [Context.push, Taxonomy.isCode, htrivia]
    · simp [Context.push, Taxonomy.isCode, htrivia]

theorem forcesName_iff :
    ((before.map (·.kind)).foldl Context.push {}).forcesName "enum" = true ↔ NameForced before := by
  rw [context_eq, Context.forcesName, NameForced]
  cases (codeKinds before).getLast? with
  | none => simp
  | some k =>
    simp only [Option.some.injEq, exists_eq_left', List.mem_cons, List.not_mem_nil, or_false]
    cases k <;> simp

theorem Laid.textOf_eq {o l : Nat} {ts : List Token} {s : List Char} (h : Laid o l ts s) :
    textOf ts = s := by
  induction h with
  | nil => rfl
  | cons _ _ ih => rw [textOf, List.flatMap_cons, ← textOf, ih]

theorem isIdentStart_of_toLower {c : Char} (h : c.toLower = 'e') : isIdentStart c = true := by
  unfold Char.toLower at h
  split at h
  · rename_i hupper
    have hupper : c.isUpper = true := by simpa [Char.isUpper] using hupper
    rw [isIdentStart, Char.isAlpha, hupper]
    rfl
  · rw [h]
    rfl

theorem isSome_leadingWord?_enum {s : List Char} (h : s.map Char.toLower = "enum".toList) :
    (leadingWord? s).isSome = true := by
  cases s with
  | nil => cases h
  | cons c s =>
    rw [Lexer.isSome_leadingWord?]
    exact isIdentStart_of_toLower (List.cons.inj h).1

theorem nameKind_enum {ctx : Context} {s r : List Char} (h : s.map Char.toLower = "enum".toList)
    (hforced : ctx.forcesName "enum" = false) :
    nameKind ctx s r = if declaresEnum r then .enumKw else .string := by
  have hsep : '\\' ∉ s := by
    intro hmem
    have := List.mem_map_of_mem (f := Char.toLower) hmem
    rw [h] at this
    revert this
    decide
  have hlead : ¬ ['\\'].isPrefixOf s = true := fun hprefix =>
    hsep ((List.isPrefixOf_iff_prefix.mp hprefix).subset (by simp))
  rw [nameKind, if_neg hlead, if_neg (by simpa using hsep), wordKind, h]
  show (if ctx.forcesName "enum" = true then _ else keywordKind "enum" r) = _
  rw [hforced, if_neg Bool.false_ne_true, keywordKind, if_pos rfl]

theorem declaresEnum_eq_false {r : List Char} (h : ∀ w, ¬ Leads r w) : declaresEnum r = false := by
  rw [declaresEnum, wordAhead?_eq]
  cases hw : ahead? r with
  | none => rfl
  | some w => exact absurd (leads_of_ahead? hw) (h w)

theorem declaresEnum_of_ahead? {r w : List Char} (h : ahead? r = some w) :
    declaresEnum r = true ↔ ¬ Inherits w := by
  rw [declaresEnum, wordAhead?_eq, h, Inherits]
  simp

/-- The kind of a word `enum` where not only a name can stand. If the first token behind it that is
no blank and no comment starts with a word, or no way through blanks and comments leads to a word,
it is a keyword just in case the former holds and the word does not start a list of what a type
extends or implements. But it is a keyword as well where only a way through a comment leads to a
word. -/
theorem enum_kind_by_next_word (h : tokenize source = .ok (before ++ t :: after))
    (htext : t.text.toList.map Char.toLower = "enum".toList)
    (hcode : Taxonomy.php.isCode t.kind = true) (hbody : t.kind ≠ .encapsedAndWhitespace)
    (hend : t.kind ≠ .endHeredoc) (hforced : ¬ NameForced before) :
    (t.kind = .enumKw ∨ t.kind = .string) ∧
    ((nextWord? after = none → ∀ w, ¬ Leads (textOf after) w) →
      (t.kind = .enumKw ↔ ∃ w, nextWord? after = some w ∧ ¬ Inherits w)) ∧
    ((∃ w, Leads (textOf after) w) → (∀ w, Leads (textOf after) w → ¬ Inherits w) →
      t.kind = .enumKw) := by
  obtain ⟨st, r, hmode, hread, hkind⟩ := Lexer.tokensFrom_word h hcode hbody hend
    (isSome_leadingWord?_enum htext)
  have hfree := Bool.eq_false_iff.mpr fun hf => hforced (forcesName_iff.mp hf)
  rw [nameKind_enum htext hfree] at hkind
  rw [(Lexer.tokensFrom_laid hread).textOf_eq, hkind]
  refine ⟨by split <;> simp, fun hplain => ?_, fun ⟨w, hw⟩ hall => ?_⟩
  · cases hnext : nextWord? after with
    | some w =>
      have := declaresEnum_of_ahead? (Lexer.ahead?_of_nextWord? hread hmode hnext)
      simp [this]
    | none =>
      rw [declaresEnum_eq_false (hplain hnext)]
      simp
  · obtain ⟨u, hu⟩ := Option.isSome_iff_exists.mp (isSome_ahead? hw)
    rw [if_pos ((declaresEnum_of_ahead? hu).mpr (hall u (leads_of_ahead? hu)))]

theorem enum_kind_by_next_word_sample :
    ∃ before t after, tokenize "<?php enum /* c */ Suit \x7b\x7d" = .ok (before ++ t :: after) ∧
      ¬ NameForced before ∧ t.text = "enum" ∧ nextWord? after = some "Suit".toList ∧
      t.kind = .enumKw := by
  have h : tokenize "<?php enum /* c */ Suit \x7b\x7d" =
      .ok ([⟨.openTag, "<?php ", 0, 1⟩] ++ ⟨.enumKw, "enum", 6, 1⟩ ::
      [⟨.whitespace, " ", 10, 1⟩, ⟨.comment, "/* c */", 11, 1⟩, ⟨.whitespace, " ", 18, 1⟩,
        ⟨.string, "Suit", 19, 1⟩, ⟨.whitespace, " ", 23, 1⟩, ⟨.openBrace, "\x7b", 24, 1⟩,
        ⟨.closeBrace, "\x7d", 25, 1⟩]) := by
    decide +kernel
  have hforced : ¬ NameForced [⟨.openTag, "<?php ", 0, 1⟩] := by
    rintro ⟨k, hk, _⟩
    cases hk
  have hnext : nextWord? [⟨.whitespace, " ", 10, 1⟩, ⟨.comment, "/* c */", 11, 1⟩,
      ⟨.whitespace, " ", 18, 1⟩, ⟨.string, "Suit", 19, 1⟩, ⟨.whitespace, " ", 23, 1⟩,
      ⟨.openBrace, "\x7b", 24, 1⟩, ⟨.closeBrace, "\x7d", 25, 1⟩] =
        some "Suit".toList := by
    decide +kernel
  refine ⟨_, _, _, h, hforced, rfl, hnext, ?_⟩
  have hkind := (enum_kind_by_next_word h (by decide +kernel) rfl nofun nofun hforced).2.1
    (fun hnone => by rw [hnext] at hnone; cases hnone)
  refine hkind.mpr ⟨_, hnext, ?_⟩
  unfold Inherits
  decide +kernel

/-- A comment that is broken off leads to the word `x`, though a parenthesis follows. -/
theorem enum_kind_before_line_comment :
    ∃ before t after, tokenize "<?php enum // x\n();" = .ok (before ++ t :: after) ∧
      ¬ NameForced before ∧ t.text = "enum" ∧ Taxonomy.php.isCode t.kind = true ∧
      nextWord? after = none ∧ t.kind = .enumKw := by
  have h : tokenize "<?php enum // x\n();" =
      .ok ([⟨.openTag, "<?php ", 0, 1⟩] ++ ⟨.enumKw, "enum", 6, 1⟩ ::
      [⟨.whitespace, " ", 10, 1⟩, ⟨.comment, "// x", 11, 1⟩, ⟨.whitespace, "\n", 15, 1⟩,
        ⟨.openParen, "(", 16, 2⟩, ⟨.closeParen, ")", 17, 2⟩, ⟨.semicolon, ";", 18, 2⟩]) := by
    decide +kernel
  refine ⟨_, _, _, h, ?_, rfl, rfl, by decide +kernel, rfl⟩
  rintro ⟨k, hk, _⟩
  cases hk

end PhpOutline
