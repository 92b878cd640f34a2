import PhpOutline.Proofs.LexemeBounds
import PhpOutline.Text.Alphabetic

/-!
# The text of closing brackets

The kinds of closing brackets are given to single characters alone. No other lexeme has them,
whatever reader it comes from, so a token of these kinds is never a word.
-/

namespace PhpOutline

namespace Lexeme

theorem mem_keywords_of_lookup {word : String} {k : Kind} (h : keywords.lookup word = some k) :
    (word, k) ∈ keywords := by
  obtain ⟨before, after, heq, _⟩ := List.lookup_eq_some_iff.mp h
  rw [heq]
  simp

theorem nameKind_of {q : Kind → Bool} (hkeywords : ∀ e ∈ keywords, q e.2 = false)
    (hnames : ∀ k ∈ [Kind.nameFullyQualified, .nameRelative, .nameQualified, .string, .enumKw,
      .keyword], q k = false)
    (ctx : Context) (text after : List Char) : q (nameKind ctx text after) = false := by
  unfold nameKind wordKind keywordKind
  dsimp only
  repeat' split
  case h_1 word kind h => exact hkeywords _ (mem_keywords_of_lookup h)
  all_goals exact hnames _ (by simp)

def operatorKinds : List Kind :=
  [.objectOperator, .doubleColon, .operator, .openBrace, .closeBrace, .openBracket, .closeBracket,
    .openParen, .closeParen, .semicolon, .comma, .equals, .ampersand]

theorem operator?_mem {s : List Char} {k : Kind} {n : Nat} (h : operator? s = some (k, n)) :
    k ∈ operatorKinds := by
  unfold operator? at h
  split at h
  · cases h
    unfold operatorKind
    repeat' split
    all_goals decide
  · split at h
    · cases h
    · obtain ⟨k, hkind, he⟩ := Option.map_eq_some_iff.mp h
      cases he
      unfold punctuationKind? at hkind
      repeat' split at hkind
      all_goals cases hkind <;> decide

theorem isCloser_nameKind (ctx : Context) (text after : List Char) :
    Taxonomy.php.isCloser (nameKind ctx text after) = false :=
  nameKind_of (by decide) (by decide) ctx text after

theorem isCloser_operatorKind (op : String) : Taxonomy.php.isCloser (operatorKind op) = false := by
  unfold operatorKind
  repeat' split
  all_goals rfl

def closing : List Char := ['\x7d', ']', ')']

theorem operator?_closer {c : Char} {s : List Char} {k : Kind} {n : Nat}
    (h : operator? (c :: s) = some (k, n)) (hk : Taxonomy.php.isCloser k = true) :
    n = 1 ∧ c ∈ closing := by
  unfold operator? at h
  split at h
  · rename_i op _
    cases h
    rw [isCloser_operatorKind] at hk
    cases hk
  · dsimp only at h
    obtain ⟨k, hkind, he⟩ := Option.map_eq_some_iff.mp h
    cases he
    refine ⟨rfl, ?_⟩
    unfold punctuationKind? at hkind
    repeat' split at hkind
    all_goals first | decide | (cases hkind <;> cases hk)

theorem blockCommentKind_cases (s : List Char) :
    blockCommentKind s = .comment ∨ blockCommentKind s = .docComment := by
  unfold blockCommentKind
  repeat' split
  all_goals simp

theorem isCloser_blockCommentKind (s : List Char) :
    Taxonomy.php.isCloser (blockCommentKind s) = false := by
  rcases blockCommentKind_cases s with h | h
  · rw [h]; rfl
  · rw [h]; rfl

theorem isCloser_numberKind (s : List Char) : Taxonomy.php.isCloser (numberKind s) = false := by
  unfold numberKind
  split <;> rfl

theorem kind_of_findOpenTag {s : List Char} {n : Nat} {tag : Kind × Nat}
    (h : findOpenTag s = (n, some tag)) :
    tag.1 = .openTag ∨ tag.1 = .openTagWithEcho := by
  induction s generalizing n with
  | nil => cases h
  | cons c s ih =>
    unfold findOpenTag at h
    split at h
    · rename_i tag' htag
      cases h
      unfold openTag? at htag
      repeat' split at htag
      · cases htag
        exact .inr rfl
      · obtain ⟨m, _, rfl⟩ := Option.map_eq_some_iff.mp htag
        exact .inl rfl
      · cases htag
    · simp only [Prod.mk.injEq] at h
      exact ih (Prod.ext rfl h.2)

theorem isCloser_findOpenTag {s : List Char} {n : Nat} {tag : Kind × Nat}
    (h : findOpenTag s = (n, some tag)) :
    Taxonomy.php.isCloser tag.1 = false := by
  rcases kind_of_findOpenTag h with hk | hk
  · rw [hk]; rfl
  · rw [hk]; rfl

end Lexeme

namespace Lexer

open Lexeme

/-- The lexemes of a chunk hold a closing bracket only if that is all it holds. -/
def Chunk.ClosesAlone (k : Chunk) (c : Char) : Prop :=
  ∀ kind n, Taxonomy.php.isCloser kind = true → (kind, n) ∈ k.lexemes → k.lexemes = [(kind, 1)] ∧
  c ∈ closing

variable {ctx : Context} {line : Nat} {c : Char} {s : List Char} {k : Chunk}

theorem Chunk.closesAlone_of_not (h : ∀ l ∈ k.lexemes, Taxonomy.php.isCloser l.1 = false) :
    k.ClosesAlone c := by
  intro kind n hkind hn
  rw [h (kind, n) hn] at hkind
  cases hkind

theorem htmlChunk_closesAlone (s : List Char) : (htmlChunk s).ClosesAlone c := by
  apply Chunk.closesAlone_of_not
  unfold htmlChunk
  split
  · simp; rfl
  · rename_i h
    simpa using isCloser_findOpenTag h
  · rename_i h
    simpa using ⟨rfl, isCloser_findOpenTag h⟩

theorem Chunk.one_closesAlone {kind : Kind} {n : Nat} (h : Taxonomy.php.isCloser kind = false) :
    (Chunk.one kind n).ClosesAlone c := by
  apply closesAlone_of_not
  simpa [Chunk.one] using h

theorem phpChunk_closesAlone (h : phpChunk ctx line c (c :: s) = .ok k) : k.ClosesAlone c := by
  have hselects := phpChunk_selects ctx line c s
  rw [h] at hselects
  cases hselects with
  | blank => exact Chunk.one_closesAlone rfl
  | closeTag => exact Chunk.closesAlone_of_not (by simp; rfl)
  | attributeOpen => exact Chunk.one_closesAlone rfl
  | lineComment => exact Chunk.one_closesAlone rfl
  | blockComment h =>
    obtain ⟨n, -, rfl⟩ := eq_of_blockComment h
    exact Chunk.one_closesAlone (isCloser_blockCommentKind _)
  | quotation _ h =>
    obtain ⟨n, -, rfl⟩ := eq_of_quotation h
    exact Chunk.one_closesAlone rfl
  | heredoc _ h =>
    have hall : ∀ kind ∈ heredocKinds, Taxonomy.php.isCloser kind = false := by decide
    exact Chunk.closesAlone_of_not fun l hl => hall _ ((kinds_of_heredoc h).2 l hl)
  | dollar =>
    unfold dollar
    split <;> exact Chunk.one_closesAlone rfl
  | number => exact Chunk.one_closesAlone (isCloser_numberKind _)
  | name =>
    unfold name
    split
    · exact Chunk.one_closesAlone rfl
    · exact Chunk.one_closesAlone (isCloser_nameKind _ _ _)
  | punctuation _ h =>
    obtain ⟨kind, m, hop, rfl⟩ := eq_of_punctuation h
    intro kind' n hkind hn
    rw [Chunk.one, List.mem_singleton] at hn
    cases hn
    obtain ⟨rfl, hc⟩ := operator?_closer hop hkind
    exact ⟨rfl, hc⟩

theorem State.kinds_cut (st : State) (ls : List (Kind × Nat)) (s : List Char) :
    (st.cut ls s).1.map (·.kind) = ls.map (·.1) := by
  induction ls generalizing st s with
  | nil => rfl
  | cons l ls ih => simp only [State.cut, List.map_cons, ih, State.token]

theorem tokensFrom_closer {st : State} {ts : List Token} (h : tokensFrom st s = .ok ts) :
    ∀ t ∈ ts, Taxonomy.php.isCloser t.kind = true → ∃ c ∈ closing, t.text = .ofList [c] := by
  fun_induction tokensFrom st s generalizing ts with
  | case1 st => cases h; simp
  | case2 => cases h
  | case3 => cases h
  | case4 st c s k hk us st' hcut vs hvs ih =>
    cases h
    have halone : k.ClosesAlone c := by
      unfold State.chunk at hk
      split at hk
      · cases hk
        exact htmlChunk_closesAlone _
      · exact phpChunk_closesAlone hk
    intro t ht hkind
    rcases List.mem_append.mp ht with ht | ht
    · have hkinds := st.kinds_cut k.lexemes (c :: s)
      rw [hcut] at hkinds
      have hmem : t.kind ∈ k.lexemes.map (·.1) := by
        rw [← hkinds]
        exact List.mem_map_of_mem ht
      obtain ⟨⟨kind, n⟩, hn, heq⟩ := List.mem_map.mp hmem
      obtain ⟨hone, hc⟩ := halone kind n (by rw [show kind = t.kind from heq]; exact hkind) hn
      rw [hone] at hcut
      cases hcut
      rw [List.mem_singleton.mp ht]
      exact ⟨c, hc, rfl⟩
    · exact ih hvs t ht hkind

end Lexer

theorem tokenize_closer {source : String} {ts : List Token} (h : tokenize source = .ok ts) :
    ∀ t ∈ ts, Taxonomy.php.isCloser t.kind = true → Text.isIdentifier t.text = false := by
  have hclosing : ∀ c ∈ Lexeme.closing, Text.isIdentifier (.ofList [c]) = false := by
    intro c hc
    rw [Text.isIdentifier, String.toList_ofList]
    simp only [Lexeme.closing, List.mem_cons, List.not_mem_nil, or_false] at hc
    rcases hc with rfl | rfl | rfl <;> rfl
  intro t ht hkind
  obtain ⟨c, hc, htext⟩ := Lexer.tokensFrom_closer h t ht hkind
  rw [htext]
  exact hclosing c hc

end PhpOutline
