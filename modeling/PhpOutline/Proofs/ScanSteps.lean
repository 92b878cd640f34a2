import PhpOutline.Proofs.ScanFailures

/-!
# Reading chunk by chunk

A reading goes on from any place that it comes to as from a fresh start there
(`Scans.tokensFrom_eq`), so what holds at each chunk holds in the whole source. Every token is cut
off with a chunk, at a place that the reading comes to (`Scans.exists_chunk`).
-/

namespace PhpOutline

open Lexeme

namespace Lexer

def State.behind (st : State) (k : Chunk) (s : List Char) : State :=
  { (st.cut k.lexemes s).2 with mode := k.mode }

variable {st st' st'' : State} {c : Char} {s r r' : List Char} {k : Chunk} {kind : Kind} {n : Nat}
  {before after ts us vs : List Token} {t : Token}

theorem drop_size (hk : st.chunk c (c :: s) = .ok k) :
    s.drop (k.size - 1) = (c :: s).drop k.size := by
  rw [← List.drop_succ_cons (a := c), Nat.sub_add_cancel (chunk_fits hk).size_pos]

theorem Scans.cons (hk : st.chunk c (c :: s) = .ok k)
    (h : Scans (st.behind k (c :: s)) ((c :: s).drop k.size) ts st' r) :
    Scans st (c :: s) ((st.cut k.lexemes (c :: s)).1 ++ ts) st' r := by
  rw [← drop_size hk] at h
  exact .step hk h

theorem Scans.chunk (hk : st.chunk c (c :: s) = .ok k) :
    Scans st (c :: s) (st.cut k.lexemes (c :: s)).1 (st.behind k (c :: s))
      ((c :: s).drop k.size) := by
  have := Scans.cons hk (.refl _ _)
  rwa [List.append_nil] at this

theorem Scans.trans (h : Scans st s ts st' r) (h' : Scans st' r us st'' r') :
    Scans st s (ts ++ us) st'' r' := by
  induction h with
  | refl => exact h'
  | step hk _ ih =>
    rw [List.append_assoc]
    exact .step hk (ih h')

theorem Scans.tokensFrom_eq (h : Scans st s ts st' r) :
    tokensFrom st s = (tokensFrom st' r).map (ts ++ ·) := by
  induction h with
  | refl st s => cases tokensFrom st s <;> rfl
  | @step st st' c s r k ts hk _ ih =>
    rw [tokensFrom, hk]
    dsimp only
    rw [ih]
    cases tokensFrom st' r with
    | error e => rfl
    | ok us => simp [Except.map]

theorem Scans.tokensFrom_ok (h : Scans st s ts st' r) (hts : tokensFrom st s = .ok (ts ++ us)) :
    tokensFrom st' r = .ok us := by
  rw [h.tokensFrom_eq] at hts
  cases hread : tokensFrom st' r with
  | error e =>
    rw [hread] at hts
    cases hts
  | ok vs =>
    rw [hread] at hts
    rw [List.append_cancel_left (Except.ok.inj hts)]

theorem Scans.context (h : Scans st s ts st' r) :
    st'.context = (ts.map (·.kind)).foldl Context.push st.context := by
  induction h with
  | refl => rfl
  | @step st st' c s r k ts _ _ ih =>
    rw [ih, List.map_append, List.foldl_append, ← context_cut]

theorem scans_of_tokensFrom (h : tokensFrom st s = .ok ts) : ∃ st', Scans st s ts st' [] := by
  fun_induction tokensFrom st s generalizing ts with
  | case1 st =>
    cases h
    exact ⟨st, .refl _ _⟩
  | case2 => cases h
  | case3 => cases h
  | case4 st c s k hk us st' hcut vs hvs ih =>
    cases h
    obtain ⟨st'', hscans⟩ := ih hvs
    refine ⟨st'', ?_⟩
    have hus : us = (st.cut k.lexemes (c :: s)).1 := by rw [hcut]
    rw [hus]
    exact .step hk (by rw [hcut]; exact hscans)

/-- Every token of a reading was cut off with a chunk at a place that the reading came to. -/
theorem Scans.exists_chunk (h : Scans st s (before ++ t :: after) st' r) :
    ∃ pre us vs post st₁ c s₁ k, before = pre ++ us ∧ after = vs ++ post ∧
      Scans st s pre st₁ (c :: s₁) ∧ st₁.chunk c (c :: s₁) = .ok k ∧
      (st₁.cut k.lexemes (c :: s₁)).1 = us ++ t :: vs ∧
        Scans (st₁.behind k (c :: s₁)) ((c :: s₁).drop k.size) post st' r := by
  generalize hts : before ++ t :: after = ts at h
  induction h generalizing before with
  | refl => simp at hts
  | @step st st' c s r k ts hk hrest ih =>
    have further : ∀ rest, before = (st.cut k.lexemes (c :: s)).1 ++ rest →
        rest ++ t :: after = ts → ∃ pre us vs post st₁ d s₁ k₁, before = pre ++ us ∧
        after = vs ++ post ∧ Scans st (c :: s) pre st₁ (d :: s₁) ∧
          st₁.chunk d (d :: s₁) = .ok k₁ ∧ (st₁.cut k₁.lexemes (d :: s₁)).1 = us ++ t :: vs ∧
          Scans (st₁.behind k₁ (d :: s₁)) ((d :: s₁).drop k₁.size) post st' r := by
      intro rest hbefore hts
      obtain ⟨pre, us, vs, post, st₁, d, s₁, k₁, hpre, hpost, hscans, hchunk⟩ := ih hts
      refine ⟨(st.cut k.lexemes (c :: s)).1 ++ pre, us, vs, post, st₁, d, s₁, k₁, ?_, hpost,
        .step hk hscans, hchunk⟩
      rw [hbefore, hpre, List.append_assoc]
    rcases List.append_eq_append_iff.mp hts with ⟨cs, hcut, hcs⟩ | ⟨rest, hbefore, hts'⟩
    · cases cs with
      | nil => exact further [] (by simpa using hcut.symm) hcs
      | cons u vs =>
        obtain ⟨rfl, rfl⟩ := List.cons.inj hcs
        refine ⟨[], before, vs, ts, st, c, s, k, rfl, rfl, .refl _ _, hk, hcut, ?_⟩
        rw [← drop_size hk]
        exact hrest
    · exact further rest hbefore hts'.symm

theorem eq_of_cut_one (h : (st.cut (Chunk.one kind n).lexemes s).1 = us ++ t :: vs) :
    us = [] ∧ vs = [] ∧ t = st.token kind n s := by
  cases us with
  | nil =>
    obtain ⟨rfl, rfl⟩ := List.cons.inj h
    exact ⟨rfl, rfl, rfl⟩
  | cons u us =>
    have := (List.cons.inj h).2
    simp at this

theorem Scans.one (hk : st.chunk c (c :: s) = .ok (.one kind n)) :
    Scans st (c :: s) [st.token kind n (c :: s)] (st.behind (.one kind n) (c :: s))
      ((c :: s).drop n) := by
  have h := Scans.chunk hk
  have hsize : (Chunk.one kind n).size = n := Nat.add_zero n
  rwa [hsize] at h

/-! ## Readers by the kinds of their tokens -/

/-- The readers that alone give tokens of certain kinds. -/
inductive Reader
  | name | number | heredoc | dollar
deriving DecidableEq

def Reader.of? (kind : Kind) : Option Reader :=
  if kind ∈ [.string, .nameQualified, .nameFullyQualified, .nameRelative, .nsSeparator, .enumKw,
    .keyword] ∨
      kind ∈ keywords.map (·.2) then some .name
  else if kind ∈ [.lnumber, .dnumber] then some .number
  else if kind ∈ [.startHeredoc, .encapsedAndWhitespace, .endHeredoc] then some .heredoc
  else if kind = .variableName then some .dollar
  else none

def Reader.Takes (ctx : Context) (line : Nat) (c : Char) (s : List Char) (k : Chunk) : Reader → Prop
  | .name => (c = '\\' ∨ isIdentStart c = true) ∧ k = Lexer.name ctx (c :: s)
  | .number => startsNumber c (c :: s) = true ∧ k = Lexer.number (c :: s)
  | .heredoc => ∃ header, heredocHeader? (c :: s) = some header ∧
      Lexer.heredoc line header (c :: s) = .ok k
  | .dollar => c = '$' ∧ k = Lexer.dollar (c :: s)

variable {ctx : Context} {line : Nat} {x : Reader} {l : Kind × Nat}

theorem reader_of_nameKind (ctx : Context) (text after : List Char) :
    Reader.of? (nameKind ctx text after) = some .name := by
  have := nameKind_of (q := fun k => decide (Reader.of? k ≠ some .name)) (by decide)
    (by decide) ctx text after
  simpa using this

theorem phpChunk_takes (h : phpChunk ctx line c (c :: s) = .ok k) (hl : l ∈ k.lexemes)
    (hx : Reader.of? l.1 = some x) : x.Takes ctx line c s k := by
  -- blanks, comments, quotations and punctuation belong to none of these readers
  have absent : ∀ {kind}, l.1 = kind → Reader.of? kind = none → x.Takes ctx line c s k := by
    rintro _ rfl hnone
    rw [hnone] at hx
    cases hx
  have hselects := phpChunk_selects ctx line c s
  rw [h] at hselects
  cases hselects with
  | blank | closeTag | attributeOpen | lineComment =>
    cases List.mem_singleton.mp hl
    exact absent rfl rfl
  | blockComment h =>
    obtain ⟨n, -, rfl⟩ := eq_of_blockComment h
    cases List.mem_singleton.mp hl
    rcases blockCommentKind_cases _ with hkind | hkind
    · exact absent hkind rfl
    · exact absent hkind rfl
  | quotation _ h =>
    obtain ⟨n, -, rfl⟩ := eq_of_quotation h
    cases List.mem_singleton.mp hl
    exact absent rfl rfl
  | @heredoc _ header _ hh h =>
    have hall : ∀ kind ∈ heredocKinds, Reader.of? kind = some .heredoc := by decide
    cases hx.symm.trans (hall _ ((kinds_of_heredoc h).2 l hl))
    exact ⟨header, hh, h⟩
  | dollar =>
    unfold dollar at hl
    split at hl
    · cases List.mem_singleton.mp hl
      exact absent rfl rfl
    · cases List.mem_singleton.mp hl
      cases hx
      exact ⟨rfl, rfl⟩
  | number hnumber =>
    have hkind : Reader.of? l.1 = some .number := by
      cases List.mem_singleton.mp hl
      unfold numberKind
      split <;> rfl
    cases hx.symm.trans hkind
    exact ⟨hnumber, rfl⟩
  | name hname =>
    have hkind : Reader.of? l.1 = some .name := by
      unfold name at hl
      split at hl
      · cases List.mem_singleton.mp hl
        rfl
      · cases List.mem_singleton.mp hl
        exact reader_of_nameKind _ _ _
    cases hx.symm.trans hkind
    exact ⟨hname, rfl⟩
  | punctuation hc h =>
    obtain ⟨kind, n, hop, rfl⟩ := eq_of_punctuation h
    cases List.mem_singleton.mp hl
    have hnone : ∀ kind ∈ operatorKinds, Reader.of? kind = none := by decide
    exact absent rfl (hnone _ (operator?_mem hop))

theorem chunk_takes (hk : st.chunk c (c :: s) = .ok k) (hl : l ∈ k.lexemes)
    (hx : Reader.of? l.1 = some x) :
    st.mode = .php ∧ x.Takes st.context st.line c s k := by
  unfold State.chunk at hk
  split at hk
  · cases hk
    have htrivia : ∀ kind, Taxonomy.php.isTrivia kind = true → Reader.of? kind = none := by
      intro kind
      cases kind <;> decide
    rw [htrivia _ (isTrivia_htmlChunk (c :: s) l hl)] at hx
    cases hx
  · rename_i hmode
    exact ⟨hmode, phpChunk_takes hk hl hx⟩

theorem Scans.exists_reader (h : Scans st s (before ++ t :: after) st' r)
    (hx : Reader.of? t.kind = some x) :
    ∃ pre us vs post st₁ c s₁ k, before = pre ++ us ∧ after = vs ++ post ∧
      Scans st s pre st₁ (c :: s₁) ∧ st₁.mode = .php ∧ st₁.chunk c (c :: s₁) = .ok k ∧
      x.Takes st₁.context st₁.line c s₁ k ∧ (st₁.cut k.lexemes (c :: s₁)).1 = us ++ t :: vs ∧
      Scans (st₁.behind k (c :: s₁)) ((c :: s₁).drop k.size) post st' r := by
  obtain ⟨pre, us, vs, post, st₁, c, s₁, k, hbefore, hafter, hscans, hk, hcut, hrest⟩ :=
    h.exists_chunk
  have hkinds := st₁.kinds_cut k.lexemes (c :: s₁)
  obtain ⟨l, hl, hkind⟩ : ∃ l ∈ k.lexemes, l.1 = t.kind := by
    rw [← List.mem_map, ← hkinds, hcut]
    simp
  rw [← hkind] at hx
  obtain ⟨hmode, htakes⟩ := chunk_takes hk hl hx
  exact ⟨pre, us, vs, post, st₁, c, s₁, k, hbefore, hafter, hscans, hmode, hk, htakes, hcut, hrest⟩

theorem Scans.takes (h : Scans st s ts st' r) (ht : t ∈ ts) (hx : Reader.of? t.kind = some x) :
    ∃ (st₁ : State) (c : Char) (s₁ : List Char) (k : Chunk) (us vs : List Token),
      x.Takes st₁.context st₁.line c s₁ k ∧ (st₁.cut k.lexemes (c :: s₁)).1 = us ++ t :: vs := by
  obtain ⟨before, after, rfl⟩ := List.append_of_mem ht
  obtain ⟨_, us, vs, _, st₁, c, s₁, k, _, _, _, _, _, htakes, hcut, _⟩ := h.exists_reader hx
  exact ⟨st₁, c, s₁, k, us, vs, htakes, hcut⟩

end Lexer

end PhpOutline
