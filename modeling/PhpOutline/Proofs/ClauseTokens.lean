import PhpOutline.Proofs.ClauseSyntax

/-!
# Keywords and brackets in use clauses

What holds for a list of items by its derivation holds for whatever code the reader of use clauses
accepts (`UseList.code_rec`). Two things follow for the tokens in it. A namespace keyword stands
there only as an alias, and a name does not come behind it. A closing bracket stands there only
together with the bracket that it closes.
-/

namespace PhpOutline

namespace View

/-! ## Induction on the code of a list -/

inductive CommaThen (v : View) (P : List v.Pos → Prop) : List v.Pos → Prop
  | nil : CommaThen v P []
  | comma {i : v.Pos} {code : List v.Pos} (hi : v.kind i = .comma) (h : P code) :
      CommaThen v P (i :: code)

theorem UseList.code_rec {v : View} {P : List v.Pos → Prop} {code : List v.Pos} {tree : UseTree}
    (nil : P [])
    (name : ∀ {word name tail behind : List v.Pos} {w : Option ImportKind} {own : String}
      {aliasName : Option String}, v.UseWord word w → v.NameRun name (tail ++ behind) own →
      v.UseAlias own tail aliasName → v.CommaThen P behind →
      P (word ++ (name ++ (tail ++ behind))))
    (group : ∀ {word name inner behind : List v.Pos} {o c : v.Pos} {w : Option ImportKind}
      {own : String}, v.UseWord word w → v.NameRun name (o :: (inner ++ c :: behind)) own →
      v.kind o = .openBrace → (v.node o).closedBy = some c.val → P inner → v.CommaThen P behind →
      P (word ++ (name ++ o :: (inner ++ c :: behind))))
    (h : v.UseList code tree) : P code :=
  @UseList.rec v (fun code _ _ => P code) (fun behind _ _ => v.CommaThen P behind)
    (fun hw hn ht _ hr => name hw hn ht hr)
    (fun hw hn ho hoc _ _ hi hr => group hw hn ho hoc hi hr)
    .nil (fun hi => .comma hi nil) (fun hi _ h => .comma hi h) code tree h

variable {v : View} {own : String} {code behind rest inner word name tail : List v.Pos}
  {o c : v.Pos} {w : Option ImportKind} {aliasName : Option String} {tree : UseTree}

/-! ## Namespace keywords -/

/-- A namespace keyword comes behind `as` only, and no name comes behind it. -/
def Sober (v : View) (i j : v.Pos) : Prop :=
  (v.kind i = .namespaceKw → v.kind j ≠ .string ∧ v.kind j ≠ .nameQualified) ∧
    (v.kind j = .namespaceKw → v.kind i = .asKw)

structure SoberCode (v : View) (code : List v.Pos) : Prop where
  head : ∀ i ∈ code.head?, v.kind i ≠ .namespaceKw
  chain : code.IsChain v.Sober

theorem SoberCode.append {before : List v.Pos} (hb : ∀ i ∈ before, v.kind i ≠ .namespaceKw)
    (h : v.SoberCode code) : v.SoberCode (before ++ code) := by
  induction before with
  | nil => exact h
  | cons i before ih =>
    have ih := ih fun j hj => hb j (List.mem_cons_of_mem _ hj)
    have hi := hb i (by simp)
    refine ⟨by simpa using hi, ?_⟩
    rw [List.cons_append, List.isChain_cons]
    refine ⟨fun j hj => ⟨fun h => absurd h hi, fun h => absurd h (ih.head j hj)⟩, ih.chain⟩

theorem SoberCode.concat {behind : List v.Pos} (h : v.SoberCode code) (hb : v.SoberCode behind)
    (hhead : ∀ j ∈ behind.head?, v.kind j ≠ .string ∧ v.kind j ≠ .nameQualified) :
    v.SoberCode (code ++ behind) := by
  constructor
  · intro i hi
    cases code with
    | nil => exact hb.head i hi
    | cons j code => exact h.head i hi
  · rw [List.isChain_append]
    refine ⟨h.chain, hb.chain, fun i _ j hj =>
      ⟨fun _ => hhead j hj, fun hk => absurd hk (hb.head j hj)⟩⟩

theorem UseWord.ne_namespaceKw (h : v.UseWord word w) : ∀ i ∈ word, v.kind i ≠ .namespaceKw := by
  cases h with
  | absent => simp
  | function h | const h => simp [h]

theorem NameRun.ne_namespaceKw (hv : v.Balanced) (h : v.NameRun name behind own) :
    ∀ i ∈ name, v.kind i ≠ .namespaceKw := by
  intro i hi hk
  have := h.segments i hi
  rw [Segment, hv.php, hk] at this
  cases this

theorem UseAlias.soberCode (h : v.UseAlias own tail aliasName) : v.SoberCode tail := by
  cases h with
  | bare => exact ⟨by simp, .nil⟩
  | @named i j hi =>
    refine ⟨by simp [hi], ?_⟩
    rw [List.isChain_cons_cons]
    exact ⟨⟨fun h => by simp [hi] at h, fun _ => hi⟩, .singleton j⟩

theorem SoberCode.cons (h : v.SoberCode code) (hi : v.kind o ≠ .namespaceKw) :
    v.SoberCode (o :: code) := by
  have hone : ∀ i ∈ [o], v.kind i ≠ .namespaceKw := by simpa using hi
  exact h.append hone

theorem Balanced.isCloser_of_closedBy (hv : v.Balanced) (h : (v.node o).closedBy = some c.val) :
    Taxonomy.php.isCloser (v.kind c) = true := by
  have hcloses := (hv.linked.roles_closes_iff hv.matched (getElem?_pos c)).mp
    (hv.pair_of_closedBy h).closes
  rw [hv.php, Taxonomy.closes, Bool.and_eq_true] at hcloses
  exact hcloses.1

theorem SoberCode.closer (hv : v.Balanced) (hoc : (v.node o).closedBy = some c.val)
    (hi : v.SoberCode inner) (hr : v.SoberCode rest) : v.SoberCode (inner ++ c :: rest) := by
  have hcloser := hv.isCloser_of_closedBy hoc
  have hne : v.kind c ≠ .namespaceKw ∧ v.kind c ≠ .string ∧ v.kind c ≠ .nameQualified := by
    refine ⟨?_, ?_, ?_⟩ <;> intro hk <;> rw [hk] at hcloser <;> cases hcloser
  refine hi.concat (hr.cons hne.1) ?_
  simpa using hne.2

theorem CommaThen.soberCode (h : v.CommaThen v.SoberCode behind) :
    v.SoberCode behind ∧ ∀ i ∈ behind.head?, v.kind i = .comma := by
  cases h with
  | nil => exact ⟨⟨by simp, .nil⟩, by simp⟩
  | comma hi h => exact ⟨h.cons (by simp [hi]), by simpa using hi⟩

theorem UseList.soberCode (hv : v.Balanced) (h : v.UseList code tree) : v.SoberCode code := by
  refine UseList.code_rec ?_ ?_ ?_ h
  · exact ⟨by simp, .nil⟩
  · intro word name tail behind w own aliasName hw hn ht hr
    obtain ⟨hbehind, hcomma⟩ := hr.soberCode
    refine ((ht.soberCode.concat hbehind fun i hi => ?_).append (hn.ne_namespaceKw hv)).append
      hw.ne_namespaceKw
    simp [hcomma i hi]
  · intro word name inner behind o c w own hw hn ho hoc hinner hr
    have hgroup := SoberCode.closer hv hoc hinner hr.soberCode.1
    exact ((hgroup.cons (by simp [ho])).append (hn.ne_namespaceKw hv)).append hw.ne_namespaceKw

/-! ## Tokens -/

/-- What a token of a clause can be: a keyword or a comma, a part of a name, an alias, or a bracket
of a group that is closed in the clause. -/
inductive ClauseToken (v : View) (code : List v.Pos) (i : v.Pos) : Prop
  | sign (hk : v.kind i ∈ [.functionKw, .constKw, .asKw, .comma])
  | segment (hk : v.graph.taxonomy.nameSegments.contains (v.kind i) = true)
  | named (ht : Text.isIdentifier (v.node i).text = true)
  | opens {c : v.Pos} (hk : v.kind i = .openBrace) (hc : c ∈ code)
      (hclosed : (v.node i).closedBy = some c.val)
  | closes {o : v.Pos} (ho : o ∈ code) (hclosed : (v.node o).closedBy = some i.val)

variable {i : v.Pos}

theorem ClauseToken.mono (h : v.ClauseToken inner i) (hsub : inner ⊆ code) :
    v.ClauseToken code i := by
  cases h with
  | sign hk => exact .sign hk
  | segment hk => exact .segment hk
  | named ht => exact .named ht
  | opens hk hc hclosed => exact .opens hk (hsub hc) hclosed
  | closes ho hclosed => exact .closes (hsub ho) hclosed

theorem UseWord.clauseToken (h : v.UseWord word w) (hi : i ∈ word) : v.ClauseToken code i := by
  cases h with
  | absent => cases hi
  | function h | const h =>
    rw [List.mem_singleton.mp hi]
    exact .sign (by simp [h])

theorem UseAlias.clauseToken (h : v.UseAlias own tail aliasName) (hi : i ∈ tail) :
    v.ClauseToken code i := by
  cases h with
  | bare => cases hi
  | @named j k hj hk =>
    rcases List.mem_cons.mp hi with rfl | hi
    · exact .sign (by simp [hj])
    · rw [List.mem_singleton.mp hi]
      exact .named hk

theorem CommaThen.clauseToken
    (h : v.CommaThen (fun code => ∀ i ∈ code, v.ClauseToken code i) behind) (hi : i ∈ behind) :
    v.ClauseToken behind i := by
  cases h with
  | nil => cases hi
  | comma hk h =>
    rcases List.mem_cons.mp hi with rfl | hi
    · exact .sign (by simp [hk])
    · exact (h i hi).mono (List.subset_cons_self _ _)

theorem UseList.clauseToken (h : v.UseList code tree) : ∀ i ∈ code, v.ClauseToken code i := by
  refine UseList.code_rec (P := fun code => ∀ i ∈ code, v.ClauseToken code i) ?_ ?_ ?_ h
  · simp
  · intro word name tail behind w own aliasName hw hn ht hr i hi
    simp only [List.mem_append] at hi
    rcases hi with hi | hi | hi | hi
    · exact hw.clauseToken hi
    · exact .segment (hn.segments i hi)
    · exact ht.clauseToken hi
    · exact (hr.clauseToken hi).mono fun j hj => by simp [hj]
  · intro word name inner behind o c w own hw hn ho hoc hinner hr i hi
    simp only [List.mem_append, List.mem_cons] at hi
    rcases hi with hi | hi | rfl | hi | rfl | hi
    · exact hw.clauseToken hi
    · exact .segment (hn.segments i hi)
    · exact .opens ho (by simp) hoc
    · exact (hinner i hi).mono fun j hj => by simp [hj]
    · exact .closes (by simp) hoc
    · exact (hr.clauseToken hi).mono fun j hj => by simp [hj]

/-! ## Clauses -/

theorem Balanced.soberCode_of_readClause {imports : List Import} (hv : v.Balanced)
    (h : v.readClause code = .ok imports) : v.SoberCode code := by
  obtain ⟨_, _, hclause⟩ := useClause_of_readClause h
  cases hclause with
  | intro hw _ hitems => exact (hitems.soberCode hv).append hw.ne_namespaceKw

theorem clauseToken_of_readClause {imports : List Import} (h : v.readClause code = .ok imports)
    (hi : i ∈ code) :
    v.ClauseToken code i := by
  obtain ⟨_, _, hclause⟩ := useClause_of_readClause h
  cases hclause with
  | intro hw _ hitems =>
    rcases List.mem_append.mp hi with hi | hi
    · exact hw.clauseToken hi
    · exact (hitems.clauseToken i hi).mono (List.subset_append_right _ _)

theorem not_segment_of_closer {k : Kind} (h : Taxonomy.php.isCloser k = true) :
    Taxonomy.php.nameSegments.contains k = false := by
  cases k <;> first | rfl | cases h

theorem Balanced.opener_of_readClause {imports : List Import} (hv : v.Balanced)
    (h : v.readClause code = .ok imports) (hk : Taxonomy.php.isCloser (v.kind c) = true)
    (ht : Text.isIdentifier (v.node c).text = false) (hc : c ∈ code) :
    ∃ o ∈ code, (v.node o).closedBy = some c.val := by
  cases clauseToken_of_readClause h hc with
  | sign hsign =>
    have hsigns : ∀ k ∈ [Kind.functionKw, .constKw, .asKw, .comma], Taxonomy.php.isCloser k =
        false := by decide
    rw [hsigns _ hsign] at hk
    cases hk
  | segment hsegment =>
    rw [hv.php, not_segment_of_closer hk] at hsegment
    cases hsegment
  | named hnamed =>
    rw [ht] at hnamed
    cases hnamed
  | opens hopen _ _ =>
    rw [hopen] at hk
    cases hk
  | closes ho hclosed => exact ⟨_, ho, hclosed⟩

end View

end PhpOutline
