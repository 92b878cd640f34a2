import PhpOutline.Proofs.MirrorNames

/-!
# Outlines without trivia

An outline without values is the same whether trivia is linked or dropped, if no declaration that it
reads ends at a close tag and no name that it resolves is parted by trivia (`Clear`). Both
conditions are needed: a close tag ends a statement and yet is trivia, and segments that touch are
one name.
-/

namespace PhpOutline

open PhpOutline.Graph

namespace View

variable {v w : View} {p : v.Pos} {q : w.Pos} {a b : Item} {copy : Nat}

/-! ## Types -/

/-- Types that are read alike in views of a namespace. -/
structure SameType (v w : View) (a b : Item) : Prop where
  name : a.name = b.name
  twins : Twins a.view b.view
  body : a.view.isTypeBody = true
  body' : b.view.isTypeBody = true
  header : ∃ p o o', Image v w o o' ∧ v.Seeks p o ∧ typeKeywords.contains (v.kind p) = true ∧
    v.lo ≤ p.val ∧ p < o ∧ o.val < v.hi ∧ v.kind o = .openBrace ∧ a.view.anchor = some (v.mark o) ∧
    b.view.anchor = some (w.mark o')

theorem Mirrors.inExpression (h : Mirrors v w) (hpq : Image v w p q) (hlo : v.lo ≤ p) :
    w.inExpression q = v.inExpression p := by
  have hcode := h.codeBetween (a := v.lo) (b := p) (Nat.le_of_lt p.isLt)
  rw [← h.lo, ← hpq.2] at hcode
  have hbefore : List.Forall₂ (fun n m : Node => n.kind = m.kind) (v.codeBefore (v.node p))
      (w.codeBefore (w.node q)) := by
    rw [h.left.codeBefore_eq hlo, h.right.codeBefore_eq ((h.lo_le hpq).mpr hlo),
      v.codeBetween_eq_map (Nat.le_of_lt p.isLt), w.codeBetween_eq_map (Nat.le_of_lt q.isLt),
      List.forall₂_reverse_iff, List.forall₂_map_left_iff, List.forall₂_map_right_iff]
    exact hcode.imp fun r s hrs => (h.kind hrs).symm
  have hmodifiers := forall₂_dropWhile hbefore fun {n m} hnm =>
    show classModifiers.contains n.kind = classModifiers.contains m.kind by rw [hnm]
  unfold View.inExpression
  dsimp only
  rw [head?_any_eq hbefore fun {n m} hnm => show (n.kind == .doubleColon) =
    (m.kind == .doubleColon) by rw [hnm], head?_any_eq hmodifiers fun {n m} hnm =>
      show (n.kind == .newKw) = (m.kind == .newKw) by rw [hnm]]

theorem isTypeBody_of_block {o : v.Pos} {name : String} {s : Scope} {x : View}
    (hs : v.scope.enterType ⟨name, v.mark o⟩ = .ok s) (hx : v.block copy o s = .ok x) :
    x.isTypeBody = true := by
  obtain ⟨_, _, _, _, _, _, hanchor, hscope, _⟩ := block_ok hx
  unfold Scope.enterType at hs
  split at hs
  · cases hs
  · cases hs
    simp [isTypeBody, hanchor, hscope, Mark.same]

theorem Twins.typeAt (h : Twins v w) (hv : v.Legible) (hs : v.scope.isNamespaceLevel = true)
    (hp : v.Found typeKeywords p) (hx : v.inExpression p = false) (hpq : Image v w p q) :
    SameResult (fun a b => SameType v w a.1 b.1 ∧ b.2 = v.rank a.2) (v.typeAt copy p)
      (w.typeAt copy q) := by
  have hrel := rel_filter (f := (v.kind · == .string)) (g := (w.kind · == .string))
    (h.nextCode? hpq) fun hpq => by rw [h.kind hpq]
  unfold View.typeAt
  dsimp only
  rw [h.line hpq, h.text hpq]
  generalize hname : (v.nextCode? p).filter (v.kind · == .string) = l,
    (w.nextCode? q).filter (w.kind · == .string) = r at hrel
  cases hrel with
  | none => exact .error _
  | @some n n' hnn =>
    obtain ⟨hnext, hstring⟩ := Option.filter_eq_some_iff.mp hname
    -- a legible view has code wherever this search ends
    have hseeks : ∀ e, v.sibling? v.bodyOrEnd (n + 1) = some e → v.Seeks p e :=
      fun e he => .type hs hp hx hnext (by simpa using hstring) he
    have hrel := rel_filter (f := (v.kind · == .openBrace)) (g := (w.kind · == .openBrace))
      (h.sibling?_behind hnn h.bodyOrEnd fun e he => hv.ends (hseeks e he))
        fun hpq => by rw [h.kind hpq]
    dsimp only
    rw [h.text hnn]
    generalize hopener : (v.sibling? v.bodyOrEnd (n + 1)).filter (v.kind · == .openBrace) = l,
      (w.sibling? w.bodyOrEnd (n' + 1)).filter (w.kind · == .openBrace) = r at hrel
    cases hrel with
    | none => exact .error _
    | @some o o' hoo =>
      obtain ⟨hsibling, hbrace⟩ := Option.filter_eq_some_iff.mp hopener
      have hbrace : v.kind o = .openBrace := by simpa using hbrace
      have hground := (h.left.nextCode?_ground hp.ground (isPlain_of_typeKeyword hp.mem) hnext).1
      have hbehind := hground.succ (h.left.nextCode?_eq_some_iff.mp hnext).1 (h.left.roles_plain (by
        rw [show v.kind n = .string by simpa using hstring]
        rfl))
      have hbounds := sibling?_bounds hsibling
      have hpn := (h.left.nextCode?_eq_some_iff.mp hnext).2.1
      have henter := h.scope.enterType (v.node n).text (v.mark o) (w.mark o')
      dsimp only
      generalize hs : v.scope.enterType ⟨(v.node n).text, v.mark o⟩ = x,
        ht : w.scope.enterType ⟨(v.node n).text, w.mark o'⟩ = y at henter
      cases henter with
      | error e => exact .error _
      | @ok s t hst =>
        obtain ⟨x, y, c, d, hx, hy, hc, hd, hxy, hgoes⟩ :=
          h.body copy hoo (h.left.sibling?_ground hbehind hsibling) hbounds.2 hbrace hst
        obtain ⟨_, _, _, _, _, _, hanchor, _⟩ := block_ok hx
        obtain ⟨_, _, _, _, _, _, hanchor', _⟩ := block_ok hy
        show SameResult _ (v.block copy o s >>= _) (w.block copy o' t >>= _)
        rw [hx, hy]
        show SameResult _ (v.closer o >>= _) (w.closer o' >>= _)
        rw [hc, hd]
        refine .ok ⟨⟨rfl, hxy, isTypeBody_of_block hs hx, isTypeBody_of_block ht hy, ?_⟩, hgoes⟩
        have hpo : p < o := lt_trans hpn (Nat.lt_of_succ_le hbounds.1)
        exact ⟨p, o, o', hoo, hseeks o hsibling, hp.mem, hp.ground.lo_le, hpo, hbounds.2, hbrace,
          hanchor, hanchor'⟩

theorem Twins.types (h : Twins v w) (hv : v.Legible) (hs : v.scope.isNamespaceLevel = true) :
    SameListing (SameType v w) (v.types copy) (w.types copy) := by
  unfold View.types
  rw [h.lo]
  refine h.scan (fun _ => isCode_of_typeKeyword) (fun p q hp hpq => ?_)
    (fun p hp => (h.left.readType_reads hp).next) h.left.lo
  rw [readType_eq, readType_eq, h.inExpression hpq hp.ground.lo_le]
  split
  · exact .skip h.toMirrors hpq
  · rename_i hx
    exact .ofItem (h.typeAt hv hs hp (by simpa using hx) hpq)

/-! ## Namespaces -/

def SameSpace (a b : Item) : Prop := a.name = b.name ∧ Twins a.view b.view

def ClearHeads (v : View) : Prop :=
  ∀ {p n e : v.Pos}, v.Found namespaceKeyword p → v.namespaceName? p = some n →
    v.nextCodeOrEnd? n = some e → v.isCode e = true

theorem Mirrors.sibling?_namespace (h : Mirrors v w) (i : Nat) :
    Option.Rel (Image v w) (v.sibling? namespaceKeyword i)
      (w.sibling? namespaceKeyword (v.rank i)) := by
  refine h.sibling? fun e he => ?_
  rw [isCode, h.left.php]
  rw [kind_of_singleton (sibling?_contains he)]
  rfl

theorem Balanced.ground_after {n e : v.Pos} (hv : v.Balanced) (hp : v.Found namespaceKeyword p)
    (hn : v.namespaceName? p = some n) (he : v.nextCodeOrEnd? n = some e) :
    v.Ground e ∧ e < v.hi := by
  obtain ⟨hnext, hkind⟩ := namespaceName?_eq_some hn
  obtain ⟨hground, _, hlt⟩ := hv.nextCode?_ground hp.ground
    (by rw [kind_of_singleton hp.mem]; rfl) hnext
  have hplain : isPlain (v.kind n) = true := by
    rcases hkind with hkind | hkind <;> rw [hkind] <;> rfl
  obtain ⟨hafter, _, hlt'⟩ := hv.nextCodeOrEnd?_ground hground hlt hplain he
  exact ⟨hafter, hlt'⟩

theorem Twins.namespaceAt (h : Twins v w) (hv : v.ClearHeads) (hp : v.Found namespaceKeyword p)
    (hpq : Image v w p q) :
    SameResult (fun a b => SameSpace a.1 b.1 ∧ b.2 = v.rank a.2) (v.namespaceAt copy p)
      (w.namespaceAt copy q) := by
  have hrel : Option.Rel (Image v w) (v.namespaceName? p) (w.namespaceName? q) :=
    rel_filter (h.nextCode? hpq) fun hpq => by rw [h.kind hpq]
  unfold View.namespaceAt
  dsimp only
  rw [h.line hpq]
  generalize hname : v.namespaceName? p = l, w.namespaceName? q = r at hrel
  cases hrel with
  | none => exact .error _
  | @some n n' hnn =>
    dsimp only
    rw [h.text hnn]
    refine SameResult.bind (h.scope.enterNamespace _) fun s t hst => ?_
    have hrel := h.nextCodeOrEnd? hnn fun e he => hv hp hname he
    generalize hafter : v.nextCodeOrEnd? n = l, w.nextCodeOrEnd? n' = r at hrel
    cases hrel with
    | none => exact .error _
    | @some e e' hee =>
      obtain ⟨hground, hlt⟩ := h.left.ground_after hp hname hafter
      dsimp only
      rw [h.kind hee, h.text hee, h.line hee, h.right.php, ← h.left.php]
      split
      · rename_i hbrace
        obtain ⟨x, y, c, d, hx, hy, hc, hd, hxy, hnext⟩ := h.body copy hee hground hlt hbrace hst
        rw [hc, hx, hd, hy]
        exact .ok ⟨⟨rfl, hxy⟩, hnext⟩
      · split
        · rename_i hend
          rw [h.left.php] at hend
          have hbehind := hground.succ hlt (h.left.roles_plain (isPlain_of_terminator hend))
          obtain ⟨hle, hstop⟩ := h.left.siblingOrEnd_ground namespaceKeyword hbehind
          rw [← h.rank_succ hee, h.rank_getD (h.sibling?_namespace (e + 1))]
          exact .ok ⟨⟨rfl, h.span hbehind hstop hle hst⟩, rfl⟩
        · exact .error _

theorem Twins.declaredNamespaces {i : Nat} (h : Twins v w) (hv : v.ClearHeads) (hi : v.Ground i) :
    SameListing SameSpace (v.declaredNamespaces copy i) (w.declaredNamespaces copy (v.rank i)) :=
  h.scan (fun _ hk => by rw [kind_of_singleton hk]; rfl)
    (fun _ _ hp hpq => .ofItem (h.namespaceAt hv hp hpq))
    (fun _ hp => (h.left.namespace_reads hp).next) hi

theorem Twins.withPreamble {stop : Nat} {l l' : Listing Item} (h : Twins v w)
    (hstop : v.Ground stop) (hl : SameListing SameSpace l l') :
    SameListing SameSpace (v.withPreamble stop l) (w.withPreamble (v.rank stop) l') := by
  have henter := h.scope.enterNamespace ""
  unfold View.withPreamble
  generalize v.scope.enterNamespace "" = x, w.scope.enterNamespace "" = y at henter
  cases henter with
  | error e => exact ⟨.nil, rfl⟩
  | @ok s t hst =>
    refine ⟨.cons ⟨rfl, ?_⟩ hl.items, hl.error⟩
    rw [h.lo]
    exact h.span h.left.lo hstop hstop.lo_le hst

theorem Twins.namespaces (h : Twins v w) (hv : v.ClearHeads) :
    SameListing SameSpace (v.namespaces copy) (w.namespaces copy) := by
  have hrel := h.sibling?_namespace v.lo
  unfold View.namespaces
  rw [h.lo]
  generalize hfirst : v.sibling? namespaceKeyword v.lo = l,
    w.sibling? namespaceKeyword (v.rank v.lo) = r at hrel
  cases hrel with
  | none =>
    dsimp only
    rw [h.hi]
    exact h.withPreamble h.left.hi ⟨.nil, rfl⟩
  | @some p q hpq =>
    dsimp only
    rw [hpq.2, h.hasCode]
    have hground := h.left.sibling?_ground h.left.lo hfirst
    split
    · exact h.withPreamble hground (h.declaredNamespaces hv hground)
    · exact h.declaredNamespaces hv hground

end View

/-! ## Outlines -/

open View

section

variable {s : OutlineSettings} {v w : View} {a b : Item} {l l' : Listing Item}

theorem outlineValues_eq (hs : s.includeValues = false) (h : SameListing SameMember l l') :
    outlineValues s l = outlineValues s l' := by
  refine h.mapM_eq fun a _ b hab => ?_
  obtain ⟨hname, hline, _⟩ := hab
  simp [outlineValue, hs, hname, hline]

theorem outlineFunctions_eq (h : SameListing SameMember l l') :
    outlineFunctions l = outlineFunctions l' := by
  refine h.mapM_eq fun a _ b hab => ?_
  obtain ⟨hname, hline, hbody⟩ := hab
  simp [outlineFunction, hname, hline, hbody]

theorem outlineType_eq {space : String} (hs : s.includeValues = false) (h : Twins v w)
    (hv : v.Legible) (hlevel : v.scope.isNamespaceLevel = true) (hab : SameType v w a b)
    (ha : a.view.Legible) :
    outlineType s space v a = outlineType s space w b := by
  obtain ⟨p, o, o', hoo, hseeks, hkeyword, hlo, hpo, hhi, hbrace, hanchor, hanchor'⟩ := hab.header
  have hloo : v.lo ≤ o := Nat.le_trans hlo (Nat.le_of_lt hpo)
  have hheader := h.left.typeHeader_mark hloo hhi
  have hheader' := h.right.typeHeader_mark ((h.lo_le hoo).mpr hloo) ((h.lt_hi hoo).mpr hhi)
  unfold outlineType
  rw [hanchor, hanchor', hab.name, outlineValues_eq hs (hab.twins.constants ha),
    outlineFunctions_eq (hab.twins.functions ha)]
  dsimp only
  rw [hheader, hheader']
  have himage := h.headerAt hoo
  cases hl : v.headerAt o with
  | nil =>
    rw [hl] at himage
    rw [List.forall₂_nil_left_iff.mp himage]
    show Except.error _ = Except.error _
    rw [show (w.mark o').node.line = (v.mark o).node.line from h.line hoo]
  | cons k l =>
    rw [hl] at himage
    obtain ⟨k', l', hkk, htail, hl'⟩ := List.forall₂_cons_left_iff.mp himage
    have hbases := h.resolveBases hv hlevel hlo hkeyword hseeks hpo hhi hbrace htail fun r hr => by
      rw [hl]
      exact List.mem_cons_of_mem k hr
    rw [hl', List.map_cons, List.map_cons]
    dsimp only
    rw [hbases, h.text hkk, h.line hkk]
    have hmembers := hab.twins.properties ha hab.body hab.body'
    generalize a.view.properties = x, b.view.properties = y at hmembers
    cases hmembers with
    | error e => rfl
    | ok hmm =>
      dsimp only [bind, Except.bind]
      rw [outlineValues_eq hs hmm]

theorem outlineNamespace_eq (hs : s.includeValues = false) (hab : SameSpace a b)
    (hlevel : a.view.scope.isNamespaceLevel = true) (ha : a.view.Legible)
    (htypes : ∀ t ∈ a.view.types.items, t.view.Legible) :
    outlineNamespace s a = outlineNamespace s b := by
  obtain ⟨hname, h⟩ := hab
  have htypes : a.view.types.mapM (outlineType s a.name a.view) =
      b.view.types.mapM (outlineType s a.name b.view) :=
    (h.types ha hlevel).mapM_eq fun t ht u htu => outlineType_eq hs h ha hlevel htu (htypes t ht)
  unfold outlineNamespace
  rw [h.imports ha hlevel, outlineValues_eq hs (h.constants ha),
    outlineFunctions_eq (h.functions ha), htypes, hname]

end

/-! ## Sources -/

theorem twins_of_thinned {g h : Graph} {f : Flags} {v w : View} (t : Thinned g h)
    (hg : Built .php {} g) (hh : Built .php f h) (hv : ofGraph g = .ok v) (hw : ofGraph h = .ok w) :
    Twins v w := by
  have hleft := balanced_of_ofGraph hg hv
  have hright := balanced_of_ofGraph hh hw
  obtain ⟨_, _, rfl⟩ := ofGraph_ok hv
  obtain ⟨_, _, rfl⟩ := ofGraph_ok hw
  exact ⟨⟨hleft, hright, t.tokens, rank_zero.symm, t.size_eq⟩, ⟨rfl, rfl, rfl⟩⟩

theorem ofGraph_sameResult {g h : Graph} {f : Flags} (t : Thinned g h) (hg : Built .php {} g)
    (hh : Built .php f h) :
    SameResult Twins (ofGraph g) (ofGraph h) := by
  have hbalanced := t.checkBalanced_eq
  cases hc : g.checkBalanced with
  | error e =>
    rw [hc] at hbalanced
    simp only [ofGraph, t.matched, t.matched', hc, hbalanced, if_true]
    exact .error _
  | ok =>
    rw [hc] at hbalanced
    have hv : ∃ v, ofGraph g = .ok v := by simp [ofGraph, t.matched, hc]
    have hw : ∃ w, ofGraph h = .ok w := by simp [ofGraph, t.matched', hbalanced]
    obtain ⟨v, hv⟩ := hv
    obtain ⟨w, hw⟩ := hw
    rw [hv, hw]
    exact .ok (twins_of_thinned t hg hh hv hw)

theorem ofSource_sameResult (source : String) :
    SameResult Twins (ofSource source) (ofSource source { discardTrivia := true }) := by
  unfold ofSource
  cases tokenize source with
  | error e => exact .error _
  | ok ts =>
    have hthinned := link_thinned ts
    show SameResult _ ((link .php {} ts).mapError Error.lex >>= ofGraph)
      ((link .php { discardTrivia := true } ts).mapError Error.lex >>= ofGraph)
    generalize hg : link .php {} ts = x, hh : link .php { discardTrivia := true } ts = y at hthinned
    cases hthinned with
    | error e => exact .error _
    | ok t => exact ofGraph_sameResult t (.link hg) (.link hh)

/-- No header of a namespace ends at a close tag, and no view that is outlined has a declaration
that ends at one or a name that is parted by trivia. -/
structure View.Clear (root : View) : Prop where
  heads : root.ClearHeads
  spaces : ∀ a ∈ root.namespaces.items, a.view.Legible
  types : ∀ a ∈ root.namespaces.items, ∀ b ∈ a.view.types.items, b.view.Legible

/-! ## Neat sources -/

/-- Trivia behind a name segment is not followed by another segment. -/
def unparted : List Token → Bool
  | [] => true
  | t :: ts =>
    !(Taxonomy.php.nameSegments.contains t.kind && ts.head?.any (Taxonomy.php.isTrivia ·.kind) &&
      (ts.find? (Taxonomy.php.isCode ·.kind)).any (Taxonomy.php.nameSegments.contains ·.kind)) &&
        unparted ts

def neat (ts : List Token) : Bool := ts.all (·.kind != .closeTag) && unparted ts

theorem exists_code_between {ts : List Token} {i j : Nat} {a b : Token} (h : unparted ts = true)
    (hij : i + 1 < j) (ha : ts[i]? = some a) (hb : ts[j]? = some b)
    (hs : Taxonomy.php.nameSegments.contains a.kind = true)
    (hs' : Taxonomy.php.nameSegments.contains b.kind = true) :
    ∃ r, i < r ∧ r < j ∧ CodeAt .php ts r := by
  induction ts generalizing i j with
  | nil => cases ha
  | cons t ts ih =>
    rw [unparted, Bool.and_eq_true] at h
    obtain ⟨hhead, htail⟩ := h
    obtain ⟨k, rfl⟩ : ∃ k, j = k + 1 := ⟨j - 1, by omega⟩
    rw [List.getElem?_cons_succ] at hb
    cases i with
    | succ i =>
      obtain ⟨r, hir, hrk, hr⟩ := ih htail (by omega) ha hb
      exact ⟨r + 1, by omega, by omega, hr⟩
    | zero =>
      cases ha
      -- the code after the first token is the other segment, or stands before it
      cases hcode : ts.find? (Taxonomy.php.isCode ·.kind) with
      | none =>
        exact absurd (isCode_of_segment hs')
          (List.find?_eq_none.mp hcode b (List.mem_of_getElem? hb))
      | some c =>
        obtain ⟨hc, n, hn, rfl, hbefore⟩ := List.find?_eq_some_iff_getElem.mp hcode
        have hget := List.getElem?_eq_getElem hn
        rcases Nat.lt_trichotomy n k with hlt | rfl | hgt
        · exact ⟨n + 1, by omega, by omega, (codeAt_iff_isCode (t := ts[n]) hget).mpr hc⟩
        · rw [hb] at hget
          have htrivia : ts.head?.any (Taxonomy.php.isTrivia ·.kind) = true := by
            have hfirst := hbefore 0 (by omega)
            rw [List.head?_eq_getElem?, List.getElem?_eq_getElem (by omega)]
            simpa [Taxonomy.isCode] using hfirst
          rw [hs, htrivia, hcode, ← Option.some.inj hget] at hhead
          simp [hs'] at hhead
        · have hb' := hbefore k hgt
          rw [List.getElem?_eq_getElem (by omega)] at hb
          rw [Option.some.inj hb, isCode_of_segment hs'] at hb'
          cases hb'

namespace View

variable {v w root : View} {p e : v.Pos}

theorem isCode_of_end {k : Kind} (hk : k ≠ .closeTag)
    (h : (((Taxonomy.php.terminators.insert .openBrace).insert .comma).insert .equals).contains k =
      true) :
    Taxonomy.php.isCode k = true := by
  cases k <;> first | rfl | exact absurd rfl hk | cases h

theorem Seeks.isCode (hv : v.Balanced) (h : v.Seeks p e) (hk : v.kind e ≠ .closeTag) :
    v.isCode e = true := by
  have hset : (((Taxonomy.php.terminators.insert .openBrace).insert .comma).insert
      .equals).contains (v.kind e) = true := by
    rw [← hv.php]
    cases h with
    | use _ _ _ _ he =>
      have hend : v.endsStatement e = true := List.find?_some he
      simp [endsStatement] at hend
      simp [hend]
    | type _ _ _ _ _ he | function _ _ _ he | constant _ he | value _ _ _ he
    | property _ _ _ _ he =>
      have hend := sibling?_contains he
      simp [bodyOrEnd, valueEnd] at hend ⊢
      tauto
  rw [View.isCode, hv.php]
  exact isCode_of_end hk hset

theorem Part.graph_tokens (h : Part v w) : w.graph.tokens <:+: v.graph.tokens := by
  cases h with
  | span => exact List.infix_rfl
  | block hp hlt h =>
    obtain ⟨c, _, hgraph, _⟩ := block_ok h
    rw [hgraph, tokens_cut, window]
    exact (List.drop_suffix _ _).isInfix.trans (List.take_prefix _ _).isInfix

section

variable {ts : List Token} (hn : neat ts = true)

include hn

theorem kind_ne_closeTag (hts : v.graph.tokens <:+: ts) (i : v.Pos) : v.kind i ≠ .closeTag := by
  rw [neat, Bool.and_eq_true, List.all_eq_true] at hn
  have hmem : (v.node i).toToken ∈ v.graph.tokens := by
    refine List.mem_of_getElem? (i := i) ?_
    rw [getElem?_tokens, Array.getElem?_eq_getElem i.isLt]
    rfl
  show (v.node i).kind ≠ .closeTag
  simpa using hn.1 _ (hts.subset hmem)

theorem legible_of_neat (hv : v.Balanced) (hts : v.graph.tokens <:+: ts) : v.Legible := by
  refine ⟨fun hs => hs.isCode hv (kind_ne_closeTag hn hts _), ?_⟩
  intro p e i j _ _ _ _ hsplit
  obtain ⟨before, after, rfl⟩ := hts
  have htoken (r : v.Pos) : (before ++ v.graph.tokens ++ after)[before.length + r]? =
      some (v.node r).toToken := by
    rw [List.getElem?_append_left (by simp [length_tokens, size]),
      List.getElem?_append_right (by omega), Nat.add_sub_cancel_left, getElem?_tokens,
      Array.getElem?_eq_getElem r.isLt]
    rfl
  rw [neat, Bool.and_eq_true] at hn
  have hsegment : ∀ r : v.Pos, v.graph.taxonomy.nameSegments.contains (v.kind r) = true →
      Taxonomy.php.nameSegments.contains (v.node r).kind = true := by
    rw [hv.php]
    exact fun r hr => hr
  obtain ⟨k, hik, hkj, hk⟩ := exists_code_between hn.2 (by have := hsplit.apart; omega) (htoken i)
    (htoken j) (hsegment i hsplit.first) (hsegment j hsplit.second)
  have hlt : k - before.length < v.graph.nodes.size := by
    have := j.isLt
    omega
  let r : v.Pos := ⟨k - before.length, hlt⟩
  have hr : before.length + r.val = k := by simp only [r]; omega
  rw [← hr, codeAt_iff_isCode (htoken r)] at hk
  have htrivia := hsplit.trivia r (by show i.val < r.val; omega) (by show r.val < j.val; omega)
  rw [View.isCode, hv.php] at htrivia
  rw [show Taxonomy.php.isCode (v.kind r) = true from hk] at htrivia
  cases htrivia

theorem clearHeads_of_neat (hv : v.Balanced) (hts : v.graph.tokens <:+: ts) : v.ClearHeads := by
  intro p n e _ _ he
  have hcode := List.find?_some he
  rw [Bool.or_eq_true] at hcode
  rcases hcode with hcode | hend
  · exact hcode
  · rw [hv.php] at hend
    rw [View.isCode, hv.php]
    exact isCode_of_end (kind_ne_closeTag hn hts e) (by simp [hend])

theorem clear_of_neat {source : String} (hts : tokenize source = .ok ts)
    (h : ofSource source = .ok root) :
    root.Clear := by
  obtain ⟨ts', g, hts', hlink, hg⟩ := ofSource_ok h
  have hv := balanced_of_ofGraph (.link hlink) hg
  have hroot : root.graph.tokens <:+: ts := by
    rw [hts] at hts'
    cases hts'
    obtain ⟨_, _, rfl⟩ := ofGraph_ok hg
    rw [(link_tokens_eq hlink).2.2]
    exact List.infix_rfl
  refine ⟨clearHeads_of_neat hn hv hroot, fun a ha => ?_, fun a ha b hb => ?_⟩
  · have hpart := hv.namespaces_parts _ ha
    exact legible_of_neat hn (hpart.balanced hv) (hpart.graph_tokens.trans hroot)
  · have hpart := hv.namespaces_parts _ ha
    have hbalanced := hpart.balanced hv
    have hpart' := hbalanced.types_parts _ hb
    exact legible_of_neat hn (hpart'.balanced hbalanced)
      (hpart'.graph_tokens.trans (hpart.graph_tokens.trans hroot))

end

end View

/-! ## The outline of a source -/

/-- An outline without values is the same whether trivia is linked or dropped. -/
theorem outlineSource_drops_trivia {s : Settings} (hs : s.outline.includeValues = false)
    (source : String) (hclear : ∀ root, ofSource source = .ok root → root.Clear) :
    outlineSource { s with lexer.retainTrivia := false } source =
      outlineSource { s with lexer.retainTrivia := true } source := by
  have hsource := ofSource_sameResult source
  rw [outlineSource_eq, outlineSource_eq]
  show (ofSource source { discardTrivia := true } >>= _) = (ofSource source >>= _)
  generalize hv : ofSource source = x, ofSource source { discardTrivia := true } = y at hsource
  cases hsource with
  | error e => rfl
  | @ok v w h =>
    have hclear := hclear v hv
    have hscope : v.scope = {} := by
      obtain ⟨ts, g, _, _, hg⟩ := ofSource_ok hv
      obtain ⟨_, _, rfl⟩ := ofGraph_ok hg
      rfl
    have hspaces : v.namespaces.mapM (outlineNamespace s.outline) =
        w.namespaces.mapM (outlineNamespace s.outline) := by
      refine (h.namespaces hclear.heads).mapM_eq fun a ha b hab => ?_
      refine outlineNamespace_eq hs hab ?_ (hclear.spaces a ha) (hclear.types a ha)
      have henter := mem_namespaces_scope ha
      rw [hscope] at henter
      rw [← Except.ok.inj henter]
      rfl
    dsimp only [bind, Except.bind]
    rw [hspaces]

def withoutValues (retainTrivia : Bool) : Settings where
  lexer := { retainTrivia := retainTrivia }
  outline := { includeValues := false }

def sampleOutlined : String :=
  "<?php namespace A; use B\\\x7b C as D, E\x7d; " ++
    "final class F extends D implements E \x7b const G = 1; var $h = [2]; function i();\x7d"

theorem outlineSource_drops_trivia_sample :
    outlineSource (withoutValues false) sampleOutlined =
      outlineSource (withoutValues true) sampleOutlined ∧
    (outlineSource (withoutValues false) sampleOutlined).toOption = some
        { namespaces := [{
            name := "A"
            imports := [⟨"D", .class_, "B\\C"⟩, ⟨"E", .class_, "B\\E"⟩]
            constants := []
            functions := []
            types := [⟨"class", "F", "A\\F", 1, ["B\\C"], ["B\\E"], [⟨"G", 1, none⟩],
              [⟨"h", 1, none⟩], [⟨"i", 1, false⟩]⟩] }] } := by
  have hneat : (tokenize sampleOutlined).toOption.any neat = true := by decide +kernel
  rw [Option.any_eq_true] at hneat
  obtain ⟨ts, hts, hneat⟩ := hneat
  refine ⟨?_, by decide +kernel⟩
  exact outlineSource_drops_trivia (s := withoutValues true) rfl sampleOutlined
    fun root hroot => clear_of_neat hneat (ok_of_toOption hts) hroot

/-- Without trivia, names that a blank kept apart are one name, and a close tag no longer ends a
header. -/
theorem outlineSource_over_trivia :
    (outlineSource (withoutValues true) "<?php use A B;").toOption = none ∧
    (outlineSource (withoutValues false) "<?php use A B;").toOption.map
      (·.namespaces.map (·.imports)) = some [[⟨"AB", .class_, "AB"⟩]] ∧
    (outlineSource (withoutValues true) "<?php namespace A ?><?php class B \x7b\x7d").toOption.map
      (·.namespaces.map (·.name)) = some ["A"] ∧
    (outlineSource (withoutValues false) "<?php namespace A ?><?php class B \x7b\x7d").toOption =
      none := by
  decide +kernel

end PhpOutline
