import PhpOutline.Proofs.ClauseTokens
import PhpOutline.Proofs.ClosingBrackets
import PhpOutline.Proofs.ImportsWithin

/-!
# The imports of a file and of its namespaces

A file imports what its namespaces import, one after the other. Only a statement that does not end
in its namespace could be read differently in the file, where it goes on. But then it runs over a
namespace keyword or a closing bracket, and no clause holds either. There is one exception:
`namespace` behind `as` is an alias, and a close tag can end the statement there and yet leave the
keyword to its name (`AliasAtTag`).
-/

namespace PhpOutline

open PhpOutline.Graph

theorem Scope.namespaceLevel_of_enter {s t : Scope} {name : String}
    (h : s.enterNamespace name = .ok t) (hs : s.isNamespaceLevel = true) :
    t.isNamespaceLevel = true := by
  unfold enterNamespace at h
  split at h
  · cases h
  · cases h
    exact hs

namespace View

variable {v w : View}

/-! ## Statements that run over -/

theorem importsAt_fails {q : v.Pos}
    (h : ∀ e : v.Pos, q < e → e < v.hi → v.endsStatement e = true →
      (∀ r : v.Pos, q < r → r < e → v.endsStatement r = false) →
        ∀ imports, v.readClause (v.clause q e) ≠ .ok imports) : ∃ e, v.importsAt q = .error e := by
  cases hat : v.importsAt q with
  | error err => exact ⟨err, rfl⟩
  | ok r =>
    obtain ⟨e, _, hlt, hhi, he, hbefore, hread⟩ := clause_of_importsAt hat
    exact absurd hread (h e hlt hhi he hbefore r.1)

theorem mem_clause {p q r : v.Pos} : r ∈ v.clause p q ↔ p < r ∧ r < q ∧ v.isCode r = true := by
  rw [clause, List.mem_filter, mem_between, and_assoc]
  exact Iff.rfl

theorem not_end_of_closer {k : Kind} (h : Taxonomy.php.isCloser k = true) :
    Taxonomy.php.isCode k = true ∧ Taxonomy.php.terminators.contains k = false := by
  cases k <;> first | exact ⟨rfl, rfl⟩ | cases h

theorem lt_of_endsStatement {q k e : v.Pos} (hk : v.endsStatement k = false) (hqe : q < e)
    (he : v.endsStatement e = true) (h : ∀ r : v.Pos, q < r → r < k → v.endsStatement r = false) :
    k < e := by
  rcases Nat.lt_trichotomy k e with hlt | heq | hgt
  · exact hlt
  · rw [Fin.ext heq, he] at hk
    cases hk
  · rw [h e hqe hgt] at he
    cases he

theorem Balanced.importsAt_fails_over_closer {o q c : v.Pos} (hv : v.Balanced)
    (hc : (v.node o).closedBy = some c.val) (htext : Text.isIdentifier (v.node c).text = false)
    (hoq : o < q) (hqc : q < c) (h : ∀ r : v.Pos, q < r → r < c → v.endsStatement r = false) :
    ∃ e, v.importsAt q = .error e := by
  have hcloser := hv.isCloser_of_closedBy hc
  obtain ⟨hcode, hend⟩ := not_end_of_closer hcloser
  apply importsAt_fails
  intro e hqe _ he _ imports hread
  have hce : c < e := lt_of_endsStatement (by rw [endsStatement, hv.php, hend]) hqe he h
  obtain ⟨o', ho', hclosed⟩ := hv.opener_of_readClause hread hcloser htext
    (mem_clause.mpr ⟨hqc, hce, by rw [isCode, hv.php, hcode]⟩)
  have heq := (hv.pair_of_closedBy hclosed).opener_unique (hv.pair_of_closedBy hc)
  have hlt : q.val < o'.val := (mem_clause.mp ho').1
  have hoq : o.val < q.val := hoq
  omega

theorem clause_append {p k e : v.Pos} (hpk : p < k) (hke : k < e) (hk : v.isCode k = true) :
    v.clause p e = v.clause p k ++ k :: (v.between (k + 1) e).filter v.isCode := by
  have hpk : p.val < k.val := hpk
  have hke : k.val < e.val := hke
  rw [clause, clause, v.between_append (show p.val + 1 ≤ k.val by omega) (Nat.le_of_lt hke),
    between_cons (p := k) hke, List.filter_append, List.filter_cons, if_pos hk]

/-- Whether a namespace keyword stands between `as` and a close tag. -/
def AliasAtTag (v : View) (k : v.Pos) : Prop :=
  v.Found namespaceKeyword k ∧ v.follows k .asKw = true ∧ ∃ e, v.nextCodeOrEnd? k = some e ∧
  v.kind e = .closeTag

/-- A namespace keyword can stand in a clause as an alias only, and then no name follows it
there. -/
theorem Balanced.importsAt_fails_over_namespace {q k n : v.Pos} (hv : v.Balanced) (hq : v.lo ≤ q)
    (hk : v.Found namespaceKeyword k) (hn : v.namespaceName? k = some n) (htag : ¬ v.AliasAtTag k)
    (hqk : q < k) (h : ∀ r : v.Pos, q < r → r < k → v.endsStatement r = false) :
    ∃ e, v.importsAt q = .error e := by
  have hkind : v.kind k = .namespaceKw := kind_of_singleton hk.mem
  have hcode : v.isCode k = true := by rw [isCode, hv.php, hkind]; rfl
  obtain ⟨hnext, hname⟩ := namespaceName?_eq_some hn
  obtain ⟨hnhi, hkn, hncode, hbetween⟩ := hv.nextCode?_eq_some_iff.mp hnext
  apply importsAt_fails
  intro e hqe hehi he hbefore imports hread
  have hke : k < e := lt_of_endsStatement (by rw [endsStatement, hv.php, hkind]; rfl) hqe he h
  have hsober := hv.soberCode_of_readClause hread
  rw [clause_append hqk hke hcode] at hsober
  obtain ⟨_, hbehind, hbefore'⟩ := List.isChain_append.mp hsober.chain
  have has : v.follows k .asKw = true := by
    cases hlast : (v.clause q k).getLast? with
    | none =>
      have hhead := hsober.head
      rw [List.getLast?_eq_none_iff.mp hlast] at hhead
      exact absurd hkind (hhead k rfl)
    | some i =>
      obtain ⟨hqi, hik, hicode, hafter⟩ := getLast?_filter_between hlast
      rw [hv.follows_iff]
      exact ⟨i, by omega, hik, (hbefore' i hlast k rfl).2 hkind, hicode, hafter⟩
  rcases Nat.lt_trichotomy n e with hlt | heq | hgt
  · -- the name belongs to the clause, directly behind the keyword
    have hhead : ((v.between (k + 1) e).filter v.isCode).head? = some n := by
      rw [List.head?_filter]
      exact find?_between_eq hkn hlt hncode hbetween
    obtain ⟨rest, hrest⟩ := List.head?_eq_some_iff.mp hhead
    rw [hrest] at hbehind
    obtain ⟨hstring, hqualified⟩ := (List.isChain_cons_cons.mp hbehind).1.1 hkind
    rcases hname with hname | hname
    · exact hstring hname
    · exact hqualified hname
  · rw [← Fin.ext heq, endsStatement, hv.php] at he
    rcases hname with hname | hname <;> rw [hname] at he <;> cases he
  · -- the statement ends before the name, so where it ends is no code
    refine htag ⟨hk, has, e, ?_, ?_⟩
    · refine find?_between_eq hke hehi (by rw [Bool.or_eq_true]; exact .inr he) ?_
      intro r hkr hre
      rw [Bool.or_eq_false_iff]
      exact ⟨hbetween r hkr (Nat.lt_trans hre hgt), hbefore r (Nat.lt_trans hqk hkr) hre⟩
    · have htrivia := hbetween e hke hgt
      rw [endsStatement, hv.php] at he
      rw [isCode, hv.php] at htrivia
      rcases closeTag_of_end he with hkind | hkind
      · exact hkind
      · rw [hkind] at htrivia
        cases htrivia

/-! ## The views of the namespaces -/

def nextNamespace (v : View) (i : Nat) : Nat :=
  ((v.sibling? namespaceKeyword i).map (·.val)).getD v.hi

theorem importsFrom_skip {i j : Nat} (hij : i ≤ j) (hj : j ≤ v.hi) (hsize : v.hi ≤ v.graph.size)
    (h : ∀ q : v.Pos, i ≤ q → q < j → v.kind q ≠ .useKw) : v.importsFrom i = v.importsFrom j := by
  induction hn : j - i generalizing i with
  | zero => rw [show i = j by omega]
  | succ n ih =>
    simp only [Graph.size] at hsize
    let q : v.Pos := ⟨i, by omega⟩
    have hstarts : ¬ v.startsImport q = true :=
      fun hq => h q (Nat.le_refl i) (by simp only [q]; omega) (kind_of_startsImport hq)
    have hstep : v.importsFrom i = v.importsFrom (i + 1) :=
      (importsFrom_at (p := q) (by simp only [q]; omega)).trans (if_neg hstarts)
    rw [hstep]
    exact ih (by omega) (fun r hr => h r (by omega)) (by omega)

namespace Balanced

variable {scope : Scope} {k n e : v.Pos}

theorem importsFrom_of_no_code {i j : Nat} (hv : v.Balanced) (hij : i ≤ j) (hj : j ≤ v.hi)
    (h : v.hasCode i j = false) : v.importsFrom i = v.importsFrom j := by
  refine importsFrom_skip hij hj hv.hi_le fun q hiq hqj huse => ?_
  rw [hasCode, List.any_eq_false] at h
  refine h q (mem_between.mpr ⟨hiq, hqj⟩) ?_
  rw [isCode, hv.php, huse]
  rfl

theorem region_span {lo : Nat} (hv : v.Balanced) (hs : v.scope.isNamespaceLevel = true)
    (hs' : scope.isNamespaceLevel = true) (hlo : v.Ground lo)
    (hparen : ∀ q : v.Pos, v.lo ≤ q → q < lo → v.kind q = .closeParen →
      ∃ r : v.Pos, q < r ∧ r < lo ∧ v.isCode r = true)
    (hnext : ∀ k, v.sibling? namespaceKeyword lo = some k → ∃ n, v.namespaceName? k = some n)
    (htag : ∀ k, ¬ v.AliasAtTag k) : Region (v.span lo (v.nextNamespace lo) scope) v 0 := by
  obtain ⟨hle, hground⟩ := hv.siblingOrEnd_ground namespaceKeyword hlo
  have hw : Within (v.span lo (v.nextNamespace lo) scope) v 0 := within_span hv hlo hground hle
  refine ⟨hw, fun p q hpq hp _ => ?_, fun p q hpq hp hlt hnone => ?_⟩
  · exact startsImport_span hv hw.left hlo.lo_le (by omega) hp (by rw [hs, hs']) hparen
  · have hends : ∀ r : v.Pos, q < r → r < v.nextNamespace lo → v.endsStatement r = false := by
      intro r hqr hr
      obtain ⟨t, hrt, ht⟩ := hw.exists_left (q := r) (Nat.zero_le _)
        (by rw [Nat.zero_add]; exact hr)
      have hqr : q.val < r.val := hqr
      rw [← hw.endsStatement hrt]
      simpa using List.find?_eq_none.mp hnone t (mem_between.mpr ⟨by omega, ht⟩)
    have hp : lo ≤ p.val := hp
    have hlo := hlo.lo_le
    cases hsib : v.sibling? namespaceKeyword lo with
    | none =>
      rw [nextNamespace, hsib] at hends
      apply importsAt_fails
      intro e hqe hhi he
      rw [hends e hqe hhi] at he
      cases he
    | some k =>
      obtain ⟨n, hn⟩ := hnext k hsib
      rw [nextNamespace, hsib] at hends
      have hk : v.Found namespaceKeyword k :=
        ⟨by rw [hsib] at hground; exact hground, (sibling?_bounds hsib).2, sibling?_contains hsib⟩
      refine hv.importsAt_fails_over_namespace (by omega) hk hn (htag k) ?_ hends
      rw [nextNamespace, hsib] at hlt
      show q.val < k.val
      have : p.val < k.val := hlt
      omega

theorem region_block {o : v.Pos} {c : Nat} (hv : v.Balanced) (hw : w.Balanced)
    (hs : v.scope.isNamespaceLevel = true) (hs' : w.scope.isNamespaceLevel = true)
    (h : Inside w v o c) (ho : v.lo ≤ o) (hc : c < v.hi) (hhead : v.Headed o)
    (htext : ∀ c : v.Pos, Taxonomy.php.isCloser (v.kind c) = true →
      Text.isIdentifier (v.node c).text = false) :
    Region w v (o + 1) := by
  have hd := h.within hv hw hc
  have hhi := h.hi_eq hv
  have hsize := hv.hi_le
  simp only [Graph.size] at hsize
  refine ⟨hd, fun p q hpq _ hp => h.startsImport hd ho hs hs' hhead hpq hp,
    fun p q hpq _ hp hnone => ?_⟩
  let r : v.Pos := ⟨c, by omega⟩
  refine hv.importsAt_fails_over_closer (c := r) h.closedBy
    (htext r (hv.isCloser_of_closedBy h.closedBy)) (by show o.val < q.val; omega)
    (by show q.val < c; omega) ?_
  intro t hqt htc
  have hqt : q.val < t.val := hqt
  have htc : t.val < c := htc
  obtain ⟨s, hts, hs⟩ := hd.exists_left (q := t) (by omega) (by omega)
  rw [← hd.endsStatement hts]
  simpa using List.find?_eq_none.mp hnone s (mem_between.mpr ⟨by omega, hs⟩)

theorem eq_of_code_in_header {q : v.Pos} (hv : v.Balanced) (hn : v.namespaceName? k = some n)
    (he : v.nextCodeOrEnd? n = some e) (hkq : k ≤ q) (hqe : q < e) (hcode : v.isCode q = true) :
    q = k ∨ q = n := by
  obtain ⟨_, hkn, _, hbetween⟩ := hv.nextCode?_eq_some_iff.mp (namespaceName?_eq_some hn).1
  obtain ⟨_, _, _, hfirst⟩ := find?_between he
  rcases Nat.eq_or_lt_of_le hkq with heq | hlt
  · exact .inl (Fin.ext heq.symm)
  · rcases Nat.lt_trichotomy q n with hqn | hqn | hqn
    · rw [hbetween q hlt hqn] at hcode
      cases hcode
    · exact .inr (Fin.ext hqn)
    · rw [(Bool.or_eq_false_iff.mp (hfirst q hqn hqe)).1] at hcode
      cases hcode

theorem headed_of_header (hv : v.Balanced) (hk : v.kind k = .namespaceKw)
    (hn : v.namespaceName? k = some n) (he : v.nextCodeOrEnd? n = some e) : v.Headed e := by
  obtain ⟨hnext, hname⟩ := namespaceName?_eq_some hn
  obtain ⟨_, hkn, _⟩ := hv.nextCode?_eq_some_iff.mp hnext
  obtain ⟨hne, _⟩ := find?_between he
  refine ⟨k, Nat.lt_trans hkn hne, hk, headerRun_iff.mpr ?_⟩
  intro q hkq hqe hcode
  rw [hv.php]
  rcases hv.eq_of_code_in_header hn he hkq hqe hcode with rfl | rfl
  · rw [hk]
    rfl
  · rcases hname with hname | hname <;> rw [hname] <;> rfl

theorem ne_useKw_in_header {q : v.Pos} (hv : v.Balanced) (hk : v.kind k = .namespaceKw)
    (hn : v.namespaceName? k = some n) (he : v.nextCodeOrEnd? n = some e)
    (hkind : v.kind e ≠ .useKw) (hkq : k ≤ q) (hqe : q < e.val + 1) : v.kind q ≠ .useKw := by
  intro huse
  rcases Nat.eq_or_lt_of_le (Nat.le_of_lt_succ hqe) with heq | hlt
  · rw [Fin.ext heq] at huse
    exact hkind huse
  · rcases hv.eq_of_code_in_header hn he hkq hlt (by rw [isCode, hv.php, huse]; rfl) with rfl | rfl
    · rw [hk] at huse
      cases huse
    · rcases (namespaceName?_eq_some hn).2 with hname | hname <;> rw [hname] at huse <;> cases huse

theorem code_behind_closeParen {q : v.Pos} (hv : v.Balanced) (hn : v.namespaceName? k = some n)
    (he : v.nextCodeOrEnd? n = some e) (hkind : v.kind e ≠ .closeParen) (hqe : q < e.val + 1)
    (hq : v.kind q = .closeParen) : ∃ r : v.Pos, q < r ∧ r < e.val + 1 ∧ v.isCode r = true := by
  obtain ⟨hnext, hname⟩ := namespaceName?_eq_some hn
  obtain ⟨_, hkn, hcode, _⟩ := hv.nextCode?_eq_some_iff.mp hnext
  obtain ⟨hne, _⟩ := find?_between he
  rcases Nat.lt_or_ge q n with hlt | hge
  · exact ⟨n, hlt, by omega, hcode⟩
  · have hkn : k.val < n.val := hkn
    rcases Nat.eq_or_lt_of_le (Nat.le_of_lt_succ hqe) with heq | hlt
    · rw [Fin.ext heq] at hq
      exact absurd hq hkind
    · rcases hv.eq_of_code_in_header hn he (by show k.val ≤ q.val; omega) hlt
        (by rw [isCode, hv.php, hq]; rfl) with rfl | rfl
      · omega
      · rcases hname with hname | hname <;> rw [hname] at hq <;> cases hq

theorem nextNamespace_ground {i : Nat} (hv : v.Balanced) (hi : v.Ground i) :
    i ≤ v.nextNamespace i ∧ v.Ground (v.nextNamespace i) :=
      hv.siblingOrEnd_ground namespaceKeyword hi

/-- Reading goes over one namespace: over its header, then over its view, and then on to the keyword
of the next one. -/
theorem agrees_namespaceAt {copy next : Nat} {item : Item} {parts : List View} (hv : v.Balanced)
    (hs : v.scope.isNamespaceLevel = true) (hk : v.Found namespaceKeyword k)
    (htext : ∀ c : v.Pos, Taxonomy.php.isCloser (v.kind c) = true →
      Text.isIdentifier (v.node c).text = false)
    (htag : ∀ k, ¬ v.AliasAtTag k) (hat : v.namespaceAt copy k = .ok (item, next))
    (hgap : ∀ c, item.view.anchor.bind (·.node.closedBy) = some c →
      v.hasCode (c + 1) (v.nextNamespace (c + 1)) = false)
    (hnext : ∀ k, v.sibling? namespaceKeyword next = some k → ∃ n, v.namespaceName? k = some n)
    (hrest : Agrees (v.importsFrom (v.nextNamespace next)) parts) :
    Agrees (v.importsFrom k) (item.view :: parts) := by
  have hkind : v.kind k = .namespaceKw := kind_of_singleton hk.mem
  obtain ⟨hpart, _, hground⟩ := hv.namespaceAt_part hk.ground hkind hat
  have hw := hpart.balanced hv
  obtain ⟨n, scope, e, hn, hscope, he, _, hform⟩ := namespaceAt_ok hat
  have hs' := Scope.namespaceLevel_of_enter hscope hs
  obtain ⟨_, hkn, _⟩ := hv.nextCode?_eq_some_iff.mp (namespaceName?_eq_some hn).1
  obtain ⟨hne, hehi, _⟩ := find?_between he
  have hkn : k.val < n.val := hkn
  have hheader : v.kind e ≠ .useKw → v.importsFrom k = v.importsFrom (e + 1) := fun huse =>
    importsFrom_skip (by omega) (by omega) hv.hi_le fun q => hv.ne_useKw_in_header hkind hn he huse
  rcases hform with ⟨hbrace, hblock, c, hc, rfl⟩ | ⟨_, hend, hview, rfl⟩
  · have hclosed := closer_ok hc
    obtain ⟨c', hc', hgraph, hlo, hhi, _, hanchor, hscope', _⟩ := block_ok hblock
    rw [hclosed] at hc'
    cases hc'
    have hin : Inside item.view v e c := ⟨hclosed, hgraph, hlo, hhi⟩
    have hlt := hv.closer_lt hehi (hv.pair_of_closedBy hclosed)
    obtain ⟨hle, hstop⟩ := hv.nextNamespace_ground hground
    have hregion := hv.region_block hw hs (by rw [hscope']; exact hs') hin
      (by have := hk.ground.lo_le; omega) hlt
      (hv.headed_of_header hkind hn he) htext
    -- the closing brace is no use keyword, and behind it there is no code
    have hcloser : v.importsFrom c = v.importsFrom (c + 1) := by
      refine importsFrom_skip (Nat.le_succ c) hlt hv.hi_le fun q hcq hqc huse => ?_
      obtain rfl : q.val = c := by omega
      have := hv.isCloser_of_closedBy hclosed
      rw [huse] at this
      cases this
    have hbehind : v.importsFrom (c + 1) = v.importsFrom (v.nextNamespace (c + 1)) :=
      hv.importsFrom_of_no_code hle hstop.le_hi (hgap c (by rw [hanchor]; exact hclosed))
    have hagrees := hregion.agrees (by rw [hin.hi_eq hv, hcloser, hbehind]; exact hrest)
    rw [hlo] at hagrees
    rw [hheader (by rw [hbrace]; simp)]
    exact hagrees
  · -- what ends the header is neither a parenthesis nor a use keyword
    have hparen : v.kind e ≠ .closeParen := by
      intro hk
      rw [hk, hv.php] at hend
      cases hend
    have huse : v.kind e ≠ .useKw := by
      intro hk
      rw [hk, hv.php] at hend
      cases hend
    have hregion := hv.region_span hs hs' hground
      (fun q _ hq hkind => hv.code_behind_closeParen hn he hparen hq hkind) hnext htag
    have hagrees := hregion.agrees (by rw [Nat.zero_add]; exact hrest)
    rw [Nat.zero_add] at hagrees
    rw [hheader huse, hview]
    exact hagrees

theorem declaredNamespaces_of_some {copy i : Nat}
    (hok : (v.declaredNamespaces copy i).error = none)
    (hk : v.sibling? namespaceKeyword i = some k) :
    ∃ item next, v.namespaceAt copy k = .ok (item, next) ∧
      v.declaredNamespaces copy i =
        (v.declaredNamespaces copy (max next (k + 1))).after [item] := by
  rw [declaredNamespaces, scan_of_some hk] at hok ⊢
  cases hat : v.namespaceAt copy k with
  | error e =>
    rw [hat] at hok
    cases hok
  | ok found => exact ⟨found.1, found.2, rfl, rfl⟩

theorem namespaceName?_of_declared {copy i : Nat} (hok : (v.declaredNamespaces copy i).error = none)
    (hk : v.sibling? namespaceKeyword i = some k) : ∃ n, v.namespaceName? k = some n := by
  obtain ⟨item, next, hat, _⟩ := declaredNamespaces_of_some hok hk
  obtain ⟨n, _, _, hn, _⟩ := namespaceAt_ok hat
  exact ⟨n, hn⟩

theorem agrees_declared {copy i : Nat} (hv : v.Balanced) (hs : v.scope.isNamespaceLevel = true)
    (hi : v.Ground i) (htext : ∀ c : v.Pos, Taxonomy.php.isCloser (v.kind c) = true →
      Text.isIdentifier (v.node c).text = false)
    (htag : ∀ k, ¬ v.AliasAtTag k) (hok : (v.declaredNamespaces copy i).error = none)
    (hgap : ∀ item ∈ (v.declaredNamespaces copy i).items, ∀ c,
      item.view.anchor.bind (·.node.closedBy) = some c →
        v.hasCode (c + 1) (v.nextNamespace (c + 1)) = false) :
    Agrees (v.importsFrom (v.nextNamespace i))
      ((v.declaredNamespaces copy i).items.map (·.view)) := by
  induction hm : v.hi - i using Nat.strongRecOn generalizing i with
  | ind m ih =>
    cases hk : v.sibling? namespaceKeyword i with
    | none =>
      rw [nextNamespace, hk, declaredNamespaces, scan_of_none hk, Option.map_none, Option.getD_none,
        importsFrom_end (Nat.le_refl _)]
      exact ⟨by simp, fun _ => rfl⟩
    | some k =>
      obtain ⟨hik, hlt⟩ := sibling?_bounds hk
      have hfound : v.Found namespaceKeyword k :=
        ⟨hv.sibling?_ground hi hk, hlt, sibling?_contains hk⟩
      obtain ⟨item, next, hat, heq⟩ := declaredNamespaces_of_some hok hk
      obtain ⟨_, hkn, hground⟩ := hv.namespaceAt_part hfound.ground
        (kind_of_singleton hfound.mem) hat
      rw [Nat.max_eq_left hkn] at heq
      rw [heq] at hok hgap
      have hrest := ih (v.hi - next) (by omega) hground hok
        (fun a ha => hgap a (List.mem_append_right _ ha)) rfl
      rw [heq, nextNamespace, hk]
      exact hv.agrees_namespaceAt hs hfound htext htag hat
        (hgap item (List.mem_append_left _ (by simp)))
        (fun k => namespaceName?_of_declared hok) hrest

theorem agrees_withPreamble {rest : Listing Item} (hv : v.Balanced)
    (hs : v.scope.isNamespaceLevel = true) (htag : ∀ k, ¬ v.AliasAtTag k)
    (hok : (v.withPreamble (v.nextNamespace v.lo) rest).error = none)
    (hnext : ∀ k, v.sibling? namespaceKeyword v.lo = some k → ∃ n, v.namespaceName? k = some n)
    (hrest : Agrees (v.importsFrom (v.nextNamespace v.lo)) (rest.items.map (·.view))) :
    Agrees v.imports ((v.withPreamble (v.nextNamespace v.lo) rest).items.map (·.view)) := by
  obtain ⟨scope, hscope, heq⟩ := withPreamble_ok hok
  have hregion := hv.region_span hs (Scope.namespaceLevel_of_enter hscope hs) hv.lo
    (fun q hlo hq _ => by omega) hnext htag
  have hagrees := hregion.agrees (by rw [Nat.zero_add]; exact hrest)
  rw [Nat.zero_add] at hagrees
  rw [heq]
  exact hagrees

theorem agrees_namespaces {copy : Nat} (hv : v.Balanced) (hs : v.scope.isNamespaceLevel = true)
    (htext : ∀ c : v.Pos, Taxonomy.php.isCloser (v.kind c) = true →
      Text.isIdentifier (v.node c).text = false)
    (htag : ∀ k, ¬ v.AliasAtTag k) (hok : (v.namespaces copy).error = none)
    (hgap : ∀ item ∈ (v.namespaces copy).items, ∀ c, item.view.anchor.bind (·.node.closedBy) =
      some c → v.hasCode (c + 1) (v.nextNamespace (c + 1)) = false) :
    Agrees v.imports ((v.namespaces copy).items.map (·.view)) := by
  unfold namespaces at hok hgap ⊢
  cases hfirst : v.sibling? namespaceKeyword v.lo with
  | none =>
    rw [hfirst] at hok
    have hnext : v.nextNamespace v.lo = v.hi := by rw [nextNamespace, hfirst]; rfl
    dsimp only at hok ⊢
    rw [← hnext] at hok ⊢
    refine hv.agrees_withPreamble hs htag hok (fun k hk => by rw [hfirst] at hk; cases hk) ?_
    rw [hnext, importsFrom_end (Nat.le_refl _)]
    exact ⟨by simp, fun _ => rfl⟩
  | some k =>
    rw [hfirst] at hok hgap
    dsimp only at hok hgap ⊢
    have hground := hv.sibling?_ground hv.lo hfirst
    have hself := sibling?_self hfirst
    have hnext : v.nextNamespace v.lo = k := by rw [nextNamespace, hfirst]; rfl
    have hnext' : v.nextNamespace k = k := by rw [nextNamespace, hself]; rfl
    split at hok
    · rename_i hcode
      rw [if_pos hcode] at hgap ⊢
      obtain ⟨scope, _, heq⟩ := withPreamble_ok hok
      have herror : (v.declaredNamespaces copy k).error = none := by
        rw [heq] at hok
        exact hok
      rw [heq] at hgap
      have hrest := hv.agrees_declared hs hground htext htag herror
        fun item hitem => hgap item (List.mem_cons_of_mem _ hitem)
      rw [hnext', ← hnext] at hrest
      rw [← hnext] at hok ⊢
      refine hv.agrees_withPreamble hs htag hok (fun k' hk' => ?_) hrest
      rw [hfirst] at hk'
      cases hk'
      exact namespaceName?_of_declared herror hself
    · rename_i hcode
      rw [if_neg hcode] at hgap ⊢
      have hrest := hv.agrees_declared hs hground htext htag hok hgap
      have hskip : v.imports = v.importsFrom k :=
        hv.importsFrom_of_no_code hground.lo_le hground.le_hi (Bool.not_eq_true _ ▸ hcode)
      rw [hskip]
      rw [hnext'] at hrest
      exact hrest

end Balanced

theorem isIdentifier_closer {source : String} {f : Flags} {root : View}
    (hroot : ofSource source f = .ok root) (c : root.Pos)
    (hc : Taxonomy.php.isCloser (root.kind c) = true) :
    Text.isIdentifier (root.node c).text = false := by
  obtain ⟨ts, g, hts, hlink, hg⟩ := ofSource_ok hroot
  obtain ⟨_, _, rfl⟩ := ofGraph_ok hg
  obtain ⟨_, _, htokens⟩ := link_tokens_eq hlink
  refine tokenize_closer hts _ ?_ hc
  have hmem : (g.nodes[c]).toToken ∈ g.tokens :=
    List.mem_map_of_mem (Array.getElem_mem_toList c.isLt)
  rw [htokens, kept] at hmem
  split at hmem
  · exact (List.mem_filter.mp hmem).1
  · exact hmem

/-- If the namespaces of a file can be listed, and no code stands between the closing brace of one
and the keyword of the next, then the imports of the file can be listed if and only if those of all
its namespaces can, and they are those of the namespaces in order. A namespace keyword between `as`
and a close tag is excepted. -/
theorem imports_eq_flatMap_namespaces {source : String} {f : Flags} {root : View} {copy : Nat}
    (hroot : ofSource source f = .ok root) (hok : (root.namespaces copy).error = none)
    (hgap : ∀ item ∈ (root.namespaces copy).items, ∀ c, item.view.anchor.bind (·.node.closedBy) =
      some c → root.hasCode (c + 1) (root.nextNamespace (c + 1)) = false)
    (htag : ∀ k, ¬ root.AliasAtTag k) :
    (root.imports.error = none ↔ ∀ item ∈ (root.namespaces copy).items, item.view.imports.error =
      none) ∧ (root.imports.error = none →
        root.imports.items = (root.namespaces copy).items.flatMap (·.view.imports.items)) := by
  obtain ⟨ts, g, _, hlink, hg⟩ := ofSource_ok hroot
  have hr := balanced_of_ofGraph (.link hlink) hg
  have hs : root.scope.isNamespaceLevel = true := by
    obtain ⟨_, _, rfl⟩ := ofGraph_ok hg
    rfl
  have hagrees := hr.agrees_namespaces hs (isIdentifier_closer hroot) htag hok hgap
  simpa only [Agrees, List.forall_mem_map, List.flatMap_map] using hagrees

def sampleFile : String :=
  "<?php use A as B; namespace C \x7b use D\\\x7bE, F\x7d; \x7d namespace G ?><?php use H;"

theorem imports_eq_flatMap_namespaces_sample :
    ∃ root : View, ofSource sampleFile = .ok root ∧ root.namespaces.error = none ∧
      root.namespaces.items.map (·.name) = ["", "C", "G"] ∧
      root.imports.items.map (·.name) = ["A", "D\\E", "D\\F", "H"] ∧
      (root.imports.error = none ↔ ∀ item ∈ root.namespaces.items, item.view.imports.error = none) ∧
      root.imports.items = root.namespaces.items.flatMap (·.view.imports.items) := by
  have h : (ofSource sampleFile).toOption.map (fun root =>
      ((root.namespaces.error, root.namespaces.items.map (·.name)),
        (root.imports.error, root.imports.items.map (·.name)),
        root.namespaces.items.all fun item => (item.view.anchor.bind (·.node.closedBy)).all fun c =>
          !root.hasCode (c + 1) (root.nextNamespace (c + 1)),
        decide (∀ k : root.Pos, root.kind k = .namespaceKw → root.follows k .asKw = false))) =
      some ((none, ["", "C", "G"]), (none, ["A", "D\\E", "D\\F", "H"]), true, true) := by
    decide +kernel
  simp only [Option.map_eq_some_iff, Prod.mk.injEq, List.all_eq_true, decide_eq_true_eq] at h
  obtain ⟨root, hroot, ⟨hok, hnames⟩, ⟨himports, himported⟩, hgap, has⟩ := h
  have hsource : ofSource sampleFile = .ok root := ok_of_toOption hroot
  obtain ⟨hiff, hitems⟩ := imports_eq_flatMap_namespaces hsource hok
    (by
      intro item hitem c hc
      have hcode := hgap item hitem
      rw [hc] at hcode
      simpa using hcode)
    (by
      rintro k ⟨hk, hfollows, _⟩
      rw [has k (kind_of_singleton hk.mem)] at hfollows
      cases hfollows)
  exact ⟨root, hsource, hok, hnames, himported, hiff, hitems himports⟩

/-- As the alias of an import, `namespace` ends the global namespace and yet the statement goes on
in the file. -/
theorem imports_beyond_namespace :
    (ofSource "<?php use X as namespace ?><?php A;").toOption.map (fun root =>
      (root.namespaces.error, root.namespaces.items.map (·.view.anchor), root.imports.error,
        root.imports.items)) =
        some (none, [none, none], none, [⟨"namespace", .class_, "X"⟩]) ∧
    (ofSource "<?php use X as namespace ?><?php A;").toOption.map (fun root =>
      root.namespaces.items.map (fun item => (item.name, item.view.imports.error))) =
        some [("", some (.structural 1 .useWithoutEnd)), ("A", none)] := by
  decide +kernel

end View

end PhpOutline
