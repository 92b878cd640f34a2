import PhpOutline.Proofs.ClauseTokens
import PhpOutline.Proofs.ScopeTags

/-!
# Names of a part, resolved around it

The view of a type or a member takes its namespace and its imports from the view that lists it. It
also reads the same names, since it ends inside of none: a block ends at its closing bracket, and a
value behind its last code token, where only trivia, a comma or the end of a statement can follow.
-/

namespace PhpOutline

theorem Scope.Enters.space_eq {s t : Scope} {name : String} {e : Enumeration}
    (hspace : s.isSet .space = true) (h : s.Enters name e t) :
    t.space = s.space ∧ t.isNamespaceLevel = false := by
  cases h with
  | space h =>
    rw [Scope.isSet, h] at hspace
    cases hspace
  | type => exact ⟨rfl, by simp [Scope.isNamespaceLevel]⟩
  | member => exact ⟨rfl, by simp [Scope.isNamespaceLevel]⟩

namespace View

open PhpOutline.Graph

variable {v w root : View} {p : v.Pos} {e : Enumeration} {name : String} {copy a b c stop : Nat}
  {ts : List Token}

def origin (v : View) (i : Nat) : Nat :=
  match v.anchor with
  | none => i
  | some m => m.node.index + 1 + i

/-! ## Names as runs of tokens -/

theorem filterMap_range' (ts : List Token) (a n : Nat) :
    (List.range' a n).filterMap (ts[·]?) = (ts.drop a).take n := by
  induction n generalizing a with
  | zero => simp
  | succ n ih =>
    rw [List.range'_succ, List.filterMap_cons]
    rcases Nat.lt_or_ge a ts.length with ha | ha
    · rw [List.getElem?_eq_getElem ha, List.drop_eq_getElem_cons ha, List.take_succ_cons, ih]
    · rw [List.getElem?_eq_none ha, ih, List.drop_eq_nil_of_le ha,
        List.drop_eq_nil_of_le (by omega)]
      simp

theorem map_between (v : View) (a b : Nat) :
    (v.between a b).map (fun q => (v.node q).toToken) = window v.graph.tokens a b := by
  have htoken : ∀ i, (v.pos? i).map (fun q => (v.node q).toToken) = v.graph.tokens[i]? := by
    intro i
    rw [getElem?_tokens, pos?]
    split
    · rename_i hi
      rw [Array.getElem?_eq_getElem hi]
      rfl
    · rename_i hi
      rw [Array.getElem?_eq_none (Nat.le_of_not_lt hi)]
      rfl
  rw [between, List.map_filterMap]
  simp only [htoken]
  rw [filterMap_range', window, List.drop_take]

theorem nameAt_eq (i : v.Pos) :
    v.nameAt i =
      if v.graph.taxonomy.nameSegments.contains (v.kind i) then
        .ok (withoutTrailing (((window v.graph.tokens i v.hi).takeWhile
          (v.graph.taxonomy.nameSegments.contains ·.kind)).flatMap (·.text.toList)))
      else .error (.usage (.notAName (v.node i).text (v.node i).line)) := by
  rw [← map_between, List.takeWhile_map, List.flatMap_map]
  rfl

theorem window_append (hab : a ≤ b) (hbc : b ≤ c) :
    window ts a c = window ts a b ++ window ts b c := by
  rw [window, window, window, List.drop_take, List.drop_take, List.drop_take,
    show c - a = (b - a) + (c - b) by omega, List.take_add, List.drop_drop, Nat.add_sub_cancel' hab]

theorem takeWhile_window {test : Token → Bool} (hab : a ≤ b) (hbc : b ≤ c)
    (hend : ∀ t, b < c → ts[b]? = some t → test t = false) :
    (window ts a c).takeWhile test = (window ts a b).takeWhile test := by
  have hrest : (window ts b c).takeWhile test = [] := by
    rcases Nat.eq_or_lt_of_le hbc with rfl | hlt
    · simp [window]
    · cases ht : ts[b]? with
      | none =>
        rw [window, List.drop_eq_nil_of_le]
        · rfl
        · exact Nat.le_trans (List.length_take_le' _ _) (List.getElem?_eq_none_iff.mp ht)
      | some t =>
        obtain ⟨hb, rfl⟩ := List.getElem?_eq_some_iff.mp ht
        rw [window, List.drop_take, List.drop_eq_getElem_cons hb,
          show c - b = (c - b - 1) + 1 by omega, List.take_succ_cons,
          List.takeWhile_cons_of_neg (by rw [hend _ hlt ht]; exact Bool.false_ne_true)]
  rw [window_append hab hbc, List.takeWhile_append, hrest, List.append_nil]
  split
  · rename_i hlength
    exact ((List.takeWhile_prefix test).eq_of_length hlength).symm
  · rfl

/-! ## Ends of parts -/

def Halts (v : View) (stop : Nat) : Prop :=
  ∀ q : v.Pos, q.val = stop → stop < v.hi →
    v.graph.taxonomy.nameSegments.contains (v.kind q) = false

theorem not_segment_of_isTrivia {k : Kind} (h : Taxonomy.php.isTrivia k = true) :
    Taxonomy.php.nameSegments.contains k = false := by
  cases k <;> first | rfl | cases h

theorem not_segment_of_valueEnd {k : Kind}
    (h : (Taxonomy.php.terminators.insert .comma).contains k = true) :
    Taxonomy.php.nameSegments.contains k = false := by
  cases k <;> first | rfl | cases h

namespace Balanced

theorem siblingOrEnd_halts (hv : v.Balanced) (i : Nat) :
    v.Halts (((v.sibling? v.valueEnd i).map (·.val)).getD v.hi) := by
  intro q hq hlt
  cases hs : v.sibling? v.valueEnd i with
  | none =>
    rw [hs] at hlt
    exact absurd hlt (Nat.lt_irrefl _)
  | some s =>
    rw [hs] at hq
    obtain rfl : q = s := Fin.ext hq
    have hend := sibling?_contains hs
    rw [valueEnd, hv.php] at hend
    rw [hv.php]
    exact not_segment_of_valueEnd hend

theorem valueRange_halts (hv : v.Balanced) (hstop : v.Halts stop)
    (hlt : (v.valueRange p stop).1 < (v.valueRange p stop).2) :
    v.Halts (v.valueRange p stop).2 := by
  unfold valueRange at hlt ⊢
  dsimp only at hlt ⊢
  split at hlt
  · rename_i first last hfirst hlast
    obtain ⟨_, hls, _, hafter⟩ := getLast?_filter_between hlast
    intro q hq hhi
    simp only at hq
    rcases Nat.lt_or_ge q stop with hqs | hqs
    · have hcode := hafter q (by rw [Fin.lt_def]; omega) hqs
      rw [isCode, Taxonomy.isCode, Bool.not_eq_false', hv.php] at hcode
      rw [hv.php]
      exact not_segment_of_isTrivia hcode
    · exact hstop q (by omega) (by omega)
  · exact absurd hlt (Nat.lt_irrefl _)

end Balanced

theorem anchor_of_block {scope : Scope} (h : v.block copy p scope = .ok w) : w.anchor ≠ none := by
  obtain ⟨_, _, _, _, _, _, hanchor, _⟩ := block_ok h
  rw [hanchor]
  exact Option.some_ne_none _

theorem Yields.halts (hv : v.Balanced) (hspace : v.scope.isSet .space = true)
    (h : v.Yields e name w) (hanchor : w.anchor = none) (hlt : w.lo < w.hi) : v.Halts w.hi := by
  obtain ⟨copy, h⟩ := h
  cases e with
  | namespaces =>
    obtain ⟨_, he, _⟩ := results_refused .namespaces copy hspace _ h
    cases he
  | types =>
    obtain ⟨p, _, hat⟩ := mem_types_read (mem_results.mp h)
    obtain ⟨_, _, _, _, _, _, _, _, _, hblock, _⟩ := typeAt_ok hat
    exact absurd hanchor (anchor_of_block hblock)
  | functions =>
    obtain ⟨p, nameAt, _, hat⟩ := mem_functions_read (mem_results.mp h)
    obtain ⟨stop, scope, _, _, _, ⟨_, hblock, _⟩ | ⟨_, hview, _⟩⟩ := functionAt_ok hat
    · exact absurd hanchor (anchor_of_block hblock)
    · cases hview
      exact absurd hlt (Nat.lt_irrefl _)
  | properties =>
    obtain ⟨l, hl, h⟩ := mem_results_properties.mp h
    obtain ⟨p, next, _, hat⟩ := mem_properties_read hl h
    obtain ⟨scope, _, _, ⟨hview, _⟩ | ⟨equals, _, _, hnext, hview⟩⟩ := propertyAt_ok hat
    · cases hview
      exact absurd hlt (Nat.lt_irrefl _)
    · cases hview
      exact hv.valueRange_halts (hnext ▸ hv.siblingOrEnd_halts _) hlt
  | constants =>
    obtain ⟨p, hp⟩ := mem_constants_read (mem_results.mp h)
    obtain ⟨equals, nameAt, scope, stop, _, _, _, hstop, hview⟩ := mem_constantsAt hp
    cases hview
    exact hv.valueRange_halts (hstop ▸ hv.siblingOrEnd_halts _) hlt

/-! ## Names at their origin -/

theorem Balanced.closer_halts {o : v.Pos} (hv : v.Balanced) (hc : (v.node o).closedBy = some c) :
    v.Halts c := by
  rintro q rfl _
  rw [hv.php]
  exact not_segment_of_closer (hv.isCloser_of_closedBy hc)

theorem Halts.takeWhile_window (h : v.Halts b) (hb : b ≤ v.hi) (hab : a ≤ b) :
    (window v.graph.tokens a v.hi).takeWhile (v.graph.taxonomy.nameSegments.contains ·.kind) =
      (window v.graph.tokens a b).takeWhile (v.graph.taxonomy.nameSegments.contains ·.kind) := by
  refine View.takeWhile_window hab hb fun t hlt ht => ?_
  rw [getElem?_tokens] at ht
  obtain ⟨n, hn, rfl⟩ := Option.map_eq_some_iff.mp ht
  obtain ⟨hsize, rfl⟩ := Array.getElem?_eq_some_iff.mp hn
  exact h ⟨b, hsize⟩ rfl hlt

theorem window_window {m : Nat} (hm : m = c - a) (i : Nat) :
    window (window ts a c) i m = window ts (a + i) c := by
  have hlength : (window ts a c).length ≤ m := by
    rw [window, List.length_drop, List.length_take]
    omega
  rw [window, List.take_of_length_le hlength, window, List.drop_drop, window]

/-- Every token of a part stands in the view around it as well, and starts the same name there. -/
theorem Part.nameAt_eq (hv : v.Balanced) (h : v.Part w)
    (hend : w.anchor = none → w.lo < w.hi → v.Halts w.hi) {i : w.Pos} (hlo : w.lo ≤ i)
    (hhi : i < w.hi) :
    ∃ j : v.Pos, j.val = w.origin i ∧ v.lo ≤ j ∧ j < v.hi ∧
      (v.node j).toToken = (w.node i).toToken ∧ w.nameAt i = v.nameAt j := by
  cases h with
  | @span lo hi scope hglo hghi hle =>
    have hwhi : i < hi := hhi
    have hwlo : lo ≤ i := hlo
    refine ⟨i, rfl, Nat.le_trans hglo.lo_le hwlo, Nat.lt_of_lt_of_le hwhi hghi.le_hi, rfl, ?_⟩
    have hrun := (hend rfl (Nat.lt_of_le_of_lt hwlo hwhi)).takeWhile_window hghi.le_hi
      (Nat.le_of_lt hwhi)
    refine (View.nameAt_eq (v := v.span lo hi scope) i).trans
      (Eq.trans ?_ (View.nameAt_eq (v := v) i).symm)
    rw [hrun]
    rfl
  | @block copy p scope _ hp hlt h =>
    obtain ⟨c, hc, hgraph, hwlo, hwhi, _, hanchor, _⟩ := block_ok h
    have hpair := hv.pair_of_closedBy hc
    have hchi := hv.closer_lt hlt hpair
    have hsize : w.hi = c - (p + 1) := by
      rw [hwhi, hgraph]
      exact size_cut (Nat.le_trans (Nat.le_of_lt hchi) hv.hi_le)
    have hnode : (v.graph.cut p c).nodes[i.val]? = some (w.node i) := by
      rw [← hgraph]
      exact getElem?_pos i
    obtain ⟨hic, m, hm, hrelink⟩ := getElem?_cut hnode
    obtain ⟨hlt', hnode'⟩ := Array.getElem?_eq_some_iff.mp hm
    obtain ⟨j, hj⟩ : ∃ j : v.Pos, j.val = p + 1 + i := ⟨⟨p + 1 + i, hlt'⟩, rfl⟩
    have htoken : (w.node i).toToken = (v.node j).toToken := by
      rw [hrelink, ← hnode']
      simp only [relinkNode, node, Fin.getElem_fin, hj]
    have hplo := hp.lo_le
    refine ⟨j, ?_, by omega, by omega, htoken.symm, ?_⟩
    · rw [origin, hanchor, hj]
      show p.val + 1 + i = (v.node p).index + 1 + i
      rw [(hv.linked.nodes p _ (getElem?_pos p)).index]
    · -- a name of the part cannot go on behind it, since the closing bracket is no segment
      have hrun := (hv.closer_halts hc).takeWhile_window (a := j) (Nat.le_of_lt hchi) (by omega)
      have hkind : w.kind i = v.kind j := congrArg Token.kind htoken
      have htext : (w.node i).text = (v.node j).text := congrArg Token.text htoken
      have hline : (w.node i).line = (v.node j).line := congrArg Token.line htoken
      have htaxonomy : w.graph.taxonomy = v.graph.taxonomy := by rw [hgraph]; rfl
      have htokens : w.graph.tokens = window v.graph.tokens (p + 1) c := by rw [hgraph, tokens_cut]
      rw [View.nameAt_eq, View.nameAt_eq (v := v), hrun, hkind, htext, hline, htaxonomy, htokens,
        window_window hsize, hj]

/-! ## Resolution -/

theorem resolve_congr {m m' : Mark} {i : v.Pos} {j : w.Pos}
    (hspace : v.scope.space = w.scope.space) (htable : v.importTable = w.importTable)
    (hi : v.position? m = some i) (hj : w.position? m' = some j) (hname : v.nameAt i = w.nameAt j)
    (kind : ImportKind) : v.resolve kind m = w.resolve kind m' := by
  simp only [resolve, hspace, htable, hi, hj, hname]

theorem Balanced.position?_mark (hv : v.Balanced) (hlo : v.lo ≤ p) (hhi : p < v.hi) :
    v.position? (v.mark p) = some p := by
  have hindex := (hv.linked.nodes p _ (getElem?_pos p)).index
  exact View.position?_mark (by rw [hindex]; exact hlo) hhi hindex

theorem Yields.resolve_eq (hv : v.Balanced) (hspace : v.scope.isSet .space = true)
    (h : v.Yields e name w) {i : w.Pos} (hlo : w.lo ≤ i) (hhi : i < w.hi) :
    ∃ j : v.Pos, j.val = w.origin i ∧ v.lo ≤ j ∧ j < v.hi ∧
      (v.node j).toToken = (w.node i).toToken ∧
        ∀ kind, w.resolve kind (w.mark i) = v.resolve kind (v.mark j) := by
  have hpart := (lists_iff_yields.mpr ⟨e, name, h⟩).part hv
  obtain ⟨j, hj, hjlo, hjhi, htoken, hname⟩ := hpart.nameAt_eq hv (h.halts hv hspace) hlo hhi
  obtain ⟨hsame, hlevel⟩ := h.enters.2.space_eq hspace
  have himports : w.importScope = v.importScope := by
    rw [importScope, hpart.outer_eq, importScopeOf, hlevel]
    rfl
  refine ⟨j, hj, hjlo, hjhi, htoken, fun kind => ?_⟩
  exact resolve_congr hsame (by rw [importTable, importTable, himports])
    ((hpart.balanced hv).position?_mark hlo hhi) (hv.position?_mark hjlo hjhi) hname kind

/-- Where the view around a reachable view lies in a namespace, every token of the view stands in
both, and both resolve it, as a name of any kind, to the same name or with the same error. -/
theorem resolve_eq_parent {f : Flags} {g : Graph} {root v p : View} (hg : Built .php f g)
    (hroot : ofGraph g = .ok root) (hv : root.Reaches v) (hp : v.parent? = some p)
    (hspace : p.scope.space.isSome = true) (i : v.Pos) (hlo : v.lo ≤ i) (hhi : i < v.hi) :
    ∃ j : p.Pos, j.val = v.origin i ∧ p.lo ≤ j ∧ j < p.hi ∧
      (p.node j).toToken = (v.node i).toToken ∧
        ∀ kind, v.resolve kind (v.mark i) = p.resolve kind (p.mark j) := by
  obtain ⟨hreaches, e, name, hyields⟩ := (hv.parent?_eq_some_iff hroot p).mp hp
  exact hyields.resolve_eq (hreaches.balanced (balanced_of_ofGraph hg hroot)) hspace hlo hhi

theorem resolve_eq_parent_sample :
    ∃ (root v p : View) (i : v.Pos) (j : p.Pos),
      ofSource "<?php namespace A; use B\\C; class D \x7b const E = C; \x7d" = .ok root ∧
      root.Reaches v ∧ v.parent? = some p ∧ p.scope.space = some "A" ∧ j.val = i.val ∧
      (p.node j).text = "C" ∧ v.resolve .class_ (v.mark i) = .ok "B\\C" ∧
      p.resolve .class_ (p.mark j) = .ok "B\\C" := by
  have h : ((ofSource "<?php namespace A; use B\\C; class D \x7b const E = C; \x7d").toOption.bind
      fun root =>
      root.namespaces.items.head?.bind fun a => a.view.types.items.head?.bind fun b =>
      b.view.constants.items.head?.bind fun c => (c.view.pos? 7).map fun i =>
        ((c.view.lo, c.view.hi, c.view.anchor.isNone), b.view.scope.space, (c.view.node i).text,
          (c.view.resolve .class_ (c.view.mark i)).toOption)) =
      some ((7, 8, true), some "A", "C", some "B\\C") := by
    decide +kernel
  simp only [Option.bind_eq_some_iff, Option.map_eq_some_iff, Prod.mk.injEq] at h
  obtain ⟨root, hroot, a, ha, b, hb, c, hc, i, hi, ⟨hlo, hhi, hanchor⟩, hspace, htext, hname⟩ := h
  have hsource := ok_of_toOption hroot
  obtain ⟨_, g, _, hlink, hg⟩ := ofSource_ok hsource
  have hlists := Lists.constants (List.mem_of_mem_head? hc)
  have hreach : root.Reaches b.view :=
    .step (.step .refl (.namespaces 0 (List.mem_of_mem_head? ha)))
      (.types 0 (List.mem_of_mem_head? hb))
  have hparent := (hlists.part (hreach.balanced (balanced_of_ofGraph (.link hlink) hg))).parent?_eq
  have hval := val_of_pos? hi
  have hname := ok_of_toOption hname
  obtain ⟨j, hj, _, _, htoken, hsame⟩ := resolve_eq_parent (.link hlink) hg
    (.step hreach hlists) hparent
    (by rw [hspace]; rfl) i (by omega) (by omega)
  rw [origin, Option.isNone_iff_eq_none.mp hanchor] at hj
  refine ⟨root, c.view, b.view, i, j, hsource, .step hreach hlists, hparent, hspace, hj, ?_, hname,
    ?_⟩
  · exact (congrArg Token.text htoken).trans htext
  · rw [← hsame, hname]

end View

end PhpOutline
