import Mathlib.Data.List.Basic
import PhpOutline.Graph.InPlace
import PhpOutline.Proofs.Linked

/-!
# Linking in place is linking

What the two passes over nodes with old links leave behind. When the pass up has come to a position,
the nodes before it have all links that are told by the tokens before that position (`LinkedBelow`);
those from the position on are as they came. So nothing of the old links is read, and the passes end
in the graph that linking makes of the tokens (`linkInPlace_eq`).
-/

namespace PhpOutline

namespace Graph

theorem Pair.openAt_iff {r : Nat → Role} {o c p : Nat} (h : Pair r o c) :
    OpenAt r (c + 1) p ↔ OpenAt r o p := by
  have hlt := h.lt
  constructor
  · intro hp
    rcases Nat.lt_or_ge p o with hpo | hop
    · exact hp.of_le hpo (by omega)
    · -- a bracket that is opened from `o` on is not open any more behind the partner of `o`
      have hend := hp.above (c + 1) hp.lt (Nat.le_refl _)
      rw [h.height_eq] at hend
      rcases Nat.eq_or_lt_of_le hop with rfl | hlt'
      · omega
      · have := h.openAt.above p hlt' (by have := hp.lt; omega)
        omega
  · intro hp
    have hop := hp.above o hp.lt (Nat.le_refl _)
    refine ⟨hp.opens, by have := hp.lt; omega, fun j hpj hjc => ?_⟩
    rcases Nat.lt_or_ge o j with hoj | hjo
    · rcases Nat.lt_or_ge c j with hcj | hjc'
      · rw [show j = c + 1 by omega, h.height_eq]
        exact hop
      · have := h.openAt.above j hoj hjc'
        omega
    · exact hp.above j hpj hjo

theorem Pair.innermost_iff {r : Nat → Role} {o c p : Nat} (h : Pair r o c) :
    Innermost r c p ↔ Innermost r o p := by
  have hclose : r c = .closes := h.closes
  have hopen : r o ≠ .closes := by rw [h.openAt.opens]; simp
  rw [← head?_openStack_innermost, ← head?_openStack_innermost, if_pos hclose, if_neg hopen,
    ← openStack_closes hclose, head?_openStack, head?_openStack]
  simp only [h.openAt_iff]

/-- The links of the node at `k` that are told by the tokens before position `i`. -/
structure LinkedBelow (x : Taxonomy) (f : Flags) (ts : List Token) (i k : Nat) (n : Node) :
    Prop where
  index : n.index = k
  prev : ∀ j, n.prev = some j ↔ j + 1 = k
  next : ∀ j, n.next = some j ↔ j = k + 1 ∧ j < ts.length
  prevCode : ∀ j, n.prevCode = some j ↔ LastBefore (CodeAt x ts) k j
  parent : ∀ j, n.parent = some j ↔ Innermost (roleAt x f ts) k j
  openedBy : ∀ j, n.openedBy = some j ↔ Pair (roleAt x f ts) j k
  closedBy : ∀ j, n.closedBy = some j ↔ Pair (roleAt x f ts) k j ∧ j < i

/-- What the pass up has done when it comes to position `i`. -/
structure Ascended (x : Taxonomy) (f : Flags) (ts : List Token) (i : Nat) (a : Ascent) : Prop where
  tokens : a.nodes.toList.map (·.toToken) = ts
  linked : ∀ k n, k < i → a.nodes[k]? = some n → LinkedBelow x f ts i k n
  opens : a.opens = openStack (roleAt x f ts) i
  nonneg : ∀ j, j ≤ i → 0 ≤ height (roleAt x f ts) j

variable {x : Taxonomy} {f : Flags} {ts : List Token} {nodes : Array Node} {a : Ascent} {n : Node}
  {t : Token} {i j k : Nat}

/-! ## The pass up -/

theorem size_of_tokens (h : nodes.toList.map (·.toToken) = ts) : nodes.size = ts.length := by
  rw [← h, List.length_map, Array.length_toList]

theorem getElem?_of_tokens (h : nodes.toList.map (·.toToken) = ts) (hn : nodes[k]? = some n) :
    ts[k]? = some n.toToken := by
  rw [← h, List.getElem?_map, Array.getElem?_toList, hn]
  rfl

theorem tokens_setIfInBounds (h : nodes.toList.map (·.toToken) = ts)
    (ht : ts[i]? = some n.toToken) :
    (nodes.setIfInBounds i n).toList.map (·.toToken) = ts := by
  rw [Array.toList_setIfInBounds, List.map_set, h]
  obtain ⟨hi, heq⟩ := List.getElem?_eq_some_iff.mp ht
  rw [← heq, List.set_getElem_self]

theorem tokens_modify {g : Node → Node} (h : nodes.toList.map (·.toToken) = ts)
    (hg : ∀ m, (g m).toToken = m.toToken) :
    (nodes.modify i g).toList.map (·.toToken) = ts := by
  rw [← h]
  apply List.ext_getElem?
  intro k
  rw [List.getElem?_map, List.getElem?_map, Array.getElem?_toList, Array.getElem?_toList,
    Array.getElem?_modify]
  split
  · rw [Option.map_map]
    congr 1
    funext m
    exact hg m
  · rfl

theorem LinkedBelow.succ (h : LinkedBelow x f ts i k n) (hpair : ¬ Pair (roleAt x f ts) k i) :
    LinkedBelow x f ts (i + 1) k n := by
  refine ⟨h.index, h.prev, h.next, h.prevCode, h.parent, h.openedBy, fun j => ?_⟩
  rw [h.closedBy]
  constructor
  · rintro ⟨hj, hlt⟩
    exact ⟨hj, by omega⟩
  · rintro ⟨hj, hlt⟩
    have hne : j ≠ i := fun e => hpair (e ▸ hj)
    exact ⟨hj, by omega⟩

namespace Ascended

theorem codeBelow_eq (h : Ascended x f ts i a) (hi : i < ts.length) :
    codeBelow x a.nodes i = some j ↔ LastBefore (CodeAt x ts) i j := by
  cases i with
  | zero => exact ⟨(fun h => by cases h), fun h => by have := h.lt; omega⟩
  | succ p =>
    have hp : p < a.nodes.size := by rw [size_of_tokens h.tokens]; omega
    have hnode := Array.getElem?_eq_getElem hp
    have hcode := codeAt_iff (x := x) (getElem?_of_tokens h.tokens hnode)
    rw [codeBelow, hnode, Option.bind_some]
    by_cases htrivia : x.isTrivia a.nodes[p].kind = true
    · rw [if_pos htrivia, (h.linked p _ (Nat.lt_succ_self p) hnode).prevCode,
        lastBefore_succ_of_neg]
      rw [hcode]
      simp [htrivia]
    · rw [if_neg htrivia, Option.some.injEq, lastBefore_succ_of_pos]
      · exact eq_comm
      · rw [hcode]
        simpa using htrivia

theorem linkedBelow_node (h : Ascended x f ts i a) (ht : ts[i]? = some n.toToken)
    {parent openedBy : Option Nat} (hparent : ∀ j, parent = some j ↔ Innermost (roleAt x f ts) i j)
    (hopened : ∀ j, openedBy = some j ↔ Pair (roleAt x f ts) j i) :
    LinkedBelow x f ts (i + 1) i (a.node x i n parent openedBy) where
  index := rfl
  prev j := by dsimp only [Ascent.node]; split <;> simp <;> omega
  next j := by dsimp only [Ascent.node]; rw [size_of_tokens h.tokens]; split <;> simp <;> omega
  prevCode j := h.codeBelow_eq (List.getElem?_eq_some_iff.mp ht).1
  parent := hparent
  openedBy := hopened
  closedBy j := ⟨(fun h => by cases h), fun ⟨hj, hlt⟩ => by have := hj.lt; omega⟩

theorem exists_node_at (h : Ascended x f ts i a) (ht : ts[i]? = some t) :
    ∃ n, a.nodes[i]? = some n ∧ n.toToken = t := by
  rw [← h.tokens, List.getElem?_map, Array.getElem?_toList] at ht
  exact Option.map_eq_some_iff.mp ht

theorem linked_setIfInBounds
    (h : ∀ k m, k < i → nodes[k]? = some m → LinkedBelow x f ts (i + 1) k m)
    (hn : LinkedBelow x f ts (i + 1) i n) :
    ∀ k m, k < i + 1 → (nodes.setIfInBounds i n)[k]? = some m → LinkedBelow x f ts (i + 1) k m := by
  intro k m hk hm
  rw [Array.getElem?_setIfInBounds] at hm
  split at hm
  · rename_i hik
    subst hik
    split at hm
    · cases hm
      exact hn
    · cases hm
  · exact h k m (by omega) hm

theorem step_of_ne_closes (h : Ascended x f ts i a) (ht : ts[i]? = some t)
    (hrole : role x f t.kind ≠ .closes) :
    ∃ a', a.step x f i = .ok a' ∧ Ascended x f ts (i + 1) a' := by
  have hr := roleAt_of_getElem? (x := x) (f := f) ht
  have hclose : roleAt x f ts i ≠ .closes := by rw [hr]; exact hrole
  obtain ⟨n, hn, rfl⟩ := h.exists_node_at ht
  have hnode : LinkedBelow x f ts (i + 1) i (a.node x i n a.opens.head? none) := by
    refine h.linkedBelow_node ht (fun j => ?_) fun j => ?_
    · rw [h.opens, ← head?_openStack_innermost, if_neg hclose]
    · exact ⟨(fun h => by cases h), fun hpair => absurd hpair.closes hclose⟩
  have hbelow : ∀ k m, k < i → a.nodes[k]? = some m → LinkedBelow x f ts (i + 1) k m :=
    fun k m hk hm => (h.linked k m hk hm).succ fun hpair => hclose hpair.closes
  have hlinked := linked_setIfInBounds hbelow hnode
  have htokens := tokens_setIfInBounds (n := a.node x i n a.opens.head? none) h.tokens ht
  have hnonneg : ∀ j, j ≤ i + 1 → 0 ≤ height (roleAt x f ts) j := by
    intro j hj
    rcases Nat.lt_or_ge i j with hij | hij
    · have := height_le_of_ne_closes hclose
      have := h.nonneg i (Nat.le_refl i)
      rw [show j = i + 1 by omega]
      omega
    · exact h.nonneg j hij
  unfold Ascent.step
  rw [hn]
  cases hkind : role x f n.kind with
  | closes => exact absurd hkind hrole
  | plain =>
    refine ⟨⟨a.nodes.setIfInBounds i (a.node x i n a.opens.head? none),
      a.opens⟩, by simp only [hkind], htokens, hlinked, ?_, hnonneg⟩
    rw [openStack_plain (hr.trans hkind), h.opens]
  | opens =>
    refine ⟨⟨a.nodes.setIfInBounds i (a.node x i n a.opens.head? none),
      i :: a.opens⟩, by simp only [hkind], htokens, hlinked, ?_, hnonneg⟩
    rw [openStack_opens (hr.trans hkind), h.opens]

theorem step_of_closes (h : Ascended x f ts i a) (ht : ts[i]? = some t)
    (hrole : role x f t.kind = .closes) :
    (a.opens = [] ∧ a.step x f i = .error (.unmatchedCloser t.text t.line)) ∨
      ∃ a', a.step x f i = .ok a' ∧ Ascended x f ts (i + 1) a' := by
  have hclose : roleAt x f ts i = .closes := (roleAt_of_getElem? ht).trans hrole
  obtain ⟨n, hn, rfl⟩ := h.exists_node_at ht
  unfold Ascent.step
  rw [hn]
  cases hopens : a.opens with
  | nil => exact .inl ⟨rfl, by simp only [hrole]⟩
  | cons o opens =>
    right
    -- the innermost bracket that is open is the partner, and was linked before
    have hpair : Pair (roleAt x f ts) o i := by
      rw [← head?_openStack_of_closes hclose, ← h.opens, hopens]
      rfl
    have ho := hpair.lt
    obtain ⟨m, hm⟩ : ∃ m, a.nodes[o]? = some m := by
      have hsize : o < a.nodes.size := Nat.lt_trans ho (Array.getElem?_eq_some_iff.mp hn).1
      exact ⟨_, Array.getElem?_eq_getElem hsize⟩
    have hpartner := h.linked o m ho hm
    have hnode : LinkedBelow x f ts (i + 1) i (a.node x i n m.parent (some o)) := by
      refine h.linkedBelow_node ht (fun j => ?_) fun j => ?_
      · rw [hpartner.parent, hpair.innermost_iff]
      · rw [Option.some.injEq]
        exact ⟨fun e => e ▸ hpair, fun hj => hpair.opener_unique hj⟩
    -- only the partner changes, and what it gains is the link to this node
    have hbelow : ∀ k n', k < i → (a.nodes.modify o fun opener =>
        { opener with closedBy := some i })[k]? = some n' → LinkedBelow x f ts (i + 1) k n' := by
      intro k n' hk hn'
      rw [Array.getElem?_modify] at hn'
      split at hn'
      · rename_i hok
        subst hok
        rw [hm] at hn'
        cases hn'
        refine ⟨hpartner.index, hpartner.prev, hpartner.next, hpartner.prevCode, hpartner.parent,
          hpartner.openedBy, fun j => ?_⟩
        rw [Option.some.injEq]
        exact ⟨fun e => e ▸ ⟨hpair, Nat.lt_succ_self i⟩, fun hj => hpair.closer_unique hj.1⟩
      · rename_i hok
        exact (h.linked k n' hk hn').succ fun hki => hok (hpair.opener_unique hki)
    have hheight : height (roleAt x f ts) (i + 1) = height (roleAt x f ts) o := hpair.height_eq
    refine ⟨⟨_, opens⟩, by simp only [hrole, hm, Option.bind_some]; rfl, ?_,
      linked_setIfInBounds hbelow hnode, ?_, fun j hj => ?_⟩
    · exact tokens_setIfInBounds (tokens_modify h.tokens fun _ => rfl) ht
    · rw [openStack_closes hclose, ← h.opens, hopens]
      rfl
    · rcases Nat.lt_or_ge i j with hij | hij
      · rw [show j = i + 1 by omega, hheight]
        exact h.nonneg o (Nat.le_of_lt ho)
      · exact h.nonneg j hij

end Ascended

/-- The pass up the first `i` nodes, which ends early only where the height first falls below
zero. -/
theorem ascend (hnodes : nodes.toList.map (·.toToken) = ts) (hi : i ≤ ts.length) :
    (∃ a, (List.range i).foldlM (Ascent.step x f) ⟨nodes, []⟩ = .ok a ∧ Ascended x f ts i a) ∨
      ∃ c t, ts[c]? = some t ∧
        (List.range i).foldlM (Ascent.step x f) ⟨nodes, []⟩ =
          .error (.unmatchedCloser t.text t.line) ∧
        height (roleAt x f ts) (c + 1) < 0 ∧ ∀ j, j ≤ c → 0 ≤ height (roleAt x f ts) j := by
  induction i with
  | zero =>
    exact .inl ⟨_, rfl, hnodes, fun k n hk => by omega, rfl,
      fun j hj => by simp [show j = 0 by omega]⟩
  | succ i ih =>
    rw [List.range_succ, List.foldlM_append]
    rcases ih (by omega) with ⟨a, hrun, ha⟩ | ⟨c, t, ht, hrun, hneg, hnn⟩
    · have ht := List.getElem?_eq_getElem (show i < ts.length by omega)
      rw [hrun]
      by_cases hrole : role x f ts[i].kind = .closes
      · rcases ha.step_of_closes ht hrole with ⟨hopens, hstep⟩ | ⟨a', hstep, ha'⟩
        · refine .inr ⟨i, _, ht, ?_, ?_, ha.nonneg⟩
          · simp [bind, Except.bind, hstep]
          · rw [height_closes ((roleAt_of_getElem? ht).trans hrole), ← length_openStack ha.nonneg,
              ← ha.opens, hopens]
            simp
        · exact .inl ⟨a', by simp [bind, Except.bind, hstep, pure, Except.pure], ha'⟩
      · obtain ⟨a', hstep, ha'⟩ := ha.step_of_ne_closes ht hrole
        exact .inl ⟨a', by simp [bind, Except.bind, hstep, pure, Except.pure], ha'⟩
    · exact .inr ⟨c, t, ht, by rw [hrun]; rfl, hneg, hnn⟩

/-! ## The pass down -/

structure Descended (x : Taxonomy) (f : Flags) (ts : List Token) (i : Nat) (nodes : Array Node) :
    Prop where
  tokens : nodes.toList.map (·.toToken) = ts
  below : ∀ k n, nodes[k]? = some n → LinkedBelow x f ts ts.length k n
  nextCode : ∀ k n, i ≤ k → nodes[k]? = some n → ∀ j, n.nextCode = some j ↔
    FirstFrom (CodeAt x ts) (k + 1) j

namespace Descended

theorem codeAbove_eq (h : Descended x f ts (i + 1) nodes) :
    codeAbove x nodes i = some j ↔ FirstFrom (CodeAt x ts) (i + 1) j := by
  unfold codeAbove
  cases hn : nodes[i + 1]? with
  | none =>
    have hsize := Array.getElem?_eq_none_iff.mp hn
    rw [size_of_tokens h.tokens] at hsize
    exact ⟨(fun h => by cases h), fun hj => by have := hj.le; have := hj.holds.lt; omega⟩
  | some n =>
    have hcode := codeAt_iff (x := x) (getElem?_of_tokens h.tokens hn)
    rw [Option.bind_some]
    by_cases htrivia : x.isTrivia n.kind = true
    · rw [if_pos htrivia, h.nextCode (i + 1) n (Nat.le_refl _) hn]
      exact (firstFrom_of_neg (by rw [hcode]; simp [htrivia])).symm
    · rw [if_neg htrivia, Option.some.injEq, firstFrom_of_pos]
      · exact eq_comm
      · rw [hcode]
        simpa using htrivia

theorem step (h : Descended x f ts (i + 1) nodes) : Descended x f ts i (descend x i nodes) := by
  refine ⟨tokens_modify h.tokens fun _ => rfl, fun k n hn => ?_, fun k n hk hn j => ?_⟩
  · rw [descend, Array.getElem?_modify] at hn
    split at hn
    · obtain ⟨m, hm, rfl⟩ := Option.map_eq_some_iff.mp hn
      obtain ⟨hindex, hprev, hnext, hprevCode, hparent, hopened, hclosed⟩ := h.below k m hm
      exact ⟨hindex, hprev, hnext, hprevCode, hparent, hopened, hclosed⟩
    · exact h.below k n hn
  · rw [descend, Array.getElem?_modify] at hn
    split at hn
    · rename_i hik
      subst hik
      obtain ⟨m, _, rfl⟩ := Option.map_eq_some_iff.mp hn
      exact h.codeAbove_eq
    · exact h.nextCode k n (by omega) hn j

theorem run (h : Descended x f ts i nodes) :
    Descended x f ts 0 ((List.range i).foldr (descend x) nodes) := by
  induction i generalizing nodes with
  | zero => exact h
  | succ i ih =>
    rw [List.range_succ, List.foldr_append]
    exact ih h.step

theorem nodeLinked (h : Descended x f ts 0 nodes) (hn : nodes[k]? = some n) :
    NodeLinked x f ts k n := by
  have hbelow := h.below k n hn
  refine ⟨getElem?_of_tokens h.tokens hn, hbelow.index, hbelow.prev, hbelow.next, hbelow.prevCode,
    h.nextCode k n (Nat.zero_le k) hn, hbelow.parent, hbelow.openedBy, fun j => ?_⟩
  rw [hbelow.closedBy]
  exact ⟨fun hj => hj.1, fun hj => ⟨hj, hj.closer_lt⟩⟩

end Descended

/-! ## Both passes -/

theorem nonneg_of_le_length (h : ∀ j, j ≤ ts.length → 0 ≤ height (roleAt x f ts) j) (j : Nat) :
    0 ≤ height (roleAt x f ts) j := by
  rcases Nat.lt_or_ge ts.length j with hlt | hge
  · rw [height_eq_of_plain (Nat.le_of_lt hlt) fun k hk _ => roleAt_of_length_le hk]
    exact h ts.length (Nat.le_refl _)
  · exact h j hge

/-- A pass up that comes to the end, with the pass down behind it, makes the graph of the tokens. -/
theorem Ascended.link_eq (ha : Ascended x f ts ts.length a) (hkept : kept x f ts = ts) :
    link x f ts = .ok ⟨(List.range ts.length).foldr (descend x) a.nodes, f, x⟩ := by
  have hsize := size_of_tokens ha.tokens
  have hd : Descended x f ts ts.length a.nodes := by
    refine ⟨ha.tokens, fun k n hn => ha.linked k n ?_ hn, fun k n hk hn => ?_⟩
    · rw [← hsize]
      exact (Array.getElem?_eq_some_iff.mp hn).1
    · have := (Array.getElem?_eq_some_iff.mp hn).1
      omega
  have hd := hd.run
  -- a linked graph is what linking makes of its tokens
  obtain ⟨g, hg⟩ : ∃ g : Graph, g = ⟨(List.range ts.length).foldr (descend x) a.nodes, f, x⟩ :=
    ⟨_, rfl⟩
  have htokens : g.tokens = ts := by rw [hg]; exact hd.tokens
  have hlinked : g.Linked := by
    subst hg
    refine ⟨fun i n hn => ?_, ?_, ?_⟩
    · rw [htokens]
      exact hd.nodeLinked hn
    · rw [roles, htokens]
      exact nonneg_of_le_length ha.nonneg
    · rw [htokens]
      exact hkept
  have hlink := hlinked.link_tokens
  rw [htokens, hg] at hlink
  exact hlink

theorem link_eq_error {c : Nat} (hkept : kept x f ts = ts) (ht : ts[c]? = some t)
    (hneg : height (roleAt x f ts) (c + 1) < 0) (hnn : ∀ j, j ≤ c → 0 ≤ height (roleAt x f ts) j) :
    link x f ts = .error (.unmatchedCloser t.text t.line) := by
  cases hl : link x f ts with
  | ok g =>
    have := (link_linked hl).nonneg (c + 1)
    rw [roles_of_link hl, hkept] at this
    omega
  | error e =>
    obtain ⟨d, u, hu, rfl, hneg', hnn'⟩ := link_error hl
    rw [hkept] at hu hneg' hnn'
    have hcd : c = d := by
      rcases Nat.lt_trichotomy c d with hlt | heq | hgt
      · have := hnn' (c + 1) hlt
        omega
      · exact heq
      · have := hnn (d + 1) hgt
        omega
    subst hcd
    rw [ht] at hu
    cases hu
    rfl

theorem tokens_filter (x : Taxonomy) (f : Flags) (nodes : Array Node) :
    ((if f.discardTrivia then nodes.filter (x.isCode ·.kind) else nodes).toList.map (·.toToken)) =
      kept x f (nodes.toList.map (·.toToken)) := by
  unfold kept
  split
  · rw [Array.toList_filter, List.filter_map]
    rfl
  · rfl

theorem link_kept (x : Taxonomy) (f : Flags) (ts : List Token) :
    link x f (kept x f ts) = link x f ts := by
  unfold link
  rw [kept_kept]

/-- Whatever links the nodes had, linking them in place gives what linking makes of their tokens. -/
theorem linkInPlace_eq (x : Taxonomy) (f : Flags) (nodes : Array Node) :
    linkInPlace x f nodes = link x f (nodes.toList.map (·.toToken)) := by
  have htokens := tokens_filter x f nodes
  have hkept := kept_kept x f (nodes.toList.map (·.toToken))
  have hsize := size_of_tokens htokens
  rw [← link_kept]
  unfold linkInPlace
  dsimp only
  rw [hsize]
  rcases ascend htokens (x := x) (f := f) (Nat.le_refl _) with ⟨a, hrun, ha⟩ |
    ⟨c, t, ht, hrun, hneg, hnn⟩
  · rw [hrun, ha.link_eq hkept]
  · rw [hrun, link_eq_error hkept ht hneg hnn]

/-! ## Neighbours -/

namespace NodeLinked

theorem prevCode_eq_none (h : NodeLinked x f ts i n) :
    n.prevCode = none ↔ ∀ j, j < i → ¬ CodeAt x ts j := by
  constructor
  · intro hnone j hj hcode
    obtain ⟨k, hk⟩ := exists_lastBefore hj hcode
    rw [← h.prevCode, hnone] at hk
    cases hk
  · intro hnone
    rw [Option.eq_none_iff_forall_ne_some]
    intro j hj
    have hlast := (h.prevCode j).mp hj
    exact hnone j hlast.lt hlast.holds

theorem nextCode_eq_none (h : NodeLinked x f ts i n) :
    n.nextCode = none ↔ ∀ j, i < j → ¬ CodeAt x ts j := by
  constructor
  · intro hnone j hj hcode
    obtain ⟨k, hk⟩ := exists_firstFrom (Nat.succ_le_of_lt hj) hcode
    rw [← h.nextCode, hnone] at hk
    cases hk
  · intro hnone
    rw [Option.eq_none_iff_forall_ne_some]
    intro j hj
    have hfirst := (h.nextCode j).mp hj
    exact hnone j hfirst.le hfirst.holds

end NodeLinked

/-- Whatever links the nodes came with, each knows its index and its neighbours afterwards, and the
nearest code on both sides: the last code before it, the first behind it, and none where there is
none. -/
theorem linkInPlace_neighbours {g : Graph} (h : linkInPlace x f nodes = .ok g) :
    link x f (nodes.toList.map (·.toToken)) = .ok g ∧
      g.tokens = kept x f (nodes.toList.map (·.toToken)) ∧
    ∀ i n, g.nodes[i]? = some n →
      n.index = i ∧ (∀ j, n.prev = some j ↔ j + 1 = i) ∧
      (∀ j, n.next = some j ↔ j = i + 1 ∧ j < g.size) ∧
      (∀ j, n.prevCode = some j ↔ LastBefore (CodeAt x g.tokens) i j) ∧
      (n.prevCode = none ↔ ∀ j, j < i → ¬ CodeAt x g.tokens j) ∧
      (∀ j, n.nextCode = some j ↔ FirstFrom (CodeAt x g.tokens) (i + 1) j) ∧
      (n.nextCode = none ↔ ∀ j, i < j → ¬ CodeAt x g.tokens j) := by
  rw [linkInPlace_eq] at h
  obtain ⟨hx, hf, htokens⟩ := link_tokens_eq h
  refine ⟨h, htokens, fun i n hn => ?_⟩
  have hlinked := (link_linked h).nodes i n hn
  rw [hx] at hlinked
  rw [← length_tokens]
  exact ⟨hlinked.index, hlinked.prev, hlinked.next, hlinked.prevCode, hlinked.prevCode_eq_none,
    hlinked.nextCode, hlinked.nextCode_eq_none⟩

theorem linkInPlace_neighbours_sample :
    ∃ g, linkInPlace .php {} (#[⟨.string, "a", 0, 1⟩, ⟨.whitespace, " ", 1, 1⟩,
      ⟨.comment, "#", 2, 1⟩,
        ⟨.semicolon, ";", 3, 1⟩].map fun t =>
          ⟨t, 9, some 9, some 9, some 9, some 9, some 9, some 9, some 9⟩) = .ok g ∧
      ∃ n, g.nodes[3]? = some n ∧ n.index = 3 ∧ n.prevCode = some 0 ∧
      LastBefore (CodeAt .php g.tokens) 3 0 ∧
        n.nextCode = none ∧ ∀ j, 3 < j → ¬ CodeAt .php g.tokens j := by
  have h : linkInPlace .php {} (#[⟨.string, "a", 0, 1⟩, ⟨.whitespace, " ", 1, 1⟩,
      ⟨.comment, "#", 2, 1⟩, ⟨.semicolon, ";", 3, 1⟩].map fun t =>
        ⟨t, 9, some 9, some 9, some 9, some 9, some 9, some 9, some 9⟩) =
      .ok ⟨#[⟨⟨.string, "a", 0, 1⟩, 0, none, some 1, none, some 3, none, none, none⟩,
        ⟨⟨.whitespace, " ", 1, 1⟩, 1, some 0, some 2, some 0, some 3, none, none, none⟩,
        ⟨⟨.comment, "#", 2, 1⟩, 2, some 1, some 3, some 0, some 3, none, none, none⟩,
        ⟨⟨.semicolon, ";", 3, 1⟩, 3, some 2, none, some 0, none, none, none, none⟩], {}, .php⟩ := by
    cbv
  obtain ⟨hindex, _, _, hprev, _, _, hnext⟩ := (linkInPlace_neighbours h).2.2 3 _ rfl
  exact ⟨_, h, _, rfl, hindex, rfl, (hprev 0).mp rfl, rfl, hnext.mp rfl⟩

end Graph

end PhpOutline
