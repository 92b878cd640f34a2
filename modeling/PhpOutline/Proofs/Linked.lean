import PhpOutline.Proofs.Height

/-!
# What linking does

Every link of a token is told by the tokens alone (`NodeLinked`): the neighbours, the nearest code
on both sides, and from the heights of the brackets the partner and the bracket around. Linking
sets exactly these links, and it fails exactly where the height first falls below zero. A graph
with these links is therefore what linking makes of its own tokens (`link_tokens`).
-/

namespace PhpOutline

namespace Graph

def tokens (g : Graph) : List Token := g.nodes.toList.map (·.toToken)

/-- The role of the token at a position. Past the end nothing opens or closes. -/
def roleAt (x : Taxonomy) (f : Flags) (ts : List Token) (i : Nat) : Role :=
  match ts[i]? with
  | some t => role x f t.kind
  | none => .plain

abbrev roles (g : Graph) : Nat → Role := roleAt g.taxonomy g.flags g.tokens

def CodeAt (x : Taxonomy) (ts : List Token) (i : Nat) : Prop :=
  ∃ t, ts[i]? = some t ∧ x.isTrivia t.kind = false

structure LastBefore (p : Nat → Prop) (i j : Nat) : Prop where
  lt : j < i
  holds : p j
  last : ∀ k, j < k → k < i → ¬ p k

structure FirstFrom (p : Nat → Prop) (i j : Nat) : Prop where
  le : i ≤ j
  holds : p j
  first : ∀ k, i ≤ k → k < j → ¬ p k

/-- A node that stands for the token at a position and has the links that belong there. -/
structure NodeLinked (x : Taxonomy) (f : Flags) (ts : List Token) (i : Nat) (n : Node) : Prop where
  token : ts[i]? = some n.toToken
  index : n.index = i
  prev : ∀ j, n.prev = some j ↔ j + 1 = i
  next : ∀ j, n.next = some j ↔ j = i + 1 ∧ j < ts.length
  prevCode : ∀ j, n.prevCode = some j ↔ LastBefore (CodeAt x ts) i j
  nextCode : ∀ j, n.nextCode = some j ↔ FirstFrom (CodeAt x ts) (i + 1) j
  parent : ∀ j, n.parent = some j ↔ Innermost (roleAt x f ts) i j
  openedBy : ∀ j, n.openedBy = some j ↔ Pair (roleAt x f ts) j i
  closedBy : ∀ j, n.closedBy = some j ↔ Pair (roleAt x f ts) i j

/-! ## Positions -/

section

variable {p : Nat → Prop} {i j : Nat}

theorem lastBefore_succ_of_pos (h : p i) : LastBefore p (i + 1) j ↔ j = i := by
  constructor
  · intro hj
    rcases Nat.lt_or_ge j i with hlt | hge
    · exact absurd h (hj.last i hlt (by omega))
    · have := hj.lt; omega
  · rintro rfl
    exact ⟨by omega, h, fun k h1 h2 => by omega⟩

theorem lastBefore_succ_of_neg (h : ¬ p i) : LastBefore p (i + 1) j ↔ LastBefore p i j := by
  constructor
  · intro hj
    have hne : j ≠ i := fun e => h (e ▸ hj.holds)
    exact ⟨by have := hj.lt; omega, hj.holds, fun k h1 h2 => hj.last k h1 (by omega)⟩
  · intro hj
    refine ⟨by have := hj.lt; omega, hj.holds, fun k h1 h2 => ?_⟩
    rcases Nat.lt_or_ge k i with hlt | hge
    · exact hj.last k h1 hlt
    · rw [show k = i by omega]; exact h

theorem firstFrom_of_pos (h : p i) : FirstFrom p i j ↔ j = i := by
  constructor
  · intro hj
    rcases Nat.lt_or_ge i j with hlt | hge
    · exact absurd h (hj.first i (Nat.le_refl i) hlt)
    · have := hj.le; omega
  · rintro rfl
    exact ⟨Nat.le_refl j, h, fun k h1 h2 => by omega⟩

theorem firstFrom_of_neg (h : ¬ p i) : FirstFrom p i j ↔ FirstFrom p (i + 1) j := by
  constructor
  · intro hj
    have hne : j ≠ i := fun e => h (e ▸ hj.holds)
    exact ⟨by have := hj.le; omega, hj.holds, fun k h1 h2 => hj.first k (by omega) h2⟩
  · intro hj
    refine ⟨by have := hj.le; omega, hj.holds, fun k h1 h2 => ?_⟩
    rcases Nat.eq_or_lt_of_le h1 with rfl | h1
    · exact h
    · exact hj.first k h1 h2

theorem exists_lastBefore (hj : j < i) (hp : p j) : ∃ k, LastBefore p i k := by
  induction i with
  | zero => omega
  | succ i ih =>
    by_cases hi : p i
    · exact ⟨i, (lastBefore_succ_of_pos hi).mpr rfl⟩
    · have hne : j ≠ i := fun e => hi (e ▸ hp)
      obtain ⟨k, hk⟩ := ih (by omega)
      exact ⟨k, (lastBefore_succ_of_neg hi).mpr hk⟩

theorem exists_firstFrom (hj : i ≤ j) (hp : p j) : ∃ k, FirstFrom p i k := by
  -- on the positions from `i` up to `j`
  induction hd : j - i generalizing i with
  | zero => exact ⟨i, (firstFrom_of_pos (by rwa [show i = j by omega])).mpr rfl⟩
  | succ d ih =>
    by_cases hi : p i
    · exact ⟨i, (firstFrom_of_pos hi).mpr rfl⟩
    · obtain ⟨k, hk⟩ := ih (i := i + 1) (by omega) (by omega)
      exact ⟨k, (firstFrom_of_neg hi).mpr hk⟩

end

section

variable {x : Taxonomy} {f : Flags} {ts : List Token} {i j : Nat} {t : Token}

theorem roleAt_of_getElem? (h : ts[i]? = some t) : roleAt x f ts i = role x f t.kind := by
  rw [roleAt, h]

theorem roleAt_of_length_le (h : ts.length ≤ i) : roleAt x f ts i = .plain := by
  rw [roleAt, List.getElem?_eq_none h]

theorem lt_of_roleAt_ne_plain (h : roleAt x f ts i ≠ .plain) : i < ts.length := by
  rcases Nat.lt_or_ge i ts.length with hlt | hge
  · exact hlt
  · exact absurd (roleAt_of_length_le hge) h

theorem CodeAt.lt (h : CodeAt x ts i) : i < ts.length := by
  obtain ⟨t, ht, _⟩ := h
  exact (List.getElem?_eq_some_iff.mp ht).1

theorem codeAt_iff (h : ts[i]? = some t) : CodeAt x ts i ↔ x.isTrivia t.kind = false := by
  simp [CodeAt, h]

theorem Pair.closer_lt {c : Nat} (h : Pair (roleAt x f ts) i c) : c < ts.length :=
  lt_of_roleAt_ne_plain (by rw [h.closes]; simp)

theorem NodeLinked.unique {n m : Node} (h : NodeLinked x f ts i n) (h' : NodeLinked x f ts i m) :
    n = m := by
  have htoken : n.toToken = m.toToken := Option.some.inj (h.token.symm.trans h'.token)
  have hindex : n.index = m.index := h.index.trans h'.index.symm
  have hprev : n.prev = m.prev := Option.ext fun j => (h.prev j).trans (h'.prev j).symm
  have hnext : n.next = m.next := Option.ext fun j => (h.next j).trans (h'.next j).symm
  have hprevCode : n.prevCode = m.prevCode := Option.ext fun j => (h.prevCode j).trans
    (h'.prevCode j).symm
  have hnextCode : n.nextCode = m.nextCode := Option.ext fun j => (h.nextCode j).trans
    (h'.nextCode j).symm
  have hparent : n.parent = m.parent := Option.ext fun j => (h.parent j).trans (h'.parent j).symm
  have hopened : n.openedBy = m.openedBy := Option.ext fun j => (h.openedBy j).trans
    (h'.openedBy j).symm
  have hclosed : n.closedBy = m.closedBy := Option.ext fun j => (h.closedBy j).trans
    (h'.closedBy j).symm
  cases n
  cases m
  simp_all

/-! ## What a position knows of both sides -/

/-- What the tokens before a position leave behind. -/
structure BeforeAt (x : Taxonomy) (f : Flags) (ts : List Token) (i : Nat) (b : Before) : Prop where
  code : ∀ j, b.code = some j ↔ LastBefore (CodeAt x ts) i j
  opens : b.opens = openStack (roleAt x f ts) i

/-- What the tokens from a position on hold ready. -/
structure AfterAt (x : Taxonomy) (f : Flags) (ts : List Token) (i : Nat) (a : After) : Prop where
  code : ∀ j, a.code = some j ↔ FirstFrom (CodeAt x ts) i j
  closers : ∀ k c, a.closers[k]? = some c ↔ Falls (roleAt x f ts) i (k + 1) c

theorem beforeAt_zero : BeforeAt x f ts 0 {} where
  code j := ⟨(fun h => by cases h), fun h => by have := h.lt; omega⟩
  opens := rfl

theorem BeforeAt.step {b : Before} (hb : BeforeAt x f ts i b) (ht : ts[i]? = some t) :
    BeforeAt x f ts (i + 1)
      ⟨if x.isTrivia t.kind then b.code else some i,
       match role x f t.kind with
       | .opens => i :: b.opens
       | .closes => b.opens.tail
       | .plain => b.opens⟩ where
  code j := by
    by_cases hc : x.isTrivia t.kind = true
    · rw [if_pos hc, hb.code, lastBefore_succ_of_neg]
      rw [codeAt_iff ht]; simp [hc]
    · rw [if_neg hc, Option.some.injEq, lastBefore_succ_of_pos]
      · exact eq_comm
      · rw [codeAt_iff ht]; simpa using hc
  opens := by
    have hr := roleAt_of_getElem? (x := x) (f := f) ht
    cases h : role x f t.kind with
    | opens => rw [openStack_opens (hr.trans h), hb.opens]
    | closes => rw [openStack_closes (hr.trans h), hb.opens]
    | plain => rw [openStack_plain (hr.trans h), hb.opens]

theorem afterAt_of_length_le (h : ts.length ≤ i) : AfterAt x f ts i {} where
  code j := ⟨(fun h => by cases h), fun hj => by have := hj.le; have := hj.holds.lt; omega⟩
  closers k c := by
    refine ⟨(fun h => by cases h), fun hc => ?_⟩
    have := height_eq_of_plain (r := roleAt x f ts) (i := i) (j := c + 1) (by have := hc.le; omega)
      fun k hik _ => roleAt_of_length_le (by omega)
    have := hc.height_eq
    omega

theorem AfterAt.step {a : After} (ha : AfterAt x f ts (i + 1) a) (ht : ts[i]? = some t) :
    AfterAt x f ts i
      ⟨if x.isTrivia t.kind then a.code else some i,
       match role x f t.kind with
       | .opens => a.closers.tail
       | .closes => i :: a.closers
       | .plain => a.closers⟩ where
  code j := by
    by_cases hc : x.isTrivia t.kind = true
    · rw [if_pos hc, ha.code]
      exact (firstFrom_of_neg (by rw [codeAt_iff ht]; simp [hc])).symm
    · rw [if_neg hc, Option.some.injEq, firstFrom_of_pos]
      · exact eq_comm
      · rw [codeAt_iff ht]; simpa using hc
  closers k c := by
    have hr := roleAt_of_getElem? (x := x) (f := f) ht
    cases h : role x f t.kind with
    | opens =>
      rw [h] at hr
      dsimp only
      rw [List.getElem?_tail, ha.closers]
      exact (falls_succ (by rw [hr]; rfl) (by omega) (by omega)).symm
    | closes =>
      rw [h] at hr
      cases k with
      | zero =>
        rw [List.getElem?_cons_zero, Option.some.injEq, falls_one_of_closes hr]
        exact eq_comm
      | succ k =>
        rw [List.getElem?_cons_succ, ha.closers]
        exact (falls_succ (by rw [hr]; simp only [Role.rise]; omega) (by omega) (by omega)).symm
    | plain =>
      rw [h] at hr
      dsimp only
      rw [ha.closers]
      exact (falls_succ (by rw [hr]; simp [Role.rise]) (by omega) (by omega)).symm

/-! ## The linking pass -/

theorem nodeLinked_of_sides {b : Before} {a : After} {next : Option Nat} (ht : ts[i]? = some t)
    (hb : BeforeAt x f ts i b) (ha : AfterAt x f ts (i + 1) a)
    (hnext : ∀ j, next = some j ↔ j = i + 1 ∧ j < ts.length) :
    NodeLinked x f ts i
      { toToken := t
        index := i
        prev := if i = 0 then none else some (i - 1)
        next := next
        prevCode := b.code
        nextCode := a.code
        parent := (if role x f t.kind = .closes then b.opens.tail else b.opens).head?
        openedBy := if role x f t.kind = .closes then b.opens.head? else none
        closedBy := if role x f t.kind = .opens then a.closers.head? else none } where
  token := ht
  index := rfl
  prev j := by dsimp only; split <;> simp <;> omega
  next := hnext
  prevCode := hb.code
  nextCode := ha.code
  parent j := by
    dsimp only
    rw [← roleAt_of_getElem? ht, hb.opens]
    exact head?_openStack_innermost
  openedBy j := by
    dsimp only
    rw [← roleAt_of_getElem? ht, hb.opens]
    split
    · rename_i hc
      exact head?_openStack_of_closes hc
    · rename_i hc
      exact ⟨(fun h => by cases h), fun h => absurd h.closes hc⟩
  closedBy j := by
    dsimp only
    rw [← roleAt_of_getElem? ht]
    split
    · rename_i ho
      rw [List.head?_eq_getElem?, ha.closers, pair_iff_falls ho]
    · rename_i ho
      exact ⟨(fun h => by cases h), fun h => absurd h.openAt.opens ho⟩

theorem of_drop_eq_cons {all : List Token} (h : all.drop i = t :: ts) :
    all[i]? = some t ∧ all.drop (i + 1) = ts := by
  rw [← List.head?_drop, ← List.tail_drop, h]
  exact ⟨rfl, rfl⟩

theorem linkFrom_linked {all : List Token} {b : Before} {nodes : List Node} {a : After}
    (hdrop : all.drop i = ts) (hb : BeforeAt x f all i b)
    (h : linkFrom x f b i ts = .ok (nodes, a)) :
    nodes.map (·.toToken) = ts ∧ (∀ k n, nodes[k]? = some n → NodeLinked x f all (i + k) n) ∧
      AfterAt x f all i a := by
  induction ts generalizing i b nodes a with
  | nil =>
    cases h
    exact ⟨rfl, by simp, afterAt_of_length_le (List.drop_eq_nil_iff.mp hdrop)⟩
  | cons t ts ih =>
    obtain ⟨ht, hdrop'⟩ := of_drop_eq_cons hdrop
    unfold linkFrom at h
    dsimp only at h
    split at h
    · cases h
    · split at h
      · cases h
      · rename_i nodes' a' hrest
        obtain ⟨htoks, hnodes, hafter⟩ := ih hdrop' (hb.step ht) hrest
        cases h
        refine ⟨by rw [List.map_cons, htoks], fun k n hk => ?_, hafter.step ht⟩
        cases k with
        | zero =>
          rw [List.getElem?_cons_zero, Option.some.injEq] at hk
          subst hk
          apply nodeLinked_of_sides ht hb hafter
          have hlen := congrArg List.length hdrop'
          rw [List.length_drop] at hlen
          intro j
          cases ts with
          | nil => simp at hlen ⊢; omega
          | cons => simp at hlen ⊢; omega
        | succ k =>
          rw [List.getElem?_cons_succ] at hk
          have := hnodes k n hk
          rwa [Nat.add_assoc, Nat.add_comm 1 k] at this

theorem BeforeAt.nonneg_succ {b : Before} (hb : BeforeAt x f ts i b) (ht : ts[i]? = some t)
    (hnn : ∀ j, j ≤ i → 0 ≤ height (roleAt x f ts) j)
    (hc : ¬ (role x f t.kind = .closes ∧ b.opens = [])) :
    ∀ j, j ≤ i + 1 → 0 ≤ height (roleAt x f ts) j := by
  intro j hj
  rcases Nat.lt_or_ge i j with hij | hij
  · rw [show j = i + 1 by omega]
    have hi := hnn i (Nat.le_refl i)
    have hlen := length_openStack hnn
    rw [← hb.opens] at hlen
    by_cases hr : role x f t.kind = .closes
    · have : 0 < b.opens.length := List.length_pos_iff.mpr fun e => hc ⟨hr, e⟩
      rw [height_closes ((roleAt_of_getElem? ht).trans hr)]
      omega
    · have := height_le_of_ne_closes (r := roleAt x f ts) (i := i)
        (by rw [roleAt_of_getElem? ht]; exact hr)
      omega
  · exact hnn j hij

theorem linkFrom_error {all : List Token} {b : Before} {e : LexError} (hdrop : all.drop i = ts)
    (hb : BeforeAt x f all i b) (hnn : ∀ j, j ≤ i → 0 ≤ height (roleAt x f all) j)
    (h : linkFrom x f b i ts = .error e) :
    ∃ c t, all[c]? = some t ∧ e = .unmatchedCloser t.text t.line ∧
      height (roleAt x f all) (c + 1) < 0 ∧ ∀ j, j ≤ c → 0 ≤ height (roleAt x f all) j := by
  induction ts generalizing i b with
  | nil => cases h
  | cons t ts ih =>
    obtain ⟨ht, hdrop'⟩ := of_drop_eq_cons hdrop
    unfold linkFrom at h
    dsimp only at h
    split at h
    · rename_i hc
      cases h
      refine ⟨i, t, ht, rfl, ?_, hnn⟩
      rw [height_closes ((roleAt_of_getElem? ht).trans hc.1), ← length_openStack hnn, ← hb.opens,
        hc.2]
      simp
    · rename_i hc
      split at h
      · rename_i hrest
        cases h
        exact ih hdrop' (hb.step ht) (hb.nonneg_succ ht hnn hc) hrest
      · cases h

theorem linkFrom_nonneg {all : List Token} {b : Before} {p : List Node × After}
    (hdrop : all.drop i = ts) (hb : BeforeAt x f all i b)
    (hnn : ∀ j, j ≤ i → 0 ≤ height (roleAt x f all) j) (h : linkFrom x f b i ts = .ok p) :
    ∀ j, 0 ≤ height (roleAt x f all) j := by
  induction ts generalizing i b p with
  | nil =>
    intro j
    rcases Nat.lt_or_ge i j with hij | hij
    · rw [height_eq_of_plain (Nat.le_of_lt hij) fun k hik _ =>
        roleAt_of_length_le (by have := List.drop_eq_nil_iff.mp hdrop; omega)]
      exact hnn i (Nat.le_refl i)
    · exact hnn j hij
  | cons t ts ih =>
    obtain ⟨ht, hdrop'⟩ := of_drop_eq_cons hdrop
    unfold linkFrom at h
    dsimp only at h
    split at h
    · cases h
    · rename_i hc
      split at h
      · cases h
      · rename_i hrest
        exact ih hdrop' (hb.step ht) (hb.nonneg_succ ht hnn hc) hrest

end

/-! ## Linked graphs -/

/-- A graph with all links where they belong, no closing bracket without its opening one, and no
trivia if the flags drop it. -/
structure Linked (g : Graph) : Prop where
  nodes : ∀ i n, g.nodes[i]? = some n → NodeLinked g.taxonomy g.flags g.tokens i n
  nonneg : ∀ i, 0 ≤ height g.roles i
  kept : kept g.taxonomy g.flags g.tokens = g.tokens

section

variable {x : Taxonomy} {f : Flags} {ts : List Token} {g : Graph} {i o c : Nat} {n : Node}
  {e : LexError}

theorem Linked.parent_eq_some (hg : g.Linked) (hn : g.nodes[i]? = some n) :
    n.parent = some o ↔ Innermost g.roles i o :=
  (hg.nodes i n hn).parent o

theorem Linked.openedBy_eq_some (hg : g.Linked) (hn : g.nodes[i]? = some n) :
    n.openedBy = some o ↔ Pair g.roles o i :=
  (hg.nodes i n hn).openedBy o

theorem Linked.closedBy_eq_some (hg : g.Linked) (hn : g.nodes[i]? = some n) :
    n.closedBy = some c ↔ Pair g.roles i c :=
  (hg.nodes i n hn).closedBy c

theorem kept_kept (x : Taxonomy) (f : Flags) (ts : List Token) :
    kept x f (kept x f ts) = kept x f ts := by
  unfold kept
  split
  · rw [List.filter_filter]; simp
  · rfl

theorem length_tokens (g : Graph) : g.tokens.length = g.size := by
  simp [tokens, size]

theorem getElem?_tokens (g : Graph) (i : Nat) : g.tokens[i]? = g.nodes[i]?.map (·.toToken) := by
  simp [tokens]

theorem link_tokens_eq (h : link x f ts = .ok g) :
    g.taxonomy = x ∧ g.flags = f ∧ g.tokens = kept x f ts := by
  unfold link at h
  split at h
  · cases h
  · rename_i nodes a hl
    cases h
    exact ⟨rfl, rfl, (linkFrom_linked (List.drop_zero ..) beforeAt_zero hl).1⟩

theorem roles_of_link (h : link x f ts = .ok g) : g.roles = roleAt x f (kept x f ts) := by
  obtain ⟨rfl, rfl, htoks⟩ := link_tokens_eq h
  rw [roles, htoks]

theorem link_linked (h : link x f ts = .ok g) : g.Linked := by
  obtain ⟨hx, hf, htoks⟩ := link_tokens_eq h
  unfold link at h
  split at h
  · cases h
  · rename_i nodes a hl
    have hlinked := (linkFrom_linked (List.drop_zero ..) beforeAt_zero hl).2.1
    have hnonneg := linkFrom_nonneg (List.drop_zero ..) beforeAt_zero
      (fun j hj => by simp [show j = 0 by omega]) hl
    cases h
    constructor
    · intro i n hi
      rw [htoks]
      have := hlinked i n (by simpa using hi)
      rwa [Nat.zero_add] at this
    · rw [roles, htoks]; exact hnonneg
    · rw [htoks]; exact kept_kept x f ts

theorem link_error (h : link x f ts = .error e) :
    ∃ c t, (kept x f ts)[c]? = some t ∧ e = .unmatchedCloser t.text t.line ∧
      height (roleAt x f (kept x f ts)) (c + 1) < 0 ∧
      ∀ j, j ≤ c → 0 ≤ height (roleAt x f (kept x f ts)) j := by
  unfold link at h
  split at h
  · rename_i hl
    cases h
    exact linkFrom_error (List.drop_zero ..) beforeAt_zero
      (fun j hj => by simp [show j = 0 by omega]) hl
  · cases h

theorem exists_link (h : ∀ i, 0 ≤ height (roleAt x f (kept x f ts)) i) :
    ∃ g, link x f ts = .ok g := by
  cases hl : link x f ts with
  | ok g => exact ⟨g, rfl⟩
  | error e =>
    obtain ⟨c, _, _, _, hneg, _⟩ := link_error hl
    have := h (c + 1)
    omega

theorem Linked.link_tokens (hg : g.Linked) : link g.taxonomy g.flags g.tokens = .ok g := by
  obtain ⟨g', hg'⟩ : ∃ g', link g.taxonomy g.flags g.tokens = .ok g' :=
    exists_link (by rw [hg.kept]; exact hg.nonneg)
  obtain ⟨hx, hf, htoks⟩ := link_tokens_eq hg'
  have hl := (link_linked hg').nodes
  rw [hx, hf, htoks, hg.kept] at hl
  have hnodes : g'.nodes = g.nodes := by
    apply Array.ext_getElem?
    intro i
    have hsame : g'.nodes[i]?.map (·.toToken) = g.nodes[i]?.map (·.toToken) := by
      rw [← getElem?_tokens, ← getElem?_tokens, htoks, hg.kept]
    cases hn : g.nodes[i]? with
    | none => rw [hn] at hsame; simpa using hsame
    | some n =>
      rw [hn] at hsame
      obtain ⟨m, hm, _⟩ := Option.map_eq_some_iff.mp hsame
      rw [hm, (hl i m hm).unique (hg.nodes i n hn)]
  rw [hg']
  cases g
  cases g'
  simp_all

end

end Graph

end PhpOutline
