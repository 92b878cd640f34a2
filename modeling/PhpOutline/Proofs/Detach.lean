import PhpOutline.Graph.Interior
import PhpOutline.Proofs.Brackets

/-!
# Cutting out is linking again

The inside of a bracket pair is cut out by shifting links and dropping those that lead outside.
What a link says is told by the tokens between its ends alone, so the shifted links are those that
linking the inside anew would set, however often a graph has been cut out of another before.
-/

namespace PhpOutline

namespace Graph

/-- A graph that was linked, or cut out of such a graph any number of times. -/
inductive Built (x : Taxonomy) (f : Flags) : Graph → Prop
  | link {ts : List Token} {g : Graph} (h : Graph.link x f ts = .ok g) : Built x f g
  | interior {g g' : Graph} {o : Nat} (hg : Built x f g) (h : g.interior o = .ok g') : Built x f g'

/-! ## Windows of tokens -/

theorem lastBefore_window {p p' : Nat → Prop} {a m i j : Nat} (hw : ∀ k, k < m → (p' k ↔ p (a + k)))
    (hi : i ≤ m) : LastBefore p' i j ↔ LastBefore p (a + i) (a + j) := by
  constructor
  · intro h
    have hlt := h.lt
    refine ⟨by omega, (hw j (by omega)).mp h.holds, fun k hjk hki => ?_⟩
    obtain ⟨k, rfl⟩ := Nat.exists_eq_add_of_le (show a ≤ k by omega)
    rw [← hw k (by omega)]
    exact h.last k (by omega) (by omega)
  · intro h
    have hlt := h.lt
    refine ⟨by omega, (hw j (by omega)).mpr h.holds, fun k hjk hki => ?_⟩
    rw [hw k (by omega)]
    exact h.last (a + k) (by omega) (by omega)

theorem firstFrom_window {p p' : Nat → Prop} {a m i j : Nat} (hw : ∀ k, k < m → (p' k ↔ p (a + k)))
    (hj : j < m) : FirstFrom p' i j ↔ FirstFrom p (a + i) (a + j) := by
  constructor
  · intro h
    have hle := h.le
    refine ⟨by omega, (hw j hj).mp h.holds, fun k hik hkj => ?_⟩
    obtain ⟨k, rfl⟩ := Nat.exists_eq_add_of_le (show a ≤ k by omega)
    rw [← hw k (by omega)]
    exact h.first k (by omega) (by omega)
  · intro h
    have hle := h.le
    refine ⟨by omega, (hw j hj).mpr h.holds, fun k hik hkj => ?_⟩
    rw [hw k (by omega)]
    exact h.first (a + k) (by omega) (by omega)

def window (ts : List Token) (a b : Nat) : List Token := (ts.take b).drop a

section

variable {x : Taxonomy} {f : Flags} {ts : List Token} {a b j k : Nat}

theorem length_window (hb : b ≤ ts.length) : (window ts a b).length = b - a := by
  simp only [window, List.length_drop, List.length_take]
  omega

theorem getElem?_window (h : a + k < b) : (window ts a b)[k]? = ts[a + k]? := by
  rw [window, List.getElem?_drop, List.getElem?_take_of_lt h]

theorem roleAt_window : ∀ k, k < b - a → roleAt x f (window ts a b) k = roleAt x f ts (a + k) := by
  intro k hk
  rw [roleAt, roleAt, getElem?_window (by omega)]

theorem codeAt_window : ∀ k, k < b - a → (CodeAt x (window ts a b) k ↔ CodeAt x ts (a + k)) := by
  intro k hk
  rw [CodeAt, CodeAt, getElem?_window (by omega)]

theorem kept_window (h : kept x f ts = ts) : kept x f (window ts a b) = window ts a b := by
  unfold kept at h ⊢
  split
  · rename_i hd
    rw [if_pos hd, List.filter_eq_self] at h
    rw [List.filter_eq_self]
    exact fun t ht => h t (List.mem_of_mem_take (List.mem_of_mem_drop ht))
  · rfl

/-! ## Shifted links -/

theorem relink_eq_some {o c : Nat} {l : Option Nat} :
    relink o c l = some k ↔ l = some (o + 1 + k) ∧ o + 1 + k < c := by
  unfold relink
  cases l with
  | none => simp
  | some i =>
    by_cases hi : o < i ∧ i < c
    · rw [Option.filter_some_pos (by simpa using hi), Option.map_some, Option.some.injEq,
        Option.some.injEq]
      omega
    · rw [Option.filter_some_neg (by simpa using hi), Option.map_none, Option.some.injEq]
      simp only [reduceCtorEq, false_iff]
      omega

theorem NodeLinked.relink {o c : Nat} {n : Node} (hc : c ≤ ts.length) (hj : o + 1 + j < c)
    (h : NodeLinked x f ts (o + 1 + j) n) :
    NodeLinked x f (window ts (o + 1) c) j (relinkNode o c n) where
  token := by rw [getElem?_window hj]; exact h.token
  index := by
    show n.index - (o + 1) = j
    rw [h.index]; omega
  prev k := by
    rw [relinkNode, relink_eq_some, h.prev]
    omega
  next k := by
    rw [relinkNode, relink_eq_some, h.next, length_window hc]
    omega
  prevCode k := by
    rw [relinkNode, relink_eq_some, h.prevCode, lastBefore_window codeAt_window (by omega)]
    exact ⟨fun h => h.1, fun h => ⟨h, by have := h.lt; omega⟩⟩
  nextCode k := by
    rw [relinkNode, relink_eq_some, h.nextCode]
    constructor
    · exact fun ⟨hk, hlt⟩ => (firstFrom_window codeAt_window (by omega)).mpr hk
    · intro hk
      have := hk.holds.lt
      rw [length_window hc] at this
      exact ⟨(firstFrom_window codeAt_window (by omega)).mp hk, by omega⟩
  parent k := by
    rw [relinkNode, relink_eq_some, h.parent]
    constructor
    · exact fun ⟨hk, _⟩ => (innermost_window roleAt_window (by omega) (by have := hk.lt; omega)).mpr
        hk
    · intro hk
      have := hk.lt
      exact ⟨(innermost_window roleAt_window (by omega) this).mp hk, by omega⟩
  openedBy k := by
    rw [relinkNode, relink_eq_some, h.openedBy]
    constructor
    · exact fun ⟨hk, _⟩ => (pair_window roleAt_window (by omega) (by have := hk.lt; omega)).mpr hk
    · intro hk
      have := hk.lt
      exact ⟨(pair_window roleAt_window (by omega) this).mp hk, by omega⟩
  closedBy k := by
    rw [relinkNode, relink_eq_some, h.closedBy]
    constructor
    · exact fun ⟨hk, _⟩ => (pair_window roleAt_window (by omega) (by have := hk.lt; omega)).mpr hk
    · intro hk
      have hlt := hk.closer_lt
      rw [length_window hc] at hlt
      exact ⟨(pair_window roleAt_window (by omega) hk.lt).mp hk, by omega⟩

end

/-! ## The inside of a pair -/

section

variable {x : Taxonomy} {f : Flags} {g g' : Graph} {o c : Nat} {n : Node}

def cut (g : Graph) (o c : Nat) : Graph :=
  { g with nodes := (g.nodes.extract (o + 1) c).map (relinkNode o c) }

theorem interior_eq_cut (hn : g.nodes[o]? = some n) (ho : g.taxonomy.isOpener n.kind = true)
    (hc : n.closedBy = some c) : g.interior o = .ok (g.cut o c) := by
  rw [interior, hn]
  dsimp only
  rw [if_pos ho, hc]
  rfl

theorem interior_ok (h : g.interior o = .ok g') :
    ∃ n c, g.nodes[o]? = some n ∧ g.taxonomy.isOpener n.kind = true ∧ n.closedBy = some c ∧
      g' = g.cut o c := by
  unfold interior at h
  split at h
  · cases h
  · rename_i n hn
    split at h
    · rename_i ho
      split at h
      · cases h
      · rename_i c hc
        cases h
        exact ⟨n, c, hn, ho, hc, rfl⟩
    · cases h

theorem tokens_cut (g : Graph) (o c : Nat) : (g.cut o c).tokens = window g.tokens (o + 1) c := by
  rw [tokens, tokens, window, cut, Array.toList_map, List.map_map, Array.toList_extract,
    List.extract, ← List.map_take, ← List.map_drop, List.drop_take]
  rfl

/-- Inside of a pair the height is counted from behind the opening bracket. -/
theorem height_cut {i : Nat} (hi : i ≤ c - (o + 1)) :
    height (g.cut o c).roles i = height g.roles (o + 1 + i) - height g.roles (o + 1) := by
  rw [roles, tokens_cut]
  exact height_window roleAt_window hi

theorem size_cut (hc : c ≤ g.size) : (g.cut o c).size = c - (o + 1) := by
  rw [← length_tokens, tokens_cut, length_window (by rw [length_tokens]; exact hc)]

theorem getElem?_cut {i : Nat} (h : (g.cut o c).nodes[i]? = some n) :
    o + 1 + i < c ∧ ∃ m, g.nodes[o + 1 + i]? = some m ∧ n = relinkNode o c m := by
  rw [cut, Array.getElem?_map, Array.getElem?_extract] at h
  split at h
  · obtain ⟨m, hm, rfl⟩ := Option.map_eq_some_iff.mp h
    exact ⟨by omega, m, hm, rfl⟩
  · cases h

theorem Linked.cut (hg : g.Linked) (hp : Pair g.roles o c) : (g.cut o c).Linked := by
  have hc := hp.closer_lt
  constructor
  · intro i n hn
    obtain ⟨hlt, m, hm, rfl⟩ := getElem?_cut hn
    rw [tokens_cut]
    exact (hg.nodes _ m hm).relink (by omega) hlt
  · -- inside the pair the height stays above the pair's own, and past its end nothing changes
    intro i
    rw [length_tokens] at hc
    have inside : ∀ i, i ≤ c - (o + 1) → 0 ≤ height (g.cut o c).roles i := by
      intro i hi
      rw [height_cut hi, height_opens hp.openAt.opens]
      have := hp.openAt.above (o + 1 + i) (by omega) (by have := hp.lt; omega)
      omega
    rcases Nat.lt_or_ge (c - (o + 1)) i with hi | hi
    · rw [height_eq_of_plain (Nat.le_of_lt hi) fun k hk _ =>
        roleAt_of_length_le (by rw [length_tokens, size_cut (by omega)]; exact hk)]
      exact inside _ (Nat.le_refl _)
    · exact inside i hi
  · rw [tokens_cut]
    exact kept_window hg.kept

theorem Linked.interior (hg : g.Linked) (h : g.interior o = .ok g') : g'.Linked := by
  obtain ⟨n, c, hn, _, hc, rfl⟩ := interior_ok h
  exact hg.cut ((hg.closedBy_eq_some hn).mp hc)

theorem Built.linked (h : Built x f g) : g.Linked := by
  induction h with
  | link h => exact link_linked h
  | interior _ h ih => exact ih.interior h

theorem Built.builder_eq (h : Built x f g) : g.taxonomy = x ∧ g.flags = f := by
  induction h with
  | link h =>
    obtain ⟨hx, hf, _⟩ := link_tokens_eq h
    exact ⟨hx, hf⟩
  | interior _ h ih =>
    obtain ⟨_, _, _, _, _, rfl⟩ := interior_ok h
    exact ih

/-- Cutting out the inside of a bracket pair succeeds, and gives the graph that linking its tokens
anew gives, in a graph that was linked or cut out of a linked one any number of times. -/
theorem interior_eq_link (hg : Built x f g) (hn : g.nodes[o]? = some n)
    (ho : g.taxonomy.isOpener n.kind = true) (hc : n.closedBy = some c) :
    ∃ g', g.interior o = .ok g' ∧ link x f ((g.nodes.extract (o + 1) c).toList.map (·.toToken)) =
      .ok g' := by
  have hp := (hg.linked.closedBy_eq_some hn).mp hc
  have hlink := (hg.linked.cut hp).link_tokens
  obtain ⟨rfl, rfl⟩ := hg.builder_eq
  have htoks : (g.cut o c).tokens = (g.nodes.extract (o + 1) c).toList.map (·.toToken) := by
    rw [tokens, cut, Array.toList_map, List.map_map]; rfl
  rw [htoks] at hlink
  exact ⟨g.cut o c, interior_eq_cut hn ho hc, hlink⟩

theorem interior_eq_link_twice :
    ∃ (g g₁ : Graph) (n : Node),
      link .php {} [⟨.openBrace, "\x7b", 0, 1⟩, ⟨.openParen, "(", 1, 1⟩, ⟨.openBracket, "[", 2, 1⟩,
        ⟨.whitespace, " ", 3, 1⟩, ⟨.closeBracket, "]", 4, 1⟩, ⟨.closeParen, ")", 5, 1⟩,
        ⟨.closeBrace, "\x7d", 6, 1⟩] = .ok g ∧
      g.interior 0 = .ok g₁ ∧ g₁.nodes[0]? = some n ∧ g₁.taxonomy.isOpener n.kind = true ∧
      n.closedBy = some 4 ∧ ∃ g₂, g₁.interior 0 = .ok g₂ ∧
        link .php {} ((g₁.nodes.extract 1 4).toList.map (·.toToken)) = .ok g₂ := by
  suffices h : ∃ g g₁ : Graph, link .php {} _ = .ok g ∧ g.interior 0 = .ok g₁ ∧
      g₁.nodes[0]?.map (fun n => (g₁.taxonomy.isOpener n.kind, n.closedBy)) = some (true, some 4) by
    obtain ⟨g, g₁, hl, hi, hm⟩ := h
    obtain ⟨n, hn, he⟩ := Option.map_eq_some_iff.mp hm
    obtain ⟨ho, hc⟩ := Prod.mk.inj he
    exact ⟨g, g₁, n, hl, hi, hn, ho, hc, interior_eq_link (.interior (.link hl) hi) hn ho hc⟩
  exact ⟨_, _, rfl, rfl, by decide +kernel⟩

end

end Graph

end PhpOutline
