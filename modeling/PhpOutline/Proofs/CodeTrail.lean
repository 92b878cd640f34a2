import PhpOutline.Proofs.Balanced

/-!
# Following the code links

The links to the code before a token, followed from one to the next, meet all code tokens before it,
the last one first (`trail_prevCode`). What is read off such a walk, the code before a token in a
view or the header around it, is therefore told by the code tokens alone.
-/

namespace PhpOutline

namespace Graph

variable {g : Graph} {a b i j : Nat} {n m : Node}

/-- The code nodes from index `a` up to and without `b`. -/
def codeBetween (g : Graph) (a b : Nat) : List Node :=
  ((g.nodes.toList.take b).drop a).filter (g.taxonomy.isCode ·.kind)

theorem mem_codeBetween :
    n ∈ g.codeBetween a b ↔ ∃ i, a ≤ i ∧ i < b ∧ g.nodes[i]? = some n ∧
      g.taxonomy.isCode n.kind = true := by
  rw [codeBetween, List.mem_filter, List.mem_iff_getElem?]
  simp only [List.getElem?_drop]
  constructor
  · rintro ⟨⟨k, hk⟩, hcode⟩
    by_cases hlt : a + k < b
    · rw [List.getElem?_take_of_lt hlt] at hk
      exact ⟨a + k, Nat.le_add_right a k, hlt, by simpa using hk, hcode⟩
    · rw [List.getElem?_take, if_neg hlt] at hk
      cases hk
  · rintro ⟨i, hai, hib, hi, hcode⟩
    refine ⟨⟨i - a, ?_⟩, hcode⟩
    rw [Nat.add_sub_cancel' hai, List.getElem?_take_of_lt hib]
    simpa using hi

@[simp] theorem codeBetween_self (g : Graph) (a : Nat) : g.codeBetween a a = [] := by
  rw [codeBetween, List.drop_eq_nil_of_le (List.length_take_le a _), List.filter_nil]

theorem codeBetween_succ (hn : g.nodes[i]? = some n) (hai : a ≤ i) :
    g.codeBetween a (i + 1) = g.codeBetween a i ++
      if g.taxonomy.isCode n.kind then [n] else [] := by
  have hget : g.nodes.toList[i]? = some n := by simpa using hn
  have hlt : i < g.nodes.toList.length := (List.getElem?_eq_some_iff.mp hget).1
  rw [codeBetween, codeBetween, List.take_add_one, hget,
    List.drop_append_of_le_length (by simp only [List.length_take]; omega), List.filter_append]
  by_cases hc : g.taxonomy.isCode n.kind = true <;> simp [hc]

theorem codeBetween_append (hab : a ≤ b) (hbi : b ≤ i) (hi : i ≤ g.size) :
    g.codeBetween a i = g.codeBetween a b ++ g.codeBetween b i := by
  induction i with
  | zero =>
    obtain rfl : b = 0 := by omega
    simp
  | succ i ih =>
    by_cases hbi' : b ≤ i
    · have hlt : i < g.nodes.size := hi
      have hn : g.nodes[i]? = some g.nodes[i] := Array.getElem?_eq_getElem hlt
      rw [codeBetween_succ hn (Nat.le_trans hab hbi'), codeBetween_succ hn hbi', ih hbi' (by omega),
        List.append_assoc]
    · obtain rfl : b = i + 1 := by omega
      simp

theorem isCode_iff_codeAt (hn : g.nodes[i]? = some n) :
    g.taxonomy.isCode n.kind = true ↔ CodeAt g.taxonomy g.tokens i := by
  rw [codeAt_iff (by rw [getElem?_tokens, hn]; rfl)]
  simp [Taxonomy.isCode]

theorem Linked.prevCode_succ (hg : g.Linked) (hn : g.nodes[i + 1]? = some n)
    (hm : g.nodes[i]? = some m) :
    n.prevCode = if g.taxonomy.isCode m.kind then some i else m.prevCode := by
  apply Option.ext
  intro j
  rw [(hg.nodes _ n hn).prevCode j]
  by_cases hc : g.taxonomy.isCode m.kind = true
  · rw [lastBefore_succ_of_pos ((isCode_iff_codeAt hm).mp hc), if_pos hc, Option.some.injEq,
      eq_comm]
  · rw [lastBefore_succ_of_neg (fun h => hc ((isCode_iff_codeAt hm).mpr h)), if_neg hc,
      (hg.nodes _ m hm).prevCode j]

theorem Linked.trail_go (hg : g.Linked) (hn : g.nodes[i]? = some n) :
    ∀ k, i ≤ k → trail.go g (·.prevCode) k n = (g.codeBetween 0 i).reverse := by
  -- by induction on the index: behind trivia the walk is the one from the trivia itself
  induction i generalizing n with
  | zero =>
    intro k _
    have hnone : n.prevCode = none := by
      rw [Option.eq_none_iff_forall_ne_some]
      intro j hj
      have := (((hg.nodes 0 n hn).prevCode j).mp hj).lt
      omega
    cases k with
    | zero => simp [trail.go]
    | succ k => simp [trail.go, hnone]
  | succ i ih =>
    intro k hk
    have hlt : i < g.nodes.size := by have := (Array.getElem?_eq_some_iff.mp hn).1; omega
    have hm : g.nodes[i]? = some g.nodes[i] := Array.getElem?_eq_getElem hlt
    obtain ⟨k, rfl⟩ : ∃ l, k = l + 1 := ⟨k - 1, by omega⟩
    rw [codeBetween_succ hm (Nat.zero_le i)]
    by_cases hc : g.taxonomy.isCode (g.nodes[i]).kind = true
    · rw [trail.go, hg.prevCode_succ hn hm, if_pos hc, if_pos hc, Option.bind_some, hm,
        List.reverse_append, ← ih hm k (by omega)]
      rfl
    · rw [if_neg hc, List.append_nil, ← ih hm (k + 1) (by omega), trail.go, trail.go,
        hg.prevCode_succ hn hm, if_neg hc]

theorem Linked.trail_prevCode (hg : g.Linked) (hn : g.nodes[i]? = some n) :
    g.trail (·.prevCode) n = (g.codeBetween 0 i).reverse :=
  hg.trail_go hn g.size (Nat.le_of_lt (Array.getElem?_eq_some_iff.mp hn).1)

/-! ## Headers -/

/-- The code before a bracket, nearest first, as long as it may stand in a header. -/
def headerBefore (g : Graph) (i : Nat) : List Node :=
  (g.codeBetween 0 i).reverse.takeWhile (g.taxonomy.declarationParts.contains ·.kind)

theorem codeBetween_eq_nil
    (h : ∀ j m, a ≤ j → j < b → g.nodes[j]? = some m → g.taxonomy.isCode m.kind = false) :
    g.codeBetween a b = [] := by
  rw [List.eq_nil_iff_forall_not_mem]
  intro m hm
  obtain ⟨j, hij, hjo, hj, hcode⟩ := mem_codeBetween.mp hm
  rw [h j m hij hjo hj] at hcode
  cases hcode

theorem Linked.codeBetween_of_prevCode {c : Nat} {m : Node} (hg : g.Linked)
    (hn : g.nodes[i]? = some n) (hm : g.nodes[c]? = some m) (hc : n.prevCode = some c) :
    g.codeBetween 0 i = g.codeBetween 0 c ++ [m] := by
  have hlast := ((hg.nodes i n hn).prevCode c).mp hc
  have hlt := hlast.lt
  have hi : i ≤ g.size := Nat.le_of_lt (Array.getElem?_eq_some_iff.mp hn).1
  have hrest : g.codeBetween (c + 1) i = [] := by
    apply codeBetween_eq_nil
    intro j k hcj hji hj
    rw [Bool.eq_false_iff]
    intro hcode
    exact hlast.last j hcj hji ((isCode_iff_codeAt hj).mp hcode)
  rw [codeBetween_append (Nat.zero_le (c + 1)) hlt hi, hrest, List.append_nil,
    codeBetween_succ hm (Nat.zero_le c), if_pos ((isCode_iff_codeAt hm).mpr hlast.holds)]

theorem Linked.codeBetween_of_prevCode_none (hg : g.Linked) (hn : g.nodes[i]? = some n)
    (hc : n.prevCode = none) : g.codeBetween 0 i = [] := by
  rw [← List.reverse_eq_nil_iff, ← hg.trail_prevCode hn, trail]
  cases g.size <;> simp [trail.go, hc]

/-- Seen from before a token that cannot stand in a header, the header lies wholly before it. -/
theorem Linked.isDeclarationOf_prevCode {c : Nat} {k : Kind} (hg : g.Linked)
    (hn : g.nodes[i]? = some n) (hc : n.prevCode = some c)
    (hcode : g.taxonomy.isCode n.kind = true)
    (hpart : g.taxonomy.declarationParts.contains n.kind = false) :
    g.isDeclarationOf c k = (g.headerBefore i).any (·.kind == k) := by
  have hlast := ((hg.nodes i n hn).prevCode c).mp hc
  obtain ⟨m, hm⟩ : ∃ m, g.nodes[c]? = some m := by
    have := (Array.getElem?_eq_some_iff.mp hn).1
    exact ⟨_, Array.getElem?_eq_getElem (Nat.lt_trans hlast.lt this)⟩
  have hnext : m.nextCode = some i := by
    rw [(hg.nodes c m hm).nextCode i]
    exact ⟨hlast.lt, (isCode_iff_codeAt hn).mp hcode, fun j h₁ h₂ => hlast.last j h₁ h₂⟩
  have hforward : g.headerAlong (·.nextCode) m = [] := by
    have hsize : 0 < g.nodes.size := Nat.lt_of_le_of_lt (Nat.zero_le c)
      (Array.getElem?_eq_some_iff.mp hm).1
    obtain ⟨s, hs⟩ : ∃ s, g.size = s + 1 := ⟨g.size - 1, by simp only [size]; omega⟩
    rw [headerAlong, trail, hs, trail.go, hnext, Option.bind_some, hn]
    simp [hpart]
  rw [isDeclarationOf, hm, headerBefore, hg.codeBetween_of_prevCode hn hm hc, List.reverse_append]
  dsimp only
  rw [hforward, headerAlong, hg.trail_prevCode hm]
  by_cases hp : g.taxonomy.declarationParts.contains m.kind = true
  · simp [hp]
  · simp [hp]

theorem headerBefore_succ (hn : g.nodes[i]? = some n) :
    g.headerBefore (i + 1) =
      if g.taxonomy.isCode n.kind then
        if g.taxonomy.declarationParts.contains n.kind then n :: g.headerBefore i else []
      else g.headerBefore i := by
  rw [headerBefore, codeBetween_succ hn (Nat.zero_le i), List.reverse_append]
  by_cases hc : g.taxonomy.isCode n.kind = true
  · by_cases hp : g.taxonomy.declarationParts.contains n.kind = true <;> simp [hc, hp, headerBefore]
  · simp [hc, headerBefore]

/-- All code from index `j` up to `i` may stand in a header. -/
def HeaderRun (g : Graph) (j i : Nat) : Prop :=
  ∀ q n, j ≤ q → q < i → g.nodes[q]? = some n → g.taxonomy.isCode n.kind = true →
    g.taxonomy.declarationParts.contains n.kind = true

theorem headerRun_succ {j : Nat} (hn : g.nodes[i]? = some n) (hj : j ≤ i) :
    g.HeaderRun j (i + 1) ↔ g.HeaderRun j i ∧
      (g.taxonomy.isCode n.kind = true → g.taxonomy.declarationParts.contains n.kind = true) := by
  constructor
  · intro h
    exact ⟨fun q m hjq hqi => h q m hjq (by omega), h i n hj (Nat.lt_succ_self i) hn⟩
  · rintro ⟨h, hlast⟩ q m hjq hqi hm
    rcases Nat.lt_or_eq_of_le (Nat.le_of_lt_succ hqi) with hlt | rfl
    · exact h q m hjq hlt hm
    · rw [hn] at hm
      cases hm
      exact hlast

theorem any_headerBefore_iff {k : Kind} (hk : g.taxonomy.isCode k = true) (hi : i ≤ g.size) :
    (g.headerBefore i).any (·.kind == k) = true ↔
      ∃ j m, j < i ∧ g.nodes[j]? = some m ∧ m.kind = k ∧ g.HeaderRun j i := by
  -- by induction on the index: code that may stand in a header prolongs it, other code ends it,
  -- and trivia changes nothing
  induction i with
  | zero => simp [headerBefore]
  | succ i ih =>
    have hlt : i < g.nodes.size := hi
    have hn : g.nodes[i]? = some g.nodes[i] := Array.getElem?_eq_getElem hlt
    have ih := ih (by omega)
    rw [headerBefore_succ hn]
    by_cases hc : g.taxonomy.isCode (g.nodes[i]).kind = true
    · rw [if_pos hc]
      by_cases hp : g.taxonomy.declarationParts.contains (g.nodes[i]).kind = true
      · rw [if_pos hp, List.any_cons, Bool.or_eq_true, ih, beq_iff_eq]
        constructor
        · rintro (hkind | ⟨j, m, hji, hm, hkind, hrun⟩)
          · refine ⟨i, _, Nat.lt_succ_self i, hn, hkind, ?_⟩
            exact (headerRun_succ hn (Nat.le_refl i)).mpr ⟨fun q m h₁ h₂ => by omega, fun _ => hp⟩
          · exact ⟨j, m, by omega, hm, hkind, (headerRun_succ hn (by omega)).mpr
              ⟨hrun, fun _ => hp⟩⟩
        · rintro ⟨j, m, hji, hm, hkind, hrun⟩
          rcases Nat.lt_or_eq_of_le (Nat.le_of_lt_succ hji) with hlt' | rfl
          · exact .inr ⟨j, m, hlt', hm, hkind, ((headerRun_succ hn (by omega)).mp hrun).1⟩
          · rw [hn] at hm
            cases hm
            exact .inl hkind
      · -- no header goes on over this code
        rw [if_neg hp]
        simp only [List.any_nil, Bool.false_eq_true, false_iff]
        rintro ⟨j, m, hji, hm, hkind, hrun⟩
        exact hp (((headerRun_succ hn (by omega)).mp hrun).2 hc)
    · rw [if_neg hc, ih]
      constructor
      · rintro ⟨j, m, hji, hm, hkind, hrun⟩
        exact ⟨j, m, by omega, hm, hkind, (headerRun_succ hn (by omega)).mpr
          ⟨hrun, fun h => absurd h hc⟩⟩
      · rintro ⟨j, m, hji, hm, hkind, hrun⟩
        rcases Nat.lt_or_eq_of_le (Nat.le_of_lt_succ hji) with hlt' | rfl
        · exact ⟨j, m, hlt', hm, hkind, ((headerRun_succ hn (by omega)).mp hrun).1⟩
        · rw [hn] at hm
          cases hm
          rw [hkind] at hc
          exact absurd hk hc

end Graph

namespace View

open PhpOutline.Graph

variable {v : View} {p : v.Pos}

theorem Balanced.codeBefore_eq (hv : v.Balanced) (hp : v.lo ≤ p) :
    v.codeBefore (v.node p) = (v.graph.codeBetween v.lo p).reverse := by
  have hindex : ∀ {a b : Nat} {n : Node}, n ∈ v.graph.codeBetween a b → a ≤ n.index ∧
      n.index < b := by
    intro a b n hn
    obtain ⟨i, hai, hib, hi, _⟩ := mem_codeBetween.mp hn
    rw [(hv.linked.nodes i n hi).index]
    exact ⟨hai, hib⟩
  rw [codeBefore, hv.linked.trail_prevCode (getElem?_pos p),
    codeBetween_append (Nat.zero_le v.lo) hp (Nat.le_of_lt p.isLt), List.reverse_append,
    List.takeWhile_append_of_pos (fun n hn => by simpa using (hindex (List.mem_reverse.mp hn)).1)]
  have hrest : (v.graph.codeBetween 0 v.lo).reverse.takeWhile (fun n => decide (v.lo ≤ n.index)) =
      [] := by
    cases hl : (v.graph.codeBetween 0 v.lo).reverse with
    | nil => rfl
    | cons n l =>
      have hn : n ∈ v.graph.codeBetween 0 v.lo := by rw [← List.mem_reverse, hl]; simp
      have := (hindex hn).2
      rw [List.takeWhile_cons_of_neg (by simpa using this)]
  rw [hrest, List.append_nil]

end View

end PhpOutline
