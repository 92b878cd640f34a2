import Mathlib.Data.List.Basic
import PhpOutline.Proofs.CodeTrail
import PhpOutline.Proofs.ListFacts

/-!
# Header blocks

The code tokens of a graph, with the trivia between them left out, fall into stretches that may
stand in a declaration and the tokens that end them. The two walks from a token, back along one link
and on along the other, meet exactly the longest such stretch around it. So whether a header holds a
token of some kind does not depend on the token of the header that is asked.
-/

namespace PhpOutline

namespace Graph

variable {x : Taxonomy} {f : Flags} {g : Graph} {i j a b : Nat} {n m : Node} {k : Kind}
  {block : List Node}

/-! ## On along the links -/

theorem codeBetween_cons (hn : g.nodes[a]? = some n) (hab : a < b) (hb : b ≤ g.size) :
    g.codeBetween a b =
      (if g.taxonomy.isCode n.kind then [n] else []) ++ g.codeBetween (a + 1) b := by
  rw [codeBetween_append (Nat.le_succ a) hab hb, codeBetween_succ hn (Nat.le_refl a),
    codeBetween_self, List.nil_append]

theorem Linked.nextCode_pred (hg : g.Linked) (hn : g.nodes[i]? = some n)
    (hm : g.nodes[i + 1]? = some m) :
    n.nextCode = if g.taxonomy.isCode m.kind then some (i + 1) else m.nextCode := by
  apply Option.ext
  intro j
  rw [(hg.nodes _ n hn).nextCode j]
  by_cases hc : g.taxonomy.isCode m.kind = true
  · rw [firstFrom_of_pos ((isCode_iff_codeAt hm).mp hc), if_pos hc, Option.some.injEq, eq_comm]
  · rw [firstFrom_of_neg (fun h => hc ((isCode_iff_codeAt hm).mpr h)), if_neg hc,
      (hg.nodes _ m hm).nextCode j]

theorem Linked.trail_go_nextCode (hg : g.Linked) (hn : g.nodes[i]? = some n) :
    ∀ k, g.size ≤ i + 1 + k → trail.go g (·.nextCode) k n = g.codeBetween (i + 1) g.size := by
  -- by induction on the tokens that are left: before trivia the walk is the one from the trivia
  -- itself
  have hi : i < g.size := (Array.getElem?_eq_some_iff.mp hn).1
  induction hd : g.size - (i + 1) generalizing i n with
  | zero =>
    intro k _
    obtain hend : i + 1 = g.size := by omega
    have hnone : n.nextCode = none := by
      rw [Option.eq_none_iff_forall_ne_some]
      intro j hj
      have hfirst := ((hg.nodes i n hn).nextCode j).mp hj
      have hle := hfirst.le
      have hlt := hfirst.holds.lt
      rw [length_tokens] at hlt
      omega
    rw [hend, codeBetween_self]
    cases k with
    | zero => rfl
    | succ k => simp [trail.go, hnone]
  | succ d ih =>
    intro k hk
    have hlt : i + 1 < g.size := by omega
    have hm : g.nodes[i + 1]? = some g.nodes[i + 1] := Array.getElem?_eq_getElem hlt
    obtain ⟨k, rfl⟩ : ∃ l, k = l + 1 := ⟨k - 1, by omega⟩
    rw [codeBetween_cons hm hlt (Nat.le_refl _)]
    by_cases hc : g.taxonomy.isCode (g.nodes[i + 1]).kind = true
    · rw [trail.go, hg.nextCode_pred hn hm, if_pos hc, if_pos hc, Option.bind_some, hm,
        ← ih hm hlt (by omega) k (by omega)]
      rfl
    · rw [if_neg hc, List.nil_append, ← ih hm hlt (by omega) (k + 1) (by omega), trail.go, trail.go,
        hg.nextCode_pred hn hm, if_neg hc]

theorem Linked.trail_nextCode (hg : g.Linked) (hn : g.nodes[i]? = some n) :
    g.trail (·.nextCode) n = g.codeBetween (i + 1) g.size :=
  hg.trail_go_nextCode hn g.size (by omega)

/-! ## Blocks of the code -/

/-- The code tokens of a graph, in order. -/
def code (g : Graph) : List Node := g.nodes.toList.filter (g.taxonomy.isCode ·.kind)

def isPart (g : Graph) (n : Node) : Bool := g.taxonomy.declarationParts.contains n.kind

/-- A stretch of neighbouring code tokens that may all stand in a header, and that neither the code
before it nor the code behind it can make longer. -/
structure HeaderBlock (g : Graph) (block : List Node) : Prop where
  parts : ∀ n ∈ block, g.isPart n = true
  maximal : ∃ before after, g.code = before ++ block ++ after ∧
    (∀ n, before.getLast? = some n → g.isPart n = false) ∧ ∀ n, after.head? = some n →
      g.isPart n = false

theorem code_eq (hn : g.nodes[i]? = some n) (hcode : g.taxonomy.isCode n.kind = true) :
    g.code = g.codeBetween 0 i ++ n :: g.codeBetween (i + 1) g.size := by
  have hi : i < g.size := (Array.getElem?_eq_some_iff.mp hn).1
  have hall : g.code = g.codeBetween 0 g.size := by
    rw [code, codeBetween, List.drop_zero, List.take_of_length_le (by simp [size])]
  rw [hall, codeBetween_append (Nat.zero_le i) (Nat.le_of_lt hi) (Nat.le_refl _),
    codeBetween_cons hn hi (Nat.le_refl _), if_pos hcode]
  rfl

theorem Linked.not_mem_codeBetween (hg : g.Linked) (hn : g.nodes[i]? = some n) (h : i < a ∨ b ≤ i) :
    n ∉ g.codeBetween a b := by
  intro hmem
  obtain ⟨j, haj, hjb, hj, _⟩ := mem_codeBetween.mp hmem
  have hindex := (hg.nodes j n hj).index
  rw [(hg.nodes i n hn).index] at hindex
  omega

/-- The longest stretch around a token: what the two walks from it meet. -/
def headerAround (g : Graph) (i : Nat) (n : Node) : List Node :=
  ((g.codeBetween 0 i).reverse.takeWhile g.isPart).reverse ++
    n :: (g.codeBetween (i + 1) g.size).takeWhile g.isPart

theorem HeaderBlock.eq_headerAround (h : g.HeaderBlock block) (hg : g.Linked)
    (hn : g.nodes[i]? = some n) (hmem : n ∈ block) (hcode : g.taxonomy.isCode n.kind = true) :
    block = g.headerAround i n := by
  -- a token occurs once in the code, so a block around it is split there as the code is
  obtain ⟨before, after, heq, hbefore, hafter⟩ := h.maximal
  obtain ⟨left, right, rfl⟩ := List.append_of_mem hmem
  have hsplit : g.codeBetween 0 i ++ n :: g.codeBetween (i + 1) g.size =
      (before ++ left) ++ n :: (right ++ after) := by
    rw [← code_eq hn hcode, heq]
    simp
  obtain ⟨hleft, _, hright⟩ := (List.append_cons_inj_of_notMem
    (hg.not_mem_codeBetween hn (.inr (Nat.le_refl i)))
    (hg.not_mem_codeBetween hn (.inl (Nat.lt_succ_self i)))).mp hsplit
  rw [headerAround, hleft, hright, List.reverse_append, takeWhile_append_of_head?,
    takeWhile_append_of_head?, List.reverse_reverse]
  · exact fun m hm => h.parts m (by simp [hm])
  · exact hafter
  · exact fun m hm => h.parts m (by simp [List.mem_reverse.mp hm])
  · exact fun m hm => hbefore m (by rwa [List.head?_reverse] at hm)

theorem headerBlock_around (hn : g.nodes[i]? = some n) (hpart : g.isPart n = true)
    (hcode : g.taxonomy.isCode n.kind = true) : g.HeaderBlock (g.headerAround i n) := by
  have hdrop : ∀ (l : List Node) (m : Node), (l.dropWhile g.isPart).head? = some m →
      g.isPart m = false := by
    intro l m hm
    have := List.head?_dropWhile_not g.isPart l
    rw [hm] at this
    simpa using this
  refine ⟨fun m hm => ?_, ((g.codeBetween 0 i).reverse.dropWhile g.isPart).reverse,
    (g.codeBetween (i + 1) g.size).dropWhile g.isPart, ?_, fun m hm => ?_, hdrop _⟩
  · rcases List.mem_append.mp hm with hm | hm
    · exact (List.mem_takeWhile_imp (List.mem_reverse.mp hm))
    · rcases List.mem_cons.mp hm with rfl | hm
      · exact hpart
      · exact List.mem_takeWhile_imp hm
  · rw [code_eq hn hcode, headerAround, ← List.append_assoc, ← List.reverse_append,
      List.takeWhile_append_dropWhile, List.reverse_reverse, List.append_assoc, List.cons_append,
      List.takeWhile_append_dropWhile]
  · rw [List.getLast?_reverse] at hm
    exact hdrop _ m hm

/-! ## What is asked of a header -/

theorem Linked.isDeclarationOf_eq (hg : g.Linked) (hn : g.nodes[i]? = some n) :
    g.isDeclarationOf i k = (g.isPart n && (g.headerAround i n).any (·.kind == k)) := by
  rw [isDeclarationOf, hn]
  dsimp only
  rw [headerAlong, headerAlong, hg.trail_prevCode hn, hg.trail_nextCode hn, headerAround,
    List.any_append, List.any_reverse, List.any_cons, ← Bool.or_assoc, Bool.or_comm (n.kind == k)]
  rfl

/-- In a graph whose taxonomy counts no part of a declaration as trivia, the header around a token
holds a token of some kind if and only if the token is a part of a declaration and the longest
stretch of such parts around it, in the code without its trivia, holds one. There is exactly one
such stretch around each part, and all its tokens give the same answers. -/
theorem isDeclarationOf_iff_block (hg : Built x f g)
    (hx : ∀ k, x.declarationParts.contains k = true → x.isTrivia k = false) :
    (∀ (i : Nat) (k : Kind), g.isDeclarationOf i k = true ↔ ∃ n, g.nodes[i]? = some n ∧
      g.isPart n = true ∧ ∃ block, g.HeaderBlock block ∧ n ∈ block ∧ ∃ m ∈ block, m.kind = k) ∧
    (∀ (i : Nat) (n : Node), g.nodes[i]? = some n → g.isPart n = true →
      ∃! block, g.HeaderBlock block ∧ n ∈ block) ∧
    ∀ (block : List Node) (i j : Nat) (n m : Node), g.HeaderBlock block → g.nodes[i]? = some n →
      n ∈ block → g.nodes[j]? = some m → m ∈ block → ∀ k :
        Kind, g.isDeclarationOf i k = g.isDeclarationOf j k := by
  have hlinked := hg.linked
  obtain ⟨rfl, rfl⟩ := hg.builder_eq
  have hcode : ∀ {n}, g.isPart n = true → g.taxonomy.isCode n.kind = true := fun h => by
    rw [Taxonomy.isCode, hx _ h]
    rfl
  have hself : ∀ {i : Nat} {n : Node}, n ∈ g.headerAround i n := fun {i n} => by simp [headerAround]
  -- on a block every token is a part, so its answer is told by the block alone
  have hblock : ∀ {block : List Node} {i : Nat} {n : Node} {k : Kind}, g.HeaderBlock block →
      g.nodes[i]? = some n → n ∈ block → g.isDeclarationOf i k = block.any (·.kind == k) :=
        fun {block i n k} h hn hmem => by
    have hpart := h.parts n hmem
    rw [hlinked.isDeclarationOf_eq hn, hpart, h.eq_headerAround hlinked hn hmem (hcode hpart),
      Bool.true_and]
  refine ⟨fun i k => ?_, fun i n hn hpart => ?_, fun block i j n m h hn hni hm hmj k => ?_⟩
  · constructor
    · intro h
      cases hn : g.nodes[i]? with
      | none => rw [isDeclarationOf, hn] at h; cases h
      | some n =>
        rw [hlinked.isDeclarationOf_eq hn, Bool.and_eq_true, List.any_eq_true] at h
        obtain ⟨hpart, m, hm, hk⟩ := h
        exact ⟨n, rfl, hpart, _, headerBlock_around hn hpart (hcode hpart), hself, m, hm,
          beq_iff_eq.mp hk⟩
    · rintro ⟨n, hn, _, block, h, hmem, m, hm, hk⟩
      rw [hblock h hn hmem, List.any_eq_true]
      exact ⟨m, hm, beq_iff_eq.mpr hk⟩
  · refine ⟨g.headerAround i n, ⟨headerBlock_around hn hpart (hcode hpart), hself⟩, ?_⟩
    rintro block ⟨h, hmem⟩
    exact h.eq_headerAround hlinked hn hmem (hcode hpart)
  · rw [hblock h hn hni, hblock h hm hmj]

theorem isDeclarationOf_iff_block_sample :
    ∃ (g : Graph) (n : Node),
      link .php {} [⟨.finalKw, "final", 0, 1⟩, ⟨.whitespace, " ", 5, 1⟩, ⟨.classKw, "class", 6, 1⟩,
        ⟨.comment, "# c", 11, 1⟩, ⟨.string, "A", 14, 2⟩, ⟨.openBrace, "\x7b", 15, 2⟩,
        ⟨.functionKw, "function", 16, 2⟩, ⟨.closeBrace, "\x7d", 24, 2⟩] = .ok g ∧
      g.nodes[0]? = some n ∧ ∃ block, g.HeaderBlock block ∧ n ∈ block ∧
      (∃ m ∈ block, m.kind = .string) ∧
        (¬ ∃ m ∈ block, m.kind = .functionKw) ∧
        ∀ (j : Nat) (m : Node), g.nodes[j]? = some m → m ∈ block →
        g.isDeclarationOf j .finalKw = true := by
  suffices h : ∃ g : Graph, link .php {} _ = .ok g ∧
      (g.isDeclarationOf 0 .string, g.isDeclarationOf 0 .functionKw, g.isDeclarationOf 0 .finalKw) =
        (true, false, true) by
    obtain ⟨g, hl, h⟩ := h
    simp only [Prod.mk.injEq] at h
    obtain ⟨hstring, hfunction, hfinal⟩ := h
    obtain ⟨hiff, _, hsame⟩ := isDeclarationOf_iff_block (.link hl)
      (fun k h => by cases k <;> first | rfl | cases h)
    obtain ⟨n, hn, hpart, block, hblock, hmem, hm⟩ := (hiff 0 .string).mp hstring
    refine ⟨g, n, hl, hn, block, hblock, hmem, hm, fun hk => ?_, fun j m hj hmj => ?_⟩
    · have := (hiff 0 .functionKw).mpr ⟨n, hn, hpart, block, hblock, hmem, hk⟩
      rw [hfunction] at this
      cases this
    · rw [← hsame block 0 j n m hblock hn hmem hj hmj, hfinal]
  exact ⟨_, rfl, by decide +kernel⟩

end Graph

end PhpOutline
