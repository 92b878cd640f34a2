import Mathlib.Order.Fin.Basic
import Mathlib.Order.Hom.Set
import PhpOutline.Proofs.ClauseTransfer
import PhpOutline.Proofs.CodeRank

/-!
# Linking without trivia

Linking all tokens and linking the code among them fail together, or give graphs with the same code
in the same order (`Thinned`). There is one way only to match the tokens of the one with the code of
the other in order, by rank. Under this match the tokens are the same, and each link to code leads
to the same code token, or is missing in both.
-/

namespace PhpOutline

namespace Graph

/-- A graph and the same graph without trivia. -/
structure Thinned (g h : Graph) : Prop where
  left : g.Linked
  right : h.Linked
  php : g.taxonomy = .php
  php' : h.taxonomy = .php
  matched : g.flags.matchBrackets = true
  matched' : h.flags.matchBrackets = true
  tokens : h.tokens = codeOf .php g.tokens

abbrev CodeIndex (g : Graph) : Type :=
  {i : Fin g.nodes.size // g.taxonomy.isCode (g.nodes[i]).kind = true}

/-- Links to the same code token, or none. -/
def SameLink {g h : Graph} (φ : Fin h.nodes.size ≃o g.CodeIndex) : Option Nat → Option Nat → Prop :=
  Option.Rel fun l m => ∃ k, l = k.val ∧ m = (φ k).val.val

/-- A match of the tokens of one graph with the code of another under which tokens and links
agree. -/
structure SameCode {g h : Graph} (φ : Fin h.nodes.size ≃o g.CodeIndex) : Prop where
  token : ∀ k, (h.nodes[k]).toToken = (g.nodes[(φ k).val]).toToken
  prevCode : ∀ k, SameLink φ (h.nodes[k]).prevCode (g.nodes[(φ k).val]).prevCode
  nextCode : ∀ k, SameLink φ (h.nodes[k]).nextCode (g.nodes[(φ k).val]).nextCode
  parent : ∀ k, SameLink φ (h.nodes[k]).parent (g.nodes[(φ k).val]).parent
  openedBy : ∀ k, SameLink φ (h.nodes[k]).openedBy (g.nodes[(φ k).val]).openedBy
  closedBy : ∀ k, SameLink φ (h.nodes[k]).closedBy (g.nodes[(φ k).val]).closedBy

namespace Thinned

variable {g h : Graph} {i j k : Nat} {n m : Node}

section

variable (t : Thinned g h)

include t

theorem roles : h.roles = roleAt .php g.flags (codeOf .php g.tokens) := by
  rw [Graph.roles, t.tokens, t.php']
  exact roleAt_congr (by rw [t.matched, t.matched'])

theorem roles_left : g.roles = roleAt .php g.flags g.tokens := by
  rw [Graph.roles, t.php]

theorem codeAt_of_role (hi : g.roles i ≠ .plain) : CodeAt .php g.tokens i := by
  rw [t.roles_left] at hi
  exact Graph.codeAt_of_role php_plainTrivia hi

theorem rank_lt_size (hi : CodeAt .php g.tokens i) : rank .php g.tokens i < h.nodes.size := by
  have := hi.rank.lt
  rwa [← t.tokens, length_tokens] at this

theorem exists_index (hk : k < h.nodes.size) :
    ∃ i, CodeAt .php g.tokens i ∧ rank .php g.tokens i = k := by
  have hlt : k < rank .php g.tokens g.tokens.length := by
    rw [rank_of_length_le (Nat.le_refl _), ← t.tokens, length_tokens]
    exact hk
  obtain ⟨i, _, hi, heq⟩ := exists_code_of_rank hlt
  exact ⟨i, hi, heq⟩

theorem token (hi : CodeAt .php g.tokens i) (hn : g.nodes[i]? = some n)
    (hm : h.nodes[rank .php g.tokens i]? = some m) : m.toToken = n.toToken := by
  have hright : h.tokens[rank .php g.tokens i]? = some m.toToken := by rw [getElem?_tokens, hm]; rfl
  rw [t.tokens, getElem?_codeOf hi, getElem?_tokens, hn] at hright
  exact (Option.some.inj hright).symm

/-! ## Links -/

theorem pair (hi : CodeAt .php g.tokens i) (hj : CodeAt .php g.tokens j) :
    Pair h.roles (rank .php g.tokens i) (rank .php g.tokens j) ↔ Pair g.roles i j := by
  rw [t.roles, t.roles_left, pair_rank php_plainTrivia hi hj]

theorem innermost (hi : CodeAt .php g.tokens i) (hj : CodeAt .php g.tokens j) :
    Innermost h.roles (rank .php g.tokens i) (rank .php g.tokens j) ↔ Innermost g.roles i j := by
  rw [t.roles, t.roles_left, innermost_rank php_plainTrivia hi hj]

theorem lastBefore (hj : CodeAt .php g.tokens j) :
    LastBefore (CodeAt h.taxonomy h.tokens) (rank .php g.tokens i) (rank .php g.tokens j) ↔
      LastBefore (CodeAt g.taxonomy g.tokens) i j := by
  rw [t.tokens, t.php', t.php, lastBefore_rank hj]

theorem firstFrom (hi : CodeAt .php g.tokens i) (hj : CodeAt .php g.tokens j) :
    FirstFrom (CodeAt h.taxonomy h.tokens) (rank .php g.tokens i + 1) (rank .php g.tokens j) ↔
      FirstFrom (CodeAt g.taxonomy g.tokens) (i + 1) j := by
  rw [t.tokens, t.php', t.php, firstFrom_rank hi hj]

/-! ## The match by rank -/

theorem codeAt_iff_index (hi : i < g.nodes.size) :
    CodeAt .php g.tokens i ↔ g.taxonomy.isCode (g.nodes[i]).kind = true := by
  rw [t.php]
  exact codeAt_iff_isCode (by rw [getElem?_tokens, Array.getElem?_eq_getElem hi]; rfl)

theorem codeAt_index (i : g.CodeIndex) : CodeAt .php g.tokens i.val :=
  (t.codeAt_iff_index i.val.isLt).mpr i.property

theorem exists_iso :
    ∃ φ : Fin h.nodes.size ≃o g.CodeIndex, ∀ k, rank .php g.tokens (φ k).val = k := by
  let f (i : g.CodeIndex) : Fin h.nodes.size :=
    ⟨rank .php g.tokens i.val, t.rank_lt_size (t.codeAt_index i)⟩
  have hmono : StrictMono f := fun i j hij => rank_lt (t.codeAt_index i) hij
  have hsurj : Function.Surjective f := by
    intro k
    obtain ⟨i, hi, hk⟩ := t.exists_index k.isLt
    have hlt : i < g.nodes.size := by
      have := hi.lt
      rwa [length_tokens] at this
    exact ⟨⟨⟨i, hlt⟩, (t.codeAt_iff_index hlt).mp hi⟩, Fin.ext hk⟩
  refine ⟨(hmono.orderIsoOfSurjective f hsurj).symm, fun k => ?_⟩
  exact congrArg Fin.val (hmono.orderIsoOfSurjective_self_symm_apply f hsurj k)

variable (φ : Fin h.nodes.size ≃o g.CodeIndex)

/-- There is no other match in order than the one by rank. -/
theorem rank_iso (k : Fin h.nodes.size) : rank .php g.tokens (φ k).val = k := by
  obtain ⟨ψ, hψ⟩ := t.exists_iso
  rw [Subsingleton.elim φ ψ]
  exact hψ k

/-- What two links lead to is told by `P` and `Q`: if a code token is told by the one exactly if its
rank is told by the other, the links are the same. -/
theorem sameLink {P Q : Nat → Prop} {l m : Option Nat} (hl : ∀ k, l = some k ↔ P k)
    (hm : ∀ i, m = some i ↔ Q i) (hlt : ∀ k, P k → k < h.nodes.size)
    (hcode : ∀ i, Q i → CodeAt .php g.tokens i)
    (hiff : ∀ i, CodeAt .php g.tokens i → (P (rank .php g.tokens i) ↔ Q i)) : SameLink φ l m := by
  cases l with
  | some k =>
    have hk : P k := (hl k).mp rfl
    let k' : Fin h.nodes.size := ⟨k, hlt k hk⟩
    have himage : Q (φ k').val := by
      rw [← hiff _ (t.codeAt_index _), t.rank_iso φ k']
      exact hk
    rw [(hm _).mpr himage]
    exact .some ⟨k', rfl, rfl⟩
  | none =>
    cases m with
    | none => exact .none
    | some i =>
      have hi : Q i := (hm i).mp rfl
      cases (hl _).mpr ((hiff i (hcode i hi)).mpr hi)

theorem sameCode : SameCode φ := by
  have hleft : ∀ k, g.nodes[(φ k).val.val]? = some g.nodes[(φ k).val] :=
    fun k => Array.getElem?_eq_getElem _
  have hright : ∀ k : Fin h.nodes.size, h.nodes[k.val]? = some h.nodes[k] :=
    fun k => Array.getElem?_eq_getElem _
  have hcode (k) : CodeAt .php g.tokens (φ k).val.val := t.codeAt_index (φ k)
  have hrank := t.rank_iso φ
  have hphp : ∀ {i}, CodeAt g.taxonomy g.tokens i → CodeAt .php g.tokens i := by
    rw [t.php]
    exact id
  have hlt : ∀ {i}, i < h.tokens.length → i < h.nodes.size := by
    rw [length_tokens]
    exact id
  refine ⟨fun k => ?_, fun k => ?_, fun k => ?_, fun k => ?_, fun k => ?_, fun k => ?_⟩
  · exact t.token (hcode k) (hleft k) (by rw [hrank k]; exact hright k)
  · refine t.sameLink φ (t.right.nodes k _ (hright k)).prevCode
      (t.left.nodes _ _ (hleft k)).prevCode
      (fun i hi => hlt hi.holds.lt) (fun i hi => hphp hi.holds) (fun i hi => ?_)
    rw [← hrank k]
    exact t.lastBefore hi
  · refine t.sameLink φ (t.right.nodes k _ (hright k)).nextCode
      (t.left.nodes _ _ (hleft k)).nextCode
      (fun i hi => hlt hi.holds.lt) (fun i hi => hphp hi.holds) (fun i hi => ?_)
    rw [← hrank k]
    exact t.firstFrom (hcode k) hi
  · refine t.sameLink φ (t.right.nodes k _ (hright k)).parent (t.left.nodes _ _ (hleft k)).parent
      (fun i hi => Nat.lt_trans hi.lt k.isLt)
      (fun i hi => t.codeAt_of_role (by simp [Graph.roles, hi.openAt.opens]))
      (fun i hi => ?_)
    rw [← hrank k]
    exact t.innermost (hcode k) hi
  · refine t.sameLink φ (t.right.nodes k _ (hright k)).openedBy
      (t.left.nodes _ _ (hleft k)).openedBy
      (fun i hi => Nat.lt_trans hi.lt k.isLt)
      (fun i hi => t.codeAt_of_role (by simp [Graph.roles, hi.openAt.opens]))
      (fun i hi => ?_)
    rw [← hrank k]
    exact t.pair hi (hcode k)
  · refine t.sameLink φ (t.right.nodes k _ (hright k)).closedBy
      (t.left.nodes _ _ (hleft k)).closedBy
      (fun i hi => hlt hi.closer_lt) (fun i hi =>
        t.codeAt_of_role (by simp [Graph.roles, hi.closes]))
      (fun i hi => ?_)
    rw [← hrank k]
    exact t.pair (hcode k) hi

end

end Thinned

/-! ## Unclosed brackets -/

structure FirstUnclosed (g : Graph) (o : Nat) (n : Node) : Prop where
  node : g.nodes[o]? = some n
  opener : g.taxonomy.isOpener n.kind = true
  unclosed : n.closedBy = none
  first : ∀ (p : Nat) (m : Node), p < o → g.nodes[p]? = some m → g.taxonomy.isOpener m.kind = true →
    m.closedBy ≠ none

theorem checkBalanced_error_iff {g : Graph} {e : LexError} :
    g.checkBalanced = .error e ↔ ∃ o n, g.FirstUnclosed o n ∧
      e = .unclosedBracket n.text n.line := by
  constructor
  · intro h
    obtain ⟨o, n, hn, hopener, hopen, he, hfirst⟩ := checkBalanced_error h
    exact ⟨o, n, ⟨hn, hopener, hopen, hfirst⟩, he⟩
  · rintro ⟨o, n, h, rfl⟩
    cases hc : g.checkBalanced with
    | ok => exact absurd h.unclosed (checkBalanced_ok_iff.mp hc o n h.node h.opener)
    | error e =>
      obtain ⟨o', n', hn, hopener, hopen, he, hfirst⟩ := checkBalanced_error hc
      rcases Nat.lt_trichotomy o o' with hlt | rfl | hgt
      · exact absurd h.unclosed (hfirst o n hlt h.node h.opener)
      · rw [h.node] at hn
        cases hn
        rw [he]
      · exact absurd hopen (h.first o' n' hgt hn hopener)

namespace Thinned

variable {g h : Graph} {i o : Nat} {n m : Node} (t : Thinned g h)

include t

theorem codeAt_opener (hn : g.nodes[i]? = some n) (ho : g.taxonomy.isOpener n.kind = true) :
    CodeAt .php g.tokens i :=
  t.codeAt_of_role (by simp [(t.left.roles_opens_iff t.matched hn).mpr ho])

theorem closedBy_eq_none_iff (hi : CodeAt .php g.tokens i) (hn : g.nodes[i]? = some n)
    (hm : h.nodes[rank .php g.tokens i]? = some m) : m.closedBy = none ↔ n.closedBy = none := by
  rw [← not_iff_not, ← ne_eq, ← ne_eq, Option.ne_none_iff_exists', Option.ne_none_iff_exists']
  constructor
  · rintro ⟨c, hc⟩
    have hpair := (t.right.closedBy_eq_some hm).mp hc
    have hlt := hpair.closer_lt
    rw [length_tokens] at hlt
    obtain ⟨j, hj, rfl⟩ := t.exists_index hlt
    exact ⟨j, (t.left.closedBy_eq_some hn).mpr ((t.pair hi hj).mp hpair)⟩
  · rintro ⟨c, hc⟩
    have hpair := (t.left.closedBy_eq_some hn).mp hc
    have hcode := t.codeAt_of_role (i := c) (by simp [Graph.roles, hpair.closes])
    exact ⟨_, (t.right.closedBy_eq_some hm).mpr ((t.pair hi hcode).mpr hpair)⟩

theorem firstUnclosed (hf : g.FirstUnclosed o n) : ∃ m, h.FirstUnclosed (rank .php g.tokens o) m ∧
    m.toToken = n.toToken := by
  have hcode := t.codeAt_opener hf.node hf.opener
  have hm := Array.getElem?_eq_getElem (t.rank_lt_size hcode)
  have htoken := t.token hcode hf.node hm
  have hkind : ∀ {n m : Node}, m.toToken = n.toToken →
      h.taxonomy.isOpener m.kind = g.taxonomy.isOpener n.kind := by
    intro n m hnm
    rw [t.php, t.php', show m.kind = n.kind from congrArg Token.kind hnm]
  refine ⟨_, ⟨hm, by rw [hkind htoken, hf.opener], ?_, ?_⟩, htoken⟩
  · rw [t.closedBy_eq_none_iff hcode hf.node hm]
    exact hf.unclosed
  · intro p m' hp hm' hopener
    obtain ⟨i, hi, rfl⟩ := t.exists_index (Array.getElem?_eq_some_iff.mp hm').1
    have hlt := hi.lt
    rw [length_tokens] at hlt
    have hn' := Array.getElem?_eq_getElem hlt
    rw [ne_eq, t.closedBy_eq_none_iff hi hn' hm']
    refine hf.first i _ (lt_of_rank_lt hp) hn' ?_
    rw [← hkind (t.token hi hn' hm')]
    exact hopener

theorem size_eq : h.size = rank .php g.tokens g.size := by
  rw [← length_tokens, ← length_tokens, rank_of_length_le (Nat.le_refl _), t.tokens]

theorem height_size : height h.roles h.size = height g.roles g.size := by
  rw [t.size_eq, t.roles, t.roles_left, height_rank php_plainTrivia]

theorem checkBalanced_eq : h.checkBalanced = g.checkBalanced := by
  cases hg : g.checkBalanced with
  | ok =>
    rw [checkBalanced_ok_iff, t.left.all_closed_iff t.matched] at hg
    rw [checkBalanced_ok_iff, t.right.all_closed_iff t.matched', t.height_size, hg]
  | error e =>
    obtain ⟨o, n, hf, rfl⟩ := checkBalanced_error_iff.mp hg
    obtain ⟨m, hf', htoken⟩ := t.firstUnclosed hf
    rw [checkBalanced_error_iff]
    refine ⟨_, m, hf', ?_⟩
    rw [show m.text = n.text from congrArg Token.text htoken,
      show m.line = n.line from congrArg Token.line htoken]

end Thinned

/-! ## The two linkings -/

variable {ts : List Token} {g h : Graph} {e : LexError}

theorem thinned_of_link (hg : link .php {} ts = .ok g)
    (hh : link .php { discardTrivia := true } ts = .ok h) :
    Thinned g h := by
  obtain ⟨hx, hf, htokens⟩ := link_tokens_eq hg
  obtain ⟨hx', hf', htokens'⟩ := link_tokens_eq hh
  refine ⟨link_linked hg, link_linked hh, hx, hx', by rw [hf], by rw [hf'], ?_⟩
  rw [htokens, htokens']
  rfl

theorem FirstExcess.codeAt {a c : Nat} (h : FirstExcess .php ts a c) : CodeAt .php ts c := by
  obtain ⟨hle, hex, hleast⟩ := (firstExcess_iff (f := {}) rfl).mp h
  have hfall : height (roleAt .php {} ts) (c + 1) < height (roleAt .php {} ts) c := by
    rcases Nat.eq_or_lt_of_le hle with rfl | hlt
    · exact hex
    · have := hleast (c - 1) (by omega) (by omega)
      rw [show c - 1 + 1 = c by omega] at this
      omega
  exact codeAt_of_role php_plainTrivia (f := {}) (by simp [closes_of_height_lt hfall])

theorem link_error_discard_iff :
    link .php { discardTrivia := true } ts = .error e ↔ link .php {} ts = .error e := by
  -- the first closing bracket that is one too many is code, so it is the first one of the code too
  rw [link_error_iff rfl, link_error_iff rfl,
    show kept .php { discardTrivia := true } ts = codeOf .php ts from rfl,
    show kept .php {} ts = ts from rfl]
  constructor
  · rintro ⟨c, t, hc, ht, he⟩
    have hlt : c < rank .php ts ts.length := by
      rw [rank_of_length_le (Nat.le_refl _)]
      exact (List.getElem?_eq_some_iff.mp ht).1
    obtain ⟨i, _, hi, rfl⟩ := exists_code_of_rank hlt
    rw [getElem?_codeOf hi] at ht
    exact ⟨i, t, (firstExcess_rank php_plainTrivia (f := {}) rfl hi).mp hc, ht, he⟩
  · rintro ⟨c, t, hc, ht, he⟩
    refine ⟨rank .php ts c, t, (firstExcess_rank php_plainTrivia (f := {}) rfl hc.codeAt).mpr hc,
      ?_, he⟩
    rw [getElem?_codeOf hc.codeAt]
    exact ht

theorem link_thinned (ts : List Token) :
    SameResult Thinned (link .php {} ts) (link .php { discardTrivia := true } ts) := by
  cases hg : link .php {} ts with
  | error e =>
    rw [link_error_discard_iff.mpr hg]
    exact .error e
  | ok g =>
    cases hh : link .php { discardTrivia := true } ts with
    | error e =>
      rw [link_error_discard_iff.mp hh] at hg
      cases hg
    | ok h => exact .ok (thinned_of_link hg hh)

/-- Linking all tokens and linking the code alone fail with the same error, or both succeed. Then
the tokens of the latter match the code of the former in order, in one way only, and matched tokens
are the same and have the same links to code. -/
theorem link_discardTrivia (ts : List Token) :
    SameResult (fun h g => Nonempty (Fin h.nodes.size ≃o g.CodeIndex) ∧
        ∀ φ : Fin h.nodes.size ≃o g.CodeIndex, SameCode φ)
      (link .php { discardTrivia := true } ts) (link .php {} ts) := by
  have hthinned := link_thinned ts
  generalize link .php {} ts = x, link .php { discardTrivia := true } ts = y at hthinned
  cases hthinned with
  | error e => exact .error e
  | ok t =>
    obtain ⟨φ, _⟩ := t.exists_iso
    exact .ok ⟨⟨φ⟩, t.sameCode⟩

end Graph

end PhpOutline
