import PhpOutline.Proofs.DroppedTrivia
import PhpOutline.Proofs.UseStatements

/-!
# A view without its trivia

A view of tokens and the same view of their code alone (`Mirrors`) show the same code in the same
order. The brackets of the one are those of the other, and so is the code before and behind a token.
A search for a kind gives the same token in both, provided that what it finds is code: of the kinds
that are searched for, a close tag is trivia.
-/

namespace PhpOutline

open PhpOutline.Graph

namespace View

def rank (v : View) (i : Nat) : Nat := Graph.rank .php v.graph.tokens i

/-- A view and the same view without trivia. -/
structure Mirrors (v w : View) : Prop where
  left : v.Balanced
  right : w.Balanced
  tokens : w.graph.tokens = codeOf .php v.graph.tokens
  lo : w.lo = v.rank v.lo
  hi : w.hi = v.rank v.hi

/-- A code token and where it stands once the trivia is dropped. -/
def Image (v w : View) (p : v.Pos) (q : w.Pos) : Prop := v.isCode p = true ∧ q.val = v.rank p

variable {v w : View} {p p' : v.Pos} {q q' : w.Pos} {a b i : Nat} {set : KindSet}

theorem Balanced.isCode_iff_codeAt (hv : v.Balanced) :
    v.isCode p = true ↔ CodeAt .php v.graph.tokens p := by
  rw [isCode_iff, hv.php]

namespace Mirrors

/-! ## Images -/

section

variable (h : Mirrors v w)

include h

theorem codeAt (hp : v.isCode p = true) : CodeAt .php v.graph.tokens p :=
  h.left.isCode_iff_codeAt.mp hp

theorem isCode_right (q : w.Pos) : w.isCode q = true := by
  rw [h.right.isCode_iff_codeAt, h.tokens, codeAt_codeOf, ← h.tokens, length_tokens]
  exact q.isLt

theorem thinned : Thinned v.graph w.graph :=
  ⟨h.left.linked, h.right.linked, h.left.php, h.right.php, h.left.matched, h.right.matched,
    h.tokens⟩

theorem exists_right (hp : v.isCode p = true) : ∃ q, Image v w p q :=
  ⟨⟨v.rank p, h.thinned.rank_lt_size (h.codeAt hp)⟩, hp, rfl⟩

theorem exists_left (q : w.Pos) : ∃ p, Image v w p q := by
  obtain ⟨i, hcode, heq⟩ := h.thinned.exists_index q.isLt
  have hi := hcode.lt
  rw [length_tokens] at hi
  exact ⟨⟨i, hi⟩, h.left.isCode_iff_codeAt.mpr hcode, heq.symm⟩

theorem token (hpq : Image v w p q) : (w.node q).toToken = (v.node p).toToken := by
  refine h.thinned.token (h.codeAt hpq.1) (getElem?_pos p) ?_
  rw [← rank, ← hpq.2]
  exact getElem?_pos q

theorem kind (hpq : Image v w p q) : w.kind q = v.kind p := congrArg Token.kind (h.token hpq)

theorem text (hpq : Image v w p q) : (w.node q).text = (v.node p).text :=
  congrArg Token.text (h.token hpq)

theorem line (hpq : Image v w p q) : (w.node q).line = (v.node p).line :=
  congrArg Token.line (h.token hpq)

theorem rank_succ (hpq : Image v w p q) : v.rank (p + 1) = q + 1 := by
  rw [rank, rank_succ_of_code (h.codeAt hpq.1), hpq.2, rank]

theorem rank_succ_of_trivia (hp : v.isCode p = false) : v.rank (p + 1) = v.rank p := by
  rw [rank, rank_succ_of_not_code, rank]
  intro hcode
  rw [h.left.isCode_iff_codeAt.mpr hcode] at hp
  cases hp

theorem lt_iff (hpq : Image v w p q) : q < v.rank i ↔ p < i := by
  rw [hpq.2]
  exact ⟨lt_of_rank_lt, rank_lt (h.codeAt hpq.1)⟩

theorem le_iff (hpq : Image v w p q) : v.rank i ≤ q ↔ i ≤ p := by
  rw [← Nat.not_lt, ← Nat.not_lt, h.lt_iff hpq]

theorem lt_hi (hpq : Image v w p q) : q < w.hi ↔ p < v.hi := by
  rw [h.hi, h.lt_iff hpq]

theorem lo_le (hpq : Image v w p q) : w.lo ≤ q ↔ v.lo ≤ p := by
  rw [h.lo, h.le_iff hpq]

theorem image_lt (hpq : Image v w p q) (hpq' : Image v w p' q') :
    q.val < q'.val ↔ p.val < p'.val := by
  rw [hpq'.2, h.lt_iff hpq]

theorem pair (hpq : Image v w p q) (hpq' : Image v w p' q') :
    Pair w.graph.roles q q' ↔ Pair v.graph.roles p p' := by
  rw [hpq.2, hpq'.2]
  exact h.thinned.pair (h.codeAt hpq.1) (h.codeAt hpq'.1)

theorem image_of_role (hp : v.graph.roles p ≠ .plain) : ∃ q, Image v w p q :=
  h.exists_right (h.left.isCode_iff_codeAt.mpr (h.thinned.codeAt_of_role hp))

theorem closedBy (hpq : Image v w p q) (hpq' : Image v w p' q') :
    (w.node q).closedBy = some q'.val ↔ (v.node p).closedBy = some p'.val := by
  rw [h.right.linked.closedBy_eq_some (getElem?_pos q),
    h.left.linked.closedBy_eq_some (getElem?_pos p), h.pair hpq hpq']

theorem parent (hpq : Image v w p q) (hpq' : Image v w p' q') :
    (w.node q).parent = some q'.val ↔ (v.node p).parent = some p'.val := by
  rw [h.right.linked.parent_eq_some (getElem?_pos q), h.left.linked.parent_eq_some (getElem?_pos p),
    hpq.2, hpq'.2]
  exact h.thinned.innermost (h.codeAt hpq.1) (h.codeAt hpq'.1)

theorem rel_of_iff {l : Option v.Pos} {r : Option w.Pos}
    (hcode : ∀ p, l = some p → v.isCode p = true)
    (hiff : ∀ p q, Image v w p q → (l = some p ↔ r = some q)) : Option.Rel (Image v w) l r := by
  cases hl : l with
  | some p =>
    obtain ⟨q, hpq⟩ := h.exists_right (hcode p hl)
    rw [(hiff p q hpq).mp hl]
    exact .some hpq
  | none =>
    cases hr : r with
    | none => exact .none
    | some q =>
      obtain ⟨p, hpq⟩ := h.exists_left q
      rw [(hiff p q hpq).mpr hr] at hl
      cases hl

end

/-! ## Searches -/

theorem sibling?_at {v : View} {p : v.Pos} {set : KindSet} (hp : p < v.hi) :
    v.sibling? set p =
      if set.contains (v.kind p) then some p
      else if v.graph.taxonomy.isOpener (v.kind p) then
        match (v.node p).closedBy with
        | some c => if p < c then v.sibling? set (c + 1) else none
        | none => none
      else if v.graph.taxonomy.isCloser (v.kind p) then none
      else v.sibling? set (p + 1) := by
  rewrite [View.sibling?, if_pos hp, show v.pos? p = some p from dif_pos p.isLt]
  rfl

theorem isCode_of_bracket {k : Kind}
    (h : Taxonomy.php.isOpener k = true ∨ Taxonomy.php.isCloser k = true) :
    Taxonomy.php.isCode k = true := by
  rw [Taxonomy.isCode, Bool.not_eq_true']
  cases ht : Taxonomy.php.isTrivia k with
  | false => rfl
  | true =>
    obtain ⟨hopen, hclose⟩ := php_plainTrivia k ht
    simp [hopen, hclose] at h

theorem exists_closer {c : Nat} (h : Mirrors v w) (hpq : Image v w p q)
    (hc : (v.node p).closedBy = some c) :
    ∃ p' q', p'.val = c ∧ Image v w p' q' ∧ (w.node q).closedBy = some q'.val := by
  have hpair := h.left.pair_of_closedBy hc
  have hlt := hpair.closer_lt
  rw [length_tokens] at hlt
  let p' : v.Pos := ⟨c, hlt⟩
  obtain ⟨q', hpq'⟩ := h.image_of_role (p := p') (by simp [p', Graph.roles, hpair.closes])
  exact ⟨p', q', rfl, hpq', (h.closedBy hpq hpq').mpr hc⟩

theorem sibling? (h : Mirrors v w) (hcode : ∀ e, v.sibling? set i = some e → v.isCode e = true) :
    Option.Rel (Image v w) (v.sibling? set i) (w.sibling? set (v.rank i)) := by
  -- by the rules of the search in the first view: trivia is gone over there and does not exist in
  -- the second, brackets are stepped over in both
  have hbracket : ∀ {p : v.Pos}, Taxonomy.php.isOpener (v.kind p) = true ∨
      Taxonomy.php.isCloser (v.kind p) = true → ∃ q, Image v w p q := by
    intro p hp
    refine h.exists_right ?_
    rw [isCode, h.left.php]
    exact isCode_of_bracket hp
  refine h.left.sibling?_rec (motive := fun i found => (∀ e, found = some e → v.isCode e = true) →
    Option.Rel (Image v w) found (w.sibling? set (v.rank i))) ?found ?pair ?closer ?plain ?stop i
      hcode
  case found =>
    intro p hlt hset hcode
    obtain ⟨q, hpq⟩ := h.exists_right (hcode p rfl)
    rw [← hpq.2, sibling?_at ((h.lt_hi hpq).mpr hlt), h.kind hpq, if_pos hset]
    exact .some hpq
  case pair =>
    intro p c r hlt hset hopen hc ih hcode
    obtain ⟨q, hpq⟩ := hbracket (.inl hopen)
    obtain ⟨p', q', rfl, hpq', hc'⟩ := h.exists_closer hpq hc
    rw [← hpq.2, sibling?_at ((h.lt_hi hpq).mpr hlt), h.kind hpq, if_neg hset, h.right.php,
      if_pos hopen, hc']
    dsimp only
    rw [if_pos ((h.image_lt hpq hpq').mpr (h.left.pair_of_closedBy hc).lt), ← h.rank_succ hpq']
    exact ih hcode
  case closer =>
    intro p hlt hset hopen hclose _
    obtain ⟨q, hpq⟩ := hbracket (.inr hclose)
    rw [← hpq.2, sibling?_at ((h.lt_hi hpq).mpr hlt), h.kind hpq, if_neg hset, h.right.php,
      if_neg hopen, if_pos hclose]
    exact .none
  case plain =>
    intro p r hlt hset hopen hclose ih hcode
    by_cases hp : v.isCode p = true
    · obtain ⟨q, hpq⟩ := h.exists_right hp
      rw [← hpq.2, sibling?_at ((h.lt_hi hpq).mpr hlt), h.kind hpq, if_neg hset, h.right.php,
        if_neg hopen, if_neg hclose, ← h.rank_succ hpq]
      exact ih hcode
    · -- the second view has no such token, and its search stays where it is
      rw [← h.rank_succ_of_trivia (by simpa using hp)]
      exact ih hcode
  case stop =>
    intro i hge _
    have hle : v.rank v.hi ≤ v.rank i := rank_mono hge
    rw [View.sibling?, if_neg (by rw [h.hi]; omega)]
    exact .none

/-! ## Neighbours -/

section

variable (h : Mirrors v w)

include h

theorem no_code_iff (hpq : Image v w p q) (hpq' : Image v w p' q') :
    (∀ s : w.Pos, q < s → s < q' → w.isCode s = false) ↔ ∀ r : v.Pos, p < r → r < p' →
      v.isCode r = false := by
  constructor
  · intro hnone r hpr hrp
    rw [Bool.eq_false_iff]
    intro hcode
    obtain ⟨s, hrs⟩ := h.exists_right hcode
    have := hnone s ((h.image_lt hpq hrs).mpr hpr) ((h.image_lt hrs hpq').mpr hrp)
    rw [h.isCode_right] at this
    cases this
  · intro hnone s hqs hsq
    obtain ⟨r, hrs⟩ := h.exists_left s
    have := hnone r ((h.image_lt hpq hrs).mp hqs) ((h.image_lt hrs hpq').mp hsq)
    rw [hrs.1] at this
    cases this

theorem nextCode? (hpq : Image v w p q) :
    Option.Rel (Image v w) (v.nextCode? p) (w.nextCode? q) := by
  refine h.rel_of_iff (fun p' hp' => (h.left.nextCode?_eq_some_iff.mp hp').2.2.1) fun p' q' hpq' =>
    ?_
  rw [h.left.nextCode?_eq_some_iff, h.right.nextCode?_eq_some_iff, h.lt_hi hpq',
    h.no_code_iff hpq hpq', hpq'.1, h.isCode_right]
  exact and_congr_right fun _ => and_congr_left fun _ => (h.image_lt hpq hpq').symm

theorem prevCode? (hpq : Image v w p q) :
    Option.Rel (Image v w) (v.prevCode? p) (w.prevCode? q) := by
  refine h.rel_of_iff (fun p' hp' => (h.left.prevCode?_eq_some_iff.mp hp').2.2.1) fun p' q' hpq' =>
    ?_
  rw [h.left.prevCode?_eq_some_iff, h.right.prevCode?_eq_some_iff, h.lo_le hpq',
    h.no_code_iff hpq' hpq, hpq'.1, h.isCode_right]
  exact and_congr_right fun _ => and_congr_left fun _ => (h.image_lt hpq' hpq).symm

theorem any_kind {l : Option v.Pos} {r : Option w.Pos} (hrel : Option.Rel (Image v w) l r)
    (k : Kind) :
    r.any (w.kind · == k) = l.any (v.kind · == k) := by
  cases hrel with
  | none => rfl
  | some hpq => simp [h.kind hpq]

theorem follows (hpq : Image v w p q) (k : Kind) : w.follows q k = v.follows p k :=
  h.any_kind (h.prevCode? hpq) k

omit h in
theorem nextCodeOrEnd?_eq (hv : v.Balanced)
    (hcode : ∀ e, v.nextCodeOrEnd? p = some e → v.isCode e = true) :
    v.nextCodeOrEnd? p = v.nextCode? p := by
  cases he : v.nextCodeOrEnd? p with
  | some e =>
    obtain ⟨hpe, hhi, _, hbefore⟩ := find?_between he
    refine (hv.nextCode?_eq_some_iff.mpr ⟨hhi, hpe, hcode e he, fun r hpr hre => ?_⟩).symm
    exact (Bool.or_eq_false_iff.mp (hbefore r hpr hre)).1
  | none =>
    cases hn : v.nextCode? p with
    | none => rfl
    | some e =>
      obtain ⟨hhi, hpe, hcode, _⟩ := hv.nextCode?_eq_some_iff.mp hn
      have := List.find?_eq_none.mp he e (mem_between.mpr ⟨hpe, hhi⟩)
      simp [hcode] at this

theorem nextCodeOrEnd? (hpq : Image v w p q)
    (hcode : ∀ e, v.nextCodeOrEnd? p = some e → v.isCode e = true) :
    Option.Rel (Image v w) (v.nextCodeOrEnd? p) (w.nextCodeOrEnd? q) := by
  rw [nextCodeOrEnd?_eq h.left hcode, nextCodeOrEnd?_eq h.right fun e _ => h.isCode_right e]
  exact h.nextCode? hpq

/-! ## Stretches of code -/

theorem codeBetween (hb : b ≤ v.graph.size) :
    List.Forall₂ (Image v w) ((v.between a b).filter v.isCode)
      ((w.between (v.rank a) (v.rank b)).filter w.isCode) := by
  induction hn : b - a generalizing a with
  | zero =>
    have hle : v.rank b ≤ v.rank a := rank_mono (by omega)
    rw [v.between_nil (by omega), w.between_nil hle]
    exact .nil
  | succ n ih =>
    simp only [Graph.size] at hb
    let p : v.Pos := ⟨a, by omega⟩
    have hp : v.between a b = p :: v.between (a + 1) b :=
      between_cons (p := p) (by simp only [p]; omega)
    rw [hp, List.filter_cons]
    by_cases hcode : v.isCode p = true
    · obtain ⟨q, hpq⟩ := h.exists_right hcode
      have hq : w.between (v.rank a) (v.rank b) = q :: w.between (v.rank (a + 1)) (v.rank b) := by
        rw [show v.rank a = q.val from hpq.2.symm, show v.rank (a + 1) = q + 1 from h.rank_succ hpq]
        exact between_cons ((h.lt_iff hpq).mpr (by simp only [p]; omega))
      rw [if_pos hcode, hq, List.filter_cons, if_pos (h.isCode_right q)]
      exact .cons hpq (ih (by omega))
    · have hrank : v.rank (a + 1) = v.rank a := h.rank_succ_of_trivia (p := p)
        (by simpa using hcode)
      rw [if_neg hcode, ← hrank]
      exact ih (by omega)

theorem hasCode (a b : Nat) : w.hasCode (v.rank a) (v.rank b) = v.hasCode a b := by
  rw [Bool.eq_iff_iff, View.hasCode, View.hasCode, List.any_eq_true, List.any_eq_true]
  constructor
  · rintro ⟨q, hq, _⟩
    obtain ⟨p, hpq⟩ := h.exists_left q
    rw [mem_between, h.le_iff hpq, h.lt_iff hpq] at hq
    exact ⟨p, mem_between.mpr hq, hpq.1⟩
  · rintro ⟨p, hp, hcode⟩
    obtain ⟨q, hpq⟩ := h.exists_right hcode
    rw [mem_between, ← h.le_iff hpq, ← h.lt_iff hpq] at hp
    exact ⟨q, mem_between.mpr hp, h.isCode_right q⟩

/-! ## Import keywords -/

theorem headed (hpq : Image v w p q) : w.Headed q ↔ v.Headed p := by
  have hrun : ∀ {k l}, Image v w k l → (w.graph.HeaderRun l q ↔ v.graph.HeaderRun k p) := by
    intro k l hkl
    rw [headerRun_iff, headerRun_iff, h.left.php, h.right.php]
    constructor
    · intro hall r hkr hrp hcode
      obtain ⟨s, hrs⟩ := h.exists_right hcode
      rw [← h.kind hrs]
      refine hall s ?_ ((h.image_lt hrs hpq).mpr hrp) (h.isCode_right s)
      rw [hkl.2, h.le_iff hrs]
      exact hkr
    · intro hall s hls hsq _
      obtain ⟨r, hrs⟩ := h.exists_left s
      rw [h.kind hrs]
      refine hall r ?_ ((h.image_lt hrs hpq).mp hsq) hrs.1
      rw [hkl.2, h.le_iff hrs] at hls
      exact hls
  constructor
  · rintro ⟨l, hlq, hl, hr⟩
    obtain ⟨k, hkl⟩ := h.exists_left l
    exact ⟨k, (h.image_lt hkl hpq).mp hlq, by rw [← h.kind hkl]; exact hl, (hrun hkl).mp hr⟩
  · rintro ⟨k, hkp, hk, hr⟩
    obtain ⟨l, hkl⟩ := h.exists_right (p := k) (by rw [isCode, h.left.php, hk]; rfl)
    exact ⟨l, (h.image_lt hkl hpq).mpr hkp, by rw [h.kind hkl]; exact hk, (hrun hkl).mpr hr⟩

theorem startsImport (hs : v.scope.isNamespaceLevel = true) (hs' : w.scope.isNamespaceLevel = true)
    (hpq : Image v w p q) : w.startsImport q = v.startsImport p := by
  rw [Bool.eq_iff_iff, h.left.startsImport_iff hs, h.right.startsImport_iff hs', h.kind hpq,
    ← h.left.follows_closeParen, ← h.right.follows_closeParen, h.follows hpq]
  refine and_congr_right fun _ => and_congr_right fun _ => ?_
  constructor
  · intro hall o ho
    have hinner := (h.left.linked.parent_eq_some (getElem?_pos p)).mp ho
    obtain ⟨o', hoo⟩ := h.image_of_role (p := o) (by simp [Graph.roles, hinner.openAt.opens])
    exact (h.headed hoo).mp (hall o' ((h.parent hpq hoo).mpr ho))
  · intro hall o' ho'
    obtain ⟨o, hoo⟩ := h.exists_left o'
    exact (h.headed hoo).mpr (hall o ((h.parent hpq hoo).mp ho'))

end

end Mirrors

end View

end PhpOutline
