import PhpOutline.Proofs.ClauseTransfer
import PhpOutline.Proofs.UseStatements

/-!
# The imports of a view within another

A span of a view, or the inside of one of its brackets, shows some of its tokens (`Within`). Both
views see the same use keywords and read the same clauses there. If moreover no statement that runs
over the end of the inner view is well formed in the outer one (`Region`), reading the outer view
from the start of the inner one gives what the inner one imports, and goes on behind it.
-/

namespace PhpOutline

open PhpOutline.Graph

namespace View

/-! ## A view within another -/

/-- The first view shows what stands in the second from an index on. -/
structure Within (w v : View) (d : Nat) : Prop where
  left : w.Balanced
  right : v.Balanced
  hi : d + w.hi ≤ v.hi
  token : ∀ (p : w.Pos) (q : v.Pos), q.val = d + p.val → (w.node p).toToken = (v.node q).toToken
  closedBy : ∀ (p : w.Pos) (q : v.Pos) (i : Nat), q.val = d + p.val → i < w.hi →
    ((w.node p).closedBy = some i ↔ (v.node q).closedBy = some (d + i))

variable {v w : View} {d : Nat}

def Shifted (w v : View) (d : Nat) (p : w.Pos) (q : v.Pos) : Prop := q.val = d + p.val ∧ p < w.hi

namespace Within

variable {p : w.Pos} {q : v.Pos}

theorem kind (h : Within w v d) (hpq : q.val = d + p.val) : w.kind p = v.kind q :=
  congrArg Token.kind (h.token p q hpq)

theorem isCode (h : Within w v d) (hpq : q.val = d + p.val) : w.isCode p = v.isCode q := by
  rw [View.isCode, View.isCode, h.kind hpq, h.left.php, h.right.php]

theorem endsStatement (h : Within w v d) (hpq : q.val = d + p.val) :
    w.endsStatement p = v.endsStatement q := by
  rw [View.endsStatement, View.endsStatement, h.kind hpq, h.left.php, h.right.php]

theorem pos_lt (h : Within w v d) (hp : p < w.hi) : d + p.val < v.graph.nodes.size := by
  have := h.hi
  have := h.right.hi_le
  simp only [Graph.size] at this
  omega

theorem exists_left (h : Within w v d) (hlo : d ≤ q) (hhi : q < d + w.hi) :
    ∃ p : w.Pos, q.val = d + p.val ∧ p < w.hi := by
  have := h.left.hi_le
  simp only [Graph.size] at this
  exact ⟨⟨q.val - d, by omega⟩, by simp only; omega, by simp only; omega⟩

theorem alike (h : Within w v d) : Alike w v (Shifted w v d) where
  taxonomy := by rw [h.left.php, h.right.php]
  kind hpq := h.kind hpq.1
  text hpq := congrArg Token.text (h.token _ _ hpq.1)
  closer {p q p' q'} hpq hpq' := by rw [h.closedBy p q p' hpq.1 hpq'.2, hpq'.1]
  closed {p q} hpq := by
    have := h.hi
    rw [h.left.closedBy_eq_none_iff hpq.2,
      h.right.closedBy_eq_none_iff (by rw [hpq.1]; have := hpq.2; omega), h.kind hpq.1]
  touching {p q p' q'} hpq hpq' _ _ := by rw [hpq.1, hpq'.1]; omega

theorem between (h : Within w v d) {a b : Nat} (hb : b ≤ w.hi) :
    List.Forall₂ (Shifted w v d) (w.between a b) (v.between (d + a) (d + b)) := by
  induction hn : b - a generalizing a with
  | zero => rw [w.between_nil (by omega), v.between_nil (by omega)]; exact .nil
  | succ n ih =>
    have hsize := h.left.hi_le
    simp only [Graph.size] at hsize
    let p : w.Pos := ⟨a, by omega⟩
    let q : v.Pos := ⟨d + a, h.pos_lt (p := p) (by simp only [p]; omega)⟩
    have hp : w.between a b = p :: w.between (a + 1) b :=
      between_cons (p := p) (by simp only [p]; omega)
    have hq : v.between (d + a) (d + b) = q :: v.between (d + a + 1) (d + b) :=
      between_cons (p := q) (by simp only [q]; omega)
    rw [hp, hq]
    exact .cons ⟨rfl, by simp only [p]; omega⟩ (ih (by omega))

theorem readClause (h : Within w v d) {stop : Nat} (hpq : q.val = d + p.val) (hstop : stop ≤ w.hi) :
    w.readClause (w.clause p stop) = v.readClause (v.clause q (d + stop)) := by
  apply h.alike.readClause
  rw [View.clause, View.clause, hpq, Nat.add_assoc]
  exact List.rel_filter (fun _ _ hpq => Bool.eq_iff_iff.mp (h.isCode hpq.1)) (h.between hstop)

theorem find?_end (h : Within w v d) {stop : w.Pos} {stop' : v.Pos} (hpq : q.val = d + p.val)
    (hs : stop'.val = d + stop.val)
    (hend : (w.between (p + 1) w.hi).find? w.endsStatement = some stop) :
    (v.between (q + 1) v.hi).find? v.endsStatement = some stop' := by
  obtain ⟨hlt, hhi, hstop, hbefore⟩ := find?_between hend
  have := h.hi
  refine find?_between_eq (by omega) (by omega) ((h.endsStatement hs).symm.trans hstop) ?_
  intro r hqr hrs
  obtain ⟨r', hr, _⟩ := h.exists_left (q := r) (by omega)
    (by have : r.val < stop'.val := hrs; omega)
  rw [← h.endsStatement hr]
  exact hbefore r' (by omega) (by have : r.val < stop'.val := hrs; show r'.val < stop.val; omega)

theorem importsAt (h : Within w v d) {stop : w.Pos} (hpq : q.val = d + p.val)
    (hend : (w.between (p + 1) w.hi).find? w.endsStatement = some stop) :
    v.importsAt q = (w.importsAt p).map fun (imports, stop) => (imports, d + stop) := by
  obtain ⟨_, hhi, _⟩ := find?_between hend
  let stop' : v.Pos := ⟨d + stop, h.pos_lt hhi⟩
  have hend' := h.find?_end hpq (show stop'.val = d + stop.val from rfl) hend
  rw [importsAt_of_end hend, importsAt_of_end hend', h.readClause hpq (Nat.le_of_lt hhi),
    congrArg Token.line (h.token p q hpq)]
  cases v.readClause (v.clause q (d + stop)) <;> rfl

end Within

/-! ## Reading on from one view to the next -/

/-- A view within another in which the same use keywords import, and the statements that do not end
in it are not well formed in the other. -/
structure Region (w v : View) (d : Nat) : Prop extends Within w v d where
  starts : ∀ (p : w.Pos) (q : v.Pos), q.val = d + p.val → w.lo ≤ p → p < w.hi →
    w.startsImport p = v.startsImport q
  runs_over : ∀ (p : w.Pos) (q : v.Pos), q.val = d + p.val → w.lo ≤ p → p < w.hi →
    (w.between (p + 1) w.hi).find? w.endsStatement = none → ∃ e, v.importsAt q = .error e

/-- A listing agrees with views if it fails exactly if one of them cannot list its imports, and
lists what they import otherwise. -/
def Agrees (l : Listing Import) (parts : List View) : Prop :=
  (l.error = none ↔ ∀ w ∈ parts, w.imports.error = none) ∧
    (l.error = none → l.items = parts.flatMap (·.imports.items))

namespace Region

variable {p : w.Pos} {q : v.Pos}

theorem importsAt_ok {imports : List Import} {stop : Nat} (h : Region w v d)
    (hpq : q.val = d + p.val) (hat : w.importsAt p = .ok (imports, stop)) :
    stop < w.hi ∧ v.importsAt q = .ok (imports, d + stop) := by
  cases hend : (w.between (p + 1) w.hi).find? w.endsStatement with
  | none => rw [importsAt_of_no_end hend] at hat; cases hat
  | some s =>
    obtain ⟨_, rfl, _, hhi, _⟩ := clause_of_importsAt hat
    rw [h.importsAt hpq hend, hat]
    exact ⟨hhi, rfl⟩

theorem importsAt_error {e : Error} (h : Region w v d) (hpq : q.val = d + p.val) (hlo : w.lo ≤ p)
    (hhi : p < w.hi) (hat : w.importsAt p = .error e) : ∃ e', v.importsAt q = .error e' := by
  cases hend : (w.between (p + 1) w.hi).find? w.endsStatement with
  | none => exact h.runs_over p q hpq hlo hhi hend
  | some s =>
    rw [h.importsAt hpq hend, hat]
    exact ⟨e, rfl⟩

theorem importsFrom {i : Nat} (h : Region w v d) (hlo : w.lo ≤ i) (hi : i ≤ w.hi) :
    ((w.importsFrom i).error = none →
      v.importsFrom (d + i) = (v.importsFrom (d + w.hi)).after (w.importsFrom i).items) ∧
    ((w.importsFrom i).error ≠ none → (v.importsFrom (d + i)).error ≠ none) := by
  have hsize := h.left.hi_le
  have hhi := h.hi
  simp only [Graph.size] at hsize
  fun_induction View.importsFrom w i with
  | case1 i hlt hnone => rw [pos?, dif_pos (by omega)] at hnone; cases hnone
  | case2 i hlt p hp hstarts e he =>
    obtain rfl := val_of_pos? hp
    let q : v.Pos := ⟨d + p, h.pos_lt hlt⟩
    obtain ⟨e', he'⟩ := h.importsAt_error (q := q) rfl hlo hlt he
    rw [h.starts p q rfl hlo hlt] at hstarts
    refine ⟨(fun h => by cases h), fun _ => ?_⟩
    rw [show d + p.val = q.val from rfl, importsFrom_at (by simp only [q]; omega), if_pos hstarts,
      he']
    exact Option.some_ne_none e'
  | case3 i hlt p hp hstarts imports stop hat ih =>
    obtain rfl := val_of_pos? hp
    let q : v.Pos := ⟨d + p, h.pos_lt hlt⟩
    obtain ⟨hstop, hat'⟩ := h.importsAt_ok (q := q) rfl hat
    rw [h.starts p q rfl hlo hlt] at hstarts
    have hstep : v.importsFrom (d + p) = (v.importsFrom (d + (max stop p + 1))).after imports := by
      rw [show d + p.val = q.val from rfl, importsFrom_at (by simp only [q]; omega), if_pos hstarts,
        hat']
      dsimp only
      rw [show max (d + stop) q.val + 1 = d + (max stop p + 1) by simp only [q]; omega]
    obtain ⟨hok, herror⟩ := ih (by omega) (by omega)
    rw [hstep]
    refine ⟨fun hnone => ?_, fun hsome => herror hsome⟩
    rw [hok hnone]
    simp [Listing.after]
  | case4 i hlt p hp hstarts ih =>
    obtain rfl := val_of_pos? hp
    let q : v.Pos := ⟨d + p, h.pos_lt hlt⟩
    rw [h.starts p q rfl hlo hlt] at hstarts
    have hstep : v.importsFrom (d + p) = v.importsFrom (d + (p + 1)) := by
      rw [show d + p.val = q.val from rfl, importsFrom_at (by simp only [q]; omega), if_neg hstarts]
      rfl
    rw [hstep]
    exact ih (by omega) (by omega)
  | case5 i hge =>
    refine ⟨fun _ => ?_, fun h => absurd rfl h⟩
    rw [show i = w.hi by omega]
    simp [Listing.after]

theorem agrees {parts : List View} (h : Region w v d)
    (hrest : Agrees (v.importsFrom (d + w.hi)) parts) :
    Agrees (v.importsFrom (d + w.lo)) (w :: parts) := by
  obtain ⟨hok, herror⟩ := h.importsFrom (Nat.le_refl _) h.left.lo.le_hi
  by_cases hnone : w.imports.error = none
  · rw [hok hnone]
    constructor
    · simpa [Listing.after, hnone] using hrest.1
    · intro hl
      show w.imports.items ++ _ = _
      rw [hrest.2 hl, List.flatMap_cons]
  · have hfail := herror hnone
    constructor
    · constructor
      · intro hl
        exact absurd hl hfail
      · intro hall
        exact absurd (hall w (by simp)) hnone
    · intro hl
      exact absurd hl hfail

end Region

/-! ## Spans -/

section

variable {lo hi : Nat} {scope : Scope}

theorem node_span {p : (v.span lo hi scope).Pos} {q : v.Pos} (h : q.val = p.val) :
    (v.span lo hi scope).node p = v.node q := by
  cases q
  cases h
  rfl

theorem within_span (hv : v.Balanced) (hlo : v.Ground lo) (hhi : v.Ground hi) (hle : lo ≤ hi) :
    Within (v.span lo hi scope) v 0 where
  left := (Part.span scope hlo hhi hle).balanced hv
  right := hv
  hi := by rw [Nat.zero_add]; exact hhi.le_hi
  token p q hpq := by rw [node_span (q := q) (by omega)]
  closedBy p q i hpq _ := by rw [node_span (q := q) (by omega), Nat.zero_add]

/-- A span sees the same code before a use keyword as the view, up to what stands before the
span. -/
theorem startsImport_span {p : (v.span lo hi scope).Pos} {q : v.Pos} (hv : v.Balanced)
    (hw : (v.span lo hi scope).Balanced) (hlo : v.lo ≤ lo) (hpq : q.val = p.val) (hp : lo ≤ p)
    (hs : scope.isNamespaceLevel = v.scope.isNamespaceLevel)
    (hparen : ∀ q : v.Pos, v.lo ≤ q → q < lo → v.kind q = .closeParen →
      ∃ r : v.Pos, q < r ∧ r < lo ∧ v.isCode r = true) :
    (v.span lo hi scope).startsImport p = v.startsImport q := by
  have hfollows : (v.span lo hi scope).follows p .closeParen = v.follows q .closeParen := by
    rw [Bool.eq_iff_iff, hw.follows_closeParen, hv.follows_closeParen]
    obtain rfl : q = p := Fin.ext hpq
    constructor
    · rintro ⟨r, hr, hrest⟩
      exact ⟨r, Nat.le_trans hlo hr, hrest⟩
    · rintro ⟨r, hr, hrq, hkind, hbetween⟩
      rcases Nat.lt_or_ge r lo with hlt | hge
      · obtain ⟨s, hrs, hs, hcode⟩ := hparen r hr hlt hkind
        rw [hbetween s hrs (Nat.lt_of_lt_of_le hs hp)] at hcode
        cases hcode
      · exact ⟨r, hge, hrq, hkind, hbetween⟩
  rw [startsImport, startsImport, hfollows, View.kind, View.kind, node_span hpq]
  cases (v.node q).parent with
  | none => exact congrArg (_ && ·) hs
  | some o => rfl

end

/-! ## Blocks -/

theorem Within.headerRun {i j : Nat} (h : Within w v d) (hi : i ≤ w.hi) :
    w.graph.HeaderRun j i ↔ v.graph.HeaderRun (d + j) (d + i) := by
  rw [headerRun_iff, headerRun_iff]
  constructor
  · intro hrun q hj hq hcode
    obtain ⟨p, hpq, _⟩ := h.exists_left (q := q) (by omega) (by omega)
    rw [← h.isCode hpq] at hcode
    rw [← h.kind hpq, h.right.php, ← h.left.php]
    exact hrun p (by omega) (by omega) hcode
  · intro hrun p hj hp hcode
    let q : v.Pos := ⟨d + p, h.pos_lt (Nat.lt_of_lt_of_le hp hi)⟩
    rw [h.isCode (q := q) rfl] at hcode
    rw [h.kind (q := q) rfl, h.left.php, ← h.right.php]
    exact hrun q (by simp only [q]; omega) (by simp only [q]; omega) hcode

section

variable {o : v.Pos} {c : Nat}

structure Inside (w v : View) (o : v.Pos) (c : Nat) : Prop where
  closedBy : (v.node o).closedBy = some c
  graph : w.graph = v.graph.cut o c
  lo : w.lo = 0
  hi : w.hi = w.graph.size

namespace Inside

theorem hi_eq (h : Inside w v o c) (hv : v.Balanced) : o + 1 + w.hi = c := by
  have hpair := hv.pair_of_closedBy h.closedBy
  have hlt := hpair.lt
  have hc := hpair.closer_lt
  rw [length_tokens] at hc
  rw [h.hi, h.graph, size_cut (Nat.le_of_lt hc)]
  omega

theorem node (h : Inside w v o c) {p : w.Pos} {q : v.Pos} (hpq : q.val = o + 1 + p.val) :
    w.node p = relinkNode o c (v.node q) := by
  have hn : (v.graph.cut o c).nodes[p.val]? = some (w.node p) := by
    rw [← h.graph]; exact getElem?_pos p
  obtain ⟨_, m, hm, hnode⟩ := getElem?_cut hn
  rw [← hpq, getElem?_pos q] at hm
  cases hm
  exact hnode

theorem within (h : Inside w v o c) (hv : v.Balanced) (hw : w.Balanced) (hc : c < v.hi) :
    Within w v (o + 1) where
  left := hw
  right := hv
  hi := by rw [h.hi_eq hv]; omega
  token p q hpq := by rw [h.node hpq]; rfl
  closedBy p q i hpq hi := by
    have hlt := h.hi_eq hv
    rw [h.node hpq, show (relinkNode o c (v.node q)).closedBy = relink o c
      (v.node q).closedBy from rfl, relink_eq_some, and_iff_left (by omega)]

theorem opener_code (h : Inside w v o c) (hv : v.Balanced) :
    v.isCode o = true ∧ v.kind o ≠ .closeParen ∧
    v.graph.taxonomy.declarationParts.contains (v.kind o) = false := by
  have hopener := (hv.linked.roles_opens_iff hv.matched (getElem?_pos o)).mp
    (hv.pair_of_closedBy h.closedBy).openAt.opens
  rw [hv.php] at hopener
  obtain ⟨hcode, hpart⟩ := not_part_of_opener hopener
  rw [isCode, hv.php]
  refine ⟨hcode, ?_, hpart⟩
  intro hk
  rw [show (v.node o).kind = _ from hk] at hopener
  cases hopener

theorem afterParen (h : Inside w v o c) (hd : Within w v (o + 1)) (ho : v.lo ≤ o) {p : w.Pos}
    {q : v.Pos} (hpq : q.val = o + 1 + p.val) (hp : p < w.hi) :
    w.AfterParen p ↔ v.AfterParen q := by
  obtain ⟨hcode, hkind, _⟩ := h.opener_code hd.right
  constructor
  · rintro ⟨r, _, hrp, hr, hbetween⟩
    have hrp : r.val < p.val := hrp
    let s : v.Pos := ⟨o + 1 + r, hd.pos_lt (by omega)⟩
    refine ⟨s, by simp only [s]; omega, by show s.val < q.val; simp only [s]; omega, ?_, ?_⟩
    · rw [← hd.kind (p := r) rfl]
      exact hr
    · intro t hst htq
      have hst : o + 1 + r.val < t.val := hst
      have htq : t.val < q.val := htq
      obtain ⟨u, htu, _⟩ := hd.exists_left (q := t) (by omega) (by omega)
      rw [← hd.isCode htu]
      exact hbetween u (by show r.val < u.val; omega) (by show u.val < p.val; omega)
  · rintro ⟨s, _, hsq, hs, hbetween⟩
    have hsq : s.val < q.val := hsq
    have hos : o.val < s.val := by
      rcases Nat.lt_trichotomy o s with hlt | heq | hgt
      · exact hlt
      · rw [Fin.ext heq] at hkind
        exact absurd hs hkind
      · rw [hbetween o hgt (by show o.val < q.val; omega)] at hcode
        cases hcode
    obtain ⟨r, hrs, _⟩ := hd.exists_left (q := s) (by omega) (by omega)
    refine ⟨r, by rw [h.lo]; exact Nat.zero_le _, by show r.val < p.val; omega, ?_, ?_⟩
    · rw [hd.kind hrs]
      exact hs
    · intro u hru hup
      have hru : r.val < u.val := hru
      have hup : u.val < p.val := hup
      let t : v.Pos := ⟨o + 1 + u, hd.pos_lt (by omega)⟩
      rw [hd.isCode (q := t) rfl]
      exact hbetween t (by show s.val < t.val; simp only [t]; omega)
        (by show t.val < q.val; simp only [t]; omega)

theorem headed (h : Inside w v o c) (hd : Within w v (o + 1)) {p : w.Pos} {q : v.Pos}
    (hpq : q.val = o + 1 + p.val) (hp : p < w.hi) : w.Headed p ↔ v.Headed q := by
  obtain ⟨hcode, _, hpart⟩ := h.opener_code hd.right
  constructor
  · rintro ⟨k, hkp, hk, hrun⟩
    have hkp : k.val < p.val := hkp
    let l : v.Pos := ⟨o + 1 + k, hd.pos_lt (by omega)⟩
    refine ⟨l, by show l.val < q.val; simp only [l]; omega, ?_, ?_⟩
    · rw [← hd.kind (p := k) rfl]
      exact hk
    · rw [hpq]
      exact (hd.headerRun (Nat.le_of_lt hp)).mp hrun
  · rintro ⟨l, hlq, hl, hrun⟩
    have hlq : l.val < q.val := hlq
    have hol : o.val < l.val := by
      rcases Nat.lt_or_ge o l with hlt | hge
      · exact hlt
      · rw [headerRun_iff.mp hrun o hge (by omega) hcode] at hpart
        cases hpart
    obtain ⟨k, hkl, _⟩ := hd.exists_left (q := l) (by omega) (by omega)
    refine ⟨k, by show k.val < p.val; omega, by rw [hd.kind hkl]; exact hl, ?_⟩
    rw [hd.headerRun (Nat.le_of_lt hp), ← hkl, ← hpq]
    exact hrun

theorem startsImport (h : Inside w v o c) (hd : Within w v (o + 1)) (ho : v.lo ≤ o)
    (hs : v.scope.isNamespaceLevel = true) (hs' : w.scope.isNamespaceLevel = true)
    (hhead : v.Headed o) {p : w.Pos} {q : v.Pos} (hpq : q.val = o + 1 + p.val) (hp : p < w.hi) :
    w.startsImport p = v.startsImport q := by
  have hpair := hd.right.pair_of_closedBy h.closedBy
  have hc := h.hi_eq hd.right
  have hparent : ∀ i, (w.node p).parent = some i ↔ (v.node q).parent = some (o + 1 + i) := by
    intro i
    rw [h.node hpq, show (relinkNode o c (v.node q)).parent = relink o c (v.node q).parent from rfl,
      relink_eq_some, and_iff_left_iff_imp]
    intro hi
    have := ((hd.right.linked.parent_eq_some (getElem?_pos q)).mp hi).lt
    omega
  rw [Bool.eq_iff_iff, hd.left.startsImport_iff hs', hd.right.startsImport_iff hs, hd.kind hpq,
    h.afterParen hd ho hpq hp]
  refine and_congr_right fun _ => and_congr_right fun _ => ?_
  constructor
  · intro hall j hj
    have hinner := (hd.right.linked.parent_eq_some (getElem?_pos q)).mp hj
    have hoj : o.val ≤ j.val :=
      hinner.greatest o (by omega) (hpair.openAt.of_le (by omega) (by omega))
    rcases Nat.eq_or_lt_of_le hoj with heq | hlt
    · rw [← Fin.ext heq]
      exact hhead
    · have hjq := hinner.lt
      obtain ⟨i, hij, hi⟩ := hd.exists_left (q := j) (by omega) (by omega)
      exact (h.headed hd hij hi).mp (hall i ((hparent i).mpr (by rw [← hij]; exact hj)))
  · intro hall i hi
    have hj := (hparent i).mp hi
    have hlt := ((hd.left.linked.parent_eq_some (getElem?_pos p)).mp hi).lt
    let j : v.Pos := ⟨o + 1 + i, hd.pos_lt (by omega)⟩
    exact (h.headed hd (q := j) rfl (by omega)).mpr (hall j hj)

end Inside

end

end View

end PhpOutline
