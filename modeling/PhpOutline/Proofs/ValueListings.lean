import PhpOutline.Proofs.TopLevel

/-!
# Listings of names with values

Constants and properties are listed with their values. A value goes from the first to the last code
token between an equals sign and the next comma or end of a statement at the top of the view
(`Entry.Valued`). A declaration of constants is cut at the commas at its top, and each piece gives
one constant (`Assignments`). No constant and no property at the top is left out, unless it stands
inside of another one.
-/

namespace PhpOutline

open PhpOutline.Graph

namespace View

/-- A listed name: where it stands, the equals sign behind it, where its value ends, and the
item. -/
structure Entry (v : View) where
  nameAt : v.Pos
  equals : Option v.Pos
  stop : Nat
  item : Item

variable {v : View} {p q c m : v.Pos} {n stop : Nat} {x : v.Entry} {es : List v.Entry}

/-- The range from the first to the last code token between a token and `stop`; it is empty if there
is no code. -/
def Trims (v : View) (q : v.Pos) (stop lo hi : Nat) : Prop :=
  (∃ first last : v.Pos, lo = first ∧ hi = last + 1 ∧ q < first ∧ first ≤ last ∧ last < stop ∧
      v.isCode first = true ∧ v.isCode last = true ∧
      ∀ r : v.Pos, q < r → r < stop → v.isCode r = true → first ≤ r ∧ r ≤ last) ∨
    (lo = stop ∧ hi = stop ∧ ∀ r : v.Pos, q < r → r < stop → v.isCode r = false)

namespace Entry

/-- The view shows the value behind an equals sign: the code up to the next comma or end of a
statement at the top, and so no such token. -/
structure Valued (x : v.Entry) (q : v.Pos) : Prop where
  equals_eq : x.equals = some q
  stop_eq : v.TopOrEnd v.valueEnd (q + 1) x.stop
  view_eq : x.item.view = v.span x.item.view.lo x.item.view.hi x.item.view.scope
  trims : v.Trims q x.stop x.item.view.lo x.item.view.hi
  undivided : ∀ r : x.item.view.Pos, x.item.view.AtTop r →
    x.item.view.valueEnd.contains (x.item.view.kind r) = false

/-- The entry is the constant of the piece between `start` and `stop`. -/
structure Assigns (x : v.Entry) (start q : v.Pos) (stop : Nat) : Prop where
  valued : x.Valued q
  equals : v.FirstTop (.ofList [.equals]) (start + 1) q
  adjacent : v.Adjacent x.nameAt q
  lt : start < x.nameAt
  identifier : Text.isIdentifier (v.node x.nameAt).text = true
  name_eq : x.item.name = (v.node x.nameAt).text
  stop_eq : x.stop = stop

/-- The entry is a property, with its default value if an equals sign follows the variable. -/
structure Defaults (x : v.Entry) : Prop where
  name : ∃ k, (v.node x.nameAt).text.toList = List.replicate k '$' ++ x.item.name.toList
  bare : x.item.name.toList.head? ≠ some '$'
  value : (∃ q, v.Adjacent x.nameAt q ∧ v.kind q = .equals ∧ x.Valued q) ∨
    ((∀ q, v.Adjacent x.nameAt q → v.kind q ≠ .equals) ∧ x.equals = none ∧ x.stop = x.nameAt + 1 ∧
      x.item.view = v.span (x.nameAt + 1) (x.nameAt + 1) x.item.view.scope)

def Covers (x : v.Entry) (p : v.Pos) : Prop := x.item.view.lo ≤ p ∧ p < x.item.view.hi

end Entry

def pieces (v : View) (start : v.Pos) (stop : Nat) : List (v.Pos × Nat) :=
  let commas := v.tops .comma (start + 1) stop
  (start :: commas).zip (commas.map (·.val) ++ [stop])

/-- The constants of a declaration that goes from its keyword to the end of the statement: one for
each piece, in order. -/
structure Assignments (v : View) (start : v.Pos) (stop : Nat) (es : List v.Entry) : Prop where
  stop_eq : v.TopOrEnd v.graph.taxonomy.terminators (start + 1) stop
  entries : List.Forall₂ (fun x piece => ∃ q, Entry.Assigns x piece.1 q piece.2) es
    (v.pieces start stop)

/-! ## Values -/

theorem valueEnd_contains (k : Kind) :
    v.valueEnd.contains k = true ↔ k = .comma ∨ v.graph.taxonomy.terminators.contains k = true := by
  rw [valueEnd, KindSet.contains_insert, Bool.or_eq_true, beq_iff_eq, or_comm, eq_comm]

theorem Balanced.isCloser_valueEnd (hv : v.Balanced) (k : Kind) (h : v.valueEnd.contains k = true) :
    Taxonomy.php.isCloser k = false := by
  have hplain : isPlain k = true := by
    rw [valueEnd_contains, hv.php] at h
    rcases h with rfl | h
    · rfl
    · exact isPlain_of_terminator h
  simp_all [isPlain]

theorem Balanced.isCloser_valueEnd_equals (hv : v.Balanced) (k : Kind)
    (h : (v.valueEnd.insert .equals).contains k = true) : Taxonomy.php.isCloser k = false := by
  rw [KindSet.contains_insert, Bool.or_eq_true, beq_iff_eq] at h
  rcases h with h | rfl
  · exact hv.isCloser_valueEnd k h
  · rfl

theorem trims_valueRange (v : View) (q : v.Pos) (stop : Nat) :
    v.Trims q stop (v.valueRange q stop).1 (v.valueRange q stop).2 := by
  have hmem : ∀ {r : v.Pos}, q < r → r < stop → v.isCode r = true →
      r ∈ (v.between (q + 1) stop).filter v.isCode :=
    fun hqr hrs hcode => List.mem_filter.mpr ⟨mem_between.mpr ⟨hqr, hrs⟩, hcode⟩
  unfold valueRange
  dsimp only
  cases hfirst : ((v.between (q + 1) stop).filter v.isCode).head? with
  | none =>
    rw [List.head?_eq_none_iff] at hfirst
    refine .inr ⟨rfl, rfl, fun r hqr hrs => ?_⟩
    by_contra hcode
    have := hmem hqr hrs (by simpa using hcode)
    simp [hfirst] at this
  | some first =>
    obtain ⟨last, hlast⟩ := Option.isSome_iff_exists.mp
      (List.getLast?_isSome.mpr (List.ne_nil_of_mem (List.mem_of_mem_head? hfirst)))
    rw [hlast]
    rw [List.head?_filter] at hfirst
    obtain ⟨hqf, hfs, hfcode, hbefore⟩ := find?_between hfirst
    obtain ⟨_, hls, hlcode, hafter⟩ := getLast?_filter_between hlast
    have hrange : ∀ r : v.Pos, q < r → r < stop → v.isCode r = true → first ≤ r ∧ r ≤ last := by
      intro r hqr hrs hcode
      constructor
      · by_contra hlt
        have := hbefore r hqr (not_le.mp hlt)
        simp [hcode] at this
      · by_contra hlt
        have := hafter r (not_le.mp hlt) hrs
        simp [hcode] at this
    exact .inl ⟨first, last, rfl, rfl, hqf, (hrange first hqf hfs hfcode).2, hls, hfcode, hlcode,
      hrange⟩

theorem Trims.bounds {lo hi : Nat} {r : v.Pos} (h : v.Trims q stop lo hi) (hlo : lo ≤ r)
    (hhi : r < hi) :
    q < r ∧ r < stop := by
  rcases h with ⟨first, last, rfl, rfl, hq, _, hlast, _⟩ | ⟨rfl, rfl, _⟩
  · have hq : q.val < first.val := hq
    exact ⟨show q.val < r.val by omega, by omega⟩
  · omega

theorem Entry.Valued.covers (hx : x.Valued q) (hqp : q < p) (hp : p < x.stop)
    (hcode : v.isCode p = true) :
    x.Covers p := by
  rcases hx.trims with ⟨first, last, hlo, hhi, _, _, _, _, _, hrange⟩ | ⟨_, _, hnone⟩
  · have hle : first.val ≤ p.val := (hrange p hqp hp hcode).1
    have hge : p.val ≤ last.val := (hrange p hqp hp hcode).2
    exact ⟨by omega, by omega⟩
  · have := hnone p hqp hp
    simp [hcode] at this

theorem valued_span {name : String} {scope : Scope} (hlo : v.lo ≤ q)
    (hstop : v.TopOrEnd v.valueEnd (q + 1) stop) :
    Entry.Valued
      ⟨m, some q, stop, ⟨name, v.span (v.valueRange q stop).1 (v.valueRange q stop).2 scope⟩⟩
        q where
  equals_eq := rfl
  stop_eq := hstop
  view_eq := rfl
  trims := v.trims_valueRange q stop
  undivided r hr := by
    obtain ⟨hqr, hrs⟩ := (v.trims_valueRange q stop).bounds hr.lo_le hr.lt_hi
    have hqr : q.val < r.val := hqr
    have htop : v.AtTop r := ⟨by omega, by have := hstop.le_hi; omega, hr.parent⟩
    refine Bool.eq_false_iff.mpr fun hend => ?_
    have := hstop.first r htop hend hqr
    omega

theorem Entry.Valued.covers_of_lt (hx : x.Valued q) (hadjacent : v.Adjacent x.nameAt q)
    (hequals : v.kind q = .equals) (hlt : x.nameAt < p) (hp : p < x.stop)
    (hcode : v.isCode p = true) (hkind : v.kind p ≠ .equals) : x.Covers p := by
  rcases Nat.lt_trichotomy p q with h | h | h
  · have := hadjacent.between p hlt h
    simp [hcode] at this
  · rw [Fin.ext h] at hkind
    exact absurd hequals hkind
  · exact hx.covers h hp hcode

theorem Entry.Defaults.covers (hx : x.Defaults) (hlt : x.nameAt < p) (hp : p < x.stop)
    (hcode : v.isCode p = true) (hkind : v.kind p ≠ .equals) : x.Covers p := by
  have hlt' : x.nameAt.val < p.val := hlt
  rcases hx.value with ⟨q, hadjacent, hequals, hvalued⟩ | ⟨_, _, hstop, _⟩
  · exact hvalued.covers_of_lt hadjacent hequals hlt hp hcode hkind
  · omega

/-! ## Declarations of constants -/

inductive Assigned (v : View) : v.Pos → Nat → List v.Entry → Prop
  | last {p q : v.Pos} {n : Nat} {x : v.Entry} (hx : x.Assigns p q n)
      (hn : v.TopOrEnd v.valueEnd (p + 1) n)
      (hend : ∀ c : v.Pos, c.val = n → c < v.hi → v.kind c ≠ .comma) : Assigned v p n [x]
  | more {p q c : v.Pos} {n : Nat} {x : v.Entry} {es : List v.Entry} (hx : x.Assigns p q c)
      (hc : v.TopOrEnd v.valueEnd (p + 1) c) (htop : v.AtTop c) (hcomma : v.kind c = .comma)
      (hes : Assigned v c n es) : Assigned v p n (x :: es)

theorem Balanced.constantName?_iff (hv : v.Balanced) (hq : q < v.hi) (hcode : v.isCode q = true) :
    v.constantName? p q = some m ↔ v.Adjacent m q ∧ p < m ∧
      Text.isIdentifier (v.node m).text = true := by
  rw [constantName?, Option.filter_eq_some_iff, hv.prevCode?_iff_adjacent hq hcode,
    Bool.and_eq_true, decide_eq_true_eq]

theorem Balanced.assigns (hv : v.Balanced) (scope : Scope) (hp : v.Ground (p + 1))
    (hequals : v.sibling? (v.valueEnd.insert .equals) (p + 1) = some q) (hkind : v.kind q = .equals)
    (hname : v.constantName? p q = some m) (hstop : v.TopOrEnd v.valueEnd (q + 1) stop) :
    Entry.Assigns ⟨m, some q, stop,
        ⟨(v.node m).text, v.span (v.valueRange q stop).1 (v.valueRange q stop).2 scope⟩⟩ p q stop ∧
      v.TopOrEnd v.valueEnd (p + 1) stop := by
  have hfirst := (hv.sibling?_eq_some_iff hp hv.isCloser_valueEnd_equals).mp hequals
  have hcode : v.isCode q = true := hv.isCode_of_kind hkind rfl
  obtain ⟨hadjacent, hlt, hident⟩ := (hv.constantName?_iff hfirst.top.lt_hi hcode).mp hname
  have hle := hfirst.le
  have hle' := hstop.le
  refine ⟨⟨valued_span hfirst.top.lo_le hstop, ⟨hfirst.le, hfirst.top, by rw [hkind]; rfl, ?_⟩,
    hadjacent, hlt, hident, rfl, rfl⟩, by omega, hstop.le_hi, hstop.top, ?_⟩
  · intro r hr hmem hle
    exact hfirst.first r hr (by rw [KindSet.contains_insert, kind_of_singleton hmem]; simp) hle
  · -- a comma or an end before the equals sign would have been found in its place
    intro r hr hmem hle
    have hqr : q.val ≤ r.val := hfirst.first r hr (by rw [KindSet.contains_insert, hmem]; rfl) hle
    refine hstop.first r hr hmem (Nat.lt_of_le_of_ne hqr fun heq => ?_)
    rw [← Fin.ext heq, valueEnd_contains, hv.php, hkind] at hmem
    rcases hmem with h | h <;> cases h

theorem Balanced.constantAt_assigns {item : Item} {last : Nat} {pending : Option v.Pos}
    (hv : v.Balanced) (hp : v.Ground (p + 1)) (h : v.constantAt p = .ok (item, last, pending)) :
    (∃ x q, x.item = item ∧ Entry.Assigns x p q last) ∧ v.TopOrEnd v.valueEnd (p + 1) last ∧
      (pending = none → ∀ c : v.Pos, c.val = last → c < v.hi → v.kind c ≠ .comma) ∧
      ∀ comma, pending = some comma → v.AtTop comma ∧ v.kind comma = .comma := by
  obtain ⟨q, scope, hhead, hlast, hview, hpending⟩ := constantAt_ok h
  obtain ⟨hequals, hkind, m, hname, htext, _⟩ := constantHead_ok hhead
  have hbehind := hv.ground_behind hp hequals (by rw [hkind]; rfl)
  have hstop : v.TopOrEnd v.valueEnd (q + 1) last := by
    rw [hlast]
    exact hv.topOrEnd_sibling? hbehind hv.isCloser_valueEnd
  obtain ⟨hx, hend⟩ := hv.assigns scope hp hequals hkind hname hstop
  rw [← htext, ← hview] at hx
  refine ⟨⟨_, q, rfl, hx⟩, hend, ?_, ?_⟩
  · rintro rfl c hc hlt hcomma
    cases hs : v.sibling? v.valueEnd (q + 1) with
    | none =>
      rw [hs, Option.map_none, Option.getD_none] at hlast
      omega
    | some stop =>
      rw [hs, Option.map_some, Option.getD_some] at hlast
      rw [hs, Fin.ext (hlast.symm.trans hc.symm), Option.filter_some, hcomma] at hpending
      cases hpending
  · rintro comma rfl
    obtain ⟨hs, hcomma⟩ := Option.filter_eq_some_iff.mp hpending.symm
    exact ⟨((hv.sibling?_eq_some_iff hbehind hv.isCloser_valueEnd).mp hs).top, beq_iff_eq.mp hcomma⟩

theorem Balanced.constantsAt_assigned (hv : v.Balanced) (hp : v.Ground (p + 1))
    (hn : (v.constantsAt p).next = .ok n) :
    ∃ es, (v.constantsAt p).items = es.map Entry.item ∧ v.Assigned p n es := by
  fun_induction constantsAt v p with
  | case1 => cases hn
  | case2 p item last hat =>
    obtain ⟨⟨x, q, rfl, hx⟩, hend, hnone, _⟩ := hv.constantAt_assigns hp hat
    cases hn
    exact ⟨[x], rfl, .last hx hend (hnone rfl)⟩
  | case3 p item last comma hat ih =>
    obtain ⟨⟨x, q, rfl, hx⟩, hend, _, hsome⟩ := hv.constantAt_assigns hp hat
    obtain ⟨htop, hcomma⟩ := hsome comma rfl
    obtain ⟨_, hground⟩ := hv.constantAt_part hp hat
    obtain ⟨_, _, hpending⟩ := constantAt_bounds hat
    rw [← (hpending comma rfl).1] at hx hend
    obtain ⟨es, hitems, hes⟩ := ih (hground.2 comma rfl) hn
    refine ⟨x :: es, ?_, .more hx hend htop hcomma hes⟩
    rw [List.map_cons, ← hitems]

theorem Assigned.shift (h : v.Assigned p n (x :: es)) (hpq : p < q) (hq : q < x.nameAt) :
    v.Assigned q n (x :: es) := by
  have hpq : p.val < q.val := hpq
  have hq' : q.val < x.nameAt.val := hq
  have behind : ∀ {e : v.Pos} {stop : Nat}, x.Assigns p e stop →
      v.TopOrEnd v.valueEnd (p + 1) stop → x.Assigns q e stop ∧
      v.TopOrEnd v.valueEnd (q + 1) stop := by
    intro e stop hx hstop
    have hlt : x.nameAt.val < e.val := hx.adjacent.lt
    have hle := hx.valued.stop_eq.le
    rw [hx.stop_eq] at hle
    exact ⟨{ hx with
        equals := ⟨by omega, hx.equals.top, hx.equals.mem, fun r hr hmem hle =>
          hx.equals.first r hr hmem (by omega)⟩
        lt := hq },
      by omega, hstop.le_hi, hstop.top, fun r hr hmem hle => hstop.first r hr hmem (by omega)⟩
  cases h with
  | last hx hn hend => exact .last (behind hx hn).1 (behind hx hn).2 hend
  | more hx hc htop hcomma hes => exact .more (behind hx hc).1 (behind hx hc).2 htop hcomma hes

namespace Assigned

theorem lt (h : v.Assigned p n es) : p < n := by
  induction h with
  | last _ hn => exact hn.le
  | more _ hc _ _ _ ih =>
    have := hc.le
    omega

theorem bounds (h : v.Assigned p n es) : ∀ x ∈ es, p < x.nameAt ∧ x.stop ≤ n := by
  induction h with
  | last hx => simpa using ⟨hx.lt, Nat.le_of_eq hx.stop_eq⟩
  | @more p q c n x es hx hc htop hcomma hes ih =>
    have hpc := hc.le
    have hcn := hes.lt
    have hstop := hx.stop_eq
    refine List.forall_mem_cons.mpr ⟨⟨hx.lt, by omega⟩, fun y hy => ⟨?_, (ih y hy).2⟩⟩
    have hcy : c.val < y.nameAt.val := (ih y hy).1
    show p.val < y.nameAt.val
    omega

theorem pairwise (h : v.Assigned p n es) : es.Pairwise fun x y => x.stop ≤ y.nameAt := by
  induction h with
  | last => exact List.pairwise_singleton _ _
  | more hx _ _ _ hes ih =>
    refine List.pairwise_cons.mpr ⟨fun y hy => ?_, ih⟩
    rw [hx.stop_eq]
    exact Nat.le_of_lt (hes.bounds y hy).1

theorem exists_assigns (h : v.Assigned p n es) :
    ∀ x ∈ es, ∃ start q stop, x.Assigns start q stop := by
  induction h with
  | last hx => simpa using ⟨_, _, _, hx⟩
  | more hx _ _ _ _ ih => exact List.forall_mem_cons.mpr ⟨⟨_, _, _, hx⟩, ih⟩

theorem comma_ge {r : v.Pos} {i j : Nat} (hj : v.TopOrEnd v.valueEnd i j) (hlo : v.lo ≤ i)
    (hn : n ≤ v.hi) (hr : r ∈ v.tops .comma i n) : j ≤ r := by
  obtain ⟨⟨hir, hrn⟩, hparent, hcomma⟩ := mem_tops.mp hr
  exact hj.first r ⟨by omega, by omega, hparent⟩ ((valueEnd_contains _).mpr (.inl hcomma)) hir

theorem pieces_last (hn : v.TopOrEnd v.valueEnd (p + 1) n) (hlo : v.lo ≤ p) :
    v.pieces p n = [(p, n)] := by
  have hnil : v.tops .comma (p + 1) n = [] := by
    refine List.eq_nil_iff_forall_not_mem.mpr fun r hr => ?_
    have := comma_ge hn (by omega) hn.le_hi hr
    have := (mem_tops.mp hr).1
    omega
  simp [pieces, hnil]

theorem pieces_more (hc : v.TopOrEnd v.valueEnd (p + 1) c) (hlo : v.lo ≤ p) (htop : v.AtTop c)
    (hcomma : v.kind c = .comma) (hcn : c < n) (hn : n ≤ v.hi) :
    v.pieces p n = (p, c.val) :: v.pieces c n := by
  have hcons : v.tops .comma (p + 1) n = c :: v.tops .comma (c + 1) n := by
    refine List.Pairwise.eq_of_mem_iff (r := (· < ·)) tops_pairwise
      (List.pairwise_cons.mpr ⟨fun r hr => (mem_tops.mp hr).1.1, tops_pairwise⟩) fun r => ?_
    rw [List.mem_cons]
    constructor
    · intro hr
      rcases Nat.eq_or_lt_of_le (comma_ge hc (by omega) hn hr) with heq | hlt
      · exact .inl (Fin.ext heq.symm)
      · exact .inr (mem_tops.mpr ⟨⟨hlt, (mem_tops.mp hr).1.2⟩, (mem_tops.mp hr).2⟩)
    · have hpc := hc.le
      rintro (rfl | hr)
      · exact mem_tops.mpr ⟨⟨hpc, hcn⟩, htop.parent, hcomma⟩
      · obtain ⟨⟨hcr, hrn⟩, hr⟩ := mem_tops.mp hr
        exact mem_tops.mpr ⟨⟨by omega, hrn⟩, hr⟩
  simp [pieces, hcons]

theorem assignments (h : v.Assigned p n es) (hv : v.Balanced) (hlo : v.lo ≤ p) :
    v.Assignments p n es := by
  induction h with
  | @last p q n x hx hn hend =>
    refine ⟨⟨hn.le, hn.le_hi, fun hlt => ?_, fun r hr hmem hle => ?_⟩, ?_⟩
    · obtain ⟨c, hc, htop, hmem⟩ := hn.top hlt
      refine ⟨c, hc, htop, ?_⟩
      rcases (valueEnd_contains _).mp hmem with hcomma | hmem
      · exact absurd hcomma (hend c hc htop.lt_hi)
      · exact hmem
    · exact hn.first r hr ((valueEnd_contains _).mpr (.inr hmem)) hle
    · rw [pieces_last hn hlo]
      exact .cons ⟨q, hx⟩ .nil
  | @more p q c n x es hx hc htop hcomma hes ih =>
    obtain ⟨hstop, hentries⟩ := ih htop.lo_le
    have hcn := hes.lt
    have hpc := hc.le
    refine ⟨⟨by omega, hstop.le_hi, hstop.top, fun r hr hmem hle => ?_⟩, ?_⟩
    · have hcr := hc.first r hr ((valueEnd_contains _).mpr (.inr hmem)) hle
      refine hstop.first r hr hmem (Nat.lt_of_le_of_ne hcr fun heq => ?_)
      rw [← Fin.ext heq, hv.php, hcomma] at hmem
      cases hmem
    · rw [pieces_more hc hlo htop hcomma hcn hstop.le_hi]
      exact .cons ⟨q, hx⟩ hentries

theorem place {e : v.Pos} (hx : x.Assigns p e n) (hqn : q < n) (hcode : v.isCode q = true)
    (hequals : v.kind q ≠ .equals) : q < x.nameAt ∨ q = x.nameAt ∨ x.Covers q := by
  rcases Nat.lt_trichotomy q x.nameAt with hlt | heq | hgt
  · exact .inl hlt
  · exact .inr (.inl (Fin.ext heq))
  · exact .inr (.inr (hx.valued.covers_of_lt hx.adjacent (kind_of_singleton hx.equals.mem) hgt
      (by rw [hx.stop_eq]; exact hqn) hcode hequals))

theorem split_of_lt (h : v.Assigned p n es) (hpq : p < q) (hqn : q < n)
    (hcode : v.isCode q = true) (hequals : v.kind q ≠ .equals) (hcomma : v.kind q ≠ .comma) :
    (∃ x ∈ es, q = x.nameAt ∨ x.Covers q) ∨ ∃ before its, es = before ++ its ∧
      v.Assigned q n its := by
  -- by induction on the pieces: a token of the declaration stands before the name of a piece, at
  -- the name, or in the value. In the first case the declaration could as well start there
  induction h with
  | @last p e n x hx hn hend =>
    rcases place hx hqn hcode hequals with hlt | hin
    · exact .inr ⟨[], [x], rfl, (Assigned.last hx hn hend).shift hpq hlt⟩
    · exact .inl ⟨x, by simp, hin⟩
  | @more p e c n x es hx hc htop hkind hes ih =>
    rcases Nat.lt_trichotomy q c with hlt | heq | hgt
    · rcases place hx hlt hcode hequals with hlt | hin
      · exact .inr ⟨[], x :: es, rfl, (Assigned.more hx hc htop hkind hes).shift hpq hlt⟩
      · exact .inl ⟨x, by simp, hin⟩
    · rw [Fin.ext heq] at hcomma
      exact absurd hkind hcomma
    · rcases ih hgt hqn with ⟨y, hy, hin⟩ | ⟨before, its, heq, hits⟩
      · exact .inl ⟨y, List.mem_cons_of_mem _ hy, hin⟩
      · exact .inr ⟨x :: before, its, by rw [heq]; rfl, hits⟩

theorem split (h : v.Assigned p n es) (hpq : p ≤ q) (hqn : q < n) (hcode : v.isCode q = true)
    (hequals : v.kind q ≠ .equals) (hcomma : v.kind q ≠ .comma) :
    (∃ x ∈ es, q = x.nameAt ∨ x.Covers q) ∨ ∃ before its, es = before ++ its ∧
      v.Assigned q n its := by
  rcases lt_or_eq_of_le hpq with hlt | rfl
  · exact h.split_of_lt hlt hqn hcode hequals hcomma
  · exact .inr ⟨[], es, rfl, h⟩

end Assigned

/-! ## The listings -/

/-- The constants of a view, in order. Each stands in a declaration at the top. Each keyword at the
top that imports nothing gives the constants of its declaration, unless it is part of a constant. -/
structure ListsConstants (v : View) (items : List Item) (es : List v.Entry) : Prop where
  items_eq : items = es.map Entry.item
  ordered : es.Pairwise fun x y => x.stop ≤ y.nameAt
  valued : ∀ x ∈ es, ∃ q, x.Valued q
  declared : ∀ x ∈ es, ∃ p stop its,
    v.AtTop p ∧ v.kind p = .constKw ∧ ¬ v.AfterUse p ∧ v.Assignments p stop its ∧ x ∈ its
  complete : ∀ p, v.AtTop p → v.kind p = .constKw → ¬ v.AfterUse p →
    (∃ x ∈ es, p = x.nameAt ∨ x.Covers p) ∨
      ∃ before its after stop, es = before ++ its ++ after ∧ v.Assignments p stop its

/-- The properties of a view, in order: each variable at the top that is not part of a value. -/
structure ListsProperties (v : View) (items : List Item) (es : List v.Entry) : Prop where
  items_eq : items = es.map Entry.item
  ordered : es.Pairwise fun x y => x.stop ≤ y.nameAt
  placed : ∀ x ∈ es, v.AtTop x.nameAt ∧ v.kind x.nameAt = .variableName ∧ x.Defaults
  complete : ∀ p, v.AtTop p → v.kind p = .variableName →
    (∃ x ∈ es, x.nameAt = p) ∨ ∃ x ∈ es, x.nameAt < p ∧ x.Covers p

def ReadsConstants (v : View) (p : v.Pos) (n : Nat) (es : List v.Entry) : Prop :=
  (v.AfterUse p ∧ es = [] ∧ n = p + 1) ∨ (¬ v.AfterUse p ∧ v.Assigned p n es)

namespace Balanced

theorem readConstants_entries (hv : v.Balanced) (hp : v.Found (.ofList [.constKw]) p)
    (hn : (v.readConstants p).next = .ok n) :
    ∃ es, (v.readConstants p).items = es.map Entry.item ∧ v.ReadsConstants p n es := by
  have huse : v.follows p .useKw = true ↔ v.AfterUse p :=
    hv.follows_iff_adjacent hp.lt (hv.isCode_of_kind (kind_of_singleton hp.mem) rfl)
  unfold readConstants at hn ⊢
  by_cases h : v.follows p .useKw = true
  · rw [if_pos h] at hn ⊢
    cases hn
    exact ⟨[], rfl, .inl ⟨huse.mp h, rfl, rfl⟩⟩
  · rw [if_neg h] at hn ⊢
    have hbehind := hp.ground.succ hp.lt (hv.roles_plain (by rw [kind_of_singleton hp.mem]; rfl))
    obtain ⟨es, hes, hassigned⟩ := hv.constantsAt_assigned hbehind hn
    exact ⟨es, hes, .inr ⟨fun h' => h (huse.mpr h'), hassigned⟩⟩

theorem constants_listed (hv : v.Balanced) (hok : v.constants.error = none) :
    ∃ es, v.ListsConstants v.constants.items es := by
  have hfound : ∀ {p : v.Pos}, v.Found (.ofList [.constKw]) p ↔ v.AtTop p ∧ v.kind p = .constKw :=
    hv.found_singleton_iff rfl
  obtain ⟨runs, hitems, hruns, hsorted, hcover⟩ := hv.scan_runs (f := Entry.item)
    (P := v.ReadsConstants) (fun p hp n hn => by
      obtain ⟨hlt, hground⟩ := (hv.readConstants_reads hp).next n hn
      exact ⟨hlt, hground, hv.readConstants_entries hp hn⟩) hv.lo hok
  -- a run that holds an entry is a declaration
  have hentry : ∀ r ∈ runs, ∀ x ∈ r.entries, ¬ v.AfterUse r.start ∧
      v.Assigned r.start r.stop r.entries := by
    intro r hr x hx
    rcases (hruns r hr).2.2.2 with ⟨_, hnil, _⟩ | h
    · simp [hnil] at hx
    · exact h
  refine ⟨runs.flatMap Run.entries, hitems, ?_, fun x hx => ?_, fun x hx => ?_,
    fun p hp hkind huse => ?_⟩
  · rw [List.pairwise_flatMap]
    refine ⟨fun r hr => ?_, hsorted.imp_of_mem fun {r s} hr hs hle x hx y hy => ?_⟩
    · rcases (hruns r hr).2.2.2 with ⟨_, hnil, _⟩ | ⟨_, h⟩
      · simp [hnil]
      · exact h.pairwise
    · have hstop := ((hentry r hr x hx).2.bounds x hx).2
      have hname : s.start.val < y.nameAt.val := ((hentry s hs y hy).2.bounds y hy).1
      omega
  · obtain ⟨r, hr, hx⟩ := List.mem_flatMap.mp hx
    obtain ⟨_, q, _, hassigns⟩ := (hentry r hr x hx).2.exists_assigns x hx
    exact ⟨q, hassigns.valued⟩
  · obtain ⟨r, hr, hx⟩ := List.mem_flatMap.mp hx
    obtain ⟨huse, h⟩ := hentry r hr x hx
    obtain ⟨htop, hkind⟩ := hfound.mp (hruns r hr).2.1
    exact ⟨r.start, r.stop, r.entries, htop, hkind, huse, h.assignments hv htop.lo_le, hx⟩
  · obtain ⟨r, hr, hle, hlt⟩ := hcover p (hfound.mpr ⟨hp, hkind⟩) hp.lo_le
    rcases (hruns r hr).2.2.2 with ⟨huse', _, hstop⟩ | ⟨_, h⟩
    · obtain rfl : r.start = p := Fin.ext (by have : r.start.val ≤ p.val := hle; omega)
      exact absurd huse' huse
    · rcases h.split hle hlt (hv.isCode_of_kind hkind rfl) (by simp [hkind]) (by simp [hkind]) with
        ⟨x, hx, hin⟩ | ⟨before, its, heq, hits⟩
      · exact .inl ⟨x, List.mem_flatMap.mpr ⟨r, hr, hx⟩, hin⟩
      · obtain ⟨l₁, l₂, rfl⟩ := List.append_of_mem hr
        exact .inr ⟨l₁.flatMap Run.entries ++ before, its, l₂.flatMap Run.entries,
          r.stop, by simp [heq], hits.assignments hv hp.lo_le⟩

end Balanced

/-! ## Properties -/

theorem propertyName_spec (text : String) :
    (∃ k, text.toList = List.replicate k '$' ++ (propertyName text).toList) ∧
      (propertyName text).toList.head? ≠ some '$' := by
  rw [propertyName, String.toList_ofList]
  constructor
  · refine ⟨(text.toList.takeWhile (· == '$')).length, ?_⟩
    rw [← List.eq_replicate_of_mem fun c hc => by simpa using List.mem_takeWhile_imp hc]
    exact List.takeWhile_append_dropWhile.symm
  · intro h
    have := List.head?_dropWhile_not (· == '$') text.toList
    simp [h] at this

def ReadsProperty (v : View) (p : v.Pos) (n : Nat) (es : List v.Entry) : Prop :=
  ∃ x, es = [x] ∧ x.nameAt = p ∧ x.stop = n ∧ x.Defaults

namespace Balanced

theorem propertyAt_entry {item : Item} (hv : v.Balanced)
    (hp : v.Found (.ofList [.variableName]) p) (h : v.propertyAt p = .ok (item, n)) :
    ∃ x : v.Entry, x.nameAt = p ∧ x.stop = n ∧ x.item = item ∧ x.Defaults := by
  have hkind : v.kind p = .variableName := kind_of_singleton hp.mem
  have hcode : v.isCode p = true := hv.isCode_of_kind hkind rfl
  obtain ⟨scope, _, hname, hvalue⟩ := propertyAt_ok h
  obtain ⟨hdollars, hbare⟩ := propertyName_spec (v.node p).text
  rw [← hname] at hdollars hbare
  rcases hvalue with ⟨hview, hnone, rfl⟩ | ⟨q, hq, hequals, hn, hview⟩
  · refine ⟨⟨p, none, p + 1, item⟩, rfl, rfl, rfl, hdollars, hbare,
      .inr ⟨fun q hq => ?_, rfl, rfl, by rw [hview]; rfl⟩⟩
    exact hnone q ((hv.nextCode?_iff_adjacent hp.ground.lo_le hcode).mpr hq)
  · have hadjacent := (hv.nextCode?_iff_adjacent hp.ground.lo_le hcode).mp hq
    obtain ⟨hground, _, hlt⟩ := hv.nextCode?_ground hp.ground (by rw [hkind]; rfl) hq
    have hstop := hv.topOrEnd_sibling? (hground.succ hlt (hv.roles_plain (by rw [hequals]; rfl)))
      hv.isCloser_valueEnd
    rw [← hn] at hstop
    obtain ⟨name, view⟩ := item
    obtain rfl : view = _ := hview
    exact ⟨⟨p, some q, n, _⟩, rfl, rfl, rfl, hdollars, hbare,
      .inl ⟨q, hadjacent, hequals, valued_span hground.lo_le hstop⟩⟩

theorem property_entries (hv : v.Balanced) (hp : v.Found (.ofList [.variableName]) p)
    (hn : (Reading.ofItem (v.propertyAt p)).next = .ok n) :
    ∃ es, (Reading.ofItem (v.propertyAt p)).items = es.map Entry.item ∧ v.ReadsProperty p n es := by
  obtain ⟨item, hat, hitems⟩ := ofItem_ok hn
  obtain ⟨x, hname, hstop, hitem, hx⟩ := hv.propertyAt_entry hp hat
  exact ⟨[x], by rw [hitems, List.map_singleton, hitem], x, rfl, hname, hstop, hx⟩

theorem properties_listed {l : Listing Item} (hv : v.Balanced) (hl : v.properties = .ok l)
    (hok : l.error = none) :
    ∃ es, v.ListsProperties l.items es := by
  have hfound : ∀ {p : v.Pos}, v.Found (.ofList [.variableName]) p ↔ v.AtTop p ∧
      v.kind p = .variableName :=
    hv.found_singleton_iff rfl
  unfold properties at hl
  split at hl
  · cases hl
    obtain ⟨runs, hitems, hruns, hsorted, hcover⟩ := hv.scan_runs (f := Entry.item)
      (P := v.ReadsProperty) (fun p hp n hn => by
        obtain ⟨hlt, hground⟩ := (hv.property_reads hp).next n hn
        exact ⟨hlt, hground, hv.property_entries hp hn⟩) hv.lo hok
    refine ⟨runs.flatMap Run.entries, hitems, ?_, fun x hx => ?_, fun p hp hkind => ?_⟩
    · rw [List.pairwise_flatMap]
      refine ⟨fun r hr => ?_, hsorted.imp_of_mem fun {r s} hr hs hle x hx y hy => ?_⟩
      · obtain ⟨_, hone, _⟩ := (hruns r hr).2.2.2
        simp [hone]
      · obtain ⟨_, hone, _, hstop, _⟩ := (hruns r hr).2.2.2
        obtain ⟨_, hone', hname, _, _⟩ := (hruns s hs).2.2.2
        simp only [hone, hone', List.mem_singleton] at hx hy
        rw [hx, hy, hstop, hname]
        exact hle
    · obtain ⟨r, hr, hx⟩ := List.mem_flatMap.mp hx
      obtain ⟨_, hone, hname, _, hdefaults⟩ := (hruns r hr).2.2.2
      rw [hone, List.mem_singleton] at hx
      obtain ⟨htop, hkind⟩ := hfound.mp (hruns r hr).2.1
      rw [hx, hname]
      exact ⟨htop, hkind, hdefaults⟩
    · obtain ⟨r, hr, hle, hlt⟩ := hcover p (hfound.mpr ⟨hp, hkind⟩) hp.lo_le
      obtain ⟨x, hone, hname, hstop, hdefaults⟩ := (hruns r hr).2.2.2
      have hx : x ∈ runs.flatMap Run.entries := List.mem_flatMap.mpr ⟨r, hr, by simp [hone]⟩
      rcases lt_or_eq_of_le hle with hgt | heq
      · rw [← hname] at hgt
        rw [← hstop] at hlt
        exact .inr ⟨x, hx, hgt, hdefaults.covers hgt hlt (hv.isCode_of_kind hkind rfl)
          (by simp [hkind])⟩
      · exact .inl ⟨x, hx, hname.trans heq⟩
  · cases hl

end Balanced

/-- The constants of a view, and the properties of the body of a type, if they can all be read. Each
declaration of constants at the top gives one constant for each of its pieces between commas, unless
its keyword is part of a constant before it. Each variable at the top of a body is a property or
part of the value of one. A value is the code between an equals sign and the next comma or end of a
statement at the top, from the first token to the last. -/
theorem constants_and_properties_listed {f : Flags} {g : Graph} {root v : View}
    (hg : Built .php f g) (hroot : ofGraph g = .ok root) (hv : root.Reaches v) :
    (v.constants.error = none → ∃ es, v.ListsConstants v.constants.items es) ∧
    (∀ l, v.properties = .ok l → l.error = none → ∃ es, v.ListsProperties l.items es) := by
  have hb := hv.balanced (balanced_of_ofGraph hg hroot)
  exact ⟨hb.constants_listed, fun l => hb.properties_listed⟩

theorem constants_and_properties_listed_sample :
    ∃ (g : Graph) (root v : View) (l : Listing Item), Built .php {} g ∧ ofGraph g = .ok root ∧
      root.Reaches v ∧ v.constants.error = none ∧ v.properties = .ok l ∧ l.error = none ∧
      (∃ es, v.ListsConstants v.constants.items es ∧ es.map (·.item.name) = ["X", "Y"]) ∧
      ∃ es, v.ListsProperties l.items es ∧ es.map (·.item.name) = ["a", "b"] := by
  have h : ((ofSource
      "<?php class C \x7b const X = 1, Y = 2; public $a = [3, 4]; public $b; \x7d").toOption.bind
      fun root => root.types.items.head?.bind fun c => c.view.properties.toOption.map fun l =>
        (c.view.constants.error.isNone, l.error.isNone, c.view.constants.items.map (·.name),
          l.items.map (·.name))) =
      some (true, true, ["X", "Y"], ["a", "b"]) := by
    decide +kernel
  simp only [Option.bind_eq_some_iff, Option.map_eq_some_iff, Prod.mk.injEq,
    Option.isNone_iff_eq_none] at h
  obtain ⟨root, hsource, c, hc, l, hl, hconstants, hok, hnames, hnames'⟩ := h
  obtain ⟨ts, g, _, hlink, hg⟩ := ofSource_ok (ok_of_toOption hsource)
  have hreaches : root.Reaches c.view := .step .refl (.types 0 (List.mem_of_mem_head? hc))
  obtain ⟨hlisted, hlisted'⟩ := constants_and_properties_listed (.link hlink) hg hreaches
  obtain ⟨es, hes⟩ := hlisted hconstants
  obtain ⟨es', hes'⟩ := hlisted' l (ok_of_toOption hl) hok
  refine ⟨g, root, c.view, l, .link hlink, hg, hreaches, hconstants, ok_of_toOption hl, hok,
    ⟨es, hes, ?_⟩, es', hes', ?_⟩
  · rw [← hnames, hes.items_eq, List.map_map]
    rfl
  · rw [← hnames', hes'.items_eq, List.map_map]
    rfl

end View

end PhpOutline
