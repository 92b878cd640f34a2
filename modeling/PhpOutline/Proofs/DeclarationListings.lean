import PhpOutline.Proofs.CodeTrail
import PhpOutline.Proofs.ImportsWithin
import PhpOutline.Proofs.TopLevel

/-!
# Types and functions are listed without loss

The listed types and functions stand one behind the other, each with its keyword, its name and the
brace or the end of the statement that ends its head (`Declaration`). Every other keyword at the
top of the view is passed over for a reason that can be told from the tokens next to it, or it
stands in the head of a declaration that is listed.
-/

namespace PhpOutline

open PhpOutline.Graph

namespace View

/-- A declaration: its keyword, its name, the token that ends its head, and what is listed for
it. -/
structure Declaration (v : View) where
  keyword : v.Pos
  name : v.Pos
  stop : v.Pos
  item : Item

variable {v : View} {p q : v.Pos}

/-- The head of a declaration ends at the first brace or the first end of a statement behind its
name. What is listed is the inside of the brace, or nothing at the end of the statement. -/
structure Declaration.Placed (d : v.Declaration) : Prop where
  keyword_top : v.AtTop d.keyword
  keyword_lt : d.keyword < d.name
  name_lt : d.name < d.stop
  stop_first : v.FirstTop v.bodyOrEnd (d.name + 1) d.stop
  name_eq : d.item.name = (v.node d.name).text
  body : v.kind d.stop = .openBrace → ∃ c, Inside d.item.view v d.stop c
  bodiless : v.kind d.stop ≠ .openBrace →
    d.item.view.graph = v.graph ∧ d.item.view.lo = d.stop ∧ d.item.view.hi = d.stop

/-- Declarations that list items in order and without loss. -/
structure ListsAll (v : View) (keywords : KindSet) (skips : v.Pos → Prop)
    (heads : v.Declaration → Prop) (items : List Item) (ds : List v.Declaration) : Prop where
  items_eq : items = ds.map (·.item)
  placed : ∀ d ∈ ds, d.Placed ∧ heads d ∧ keywords.contains (v.kind d.keyword) = true ∧
    ¬ skips d.keyword
  ordered : ds.Pairwise fun d e => d.stop < e.keyword ∧ ∀ c, (v.node d.stop).closedBy = some c →
    c < e.keyword
  complete : ∀ p : v.Pos, v.AtTop p → keywords.contains (v.kind p) = true →
    skips p ∨ (∃ d ∈ ds, d.keyword = p) ∨ ∃ d ∈ ds, d.name < p ∧ p < d.stop

section

variable (v)

/-- The code before a keyword is `new`, with modifiers of a class between them or not. -/
inductive AfterNew : v.Pos → Prop
  | new {p q : v.Pos} (h : v.Adjacent q p) (hk : v.kind q = .newKw) : AfterNew p
  | modifier {p q : v.Pos} (h : v.Adjacent q p) (hk : classModifiers.contains (v.kind q) = true)
      (hq : AfterNew q) : AfterNew p

def TypeInExpression (p : v.Pos) : Prop :=
  (∃ q, v.Adjacent q p ∧ v.kind q = .doubleColon) ∨ v.AfterNew p

def TypeHead (d : v.Declaration) : Prop :=
  v.Adjacent d.keyword d.name ∧ v.kind d.name = .string ∧ v.kind d.stop = .openBrace

def AnchoredHead (d : v.Declaration) : Prop :=
  v.TypeHead d ∧ d.item.view.anchor = some (v.mark d.stop)

/-- A name behind a function keyword, or behind an ampersand there. -/
def NamesFunction (p n : v.Pos) : Prop :=
  v.kind n = .string ∧
    (v.Adjacent p n ∨ ∃ a, v.Adjacent p a ∧ v.kind a = .ampersand ∧ v.Adjacent a n)

def NoFunction (p : v.Pos) : Prop := v.AfterUse p ∨ ∀ n, ¬ v.NamesFunction p n

def FunctionHead (d : v.Declaration) : Prop := v.NamesFunction d.keyword d.name

end

/-! ## What stands before a keyword -/

namespace Balanced

theorem codeBefore_of_adjacent (hv : v.Balanced) (h : v.Adjacent q p) :
    v.codeBefore (v.node p) = v.node q :: v.codeBefore (v.node q) := by
  have hlt : q.val < p.val := h.lt
  have hlo := h.lo_le
  have hrest : v.graph.codeBetween (q + 1) p = [] := by
    apply codeBetween_eq_nil
    intro j m hqj hjp hm
    obtain ⟨hj, rfl⟩ := Array.getElem?_eq_some_iff.mp hm
    exact h.between ⟨j, hj⟩ hqj hjp
  have hcode : v.graph.taxonomy.isCode (v.node q).kind = true := h.left
  rw [hv.codeBefore_eq (by omega), hv.codeBefore_eq hlo,
    codeBetween_append (b := q + 1) (by omega) (by omega) (Nat.le_of_lt p.isLt), hrest,
    List.append_nil, codeBetween_succ (getElem?_pos q) hlo, if_pos hcode]
  simp

theorem codeBefore_of_no_adjacent (hv : v.Balanced) (hlo : v.lo ≤ p) (hhi : p < v.hi)
    (hcode : v.isCode p = true) (h : ∀ q, ¬ v.Adjacent q p) : v.codeBefore (v.node p) = [] := by
  rw [hv.codeBefore_eq hlo, List.reverse_eq_nil_iff, List.eq_nil_iff_forall_not_mem]
  intro n hn
  -- the last code token before the position would be next to it
  have hcodes : ∃ r : v.Pos, v.lo ≤ r ∧ r < p ∧ v.isCode r = true := by
    obtain ⟨i, hi, hip, hn, hc⟩ := mem_codeBetween.mp hn
    obtain ⟨hlt, rfl⟩ := Array.getElem?_eq_some_iff.mp hn
    exact ⟨⟨i, hlt⟩, hi, hip, hc⟩
  obtain ⟨r, hr, hrp, hc⟩ := hcodes
  have hmem : r ∈ (v.between v.lo p).filter v.isCode :=
    List.mem_filter.mpr ⟨mem_between.mpr ⟨hr, hrp⟩, hc⟩
  cases hlast : ((v.between v.lo p).filter v.isCode).getLast? with
  | none => simp [List.getLast?_eq_none_iff.mp hlast] at hmem
  | some q =>
    obtain ⟨hq, hqp, hqc, hafter⟩ := getLast?_filter_between hlast
    exact h q ⟨⟨hqp, hqc, hcode, hafter⟩, hq, hhi⟩

theorem afterNew_iff (hv : v.Balanced) (hlo : v.lo ≤ p) (hhi : p < v.hi)
    (hcode : v.isCode p = true) :
    ((v.codeBefore (v.node p)).dropWhile (classModifiers.contains ·.kind)).head?.any
      (·.kind == .newKw) = true ↔ v.AfterNew p := by
  -- by induction on the position: a modifier hands the question on to the code before it
  induction hn : p.val using Nat.strong_induction_on generalizing p with
  | _ n ih =>
    by_cases hadj : ∃ q, v.Adjacent q p
    · obtain ⟨q, hq⟩ := hadj
      have hlt : q.val < p.val := hq.lt
      rw [hv.codeBefore_of_adjacent hq]
      by_cases hmod : classModifiers.contains (v.node q).kind = true
      · have ih := ih q.val (by omega) hq.lo_le (Nat.lt_trans hlt hhi) hq.left rfl
        rw [List.dropWhile_cons, if_pos hmod, ih]
        constructor
        · exact .modifier hq hmod
        · intro h
          cases h with
          | new h hk =>
            have hk : (v.node q).kind = .newKw := by rw [hq.left_unique h.toPrecedes]; exact hk
            simp [hk, classModifiers] at hmod
          | modifier h _ hq' => rwa [hq.left_unique h.toPrecedes]
      · rw [List.dropWhile_cons, if_neg hmod]
        simp only [List.head?_cons, Option.any_some, beq_iff_eq]
        constructor
        · exact .new hq
        · intro h
          cases h with
          | new h hk => rwa [← hq.left_unique h.toPrecedes] at hk
          | modifier h hk _ => exact absurd (by rwa [hq.left_unique h.toPrecedes]) hmod
    · push Not at hadj
      rw [hv.codeBefore_of_no_adjacent hlo hhi hcode hadj]
      simp only [List.dropWhile_nil, List.head?_nil, Option.any_none, Bool.false_eq_true, false_iff]
      intro h
      cases h with
      | new h | modifier h => exact hadj _ h

theorem inExpression_iff (hv : v.Balanced) (hlo : v.lo ≤ p) (hhi : p < v.hi)
    (hcode : v.isCode p = true) :
    v.inExpression p = true ↔ v.TypeInExpression p := by
  rw [inExpression, Bool.or_eq_true, hv.afterNew_iff hlo hhi hcode]
  refine or_congr_left ?_
  by_cases hadj : ∃ q, v.Adjacent q p
  · obtain ⟨q, hq⟩ := hadj
    rw [hv.codeBefore_of_adjacent hq]
    simp only [List.head?_cons, Option.any_some, beq_iff_eq]
    constructor
    · intro hk
      exact ⟨q, hq, hk⟩
    · rintro ⟨r, hr, hk⟩
      rwa [hq.left_unique hr.toPrecedes]
  · push Not at hadj
    rw [hv.codeBefore_of_no_adjacent hlo hhi hcode hadj]
    simp [hadj]

theorem functionName?_iff {n : v.Pos} (hv : v.Balanced) (hlo : v.lo ≤ p)
    (hcode : v.isCode p = true) :
    v.functionName? p = some n ↔ v.NamesFunction p n := by
  have hnext : ∀ {q}, v.nextCode? p = some q ↔ v.Adjacent p q := hv.nextCode?_iff_adjacent hlo hcode
  constructor
  · intro h
    obtain ⟨hstring, h | ⟨a, ha, hamp, hn⟩⟩ := functionName?_eq_some h
    · exact ⟨hstring, .inl (hnext.mp h)⟩
    · have ha := hnext.mp ha
      have hlo' : v.lo ≤ a.val := Nat.le_trans hlo (Nat.le_of_lt ha.lt)
      exact ⟨hstring, .inr ⟨a, ha, hamp, (hv.nextCode?_iff_adjacent hlo' ha.right).mp hn⟩⟩
  · rintro ⟨hstring, h | ⟨a, ha, hamp, hn⟩⟩
    · simp [functionName?, hnext.mpr h, hstring, Option.filter]
    · have hn := (hv.nextCode?_iff_adjacent hn.lo_le ha.right).mpr hn
      simp [functionName?, hnext.mpr ha, hamp, hn, hstring, Option.filter]

end Balanced

/-! ## One declaration -/

def Declaration.next (d : v.Declaration) : Nat := (v.node d.stop).closedBy.getD d.stop + 1

def Begins (keywords : KindSet) : Prop :=
  ∀ k, keywords.contains k = true → isPlain k = true ∧ Taxonomy.php.isCode k = true ∧
    Taxonomy.php.terminators.contains k = false

theorem begins_typeKeywords : Begins typeKeywords := by
  intro k h
  cases k <;> first | exact ⟨rfl, rfl, rfl⟩ | cases h

theorem begins_functionKw : Begins (.ofList [.functionKw]) := by
  intro k h
  cases k <;> first | exact ⟨rfl, rfl, rfl⟩ | cases h

theorem isCloser_of_isPlain {k : Kind} (h : isPlain k = true) :
    Taxonomy.php.isCloser k = false := by
  simp_all [isPlain]

namespace Balanced

variable {set : KindSet} {copy next : Nat} {item : Item}

theorem bodyOrEnd_contains (hv : v.Balanced) (k : Kind) :
    v.bodyOrEnd.contains k = true ↔ k = .openBrace ∨
      Taxonomy.php.terminators.contains k = true := by
  rw [bodyOrEnd, hv.php, KindSet.contains_insert, Bool.or_eq_true, beq_iff_eq, or_comm, eq_comm]

theorem isCloser_bodyOrEnd (hv : v.Balanced) (k : Kind) (h : v.bodyOrEnd.contains k = true) :
    Taxonomy.php.isCloser k = false := by
  rcases (hv.bodyOrEnd_contains k).mp h with rfl | h
  · rfl
  · exact isCloser_of_isPlain (isPlain_of_terminator h)

theorem ground_of_atTop (hv : v.Balanced) (hp : v.AtTop p) (hk : isPlain (v.kind p) = true) :
    v.Ground p ∧ v.Ground (p + 1) := by
  have hground := (hv.ground_iff_parent hp.lo_le hp.lt_hi (isCloser_of_isPlain hk)).mpr hp.parent
  exact ⟨hground, hground.succ hp.lt_hi (hv.roles_plain hk)⟩

theorem closedBy_of_plain (hv : v.Balanced) (hp : p < v.hi) (hk : isPlain (v.kind p) = true) :
    (v.node p).closedBy = none := by
  rw [hv.closedBy_eq_none_iff hp]
  simp_all [isPlain]

theorem closedBy_of_end (hv : v.Balanced) (hp : p < v.hi)
    (hset : v.bodyOrEnd.contains (v.kind p) = true) (hk : v.kind p ≠ .openBrace) :
    (v.node p).closedBy = none := by
  rcases (hv.bodyOrEnd_contains _).mp hset with h | h
  · exact absurd h hk
  · exact hv.closedBy_of_plain hp (isPlain_of_terminator h)

theorem typeAt_placed (hv : v.Balanced) (hp : v.Found typeKeywords p)
    (h : v.typeAt copy p = .ok (item, next)) :
    ∃ d : v.Declaration, d.keyword = p ∧ d.item = item ∧ d.Placed ∧ v.AnchoredHead d ∧
      next = d.next := by
  obtain ⟨hplain, hcode, _⟩ := begins_typeKeywords _ hp.mem
  have htop := (hv.found_iff fun k hk => isCloser_of_isPlain (begins_typeKeywords k hk).1).mp hp
  obtain ⟨n, o, scope, hn, hstring, ho, hbrace, _, hname, hblock, c, hc, rfl⟩ := typeAt_ok h
  obtain ⟨hground, hlt, hhi⟩ := hv.nextCode?_ground hp.ground hplain hn
  have hbehind := hground.succ hhi (hv.roles_plain (by rw [hstring]; rfl))
  have hfirst := (hv.sibling?_eq_some_iff hbehind hv.isCloser_bodyOrEnd).mp ho
  obtain ⟨c', hc', hgraph, hlo, hhi', _, hanchor, _⟩ := block_ok hblock
  have hadj := (hv.nextCode?_iff_adjacent hp.ground.lo_le (by rw [isCode, hv.php]; exact hcode)).mp
    hn
  refine ⟨⟨p, n, o, item⟩, rfl, rfl, ⟨htop.1, hlt, hfirst.le, hfirst, hname, fun _ => ?_,
    fun hk => ?_⟩, ⟨⟨hadj, hstring, hbrace⟩, hanchor⟩, ?_⟩
  · exact ⟨c', hc', hgraph, hlo, hhi'⟩
  · exact absurd hbrace hk
  · simp [Declaration.next, closer_ok hc]

theorem functionAt_placed {n : v.Pos} (hv : v.Balanced) (hp : v.Found (.ofList [.functionKw]) p)
    (hn : v.functionName? p = some n) (h : v.functionAt copy p n = .ok (item, next)) :
    ∃ d : v.Declaration, d.keyword = p ∧ d.item = item ∧ d.Placed ∧ v.FunctionHead d ∧
      next = d.next := by
  obtain ⟨hplain, hcode, _⟩ := begins_functionKw _ hp.mem
  have htop := (hv.found_iff fun k hk => isCloser_of_isPlain (begins_functionKw k hk).1).mp hp
  obtain ⟨hbehind, hlt⟩ := hv.functionName?_ground hp.ground (kind_of_singleton hp.mem) hn
  obtain ⟨stop, scope, hstop, _, hname, hform⟩ := functionAt_ok h
  have hfirst := (hv.sibling?_eq_some_iff hbehind hv.isCloser_bodyOrEnd).mp hstop
  have hnames := (hv.functionName?_iff hp.ground.lo_le (by rw [isCode, hv.php]; exact hcode)).mp hn
  refine ⟨⟨p, n, stop, item⟩, rfl, rfl, ⟨htop.1, hlt, hfirst.le, hfirst, hname, fun hk => ?_,
    fun hk => ?_⟩, hnames, ?_⟩
  · rcases hform with ⟨_, hblock, _⟩ | ⟨hne, _⟩
    · obtain ⟨c, hc, hgraph, hlo, hhi, _⟩ := block_ok hblock
      exact ⟨c, hc, hgraph, hlo, hhi⟩
    · exact absurd hk hne
  · rcases hform with ⟨hbrace, _⟩ | ⟨_, hview, _⟩
    · exact absurd hbrace hk
    · rw [hview]
      exact ⟨rfl, rfl, rfl⟩
  · rcases hform with ⟨_, _, c, hc, rfl⟩ | ⟨hne, _, rfl⟩
    · simp [Declaration.next, closer_ok hc]
    · simp [Declaration.next, hv.closedBy_of_end hfirst.top.lt_hi hfirst.mem hne]

/-! ## All declarations -/

theorem stop_lt_next {d : v.Declaration} (hv : v.Balanced) :
    d.stop < d.next ∧ ∀ c, (v.node d.stop).closedBy = some c → c < d.next := by
  unfold Declaration.next
  cases hc : (v.node d.stop).closedBy with
  | none => simp
  | some c =>
    have := (hv.pair_of_closedBy hc).lt
    simp only [Option.getD_some, Option.some.injEq, forall_eq']
    omega

theorem in_head {d : v.Declaration} (hv : v.Balanced) (hd : d.Placed) (hset : Begins set)
    (hnames : ∀ q : v.Pos, d.keyword < q → q ≤ d.name → set.contains (v.kind q) = false)
    (hq : v.Found set q) (hlt : d.keyword < q) (hnext : q < d.next) : d.name < q ∧ q < d.stop := by
  obtain ⟨_, _, hend⟩ := hset _ hq.mem
  have hstop := (hv.found_iff hv.isCloser_bodyOrEnd).mpr ⟨hd.stop_first.top, hd.stop_first.mem⟩
  constructor
  · by_contra hle
    have := hnames q hlt (not_lt.mp hle)
    simp [hq.mem] at this
  · rcases Nat.lt_trichotomy q d.stop with h | h | h
    · exact h
    · have hmem := hd.stop_first.mem
      rw [← Fin.ext h, hv.bodyOrEnd_contains] at hmem
      have hplain := (hset _ hq.mem).1
      rcases hmem with hmem | hmem
      · rw [hmem] at hplain
        cases hplain
      · simp [hend] at hmem
    · cases hc : (v.node d.stop).closedBy with
      | none =>
        simp only [Declaration.next, hc, Option.getD_none] at hnext
        omega
      | some c =>
        simp only [Declaration.next, hc, Option.getD_some] at hnext
        exact absurd hq.ground (hv.not_ground_inside hc h (by omega))

theorem exists_listsAll {skips : v.Pos → Prop} {heads : v.Declaration → Prop}
    {read : v.Pos → Reading Item} (hv : v.Balanced) (hset : Begins set)
    (hheads : ∀ d, heads d → ∀ q : v.Pos, d.keyword < q → q ≤ d.name →
      set.contains (v.kind q) = false)
    (hground : ∀ p : v.Pos, v.Found set p → ∀ n, (read p).next = .ok n → p < n ∧ v.Ground n)
    (hread : ∀ p : v.Pos, v.Found set p → ∀ n, (read p).next = .ok n →
      (skips p ∧ n = p + 1 ∧ (read p).items = []) ∨
        ∃ d : v.Declaration, d.keyword = p ∧ (read p).items = [d.item] ∧ d.Placed ∧ heads d ∧
        ¬ skips p ∧ n = d.next)
    (hok : (v.scan set read v.lo).error = none) :
    ∃ ds, v.ListsAll set skips heads (v.scan set read v.lo).items ds := by
  have hclose : ∀ k, set.contains k = true → Taxonomy.php.isCloser k = false := fun k hk =>
    isCloser_of_isPlain (hset k hk).1
  obtain ⟨runs, hitems, hruns, hsorted, hcover⟩ := hv.scan_runs (f := Declaration.item)
    (P := fun p n es => (skips p ∧ n = p + 1 ∧ es = []) ∨
      ∃ d, es = [d] ∧ d.keyword = p ∧ d.Placed ∧ heads d ∧ ¬ skips p ∧ n = d.next)
    (fun p hp n hn => by
      obtain ⟨hlt, hgn⟩ := hground p hp n hn
      refine ⟨hlt, hgn, ?_⟩
      rcases hread p hp n hn with ⟨hskip, hn, hnil⟩ | ⟨d, hk, hone, hd⟩
      · exact ⟨[], hnil, .inl ⟨hskip, hn, rfl⟩⟩
      · exact ⟨[d], hone, .inr ⟨d, rfl, hk, hd⟩⟩) hv.lo hok
  -- a run that holds a declaration starts at its keyword and ends behind it
  have hentry : ∀ r ∈ runs, ∀ d ∈ r.entries,
      d.keyword = r.start ∧ r.stop = d.next ∧ d.Placed ∧ heads d ∧ ¬ skips r.start := by
    intro r hr d hd
    rcases (hruns r hr).2.2.2 with ⟨_, _, hnil⟩ | ⟨e, hone, hk, hplaced, hhead, hskip, hstop⟩
    · simp [hnil] at hd
    · rw [hone, List.mem_singleton] at hd
      subst hd
      exact ⟨hk, hstop, hplaced, hhead, hskip⟩
  refine ⟨runs.flatMap (·.entries), hitems, fun d hd => ?_, ?_, fun p hp hmem => ?_⟩
  · obtain ⟨r, hr, hd⟩ := List.mem_flatMap.mp hd
    obtain ⟨hk, _, hplaced, hhead, hskip⟩ := hentry r hr d hd
    rw [← hk] at hskip
    exact ⟨hplaced, hhead, by rw [hk]; exact (hruns r hr).2.1.mem, hskip⟩
  · rw [List.pairwise_flatMap]
    refine ⟨fun r hr => ?_, hsorted.imp_of_mem fun hr hs hle d hd e he => ?_⟩
    · rcases (hruns r hr).2.2.2 with ⟨_, _, hnil⟩ | ⟨d, hone, _⟩
      · simp [hnil]
      · simp [hone]
    · obtain ⟨_, hstop, _⟩ := hentry _ hr d hd
      obtain ⟨hk, _⟩ := hentry _ hs e he
      obtain ⟨hlt, hclosed⟩ := hv.stop_lt_next (d := d)
      have hle : d.next ≤ e.keyword := by rw [← hstop, hk]; exact hle
      exact ⟨Nat.lt_of_lt_of_le hlt hle, fun c hc => Nat.lt_of_lt_of_le (hclosed c hc) hle⟩
  · -- the run over a keyword starts there and skips it, or it is the declaration around it
    have hfound := (hv.found_iff hclose).mpr ⟨hp, hmem⟩
    obtain ⟨r, hr, hstart, hstop⟩ := hcover p hfound hp.lo_le
    rcases (hruns r hr).2.2.2 with ⟨hskip, hn, _⟩ | ⟨d, hone, hk, hplaced, hhead, _, hn⟩
    · have hp : p = r.start := Fin.ext (by have : r.start.val ≤ p.val := hstart; omega)
      rw [hp]
      exact .inl hskip
    · have hd : d ∈ runs.flatMap (·.entries) := List.mem_flatMap.mpr ⟨r, hr, by simp [hone]⟩
      rcases Nat.eq_or_lt_of_le hstart with heq | hlt
      · exact .inr (.inl ⟨d, hd, by rw [hk]; exact Fin.ext heq⟩)
      · rw [← hk] at hlt
        rw [hn] at hstop
        exact .inr (.inr ⟨d, hd, hv.in_head hplaced hset (hheads d hhead) hfound hlt hstop⟩)

theorem not_begins_between {r : v.Pos} (hv : v.Balanced) (hset : Begins set) (h : v.Adjacent p q)
    (hpr : p < r) (hrq : r < q) : set.contains (v.kind r) = false := by
  rw [Bool.eq_false_iff]
  intro hmem
  have htrivia := h.between r hpr hrq
  rw [isCode, hv.php, (hset _ hmem).2.1] at htrivia
  cases htrivia

theorem types_anchored (hv : v.Balanced) (hok : (v.types copy).error = none) :
    ∃ ds, v.ListsAll typeKeywords v.TypeInExpression v.AnchoredHead (v.types copy).items ds := by
  refine hv.exists_listsAll begins_typeKeywords ?_ (fun p hp => (hv.readType_reads hp).next) ?_ hok
  · rintro d ⟨⟨hadj, hstring, _⟩, _⟩ q hlt hle
    rcases Nat.eq_or_lt_of_le hle with heq | hle
    · rw [Fin.ext heq, hstring]
      rfl
    · exact hv.not_begins_between begins_typeKeywords hadj hlt hle
  · intro p hp n hn
    have hcode : v.isCode p = true := by
      rw [isCode, hv.php]
      exact (begins_typeKeywords _ hp.mem).2.1
    have hiff := hv.inExpression_iff hp.ground.lo_le hp.lt hcode
    rw [readType_eq] at hn ⊢
    by_cases hexpr : v.inExpression p = true
    · rw [if_pos hexpr] at hn ⊢
      cases hn
      exact .inl ⟨hiff.mp hexpr, rfl, rfl⟩
    · rw [if_neg hexpr] at hn ⊢
      obtain ⟨item, hat, hitems⟩ := ofItem_ok hn
      obtain ⟨d, hk, hitem, hplaced, hhead, hnext⟩ := hv.typeAt_placed hp hat
      exact .inr ⟨d, hk, by rw [hitems, hitem], hplaced, hhead, mt hiff.mpr hexpr, hnext⟩

theorem types_listed (hv : v.Balanced) (hok : (v.types copy).error = none) :
    ∃ ds, v.ListsAll typeKeywords v.TypeInExpression v.TypeHead (v.types copy).items ds := by
  obtain ⟨ds, hds⟩ := hv.types_anchored hok
  refine ⟨ds, hds.items_eq, fun d hd => ?_, hds.ordered, hds.complete⟩
  obtain ⟨hplaced, hhead, hrest⟩ := hds.placed d hd
  exact ⟨hplaced, hhead.1, hrest⟩

theorem functions_listed (hv : v.Balanced) (hok : (v.functions copy).error = none) :
    ∃ ds, v.ListsAll (.ofList [.functionKw]) v.NoFunction v.FunctionHead
      (v.functions copy).items ds := by
  refine hv.exists_listsAll begins_functionKw ?_
    (fun p hp => (hv.readFunction_reads hp).next) ?_ hok
  · rintro d ⟨hstring, hname⟩ q hlt hle
    rcases Nat.eq_or_lt_of_le hle with heq | hle
    · rw [Fin.ext heq, hstring]
      rfl
    · rcases hname with hadj | ⟨a, hadj, hamp, hadj'⟩
      · exact hv.not_begins_between begins_functionKw hadj hlt hle
      · rcases Nat.lt_trichotomy q a with h | h | h
        · exact hv.not_begins_between begins_functionKw hadj hlt h
        · rw [Fin.ext h, hamp]
          rfl
        · exact hv.not_begins_between begins_functionKw hadj' h hle
  · intro p hp n hn
    have hcode : v.isCode p = true := by rw [isCode, hv.php]; exact (begins_functionKw _ hp.mem).2.1
    have huse : v.follows p .useKw = true ↔ v.AfterUse p := hv.follows_iff_adjacent hp.lt hcode
    have hname : ∀ {n}, v.functionName? p = some n ↔ v.NamesFunction p n :=
      hv.functionName?_iff hp.ground.lo_le hcode
    rw [readFunction_eq] at hn ⊢
    by_cases hfollows : v.follows p .useKw = true
    · rw [if_pos hfollows] at hn ⊢
      cases hn
      exact .inl ⟨.inl (huse.mp hfollows), rfl, rfl⟩
    · rw [if_neg hfollows] at hn ⊢
      cases hf : v.functionName? p with
      | none =>
        rw [hf] at hn
        cases hn
        refine .inl ⟨.inr fun n hn => ?_, rfl, rfl⟩
        rw [hname.mpr hn] at hf
        cases hf
      | some m =>
        rw [hf] at hn
        obtain ⟨item, hat, hitems⟩ := ofItem_ok hn
        obtain ⟨d, hk, hitem, hplaced, hhead, hnext⟩ := hv.functionAt_placed hp hf hat
        refine .inr ⟨d, hk, by rw [hitem]; exact hitems, hplaced, hhead, ?_, hnext⟩
        rintro (h | h)
        · exact hfollows (huse.mpr h)
        · exact h m (hname.mp hf)

end Balanced

/-- In every view that can be reached, the types and the functions that are listed are declarations
in the order of the view, each behind all of the one before it. A type has a body, a function has
one or just ends. A keyword at the top of the view is left out only if it is part of an expression
(a type), if it imports or no name follows it (a function), or in the head of a listed
declaration. -/
theorem declarations_listed {f : Flags} {g : Graph} {root v : View} (hg : Built .php f g)
    (hroot : ofGraph g = .ok root) (hv : root.Reaches v) (copy : Nat) :
    ((v.types copy).error = none →
      ∃ ds, v.ListsAll typeKeywords v.TypeInExpression v.TypeHead (v.types copy).items ds) ∧
    ((v.functions copy).error = none →
      ∃ ds, v.ListsAll (.ofList [.functionKw]) v.NoFunction v.FunctionHead
        (v.functions copy).items ds) := by
  have hb := hv.balanced (balanced_of_ofGraph hg hroot)
  exact ⟨hb.types_listed, hb.functions_listed⟩

theorem declarations_listed_sample :
    ∃ (g : Graph) (root : View), Built .php {} g ∧ ofGraph g = .ok root ∧ root.Reaches root ∧
      root.types.error = none ∧ root.functions.error = none ∧
      (∃ ds, root.ListsAll typeKeywords root.TypeInExpression root.TypeHead root.types.items ds ∧
        ds.map (·.item.name) = ["A"]) ∧
      ∃ ds, root.ListsAll (.ofList [.functionKw]) root.NoFunction root.FunctionHead
        root.functions.items ds ∧ ds.map (·.item.name) = ["f", "g"] := by
  have h : ((ofSource ("<?php class A \x7b\x7d new class \x7b\x7d; function &f() \x7b\x7d " ++
      "function g(); function() \x7b\x7d;")).toOption.map fun root =>
        (root.types.error.isNone, root.functions.error.isNone, root.types.items.map (·.name),
          root.functions.items.map (·.name))) = some (true, true, ["A"], ["f", "g"]) := by
    decide +kernel
  obtain ⟨root, hsource, h⟩ := Option.map_eq_some_iff.mp h
  simp only [Prod.mk.injEq, Option.isNone_iff_eq_none] at h
  obtain ⟨htypes, hfunctions, htypeNames, hfunctionNames⟩ := h
  obtain ⟨ts, g, _, hlink, hg⟩ := ofSource_ok (ok_of_toOption hsource)
  obtain ⟨hlisted, hlisted'⟩ := declarations_listed (.link hlink) hg .refl 0
  obtain ⟨ds, hds⟩ := hlisted htypes
  obtain ⟨es, hes⟩ := hlisted' hfunctions
  refine ⟨g, root, .link hlink, hg, .refl, htypes, hfunctions, ⟨ds, hds, ?_⟩, es, hes, ?_⟩
  · rw [← htypeNames, hds.items_eq, List.map_map]
    rfl
  · rw [← hfunctionNames, hes.items_eq, List.map_map]
    rfl

end View

end PhpOutline
