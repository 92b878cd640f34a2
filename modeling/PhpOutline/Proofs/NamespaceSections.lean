import PhpOutline.Proofs.ImportsWithin
import PhpOutline.Proofs.TopLevel

/-!
# Namespaces divide a view

Every namespace keyword at the top of a view starts a section that reaches up to the next one: the
header, what the namespace holds, and, if it stands in braces, the closing brace and a gap behind
it. What stands before the first keyword is a section of the global namespace. Sections follow each
other without a break, so a code token has its place in one of them and in one part of it only.
-/

namespace PhpOutline

open PhpOutline.Graph

namespace View

/-- A section of a view: what is listed for it, the tokens of its header, the range from `lo` up to
and without `hi` that the namespace holds, its closing brace, and where the section ends. -/
structure Section (v : View) where
  item : Item
  header : List v.Pos
  lo : Nat
  hi : Nat
  closer : Option v.Pos
  stop : Nat

inductive Area
  | child | header | closer | gap
deriving DecidableEq

variable {v : View} {k n e p : v.Pos}

namespace Section

variable (s : v.Section)

def Holds (p : v.Pos) : Area → Prop
  | .child => s.lo ≤ p ∧ p < s.hi
  | .header => p ∈ s.header
  | .closer => s.closer = some p
  | .gap => ∃ c, s.closer = some c ∧ c < p ∧ p < s.stop

/-- The section of the global namespace before the first keyword. -/
structure Global : Prop where
  name_eq : s.item.name = ""
  view_eq : s.item.view = v.span s.lo s.hi s.item.view.scope
  header_eq : s.header = []
  lo_eq : s.lo = v.lo
  hi_eq : s.hi = s.stop
  closer_eq : s.closer = none
  stop_eq : v.TopOrEnd namespaceKeyword v.lo s.stop

structure Braced (e c : v.Pos) : Prop where
  brace : v.kind e = .openBrace
  closer_eq : s.closer = some c
  inside : Inside s.item.view v e c
  hi_eq : s.hi = c
  stop_eq : v.TopOrEnd namespaceKeyword (c + 1) s.stop

structure Open (e : v.Pos) : Prop where
  ends : v.endsStatement e = true
  closer_eq : s.closer = none
  view_eq : s.item.view = v.span s.lo s.hi s.item.view.scope
  hi_eq : s.hi = s.stop
  stop_eq : v.TopOrEnd namespaceKeyword s.lo s.stop

/-- The header of a namespace: the keyword, its name, and the brace or the end of the statement. -/
structure Headed (k n e : v.Pos) : Prop where
  adjacent : v.Adjacent k n
  name : v.IsNamespaceName n
  joined : v.Joined n e
  header_eq : s.header = [k, n, e]
  name_eq : s.item.name = (v.node n).text
  lo_eq : s.lo = e + 1
  form : (∃ c, s.Braced e c) ∨ s.Open e

def Declares (k : v.Pos) : Prop := ∃ n e, s.Headed k n e

def start : Nat := (s.header.head?.map (·.val)).getD s.lo

def next : Nat := (s.closer.map (·.val + 1)).getD s.lo

structure Lined : Prop where
  start_le : s.start ≤ s.lo
  lo_le : s.lo ≤ s.hi
  header : ∀ p ∈ s.header, s.start ≤ p ∧ p < s.lo
  header_code : ∀ p : v.Pos, v.isCode p = true → s.start ≤ p → p < s.lo → p ∈ s.header
  closed : ∀ c, s.closer = some c → c.val = s.hi ∧ s.hi < s.stop
  open_end : s.closer = none → s.hi = s.stop

end Section

variable {s : v.Section}

/-! ## One section -/

namespace Section.Lined

theorem hi_le_stop (hs : s.Lined) : s.hi ≤ s.stop := by
  cases h : s.closer with
  | none => exact Nat.le_of_eq (hs.open_end h)
  | some c => exact Nat.le_of_lt (hs.closed c h).2

theorem within {a : Area} (hs : s.Lined) (h : s.Holds p a) : s.start ≤ p ∧ p < s.stop := by
  have hstart := hs.start_le
  have hlo := hs.lo_le
  have hstop := hs.hi_le_stop
  cases a with
  | child => exact ⟨by have := h.1; omega, by have := h.2; omega⟩
  | header => exact ⟨(hs.header p h).1, by have := (hs.header p h).2; omega⟩
  | closer =>
    obtain ⟨hp, hlt⟩ := hs.closed p h
    omega
  | gap =>
    obtain ⟨c, hc, hcp, hlt⟩ := h
    obtain ⟨hc, _⟩ := hs.closed c hc
    have : c.val < p.val := hcp
    omega

theorem area_unique {a b : Area} (hs : s.Lined) (ha : s.Holds p a) (hb : s.Holds p b) : a = b := by
  have hlo := hs.lo_le
  -- where a token stands tells in which part it is
  have place : ∀ {a : Area}, s.Holds p a →
      (a = .header ∧ p.val < s.lo) ∨ (a = .child ∧ s.lo ≤ p.val ∧ p.val < s.hi) ∨
        (a = .closer ∧ p.val = s.hi) ∨ (a = .gap ∧ s.hi < p.val) := by
    intro a h
    cases a with
    | child => exact .inr (.inl ⟨rfl, h⟩)
    | header => exact .inl ⟨rfl, (hs.header p h).2⟩
    | closer => exact .inr (.inr (.inl ⟨rfl, (hs.closed p h).1⟩))
    | gap =>
      obtain ⟨c, hc, hcp, _⟩ := h
      refine .inr (.inr (.inr ⟨rfl, ?_⟩))
      rw [← (hs.closed c hc).1]
      exact hcp
  rcases place ha with ⟨rfl, _⟩ | ⟨rfl, _⟩ | ⟨rfl, _⟩ | ⟨rfl, _⟩ <;>
    rcases place hb with ⟨rfl, _⟩ | ⟨rfl, _⟩ | ⟨rfl, _⟩ | ⟨rfl, _⟩ <;> first | rfl | omega

theorem exists_area (hs : s.Lined) (hcode : v.isCode p = true) (hlo : s.start ≤ p)
    (hhi : p < s.stop) :
    ∃ a, s.Holds p a := by
  by_cases hhead : p < s.lo
  · exact ⟨.header, hs.header_code p hcode hlo hhead⟩
  by_cases hchild : p < s.hi
  · exact ⟨.child, Nat.le_of_not_lt hhead, hchild⟩
  cases hc : s.closer with
  | none =>
    have := hs.open_end hc
    omega
  | some c =>
    have hval := (hs.closed c hc).1
    rcases Nat.lt_or_ge c p with hlt | hge
    · exact ⟨.gap, c, hc, hlt, hhi⟩
    · have : p = c := Fin.ext (by omega)
      exact ⟨.closer, by rw [this]; exact hc⟩

end Section.Lined

theorem Section.Global.lined (hs : s.Global) : s.Lined where
  start_le := by simp [Section.start, hs.header_eq]
  lo_le := by
    rw [hs.lo_eq, hs.hi_eq]
    exact hs.stop_eq.le
  header p hp := by simp [hs.header_eq] at hp
  header_code p _ hlo hhi := by
    simp only [Section.start, hs.header_eq, List.head?_nil, Option.map_none,
      Option.getD_none] at hlo
    omega
  closed c hc := by simp [hs.closer_eq] at hc
  open_end _ := hs.hi_eq

namespace Section.Headed

theorem start_eq (hs : s.Headed k n e) : s.start = k := by simp [Section.start, hs.header_eq]

theorem lined (hs : s.Headed k n e) (hv : v.Balanced) : s.Lined := by
  have hkn : k.val < n.val := hs.adjacent.lt
  have hne := hs.joined.lt
  have hstart := hs.start_eq
  have hlo := hs.lo_eq
  refine ⟨by omega, ?_, fun p hp => ?_, fun p hcode hkp hpe => ?_, fun c hc => ?_, fun hnone => ?_⟩
  · rcases hs.form with ⟨c, hb⟩ | ho
    · have := (hv.pair_of_closedBy hb.inside.closedBy).lt
      have := hb.hi_eq
      omega
    · have := ho.stop_eq.le
      have := ho.hi_eq
      omega
  · rw [hs.header_eq] at hp
    simp only [List.mem_cons, List.not_mem_nil, or_false] at hp
    rcases hp with rfl | rfl | rfl <;> omega
  · -- code between the keyword and the end of the header would part them or the name from the end
    rw [hs.header_eq]
    rcases Nat.lt_trichotomy p n with h | h | h
    · rcases Nat.eq_or_lt_of_le (hstart ▸ hkp) with heq | hlt
      · simp [Fin.ext heq]
      · have := hs.adjacent.between p hlt h
        simp [hcode] at this
    · simp [Fin.ext h]
    · rcases Nat.eq_or_lt_of_le (show p.val ≤ e.val by omega) with heq | hlt
      · simp [Fin.ext heq]
      · have := hs.joined.no_code p h hlt
        simp [hcode] at this
  · rcases hs.form with ⟨c', hb⟩ | ho
    · rw [hb.closer_eq, Option.some.injEq] at hc
      subst hc
      have := hb.stop_eq.le
      have := hb.hi_eq
      omega
    · simp [ho.closer_eq] at hc
  · rcases hs.form with ⟨c, hb⟩ | ho
    · simp [hb.closer_eq] at hnone
    · exact ho.hi_eq

theorem stop_eq (hs : s.Headed k n e) : v.TopOrEnd namespaceKeyword s.next s.stop := by
  rcases hs.form with ⟨c, hb⟩ | ho
  · simpa [Section.next, hb.closer_eq] using hb.stop_eq
  · simpa [Section.next, ho.closer_eq] using ho.stop_eq

theorem next_le {q : v.Pos} (hs : s.Headed k n e) (hv : v.Balanced)
    (hq : v.Found namespaceKeyword q) (hkq : k < q) :
    s.next ≤ q := by
  have hkind : v.kind q = .namespaceKw := kind_of_singleton hq.mem
  have hcode : v.isCode q = true := hv.isCode_of_kind hkind rfl
  have hlo : s.lo ≤ q := by
    by_contra hlt
    have hmem := (hs.lined hv).header_code q hcode (by rw [hs.start_eq]; exact Nat.le_of_lt hkq)
      (by omega)
    simp only [hs.header_eq, List.mem_cons, List.not_mem_nil, or_false] at hmem
    rcases hmem with rfl | rfl | rfl
    · exact Nat.lt_irrefl _ hkq
    · rcases hs.name with h | h <;> rw [hkind] at h <;> cases h
    · rcases hs.form with ⟨c, hb⟩ | ho
      · have := hb.brace
        rw [hkind] at this
        cases this
      · have := ho.ends
        rw [endsStatement, hv.php, hkind] at this
        cases this
  rcases hs.form with ⟨c, hb⟩ | ho
  · have hnext : s.next = c + 1 := by simp [Section.next, hb.closer_eq]
    by_contra hlt
    have heq := hs.lo_eq
    exact hv.not_ground_inside hb.inside.closedBy (show e.val < q.val by omega) (by omega) hq.ground
  · have hnext : s.next = s.lo := by simp [Section.next, ho.closer_eq]
    omega

end Section.Headed

/-! ## The sections of a view -/

def topNamespaces (v : View) : List v.Pos := v.tops .namespaceKw v.lo v.hi

theorem isCloser_namespaceKeyword (i : Kind) (h : namespaceKeyword.contains i = true) :
    Taxonomy.php.isCloser i = false := by
  rw [kind_of_singleton h]
  rfl

theorem Balanced.mem_topNamespaces (hv : v.Balanced) :
    p ∈ v.topNamespaces ↔ v.Found namespaceKeyword p := by
  rw [hv.found_iff isCloser_namespaceKeyword, topNamespaces, mem_tops]
  constructor
  · rintro ⟨⟨hlo, hhi⟩, hparent, hkind⟩
    exact ⟨⟨hlo, hhi, hparent⟩, by rw [hkind]; rfl⟩
  · rintro ⟨h, hmem⟩
    exact ⟨⟨h.lo_le, h.lt_hi⟩, h.parent, kind_of_singleton hmem⟩

theorem Balanced.namespaceAt_declares {copy next : Nat} {item : Item} (hv : v.Balanced)
    (hp : v.Found namespaceKeyword p) (h : v.namespaceAt copy p = .ok (item, next)) :
    ∃ s : v.Section, s.item = item ∧ s.Declares p ∧ next = s.next := by
  obtain ⟨n, scope, e, hname, _, he, hitem, hform⟩ := namespaceAt_ok h
  obtain ⟨hnext, hkind⟩ := namespaceName?_eq_some hname
  have hcode : v.isCode p = true := hv.isCode_of_kind (kind_of_singleton hp.mem) rfl
  have hadjacent := (hv.nextCode?_iff_adjacent hp.ground.lo_le hcode).mp hnext
  obtain ⟨hne, _, _, hbefore⟩ := find?_between he
  have hjoined : v.Joined n e := ⟨hne, fun q hnq hqe =>
    (Bool.or_eq_false_iff.mp (hbefore q hnq hqe)).1,
    fun q hnq hqe => (Bool.or_eq_false_iff.mp (hbefore q hnq hqe)).2⟩
  obtain ⟨_, _, hground⟩ := hv.namespaceAt_part hp.ground (kind_of_singleton hp.mem) h
  have hstop := hv.topOrEnd_sibling? hground isCloser_namespaceKeyword
  rcases hform with ⟨hbrace, hblock, c, hclose, rfl⟩ | ⟨_, hend, hview, rfl⟩
  · obtain ⟨c', hclosed, hgraph, hlo, hhi, _⟩ := block_ok hblock
    obtain rfl : c = c' := Option.some.inj ((closer_ok hclose).symm.trans hclosed)
    have hc : c < v.graph.nodes.size := by
      have := hground.le_hi
      have := hv.hi_le
      simp only [Graph.size] at this
      omega
    exact ⟨⟨item, [p, n, e], e + 1, c, some ⟨c, hc⟩, _⟩, rfl,
      ⟨n, e, hadjacent, hkind, hjoined, rfl, hitem, rfl,
        .inl ⟨⟨c, hc⟩, hbrace, rfl, ⟨hclosed, hgraph, hlo, hhi⟩, rfl, hstop⟩⟩, rfl⟩
  · exact ⟨⟨item, [p, n, e], e + 1, _, none, _⟩, rfl,
      ⟨n, e, hadjacent, hkind, hjoined, rfl, hitem, rfl,
        .inr ⟨hend, rfl, by rw [hview]; rfl, rfl, hstop⟩⟩, rfl⟩

theorem forall₂_entries {R : v.Section → v.Pos → Prop} {runs : List (v.Run v.Section)}
    (h : ∀ r ∈ runs, ∃ s, r.entries = [s] ∧ R s r.start) :
    List.Forall₂ R (runs.flatMap (·.entries)) (runs.map (·.start)) := by
  induction runs with
  | nil => exact .nil
  | cons r runs ih =>
    obtain ⟨s, hs, hR⟩ := h r (by simp)
    rw [List.flatMap_cons, hs]
    exact .cons hR (ih fun t ht => h t (List.mem_cons_of_mem _ ht))

theorem Balanced.declaredNamespaces_sections {copy : Nat} {first : v.Pos} (hv : v.Balanced)
    (hfirst : v.sibling? namespaceKeyword v.lo = some first)
    (hok : (v.declaredNamespaces copy first).error = none) :
    ∃ sections : List v.Section, (v.declaredNamespaces copy first).items = sections.map (·.item) ∧
      List.Forall₂ Section.Declares sections v.topNamespaces ∧
      sections.Pairwise fun s t => s.stop ≤ t.start := by
  obtain ⟨runs, hitems, hruns, hsorted, hcover⟩ := hv.scan_runs (f := Section.item)
    (P := fun p n es => ∃ s, es = [s] ∧ s.Declares p ∧ n = s.next)
    (fun p hp n hn => by
      obtain ⟨item, hat, hitems⟩ := ofItem_ok hn
      obtain ⟨hlt, hground⟩ := (hv.namespace_reads hp).next n hn
      obtain ⟨s, hitem, hs, hnext⟩ := hv.namespaceAt_declares hp hat
      exact ⟨hlt, hground, [s], by rw [hitems, ← hitem]; rfl, s, rfl, hs, hnext⟩)
    (hv.sibling?_ground hv.lo hfirst) hok
  -- no keyword lies in the run of another, so the runs start at all of them
  have hkeywords : runs.map (·.start) = v.topNamespaces := by
    refine List.Pairwise.eq_of_mem_iff (r := (· < ·)) ?_ tops_pairwise fun q => ?_
    · rw [List.pairwise_map]
      exact hsorted.imp_of_mem fun hr _ hle => Nat.lt_of_lt_of_le (hruns _ hr).2.2.1 hle
    · rw [List.mem_map, hv.mem_topNamespaces]
      constructor
      · rintro ⟨r, hr, rfl⟩
        exact (hruns r hr).2.1
      · intro hq
        obtain ⟨r, hr, hle, hlt⟩ := hcover q hq
          ((hv.sibling?_passes hv.lo).1 first hfirst q hq hq.ground.lo_le)
        obtain ⟨_, _, _, s, _, ⟨n, e, hs⟩, hnext⟩ := hruns r hr
        refine ⟨r, hr, ?_⟩
        rcases Nat.eq_or_lt_of_le hle with heq | hgt
        · exact Fin.ext heq
        · have := hs.next_le hv hq hgt
          omega
  refine ⟨runs.flatMap Run.entries, hitems, ?_, ?_⟩
  · rw [← hkeywords]
    refine forall₂_entries fun r hr => ?_
    obtain ⟨_, _, _, s, hone, hs, _⟩ := hruns r hr
    exact ⟨s, hone, hs⟩
  · rw [List.pairwise_flatMap]
    refine ⟨fun r hr => ?_, hsorted.imp_of_mem fun {r t} hr ht hle s hs s' hs' => ?_⟩
    · obtain ⟨_, _, _, s, hone, _⟩ := hruns r hr
      simp [hone]
    · obtain ⟨_, _, _, _, hone, ⟨_, _, hhead⟩, hnext⟩ := hruns r hr
      obtain ⟨_, hfound, _, _, hone', ⟨_, _, hhead'⟩, _⟩ := hruns t ht
      simp only [hone, hone', List.mem_singleton] at hs hs'
      subst hs hs'
      obtain ⟨htop, hmem⟩ := (hv.found_iff isCloser_namespaceKeyword).mp hfound
      rw [hhead'.start_eq]
      exact hhead.stop_eq.first _ htop hmem (hnext ▸ hle)

theorem exists_section {sections : List v.Section} {i j : Nat} (hi : ∃ s ∈ sections, s.start = i)
    (hstep : ∀ s ∈ sections, (s.start < v.hi → s.start < s.stop) ∧
      (s.stop < v.hi → ∃ t ∈ sections, t.start = s.stop))
    (hij : i ≤ j) (hj : j < v.hi) : ∃ s ∈ sections, s.start ≤ j ∧ j < s.stop := by
  induction j, hij using Nat.le_induction with
  | base =>
    obtain ⟨s, hs, rfl⟩ := hi
    exact ⟨s, hs, Nat.le_refl _, (hstep s hs).1 hj⟩
  | succ j hij ih =>
    obtain ⟨s, hs, hle, hlt⟩ := ih (by omega)
    by_cases hnext : j + 1 < s.stop
    · exact ⟨s, hs, by omega, hnext⟩
    · obtain ⟨t, ht, hstart⟩ := (hstep s hs).2 (by omega)
      exact ⟨t, ht, by omega, by have := (hstep t ht).1; omega⟩

/-- Sections in order share no token, so a token has one place in all of them. -/
theorem exists_unique_place {sections : List v.Section} (hlined : ∀ s ∈ sections, s.Lined)
    (hsorted : sections.Pairwise fun s t => s.stop ≤ t.start) (hcode : v.isCode p = true)
    (hp : ∃ s ∈ sections, s.start ≤ p ∧ p < s.stop) :
    ∃! spot : Nat × Area, ∃ s, sections[spot.1]? = some s ∧ s.Holds p spot.2 := by
  obtain ⟨s, hs, hlo, hhi⟩ := hp
  obtain ⟨k, hk⟩ := List.getElem?_of_mem hs
  obtain ⟨a, ha⟩ := (hlined s hs).exists_area hcode hlo hhi
  refine ⟨(k, a), ⟨s, hk, ha⟩, ?_⟩
  rintro ⟨l, b⟩ ⟨t, hl, hb⟩
  obtain ⟨hlo', hhi'⟩ := (hlined t (List.mem_of_getElem? hl)).within hb
  have apart : ∀ {k l : Nat} {s t : v.Section}, sections[k]? = some s → sections[l]? = some t →
      k < l → s.stop ≤ t.start := by
    intro k l s t hk hl hkl
    obtain ⟨hks, rfl⟩ := List.getElem?_eq_some_iff.mp hk
    obtain ⟨hls, rfl⟩ := List.getElem?_eq_some_iff.mp hl
    exact List.pairwise_iff_getElem.mp hsorted k l hks hls hkl
  rcases Nat.lt_trichotomy k l with h | rfl | h
  · have := apart hk hl h
    omega
  · rw [hk, Option.some.injEq] at hl
    subst hl
    rw [(hlined s hs).area_unique ha hb]
  · have := apart hl hk h
    omega

theorem Balanced.head_le {first : v.Pos} (hv : v.Balanced) (h : v.topNamespaces.head? = some first)
    (hp : v.Found namespaceKeyword p) : first ≤ p := by
  obtain ⟨rest, hrest⟩ := List.head?_eq_some_iff.mp h
  have hmem := hv.mem_topNamespaces.mpr hp
  have hsorted : v.topNamespaces.Pairwise (· < ·) := tops_pairwise
  rw [hrest] at hmem hsorted
  rcases List.mem_cons.mp hmem with rfl | hmem
  · exact le_rfl
  · exact le_of_lt ((List.pairwise_cons.mp hsorted).1 p hmem)

/-- Whether the global namespace has a section: there is no keyword, or code stands before the
first. -/
def HasFront (v : View) : Prop :=
  v.topNamespaces = [] ∨
    ∃ first, v.topNamespaces.head? = some first ∧ ∃ p : v.Pos, v.lo ≤ p ∧ p < first ∧
    v.isCode p = true

structure Sections (v : View) (front : Option v.Section) (declared : List v.Section) : Prop where
  declares : List.Forall₂ Section.Declares declared v.topNamespaces
  sorted : declared.Pairwise fun s t => s.stop ≤ t.start
  global : ∀ s, front = some s → s.Global
  front_iff : front.isSome = true ↔ v.HasFront

namespace Sections

variable {front : Option v.Section} {declared : List v.Section}

theorem mem_cases (h : v.Sections front declared) (hv : v.Balanced)
    (hs : s ∈ front.toList ++ declared) :
    (front = some s ∧ s.Global) ∨ ∃ k, v.Found namespaceKeyword k ∧ s.Declares k := by
  rcases List.mem_append.mp hs with hs | hs
  · have hsome : front = some s := by simpa using hs
    exact .inl ⟨hsome, h.global s hsome⟩
  · obtain ⟨k, hk, hs⟩ := exists_of_forall₂ h.declares s hs
    exact .inr ⟨k, hv.mem_topNamespaces.mp hk, hs⟩

theorem exists_start (h : v.Sections front declared) (hv : v.Balanced)
    (hk : v.Found namespaceKeyword k) :
    ∃ s ∈ front.toList ++ declared, s.start = k := by
  obtain ⟨s, hs, n, e, hhead⟩ := exists_of_forall₂ h.declares.flip k (hv.mem_topNamespaces.mpr hk)
  exact ⟨s, List.mem_append_right _ hs, hhead.start_eq⟩

theorem lined (h : v.Sections front declared) (hv : v.Balanced) :
    ∀ s ∈ front.toList ++ declared, s.Lined := by
  intro s hs
  rcases h.mem_cases hv hs with ⟨_, hs⟩ | ⟨k, _, n, e, hs⟩
  · exact hs.lined
  · exact hs.lined hv

theorem pairwise (h : v.Sections front declared) (hv : v.Balanced) :
    (front.toList ++ declared).Pairwise fun s t => s.stop ≤ t.start := by
  refine List.pairwise_append.mpr ⟨by cases front <;> simp, h.sorted, fun s hs t ht => ?_⟩
  have hs := h.global s (by simpa using hs)
  obtain ⟨k, hk, n, e, hhead⟩ := exists_of_forall₂ h.declares t ht
  obtain ⟨htop, hmem⟩ := (hv.found_iff isCloser_namespaceKeyword).mp (hv.mem_topNamespaces.mp hk)
  rw [hhead.start_eq]
  exact hs.stop_eq.first k htop hmem htop.lo_le

theorem exists_next (h : v.Sections front declared) (hv : v.Balanced)
    (hs : s ∈ front.toList ++ declared) (hlt : s.stop < v.hi) :
    ∃ t ∈ front.toList ++ declared, t.start = s.stop := by
  have hstop : ∃ k : v.Pos, k.val = s.stop ∧ v.AtTop k ∧
      namespaceKeyword.contains (v.kind k) = true := by
    rcases h.mem_cases hv hs with ⟨_, hs⟩ | ⟨k, _, n, e, hs⟩
    · exact hs.stop_eq.top hlt
    · exact hs.stop_eq.top hlt
  obtain ⟨k, hval, hk⟩ := hstop
  rw [← hval]
  exact h.exists_start hv ((hv.found_iff isCloser_namespaceKeyword).mpr hk)

theorem stop_of_nil (hs : s.Global) (hv : v.Balanced) (hnil : v.topNamespaces = []) :
    s.stop = v.hi := by
  by_contra hne
  obtain ⟨k, _, hk⟩ := hs.stop_eq.top (by have := hs.stop_eq.le_hi; omega)
  have := hv.mem_topNamespaces.mpr ((hv.found_iff isCloser_namespaceKeyword).mpr hk)
  simp [hnil] at this

theorem head_le_stop {first : v.Pos} (hs : s.Global) (hv : v.Balanced)
    (hfirst : v.topNamespaces.head? = some first) :
    first ≤ s.stop := by
  by_cases hlt : s.stop < v.hi
  · obtain ⟨k, hval, hk⟩ := hs.stop_eq.top hlt
    have hle : first.val ≤ k.val := hv.head_le hfirst
      ((hv.found_iff isCloser_namespaceKeyword).mpr hk)
    omega
  · have := (hv.mem_topNamespaces.mp (List.mem_of_mem_head? hfirst)).lt
    omega

theorem start_lt_stop (h : v.Sections front declared) (hv : v.Balanced)
    (hs : s ∈ front.toList ++ declared) (hlt : s.start < v.hi) : s.start < s.stop := by
  rcases h.mem_cases hv hs with ⟨hsome, hg⟩ | ⟨k, _, n, e, hhead⟩
  · have hstart : s.start = v.lo := by simp [Section.start, hg.header_eq, hg.lo_eq]
    rcases h.front_iff.mp (by rw [hsome]; rfl) with hnil | ⟨first, hfirst, p, hlo, hpf, _⟩
    · rw [stop_of_nil hg hv hnil]
      exact hlt
    · have := head_le_stop hg hv hfirst
      have hpf : p.val < first.val := hpf
      omega
  · have hl := hhead.lined hv
    have := hl.header k (by simp [hhead.header_eq])
    have := hl.lo_le
    have := hl.hi_le_stop
    omega

theorem exists_mem (h : v.Sections front declared) (hv : v.Balanced) (hlo : v.lo ≤ p)
    (hhi : p < v.hi) (hcode : v.isCode p = true) :
    ∃ s ∈ front.toList ++ declared, s.start ≤ p ∧ p < s.stop := by
  have hstep : ∀ s ∈ front.toList ++ declared, (s.start < v.hi → s.start < s.stop) ∧
      (s.stop < v.hi → ∃ t ∈ front.toList ++ declared, t.start = s.stop) :=
    fun s hs => ⟨h.start_lt_stop hv hs, h.exists_next hv hs⟩
  by_cases hsome : v.HasFront
  · obtain ⟨s, hs⟩ := Option.isSome_iff_exists.mp (h.front_iff.mpr hsome)
    have hg := h.global s hs
    exact exists_section ⟨s, by simp [hs], by simp [Section.start, hg.header_eq, hg.lo_eq]⟩ hstep
      hlo hhi
  · obtain ⟨hne, hbefore⟩ := not_or.mp hsome
    obtain ⟨first, hfirst⟩ := Option.isSome_iff_exists.mp (List.isSome_head?.mpr hne)
    have hfound := hv.mem_topNamespaces.mp (List.mem_of_mem_head? hfirst)
    have hle : first.val ≤ p.val := Nat.le_of_not_lt fun hlt =>
      hbefore ⟨first, hfirst, p, hlo, hlt, hcode⟩
    exact exists_section (h.exists_start hv hfound) hstep hle hhi

end Sections

/-- The listed namespaces divide a view: there is a section of the global namespace, or none, and a
section for each keyword at the top. They follow each other in the view, and each code token has one
place in them. -/
structure Divided (v : View) (items : List Item) (front : Option v.Section)
    (declared : List v.Section) : Prop where
  items_eq : items = (front.toList ++ declared).map (·.item)
  declares : List.Forall₂ Section.Declares declared v.topNamespaces
  global : ∀ s, front = some s → s.Global
  front_iff : front.isSome = true ↔ v.HasFront
  whole : v.topNamespaces = [] → ∃ scope, items = [⟨"", v.span v.lo v.hi scope⟩]
  ordered : (front.toList ++ declared).Pairwise fun s t => s.hi ≤ t.lo
  lo_le_hi : ∀ s ∈ front.toList ++ declared, s.lo ≤ s.hi
  place : ∀ p : v.Pos, v.lo ≤ p → p < v.hi → v.isCode p = true →
    ∃! spot : Nat × Area, ∃ s, (front.toList ++ declared)[spot.1]? = some s ∧ s.Holds p spot.2

theorem Sections.divided {front : Option v.Section} {declared : List v.Section}
    (h : v.Sections front declared) (hv : v.Balanced) :
      v.Divided ((front.toList ++ declared).map (·.item)) front declared where
  items_eq := rfl
  declares := h.declares
  global := h.global
  front_iff := h.front_iff
  whole hnil := by
    obtain ⟨s, hs⟩ := Option.isSome_iff_exists.mp (h.front_iff.mpr (.inl hnil))
    have hg := h.global s hs
    have hdeclares := h.declares
    rw [hnil, List.forall₂_nil_right_iff] at hdeclares
    have hview := hg.view_eq
    rw [hg.lo_eq, hg.hi_eq, stop_of_nil hg hv hnil] at hview
    refine ⟨s.item.view.scope, ?_⟩
    rw [hs, hdeclares, ← hview, ← hg.name_eq]
    rfl
  ordered := (h.pairwise hv).imp_of_mem fun {s t} hs ht hle => by
    have := (h.lined hv s hs).hi_le_stop
    have := (h.lined hv t ht).start_le
    omega
  lo_le_hi s hs := (h.lined hv s hs).lo_le
  place p hlo hhi hcode := exists_unique_place (h.lined hv) (h.pairwise hv) hcode
    (h.exists_mem hv hlo hhi hcode)

/-! ## Listings of namespaces -/

def preamble (v : View) (stop : Nat) (scope : Scope) : v.Section :=
  ⟨⟨"", v.span v.lo stop scope⟩, [], v.lo, stop, none, stop⟩

theorem Balanced.head?_topNamespaces (hv : v.Balanced) :
    v.topNamespaces.head? = v.sibling? namespaceKeyword v.lo := by
  cases hfirst : v.sibling? namespaceKeyword v.lo with
  | none =>
    refine List.head?_eq_none_iff.mpr (List.eq_nil_iff_forall_not_mem.mpr fun p hp => ?_)
    have hfound := hv.mem_topNamespaces.mp hp
    have := (hv.sibling?_passes hv.lo).2 hfirst p hfound
    have := hfound.ground.lo_le
    omega
  | some first =>
    have hfound : v.Found namespaceKeyword first :=
      ⟨hv.sibling?_ground hv.lo hfirst, (sibling?_bounds hfirst).2, sibling?_contains hfirst⟩
    obtain ⟨head, hhead⟩ := Option.isSome_iff_exists.mp
      (List.isSome_head?.mpr (List.ne_nil_of_mem (hv.mem_topNamespaces.mpr hfound)))
    have hmem := hv.mem_topNamespaces.mp (List.mem_of_mem_head? hhead)
    rw [hhead, le_antisymm (hv.head_le hhead hfound)
      ((hv.sibling?_passes hv.lo).1 first hfirst head hmem hmem.ground.lo_le)]

theorem Balanced.namespaces_divided {copy : Nat} (hv : v.Balanced)
    (hok : (v.namespaces copy).error = none) :
    ∃ front declared, v.Divided (v.namespaces copy).items front declared := by
  have hhead := hv.head?_topNamespaces
  have hstop := hv.topOrEnd_sibling? hv.lo isCloser_namespaceKeyword
  unfold namespaces at hok ⊢
  cases hfirst : v.sibling? namespaceKeyword v.lo with
  | none =>
    simp only [hfirst, Option.map_none, Option.getD_none] at hok hhead hstop ⊢
    have hnil := List.head?_eq_none_iff.mp hhead
    obtain ⟨scope, _, heq⟩ := withPreamble_ok hok
    have hs : v.Sections (some (v.preamble v.hi scope)) [] :=
      ⟨by rw [hnil]; exact .nil, .nil, by rintro _ ⟨⟩; exact ⟨rfl, rfl, rfl, rfl, rfl, rfl, hstop⟩,
        fun _ => .inl hnil, fun _ => rfl⟩
    rw [heq]
    exact ⟨_, _, hs.divided hv⟩
  | some first =>
    simp only [hfirst, Option.map_some, Option.getD_some] at hok hhead hstop ⊢
    have hfront : v.HasFront ↔ v.hasCode v.lo first = true := by
      have hne : v.topNamespaces ≠ [] := fun hnil => by simp [hnil] at hhead
      simp only [HasFront, hne, hhead, hasCode, List.any_eq_true, mem_between, false_or,
        Option.some.injEq, exists_eq_left', and_assoc]
      rfl
    by_cases hcode : v.hasCode v.lo first = true
    · rw [if_pos hcode] at hok ⊢
      obtain ⟨scope, _, heq⟩ := withPreamble_ok hok
      rw [heq] at hok ⊢
      obtain ⟨sections, hitems, hdeclares, hsorted⟩ := hv.declaredNamespaces_sections hfirst hok
      have hs : v.Sections (some (v.preamble first scope)) sections :=
        ⟨hdeclares, hsorted, by rintro _ ⟨⟩; exact ⟨rfl, rfl, rfl, rfl, rfl, rfl, hstop⟩,
          fun _ => hfront.mpr hcode, fun _ => rfl⟩
      rw [Listing.after, hitems]
      exact ⟨_, _, hs.divided hv⟩
    · rw [if_neg hcode] at hok ⊢
      obtain ⟨sections, hitems, hdeclares, hsorted⟩ := hv.declaredNamespaces_sections hfirst hok
      have hs : v.Sections none sections :=
        ⟨hdeclares, hsorted, by simp, ⟨by simp, fun h => absurd (hfront.mp h) hcode⟩⟩
      rw [hitems]
      exact ⟨_, _, hs.divided hv⟩

/-- What the namespaces of a root view divide it into, if they can all be read. Each keyword at the
top of the view gives one of them, in order, and so does what stands before the first keyword, if
that is code. Without a keyword all of the view is one global namespace. Every code token has its
place in one of them only, and there either in what it holds, in its header, at its closing brace or
behind that, before the next keyword. -/
theorem namespaces_divide_root {f : Flags} {g : Graph} {root : View} (hg : Built .php f g)
    (hroot : ofGraph g = .ok root) (copy : Nat) (hok : (root.namespaces copy).error = none) :
    ∃ front declared, root.Divided (root.namespaces copy).items front declared :=
  (balanced_of_ofGraph hg hroot).namespaces_divided hok

theorem namespaces_divide_root_sample :
    ∃ (g : Graph) (root : View), Built .php {} g ∧ ofGraph g = .ok root ∧
      root.namespaces.error = none ∧ ∃ front declared,
        root.Divided root.namespaces.items front declared ∧ front.isSome = true ∧
          declared.map (·.item.name) = ["A", "B"] := by
  have h : ((ofSource "<?php f(); namespace A \x7b g(); \x7d h(); namespace B ?> i").toOption.map
      fun root => (root.namespaces.error.isNone, root.namespaces.items.map (·.name),
        root.topNamespaces.length)) =
        some (true, ["", "A", "B"], 2) := by
    decide +kernel
  obtain ⟨root, hsource, h⟩ := Option.map_eq_some_iff.mp h
  simp only [Prod.mk.injEq, Option.isNone_iff_eq_none] at h
  obtain ⟨hok, hnames, hlength⟩ := h
  obtain ⟨ts, g, _, hlink, hg⟩ := ofSource_ok (ok_of_toOption hsource)
  obtain ⟨front, declared, hd⟩ := namespaces_divide_root (.link hlink) hg 0 hok
  refine ⟨g, root, .link hlink, hg, hok, front, declared, hd, ?_⟩
  have hdeclared := hd.declares.length_eq
  rw [hlength] at hdeclared
  rw [hd.items_eq] at hnames
  cases front with
  | none =>
    have := congrArg List.length hnames
    simp [hdeclared] at this
  | some s =>
    simp only [Option.toList_some, List.singleton_append, List.map_cons, List.map_map,
      List.cons.injEq] at hnames
    exact ⟨rfl, hnames.2⟩

end View

end PhpOutline
