import PhpOutline.Proofs.MirrorListings
import PhpOutline.Proofs.PartResolution

/-!
# Names without trivia

A name is a run of segments that touch, so it reads the same without trivia unless trivia alone
parts it from another segment (`SplitName`). Where that does not happen between the keyword of a
statement and its end, the imports of the statement and the types that a header names are the same.
-/

namespace PhpOutline

open PhpOutline.Graph

namespace View

variable {v w : View} {p p' e o : v.Pos} {q q' o' : w.Pos} {i : Nat}

/-! ## Segments that touch -/

theorem isCode_of_segment {k : Kind} (h : Taxonomy.php.nameSegments.contains k = true) :
    Taxonomy.php.isCode k = true := by
  cases k <;> first | rfl | cases h

theorem isCode_of_typeKeyword {k : Kind} (h : typeKeywords.contains k = true) :
    Taxonomy.php.isCode k = true := by
  cases k <;> first | rfl | cases h

theorem Balanced.isCode_segment (hv : v.Balanced)
    (h : v.graph.taxonomy.nameSegments.contains (v.kind p) = true) :
    v.isCode p = true := by
  rw [hv.php] at h
  rw [isCode, hv.php]
  exact isCode_of_segment h

namespace Mirrors

theorem trivia_of_succ (h : Mirrors v w) (hpq : Image v w p q) (hpq' : Image v w p' q')
    (hq : q'.val = q.val + 1) :
    p < p' ∧ ∀ r : v.Pos, p < r → r < p' → v.isCode r = false := by
  refine ⟨(h.image_lt hpq hpq').mp (by omega), (h.no_code_iff hpq hpq').mp fun s hqs hsq => ?_⟩
  have hqs : q.val < s.val := hqs
  have hsq : s.val < q'.val := hsq
  omega

theorem touching (h : Mirrors v w) (hpq : Image v w p q) (hpq' : Image v w p' q')
    (hp : v.graph.taxonomy.nameSegments.contains (v.kind p) = true)
    (hp' : v.graph.taxonomy.nameSegments.contains (v.kind p') = true) (hno : ¬ v.SplitName p p') :
    p'.val = p.val + 1 ↔ q'.val = q.val + 1 := by
  constructor
  · intro heq
    rw [hpq'.2, heq, h.rank_succ hpq]
  · intro heq
    obtain ⟨hlt, htrivia⟩ := h.trivia_of_succ hpq hpq' heq
    have hlt : p.val < p'.val := hlt
    by_contra hne
    exact hno ⟨by omega, hp, hp', htrivia⟩

theorem closedBy_eq_none_iff (h : Mirrors v w) (hpq : Image v w p q) :
    (v.node p).closedBy = none ↔ (w.node q).closedBy = none := by
  rw [← not_iff_not, ← ne_eq, ← ne_eq, Option.ne_none_iff_exists', Option.ne_none_iff_exists']
  constructor
  · rintro ⟨c, hc⟩
    obtain ⟨_, q', _, _, hclosed⟩ := h.exists_closer hpq hc
    exact ⟨q', hclosed⟩
  · rintro ⟨c, hc⟩
    have hlt := (h.right.pair_of_closedBy hc).closer_lt
    rw [length_tokens] at hlt
    obtain ⟨p', hpq'⟩ := h.exists_left ⟨c, hlt⟩
    exact ⟨p', (h.closedBy hpq hpq').mp hc⟩

/-! ## Imports -/

theorem alike (h : Mirrors v w) {i j : Nat} (hno : ∀ a b : v.Pos, i ≤ a → b < j →
    ¬ v.SplitName a b) :
    Alike v w fun a b => Image v w a b ∧ i ≤ a ∧ a < j where
  taxonomy := by rw [h.left.php, h.right.php]
  kind hab := (h.kind hab.1).symm
  text hab := (h.text hab.1).symm
  closer hab hab' := (h.closedBy hab.1 hab'.1).symm
  closed hab := h.closedBy_eq_none_iff hab.1
  touching hab hab' hseg hseg' := h.touching hab.1 hab'.1 hseg hseg' (hno _ _ hab.2.1 hab'.2.2)

theorem clause (h : Mirrors v w) (hpq : Image v w p q) {e' : w.Pos} (hee : Image v w e e') :
    List.Forall₂ (fun a b => Image v w a b ∧ p + 1 ≤ a.val ∧ a < e.val) (v.clause p e)
      (w.clause q e') := by
  have hcode := h.codeBetween (a := p + 1) (b := e) (Nat.le_of_lt e.isLt)
  rw [h.rank_succ hpq, ← hee.2] at hcode
  have hinside := (List.forall₂_and_left _ _).mpr
    ⟨fun r hr => mem_between.mp (List.mem_filter.mp hr).1, hcode⟩
  exact hinside.imp fun a b hab => ⟨hab.2, hab.1⟩

theorem endsStatement (h : Mirrors v w) (hpq : Image v w p q) :
    w.endsStatement q = v.endsStatement p := by
  rw [View.endsStatement, View.endsStatement, h.kind hpq, h.left.php, h.right.php]

theorem find?_end (h : Mirrors v w) (hpq : Image v w p q)
    (hcode : ∀ e, (v.between (p + 1) v.hi).find? v.endsStatement = some e → v.isCode e = true) :
    Option.Rel (Image v w) ((v.between (p + 1) v.hi).find? v.endsStatement)
      ((w.between (q + 1) w.hi).find? w.endsStatement) := by
  refine h.rel_of_iff hcode fun e e' hee => ?_
  constructor
  · intro he
    obtain ⟨hpe, hhi, hend, hbefore⟩ := find?_between he
    refine find?_between_eq ((h.image_lt hpq hee).mpr hpe) ((h.lt_hi hee).mpr hhi)
      (by rw [h.endsStatement hee, hend]) ?_
    intro s hqs hse
    obtain ⟨r, hrs⟩ := h.exists_left s
    rw [h.endsStatement hrs]
    exact hbefore r ((h.image_lt hpq hrs).mp hqs) ((h.image_lt hrs hee).mp hse)
  · intro he'
    obtain ⟨hqe, hhi, hend, hbefore⟩ := find?_between he'
    rw [h.endsStatement hee] at hend
    have hmem : e ∈ v.between (p + 1) v.hi :=
      mem_between.mpr ⟨(h.image_lt hpq hee).mp hqe, (h.lt_hi hee).mp hhi⟩
    cases hf : (v.between (p + 1) v.hi).find? v.endsStatement with
    | none => exact absurd hend (List.find?_eq_none.mp hf e hmem)
    | some d =>
      -- the first end in the view is not behind this one, and its image not before the other
      obtain ⟨hpd, _, hend', hbefore'⟩ := find?_between hf
      obtain ⟨d', hdd⟩ := h.exists_right (hcode d hf)
      rcases Nat.lt_trichotomy d.val e.val with hlt | heq | hgt
      · have := hbefore d' ((h.image_lt hpq hdd).mpr hpd) ((h.image_lt hdd hee).mpr hlt)
        rw [h.endsStatement hdd, hend'] at this
        cases this
      · rw [Fin.ext heq]
      · rw [hbefore' e (mem_between.mp hmem).1 hgt] at hend
        cases hend

end Mirrors

theorem Legible.no_split (hv : v.Legible) (hs : v.Seeks p e)
    (hk : (typeKeywords.insert .useKw).contains (v.kind p) = true) :
    ∀ a b : v.Pos, p + 1 ≤ a.val → b.val < e.val → ¬ v.SplitName a b :=
  fun _ _ ha hb => hv.names hs hk ha hb

theorem Twins.importsAt (h : Twins v w) (hv : v.Legible) (hs : v.scope.isNamespaceLevel = true)
    (hlo : v.lo ≤ p) (hhi : p < v.hi) (hp : v.startsImport p = true) (hpq : Image v w p q) :
    SameResult (fun a b => a.1 = b.1 ∧ ∃ e e', Image v w e e' ∧ p.val < e.val ∧ a.2 = e.val ∧
      b.2 = e'.val) (v.importsAt p) (w.importsAt q) := by
  have hseeks : ∀ e, (v.between (p + 1) v.hi).find? v.endsStatement = some e → v.Seeks p e :=
    fun e he => .use hs hlo hhi hp he
  have hrel := h.find?_end hpq fun e he => hv.ends (hseeks e he)
  generalize he : (v.between (p + 1) v.hi).find? v.endsStatement = l,
    he' : (w.between (q + 1) w.hi).find? w.endsStatement = r at hrel
  cases hrel with
  | none =>
    rw [importsAt_of_no_end he, importsAt_of_no_end he', h.line hpq]
    exact .error _
  | @some e e' hee =>
    have hno := hv.no_split (hseeks e he) (by rw [kind_of_startsImport hp]; rfl)
    have hread := (h.alike hno).readClause (h.clause hpq hee)
    rw [importsAt_of_end he, importsAt_of_end he', ← hread, h.line hpq]
    split
    · exact .error _
    · exact .ok ⟨rfl, e, e', hee, (find?_between he).1, rfl, rfl⟩

theorem Twins.importsFrom (h : Twins v w) (hv : v.Legible) (hs : v.scope.isNamespaceLevel = true)
    (hi : v.lo ≤ i) :
    w.importsFrom (v.rank i) = v.importsFrom i := by
  have hs' : w.scope.isNamespaceLevel = true := by rw [← h.scope.isNamespaceLevel, hs]
  have hsize := h.left.hi_le
  simp only [Graph.size] at hsize
  have himage : ∀ {p : v.Pos}, v.startsImport p = true → ∃ q, Image v w p q := by
    intro p hp
    refine h.exists_right ?_
    rw [isCode, h.left.php, kind_of_startsImport hp]
    rfl
  fun_induction View.importsFrom v i with
  | case1 i hlt hnone =>
    rw [pos?, dif_pos (by omega)] at hnone
    cases hnone
  | case2 i hlt p hp hstart e he =>
    obtain rfl := val_of_pos? hp
    obtain ⟨q, hpq⟩ := himage hstart
    have hat := h.importsAt hv hs hi hlt hstart hpq
    rw [he] at hat
    rw [← hpq.2, importsFrom_at ((h.lt_hi hpq).mpr hlt), h.startsImport hs hs' hpq, if_pos hstart,
      hat.error_left]
  | case3 i hlt p hp hstart imports stop he ih =>
    obtain rfl := val_of_pos? hp
    obtain ⟨q, hpq⟩ := himage hstart
    have hat := h.importsAt hv hs hi hlt hstart hpq
    rw [he] at hat
    obtain ⟨⟨_, _⟩, hat', rfl, e, e', hee, hpe, rfl, rfl⟩ := hat.ok_left
    have hlt' := (h.image_lt hpq hee).mpr hpe
    rw [← hpq.2, importsFrom_at ((h.lt_hi hpq).mpr hlt), h.startsImport hs hs' hpq, if_pos hstart,
      hat']
    dsimp only at ih ⊢
    rw [Nat.max_eq_left (Nat.le_of_lt hlt'), ← h.rank_succ hee]
    rw [Nat.max_eq_left (Nat.le_of_lt hpe)] at ih ⊢
    rw [ih (by omega)]
  | case4 i hlt p hp hstart ih =>
    obtain rfl := val_of_pos? hp
    by_cases hcode : v.isCode p = true
    · obtain ⟨q, hpq⟩ := h.exists_right hcode
      rw [← hpq.2, importsFrom_at ((h.lt_hi hpq).mpr hlt), h.startsImport hs hs' hpq, if_neg hstart,
        ← h.rank_succ hpq]
      exact ih (by omega)
    · rw [← h.rank_succ_of_trivia (by simpa using hcode)]
      exact ih (by omega)
  | case5 i hge =>
    have hle : v.rank v.hi ≤ v.rank i := rank_mono (by omega)
    rw [importsFrom_end (by rw [h.hi]; omega)]

/-! ## Headers -/

theorem codeBetween_eq_map {a b : Nat} (v : View) (hb : b ≤ v.graph.size) :
    v.graph.codeBetween a b = ((v.between a b).filter v.isCode).map v.node := by
  induction b with
  | zero =>
    rw [v.between_nil (Nat.zero_le a)]
    simp [codeBetween]
  | succ b ih =>
    simp only [Graph.size] at hb
    let p : v.Pos := ⟨b, by omega⟩
    rcases Nat.lt_or_ge b a with hlt | hle
    · rw [v.between_nil hlt, codeBetween_eq_nil fun j m hj hj' => by omega]
      rfl
    · have hsucc : v.between a (b + 1) = v.between a b ++ [p] := between_succ (p := p) hle
      rw [codeBetween_succ (getElem?_pos p) hle, ih (by simp only [Graph.size]; omega), hsucc,
        List.filter_append, List.map_append, List.filter_singleton,
        show v.graph.taxonomy.isCode (v.node p).kind = v.isCode p from rfl]
      cases v.isCode p <;> rfl

/-- The code before the body of a type, from the last keyword of a type on. -/
def headerAt (v : View) (o : v.Pos) : List v.Pos :=
  (takeThrough (fun r => typeKeywords.contains (v.kind r))
    ((v.between v.lo o).filter v.isCode).reverse).reverse

theorem takeThrough_map {α β : Type} (test : β → Bool) (f : α → β) (l : List α) :
    takeThrough test (l.map f) = (takeThrough (fun a => test (f a)) l).map f := by
  induction l with
  | nil => rfl
  | cons a l ih =>
    rw [List.map_cons, takeThrough, takeThrough]
    split
    · rfl
    · rw [ih, List.map_cons]

theorem Balanced.typeHeader_mark (hv : v.Balanced) (hlo : v.lo ≤ o) (hhi : o < v.hi) :
    v.typeHeader (v.mark o) = (v.headerAt o).map v.node := by
  rw [typeHeader, hv.position?_mark hlo hhi]
  dsimp only
  rw [hv.codeBefore_eq hlo, v.codeBetween_eq_map (Nat.le_of_lt o.isLt), ← List.map_reverse,
    takeThrough_map, ← List.map_reverse]
  rfl

theorem le_of_mem_takeThrough {test : v.Pos → Bool} {l : List v.Pos} {r : v.Pos}
    (hl : l.Pairwise (· > ·)) (hp : p ∈ l) (ht : test p = true) (hr : r ∈ takeThrough test l) :
    p ≤ r := by
  induction l with
  | nil => cases hp
  | cons a l ih =>
    rw [List.pairwise_cons] at hl
    have hpa : p ≤ a := by
      rcases List.mem_cons.mp hp with rfl | hp
      · exact le_refl p
      · exact le_of_lt (hl.1 p hp)
    rw [takeThrough] at hr
    split at hr
    · rw [List.mem_singleton.mp hr]
      exact hpa
    · rename_i hne
      rcases List.mem_cons.mp hr with rfl | hr
      · exact hpa
      · rcases List.mem_cons.mp hp with rfl | hp
        · exact absurd ht hne
        · exact ih hl.2 hp hr

theorem mem_headerAt {r : v.Pos} (hv : v.Balanced) (hlo : v.lo ≤ p) (hpo : p < o)
    (hk : typeKeywords.contains (v.kind p) = true) (hr : r ∈ v.headerAt o) : p ≤ r ∧ r < o := by
  have hcode : v.isCode p = true := by
    rw [isCode, hv.php]
    exact isCode_of_typeKeyword hk
  rw [headerAt, List.mem_reverse] at hr
  have hsorted := ((v.between_pairwise v.lo o).filter v.isCode)
  constructor
  · refine le_of_mem_takeThrough (List.pairwise_reverse.mpr hsorted) ?_ hk hr
    exact List.mem_reverse.mpr (List.mem_filter.mpr ⟨mem_between.mpr ⟨hlo, hpo⟩, hcode⟩)
  · have hmem := List.mem_reverse.mp (mem_takeThrough hr)
    exact (mem_between.mp (List.mem_filter.mp hmem).1).2

theorem forall₂_takeThrough {α β : Type} {S : α → β → Prop} {l : List α} {l' : List β}
    {f : α → Bool} {g : β → Bool} (h : List.Forall₂ S l l') (hfg : ∀ {a b}, S a b → f a = g b) :
    List.Forall₂ S (takeThrough f l) (takeThrough g l') := by
  induction h with
  | nil => exact .nil
  | cons hab _ ih =>
    rw [takeThrough, takeThrough, hfg hab]
    split
    · exact .cons hab .nil
    · exact .cons hab ih

theorem Mirrors.headerAt (h : Mirrors v w) (hoo : Image v w o o') :
    List.Forall₂ (Image v w) (v.headerAt o) (w.headerAt o') := by
  have hcode := h.codeBetween (a := v.lo) (b := o) (Nat.le_of_lt o.isLt)
  rw [← h.lo, ← hoo.2] at hcode
  refine List.forall₂_reverse_iff.mpr (forall₂_takeThrough (List.forall₂_reverse_iff.mpr hcode) ?_)
  intro a b hab
  rw [h.kind hab]

theorem forall₂_baseNames {S : Node → Node → Prop} {l l' : List Node} (h : List.Forall₂ S l l')
    (hkind : ∀ {n m}, S n m → n.kind = m.kind) (current : Option Base) :
    List.Forall₂ (fun a b => a.1 = b.1 ∧ S a.2 b.2) (baseNames current l)
      (baseNames current l') := by
  induction h generalizing current with
  | nil => exact .nil
  | @cons n m l l' hnm _ ih =>
    rw [baseNames, baseNames, ← hkind hnm]
    split
    · exact ih _
    · exact ih _
    · split
      · exact ih _
      · split
        · exact .cons ⟨rfl, hnm⟩ (ih _)
        · exact ih _

/-! ## Resolved names -/

theorem Mirrors.nameRun (h : Mirrors v w) (hpq : Image v w p q)
    (hp : v.graph.taxonomy.nameSegments.contains (v.kind p) = true) (hpe : p < e) (hhi : e < v.hi)
    (he : v.isCode e = true) (hend : v.graph.taxonomy.nameSegments.contains (v.kind e) = false)
    (hno : ∀ a b : v.Pos, p ≤ a → b < e → ¬ v.SplitName a b) :
    List.Forall₂ (Image v w)
      ((v.between p v.hi).takeWhile
        (fun j => v.graph.taxonomy.nameSegments.contains (v.kind j)))
      ((w.between q w.hi).takeWhile
        (fun j => w.graph.taxonomy.nameSegments.contains (w.kind j))) := by
  -- by induction on the rest of the view: where the run of segments ends in the one view, no
  -- segment comes next in the other
  have hsegment : ∀ {a b}, Image v w a b →
      w.graph.taxonomy.nameSegments.contains (w.kind b) =
        v.graph.taxonomy.nameSegments.contains (v.kind a) := by
    intro a b hab
    rw [h.kind hab, h.left.php, h.right.php]
  have hne : ∀ {a : v.Pos}, v.graph.taxonomy.nameSegments.contains (v.kind a) = true → a ≠ e := by
    rintro a ha rfl
    rw [hend] at ha
    cases ha
  obtain ⟨e', hee⟩ := h.exists_right he
  induction hn : v.hi - p generalizing p q with
  | zero =>
    have hpe : p.val < e.val := hpe
    omega
  | succ n ih =>
    have hlt : p.val < e.val := hpe
    have hqe : q.val < e'.val := (h.image_lt hpq hee).mpr hlt
    let p₁ : v.Pos := ⟨p + 1, by have := e.isLt; omega⟩
    let q₁ : w.Pos := ⟨q + 1, by have := e'.isLt; omega⟩
    have hhi' := (h.lt_hi hee).mpr hhi
    have hp₁ : v.between (p + 1) v.hi = p₁ :: v.between (p₁ + 1) v.hi :=
      between_cons (p := p₁) (by simp only [p₁]; omega)
    have hq₁ : w.between (q + 1) w.hi = q₁ :: w.between (q₁ + 1) w.hi :=
      between_cons (p := q₁) (by simp only [q₁]; omega)
    rw [between_cons (by omega : p.val < v.hi), between_cons (by omega : q.val < w.hi),
      List.takeWhile_cons_of_pos (by exact hp),
      List.takeWhile_cons_of_pos (by rw [hsegment hpq]; exact hp)]
    refine .cons hpq ?_
    by_cases hseg : v.graph.taxonomy.nameSegments.contains (v.kind p₁) = true
    · have hpq₁ : Image v w p₁ q₁ := ⟨h.left.isCode_segment hseg, (h.rank_succ hpq).symm⟩
      refine ih hpq₁ hseg (lt_of_le_of_ne hlt (hne hseg)) (fun a b ha => hno a b ?_)
        (by simp only [p₁]; omega)
      exact le_trans (Nat.le_succ p.val) ha
    · obtain ⟨a, ha⟩ := h.exists_left q₁
      rw [hp₁, hq₁, List.takeWhile_cons_of_neg (by exact hseg), List.takeWhile_cons_of_neg]
      · exact .nil
      · -- a segment there would be parted from this one by trivia alone
        rw [hsegment ha]
        intro hseg'
        have hae : a ≤ e := by
          rw [← not_lt]
          intro hea
          have := (h.image_lt hee ha).mpr hea
          simp only [q₁] at this
          omega
        have htouch := (h.touching hpq ha hp hseg'
          (hno p a (le_refl p) (lt_of_le_of_ne hae (hne hseg')))).mpr rfl
        rw [show a = p₁ from Fin.ext htouch] at hseg'
        exact hseg hseg'

theorem Mirrors.nameAt (h : Mirrors v w) (hpq : Image v w p q)
    (hp : v.graph.taxonomy.nameSegments.contains (v.kind p) = true) (hpe : p < e) (hhi : e < v.hi)
    (he : v.isCode e = true) (hend : v.graph.taxonomy.nameSegments.contains (v.kind e) = false)
    (hno : ∀ a b : v.Pos, p ≤ a → b < e → ¬ v.SplitName a b) : v.nameAt p = w.nameAt q := by
  have hrun := h.nameRun hpq hp hpe hhi he hend hno
  have htext : ∀ {l : List v.Pos} {l' : List w.Pos}, List.Forall₂ (Image v w) l l' →
      (l.flatMap fun j => (v.node j).text.toList) = l'.flatMap fun j => (w.node j).text.toList := by
    intro l l' hl
    induction hl with
    | nil => rfl
    | cons hab _ ih => rw [List.flatMap_cons, List.flatMap_cons, h.text hab, ih]
  unfold View.nameAt
  dsimp only
  rw [if_pos hp, if_pos (by rw [h.kind hpq, h.right.php, ← h.left.php]; exact hp), htext hrun]

theorem Twins.imports (h : Twins v w) (hv : v.Legible) (hs : v.scope.isNamespaceLevel = true) :
    w.imports = v.imports := by
  rw [View.imports, View.imports, h.lo, h.importsFrom hv hs (Nat.le_refl _)]

theorem Twins.importTable (h : Twins v w) (hv : v.Legible) (hs : v.scope.isNamespaceLevel = true) :
    v.importTable = w.importTable := by
  have hself : ∀ u : View, u.scope.isNamespaceLevel = true → u.importScope = u := by
    rintro ⟨f, outer⟩ hlevel
    cases outer with
    | nil => rfl
    | cons g gs => exact if_pos hlevel
  have hs' : w.scope.isNamespaceLevel = true := by rw [← h.scope.isNamespaceLevel, hs]
  rw [View.importTable, View.importTable, hself v hs, hself w hs', h.imports hv hs]

theorem not_typeKeyword_of_namesType {k : Kind} (h : namesType k = true) :
    ¬ typeKeywords.contains k = true := by
  cases k <;> first | exact Bool.noConfusion | cases h

theorem Twins.resolveBases (h : Twins v w) (hv : v.Legible) (hs : v.scope.isNamespaceLevel = true)
    (hlo : v.lo ≤ p) (hk : typeKeywords.contains (v.kind p) = true) (hseeks : v.Seeks p o)
    (hpo : p < o) (hhi : o < v.hi) (ho : v.kind o = .openBrace) {l : List v.Pos} {l' : List w.Pos}
    (hl : List.Forall₂ (Image v w) l l') (hheader : ∀ r ∈ l, r ∈ v.headerAt o) :
    v.resolveBases (l.map v.node) = w.resolveBases (l'.map w.node) := by
  have hnodes : List.Forall₂ (fun n m => ∃ r s, Image v w r s ∧ r ∈ v.headerAt o ∧ v.node r = n ∧
      w.node s = m) (l.map v.node) (l'.map w.node) := by
    rw [List.forall₂_map_left_iff, List.forall₂_map_right_iff]
    exact ((List.forall₂_and_left _ _).mpr ⟨hheader, hl⟩).imp fun r s hrs =>
      ⟨r, s, hrs.2, hrs.1, rfl, rfl⟩
  have hbases := forall₂_baseNames hnodes (fun ⟨r, s, hrs, _, hn, hm⟩ => by
    rw [← hn, ← hm]
    exact (h.kind hrs).symm) none
  refine mapM_eq_of_forall₂ hbases ?_
  rintro ⟨b, n⟩ hn ⟨b', m⟩ ⟨rfl, r, s, hrs, hr, rfl, rfl⟩
  obtain ⟨hpr, hro⟩ := mem_headerAt h.left hlo hpo hk hr
  have hnames := (mem_baseNames hn).2
  have hseg : v.graph.taxonomy.nameSegments.contains (v.kind r) = true := by
    rw [h.left.php]
    exact nameSegments_of_namesType hnames
  have hne : p ≠ r := by
    rintro rfl
    exact not_typeKeyword_of_namesType hnames hk
  have hplt : p < r := lt_of_le_of_ne hpr hne
  have hno := hv.no_split hseeks (by rw [KindSet.contains_insert, hk, Bool.true_or])
  have hname := h.nameAt hrs hseg hro hhi (by rw [isCode, h.left.php, ho]; rfl)
    (by rw [h.left.php, ho]; rfl) fun a b ha hb => hno a b (Nat.le_trans hplt ha) hb
  have hlo' : v.lo ≤ r := Nat.le_trans hlo hpr
  have hhi' : r < v.hi := Nat.lt_trans hro hhi
  have hresolve := resolve_congr h.scope.space (h.importTable hv hs)
    (h.left.position?_mark hlo' hhi') (h.right.position?_mark ((h.lo_le hrs).mpr hlo')
      ((h.lt_hi hrs).mpr hhi')) hname .class_
  dsimp only
  rw [show (⟨v.arena, v.node r⟩ : Mark) = v.mark r from rfl, hresolve]
  rfl

end View

end PhpOutline
