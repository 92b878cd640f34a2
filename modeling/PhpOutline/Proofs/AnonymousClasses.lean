import PhpOutline.Proofs.ClauseTokens
import PhpOutline.Proofs.DeclarationListings
import PhpOutline.Proofs.ScanStops
import PhpOutline.Proofs.UseStatements
import PhpOutline.Proofs.ValueListings

/-!
# Anonymous classes

The class keyword of an expression comes behind a double colon, or behind `new` with modifiers of a
class and groups of attributes between them (`NewLeads`). The listing of types goes back over
modifiers only. So it passes over the keyword if there is no group, and takes it for a declaration
if there is one. No view starts between `new` and the keyword (`Fenced`), so that it makes no
difference where the code before the keyword is looked for.
-/

namespace PhpOutline

open PhpOutline.Graph

namespace View

section

variable (v : View)

/-- `new` leads to a token through modifiers of a class and groups of attributes. The flag tells
whether there is a group among them. -/
inductive NewLeads : v.Pos → Bool → Prop
  | new {p q : v.Pos} (h : v.Precedes q p) (hk : v.kind q = .newKw) : NewLeads p false
  | modifier {p q : v.Pos} {grouped : Bool} (h : v.Precedes q p)
      (hk : classModifiers.contains (v.kind q) = true) (hq : NewLeads q grouped) :
        NewLeads p grouped
  | group {p o c : v.Pos} {grouped : Bool} (h : v.Precedes c p) (ho : v.kind o = .attributeOpen)
      (hoc : (v.node o).closedBy = some c.val) (hq : NewLeads o grouped) : NewLeads p true

/-- Where a view starts in the middle of some code, what comes before is an equals sign, the end of
a statement or a name. -/
def Fenced : Prop :=
  ∀ q p : v.Pos, v.Precedes q p → q < v.lo → v.lo ≤ p → p < v.hi →
    v.kind q ∈ [.equals, .semicolon, .string, .nameQualified]

end

variable {v w : View} {p q : v.Pos}

/-! ## Where views start -/

theorem fenced_span {lo hi : Nat} {scope : Scope} (e : v.Pos) (hcode : v.isCode e = true)
    (hkind : v.kind e ∈ [.equals, .semicolon, .string, .nameQualified]) (hlt : e < lo)
    (hgap : ∀ r : v.Pos, e < r → r < lo → v.isCode r = false) : (v.span lo hi scope).Fenced := by
  intro (q : v.Pos) (p : v.Pos) h (hq : q < lo) (hp : lo ≤ p) _
  have hcode' : v.isCode q = true := h.left
  rcases Nat.lt_trichotomy e q with heq | heq | heq
  · rw [hgap q heq hq] at hcode'
    cases hcode'
  · rw [← Fin.ext heq]
    exact hkind
  · have : v.isCode e = false := h.between e heq (show e.val < p.val by omega)
    rw [hcode] at this
    cases this

theorem fenced_block {copy : Nat} {scope : Scope} (h : v.block copy p scope = .ok w) :
    w.Fenced := by
  obtain ⟨_, _, _, hlo, _⟩ := block_ok h
  intro q r _ hq
  omega

theorem fenced_of_empty (h : v.hi ≤ v.lo) : v.Fenced := by
  intro q p _ _ hlo hhi
  omega

theorem Balanced.fenced_valueRange {stop : Nat} {scope : Scope} (hv : v.Balanced)
    (hk : v.kind q = .equals) :
    (v.span (v.valueRange q stop).1 (v.valueRange q stop).2 scope).Fenced := by
  rcases v.trims_valueRange q stop with ⟨first, last, hlo, _, hqf, hfl, hls, _, _, hrange⟩ |
    ⟨hlo, hhi, _⟩
  · rw [hlo]
    apply fenced_span q (hv.isCode_of_kind hk rfl) (by simp [hk]) hqf
    intro r hqr hrf
    have hfl : first.val ≤ last.val := hfl
    rw [Bool.eq_false_iff]
    intro hcode
    have hle : first.val ≤ r.val := (hrange r hqr (by omega) hcode).1
    omega
  · exact fenced_of_empty (Nat.le_of_eq (by rw [span, hlo, hhi]))

variable {copy : Nat} {item : Item}

theorem fenced_functions (h : item ∈ (v.functions copy).items) : item.view.Fenced := by
  obtain ⟨p, nameAt, next, hat⟩ := mem_functions_read h
  obtain ⟨stop, scope, _, _, _, ⟨_, hblock, _⟩ | ⟨_, hview, _⟩⟩ := functionAt_ok hat
  · exact fenced_block hblock
  · rw [hview]
    exact fenced_of_empty (Nat.le_refl _)

theorem fenced_types (h : item ∈ (v.types copy).items) : item.view.Fenced := by
  obtain ⟨p, next, hat⟩ := mem_types_read h
  obtain ⟨_, _, _, _, _, _, _, _, _, hblock, _⟩ := typeAt_ok hat
  exact fenced_block hblock

namespace Balanced

theorem fenced_constants (hv : v.Balanced) (h : item ∈ v.constants.items) : item.view.Fenced := by
  obtain ⟨p, hp⟩ := mem_constants_read h
  obtain ⟨q, _, scope, stop, _, hk, _, _, hview⟩ := mem_constantsAt hp
  rw [hview]
  exact hv.fenced_valueRange hk

theorem fenced_properties {l : Listing Item} (hv : v.Balanced) (hl : v.properties = .ok l)
    (h : item ∈ l.items) :
    item.view.Fenced := by
  obtain ⟨p, next, _, hat⟩ := mem_properties_read hl h
  obtain ⟨scope, _, _, ⟨hview, _⟩ | ⟨q, _, hk, _, hview⟩⟩ := propertyAt_ok hat
  · rw [hview]
    exact fenced_of_empty (Nat.le_refl _)
  · rw [hview]
    exact hv.fenced_valueRange hk

theorem fenced_namespaceAt {next : Nat} (hv : v.Balanced)
    (h : v.namespaceAt copy p = .ok (item, next)) :
    item.view.Fenced := by
  obtain ⟨n, scope, a, hname, _, ha, _, ⟨_, hblock, _⟩ | ⟨_, hend, hview, _⟩⟩ := namespaceAt_ok h
  · exact fenced_block hblock
  · obtain ⟨_, hkind⟩ := namespaceName?_eq_some hname
    obtain ⟨hna, _, _, hgap⟩ := find?_between ha
    rw [hview]
    rw [hv.php] at hend
    rcases closeTag_of_end hend with htag | hsemicolon
    · have hcode : v.isCode n = true := by
        rcases hkind with hk | hk
        · exact hv.isCode_of_kind hk rfl
        · exact hv.isCode_of_kind hk rfl
      apply fenced_span n hcode (by rcases hkind with hk | hk <;> simp [hk]) (by omega)
      intro r hnr hra
      rcases Nat.lt_or_eq_of_le (Nat.le_of_lt_succ hra) with hlt | heq
      · exact (Bool.or_eq_false_iff.mp (hgap r hnr hlt)).1
      · rw [Fin.ext heq, isCode, hv.php, htag]
        rfl
    · apply fenced_span a (hv.isCode_of_kind hsemicolon rfl) (by simp [hsemicolon]) (by omega)
      intro r har hra
      have : a.val < r.val := har
      omega

theorem fenced_namespaces (hv : v.Balanced) (hf : v.Fenced) (h : item ∈ (v.namespaces copy).items) :
    item.view.Fenced := by
  rcases mem_namespaces h with ⟨scope, _, rfl⟩ | ⟨first, hfirst, h⟩
  · -- the code before the first namespace starts where the view does
    have hstop := (hv.siblingOrEnd_ground namespaceKeyword hv.lo).2.le_hi
    intro (q : v.Pos) (p : v.Pos) hqp (hq : q < v.lo) (hlo : v.lo ≤ p) hhi
    exact hf q p ⟨hqp.lt, hqp.left, hqp.right, hqp.between⟩ hq hlo (Nat.lt_of_lt_of_le hhi hstop)
  · obtain ⟨p, next, _, hat⟩ := hv.mem_declaredNamespaces (hv.sibling?_ground hv.lo hfirst) h
    exact hv.fenced_namespaceAt hat

end Balanced

theorem Reaches.fenced {root : View} (hr : root.Balanced) (hlo : root.lo = 0) (h : root.Reaches v) :
    v.Fenced := by
  induction h with
  | refl =>
    intro q p _ hq
    omega
  | step hv hw ih =>
    have hb := hv.balanced hr
    cases hw with
    | namespaces copy h => exact hb.fenced_namespaces ih h
    | types copy h => exact fenced_types h
    | functions copy h => exact fenced_functions h
    | properties hl h => exact hb.fenced_properties hl h
    | constants h => exact hb.fenced_constants h

/-! ## The code before a class keyword -/

theorem Fenced.adjacent (hf : v.Fenced) (hlo : v.lo ≤ p) (hhi : p < v.hi) (h : v.Precedes q p)
    (hk : v.kind q ∉ [.equals, .semicolon, .string, .nameQualified]) : v.Adjacent q p := by
  by_cases hq : v.lo ≤ q
  · exact ⟨h, hq, hhi⟩
  · exact absurd (hf q p h (not_le.mp hq) hlo hhi) hk

theorem classModifier_kind {k : Kind} (h : classModifiers.contains k = true) :
    k ∉ [.equals, .semicolon, .string, .nameQualified] ∧ k ≠ .newKw ∧ k ≠ .doubleColon ∧
      Taxonomy.php.isCloser k = false := by
  cases k <;> first | decide | cases h

theorem Fenced.afterNew {grouped : Bool} (hf : v.Fenced) (hlo : v.lo ≤ p) (hhi : p < v.hi)
    (h : v.NewLeads p grouped) (hg : grouped = false) : v.AfterNew p := by
  induction h with
  | new h hk => exact .new (hf.adjacent hlo hhi h (by simp [hk])) hk
  | @modifier p q _ h hk _ ih =>
    have hq := hf.adjacent hlo hhi h (classModifier_kind hk).1
    have hlt : q.val < p.val := h.lt
    exact .modifier hq hk (ih hq.lo_le (by omega) hg)
  | group => cases hg

theorem Fenced.typeInExpression (hf : v.Fenced) (hlo : v.lo ≤ p) (hhi : p < v.hi)
    (h : (∃ q, v.Precedes q p ∧ v.kind q = .doubleColon) ∨ v.NewLeads p false) :
    v.TypeInExpression p := by
  rcases h with ⟨q, hq, hk⟩ | h
  · exact .inl ⟨q, hf.adjacent hlo hhi hq (by simp [hk]), hk⟩
  · exact .inr (hf.afterNew hlo hhi h rfl)

namespace Balanced

theorem not_afterNew {grouped : Bool} (hv : v.Balanced) (h : v.NewLeads p grouped)
    (hg : grouped = true) :
    ¬ v.AfterNew p := by
  -- going back from the keyword, the first group starts with its closing bracket, where the search
  -- for `new` gives up
  induction h with
  | new => cases hg
  | modifier h hk _ ih =>
    rintro (⟨h', hk'⟩ | ⟨h', _, hq'⟩)
    · rw [← h.left_unique h'.toPrecedes] at hk'
      exact (classModifier_kind hk).2.1 hk'
    · rw [← h.left_unique h'.toPrecedes] at hq'
      exact ih hg hq'
  | group h _ hoc =>
    have hcloser := hv.isCloser_of_closedBy hoc
    rintro (⟨h', hk'⟩ | ⟨h', hk', _⟩)
    · rw [h.left_unique h'.toPrecedes, hk'] at hcloser
      cases hcloser
    · rw [h.left_unique h'.toPrecedes, (classModifier_kind hk').2.2.2] at hcloser
      cases hcloser

theorem not_typeInExpression (hv : v.Balanced) (h : v.NewLeads p true) :
    ¬ v.TypeInExpression p := by
  rintro (⟨q, hq, hk⟩ | hnew)
  · cases h with
    | modifier h hm =>
      rw [← h.left_unique hq.toPrecedes] at hk
      exact (classModifier_kind hm).2.2.1 hk
    | group h _ hoc =>
      have hcloser := hv.isCloser_of_closedBy hoc
      rw [h.left_unique hq.toPrecedes, hk] at hcloser
      cases hcloser
  · exact hv.not_afterNew h rfl hnew

theorem readType_cases (hv : v.Balanced) (hp : v.Found typeKeywords p) (copy : Nat) :
    (v.TypeInExpression p → v.readType copy p = .skip (p + 1)) ∧
      (¬ v.TypeInExpression p → v.readType copy p = .ofItem (v.typeAt copy p)) := by
  have hcode : v.isCode p = true := by rw [isCode, hv.php]; exact (begins_typeKeywords _ hp.mem).2.1
  rw [← hv.inExpression_iff hp.ground.lo_le hp.lt hcode, readType_eq]
  exact ⟨fun h => if_pos h, fun h => if_neg h⟩

theorem typeAt_unnamed (hv : v.Balanced) (hp : v.Found typeKeywords p) (copy : Nat)
    (h : ∀ n, v.Adjacent p n → v.kind n ≠ .string) :
    v.typeAt copy p = .error (.structural (v.node p).line (.typeWithoutName (v.node p).text)) := by
  have hcode : v.isCode p = true := by rw [isCode, hv.php]; exact (begins_typeKeywords _ hp.mem).2.1
  have hname : (v.nextCode? p).filter (v.kind · == .string) = none := by
    rw [Option.filter_eq_none_iff]
    intro n hn
    simpa using h n ((hv.nextCode?_iff_adjacent hp.ground.lo_le hcode).mp hn)
  unfold typeAt
  simp only [hname]
  rfl

end Balanced

/-- The types of a view are what is read where their scan stops. It reports no class keyword behind
a double colon, and none that `new` leads to through modifiers. If there is a group of attributes on
the way, the scan reports the keyword unless it has passed it, and if no name follows, as the error
that ends the listing. -/
theorem types_report_attributed {f : Flags} {g : Graph} {root v : View} (hg : Built .php f g)
    (hroot : ofGraph g = .ok root) (hv : root.Reaches v) (copy : Nat) {p : v.Pos} (hp : v.AtTop p)
    (hk : v.kind p = .classKw) :
    v.types copy = v.readStops typeKeywords (v.readType copy) ∧
    ((∃ q, v.Precedes q p ∧ v.kind q = .doubleColon) ∨ v.NewLeads p false →
      ¬ v.Reports typeKeywords (v.readType copy) p) ∧
    (v.NewLeads p true →
      (v.Reports typeKeywords (v.readType copy) p ↔ ¬ v.Passed typeKeywords (v.readType copy) p) ∧
      ((∀ n, v.Adjacent p n → v.kind n ≠ .string) → (v.readType copy p).failure =
        some (.structural (v.node p).line (.typeWithoutName (v.node p).text)))) := by
  have hr := balanced_of_ofGraph hg hroot
  have hb := hv.balanced hr
  have hf : v.Fenced := hv.fenced hr (by obtain ⟨_, _, rfl⟩ := ofGraph_ok hroot; rfl)
  have hclose : ∀ k, typeKeywords.contains k = true → Taxonomy.php.isCloser k = false := fun k hk =>
    isCloser_of_isPlain (begins_typeKeywords k hk).1
  have hmem : typeKeywords.contains (v.kind p) = true := by rw [hk]; rfl
  have hfound := (hb.found_iff hclose).mpr ⟨hp, hmem⟩
  have hreports : v.Reports typeKeywords (v.readType copy) p ↔
      ¬ v.TypeInExpression p ∧ ¬ v.Passed typeKeywords (v.readType copy) p := by
    rw [hb.reports_iff (fun q hq => (hb.readType_reads hq).next) hclose
      (fun q hq => (hb.readType_cases hq copy).1)]
    · rw [and_iff_right hp, and_iff_right hmem]
    · intro q hq hno
      rw [(hb.readType_cases hq copy).2 hno]
      exact ofItem_reports _
  refine ⟨v.scan_eq typeKeywords _, fun h hreport => ?_, fun h => ⟨?_, fun hnext => ?_⟩⟩
  · exact (hreports.mp hreport).1 (hf.typeInExpression hp.lo_le hp.lt_hi h)
  · rw [hreports, and_iff_right (hb.not_typeInExpression h)]
  · rw [(hb.readType_cases hfound copy).2 (hb.not_typeInExpression h),
      hb.typeAt_unnamed hfound copy hnext]
    rfl

theorem types_report_attributed_sample :
    ∃ (g : Graph) (root : View) (p : root.Pos), Built .php {} g ∧ ofGraph g = .ok root ∧
      root.Reaches root ∧ root.AtTop p ∧ root.kind p = .classKw ∧ root.NewLeads p false ∧
      ¬ root.Reports typeKeywords (root.readType 0) p ∧
      root.types.items.map (·.name) = ["B"] ∧ root.types.error = none := by
  have h : ((ofSource "<?php $a = new readonly class \x7b\x7d; class B \x7b\x7d").toOption.bind
      fun root => (root.sibling? typeKeywords root.lo).bind fun p =>
        (root.prevCode? p).bind fun q => (root.prevCode? q).map fun n =>
          (decide (root.kind p = .classKw ∧ (root.node p).parent = none ∧
            root.kind q = .readonlyKw ∧ root.kind n = .newKw), root.types.items.map (·.name),
            root.types.error)) =
      some (true, ["B"], none) := by
    decide +kernel
  obtain ⟨root, hsource, h⟩ := Option.bind_eq_some_iff.mp h
  obtain ⟨p, hp, h⟩ := Option.bind_eq_some_iff.mp h
  obtain ⟨q, hq, h⟩ := Option.bind_eq_some_iff.mp h
  obtain ⟨n, hn, h⟩ := Option.map_eq_some_iff.mp h
  simp only [Prod.mk.injEq, decide_eq_true_eq] at h
  obtain ⟨⟨hkp, hparent, hkq, hkn⟩, hnames, herror⟩ := h
  obtain ⟨ts, g, _, hlink, hg⟩ := ofSource_ok (ok_of_toOption hsource)
  have hb := balanced_of_ofGraph (.link hlink) hg
  obtain ⟨hlo, hhi⟩ := sibling?_bounds hp
  have hqp := (hb.prevCode?_iff_adjacent hhi (hb.isCode_of_kind hkp rfl)).mp hq
  have hnq := (hb.prevCode?_iff_adjacent (Nat.lt_trans hqp.lt hhi) hqp.left).mp hn
  have hleads : root.NewLeads p false := .modifier hqp.toPrecedes (by rw [hkq]; rfl)
    (.new hnq.toPrecedes hkn)
  obtain ⟨_, hpass, _⟩ := types_report_attributed (.link hlink) hg .refl 0 ⟨hlo, hhi, hparent⟩ hkp
  exact ⟨g, root, p, .link hlink, hg, .refl, ⟨hlo, hhi, hparent⟩, hkp, hleads, hpass (.inr hleads),
    hnames, herror⟩

/-- An anonymous class with an attribute is taken for a class without a name. -/
theorem attributed_class_fails :
    ∃ (root : View) (p : root.Pos), ofSource "<?php $x = new #[A] class \x7b\x7d;" = .ok root ∧
      root.AtTop p ∧ root.kind p = .classKw ∧ root.NewLeads p true ∧
      root.Reports typeKeywords (root.readType 0) p ∧ root.types.items.map (·.name) = [] ∧
      root.types.error = some (.structural 1 (.typeWithoutName "class")) := by
  have h : ((ofSource "<?php $x = new #[A] class \x7b\x7d;").toOption.bind fun root =>
      (root.stops typeKeywords (root.readType 0) root.lo).head?.bind fun p =>
        (root.prevCode? p).bind fun c => (root.sibling? (.ofList [.newKw]) root.lo).bind fun n =>
          (root.nextCode? n).map fun o =>
            (decide (root.lo ≤ p ∧ p < root.hi ∧ (root.node p).parent = none ∧
              root.kind p = .classKw ∧ root.kind n = .newKw ∧ root.kind o = .attributeOpen ∧
              (root.node o).closedBy = some c.val), (root.readType 0 p).failure,
              root.types.items.map (·.name), root.types.error)) =
      some (true, some (.structural 1 (.typeWithoutName "class")), [],
        some (.structural 1 (.typeWithoutName "class"))) := by
    decide +kernel
  obtain ⟨root, hsource, h⟩ := Option.bind_eq_some_iff.mp h
  obtain ⟨p, hp, h⟩ := Option.bind_eq_some_iff.mp h
  obtain ⟨c, hc, h⟩ := Option.bind_eq_some_iff.mp h
  obtain ⟨n, hn, h⟩ := Option.bind_eq_some_iff.mp h
  obtain ⟨o, ho, h⟩ := Option.map_eq_some_iff.mp h
  simp only [Prod.mk.injEq, decide_eq_true_eq] at h
  obtain ⟨⟨hlo, hhi, hparent, hkp, hkn, hko, hoc⟩, hfailure, hnames, herror⟩ := h
  obtain ⟨ts, g, _, hlink, hg⟩ := ofSource_ok (ok_of_toOption hsource)
  have hb := balanced_of_ofGraph (.link hlink) hg
  have hcp := (hb.prevCode?_iff_adjacent hhi (hb.isCode_of_kind hkp rfl)).mp hc
  have hno := (hb.nextCode?_iff_adjacent (sibling?_bounds hn).1 (hb.isCode_of_kind hkn rfl)).mp ho
  exact ⟨root, p, ok_of_toOption hsource, ⟨hlo, hhi, hparent⟩, hkp,
    .group hcp.toPrecedes hko hoc (.new hno.toPrecedes hkn),
    ⟨List.mem_of_mem_head? hp, .inr ⟨_, hfailure⟩⟩, hnames, herror⟩

end View

end PhpOutline
