import PhpOutline.Outline.Build
import PhpOutline.Proofs.ClauseFrames
import PhpOutline.Proofs.CodeTrail
import PhpOutline.Proofs.Reachable
import PhpOutline.Proofs.ScanFailures

/-!
# How an outline can fail

The readers of declarations take a good deal for granted: that no scope is entered twice, that
brackets have partners, that a header has a keyword, that properties are asked for on the body of a
type and names resolved where they stand. In the views that an outline goes through all of this
holds, so that it fails by what is wrong with the source alone (`Error.OfSource`). No index and no
slice is out of range: a chunk of the source is no longer than what is left of it (`Fits`), every
index in a view leads to a token (`InBounds`), and so does every index into the code of a use clause
(`InRange`).
-/

namespace PhpOutline

/-- A declaration of the wrong form; a bracket without a partner and a body without a keyword are
none, since the brackets of a view are matched. -/
def StructuralError.OfSource (e : StructuralError) : Prop :=
  (∀ text, e ≠ .neverClosed text) ∧ ∀ name, e ≠ .typeWithoutKeyword name

def Error.OfSource : Error → Prop
  | .lex _ => True
  | .structural _ e => e.OfSource
  | .usage _ => False

def Clean {α : Type} (r : Except Error α) : Prop := ∀ e, r = .error e → e.OfSource

section

variable {α β : Type}

theorem Clean.ok (a : α) : Clean (.ok a) := by
  intro e h
  cases h

theorem Clean.bind {x : Except Error α} {f : α → Except Error β} (hx : Clean x)
    (hf : ∀ a, x = .ok a → Clean (f a)) : Clean (x >>= f) := by
  intro e h
  cases x with
  | error e' => cases h; exact hx _ rfl
  | ok a => exact hf a rfl e h

theorem Clean.structural {line : Nat} {e : StructuralError} (h : e.OfSource) :
    Clean (.error (.structural line e) : Except Error α) := by
  intro e' he
  cases he
  exact h

theorem Clean.lex (r : Except LexError α) : Clean (r.mapError .lex) := by
  intro e h
  cases r with
  | ok a => cases h
  | error e' => cases h; trivial

theorem Clean.mapM {f : α → Except Error β} {l : List α} (h : ∀ a ∈ l, Clean (f a)) :
    Clean (l.mapM f) := by
  induction l with
  | nil => exact Clean.ok []
  | cons a l ih =>
    rw [List.mapM_cons]
    apply Clean.bind (h a (by simp))
    intro b _
    apply Clean.bind (ih fun a' ha' => h a' (by simp [ha']))
    intro bs _
    exact Clean.ok _

theorem Listing.get_eq_error_iff {l : Listing α} {e : Error} :
    l.get = .error e ↔ l.error = some e := by
  unfold Listing.get
  cases l.error <;> simp

theorem Listing.clean_mapM {f : α → Except Error β} {l : Listing α} (hl : Clean l.get)
    (h : ∀ a ∈ l.items, Clean (f a)) : Clean (l.mapM f) := by
  apply Clean.bind (Clean.mapM h)
  intro bs _
  split
  · exact Clean.ok bs
  · rename_i e he
    intro e' h'
    cases h'
    exact hl e (Listing.get_eq_error_iff.mpr he)

end

namespace View

open PhpOutline.Graph

variable {v w : View} {p : v.Pos} {copy : Nat} {item : Item}

/-! ## Readers -/

theorem Balanced.roles_brace (hv : v.Balanced) (hk : v.kind p = .openBrace) :
    v.graph.roles p = .opens := by
  rw [roles_pos, hv.php, role_eq_opens hv.matched, hk]
  rfl

theorem Balanced.closer_of_brace (hv : v.Balanced) (hk : v.kind p = .openBrace) (hlt : p < v.hi) :
    ∃ c, v.closer p = .ok c := by
  obtain ⟨c, _, hpair⟩ := hv.exists_closer (hv.roles_brace hk) hlt
  refine ⟨c, ?_⟩
  rw [closer, (hv.linked.closedBy_eq_some (getElem?_pos p)).mpr hpair]

theorem Balanced.block_of_brace (hv : v.Balanced) (hk : v.kind p = .openBrace) (hlt : p < v.hi)
    (copy : Nat) (scope : Scope) :
    ∃ w, v.block copy p scope = .ok w := by
  obtain ⟨c, hc⟩ := hv.closer_of_brace hk hlt
  have hopener : v.graph.taxonomy.isOpener (v.node p).kind = true := by
    rw [hv.php, show (v.node p).kind = .openBrace from hk]
    rfl
  rw [block, interior_eq_cut (getElem?_pos p) hopener (closer_ok hc)]
  exact ⟨_, rfl⟩

theorem Balanced.namespaceAt_clean (hv : v.Balanced) (hs : v.scope.space = none) (p : v.Pos) :
    Clean (v.namespaceAt copy p) := by
  unfold namespaceAt
  dsimp only
  split
  · rename_i nameAt hname
    rw [Scope.enterNamespace, hs]
    apply Clean.bind (Clean.ok _)
    intro scope _
    split
    · rename_i after hafter
      have hlt : after < v.hi := (find?_between hafter).2.1
      split
      · rename_i hbrace
        obtain ⟨c, hc⟩ := hv.closer_of_brace hbrace hlt
        obtain ⟨body, hbody⟩ := hv.block_of_brace hbrace hlt copy scope
        rw [hc, hbody]
        exact Clean.ok _
      · split
        · exact Clean.ok _
        · exact Clean.structural ⟨by simp, by simp⟩
    · exact Clean.structural ⟨by simp, by simp⟩
  · exact Clean.structural ⟨by simp, by simp⟩

theorem Balanced.typeAt_clean (hv : v.Balanced) (hs : v.scope.type = none) (p : v.Pos) :
    Clean (v.typeAt copy p) := by
  unfold typeAt
  dsimp only
  split
  · rename_i nameAt hname
    split
    · rename_i opener hopener
      obtain ⟨hopener, hbrace⟩ := Option.filter_eq_some_iff.mp hopener
      have hlt := (sibling?_bounds hopener).2
      have hkind : v.kind opener = .openBrace := by simpa using hbrace
      rw [Scope.enterType, hs]
      apply Clean.bind (Clean.ok _)
      intro scope _
      obtain ⟨c, hc⟩ := hv.closer_of_brace hkind hlt
      obtain ⟨body, hbody⟩ := hv.block_of_brace hkind hlt copy scope
      rw [hc, hbody]
      exact Clean.ok _
    · exact Clean.structural ⟨by simp, by simp⟩
  · exact Clean.structural ⟨by simp, by simp⟩

theorem Balanced.functionAt_clean (hv : v.Balanced) (hs : v.scope.member = none)
    (p nameAt : v.Pos) :
    Clean (v.functionAt copy p nameAt) := by
  unfold functionAt
  dsimp only
  split
  · rename_i stop hstop
    have hlt := (sibling?_bounds hstop).2
    rw [Scope.enterMember, hs]
    apply Clean.bind (Clean.ok _)
    intro scope _
    split
    · rename_i hbrace
      obtain ⟨c, hc⟩ := hv.closer_of_brace hbrace hlt
      obtain ⟨body, hbody⟩ := hv.block_of_brace hbrace hlt copy scope
      rw [hc, hbody]
      exact Clean.ok _
    · exact Clean.ok _
  · exact Clean.structural ⟨by simp, by simp⟩

theorem propertyAt_clean (hs : v.scope.member = none) (p : v.Pos) : Clean (v.propertyAt p) := by
  unfold propertyAt
  dsimp only
  rw [Scope.enterMember, hs]
  apply Clean.bind (Clean.ok _)
  intro scope _
  split <;> exact Clean.ok _

theorem constantHead_clean (hs : v.scope.member = none) (p : v.Pos) : Clean (v.constantHead p) := by
  unfold constantHead
  split
  · exact Clean.structural ⟨by simp, by simp⟩
  · split
    · exact Clean.structural ⟨by simp, by simp⟩
    · split
      · exact Clean.structural ⟨by simp, by simp⟩
      · dsimp only
        rw [Scope.enterMember, hs]
        exact Clean.ok _

theorem constantsAt_clean (hs : v.scope.member = none) (p : v.Pos) :
    Clean (v.constantsAt p).next := by
  fun_induction constantsAt v p with
  | case1 p e he =>
    have hat : Clean (v.constantAt p) := (constantHead_clean hs p).bind fun _ _ => Clean.ok _
    intro e' h
    cases h
    exact hat e he
  | case2 => exact Clean.ok _
  | case3 p item last comma hat ih => exact ih

/-! ## Listings -/

theorem Balanced.scan_clean {set : KindSet} {read : v.Pos → Reading Item} {i : Nat}
    (hv : v.Balanced) (hread : ∀ p : v.Pos, v.Found set p → v.Reads p (read p))
    (hclean : ∀ p : v.Pos, Clean (read p).next) (hi : v.Ground i) :
    Clean (v.scan set read i).get := by
  intro e he
  obtain ⟨p, _, hp⟩ := (hv.scan_found (fun p hp => (hread p hp).next) hi).2 e
    (Listing.get_eq_error_iff.mp he)
  exact hclean p e hp

theorem ofItem_clean {r : Except Error (Item × Nat)} (h : Clean r) :
    Clean (Reading.ofItem r).next := by
  cases r with
  | error e =>
    intro e' he
    cases he
    exact h e rfl
  | ok found => exact Clean.ok _

theorem Balanced.types_clean (hv : v.Balanced) (hs : v.scope.type = none) :
    Clean (v.types copy).get := by
  apply hv.scan_clean (fun _ => hv.readType_reads) _ hv.lo
  intro p
  rw [readType_eq]
  split
  · exact Clean.ok _
  · exact ofItem_clean (hv.typeAt_clean hs p)

theorem Balanced.functions_clean (hv : v.Balanced) (hs : v.scope.member = none) :
    Clean (v.functions copy).get := by
  apply hv.scan_clean (fun _ => hv.readFunction_reads) _ hv.lo
  intro p
  rw [readFunction_eq]
  split
  · exact Clean.ok _
  · split
    · exact Clean.ok _
    · exact ofItem_clean (hv.functionAt_clean hs p _)

theorem Balanced.constants_clean (hv : v.Balanced) (hs : v.scope.member = none) :
    Clean v.constants.get := by
  apply hv.scan_clean (fun _ => hv.readConstants_reads) _ hv.lo
  intro p
  unfold readConstants
  split
  · exact Clean.ok _
  · exact constantsAt_clean hs p

theorem Balanced.properties_clean (hv : v.Balanced) (hs : v.scope.member = none)
    (hb : v.isTypeBody = true) :
    ∃ l, v.properties = .ok l ∧ Clean l.get := by
  refine ⟨_, by rw [properties, if_pos hb], ?_⟩
  apply hv.scan_clean (fun _ => hv.property_reads) _ hv.lo
  intro p
  exact ofItem_clean (propertyAt_clean hs p)

theorem Balanced.declaredNamespaces_clean {i : Nat} (hv : v.Balanced) (copy : Nat)
    (hs : v.scope.space = none) (hi : v.Ground i) : Clean (v.declaredNamespaces copy i).get :=
  hv.scan_clean (fun _ => hv.namespace_reads) (fun p => ofItem_clean (hv.namespaceAt_clean hs p)) hi

theorem withPreamble_clean {stop : Nat} {rest : Listing Item} (hs : v.scope.space = none)
    (h : Clean rest.get) : Clean (v.withPreamble stop rest).get := by
  rw [withPreamble, Scope.enterNamespace, hs]
  intro e he
  have herror := Listing.get_eq_error_iff.mp he
  exact h e (Listing.get_eq_error_iff.mpr herror)

theorem Balanced.namespaces_clean (hv : v.Balanced) (hs : v.scope.space = none) :
    Clean (v.namespaces copy).get := by
  unfold namespaces
  split
  · exact withPreamble_clean hs (Clean.ok _)
  · rename_i first hfirst
    have hclean := hv.declaredNamespaces_clean copy hs (hv.sibling?_ground hv.lo hfirst)
    split
    · exact withPreamble_clean hs hclean
    · exact hclean

/-! ## Imports -/

theorem readAlias_error {kind : ImportKind} {name : String} {code : List v.Pos}
    {e : StructuralError} (h : v.readAlias kind name code = .error e) : e.OfSource := by
  unfold readAlias readAlias.bare at h
  repeat' split at h
  all_goals cases h
  all_goals exact ⟨by simp, by simp⟩

theorem splitGroup_error {opener : v.Pos} {code : List v.Pos} {e : StructuralError}
    (h : v.splitGroup opener code = .error e) : e.OfSource := by
  unfold splitGroup at h
  repeat' split at h
  all_goals cases h
  all_goals exact ⟨by simp, by simp⟩

theorem readItems_error {lead follow : String} {kind : ImportKind} {code : List v.Pos}
    {e : StructuralError} (h : v.readItems lead kind follow code = .error e) : e.OfSource := by
  fun_induction readItems v lead kind follow code with
  | case1 | case9 => cases h
  | case2 | case7 | case11 => cases h; exact ⟨by simp, by simp⟩
  | case3 lead kind follow code _ itemKind named _ own _ _ =>
    cases halias : v.readAlias itemKind (lead ++ own) [] with
    | error e' =>
      rw [halias] at h
      cases h
      exact readAlias_error halias
    | ok found =>
      rw [halias] at h
      cases h
  | case4 _ _ _ _ _ _ _ _ _ _ _ _ _ _ e' he => cases h; exact splitGroup_error he
  | case5 _ _ _ _ _ _ _ _ _ _ _ _ _ _ _ _ _ _ ih => exact ih h
  | case6 _ _ _ _ _ _ _ _ _ _ _ _ _ _ _ _ _ _ _ _ _ ihgroup ihmore =>
    rcases of_bind_error h with h | ⟨grouped, _, h⟩
    · exact ihgroup h
    · rcases of_bind_error h with h | ⟨others, _, h⟩
      · exact ihmore h
      · cases h
  | case8 _ _ _ _ _ _ _ _ _ _ _ _ _ _ e' he => cases h; exact readAlias_error he
  | case10 _ _ _ _ _ _ _ _ _ _ _ _ _ _ _ _ _ _ _ _ ihmore =>
    rcases of_bind_error h with h | ⟨others, _, h⟩
    · exact ihmore h
    · cases h

theorem readClause_error {code : List v.Pos} {e : StructuralError}
    (h : v.readClause code = .error e) :
    e.OfSource := by
  rw [readClause_eq] at h
  split at h
  · cases h
    exact ⟨by simp, by simp⟩
  · exact readItems_error h

theorem importsAt_clean (p : v.Pos) : Clean (v.importsAt p) := by
  unfold importsAt
  dsimp only
  split
  · exact Clean.structural ⟨by simp, by simp⟩
  · split
    · rename_i e he
      exact Clean.structural (readClause_error he)
    · exact Clean.ok _

theorem importsFrom_clean (v : View) (i : Nat) : Clean (v.importsFrom i).get := by
  fun_induction importsFrom v i with
  | case1 | case5 => exact Clean.ok _
  | case2 i hlt p hp hstarts e he =>
    intro e' he'
    cases he'
    exact importsAt_clean p e he
  | case3 i hlt p hp hstarts imports stop hat ih =>
    intro e he
    have herror := Listing.get_eq_error_iff.mp he
    exact ih e (Listing.get_eq_error_iff.mpr herror)
  | case4 i hlt p hp hstarts ih => exact ih

/-! ## Names in a type header -/

theorem Balanced.position?_codeBetween {n : Node} {b : Nat} (hv : v.Balanced)
    (hn : n ∈ v.graph.codeBetween v.lo b) (hb : b ≤ v.hi) :
    ∃ p, v.position? ⟨v.arena, n⟩ = some p ∧ v.node p = n := by
  obtain ⟨i, hlo, hib, hi, _⟩ := mem_codeBetween.mp hn
  have hindex := (hv.linked.nodes i n hi).index
  obtain ⟨hlt, hnode⟩ := Array.getElem?_eq_some_iff.mp hi
  refine ⟨⟨i, hlt⟩, ?_, hnode⟩
  rw [position?, if_pos ⟨rfl, by rw [hindex]; exact hlo, by rw [hindex]; omega⟩, hindex, pos?,
    dif_pos hlt]

theorem position?_mark (hlo : v.lo ≤ (v.node p).index) (hp : p < v.hi)
    (hindex : (v.node p).index = p) :
    v.position? (v.mark p) = some p := by
  rw [position?, if_pos ⟨rfl, hlo, by rw [mark, hindex]; exact hp⟩]
  simp [mark, hindex, pos?]

theorem mem_takeThrough {α : Type} {test : α → Bool} {l : List α} {a : α}
    (h : a ∈ takeThrough test l) :
    a ∈ l := by
  fun_induction takeThrough test l with
  | case1 => exact h
  | case2 b l hb => simp_all
  | case3 b l hb ih =>
    rcases List.mem_cons.mp h with rfl | h
    · simp
    · exact List.mem_cons_of_mem _ (ih h)

theorem takeThrough_ne_nil {α : Type} {test : α → Bool} {l : List α} (h : l ≠ []) :
    takeThrough test l ≠ [] := by
  cases l with
  | nil => exact absurd rfl h
  | cons a l =>
    rw [takeThrough]
    split <;> simp

/-- The header of a type is not empty, since its name stands before its body. -/
theorem Balanced.typeHeader_eq {next : Nat} (hv : v.Balanced) (hp : v.Found typeKeywords p)
    (h : v.typeAt copy p = .ok (item, next)) :
    ∃ opener keyword header, item.view.anchor = some (v.mark opener) ∧
      v.typeHeader (v.mark opener) = keyword :: header ∧
      ∀ n ∈ header, n ∈ v.graph.codeBetween v.lo v.hi := by
  obtain ⟨nameAt, opener, scope, hname, hstring, hopener, _, _, _, hblock, _⟩ := typeAt_ok h
  obtain ⟨_, _, _, _, _, _, hanchor, _⟩ := block_ok hblock
  obtain ⟨hground, _, _⟩ := hv.nextCode?_ground hp.ground (isPlain_of_typeKeyword hp.mem) hname
  have hlo := hground.lo_le
  obtain ⟨hle, hlt⟩ := sibling?_bounds hopener
  have hindex := (hv.linked.nodes opener _ (getElem?_pos opener)).index
  have hcode : v.node nameAt ∈ v.graph.codeBetween v.lo opener := by
    refine mem_codeBetween.mpr ⟨nameAt, hlo, hle, getElem?_pos nameAt, ?_⟩
    rw [hv.php, show (v.node nameAt).kind = .string from hstring]
    rfl
  have hheader : v.typeHeader (v.mark opener) =
      (takeThrough (typeKeywords.contains ·.kind)
        (v.graph.codeBetween v.lo opener).reverse).reverse := by
    rw [typeHeader, position?_mark (by rw [hindex]; omega) hlt hindex,
      ← hv.codeBefore_eq (by omega)]
  have hmem : ∀ n ∈ v.typeHeader (v.mark opener), n ∈ v.graph.codeBetween v.lo v.hi := by
    intro n hn
    rw [hheader, List.mem_reverse] at hn
    obtain ⟨i, hi, hio, hin, hc⟩ := mem_codeBetween.mp (List.mem_reverse.mp (mem_takeThrough hn))
    exact mem_codeBetween.mpr ⟨i, hi, by omega, hin, hc⟩
  cases hh : v.typeHeader (v.mark opener) with
  | nil =>
    rw [hheader, List.reverse_eq_nil_iff] at hh
    have hnil : (v.graph.codeBetween v.lo opener).reverse = [] := by
      by_contra hne
      exact takeThrough_ne_nil hne hh
    rw [List.reverse_eq_nil_iff.mp hnil] at hcode
    cases hcode
  | cons keyword header =>
    refine ⟨opener, keyword, header, hanchor, hh, ?_⟩
    intro n hn
    exact hmem n (by rw [hh]; exact List.mem_cons_of_mem _ hn)

theorem mem_baseNames {current : Option Base} {header : List Node} {b : Base} {n : Node}
    (h : (b, n) ∈ baseNames current header) : n ∈ header ∧ namesType n.kind = true := by
  fun_induction baseNames current header with
  | case1 => cases h
  | case2 _ _ _ _ ih | case3 _ _ _ _ ih | case4 _ _ _ _ ih | case6 _ _ _ _ _ _ ih =>
    exact ⟨List.mem_cons_of_mem _ (ih h).1, (ih h).2⟩
  | case5 m _ _ _ _ hm ih =>
    rcases List.mem_cons.mp h with h | h
    · cases h
      exact ⟨by simp, hm⟩
    · exact ⟨List.mem_cons_of_mem _ (ih h).1, (ih h).2⟩

theorem nameSegments_of_namesType {k : Kind} (h : namesType k = true) :
    Taxonomy.php.nameSegments.contains k = true := by
  cases k <;> first | rfl | cases h

theorem importTable_clean (v : View) : Clean v.importTable := by
  apply Clean.bind (importsFrom_clean _ _)
  intro imports _
  exact Clean.ok _

theorem nameAt_clean (h : v.graph.taxonomy.nameSegments.contains (v.kind p) = true) :
    Clean (v.nameAt p) := by
  unfold nameAt
  dsimp only
  rw [if_pos h]
  exact Clean.ok _

theorem Balanced.resolve_clean {n : Node} {space : String} (hv : v.Balanced)
    (hs : v.scope.space = some space) (hn : n ∈ v.graph.codeBetween v.lo v.hi)
    (hname : namesType n.kind = true) (kind : ImportKind) :
    Clean (v.resolve kind ⟨v.arena, n⟩) := by
  obtain ⟨p, hp, rfl⟩ := hv.position?_codeBetween hn (Nat.le_refl _)
  unfold resolve
  rw [hs, hp]
  dsimp only
  apply Clean.bind (nameAt_clean ?_)
  · intro name _
    split
    · exact Clean.ok _
    · split
      · exact Clean.ok _
      · split
        · exact Clean.ok _
        · apply Clean.bind (importTable_clean v)
          intro table _
          exact Clean.ok _
  · rw [hv.php]
    exact nameSegments_of_namesType hname

theorem Balanced.resolveBases_clean {header : List Node} {space : String} (hv : v.Balanced)
    (hs : v.scope.space = some space) (hh : ∀ n ∈ header, n ∈ v.graph.codeBetween v.lo v.hi) :
    Clean (v.resolveBases header) := by
  apply Clean.mapM
  rintro ⟨b, n⟩ hn
  obtain ⟨hn, hname⟩ := mem_baseNames hn
  apply Clean.bind (hv.resolve_clean hs (hh n hn) hname .class_)
  intro name _
  exact Clean.ok _

/-! ## Scopes of what is listed -/

theorem typeAt_scope {next : Nat} (h : v.typeAt copy p = .ok (item, next)) :
    item.view.isTypeBody = true ∧ item.view.scope.member = v.scope.member := by
  obtain ⟨nameAt, opener, scope, _, _, _, _, hscope, _, hblock, _⟩ := typeAt_ok h
  obtain ⟨_, _, _, _, _, _, hanchor, rfl, _⟩ := block_ok hblock
  unfold Scope.enterType at hscope
  split at hscope
  · cases hscope
  · simp only [Except.ok.injEq] at hscope
    rw [isTypeBody, hanchor, ← hscope]
    simp [Mark.same]

end View

/-! ## Outlines -/

open View PhpOutline.Graph

section

variable {s : OutlineSettings} {v : View} {item : Item} {copy : Nat}

theorem outlineValues_clean {l : Listing Item} (h : Clean l.get) : Clean (outlineValues s l) :=
  Listing.clean_mapM h fun _ _ => Clean.ok _

theorem outlineFunctions_clean {l : Listing Item} (h : Clean l.get) : Clean (outlineFunctions l) :=
  Listing.clean_mapM h fun _ _ => Clean.ok _

theorem outlineType_clean {space name : String} (hv : v.Balanced)
    (hs : v.scope.space = some space) (hm : v.scope.member = none)
    (h : item ∈ (v.types copy).items) : Clean (outlineType s name v item) := by
  have hbody := (hv.types_parts item h).balanced hv
  obtain ⟨p, next, hp, hat⟩ := hv.mem_types h
  obtain ⟨opener, keyword, header, hanchor, hheader, hcode⟩ := hv.typeHeader_eq hp hat
  obtain ⟨htype, hmember⟩ := typeAt_scope hat
  rw [hm] at hmember
  obtain ⟨l, hl, hproperties⟩ := hbody.properties_clean hmember htype
  unfold outlineType
  rw [hanchor]
  dsimp only
  rw [hheader]
  apply Clean.bind (hv.resolveBases_clean hs hcode)
  intro bases _
  apply Clean.bind (outlineValues_clean (hbody.constants_clean hmember))
  intro constants _
  rw [hl]
  apply Clean.bind (outlineValues_clean hproperties)
  intro properties _
  apply Clean.bind (outlineFunctions_clean (hbody.functions_clean hmember))
  intro methods _
  exact Clean.ok _

theorem outlineNamespace_clean (hv : v.Balanced) (hs : v.scope = {})
    (h : item ∈ (v.namespaces copy).items) :
    Clean (outlineNamespace s item) := by
  have hitem := (hv.namespaces_parts item h).balanced hv
  have hscope := mem_namespaces_scope h
  rw [hs] at hscope
  have hscope : item.view.scope = ⟨some item.name, none, none⟩ := (Except.ok.inj hscope).symm
  unfold outlineNamespace
  apply Clean.bind (importsFrom_clean _ _)
  intro imports _
  apply Clean.bind (outlineValues_clean (hitem.constants_clean (by rw [hscope])))
  intro constants _
  apply Clean.bind (outlineFunctions_clean (hitem.functions_clean (by rw [hscope])))
  intro functions _
  apply Clean.bind (Listing.clean_mapM (hitem.types_clean (by rw [hscope])) ?_)
  · intro types _
    exact Clean.ok _
  · intro type htype
    exact outlineType_clean hitem (by rw [hscope]) (by rw [hscope]) htype

end

theorem outlineSource_eq (s : Settings) (source : String) :
    outlineSource s source = (do
      let root ← ofSource source { s.lexer.flags with matchBrackets := true }
      return { namespaces := ← root.namespaces.mapM (outlineNamespace s.outline) }) := by
  unfold outlineSource outlineTokens ofSource
  simp only [bind_assoc]

theorem ofSource_clean (source : String) {f : Flags} (hf : f.matchBrackets = true) :
    Clean (ofSource source f) := by
  apply Clean.bind (Clean.lex _)
  intro ts _
  apply Clean.bind (Clean.lex _)
  intro g hg
  have hlink : link .php f ts = .ok g := by
    cases hl : link .php f ts with
    | error e => rw [hl] at hg; cases hg
    | ok g' => rw [hl] at hg; cases hg; rfl
  unfold ofGraph
  rw [(link_tokens_eq hlink).2.1, if_pos hf]
  split
  · intro e he
    cases he
    trivial
  · exact Clean.ok _

theorem outlineSource_clean (s : Settings) (source : String) : Clean (outlineSource s source) := by
  rw [outlineSource_eq]
  apply Clean.bind (ofSource_clean source rfl)
  intro root hroot
  obtain ⟨ts, g, _, hlink, hg⟩ := ofSource_ok hroot
  have hbalanced := balanced_of_ofGraph (.link hlink) hg
  have hscope : root.scope = {} := by
    obtain ⟨_, _, rfl⟩ := ofGraph_ok hg
    rfl
  apply Clean.bind (Listing.clean_mapM (hbalanced.namespaces_clean (by rw [hscope])) ?_)
  · intro namespaces _
    exact Clean.ok _
  · intro item hitem
    exact outlineNamespace_clean hbalanced hscope hitem

/-! ## Indices -/

def Node.links (n : Node) : List Nat :=
  [n.prev, n.next, n.prevCode, n.nextCode, n.parent, n.openedBy, n.closedBy].reduceOption

/-- A range of the graph in which every node knows its index, every link leads to a node and a
bracket stands before its partner. -/
structure View.InBounds (v : View) : Prop where
  lo_le_hi : v.lo ≤ v.hi
  hi_le_size : v.hi ≤ v.graph.size
  index_eq : ∀ p : v.Pos, (v.node p).index = p
  links_lt : ∀ p : v.Pos, ∀ i ∈ (v.node p).links, i < v.graph.size
  lt_closer : ∀ (p : v.Pos) (c : Nat), (v.node p).closedBy = some c → p < c

theorem Graph.Linked.links_lt {g : Graph} {i : Nat} {n : Node} (hg : g.Linked)
    (hn : g.nodes[i]? = some n) :
    ∀ j ∈ n.links, j < g.size := by
  have hi : i < g.size := (Array.getElem?_eq_some_iff.mp hn).1
  have hnode := hg.nodes i n hn
  intro j hj
  simp only [Node.links, List.reduceOption_mem_iff, List.mem_cons, List.not_mem_nil, or_false] at hj
  rcases hj with hj | hj | hj | hj | hj | hj | hj <;> replace hj := hj.symm
  · have := (hnode.prev j).mp hj
    omega
  · rw [← length_tokens]
    exact ((hnode.next j).mp hj).2
  · rw [← length_tokens]
    exact ((hnode.prevCode j).mp hj).holds.lt
  · rw [← length_tokens]
    exact ((hnode.nextCode j).mp hj).holds.lt
  · have := ((hnode.parent j).mp hj).lt
    omega
  · have := ((hnode.openedBy j).mp hj).lt
    omega
  · rw [← length_tokens]
    exact ((hnode.closedBy j).mp hj).closer_lt

theorem View.Balanced.inBounds {v : View} (hv : v.Balanced) : v.InBounds where
  lo_le_hi := hv.lo.le_hi
  hi_le_size := hv.hi_le
  index_eq p := (hv.linked.nodes p _ (getElem?_pos p)).index
  links_lt p := hv.linked.links_lt (getElem?_pos p)
  lt_closer _ _ hc := (hv.pair_of_closedBy hc).lt

/-- Whatever the source and the settings, an outline is made, or the tokens are at fault, or a
declaration does not have its form. Nothing is asked for that makes no sense where it is asked, no
bracket is without its partner and no body without its keyword. Wherever the scan of the source
comes to, the chunk that it takes lies in the text that is left. The views that are gone through lie
in bounds, and reading a use clause in them never looks beyond its code. -/
theorem outlineSource_fails_by_source (s : Settings) (source : String) :
    ((∃ o, outlineSource s source = .ok o) ∨ (∃ e, outlineSource s source = .error (.lex e)) ∨
      ∃ line e, outlineSource s source = .error (.structural line e) ∧
        (∀ text, e ≠ .neverClosed text) ∧ ∀ name, e ≠ .typeWithoutKeyword name) ∧
    (∀ (ts : List Token) (st : Lexer.State) (c : Char) (r : List Char) (k : Lexer.Chunk),
      Lexer.Scans {} source.toList ts st (c :: r) → st.chunk c (c :: r) = .ok k → k.Fits (c :: r)) ∧
    ∀ root v, ofSource source { s.lexer.flags with matchBrackets := true } = .ok root →
      root.Reaches v → v.InBounds ∧
        ∀ (code : Array v.Pos) (n : Nat), v.readStack code ≠ .error (.outside n) := by
  refine ⟨?_, fun ts st c r k _ hk => Lexer.chunk_fits hk, ?_⟩
  · have hclean := outlineSource_clean s source
    cases h : outlineSource s source with
    | ok o => exact .inl ⟨o, rfl⟩
    | error e =>
      have he := hclean e h
      cases e with
      | lex e => exact .inr (.inl ⟨e, rfl⟩)
      | structural line e => exact .inr (.inr ⟨line, e, rfl, he⟩)
      | usage e => cases he
  · intro root v hroot hv
    obtain ⟨ts, g, _, hlink, hg⟩ := ofSource_ok hroot
    exact ⟨(hv.balanced (balanced_of_ofGraph (.link hlink) hg)).inBounds, readStack_inRange⟩

theorem outlineSource_fails_by_source_use :
    (∃ (ts : List Token) (st : Lexer.State), Lexer.Scans {} "<?php $".toList ts st ['$'] ∧
      st.chunk '$' ['$'] = .ok (.one .operator 1) ∧ (Lexer.Chunk.one .operator 1).Fits ['$']) ∧
    (∃ root, ofSource "<?php use A\\\x7bB, C as D\x7d;" ⟨true, true⟩ = .ok root ∧
      ∃ code : Array root.Pos, code.size = 9 ∧
        (root.readStack code).toOption = some [⟨"B", .class_, "A\\B"⟩, ⟨"D", .class_, "A\\C"⟩] ∧
        root.readStack code ≠ .error (.outside 9)) ∧
    ∃ root v, ofSource "<?php class A extends B\x7b\x7d use C" ⟨true, true⟩ = .ok root ∧
      root.Reaches v ∧ v.hi = 8 ∧ v.InBounds ∧
      outlineSource { lexer := ⟨false, false⟩ } "<?php class A extends B\x7b\x7d use C" =
        .error (.structural 1 .useWithoutEnd) := by
  refine ⟨?_, ?_, ?_⟩
  · have hscans : Lexer.Scans {} "<?php $".toList [⟨.openTag, "<?php ", 0, 1⟩] ⟨.php, {}, 6, 1⟩
        ['$'] :=
      .step (k := ⟨[(.openTag, 6)], .php⟩) rfl (.refl _ _)
    obtain ⟨_, hfits, _⟩ := outlineSource_fails_by_source {} "<?php $"
    exact ⟨_, _, hscans, rfl, hfits _ _ _ _ _ hscans rfl⟩
  · have h : ((ofSource "<?php use A\\\x7bB, C as D\x7d;" ⟨true, true⟩).toOption.map fun root =>
        (((root.between 1 (root.hi - 1)).filter root.isCode).toArray.size,
          (root.readStack ((root.between 1 (root.hi - 1)).filter root.isCode).toArray).toOption)) =
        some (9, some [⟨"B", .class_, "A\\B"⟩, ⟨"D", .class_, "A\\C"⟩]) := by
      decide +kernel
    simp only [Option.map_eq_some_iff, Prod.mk.injEq] at h
    obtain ⟨root, hroot, hsize, hread⟩ := h
    have hsource := ok_of_toOption hroot
    obtain ⟨_, _, hbounds⟩ := outlineSource_fails_by_source
      { lexer := ⟨true, false⟩ } "<?php use A\\\x7bB, C as D\x7d;"
    exact ⟨root, hsource, _, hsize, hread, (hbounds root root hsource .refl).2 _ 9⟩
  · have h : ((ofSource "<?php class A extends B\x7b\x7d use C" ⟨true, true⟩).toOption.bind
        fun root => root.namespaces.items.head?.map (·.view.hi)) = some 8 := by
      decide +kernel
    simp only [Option.bind_eq_some_iff, Option.map_eq_some_iff] at h
    obtain ⟨root, hroot, a, ha, hhi⟩ := h
    have hsource := ok_of_toOption hroot
    have hreach : root.Reaches a.view := .step .refl (.namespaces 0 (List.mem_of_mem_head? ha))
    obtain ⟨_, _, hbounds⟩ := outlineSource_fails_by_source { lexer := ⟨false, false⟩ }
      "<?php class A extends B\x7b\x7d use C"
    refine ⟨root, a.view, hsource, hreach, hhi, (hbounds root a.view hsource hreach).1, ?_⟩
    decide +kernel

end PhpOutline
