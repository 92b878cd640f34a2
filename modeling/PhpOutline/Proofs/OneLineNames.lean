import PhpOutline.Proofs.Identifiers
import PhpOutline.Proofs.NameResolution
import PhpOutline.Proofs.TypeHeaders

/-!
# Names of one line

No line end is part of a name. It is no part of an identifier, and so of no token that names are
read from: words, keywords, qualified names, separators and variables. What a view lists is named by
such tokens, and a full name is put together from them. So all names in the outline of a source are
of one line (`names_of_outlineSource`).
-/

namespace PhpOutline

open Lexeme

/-- A text without a line end. -/
def OneLine (s : String) : Prop := '\n' ∉ s.toList

instance (s : String) : Decidable (OneLine s) := inferInstanceAs (Decidable ('\n' ∉ s.toList))

theorem oneLine_append {s t : String} : OneLine (s ++ t) ↔ OneLine s ∧ OneLine t := by
  rw [OneLine, String.toList_append, List.mem_append, not_or]
  rfl

namespace OneLine

theorem ofList {l : List Char} (h : '\n' ∉ l) : OneLine (.ofList l) := by
  rwa [OneLine, String.toList_ofList]

theorem append {s t : String} (hs : OneLine s) (ht : OneLine t) : OneLine (s ++ t) :=
  oneLine_append.mpr ⟨hs, ht⟩

theorem of_subset {s t : String} (ht : OneLine t) (h : s.toList ⊆ t.toList) : OneLine s :=
  fun hmem => ht (h hmem)

theorem toLower {s : String} (h : OneLine s) : OneLine (.ofList (s.toList.map Char.toLower)) := by
  apply ofList
  intro hmem
  obtain ⟨c, hc, hlower⟩ := List.mem_map.mp hmem
  rw [eq_of_toLower (by decide) hlower] at hc
  exact h hc

theorem qualify {space name : String} (hspace : OneLine space) (hname : OneLine name) :
    OneLine (qualify space name) := by
  unfold PhpOutline.qualify
  split
  · exact hname
  · exact (hspace.append (by decide)).append hname

end OneLine

/-! ## Tokens -/

namespace Lexeme

variable {w : List Char}

theorem IsIdent.line_end_not_mem (h : IsIdent w) : '\n' ∉ w :=
  fun hmem => absurd (h.isIdentRest _ hmem) (by decide)

theorem IsPath.line_end_not_mem (h : IsPath w) : '\n' ∉ w := by
  have hall : ∀ c ∈ w, c ≠ '\n' :=
    h.forall_mem (fun u hu c hc heq => hu.line_end_not_mem (heq ▸ hc)) (by decide)
  exact fun hmem => hall _ hmem rfl

theorem IsName.line_end_not_mem (h : IsName w) : '\n' ∉ w := by
  cases h with
  | path h => exact h.line_end_not_mem
  | full h => simpa using h.line_end_not_mem

theorem VariableForm.line_end_not_mem (h : VariableForm w) : '\n' ∉ w := by
  cases h with
  | named h => simpa using h.line_end_not_mem
  | dollar => decide

end Lexeme

theorem oneLine_of_isIdentifier {s : String} (h : Text.isIdentifier s = true) : OneLine s :=
  (isIdent_of_isIdentifier h).line_end_not_mem

/-- The kinds of tokens that names are read from. -/
def IsNaming (k : Kind) : Prop := Lexer.Reader.of? k = some .name ∨ k = .variableName

theorem isNaming_of_segment {k : Kind} (h : Taxonomy.php.nameSegments.contains k = true) :
    IsNaming k := by
  cases k <;> first | exact .inl rfl | cases h

theorem isNaming_of_typeKeyword {k : Kind} (h : View.typeKeywords.contains k = true) :
    IsNaming k := by
  cases k <;> first | exact .inl rfl | cases h

section

variable {source : String} {ts : List Token} {t : Token}

theorem variable_of_tokenize (h : tokenize source = .ok ts) (ht : t ∈ ts)
    (hk : t.kind = .variableName) :
    VariableForm t.text.toList := by
  have hx : Lexer.Reader.of? t.kind = some .dollar := by rw [hk]; rfl
  obtain ⟨_, hscans⟩ := Lexer.scans_of_tokensFrom h
  obtain ⟨st, c, s, k, us, vs, ⟨rfl, rfl⟩, hcut⟩ := hscans.takes ht hx
  unfold Lexer.dollar at hcut
  rcases longest_variable s with ⟨hne, hlongest⟩ | ⟨hzero, _⟩
  · split at hcut
    · rename_i hzero
      exact absurd hzero hne
    · obtain ⟨-, -, rfl⟩ := Lexer.eq_of_cut_one hcut
      rw [Lexer.State.token, String.toList_ofList]
      exact hlongest.fits
  · rw [hzero] at hcut
    obtain ⟨-, -, rfl⟩ := Lexer.eq_of_cut_one hcut
    cases hk

theorem oneLine_of_tokenize (h : tokenize source = .ok ts) (ht : t ∈ ts) (hk : IsNaming t.kind) :
    OneLine t.text := by
  rcases hk with hname | hvariable
  · rcases name_of_tokenize h ht hname with ⟨hform, _⟩ | ⟨_, htext⟩
    · exact hform.line_end_not_mem
    · rw [OneLine, htext]
      decide
  · exact (variable_of_tokenize h ht hvariable).line_end_not_mem

end

/-! ## What a view lists -/

namespace View

variable {v : View} {item : Item} {copy : Nat}

def NamedInLine (v : View) : Prop := ∀ p : v.Pos, IsNaming (v.kind p) → OneLine (v.node p).text

theorem namedInLine_of_reaches {source : String} {f : Flags} {root : View}
    (hroot : ofSource source f = .ok root) (hv : root.Reaches v) : v.NamedInLine := by
  obtain ⟨ts, _, hts, _⟩ := ofSource_ok hroot
  exact fun p hp => oneLine_of_tokenize hts (toToken_mem_of_reaches hts hroot hv p) hp

namespace NamedInLine

theorem namespaces (h : v.NamedInLine) (hi : item ∈ (v.namespaces copy).items) :
    OneLine item.name := by
  rcases mem_namespaces_read hi with ⟨_, _, _, rfl⟩ | ⟨p, _, hat⟩
  · exact (show OneLine "" by decide)
  · obtain ⟨n, _, _, hn, _, _, hname, _⟩ := namespaceAt_ok hat
    rw [hname]
    apply h n
    rcases (namespaceName?_eq_some hn).2 with hkind | hkind
    · exact .inl (by rw [hkind]; rfl)
    · exact .inl (by rw [hkind]; rfl)

theorem functions (h : v.NamedInLine) (hv : v.Balanced) (hok : (v.functions copy).error = none)
    (hi : item ∈ (v.functions copy).items) : OneLine item.name := by
  obtain ⟨ds, hds⟩ := hv.functions_listed hok
  rw [hds.items_eq] at hi
  obtain ⟨d, hd, rfl⟩ := List.mem_map.mp hi
  obtain ⟨hplaced, hhead, _⟩ := hds.placed d hd
  rw [hplaced.name_eq]
  exact h d.name (.inl (by rw [hhead.1]; rfl))

theorem properties {l : Listing Item} (h : v.NamedInLine) (hv : v.Balanced)
    (hl : v.properties = .ok l) (hok : l.error = none) (hi : item ∈ l.items) :
    OneLine item.name := by
  obtain ⟨es, hes⟩ := hv.properties_listed hl hok
  rw [hes.items_eq] at hi
  obtain ⟨x, hx, rfl⟩ := List.mem_map.mp hi
  obtain ⟨_, hkind, hdefaults⟩ := hes.placed x hx
  obtain ⟨k, htext⟩ := hdefaults.name
  refine (h x.nameAt (.inr hkind)).of_subset ?_
  rw [htext]
  exact List.subset_append_right _ _

end NamedInLine

theorem oneLine_constants (hv : v.Balanced) (hok : v.constants.error = none)
    (hi : item ∈ v.constants.items) :
    OneLine item.name := by
  obtain ⟨es, hes⟩ := hv.constants_listed hok
  rw [hes.items_eq] at hi
  obtain ⟨x, hx, rfl⟩ := List.mem_map.mp hi
  obtain ⟨_, _, _, _, _, _, hassignments, hmem⟩ := hes.declared x hx
  obtain ⟨_, _, _, hassigns⟩ := exists_of_forall₂ hassignments.entries x hmem
  rw [hassigns.name_eq]
  exact oneLine_of_isIdentifier hassigns.identifier

/-! ## Imports and full names -/

theorem Spells.oneLine {code : List v.Pos} {path : UsePath} {runs : List (List v.Pos)}
    (hspells : v.Spells code path runs) (h : v.NamedInLine) (hphp : v.graph.taxonomy = .php) :
    OneLine path.text := by
  rw [OneLine, hspells.toList_text, ← List.flatMap_def]
  intro hmem
  obtain ⟨run, hrun, hmem⟩ := List.mem_flatMap.mp hmem
  obtain ⟨p, hp, hmem⟩ := List.mem_flatMap.mp hmem
  have hsegment := hspells.segments run hrun p hp
  rw [Segment, hphp] at hsegment
  exact h p (isNaming_of_segment hsegment) hmem

theorem NamedInLine.imports {i : Import} (h : v.NamedInLine) (hphp : v.graph.taxonomy = .php)
    (hi : i ∈ v.imports.items) : OneLine i.name ∧ OneLine i.aliasName := by
  rw [View.imports, importsFrom_eq] at hi
  obtain ⟨p, _, hi⟩ := List.mem_flatMap.mp hi
  obtain ⟨stop, imports, _, hread, hi⟩ := readClause_of_mem_importsOf hi
  obtain ⟨clause, tree, hclause⟩ := useClause_of_readClause hread
  obtain ⟨imports', hread', hleaves⟩ := hclause.reads hphp ((v.between_pairwise _ _).filter _)
  cases hread.symm.trans hread'
  obtain ⟨leaf, hleaf, himports⟩ := exists_of_forall₂ hleaves.flip i hi
  obtain ⟨halias, runs, hspells⟩ := hclause.spells leaf hleaf
  have htext := hspells.oneLine h hphp
  constructor
  · rcases himports.name with hname | ⟨hname, _⟩
    · refine htext.of_subset ?_
      rw [hname, String.toList_append]
      exact List.subset_append_right _ _
    · rwa [hname] at htext
  · rcases himports.aliasName with hnamed | ⟨_, hlast⟩
    · exact oneLine_of_isIdentifier (halias.named _ hnamed)
    · obtain ⟨before, hsplit, _⟩ := hlast.split
      refine htext.of_subset ?_
      rw [hsplit]
      exact List.subset_append_right _ _

theorem NamedInLine.nameAt {i : v.Pos} {name : List Char} (h : v.NamedInLine)
    (hphp : v.graph.taxonomy = .php) (hname : v.nameAt i = .ok name) : '\n' ∉ name := by
  unfold View.nameAt at hname
  dsimp only at hname
  split at hname
  · cases hname
    intro hmem
    obtain ⟨k, hrun⟩ := (sheds_withoutTrailing _).run_eq
    have hmem := List.mem_append_left (List.replicate k '\\') hmem
    rw [← hrun] at hmem
    obtain ⟨p, hp, hmem⟩ := List.mem_flatMap.mp hmem
    have hsegment := List.mem_takeWhile_imp hp
    rw [hphp] at hsegment
    exact h p (isNaming_of_segment hsegment) hmem
  · cases hname

end View

theorem StandsFor.oneLine {space : String} {imports : List Import} {kind : ImportKind}
    {name : List Char} {full : String} (h : StandsFor space imports kind name full)
    (hspace : OneLine space) (himports : ∀ i ∈ imports, OneLine i.name) (hname : '\n' ∉ name) :
    OneLine full := by
  cases h with
  | relative h => exact hspace.qualify (.ofList fun hmem => hname (List.mem_append_right _ hmem))
  | full => exact .ofList fun hmem => hname (List.mem_cons_of_mem _ hmem)
  | qualified => exact .ofList hname
  | imported hplain heq => exact himports _ (by rw [heq]; simp)
  | unknown => exact hspace.qualify (.ofList hname)

namespace View

variable {v : View} {item : Item} {copy : Nat}

theorem standsFor_of_resolve {space : String} {imports : List Import} {kind : ImportKind}
    {m : Mark} {full : String} (hspace : v.scope.space = some space)
    (htable : v.importTable = .ok (.ofList imports)) (h : v.resolve kind m = .ok full) :
    ∃ i name, v.nameAt i = .ok name ∧ StandsFor space imports kind name full := by
  have hread : ∃ i name, v.position? m = some i ∧ v.nameAt i = .ok name := by
    unfold resolve at h
    rw [hspace] at h
    dsimp only at h
    split at h
    · rename_i i hi
      obtain ⟨name, hname, _⟩ := of_bind_ok h
      exact ⟨i, name, hi, hname⟩
    · cases h
  obtain ⟨i, name, hi, hname⟩ := hread
  obtain ⟨full', hfull⟩ := exists_standsFor space imports kind name
  cases h.symm.trans (resolve_eq_of_standsFor hspace hi hname htable hfull)
  exact ⟨i, name, hname, hfull⟩

theorem namespaces_ne_nil (h : (v.namespaces copy).error = none) :
    (v.namespaces copy).items ≠ [] := by
  have hpreamble : ∀ {stop : Nat} {rest : Listing Item}, (v.withPreamble stop rest).error = none →
      (v.withPreamble stop rest).items ≠ [] := by
    intro stop rest h
    obtain ⟨scope, _, heq⟩ := withPreamble_ok h
    rw [heq]
    simp [Listing.after]
  unfold namespaces at h ⊢
  cases hfirst : v.sibling? namespaceKeyword v.lo with
  | none =>
    rw [hfirst] at h
    exact hpreamble h
  | some first =>
    rw [hfirst] at h
    dsimp only at h ⊢
    split at h
    · rename_i hcode
      rw [if_pos hcode]
      exact hpreamble h
    · rename_i hcode
      rw [if_neg hcode]
      rw [declaredNamespaces, scan_of_some (sibling?_self hfirst)] at h ⊢
      cases hat : v.namespaceAt copy first with
      | error e => simp [hat, Reading.ofItem] at h
      | ok found => simp [Reading.ofItem, Listing.after]

end View

/-! ## Outlines -/

structure TypeOutline.NamedInLine (t : TypeOutline) : Prop where
  keyword : OneLine t.keyword
  name : OneLine t.name
  qualifiedName : OneLine t.qualifiedName
  parents : ∀ name ∈ t.parents, OneLine name
  interfaces : ∀ name ∈ t.interfaces, OneLine name
  constants : ∀ c ∈ t.constants, OneLine c.name
  properties : ∀ p ∈ t.properties, OneLine p.name
  methods : ∀ m ∈ t.methods, OneLine m.name

structure NamespaceOutline.NamedInLine (n : NamespaceOutline) : Prop where
  name : OneLine n.name
  imports : ∀ i ∈ n.imports, OneLine i.name ∧ OneLine i.aliasName
  constants : ∀ c ∈ n.constants, OneLine c.name
  functions : ∀ f ∈ n.functions, OneLine f.name
  types : ∀ t ∈ n.types, t.NamedInLine

def FileOutline.NamedInLine (f : FileOutline) : Prop := ∀ n ∈ f.namespaces, n.NamedInLine

section

open View

variable {s : OutlineSettings} {v : View} {item : Item} {space : String}

theorem Listing.forall_mem_of_mapM {α β : Type} {f : α → β} {l : Listing α} {l' : List β}
    {P : β → Prop} (h : l.mapM (fun a => .ok (f a)) = .ok l')
    (hl : l.error = none → ∀ a ∈ l.items, P (f a)) : ∀ b ∈ l', P b := by
  obtain ⟨hok, hall⟩ := Listing.mapM_ok h
  intro b hb
  obtain ⟨a, ha, hab⟩ := exists_of_forall₂ hall.flip b hb
  cases hab
  exact hl hok a ha

theorem outlineType_members {t : TypeOutline} (h : outlineType s space v item = .ok t) :
    outlineValues s item.view.constants = .ok t.constants ∧
      outlineFunctions item.view.functions = .ok t.methods ∧ ∃ l, item.view.properties = .ok l ∧
      outlineValues s l = .ok t.properties := by
  unfold outlineType at h
  split at h
  · split at h
    · cases h
    · obtain ⟨_, _, h⟩ := of_bind_ok h
      obtain ⟨_, hconstants, h⟩ := of_bind_ok h
      obtain ⟨l, hl, h⟩ := of_bind_ok h
      obtain ⟨_, hproperties, h⟩ := of_bind_ok h
      obtain ⟨_, hmethods, h⟩ := of_bind_ok h
      cases h
      exact ⟨hconstants, hmethods, l, hl, hproperties⟩
  · cases h

theorem outlineNamespace_parts {n : NamespaceOutline} (h : outlineNamespace s item = .ok n) :
    n.name = item.name ∧ item.view.imports.get = .ok n.imports ∧
      outlineValues s item.view.constants = .ok n.constants ∧
      outlineFunctions item.view.functions = .ok n.functions := by
  obtain ⟨_, himports, h⟩ := of_bind_ok h
  obtain ⟨_, hconstants, h⟩ := of_bind_ok h
  obtain ⟨_, hfunctions, h⟩ := of_bind_ok h
  obtain ⟨_, _, h⟩ := of_bind_ok h
  cases h
  exact ⟨rfl, himports, hconstants, hfunctions⟩

/-- The types of a namespace: what they build on is resolved by its name and its imports. -/
theorem View.NamedInLine.outlineTypes {ts : List TypeOutline} {imports : List Import}
    (h : v.NamedInLine) (hv : v.Balanced) (hbodies : ∀ i ∈ v.types.items, i.view.NamedInLine)
    (hspace : v.scope.space = some space) (hline : OneLine space)
    (htable : v.importTable = .ok (.ofList imports)) (himports : ∀ i ∈ imports, OneLine i.name)
    (hts : v.types.mapM (outlineType s space v) = .ok ts) :
    ∀ t ∈ ts, t.NamedInLine := by
  have hresolved : ∀ {m name}, v.resolve .class_ m = .ok name → OneLine name := by
    intro m name hm
    obtain ⟨i, text, htext, hstands⟩ := standsFor_of_resolve hspace htable hm
    exact hstands.oneLine hline himports (h.nameAt hv.php htext)
  obtain ⟨hok, hall⟩ := Listing.mapM_ok hts
  obtain ⟨ds, hds⟩ := hv.types_anchored hok
  intro t ht
  obtain ⟨i, hi, ht⟩ := exists_of_forall₂ hall.flip t ht
  have hbody := hbodies i hi
  have hb := (hv.types_parts i hi).balanced hv
  rw [hds.items_eq] at hi
  obtain ⟨d, hd, rfl⟩ := List.mem_map.mp hi
  obtain ⟨hplaced, ⟨hhead, hanchor⟩, hmem, _⟩ := hds.placed d hd
  obtain ⟨k, hk⟩ := exists_lastKeyword (lt_trans hplaced.keyword_lt hplaced.name_lt) hmem
  have hout := outlined_of_outlineType hv hplaced hanchor hk ht
  have hname : OneLine (v.node d.name).text := h d.name (.inl (by rw [hhead.2.1]; rfl))
  obtain ⟨hconstants, hmethods, l, hl, hproperties⟩ := outlineType_members ht
  constructor
  · rw [hout.keyword]
    exact (h k (isNaming_of_typeKeyword hk.mem)).toLower
  · rwa [hout.name]
  · rw [hout.qualifiedName]
    exact hline.qualify hname
  · intro name hname
    obtain ⟨q, _, hq⟩ := exists_of_forall₂ hout.parents.flip name hname
    exact hresolved hq
  · intro name hname
    obtain ⟨q, _, hq⟩ := exists_of_forall₂ hout.interfaces.flip name hname
    exact hresolved hq
  · exact Listing.forall_mem_of_mapM hconstants fun hok _ => oneLine_constants hb hok
  · exact Listing.forall_mem_of_mapM hproperties fun hok _ => hbody.properties hb hl hok
  · exact Listing.forall_mem_of_mapM hmethods fun hok _ => hbody.functions hb hok

end

open View

variable {s : Settings} {source : String} {o : FileOutline}

theorem names_of_outlineSource (h : outlineSource s source = .ok o) : o.NamedInLine := by
  rw [outlineSource_eq] at h
  obtain ⟨root, hroot, h⟩ := of_bind_ok h
  obtain ⟨namespaces, hnamespaces, h⟩ := of_bind_ok h
  cases h
  obtain ⟨ts, g, _, hlink, hg⟩ := ofSource_ok hroot
  have hr := balanced_of_ofGraph (.link hlink) hg
  intro n hn
  obtain ⟨i, hi, hspace⟩ := exists_of_forall₂ (Listing.mapM_ok hnamespaces).2.flip n hn
  have hreaches : root.Reaches i.view := .step .refl (.namespaces 0 hi)
  have hnamed := namedInLine_of_reaches hroot hreaches
  have hb := hreaches.balanced hr
  have hname := (namedInLine_of_reaches hroot .refl).namespaces hi
  obtain ⟨hscope, hself⟩ := namespace_importScope hg hi
  obtain ⟨hsame, himports, hconstants, hfunctions⟩ := outlineNamespace_parts hspace
  have hlisted : ∀ j ∈ n.imports, OneLine j.name ∧ OneLine j.aliasName := by
    intro j hj
    unfold Listing.get at himports
    split at himports
    · rw [← Except.ok.inj himports] at hj
      exact hnamed.imports hb.php hj
    · cases himports
  have htable : i.view.importTable = .ok (.ofList n.imports) := by
    rw [importTable, hself, himports]
    rfl
  refine ⟨by rwa [hsame], hlisted, ?_, ?_, ?_⟩
  · exact Listing.forall_mem_of_mapM hconstants fun hok _ => oneLine_constants hb hok
  · exact Listing.forall_mem_of_mapM hfunctions fun hok _ => hnamed.functions hb hok
  · refine hnamed.outlineTypes hb (fun j hj => ?_) hscope hname htable
      (fun j hj => (hlisted j hj).1) (outlineNamespace_ok hspace)
    exact namedInLine_of_reaches hroot (hreaches.step (.types 0 hj))

theorem namespaces_of_outlineSource (h : outlineSource s source = .ok o) : o.namespaces ≠ [] := by
  rw [outlineSource_eq] at h
  obtain ⟨root, _, h⟩ := of_bind_ok h
  obtain ⟨namespaces, hnamespaces, h⟩ := of_bind_ok h
  cases h
  obtain ⟨hok, hall⟩ := Listing.mapM_ok hnamespaces
  rintro rfl
  exact namespaces_ne_nil hok (List.forall₂_nil_right_iff.mp hall)

end PhpOutline
