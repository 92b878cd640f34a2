import PhpOutline.Proofs.OutlineErrors

/-!
# Scopes along the enumerations

Each enumeration sets one tag of the scope that it starts from (`Scope.Enters`), and refuses to list
anything where this tag is set already. So a view lies as deep as its scope has tags. A type's tag
remembers the bracket that its body was cut out of. What is cut out later comes from graphs that lie
deeper (`Arena.depth`), so the anchor of a view is the bracket of its type only for the body itself.
-/

namespace PhpOutline

/-- The ways to list what a view declares. -/
inductive Enumeration
  | namespaces | types | functions | properties | constants
deriving DecidableEq

inductive Tag
  | space | type | member
deriving DecidableEq

namespace Enumeration

def results (e : Enumeration) (copy : Nat) (v : View) : List (Except Error Item) :=
  match e with
  | namespaces => (v.namespaces copy).results
  | types => (v.types copy).results
  | functions => (v.functions copy).results
  | properties =>
    match v.properties with
    | .error e => [.error e]
    | .ok l => l.results
  | constants => v.constants.results

def tag : Enumeration → Tag
  | namespaces => .space
  | types => .type
  | functions | properties | constants => .member

def memberKind? : Enumeration → Option MemberKind
  | namespaces | types => none
  | functions => some .function
  | properties => some .property
  | constants => some .constant

end Enumeration

namespace Scope

def isSet (s : Scope) : Tag → Bool
  | .space => s.space.isSome
  | .type => s.type.isSome
  | .member => s.member.isSome

def depth (s : Scope) : Nat :=
  (s.isSet .space).toNat + (s.isSet .type).toNat + (s.isSet .member).toNat

/-- A scope with one tag more, which an enumeration sets for a declaration of the given name. -/
inductive Enters (s : Scope) (name : String) : Enumeration → Scope → Prop
  | space (h : s.space = none) : Enters s name .namespaces { s with space := some name }
  | type (h : s.type = none) (opener : Mark) :
      Enters s name .types { s with type := some ⟨name, opener⟩ }
  | member {e : Enumeration} {kind : MemberKind} (he : e.memberKind? = some kind)
      (h : s.member = none) (declaredBy : Mark) :
        Enters s name e { s with member := some ⟨kind, name, declaredBy⟩ }

variable {s t : Scope} {name : String} {e : Enumeration}

theorem depth_le (s : Scope) : s.depth ≤ 3 := by
  have hspace := Bool.toNat_le (s.isSet .space)
  have htype := Bool.toNat_le (s.isSet .type)
  have hmember := Bool.toNat_le (s.isSet .member)
  unfold depth
  omega

theorem Enters.depth_eq (h : s.Enters name e t) : t.depth = s.depth + 1 := by
  cases h with
  | space h | type h | member _ h => simp [depth, isSet, h] <;> omega

theorem enterNamespace_ok (h : s.enterNamespace name = .ok t) : s.Enters name .namespaces t := by
  unfold enterNamespace at h
  split at h
  · cases h
  · rename_i hnone
    cases h
    exact .space hnone

theorem enterType_ok {opener : Mark} (h : s.enterType ⟨name, opener⟩ = .ok t) :
    s.Enters name .types t := by
  unfold enterType at h
  split at h
  · cases h
  · rename_i hnone
    cases h
    exact .type hnone opener

theorem enterMember_ok {kind : MemberKind} {m : Mark} (he : e.memberKind? = some kind)
    (h : s.enterMember ⟨kind, name, m⟩ = .ok t) : s.Enters name e t := by
  unfold enterMember at h
  split at h
  · cases h
  · rename_i hnone
    cases h
    exact .member he hnone m

end Scope

/-- How often the inside of a bracket was cut out to come to a graph. -/
def Arena.depth : Arena → Nat
  | .source => 0
  | .block outer _ _ => outer.depth + 1

namespace View

variable {v w root : View} {p : v.Pos} {e : Enumeration} {name : String} {item : Item}
  {copy i next : Nat} {set : KindSet} {s : Scope}

/-- An enumeration of a view, in one of its copies, lists another view under a name. -/
def Yields (v : View) (e : Enumeration) (name : String) (w : View) : Prop :=
  ∃ copy, .ok ⟨name, w⟩ ∈ e.results copy v

/-! ## What is listed -/

/-- A span of a view, or the inside of one of its brackets, in a scope. -/
inductive Child (v : View) (s : Scope) : View → Prop
  | span (lo hi : Nat) : Child v s (v.span lo hi s)
  | block {copy : Nat} {p : v.Pos} {w : View} (h : v.block copy p s = .ok w) : Child v s w

theorem Child.scope_eq (h : v.Child s w) : w.scope = s := by
  cases h with
  | span => rfl
  | block h =>
    obtain ⟨_, _, _, _, _, _, _, hs, _⟩ := block_ok h
    exact hs

theorem Child.outer_eq (h : v.Child s w) : w.outer = v.toFrame :: v.outer := by
  cases h with
  | span => rfl
  | block h =>
    obtain ⟨_, _, _, _, _, _, _, _, ho⟩ := block_ok h
    exact ho

theorem namespaceAt_child (h : v.namespaceAt copy p = .ok (item, next)) :
    ∃ s, v.scope.Enters item.name .namespaces s ∧ v.Child s item.view := by
  obtain ⟨nameAt, scope, after, _, hscope, _, hname, h⟩ := namespaceAt_ok h
  rw [← hname] at hscope
  refine ⟨scope, Scope.enterNamespace_ok hscope, ?_⟩
  rcases h with ⟨_, hblock, _⟩ | ⟨_, _, hview, _⟩
  · exact .block hblock
  · rw [hview]
    exact .span _ _

theorem mem_namespaces_child (h : item ∈ (v.namespaces copy).items) :
    ∃ s, v.scope.Enters item.name .namespaces s ∧ v.Child s item.view := by
  rcases mem_namespaces_read h with ⟨stop, scope, hscope, rfl⟩ | ⟨p, next, hat⟩
  · exact ⟨scope, Scope.enterNamespace_ok hscope, .span _ _⟩
  · exact namespaceAt_child hat

theorem mem_types_child (h : item ∈ (v.types copy).items) :
    item.view.isTypeBody = true ∧ ∃ s, v.scope.Enters item.name .types s ∧ v.Child s item.view := by
  obtain ⟨p, next, hat⟩ := mem_types_read h
  refine ⟨(typeAt_scope hat).1, ?_⟩
  obtain ⟨nameAt, opener, scope, _, _, _, _, hscope, hname, hblock, _⟩ := typeAt_ok hat
  rw [← hname] at hscope
  exact ⟨scope, Scope.enterType_ok hscope, .block hblock⟩

theorem mem_functions_child (h : item ∈ (v.functions copy).items) :
    ∃ s, v.scope.Enters item.name .functions s ∧ v.Child s item.view := by
  obtain ⟨p, nameAt, next, hat⟩ := mem_functions_read h
  obtain ⟨stop, scope, _, hscope, hname, h⟩ := functionAt_ok hat
  rw [← hname] at hscope
  refine ⟨scope, Scope.enterMember_ok rfl hscope, ?_⟩
  rcases h with ⟨_, hblock, _⟩ | ⟨_, hview, _⟩
  · exact .block hblock
  · rw [hview]
    exact .span _ _

theorem mem_properties_child {l : Listing Item} (hl : v.properties = .ok l) (h : item ∈ l.items) :
    ∃ s, v.scope.Enters item.name .properties s ∧ v.Child s item.view := by
  obtain ⟨p, next, _, hat⟩ := mem_properties_read hl h
  obtain ⟨scope, hscope, hname, h⟩ := propertyAt_ok hat
  rw [← hname] at hscope
  refine ⟨scope, Scope.enterMember_ok rfl hscope, ?_⟩
  rcases h with ⟨hview, _⟩ | ⟨_, _, _, _, hview⟩
  · rw [hview]
    exact .span _ _
  · rw [hview]
    exact .span _ _

theorem mem_constants_child (h : item ∈ v.constants.items) :
    ∃ s, v.scope.Enters item.name .constants s ∧ v.Child s item.view := by
  obtain ⟨p, hp⟩ := mem_constants_read h
  obtain ⟨equals, nameAt, scope, stop, _, _, hscope, _, hview⟩ := mem_constantsAt hp
  refine ⟨scope, Scope.enterMember_ok rfl hscope, ?_⟩
  rw [hview]
  exact .span _ _

theorem mem_results {l : Listing Item} : .ok item ∈ l.results ↔ item ∈ l.items := by
  simp [Listing.results]

theorem mem_results_properties : .ok item ∈ Enumeration.properties.results copy v ↔
    ∃ l, v.properties = .ok l ∧ item ∈ l.items := by
  cases hl : v.properties with
  | error e => simp [Enumeration.results, hl]
  | ok l => simp [Enumeration.results, hl, mem_results]

theorem Yields.child (h : v.Yields e name w) : ∃ s, v.scope.Enters name e s ∧ v.Child s w := by
  obtain ⟨copy, h⟩ := h
  cases e with
  | namespaces => exact mem_namespaces_child (mem_results.mp h)
  | types => exact (mem_types_child (mem_results.mp h)).2
  | functions => exact mem_functions_child (mem_results.mp h)
  | properties =>
    obtain ⟨l, hl, h⟩ := mem_results_properties.mp h
    exact mem_properties_child hl h
  | constants => exact mem_constants_child (mem_results.mp h)

theorem Yields.enters (h : v.Yields e name w) :
    w.parent? = some v ∧ v.scope.Enters name e w.scope := by
  obtain ⟨s, hs, hchild⟩ := h.child
  rw [parent?, hchild.outer_eq, hchild.scope_eq]
  exact ⟨rfl, hs⟩

theorem lists_iff_yields : v.Lists w ↔ ∃ e name, v.Yields e name w := by
  constructor
  · intro h
    cases h with
    | @namespaces copy i h => exact ⟨.namespaces, i.name, copy, mem_results.mpr h⟩
    | @types copy i h => exact ⟨.types, i.name, copy, mem_results.mpr h⟩
    | @functions copy i h => exact ⟨.functions, i.name, copy, mem_results.mpr h⟩
    | @properties l i hl h => exact ⟨.properties, i.name, 0, mem_results_properties.mpr ⟨l, hl, h⟩⟩
    | @constants i h => exact ⟨.constants, i.name, 0, mem_results.mpr h⟩
  · rintro ⟨e, name, copy, h⟩
    cases e with
    | namespaces => exact .namespaces copy (mem_results.mp h)
    | types => exact .types copy (mem_results.mp h)
    | functions => exact .functions copy (mem_results.mp h)
    | properties =>
      obtain ⟨l, hl, h⟩ := mem_results_properties.mp h
      exact .properties hl h
    | constants => exact .constants (mem_results.mp h)

/-! ## Bodies of types -/

/-- The bracket of the type that a view lies in belongs to a graph further out. -/
def TypeOutside (v : View) : Prop :=
  ∀ tag, v.scope.type = some tag → tag.opener.arena.depth < v.arena.depth

theorem isTypeBody_iff : v.isTypeBody = true ↔
    ∃ tag m, v.scope.type = some tag ∧ v.anchor = some m ∧ tag.opener.same m = true := by
  unfold isTypeBody
  split
  · rename_i tag m htag hm
    simp [htag, hm]
  · rename_i hnone
    refine ⟨(fun h => by cases h), ?_⟩
    rintro ⟨tag, m, htag, hm, _⟩
    exact absurd hm (hnone tag m htag)

theorem Child.anchor_cases (h : v.Child s w) : (w.anchor = none ∧ w.arena = v.arena) ∨
    ∃ m, w.anchor = some m ∧ m.arena = v.arena ∧ w.arena.depth = v.arena.depth + 1 := by
  cases h with
  | span => exact .inl ⟨rfl, rfl⟩
  | block h =>
    obtain ⟨_, _, _, _, _, harena, hanchor, _⟩ := block_ok h
    exact .inr ⟨_, hanchor, rfl, by rw [harena]; rfl⟩

/-- What any other enumeration lists keeps the type, but no anchor of it lies as far out as the
type's bracket. -/
theorem Yields.typeBody (hv : v.TypeOutside) (h : v.Yields e name w) :
    w.TypeOutside ∧ (w.isTypeBody = true ↔ e = .types) := by
  obtain ⟨s, hs, hchild⟩ := h.child
  have hscope := hchild.scope_eq
  by_cases he : e = .types
  · subst he
    obtain ⟨copy, h⟩ := h
    have hbody := (mem_types_child (mem_results.mp h)).1
    refine ⟨?_, iff_of_true hbody rfl⟩
    intro tag htag
    obtain ⟨tag', m, htag', hm, hsame⟩ := isTypeBody_iff.mp hbody
    rw [htag] at htag'
    cases htag'
    rw [Mark.same, Bool.and_eq_true, beq_iff_eq] at hsame
    rcases hchild.anchor_cases with ⟨hnone, _⟩ | ⟨m', hm', harena, hdepth⟩
    · rw [hnone] at hm
      cases hm
    · rw [hm'] at hm
      cases hm
      rw [hsame.1, harena, hdepth]
      exact Nat.lt_succ_self _
  · have htype : w.scope.type = v.scope.type := by
      rw [hscope]
      cases hs with
      | space => rfl
      | type => exact absurd rfl he
      | member => rfl
    constructor
    · intro tag htag
      have hlt := hv tag (by rw [← htype]; exact htag)
      rcases hchild.anchor_cases with ⟨_, harena⟩ | ⟨_, _, _, hdepth⟩
      · rw [harena]
        exact hlt
      · omega
    · refine iff_of_false ?_ he
      intro hbody
      obtain ⟨tag, m, htag, hm, hsame⟩ := isTypeBody_iff.mp hbody
      have hlt := hv tag (by rw [← htype]; exact htag)
      rw [Mark.same, Bool.and_eq_true, beq_iff_eq] at hsame
      rcases hchild.anchor_cases with ⟨hnone, _⟩ | ⟨m', hm', harena, _⟩
      · rw [hnone] at hm
        cases hm
      · -- the bracket of the type would lie in the arena of the view, and it lies further out
        rw [hm'] at hm
        cases hm
        rw [hsame.1, harena] at hlt
        exact Nat.lt_irrefl _ hlt

theorem Reaches.typeOutside {g : Graph} (hroot : ofGraph g = .ok root) (h : root.Reaches v) :
    v.TypeOutside := by
  induction h with
  | refl =>
    obtain ⟨_, _, rfl⟩ := ofGraph_ok hroot
    intro tag htag
    cases htag
  | step _ hw ih =>
    obtain ⟨e, name, hyields⟩ := lists_iff_yields.mp hw
    exact (hyields.typeBody ih).1

theorem Reaches.depth_eq {g : Graph} (hroot : ofGraph g = .ok root) (h : root.Reaches v) :
    v.outer.length = v.scope.depth := by
  induction h with
  | refl =>
    obtain ⟨_, _, rfl⟩ := ofGraph_ok hroot
    rfl
  | step _ hw ih =>
    obtain ⟨e, name, hyields⟩ := lists_iff_yields.mp hw
    obtain ⟨s, hs, hchild⟩ := hyields.child
    rw [hchild.outer_eq, hchild.scope_eq, hs.depth_eq, List.length_cons, ih]

end View

/-! ## Tags that are set -/

/-- An error of the request or of a declaration, not of the tokens. -/
def Error.Refuses (e : Error) : Prop :=
  (∃ cause, e = .usage cause) ∨ ∃ line cause, e = .structural line cause

theorem Error.refuses_usage (cause : UsageError) : (Error.usage cause).Refuses := .inl ⟨cause, rfl⟩

theorem Error.refuses_structural (line : Nat) (cause : StructuralError) :
    (Error.structural line cause).Refuses :=
  .inr ⟨line, cause, rfl⟩

def Refused {α : Type} (r : Except Error α) : Prop := ∃ e, r = .error e ∧ e.Refuses

section

variable {α β : Type}

theorem Refused.structural (line : Nat) (cause : StructuralError) :
    Refused (.error (.structural line cause) : Except Error α) :=
  ⟨_, rfl, Error.refuses_structural line cause⟩

theorem Refused.bind {x : Except Error α} {f : α → Except Error β} (h : Refused x) :
    Refused (x >>= f) := by
  obtain ⟨e, rfl, he⟩ := h
  exact ⟨e, rfl, he⟩

theorem Listing.mem_results_iff {l : Listing α} :
    (∀ r ∈ l.results, Refused r) ↔ l.items = [] ∧ ∀ e, l.error = some e → e.Refuses := by
  obtain ⟨items, error⟩ := l
  cases items with
  | nil => cases error <;> simp [results, Refused]
  | cons a items => simp [results, Refused]

def Reading.Barren (r : Reading α) : Prop := r.items = [] ∧ ∀ e, r.next = .error e → e.Refuses

theorem Reading.barren_skip (i : Nat) : (Reading.skip i : Reading α).Barren :=
  ⟨rfl, fun e h => by cases h⟩

theorem Reading.barren_ofItem {r : Except Error (α × Nat)} (h : Refused r) :
    (Reading.ofItem r).Barren := by
  obtain ⟨e, rfl, he⟩ := h
  refine ⟨rfl, fun e' h' => ?_⟩
  cases h'
  exact he

end

namespace Scope

variable {s : Scope}

theorem enterNamespace_refused (h : s.isSet .space = true) (name : String) :
    Refused (s.enterNamespace name) := by
  obtain ⟨current, h⟩ := Option.isSome_iff_exists.mp h
  rw [enterNamespace, h]
  exact ⟨_, rfl, Error.refuses_usage _⟩

theorem enterType_refused (h : s.isSet .type = true) (tag : TypeTag) :
    Refused (s.enterType tag) := by
  obtain ⟨current, h⟩ := Option.isSome_iff_exists.mp h
  rw [enterType, h]
  exact ⟨_, rfl, Error.refuses_usage _⟩

theorem enterMember_refused (h : s.isSet .member = true) (tag : MemberTag) :
    Refused (s.enterMember tag) := by
  obtain ⟨current, h⟩ := Option.isSome_iff_exists.mp h
  rw [enterMember, h]
  exact ⟨_, rfl, Error.refuses_usage _⟩

end Scope

namespace View

variable {v root : View} {copy : Nat}

theorem scan_refused {α : Type} (set : KindSet) {read : v.Pos → Reading α} (i : Nat)
    (h : ∀ p, (read p).Barren) : ∀ r ∈ (v.scan set read i).results, Refused r := by
  rw [Listing.mem_results_iff]
  fun_induction scan v set read i with
  | case1 => exact ⟨rfl, fun e h => by cases h⟩
  | case2 i p _ r e he =>
    refine ⟨(h p).1, fun e' h' => ?_⟩
    cases h'
    exact (h p).2 e he
  | case3 i p _ r n _ ih => exact ⟨by rw [Listing.after, (h p).1, ih.1]; rfl, ih.2⟩

theorem namespaceAt_refused (h : v.scope.isSet .space = true) (copy : Nat) (p : v.Pos) :
    Refused (v.namespaceAt copy p) := by
  unfold namespaceAt
  dsimp only
  split
  · exact (Scope.enterNamespace_refused h _).bind
  · exact .structural _ _

theorem typeAt_refused (h : v.scope.isSet .type = true) (copy : Nat) (p : v.Pos) :
    Refused (v.typeAt copy p) := by
  unfold typeAt
  dsimp only
  split
  · split
    · exact (Scope.enterType_refused h _).bind
    · exact .structural _ _
  · exact .structural _ _

theorem functionAt_refused (h : v.scope.isSet .member = true) (copy : Nat) (p nameAt : v.Pos) :
    Refused (v.functionAt copy p nameAt) := by
  unfold functionAt
  dsimp only
  split
  · exact (Scope.enterMember_refused h _).bind
  · exact .structural _ _

theorem propertyAt_refused (h : v.scope.isSet .member = true) (p : v.Pos) :
    Refused (v.propertyAt p) := by
  unfold propertyAt
  exact (Scope.enterMember_refused h _).bind

theorem constantHead_refused (h : v.scope.isSet .member = true) (p : v.Pos) :
    Refused (v.constantHead p) := by
  unfold constantHead
  split
  · exact .structural _ _
  · split
    · exact .structural _ _
    · split
      · exact .structural _ _
      · exact (Scope.enterMember_refused h _).bind

theorem constantsAt_barren (h : v.scope.isSet .member = true) (p : v.Pos) :
    (v.constantsAt p).Barren := by
  obtain ⟨e, he, hrefuses⟩ : Refused (v.constantAt p) := (constantHead_refused h p).bind
  rw [constantsAt_eq, he]
  refine ⟨rfl, fun e' h' => ?_⟩
  cases h'
  exact hrefuses

theorem withPreamble_refused (h : v.scope.isSet .space = true) (stop : Nat) (rest : Listing Item) :
    ∀ r ∈ (v.withPreamble stop rest).results, Refused r := by
  obtain ⟨e, he, hrefuses⟩ := Scope.enterNamespace_refused h ""
  rw [Listing.mem_results_iff, withPreamble, he]
  refine ⟨rfl, fun e' h' => ?_⟩
  cases h'
  exact hrefuses

theorem results_refused (e : Enumeration) (copy : Nat) (h : v.scope.isSet e.tag = true) :
    ∀ r ∈ e.results copy v, Refused r := by
  cases e with
  | namespaces =>
    have hdeclared := fun i => scan_refused namespaceKeyword i fun p =>
      Reading.barren_ofItem (namespaceAt_refused h copy p)
    show ∀ r ∈ (v.namespaces copy).results, Refused r
    unfold namespaces
    split
    · exact withPreamble_refused h _ _
    · split
      · exact withPreamble_refused h _ _
      · exact hdeclared _
  | types =>
    refine scan_refused _ _ fun p => ?_
    rw [readType_eq]
    split
    · exact Reading.barren_skip _
    · exact Reading.barren_ofItem (typeAt_refused h copy p)
  | functions =>
    refine scan_refused _ _ fun p => ?_
    rw [readFunction_eq]
    split
    · exact Reading.barren_skip _
    · split
      · exact Reading.barren_skip _
      · exact Reading.barren_ofItem (functionAt_refused h copy p _)
  | properties =>
    have hscan := scan_refused (.ofList [.variableName]) v.lo fun p =>
      Reading.barren_ofItem (propertyAt_refused h p)
    intro r hr
    by_cases hbody : v.isTypeBody = true
    · rw [Enumeration.results, properties, if_pos hbody] at hr
      exact hscan r hr
    · rw [Enumeration.results, properties, if_neg hbody] at hr
      rw [List.mem_singleton.mp hr]
      exact ⟨_, rfl, Error.refuses_usage _⟩
  | constants =>
    refine scan_refused _ _ fun p => ?_
    unfold readConstants
    split
    · exact Reading.barren_skip _
    · exact constantsAt_barren h p

/-! ## Reachable views -/

theorem properties_ok_iff : (∃ l, v.properties = .ok l) ↔ v.isTypeBody = true := by
  unfold properties
  split <;> simp_all

theorem Reaches.parent?_eq_some_iff {g : Graph} (hroot : ofGraph g = .ok root)
    (h : root.Reaches v) (w : View) :
    v.parent? = some w ↔ root.Reaches w ∧ ∃ e name, w.Yields e name v := by
  constructor
  · intro hparent
    cases h with
    | refl =>
      obtain ⟨_, _, rfl⟩ := ofGraph_ok hroot
      cases hparent
    | @step u _ hu hlists =>
      obtain ⟨e, name, hyields⟩ := lists_iff_yields.mp hlists
      rw [hyields.enters.1] at hparent
      cases hparent
      exact ⟨hu, e, name, hyields⟩
  · rintro ⟨_, e, name, hyields⟩
    exact hyields.enters.1

theorem Reaches.isTypeBody_iff_yields {g : Graph} (hroot : ofGraph g = .ok root)
    (h : root.Reaches v) :
    v.isTypeBody = true ↔ ∃ w name, root.Reaches w ∧ w.Yields .types name v := by
  constructor
  · intro hbody
    cases h with
    | refl =>
      obtain ⟨_, _, rfl⟩ := ofGraph_ok hroot
      cases hbody
    | @step u _ hu hlists =>
      obtain ⟨e, name, hyields⟩ := lists_iff_yields.mp hlists
      have he : e = .types := (hyields.typeBody (hu.typeOutside hroot)).2.mp hbody
      exact ⟨u, name, hu, he ▸ hyields⟩
  · rintro ⟨w, name, hw, hyields⟩
    exact (hyields.typeBody (hw.typeOutside hroot)).2.mpr rfl

/-- Every view that can be reached from the view of a whole graph has as many views around it as its
scope has tags, three at most. The view next around it is the one that lists it, whose scope has one
tag less, the one of the enumeration. An enumeration whose tag is set lists no view: it finds
nothing, or is refused. And properties are asked of exactly those views that are listed as types. -/
theorem reachable_scope_tags {g : Graph} {root v : View} (hroot : ofGraph g = .ok root)
    (hv : root.Reaches v) :
    v.outer.length = v.scope.depth ∧ v.outer.length ≤ 3 ∧
    (∀ w, v.parent? = some w ↔ root.Reaches w ∧ ∃ e name, w.Yields e name v) ∧
    (∀ (w : View) e name, w.Yields e name v → w.scope.Enters name e v.scope) ∧
    (∀ (e : Enumeration) (copy : Nat), v.scope.isSet e.tag = true →
      ∀ r ∈ e.results copy v, Refused r) ∧
    ((∃ l, v.properties = .ok l) ↔ ∃ w name, root.Reaches w ∧ w.Yields .types name v) := by
  have hdepth := hv.depth_eq hroot
  refine ⟨hdepth, by rw [hdepth]; exact v.scope.depth_le, hv.parent?_eq_some_iff hroot,
    fun w e name h => h.enters.2, fun e copy h => results_refused e copy h, ?_⟩
  rw [properties_ok_iff]
  exact hv.isTypeBody_iff_yields hroot

theorem reachable_scope_tags_sample :
    ∃ root a b v : View, ofSource "<?php namespace A; class B \x7b const C = 1; \x7d" = .ok root ∧
      root.Yields .namespaces "A" a ∧ a.Yields .types "B" b ∧ b.Yields .constants "C" v ∧
      v.outer.length = 3 ∧ v.parent? = some b ∧ b.scope.Enters "C" .constants v.scope ∧
      (∀ r ∈ Enumeration.functions.results 0 v, Refused r) ∧ ¬ ∃ l, v.properties = .ok l := by
  have h : ((ofSource "<?php namespace A; class B \x7b const C = 1; \x7d").toOption.bind fun root =>
      root.namespaces.items.head?.bind fun a => a.view.types.items.head?.bind fun b =>
      b.view.constants.items.head?.map fun c =>
        (a.name, b.name, c.name, c.view.scope.depth, c.view.isTypeBody)) =
      some ("A", "B", "C", 3, false) := by
    decide +kernel
  simp only [Option.bind_eq_some_iff, Option.map_eq_some_iff, Prod.mk.injEq] at h
  obtain ⟨root, hroot, ⟨name, a⟩, ha, ⟨name', b⟩, hb, ⟨name'', v⟩, hv, rfl, rfl, rfl, hdepth,
    hbody⟩ := h
  have hsource := ok_of_toOption hroot
  obtain ⟨_, g, _, _, hg⟩ := ofSource_ok hsource
  have hyieldsA : root.Yields .namespaces "A" a := ⟨0, mem_results.mpr (List.mem_of_mem_head? ha)⟩
  have hyieldsB : a.Yields .types "B" b := ⟨0, mem_results.mpr (List.mem_of_mem_head? hb)⟩
  have hyieldsC : b.Yields .constants "C" v := ⟨0, mem_results.mpr (List.mem_of_mem_head? hv)⟩
  have hreachB : root.Reaches b := .step (.step .refl (lists_iff_yields.mpr ⟨_, _, hyieldsA⟩))
    (lists_iff_yields.mpr ⟨_, _, hyieldsB⟩)
  obtain ⟨hlength, _, hparent, henters, hrefused, _⟩ :=
    reachable_scope_tags hg (.step hreachB (lists_iff_yields.mpr ⟨_, _, hyieldsC⟩))
  have hscope := henters b .constants "C" hyieldsC
  refine ⟨root, a, b, v, hsource, hyieldsA, hyieldsB, hyieldsC, hlength.trans hdepth,
    (hparent b).mpr ⟨hreachB, _, _, hyieldsC⟩, hscope, ?_, ?_⟩
  · refine hrefused .functions 0 ?_
    generalize v.scope = t at hscope
    cases hscope
    rfl
  · rw [properties_ok_iff, hbody]
    exact Bool.false_ne_true

end View

end PhpOutline
