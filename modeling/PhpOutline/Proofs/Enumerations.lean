import Mathlib.Control.Monad.Basic
import PhpOutline.Decl.Function
import PhpOutline.Decl.Namespace
import PhpOutline.Decl.Property
import PhpOutline.Proofs.Balanced

/-!
# What the enumerations list

For every reader, what it found when it succeeds: the positions that it went through, the view that
it made and where it goes on. In a balanced view a scan starts on the ground, each reader hands it
on to ground further right, and all views that are made on the way are parts of the view.
-/

namespace PhpOutline

namespace View

open PhpOutline.Graph

variable {v w : View} {i : Nat} {p : v.Pos} {set : KindSet} {copy next : Nat} {item : Item}

/-! ## Readers that succeed -/

theorem closer_ok {c : Nat} (h : v.closer p = .ok c) : (v.node p).closedBy = some c := by
  unfold closer at h
  split at h
  · rename_i hc
    cases h
    exact hc
  · cases h

theorem namespaceName?_eq_some {nameAt : v.Pos} (h : v.namespaceName? p = some nameAt) :
    v.nextCode? p = some nameAt ∧ (v.kind nameAt = .string ∨ v.kind nameAt = .nameQualified) := by
  obtain ⟨hnext, hkind⟩ := Option.filter_eq_some_iff.mp h
  exact ⟨hnext, by simpa using hkind⟩

theorem namespaceAt_ok (h : v.namespaceAt copy p = .ok (item, next)) :
    ∃ nameAt scope after, v.namespaceName? p = some nameAt ∧
      v.scope.enterNamespace (v.node nameAt).text = .ok scope ∧
      v.nextCodeOrEnd? nameAt = some after ∧ item.name = (v.node nameAt).text ∧
      ((v.kind after = .openBrace ∧ v.block copy after scope = .ok item.view ∧
          ∃ c, v.closer after = .ok c ∧ next = c + 1) ∨
        (v.kind after ≠ .openBrace ∧ v.graph.taxonomy.terminators.contains (v.kind after) = true ∧
          item.view = v.span (after + 1)
            (((v.sibling? namespaceKeyword (after + 1)).map (·.val)).getD v.hi) scope ∧
          next = after + 1)) := by
  unfold namespaceAt at h
  dsimp only at h
  split at h
  · rename_i nameAt hname
    obtain ⟨scope, hscope, h⟩ := of_bind_ok h
    split at h
    · rename_i after hafter
      refine ⟨nameAt, scope, after, hname, hscope, hafter, ?_⟩
      split at h
      · rename_i hbrace
        obtain ⟨c, hc, h⟩ := of_bind_ok h
        obtain ⟨body, hbody, h⟩ := of_bind_ok h
        cases h
        exact ⟨rfl, .inl ⟨hbrace, hbody, c, hc, rfl⟩⟩
      · rename_i hbrace
        split at h
        · rename_i hend
          cases h
          exact ⟨rfl, .inr ⟨hbrace, hend, rfl, rfl⟩⟩
        · cases h
    · cases h
  · cases h

theorem typeAt_ok (h : v.typeAt copy p = .ok (item, next)) :
    ∃ nameAt opener scope, v.nextCode? p = some nameAt ∧ v.kind nameAt = .string ∧
      v.sibling? v.bodyOrEnd (nameAt + 1) = some opener ∧ v.kind opener = .openBrace ∧
      v.scope.enterType ⟨(v.node nameAt).text, v.mark opener⟩ = .ok scope ∧
      item.name = (v.node nameAt).text ∧ v.block copy opener scope = .ok item.view ∧
      ∃ c, v.closer opener = .ok c ∧ next = c + 1 := by
  unfold typeAt at h
  dsimp only at h
  split at h
  · rename_i nameAt hname
    obtain ⟨hname, hstring⟩ := Option.filter_eq_some_iff.mp hname
    split at h
    · rename_i opener hopener
      obtain ⟨hopener, hbrace⟩ := Option.filter_eq_some_iff.mp hopener
      obtain ⟨scope, hscope, h⟩ := of_bind_ok h
      obtain ⟨body, hbody, h⟩ := of_bind_ok h
      obtain ⟨c, hc, h⟩ := of_bind_ok h
      cases h
      exact ⟨nameAt, opener, scope, hname, by simpa using hstring, hopener, by simpa using hbrace,
        hscope, rfl, hbody, c, hc, rfl⟩
    · cases h
  · cases h

theorem functionAt_ok {nameAt : v.Pos} (h : v.functionAt copy p nameAt = .ok (item, next)) :
    ∃ stop scope, v.sibling? v.bodyOrEnd (nameAt + 1) = some stop ∧
      v.scope.enterMember ⟨.function, (v.node nameAt).text, v.mark nameAt⟩ = .ok scope ∧
      item.name = (v.node nameAt).text ∧
      ((v.kind stop = .openBrace ∧ v.block copy stop scope = .ok item.view ∧
          ∃ c, v.closer stop = .ok c ∧ next = c + 1) ∨
        (v.kind stop ≠ .openBrace ∧ item.view = v.span stop stop scope ∧ next = stop + 1)) := by
  unfold functionAt at h
  dsimp only at h
  split at h
  · rename_i stop hstop
    obtain ⟨scope, hscope, h⟩ := of_bind_ok h
    refine ⟨stop, scope, hstop, hscope, ?_⟩
    split at h
    · rename_i hbrace
      obtain ⟨c, hc, h⟩ := of_bind_ok h
      obtain ⟨body, hbody, h⟩ := of_bind_ok h
      cases h
      exact ⟨rfl, .inl ⟨hbrace, hbody, c, hc, rfl⟩⟩
    · rename_i hbrace
      cases h
      exact ⟨rfl, .inr ⟨hbrace, rfl, rfl⟩⟩
  · cases h

theorem propertyAt_ok (h : v.propertyAt p = .ok (item, next)) :
    ∃ scope, v.scope.enterMember ⟨.property, propertyName (v.node p).text, v.mark p⟩ = .ok scope ∧
      item.name = propertyName (v.node p).text ∧
      ((item.view = v.span (p + 1) (p + 1) scope ∧
        (∀ q, v.nextCode? p = some q → v.kind q ≠ .equals) ∧
          next = p + 1) ∨
        ∃ equals, v.nextCode? p = some equals ∧ v.kind equals = .equals ∧
          next = ((v.sibling? v.valueEnd (equals + 1)).map (·.val)).getD v.hi ∧
          item.view = v.span (v.valueRange equals next).1 (v.valueRange equals next).2 scope) := by
  unfold propertyAt at h
  dsimp only at h
  obtain ⟨scope, hscope, h⟩ := of_bind_ok h
  refine ⟨scope, hscope, ?_⟩
  split at h
  · rename_i hnone
    cases h
    refine ⟨rfl, .inl ⟨rfl, fun q hq hkind => ?_, rfl⟩⟩
    rw [hq, Option.filter_some, hkind] at hnone
    cases hnone
  · rename_i equals hequals
    obtain ⟨hequals, hkind⟩ := Option.filter_eq_some_iff.mp hequals
    cases h
    exact ⟨rfl, .inr ⟨equals, hequals, by simpa using hkind, rfl, rfl⟩⟩

theorem functionName?_eq_some {nameAt : v.Pos} (h : v.functionName? p = some nameAt) :
    v.kind nameAt = .string ∧ (v.nextCode? p = some nameAt ∨
      ∃ amp, v.nextCode? p = some amp ∧ v.kind amp = .ampersand ∧
      v.nextCode? amp = some nameAt) := by
  obtain ⟨hname, hkind⟩ := Option.filter_eq_some_iff.mp h
  refine ⟨by simpa using hkind, ?_⟩
  split at hname
  · rename_i hamp
    obtain ⟨amp, hfirst, hnext⟩ := Option.bind_eq_some_iff.mp hname
    rw [hfirst] at hamp
    exact .inr ⟨amp, hfirst, by simpa using hamp, hnext⟩
  · exact .inl hname

/-! ## Readings on the ground -/

theorem kind_of_singleton {k l : Kind} (h : (KindSet.ofList [k]).contains l = true) : l = k := by
  simpa using h

theorem isPlain_of_typeKeyword {k : Kind} (h : typeKeywords.contains k = true) :
    isPlain k = true := by
  simp only [typeKeywords, KindSet.contains_ofList, List.contains_iff_mem, List.mem_cons,
    List.not_mem_nil, or_false] at h
  rcases h with h | h | h | h <;> rw [h] <;> rfl

/-- What is read at a position is made of parts of the view, and reading goes on at ground behind
the position. -/
structure Reads (v : View) (p : v.Pos) (r : Reading Item) : Prop where
  parts : ∀ i ∈ r.items, v.Part i.view
  next : ∀ n, r.next = .ok n → p < n ∧ v.Ground n

theorem Reads.skip (h : v.Ground (p + 1)) : v.Reads p (.skip (p + 1)) where
  parts i hi := by cases hi
  next n hn := by cases hn; exact ⟨Nat.lt_succ_self _, h⟩

theorem Reads.ofItem {r : Except Error (Item × Nat)}
    (h : ∀ item next, r = .ok (item, next) → v.Part item.view ∧ p < next ∧ v.Ground next) :
    v.Reads p (.ofItem r) := by
  cases r with
  | error e => exact ⟨(fun i hi => by cases hi), (fun n hn => by cases hn)⟩
  | ok found =>
    obtain ⟨item, next⟩ := found
    obtain ⟨hpart, hnext⟩ := h item next rfl
    refine ⟨fun i hi => ?_, fun n hn => ?_⟩
    · rw [List.mem_singleton.mp hi]; exact hpart
    · cases hn; exact hnext

theorem mem_ofItem {α : Type} {r : Except Error (α × Nat)} {a : α}
    (h : a ∈ (Reading.ofItem r).items) :
    ∃ next, r = .ok (a, next) := by
  cases r with
  | error e => cases h
  | ok found =>
    obtain ⟨b, next⟩ := found
    rw [List.mem_singleton.mp h]
    exact ⟨next, rfl⟩

theorem sibling?_self (h : v.sibling? set i = some p) : v.sibling? set p = some p := by
  rw [sibling?, if_pos (sibling?_bounds h).2, pos?, dif_pos p.isLt]
  dsimp only
  rw [if_pos (sibling?_contains h)]

theorem scan_of_none {α : Type} {read : v.Pos → Reading α} (h : v.sibling? set i = none) :
    v.scan set read i = {} := by
  rw [scan]
  split
  · rfl
  · rename_i hp
    rw [h] at hp
    cases hp

theorem scan_of_some {α : Type} {read : v.Pos → Reading α} (h : v.sibling? set i = some p) :
    v.scan set read i =
      match (read p).next with
      | .error e => ⟨(read p).items, some e⟩
      | .ok next => (v.scan set read (max next (p + 1))).after (read p).items := by
  rw [scan]
  split
  · rename_i hnone
    rw [h] at hnone
    cases hnone
  · rename_i q hq
    rw [h] at hq
    cases hq
    rfl

theorem mem_scan {α : Type} {read : v.Pos → Reading α} {a : α} (h : v.sibling? set i = some p)
    (ha : a ∈ (read p).items) : a ∈ (v.scan set read i).items := by
  rw [scan_of_some h]
  split
  · exact ha
  · exact List.mem_append_left _ ha

/-! ## Where a listed item was read -/

theorem exists_of_mem_scan {α : Type} {read : v.Pos → Reading α} {a : α}
    (h : a ∈ (v.scan set read i).items) :
    ∃ p : v.Pos, p < v.hi ∧ a ∈ (read p).items := by
  fun_induction scan v set read i with
  | case1 => cases h
  | case2 i p hp r e he => exact ⟨p, (sibling?_bounds hp).2, h⟩
  | case3 i p hp r n hn ih =>
    rcases List.mem_append.mp h with h | h
    · exact ⟨p, (sibling?_bounds hp).2, h⟩
    · exact ih h

theorem mem_readType (h : item ∈ (v.readType copy p).items) :
    ∃ next, v.typeAt copy p = .ok (item, next) := by
  rw [readType_eq] at h
  split at h
  · cases h
  · exact mem_ofItem h

theorem mem_types_read (h : item ∈ (v.types copy).items) :
    ∃ p next, v.typeAt copy p = .ok (item, next) := by
  obtain ⟨p, _, hp⟩ := exists_of_mem_scan h
  exact ⟨p, mem_readType hp⟩

theorem mem_functions_read (h : item ∈ (v.functions copy).items) :
    ∃ p nameAt next, v.functionAt copy p nameAt = .ok (item, next) := by
  obtain ⟨p, _, hp⟩ := exists_of_mem_scan h
  rw [readFunction_eq] at hp
  split at hp
  · cases hp
  · split at hp
    · cases hp
    · rename_i nameAt _
      exact ⟨p, nameAt, mem_ofItem hp⟩

theorem mem_properties_read {l : Listing Item} (hl : v.properties = .ok l) (h : item ∈ l.items) :
    ∃ (p : v.Pos) (next : Nat), p < v.hi ∧ v.propertyAt p = .ok (item, next) := by
  unfold properties at hl
  split at hl
  · cases hl
    obtain ⟨p, hlt, hp⟩ := exists_of_mem_scan h
    obtain ⟨next, hat⟩ := mem_ofItem hp
    exact ⟨p, next, hlt, hat⟩
  · cases hl

theorem mem_constants_read (h : item ∈ v.constants.items) :
    ∃ p, item ∈ (v.constantsAt p).items := by
  obtain ⟨p, _, hp⟩ := exists_of_mem_scan h
  unfold readConstants at hp
  split at hp
  · cases hp
  · exact ⟨p, hp⟩

theorem mem_constantsAt (h : item ∈ (v.constantsAt p).items) :
    ∃ (equals nameAt : v.Pos) (scope : Scope) (stop : Nat), equals < v.hi ∧
      v.kind equals = .equals ∧ v.scope.enterMember ⟨.constant, item.name, v.mark nameAt⟩ =
        .ok scope ∧
      stop = ((v.sibling? v.valueEnd (equals + 1)).map (·.val)).getD v.hi ∧
      item.view = v.span (v.valueRange equals stop).1 (v.valueRange equals stop).2 scope := by
  -- by the recursion from one comma to the next: the view of a constant is the value behind its
  -- equals sign
  have hread : ∀ {p last pending}, v.constantAt p = .ok (item, last, pending) →
      ∃ (equals nameAt : v.Pos) (scope : Scope) (stop : Nat), equals < v.hi ∧
      v.kind equals = .equals ∧
        v.scope.enterMember ⟨.constant, item.name, v.mark nameAt⟩ = .ok scope ∧
        stop = ((v.sibling? v.valueEnd (equals + 1)).map (·.val)).getD v.hi ∧
        item.view = v.span (v.valueRange equals stop).1 (v.valueRange equals stop).2 scope := by
    intro p last pending hat
    obtain ⟨equals, scope, hhead, hlast, hview, _⟩ := constantAt_ok hat
    obtain ⟨hequals, hkind, nameAt, _, _, hscope⟩ := constantHead_ok hhead
    exact ⟨equals, nameAt, scope, last, (sibling?_bounds hequals).2, hkind, hscope, hlast, hview⟩
  fun_induction constantsAt v p with
  | case1 => cases h
  | case2 p item' last hat =>
    cases List.mem_singleton.mp h
    exact hread hat
  | case3 p item' last comma hat ih =>
    rcases List.mem_cons.mp h with rfl | h
    · exact hread hat
    · exact ih h

theorem mem_withPreamble {stop : Nat} {rest : Listing Item}
    (h : item ∈ (v.withPreamble stop rest).items) :
    (∃ scope, v.scope.enterNamespace "" = .ok scope ∧ item = ⟨"", v.span v.lo stop scope⟩) ∨
      item ∈ rest.items := by
  unfold withPreamble at h
  split at h
  · cases h
  · rename_i scope hscope
    rcases List.mem_cons.mp h with rfl | h
    · exact .inl ⟨scope, hscope, rfl⟩
    · exact .inr h

theorem withPreamble_ok {stop : Nat} {rest : Listing Item}
    (hok : (v.withPreamble stop rest).error = none) :
    ∃ scope, v.scope.enterNamespace "" = .ok scope ∧
      v.withPreamble stop rest = rest.after [⟨"", v.span v.lo stop scope⟩] := by
  unfold withPreamble at hok ⊢
  split at hok
  · cases hok
  · rename_i scope hscope
    exact ⟨scope, hscope, rfl⟩

theorem mem_namespaces (h : item ∈ (v.namespaces copy).items) :
    (∃ scope, v.scope.enterNamespace "" = .ok scope ∧
      item = ⟨"", v.span v.lo (((v.sibling? namespaceKeyword v.lo).map (·.val)).getD v.hi) scope⟩) ∨
      ∃ first, v.sibling? namespaceKeyword v.lo = some first ∧
      item ∈ (v.declaredNamespaces copy first).items := by
  unfold namespaces at h
  cases hfirst : v.sibling? namespaceKeyword v.lo with
  | none =>
    rw [hfirst] at h
    rcases mem_withPreamble h with h | h
    · exact .inl h
    · cases h
  | some first =>
    rw [hfirst] at h
    dsimp only at h
    split at h
    · rcases mem_withPreamble h with h | h
      · exact .inl h
      · exact .inr ⟨first, rfl, h⟩
    · exact .inr ⟨first, rfl, h⟩

theorem mem_namespaces_read (h : item ∈ (v.namespaces copy).items) :
    (∃ stop scope, v.scope.enterNamespace "" = .ok scope ∧ item = ⟨"", v.span v.lo stop scope⟩) ∨
      ∃ p next, v.namespaceAt copy p = .ok (item, next) := by
  rcases mem_namespaces h with ⟨scope, hscope, hitem⟩ | ⟨first, _, h⟩
  · exact .inl ⟨_, scope, hscope, hitem⟩
  · obtain ⟨p, _, hp⟩ := exists_of_mem_scan h
    exact .inr ⟨p, mem_ofItem hp⟩

/-! ## Scans on the ground -/

/-- A position on the ground of the view with a kind in the set. -/
structure Found (v : View) (set : KindSet) (p : v.Pos) : Prop where
  ground : v.Ground p
  lt : p < v.hi
  mem : set.contains (v.kind p) = true

/-- A scan from the ground reads at positions on the ground only: all its items, and the error that
ends it, come from there. -/
theorem Balanced.scan_found (hv : v.Balanced) {read : v.Pos → Reading Item}
    (hread : ∀ p : v.Pos, v.Found set p → ∀ n, (read p).next = .ok n → p < n ∧ v.Ground n)
    (hi : v.Ground i) :
    (∀ a ∈ (v.scan set read i).items, ∃ p, v.Found set p ∧ a ∈ (read p).items) ∧
      ∀ e, (v.scan set read i).error = some e → ∃ p, v.Found set p ∧ (read p).next = .error e := by
  fun_induction scan v set read i with
  | case1 i h => simp
  | case2 i p h r e he =>
    have hp : v.Found set p := ⟨hv.sibling?_ground hi h, (sibling?_bounds h).2, sibling?_contains h⟩
    refine ⟨fun a ha => ⟨p, hp, ha⟩, fun e' he' => ⟨p, hp, ?_⟩⟩
    cases he'
    exact he
  | case3 i p h r n hn ih =>
    have hp : v.Found set p := ⟨hv.sibling?_ground hi h, (sibling?_bounds h).2, sibling?_contains h⟩
    obtain ⟨hlt, hground⟩ := hread p hp n hn
    rw [Nat.max_eq_left hlt] at ih ⊢
    refine ⟨fun a ha => ?_, (ih hground).2⟩
    rcases List.mem_append.mp ha with ha | ha
    · exact ⟨p, hp, ha⟩
    · exact (ih hground).1 a ha

theorem Balanced.scan_parts (hv : v.Balanced) {read : v.Pos → Reading Item}
    (hread : ∀ p : v.Pos, v.Found set p → v.Reads p (read p)) (hi : v.Ground i) :
    ∀ a ∈ (v.scan set read i).items, v.Part a.view := by
  intro a ha
  obtain ⟨p, hp, ha⟩ := (hv.scan_found (fun p hp => (hread p hp).next) hi).1 a ha
  exact (hread p hp).parts a ha

namespace Balanced

theorem block_part {c : Nat} {scope : Scope} (hv : v.Balanced) (hp : v.Ground p) (hlt : p < v.hi)
    (hb : v.block copy p scope = .ok w) (hc : v.closer p = .ok c) :
    v.Part w ∧ p < c + 1 ∧ v.Ground (c + 1) := by
  have hclosed := closer_ok hc
  have := (hv.pair_of_closedBy hclosed).lt
  exact ⟨.block hp hlt hb, by omega, hv.ground_closer hp hlt hclosed⟩

theorem siblingOrEnd_ground (hv : v.Balanced) (set : KindSet) (hi : v.Ground i) :
    i ≤ ((v.sibling? set i).map (·.val)).getD v.hi ∧
      v.Ground (((v.sibling? set i).map (·.val)).getD v.hi) := by
  cases h : v.sibling? set i with
  | none => exact ⟨hi.le_hi, hv.hi⟩
  | some p => exact ⟨(sibling?_bounds h).1, hv.sibling?_ground hi h⟩

theorem namespaceAt_part (hv : v.Balanced) (hp : v.Ground p) (hk : v.kind p = .namespaceKw)
    (h : v.namespaceAt copy p = .ok (item, next)) :
    v.Part item.view ∧ p < next ∧ v.Ground next := by
  obtain ⟨nameAt, scope, after, hname, _, hafter, _, h⟩ := namespaceAt_ok h
  obtain ⟨hnext, hkind⟩ := namespaceName?_eq_some hname
  obtain ⟨hground, hlt, hlt'⟩ := hv.nextCode?_ground hp (by rw [hk]; rfl) hnext
  have hplain : isPlain (v.kind nameAt) = true := by
    rcases hkind with hkind | hkind <;> rw [hkind] <;> rfl
  obtain ⟨hafter, hlt₁, hlt₂⟩ := hv.nextCodeOrEnd?_ground hground hlt' hplain hafter
  rcases h with ⟨_, hblock, c, hc, rfl⟩ | ⟨_, hend, hview, rfl⟩
  · obtain ⟨hpart, hltc, hnext⟩ := hv.block_part hafter hlt₂ hblock hc
    exact ⟨hpart, by omega, hnext⟩
  · rw [hv.php] at hend
    have hbehind := hafter.succ hlt₂ (hv.roles_plain (isPlain_of_terminator hend))
    obtain ⟨hle, hstop⟩ := hv.siblingOrEnd_ground namespaceKeyword hbehind
    rw [hview]
    exact ⟨.span scope hbehind hstop hle, by omega, hbehind⟩

theorem typeAt_part (hv : v.Balanced) (hp : v.Ground p) (hk : isPlain (v.kind p) = true)
    (h : v.typeAt copy p = .ok (item, next)) : v.Part item.view ∧ p < next ∧ v.Ground next := by
  obtain ⟨nameAt, opener, scope, hname, hstring, hopener, _, _, _, hblock, c, hc, rfl⟩ :=
    typeAt_ok h
  obtain ⟨hground, hlt, hlt'⟩ := hv.nextCode?_ground hp hk hname
  have hbehind := hground.succ hlt' (hv.roles_plain (by rw [hstring]; rfl))
  obtain ⟨hle, hlt₁⟩ := sibling?_bounds hopener
  obtain ⟨hpart, hltc, hnext⟩ := hv.block_part (hv.sibling?_ground hbehind hopener) hlt₁ hblock hc
  exact ⟨hpart, by omega, hnext⟩

theorem functionName?_ground {nameAt : v.Pos} (hv : v.Balanced) (hp : v.Ground p)
    (hk : v.kind p = .functionKw) (h : v.functionName? p = some nameAt) :
    v.Ground (nameAt + 1) ∧ p.val < nameAt.val := by
  obtain ⟨hstring, h⟩ := functionName?_eq_some h
  have hname : v.Ground nameAt ∧ p.val < nameAt.val ∧ nameAt < v.hi := by
    rcases h with h | ⟨amp, hamp, hkind, h⟩
    · exact hv.nextCode?_ground hp (by rw [hk]; rfl) h
    · obtain ⟨hground, hlt, _⟩ := hv.nextCode?_ground hp (by rw [hk]; rfl) hamp
      obtain ⟨hground, hlt', hhi⟩ := hv.nextCode?_ground hground (by rw [hkind]; rfl) h
      exact ⟨hground, Nat.lt_trans hlt hlt', hhi⟩
  obtain ⟨hground, hlt, hhi⟩ := hname
  exact ⟨hground.succ hhi (hv.roles_plain (by rw [hstring]; rfl)), hlt⟩

theorem functionAt_part {nameAt : v.Pos} (hv : v.Balanced) (hn : v.Ground (nameAt + 1))
    (h : v.functionAt copy p nameAt = .ok (item, next)) :
    v.Part item.view ∧ nameAt < next ∧ v.Ground next := by
  obtain ⟨stop, scope, hstop, _, _, h⟩ := functionAt_ok h
  have hground := hv.sibling?_ground hn hstop
  obtain ⟨hle, hlt⟩ := sibling?_bounds hstop
  rcases h with ⟨_, hblock, c, hc, rfl⟩ | ⟨hbrace, hview, rfl⟩
  · obtain ⟨hpart, hltc, hnext⟩ := hv.block_part hground hlt hblock hc
    exact ⟨hpart, by omega, hnext⟩
  · have hset := sibling?_contains hstop
    rw [bodyOrEnd, KindSet.contains_insert, hv.php] at hset
    have hplain : isPlain (v.kind stop) = true := by
      refine isPlain_of_terminator ?_
      rcases Bool.or_eq_true_iff.mp hset with hset | hset
      · exact hset
      · exact absurd (beq_iff_eq.mp hset).symm hbrace
    rw [hview]
    exact ⟨.span scope hground hground (Nat.le_refl _), by omega,
      hground.succ hlt (hv.roles_plain hplain)⟩

theorem propertyAt_part (hv : v.Balanced) (hp : v.Ground p) (hlt : p < v.hi)
    (hk : v.kind p = .variableName) (h : v.propertyAt p = .ok (item, next)) :
    v.Part item.view ∧ p < next ∧ v.Ground next := by
  have hplain : isPlain (v.kind p) = true := by rw [hk]; rfl
  obtain ⟨scope, _, _, ⟨hview, _, rfl⟩ | ⟨equals, hequals, hkind, hnext, hview⟩⟩ := propertyAt_ok h
  · have hbehind := hp.succ hlt (hv.roles_plain hplain)
    rw [hview]
    exact ⟨.span scope hbehind hbehind (Nat.le_refl _), Nat.lt_succ_self _, hbehind⟩
  · obtain ⟨hground, hlt₁, hlt₂⟩ := hv.nextCode?_ground hp hplain hequals
    have hbehind := hground.succ hlt₂ (hv.roles_plain (by rw [hkind]; rfl))
    have hstop := hv.siblingOrEnd_ground v.valueEnd hbehind
    rw [← hnext] at hstop
    obtain ⟨hlo, hhi, hle⟩ := hv.valueRange_ground hbehind hstop.2
    rw [hview]
    exact ⟨.span scope hlo hhi hle, by have := hstop.1; omega, hstop.2⟩

theorem ground_behind {q : v.Pos} (hv : v.Balanced) (hi : v.Ground i)
    (h : v.sibling? set i = some q) (hq : isPlain (v.kind q) = true) : v.Ground (q + 1) :=
  (hv.sibling?_ground hi h).succ (sibling?_bounds h).2 (hv.roles_plain hq)

theorem valueRange_part {stop lo hi : Nat} (hv : v.Balanced) (scope : Scope) (hp : v.Ground (p + 1))
    (hs : v.Ground stop) (h : v.valueRange p stop = (lo, hi)) : v.Part (v.span lo hi scope) := by
  have hvalue := hv.valueRange_ground hp hs
  rw [h] at hvalue
  exact .span scope hvalue.1 hvalue.2.1 hvalue.2.2

theorem constantAt_part {last : Nat} {pending : Option v.Pos} (hv : v.Balanced)
    (hp : v.Ground (p + 1)) (h : v.constantAt p = .ok (item, last, pending)) :
    v.Part item.view ∧ v.Ground last ∧ ∀ comma, pending = some comma → v.Ground (comma + 1) := by
  obtain ⟨equals, scope, hhead, hlast, hview, hpending⟩ := constantAt_ok h
  obtain ⟨hequals, hkind, _⟩ := constantHead_ok hhead
  have hbehind := hv.ground_behind hp hequals (by rw [hkind]; rfl)
  have hground : v.Ground last := by
    rw [hlast]
    cases hstop : v.sibling? v.valueEnd (equals + 1) with
    | none => exact hv.hi
    | some stop => exact hv.sibling?_ground hbehind hstop
  refine ⟨?_, hground, ?_⟩
  · rw [hview]
    exact hv.valueRange_part scope hbehind hground rfl
  · rintro comma rfl
    obtain ⟨hstop, hcomma⟩ := Option.filter_eq_some_iff.mp hpending.symm
    exact hv.ground_behind hbehind hstop (by rw [beq_iff_eq.mp hcomma]; rfl)

theorem constantsAt_reads (hv : v.Balanced) (hp : v.Ground (p + 1)) :
    v.Reads p (v.constantsAt p) := by
  -- by the recursion from one comma to the next
  fun_induction constantsAt v p with
  | case1 => exact ⟨(fun i hi => by cases hi), (fun n hn => by cases hn)⟩
  | case2 p item last hat =>
    obtain ⟨hpart, hground, _⟩ := hv.constantAt_part hp hat
    refine ⟨fun i hi => ?_, fun n hn => ?_⟩
    · rw [List.mem_singleton.mp hi]
      exact hpart
    · cases hn
      exact ⟨(constantAt_bounds hat).1, hground⟩
  | case3 p item last comma hat ih =>
    obtain ⟨hpart, _, hcomma⟩ := hv.constantAt_part hp hat
    have hrest := ih (hcomma comma rfl)
    obtain ⟨hlt, _, hpending⟩ := constantAt_bounds hat
    have hcomma := (hpending comma rfl).1
    refine ⟨fun i hi => ?_, fun n hn => ?_⟩
    · rcases List.mem_cons.mp hi with rfl | hi
      · exact hpart
      · exact hrest.parts i hi
    · obtain ⟨hlt', hground⟩ := hrest.next n hn
      exact ⟨by omega, hground⟩

/-! ## Everything that is listed is a part -/

theorem readType_reads (hv : v.Balanced) (hp : v.Found typeKeywords p) :
    v.Reads p (v.readType copy p) := by
  have hplain := isPlain_of_typeKeyword hp.mem
  rw [readType_eq]
  split
  · exact .skip (hp.ground.succ hp.lt (hv.roles_plain hplain))
  · exact .ofItem fun item next h => hv.typeAt_part hp.ground hplain h

theorem readFunction_reads (hv : v.Balanced) (hp : v.Found (.ofList [.functionKw]) p) :
    v.Reads p (v.readFunction copy p) := by
  have hk := kind_of_singleton hp.mem
  have hskip : v.Reads p (.skip (p + 1)) :=
    .skip (hp.ground.succ hp.lt (hv.roles_plain (by rw [hk]; rfl)))
  rw [readFunction_eq]
  split
  · exact hskip
  · split
    · exact hskip
    · rename_i nameAt hname
      obtain ⟨hbehind, hlt⟩ := hv.functionName?_ground hp.ground hk hname
      refine .ofItem fun item next h => ?_
      obtain ⟨hpart, hnext, hground⟩ := hv.functionAt_part hbehind h
      exact ⟨hpart, by omega, hground⟩

theorem readConstants_reads (hv : v.Balanced) (hp : v.Found (.ofList [.constKw]) p) :
    v.Reads p (v.readConstants p) := by
  have hbehind := hp.ground.succ hp.lt (hv.roles_plain (by rw [kind_of_singleton hp.mem]; rfl))
  unfold readConstants
  split
  · exact .skip hbehind
  · exact hv.constantsAt_reads hbehind

theorem property_reads (hv : v.Balanced) (hp : v.Found (.ofList [.variableName]) p) :
    v.Reads p (.ofItem (v.propertyAt p)) :=
  .ofItem fun _ _ h => hv.propertyAt_part hp.ground hp.lt (kind_of_singleton hp.mem) h

theorem namespace_reads (hv : v.Balanced) (hp : v.Found namespaceKeyword p) :
    v.Reads p (.ofItem (v.namespaceAt copy p)) :=
  .ofItem fun _ _ h => hv.namespaceAt_part hp.ground (kind_of_singleton hp.mem) h

theorem mem_types (hv : v.Balanced) (h : item ∈ (v.types copy).items) :
    ∃ p next, v.Found typeKeywords p ∧ v.typeAt copy p = .ok (item, next) := by
  obtain ⟨p, hp, hitem⟩ := (hv.scan_found (fun _ hp => (hv.readType_reads hp).next) hv.lo).1 item h
  obtain ⟨next, hnext⟩ := mem_readType hitem
  exact ⟨p, next, hp, hnext⟩

theorem mem_declaredNamespaces (hv : v.Balanced) (hi : v.Ground i)
    (h : item ∈ (v.declaredNamespaces copy i).items) :
    ∃ p next, v.Found namespaceKeyword p ∧ v.namespaceAt copy p = .ok (item, next) := by
  obtain ⟨p, hp, hitem⟩ := (hv.scan_found (fun _ hp => (hv.namespace_reads hp).next) hi).1 item h
  obtain ⟨next, hnext⟩ := mem_ofItem hitem
  exact ⟨p, next, hp, hnext⟩

theorem types_parts (hv : v.Balanced) : ∀ i ∈ (v.types copy).items, v.Part i.view :=
  hv.scan_parts (fun _ => hv.readType_reads) hv.lo

theorem functions_parts (hv : v.Balanced) : ∀ i ∈ (v.functions copy).items, v.Part i.view :=
  hv.scan_parts (fun _ => hv.readFunction_reads) hv.lo

theorem constants_parts (hv : v.Balanced) : ∀ i ∈ v.constants.items, v.Part i.view :=
  hv.scan_parts (fun _ => hv.readConstants_reads) hv.lo

theorem properties_parts {l : Listing Item} (hv : v.Balanced) (h : v.properties = .ok l) :
    ∀ i ∈ l.items, v.Part i.view := by
  unfold properties at h
  split at h
  · cases h
    exact hv.scan_parts (fun _ => hv.property_reads) hv.lo
  · cases h

theorem declaredNamespaces_parts (hv : v.Balanced) (hi : v.Ground i) :
    ∀ a ∈ (v.declaredNamespaces copy i).items, v.Part a.view :=
  hv.scan_parts (fun _ => hv.namespace_reads) hi

theorem namespaces_parts (hv : v.Balanced) : ∀ i ∈ (v.namespaces copy).items, v.Part i.view := by
  intro i hi
  rcases mem_namespaces hi with ⟨scope, _, rfl⟩ | ⟨first, hfirst, hi⟩
  · obtain ⟨hle, hstop⟩ := hv.siblingOrEnd_ground namespaceKeyword hv.lo
    exact .span scope hv.lo hstop hle
  · exact hv.declaredNamespaces_parts (hv.sibling?_ground hv.lo hfirst) i hi

end Balanced

theorem mem_namespaces_scope (h : item ∈ (v.namespaces copy).items) :
    v.scope.enterNamespace item.name = .ok item.view.scope := by
  rcases mem_namespaces_read h with ⟨stop, scope, hscope, rfl⟩ | ⟨p, next, hat⟩
  · exact hscope
  · obtain ⟨nameAt, scope, after, _, hscope, _, hname, h⟩ := namespaceAt_ok hat
    rw [hname, hscope]
    rcases h with ⟨_, hblock, _⟩ | ⟨_, _, hview, _⟩
    · obtain ⟨_, _, _, _, _, _, _, rfl, _⟩ := block_ok hblock
      rfl
    · rw [hview]
      rfl

end View

end PhpOutline
