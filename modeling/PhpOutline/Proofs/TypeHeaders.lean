import PhpOutline.Proofs.DeclarationListings
import PhpOutline.Proofs.MirrorNames
import PhpOutline.Proofs.OutlineErrors
import PhpOutline.Proofs.ScanStops

/-!
# Keywords of outlined types

A type is listed at the keyword before its name. Its outline looks for the keyword from the body
backwards and takes the first one that it meets, which is the last one before the body. So it
describes the type that is listed if and only if there is no such keyword between the name and the
body (`outline_by_last_keyword`).
-/

namespace PhpOutline

open PhpOutline.Graph

/-! ## The lists of a header -/

def Base.of? : Kind → Option Base
  | .extendsKw => some .parent
  | .implementsKw => some .interface
  | _ => none

def opened (current : Option Base) (ns : List Node) : Option Base :=
  (ns.reverse.findSome? fun n => Base.of? n.kind).or current

theorem namesType_kind {k : Kind} (h : namesType k = true) :
    Base.of? k = none ∧ Taxonomy.php.isCode k = true := by
  cases k <;> first | exact ⟨rfl, rfl⟩ | cases h

theorem isCode_of_opens {k : Kind} {b : Base} (h : Base.of? k = some b) :
    Taxonomy.php.isCode k = true := by
  unfold Base.of? at h
  split at h <;> first | rfl | cases h

theorem baseNames_cons (current : Option Base) (n : Node) (ns : List Node) :
    baseNames current (n :: ns) =
      (if namesType n.kind then current.toList.map (·, n) else []) ++
        baseNames ((Base.of? n.kind).or current) ns := by
  rw [baseNames]
  split
  · rename_i h
    rw [h]
    rfl
  · rename_i h
    rw [h]
    rfl
  · rename_i hextends himplements
    have hnone : Base.of? n.kind = none := by
      unfold Base.of?
      split <;> first | contradiction | rfl
    rw [hnone, Option.none_or]
    cases current with
    | none => simp
    | some b =>
      dsimp only
      split <;> simp_all

theorem opened_cons (current : Option Base) (n : Node) (ns : List Node) :
    opened current (n :: ns) = opened ((Base.of? n.kind).or current) ns := by
  simp [opened, List.findSome?_append, Option.or_assoc, List.findSome?_singleton]

theorem baseNames_append (current : Option Base) (ns ms : List Node) :
    baseNames current (ns ++ ms) = baseNames current ns ++ baseNames (opened current ns) ms := by
  induction ns generalizing current with
  | nil => rfl
  | cons n ns ih =>
    rw [List.cons_append, baseNames_cons, baseNames_cons, ih, opened_cons, List.append_assoc]

theorem filter_baseNames_singleton (current : Option Base) (n : Node) (b : Base) :
    ((baseNames current [n]).filter (·.1 == b)).map (·.2) =
      if namesType n.kind && current == some b then [n] else [] := by
  rw [baseNames_cons, baseNames, List.append_nil]
  cases namesType n.kind with
  | false => rfl
  | true =>
    cases current with
    | none => rfl
    | some c => by_cases h : c = b <;> simp [h]

namespace View

variable {v : View} {p q k : v.Pos} {a i stop : Nat} {b : Base}

def openIn (v : View) (i stop : Nat) : Option Base :=
  (v.between i stop).reverse.findSome? fun r => Base.of? (v.kind r)

/-- The names of types in a part of the view that belong to one of its lists. -/
def basesIn (v : View) (b : Base) (i stop : Nat) : List v.Pos :=
  (v.between i stop).filter fun q => namesType (v.kind q) && v.openIn i q == some b

theorem basesIn_succ (h : i ≤ q) :
    v.basesIn b i (q + 1) =
      v.basesIn b i q ++ if namesType (v.kind q) && v.openIn i q == some b then [q] else [] := by
  rw [basesIn, between_succ h, List.filter_append, List.filter_singleton, Bool.cond_eq_ite]
  rfl

theorem Balanced.opened_eq (hv : v.Balanced) :
    opened none (((v.between i stop).filter v.isCode).map v.node) = v.openIn i stop := by
  rw [opened, Option.or_none, ← List.map_reverse, List.findSome?_map, ← List.filter_reverse, openIn]
  apply findSome?_filter
  intro r hr
  show Base.of? (v.kind r) = none
  cases hb : Base.of? (v.kind r) with
  | none => rfl
  | some b =>
    rw [isCode, hv.php, isCode_of_opens hb] at hr
    cases hr

theorem Balanced.baseNames_eq (hv : v.Balanced) (hstop : stop ≤ v.graph.nodes.size) :
    ((baseNames none (((v.between i stop).filter v.isCode).map v.node)).filter (·.1 == b)).map
      (·.2) =
      (v.basesIn b i stop).map v.node := by
  -- by induction on the end: the next token is a name of the list that is open behind the ones
  -- before
  induction stop with
  | zero => rw [basesIn, v.between_nil (Nat.zero_le i)]; rfl
  | succ n ih =>
    rcases Nat.lt_or_ge n i with hlt | hle
    · rw [basesIn, v.between_nil hlt]
      rfl
    · let q : v.Pos := ⟨n, hstop⟩
      have hq : i ≤ q.val := hle
      rw [show n + 1 = q.val + 1 from rfl, basesIn_succ hq, between_succ hq, List.filter_append,
        List.map_append, List.map_append, baseNames_append, List.filter_append, List.map_append,
        ih (Nat.le_of_succ_le hstop), hv.opened_eq, List.filter_singleton]
      congr 1
      cases hcode : v.isCode q with
      | true =>
        rw [cond_true, List.map_singleton, filter_baseNames_singleton, apply_ite (List.map v.node)]
        rfl
      | false =>
        rw [isCode, hv.php] at hcode
        have hname : namesType (v.kind q) = false := by
          rw [Bool.eq_false_iff]
          intro hname
          rw [(namesType_kind hname).2] at hcode
          cases hcode
        simp [hname, baseNames]

theorem basesIn_of_no_opener (hai : a ≤ i) (his : i ≤ stop)
    (h : ∀ r : v.Pos, a ≤ r → r < i → Base.of? (v.kind r) = none) :
    v.basesIn b a stop = v.basesIn b i stop := by
  have hnone : ∀ j ≤ i, v.openIn a j = none := by
    intro j hj
    rw [openIn, List.findSome?_eq_none_iff]
    intro r hr
    obtain ⟨har, hrj⟩ := mem_between.mp (List.mem_reverse.mp hr)
    exact h r har (by omega)
  have hopen : ∀ j, i ≤ j → v.openIn a j = v.openIn i j := by
    intro j hj
    have := hnone i (Nat.le_refl i)
    rw [openIn] at this ⊢
    rw [v.between_append hai hj, List.reverse_append, List.findSome?_append, this, Option.or_none]
    rfl
  rw [basesIn, v.between_append hai his, List.filter_append, List.filter_eq_nil_iff.mpr,
    List.nil_append]
  · apply List.filter_congr
    intro r hr
    rw [hopen r (mem_between.mp hr).1]
  · intro r hr
    rw [hnone r (Nat.le_of_lt (mem_between.mp hr).2)]
    simp

theorem Balanced.resolveBases_ok {bases : List (Base × String)} (hv : v.Balanced)
    (hstop : stop ≤ v.graph.nodes.size)
    (h : v.resolveBases (((v.between i stop).filter v.isCode).map v.node) = .ok bases) (b : Base) :
    List.Forall₂ (fun q name => v.resolve .class_ (v.mark q) = .ok name) (v.basesIn b i stop)
      ((bases.filter (·.1 == b)).map (·.2)) := by
  have hresolved := (forall₂_of_mapM h).imp (S := fun x y => x.1 = y.1 ∧
    v.resolve .class_ ⟨v.arena, x.2⟩ = .ok y.2) fun x y hxy => by
      obtain ⟨name, hname, hy⟩ := of_bind_ok hxy
      cases hy
      exact ⟨rfl, hname⟩
  have hfiltered := List.rel_filter (p := fun x => x.1 == b) (q := fun y => y.1 == b)
    (fun x y hxy => by simp [hxy.1]) hresolved
  have hnames : List.Forall₂ (fun n name => v.resolve .class_ ⟨v.arena, n⟩ = .ok name)
      (((baseNames none (((v.between i stop).filter v.isCode).map v.node)).filter (·.1 == b)).map
        (·.2))
      ((bases.filter (·.1 == b)).map (·.2)) := by
    rw [List.forall₂_map_left_iff, List.forall₂_map_right_iff]
    exact hfiltered.imp fun x y hxy => hxy.2
  rw [hv.baseNames_eq hstop] at hnames
  exact List.forall₂_map_left_iff.mp hnames

/-! ## The header of a type -/

theorem takeThrough_append {α : Type} {test : α → Bool} {l l' : List α} {x : α}
    (hl : ∀ y ∈ l, test y = false) (hx : test x = true) :
    takeThrough test (l ++ x :: l') = l ++ [x] := by
  induction l with
  | nil => rw [List.nil_append, takeThrough, if_pos hx]; rfl
  | cons y l ih =>
    rw [List.forall_mem_cons] at hl
    rw [List.cons_append, takeThrough, if_neg (by simp [hl.1]), ih hl.2]
    rfl

/-- The last keyword of a type among the tokens of a declaration before its body. -/
structure Declaration.LastKeyword (d : v.Declaration) (k : v.Pos) : Prop where
  keyword_le : d.keyword ≤ k
  lt_stop : k < d.stop
  mem : typeKeywords.contains (v.kind k) = true
  last : ∀ q, k < q → q < d.stop → typeKeywords.contains (v.kind q) = false

/-- There is no keyword of a type between the name of a declaration and its body. -/
def Declaration.Plain (d : v.Declaration) : Prop :=
  ∀ q, d.name < q → q < d.stop → typeKeywords.contains (v.kind q) = false

/-- An outline of a declaration with the keyword at one position, and the lists of the types that it
builds on from another position on. -/
structure Declaration.Outlined (d : v.Declaration) (space : String) (k : v.Pos) (i : Nat)
    (t : TypeOutline) : Prop where
  header : (v.typeHeader (v.mark d.stop)).head? = some (v.node k)
  keyword : t.keyword = .ofList ((v.node k).text.toList.map Char.toLower)
  line : t.line = (v.node k).line
  name : t.name = (v.node d.name).text
  qualifiedName : t.qualifiedName =
    if space = "" then (v.node d.name).text else space ++ "\\" ++ (v.node d.name).text
  parents : List.Forall₂ (fun q name => v.resolve .class_ (v.mark q) = .ok name)
    (v.basesIn .parent i d.stop) t.parents
  interfaces :
    List.Forall₂ (fun q name => v.resolve .class_ (v.mark q) = .ok name)
      (v.basesIn .interface i d.stop) t.interfaces

variable {d : v.Declaration}

theorem exists_lastKeyword (hlt : d.keyword < d.stop)
    (h : typeKeywords.contains (v.kind d.keyword) = true) :
    ∃ k, d.LastKeyword k := by
  have hmem : d.keyword ∈
      (v.between d.keyword d.stop).filter fun r => typeKeywords.contains (v.kind r) :=
    List.mem_filter.mpr ⟨mem_between.mpr ⟨Nat.le_refl _, hlt⟩, h⟩
  cases hlast : ((v.between d.keyword d.stop).filter
    fun r => typeKeywords.contains (v.kind r)).getLast? with
  | none => simp [List.getLast?_eq_none_iff.mp hlast] at hmem
  | some k =>
    obtain ⟨hle, hks, hk, hafter⟩ := getLast?_filter_between hlast
    exact ⟨k, hle, hks, hk, hafter⟩

namespace Balanced

theorem isCode_keyword (hv : v.Balanced) (h : typeKeywords.contains (v.kind k) = true) :
    v.isCode k = true := by
  rw [isCode, hv.php]
  exact (begins_typeKeywords _ h).2.1

theorem lastKeyword_eq_iff (hv : v.Balanced) (hd : d.Placed) (hhead : v.TypeHead d)
    (hk : d.LastKeyword k) :
    k = d.keyword ↔ d.Plain := by
  -- between its keyword and its name a declaration has only trivia
  obtain ⟨hadj, hstring, _⟩ := hhead
  constructor
  · rintro rfl q hq hstop
    exact hk.last q (lt_trans hd.keyword_lt hq) hstop
  · intro hplain
    by_contra hne
    have hmem := hk.mem
    have hlt : d.keyword < k := lt_of_le_of_ne hk.keyword_le (Ne.symm hne)
    rcases lt_trichotomy k d.name with hkn | rfl | hnk
    · have htrivia := hadj.between k hlt hkn
      rw [hv.isCode_keyword hmem] at htrivia
      cases htrivia
    · rw [hstring] at hmem
      cases hmem
    · rw [hplain k hnk hk.lt_stop] at hmem
      cases hmem

theorem headerAt_eq (hv : v.Balanced) (hlo : v.lo ≤ k) (hk : d.LastKeyword k) :
    v.headerAt d.stop = k :: (v.between (k + 1) d.stop).filter v.isCode := by
  rw [headerAt, v.between_append hlo (Nat.le_of_lt hk.lt_stop), between_cons hk.lt_stop,
    List.filter_append, List.filter_cons, if_pos (hv.isCode_keyword hk.mem), List.reverse_append,
    List.reverse_cons, List.append_assoc]
  rw [List.singleton_append, takeThrough_append (x := k) ?_ hk.mem, List.reverse_append,
    List.reverse_reverse]
  · rfl
  · intro r hr
    obtain ⟨hr, _⟩ := List.mem_filter.mp (List.mem_reverse.mp hr)
    exact hk.last r (mem_between.mp hr).1 (mem_between.mp hr).2

theorem basesIn_keyword (hv : v.Balanced) (hd : d.Placed) (hhead : v.TypeHead d) (b : Base) :
    v.basesIn b (d.keyword + 1) d.stop = v.basesIn b (d.name + 1) d.stop := by
  obtain ⟨hadj, hstring, _⟩ := hhead
  have hlt : d.keyword.val < d.name.val := hd.keyword_lt
  apply basesIn_of_no_opener (by omega) hd.name_lt
  intro r hr hrn
  rcases Nat.eq_or_lt_of_le (Nat.le_of_lt_succ hrn) with heq | hrn
  · rw [Fin.ext heq, hstring]
    rfl
  · have htrivia := hadj.between r hr hrn
    cases hb : Base.of? (v.kind r) with
    | none => rfl
    | some b =>
      rw [isCode, hv.php, isCode_of_opens hb] at htrivia
      cases htrivia

end Balanced

end View

/-! ## Outlines -/

open View

variable {s : OutlineSettings} {v : View} {item : Item} {space : String}

theorem outlineType_ok {t : TypeOutline} (h : outlineType s space v item = .ok t) :
    ∃ opener keyword header bases, item.view.anchor = some opener ∧
      v.typeHeader opener = keyword :: header ∧ v.resolveBases header = .ok bases ∧
      t.keyword = .ofList (keyword.text.toList.map Char.toLower) ∧ t.line = keyword.line ∧
      t.name = item.name ∧ t.qualifiedName = qualify space item.name ∧
      t.parents = (bases.filter (·.1 == .parent)).map (·.2) ∧
      t.interfaces = (bases.filter (·.1 == .interface)).map (·.2) := by
  unfold outlineType at h
  split at h
  · rename_i opener hanchor
    split at h
    · cases h
    · rename_i keyword header hheader
      obtain ⟨bases, hbases, h⟩ := of_bind_ok h
      obtain ⟨_, _, h⟩ := of_bind_ok h
      obtain ⟨_, _, h⟩ := of_bind_ok h
      obtain ⟨_, _, h⟩ := of_bind_ok h
      obtain ⟨_, _, h⟩ := of_bind_ok h
      cases h
      exact ⟨opener, keyword, header, bases, hanchor, hheader, hbases, rfl, rfl, rfl, rfl, rfl, rfl⟩
  · cases h

theorem outlined_of_outlineType {d : v.Declaration} {k : v.Pos} {t : TypeOutline}
    (hv : v.Balanced) (hd : d.Placed) (hanchor : d.item.view.anchor = some (v.mark d.stop))
    (hk : d.LastKeyword k) (h : outlineType s space v d.item = .ok t) :
    d.Outlined space k (k + 1) t := by
  obtain ⟨opener, keyword, header, bases, hopener, hheader, hbases, hkeyword, hline, hname,
    hqualified, hparents, hinterfaces⟩ := outlineType_ok h
  cases hanchor.symm.trans hopener
  have hlo : v.lo ≤ k := Nat.le_trans hd.keyword_top.lo_le hk.keyword_le
  have htop := hd.stop_first.top
  have heq := hv.typeHeader_mark htop.lo_le htop.lt_hi
  rw [hv.headerAt_eq hlo hk, hheader, List.map_cons] at heq
  obtain ⟨rfl, rfl⟩ := List.cons.inj heq
  have hresolved := hv.resolveBases_ok (Nat.le_of_lt d.stop.isLt) hbases
  refine ⟨by rw [hheader]; rfl, hkeyword, hline, hname.trans hd.name_eq, ?_, ?_, ?_⟩
  · rw [hqualified, hd.name_eq, qualify]
  · rw [hparents]
    exact hresolved .parent
  · rw [hinterfaces]
    exact hresolved .interface

theorem Listing.mapM_ok {α β : Type} {f : α → Except Error β} {l : Listing α} {l' : List β}
    (h : l.mapM f = .ok l') :
    l.error = none ∧ List.Forall₂ (fun x y => f x = .ok y) l.items l' := by
  obtain ⟨ys, hys, h⟩ := of_bind_ok h
  split at h
  · cases h
    exact ⟨‹_›, forall₂_of_mapM hys⟩
  · cases h

theorem outlineNamespace_ok {n : NamespaceOutline} (h : outlineNamespace s item = .ok n) :
    item.view.types.mapM (outlineType s item.name item.view) = .ok n.types := by
  obtain ⟨_, _, h⟩ := of_bind_ok h
  obtain ⟨_, _, h⟩ := of_bind_ok h
  obtain ⟨_, _, h⟩ := of_bind_ok h
  obtain ⟨_, htypes, h⟩ := of_bind_ok h
  cases h
  exact htypes

/-- The outline of a source has one type for each that is listed in a namespace. It describes the
type with the last keyword of a type before the body. That is the keyword of its declaration if and
only if there is none between the name and the body, and then the types that it builds on are listed
behind the name. -/
theorem outline_by_last_keyword {s : Settings} {source : String} {o : FileOutline}
    (h : outlineSource s source = .ok o) :
    ∃ root, ofSource source { s.lexer.flags with matchBrackets := true } = .ok root ∧
      List.Forall₂ (fun i n => ∃ ds : List i.view.Declaration,
        i.view.ListsAll typeKeywords i.view.TypeInExpression i.view.AnchoredHead
          i.view.types.items ds ∧
        List.Forall₂ (fun d t => ∃ k, d.LastKeyword k ∧ d.Outlined i.name k (k + 1) t ∧
          (k = d.keyword ↔ d.Plain) ∧ (d.Plain → d.Outlined i.name d.keyword (d.name + 1) t))
          ds n.types)
        root.namespaces.items o.namespaces := by
  rw [outlineSource_eq] at h
  obtain ⟨root, hroot, h⟩ := of_bind_ok h
  obtain ⟨namespaces, hnamespaces, h⟩ := of_bind_ok h
  cases h
  obtain ⟨ts, g, _, hlink, hg⟩ := ofSource_ok hroot
  have hb := balanced_of_ofGraph (.link hlink) hg
  have hspaces := (List.forall₂_and_left _ _).mpr ⟨fun i hi => hi, (Listing.mapM_ok hnamespaces).2⟩
  refine ⟨root, hroot, hspaces.imp ?_⟩
  rintro i n ⟨hi, hspace⟩
  have hv : i.view.Balanced := (hb.namespaces_parts i hi).balanced hb
  obtain ⟨hok, htypes⟩ := Listing.mapM_ok (outlineNamespace_ok hspace)
  obtain ⟨ds, hds⟩ := hv.types_anchored hok
  refine ⟨ds, hds, ?_⟩
  rw [hds.items_eq, List.forall₂_map_left_iff] at htypes
  refine ((List.forall₂_and_left _ _).mpr ⟨fun d hd => hd, htypes⟩).imp ?_
  rintro d t ⟨hd, ht⟩
  obtain ⟨hplaced, ⟨hhead, hanchor⟩, hmem, _⟩ := hds.placed d hd
  obtain ⟨k, hk⟩ := exists_lastKeyword (lt_trans hplaced.keyword_lt hplaced.name_lt) hmem
  have hout := outlined_of_outlineType hv hplaced hanchor hk ht
  have hiff := hv.lastKeyword_eq_iff hplaced hhead hk
  refine ⟨k, hk, hout, hiff, fun hplain => ?_⟩
  obtain rfl := hiff.mpr hplain
  refine ⟨hout.header, hout.keyword, hout.line, hout.name, hout.qualifiedName, ?_, ?_⟩
  · rw [← hv.basesIn_keyword hplaced hhead]
    exact hout.parents
  · rw [← hv.basesIn_keyword hplaced hhead]
    exact hout.interfaces

/-- A class and an enum of a namespace that build on other types. -/
def sampleTypes : String :=
  "<?php namespace N; class A extends B implements C, \\D \x7b\x7d " ++
    "enum E: int implements F \x7b\x7d"

theorem outline_by_last_keyword_sample :
    ∃ (o : FileOutline) (root : View) (i : Item) (n : NamespaceOutline)
      (ds : List i.view.Declaration), outlineSource {} sampleTypes = .ok o ∧
      root.namespaces.items = [i] ∧ o.namespaces = [n] ∧
      n.types = [⟨"class", "A", "N\\A", 1, ["N\\B"], ["N\\C", "D"], [], [], []⟩,
        ⟨"enum", "E", "N\\E", 1, [], ["N\\F"], [], [], []⟩] ∧
      i.view.ListsAll typeKeywords i.view.TypeInExpression i.view.AnchoredHead
        i.view.types.items ds ∧
      List.Forall₂ (fun d t => ∃ k, d.LastKeyword k ∧ d.Outlined i.name k (k + 1) t ∧
        (k = d.keyword ↔ d.Plain) ∧ (d.Plain → d.Outlined i.name d.keyword (d.name + 1) t))
        ds n.types := by
  have h : ((outlineSource {} sampleTypes).toOption.map fun o => o.namespaces.map (·.types)) =
      some [[⟨"class", "A", "N\\A", 1, ["N\\B"], ["N\\C", "D"], [], [], []⟩,
        ⟨"enum", "E", "N\\E", 1, [], ["N\\F"], [], [], []⟩]] := by
    decide +kernel
  obtain ⟨o, ho, h⟩ := Option.map_eq_some_iff.mp h
  obtain ⟨n, hn, htypes⟩ := List.map_eq_singleton_iff.mp h
  obtain ⟨root, _, hspaces⟩ := outline_by_last_keyword (ok_of_toOption ho)
  rw [hn] at hspaces
  obtain ⟨i, is, ⟨ds, hds, htwo⟩, hnil, hitems⟩ := List.forall₂_cons_right_iff.mp hspaces
  rw [List.forall₂_nil_right_iff] at hnil
  rw [hnil] at hitems
  exact ⟨o, root, i, n, ds, ok_of_toOption ho, hitems, hn, htypes, hds, htwo⟩

/-- The name of the parent is taken for the keyword of an enum, since a comment comes between it and
the body. -/
theorem outline_by_parent_name :
    (outlineSource {} "<?php class A extends Enum // base\n\x7b\x7d").toOption.map
        (·.namespaces.map (·.types)) = some [[⟨"enum", "A", "A", 1, [], [], [], [], []⟩]] ∧
    (ofSource "<?php class A extends Enum // base\n\x7b\x7d").toOption.map (fun root =>
        root.namespaces.items.map fun i =>
          (i.view.stops typeKeywords (i.view.readType 0) i.view.lo).map fun p =>
            (i.view.node p).text) =
      some [["class"]] := by
  decide +kernel

end PhpOutline
