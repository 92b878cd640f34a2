import PhpOutline.Proofs.PartResolution

/-!
# What names stand for

`StandsFor` says what full name a name has in a namespace with imports. In every view below a
namespace, however deep, names are resolved by the name of that namespace and by its imports
(`Reaches.importScope_eq`), so that resolution of a name there is `StandsFor` of these.
-/

namespace PhpOutline

/-! ## Import tables -/

/-- An import gives a meaning to a plain name. -/
def Import.Knows (i : Import) (kind : ImportKind) (name : String) : Prop :=
  i.kind = kind ∧ Text.toLower i.aliasName = Text.toLower name

instance (i : Import) (kind : ImportKind) (name : String) : Decidable (i.Knows kind name) := by
  unfold Import.Knows; infer_instance

namespace ImportTable

variable {t : ImportTable} {i : Import} {kind : ImportKind} {name : String} {imports : List Import}

theorem key_eq_iff : key i.kind i.aliasName = key kind name ↔ i.Knows kind name := by
  simp [key, Import.Knows]

theorem get?_insert :
    (t.insert i).get? kind name = if i.Knows kind name then some i.name else t.get? kind name := by
  rw [get?, insert, List.lookup_cons]
  split
  · rename_i heq
    rw [if_pos (key_eq_iff.mp (beq_iff_eq.mp heq).symm)]
  · rename_i hne
    have hne : key i.kind i.aliasName ≠ key kind name := fun h => by simp [h] at hne
    rw [if_neg (mt key_eq_iff.mpr hne), lookup_filter_ne hne, get?]

theorem get?_foldl_insert (h : ∀ i ∈ imports, ¬ i.Knows kind name) :
    (imports.foldl insert t).get? kind name = t.get? kind name := by
  induction imports generalizing t with
  | nil => rfl
  | cons i imports ih =>
    rw [List.forall_mem_cons] at h
    rw [List.foldl_cons, ih h.2, get?_insert, if_neg h.1]

theorem get?_ofList_of_last {before after : List Import} (hi : i.Knows kind name)
    (hlast : ∀ j ∈ after, ¬ j.Knows kind name) :
    (ofList (before ++ i :: after)).get? kind name = some i.name := by
  rw [ofList, List.foldl_append, List.foldl_cons, get?_foldl_insert hlast, get?_insert, if_pos hi]

theorem get?_ofList_of_unknown (h : ∀ i ∈ imports, ¬ i.Knows kind name) :
    (ofList imports).get? kind name = none := by
  rw [ofList, get?_foldl_insert h]
  rfl

end ImportTable

/-! ## Meanings of names -/

/-- A name that starts with the namespace keyword, in any case, and a separator. -/
def IsRelative (name : List Char) : Prop :=
  ∃ word rest, name = word ++ rest ∧ word.map Char.toLower = "namespace\\".toList

/-- The full name that a name stands for in a namespace with imports. A name of the namespace itself
is put behind the namespace and a separator, unless the namespace is the global one. Of the imports
that know a plain name, the last one counts. -/
inductive StandsFor (space : String) (imports : List Import) (kind : ImportKind) :
    List Char → String → Prop
  | relative {word rest : List Char} (h : word.map Char.toLower = "namespace\\".toList) :
      StandsFor space imports kind (word ++ rest)
        (if space = "" then .ofList rest else space ++ "\\" ++ .ofList rest)
  | full {rest : List Char} : StandsFor space imports kind ('\\' :: rest) (.ofList rest)
  | qualified {name : List Char} (hrelative : ¬ IsRelative name) (hfull : name.head? ≠ some '\\')
      (h : '\\' ∈ name) :
      StandsFor space imports kind name (.ofList name)
  | imported {name : List Char} {before after : List Import} {i : Import} (hplain : '\\' ∉ name)
      (himports : imports = before ++ i :: after) (hi : i.Knows kind (.ofList name))
      (hlast : ∀ j ∈ after, ¬ j.Knows kind (.ofList name)) :
        StandsFor space imports kind name i.name
  | unknown {name : List Char} (hplain : '\\' ∉ name)
      (h : ∀ i ∈ imports, ¬ i.Knows kind (.ofList name)) :
      StandsFor space imports kind name (if space = "" then .ofList name else space ++ "\\" ++
        .ofList name)

variable {space : String} {imports : List Import} {kind : ImportKind} {name : List Char}
  {full : String}

theorem isRelativeName_iff : Lexeme.isRelativeName name = true ↔ IsRelative name :=
  Text.startsWithWord_iff

theorem eq_of_toLower {c d : Char} (hd : d.toNat < 97) (h : c.toLower = d) : c = d := by
  unfold Char.toLower at h
  split at h
  · rename_i hupper
    have hval := congrArg (fun d : Char => d.val.toNat) h
    simp only [UInt32.toNat_add] at hval
    have hlow : 65 ≤ c.val.toNat := hupper.1
    have hhigh : c.val.toNat ≤ 90 := hupper.2
    change (c.val.toNat + 32) % 2 ^ 32 = d.toNat at hval
    omega
  · exact h

theorem IsRelative.separator_mem (h : IsRelative name) : '\\' ∈ name := by
  obtain ⟨word, rest, rfl, hword⟩ := h
  have hmem : '\\' ∈ word.map Char.toLower := by rw [hword]; decide
  obtain ⟨c, hc, hlower⟩ := List.mem_map.mp hmem
  rw [← eq_of_toLower (by decide) hlower]
  exact List.mem_append_left _ hc

theorem not_isRelative_full {rest : List Char} : ¬ IsRelative ('\\' :: rest) := by
  rintro ⟨word, rest', heq, hword⟩
  cases word with
  | nil => cases hword
  | cons c word =>
    obtain ⟨rfl, -⟩ := List.cons.inj heq
    simp at hword

theorem exists_last_knows (imports : List Import) (kind : ImportKind) (name : String) :
    (∀ i ∈ imports, ¬ i.Knows kind name) ∨ ∃ before i after, imports = before ++ i :: after ∧
      i.Knows kind name ∧ ∀ j ∈ after, ¬ j.Knows kind name := by
  induction imports with
  | nil => exact .inl (by simp)
  | cons i imports ih =>
    rcases ih with hnone | ⟨before, j, after, rfl, hj, hlast⟩
    · by_cases hi : i.Knows kind name
      · exact .inr ⟨[], i, imports, rfl, hi, hnone⟩
      · exact .inl (List.forall_mem_cons.mpr ⟨hi, hnone⟩)
    · exact .inr ⟨i :: before, j, after, rfl, hj, hlast⟩

theorem exists_standsFor (space : String) (imports : List Import) (kind : ImportKind)
    (name : List Char) :
    ∃ full, StandsFor space imports kind name full := by
  by_cases hrelative : IsRelative name
  · obtain ⟨word, rest, rfl, hword⟩ := hrelative
    exact ⟨_, .relative hword⟩
  · by_cases hfull : name.head? = some '\\'
    · obtain ⟨rest, rfl⟩ := List.head?_eq_some_iff.mp hfull
      exact ⟨_, .full⟩
    · by_cases hsep : '\\' ∈ name
      · exact ⟨_, .qualified hrelative hfull hsep⟩
      · rcases exists_last_knows imports kind (.ofList name) with hnone |
          ⟨before, i, after, himports, hi, hlast⟩
        · exact ⟨_, .unknown hsep hnone⟩
        · exact ⟨_, .imported hsep himports hi hlast⟩

namespace View

open PhpOutline.Graph

variable {g : Graph} {root v w : View} {i : v.Pos} {m : Mark} {copy : Nat} {run : List Char}

/-! ## Names in a view -/

/-- A text without the separators at its end, where a text of separators alone keeps one. -/
structure Sheds (run name : List Char) : Prop where
  run_eq : ∃ k, run = name ++ List.replicate k '\\'
  last : name.getLast? = some '\\' → name = ['\\']
  empty : name = [] → run = []

/-- The name that starts at a position: the text of the name segments that stand together from there
on, as far as the view goes, without the separators at its end. -/
def Names (v : View) (i : v.Pos) (name : List Char) : Prop :=
  ∃ stop : Nat, i < stop ∧ stop ≤ v.hi ∧
    (∀ j : v.Pos, i ≤ j → j < stop → v.graph.taxonomy.nameSegments.contains (v.kind j) = true) ∧
    v.Halts stop ∧ Sheds ((window v.graph.tokens i stop).flatMap (·.text.toList)) name

theorem withoutTrailing_append_replicate (name : List Char) (k : Nat)
    (hlast : name.getLast? ≠ some '\\') (hne : name ≠ []) :
    withoutTrailing (name ++ List.replicate k '\\') = name := by
  have hreverse : name.reverse.dropWhile (· == '\\') = name.reverse := by
    cases hr : name.reverse with
    | nil => rfl
    | cons c r =>
      rw [← List.head?_reverse, hr, List.head?_cons] at hlast
      exact List.dropWhile_cons_of_neg (by simpa using hlast)
  have hcore : (name ++ List.replicate k '\\').reverse.dropWhile (· == '\\') = name.reverse := by
    rw [List.reverse_append, List.reverse_replicate, List.dropWhile_append_of_pos (by simp),
      hreverse]
  rw [withoutTrailing, hcore, List.reverse_reverse, if_neg (by simpa using hne)]

theorem withoutTrailing_replicate (k : Nat) :
    withoutTrailing (List.replicate k '\\') = (List.replicate k '\\').take 1 := by
  have hcore : (List.replicate k '\\').reverse.dropWhile (· == '\\') = [] := by simp
  rw [withoutTrailing, hcore]
  rfl

theorem Sheds.withoutTrailing_eq (h : Sheds run name) : withoutTrailing run = name := by
  obtain ⟨⟨k, rfl⟩, hlast, hempty⟩ := h
  by_cases hsep : name.getLast? = some '\\'
  · obtain rfl := hlast hsep
    exact withoutTrailing_replicate (k + 1)
  · by_cases hne : name = []
    · rw [hempty hne, hne]
      rfl
    · exact withoutTrailing_append_replicate name k hsep hne

theorem sheds_withoutTrailing (run : List Char) : Sheds run (withoutTrailing run) := by
  -- the text is a core that does not end in a separator, and separators
  have hrun : ∃ core k, run = core ++ List.replicate k '\\' ∧ core.getLast? ≠ some '\\' := by
    refine ⟨(run.reverse.dropWhile (· == '\\')).reverse, (run.reverse.takeWhile (· == '\\')).length,
      ?_, ?_⟩
    · have hall : run.reverse.takeWhile (· == '\\') =
          List.replicate (run.reverse.takeWhile (· == '\\')).length '\\' :=
        List.eq_replicate_of_mem fun c hc => by simpa using List.mem_takeWhile_imp hc
      rw [← List.reverse_replicate, ← hall, ← List.reverse_append, List.takeWhile_append_dropWhile,
        List.reverse_reverse]
    · rw [List.getLast?_reverse]
      intro hhead
      have := List.head?_dropWhile_not (· == '\\') run.reverse
      simp [hhead] at this
  obtain ⟨core, k, rfl, hlast⟩ := hrun
  by_cases hne : core = []
  · subst hne
    rw [List.nil_append, withoutTrailing_replicate]
    cases k with
    | zero => exact ⟨⟨0, rfl⟩, by simp, by simp⟩
    | succ k => exact ⟨⟨k, rfl⟩, by simp, by simp⟩
  · rw [withoutTrailing_append_replicate core k hlast hne]
    exact ⟨⟨k, rfl⟩, fun h => absurd h hlast, fun h => absurd h hne⟩

theorem nameAt_of_names (h : v.Names i name) : v.nameAt i = .ok name := by
  obtain ⟨stop, hlt, hstop, hall, hhalts, hsheds⟩ := h
  have hself : (window v.graph.tokens i stop).takeWhile
      (v.graph.taxonomy.nameSegments.contains ·.kind) =
      window v.graph.tokens i stop := by
    rw [List.takeWhile_eq_self_iff]
    intro t ht
    obtain ⟨k, hk⟩ := List.mem_iff_getElem?.mp ht
    have hlength : k < (window v.graph.tokens i stop).length := (List.getElem?_eq_some_iff.mp hk).1
    have hks : i.val + k < stop := by
      rw [window, List.length_drop, List.length_take] at hlength
      omega
    rw [getElem?_window hks, getElem?_tokens] at hk
    obtain ⟨n, hn, rfl⟩ := Option.map_eq_some_iff.mp hk
    obtain ⟨hsize, rfl⟩ := Array.getElem?_eq_some_iff.mp hn
    exact hall ⟨i + k, hsize⟩ (Nat.le_add_right _ _) hks
  rw [nameAt_eq, if_pos (hall i (Nat.le_refl _) hlt),
    hhalts.takeWhile_window hstop (Nat.le_of_lt hlt), hself, hsheds.withoutTrailing_eq]

theorem exists_names (hi : i < v.hi)
    (hsegment : v.graph.taxonomy.nameSegments.contains (v.kind i) = true) :
    ∃ name, v.Names i name := by
  -- the run goes up to the first position without a segment, at most to the end of the view
  have hend : v.Halts v.hi := fun _ _ hlt => absurd hlt (Nat.lt_irrefl _)
  obtain ⟨stop, hstop⟩ := exists_firstFrom (Nat.succ_le_of_lt hi) hend
  have hle : stop ≤ v.hi := Nat.le_of_not_lt fun hlt => hstop.first _ hi hlt hend
  refine ⟨_, stop, hstop.le, hle, fun j hij hj => ?_, hstop.holds, sheds_withoutTrailing _⟩
  rcases Nat.eq_or_lt_of_le hij with heq | hlt
  · rwa [← Fin.ext heq]
  · by_contra hneg
    refine hstop.first j hlt hj ?_
    intro q hq _
    rw [Fin.ext hq]
    simpa using hneg

/-! ## Below a namespace -/

theorem lt_hi_of_position? (hi : v.position? m = some i) : i < v.hi := by
  unfold position? at hi
  split at hi
  · rename_i hm
    rw [val_of_pos? hi]
    exact hm.2.2
  · cases hi

/-- A namespace of a whole graph lies in no type and no member, so its own imports count in it. -/
theorem namespace_importScope {item : Item} (hroot : ofGraph g = .ok root)
    (h : item ∈ (root.namespaces copy).items) :
    item.view.scope.space = some item.name ∧ item.view.importScope = item.view := by
  obtain ⟨_, _, rfl⟩ := ofGraph_ok hroot
  obtain ⟨s, hs, hchild⟩ := mem_namespaces_child h
  cases hs with
  | space =>
    have hlevel : Scope.isNamespaceLevel { space := some item.name } = true := rfl
    rw [importScope, hchild.outer_eq, importScopeOf, hchild.scope_eq, if_pos hlevel,
      ← hchild.outer_eq]
    exact ⟨rfl, rfl⟩
  | member he => cases he

theorem Reaches.importScope_eq (hspace : w.scope.isSet .space = true) (hlevel : w.importScope = w)
    (h : w.Reaches v) :
    v.scope.space = w.scope.space ∧ v.importScope = w := by
  induction h with
  | refl => exact ⟨rfl, hlevel⟩
  | step _ hlists ih =>
    obtain ⟨e, name, hyields⟩ := lists_iff_yields.mp hlists
    obtain ⟨s, hs, hchild⟩ := hyields.child
    obtain ⟨hspace', himports⟩ := ih
    -- no namespace is listed below a namespace, so the view is passed over on the way out
    obtain ⟨hsame, hdeep⟩ := hs.space_eq (by rw [Scope.isSet, hspace']; exact hspace)
    rw [hchild.scope_eq, hsame, importScope, hchild.outer_eq, importScopeOf, hchild.scope_eq, hdeep]
    exact ⟨hspace', himports⟩

theorem resolve_eq_of_standsFor (hspace : v.scope.space = some space) (hi : v.position? m = some i)
    (hname : v.nameAt i = .ok name) (htable : v.importTable = .ok (.ofList imports))
    (h : StandsFor space imports kind name full) : v.resolve kind m = .ok full := by
  have hplain : '\\' ∉ name → v.resolve kind m =
      .ok (((ImportTable.ofList imports).get? kind (.ofList name)).getD
        (qualify space (.ofList name))) := by
    intro hsep
    unfold resolve
    simp only [hspace, hi, hname, htable, bind, Except.bind, pure, Except.pure]
    rw [if_neg fun h => hsep (isRelativeName_iff.mp h).separator_mem]
    split
    · exact absurd (List.mem_cons_self ..) hsep
    · rw [if_neg (by simpa using hsep)]
  cases h with
  | @relative word rest h =>
    have hlength : word.length = 10 := by simpa using congrArg List.length h
    unfold resolve
    simp only [hspace, hi, hname, bind, Except.bind, pure, Except.pure]
    rw [if_pos (isRelativeName_iff.mpr ⟨word, rest, rfl, h⟩), List.drop_left' hlength, qualify]
  | full =>
    unfold resolve
    simp only [hspace, hi, hname, bind, Except.bind, pure, Except.pure]
    rw [if_neg (mt isRelativeName_iff.mp not_isRelative_full)]
  | qualified hrelative hfull h =>
    unfold resolve
    simp only [hspace, hi, hname, bind, Except.bind, pure, Except.pure]
    rw [if_neg (mt isRelativeName_iff.mp hrelative)]
    split
    · exact absurd rfl hfull
    · rw [if_pos (by simpa using h)]
  | imported hsep himports hi hlast =>
    rw [hplain hsep, himports, ImportTable.get?_ofList_of_last hi hlast]
    rfl
  | unknown hsep h =>
    rw [hplain hsep, ImportTable.get?_ofList_of_unknown h]
    rfl

/-- In every view below a namespace whose imports can be read, a name is resolved, as one of any
kind, to the one full name that it stands for in the namespace. -/
theorem resolve_stands_for {g : Graph} {root space v : View} {copy : Nat} {spaceName : String}
    {m : Mark} {i : v.Pos} (hroot : ofGraph g = .ok root)
    (hspace : ⟨spaceName, space⟩ ∈ (root.namespaces copy).items)
    (himports : space.imports.error = none) (hv : space.Reaches v) (hi : v.position? m = some i)
    (hsegment : v.graph.taxonomy.nameSegments.contains (v.kind i) = true) (kind : ImportKind) :
    (∃ name, v.Names i name) ∧ ∀ name, v.Names i name → ∃ full, v.resolve kind m = .ok full ∧
      ∀ full', StandsFor spaceName space.imports.items kind name full' ↔ full' = full := by
  obtain ⟨hname, hscope⟩ := namespace_importScope hroot hspace
  obtain ⟨hsame, hscope⟩ := hv.importScope_eq (by rw [Scope.isSet, hname]; rfl) hscope
  have htable : v.importTable = .ok (.ofList space.imports.items) := by
    rw [importTable, hscope, Listing.get, himports]
    rfl
  refine ⟨exists_names (lt_hi_of_position? hi) hsegment, fun name hnames => ?_⟩
  have hresolve : ∀ {full}, StandsFor spaceName space.imports.items kind name full →
      v.resolve kind m = .ok full :=
    resolve_eq_of_standsFor (hsame.trans hname) hi (nameAt_of_names hnames) htable
  obtain ⟨full, hfull⟩ := exists_standsFor spaceName space.imports.items kind name
  refine ⟨full, hresolve hfull, fun full' => ⟨fun hfull' => ?_, fun heq => heq ▸ hfull⟩⟩
  exact Except.ok.inj ((hresolve hfull').symm.trans (hresolve hfull))

theorem resolve_stands_for_sample :
    (∃ (root space v : View) (i j k : v.Pos),
      ofSource ("<?php namespace A; use B\\C, D\\E as c; class F \x7b function f() " ++
        "\x7b C; X; Namespace\\Y; \x7d \x7d") = .ok root ∧
      root.Yields .namespaces "A" space ∧ space.Reaches v ∧ v.scope.depth = 3 ∧
      space.imports.items = [⟨"C", .class_, "B\\C"⟩, ⟨"c", .class_, "D\\E"⟩] ∧
      (v.Names i ['C'] ∧ StandsFor "A" space.imports.items .class_ ['C'] "D\\E" ∧
        v.resolve .class_ (v.mark i) = .ok "D\\E") ∧
      (v.Names j ['X'] ∧ StandsFor "A" space.imports.items .class_ ['X'] "A\\X" ∧
        v.resolve .class_ (v.mark j) = .ok "A\\X") ∧
      (v.Names k "Namespace\\Y".toList ∧
        StandsFor "A" space.imports.items .class_ "Namespace\\Y".toList "A\\Y" ∧
        v.resolve .class_ (v.mark k) = .ok "A\\Y")) ∧
    ∃ (root space v : View) (i j : v.Pos),
      ofSource "<?php function f() \x7b X; namespace\\Y; \x7d" = .ok root ∧
      root.Yields .namespaces "" space ∧ space.Reaches v ∧ space.imports.items = [] ∧
      (v.Names i ['X'] ∧ StandsFor "" space.imports.items .class_ ['X'] "X" ∧
        v.resolve .class_ (v.mark i) = .ok "X") ∧
      (v.Names j "namespace\\Y".toList ∧
        StandsFor "" space.imports.items .class_ "namespace\\Y".toList "Y" ∧
        v.resolve .class_ (v.mark j) = .ok "Y") := by
  have hmeans : ∀ {source spaceName : String} {root space v : View}, ofSource source = .ok root →
      ⟨spaceName, space⟩ ∈ root.namespaces.items → space.imports.error.isNone = true →
        space.Reaches v →
      ∀ (i : v.Pos) (name full : String),
      (v.graph.taxonomy.nameSegments.contains (v.kind i) && v.position? (v.mark i) == some i) =
        true ∧ (∃ read, (v.nameAt i).toOption = some read ∧ String.ofList read = name) ∧
        (v.resolve .class_ (v.mark i)).toOption = some full →
      v.Names i name.toList ∧ StandsFor spaceName space.imports.items .class_ name.toList full ∧
        v.resolve .class_ (v.mark i) = .ok full := by
    rintro source spaceName root space v hsource hspace hnone hreach i _ full
      ⟨hi, ⟨_, hname, rfl⟩, hresolve⟩
    obtain ⟨hsegment, hi⟩ := Bool.and_eq_true_iff.mp hi
    obtain ⟨_, g, _, _, hg⟩ := ofSource_ok hsource
    obtain ⟨⟨read, hnames⟩, hall⟩ := resolve_stands_for hg hspace
      (Option.isNone_iff_eq_none.mp hnone) hreach
      (beq_iff_eq.mp hi) hsegment .class_
    obtain rfl : read = _ := Except.ok.inj ((nameAt_of_names hnames).symm.trans
      (ok_of_toOption hname))
    rw [String.toList_ofList]
    obtain ⟨full', hfull, hstands⟩ := hall _ hnames
    have hresolve := ok_of_toOption hresolve
    obtain rfl : full' = full := Except.ok.inj (hfull.symm.trans hresolve)
    exact ⟨hnames, (hstands _).mpr rfl, hresolve⟩
  constructor
  · have h : ((ofSource ("<?php namespace A; use B\\C, D\\E as c; class F \x7b function f() " ++
        "\x7b C; X; Namespace\\Y; \x7d \x7d")).toOption.bind fun root =>
          root.namespaces.items.head?.bind fun a =>
        a.view.types.items.head?.bind fun b => b.view.functions.items.head?.bind fun c =>
        (c.view.pos? 1).bind fun i => (c.view.pos? 4).bind fun j => (c.view.pos? 7).map fun k =>
          ((a.name, a.view.imports.items, a.view.imports.error.isNone && c.view.scope.depth == 3),
            [i, j, k].map fun i =>
              ((c.view.graph.taxonomy.nameSegments.contains (c.view.kind i) &&
                  c.view.position? (c.view.mark i) == some i),
                (c.view.nameAt i).toOption.map String.ofList,
                (c.view.resolve .class_ (c.view.mark i)).toOption))) =
        some (("A", [⟨"C", .class_, "B\\C"⟩, ⟨"c", .class_, "D\\E"⟩], true),
          [(true, some "C", some "D\\E"), (true, some "X", some "A\\X"),
            (true, some "Namespace\\Y", some "A\\Y")]) := by
      decide +kernel
    simp only [Option.bind_eq_some_iff, Option.map_eq_some_iff, Prod.mk.injEq, List.map_cons,
      List.map_nil, List.cons.injEq, and_true] at h
    obtain ⟨root, hroot, ⟨name, a⟩, ha, b, hb, c, hc, i, -, j, -, k, -, ⟨rfl, hitems, hnone⟩, hi,
      hj, hk⟩ := h
    obtain ⟨hnone, hdepth⟩ := Bool.and_eq_true_iff.mp hnone
    have hsource := ok_of_toOption hroot
    have hreach : a.Reaches c.view :=
      .step (.step .refl (.types 0 (List.mem_of_mem_head? hb)))
        (.functions 0 (List.mem_of_mem_head? hc))
    have hmeans := hmeans hsource (List.mem_of_mem_head? ha) hnone hreach
    exact ⟨root, a, c.view, i, j, k, hsource, ⟨0, mem_results.mpr (List.mem_of_mem_head? ha)⟩,
      hreach, beq_iff_eq.mp hdepth, hitems, hmeans i "C" _ hi, hmeans j "X" _ hj,
      hmeans k "Namespace\\Y" _ hk⟩
  · have h : ((ofSource "<?php function f() \x7b X; namespace\\Y; \x7d").toOption.bind fun root =>
        root.namespaces.items.head?.bind fun a => a.view.functions.items.head?.bind fun b =>
        (b.view.pos? 1).bind fun i => (b.view.pos? 4).map fun j =>
          ((a.name, a.view.imports.items, a.view.imports.error.isNone),
            [i, j].map fun i =>
              ((b.view.graph.taxonomy.nameSegments.contains (b.view.kind i) &&
                  b.view.position? (b.view.mark i) == some i),
                (b.view.nameAt i).toOption.map String.ofList,
                (b.view.resolve .class_ (b.view.mark i)).toOption))) =
        some (("", [], true), [(true, some "X", some "X"),
          (true, some "namespace\\Y", some "Y")]) := by
      decide +kernel
    simp only [Option.bind_eq_some_iff, Option.map_eq_some_iff, Prod.mk.injEq, List.map_cons,
      List.map_nil, List.cons.injEq, and_true] at h
    obtain ⟨root, hroot, ⟨name, a⟩, ha, b, hb, i, -, j, -, ⟨rfl, hitems, hnone⟩, hi, hj⟩ := h
    have hsource := ok_of_toOption hroot
    have hreach : a.Reaches b.view := .step .refl (.functions 0 (List.mem_of_mem_head? hb))
    have hmeans := hmeans hsource (List.mem_of_mem_head? ha) hnone hreach
    exact ⟨root, a, b.view, i, j, hsource, ⟨0, mem_results.mpr (List.mem_of_mem_head? ha)⟩, hreach,
      hitems, hmeans i "X" _ hi, hmeans j "namespace\\Y" _ hj⟩

end View

end PhpOutline
