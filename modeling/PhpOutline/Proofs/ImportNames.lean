import PhpOutline.Proofs.ClauseSyntax
import PhpOutline.Proofs.MirrorOutline
import PhpOutline.Proofs.SegmentTexts
import PhpOutline.Proofs.UseStatements

/-!
# The names of imports

The name of an import is put together from tokens: those of the groups around it and its own. An
alias is always a single segment. Whether the name is a row of segments, in which an item of a group
starts a new one, depends on how the separators are written (`Tidy`): a lone separator must not come
before another or at the end, and between a group and its items there must be one.
-/

namespace PhpOutline

open Lexeme

/-- Between each two texts of a path there is a separator, at the end of the one or the start of the
other. -/
def UsePath.Apart (path : UsePath) : Prop :=
  (path.reverse.map (·.2.toList)).IsChain fun a b => a.getLast? = some '\\' ∨ b.head? = some '\\'

namespace View

section

variable (v : View)

def Leads (p : v.Pos) : Prop := v.kind p = .nsSeparator ∨ v.kind p = .nameFullyQualified

def Trails (p : v.Pos) : Prop := v.kind p = .nsSeparator

/-- The names of a path are well spaced, by their tokens: separators are single, there is one
between each two names, and none at the end. -/
structure Tidy (runs : List (List v.Pos)) : Prop where
  single : runs.flatten.IsChain fun p q => ¬ (v.Trails p ∧ v.Leads q)
  joint : runs.IsChain fun a b => ∀ p ∈ a.getLast?, ∀ q ∈ b.head?, v.Trails p ∨ v.Leads q
  last : ∀ p ∈ runs.flatten.getLast?, ¬ v.Trails p

def runText (run : List v.Pos) : List Char := run.flatMap fun p => (v.node p).text.toList

/-- The names of a path as they stand in some code, outermost first: runs of name tokens that
touch. -/
structure Spells (code : List v.Pos) (path : UsePath) (runs : List (List v.Pos)) : Prop where
  texts : path.reverse.map (·.2.toList) = runs.map v.runText
  infixes : ∀ run ∈ runs, run <:+: code
  ne_nil : ∀ run ∈ runs, run ≠ []
  segments : ∀ run ∈ runs, ∀ p ∈ run, v.Segment p
  touching : ∀ run ∈ runs, run.IsChain fun p q => q.val = p.val + 1

end

variable {v : View} {code inner : List v.Pos} {tree : UseTree} {path : UsePath}
  {runs : List (List v.Pos)}

/-! ## The tokens of a leaf -/

theorem NameRun.toList_text {name behind : List v.Pos} {own : String}
    (h : v.NameRun name behind own) :
    own.toList = v.runText name := by
  rw [h.text_eq, runText, String.toList_join, List.flatMap_map]

theorem Spells.single {name behind : List v.Pos} {own : String} (w : Option ImportKind)
    (h : v.NameRun name behind own) (hcode : name <:+: code) : v.Spells code [(w, own)] [name] := by
  obtain ⟨i, is, hcons⟩ := h.exists_cons
  refine ⟨by simp [h.toList_text], ?_, ?_, ?_, ?_⟩
  · simpa using hcode
  · simp [hcons]
  · simpa using h.segments
  · simpa using h.touching

theorem Spells.toList_text (h : v.Spells code path runs) :
    path.text.toList = (runs.map v.runText).flatten := by
  rw [UsePath.text, String.toList_join, List.flatMap_map, ← h.texts]
  exact List.flatMap_def

theorem Spells.mono (h : v.Spells inner path runs) (hinner : inner <:+: code) :
    v.Spells code path runs :=
  ⟨h.texts, fun run hrun => (h.infixes run hrun).trans hinner, h.ne_nil, h.segments, h.touching⟩

theorem Spells.cons {outer : UsePath} {run : List v.Pos} (h : v.Spells code path runs)
    (hrun : v.Spells code outer [run]) : v.Spells code (path ++ outer) (run :: runs) := by
  refine ⟨?_, ?_, ?_, ?_, ?_⟩
  · rw [List.reverse_append, List.map_append, hrun.texts, h.texts]
    rfl
  · exact List.forall_mem_cons.mpr ⟨hrun.infixes run (by simp), h.infixes⟩
  · exact List.forall_mem_cons.mpr ⟨hrun.ne_nil run (by simp), h.ne_nil⟩
  · exact List.forall_mem_cons.mpr ⟨hrun.segments run (by simp), h.segments⟩
  · exact List.forall_mem_cons.mpr ⟨hrun.touching run (by simp), h.touching⟩

/-- The alias that is written is an identifier, and where none is written the name has a last
part. -/
structure Aliased (leaf : UseLeaf) : Prop where
  named : ∀ a, leaf.aliasName = some a → Text.isIdentifier a = true
  bare : leaf.aliasName = none → finalSegment leaf.path.text ≠ ""

theorem UseAlias.aliased {own : String} {tail : List v.Pos} {aliasName : Option String}
    (h : v.UseAlias own tail aliasName) (hown : own ≠ "") (w : Option ImportKind)
    (groups : UsePath) :
    Aliased ⟨(w, own) :: groups, aliasName⟩ := by
  cases h with
  | bare hlast hne =>
    refine ⟨nofun, fun _ => ?_⟩
    rw [UsePath.text_cons, Ne, finalSegment_append_eq_empty _ hown, ← endsIn_iff.mp hlast]
    exact hne
  | named _ hj =>
    refine ⟨fun a ha => ?_, nofun⟩
    cases ha
    exact hj

mutual

theorem UseList.spells :
    ∀ {code : List v.Pos} {tree : UseTree}, v.UseList code tree → ∀ (groups : UsePath),
    ∀ leaf ∈ tree.leaves groups, Aliased leaf ∧ ∃ path runs, leaf.path = path ++ groups ∧
      v.Spells code path runs
  | _, _, @UseList.name _ word name tail behind w own aliasName _ hw hn ht hr, groups, leaf,
      hleaf => by
    rcases List.mem_cons.mp hleaf with rfl | hleaf
    · refine ⟨ht.aliased hn.text_ne w groups, [(w, own)], [name], rfl, Spells.single w hn ?_⟩
      exact ⟨word, tail ++ behind, by simp⟩
    · obtain ⟨halias, path, runs, hpath, hspells⟩ := UseRest.spells hr groups leaf hleaf
      exact ⟨halias, path, runs, hpath, hspells.mono ⟨word ++ (name ++ tail), [], by simp⟩⟩
  | _, _, @UseList.group _ word name inner behind o c w own _ _ hw hn ho hoc hi hr, groups, leaf,
      hleaf => by
    rcases List.mem_append.mp hleaf with hleaf | hleaf
    · obtain ⟨halias, path, runs, hpath, hspells⟩ :=
        UseList.spells hi ((w, own) :: groups) leaf hleaf
      refine ⟨halias, path ++ [(w, own)], name :: runs, by simp [hpath],
        (hspells.mono ?_).cons (Spells.single w hn ?_)⟩
      · exact ⟨word ++ (name ++ [o]), c :: behind, by simp⟩
      · exact ⟨word, o :: (inner ++ c :: behind), by simp⟩
    · obtain ⟨halias, path, runs, hpath, hspells⟩ := UseRest.spells hr groups leaf hleaf
      exact ⟨halias, path, runs, hpath, hspells.mono
        ⟨word ++ (name ++ o :: (inner ++ [c])), [], by simp⟩⟩

theorem UseRest.spells :
    ∀ {code : List v.Pos} {tree : UseTree}, v.UseRest code tree → ∀ (groups : UsePath),
    ∀ leaf ∈ tree.leaves groups, Aliased leaf ∧ ∃ path runs, leaf.path = path ++ groups ∧
      v.Spells code path runs
  | _, _, .nil, _, _, hleaf => by cases hleaf
  | _, _, .comma _, _, _, hleaf => by cases hleaf
  | _, _, @UseRest.list _ i code _ _ h, groups, leaf, hleaf => by
    obtain ⟨halias, path, runs, hpath, hspells⟩ := UseList.spells h groups leaf hleaf
    exact ⟨halias, path, runs, hpath, hspells.mono ⟨[i], [], by simp⟩⟩

end

/-! ## Spacing -/

theorem isSegmented_iff_of_lead {s w : List Char}
    (h : s = '\\' :: w ∨ (s = w ∧ w.head? ≠ some '\\')) (hs : s ≠ []) :
    IsSegmented w ↔ s.getLast? ≠ some '\\' ∧ SingleSeparators s := by
  rw [isSegmented_iff]
  rcases h with rfl | ⟨rfl, hhead⟩
  · rw [singleSeparators_cons]
    cases w with
    | nil => simp
    | cons c w =>
      rw [List.getLast?_cons_cons]
      simp only [ne_eq, reduceCtorEq, not_false_eq_true, true_and]
      tauto
  · simp [hs, hhead]

section

variable (htexts : ∀ run ∈ runs, ∀ p ∈ run, SegmentText (v.kind p) (v.node p).text.toList)
  (hne : ∀ run ∈ runs, run ≠ [])

include htexts in
theorem nil_not_mem_texts : [] ∉ runs.flatten.map fun p => (v.node p).text.toList := by
  intro h
  obtain ⟨p, hp, heq⟩ := List.mem_map.mp h
  obtain ⟨run, hrun, hp⟩ := List.mem_flatten.mp hp
  exact (htexts run hrun p hp).ne_nil heq

theorem flatten_runText :
    (runs.map v.runText).flatten = (runs.flatten.map fun p => (v.node p).text.toList).flatten := by
  induction runs with
  | nil => rfl
  | cons run runs ih =>
    rw [List.map_cons, List.flatten_cons, ih, List.flatten_cons, List.map_append,
      List.flatten_append]
    rfl

include htexts in
theorem single_iff : SingleSeparators (runs.map v.runText).flatten ↔
    runs.flatten.IsChain fun p q => ¬ (v.Trails p ∧ v.Leads q) := by
  rw [flatten_runText, SingleSeparators, List.isChain_flatten (nil_not_mem_texts htexts),
    List.isChain_map]
  have htext : ∀ p ∈ runs.flatten, SegmentText (v.kind p) (v.node p).text.toList := by
    intro p hp
    obtain ⟨run, hrun, hp⟩ := List.mem_flatten.mp hp
    exact htexts run hrun p hp
  rw [and_iff_right]
  · apply List.IsChain.iff_of_mem_imp
    intro p q hp hq
    rw [Trails, Leads, ← (htext p hp).trails, ← (htext q hq).leads]
    constructor
    · intro h hboth
      exact h _ hboth.1 _ hboth.2 ⟨rfl, rfl⟩
    · rintro h x hx y hy ⟨rfl, rfl⟩
      exact h ⟨hx, hy⟩
  · intro l hl
    obtain ⟨p, hp, rfl⟩ := List.mem_map.mp hl
    exact (htext p hp).single

theorem getLast?_runText {run : List v.Pos} {p : v.Pos} (hp : run.getLast? = some p)
    (htext : SegmentText (v.kind p) (v.node p).text.toList) :
    (v.runText run).getLast? = some '\\' ↔ v.Trails p := by
  obtain ⟨front, rfl⟩ := List.getLast?_eq_some_iff.mp hp
  rw [runText, List.flatMap_append, List.flatMap_singleton,
    List.getLast?_append_of_ne_nil _ htext.ne_nil, htext.trails]
  rfl

theorem head?_runText {run : List v.Pos} {p : v.Pos} (hp : run.head? = some p)
    (htext : SegmentText (v.kind p) (v.node p).text.toList) :
    (v.runText run).head? = some '\\' ↔ v.Leads p := by
  obtain ⟨back, rfl⟩ := List.head?_eq_some_iff.mp hp
  rw [runText, List.flatMap_cons, List.head?_append_of_ne_nil _ htext.ne_nil, htext.leads]
  rfl

include htexts hne in
theorem joint_iff :
    (runs.map v.runText).IsChain (fun a b => a.getLast? = some '\\' ∨ b.head? = some '\\') ↔
    runs.IsChain fun a b => ∀ p ∈ a.getLast?, ∀ q ∈ b.head?, v.Trails p ∨ v.Leads q := by
  rw [List.isChain_map]
  apply List.IsChain.iff_of_mem_imp
  intro a b ha hb
  obtain ⟨p, hp⟩ := Option.ne_none_iff_exists'.mp (mt List.getLast?_eq_none_iff.mp (hne a ha))
  obtain ⟨q, hq⟩ := Option.ne_none_iff_exists'.mp (mt List.head?_eq_none_iff.mp (hne b hb))
  rw [getLast?_runText hp (htexts a ha p (List.mem_of_getLast? hp)),
    head?_runText hq (htexts b hb q (List.mem_of_head? hq)), hp, hq]
  simp

include htexts in
theorem last_iff : (runs.map v.runText).flatten.getLast? ≠ some '\\' ↔
    ∀ p ∈ runs.flatten.getLast?, ¬ v.Trails p := by
  have hwhole : (runs.map v.runText).flatten = v.runText runs.flatten := by
    rw [flatten_runText]
    exact List.flatMap_def.symm
  rw [hwhole]
  cases hlast : runs.flatten.getLast? with
  | none => simp [List.getLast?_eq_none_iff.mp hlast, runText]
  | some p =>
    obtain ⟨run, hrun, hp⟩ := List.mem_flatten.mp (List.mem_of_getLast? hlast)
    rw [ne_eq, getLast?_runText hlast (htexts run hrun p hp)]
    simp

end

theorem tidy_iff {name : String} (hspells : v.Spells code path runs) (hpath : path ≠ [])
    (htexts : ∀ run ∈ runs, ∀ p ∈ run, SegmentText (v.kind p) (v.node p).text.toList)
    (hname : path.text = "\\" ++ name ∨ (path.text = name ∧ name.toList.head? ≠ some '\\')) :
    (IsSegmented name.toList ∧ path.Apart) ↔ v.Tidy runs := by
  have hne : (runs.map v.runText).flatten ≠ [] := by
    obtain ⟨run, rest, rfl⟩ : ∃ run rest, runs = run :: rest := by
      apply List.exists_cons_of_ne_nil
      rintro rfl
      exact hpath (by simpa using hspells.texts)
    obtain ⟨p, ps, rfl⟩ := List.exists_cons_of_ne_nil (hspells.ne_nil run (by simp))
    have := (htexts (p :: ps) (by simp) p (by simp)).ne_nil
    simp [runText, this]
  have hlead : (runs.map v.runText).flatten = '\\' :: name.toList ∨
      ((runs.map v.runText).flatten = name.toList ∧ name.toList.head? ≠ some '\\') := by
    rw [← hspells.toList_text]
    rcases hname with h | h
    · exact .inl (by rw [h, String.toList_append]; rfl)
    · exact .inr ⟨by rw [h.1], h.2⟩
  rw [isSegmented_iff_of_lead hlead hne, UsePath.Apart, hspells.texts, single_iff htexts,
    joint_iff htexts hspells.ne_nil, last_iff htexts]
  constructor
  · rintro ⟨⟨hlast, hsingle⟩, hjoint⟩
    exact ⟨hsingle, hjoint, hlast⟩
  · rintro ⟨hsingle, hjoint, hlast⟩
    exact ⟨⟨hlast, hsingle⟩, hjoint⟩

/-! ## The imports of a view -/

theorem readClause_of_mem_importsOf {p : v.Pos} {i : Import} (h : i ∈ v.importsOf p) :
    ∃ stop imports, v.endsStatement stop = true ∧ v.readClause (v.clause p stop) = .ok imports ∧
      i ∈ imports := by
  unfold importsOf at h
  split at h
  · cases h
  · rename_i imports stop hat
    obtain ⟨q, _, _, _, hend, _, hread⟩ := clause_of_importsAt hat
    exact ⟨q, imports, hend, hread, h⟩

theorem UseClause.spells {clause : ImportKind} (h : v.UseClause code clause tree) :
    ∀ leaf ∈ tree.leaves [], Aliased leaf ∧ ∃ runs, v.Spells code leaf.path runs := by
  cases h with
  | @intro word items w _ hw hfirst h =>
    intro leaf hleaf
    obtain ⟨halias, path, runs, hpath, hspells⟩ := h.spells [] leaf hleaf
    rw [List.append_nil] at hpath
    rw [hpath]
    exact ⟨halias, runs, hspells.mono ⟨word, [], by simp⟩⟩

theorem isIdentifier_segment {s : String} (h : Text.isIdentifier s = true) :
    s ≠ "" ∧ '\\' ∉ s.toList := by
  have hchar : Text.isAlphabetic '\\' = false ∧ Text.isAlphanumeric '\\' = false := by
    decide +kernel
  unfold Text.isIdentifier at h
  split at h
  · cases h
  · rename_i c cs hcs
    rw [Bool.and_eq_true, List.all_eq_true] at h
    constructor
    · rintro rfl
      cases hcs
    · rw [hcs]
      intro hmem
      rcases List.mem_cons.mp hmem with rfl | hmem
      · simp [hchar.1] at h
      · have := h.2 _ hmem
        simp [hchar.2] at this

theorem Aliased.segment {leaf : UseLeaf} {clause : ImportKind} {i : Import} (h : Aliased leaf)
    (himports : leaf.Imports clause i) : i.aliasName ≠ "" ∧ '\\' ∉ i.aliasName.toList := by
  rcases himports.aliasName with hnamed | ⟨hnone, hlast⟩
  · exact isIdentifier_segment (h.named _ hnamed)
  · refine ⟨?_, hlast.free⟩
    rw [endsIn_iff.mp hlast]
    exact h.bare hnone

theorem Aliased.getLast? {leaf : UseLeaf} {clause : ImportKind} {i : Import} (h : Aliased leaf)
    (himports : leaf.Imports clause i) (hnone : leaf.aliasName = none) :
    i.name.toList.getLast? ≠ some '\\' := by
  have hends := endsIn_iff.mpr (rfl : finalSegment leaf.path.text = finalSegment leaf.path.text)
  obtain ⟨before, hsplit, _⟩ := hends.split
  have hne : (finalSegment leaf.path.text).toList ≠ [] := by simpa using h.bare hnone
  have hlast : leaf.path.text.toList.getLast? ≠ some '\\' := by
    rw [hsplit, List.getLast?_append_of_ne_nil _ hne]
    exact fun hlast => hends.free (List.mem_of_getLast? hlast)
  rcases himports.name with hname | ⟨hname, -⟩
  · rw [hname, String.toList_append] at hlast
    intro hsep
    rw [List.getLast?_append, hsep] at hlast
    exact hlast rfl
  · rwa [hname] at hlast

theorem toToken_mem_of_reaches {source : String} {f : Flags} {root : View} {ts : List Token}
    (hts : tokenize source = .ok ts) (hroot : ofSource source f = .ok root) (hv : root.Reaches v)
    (p : v.Pos) :
    (v.node p).toToken ∈ ts := by
  obtain ⟨ts', g, hts', hlink, hg⟩ := ofSource_ok hroot
  cases hts.symm.trans hts'
  have hr := balanced_of_ofGraph (.link hlink) hg
  have hgraph : v.graph.tokens <:+: root.graph.tokens := by
    clear p
    induction hv with
    | refl => exact List.infix_rfl
    | step hv hw ih => exact (hw.part (hv.balanced hr)).graph_tokens.trans ih
  have hmem : (v.node p).toToken ∈ v.graph.tokens := by
    refine List.mem_of_getElem? (i := p) ?_
    rw [Graph.getElem?_tokens, Array.getElem?_eq_getElem p.isLt]
    rfl
  have hkept : ∀ {t : Token}, t ∈ g.tokens → t ∈ ts := by
    intro t ht
    rw [(Graph.link_tokens_eq hlink).2.2, Graph.kept] at ht
    split at ht
    · exact (List.mem_filter.mp ht).1
    · exact ht
  have hroottoken := hgraph.subset hmem
  obtain ⟨_, _, rfl⟩ := ofGraph_ok hg
  exact hkept hroottoken

theorem segmentText_of_reaches {source : String} {f : Flags} {root : View}
    (hroot : ofSource source f = .ok root) (hv : root.Reaches v) {p : v.Pos} (hp : v.Segment p) :
    SegmentText (v.kind p) (v.node p).text.toList := by
  obtain ⟨ts, g, hts, hlink, hg⟩ := ofSource_ok hroot
  rw [Segment, (hv.balanced (balanced_of_ofGraph (.link hlink) hg)).php] at hp
  exact segmentText_of_tokenize hts (toToken_mem_of_reaches hts hroot hv p) hp

end View

theorem UseTree.path_ne_nil {tree : UseTree} {groups : UsePath} :
    ∀ leaf ∈ tree.leaves groups, leaf.path ≠ [] := by
  induction tree generalizing groups with
  | nil => simp [leaves]
  | name word text aliasName rest ih =>
    intro leaf hleaf
    rcases List.mem_cons.mp hleaf with rfl | hleaf
    · simp
    · exact ih leaf hleaf
  | group word text items rest ihitems ihrest =>
    intro leaf hleaf
    rcases List.mem_append.mp hleaf with hleaf | hleaf
    · exact ihitems leaf hleaf
    · exact ihrest leaf hleaf

/-- Every import has an alias of one segment. Its name is spelt by name tokens of its use statement,
those of the groups around it and its own. It is a row of segments, in which each item of a group is
apart from the group, if and only if those tokens are tidy. Without an alias at least no separator
is at the end. -/
theorem import_name_segmented_iff_tidy {source : String} {f : Flags} {root v : View} {i : Import}
    (hroot : View.ofSource source f = .ok root) (hv : root.Reaches v) (hi : i ∈ v.imports.items) :
    i.aliasName ≠ "" ∧ '\\' ∉ i.aliasName.toList ∧
    ∃ (p stop : v.Pos) (clause : ImportKind) (tree : UseTree) (leaf : UseLeaf)
      (runs : List (List v.Pos)), p ∈ v.statements ∧ v.endsStatement stop = true ∧
      v.UseClause (v.clause p stop) clause tree ∧ leaf ∈ tree.leaves [] ∧ leaf.Imports clause i ∧
      v.Spells (v.clause p stop) leaf.path runs ∧
      ((IsSegmented i.name.toList ∧ leaf.path.Apart) ↔ v.Tidy runs) ∧
      (leaf.aliasName = none → i.name.toList.getLast? ≠ some '\\') := by
  have hphp : v.graph.taxonomy = .php := by
    obtain ⟨_, _, _, hlink, hg⟩ := View.ofSource_ok hroot
    exact (hv.balanced (View.balanced_of_ofGraph (.link hlink) hg)).php
  rw [View.imports, View.importsFrom_eq] at hi
  obtain ⟨p, hp, hi⟩ := List.mem_flatMap.mp hi
  obtain ⟨stop, imports, hend, hread, hi⟩ := View.readClause_of_mem_importsOf hi
  obtain ⟨clause, tree, hclause⟩ := View.useClause_of_readClause hread
  have hsorted : (v.clause p stop).Pairwise (· < ·) := (v.between_pairwise _ _).filter _
  obtain ⟨imports', hread', hleaves⟩ := hclause.reads hphp hsorted
  cases hread.symm.trans hread'
  obtain ⟨leaf, hleaf, himports⟩ := exists_of_forall₂ hleaves.flip i hi
  obtain ⟨halias, runs, hspells⟩ := hclause.spells leaf hleaf
  obtain ⟨hne, hfree⟩ := halias.segment himports
  refine ⟨hne, hfree, p, stop, clause, tree, leaf, runs, hp, hend, hclause, hleaf, himports,
    hspells, ?_, halias.getLast? himports⟩
  apply View.tidy_iff hspells (UseTree.path_ne_nil leaf hleaf) _ himports.name
  exact fun run hrun q hq => View.segmentText_of_reaches hroot hv (hspells.segments run hrun q hq)

theorem import_name_segmented_iff_tidy_sample :
    ∃ (root : View) (code : List root.Pos) (clause : ImportKind) (leaf : UseLeaf)
      (runs : List (List root.Pos)), View.ofSource "<?php use A\\\x7bB\\C, D as E\x7d;" = .ok root ∧
      root.imports.items = [⟨"C", .class_, "A\\B\\C"⟩, ⟨"E", .class_, "A\\D"⟩] ∧
      leaf.Imports clause ⟨"E", .class_, "A\\D"⟩ ∧ root.Spells code leaf.path runs ∧
      ((IsSegmented "A\\D".toList ∧ leaf.path.Apart) ↔ root.Tidy runs) := by
  have h : (View.ofSource "<?php use A\\\x7bB\\C, D as E\x7d;").toOption.map (·.imports.items) =
      some [⟨"C", .class_, "A\\B\\C"⟩, ⟨"E", .class_, "A\\D"⟩] := by
    decide +kernel
  obtain ⟨root, hroot, hitems⟩ := Option.map_eq_some_iff.mp h
  have hsource := ok_of_toOption hroot
  obtain ⟨_, _, p, stop, clause, _, leaf, runs, _, _, _, _, himports, hspells, hiff, _⟩ :=
    import_name_segmented_iff_tidy (i := ⟨"E", .class_, "A\\D"⟩) hsource .refl
      (by rw [hitems]; simp)
  exact ⟨root, _, clause, leaf, runs, hsource, hitems, himports, hspells, hiff⟩

/-- A separator stays at the end of a name before an alias, and of two at the start one stays.
Without a separator a group and its item become one segment. -/
theorem import_name_not_segmented :
    (∃ root, View.ofSource "<?php use A\\ as B;" = .ok root ∧
      root.imports.items = [⟨"B", .class_, "A\\"⟩]) ∧
    ¬ IsSegmented "A\\".toList ∧
    (∃ root, View.ofSource "<?php use \\\\A;" = .ok root ∧
      root.imports.items = [⟨"A", .class_, "\\A"⟩]) ∧
    ¬ IsSegmented "\\A".toList ∧
    ∃ root, View.ofSource "<?php use A\x7bB\x7d;" = .ok root ∧
      root.imports.items = [⟨"AB", .class_, "AB"⟩] := by
  have read : ∀ {source items}, (View.ofSource source).toOption.map (·.imports.items) = some items →
      ∃ root, View.ofSource source = .ok root ∧ root.imports.items = items := by
    intro source items h
    obtain ⟨root, hroot, hitems⟩ := Option.map_eq_some_iff.mp h
    exact ⟨root, ok_of_toOption hroot, hitems⟩
  refine ⟨read (by decide +kernel), fun h => ?_, read (by decide +kernel), fun h => ?_,
    read (by decide +kernel)⟩
  · exact (isSegmented_iff.mp h).2.2.1 rfl
  · exact (isSegmented_iff.mp h).2.1 rfl

end PhpOutline
