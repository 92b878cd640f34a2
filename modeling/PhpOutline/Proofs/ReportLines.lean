import PhpOutline.Proofs.OneLineNames
import PhpOutline.Report.Human

/-!
# The lines of a report

A report on outlines has a line for each path, namespace, import, constant, function, type, property
and method (`Row`), and an empty line between two files. Names are of one line, and of a value only
the start of its first line is shown (`oneLine_preview`), so that no row takes more than its line.
Split at its line ends, a report gives back these lines (`report_lines`).
-/

namespace PhpOutline

/-! ## Texts of one line -/

theorem oneLine_toString (n : Nat) : OneLine (toString n) := by
  intro hmem
  rw [show toString n = n.repr from rfl, Nat.toList_repr] at hmem
  exact absurd (Nat.isDigit_of_mem_toDigits (by decide) (by decide) hmem) (by decide)

theorem oneLine_intercalate {sep : String} {names : List String} (hsep : OneLine sep)
    (h : ∀ name ∈ names, OneLine name) : OneLine (sep.intercalate names) := by
  rw [OneLine, String.toList_intercalate]
  intro hmem
  obtain hmem | ⟨l, hl, hmem⟩ := mem_intercalate hmem
  · exact hsep hmem
  · obtain ⟨name, hname, rfl⟩ := List.mem_map.mp hl
    exact h name hname hmem

namespace Report

/-! ## Lines as a text -/

section

variable {lines : List String}

theorem toList_unlines_cons (line : String) (lines : List String) :
    (unlines (line :: lines)).toList = line.toList ++ '\n' :: (unlines lines).toList := by
  simp [unlines, String.join_cons]

theorem toList_unlines (lines : List String) :
    (unlines lines).toList = ['\n'].intercalate (lines.map String.toList ++ [[]]) := by
  induction lines with
  | nil => rfl
  | cons line lines ih =>
    rw [toList_unlines_cons, ih, List.map_cons, List.cons_append,
      List.intercalate_cons_of_ne_nil (by simp)]
    simp

theorem splitOn_unlines (h : ∀ line ∈ lines, OneLine line) :
    (unlines lines).toList.splitOn '\n' = lines.map String.toList ++ [[]] := by
  rw [toList_unlines]
  refine List.splitOn_intercalate '\n' (fun l hl => ?_) (by simp)
  rcases List.mem_append.mp hl with hl | hl
  · obtain ⟨line, hline, rfl⟩ := List.mem_map.mp hl
    exact h line hline
  · rw [List.mem_singleton.mp hl]
    simp

theorem count_unlines (h : ∀ line ∈ lines, OneLine line) :
    (unlines lines).toList.count '\n' = lines.length := by
  induction lines with
  | nil => rfl
  | cons line lines ih =>
    rw [List.forall_mem_cons] at h
    rw [toList_unlines_cons, List.count_append, List.count_eq_zero.mpr h.1, List.count_cons_self,
      ih h.2, List.length_cons, Nat.zero_add]

theorem getLast?_unlines (h : lines ≠ []) : (unlines lines).toList.getLast? = some '\n' := by
  induction lines with
  | nil => exact absurd rfl h
  | cons line lines ih =>
    rw [toList_unlines_cons, List.getLast?_append_of_ne_nil _ (List.cons_ne_nil _ _)]
    cases lines with
    | nil => rfl
    | cons line' lines =>
      have hne : (unlines (line' :: lines)).toList ≠ [] := by simp [toList_unlines_cons]
      rw [List.getLast?_cons_of_ne_nil hne, ih (by simp)]

end

/-! ## What lines are made of -/

theorem oneLine_preview (value : String) : OneLine (preview value) := by
  have hline := Lexeme.not_mem_line value.toList
  unfold preview
  extract_lets line rest first
  have hfirst : '\n' ∉ first := by
    unfold first
    split
    · exact hline
    · split
      · exact fun hmem => hline (List.mem_of_mem_dropLast hmem)
      · exact hline
  split
  · exact oneLine_append.mpr ⟨.ofList fun hmem => hfirst (List.mem_of_mem_take hmem), by decide⟩
  · split
    · exact oneLine_append.mpr ⟨.ofList hfirst, by decide⟩
    · exact .ofList hfirst

theorem exists_importLine (i : Import) :
    ∃ rest, importLine i = "  use " ++ importWord i.kind ++ i.name ++ rest ∧
      (OneLine i.aliasName → OneLine rest) := by
  unfold importLine
  dsimp only
  split
  · exact ⟨"", String.append_empty.symm, fun _ => by decide⟩
  · refine ⟨" as " ++ i.aliasName, String.append_assoc, fun h => oneLine_append.mpr ⟨by decide, h⟩⟩

theorem exists_valueLine (lead : String) (v : ValueOutline) :
    ∃ rest, valueLine lead v = lead ++ v.name ++ rest ∧ OneLine rest := by
  unfold valueLine
  split
  · exact ⟨"", String.append_empty.symm, by decide⟩
  · rename_i value _
    split
    · exact ⟨"", String.append_empty.symm, by decide⟩
    · exact ⟨" = " ++ preview value, String.append_assoc,
        oneLine_append.mpr ⟨by decide, oneLine_preview value⟩⟩

theorem exists_functionLine (indent : String) (f : FunctionOutline) :
    ∃ rest, functionLine indent f = indent ++ "function " ++ f.name ++ rest ∧ OneLine rest := by
  refine ⟨"()" ++ (if f.hasBody then "" else ";") ++ "  (line " ++ toString f.line ++ ")", ?_, ?_⟩
  · simp only [functionLine, String.append_assoc]
    rfl
  · have hstop : OneLine (if f.hasBody then "" else ";") := by split <;> decide
    simp only [oneLine_append]
    exact ⟨⟨⟨⟨by decide, hstop⟩, by decide⟩, oneLine_toString _⟩, by decide⟩

theorem oneLine_baseList {word : String} {names : List String} (hword : OneLine word)
    (h : ∀ name ∈ names, OneLine name) : OneLine (baseList word names) := by
  unfold baseList
  split
  · decide
  · exact oneLine_append.mpr ⟨oneLine_append.mpr ⟨oneLine_append.mpr ⟨by decide, hword⟩, by decide⟩,
      oneLine_intercalate (by decide) h⟩

theorem exists_typeLine (t : TypeOutline) :
    ∃ rest, typeLine t = "  " ++ t.keyword ++ " " ++ t.name ++ rest ∧
      ((∀ name ∈ t.parents, OneLine name) → (∀ name ∈ t.interfaces, OneLine name) →
        OneLine rest) := by
  refine ⟨baseList "extends" t.parents ++ baseList "implements" t.interfaces ++
    ("  (line " ++ toString t.line ++ ")"), ?_, fun hparents hinterfaces => ?_⟩
  · simp only [typeLine, String.append_assoc]
    rfl
  · simp only [oneLine_append]
    exact ⟨⟨oneLine_baseList (by decide) hparents, oneLine_baseList (by decide) hinterfaces⟩,
      ⟨by decide, oneLine_toString _⟩, by decide⟩

theorem exists_namespaceLine (n : NamespaceOutline) :
    ∃ lead, namespaceLine n = lead ++ n.name ∧ OneLine lead := by
  unfold namespaceLine
  dsimp only
  split
  · rename_i hname
    exact ⟨"namespace (global)", by rw [hname]; rfl, by decide⟩
  · exact ⟨"namespace ", rfl, by decide⟩

/-! ## Entries -/

/-- A thing that a report has a line for. Constants and properties, like functions and methods,
differ in how their lines start. -/
inductive Row
  | path (p : String)
  | space (n : NamespaceOutline)
  | imported (i : Import)
  | value (lead : String) (v : ValueOutline)
  | function (indent : String) (f : FunctionOutline)
  | type (t : TypeOutline)

namespace Row

def line : Row → String
  | path p => p
  | space n => namespaceLine n
  | imported i => importLine i
  | value lead v => valueLine lead v
  | function indent f => functionLine indent f
  | type t => typeLine t

/-- What a row is called; the global namespace has no name. -/
def title : Row → String
  | path p => p
  | space n => n.name
  | imported i => i.name
  | value _ v => v.name
  | function _ f => f.name
  | type t => t.name

def InLine : Row → Prop
  | path p => OneLine p
  | space n => OneLine n.name
  | imported i => OneLine i.name ∧ OneLine i.aliasName
  | value lead v => OneLine lead ∧ OneLine v.name
  | function indent f => OneLine indent ∧ OneLine f.name
  | type t => t.NamedInLine

theorem line_spec (e : Row) : e.title.toList <:+: e.line.toList ∧ (e.InLine → OneLine e.line) := by
  have shows : ∀ {line before title after : String}, line = before ++ title ++ after →
      title.toList <:+: line.toList := by
    rintro _ before title after rfl
    exact ⟨before.toList, after.toList, by simp⟩
  cases e with
  | path p => exact ⟨List.infix_rfl, id⟩
  | space n =>
    obtain ⟨lead, hline, hlead⟩ := exists_namespaceLine n
    refine ⟨shows (hline.trans String.append_empty.symm), fun h => ?_⟩
    rw [line, hline]
    exact hlead.append h
  | imported i =>
    obtain ⟨rest, hline, hrest⟩ := exists_importLine i
    refine ⟨shows hline, fun ⟨hname, halias⟩ => ?_⟩
    have hword : OneLine (importWord i.kind) := by cases i.kind <;> decide
    rw [line, hline]
    simp only [oneLine_append]
    exact ⟨⟨⟨by decide, hword⟩, hname⟩, hrest halias⟩
  | value lead v =>
    obtain ⟨rest, hline, hrest⟩ := exists_valueLine lead v
    refine ⟨shows hline, fun ⟨hlead, hname⟩ => ?_⟩
    rw [line, hline]
    exact (hlead.append hname).append hrest
  | function indent f =>
    obtain ⟨rest, hline, hrest⟩ := exists_functionLine indent f
    refine ⟨shows hline, fun ⟨hindent, hname⟩ => ?_⟩
    rw [line, hline]
    exact ((hindent.append (by decide)).append hname).append hrest
  | type t =>
    obtain ⟨rest, hline, hrest⟩ := exists_typeLine t
    refine ⟨shows hline, fun h => ?_⟩
    rw [line, hline]
    simp only [oneLine_append]
    exact ⟨⟨⟨⟨by decide, h.keyword⟩, by decide⟩, h.name⟩, hrest h.parents h.interfaces⟩

end Row

end Report

/-! ## Outlines -/

open Report

def TypeOutline.rows (t : TypeOutline) : List Row :=
  .type t :: t.constants.map (.value "    const ") ++ t.properties.map (.value "    $") ++
    t.methods.map (.function "    ")

def NamespaceOutline.rows (n : NamespaceOutline) : List Row :=
  .space n :: n.imports.map .imported ++ n.constants.map (.value "  const ") ++
    n.functions.map (.function "  ") ++ n.types.flatMap TypeOutline.rows

def FileOutline.rows (f : FileOutline) : List Row :=
  f.path.toList.map .path ++ f.namespaces.flatMap NamespaceOutline.rows

theorem typeLines_eq : typeLines = fun t => t.rows.map Row.line := by
  funext t
  simp [typeLines, TypeOutline.rows, Row.line, Function.comp_def]

theorem namespaceLines_eq : namespaceLines = fun n => n.rows.map Row.line := by
  funext n
  simp [namespaceLines, NamespaceOutline.rows, Row.line, Function.comp_def, List.map_flatMap,
    typeLines_eq]

theorem fileLines_eq : fileLines = fun f => f.rows.map Row.line := by
  funext f
  simp [fileLines, FileOutline.rows, Row.line, Function.comp_def, List.map_flatMap,
    namespaceLines_eq]

theorem TypeOutline.NamedInLine.rows {t : TypeOutline} (h : t.NamedInLine) :
    ∀ e ∈ t.rows, e.InLine := by
  simp only [TypeOutline.rows, List.cons_append, List.forall_mem_cons, List.forall_mem_append,
    List.forall_mem_map]
  exact ⟨h, ⟨fun c hc => ⟨by decide, h.constants c hc⟩, fun p hp => ⟨by decide, h.properties p hp⟩⟩,
    fun m hm => ⟨by decide, h.methods m hm⟩⟩

theorem NamespaceOutline.NamedInLine.rows {n : NamespaceOutline} (h : n.NamedInLine) :
    ∀ e ∈ n.rows, e.InLine := by
  simp only [NamespaceOutline.rows, List.cons_append, List.forall_mem_cons, List.forall_mem_append,
    List.forall_mem_map, List.forall_mem_flatMap]
  exact ⟨h.name, ⟨⟨h.imports, fun c hc => ⟨by decide, h.constants c hc⟩⟩,
    fun f hf => ⟨by decide, h.functions f hf⟩⟩, fun t ht => (h.types t ht).rows⟩

theorem FileOutline.NamedInLine.rows {f : FileOutline} (h : f.NamedInLine)
    (hpath : ∀ p, f.path = some p → OneLine p) : ∀ e ∈ f.rows, e.InLine := by
  intro e he
  rcases List.mem_append.mp he with he | he
  · obtain ⟨p, hp, rfl⟩ := List.mem_map.mp he
    exact hpath p (Option.mem_toList.mp hp)
  · obtain ⟨n, hn, he⟩ := List.mem_flatMap.mp he
    exact (h n hn).rows e he

def FileOutline.OfSource (f : FileOutline) : Prop :=
  ∃ (s : Settings) (source : String), outlineSource s source = .ok { f with path := none }

theorem FileOutline.OfSource.namedInLine {f : FileOutline} (h : f.OfSource) : f.NamedInLine := by
  obtain ⟨_, _, h⟩ := h
  exact fun n hn => names_of_outlineSource h n hn

theorem FileOutline.OfSource.rows_ne_nil {f : FileOutline} (h : f.OfSource) : f.rows ≠ [] := by
  obtain ⟨_, _, h⟩ := h
  obtain ⟨n, ns, hns⟩ := List.exists_cons_of_ne_nil (namespaces_of_outlineSource h)
  simp only at hns
  simp [FileOutline.rows, NamespaceOutline.rows, hns]

/-- In the report on outlines of any sources no name has a line end, and each row has one line,
which shows what it is called. The text of the report is these lines, file by file, with an empty
line between two files and a line end behind the last. -/
theorem report_lines {files : List FileOutline} (hne : files ≠ [])
    (hfiles : ∀ f ∈ files, f.OfSource) (hpaths : ∀ f ∈ files, ∀ p, f.path = some p → OneLine p) :
    (∀ f ∈ files, f.NamedInLine) ∧
    (∀ f ∈ files, ∀ e ∈ f.rows, OneLine e.line ∧ e.title.toList <:+: e.line.toList) ∧
    (outlines files).toList.splitOn '\n' =
      ([""].intercalate (files.map fun f => f.rows.map Row.line)).map String.toList ++ [[]] ∧
    (outlines files).toList.count '\n' = (files.flatMap (·.rows)).length + (files.length - 1) ∧
    (outlines files).toList.getLast? = some '\n' := by
  have hrows : ∀ f ∈ files, ∀ e ∈ f.rows, OneLine e.line ∧ e.title.toList <:+: e.line.toList := by
    intro f hf e he
    obtain ⟨hshows, hline⟩ := e.line_spec
    exact ⟨hline ((hfiles f hf).namedInLine.rows (hpaths f hf) e he), hshows⟩
  have htext : outlines files =
      unlines ([""].intercalate (files.map fun f => f.rows.map Row.line)) := by
    rw [outlines, if_neg (by simpa using hne), fileLines_eq]
  have hlines : ∀ line ∈ [""].intercalate (files.map fun f => f.rows.map Row.line),
      OneLine line := by
    intro line hline
    obtain hline | ⟨l, hl, hline⟩ := mem_intercalate hline
    · rw [List.mem_singleton.mp hline]
      decide
    · obtain ⟨f, hf, rfl⟩ := List.mem_map.mp hl
      obtain ⟨e, he, rfl⟩ := List.mem_map.mp hline
      exact (hrows f hf e he).1
  have hlast : [""].intercalate (files.map fun f => f.rows.map Row.line) ≠ [] := by
    obtain ⟨f, fs, rfl⟩ := List.exists_cons_of_ne_nil hne
    have := List.length_pos_iff.mpr (hfiles f (by simp)).rows_ne_nil
    rw [← List.length_pos_iff, length_intercalate_singleton, List.map_cons, List.flatten_cons,
      List.length_append, List.length_map]
    omega
  refine ⟨fun f hf => (hfiles f hf).namedInLine, hrows, ?_, ?_, ?_⟩
  · rw [htext, splitOn_unlines hlines]
  · rw [htext, count_unlines hlines, length_intercalate_singleton, ← List.flatMap_def,
      ← List.map_flatMap, List.length_map, List.length_map]
  · rw [htext, getLast?_unlines hlast]

def sampleSpace : NamespaceOutline where
  name := "A"
  imports := [⟨"C", .class_, "B\\C"⟩]
  constants := [⟨"X", 1, some "[1,\n 2]"⟩]
  functions := [⟨"f", 2, true⟩]
  types := [⟨"class", "D", "A\\D", 2, ["B\\C"], [], [], [⟨"p", 2, some "'a\nb'"⟩], []⟩]

theorem report_lines_sample :
    ∃ files : List FileOutline, files = [⟨some "a.php", [sampleSpace]⟩,
      ⟨none, [⟨"", [], [], [], []⟩]⟩] ∧ files ≠ [] ∧ (∀ f ∈ files, f.OfSource) ∧
      (∀ f ∈ files, ∀ p, f.path = some p → OneLine p) ∧
      outlines files = "a.php\nnamespace A\n  use B\\C\n  const X = [1, ...\n" ++
        "  function f()  (line 2)\n  class D extends B\\C  (line 2)\n" ++
        "    $p = 'a ...\n\nnamespace (global)\n" ∧
      (∀ f ∈ files, f.NamedInLine) ∧
      (∀ f ∈ files, ∀ e ∈ f.rows, OneLine e.line ∧ e.title.toList <:+: e.line.toList) ∧
      (outlines files).toList.splitOn '\n' =
        ([""].intercalate (files.map fun f => f.rows.map Row.line)).map String.toList ++ [[]] ∧
      (files.flatMap (·.rows)).length = 8 ∧ (outlines files).toList.count '\n' = 9 ∧
      (outlines files).toList.getLast? = some '\n' := by
  have hfirst : (outlineSource {} ("<?php namespace A; use B\\C; const X = [1,\n 2]; " ++
      "function f() \x7b\x7d class D extends C \x7b public $p = 'a\nb'; \x7d")).toOption =
      some ⟨none, [sampleSpace]⟩ := by
    decide +kernel
  have hsecond : (outlineSource {} "").toOption = some ⟨none, [⟨"", [], [], [], []⟩]⟩ := by
    decide +kernel
  have hfiles : ∀ f ∈ [FileOutline.mk (some "a.php") [sampleSpace], ⟨none, [⟨"", [], [], [], []⟩]⟩],
      f.OfSource := by
    simp only [List.forall_mem_cons]
    exact ⟨⟨{}, _, ok_of_toOption hfirst⟩, ⟨{}, _, ok_of_toOption hsecond⟩, by simp⟩
  have hpaths : ∀ f ∈ [FileOutline.mk (some "a.php") [sampleSpace], ⟨none, [⟨"", [], [], [], []⟩]⟩],
      ∀ p, f.path = some p → OneLine p := by
    simp only [List.forall_mem_cons]
    refine ⟨fun p hp => ?_, nofun, by simp⟩
    cases hp
    decide
  obtain ⟨hnames, hrows, hlines, hcount, hlast⟩ := report_lines (by simp) hfiles hpaths
  exact ⟨_, rfl, by simp, hfiles, hpaths, by decide +kernel, hnames, hrows, hlines, rfl, hcount,
    hlast⟩

end PhpOutline
