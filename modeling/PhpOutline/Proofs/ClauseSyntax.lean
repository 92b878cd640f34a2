import Mathlib.Data.List.Chain
import PhpOutline.Proofs.ClauseTransfer
import PhpOutline.Proofs.Reachable

/-!
# The syntax of use clauses

A use clause is a list of items, separated by commas and with an optional comma at the end. An item
is a name, with an alias or with a group of items in braces behind it, and `function` or `const`
before it or before the clause. The reader accepts exactly the clauses that can be derived so, and
its imports are the names that stand at the leaves of the derivation, in their order. Each takes its
kind from the nearest keyword and its name from the groups around it.
-/

namespace PhpOutline

/-! ## Trees -/

/-- A list of items: names with their aliases, and groups. -/
inductive UseTree
  | nil
  | name (word : Option ImportKind) (text : String) (aliasName : Option String) (rest : UseTree)
  | group (word : Option ImportKind) (text : String) (items rest : UseTree)

/-- The keywords and texts of a name and of the groups around it, innermost first. -/
abbrev UsePath : Type := List (Option ImportKind × String)

namespace UsePath

def text (path : UsePath) : String := .join (path.reverse.map (·.2))

def kind (clause : ImportKind) (path : UsePath) : ImportKind := (path.findSome? (·.1)).getD clause

theorem text_cons (word : Option ImportKind) (own : String) (path : UsePath) :
    UsePath.text ((word, own) :: path) = UsePath.text path ++ own := by
  simp [text, String.join_append, String.join_cons, String.join_nil]

theorem kind_cons (clause : ImportKind) (word : Option ImportKind) (own : String) (path : UsePath) :
    UsePath.kind clause ((word, own) :: path) = word.getD (UsePath.kind clause path) := by
  cases word <;> rfl

end UsePath

/-- A name that is imported, with the groups around it, and its alias. -/
structure UseLeaf where
  path : UsePath
  aliasName : Option String

def UseTree.leaves (groups : UsePath) : UseTree → List UseLeaf
  | nil => []
  | name word text aliasName rest => ⟨(word, text) :: groups, aliasName⟩ :: rest.leaves groups
  | group word text items rest => items.leaves ((word, text) :: groups) ++ rest.leaves groups

/-- The part of a name behind its last separator. -/
structure EndsIn (name last : String) : Prop where
  free : '\\' ∉ last.toList
  split : ∃ before, name.toList = before ++ last.toList ∧
    (before = [] ∨ before.getLast? = some '\\')

/-- The import for a leaf: the kind that is said nearest to it, the whole name without a separator
before it, and the alias or else the last part of the name. -/
structure UseLeaf.Imports (clause : ImportKind) (l : UseLeaf) (i : Import) : Prop where
  kind : i.kind = l.path.kind clause
  name : l.path.text = "\\" ++ i.name ∨ (l.path.text = i.name ∧ i.name.toList.head? ≠ some '\\')
  aliasName : l.aliasName = some i.aliasName ∨ (l.aliasName = none ∧ EndsIn l.path.text i.aliasName)

namespace View

/-! ## Derivations -/

section

variable (v : View)

def Segment (i : v.Pos) : Prop := v.graph.taxonomy.nameSegments.contains (v.kind i) = true

/-- The keyword that says what is imported, or none. -/
inductive UseWord : List v.Pos → Option ImportKind → Prop
  | absent : UseWord [] none
  | function {i : v.Pos} (h : v.kind i = .functionKw) : UseWord [i] (some .function)
  | const {i : v.Pos} (h : v.kind i = .constKw) : UseWord [i] (some .constant)

/-- A name: a run of segments that touch, as long as it can be before what follows it. -/
structure NameRun (name behind : List v.Pos) (text : String) : Prop where
  segments : ∀ i ∈ name, v.Segment i
  touching : name.IsChain fun i j => j.val = i.val + 1
  maximal : ∀ i ∈ name.getLast?, ∀ j ∈ behind.head?, j.val = i.val + 1 → ¬ v.Segment j
  text_eq : text = .join (name.map fun i => (v.node i).text)
  text_ne : text ≠ ""

/-- What follows a name that has no group: an alias, or nothing if the name has a last part. -/
inductive UseAlias (own : String) : List v.Pos → Option String → Prop
  | bare {last : String} (hlast : EndsIn own last) (hne : last ≠ "") : UseAlias own [] none
  | named {i j : v.Pos} (hi : v.kind i = .asKw) (hj : Text.isIdentifier (v.node j).text = true) :
      UseAlias own [i, j] (some (v.node j).text)

mutual

inductive UseList : List v.Pos → UseTree → Prop
  | name {word name tail behind : List v.Pos} {w : Option ImportKind} {own : String}
      {aliasName : Option String} {rest : UseTree} (hw : v.UseWord word w)
      (hn : v.NameRun name (tail ++ behind) own) (ht : v.UseAlias own tail aliasName)
      (hr : UseRest behind rest) :
      UseList (word ++ (name ++ (tail ++ behind))) (.name w own aliasName rest)
  | group {word name inner behind : List v.Pos} {o c : v.Pos} {w : Option ImportKind} {own : String}
      {items rest : UseTree} (hw : v.UseWord word w)
      (hn : v.NameRun name (o :: (inner ++ c :: behind)) own) (ho : v.kind o = .openBrace)
      (hoc : (v.node o).closedBy = some c.val) (hi : UseList inner items)
      (hr : UseRest behind rest) :
      UseList (word ++ (name ++ o :: (inner ++ c :: behind))) (.group w own items rest)

/-- What follows an item: nothing, a comma, or a comma and more items. -/
inductive UseRest : List v.Pos → UseTree → Prop
  | nil : UseRest [] .nil
  | comma {i : v.Pos} (hi : v.kind i = .comma) : UseRest [i] .nil
  | list {i : v.Pos} {code : List v.Pos} {tree : UseTree} (hi : v.kind i = .comma)
      (h : UseList code tree) :
      UseRest (i :: code) tree

end

/-- A keyword at the start belongs to the whole clause. -/
inductive UseClause : List v.Pos → ImportKind → UseTree → Prop
  | intro {word code : List v.Pos} {w : Option ImportKind} {tree : UseTree} (hw : v.UseWord word w)
      (hfirst : w = none → ∀ i ∈ code.head?, v.kind i ≠ .functionKw ∧ v.kind i ≠ .constKw)
      (h : v.UseList code tree) : UseClause (word ++ code) (w.getD .class_) tree

end

variable {v : View} {kind itemKind : ImportKind} {lead own follow : String}
  {code named behind inner : List v.Pos} {tree : UseTree}

/-! ## Names and their parts -/

theorem endsIn_iff {name last : String} : EndsIn name last ↔ last = finalSegment name := by
  constructor
  · rintro ⟨hfree, before, hsplit, hbefore⟩
    have hlast : ∀ c ∈ last.toList.reverse, decide (c ≠ '\\') = true := by
      intro c hc
      rw [List.mem_reverse] at hc
      exact decide_eq_true (ne_of_mem_of_not_mem hc hfree)
    have hstop : before.reverse.takeWhile (fun c => decide (c ≠ '\\')) = [] := by
      rcases hbefore with rfl | hbefore
      · rfl
      · obtain ⟨before, rfl⟩ := List.getLast?_eq_some_iff.mp hbefore
        simp
    rw [finalSegment, hsplit, List.reverse_append, List.takeWhile_append_of_pos hlast, hstop,
      List.append_nil, List.reverse_reverse, String.ofList_toList]
  · rintro rfl
    constructor
    · intro hc
      rw [finalSegment, String.toList_ofList, List.mem_reverse] at hc
      simpa using List.all_eq_true.mp List.all_takeWhile _ hc
    · refine ⟨(name.toList.reverse.dropWhile fun c => decide (c ≠ '\\')).reverse, ?_, ?_⟩
      · rw [finalSegment, String.toList_ofList, ← List.reverse_append,
          List.takeWhile_append_dropWhile, List.reverse_reverse]
      · rw [List.reverse_eq_nil_iff, List.getLast?_reverse]
        have hhead := List.head?_dropWhile_not (fun c => decide (c ≠ '\\')) name.toList.reverse
        cases hdrop : name.toList.reverse.dropWhile fun c => decide (c ≠ '\\') with
        | nil => exact .inl rfl
        | cons c cs =>
          rw [hdrop] at hhead
          exact .inr (by simpa using hhead)

theorem finalSegment_append_eq_empty (lead : String) (hown : own ≠ "") :
    finalSegment (lead ++ own) = "" ↔ finalSegment own = "" := by
  have hne : own.toList.reverse ≠ [] := by simpa using hown
  obtain ⟨c, cs, hcs⟩ := List.exists_cons_of_ne_nil hne
  have hempty : ∀ l : List Char, String.ofList l = "" ↔ l = [] := by
    intro l
    rw [← String.toList_inj, String.toList_ofList, String.toList_empty]
  rw [finalSegment, finalSegment, hempty, hempty, String.toList_append, List.reverse_append, hcs,
    List.reverse_eq_nil_iff, List.reverse_eq_nil_iff, List.cons_append, List.takeWhile_cons,
    List.takeWhile_cons]
  split <;> simp

theorem withoutLead_cases (name : String) : name = "\\" ++ withoutLead name ∨
    (name = withoutLead name ∧ (withoutLead name).toList.head? ≠ some '\\') := by
  unfold withoutLead
  split
  · rename_i cs hcs
    left
    rw [← String.toList_inj]
    simp [hcs]
  · rename_i hne
    right
    refine ⟨rfl, fun hhead => ?_⟩
    obtain ⟨cs, hcs⟩ := List.head?_eq_some_iff.mp hhead
    exact hne cs hcs

/-! ## The parts of an item -/

theorem importKind?_eq_none_iff {i : v.Pos} :
    v.importKind? i = none ↔ v.kind i ≠ .functionKw ∧ v.kind i ≠ .constKw := by
  unfold importKind?
  split <;> simp_all

theorem importKind?_of_segment (hphp : v.graph.taxonomy = .php) {i : v.Pos} (h : v.Segment i) :
    v.importKind? i = none := by
  rw [Segment, hphp] at h
  rw [importKind?_eq_none_iff]
  constructor
  · intro hk
    rw [hk] at h
    cases h
  · intro hk
    rw [hk] at h
    cases h

theorem takeKind_word (h : v.takeKind kind code = (itemKind, named)) :
    ∃ word w, v.UseWord word w ∧ code = word ++ named ∧
      (w = none → ∀ i ∈ named.head?, v.importKind? i = none) := by
  unfold takeKind at h
  split at h
  · cases h
    exact ⟨[], none, .absent, rfl, by simp⟩
  · rename_i i code
    split at h
    · rename_i k hk
      cases h
      unfold importKind? at hk
      split at hk
      · exact ⟨[i], _, .function (by assumption), rfl, by simp⟩
      · exact ⟨[i], _, .const (by assumption), rfl, by simp⟩
      · cases hk
    · rename_i hk
      cases h
      exact ⟨[], none, .absent, rfl, fun _ => by simpa using hk⟩

theorem UseWord.takeKind {word : List v.Pos} {w : Option ImportKind} (hw : v.UseWord word w)
    (hfirst : w = none → ∀ i ∈ named.head?, v.importKind? i = none) (kind : ImportKind) :
    v.takeKind kind (word ++ named) = (w.getD kind, named) := by
  cases hw with
  | absent =>
    cases named with
    | nil => rfl
    | cons i named =>
      rw [List.nil_append, View.takeKind, hfirst rfl i rfl]
      rfl
  | function h | const h =>
    rw [List.singleton_append, View.takeKind, importKind?, h]
    rfl

theorem takeTouching_run {i : v.Pos} {segments : List v.Pos}
    (h : v.takeTouching i code = (segments, behind)) :
    code = segments ++ behind ∧ (∀ j ∈ segments, v.Segment j) ∧
      (i :: segments).IsChain (fun j k => k.val = j.val + 1) ∧
      ∀ j ∈ (i :: segments).getLast?, ∀ k ∈ behind.head?, k.val = j.val + 1 → ¬ v.Segment k := by
  induction code generalizing i segments with
  | nil =>
    cases h
    simp
  | cons j code ih =>
    unfold takeTouching at h
    split at h
    · rename_i hj
      rw [Bool.and_eq_true, beq_iff_eq] at hj
      simp only [Prod.mk.injEq] at h
      obtain ⟨rfl, rfl⟩ := h
      obtain ⟨heq, hall, hchain, hmax⟩ := ih rfl
      refine ⟨by rw [List.cons_append, ← heq], ?_, hchain.cons_cons hj.2, ?_⟩
      · exact List.forall_mem_cons.mpr ⟨hj.1, hall⟩
      · rw [List.getLast?_cons_cons]
        exact hmax
    · rename_i hj
      cases h
      refine ⟨rfl, by simp, List.isChain_singleton _, ?_⟩
      intro k hk l hl htouch hseg
      cases hk
      cases hl
      exact hj (Bool.and_eq_true_iff.mpr ⟨hseg, beq_iff_eq.mpr htouch⟩)

theorem takeTouching_append {i : v.Pos} {segments : List v.Pos} (hall : ∀ j ∈ segments, v.Segment j)
    (hchain : (i :: segments).IsChain fun j k => k.val = j.val + 1)
    (hmax : ∀ j ∈ (i :: segments).getLast?, ∀ k ∈ behind.head?, k.val = j.val + 1 → ¬ v.Segment k) :
    v.takeTouching i (segments ++ behind) = (segments, behind) := by
  induction segments generalizing i with
  | nil =>
    cases behind with
    | nil => rfl
    | cons j behind =>
      rw [List.nil_append, takeTouching, if_neg]
      rw [Bool.and_eq_true, beq_iff_eq]
      rintro ⟨hseg, htouch⟩
      exact hmax i rfl j rfl htouch hseg
  | cons j segments ih =>
    rw [List.isChain_cons_cons] at hchain
    rw [List.getLast?_cons_cons] at hmax
    obtain ⟨hj, hall⟩ := List.forall_mem_cons.mp hall
    rw [List.cons_append, takeTouching, if_pos, ih hall hchain.2 hmax]
    rw [hchain.1, beq_self_eq_true, Bool.and_true]
    exact hj

theorem takeName_run (h : v.takeName named = (own, behind)) (hown : own ≠ "") :
    ∃ name, v.NameRun name behind own ∧ named = name ++ behind := by
  unfold takeName at h
  split at h
  · cases h
    exact absurd rfl hown
  · rename_i i code
    split at h
    · rename_i hi
      simp only [Prod.mk.injEq] at h
      obtain ⟨rfl, rfl⟩ := h
      obtain ⟨heq, hall, hchain, hmax⟩ := takeTouching_run (Prod.eta (v.takeTouching i code)).symm
      exact ⟨i :: (v.takeTouching i code).1,
        ⟨List.forall_mem_cons.mpr ⟨hi, hall⟩, hchain, hmax, rfl, hown⟩,
        by rw [List.cons_append, ← heq]⟩
    · cases h
      exact absurd rfl hown

theorem NameRun.exists_cons {name : List v.Pos} (h : v.NameRun name behind own) :
    ∃ i is, name = i :: is := by
  cases name with
  | nil => exact absurd h.text_eq h.text_ne
  | cons i is => exact ⟨i, is, rfl⟩

theorem NameRun.takeName {name : List v.Pos} (h : v.NameRun name behind own) :
    v.takeName (name ++ behind) = (own, behind) := by
  obtain ⟨i, is, rfl⟩ := h.exists_cons
  obtain ⟨hi, hall⟩ := List.forall_mem_cons.mp h.segments
  rw [Segment] at hi
  rw [List.cons_append, View.takeName, if_pos hi, takeTouching_append hall h.touching h.maximal,
    h.text_eq]

theorem UseWord.takeKind_name {word name : List v.Pos} {w : Option ImportKind}
    (hphp : v.graph.taxonomy = .php) (hw : v.UseWord word w) (hn : v.NameRun name behind own) :
    v.takeKind kind (word ++ (name ++ behind)) = (w.getD kind, name ++ behind) := by
  obtain ⟨i, is, rfl⟩ := hn.exists_cons
  refine hw.takeKind (fun _ j hj => ?_) kind
  cases hj
  exact importKind?_of_segment hphp (hn.segments i (by simp))

theorem readAlias_parts {item : Import} (hown : own ≠ "")
    (h : v.readAlias kind (lead ++ own) code = .ok (item, behind)) :
    ∃ tail aliasName, v.UseAlias own tail aliasName ∧ code = tail ++ behind := by
  have hbare : ∀ {code}, readAlias.bare v kind (lead ++ own) code = .ok (item, behind) →
      ∃ tail aliasName, v.UseAlias own tail aliasName ∧ code = tail ++ behind := by
    intro code h
    unfold readAlias.bare at h
    split at h
    · cases h
    · rename_i hfinal
      cases h
      rw [finalSegment_append_eq_empty lead hown] at hfinal
      exact ⟨[], none, .bare (endsIn_iff.mpr rfl) hfinal, rfl⟩
  unfold readAlias at h
  split at h
  · rename_i i code
    split at h
    · rename_i has
      split at h
      · rename_i j code
        split at h
        · rename_i hid
          cases h
          exact ⟨[i, j], _, .named has hid, rfl⟩
        · cases h
      · cases h
    · exact hbare h
  · exact hbare h

def importOf (kind : ImportKind) (name : String) (aliasName : Option String) : Import :=
  ⟨aliasName.getD (finalSegment name), kind, withoutLead name⟩

theorem UseAlias.readAlias {tail : List v.Pos} {aliasName : Option String} (hown : own ≠ "")
    (ht : v.UseAlias own tail aliasName) (hbehind : ∀ i ∈ behind.head?, v.kind i = .comma)
    (kind : ImportKind) (lead : String) : v.readAlias kind (lead ++ own) (tail ++ behind) =
      .ok (importOf kind (lead ++ own) aliasName, behind) := by
  cases ht with
  | @bare last hlast hne =>
    have hfinal : finalSegment (lead ++ own) ≠ "" := by
      rw [Ne, finalSegment_append_eq_empty lead hown, ← endsIn_iff.mp hlast]
      exact hne
    have hbare : readAlias.bare v kind (lead ++ own) behind =
        .ok (importOf kind (lead ++ own) none, behind) := by
      rw [readAlias.bare, if_neg hfinal]
      rfl
    cases behind with
    | nil => exact hbare
    | cons j behind =>
      have hj := hbehind j rfl
      rw [List.nil_append, View.readAlias.eq_def]
      dsimp only
      rw [if_neg (by rw [hj]; exact Kind.noConfusion)]
      exact hbare
  | @named i j hi hj =>
    rw [List.cons_append, List.singleton_append, View.readAlias.eq_def]
    dsimp only
    rw [if_pos hi, if_pos hj]
    rfl

theorem splitGroup_parts {o c : v.Pos} (h : v.splitGroup o code = .ok (inner, c, behind)) :
    (v.node o).closedBy = some c.val ∧ inner ≠ [] ∧ code = inner ++ c :: behind := by
  unfold splitGroup at h
  split at h
  · cases h
  · rename_i i hi
    split at h
    · cases h
    · cases h
    · rename_i close tail hdrop hne
      simp only [Except.ok.injEq, Prod.mk.injEq] at h
      obtain ⟨rfl, rfl, rfl⟩ := h
      have hhead := List.head?_dropWhile_not (fun j : v.Pos => decide (j.val ≠ i)) code
      rw [hdrop] at hhead
      have hclose : close.val = i := by simpa using hhead
      refine ⟨by rw [hi, hclose], hne, ?_⟩
      rw [← hdrop, List.takeWhile_append_dropWhile]

theorem splitGroup_append {o c : v.Pos} (hoc : (v.node o).closedBy = some c.val) (hne : inner ≠ [])
    (hsorted : (inner ++ c :: behind).Pairwise (· < ·)) :
    v.splitGroup o (inner ++ c :: behind) = .ok (inner, c, behind) := by
  have hbefore : ∀ i ∈ inner, decide (i.val ≠ c.val) = true := by
    intro i hi
    have hlt := (List.pairwise_append.mp hsorted).2.2 i hi c (by simp)
    exact decide_eq_true (Nat.ne_of_lt hlt)
  have htake : (inner ++ c :: behind).takeWhile (fun i => decide (i.val ≠ c.val)) = inner := by
    rw [List.takeWhile_append_of_pos hbefore, List.takeWhile_cons_of_neg (by simp), List.append_nil]
  have hdrop : (inner ++ c :: behind).dropWhile (fun i => decide (i.val ≠ c.val)) =
      c :: behind := by
    rw [List.dropWhile_append_of_pos hbefore, List.dropWhile_cons_of_neg (by simp)]
  rw [splitGroup, hoc]
  dsimp only
  rw [htake, hdrop]
  obtain ⟨i, is, rfl⟩ := List.exists_cons_of_ne_nil hne
  rfl

/-! ## What is read can be derived -/

/-- A list that is read is empty, or it begins with a name and its alias or with a group, and behind
the comma the rest of it is read. What holds by these three rules holds of all that is read. -/
theorem readItems_rec {motive : List v.Pos → List Import → Prop} {imports : List Import}
    (nil : motive [] []) (name : ∀ {word name tail behind : List v.Pos} {w : Option ImportKind}
      {own : String} {aliasName : Option String} {item : Import} {others : List Import},
      v.UseWord word w → v.NameRun name (tail ++ behind) own → v.UseAlias own tail aliasName →
      (∀ i ∈ behind.head?, v.kind i = .comma) → motive (behind.drop 1) others →
      motive (word ++ (name ++ (tail ++ behind))) (item :: others))
    (group : ∀ {word name inner behind : List v.Pos} {o c : v.Pos} {w : Option ImportKind}
      {own : String} {grouped others : List Import}, v.UseWord word w →
        v.NameRun name (o :: (inner ++ c :: behind)) own →
      v.kind o = .openBrace → (v.node o).closedBy = some c.val → inner ≠ [] →
      (∀ i ∈ behind.head?, v.kind i = .comma) → motive inner grouped →
        motive (behind.drop 1) others →
      motive (word ++ (name ++ o :: (inner ++ c :: behind))) (grouped ++ others))
    (h : v.readItems lead kind follow code = .ok imports) : motive code imports := by
  fun_induction readItems v lead kind follow code generalizing imports with
  | case1 lead kind follow code hempty =>
    cases h
    rw [List.isEmpty_iff.mp hempty]
    exact nil
  | case2 | case4 | case7 | case8 | case11 => cases h
  | case3 lead kind follow code _ itemKind named hkind own hown _ hname =>
    -- nothing is behind the name, and the empty rest is read as well
    obtain ⟨word, w, hw, rfl, _⟩ := takeKind_word hkind
    obtain ⟨_, hn, rfl⟩ := takeName_run hname hown
    cases halias : v.readAlias itemKind (lead ++ own) [] with
    | error e =>
      rw [halias] at h
      cases h
    | ok r =>
      rw [halias] at h
      cases h
      obtain ⟨tail, aliasName, ht, heq⟩ := readAlias_parts hown halias
      obtain ⟨rfl, _⟩ := List.nil_eq_append_iff.mp heq
      exact name hw (show v.NameRun _ ([] ++ []) own from hn) ht (by simp) nil
  | case5 lead kind follow code _ itemKind named hkind own hown i inside hname hbrace inner close
      hgroup _ ih =>
    obtain ⟨word, w, hw, rfl, _⟩ := takeKind_word hkind
    obtain ⟨_, hn, rfl⟩ := takeName_run hname hown
    obtain ⟨hclose, hinner, rfl⟩ := splitGroup_parts hgroup
    rw [← List.append_nil imports]
    exact group hw hn hbrace hclose hinner (by simp) (ih h) nil
  | case6 lead kind follow code _ itemKind named hkind own hown i inside hname hbrace inner close j
      more hgroup hcomma _ ihgroup ihmore =>
    obtain ⟨grouped, hgrouped, h⟩ := of_bind_ok h
    obtain ⟨others, hothers, h⟩ := of_bind_ok h
    cases h
    obtain ⟨word, w, hw, rfl, _⟩ := takeKind_word hkind
    obtain ⟨_, hn, rfl⟩ := takeName_run hname hown
    obtain ⟨hclose, hinner, rfl⟩ := splitGroup_parts hgroup
    exact group hw hn hbrace hclose hinner (by simpa using hcomma) (ihgroup hgrouped)
      (ihmore hothers)
  | case9 lead kind follow code _ itemKind named hkind own hown i inside hname _ item halias =>
    cases h
    obtain ⟨word, w, hw, rfl, _⟩ := takeKind_word hkind
    obtain ⟨_, hn, rfl⟩ := takeName_run hname hown
    obtain ⟨tail, aliasName, ht, heq⟩ := readAlias_parts hown halias
    rw [heq] at hn ⊢
    exact name hw hn ht (by simp) nil
  | case10 lead kind follow code _ itemKind named hkind own hown i inside hname _ item j more halias
      hcomma _ ih =>
    obtain ⟨others, hothers, h⟩ := of_bind_ok h
    cases h
    obtain ⟨word, w, hw, rfl, _⟩ := takeKind_word hkind
    obtain ⟨_, hn, rfl⟩ := takeName_run hname hown
    obtain ⟨tail, aliasName, ht, heq⟩ := readAlias_parts hown halias
    rw [heq] at hn ⊢
    exact name hw hn ht (by simpa using hcomma) (ih hothers)

theorem useRest_of_drop (hcomma : ∀ i ∈ behind.head?, v.kind i = .comma)
    (h : behind.drop 1 ≠ [] → ∃ tree, v.UseList (behind.drop 1) tree) :
    ∃ tree, v.UseRest behind tree := by
  cases behind with
  | nil => exact ⟨.nil, .nil⟩
  | cons comma more =>
    by_cases hnil : more = []
    · rw [hnil]
      exact ⟨.nil, .comma (hcomma comma rfl)⟩
    · obtain ⟨tree, htree⟩ := h hnil
      exact ⟨tree, .list (hcomma comma rfl) htree⟩

theorem useList_of_readItems {imports : List Import}
    (h : v.readItems lead kind follow code = .ok imports) (hne : code ≠ []) :
    ∃ tree, v.UseList code tree := by
  refine readItems_rec (motive := fun code _ => code ≠ [] → ∃ tree, v.UseList code tree) ?nil ?name
    ?group h hne
  case nil => exact fun hne => absurd rfl hne
  case name =>
    intro word name tail behind w own aliasName item others hw hn ht hcomma ih _
    obtain ⟨rest, hrest⟩ := useRest_of_drop hcomma ih
    exact ⟨_, .name hw hn ht hrest⟩
  case group =>
    intro word name inner behind o c w own grouped others hw hn ho hoc hinner hcomma ihgroup ih _
    obtain ⟨items, hitems⟩ := ihgroup hinner
    obtain ⟨rest, hrest⟩ := useRest_of_drop hcomma ih
    exact ⟨_, .group hw hn ho hoc hitems hrest⟩

/-! ## What can be derived is read -/

theorem imports_importOf (clause : ImportKind) (groups : UsePath) (w : Option ImportKind)
    (own : String) (aliasName : Option String) :
    UseLeaf.Imports clause ⟨(w, own) :: groups, aliasName⟩
      (importOf (w.getD (UsePath.kind clause groups)) (UsePath.text groups ++ own) aliasName) where
  kind := (UsePath.kind_cons clause w own groups).symm
  name := by
    rw [UsePath.text_cons]
    exact withoutLead_cases _
  aliasName := by
    cases aliasName with
    | none =>
      rw [UsePath.text_cons]
      exact .inr ⟨rfl, endsIn_iff.mpr rfl⟩
    | some a => exact .inl rfl

theorem UseRest.head_comma (h : v.UseRest behind tree) : ∀ i ∈ behind.head?, v.kind i = .comma := by
  cases h with
  | nil => simp
  | comma hi => simpa using hi
  | list hi => simpa using hi

theorem UseAlias.head_ne_openBrace {tail : List v.Pos} {aliasName : Option String}
    (ht : v.UseAlias own tail aliasName) (hbehind : ∀ i ∈ behind.head?, v.kind i = .comma) :
    ∀ i ∈ (tail ++ behind).head?, v.kind i ≠ .openBrace := by
  intro i hi
  cases ht with
  | bare =>
    rw [hbehind i hi]
    exact Kind.noConfusion
  | named has =>
    cases hi
    rw [has]
    exact Kind.noConfusion

section

variable {word name tail : List v.Pos} {w : Option ImportKind} {aliasName : Option String}
  {o c : v.Pos}

theorem readItems_behind (hphp : v.graph.taxonomy = .php) (hw : v.UseWord word w)
    (hn : v.NameRun name behind own) :
    v.readItems lead kind follow (word ++ (name ++ behind)) =
      v.readBehind lead kind follow (w.getD kind) own behind := by
  obtain ⟨i, is, rfl⟩ := hn.exists_cons
  rw [readItems_eq, if_neg (by simp), hw.takeKind_name hphp hn]
  dsimp only
  rw [hn.takeName]

theorem readItems_name (hphp : v.graph.taxonomy = .php) (hw : v.UseWord word w)
    (hn : v.NameRun name (tail ++ behind) own) (ht : v.UseAlias own tail aliasName)
    (hbehind : ∀ i ∈ behind.head?, v.kind i = .comma) :
    v.readItems lead kind follow (word ++ (name ++ (tail ++ behind))) =
      (v.readItems lead kind follow (behind.drop 1)).map
        (importOf (w.getD kind) (lead ++ own) aliasName :: ·) := by
  have halias := ht.readAlias hn.text_ne hbehind (w.getD kind) lead
  have hbrace := ht.head_ne_openBrace hbehind
  rw [readItems_behind hphp hw hn, readBehind.eq_def, if_neg hn.text_ne]
  split
  · rename_i hnil
    rw [hnil] at halias
    rw [halias, (List.append_eq_nil_iff.mp hnil).2, List.drop_nil, readItems_nil]
    rfl
  · rename_i i inside hcons
    rw [hcons] at halias hbrace
    rw [if_neg (hbrace i rfl), halias]
    cases behind with
    | nil =>
      rw [List.drop_nil, readItems_nil]
      rfl
    | cons j more =>
      dsimp only
      rw [if_pos (hbehind j rfl)]
      rfl

theorem readItems_group (hphp : v.graph.taxonomy = .php) (hw : v.UseWord word w)
    (hn : v.NameRun name (o :: (inner ++ c :: behind)) own) (ho : v.kind o = .openBrace)
    (hsplit : v.splitGroup o (inner ++ c :: behind) = .ok (inner, c, behind))
    (hbehind : ∀ i ∈ behind.head?, v.kind i = .comma) :
    v.readItems lead kind follow (word ++ (name ++ o :: (inner ++ c :: behind))) = do
      let grouped ← v.readItems (lead ++ own) (w.getD kind) (v.node c).text inner
      let others ← v.readItems lead kind follow (behind.drop 1)
      return grouped ++ others := by
  rw [readItems_behind hphp hw hn, readBehind, if_neg hn.text_ne, if_pos ho, hsplit]
  cases behind with
  | nil =>
    dsimp only
    rw [List.drop_nil, readItems_nil]
    cases v.readItems (lead ++ own) (w.getD kind) (v.node c).text inner with
    | error e => rfl
    | ok grouped => exact congrArg Except.ok (List.append_nil grouped).symm
  | cons j more =>
    dsimp only
    rw [if_pos (hbehind j rfl)]
    rfl

end

theorem UseList.ne_nil (h : v.UseList code tree) : code ≠ [] := by
  cases h with
  | name _ hn | group _ hn =>
    obtain ⟨i, is, rfl⟩ := hn.exists_cons
    simp

mutual

theorem UseList.reads {clause : ImportKind} (hphp : v.graph.taxonomy = .php) :
    ∀ {code : List v.Pos} {tree : UseTree}, v.UseList code tree → code.Pairwise (· < ·) →
      ∀ (groups : UsePath) (follow : String),
        ∃ imports, v.readItems (UsePath.text groups) (UsePath.kind clause groups) follow code =
          .ok imports ∧ List.Forall₂ (UseLeaf.Imports clause) (tree.leaves groups) imports
  | _, _, @UseList.name _ _ _ _ _ w own aliasName _ hw hn ht hr, hsorted, groups, follow => by
    have hbehind := (List.pairwise_append.mp
      (List.pairwise_append.mp (List.pairwise_append.mp hsorted).2.1).2.1).2.1
    obtain ⟨others, hothers, hleaves⟩ := UseRest.reads hphp hr hbehind groups follow
    refine ⟨_ :: others, ?_, .cons (imports_importOf clause groups w own aliasName) hleaves⟩
    rw [readItems_name hphp hw hn ht hr.head_comma, hothers]
    rfl
  | _, _, @UseList.group _ _ _ _ _ _ c w own _ _ hw hn ho hoc hi hr, hsorted, groups, follow => by
    have hinside := (List.pairwise_cons.mp (List.pairwise_append.mp
      (List.pairwise_append.mp hsorted).2.1).2.1).2
    obtain ⟨hinner, hclosed, _⟩ := List.pairwise_append.mp hinside
    obtain ⟨grouped, hgrouped, hinnerLeaves⟩ := UseList.reads hphp hi hinner ((w, own) :: groups)
      (v.node c).text
    obtain ⟨others, hothers, hleaves⟩ := UseRest.reads hphp hr
      (List.pairwise_cons.mp hclosed).2 groups follow
    refine ⟨grouped ++ others, ?_, List.rel_append hinnerLeaves hleaves⟩
    rw [UsePath.text_cons, UsePath.kind_cons] at hgrouped
    rw [readItems_group hphp hw hn ho (splitGroup_append hoc hi.ne_nil hinside) hr.head_comma,
      hgrouped, hothers]
    rfl

theorem UseRest.reads {clause : ImportKind} (hphp : v.graph.taxonomy = .php) :
    ∀ {behind : List v.Pos} {tree : UseTree}, v.UseRest behind tree → behind.Pairwise (· < ·) →
      ∀ (groups : UsePath) (follow : String),
        ∃ imports, v.readItems (UsePath.text groups) (UsePath.kind clause groups) follow
          (behind.drop 1) = .ok imports ∧ List.Forall₂ (UseLeaf.Imports clause)
            (tree.leaves groups) imports
  | _, _, .nil, _, _, _ => ⟨[], readItems_nil, .nil⟩
  | _, _, .comma _, _, _, _ => ⟨[], readItems_nil, .nil⟩
  | _, _, .list _ h, hsorted, groups, follow => UseList.reads hphp h
      (List.pairwise_cons.mp hsorted).2 groups follow

end

/-! ## Clauses -/

theorem UseClause.reads {clause : ImportKind} (hphp : v.graph.taxonomy = .php)
    (hcode : code.Pairwise (· < ·)) (h : v.UseClause code clause tree) :
    ∃ imports, v.readClause code = .ok imports ∧
      List.Forall₂ (UseLeaf.Imports clause) (tree.leaves []) imports := by
  cases h with
  | @intro word items w _ hw hfirst h =>
    obtain ⟨imports, hread, hleaves⟩ := h.reads hphp (List.pairwise_append.mp hcode).2.1
      [] "end of statement"
    refine ⟨imports, ?_, hleaves⟩
    have hkind := hw.takeKind (fun hnone i hi => importKind?_eq_none_iff.mpr (hfirst hnone i hi))
      .class_
    obtain ⟨i, is, rfl⟩ := List.exists_cons_of_ne_nil h.ne_nil
    rw [readClause_eq, hkind]
    exact hread

theorem useClause_of_readClause {imports : List Import} (h : v.readClause code = .ok imports) :
    ∃ clause tree, v.UseClause code clause tree := by
  rw [readClause_eq] at h
  split at h
  · cases h
  · rename_i kind items hne hkind
    obtain ⟨word, w, hw, rfl, hfirst⟩ := takeKind_word hkind
    obtain ⟨tree, htree⟩ := useList_of_readItems h hne
    exact ⟨_, tree, .intro hw (fun hnone i hi => importKind?_eq_none_iff.mp (hfirst hnone i hi))
      htree⟩

/-- In ascending code the reader of use clauses accepts exactly the clauses that can be derived, and
it reads the leaves of the derivation in their order: each with the kind that the nearest keyword
before the name, its groups or the clause says, with the text of all its groups and its own, and
with its alias or else the last part of that text. -/
theorem readClause_reads_leaves (hphp : v.graph.taxonomy = .php) (hcode : code.Pairwise (· < ·)) :
    ((∃ imports, v.readClause code = .ok imports) ↔ ∃ clause tree, v.UseClause code clause tree) ∧
      ∀ clause tree, v.UseClause code clause tree →
        ∃ imports, v.readClause code = .ok imports ∧
          List.Forall₂ (UseLeaf.Imports clause) (tree.leaves []) imports := by
  refine ⟨⟨fun ⟨_, h⟩ => useClause_of_readClause h, ?_⟩, fun clause tree h => h.reads hphp hcode⟩
  rintro ⟨clause, tree, h⟩
  obtain ⟨imports, hread, _⟩ := h.reads hphp hcode
  exact ⟨imports, hread⟩

def sampleUse : String := "<?php use function A\\\x7bB, const C as D, E\\\x7bF,\x7d\x7d, \\G,;"

def sampleImports : List Import :=
  [⟨"B", .function, "A\\B"⟩, ⟨"D", .constant, "A\\C"⟩, ⟨"F", .function, "A\\E\\F"⟩,
    ⟨"G", .function, "G"⟩]

theorem readClause_reads_leaves_sample :
    ∃ (root : View) (code : List root.Pos), ofSource sampleUse = .ok root ∧
      root.graph.taxonomy = .php ∧ code.Pairwise (· < ·) ∧
      root.readClause code = .ok sampleImports ∧ ∃ clause tree, root.UseClause code clause tree ∧
        List.Forall₂ (UseLeaf.Imports clause) (tree.leaves []) sampleImports := by
  have h : (ofSource sampleUse).toOption.map (fun root =>
      (root.readClause ((root.between 2 (root.hi - 1)).filter root.isCode)).toOption) = some
      (some sampleImports) := by
    decide +kernel
  obtain ⟨root, hroot, hread⟩ := Option.map_eq_some_iff.mp h
  have hsource := ok_of_toOption hroot
  have hread := ok_of_toOption hread
  obtain ⟨_, g, _, hlink, hg⟩ := ofSource_ok hsource
  have hphp := (balanced_of_ofGraph (.link hlink) hg).php
  have hcode := (root.between_pairwise 2 (root.hi - 1)).filter root.isCode
  obtain ⟨hiff, hleaves⟩ := readClause_reads_leaves hphp hcode
  obtain ⟨clause, tree, htree⟩ := hiff.mp ⟨_, hread⟩
  obtain ⟨imports, hread', himports⟩ := hleaves clause tree htree
  rw [hread] at hread'
  cases hread'
  exact ⟨root, _, hsource, hphp, hcode, hread, clause, tree, htree, himports⟩

end View

end PhpOutline
