import PhpOutline.Import.Statement
import PhpOutline.Proofs.CodeTrail
import PhpOutline.Proofs.Reachable

/-!
# Which use keywords import

A use keyword imports unless it lists what a closure captures, and only at the top of a view or
directly inside the body of a namespace (`Imports`). The two tests behind it follow the code links,
which lead over close tags as over any trivia. So a closing parenthesis before a close tag still
makes a capture of what follows (`TagAfterParen`), and the words of a namespace header before a
close tag still belong to the header that follows (`Stray`). These are the only differences.
-/

namespace PhpOutline

open PhpOutline.Graph

namespace View

variable {v : View} {p o : v.Pos}

/-! ## The rule -/

section

variable (v)

/-- Nothing but trivia stands between two indices, and no statement ends there. -/
structure Joined (i j : Nat) : Prop where
  lt : i < j
  no_code : ∀ q : v.Pos, i < q → q < j → v.isCode q = false
  no_end : ∀ q : v.Pos, i < q → q < j → v.endsStatement q = false

/-- Whether a use keyword lists the variables that a closure captures. -/
def Captures (p : v.Pos) : Prop := ∃ q : v.Pos, v.lo ≤ q ∧ v.kind q = .closeParen ∧ v.Joined q p

def IsNamespaceName (n : v.Pos) : Prop := v.kind n = .string ∨ v.kind n = .nameQualified

/-- Whether a bracket is the body of a namespace: its keyword, its name and the brace stand side by
side. -/
def NamespaceBody (o : v.Pos) : Prop :=
  v.kind o = .openBrace ∧
    ∃ k n : v.Pos, v.kind k = .namespaceKw ∧ v.IsNamespaceName n ∧ v.Joined k n ∧ v.Joined n o

/-- Whether a use keyword imports by where it stands. -/
def Imports (p : v.Pos) : Prop :=
  v.kind p = .useKw ∧ ¬ v.Captures p ∧ ∀ o : v.Pos, (v.node p).parent = some o.val →
    v.NamespaceBody o

/-! ## Where close tags matter -/

def AfterParen (p : v.Pos) : Prop :=
  ∃ q : v.Pos, v.lo ≤ q ∧ q < p ∧ v.kind q = .closeParen ∧
    ∀ r : v.Pos, q < r → r < p → v.isCode r = false

/-- A closing parenthesis and then a close tag before a position. -/
def TagAfterParen (p : v.Pos) : Prop :=
  v.AfterParen p ∧ ∃ t : v.Pos, t < p ∧ v.kind t = .closeTag ∧ ∀ r : v.Pos, t < r → r < p →
    v.isCode r = false

/-- A namespace keyword leads to a bracket through code of headers alone. -/
def Headed (o : v.Pos) : Prop :=
  ∃ k : v.Pos, k < o ∧ v.kind k = .namespaceKw ∧ v.graph.HeaderRun k o

/-- A namespace keyword leads to a bracket that is not the body of a namespace. -/
def Stray (o : v.Pos) : Prop := v.Headed o ∧ ¬ v.NamespaceBody o

/-- The bracket around a position is stray, and the code before the position closes no
parenthesis. -/
def InStray (p : v.Pos) : Prop :=
  ¬ v.AfterParen p ∧ ∃ o : v.Pos, (v.node p).parent = some o.val ∧ v.Stray o

def FormedHeader (k : v.Pos) : Prop :=
  ∃ n e : v.Pos, v.IsNamespaceName n ∧ v.Joined k n ∧ v.Joined n e ∧
    (v.kind e = .openBrace ∨ v.endsStatement e = true)

end

theorem Joined.le_of_code {i j : Nat} (h : v.Joined i j) (hcode : v.isCode o = true) (hi : i < o) :
    j ≤ o := by
  rcases Nat.lt_or_ge o j with hlt | hge
  · rw [h.no_code o hi hlt] at hcode
    cases hcode
  · exact hge

theorem Balanced.follows_iff {k : Kind} (hv : v.Balanced) : v.follows p k = true ↔
    ∃ q : v.Pos, v.lo ≤ q ∧ q < p ∧ v.kind q = k ∧ v.isCode q = true ∧
      ∀ r : v.Pos, q < r → r < p → v.isCode r = false := by
  rw [follows, Option.any_eq_true]
  constructor
  · rintro ⟨q, hq, hkind⟩
    obtain ⟨hlo, hqp, hcode, hbetween⟩ := hv.prevCode?_eq_some_iff.mp hq
    exact ⟨q, hlo, hqp, by simpa using hkind, hcode, hbetween⟩
  · rintro ⟨q, hlo, hqp, hkind, hcode, hbetween⟩
    exact ⟨q, hv.prevCode?_eq_some_iff.mpr ⟨hlo, hqp, hcode, hbetween⟩, by simpa using hkind⟩

theorem Balanced.follows_closeParen (hv : v.Balanced) :
    v.follows p .closeParen = true ↔ v.AfterParen p := by
  rw [hv.follows_iff]
  constructor
  · rintro ⟨q, hlo, hqp, hkind, _, hbetween⟩
    exact ⟨q, hlo, hqp, hkind, hbetween⟩
  · rintro ⟨q, hlo, hqp, hkind, hbetween⟩
    exact ⟨q, hlo, hqp, hkind, by rw [isCode, hv.php, hkind]; rfl, hbetween⟩

theorem not_part_of_opener {k : Kind} (h : Taxonomy.php.isOpener k = true) :
    Taxonomy.php.isCode k = true ∧ Taxonomy.php.declarationParts.contains k = false := by
  cases k <;> first | exact ⟨rfl, rfl⟩ | cases h

theorem headerRun_iff {i j : Nat} :
    v.graph.HeaderRun j i ↔ ∀ q : v.Pos, j ≤ q → q < i → v.isCode q = true →
    v.graph.taxonomy.declarationParts.contains (v.kind q) = true := by
  constructor
  · intro h q hj hi
    exact h q _ hj hi (getElem?_pos q)
  · intro h q n hj hi hn
    obtain ⟨hlt, rfl⟩ := Array.getElem?_eq_some_iff.mp hn
    exact h ⟨q, hlt⟩ hj hi

theorem Balanced.opensNamespace_iff (hv : v.Balanced) (ho : v.graph.roles o = .opens) :
    v.opensNamespace o = true ↔ v.Headed o := by
  have hopener := (hv.linked.roles_opens_iff hv.matched (getElem?_pos o)).mp ho
  rw [hv.php] at hopener
  obtain ⟨hcode, hpart⟩ := not_part_of_opener hopener
  have hany : v.opensNamespace o = (v.graph.headerBefore o).any (·.kind == .namespaceKw) := by
    rw [opensNamespace, getElem?_pos]
    dsimp only
    cases hc : (v.node o).prevCode with
    | none => rw [headerBefore, hv.linked.codeBetween_of_prevCode_none (getElem?_pos o) hc]; rfl
    | some c =>
      exact hv.linked.isDeclarationOf_prevCode (getElem?_pos o) hc (by rw [hv.php]; exact hcode)
        (by rw [hv.php]; exact hpart)
  rw [hany, any_headerBefore_iff (by rw [hv.php]; rfl) (Nat.le_of_lt o.isLt)]
  constructor
  · rintro ⟨j, m, hjo, hm, hkind, hrun⟩
    obtain ⟨hlt, rfl⟩ := Array.getElem?_eq_some_iff.mp hm
    exact ⟨⟨j, hlt⟩, hjo, hkind, hrun⟩
  · rintro ⟨k, hko, hkind, hrun⟩
    exact ⟨k, _, hko, getElem?_pos k, hkind, hrun⟩

/-- By the links, a use keyword imports if the code before it does not close a parenthesis and a
namespace keyword leads to the bracket around it. -/
theorem Balanced.startsImport_iff (hv : v.Balanced) (hs : v.scope.isNamespaceLevel = true) :
    v.startsImport p = true ↔ v.kind p = .useKw ∧ ¬ v.AfterParen p ∧
      ∀ o : v.Pos, (v.node p).parent = some o.val → v.Headed o := by
  rw [startsImport, Bool.and_eq_true, Bool.and_eq_true, Bool.not_eq_true', beq_iff_eq, and_assoc,
    ← Bool.not_eq_true, hv.follows_closeParen]
  refine and_congr_right fun _ => and_congr_right fun _ => ?_
  cases hparent : (v.node p).parent with
  | none => simp [hs]
  | some o =>
    have hinner := (hv.linked.parent_eq_some (getElem?_pos p)).mp hparent
    have hlt : o < v.graph.nodes.size := Nat.lt_trans hinner.lt p.isLt
    have hiff := hv.opensNamespace_iff (o := ⟨o, hlt⟩) hinner.openAt.opens
    simp only [Option.some.injEq]
    constructor
    · rintro h q rfl
      exact hiff.mp h
    · intro h
      exact hiff.mpr (h ⟨o, hlt⟩ rfl)

/-! ## The links and the rule -/

theorem closeTag_of_end {k : Kind} (h : Taxonomy.php.terminators.contains k = true) :
    k = .closeTag ∨ k = .semicolon := by
  cases k <;> first | exact .inl rfl | exact .inr rfl | cases h

theorem Balanced.afterParen_iff (hv : v.Balanced) :
    v.AfterParen p ↔ v.Captures p ∨ v.TagAfterParen p := by
  constructor
  · rintro ⟨q, hlo, hqp, hkind, hbetween⟩
    by_cases htag : ∃ t : v.Pos, q < t ∧ t < p ∧ v.endsStatement t = true
    · obtain ⟨t, hqt, htp, hend⟩ := htag
      refine .inr ⟨⟨q, hlo, hqp, hkind, hbetween⟩, t, htp, ?_,
        fun r htr => hbetween r (Nat.lt_trans hqt htr)⟩
      have htrivia := hbetween t hqt htp
      rw [endsStatement, hv.php] at hend
      rw [isCode, hv.php] at htrivia
      rcases closeTag_of_end hend with h | h
      · exact h
      · rw [h] at htrivia
        cases htrivia
    · refine .inl ⟨q, hlo, hkind, hqp, hbetween, fun r hqr hrp => ?_⟩
      rw [Bool.eq_false_iff]
      intro hend
      exact htag ⟨r, hqr, hrp, hend⟩
  · rintro (⟨q, hlo, hkind, hjoined⟩ | h)
    · exact ⟨q, hlo, hjoined.lt, hkind, hjoined.no_code⟩
    · exact h.1

theorem Balanced.headed_of_namespaceBody (hv : v.Balanced) (h : v.NamespaceBody o) :
    v.Headed o := by
  obtain ⟨_, k, n, hk, hn, hkn, hno⟩ := h
  have hlt := hkn.lt
  have hlt' := hno.lt
  refine ⟨k, Nat.lt_trans hlt hlt', hk, ?_⟩
  intro q m hkq hqo hm hcode
  obtain ⟨hq, rfl⟩ := Array.getElem?_eq_some_iff.mp hm
  let r : v.Pos := ⟨q, hq⟩
  have hcode : v.isCode r = true := hcode
  rcases Nat.lt_trichotomy q n with hqn | hqn | hqn
  · rcases Nat.eq_or_lt_of_le hkq with hkq | hkq
    · have hr : r = k := Fin.ext hkq.symm
      show v.graph.taxonomy.declarationParts.contains (v.kind r) = true
      rw [hr, hk, hv.php]
      rfl
    · rw [hkn.no_code r hkq hqn] at hcode
      cases hcode
  · have hr : r = n := Fin.ext hqn
    show v.graph.taxonomy.declarationParts.contains (v.kind r) = true
    rw [hr, hv.php]
    rcases hn with hn | hn <;> rw [hn] <;> rfl
  · rw [hno.no_code r hqn hqo] at hcode
    cases hcode

theorem Balanced.startsImport_iff_imports (hv : v.Balanced) (hs : v.scope.isNamespaceLevel = true) :
    v.startsImport p = true ↔ (v.Imports p ∧ ¬ v.TagAfterParen p) ∨
      (v.kind p = .useKw ∧ v.InStray p) := by
  rw [hv.startsImport_iff hs]
  constructor
  · rintro ⟨huse, hparen, hheaded⟩
    by_cases hbody : ∀ o : v.Pos, (v.node p).parent = some o.val → v.NamespaceBody o
    · refine .inl ⟨⟨huse, fun h => hparen (hv.afterParen_iff.mpr (.inl h)), hbody⟩,
        fun h => hparen h.1⟩
    · push Not at hbody
      obtain ⟨o, ho, hbody⟩ := hbody
      exact .inr ⟨huse, hparen, o, ho, hheaded o ho, hbody⟩
  · rintro (⟨⟨huse, hcapture, hbody⟩, htag⟩ | ⟨huse, hparen, o, ho, hstray⟩)
    · refine ⟨huse, ?_, fun o ho => hv.headed_of_namespaceBody (hbody o ho)⟩
      intro h
      rcases hv.afterParen_iff.mp h with h | h
      · exact hcapture h
      · exact htag h
    · refine ⟨huse, hparen, ?_⟩
      intro q hq
      rw [ho] at hq
      rw [← Fin.ext (Option.some.inj hq)]
      exact hstray.1

/-- If the headers have their form, a close tag has come between the name and a stray bracket. -/
theorem Balanced.tag_of_inStray (hv : v.Balanced) (h : v.InStray p)
    (hformed : ∀ k : v.Pos, v.kind k = .namespaceKw → v.FormedHeader k) :
    ∃ k n t : v.Pos, v.kind k = .namespaceKw ∧ v.IsNamespaceName n ∧ v.kind t = .closeTag ∧
      v.Joined k n ∧ v.Joined n t ∧
      ∃ o : v.Pos, (v.node p).parent = some o.val ∧ t < o ∧ v.graph.HeaderRun k o := by
  obtain ⟨_, o, hparent, ⟨k, hko, hk, hrun⟩, hbody⟩ := h
  have ho := ((hv.linked.parent_eq_some (getElem?_pos p)).mp hparent).openAt.opens
  obtain ⟨n, e, hn, hkn, hne, he⟩ := hformed k hk
  have hopener := (hv.linked.roles_opens_iff hv.matched (getElem?_pos o)).mp ho
  rw [hv.php] at hopener
  have hcode : v.isCode o = true := by
    rw [isCode, hv.php]
    exact (not_part_of_opener hopener).1
  -- neither the name nor the end of the header is the bracket, so both stand before it
  have hno : n.val < o.val := by
    rcases Nat.eq_or_lt_of_le (hkn.le_of_code hcode hko) with heq | hlt
    · rw [← Fin.ext heq] at hopener
      rcases hn with hn | hn <;> rw [show (v.node n).kind = _ from hn] at hopener <;> cases hopener
    · exact hlt
  have heo : e.val < o.val := by
    rcases Nat.eq_or_lt_of_le (hne.le_of_code hcode hno) with heq | hlt
    · obtain rfl := Fin.ext heq
      rcases he with he | he
      · exact absurd ⟨he, k, n, hk, hn, hkn, hne⟩ hbody
      · rw [endsStatement, hv.php] at he
        rcases closeTag_of_end he with he | he <;>
          rw [show (v.node e).kind = _ from he] at hopener <;> cases hopener
    · exact hlt
  have hlt := hkn.lt
  have hlt' := hne.lt
  have hpart : v.isCode e = true → Taxonomy.php.declarationParts.contains (v.kind e) = true := by
    intro hcode
    rw [← hv.php]
    exact hrun e _ (by omega) heo (getElem?_pos e) hcode
  rw [isCode, hv.php] at hpart
  refine ⟨k, n, e, hk, hn, ?_, hkn, hne, o, hparent, heo, hrun⟩
  rcases he with he | he
  · rw [he] at hpart
    cases hpart rfl
  · rw [endsStatement, hv.php] at he
    rcases closeTag_of_end he with he | he
    · exact he
    · rw [he] at hpart
      cases hpart rfl

theorem Balanced.namespaceKw_of_inside {c : Nat} (hv : v.Balanced)
    (hs : v.scope.isNamespaceLevel = true) (h : v.startsImport p = true)
    (hc : (v.node o).closedBy = some c) (hop : o < p) (hpc : p < c) :
    ∃ k : v.Pos, k < p ∧ v.kind k = .namespaceKw ∧ (o < k ∨ v.graph.HeaderRun k o) := by
  have hpair := hv.pair_of_closedBy hc
  obtain ⟨i, hi⟩ := exists_innermost (hpair.openAt.of_le (Nat.lt_succ_of_lt hop) hpc) hop
  have hlt : i < v.graph.nodes.size := Nat.lt_trans hi.lt p.isLt
  obtain ⟨_, _, hheaded⟩ := (hv.startsImport_iff hs).mp h
  obtain ⟨k, hki, hk, hrun⟩ := hheaded ⟨i, hlt⟩ ((hv.linked.parent_eq_some (getElem?_pos p)).mpr hi)
  have hoi : o.val ≤ i := hi.greatest o hop (hpair.openAt.of_le (Nat.lt_succ_of_lt hop) hpc)
  refine ⟨k, Nat.lt_trans hki hi.lt, hk, ?_⟩
  rcases Nat.lt_or_ge o k with hok | hko
  · exact .inl hok
  · -- a bracket cannot stand in a header, so the header ends before this one or is its own
    have hopener := (hv.linked.roles_opens_iff hv.matched (getElem?_pos o)).mp hpair.openAt.opens
    obtain ⟨hcode, hpart⟩ := not_part_of_opener (by rw [hv.php] at hopener; exact hopener)
    rcases Nat.eq_or_lt_of_le hoi with heq | hlt'
    · subst heq
      exact .inr hrun
    · have := hrun o _ hko hlt' (getElem?_pos o) (by rw [hv.php]; exact hcode)
      rw [hv.php, hpart] at this
      cases this

/-! ## The statements that are read -/

def statementsFrom (v : View) (i : Nat) : List v.Pos :=
  if i < v.hi then
    match v.pos? i with
    | none => []
    | some p =>
      if v.startsImport p then
        match v.importsAt p with
        | .error _ => [p]
        | .ok (_, stop) => p :: statementsFrom v (max stop i + 1)
      else statementsFrom v (i + 1)
  else []
termination_by v.hi - i

def statements (v : View) : List v.Pos := v.statementsFrom v.lo

def importsOf (v : View) (p : v.Pos) : List Import :=
  match v.importsAt p with
  | .error _ => []
  | .ok (imports, _) => imports

def failureOf (v : View) (p : v.Pos) : Option Error :=
  match v.importsAt p with
  | .error e => some e
  | .ok _ => none

theorem importsFrom_eq (v : View) (i : Nat) :
    v.importsFrom i =
      ⟨(v.statementsFrom i).flatMap v.importsOf, (v.statementsFrom i).findSome? v.failureOf⟩ := by
  fun_induction statementsFrom v i with
  | case1 i hlt hp => rw [importsFrom, if_pos hlt, hp]; rfl
  | case2 i hlt p hp hstarts e he =>
    rw [importsFrom, if_pos hlt, hp]
    simp [hstarts, he, importsOf, failureOf]
  | case3 i hlt p hp hstarts imports stop hat ih =>
    rw [importsFrom, if_pos hlt, hp]
    simp [hstarts, hat, importsOf, failureOf, ih, Listing.after]
  | case4 i hlt p hp hstarts ih =>
    rw [importsFrom, if_pos hlt, hp]
    simp [hstarts, ih]
  | case5 i hlt => rw [importsFrom, if_neg hlt]; rfl

theorem kind_of_startsImport (h : v.startsImport p = true) : v.kind p = .useKw := by
  rw [startsImport, Bool.and_eq_true, Bool.and_eq_true, beq_iff_eq] at h
  exact h.1.1

theorem mem_statementsFrom {i : Nat} (h : p ∈ v.statementsFrom i) : v.startsImport p = true := by
  fun_induction statementsFrom v i with
  | case1 | case5 => cases h
  | case2 i hlt q hq hstarts e he => rw [List.mem_singleton.mp h]; exact hstarts
  | case3 i hlt q hq hstarts imports stop hat ih =>
    rcases List.mem_cons.mp h with rfl | h
    · exact hstarts
    · exact ih h
  | case4 i hlt q hq hstarts ih => exact ih h

theorem le_of_mem_statementsFrom {i : Nat} (h : p ∈ v.statementsFrom i) : i ≤ p := by
  fun_induction statementsFrom v i with
  | case1 | case5 => cases h
  | case2 i hlt q hq hstarts e he =>
    rw [List.mem_singleton.mp h]
    exact Nat.le_of_eq (val_of_pos? hq).symm
  | case3 i hlt q hq hstarts imports stop hat ih =>
    rcases List.mem_cons.mp h with rfl | h
    · exact Nat.le_of_eq (val_of_pos? hq).symm
    · have := ih h
      omega
  | case4 i hlt q hq hstarts ih =>
    have := ih h
    omega

/-- Whether the reading of an earlier statement has gone over a position: the position lies inside
of the statement, or the statement is not well formed and ends the reading. -/
def Covered (v : View) (p : v.Pos) : Prop :=
  ∃ q ∈ v.statements, q < p ∧ ∀ imports stop, v.importsAt q = .ok (imports, stop) → p < stop

theorem importsAt_ok {imports : List Import} {stop : Nat}
    (h : v.importsAt p = .ok (imports, stop)) :
    ∃ q : v.Pos, q.val = stop ∧ p < q ∧ v.endsStatement q = true := by
  unfold importsAt at h
  dsimp only at h
  split at h
  · cases h
  · rename_i q hq
    obtain ⟨hpq, _, hend, _⟩ := find?_between hq
    split at h
    · cases h
    · cases h
      exact ⟨q, rfl, hpq, hend⟩

theorem mem_statementsFrom_or_covered {i : Nat} (hphp : v.graph.taxonomy = .php) (hi : i ≤ p)
    (hp : p < v.hi) (h : v.startsImport p = true) :
    p ∈ v.statementsFrom i ∨ ∃ q ∈ v.statementsFrom i, q < p ∧
      ∀ imports stop, v.importsAt q = .ok (imports, stop) → p < stop := by
  fun_induction statementsFrom v i with
  | case1 i hlt hq => rw [pos?, dif_pos (by omega)] at hq; cases hq
  | case2 i hlt q hq hstarts e he =>
    obtain rfl := val_of_pos? hq
    rcases Nat.eq_or_lt_of_le hi with heq | hlt
    · exact .inl (by rw [Fin.ext heq]; simp)
    · refine .inr ⟨q, by simp, hlt, ?_⟩
      intro imports stop hat
      rw [he] at hat
      cases hat
  | case3 i hlt q hq hstarts imports stop hat ih =>
    obtain rfl := val_of_pos? hq
    rcases Nat.eq_or_lt_of_le hi with heq | hlt
    · exact .inl (by rw [Fin.ext heq]; simp)
    · rcases Nat.lt_or_ge p stop with hps | hps
      · refine .inr ⟨q, by simp, hlt, ?_⟩
        intro imports' stop' hat'
        rw [hat] at hat'
        cases hat'
        exact hps
      · -- the end of a statement is no use keyword, so the search goes on before this one
        obtain ⟨r, rfl, hqr, hend⟩ := importsAt_ok hat
        have hne : p ≠ r := by
          rintro rfl
          rw [endsStatement, hphp, kind_of_startsImport h] at hend
          cases hend
        have hlt' : r.val < p.val := by
          rcases Nat.eq_or_lt_of_le hps with heq | hlt'
          · exact absurd (Fin.ext heq.symm) hne
          · exact hlt'
        have hqr' : q.val < r.val := hqr
        rcases ih (by omega) with hmem | ⟨q', hmem, hrest⟩
        · exact .inl (List.mem_cons_of_mem _ hmem)
        · exact .inr ⟨q', List.mem_cons_of_mem _ hmem, hrest⟩
  | case4 i hlt q hq hstarts ih =>
    obtain rfl := val_of_pos? hq
    rcases Nat.eq_or_lt_of_le hi with heq | hlt
    · rw [Fin.ext heq] at hstarts
      exact absurd h hstarts
    · exact ih hlt
  | case5 i hlt => omega

theorem namespaceLevel_of_mem {root : View} {copy : Nat} {name : String} (hs : root.scope = {})
    (h : ⟨name, v⟩ ∈ (root.namespaces copy).items) : v.scope.isNamespaceLevel = true := by
  have hscope := mem_namespaces_scope h
  rw [hs] at hscope
  rw [← Except.ok.inj hscope]
  rfl

/-- What the view of a namespace imports are its use statements, read one after the other up to the
first that is not well formed. A use keyword is read if and only if it imports by where it stands,
but for two cases: none is read behind a closing parenthesis, even if a close tag comes between,
and all are read in a bracket that the words of an earlier namespace header lead to. If the headers
have their form, the latter takes a close tag behind the name of the namespace. Inside a bracket
pair, such as the body of a type or a function, a use keyword is read only if a namespace keyword
stands in the pair too, or leads to it. -/
theorem imports_reads_uses {source : String} {f : Flags} {root v : View} {copy : Nat}
    {name : String} (hroot : ofSource source f = .ok root)
    (hitem : ⟨name, v⟩ ∈ (root.namespaces copy).items) :
    v.imports = ⟨v.statements.flatMap v.importsOf, v.statements.findSome? v.failureOf⟩ ∧
    ∀ p : v.Pos, v.lo ≤ p → p < v.hi → v.kind p = .useKw →
      (p ∈ v.statements → (v.Imports p ∧ ¬ v.TagAfterParen p) ∨ v.InStray p) ∧
      ((v.Imports p ∧ ¬ v.TagAfterParen p) ∨ v.InStray p → p ∈ v.statements ∨ v.Covered p) ∧
      (v.InStray p → (∀ k : v.Pos, v.kind k = .namespaceKw → v.FormedHeader k) →
        ∃ k n t : v.Pos, v.kind k = .namespaceKw ∧ v.IsNamespaceName n ∧ v.kind t = .closeTag ∧
          v.Joined k n ∧ v.Joined n t ∧
          ∃ o : v.Pos, (v.node p).parent = some o.val ∧ t < o ∧ v.graph.HeaderRun k o) ∧
      (p ∈ v.statements → ∀ (o : v.Pos) (c : Nat), (v.node o).closedBy = some c → o < p → p < c →
        ∃ k : v.Pos, k < p ∧ v.kind k = .namespaceKw ∧ (o < k ∨ v.graph.HeaderRun k o)) := by
  obtain ⟨ts, g, _, hlink, hg⟩ := ofSource_ok hroot
  have hr := balanced_of_ofGraph (.link hlink) hg
  have hv := (hr.namespaces_parts _ hitem).balanced hr
  have hs : v.scope.isNamespaceLevel = true := by
    obtain ⟨_, _, rfl⟩ := ofGraph_ok hg
    exact namespaceLevel_of_mem rfl hitem
  refine ⟨v.importsFrom_eq v.lo, fun p hlo hhi huse =>
    ⟨fun hp => ?_, fun hrule => ?_, hv.tag_of_inStray, ?_⟩⟩
  · rcases (hv.startsImport_iff_imports hs).mp (mem_statementsFrom hp) with h | ⟨_, h⟩
    · exact .inl h
    · exact .inr h
  · refine mem_statementsFrom_or_covered hv.php hlo hhi ((hv.startsImport_iff_imports hs).mpr ?_)
    rcases hrule with h | h
    · exact .inl h
    · exact .inr ⟨huse, h⟩
  · intro hp o c hc hop hpc
    exact hv.namespaceKw_of_inside hs (mem_statementsFrom hp) hc hop hpc

theorem imports_reads_uses_sample :
    ∃ (root v : View) (p : v.Pos),
      ofSource "<?php namespace A; use B\\C; class D \x7b use E; \x7d" = .ok root ∧
      ⟨"A", v⟩ ∈ root.namespaces.items ∧ p.val = 6 ∧ v.kind p = .useKw ∧ v.statements = [p] ∧
      v.imports.items = [⟨"C", .class_, "B\\C"⟩] ∧
      ((v.Imports p ∧ ¬ v.TagAfterParen p) ∨ v.InStray p) := by
  have h : ((ofSource "<?php namespace A; use B\\C; class D \x7b use E; \x7d").toOption.bind
      fun root => root.namespaces.items.head?.map fun a =>
        (a.name, a.view.lo, a.view.hi, a.view.statements.map (·.val), a.view.imports.items)) =
      some ("A", 5, 23, [6], [⟨"C", .class_, "B\\C"⟩]) := by
    decide +kernel
  simp only [Option.bind_eq_some_iff, Option.map_eq_some_iff, Prod.mk.injEq,
    List.map_eq_singleton_iff] at h
  obtain ⟨root, hroot, ⟨name, v⟩, ha, rfl, hlo, hhi, ⟨p, hone, hval⟩, hitems⟩ := h
  have hsource : ofSource "<?php namespace A; use B\\C; class D \x7b use E; \x7d" = .ok root :=
    ok_of_toOption hroot
  have hmem := List.mem_of_mem_head? ha
  have hp : p ∈ v.statements := by rw [hone]; simp
  have huse := kind_of_startsImport (mem_statementsFrom hp)
  refine ⟨root, v, p, hsource, hmem, hval, huse, hone, hitems, ?_⟩
  exact ((imports_reads_uses hsource hmem).2 p (by rw [hval]; exact hlo.le.trans (by decide))
    (by rw [hval]; exact Nat.lt_of_lt_of_eq (by decide) hhi.symm) huse).1 hp

/-- A close tag behind the name of a namespace lets the trait of a class pass for an import, and one
behind a closing parenthesis hides an import. -/
theorem imports_over_close_tags :
    ((ofSource "<?php namespace A ?><?php class B \x7b use T; \x7d").toOption.bind fun root =>
      root.namespaces.items.head?.map fun a => (a.name, a.view.imports.items)) =
        some ("A", [⟨"T", .class_, "T"⟩]) ∧
    ((ofSource "<?php f() ?><?php use A\\B;").toOption.bind fun root =>
      root.namespaces.items.head?.map fun a => (a.name, a.view.imports.items)) = some ("", []) := by
  decide +kernel

end View

end PhpOutline
