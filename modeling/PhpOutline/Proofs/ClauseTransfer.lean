import PhpOutline.Import.Statement
import PhpOutline.Proofs.ClauseFrames
import PhpOutline.Proofs.Enumerations
import PhpOutline.Proofs.ListFacts

/-!
# Reading the same clause in two views

The reader of use clauses looks at the kinds and texts of tokens, at which brackets belong together
and at which segments of a name touch. Where two views agree on these (`Alike`), it reads the same
imports from both, or fails with the same error.
-/

namespace PhpOutline

namespace View

/-- Positions of two views between which a reader of clauses sees no difference. -/
structure Alike (v w : View) (R : v.Pos → w.Pos → Prop) : Prop where
  taxonomy : v.graph.taxonomy = w.graph.taxonomy
  kind : ∀ {p q}, R p q → v.kind p = w.kind q
  text : ∀ {p q}, R p q → (v.node p).text = (w.node q).text
  closer : ∀ {p q p' q'}, R p q → R p' q' →
    ((v.node p).closedBy = some p'.val ↔ (w.node q).closedBy = some q'.val)
  closed : ∀ {p q}, R p q → ((v.node p).closedBy = none ↔ (w.node q).closedBy = none)
  touching : ∀ {p q p' q'}, R p q → R p' q' →
    v.graph.taxonomy.nameSegments.contains (v.kind p) = true →
    v.graph.taxonomy.nameSegments.contains (v.kind p') = true →
      (p'.val = p.val + 1 ↔ q'.val = q.val + 1)

section

variable {v w : View} {R : v.Pos → w.Pos → Prop} {code inside : List v.Pos}
  {code' inside' : List w.Pos} {kind : ImportKind} {lead name follow : String}

namespace Alike

theorem takeKind {itemKind : ImportKind} {named : List v.Pos} (hR : Alike v w R)
    (h : List.Forall₂ R code code') (hkind : v.takeKind kind code = (itemKind, named)) :
    ∃ named', w.takeKind kind code' = (itemKind, named') ∧ List.Forall₂ R named named' := by
  cases h with
  | nil =>
    cases hkind
    exact ⟨[], rfl, .nil⟩
  | @cons p q code code' hpq ht =>
    have hk : v.importKind? p = w.importKind? q := by rw [importKind?, importKind?, hR.kind hpq]
    rw [View.takeKind, hk] at hkind
    rw [View.takeKind]
    split at hkind
    · cases hkind
      exact ⟨code', rfl, ht⟩
    · cases hkind
      exact ⟨q :: code', rfl, .cons hpq ht⟩

theorem segment {p : v.Pos} {q : w.Pos} (hR : Alike v w R) (h : R p q) :
    v.graph.taxonomy.nameSegments.contains (v.kind p) =
      w.graph.taxonomy.nameSegments.contains (w.kind q) := by
  rw [hR.kind h, hR.taxonomy]

theorem takeTouching {p : v.Pos} {q : w.Pos} (hR : Alike v w R) (hpq : R p q)
    (hp : v.graph.taxonomy.nameSegments.contains (v.kind p) = true)
    (h : List.Forall₂ R code code') :
    List.Forall₂ R (v.takeTouching p code).1 (w.takeTouching q code').1 ∧
      List.Forall₂ R (v.takeTouching p code).2 (w.takeTouching q code').2 := by
  induction h generalizing p q with
  | nil => exact ⟨.nil, .nil⟩
  | @cons i j code code' hij ht ih =>
    rw [View.takeTouching, View.takeTouching, ← hR.segment hij]
    by_cases hi : v.graph.taxonomy.nameSegments.contains (v.kind i) = true
    · have htouch : (i.val == p.val + 1) = (j.val == q.val + 1) := by
        rw [Bool.eq_iff_iff, beq_iff_eq, beq_iff_eq]
        exact hR.touching hpq hij hp hi
      rw [htouch]
      split
      · exact ⟨.cons hij (ih hij hi).1, (ih hij hi).2⟩
      · exact ⟨.nil, .cons hij ht⟩
    · simp only [hi, Bool.false_and, Bool.false_eq_true, if_false]
      exact ⟨.nil, .cons hij ht⟩

theorem map_text (hR : Alike v w R) (h : List.Forall₂ R code code') :
    (code.map fun p => (v.node p).text) = code'.map fun q => (w.node q).text := by
  induction h with
  | nil => rfl
  | cons hpq _ ih => rw [List.map_cons, List.map_cons, hR.text hpq, ih]

theorem takeName {own : String} {rest : List v.Pos} (hR : Alike v w R)
    (h : List.Forall₂ R code code') (hname : v.takeName code = (own, rest)) :
    ∃ rest', w.takeName code' = (own, rest') ∧ List.Forall₂ R rest rest' := by
  cases h with
  | nil =>
    cases hname
    exact ⟨[], rfl, .nil⟩
  | @cons p q code code' hpq ht =>
    rw [View.takeName] at hname
    rw [View.takeName, ← hR.segment hpq]
    split at hname
    · rename_i hp
      obtain ⟨htouching, hrest⟩ := hR.takeTouching hpq hp ht
      cases hname
      rw [if_pos hp]
      refine ⟨_, Prod.ext ?_ rfl, hrest⟩
      exact congrArg String.join (hR.map_text (.cons hpq htouching)).symm
    · rename_i hp
      cases hname
      rw [if_neg hp]
      exact ⟨q :: code', rfl, .cons hpq ht⟩

theorem textAt (hR : Alike v w R) (h : List.Forall₂ R code code') :
    v.textAt code follow = w.textAt code' follow := by
  cases h with
  | nil => rfl
  | cons hpq _ => exact hR.text hpq

def Rest (R : v.Pos → w.Pos → Prop) (a : Import × List v.Pos) (b : Import × List w.Pos) : Prop :=
  a.1 = b.1 ∧ List.Forall₂ R a.2 b.2

theorem readAlias (hR : Alike v w R) (h : List.Forall₂ R code code') (kind : ImportKind)
    (name : String) :
    SameResult (Rest R) (v.readAlias kind name code) (w.readAlias kind name code') := by
  have hbare : ∀ {code code'}, List.Forall₂ R code code' →
      SameResult (Rest R) (readAlias.bare v kind name code) (readAlias.bare w kind name code') := by
    intro code code' h
    unfold readAlias.bare
    split
    · exact .error _
    · exact .ok ⟨rfl, h⟩
  unfold View.readAlias
  cases h with
  | nil => exact hbare .nil
  | @cons p q code code' hpq ht =>
    dsimp only
    rw [← hR.kind hpq]
    split
    · cases ht with
      | nil => exact .error _
      | @cons p q code code' hpq ht =>
        dsimp only
        rw [← hR.text hpq]
        split
        · exact .ok ⟨rfl, ht⟩
        · exact .error _
    · exact hbare (.cons hpq ht)

theorem splitGroup {p : v.Pos} {q : w.Pos} (hR : Alike v w R) (hpq : R p q)
    (h : List.Forall₂ R code code') :
    SameResult (fun a b => List.Forall₂ R a.1 b.1 ∧ R a.2.1 b.2.1 ∧ List.Forall₂ R a.2.2 b.2.2)
      (v.splitGroup p code) (w.splitGroup q code') := by
  unfold View.splitGroup
  cases hc : (v.node p).closedBy with
  | none =>
    rw [(hR.closed hpq).mp hc]
    exact .error _
  | some c =>
    cases hc' : (w.node q).closedBy with
    | none =>
      rw [(hR.closed hpq).mpr hc'] at hc
      cases hc
    | some c' =>
      have hne : ∀ {i j}, R i j → decide (i.val ≠ c) = decide (j.val ≠ c') := by
        intro i j hij
        have := hR.closer hpq hij
        rw [hc, hc', Option.some.injEq, Option.some.injEq] at this
        rw [decide_eq_decide, ne_comm, this.ne, ne_comm]
      have htake := forall₂_takeWhile h hne
      have hdrop := forall₂_dropWhile h hne
      dsimp only
      generalize code.takeWhile _ = inner at htake ⊢
      generalize code'.takeWhile _ = inner' at htake ⊢
      generalize code.dropWhile _ = rest at hdrop ⊢
      generalize code'.dropWhile _ = rest' at hdrop ⊢
      cases hdrop with
      | nil => exact .error _
      | cons hclose hrest =>
        cases htake with
        | nil => exact .error _
        | cons hi hinner => exact .ok ⟨.cons hi hinner, hclose, hrest⟩

theorem readAlias_ok {item : Import} {rest : List v.Pos} (hR : Alike v w R)
    (h : List.Forall₂ R code code') (halias : v.readAlias kind name code = .ok (item, rest)) :
    ∃ rest', w.readAlias kind name code' = .ok (item, rest') ∧ List.Forall₂ R rest rest' := by
  have hread := hR.readAlias h kind name
  rw [halias] at hread
  obtain ⟨⟨item', rest'⟩, heq, hitem, hrest⟩ := hread.ok_left
  cases hitem
  exact ⟨rest', heq, hrest⟩

theorem splitGroup_ok {p close : v.Pos} {q : w.Pos} {inner rest : List v.Pos} (hR : Alike v w R)
    (hpq : R p q) (h : List.Forall₂ R code code')
    (hgroup : v.splitGroup p code = .ok (inner, close, rest)) :
    ∃ inner' close' rest', w.splitGroup q code' = .ok (inner', close', rest') ∧
      List.Forall₂ R inner inner' ∧ R close close' ∧ List.Forall₂ R rest rest' := by
  have hsplit := hR.splitGroup hpq h
  rw [hgroup] at hsplit
  obtain ⟨⟨inner', close', rest'⟩, heq, hinner, hclose, hrest⟩ := hsplit.ok_left
  exact ⟨inner', close', rest', heq, hinner, hclose, hrest⟩

end Alike

/-- Behind a name the two views are in the same place, and they go on alike if they read all shorter
code alike. -/
theorem Alike.readBehind {itemKind : ImportKind} {own : String} (hR : Alike v w R)
    (h : List.Forall₂ R code code') (hshorter : ∀ lead kind follow {short short'}, short.length <
      code.length → List.Forall₂ R short short' →
        v.readItems lead kind follow short = w.readItems lead kind follow short') :
    v.readBehind lead kind follow itemKind own code =
      w.readBehind lead kind follow itemKind own code' := by
  rw [View.readBehind.eq_def, View.readBehind.eq_def]
  split
  · rw [hR.textAt h]
  · cases h with
    | nil => exact SameResult.map_eq (hR.readAlias .nil itemKind _) fun hab => by rw [hab.1]
    | @cons i j inside inside' hij hinside =>
      dsimp only
      rw [← hR.kind hij]
      split
      · -- both views close the group at the same place
        have hsplit := hR.splitGroup hij hinside
        cases hgroup : v.splitGroup i inside with
        | error e =>
          rw [hgroup] at hsplit
          rw [hsplit.error_left]
        | ok parts =>
          obtain ⟨inner, close, behind⟩ := parts
          obtain ⟨inner', close', behind', hgroup', hinner, hclose, hbehind⟩ :=
            hR.splitGroup_ok hij hinside hgroup
          obtain ⟨hle, hlt⟩ := v.length_splitGroup hgroup
          have hgrouped := hshorter (lead ++ own) itemKind (v.node close).text
            (Nat.lt_succ_of_le hle) hinner
          rw [hgroup']
          cases hbehind with
          | nil =>
            dsimp only
            rw [hgrouped, hR.text hclose]
          | cons hk hmore =>
            have hothers := hshorter lead kind follow
              (Nat.lt_of_succ_lt (Nat.lt_succ_of_lt hlt)) hmore
            dsimp only
            rw [← hR.kind hk, ← hR.text hk, hgrouped, hothers, hR.text hclose]
      · -- what is left behind an alias corresponds as well
        have hread := hR.readAlias (.cons hij hinside) itemKind (lead ++ own)
        cases halias : v.readAlias itemKind (lead ++ own) (i :: inside) with
        | error e =>
          rw [halias] at hread
          rw [hread.error_left]
        | ok parts =>
          obtain ⟨item, behind⟩ := parts
          obtain ⟨behind', halias', hbehind⟩ := hR.readAlias_ok (.cons hij hinside) halias
          have hle := v.length_readAlias halias
          rw [halias']
          cases hbehind with
          | nil => rfl
          | cons hk hmore =>
            dsimp only
            rw [← hR.kind hk, ← hR.text hk, hshorter lead kind follow hle hmore]

theorem Alike.readItems (hR : Alike v w R) (h : List.Forall₂ R code code') :
    v.readItems lead kind follow code = w.readItems lead kind follow code' := by
  -- by the length of the code that is left
  induction hn : code.length using Nat.strongRecOn generalizing code code' lead kind follow with
  | ind n ih =>
    obtain ⟨named', hkind, hnamed⟩ := hR.takeKind h (Prod.eta (v.takeKind kind code)).symm
    obtain ⟨rest', hname, hrest⟩ := hR.takeName hnamed (Prod.eta (v.takeName _)).symm
    have hempty : code.isEmpty = code'.isEmpty := by cases h <;> rfl
    have hle := Nat.le_trans (v.length_takeName _) (v.length_takeKind kind code)
    rw [readItems_eq, readItems_eq, hempty, hkind, hname]
    refine if_congr Iff.rfl rfl (hR.readBehind hrest fun lead kind follow _ _ hlt hshort => ?_)
    exact ih _ (by omega) hshort rfl

theorem Alike.readClause (hR : Alike v w R) (h : List.Forall₂ R code code') :
    v.readClause code = w.readClause code' := by
  rw [readClause_eq, readClause_eq]
  obtain ⟨items', hkind', hitems⟩ := hR.takeKind h (Prod.eta (v.takeKind .class_ code)).symm
  rw [hkind']
  cases hk : v.takeKind .class_ code with
  | mk kind items =>
    rw [hk] at hitems
    cases hitems with
    | nil => rfl
    | cons hij hrest => exact hR.readItems (.cons hij hrest)

end

/-! ## Statements -/

section

variable {v : View} {p : v.Pos} {a b c : Nat} {test : v.Pos → Bool}

theorem between_nil (v : View) (h : b ≤ a) : v.between a b = [] := by
  rw [between, Nat.sub_eq_zero_of_le h]
  rfl

theorem between_cons (h : p < b) : v.between p b = p :: v.between (p + 1) b := by
  have hlen : b - p.val = (b - (p.val + 1)) + 1 := by omega
  rw [between, hlen, List.range'_succ, List.filterMap_cons, pos?, dif_pos p.isLt]
  rfl

theorem between_append (v : View) (hab : a ≤ b) (hbc : b ≤ c) :
    v.between a c = v.between a b ++ v.between b c := by
  have hlen : c - a = (b - a) + (c - b) := by omega
  rw [between, between, between, hlen, ← List.range'_append_1, List.filterMap_append,
    Nat.add_sub_cancel' hab]

theorem between_succ (h : a ≤ p) : v.between a (p + 1) = v.between a p ++ [p] := by
  rw [v.between_append h (Nat.le_succ p), between_cons (Nat.lt_succ_self p),
    v.between_nil (Nat.le_refl _)]

theorem find?_between_eq (ha : a ≤ p) (hb : p < b) (hp : test p = true)
    (h : ∀ q : v.Pos, a ≤ q → q < p → test q = false) : (v.between a b).find? test = some p := by
  rw [v.between_append ha (Nat.le_of_lt hb), between_cons hb, List.find?_append, List.find?_cons,
    hp]
  have hnone : (v.between a p).find? test = none := by
    rw [List.find?_eq_none]
    intro q hq
    obtain ⟨haq, hqp⟩ := mem_between.mp hq
    simp [h q haq hqp]
  rw [hnone]
  rfl

theorem takeWhile_between (h : (v.between a b).find? test = some p) :
    (v.between a b).takeWhile (!test ·) = v.between a p := by
  obtain ⟨ha, hb, hp, hbefore⟩ := find?_between h
  rw [v.between_append ha (Nat.le_of_lt hb), between_cons hb]
  rw [List.takeWhile_append_of_pos, List.takeWhile_cons_of_neg (by simp [hp]), List.append_nil]
  intro q hq
  obtain ⟨haq, hqp⟩ := mem_between.mp hq
  simp [hbefore q haq hqp]

/-- The code of the statement that a keyword starts and that ends at a position. -/
def clause (v : View) (keyword : v.Pos) (stop : Nat) : List v.Pos :=
  (v.between (keyword + 1) stop).filter v.isCode

theorem importsAt_of_end {stop : v.Pos}
    (h : (v.between (p + 1) v.hi).find? v.endsStatement = some stop) :
    v.importsAt p =
      match v.readClause (v.clause p stop) with
      | .error e => .error (.structural (v.node p).line e)
      | .ok imports => .ok (imports, stop.val) := by
  unfold importsAt
  dsimp only
  rw [h]
  dsimp only
  rw [takeWhile_between h]
  rfl

theorem importsAt_of_no_end (h : (v.between (p + 1) v.hi).find? v.endsStatement = none) :
    v.importsAt p = .error (.structural (v.node p).line .useWithoutEnd) := by
  unfold importsAt
  dsimp only
  rw [h]

theorem clause_of_importsAt {imports : List Import} {stop : Nat}
    (h : v.importsAt p = .ok (imports, stop)) :
    ∃ q : v.Pos, q.val = stop ∧ p < q ∧ q < v.hi ∧ v.endsStatement q = true ∧
      (∀ r : v.Pos, p < r → r < q → v.endsStatement r = false) ∧
      v.readClause (v.clause p q) = .ok imports := by
  cases hend : (v.between (p + 1) v.hi).find? v.endsStatement with
  | none =>
    rw [importsAt_of_no_end hend] at h
    cases h
  | some q =>
    obtain ⟨hlt, hhi, hq, hbefore⟩ := find?_between hend
    rw [importsAt_of_end hend] at h
    cases hread : v.readClause (v.clause p q) with
    | error e =>
      rw [hread] at h
      cases h
    | ok imports' =>
      rw [hread] at h
      cases h
      exact ⟨q, rfl, hlt, hhi, hq, hbefore, hread⟩

theorem importsFrom_at (hp : p < v.hi) : v.importsFrom p =
    if v.startsImport p then
      match v.importsAt p with
      | .error e => ⟨[], some e⟩
      | .ok (imports, stop) => (v.importsFrom (max stop p + 1)).after imports
    else v.importsFrom (p + 1) := by
  rewrite [importsFrom, if_pos hp, show v.pos? p = some p from dif_pos p.isLt]
  rfl

theorem importsFrom_end (ha : v.hi ≤ a) : v.importsFrom a = {} := by
  rw [importsFrom, if_neg (Nat.not_lt.mpr ha)]

end

end View

end PhpOutline
