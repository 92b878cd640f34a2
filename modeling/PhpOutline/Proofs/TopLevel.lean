import PhpOutline.Proofs.Reachable

/-!
# The top of a view

A token stands at the top of a view if no bracket of the view is open around it. A search for
siblings that starts on the ground finds the first such token of its kinds (`sibling?_eq_some_iff`).
A scan is cut into runs: each starts at such a token and goes as far as what is read there, and
none of these tokens lies outside of all runs (`scan_runs`).
-/

namespace PhpOutline

open PhpOutline.Graph

namespace View

section

variable (v : View)

/-- No bracket is open around a token of the view. -/
structure AtTop (p : v.Pos) : Prop where
  lo_le : v.lo ≤ p
  lt_hi : p < v.hi
  parent : (v.node p).parent = none

/-- The first token at the top, from an index on, with a kind in the set. -/
structure FirstTop (set : KindSet) (i : Nat) (p : v.Pos) : Prop where
  le : i ≤ p
  top : v.AtTop p
  mem : set.contains (v.kind p) = true
  first : ∀ q : v.Pos, v.AtTop q → set.contains (v.kind q) = true → i ≤ q → p ≤ q

/-- The index of that token, or the end of the view if there is none. -/
structure TopOrEnd (set : KindSet) (i j : Nat) : Prop where
  le : i ≤ j
  le_hi : j ≤ v.hi
  top : j < v.hi → ∃ p : v.Pos, p.val = j ∧ v.AtTop p ∧ set.contains (v.kind p) = true
  first : ∀ q : v.Pos, v.AtTop q → set.contains (v.kind q) = true → i ≤ q → j ≤ q

def tops (k : Kind) (a b : Nat) : List v.Pos :=
  (v.between a b).filter fun p => (v.node p).parent.isNone && v.kind p == k

/-- Two code tokens with nothing but trivia between them, inside of the view or before it. -/
structure Precedes (p q : v.Pos) : Prop where
  lt : p < q
  left : v.isCode p = true
  right : v.isCode q = true
  between : ∀ r : v.Pos, p < r → r < q → v.isCode r = false

/-- Two such tokens of the view. -/
structure Adjacent (p q : v.Pos) : Prop extends v.Precedes p q where
  lo_le : v.lo ≤ p
  lt_hi : q < v.hi

def AfterUse (p : v.Pos) : Prop := ∃ q, v.Adjacent q p ∧ v.kind q = .useKw

end

variable {v : View} {p q : v.Pos} {i j : Nat} {set : KindSet}

theorem mem_tops {k : Kind} :
    p ∈ v.tops k i j ↔ (i ≤ p ∧ p < j) ∧ (v.node p).parent = none ∧ v.kind p = k := by
  simp [tops, mem_between]

theorem tops_pairwise {k : Kind} : (v.tops k i j).Pairwise (· < ·) :=
  (v.between_pairwise i j).filter _

/-! ## Code neighbours -/

theorem Precedes.left_unique {r : v.Pos} (h : v.Precedes p q) (h' : v.Precedes r q) : p = r := by
  rcases Nat.lt_trichotomy p r with hlt | heq | hgt
  · have := h.between r hlt h'.lt
    simp [h'.left] at this
  · exact Fin.ext heq
  · have := h'.between p hgt h.lt
    simp [h.left] at this

namespace Balanced

theorem isCode_of_kind {k : Kind} (hv : v.Balanced) (hk : v.kind p = k)
    (hcode : Taxonomy.php.isCode k = true) :
    v.isCode p = true := by
  rw [isCode, hv.php, hk]
  exact hcode

theorem nextCode?_iff_adjacent (hv : v.Balanced) (hlo : v.lo ≤ p) (hcode : v.isCode p = true) :
    v.nextCode? p = some q ↔ v.Adjacent p q := by
  rw [hv.nextCode?_eq_some_iff]
  constructor
  · rintro ⟨hhi, hlt, hq, hbetween⟩
    exact ⟨⟨hlt, hcode, hq, hbetween⟩, hlo, hhi⟩
  · intro h
    exact ⟨h.lt_hi, h.lt, h.right, h.between⟩

theorem prevCode?_iff_adjacent (hv : v.Balanced) (hhi : p < v.hi) (hcode : v.isCode p = true) :
    v.prevCode? p = some q ↔ v.Adjacent q p := by
  rw [hv.prevCode?_eq_some_iff]
  constructor
  · rintro ⟨hlo, hlt, hq, hbetween⟩
    exact ⟨⟨hlt, hq, hcode, hbetween⟩, hlo, hhi⟩
  · intro h
    exact ⟨h.lo_le, h.lt, h.left, h.between⟩

theorem follows_iff_adjacent {k : Kind} (hv : v.Balanced) (hhi : p < v.hi)
    (hcode : v.isCode p = true) :
    v.follows p k = true ↔ ∃ q, v.Adjacent q p ∧ v.kind q = k := by
  simp only [follows, Option.any_eq_true, beq_iff_eq, hv.prevCode?_iff_adjacent hhi hcode]

/-! ## The top and the ground -/

theorem roles_ne_closes (hv : v.Balanced) (hk : Taxonomy.php.isCloser (v.kind p) = false) :
    v.graph.roles p ≠ .closes := by
  rw [roles_pos, hv.php, role]
  by_cases ho : Taxonomy.php.isOpener (v.kind p) = true <;> simp [hk, ho, hv.matched]

theorem ground_iff_parent (hv : v.Balanced) (hlo : v.lo ≤ p) (hhi : p < v.hi)
    (hk : Taxonomy.php.isCloser (v.kind p) = false) : v.Ground p ↔ (v.node p).parent = none := by
  constructor
  · intro hground
    cases hparent : (v.node p).parent with
    | none => rfl
    | some o =>
      have hin := (hv.linked.parent_eq_some (getElem?_pos p)).mp hparent
      have habove := hin.openAt.above p hin.lt (Nat.le_succ _)
      have := hv.nonneg o
      rw [hground.height_eq] at habove
      omega
  · intro hparent
    refine ⟨hlo, Nat.le_of_lt hhi, ?_⟩
    -- an open bracket would be on the stack, and the top of the stack is the parent
    have hlen := length_openStack (r := v.graph.roles) (i := p) fun j _ => hv.nonneg j
    cases hs : (openStack v.graph.roles p).head? with
    | none =>
      rw [List.head?_eq_none_iff.mp hs] at hlen
      simpa using hlen.symm
    | some o =>
      have hin : Innermost v.graph.roles p o := by
        rw [← head?_openStack_innermost, if_neg (hv.roles_ne_closes hk)]
        exact hs
      rw [(hv.linked.parent_eq_some (getElem?_pos p)).mpr hin] at hparent
      cases hparent

theorem found_iff (hv : v.Balanced)
    (hset : ∀ k, set.contains k = true → Taxonomy.php.isCloser k = false) :
    v.Found set p ↔ v.AtTop p ∧ set.contains (v.kind p) = true := by
  constructor
  · intro h
    exact ⟨⟨h.ground.lo_le, h.lt, (hv.ground_iff_parent h.ground.lo_le h.lt (hset _ h.mem)).mp
      h.ground⟩, h.mem⟩
  · rintro ⟨h, hmem⟩
    exact ⟨(hv.ground_iff_parent h.lo_le h.lt_hi (hset _ hmem)).mpr h.parent, h.lt_hi, hmem⟩

end Balanced

theorem Balanced.found_singleton_iff {k : Kind} (hv : v.Balanced)
    (hk : Taxonomy.php.isCloser k = false) :
    v.Found (.ofList [k]) p ↔ v.AtTop p ∧ v.kind p = k := by
  rw [hv.found_iff fun l hl => by rw [kind_of_singleton hl]; exact hk]
  simp

/-! ## Searches -/

/-- Nothing is passed over on the way to what a search from an index has found. -/
def Passes (v : View) (set : KindSet) (i : Nat) (found : Option v.Pos) : Prop :=
  (∀ p, found = some p → ∀ q : v.Pos, v.Found set q → i ≤ q → p ≤ q) ∧
    (found = none → ∀ q : v.Pos, v.Found set q → q < i)

theorem Passes.of_skip {found : Option v.Pos} (h : Passes v set j found)
    (hskip : ∀ q : v.Pos, v.Found set q → i ≤ q → j ≤ q) : Passes v set i found := by
  refine ⟨fun p hp q hq hle => h.1 p hp q hq (hskip q hq hle), fun hnone q hq => ?_⟩
  have := h.2 hnone q hq
  by_contra hge
  have := hskip q hq (by omega)
  omega

namespace Balanced

theorem not_ground_inside {c : Nat} (hv : v.Balanced) (hc : (v.node p).closedBy = some c)
    (hpq : p < i) (hqc : i ≤ c) : ¬ v.Ground i := by
  intro hi
  have habove := (hv.pair_of_closedBy hc).openAt.above i hpq hqc
  have := hv.nonneg p
  rw [hi.height_eq] at habove
  omega

theorem not_ground_closer (hv : v.Balanced) (hk : v.graph.roles p = .closes) : ¬ v.Ground p := by
  intro hp
  have := hv.nonneg (p + 1)
  rw [height_closes hk, hp.height_eq] at this
  omega

theorem sibling?_passes (hv : v.Balanced) (hi : v.Ground i) :
    Passes v set i (v.sibling? set i) := by
  refine hv.sibling?_rec (motive := fun i found => v.Ground i → Passes v set i found) ?found ?pair
    ?closer ?plain ?stop i hi
  case found =>
    intro p _ _ _
    refine ⟨?_, by simp⟩
    rintro _ ⟨⟩ q _ hle
    exact hle
  case pair =>
    intro p c r hlt hset _ hc ih hp
    -- the tokens of the pair are not on the ground, but for the bracket that opens it
    refine (ih (hv.ground_closer hp hlt hc)).of_skip fun q hq hpq => ?_
    by_contra hqc
    rcases Nat.eq_or_lt_of_le hpq with heq | hlt
    · exact hset (by rw [Fin.ext heq]; exact hq.mem)
    · exact hv.not_ground_inside hc hlt (by omega) hq.ground
  case closer =>
    intro p _ _ hopen hclose hp
    refine absurd hp (hv.not_ground_closer ?_)
    rw [roles_pos, role, hv.php]
    simp [hv.matched, hopen, hclose]
  case plain =>
    intro p r hlt hset hopen hclose ih hp
    refine (ih (hp.succ hlt (hv.roles_plain (by simp [isPlain, hopen, hclose])))).of_skip
      fun q hq hpq => ?_
    rcases Nat.eq_or_lt_of_le hpq with heq | hlt
    · exact absurd (by rw [Fin.ext heq]; exact hq.mem) hset
    · exact hlt
  case stop =>
    intro i hge _
    refine ⟨by simp, fun _ q hq => ?_⟩
    have := hq.lt
    omega

theorem sibling?_eq_some_iff (hv : v.Balanced) (hi : v.Ground i)
    (hset : ∀ k, set.contains k = true → Taxonomy.php.isCloser k = false) :
    v.sibling? set i = some p ↔ v.FirstTop set i p := by
  have hfirst : Passes v set i (v.sibling? set i) := hv.sibling?_passes hi
  have found : ∀ {q}, v.sibling? set i = some q → v.AtTop q ∧ set.contains (v.kind q) = true :=
    fun h =>
    (hv.found_iff hset).mp ⟨hv.sibling?_ground hi h, (sibling?_bounds h).2, sibling?_contains h⟩
  constructor
  · intro h
    refine ⟨(sibling?_bounds h).1, (found h).1, (found h).2, fun q hq hmem hle => ?_⟩
    exact hfirst.1 p h q ((hv.found_iff hset).mpr ⟨hq, hmem⟩) hle
  · intro h
    have hp := (hv.found_iff hset).mpr ⟨h.top, h.mem⟩
    cases hs : v.sibling? set i with
    | none =>
      have := hfirst.2 hs p hp
      have := h.le
      omega
    | some q =>
      have hle : q.val ≤ p.val := hfirst.1 q hs p hp h.le
      have hge : p.val ≤ q.val := h.first q (found hs).1 (found hs).2 (sibling?_bounds hs).1
      rw [Fin.ext (Nat.le_antisymm hle hge)]

theorem topOrEnd_sibling? (hv : v.Balanced) (hi : v.Ground i)
    (hset : ∀ k, set.contains k = true → Taxonomy.php.isCloser k = false) :
    v.TopOrEnd set i (((v.sibling? set i).map (·.val)).getD v.hi) := by
  cases hs : v.sibling? set i with
  | some p =>
    have hp := (hv.sibling?_eq_some_iff hi hset).mp hs
    exact ⟨hp.le, Nat.le_of_lt hp.top.lt_hi, fun _ => ⟨p, rfl, hp.top, hp.mem⟩, hp.first⟩
  | none =>
    refine ⟨hi.le_hi, Nat.le_refl _, fun h => absurd h (Nat.lt_irrefl _), fun q hq hmem hle => ?_⟩
    have := (hv.sibling?_passes hi).2 hs q ((hv.found_iff hset).mpr ⟨hq, hmem⟩)
    omega

end Balanced

/-! ## Scans -/

theorem ofItem_ok {α : Type} {r : Except Error (α × Nat)} {n : Nat}
    (h : (Reading.ofItem r).next = .ok n) :
    ∃ a, r = .ok (a, n) ∧ (Reading.ofItem r).items = [a] := by
  cases r with
  | error e => cases h
  | ok found =>
    cases h
    exact ⟨found.1, rfl, rfl⟩

/-- A piece of a scan: the token at which it starts, where it ends, and what is found there. -/
structure Run (v : View) (β : Type) where
  start : v.Pos
  stop : Nat
  entries : List β

theorem Balanced.scan_runs {α β : Type} {read : v.Pos → Reading α} {f : β → α}
    {P : v.Pos → Nat → List β → Prop} (hv : v.Balanced)
    (hread : ∀ p : v.Pos, v.Found set p → ∀ n, (read p).next = .ok n →
      p < n ∧ v.Ground n ∧ ∃ es, (read p).items = es.map f ∧ P p n es)
    (hi : v.Ground i) (hok : (v.scan set read i).error = none) :
    ∃ runs : List (v.Run β), (v.scan set read i).items = (runs.flatMap (·.entries)).map f ∧
      (∀ r ∈ runs, i ≤ r.start ∧ v.Found set r.start ∧ r.start < r.stop ∧
        P r.start r.stop r.entries) ∧
      runs.Pairwise (fun r s => r.stop ≤ s.start) ∧
      ∀ q : v.Pos, v.Found set q → i ≤ q → ∃ r ∈ runs, r.start ≤ q ∧ q < r.stop := by
  -- by the recursion of the scan: one run is read at the token that is found, and the others
  -- follow it. A token before the first run would have been found
  fun_induction scan v set read i with
  | case1 i h =>
    refine ⟨[], rfl, by simp, by simp, fun q hq hle => ?_⟩
    have := (hv.sibling?_passes hi).2 h q hq
    omega
  | case2 i p h r e he => cases hok
  | case3 i p h r n hn ih =>
    have hp : v.Found set p := ⟨hv.sibling?_ground hi h, (sibling?_bounds h).2, sibling?_contains h⟩
    obtain ⟨hlt, hground, es, hes, hP⟩ := hread p hp n hn
    rw [Nat.max_eq_left hlt] at ih hok ⊢
    obtain ⟨runs, hitems, hruns, hsorted, hcover⟩ := ih hground hok
    have hip := (sibling?_bounds h).1
    refine ⟨⟨p, n, es⟩ :: runs, ?_, ?_, ?_, fun q hq hle => ?_⟩
    · simp only [Listing.after, List.flatMap_cons, List.map_append, ← hes, ← hitems]
      rfl
    · rw [List.forall_mem_cons]
      refine ⟨⟨hip, hp, hlt, hP⟩, fun s hs => ?_⟩
      obtain ⟨hle, hs⟩ := hruns s hs
      exact ⟨by omega, hs⟩
    · exact List.pairwise_cons.mpr ⟨fun s hs => (hruns s hs).1, hsorted⟩
    · by_cases hqn : q.val < n
      · exact ⟨⟨p, n, es⟩, by simp, (hv.sibling?_passes hi).1 p h q hq hle, hqn⟩
      · obtain ⟨s, hs, hstart⟩ := hcover q hq (by omega)
        exact ⟨s, List.mem_cons_of_mem _ hs, hstart⟩

end View

end PhpOutline
