import PhpOutline.Proofs.TopLevel

/-!
# Where a scan reads

A scan reads at some of the keywords at the top of a view, one after the other (`stops`). What it
lists is what it reads there, and it fails where the last of these readings does (`scan_eq`). So a
keyword is reported, as a declaration or as what is wrong, only if the scan stops at it (`Reports`),
and the scan stops at a keyword unless it passes it with what it reads at another (`mem_stops_iff`).
-/

namespace PhpOutline

open PhpOutline.Graph

def Reading.failure {α : Type} (r : Reading α) : Option Error :=
  match r.next with
  | .error e => some e
  | .ok _ => none

namespace View

section

variable {α : Type} (v : View) (set : KindSet) (read : v.Pos → Reading α)

def stops (i : Nat) : List v.Pos :=
  match _h : v.sibling? set i with
  | none => []
  | some p =>
    match (read p).next with
    | .error _ => [p]
    | .ok next => p :: stops (max next (p + 1))
termination_by v.hi - i
decreasing_by
  have := sibling?_bounds (by assumption)
  omega

def readStops : Listing α where
  items := (v.stops set read v.lo).flatMap fun p => (read p).items
  error := (v.stops set read v.lo).findSome? fun p => (read p).failure

/-- The scan of the view gives an item for a position, or fails because of it. -/
def Reports (p : v.Pos) : Prop :=
  p ∈ v.stops set read v.lo ∧ ((read p).items ≠ [] ∨ ∃ e, (read p).failure = some e)

/-- The scan of the view has passed a position with what it read before, or has failed before it. -/
def Passed (p : v.Pos) : Prop :=
  ∃ q ∈ v.stops set read v.lo, q < p ∧ ∀ n, (read q).next = .ok n → p < n

end

variable {α : Type} {v : View} {set : KindSet} {read : v.Pos → Reading α} {p q : v.Pos} {i : Nat}

theorem scan_eq_stops (v : View) (set : KindSet) (read : v.Pos → Reading α) (i : Nat) :
    v.scan set read i =
      ⟨(v.stops set read i).flatMap fun p => (read p).items, (v.stops set read i).findSome? fun p =>
        (read p).failure⟩ := by
  fun_induction stops v set read i with
  | case1 i h => rw [scan_of_none h]; rfl
  | case2 i p h e he =>
    rw [scan_of_some h, he]
    simp [Reading.failure, he]
  | case3 i p h next hnext ih =>
    rw [scan_of_some h, hnext]
    dsimp only
    rw [ih]
    simp [Listing.after, Reading.failure, hnext]

theorem scan_eq (v : View) (set : KindSet) (read : v.Pos → Reading α) :
    v.scan set read v.lo = v.readStops set read :=
  v.scan_eq_stops set read v.lo

theorem le_of_mem_stops (h : p ∈ v.stops set read i) : i ≤ p := by
  fun_induction stops v set read i with
  | case1 => cases h
  | case2 i q hq e he =>
    rw [List.mem_singleton.mp h]
    exact (sibling?_bounds hq).1
  | case3 i q hq next hnext ih =>
    have hle := (sibling?_bounds hq).1
    rcases List.mem_cons.mp h with rfl | h
    · exact hle
    · have := ih h
      omega

theorem next_le_of_mem_stops (hq : q ∈ v.stops set read i) (hp : p ∈ v.stops set read i)
    (hqp : q < p) :
    ∃ n, (read q).next = .ok n ∧ n ≤ p := by
  fun_induction stops v set read i with
  | case1 => cases hq
  | case2 i r hr e he =>
    rw [List.mem_singleton.mp hq, List.mem_singleton.mp hp] at hqp
    exact absurd hqp (lt_irrefl r)
  | case3 i r hr next hnext ih =>
    rcases List.mem_cons.mp hq with rfl | hq
    · rcases List.mem_cons.mp hp with rfl | hp
      · exact absurd hqp (lt_irrefl p)
      · have := le_of_mem_stops hp
        exact ⟨next, hnext, by omega⟩
    · rcases List.mem_cons.mp hp with rfl | hp
      · have := le_of_mem_stops hq
        have : q.val < p.val := hqp
        omega
      · exact ih hq hp

theorem not_reports_of_skip {n : Nat} (h : read p = .skip n) : ¬ v.Reports set read p := by
  rintro ⟨_, hitems | ⟨e, he⟩⟩
  · rw [h] at hitems
    exact hitems rfl
  · rw [h] at he
    cases he

theorem ofItem_reports (r : Except Error (α × Nat)) :
    (Reading.ofItem r).items ≠ [] ∨ ∃ e, (Reading.ofItem r).failure = some e := by
  cases r with
  | error e => exact .inr ⟨e, rfl⟩
  | ok found => exact .inl (by simp [Reading.ofItem])

namespace Balanced

variable (hv : v.Balanced) (hread : ∀ p : v.Pos, v.Found set p → ∀ n, (read p).next = .ok n →
  p < n ∧ v.Ground n)

include hv hread

theorem found_of_mem_stops (hi : v.Ground i) (h : p ∈ v.stops set read i) : v.Found set p := by
  fun_induction stops v set read i with
  | case1 => cases h
  | case2 i q hq e he =>
    rw [List.mem_singleton.mp h]
    exact ⟨hv.sibling?_ground hi hq, (sibling?_bounds hq).2, sibling?_contains hq⟩
  | case3 i q hq next hnext ih =>
    have hfound : v.Found set q := ⟨hv.sibling?_ground hi hq, (sibling?_bounds hq).2,
      sibling?_contains hq⟩
    rcases List.mem_cons.mp h with rfl | h
    · exact hfound
    · obtain ⟨hlt, hground⟩ := hread q hfound next hnext
      rw [Nat.max_eq_left hlt] at ih h
      exact ih hground h

theorem mem_stops_or_passed_from (hi : v.Ground i) (hp : v.Found set p) (hip : i ≤ p) :
    p ∈ v.stops set read i ∨ ∃ q ∈ v.stops set read i, q < p ∧ ∀ n, (read q).next = .ok n →
      p < n := by
  -- by the recursion of the scan: the first keyword from an index on is where it stops, and it
  -- goes on where the reading there has ended
  fun_induction stops v set read i with
  | case1 i h =>
    have := (hv.sibling?_passes hi).2 h p hp
    omega
  | case2 i q hq e he =>
    rcases lt_or_eq_of_le ((hv.sibling?_passes hi).1 q hq p hp hip) with hlt | rfl
    · refine .inr ⟨q, by simp, hlt, fun n hn => ?_⟩
      rw [he] at hn
      cases hn
    · exact .inl (by simp)
  | case3 i q hq next hnext ih =>
    have hfound : v.Found set q := ⟨hv.sibling?_ground hi hq, (sibling?_bounds hq).2,
      sibling?_contains hq⟩
    obtain ⟨hlt, hground⟩ := hread q hfound next hnext
    rw [Nat.max_eq_left hlt] at ih ⊢
    rcases lt_or_eq_of_le ((hv.sibling?_passes hi).1 q hq p hp hip) with hqp | rfl
    · by_cases hpn : p < next
      · refine .inr ⟨q, by simp, hqp, fun n hn => ?_⟩
        cases hnext.symm.trans hn
        exact hpn
      · rcases ih hground (by omega) with hmem | ⟨r, hr, hpassed⟩
        · exact .inl (List.mem_cons_of_mem _ hmem)
        · exact .inr ⟨r, List.mem_cons_of_mem _ hr, hpassed⟩
    · exact .inl (by simp)

theorem mem_stops_iff (hp : v.Found set p) : p ∈ v.stops set read v.lo ↔ ¬ v.Passed set read p := by
  constructor
  · rintro hmem ⟨q, hq, hqp, hpassed⟩
    obtain ⟨n, hn, hle⟩ := next_le_of_mem_stops hq hmem hqp
    have := hpassed n hn
    omega
  · intro hpassed
    exact (hv.mem_stops_or_passed_from hread hv.lo hp hp.ground.lo_le).resolve_right hpassed

/-- If a reader has a reason for each keyword that it skips, the scan reports the others that it
does not pass. -/
theorem reports_iff {skips : v.Pos → Prop} (hset : ∀ k, set.contains k = true →
    Taxonomy.php.isCloser k = false) (hskip : ∀ p, v.Found set p → skips p → read p = .skip (p + 1))
    (hreport : ∀ p, v.Found set p → ¬ skips p → (read p).items ≠ [] ∨
      ∃ e, (read p).failure = some e) :
    v.Reports set read p ↔
      v.AtTop p ∧ set.contains (v.kind p) = true ∧ ¬ skips p ∧ ¬ v.Passed set read p := by
  constructor
  · intro h
    have hfound := hv.found_of_mem_stops hread hv.lo h.1
    obtain ⟨htop, hmem⟩ := (hv.found_iff hset).mp hfound
    exact ⟨htop, hmem, fun hs => not_reports_of_skip (hskip p hfound hs) h,
      (hv.mem_stops_iff hread hfound).mp h.1⟩
  · rintro ⟨htop, hmem, hs, hpassed⟩
    have hfound := (hv.found_iff hset).mpr ⟨htop, hmem⟩
    exact ⟨(hv.mem_stops_iff hread hfound).mpr hpassed, hreport p hfound hs⟩

end Balanced

end View

end PhpOutline
