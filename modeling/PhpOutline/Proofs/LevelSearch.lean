import PhpOutline.Proofs.Reachable
import PhpOutline.Proofs.TopLevel

/-!
# The search for siblings by counting

A search for siblings may start anywhere in a view, also in the middle of nested brackets. It steps
over bracket pairs along their links and never counts. What it finds is nevertheless told by
counting: the first token of the set up to which there are as many closing as opening brackets, and
before which the closing ones never outnumber the opening ones.
-/

namespace PhpOutline

open PhpOutline.Graph

namespace Graph

variable {r : Nat → Role} {i j o c : Nat}

/-- The height at `j` is that at `i`, and in between it is nowhere lower. -/
structure Flat (r : Nat → Role) (i j : Nat) : Prop where
  le : i ≤ j
  height_eq : height r j = height r i
  above : ∀ k, i ≤ k → k ≤ j → height r i ≤ height r k

theorem Flat.refl (r : Nat → Role) (i : Nat) : Flat r i i :=
  ⟨Nat.le_refl i, rfl, fun k hik hki => by rw [Nat.le_antisymm hik hki]⟩

theorem flat_iff_of_plain (hi : r i = .plain) (hlt : i < j) : Flat r i j ↔ Flat r (i + 1) j := by
  have hstep := height_plain hi
  constructor
  · intro h
    refine ⟨hlt, by rw [hstep, h.height_eq], fun k hik hkj => ?_⟩
    rw [hstep]
    exact h.above k (by omega) hkj
  · intro h
    refine ⟨Nat.le_of_lt hlt, by rw [h.height_eq, hstep], fun k hik hkj => ?_⟩
    rcases Nat.eq_or_lt_of_le hik with rfl | hlt'
    · exact Int.le_refl _
    · rw [← hstep]
      exact h.above k hlt' hkj

theorem flat_iff_of_pair (hp : Pair r o c) (hlt : o < j) : Flat r o j ↔ Flat r (c + 1) j := by
  -- inside of a pair the height is above that before it, so a level stretch ends behind the pair
  have hpair := hp.height_eq
  have hoc := hp.lt
  constructor
  · intro h
    have hcj : c + 1 ≤ j := by
      by_contra hle
      have := hp.openAt.above j hlt (by omega)
      rw [h.height_eq] at this
      exact absurd this (Int.lt_irrefl _)
    refine ⟨hcj, by rw [h.height_eq, hpair], fun k hck hkj => ?_⟩
    rw [hpair]
    exact h.above k (by omega) hkj
  · intro h
    refine ⟨Nat.le_of_lt hlt, by rw [h.height_eq, hpair], fun k hok hkj => ?_⟩
    rcases Nat.lt_or_ge c k with hck | hkc
    · rw [← hpair]
      exact h.above k hck hkj
    · rcases Nat.eq_or_lt_of_le hok with rfl | hlt'
      · exact Int.le_refl _
      · exact Int.le_of_lt (hp.openAt.above k hlt' hkc)

theorem not_flat_of_closes (hi : r i = .closes) (hlt : i < j) : ¬ Flat r i j := by
  intro h
  have hdown := height_closes hi
  have := h.above (i + 1) (Nat.le_succ i) hlt
  omega

end Graph

namespace View

section

variable (v : View)

/-- From `i` up to and without `j` there are as many closing as opening brackets, and no start of
that stretch has more closing ones. -/
structure Level (i j : Nat) : Prop where
  equal : openers v.graph.taxonomy v.graph.tokens i j = closers v.graph.taxonomy v.graph.tokens i j
  starts : ∀ k, i ≤ k → k ≤ j →
    closers v.graph.taxonomy v.graph.tokens i k ≤ openers v.graph.taxonomy v.graph.tokens i k

structure LevelWith (set : KindSet) (i : Nat) (p : v.Pos) : Prop where
  le : i ≤ p
  lt_hi : p < v.hi
  mem : set.contains (v.kind p) = true
  level : v.Level i p

end

variable {f : Flags} {g : Graph} {root v : View} {i j : Nat} {p : v.Pos} {set : KindSet}

theorem level_iff_flat (hm : v.graph.flags.matchBrackets = true) (hij : i ≤ j) :
    v.Level i j ↔ Flat v.graph.roles i j := by
  have hcount : ∀ k, i ≤ k → height v.graph.roles i + openers v.graph.taxonomy v.graph.tokens i k =
      height v.graph.roles k + closers v.graph.taxonomy v.graph.tokens i k :=
    fun k hk => height_add_openers _ _ hm hk
  constructor
  · rintro ⟨hequal, hstarts⟩
    refine ⟨hij, by have := hcount j hij; omega, fun k hik hkj => ?_⟩
    have := hcount k hik
    have := hstarts k hik hkj
    omega
  · rintro ⟨_, hheight, habove⟩
    refine ⟨by have := hcount j hij; omega, fun k hik hkj => ?_⟩
    have := hcount k hik
    have := habove k hik hkj
    omega

theorem levelWith_self (hm : v.graph.flags.matchBrackets = true) (hp : p < v.hi)
    (hset : set.contains (v.kind p) = true) : v.LevelWith set p p :=
  ⟨Nat.le_refl _, hp, hset, (level_iff_flat hm (Nat.le_refl _)).mpr (.refl _ _)⟩

theorem LevelWith.lt {q : v.Pos} (h : v.LevelWith set p q) (hp : ¬ set.contains (v.kind p) = true) :
    p.val < q.val := by
  rcases Nat.eq_or_lt_of_le h.le with heq | hlt
  · exact absurd (by rw [Fin.ext heq]; exact h.mem) hp
  · exact hlt

theorem levelWith_iff_of_flat (hm : v.graph.flags.matchBrackets = true)
    (hp : ¬ set.contains (v.kind p) = true) (hpj : p < j)
    (hflat : ∀ k : Nat, p < k → (Flat v.graph.roles p k ↔ Flat v.graph.roles j k)) (q : v.Pos) :
    v.LevelWith set p q ↔ v.LevelWith set j q := by
  constructor
  · intro h
    have hjq := (hflat q (h.lt hp)).mp ((level_iff_flat hm h.le).mp h.level)
    exact ⟨hjq.le, h.lt_hi, h.mem, (level_iff_flat hm hjq.le).mpr hjq⟩
  · intro h
    have hle := h.le
    refine ⟨by omega, h.lt_hi, h.mem, (level_iff_flat hm (by omega)).mpr ?_⟩
    exact (hflat q (by omega)).mpr ((level_iff_flat hm h.le).mp h.level)

def FindsLevel (v : View) (set : KindSet) (i : Nat) (found : Option v.Pos) : Prop :=
  (∀ p, found = some p → v.LevelWith set i p ∧ ∀ q, v.LevelWith set i q → p ≤ q) ∧
    (found = none → ∀ q, ¬ v.LevelWith set i q)

theorem FindsLevel.congr {found : Option v.Pos} (h : v.FindsLevel set j found)
    (hiff : ∀ q, v.LevelWith set i q ↔ v.LevelWith set j q) : v.FindsLevel set i found := by
  unfold FindsLevel
  simp only [hiff]
  exact h

theorem Balanced.sibling?_findsLevel (hv : v.Balanced) (set : KindSet) (i : Nat) :
    v.FindsLevel set i (v.sibling? set i) := by
  -- by the recursion of the search: a token of the set is found at once, a pair and a plain token
  -- are stepped over, and behind a closing bracket nothing is at the level of the start any more
  refine hv.sibling?_rec (motive := v.FindsLevel set) ?found ?pair ?closer ?plain ?stop i
  case found =>
    intro p hlt hset
    refine ⟨?_, by simp⟩
    rintro _ ⟨⟩
    exact ⟨levelWith_self hv.matched hlt hset, fun q hq => hq.le⟩
  case pair =>
    intro p c r _ hset _ hc ih
    have hpair := hv.pair_of_closedBy hc
    have := hpair.lt
    exact ih.congr (levelWith_iff_of_flat hv.matched hset (by omega) fun k hk =>
      flat_iff_of_pair hpair hk)
  case closer =>
    intro p _ hset hopen hclose
    have hcloses : v.graph.roles p = .closes := by
      rw [roles_pos, role, hv.php]
      simp [hv.matched, hopen, hclose]
    refine ⟨by simp, fun _ q hq => ?_⟩
    exact not_flat_of_closes hcloses (hq.lt hset) ((level_iff_flat hv.matched hq.le).mp hq.level)
  case plain =>
    intro p r _ hset hopen hclose ih
    have hplain := hv.roles_plain (p := p) (by simp [isPlain, hopen, hclose])
    exact ih.congr (levelWith_iff_of_flat hv.matched hset (by omega) fun k hk =>
      flat_iff_of_plain hplain hk)
  case stop =>
    intro i hge
    refine ⟨by simp, fun _ q hq => ?_⟩
    have := hq.le
    have := hq.lt_hi
    omega

/-- In every view that can be reached and from every index on, a search for siblings finds the least
position of the view with a kind in the set up to which the brackets are matched, and it finds
nothing if and only if there is no such position. -/
theorem sibling?_least_level (hg : Built .php f g) (hroot : ofGraph g = .ok root)
    (hv : root.Reaches v) (set : KindSet) (i : Nat) :
    (∀ p, v.sibling? set i = some p ↔ v.LevelWith set i p ∧ ∀ q, v.LevelWith set i q → p ≤ q) ∧
      (v.sibling? set i = none ↔ ¬ ∃ q, v.LevelWith set i q) := by
  obtain ⟨hsome, hnone⟩ := (hv.balanced (balanced_of_ofGraph hg hroot)).sibling?_findsLevel set i
  refine ⟨fun p => ⟨hsome p, fun ⟨hp, hleast⟩ => ?_⟩, fun h ⟨q, hq⟩ => hnone h q hq, fun h => ?_⟩
  · cases hs : v.sibling? set i with
    | none => exact absurd hp (hnone hs p)
    | some q =>
      obtain ⟨hq, hleast'⟩ := hsome q hs
      rw [Fin.le_antisymm (hleast' p hp) (hleast q hq)]
  · cases hs : v.sibling? set i with
    | none => rfl
    | some q => exact absurd ⟨q, (hsome q hs).1⟩ h

theorem sibling?_least_level_sample :
    ∃ (g : Graph) (root : View),
      link .php {} [⟨.openParen, "(", 0, 1⟩, ⟨.openBracket, "[", 1, 1⟩, ⟨.semicolon, ";", 2, 1⟩,
        ⟨.closeBracket, "]", 3, 1⟩, ⟨.semicolon, ";", 4, 1⟩, ⟨.closeParen, ")", 5, 1⟩,
        ⟨.semicolon, ";", 6, 1⟩] = .ok g ∧
      ofGraph g = .ok root ∧
      (∃ p : root.Pos, p.val = 4 ∧ root.LevelWith (.ofList [.semicolon]) 1 p ∧
        ∀ q, root.LevelWith (.ofList [.semicolon]) 1 q → p ≤ q) ∧
      ¬ ∃ q, root.LevelWith (.ofList [.semicolon]) 5 q := by
  have h : ((link .php {} [⟨.openParen, "(", 0, 1⟩, ⟨.openBracket, "[", 1, 1⟩,
      ⟨.semicolon, ";", 2, 1⟩, ⟨.closeBracket, "]", 3, 1⟩, ⟨.semicolon, ";", 4, 1⟩,
      ⟨.closeParen, ")", 5, 1⟩, ⟨.semicolon, ";", 6, 1⟩]).toOption.bind fun g =>
        (ofGraph g).toOption.map fun root =>
        ((root.sibling? (.ofList [.semicolon]) 1).map (·.val),
          (root.sibling? (.ofList [.semicolon]) 5).map (·.val))) =
      some (some 4, none) := by
    decide +kernel
  obtain ⟨g, hl, h⟩ := Option.bind_eq_some_iff.mp h
  obtain ⟨root, hroot, h⟩ := Option.map_eq_some_iff.mp h
  obtain ⟨hsome, hnone⟩ := Prod.mk.inj h
  obtain ⟨p, hp, hval⟩ := Option.map_eq_some_iff.mp hsome
  have hl := ok_of_toOption hl
  have hroot := ok_of_toOption hroot
  have hlevel := sibling?_least_level (.link hl) hroot .refl (.ofList [.semicolon])
  exact ⟨g, root, hl, hroot, ⟨p, hval, ((hlevel 1).1 p).mp hp⟩,
    (hlevel 5).2.mp (Option.map_eq_none_iff.mp hnone)⟩

end View

end PhpOutline
