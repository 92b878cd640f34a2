import PhpOutline.Proofs.Detach
import PhpOutline.View.Navigation

/-!
# Views that cut no bracket pair

Below the ends of a balanced view, and before and behind everything that a search at the view's own
depth finds, no bracket is open. Such positions are the ground of the view. A search that starts on
the ground stays on it, so what is taken out of a balanced view between two such positions, or as
the inside of one of its brackets, is balanced again and holds a piece of its tokens.
-/

namespace PhpOutline

namespace Graph

theorem window_within {ts : List Token} {a b i j : Nat} (ha : a ≤ i) (hb : j ≤ b) :
    window ts i j <:+: window ts a b := by
  have hend : window ts i j <:+ window ts a j := by
    rw [window, window, ← Nat.sub_add_cancel ha, Nat.add_comm, ← List.drop_drop]
    exact List.drop_suffix _ _
  have hstart : window ts a j <+: window ts a b := by
    rw [window, window, List.drop_take, List.drop_take]
    exact List.take_prefix_take_left (by omega)
  exact hend.isInfix.trans hstart.isInfix

theorem height_size_cut {g : Graph} {o c : Nat} (hp : Pair g.roles o c) :
    height (g.cut o c).roles (g.cut o c).size = 0 := by
  have hlt := hp.lt
  have hc := hp.closer_lt
  rw [length_tokens] at hc
  rw [size_cut (Nat.le_of_lt hc), height_cut (Nat.le_refl _), Nat.add_sub_cancel' hlt,
    height_opens hp.openAt.opens]
  have hdown := height_closes hp.closes
  rw [hp.height_eq] at hdown
  omega

end Graph

open PhpOutline.Graph

namespace View

section

variable (v : View)

def tokens : List Token := v.nodes.map (·.toToken)

/-- A position of the view at which no bracket is open. -/
structure Ground (i : Nat) : Prop where
  lo_le : v.lo ≤ i
  le_hi : i ≤ v.hi
  height_eq : height v.graph.roles i = 0

/-- A view of PHP tokens with matched brackets that begins and ends where no bracket is open. -/
structure Balanced : Prop where
  linked : v.graph.Linked
  php : v.graph.taxonomy = .php
  matched : v.graph.flags.matchBrackets = true
  hi_le : v.hi ≤ v.graph.size
  lo : v.Ground v.lo
  hi : v.Ground v.hi

end

variable {v w : View} {i j k : Nat} {p q : v.Pos} {set : KindSet}

theorem tokens_eq_window (v : View) : v.tokens = window v.graph.tokens v.lo v.hi := by
  rw [tokens, nodes, Array.toList_extract, List.extract, window, Graph.tokens, List.drop_take,
    List.map_take, List.map_drop]

theorem getElem?_pos (p : v.Pos) : v.graph.nodes[p.val]? = some (v.node p) :=
  Array.getElem?_eq_getElem p.isLt

theorem roles_pos (p : v.Pos) : v.graph.roles p = role v.graph.taxonomy v.graph.flags (v.kind p) :=
  roleAt_of_getElem? (by rw [getElem?_tokens, getElem?_pos p]; rfl)

/-! ## Which tokens are brackets -/

def isPlain (k : Kind) : Bool := !(Taxonomy.php.isOpener k || Taxonomy.php.isCloser k)

theorem isPlain_of_isTrivia {k : Kind} (h : Taxonomy.php.isTrivia k = true) : isPlain k = true := by
  cases k <;> first | rfl | cases h

theorem isPlain_of_terminator {k : Kind} (h : Taxonomy.php.terminators.contains k = true) :
    isPlain k = true := by
  cases k <;> first | rfl | cases h

namespace Balanced

theorem roles_plain (hv : v.Balanced) (h : isPlain (v.kind p) = true) :
    v.graph.roles p = .plain := by
  rw [roles_pos, hv.php, role]
  simp_all [isPlain]

theorem roles_of_not_code (hv : v.Balanced) (h : ¬ CodeAt v.graph.taxonomy v.graph.tokens k) :
    v.graph.roles k = .plain := by
  rcases Nat.lt_or_ge k v.graph.nodes.size with hk | hk
  · let p : v.Pos := ⟨k, hk⟩
    have ht : v.graph.tokens[k]? = some (v.node p).toToken := by
      rw [getElem?_tokens, getElem?_pos p]; rfl
    rw [codeAt_iff ht, Bool.not_eq_false, hv.php] at h
    exact hv.roles_plain (p := p) (isPlain_of_isTrivia h)
  · exact roleAt_of_length_le (by rw [length_tokens]; exact hk)

/-! ## The ground -/

theorem nonneg (hv : v.Balanced) (i : Nat) : 0 ≤ height v.graph.roles i := hv.linked.nonneg i

theorem exists_closer {o : Nat} (hv : v.Balanced) (ho : v.graph.roles o = .opens) (hlt : o < v.hi) :
    ∃ c, c < v.hi ∧ Pair v.graph.roles o c :=
  exists_pair_of_height_le ho hlt (by rw [hv.hi.height_eq]; exact hv.nonneg o)

theorem closer_lt {o c : Nat} (hv : v.Balanced) (ho : o < v.hi) (hp : Pair v.graph.roles o c) :
    c < v.hi := by
  obtain ⟨d, hd, hpd⟩ := hv.exists_closer hp.openAt.opens ho
  rw [hp.closer_unique hpd]
  exact hd

theorem le_opener {o : Nat} (hv : v.Balanced) (hi : v.lo ≤ i) (ho : OpenAt v.graph.roles i o) :
    v.lo ≤ o := by
  rcases Nat.lt_or_ge o v.lo with hlt | hge
  · have habove := ho.above v.lo hlt hi
    have hnonneg := hv.nonneg o
    rw [hv.lo.height_eq] at habove
    omega
  · exact hge

theorem pair_of_closedBy {c : Nat} (hv : v.Balanced) (hc : (v.node p).closedBy = some c) :
    Pair v.graph.roles p c :=
  (hv.linked.closedBy_eq_some (getElem?_pos p)).mp hc

theorem ground_closer {c : Nat} (hv : v.Balanced) (hp : v.Ground p) (hlt : p < v.hi)
    (hc : (v.node p).closedBy = some c) : v.Ground (c + 1) := by
  have hpair := hv.pair_of_closedBy hc
  have := hv.closer_lt hlt hpair
  have := hpair.lt
  exact ⟨by have := hp.lo_le; omega, by omega, by rw [hpair.height_eq, hp.height_eq]⟩

end Balanced

theorem ground_iff_of_plain (hlo : v.lo ≤ i) (hij : i ≤ j) (hhi : j ≤ v.hi)
    (h : ∀ k, i ≤ k → k < j → v.graph.roles k = .plain) : v.Ground i ↔ v.Ground j := by
  have heq := height_eq_of_plain hij h
  constructor
  · intro hi
    exact ⟨by omega, hhi, by rw [heq, hi.height_eq]⟩
  · intro hj
    exact ⟨hlo, by omega, by rw [← heq, hj.height_eq]⟩

theorem Ground.succ (h : v.Ground i) (hlt : i < v.hi) (hi : v.graph.roles i = .plain) :
    v.Ground (i + 1) :=
  ⟨by have := h.lo_le; omega, hlt, by rw [height_plain hi, h.height_eq]⟩

/-! ## Searches stay on the ground -/

theorem sibling?_contains (h : v.sibling? set i = some p) : set.contains (v.kind p) = true := by
  fun_induction sibling? v set i with
  | case2 i hi q hq hset => cases h; exact hset
  | case3 i _ _ _ _ _ c _ _ ih => exact ih h
  | case7 i _ _ _ _ _ _ ih => exact ih h
  | _ => cases h

theorem Balanced.sibling?_ground (hv : v.Balanced) (hi : v.Ground i)
    (h : v.sibling? set i = some p) :
    v.Ground p := by
  fun_induction sibling? v set i with
  | case2 i _ q hq _ => cases h; rw [val_of_pos? hq]; exact hi
  | case3 i hlt q hq _ _ c hc _ ih =>
    -- a pair is stepped over as a whole, and behind it no bracket of its inside is open
    obtain rfl := val_of_pos? hq
    exact ih (hv.ground_closer hi hlt hc) h
  | case7 i hlt q hq _ hopen hclose ih =>
    obtain rfl := val_of_pos? hq
    refine ih (hi.succ hlt (hv.roles_plain ?_)) h
    rw [hv.php] at hopen hclose
    simp [isPlain, hopen, hclose]
  | _ => cases h

theorem Balanced.nextCode?_ground (hv : v.Balanced) (hp : v.Ground p)
    (hk : isPlain (v.kind p) = true) (h : v.nextCode? p = some q) :
    v.Ground q ∧ p.val < q.val ∧ q < v.hi := by
  obtain ⟨j, hj, hq⟩ := Option.bind_eq_some_iff.mp h
  obtain ⟨hj, hlt⟩ := Option.filter_eq_some_iff.mp hj
  obtain rfl := val_of_pos? hq
  have hfirst := ((hv.linked.nodes p _ (getElem?_pos p)).nextCode q).mp hj
  have hle := hfirst.le
  have hhi : q.val < v.hi := by simpa using hlt
  refine ⟨(ground_iff_of_plain hp.lo_le (by omega) (by omega) fun k hpk hkq => ?_).mp hp, hle, hhi⟩
  rcases Nat.eq_or_lt_of_le hpk with rfl | hpk
  · exact hv.roles_plain hk
  · exact hv.roles_of_not_code (hfirst.first k hpk hkq)

/-! ## Positions between two others -/

theorem between_pairwise (v : View) (a b : Nat) : (v.between a b).Pairwise (· < ·) := by
  refine List.Pairwise.filterMap v.pos? (fun i j hij p hp q hq => ?_) (List.pairwise_lt_range' 1)
  obtain rfl := val_of_pos? hp
  obtain rfl := val_of_pos? hq
  exact hij

theorem find?_between {a b : Nat} {test : v.Pos → Bool} (h : (v.between a b).find? test = some p) :
    a ≤ p ∧ p < b ∧ test p = true ∧ ∀ q : v.Pos, a ≤ q → q < p → test q = false := by
  obtain ⟨htest, before, after, heq, hbefore⟩ := List.find?_eq_some_iff_append.mp h
  have hmem : p ∈ v.between a b := by rw [heq]; simp
  have hsorted := v.between_pairwise a b
  obtain ⟨ha, hb⟩ := mem_between.mp hmem
  refine ⟨ha, hb, htest, fun q hq hqp => ?_⟩
  have hq' : q ∈ before ++ p :: after := by
    rw [← heq, mem_between]
    have : q.val < p.val := hqp
    omega
  rw [heq, List.pairwise_append, List.pairwise_cons] at hsorted
  rcases List.mem_append.mp hq' with hq' | hq'
  · simpa using hbefore q hq'
  · rcases List.mem_cons.mp hq' with rfl | hq'
    · exact absurd hqp (Nat.lt_irrefl _)
    · exact absurd (hsorted.2.1.1 q hq') (Nat.lt_asymm hqp)

theorem getLast?_filter_between {a b : Nat} {test : v.Pos → Bool}
    (h : ((v.between a b).filter test).getLast? = some p) :
    a ≤ p ∧ p < b ∧ test p = true ∧ ∀ q : v.Pos, p < q → q < b → test q = false := by
  obtain ⟨before, heq⟩ := List.getLast?_eq_some_iff.mp h
  have hsorted := (v.between_pairwise a b).filter test
  have hmem : p ∈ (v.between a b).filter test := by rw [heq]; simp
  obtain ⟨hp, htest⟩ := List.mem_filter.mp hmem
  obtain ⟨ha, hb⟩ := mem_between.mp hp
  refine ⟨ha, hb, htest, fun q hpq hq => ?_⟩
  rw [← Bool.not_eq_true]
  intro hq'
  have hpq' : p.val < q.val := hpq
  have hmem' : q ∈ (v.between a b).filter test :=
    List.mem_filter.mpr ⟨mem_between.mpr (by omega), hq'⟩
  rw [heq] at hmem' hsorted
  rw [List.pairwise_append] at hsorted
  rcases List.mem_append.mp hmem' with hq' | hq'
  · exact absurd (hsorted.2.2 q hq' p (by simp)) (Nat.lt_asymm hpq)
  · rw [List.mem_singleton.mp hq'] at hpq
    exact absurd hpq (Nat.lt_irrefl _)

theorem isCode_iff (p : v.Pos) : v.isCode p = true ↔ CodeAt v.graph.taxonomy v.graph.tokens p := by
  rw [codeAt_iff (by rw [getElem?_tokens, getElem?_pos p]; rfl)]
  simp [isCode, Taxonomy.isCode, kind]

theorem not_code_iff {a b : Nat} (hb : b ≤ v.graph.nodes.size) :
    (∀ k, a ≤ k → k < b → ¬ CodeAt v.graph.taxonomy v.graph.tokens k) ↔
      ∀ r : v.Pos, a ≤ r → r < b → v.isCode r = false := by
  constructor
  · intro h r har hrb
    rw [Bool.eq_false_iff]
    exact fun hcode => h r har hrb ((isCode_iff r).mp hcode)
  · intro h k hak hkb hcode
    have := h ⟨k, Nat.lt_of_lt_of_le hkb hb⟩ hak hkb
    rw [(isCode_iff _).mpr hcode] at this
    cases this

namespace Balanced

theorem nextCode?_eq_some_iff (hv : v.Balanced) : v.nextCode? p = some q ↔
    q < v.hi ∧ p < q ∧ v.isCode q = true ∧ ∀ r : v.Pos, p < r → r < q → v.isCode r = false := by
  have hlink := (hv.linked.nodes p _ (getElem?_pos p)).nextCode q
  constructor
  · intro h
    obtain ⟨j, hj, hq⟩ := Option.bind_eq_some_iff.mp h
    obtain ⟨hj, hlt⟩ := Option.filter_eq_some_iff.mp hj
    obtain rfl := val_of_pos? hq
    have hfirst := hlink.mp hj
    exact ⟨by simpa using hlt, hfirst.le, (isCode_iff q).mpr hfirst.holds,
      (not_code_iff (Nat.le_of_lt q.isLt)).mp hfirst.first⟩
  · rintro ⟨hlt, hpq, hcode, hbetween⟩
    rw [nextCode?, hlink.mpr ⟨hpq, (isCode_iff q).mp hcode,
      (not_code_iff (Nat.le_of_lt q.isLt)).mpr hbetween⟩]
    simp [Option.filter, hlt, pos?]

theorem prevCode?_eq_some_iff (hv : v.Balanced) : v.prevCode? p = some q ↔
    v.lo ≤ q ∧ q < p ∧ v.isCode q = true ∧ ∀ r : v.Pos, q < r → r < p → v.isCode r = false := by
  have hlink := (hv.linked.nodes p _ (getElem?_pos p)).prevCode q
  constructor
  · intro h
    obtain ⟨j, hj, hq⟩ := Option.bind_eq_some_iff.mp h
    obtain ⟨hj, hlo⟩ := Option.filter_eq_some_iff.mp hj
    obtain rfl := val_of_pos? hq
    have hlast := hlink.mp hj
    exact ⟨by simpa using hlo, hlast.lt, (isCode_iff q).mpr hlast.holds,
      (not_code_iff (Nat.le_of_lt p.isLt)).mp hlast.last⟩
  · rintro ⟨hlo, hqp, hcode, hbetween⟩
    rw [prevCode?, hlink.mpr ⟨hqp, (isCode_iff q).mp hcode,
      (not_code_iff (Nat.le_of_lt p.isLt)).mpr hbetween⟩]
    simp [Option.filter, hlo, pos?]

theorem ground_iff_of_not_code (hv : v.Balanced) (hlo : v.lo ≤ i) (hij : i ≤ j) (hhi : j ≤ v.hi)
    (h : ∀ q : v.Pos, i ≤ q → q < j → v.isCode q = false) : v.Ground i ↔ v.Ground j := by
  refine ground_iff_of_plain hlo hij hhi fun k hik hkj => hv.roles_of_not_code fun hcode => ?_
  have hk : k < v.graph.nodes.size := by have := hv.hi_le; simp only [size] at this; omega
  have := h ⟨k, hk⟩ hik hkj
  rw [(isCode_iff _).mpr hcode] at this
  cases this

theorem nextCodeOrEnd?_ground (hv : v.Balanced) (hp : v.Ground p) (hlt : p < v.hi)
    (hk : isPlain (v.kind p) = true) (h : v.nextCodeOrEnd? p = some q) :
    v.Ground q ∧ p.val < q.val ∧ q < v.hi := by
  obtain ⟨hpq, hq, _, hfirst⟩ := find?_between h
  refine ⟨?_, hpq, hq⟩
  refine (hv.ground_iff_of_not_code (by have := hp.lo_le; omega) hpq (by omega)
    fun r hpr hrq => ?_).mp (hp.succ hlt (hv.roles_plain hk))
  exact (Bool.or_eq_false_iff.mp (hfirst r hpr hrq)).1

theorem valueRange_ground {stop : Nat} (hv : v.Balanced) (hp : v.Ground (p + 1))
    (hs : v.Ground stop) :
    v.Ground (v.valueRange p stop).1 ∧ v.Ground (v.valueRange p stop).2 ∧
      (v.valueRange p stop).1 ≤ (v.valueRange p stop).2 := by
  unfold valueRange
  dsimp only
  split
  · rename_i first last hfirst hlast
    rw [List.head?_filter] at hfirst
    obtain ⟨hpf, hfs, hcode, hbefore⟩ := find?_between hfirst
    obtain ⟨hpl, hls, _, hafter⟩ := getLast?_filter_between hlast
    -- the first code token is not behind the last one, which has no code behind it
    have hfl : first.val ≤ last.val := by
      rcases Nat.lt_or_ge last.val first.val with hlt | hge
      · have := hafter first hlt hfs
        rw [hcode] at this
        cases this
      · exact hge
    have := hp.lo_le
    have := hs.le_hi
    refine ⟨?_, ?_, Nat.le_succ_of_le hfl⟩
    · exact (hv.ground_iff_of_not_code hp.lo_le hpf (by omega) hbefore).mp hp
    · exact (hv.ground_iff_of_not_code (by omega) hls hs.le_hi hafter).mpr hs
  · exact ⟨hs, hs, Nat.le_refl stop⟩

end Balanced

/-! ## Parts of a view -/

/-- A view taken out of another between two positions on its ground, or as the inside of a bracket
that stands on it. -/
inductive Part (v : View) : View → Prop
  | span {lo hi : Nat} (scope : Scope) (hlo : v.Ground lo) (hhi : v.Ground hi) (hle : lo ≤ hi) :
      Part v (v.span lo hi scope)
  | block {copy : Nat} {p : v.Pos} {scope : Scope} {w : View} (hp : v.Ground p) (hlt : p < v.hi)
      (h : v.block copy p scope = .ok w) : Part v w

theorem block_ok {copy : Nat} {scope : Scope} (h : v.block copy p scope = .ok w) :
    ∃ c, (v.node p).closedBy = some c ∧ w.graph = v.graph.cut p c ∧ w.lo = 0 ∧ w.hi = w.graph.size ∧
      w.arena = .block v.arena p copy ∧ w.anchor = some (v.mark p) ∧ w.scope = scope ∧
      w.outer = v.toFrame :: v.outer := by
  unfold block at h
  split at h
  · cases h
  · rename_i g hg
    obtain ⟨n, c, hn, _, hc, rfl⟩ := interior_ok hg
    rw [getElem?_pos p] at hn
    cases hn
    cases h
    exact ⟨c, hc, rfl, rfl, rfl, rfl, rfl, rfl, rfl⟩

theorem Part.outer_eq (h : Part v w) : w.outer = v.toFrame :: v.outer := by
  cases h with
  | span => rfl
  | block _ _ h =>
    obtain ⟨_, _, _, _, _, _, _, _, ho⟩ := block_ok h
    exact ho

theorem Part.parent?_eq (h : Part v w) : w.parent? = some v := by
  rw [parent?, h.outer_eq]

theorem Part.balanced (hv : v.Balanced) (h : Part v w) : w.Balanced := by
  cases h with
  | span scope hlo hhi hle =>
    exact ⟨hv.linked, hv.php, hv.matched, Nat.le_trans hhi.le_hi hv.hi_le,
      ⟨Nat.le_refl _, hle, hlo.height_eq⟩, ⟨hle, Nat.le_refl _, hhi.height_eq⟩⟩
  | block hp hlt h =>
    obtain ⟨c, hc, hgraph, hlo, hhi, _⟩ := block_ok h
    have hpair := hv.pair_of_closedBy hc
    constructor
    · rw [hgraph]; exact hv.linked.cut hpair
    · rw [hgraph]; exact hv.php
    · rw [hgraph]; exact hv.matched
    · exact Nat.le_of_eq hhi
    · rw [hlo]; exact ⟨by omega, by omega, rfl⟩
    · rw [hhi]
      exact ⟨by omega, by omega, by rw [hgraph]; exact height_size_cut hpair⟩

theorem Part.tokens_within (hv : v.Balanced) (h : Part v w) : w.tokens <:+: v.tokens := by
  cases h with
  | span scope hlo hhi =>
    rw [tokens_eq_window, tokens_eq_window]
    exact window_within hlo.lo_le hhi.le_hi
  | block hp hlt h =>
    obtain ⟨c, hc, hgraph, hlo, hhi, _⟩ := block_ok h
    have hle := hv.closer_lt hlt (hv.pair_of_closedBy hc)
    have hwhole : w.tokens = w.graph.tokens := by
      rw [tokens_eq_window, hlo, hhi, window, List.drop_zero, ← length_tokens, List.take_length]
    rw [hwhole, hgraph, tokens_cut, tokens_eq_window]
    exact window_within (by have := hp.lo_le; omega) (Nat.le_of_lt hle)

end View

end PhpOutline
