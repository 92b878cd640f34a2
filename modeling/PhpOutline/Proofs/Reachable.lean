import PhpOutline.Proofs.Enumerations
import PhpOutline.Proofs.ListFacts
import PhpOutline.Proofs.TokenPlacement

/-!
# Views that can be reached

From the view of a whole graph the enumerations lead to views of namespaces, types, members and
values, and from those on. All of them are balanced, since each is a part of the one before. So the
brackets of a view are matched inside of it, and its tokens are a piece of the tokens of every view
that it came from.
-/

namespace PhpOutline

namespace View

open PhpOutline.Graph

/-- The views of what the enumerations of a view list. -/
inductive Lists (v : View) : View → Prop
  | namespaces (copy : Nat) {i : Item} (h : i ∈ (v.namespaces copy).items) : Lists v i.view
  | types (copy : Nat) {i : Item} (h : i ∈ (v.types copy).items) : Lists v i.view
  | functions (copy : Nat) {i : Item} (h : i ∈ (v.functions copy).items) : Lists v i.view
  | properties {l : Listing Item} {i : Item} (hl : v.properties = .ok l) (h : i ∈ l.items) :
      Lists v i.view
  | constants {i : Item} (h : i ∈ v.constants.items) : Lists v i.view

inductive Reaches (root : View) : View → Prop
  | refl : Reaches root root
  | step {v w : View} (hv : Reaches root v) (hw : v.Lists w) : Reaches root w

variable {f : Flags} {g : Graph} {root v w : View} {i o : Nat} {n : Node}

/-! ## From the root on -/

theorem ofGraph_ok (h : ofGraph g = .ok root) :
    g.flags.matchBrackets = true ∧ g.checkBalanced = .ok () ∧
      root = ⟨⟨g, .source, 0, g.size, none, {}⟩, []⟩ := by
  unfold ofGraph at h
  split at h
  · rename_i hf
    split at h
    · cases h
    · rename_i hb
      cases h
      exact ⟨hf, hb, rfl⟩
  · cases h

theorem balanced_of_ofGraph (hg : Built .php f g) (h : ofGraph g = .ok root) : root.Balanced := by
  obtain ⟨hf, hb, rfl⟩ := ofGraph_ok h
  have hlevel := (hg.linked.all_closed_iff hf).mp (checkBalanced_ok_iff.mp hb)
  exact ⟨hg.linked, hg.builder_eq.1, hf, Nat.le_refl _, ⟨Nat.le_refl _, Nat.zero_le _, rfl⟩,
    ⟨Nat.zero_le _, Nat.le_refl _, hlevel⟩⟩

theorem ofSource_ok {s : String} (h : ofSource s f = .ok root) :
    ∃ ts g, tokenize s = .ok ts ∧ link .php f ts = .ok g ∧ ofGraph g = .ok root := by
  obtain ⟨ts, hts, h⟩ := of_bind_ok h
  obtain ⟨g, hg, h⟩ := of_bind_ok h
  refine ⟨ts, g, ?_, ?_, h⟩
  · cases ht : tokenize s with
    | error e => rw [ht] at hts; cases hts
    | ok us => rw [ht] at hts; cases hts; rfl
  · cases hl : link .php f ts with
    | error e => rw [hl] at hg; cases hg
    | ok g' => rw [hl] at hg; cases hg; rfl

theorem Lists.part (hv : v.Balanced) (h : v.Lists w) : v.Part w := by
  cases h with
  | namespaces copy h => exact hv.namespaces_parts _ h
  | types copy h => exact hv.types_parts _ h
  | functions copy h => exact hv.functions_parts _ h
  | properties hl h => exact hv.properties_parts hl _ h
  | constants h => exact hv.constants_parts _ h

namespace Reaches

theorem balanced (hr : root.Balanced) (h : root.Reaches v) : v.Balanced := by
  induction h with
  | refl => exact hr
  | step _ hw ih => exact (hw.part ih).balanced ih

theorem tokens_within (hr : root.Balanced) (h : root.Reaches v) : v.tokens <:+: root.tokens := by
  induction h with
  | refl => exact List.infix_rfl
  | step hv hw ih =>
    have hb := hv.balanced hr
    exact ((hw.part hb).tokens_within hb).trans ih

theorem eq_root_or_part (hr : root.Balanced) (h : root.Reaches v) :
    v = root ∨ ∃ p : View, p.Balanced ∧ p.Part v := by
  cases h with
  | refl => exact .inl rfl
  | step hv hw =>
    have hb := hv.balanced hr
    exact .inr ⟨_, hb, hw.part hb⟩

end Reaches

/-! ## Brackets of a balanced view -/

theorem php_closes {k : Kind} (h : Taxonomy.php.isCloser k = true) :
    Taxonomy.php.closes k = true := by
  cases k <;> first | rfl | cases h

namespace Balanced

theorem closedBy_of_opener (hv : v.Balanced) (hlo : v.lo ≤ i) (hhi : i < v.hi)
    (hn : v.graph.nodes[i]? = some n) (ho : v.graph.taxonomy.isOpener n.kind = true) :
    ∃ c, n.closedBy = some c ∧ v.lo ≤ c ∧ c < v.hi := by
  have hopens := (hv.linked.roles_opens_iff hv.matched hn).mpr ho
  obtain ⟨c, hc, hpair⟩ := hv.exists_closer hopens hhi
  have := hpair.lt
  exact ⟨c, (hv.linked.closedBy_eq_some hn).mpr hpair, by omega, hc⟩

theorem closedBy_eq_none_iff {p : v.Pos} (hv : v.Balanced) (hp : p < v.hi) :
    (v.node p).closedBy = none ↔ Taxonomy.php.isOpener (v.kind p) = false := by
  have hiff := hv.linked.roles_opens_iff hv.matched (getElem?_pos p)
  rw [hv.php] at hiff
  constructor
  · intro hnone
    rw [Bool.eq_false_iff]
    intro hopener
    obtain ⟨c, _, hpair⟩ := hv.exists_closer (hiff.mpr hopener) hp
    rw [(hv.linked.closedBy_eq_some (getElem?_pos p)).mpr hpair] at hnone
    cases hnone
  · intro hopener
    rw [Option.eq_none_iff_forall_ne_some]
    intro c hc
    have := hiff.mp (hv.pair_of_closedBy hc).openAt.opens
    rw [show (v.node p).kind = v.kind p from rfl, hopener] at this
    cases this

/-- A search finds a token, or it goes over a bracket pair or over a token that is no bracket, or it
stops at a closing bracket or at the end of the view. What holds by these rules holds of every
search. -/
theorem sibling?_rec {set : KindSet} {motive : Nat → Option v.Pos → Prop} (hv : v.Balanced)
    (found : ∀ p : v.Pos, p < v.hi → set.contains (v.kind p) = true → motive p (some p))
    (pair : ∀ (p : v.Pos) (c : Nat) (r : Option v.Pos), p < v.hi →
      ¬ set.contains (v.kind p) = true → Taxonomy.php.isOpener (v.kind p) = true →
        (v.node p).closedBy = some c → motive (c + 1) r → motive p r)
    (closer : ∀ p : v.Pos, p < v.hi → ¬ set.contains (v.kind p) = true →
      ¬ Taxonomy.php.isOpener (v.kind p) = true → Taxonomy.php.isCloser (v.kind p) = true →
        motive p none)
    (plain : ∀ (p : v.Pos) (r : Option v.Pos), p < v.hi → ¬ set.contains (v.kind p) = true →
      ¬ Taxonomy.php.isOpener (v.kind p) = true → ¬ Taxonomy.php.isCloser (v.kind p) = true →
      motive (p + 1) r → motive p r)
    (stop : ∀ i, v.hi ≤ i → motive i none) (i : Nat) : motive i (v.sibling? set i) := by
  have hsize := hv.hi_le
  simp only [Graph.size] at hsize
  fun_induction sibling? v set i with
  | case1 i hlt hnone =>
    rw [pos?, dif_pos (by omega)] at hnone
    cases hnone
  | case2 i hlt p hp hset =>
    obtain rfl := val_of_pos? hp
    exact found p hlt hset
  | case3 i hlt p hp hset hopen c hc _ ih =>
    obtain rfl := val_of_pos? hp
    rw [hv.php] at hopen
    exact pair p c _ hlt hset hopen hc ih
  | case4 i hlt p hp hset hopen c hc hge =>
    obtain rfl := val_of_pos? hp
    exact absurd (hv.pair_of_closedBy hc).lt hge
  | case5 i hlt p hp hset hopen hc =>
    obtain rfl := val_of_pos? hp
    rw [hv.php, (hv.closedBy_eq_none_iff hlt).mp hc] at hopen
    cases hopen
  | case6 i hlt p hp hset hopen hclose =>
    obtain rfl := val_of_pos? hp
    rw [hv.php] at hopen hclose
    exact closer p hlt hset hopen hclose
  | case7 i hlt p hp hset hopen hclose ih =>
    obtain rfl := val_of_pos? hp
    rw [hv.php] at hopen hclose
    exact plain p _ hlt hset hopen hclose ih
  | case8 i hge => exact stop i (Nat.not_lt.mp hge)

theorem openedBy_of_closer (hv : v.Balanced) (hlo : v.lo ≤ i) (hhi : i < v.hi)
    (hn : v.graph.nodes[i]? = some n) (hc : v.graph.taxonomy.isCloser n.kind = true) :
    ∃ o, n.openedBy = some o ∧ v.lo ≤ o ∧ o < v.hi := by
  have hcloses : v.graph.roles i = .closes := by
    rw [hv.php] at hc
    rw [hv.linked.roles_closes_iff hv.matched hn, hv.php]
    exact php_closes hc
  obtain ⟨o, hpair⟩ := exists_pair_of_closes hcloses fun j _ => hv.nonneg j
  have := hpair.lt
  exact ⟨o, (hv.linked.openedBy_eq_some hn).mpr hpair, hv.le_opener hlo hpair.openAt, by omega⟩

theorem parent_mem (hv : v.Balanced) (hlo : v.lo ≤ i) (hhi : i < v.hi)
    (hn : v.graph.nodes[i]? = some n) (h : n.parent = some o) : v.lo ≤ o ∧ o < v.hi := by
  have hin := (hv.linked.parent_eq_some hn).mp h
  have := hin.lt
  exact ⟨hv.le_opener (by omega) hin.openAt, by omega⟩

/-- A token has no bracket around it if and only if every bracket of the view that stands before it
is closed before it or by it. -/
theorem parent_eq_none_iff (hv : v.Balanced) (hlo : v.lo ≤ i) (hhi : i < v.hi)
    (hn : v.graph.nodes[i]? = some n) :
    n.parent = none ↔ ∀ (o c : Nat) (m : Node), v.lo ≤ o → o < i → v.graph.nodes[o]? = some m →
      m.closedBy = some c → c ≤ i := by
  constructor
  · intro hnone o c m _ hoi hm hc
    have hpair := (hv.linked.closedBy_eq_some hm).mp hc
    rcases Nat.lt_or_ge i c with hic | hci
    · obtain ⟨p, hp⟩ := exists_innermost (hpair.openAt.of_le (Nat.lt_succ_of_lt hoi) hic) hoi
      rw [← hv.linked.parent_eq_some hn, hnone] at hp
      cases hp
    · exact hci
  · intro h
    cases ho : n.parent with
    | none => rfl
    | some o =>
      have hin := (hv.linked.parent_eq_some hn).mp ho
      obtain ⟨hlo', hhi'⟩ := hv.parent_mem hlo hhi hn ho
      obtain ⟨m, hm⟩ := exists_node (g := v.graph) (i := o) (by rw [hin.openAt.opens]; simp)
      obtain ⟨c, _, hpair⟩ := hv.exists_closer hin.openAt.opens hhi'
      -- the innermost bracket is closed inside the view, but only behind the token
      have hle := h o c m hlo' hin.lt hm ((hv.linked.closedBy_eq_some hm).mpr hpair)
      have hlt := hpair.le_of_openAt hin.openAt
      omega

end Balanced

/-! ## Reachable views -/

theorem Reaches.text_eq_slice {s : String} {first last : Node} (hs : ofSource s = .ok root)
    (hr : root.Balanced) (h : root.Reaches v) (hf : v.nodes.head? = some first)
    (hl : v.nodes.getLast? = some last) :
    v.text.toByteArray = s.toByteArray.extract first.offset last.endOffset := by
  obtain ⟨ts, g, hts, hlink, hg⟩ := ofSource_ok hs
  obtain ⟨before, after, hpiece⟩ := h.tokens_within hr
  obtain ⟨_, _, rfl⟩ := ofGraph_ok hg
  -- the default flags drop no trivia, so the root holds every token of the source
  have hroot : View.tokens ⟨⟨g, .source, 0, g.size, none, {}⟩, []⟩ = ts := by
    rw [tokens_eq_window, window, List.drop_zero, ← length_tokens, List.take_length]
    exact (link_tokens_eq hlink).2.2
  rw [hroot] at hpiece
  rw [← hpiece] at hts
  have hslice := tokenize_slice hts (by rw [tokens, List.head?_map, hf]; rfl)
    (by rw [tokens, List.getLast?_map, hl]; rfl)
  rw [tokens, List.map_map] at hslice
  exact hslice

/-- Every view that can be reached from the view of a whole graph lies inside its graph. Its
brackets have their partners in it, the bracket around a token is in it too, and a token has none
around it if and only if no bracket pair of the view holds it. Its tokens are a piece of those of
the view that it was taken from, and in a source its text is what stands there from its first token
to its last. -/
theorem reachable_view_closed (hg : Built .php f g) (hroot : ofGraph g = .ok root)
    (hv : root.Reaches v) :
    v.lo ≤ v.hi ∧ v.hi ≤ v.graph.size ∧
    (∀ (i : Nat) (n : Node), v.lo ≤ i → i < v.hi → v.graph.nodes[i]? = some n →
      (v.graph.taxonomy.isOpener n.kind = true → ∃ c, n.closedBy = some c ∧ v.lo ≤ c ∧ c < v.hi) ∧
      (v.graph.taxonomy.isCloser n.kind = true → ∃ o, n.openedBy = some o ∧ v.lo ≤ o ∧ o < v.hi) ∧
      (∀ o, n.parent = some o → v.lo ≤ o ∧ o < v.hi) ∧
      (n.parent = none ↔ ∀ (o c : Nat) (m : Node), v.lo ≤ o → o < i → v.graph.nodes[o]? = some m →
        m.closedBy = some c → c ≤ i)) ∧
    (∀ p, v.parent? = some p → v.tokens <:+: p.tokens) ∧ (v.parent? = none → v = root) ∧
    ∀ (s : String) (first last : Node), ofSource s = .ok root → v.nodes.head? = some first →
      v.nodes.getLast? = some last →
      v.text.toByteArray = s.toByteArray.extract first.offset last.endOffset := by
  have hr := balanced_of_ofGraph hg hroot
  have hb := hv.balanced hr
  refine ⟨hb.lo.le_hi, hb.hi_le, fun i n hlo hhi hn => ?_, fun p hp => ?_, fun hp => ?_,
    fun s first last hs hf hl => hv.text_eq_slice hs hr hf hl⟩
  · exact ⟨hb.closedBy_of_opener hlo hhi hn, hb.openedBy_of_closer hlo hhi hn,
      fun o ho => hb.parent_mem hlo hhi hn ho, hb.parent_eq_none_iff hlo hhi hn⟩
  · rcases hv.eq_root_or_part hr with rfl | ⟨q, hq, hpart⟩
    · obtain ⟨_, _, rfl⟩ := ofGraph_ok hroot
      cases hp
    · rw [hpart.parent?_eq] at hp
      cases hp
      exact hpart.tokens_within hq
  · rcases hv.eq_root_or_part hr with heq | ⟨q, _, hpart⟩
    · exact heq
    · rw [hpart.parent?_eq] at hp
      cases hp

theorem reachable_view_closed_sample :
    ∃ (g : Graph) (root v : View), Built .php {} g ∧ ofGraph g = .ok root ∧ root.Reaches v ∧
      ofSource "<?php function f()\x7b[1];\x7d" = .ok root ∧
      v.text.toByteArray = "<?php function f()\x7b[1];\x7d".toByteArray.extract 19 23 ∧
      (∃ p, v.parent? = some p ∧ p.hi = 12 ∧ v.tokens <:+: p.tokens) ∧
      ∃ n c, v.graph.nodes[0]? = some n ∧ n.kind = .openBracket ∧ n.closedBy = some c ∧
      c < v.hi := by
  have h : ((ofSource "<?php function f()\x7b[1];\x7d").toOption.bind fun root =>
      root.namespaces.items.head?.bind fun a =>
      (a.view.sibling? (.ofList [.functionKw]) a.view.lo).bind fun q =>
      (a.view.readFunction 0 q).items.head?.map fun m =>
        (m.view.lo, m.view.hi, m.view.parent?.map (·.hi), m.view.nodes.head?.map (·.offset),
          m.view.nodes.getLast?.map (·.endOffset), m.view.graph.nodes[0]?.map (·.kind))) =
      some (0, 4, some 12, some 19, some 23, some .openBracket) := by
    cbv
  simp only [Option.bind_eq_some_iff, Option.map_eq_some_iff, Prod.mk.injEq] at h
  obtain ⟨root, hroot, a, ha, q, hq, m, hm, hlo, hhi, ⟨p, hp, hphi⟩, ⟨first, hf, ho⟩,
    ⟨last, hl, he⟩, n, hn, hk⟩ := h
  have hsource : ofSource "<?php function f()\x7b[1];\x7d" = .ok root := ok_of_toOption hroot
  obtain ⟨ts, g, _, hlink, hg⟩ := ofSource_ok hsource
  have hreach : root.Reaches m.view :=
    .step (.step .refl (.namespaces 0 (List.mem_of_mem_head? ha)))
      (.functions 0 (mem_scan hq (List.mem_of_mem_head? hm)))
  obtain ⟨_, _, hbrackets, hpiece, _, htext⟩ := reachable_view_closed (.link hlink) hg hreach
  obtain ⟨c, hc, _, hlt⟩ := (hbrackets 0 n (by omega) (by omega) hn).1 (by
    rw [(hreach.balanced (balanced_of_ofGraph (.link hlink) hg)).php, hk]; rfl)
  refine ⟨g, root, m.view, .link hlink, hg, hreach, hsource, ?_, ⟨p, hp, hphi, hpiece p hp⟩,
    n, c, hn, hk, hc, hlt⟩
  rw [← ho, ← he]
  exact htext _ first last hsource hf hl

end View

end PhpOutline
