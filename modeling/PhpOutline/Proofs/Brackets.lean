import PhpOutline.Proofs.Linked

/-!
# Brackets by counting

How brackets are linked, said without a stack: a bracket is closed where closing brackets first
outnumber the opening ones behind it, linking fails where they first outnumber all opening ones,
and a graph is balanced if there are as many of the one as of the other.
-/

namespace PhpOutline

/-- A kind that closes. One that also opens counts as opening only. -/
def Taxonomy.closes (x : Taxonomy) (k : Kind) : Bool := x.isCloser k && !x.isOpener k

namespace Graph

def openers (x : Taxonomy) (ts : List Token) (a b : Nat) : Nat :=
  ((ts.take b).drop a).countP (x.isOpener ·.kind)

def closers (x : Taxonomy) (ts : List Token) (a b : Nat) : Nat :=
  ((ts.take b).drop a).countP (x.closes ·.kind)

/-- The first position at which the closing brackets from `a` on outnumber the opening ones. -/
structure FirstExcess (x : Taxonomy) (ts : List Token) (a c : Nat) : Prop where
  le : a ≤ c
  excess : openers x ts a (c + 1) < closers x ts a (c + 1)
  least : ∀ j, a ≤ j → j < c → closers x ts a (j + 1) ≤ openers x ts a (j + 1)

/-- The node at `o` is an opening bracket before `i` that is not closed up to and with `i`. -/
structure Unclosed (g : Graph) (i o : Nat) : Prop where
  lt : o < i
  opener : ∃ n, g.nodes[o]? = some n ∧ g.taxonomy.isOpener n.kind = true ∧
    ∀ c, n.closedBy = some c → i < c

/-! ## Counting and heights -/

section

variable {x : Taxonomy} {f : Flags} {ts : List Token} {a b c o i : Nat} {k : Kind}

theorem role_eq_opens (hf : f.matchBrackets = true) :
    role x f k = .opens ↔ x.isOpener k = true := by
  unfold role
  rw [hf]
  cases x.isOpener k <;> cases x.isCloser k <;> simp

theorem role_eq_closes (hf : f.matchBrackets = true) :
    role x f k = .closes ↔ x.closes k = true := by
  unfold role Taxonomy.closes
  rw [hf]
  cases x.isOpener k <;> cases x.isCloser k <;> simp

theorem rise_role (hf : f.matchBrackets = true) :
    (role x f k).rise = (if x.isOpener k then 1 else 0) - (if x.closes k then 1 else 0) := by
  unfold role Taxonomy.closes
  rw [hf]
  cases x.isOpener k <;> cases x.isCloser k <;> simp [Role.rise]

theorem countP_window_succ (p : Token → Bool) (hab : a ≤ b) :
    ((ts.take (b + 1)).drop a).countP p =
      ((ts.take b).drop a).countP p + ts[b]?.toList.countP p := by
  rw [List.take_add_one]
  cases hb : ts[b]? with
  | none => simp
  | some t =>
    have := (List.getElem?_eq_some_iff.mp hb).1
    rw [List.drop_append_of_le_length (by rw [List.length_take]; omega), List.countP_append]

theorem height_add_openers (x : Taxonomy) (ts : List Token) (hf : f.matchBrackets = true)
    (hab : a ≤ b) :
    height (roleAt x f ts) a + openers x ts a b = height (roleAt x f ts) b + closers x ts a b := by
  induction b with
  | zero =>
    obtain rfl : a = 0 := by omega
    simp [openers, closers]
  | succ b ih =>
    rcases Nat.lt_or_ge b a with hba | hba
    · obtain rfl : a = b + 1 := by omega
      simp [openers, closers]
    · have ih := ih hba
      unfold openers closers at ih ⊢
      rw [countP_window_succ _ hba, countP_window_succ _ hba, height_succ, roleAt]
      cases hb : ts[b]? with
      | none => simpa [Role.rise] using ih
      | some t =>
        simp only [Option.toList_some, List.countP_singleton, rise_role hf]
        split <;> split <;> omega

theorem firstExcess_iff (hf : f.matchBrackets = true) :
    FirstExcess x ts a c ↔ a ≤ c ∧ height (roleAt x f ts) (c + 1) < height (roleAt x f ts) a ∧
      ∀ j, a ≤ j → j < c → height (roleAt x f ts) a ≤ height (roleAt x f ts) (j + 1) := by
  have hcount : ∀ j, a ≤ j → height (roleAt x f ts) a + openers x ts a (j + 1) =
      height (roleAt x f ts) (j + 1) + closers x ts a (j + 1) :=
    fun j hj => height_add_openers x ts hf (by omega)
  constructor
  · rintro ⟨hle, hex, hleast⟩
    refine ⟨hle, by have := hcount c hle; omega, fun j haj hjc => ?_⟩
    have := hcount j haj
    have := hleast j haj hjc
    omega
  · rintro ⟨hle, hex, hleast⟩
    refine ⟨hle, by have := hcount c hle; omega, fun j haj hjc => ?_⟩
    have := hcount j haj
    have := hleast j haj hjc
    omega

theorem FirstExcess.unique (h : FirstExcess x ts a c) (h' : FirstExcess x ts a b) : c = b := by
  rcases Nat.lt_trichotomy c b with hlt | heq | hgt
  · have := h'.least c h.le hlt; have := h.excess; omega
  · exact heq
  · have := h.least b h'.le hgt; have := h'.excess; omega

theorem pair_iff_firstExcess (hf : f.matchBrackets = true) :
    Pair (roleAt x f ts) o c ↔ roleAt x f ts o = .opens ∧ FirstExcess x ts (o + 1) c := by
  rw [firstExcess_iff hf]
  constructor
  · intro h
    have hh := height_opens h.openAt.opens
    have he := h.height_eq
    refine ⟨h.openAt.opens, h.lt, by omega, fun j hoj hjc => ?_⟩
    have := h.openAt.above (j + 1) (by omega) (by omega)
    omega
  · rintro ⟨ho, hle, hex, hleast⟩
    have hh := height_opens ho
    -- up to `c` the height stays above the bracket's, and `c` takes it down by no more than one
    have habove : ∀ j, o < j → j ≤ c → height (roleAt x f ts) o < height (roleAt x f ts) j := by
      intro j hoj hjc
      rcases Nat.eq_or_lt_of_le (show o + 1 ≤ j from hoj) with rfl | hlt
      · omega
      · have := hleast (j - 1) (by omega) (by omega)
        rw [show j - 1 + 1 = j by omega] at this
        omega
    have hc := habove c hle (Nat.le_refl c)
    have hcl := height_closes (closes_of_height_lt (r := roleAt x f ts) (i := c) (by omega))
    exact ⟨⟨ho, hle, habove⟩, by omega⟩

/-! ## Failure -/

theorem link_error_iff (hf : f.matchBrackets = true) {e : LexError} :
    link x f ts = .error e ↔ ∃ c t, FirstExcess x (kept x f ts) 0 c ∧ (kept x f ts)[c]? = some t ∧
      e = .unmatchedCloser t.text t.line := by
  have found : ∀ e, link x f ts = .error e → ∃ c t, FirstExcess x (kept x f ts) 0 c ∧
      (kept x f ts)[c]? = some t ∧ e = .unmatchedCloser t.text t.line := by
    intro e h
    obtain ⟨c, t, ht, he, hneg, hnn⟩ := link_error h
    refine ⟨c, t, (firstExcess_iff hf).mpr ⟨Nat.zero_le c, by simpa using hneg, fun j _ hj => ?_⟩,
      ht, he⟩
    simpa using hnn (j + 1) hj
  refine ⟨found e, fun ⟨c, t, hc, ht, he⟩ => ?_⟩
  cases hl : link x f ts with
  | ok g =>
    have hnn := (link_linked hl).nonneg (c + 1)
    rw [roles_of_link hl] at hnn
    have := ((firstExcess_iff hf).mp hc).2.1
    simp only [height_zero] at this
    omega
  | error e' =>
    obtain ⟨c', t', hc', ht', he'⟩ := found e' hl
    rw [← hc.unique hc', ht] at ht'
    cases ht'
    rw [he, he']

theorem exists_link_error_iff (hf : f.matchBrackets = true) :
    (∃ e, link x f ts = .error e) ↔
      ∃ k, openers x (kept x f ts) 0 k < closers x (kept x f ts) 0 k := by
  constructor
  · rintro ⟨e, h⟩
    obtain ⟨c, _, hc, _, _⟩ := (link_error_iff hf).mp h
    exact ⟨c + 1, hc.excess⟩
  · rintro ⟨k, hk⟩
    cases hl : link x f ts with
    | error e => exact ⟨e, rfl⟩
    | ok g =>
      have hnn := (link_linked hl).nonneg k
      rw [roles_of_link hl] at hnn
      have := height_add_openers x (kept x f ts) hf (Nat.zero_le k)
      simp only [height_zero] at this
      omega

end

/-! ## Links -/

section

variable {g : Graph} {i o c : Nat} {n : Node}

theorem Linked.role_of_getElem? (hg : g.Linked) (hn : g.nodes[i]? = some n) :
    g.roles i = role g.taxonomy g.flags n.kind :=
  roleAt_of_getElem? (hg.nodes i n hn).token

theorem Linked.roles_opens_iff (hg : g.Linked) (hf : g.flags.matchBrackets = true)
    (hn : g.nodes[i]? = some n) : g.roles i = .opens ↔ g.taxonomy.isOpener n.kind = true := by
  rw [hg.role_of_getElem? hn, role_eq_opens hf]

theorem Linked.roles_closes_iff (hg : g.Linked) (hf : g.flags.matchBrackets = true)
    (hn : g.nodes[i]? = some n) : g.roles i = .closes ↔ g.taxonomy.closes n.kind = true := by
  rw [hg.role_of_getElem? hn, role_eq_closes hf]

theorem exists_node (h : g.roles i ≠ .plain) : ∃ n, g.nodes[i]? = some n := by
  have hi := lt_of_roleAt_ne_plain h
  rw [length_tokens] at hi
  exact ⟨g.nodes[i], Array.getElem?_eq_getElem hi⟩

theorem Linked.closedBy_iff (hg : g.Linked) (hf : g.flags.matchBrackets = true)
    (hn : g.nodes[i]? = some n) :
    n.closedBy = some c ↔
      g.taxonomy.isOpener n.kind = true ∧ FirstExcess g.taxonomy g.tokens (i + 1) c := by
  rw [hg.closedBy_eq_some hn, pair_iff_firstExcess hf, ← hg.roles_opens_iff hf hn]

theorem Linked.openedBy_iff (hg : g.Linked) (hn : g.nodes[i]? = some n) :
    n.openedBy = some o ↔ ∃ m, g.nodes[o]? = some m ∧ m.closedBy = some i := by
  rw [hg.openedBy_eq_some hn]
  constructor
  · intro h
    obtain ⟨m, hm⟩ := exists_node (g := g) (i := o) (by rw [h.openAt.opens]; simp)
    exact ⟨m, hm, (hg.closedBy_eq_some hm).mpr h⟩
  · rintro ⟨m, hm, hc⟩
    exact (hg.closedBy_eq_some hm).mp hc

theorem Linked.unclosed_iff (hg : g.Linked) (hf : g.flags.matchBrackets = true) (hlt : o < i) :
    Unclosed g i o ↔ OpenAt g.roles (i + 1) o := by
  constructor
  · rintro ⟨_, m, hm, hop, hcl⟩
    have hr := (hg.roles_opens_iff hf hm).mpr hop
    rcases openAt_or_pair hr (show o < i + 1 by omega) with h | ⟨c, hc, hp⟩
    · exact h
    · have := hcl c ((hg.closedBy_eq_some hm).mpr hp); omega
  · intro h
    obtain ⟨m, hm⟩ := exists_node (g := g) (i := o) (by rw [h.opens]; simp)
    refine ⟨hlt, m, hm, ?_, fun c hc => ?_⟩
    · exact (hg.roles_opens_iff hf hm).mp h.opens
    · exact Pair.le_of_openAt ((hg.closedBy_eq_some hm).mp hc) h

theorem Linked.parent_iff (hg : g.Linked) (hf : g.flags.matchBrackets = true)
    (hn : g.nodes[i]? = some n) :
    n.parent = some o ↔ Unclosed g i o ∧ ∀ p, Unclosed g i p → p ≤ o := by
  rw [hg.parent_eq_some hn]
  constructor
  · intro h
    refine ⟨(hg.unclosed_iff hf h.lt).mpr h.openAt, fun p hp => ?_⟩
    exact h.greatest p hp.lt ((hg.unclosed_iff hf hp.lt).mp hp)
  · rintro ⟨h, hmax⟩
    refine ⟨h.lt, (hg.unclosed_iff hf h.lt).mp h, fun p hpi hp => ?_⟩
    exact hmax p ((hg.unclosed_iff hf hpi).mpr hp)

/-! ## Balance -/

theorem Linked.all_closed_iff (hg : g.Linked) (hf : g.flags.matchBrackets = true) :
    (∀ (i : Nat) (n : Node), g.nodes[i]? = some n → g.taxonomy.isOpener n.kind = true →
      n.closedBy ≠ none) ↔ height g.roles g.size = 0 := by
  constructor
  · intro h
    have hlen := length_openStack fun j (_ : j ≤ g.size) => hg.nonneg j
    cases hs : openStack g.roles g.size with
    | nil => rw [← hlen, hs]; rfl
    | cons o rest =>
      -- a bracket that is open at the end would have to be closed past it
      have ho : OpenAt g.roles g.size o :=
        mem_openStack.mp (by rw [hs]; exact List.mem_cons_self ..)
      obtain ⟨m, hm⟩ := exists_node (g := g) (i := o) (by rw [ho.opens]; simp)
      have hop := (hg.roles_opens_iff hf hm).mp ho.opens
      obtain ⟨c, hc⟩ := Option.ne_none_iff_exists'.mp (h o m hm hop)
      have hp := (hg.closedBy_eq_some hm).mp hc
      have := hp.le_of_openAt ho
      have := hp.closer_lt
      rw [length_tokens] at this
      omega
  · intro h i n hn hop hnone
    have hr := (hg.roles_opens_iff hf hn).mpr hop
    have hi : i < g.size := (Array.getElem?_eq_some_iff.mp hn).1
    obtain ⟨c, _, hp⟩ := exists_pair_of_height_le hr hi (by rw [h]; exact hg.nonneg i)
    rw [(hg.closedBy_eq_some hn).mpr hp] at hnone
    cases hnone

theorem checkBalanced_ok_iff : g.checkBalanced = .ok () ↔
    ∀ (i : Nat) (n : Node), g.nodes[i]? = some n → g.taxonomy.isOpener n.kind = true →
      n.closedBy ≠ none := by
  unfold checkBalanced
  split
  · rename_i n hn
    obtain ⟨hp, i, hi, hget, _⟩ := List.find?_eq_some_iff_getElem.mp hn
    rw [Bool.and_eq_true, Option.isNone_iff_eq_none] at hp
    refine ⟨(fun h => by cases h), fun h => absurd hp.2 (h i n ?_ hp.1)⟩
    rw [← hget, ← Array.getElem?_toList, List.getElem?_eq_getElem hi]
  · rename_i hnone
    refine ⟨fun _ i n hn hop hcl => ?_, fun _ => rfl⟩
    have hmem : n ∈ g.nodes.toList := by
      rw [Array.mem_toList_iff]; exact Array.mem_of_getElem? hn
    have := List.find?_eq_none.mp hnone n hmem
    simp [hop, hcl] at this

theorem checkBalanced_error {e : LexError} (h : g.checkBalanced = .error e) :
    ∃ (o : Nat) (n : Node), g.nodes[o]? = some n ∧ g.taxonomy.isOpener n.kind = true ∧
      n.closedBy = none ∧ e = .unclosedBracket n.text n.line ∧
      ∀ (p : Nat) (m : Node), p < o → g.nodes[p]? = some m → g.taxonomy.isOpener m.kind = true →
        m.closedBy ≠ none := by
  unfold checkBalanced at h
  split at h
  · rename_i n hn
    obtain ⟨hp, i, hi, hget, hbefore⟩ := List.find?_eq_some_iff_getElem.mp hn
    rw [Bool.and_eq_true, Option.isNone_iff_eq_none] at hp
    cases h
    refine ⟨i, n, ?_, hp.1, hp.2, rfl, fun p m hpi hm hop hcl => ?_⟩
    · rw [← hget, ← Array.getElem?_toList, List.getElem?_eq_getElem hi]
    · have := hbefore p hpi
      rw [← Array.getElem?_toList] at hm
      rw [(List.getElem?_eq_some_iff.mp hm).2, hop, hcl] at this
      simp at this
  · cases h

theorem Linked.checkBalanced_iff (hg : g.Linked) (hf : g.flags.matchBrackets = true) :
    g.checkBalanced = .ok () ↔
      g.tokens.countP (g.taxonomy.isOpener ·.kind) =
        g.tokens.countP (g.taxonomy.closes ·.kind) := by
  have hcount := height_add_openers g.taxonomy g.tokens hf (Nat.zero_le g.size)
  rw [height_zero, openers, closers, ← length_tokens, List.take_length, List.drop_zero] at hcount
  rw [checkBalanced_ok_iff, hg.all_closed_iff hf, roles, ← length_tokens]
  omega

end

/-- Linking with matched brackets, by counting. It fails if and only if some start of the tokens has
more closing than opening brackets, and names the first closing bracket that is one too many.
Otherwise a bracket is closed where the closing brackets behind it first outnumber the opening
ones, every token lies in the last bracket before it that is not closed up to the token, and the
graph is balanced if and only if it has as many opening as closing brackets. -/
theorem link_matches_brackets (x : Taxonomy) (f : Flags) (ts : List Token)
    (hf : f.matchBrackets = true) :
    ((∃ text line, link x f ts = .error (.unmatchedCloser text line)) ↔
      ∃ k, openers x (kept x f ts) 0 k < closers x (kept x f ts) 0 k) ∧
    (∀ e, link x f ts = .error e → ∃ c t, FirstExcess x (kept x f ts) 0 c ∧
      (kept x f ts)[c]? = some t ∧ x.closes t.kind = true ∧ e = .unmatchedCloser t.text t.line) ∧
    (∀ g, link x f ts = .ok g → g.tokens = kept x f ts ∧
      (∀ (i : Nat) (n : Node), g.nodes[i]? = some n →
        (∀ c, n.closedBy = some c ↔ x.isOpener n.kind = true ∧ FirstExcess x g.tokens (i + 1) c) ∧
        (∀ o, n.openedBy = some o ↔ ∃ m, g.nodes[o]? = some m ∧ m.closedBy = some i) ∧
        (∀ o, n.parent = some o ↔ Unclosed g i o ∧ ∀ p, Unclosed g i p → p ≤ o)) ∧
      (g.checkBalanced = .ok () ↔
        g.tokens.countP (x.isOpener ·.kind) = g.tokens.countP (x.closes ·.kind)) ∧
      (∀ e, g.checkBalanced = .error e →
        ∃ (o : Nat) (n : Node), g.nodes[o]? = some n ∧ x.isOpener n.kind = true ∧
        n.closedBy = none ∧ e = .unclosedBracket n.text n.line ∧
        ∀ (p : Nat) (m : Node), p < o → g.nodes[p]? = some m → x.isOpener m.kind = true →
          m.closedBy ≠ none)) := by
  refine ⟨?_, fun e he => ?_, fun g hl => ?_⟩
  · rw [← exists_link_error_iff hf]
    constructor
    · exact fun ⟨text, line, h⟩ => ⟨_, h⟩
    · rintro ⟨e, h⟩
      obtain ⟨_, t, _, _, rfl⟩ := (link_error_iff hf).mp h
      exact ⟨_, _, h⟩
  · obtain ⟨c, t, hc, ht, he⟩ := (link_error_iff hf).mp he
    refine ⟨c, t, hc, ht, ?_, he⟩
    obtain ⟨_, hex, hleast⟩ := (firstExcess_iff hf).mp hc
    have hcl : roleAt x f (kept x f ts) c = .closes := by
      apply closes_of_height_lt
      cases c with
      | zero => exact hex
      | succ c => have := hleast c (Nat.zero_le c) (by omega); omega
    rwa [roleAt_of_getElem? ht, role_eq_closes hf] at hcl
  · have hg := link_linked hl
    obtain ⟨rfl, rfl, htoks⟩ := link_tokens_eq hl
    refine ⟨htoks, fun i n hn => ⟨fun c => hg.closedBy_iff hf hn, fun o => hg.openedBy_iff hn,
      fun o => hg.parent_iff hf hn⟩, hg.checkBalanced_iff hf, fun e => checkBalanced_error⟩

theorem link_matches_brackets_sample :
    ({} : Flags).matchBrackets = true ∧ ∃ (g : Graph) (n : Node),
      link .php {} [⟨.openBrace, "\x7b", 0, 1⟩, ⟨.openParen, "(", 1, 1⟩, ⟨.closeParen, ")", 2, 1⟩] =
        .ok g ∧
      g.nodes[1]? = some n ∧ n.closedBy = some 2 ∧ FirstExcess .php g.tokens 2 2 ∧
      n.parent = some 0 ∧ Unclosed g 1 0 ∧ ∀ p, Unclosed g 1 p → p ≤ 0 := by
  obtain ⟨_, _, hok⟩ := link_matches_brackets .php {}
    [⟨.openBrace, "\x7b", 0, 1⟩, ⟨.openParen, "(", 1, 1⟩, ⟨.closeParen, ")", 2, 1⟩] rfl
  obtain ⟨_, hnodes, _, _⟩ := hok _ rfl
  obtain ⟨hclosed, _, hparent⟩ := hnodes 1 _ rfl
  exact ⟨rfl, _, _, rfl, rfl, rfl, ((hclosed 2).mp rfl).2, rfl, (hparent 0).mp rfl⟩

end Graph

end PhpOutline
