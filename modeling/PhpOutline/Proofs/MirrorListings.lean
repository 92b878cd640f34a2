import PhpOutline.Proofs.Mirror
import PhpOutline.Proofs.OutlineErrors

/-!
# Declarations without trivia

What a view lists and what the same view without trivia lists are the same names at the same lines,
up to the same error, if every end that the readers look for is code (`Seeks`). The reader of a
declaration goes from one code token to another, so both readers meet the same tokens; only a close
tag could end a declaration in the one and be missing in the other.
-/

namespace PhpOutline

open PhpOutline.Graph

/-! ## Results in a relation -/

theorem SameResult.bind {ε α β γ δ : Type} {S : α → β → Prop} {T : γ → δ → Prop} {x : Except ε α}
    {y : Except ε β} {f : α → Except ε γ} {g : β → Except ε δ} (h : SameResult S x y)
    (hfg : ∀ a b, S a b → SameResult T (f a) (g b)) : SameResult T (x >>= f) (y >>= g) := by
  cases h with
  | error e => exact .error e
  | ok h => exact hfg _ _ h

/-- Listings with items in a relation and the same error. -/
structure SameListing {α β : Type} (S : α → β → Prop) (l : Listing α) (l' : Listing β) : Prop where
  items : List.Forall₂ S l.items l'.items
  error : l.error = l'.error

theorem SameListing.mapM_eq {α β γ : Type} {S : α → β → Prop} {l : Listing α} {l' : Listing β}
    {f : α → Except Error γ} {g : β → Except Error γ} (h : SameListing S l l')
    (hfg : ∀ a ∈ l.items, ∀ b, S a b → f a = g b) : l.mapM f = l'.mapM g := by
  rw [Listing.mapM, Listing.mapM, mapM_eq_of_forall₂ h.items hfg, h.error]

namespace Scope

/-- Scopes with the same names, whose members are declared at the same line. -/
structure Alike (s t : Scope) : Prop where
  space : s.space = t.space
  type : s.type.map (·.name) = t.type.map (·.name)
  member : s.member.map (fun m => (m.kind, m.name, m.declaredBy.node.line)) =
    t.member.map fun m => (m.kind, m.name, m.declaredBy.node.line)

variable {s t : Scope} {name : String} {m m' : Mark}

theorem Alike.enterNamespace (h : s.Alike t) (name : String) :
    SameResult Alike (s.enterNamespace name) (t.enterNamespace name) := by
  unfold Scope.enterNamespace
  rw [h.space]
  split
  · exact .error _
  · exact .ok ⟨rfl, h.type, h.member⟩

theorem Alike.enterType (h : s.Alike t) (name : String) (m m' : Mark) :
    SameResult Alike (s.enterType ⟨name, m⟩) (t.enterType ⟨name, m'⟩) := by
  have htype := h.type
  unfold Scope.enterType
  cases hs : s.type <;> cases ht : t.type <;> rw [hs, ht] at htype <;> simp at htype
  · exact .ok ⟨h.space, rfl, h.member⟩
  · dsimp only
    rw [htype]
    exact .error _

theorem Alike.enterMember (h : s.Alike t) (kind : MemberKind) (name : String)
    (hm : m.node.line = m'.node.line) :
    SameResult Alike (s.enterMember ⟨kind, name, m⟩) (t.enterMember ⟨kind, name, m'⟩) := by
  have hmember := h.member
  unfold Scope.enterMember
  cases hs : s.member <;> cases ht : t.member <;> rw [hs, ht] at hmember <;> simp at hmember
  · exact .ok ⟨h.space, h.type, by simp [hm]⟩
  · dsimp only
    rw [hmember.1, hmember.2.1]
    exact .error _

theorem Alike.isNamespaceLevel (h : s.Alike t) : s.isNamespaceLevel = t.isNamespaceLevel := by
  have htype := congrArg Option.isNone h.type
  have hmember := congrArg Option.isNone h.member
  simp only [Option.isNone_map] at htype hmember
  rw [Scope.isNamespaceLevel, Scope.isNamespaceLevel, htype, hmember]

end Scope

namespace View

variable {v w : View} {p p' : v.Pos} {q q' : w.Pos} {i : Nat} {set : KindSet} {α β : Type}

/-- A view in a scope and the same view without trivia. -/
structure Twins (v w : View) : Prop extends Mirrors v w where
  scope : v.scope.Alike w.scope

theorem memberLine_eq (h : v.scope.Alike w.scope) : v.memberLine = w.memberLine := by
  have hline : ∀ u : View, u.memberLine =
      ((u.scope.member.map fun m =>
        (m.kind, m.name, m.declaredBy.node.line)).map (·.2.2)).getD 0 := by
    intro u
    unfold memberLine
    cases u.scope.member <;> rfl
  rw [hline, hline, h.member]

def SameMember (a b : Item) : Prop :=
  a.name = b.name ∧ a.view.memberLine = b.view.memberLine ∧
  a.view.anchor.isSome = b.view.anchor.isSome

/-! ## Parts -/

namespace Mirrors

theorem ground (h : Mirrors v w) (hi : v.Ground i) : w.Ground (v.rank i) := by
  refine ⟨?_, ?_, ?_⟩
  · rw [h.lo]
    exact rank_mono hi.lo_le
  · rw [h.hi]
    exact rank_mono hi.le_hi
  · rw [h.thinned.roles, rank, height_rank php_plainTrivia, ← h.thinned.roles_left, hi.height_eq]

theorem span {lo hi : Nat} {s t : Scope} (h : Mirrors v w) (hlo : v.Ground lo) (hhi : v.Ground hi)
    (hle : lo ≤ hi) (hs : s.Alike t) : Twins (v.span lo hi s)
    (w.span (v.rank lo) (v.rank hi) t) where
  left := (Part.span s hlo hhi hle).balanced h.left
  right := (Part.span t (h.ground hlo) (h.ground hhi) (rank_mono hle)).balanced h.right
  tokens := h.tokens
  lo := rfl
  hi := rfl
  scope := hs

theorem block {copy copy' : Nat} {s t : Scope} {x y : View} (h : Mirrors v w) (hpq : Image v w p q)
    (hp : v.Ground p) (hlt : p < v.hi) (hs : s.Alike t) (hx : v.block copy p s = .ok x)
    (hy : w.block copy' q t = .ok y) : Twins x y := by
  have hq : w.Ground q := by
    rw [hpq.2]
    exact h.ground hp
  have hleft := (Part.block hp hlt hx).balanced h.left
  have hright := (Part.block hq ((h.lt_hi hpq).mpr hlt) hy).balanced h.right
  obtain ⟨c, hc, hgraph, hlo, hhi, _, _, hscope, _⟩ := block_ok hx
  obtain ⟨c', hc', hgraph', hlo', hhi', _, _, hscope', _⟩ := block_ok hy
  obtain ⟨r, r', rfl, hrr, hclosed⟩ := h.exists_closer hpq hc
  rw [hc'] at hclosed
  cases hclosed
  have htokens : y.graph.tokens = codeOf .php x.graph.tokens := by
    rw [hgraph, hgraph', tokens_cut, tokens_cut, h.tokens, ← h.rank_succ hpq, hrr.2, rank, rank,
      window_codeOf]
    exact (h.left.pair_of_closedBy hc).lt
  refine ⟨⟨hleft, hright, htokens, ?_, ?_⟩, by rw [hscope, hscope']; exact hs⟩
  · rw [hlo, hlo', rank, rank_zero]
  · rw [hhi, hhi', rank, ← length_tokens, ← length_tokens, rank_of_length_le (Nat.le_refl _),
      htokens]

end Mirrors

/-! ## Scans -/

/-- What is read is in a relation, and reading goes on at the same token. -/
structure SameReading (v : View) (S : α → β → Prop) (r : Reading α) (r' : Reading β) : Prop where
  items : List.Forall₂ S r.items r'.items
  next : SameResult (fun n n' => n' = v.rank n) r.next r'.next

theorem SameReading.ofItem {S : α → β → Prop} {x : Except Error (α × Nat)}
    {y : Except Error (β × Nat)} (h : SameResult (fun a b => S a.1 b.1 ∧ b.2 = v.rank a.2) x y) :
    SameReading v S (.ofItem x) (.ofItem y) := by
  cases h with
  | error e => exact ⟨.nil, .error e⟩
  | ok h => exact ⟨.cons h.1 .nil, .ok h.2⟩

theorem SameReading.skip {S : α → β → Prop} (h : Mirrors v w) (hpq : Image v w p q) :
    SameReading v S (.skip (p + 1)) (.skip (q + 1)) :=
  ⟨.nil, .ok (h.rank_succ hpq).symm⟩

theorem Mirrors.scan {S : Item → β → Prop} {read : v.Pos → Reading Item}
    {read' : w.Pos → Reading β} (h : Mirrors v w)
    (hset : ∀ k, set.contains k = true → Taxonomy.php.isCode k = true)
    (hread : ∀ p q, v.Found set p → Image v w p q → SameReading v S (read p) (read' q))
    (hnext : ∀ p, v.Found set p → ∀ n, (read p).next = .ok n → p < n ∧ v.Ground n)
    (hi : v.Ground i) :
    SameListing S (v.scan set read i) (w.scan set read' (v.rank i)) := by
  have hsibling : ∀ j, Option.Rel (Image v w) (v.sibling? set j) (w.sibling? set (v.rank j)) := by
    intro j
    refine h.sibling? fun e he => ?_
    rw [isCode, h.left.php]
    exact hset _ (sibling?_contains he)
  fun_induction View.scan v set read i with
  | case1 i hnone =>
    have hrel := hsibling i
    rw [hnone] at hrel
    rw [scan_of_none (rel_none_left hrel)]
    exact ⟨.nil, rfl⟩
  | case2 i p hp r e he =>
    have hrel := hsibling i
    rw [hp] at hrel
    obtain ⟨q, hq, hpq⟩ := rel_some_left hrel
    have hfound : v.Found set p := ⟨h.left.sibling?_ground hi hp, (sibling?_bounds hp).2,
      sibling?_contains hp⟩
    have hsame := hread p q hfound hpq
    have hresult := hsame.next
    rw [show (read p).next = .error e from he] at hresult
    rw [scan_of_some hq, hresult.error_left]
    exact ⟨hsame.items, rfl⟩
  | case3 i p hp r n hn ih =>
    have hrel := hsibling i
    rw [hp] at hrel
    obtain ⟨q, hq, hpq⟩ := rel_some_left hrel
    have hfound : v.Found set p := ⟨h.left.sibling?_ground hi hp, (sibling?_bounds hp).2,
      sibling?_contains hp⟩
    have hsame := hread p q hfound hpq
    obtain ⟨hlt, hground⟩ := hnext p hfound n hn
    have hresult := hsame.next
    rw [show (read p).next = .ok n from hn] at hresult
    obtain ⟨n', hn', rfl⟩ := hresult.ok_left
    -- the second view goes on behind its own position too
    have hle : q + 1 ≤ v.rank n := by
      rw [← h.rank_succ hpq]
      exact rank_mono hlt
    rw [Nat.max_eq_left hlt] at ih ⊢
    rw [scan_of_some hq, hn']
    dsimp only
    rw [Nat.max_eq_left hle]
    have hrest := ih hground
    exact ⟨List.rel_append hsame.items hrest.items, hrest.error⟩

/-! ## The ends that are looked for -/

/-- Where the reading of a constant starts: at the keyword, or at a comma behind a value. -/
inductive StartsConstant (v : View) : v.Pos → Prop
  | keyword {p : v.Pos} (hp : v.Found (.ofList [.constKw]) p) (hu : v.follows p .useKw = false) :
      StartsConstant v p
  | comma {p q s : v.Pos} (hp : StartsConstant v p)
      (hq : v.sibling? (v.valueEnd.insert .equals) (p + 1) = some q)
      (hk : v.kind q = .equals) (hs : v.sibling? v.valueEnd (q + 1) = some s)
      (hc : v.kind s = .comma) :
      StartsConstant v s

/-- A reader starts at a position, looks for an end of what is declared there and finds it. -/
inductive Seeks (v : View) : v.Pos → v.Pos → Prop
  | use {p e : v.Pos} (hs : v.scope.isNamespaceLevel = true) (hlo : v.lo ≤ p) (hhi : p < v.hi)
      (hp : v.startsImport p = true) (he : (v.between (p + 1) v.hi).find? v.endsStatement =
        some e) : Seeks v p e
  | type {p n e : v.Pos} (hs : v.scope.isNamespaceLevel = true) (hp : v.Found typeKeywords p)
      (hx : v.inExpression p = false) (hn : v.nextCode? p = some n) (hk : v.kind n = .string)
      (he : v.sibling? v.bodyOrEnd (n + 1) = some e) : Seeks v p e
  | function {p n e : v.Pos} (hp : v.Found (.ofList [.functionKw]) p)
      (hu : v.follows p .useKw = false) (hn : v.functionName? p = some n)
      (he : v.sibling? v.bodyOrEnd (n + 1) = some e) : Seeks v p e
  | constant {p e : v.Pos} (hp : v.StartsConstant p)
      (he : v.sibling? (v.valueEnd.insert .equals) (p + 1) = some e) : Seeks v p e
  | value {p q e : v.Pos} (hp : v.StartsConstant p)
      (hq : v.sibling? (v.valueEnd.insert .equals) (p + 1) = some q)
      (hk : v.kind q = .equals) (he : v.sibling? v.valueEnd (q + 1) = some e) : Seeks v p e
  | property {p q e : v.Pos} (hp : v.Found (.ofList [.variableName]) p) (ht : v.isTypeBody = true)
      (hq : v.nextCode? p = some q) (hk : v.kind q = .equals)
      (he : v.sibling? v.valueEnd (q + 1) = some e) :
      Seeks v p e

/-- Two name segments with trivia, and nothing but trivia, between them. -/
structure SplitName (v : View) (i j : v.Pos) : Prop where
  apart : i.val + 1 < j.val
  first : v.graph.taxonomy.nameSegments.contains (v.kind i) = true
  second : v.graph.taxonomy.nameSegments.contains (v.kind j) = true
  trivia : ∀ r : v.Pos, i < r → r < j → v.isCode r = false

/-- A view whose declarations do not end at close tags, and whose imports and type headers have each
name in one piece. -/
structure Legible (v : View) : Prop where
  ends : ∀ {p e : v.Pos}, v.Seeks p e → v.isCode e = true
  names : ∀ {p e i j : v.Pos}, v.Seeks p e →
    (typeKeywords.insert .useKw).contains (v.kind p) = true → p < i → j < e → ¬ v.SplitName i j

/-! ## Functions -/

theorem Mirrors.bodyOrEnd (h : Mirrors v w) : w.bodyOrEnd = v.bodyOrEnd := by
  rw [View.bodyOrEnd, View.bodyOrEnd, h.left.php, h.right.php]

theorem Mirrors.valueEnd (h : Mirrors v w) : w.valueEnd = v.valueEnd := by
  rw [View.valueEnd, View.valueEnd, h.left.php, h.right.php]

theorem Mirrors.functionName? (h : Mirrors v w) (hpq : Image v w p q) :
    Option.Rel (Image v w) (v.functionName? p) (w.functionName? q) := by
  have hrel := h.nextCode? hpq
  unfold View.functionName?
  dsimp only
  rw [h.any_kind hrel]
  refine rel_filter ?_ fun hpq => by rw [h.kind hpq]
  split
  · exact rel_bind hrel fun _ _ => h.nextCode?
  · exact hrel

theorem Mirrors.sibling?_behind {set set' : KindSet} (h : Mirrors v w) (hpq : Image v w p q)
    (hset : set' = set) (hcode : ∀ e, v.sibling? set (p + 1) = some e → v.isCode e = true) :
    Option.Rel (Image v w) (v.sibling? set (p + 1)) (w.sibling? set' (q + 1)) := by
  rw [hset, ← h.rank_succ hpq]
  exact h.sibling? hcode

theorem Twins.body {s t : Scope} (h : Twins v w) (copy : Nat) (hpq : Image v w p q)
    (hp : v.Ground p) (hlt : p < v.hi) (hk : v.kind p = .openBrace) (hs : s.Alike t) :
    ∃ x y c d, v.block copy p s = .ok x ∧ w.block copy q t = .ok y ∧ v.closer p = .ok c ∧
      w.closer q = .ok d ∧ Twins x y ∧ d + 1 = v.rank (c + 1) := by
  have hlt' := (h.lt_hi hpq).mpr hlt
  have hk' : w.kind q = .openBrace := by rw [h.kind hpq, hk]
  obtain ⟨x, hx⟩ := h.left.block_of_brace hk hlt copy s
  obtain ⟨y, hy⟩ := h.right.block_of_brace hk' hlt' copy t
  obtain ⟨c, hc⟩ := h.left.closer_of_brace hk hlt
  obtain ⟨d, hd⟩ := h.right.closer_of_brace hk' hlt'
  obtain ⟨r, r', rfl, hrr, hclosed⟩ := h.exists_closer hpq (closer_ok hc)
  rw [closer_ok hd] at hclosed
  cases hclosed
  exact ⟨x, y, r, r', hx, hy, hc, hd, h.block hpq hp hlt hs hx hy, (h.rank_succ hrr).symm⟩

theorem Twins.functionAt {copy : Nat} (h : Twins v w) (hpq : Image v w p q)
    (hpq' : Image v w p' q') (hp : v.Ground (p' + 1))
    (hcode : ∀ e, v.sibling? v.bodyOrEnd (p' + 1) = some e → v.isCode e = true) :
    SameResult (fun a b => SameMember a.1 b.1 ∧ b.2 = v.rank a.2) (v.functionAt copy p p')
      (w.functionAt copy q q') := by
  have hrel := h.sibling?_behind hpq' h.bodyOrEnd hcode
  unfold View.functionAt
  dsimp only
  rw [h.text hpq', h.line hpq]
  generalize hstop : v.sibling? v.bodyOrEnd (p' + 1) = l,
    w.sibling? w.bodyOrEnd (q' + 1) = r at hrel
  cases hrel with
  | none => exact .error _
  | @some e e' hee =>
    dsimp only
    refine SameResult.bind (h.scope.enterMember .function _ (h.line hpq').symm) fun s t hst => ?_
    rw [h.kind hee]
    have hground := h.left.sibling?_ground hp hstop
    have hlt := (sibling?_bounds hstop).2
    split
    · rename_i hbrace
      obtain ⟨x, y, c, d, hx, hy, hc, hd, hxy, hnext⟩ := h.body copy hee hground hlt hbrace hst
      rw [hc, hx, hd, hy]
      obtain ⟨_, _, _, _, _, _, hanchor, _⟩ := block_ok hx
      obtain ⟨_, _, _, _, _, _, hanchor', _⟩ := block_ok hy
      refine .ok ⟨⟨rfl, memberLine_eq hxy.scope, ?_⟩, hnext⟩
      rw [hanchor, hanchor']
      rfl
    · exact .ok ⟨⟨rfl, memberLine_eq hst, rfl⟩, (h.rank_succ hee).symm⟩

theorem Twins.functions {copy : Nat} (h : Twins v w) (hv : v.Legible) :
    SameListing SameMember (v.functions copy) (w.functions copy) := by
  unfold View.functions
  rw [h.lo]
  refine h.scan (fun _ hk => by rw [kind_of_singleton hk]; rfl) (fun p q hp hpq => ?_)
    (fun p hp => (h.left.readFunction_reads hp).next) h.left.lo
  rw [readFunction_eq, readFunction_eq, h.follows hpq]
  split
  · exact .skip h.toMirrors hpq
  · rename_i huse
    have hrel := h.functionName? hpq
    generalize hname : v.functionName? p = l, w.functionName? q = r at hrel
    cases hrel with
    | none => exact .skip h.toMirrors hpq
    | @some n n' hnn =>
      refine .ofItem (h.functionAt hpq hnn ?_ fun e he => ?_)
      · exact (h.left.functionName?_ground hp.ground (kind_of_singleton hp.mem) hname).1
      · exact hv.ends (.function hp (by simpa using huse) hname he)

/-! ## Constants -/

theorem Mirrors.constantName? {r : v.Pos} {s : w.Pos} (h : Mirrors v w) (hpq : Image v w p q)
    (hrs : Image v w r s) :
    Option.Rel (Image v w) (v.constantName? p r) (w.constantName? q s) := by
  refine rel_filter (h.prevCode? hrs) fun {a b} hab => ?_
  have hlt : q < b ↔ p < a := h.image_lt hpq hab
  simp only [hlt, h.text hab]

theorem Twins.constantHead (h : Twins v w) (hv : v.Legible) (hp : v.StartsConstant p)
    (hpq : Image v w p q) :
    SameResult (fun a b => Image v w a.1 b.1 ∧ a.2.1 = b.2.1 ∧ a.2.2.Alike b.2.2) (v.constantHead p)
      (w.constantHead q) := by
  have hrel := h.sibling?_behind hpq (congrArg (·.insert .equals) h.valueEnd) fun e he =>
    hv.ends (.constant hp he)
  unfold View.constantHead
  rw [h.line hpq]
  generalize v.sibling? (v.valueEnd.insert .equals) (p + 1) = l,
    w.sibling? (w.valueEnd.insert .equals) (q + 1) = r at hrel
  cases hrel with
  | none => exact .error _
  | @some e e' hee =>
    dsimp only
    rw [h.kind hee]
    split
    · exact .error _
    · have hname := h.constantName? hpq hee
      generalize v.constantName? p e = l, w.constantName? q e' = r at hname
      cases hname with
      | none => exact .error _
      | some hnn =>
        dsimp only
        rw [h.text hnn]
        exact SameResult.bind (h.scope.enterMember .constant _ (h.line hnn).symm) fun s t hst =>
          .ok ⟨hee, rfl, hst⟩

theorem sameMember_span {name : String} {s t : Scope} {a b c d : Nat} (h : s.Alike t) :
    SameMember ⟨name, v.span a b s⟩ ⟨name, w.span c d t⟩ :=
  ⟨rfl, memberLine_eq h, rfl⟩

theorem Mirrors.rank_getD {l : Option v.Pos} {r : Option w.Pos} (h : Mirrors v w)
    (hrel : Option.Rel (Image v w) l r) :
    (r.map (·.val)).getD w.hi = v.rank ((l.map (·.val)).getD v.hi) := by
  cases hrel with
  | none => exact h.hi
  | some hpq => exact hpq.2

theorem Twins.constantAt (h : Twins v w) (hv : v.Legible) (hp : v.StartsConstant p)
    (hpq : Image v w p q) :
    SameResult (fun a b => SameMember a.1 b.1 ∧ b.2.1 = v.rank a.2.1 ∧
      Option.Rel (Image v w) a.2.2 b.2.2) (v.constantAt p) (w.constantAt q) := by
  have hhead := h.constantHead hv hp hpq
  unfold View.constantAt
  generalize heq : v.constantHead p = x, w.constantHead q = y at hhead
  cases hhead with
  | error e => exact .error _
  | @ok head head' hsame =>
    obtain ⟨e, name, scope⟩ := head
    obtain ⟨e', name', scope'⟩ := head'
    obtain ⟨hee, rfl, hscope⟩ := hsame
    obtain ⟨he, hk, _⟩ := constantHead_ok heq
    have hrel := h.sibling?_behind hee h.valueEnd fun s hs => hv.ends (.value hp he hk hs)
    exact .ok ⟨sameMember_span hscope, h.rank_getD hrel,
      rel_filter hrel fun hss => by rw [h.kind hss]⟩

theorem Twins.constantsAt (h : Twins v w) (hv : v.Legible) (hp : v.StartsConstant p)
    (hpq : Image v w p q) :
    SameReading v SameMember (v.constantsAt p) (w.constantsAt q) := by
  induction hn : v.hi - p using Nat.strongRecOn generalizing p q with
  | ind n ih =>
    have hat := h.constantAt hv hp hpq
    rw [constantsAt_eq v, constantsAt_eq w]
    generalize heq : v.constantAt p = x, w.constantAt q = y at hat
    cases hat with
    | error e => exact ⟨.nil, .error _⟩
    | @ok read read' hsame =>
      obtain ⟨item, last, pending⟩ := read
      obtain ⟨item', last', pending'⟩ := read'
      obtain ⟨hitem, hlast, hpending⟩ := hsame
      dsimp only at hitem hlast hpending
      cases hpending with
      | none => exact ⟨.cons hitem .nil, .ok hlast⟩
      | @some comma comma' hcc =>
        obtain ⟨equals, _, hhead, _, _, hfilter⟩ := constantAt_ok heq
        obtain ⟨he, hk, _⟩ := constantHead_ok hhead
        obtain ⟨hstop, hcomma⟩ := Option.filter_eq_some_iff.mp hfilter.symm
        obtain ⟨hlt, _, hpending⟩ := constantAt_bounds heq
        have hbounds := hpending comma rfl
        have hrest := ih (v.hi - comma) (by omega)
          (.comma hp he hk hstop (beq_iff_eq.mp hcomma)) hcc rfl
        exact ⟨.cons hitem hrest.items, hrest.next⟩

theorem Twins.constants (h : Twins v w) (hv : v.Legible) :
    SameListing SameMember v.constants w.constants := by
  unfold View.constants
  rw [h.lo]
  refine h.scan (fun _ hk => by rw [kind_of_singleton hk]; rfl) (fun p q hp hpq => ?_)
    (fun p hp => (h.left.readConstants_reads hp).next) h.left.lo
  unfold readConstants
  rw [h.follows hpq]
  split
  · exact .skip h.toMirrors hpq
  · rename_i huse
    exact h.constantsAt hv (.keyword hp (by simpa using huse)) hpq

/-! ## Properties -/

theorem Twins.propertyAt (h : Twins v w) (hv : v.Legible) (ht : v.isTypeBody = true)
    (hp : v.Found (.ofList [.variableName]) p) (hpq : Image v w p q) :
    SameResult (fun a b => SameMember a.1 b.1 ∧ b.2 = v.rank a.2) (v.propertyAt p)
      (w.propertyAt q) := by
  have hrel := rel_filter (f := (v.kind · == .equals)) (g := (w.kind · == .equals))
    (h.nextCode? hpq) fun hpq => by rw [h.kind hpq]
  unfold View.propertyAt
  dsimp only
  rw [h.text hpq]
  refine SameResult.bind (h.scope.enterMember .property _ (h.line hpq).symm) fun s t hst => ?_
  generalize he : (v.nextCode? p).filter (v.kind · == .equals) = l,
    (w.nextCode? q).filter (w.kind · == .equals) = r at hrel
  cases hrel with
  | none => exact .ok ⟨sameMember_span hst, (h.rank_succ hpq).symm⟩
  | some hee =>
    obtain ⟨he, hk⟩ := Option.filter_eq_some_iff.mp he
    refine .ok ⟨sameMember_span hst, h.rank_getD (h.sibling?_behind hee h.valueEnd fun s hs => ?_)⟩
    exact hv.ends (.property hp ht he (by simpa using hk) hs)

theorem Twins.properties (h : Twins v w) (hv : v.Legible) (ht : v.isTypeBody = true)
    (ht' : w.isTypeBody = true) :
    SameResult (SameListing SameMember) v.properties w.properties := by
  unfold View.properties
  rw [if_pos ht, if_pos ht', h.lo]
  exact .ok (h.scan (fun _ hk => by rw [kind_of_singleton hk]; rfl)
    (fun p q hp hpq => .ofItem (h.propertyAt hv ht hp hpq))
    (fun p hp => (h.left.property_reads hp).next) h.left.lo)

end View

end PhpOutline
