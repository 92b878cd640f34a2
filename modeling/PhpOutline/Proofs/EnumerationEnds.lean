import PhpOutline.Proofs.ClauseSyntax
import PhpOutline.Proofs.Cursors

/-!
# Enumerations come to an end

Nothing is assumed about the taxonomy here: any kind may open or close, be trivia or end a
statement, and a view may begin or end in the middle of a bracket pair. What is left are the links,
which lead onwards in every linked graph. So each cursor comes closer to the end of its view with
every result, it hands out no more results than the view has tokens, and then it stays silent.
-/

namespace PhpOutline

open PhpOutline.Graph

namespace View

variable {x : Taxonomy} {f : Flags} {g : Graph} {root v w : View} {i : Nat} {p q : v.Pos}
  {set : KindSet}

/-! ## Views over any taxonomy -/

/-- A range of a linked graph. -/
structure Framed (v : View) : Prop where
  linked : v.graph.Linked
  lo_le : v.lo ≤ v.hi
  hi_le : v.hi ≤ v.graph.size

/-- A view taken out of another as a range of it, or as the inside of a bracket. -/
inductive Piece (v : View) : View → Prop
  | span {lo hi : Nat} (scope : Scope) (hle : lo ≤ hi) (hhi : hi ≤ v.hi) :
      Piece v (v.span lo hi scope)
  | block {copy : Nat} {p : v.Pos} {scope : Scope} {w : View} (h : v.block copy p scope = .ok w) :
      Piece v w

theorem Piece.framed (h : Piece v w) (hv : v.Framed) : w.Framed := by
  cases h with
  | span scope hle hhi => exact ⟨hv.linked, hle, Nat.le_trans hhi hv.hi_le⟩
  | @block _ p _ _ h =>
    obtain ⟨c, hc, hgraph, hlo, hhi, _⟩ := block_ok h
    refine ⟨?_, by omega, Nat.le_of_eq hhi⟩
    rw [hgraph]
    exact hv.linked.cut ((hv.linked.closedBy_eq_some (getElem?_pos p)).mp hc)

theorem valueRange_le (p : v.Pos) (stop : Nat) :
    (v.valueRange p stop).1 ≤ (v.valueRange p stop).2 ∧ (v.valueRange p stop).2 ≤ stop := by
  unfold valueRange
  dsimp only
  split
  · rename_i first last hfirst hlast
    rw [List.head?_filter] at hfirst
    obtain ⟨_, hfs, hcode, _⟩ := find?_between hfirst
    obtain ⟨_, hls, _, hafter⟩ := getLast?_filter_between hlast
    refine ⟨?_, hls⟩
    by_contra hlt
    rw [hafter first (show last.val < first.val by omega) hfs] at hcode
    cases hcode
  · exact ⟨Nat.le_refl _, Nat.le_refl _⟩

theorem siblingOrEnd_bounds (set : KindSet) (hi : i ≤ v.hi) :
    i ≤ ((v.sibling? set i).map (·.val)).getD v.hi ∧
      ((v.sibling? set i).map (·.val)).getD v.hi ≤ v.hi := by
  cases h : v.sibling? set i with
  | none => exact ⟨hi, Nat.le_refl _⟩
  | some p =>
    obtain ⟨hle, hlt⟩ := sibling?_bounds h
    exact ⟨hle, Nat.le_of_lt hlt⟩

theorem nextCode?_lt_hi (h : v.nextCode? p = some q) : q < v.hi := by
  obtain ⟨j, hj, hq⟩ := Option.bind_eq_some_iff.mp h
  obtain ⟨_, hlt⟩ := Option.filter_eq_some_iff.mp hj
  obtain rfl := val_of_pos? hq
  simpa using hlt

/-! ## What is listed is a piece -/

theorem namespaceAt_piece {copy next : Nat} {item : Item}
    (h : v.namespaceAt copy p = .ok (item, next)) :
    Piece v item.view := by
  obtain ⟨nameAt, scope, after, _, _, hafter, _, ⟨_, hblock, _⟩ | ⟨_, _, hview, _⟩⟩ :=
    namespaceAt_ok h
  · exact .block hblock
  · obtain ⟨_, hlt, _⟩ := find?_between hafter
    obtain ⟨hle, hle'⟩ := siblingOrEnd_bounds namespaceKeyword (show after.val + 1 ≤ v.hi from hlt)
    rw [hview]
    exact .span scope hle hle'

theorem functionAt_piece {copy next : Nat} {item : Item}
    (h : v.functionAt copy p q = .ok (item, next)) :
    Piece v item.view := by
  obtain ⟨stop, scope, hstop, _, _, ⟨_, hblock, _⟩ | ⟨_, hview, _⟩⟩ := functionAt_ok h
  · exact .block hblock
  · rw [hview]
    exact .span scope (Nat.le_refl _) (Nat.le_of_lt (sibling?_bounds hstop).2)

theorem propertyAt_piece {next : Nat} {item : Item} (hp : p < v.hi)
    (h : v.propertyAt p = .ok (item, next)) :
    Piece v item.view := by
  obtain ⟨scope, _, _, ⟨hview, _⟩ | ⟨equals, hequals, _, hnext, hview⟩⟩ := propertyAt_ok h
  · rw [hview]
    exact .span scope (Nat.le_refl _) hp
  · have hstop := siblingOrEnd_bounds v.valueEnd
      (show equals.val + 1 ≤ v.hi from nextCode?_lt_hi hequals)
    rw [← hnext] at hstop
    obtain ⟨hle, hle'⟩ := valueRange_le equals next
    rw [hview]
    exact .span scope hle (Nat.le_trans hle' hstop.2)

theorem constantsAt_piece {item : Item} (h : item ∈ (v.constantsAt p).items) :
    Piece v item.view := by
  obtain ⟨equals, _, scope, stop, hlt, _, _, hstop, hview⟩ := mem_constantsAt h
  have hle := (siblingOrEnd_bounds v.valueEnd (show equals.val + 1 ≤ v.hi from hlt)).2
  rw [← hstop] at hle
  obtain ⟨hlo, hhi⟩ := valueRange_le equals stop
  rw [hview]
  exact .span scope hlo (Nat.le_trans hhi hle)

theorem Lists.piece (hv : v.Framed) (h : v.Lists w) : Piece v w := by
  cases h with
  | namespaces copy h =>
    rcases mem_namespaces h with ⟨scope, _, heq⟩ | ⟨first, _, h⟩
    · obtain ⟨hlo, hhi⟩ := siblingOrEnd_bounds namespaceKeyword hv.lo_le
      cases heq
      exact .span scope hlo hhi
    · obtain ⟨p, _, hitem⟩ := exists_of_mem_scan h
      obtain ⟨next, hat⟩ := mem_ofItem hitem
      exact namespaceAt_piece hat
  | types copy h =>
    obtain ⟨p, next, hat⟩ := mem_types_read h
    obtain ⟨_, _, _, _, _, _, _, _, _, hblock, _⟩ := typeAt_ok hat
    exact .block hblock
  | functions copy h =>
    obtain ⟨p, nameAt, next, hat⟩ := mem_functions_read h
    exact functionAt_piece hat
  | properties hl h =>
    obtain ⟨p, next, hlt, hat⟩ := mem_properties_read hl h
    exact propertyAt_piece hlt hat
  | constants h =>
    obtain ⟨p, hp⟩ := mem_constants_read h
    exact constantsAt_piece hp

theorem Reaches.framed (hg : Built x f g) (hroot : ofGraph g = .ok root) (h : root.Reaches v) :
    v.Framed := by
  induction h with
  | refl =>
    obtain ⟨_, _, rfl⟩ := ofGraph_ok hroot
    exact ⟨hg.linked, Nat.zero_le _, Nat.le_refl _⟩
  | step _ hw ih => exact (hw.piece ih).framed ih

/-! ## Links lead onwards -/

namespace Framed

theorem nextCode?_lt (hv : v.Framed) (h : v.nextCode? p = some q) : p.val < q.val := by
  obtain ⟨j, hj, hq⟩ := Option.bind_eq_some_iff.mp h
  obtain ⟨hj, _⟩ := Option.filter_eq_some_iff.mp hj
  obtain rfl := val_of_pos? hq
  exact (((hv.linked.nodes p _ (getElem?_pos p)).nextCode q).mp hj).le

theorem closer_lt {c : Nat} (hv : v.Framed) (h : v.closer p = .ok c) : p < c :=
  ((hv.linked.closedBy_eq_some (getElem?_pos p)).mp (closer_ok h)).lt

theorem namespaceAt_lt {copy next : Nat} {item : Item} (hv : v.Framed)
    (h : v.namespaceAt copy p = .ok (item, next)) : p < next := by
  obtain ⟨nameAt, _, after, hname, _, hafter, _, h⟩ := namespaceAt_ok h
  have hlt := hv.nextCode?_lt (namespaceName?_eq_some hname).1
  obtain ⟨hlt', _⟩ := find?_between hafter
  rcases h with ⟨_, _, c, hc, rfl⟩ | ⟨_, _, _, rfl⟩
  · have := hv.closer_lt hc
    omega
  · omega

theorem typeAt_lt {copy next : Nat} {item : Item} (hv : v.Framed)
    (h : v.typeAt copy p = .ok (item, next)) :
    p < next := by
  obtain ⟨nameAt, opener, _, hname, _, hopener, _, _, _, _, c, hc, rfl⟩ := typeAt_ok h
  have hlt := hv.nextCode?_lt hname
  have hle := (sibling?_bounds hopener).1
  have := hv.closer_lt hc
  omega

theorem functionAt_lt {copy next : Nat} {item : Item} (hv : v.Framed)
    (hname : v.functionName? p = some q) (h : v.functionAt copy p q = .ok (item, next)) :
    p < next := by
  have hlt : p.val < q.val := by
    obtain ⟨_, hq | ⟨amp, hamp, _, hq⟩⟩ := functionName?_eq_some hname
    · exact hv.nextCode?_lt hq
    · exact Nat.lt_trans (hv.nextCode?_lt hamp) (hv.nextCode?_lt hq)
  obtain ⟨stop, _, hstop, _, _, h⟩ := functionAt_ok h
  have hle := (sibling?_bounds hstop).1
  rcases h with ⟨_, _, c, hc, rfl⟩ | ⟨_, _, rfl⟩
  · have := hv.closer_lt hc
    omega
  · omega

theorem propertyAt_lt {next : Nat} {item : Item} (hv : v.Framed)
    (h : v.propertyAt p = .ok (item, next)) :
    p < next := by
  obtain ⟨_, _, _, ⟨_, _, rfl⟩ | ⟨equals, hequals, _, hnext, _⟩⟩ := propertyAt_ok h
  · exact Nat.lt_succ_self _
  · have hlt := hv.nextCode?_lt hequals
    have hstop := (siblingOrEnd_bounds v.valueEnd
      (show equals.val + 1 ≤ v.hi from nextCode?_lt_hi hequals)).1
    omega

end Framed

/-! ## How much is left -/

theorem entryStep_cases {α σ : Type} (set : KindSet)
    (entry : v.Pos → Option (Except Error (α × σ))) (i : Nat) :
    v.entryStep set entry i = .ok none ∨ ∃ (p : v.Pos) (r : Except Error (α × σ)), i ≤ p ∧
      p < v.hi ∧ entry p = some r ∧ v.entryStep set entry i = r.map fun (a, next) =>
        some (a, some next) := by
  fun_induction entryStep v set entry i with
  | case1 i h => exact .inl rfl
  | case2 i p h hentry ih =>
    obtain hnone | ⟨q, r, hle, hlt, hr, hstep⟩ := ih
    · exact .inl hnone
    · have := (sibling?_bounds h).1
      exact .inr ⟨q, r, by omega, hlt, hr, hstep⟩
  | case3 i p h e hentry =>
    obtain ⟨hle, hlt⟩ := sibling?_bounds h
    exact .inr ⟨p, _, hle, hlt, hentry, rfl⟩
  | case4 i p h a next hentry =>
    obtain ⟨hle, hlt⟩ := sibling?_bounds h
    exact .inr ⟨p, _, hle, hlt, hentry, rfl⟩

theorem entryCursor_advances {α : Type} {entry : v.Pos → Option (Except Error (α × Nat))}
    (hnext : ∀ (p : v.Pos) (a : α) (n : Nat), p < v.hi → entry p = some (.ok (a, n)) → p < n) :
    (v.entryCursor set entry).Advances (fun _ => True) fun i => v.hi - i := by
  have hcases : ∀ {i : Nat} {r : Except Error (Option (α × Option Nat))},
      v.entryCursor set entry i = r → r ≠ .ok none → i < v.hi ∧ ∀ a t, r = .ok (some (a, t)) →
        ∃ n, t = some n ∧ v.hi - n < v.hi - i := by
    intro i r hr hne
    obtain hnone | ⟨p, found, hle, hlt, hentry, hstep⟩ := entryStep_cases set entry i
    · exact absurd (hr.symm.trans hnone) hne
    · refine ⟨by omega, fun a t hat => ?_⟩
      rw [hat] at hr
      cases found with
      | error e => cases hr.symm.trans hstep
      | ok found =>
        obtain ⟨b, n⟩ := found
        cases hr.symm.trans hstep
        have := hnext p _ n hlt hentry
        exact ⟨n, rfl, by omega⟩
  constructor
  · intro i e _ h
    have := (hcases h (by simp)).1
    omega
  · intro i a _ h
    obtain ⟨n, hn, _⟩ := (hcases h (by simp)).2 a none rfl
    cases hn
  · intro i a t _ h
    obtain ⟨n, hn, hlt⟩ := (hcases h (by simp)).2 a (some t) rfl
    cases hn
    exact ⟨trivial, hlt⟩

def constantLeft (v : View) : Nat × Option v.Pos → Nat
  | (i, none) => v.hi - i
  | (_, some comma) => v.hi - comma

theorem constantCursor_cases {s : Nat × Option v.Pos}
    (hs : ∀ comma, s.2 = some comma → comma < v.hi) :
    v.constantCursor s = .ok none ∨ ∃ p : v.Pos, p < v.hi ∧ v.hi - p ≤ v.constantLeft s ∧
      v.constantCursor s = (v.constantAt p).map fun (item, next) => some (item, some next) := by
  obtain ⟨i, _ | comma⟩ := s
  · obtain hnone | ⟨p, r, hle, hlt, hentry, hstep⟩ :=
      entryStep_cases (.ofList [.constKw]) v.constantEntry i
    · exact .inl hnone
    · unfold constantEntry at hentry
      split at hentry
      · cases hentry
      · cases hentry
        exact .inr ⟨p, hlt, by simp only [constantLeft]; omega, hstep⟩
  · exact .inr ⟨comma, hs comma rfl, Nat.le_refl _, rfl⟩

theorem constantCursor_advances :
    v.constantCursor.Advances (fun s => ∀ comma, s.2 = some comma → comma < v.hi)
      v.constantLeft := by
  constructor
  · intro s e hs h
    obtain hnone | ⟨p, hlt, hle, _⟩ := constantCursor_cases hs
    · cases h.symm.trans hnone
    · omega
  · intro s a hs h
    obtain hnone | ⟨p, hlt, hle, _⟩ := constantCursor_cases hs
    · cases h.symm.trans hnone
    · omega
  · intro s a t hs h
    obtain hnone | ⟨p, hlt, hle, hstep⟩ := constantCursor_cases hs
    · cases h.symm.trans hnone
    · cases hat : v.constantAt p with
      | error e =>
        rw [hat] at hstep
        cases h.symm.trans hstep
      | ok found =>
        obtain ⟨item, stop, pending⟩ := found
        rw [hat] at hstep
        cases h.symm.trans hstep
        obtain ⟨hstop, _, hcomma⟩ := constantAt_bounds hat
        refine ⟨fun comma hc => (hcomma comma hc).2, Nat.lt_of_lt_of_le ?_ hle⟩
        cases pending with
        | none => simp only [constantLeft]; omega
        | some comma =>
          have := (hcomma comma rfl).1
          simp only [constantLeft]
          omega

/-- How much of the view a state of the cursor of namespaces has before it. An empty view has one
namespace too. -/
def namespaceLeft (v : View) : v.NamespaceState → Nat
  | .start => max 1 (v.hi - v.lo)
  | .keyword p => v.hi - p

theorem lt_of_hasCode {a b : Nat} (h : v.hasCode a b = true) : a < b := by
  rw [hasCode, List.any_eq_true] at h
  obtain ⟨p, hp, _⟩ := h
  obtain ⟨hap, hpb⟩ := mem_between.mp hp
  omega

theorem Framed.namespaceStepAt_left {copy : Nat} {item : Item} {t : v.NamespaceState}
    (hv : v.Framed) (h : v.namespaceStepAt copy p = .ok (some (item, some t))) :
    (∀ q, t = .keyword q → q < v.hi) ∧ v.namespaceLeft t < v.hi - p := by
  obtain ⟨⟨found, n⟩, hfound, h⟩ := of_bind_ok h
  have hlt := hv.namespaceAt_lt hfound
  dsimp only at h
  cases hs : v.sibling? namespaceKeyword n with
  | none => rw [hs] at h; cases h
  | some q =>
    rw [hs] at h
    cases h
    obtain ⟨hle, hhi⟩ := sibling?_bounds hs
    refine ⟨?_, by simp only [namespaceLeft]; omega⟩
    rintro _ ⟨⟩
    exact hhi

theorem namespaceCursor_advances {copy : Nat} (hv : v.Framed) :
    (v.namespaceCursor copy).Advances (fun s => ∀ p, s = .keyword p → p < v.hi)
      v.namespaceLeft := by
  have hpos : ∀ s : v.NamespaceState, (∀ p, s = .keyword p → p < v.hi) → 0 < v.namespaceLeft s := by
    rintro (_ | p) hs
    · simp only [namespaceLeft]
      omega
    · have := hs p rfl
      simp only [namespaceLeft]
      omega
  constructor
  · exact fun hs _ => hpos _ hs
  · exact fun hs _ => hpos _ hs
  · rintro (_ | p) a t hs h
    · rw [namespaceCursor] at h
      split at h
      · obtain ⟨scope, _, h⟩ := of_bind_ok h
        cases h
      · rename_i first hfirst
        obtain ⟨hle, hlt⟩ := sibling?_bounds hfirst
        split at h
        · rename_i hcode
          have := lt_of_hasCode hcode
          obtain ⟨scope, _, h⟩ := of_bind_ok h
          cases h
          refine ⟨?_, by simp only [namespaceLeft]; omega⟩
          rintro _ ⟨⟩
          exact hlt
        · obtain ⟨hinv, hleft⟩ := hv.namespaceStepAt_left h
          refine ⟨hinv, ?_⟩
          simp only [namespaceLeft] at hleft ⊢
          omega
    · exact hv.namespaceStepAt_left h

/-! ## Imports are no more than the code of their clauses -/

theorem length_readItems {lead follow : String} {kind : ImportKind} {code : List v.Pos}
    {imports : List Import} (h : v.readItems lead kind follow code = .ok imports) :
    imports.length ≤ code.length := by
  refine readItems_rec (motive := fun code imports => imports.length ≤ code.length)
    (Nat.le_refl _) ?name ?group h
  case name =>
    intro word name tail behind w own aliasName item others _ hn _ _ ih
    obtain ⟨i, is, rfl⟩ := hn.exists_cons
    simp only [List.length_drop, List.length_cons, List.length_append] at ih ⊢
    omega
  case group =>
    intro word name inner behind o c w own grouped others _ _ _ _ _ _ ihgroup ih
    simp only [List.length_drop, List.length_cons, List.length_append] at ih ⊢
    omega

theorem length_readClause {code : List v.Pos} {imports : List Import}
    (h : v.readClause code = .ok imports) :
    imports.length ≤ code.length := by
  have hle := v.length_takeKind .class_ code
  rw [readClause_eq] at h
  split at h
  · cases h
  · rename_i hkind
    rw [hkind] at hle
    exact Nat.le_trans (length_readItems h) hle

theorem length_between_le (v : View) (a b : Nat) : (v.between a b).length ≤ b - a := by
  rw [between]
  exact Nat.le_trans (List.length_filterMap_le _ _) (Nat.le_of_eq List.length_range')

theorem length_importsAt {imports : List Import} {stop : Nat}
    (h : v.importsAt p = .ok (imports, stop)) :
    imports.length + p < stop ∧ stop < v.hi := by
  obtain ⟨q, rfl, hpq, hhi, _, _, hread⟩ := clause_of_importsAt h
  have hlt : p.val < q.val := hpq
  have hcode := Nat.le_trans (length_readClause hread) (List.length_filter_le _ _)
  have := v.length_between_le (p + 1) q
  exact ⟨by omega, hhi⟩

theorem importStep_left (i : Nat) (pending : List Import) :
    (∀ e, v.importStep i pending = .error e → i < v.hi) ∧
      ∀ a t, v.importStep i pending = .ok (some (a, t)) →
        ∃ j rest, t = some (j, rest) ∧ v.hi - j + rest.length < v.hi - i + pending.length := by
  -- by the recursion of a step: imports that have been read are fewer than the tokens that they
  -- were read from
  fun_induction importStep v i pending with
  | case1 i a pending =>
    refine ⟨(fun e h => by cases h), fun b t h => ?_⟩
    cases h
    exact ⟨i, pending, rfl, by simp⟩
  | case2 | case6 => exact ⟨(fun e h => by cases h), (fun a t h => by cases h)⟩
  | case3 i hlt p hp hstarts e he => exact ⟨(fun _ _ => hlt), (fun a t h => by cases h)⟩
  | case4 i hlt p hp hstarts imports stop hat ih =>
    obtain ⟨hlength, hhi⟩ := length_importsAt hat
    have := val_of_pos? hp
    refine ⟨fun _ _ => hlt, fun a t h => ?_⟩
    obtain ⟨j, rest, ht, hlt'⟩ := ih.2 a t h
    exact ⟨j, rest, ht, by simp only [List.length_nil]; omega⟩
  | case5 i hlt p hp hstarts ih =>
    refine ⟨fun _ _ => hlt, fun a t h => ?_⟩
    obtain ⟨j, rest, ht, hlt'⟩ := ih.2 a t h
    exact ⟨j, rest, ht, by simp only [List.length_nil] at hlt' ⊢; omega⟩

theorem importCursor_advances :
    v.importCursor.Advances (fun _ => True) fun s => v.hi - s.1 + s.2.length := by
  constructor
  · intro s e _ h
    have := (importStep_left s.1 s.2).1 e h
    omega
  · intro s a _ h
    obtain ⟨j, rest, ht, _⟩ := (importStep_left s.1 s.2).2 a none h
    cases ht
  · intro s a t _ h
    obtain ⟨j, rest, ht, hlt⟩ := (importStep_left s.1 s.2).2 a (some t) h
    cases ht
    exact ⟨trivial, hlt⟩

theorem Framed.length_nodes (hv : v.Framed) : v.nodes.length = v.hi - v.lo := by
  have := hv.hi_le
  simp only [Graph.size] at this
  simp only [nodes, Array.length_toList, Array.size_extract]
  omega

end View

namespace Cursor

variable {σ α : Type} {c : Cursor σ α} {start : σ} {rs : List (Except Error α)}

theorem Runs.error_last {s : Option σ} {i : Nat} {e : Error} (h : c.Runs s rs)
    (hi : rs[i]? = some (.error e)) :
    i + 1 = rs.length := by
  induction h generalizing i with
  | done | finish => cases hi
  | fail h =>
    cases i with
    | zero => rfl
    | succ i => cases hi
  | yield h ht ih =>
    cases i with
    | zero => cases hi
    | succ i => exact congrArg (· + 1) (ih hi)

/-- Asked as often as one likes, the cursor hands out the results of the listing and then nothing
any more. There are at most `m` results, and only the last one can be an error. -/
structure Ends (c : Cursor σ α) (start : σ) (l : Listing α) (m : Nat) : Prop where
  answers : ∀ n, c.answers n (some start) = (l.results.map some ++ List.replicate n none).take n
  count : l.results.length ≤ m
  error_last : ∀ i e, l.results[i]? = some (.error e) → i + 1 = l.results.length

theorem Runs.ends {l : Listing α} {inv : σ → Prop} {left : σ → Nat} {m : Nat}
    (h : c.Runs (some start) l.results) (hc : c.Advances inv left) (hinv : inv start)
    (hm : left start ≤ m) : c.Ends start l m :=
  ⟨h.answers_eq, Nat.le_trans (h.length_le hc hinv) hm, fun _ _ hi => h.error_last hi⟩

end Cursor

namespace View

variable {x : Taxonomy} {f : Flags} {g : Graph} {root v : View}

theorem Framed.entryCursor_ends {set : KindSet} {entry : v.Pos → Option (Except Error (Item × Nat))}
    (hv : v.Framed)
    (hnext : ∀ (p : v.Pos) (a : Item) (n : Nat), p < v.hi → entry p = some (.ok (a, n)) → p < n) :
    (v.entryCursor set entry).Ends v.lo (v.scan set (v.entryReading entry) v.lo) v.nodes.length :=
  (entryCursor_runs hnext v.lo).ends (entryCursor_advances hnext) trivial
  (Nat.le_of_eq hv.length_nodes.symm)

/-- In every view that can be reached in a linked graph of any taxonomy, the links by which a search
goes on or back never lead the other way, and each of the six enumerations ends: asked again and
again it gives the results of its listing, no more than the view has tokens (one namespace if it has
none), with an error as the last one at most, and then nothing for good. -/
theorem enumerations_end (hg : Built x f g) (hroot : ofGraph g = .ok root) (hv : root.Reaches v) :
    (v.lo ≤ v.hi ∧ v.hi ≤ v.graph.size ∧ ∀ (p : v.Pos) (j : Nat),
      ((v.node p).prevCode = some j → j < p) ∧ ((v.node p).nextCode = some j → p < j) ∧
      ((v.node p).closedBy = some j → p < j)) ∧
    (∀ copy, (v.namespaceCursor copy).Ends .start (v.namespaces copy) (max 1 v.nodes.length)) ∧
    (∀ copy, (v.typeCursor copy).Ends v.lo (v.types copy) v.nodes.length) ∧
    (∀ copy, (v.functionCursor copy).Ends v.lo (v.functions copy) v.nodes.length) ∧
    v.constantCursor.Ends (v.lo, none) v.constants v.nodes.length ∧
    (∀ l, v.properties = .ok l → v.propertyCursor.Ends v.lo l v.nodes.length) ∧
    v.importCursor.Ends (v.lo, []) v.imports v.nodes.length := by
  have hf := hv.framed hg hroot
  have hlength := hf.length_nodes
  refine ⟨⟨hf.lo_le, hf.hi_le, fun p j => ?_⟩, fun copy => ?_, fun copy => ?_, fun copy => ?_, ?_,
    fun l hl => ?_, ?_⟩
  · have hnode := hf.linked.nodes p _ (getElem?_pos p)
    exact ⟨fun h => ((hnode.prevCode j).mp h).lt, fun h => ((hnode.nextCode j).mp h).le,
      fun h => ((hnode.closedBy j).mp h).lt⟩
  · refine (namespaceCursor_runs fun p item n _ h => hf.namespaceAt_lt h).ends
      (namespaceCursor_advances hf) (by rintro _ ⟨⟩) ?_
    rw [hlength]
    exact Nat.le_refl _
  · rw [types, readType]
    refine hf.entryCursor_ends fun p a n _ h => ?_
    unfold typeEntry at h
    split at h
    · cases h
    · exact hf.typeAt_lt (Option.some.inj h)
  · rw [functions, readFunction]
    refine hf.entryCursor_ends fun p a n _ h => ?_
    unfold functionEntry at h
    split at h
    · cases h
    · obtain ⟨q, hq, h⟩ := Option.map_eq_some_iff.mp h
      exact hf.functionAt_lt hq h
  · exact (constantCursor_runs v.lo).ends constantCursor_advances (by simp)
      (Nat.le_of_eq hlength.symm)
  · unfold properties at hl
    split at hl
    · cases hl
      exact hf.entryCursor_ends fun p a n _ h => hf.propertyAt_lt (Option.some.inj h)
    · cases hl
  · refine (importCursor_runs v.lo).ends importCursor_advances trivial ?_
    rw [hlength]
    exact Nat.le_refl _

/-- A taxonomy in which a semicolon opens a bracket and still ends a statement. The second of two
constants has no value: the cursor gives the first one, then the error, then nothing. -/
theorem enumerations_end_sample :
    ∃ (g : Graph) (root : View) (item : Item) (e : Error),
      link { Taxonomy.php with openers := .ofList [.semicolon] } {}
        [⟨.constKw, "const", 0, 1⟩, ⟨.string, "A", 5, 1⟩, ⟨.equals, "=", 6, 1⟩,
          ⟨.lnumber, "1", 7, 1⟩, ⟨.comma, ",", 8, 1⟩, ⟨.string, "B", 9, 1⟩,
          ⟨.semicolon, ";", 10, 1⟩, ⟨.closeBrace, "\x7d", 11, 1⟩] = .ok g ∧
      ofGraph g = .ok root ∧ item.name = "A" ∧ e = .structural 1 .constantWithoutValue ∧
      root.constantCursor.answers 4 (some (root.lo, none)) =
        [some (.ok item), some (.error e), none, none] ∧
      root.constants.results.length ≤ root.nodes.length := by
  suffices h : ∃ (g : Graph) (root : View),
      link { Taxonomy.php with openers := .ofList [.semicolon] } {} _ = .ok g ∧
      ofGraph g = .ok root ∧ (root.constants.items.map (·.name), root.constants.error) =
        (["A"], some (.structural 1 .constantWithoutValue)) by
    obtain ⟨g, root, hl, hroot, h⟩ := h
    obtain ⟨hnames, herror⟩ := Prod.mk.inj h
    obtain ⟨_, _, _, _, hends, _⟩ := enumerations_end (.link hl) hroot .refl
    obtain ⟨item, hitems, hname⟩ := List.map_eq_singleton_iff.mp hnames
    refine ⟨g, root, item, _, hl, hroot, hname, rfl, ?_, hends.count⟩
    rw [hends.answers 4, Listing.results, hitems, herror]
    rfl
  exact ⟨_, _, rfl, rfl, by decide +kernel⟩

end View

end PhpOutline
