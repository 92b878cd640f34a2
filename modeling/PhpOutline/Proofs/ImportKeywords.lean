import PhpOutline.Proofs.Identifiers
import PhpOutline.Proofs.NamespaceImports
import PhpOutline.Proofs.OutlineErrors
import PhpOutline.Proofs.ScanStops

/-!
# Keywords in imports

In a use statement `function` and `const` say what is imported, before the clause, before an item of
it or of a group, or they are an alias. The listings of functions and of constants look only at the
code before such a keyword, and pass it over if that is `use`. What is in a group they do not see.
All other keywords of the statement they take for declarations.
-/

namespace PhpOutline

open PhpOutline.Graph

namespace View

section

variable (v : View)

def IsImportWord (j : v.Pos) : Prop := v.kind j = .functionKw ∨ v.kind j = .constKw

/-- A word before an item comes behind a comma or the brace of a group. As an alias it comes behind
`as`. -/
def Signals (i j : v.Pos) : Prop := v.IsImportWord j → v.kind i ∈ [.comma, .openBrace, .asKw]

def ReportsFunction (copy : Nat) (j : v.Pos) : Prop :=
  v.Reports (.ofList [.functionKw]) (v.readFunction copy) j

def PassesFunction (copy : Nat) (j : v.Pos) : Prop :=
  v.Passed (.ofList [.functionKw]) (v.readFunction copy) j

def ReportsConstant (j : v.Pos) : Prop := v.Reports (.ofList [.constKw]) v.readConstants j

def PassesConstant (j : v.Pos) : Prop := v.Passed (.ofList [.constKw]) v.readConstants j

end

variable {v : View} {p q u j o c : v.Pos} {code behind word name tail : List v.Pos} {own : String}
  {w : Option ImportKind} {aliasName : Option String} {tree : UseTree}

/-! ## Where the words stand in a clause -/

theorem not_importWord_of_kind {k : Kind} (h : v.kind j = k)
    (hne : k ≠ .functionKw ∧ k ≠ .constKw) :
    ¬ v.IsImportWord j := by
  rintro (hj | hj)
  · exact hne.1 (h.symm.trans hj)
  · exact hne.2 (h.symm.trans hj)

theorem signals_of_not_word (h : ¬ v.IsImportWord j) (i : v.Pos) : v.Signals i j :=
  fun hj => absurd hj h

theorem Balanced.not_importWord_of_closedBy (hv : v.Balanced)
    (h : (v.node o).closedBy = some c.val) :
    ¬ v.IsImportWord c := by
  have hcloser := hv.isCloser_of_closedBy h
  rintro (hc | hc)
  · rw [hc] at hcloser
    cases hcloser
  · rw [hc] at hcloser
    cases hcloser

theorem NameRun.not_importWord (hv : v.Balanced) (h : v.NameRun name behind own) :
    ∀ i ∈ name, ¬ v.IsImportWord i := by
  intro i hi
  have hsegment := h.segments i hi
  rw [Segment, hv.php] at hsegment
  rintro (hk | hk)
  · rw [hk] at hsegment
    cases hsegment
  · rw [hk] at hsegment
    cases hsegment

theorem UseAlias.signals (h : v.UseAlias own tail aliasName) :
    tail.IsChain v.Signals ∧ ∀ i ∈ tail.head?, ¬ v.IsImportWord i := by
  cases h with
  | bare => exact ⟨.nil, by simp⟩
  | @named i j hi =>
    refine ⟨List.isChain_cons_cons.mpr ⟨fun _ => by simp [hi], .singleton j⟩, ?_⟩
    simpa using not_importWord_of_kind hi (by decide)

theorem CommaThen.signals (h : v.CommaThen (fun code => code.IsChain v.Signals) behind) :
    behind.IsChain v.Signals ∧ ∀ i ∈ behind.head?, ¬ v.IsImportWord i := by
  cases h with
  | nil => exact ⟨.nil, by simp⟩
  | comma hi h =>
    refine ⟨List.isChain_cons.mpr ⟨fun _ _ _ => by simp [hi], h⟩, ?_⟩
    simpa using not_importWord_of_kind hi (by decide)

theorem isChain_append_of_head {code' : List v.Pos} (h : code.IsChain v.Signals)
    (h' : code'.IsChain v.Signals) (hhead : ∀ i ∈ code'.head?, ¬ v.IsImportWord i) :
    (code ++ code').IsChain v.Signals :=
  List.isChain_append.mpr ⟨h, h', fun i _ j hj => signals_of_not_word (hhead j hj) i⟩

theorem isChain_item (hv : v.Balanced) (hw : v.UseWord word w) (hn : v.NameRun name behind own)
    (h : code.IsChain v.Signals) (hhead : ∀ i ∈ code.head?, ¬ v.IsImportWord i) :
    (word ++ (name ++ code)).IsChain v.Signals := by
  have hname := hn.not_importWord hv
  have hbehind : (name ++ code).IsChain v.Signals ∧
      ∀ i ∈ (name ++ code).head?, ¬ v.IsImportWord i := by
    clear hn
    induction name with
    | nil => exact ⟨h, hhead⟩
    | cons i name ih =>
      rw [List.forall_mem_cons] at hname
      obtain ⟨hchain, hnext⟩ := ih hname.2
      refine ⟨List.isChain_cons.mpr ⟨fun j hj => signals_of_not_word (hnext j hj) i, hchain⟩, ?_⟩
      simpa using hname.1
  cases hw with
  | absent => exact hbehind.1
  | function | const => exact isChain_append_of_head (.singleton _) hbehind.1 hbehind.2

theorem UseList.isChain (hv : v.Balanced) (h : v.UseList code tree) : code.IsChain v.Signals := by
  refine UseList.code_rec (P := (·.IsChain v.Signals)) ?_ ?_ ?_ h
  · exact .nil
  · intro word name tail behind w own aliasName hw hn ht hr
    obtain ⟨hchain, hhead⟩ := ht.signals
    obtain ⟨hrest, hcomma⟩ := hr.signals
    refine isChain_item hv hw hn (isChain_append_of_head hchain hrest hcomma) ?_
    cases tail with
    | nil => exact hcomma
    | cons i tail => exact hhead
  · intro word name inner behind o c w own hw hn ho hoc hinner hr
    obtain ⟨hrest, hcomma⟩ := hr.signals
    have hbehind := isChain_append_of_head (.singleton c) hrest hcomma
    have hgroup := isChain_append_of_head hinner hbehind
      (by simpa using hv.not_importWord_of_closedBy hoc)
    refine isChain_item hv hw hn (List.isChain_cons.mpr ⟨fun _ _ _ => by simp [ho], hgroup⟩) ?_
    simpa using not_importWord_of_kind ho (by decide)

/-! ## Where the words stand in a statement -/

theorem isChain_adjacent {a b : Nat} (hlo : v.lo ≤ a) (hhi : b ≤ v.hi)
    (hb : b ≤ v.graph.nodes.size) :
    ((v.between a b).filter v.isCode).IsChain v.Adjacent := by
  -- by induction on the end: the last code token before the next one is next to it
  induction b with
  | zero => rw [v.between_nil (Nat.zero_le a)]; exact .nil
  | succ n ih =>
    rcases Nat.lt_or_ge n a with hlt | hle
    · rw [v.between_nil hlt]
      exact .nil
    · let q : v.Pos := ⟨n, hb⟩
      have hq : a ≤ q.val := hle
      rw [show n + 1 = q.val + 1 from rfl, between_succ hq, List.filter_append,
        List.filter_singleton]
      cases hcode : v.isCode q with
      | false =>
        rw [cond_false, List.append_nil]
        exact ih (by omega) (by omega)
      | true =>
        refine List.isChain_append.mpr ⟨ih (by omega) (by omega), .singleton q, fun p hp r hr => ?_⟩
        cases hr
        obtain ⟨hap, hpq, hpc, hbetween⟩ := getLast?_filter_between hp
        exact ⟨⟨hpq, hpc, hcode, hbetween⟩, by omega, hhi⟩

/-- What comes before a word of a use statement: `use`, the word of the whole clause, or what comes
before an item or an alias. -/
def LeadsWord (v : View) (q : v.Pos) : Prop :=
  v.kind q ∈ [.useKw, .comma, .openBrace, .asKw] ∨ v.IsImportWord q ∧ v.AfterUse q

def WordPlace (v : View) (j : v.Pos) : Prop := ∃ q, v.Adjacent q j ∧ v.LeadsWord q

theorem UseClause.isChain {kind : ImportKind} (hv : v.Balanced) (hu : v.kind u = .useKw)
    (h : v.UseClause code kind tree) (hadjacent : (u :: code).IsChain v.Adjacent) :
    (u :: code).IsChain fun q j => v.IsImportWord j → v.LeadsWord q := by
  have hafter : v.LeadsWord u := .inl (by simp [hu])
  cases h with
  | @intro word items _ _ hword _ hitems =>
    have hsignals := (hitems.isChain hv).imp (S := fun q j => v.IsImportWord j → v.LeadsWord q)
      fun q j hqj hj =>
      .inl (List.mem_cons_of_mem _ (hqj hj))
    have hbehind : ∀ w, v.IsImportWord w → (u :: w :: items).IsChain v.Adjacent →
        (u :: w :: items).IsChain fun q j => v.IsImportWord j → v.LeadsWord q := by
      intro w hw hadjacent
      have huse : v.AfterUse w := ⟨u, (List.isChain_cons_cons.mp hadjacent).1, hu⟩
      exact List.isChain_cons_cons.mpr
        ⟨fun _ => hafter, List.isChain_cons.mpr ⟨fun _ _ _ => .inr ⟨hw, huse⟩, hsignals⟩⟩
    cases hword with
    | absent => exact List.isChain_cons.mpr ⟨fun _ _ _ => hafter, hsignals⟩
    | function h => exact hbehind _ (.inl h) hadjacent
    | const h => exact hbehind _ (.inr h) hadjacent

theorem Balanced.wordPlace_of_importsAt {imports : List Import} {stop : Nat} (hv : v.Balanced)
    (hlo : v.lo ≤ u) (hu : v.kind u = .useKw) (h : v.importsAt u = .ok (imports, stop))
    (huj : u < j) (hjs : j < stop) (hj : v.IsImportWord j) : v.WordPlace j := by
  obtain ⟨e, rfl, hue, hehi, _, _, hread⟩ := clause_of_importsAt h
  obtain ⟨_, _, hclause⟩ := useClause_of_readClause hread
  have hadjacent : (u :: v.clause u e).IsChain v.Adjacent := by
    have := isChain_adjacent (a := u) (b := e) hlo (Nat.le_of_lt hehi) (Nat.le_of_lt e.isLt)
    rwa [between_cons hue, List.filter_cons, if_pos (hv.isCode_of_kind hu rfl)] at this
  have hmem : j ∈ v.clause u e := by
    refine mem_clause.mpr ⟨huj, hjs, ?_⟩
    rcases hj with hj | hj
    · exact hv.isCode_of_kind hj rfl
    · exact hv.isCode_of_kind hj rfl
  obtain ⟨q, hq, hqj⟩ := exists_of_isChain hadjacent (hclause.isChain hv hu hadjacent) hmem
  exact ⟨q, hq, hqj hj⟩

/-! ## What the listings report -/

namespace Balanced

theorem readFunction_cases (hv : v.Balanced) (hp : v.Found (.ofList [.functionKw]) p) (copy : Nat) :
    (v.NoFunction p → v.readFunction copy p = .skip (p + 1)) ∧
      (¬ v.AfterUse p → ∀ n, v.NamesFunction p n →
        v.readFunction copy p = .ofItem (v.functionAt copy p n)) := by
  have hcode : v.isCode p = true := hv.isCode_of_kind (kind_of_singleton hp.mem) rfl
  have huse := hv.follows_iff_adjacent (k := .useKw) hp.lt hcode
  have hname := fun {n} => hv.functionName?_iff (n := n) hp.ground.lo_le hcode
  rw [readFunction_eq]
  constructor
  · rintro (hafter | hnone)
    · rw [if_pos (huse.mpr hafter)]
    · cases hn : v.functionName? p with
      | none => exact ite_self _
      | some n => exact absurd (hname.mp hn) (hnone n)
  · intro hafter n hn
    rw [if_neg (mt huse.mp hafter), hname.mpr hn]

theorem readConstants_eq (hv : v.Balanced) (hp : v.Found (.ofList [.constKw]) p) :
    (v.AfterUse p → v.readConstants p = .skip (p + 1)) ∧
      (¬ v.AfterUse p → v.readConstants p = v.constantsAt p) := by
  have hcode : v.isCode p = true := hv.isCode_of_kind (kind_of_singleton hp.mem) rfl
  have huse := hv.follows_iff_adjacent (k := .useKw) hp.lt hcode
  unfold readConstants
  exact ⟨fun h => if_pos (huse.mpr h), fun h => if_neg (mt huse.mp h)⟩

end Balanced

theorem constantsAt_reports (p : v.Pos) :
    (v.constantsAt p).items ≠ [] ∨ ∃ e, (v.constantsAt p).failure = some e := by
  rw [constantsAt_eq]
  split <;> simp [Reading.failure]

namespace Balanced

theorem reportsFunction_iff (hv : v.Balanced) (copy : Nat) (j : v.Pos) :
    v.ReportsFunction copy j ↔ v.AtTop j ∧ v.kind j = .functionKw ∧ ¬ v.NoFunction j ∧
      ¬ v.PassesFunction copy j := by
  rw [ReportsFunction, hv.reports_iff (fun p hp => (hv.readFunction_reads hp).next)
    (fun k hk => isCloser_of_isPlain (begins_functionKw k hk).1)
    (fun p hp => (hv.readFunction_cases hp copy).1)]
  · simp [PassesFunction]
  · intro p hp hno
    simp only [NoFunction, not_or, not_forall, not_not] at hno
    obtain ⟨hafter, n, hn⟩ := hno
    rw [(hv.readFunction_cases hp copy).2 hafter n hn]
    exact ofItem_reports _

theorem reportsConstant_iff (hv : v.Balanced) (j : v.Pos) :
    v.ReportsConstant j ↔ v.AtTop j ∧ v.kind j = .constKw ∧ ¬ v.AfterUse j ∧
      ¬ v.PassesConstant j := by
  rw [ReportsConstant, hv.reports_iff (fun p hp => (hv.readConstants_reads hp).next)
    (fun k hk => by rw [show k = .constKw by simpa using hk]; rfl)
    (fun p hp => (hv.readConstants_eq hp).1)]
  · simp [PassesConstant]
  · intro p hp hafter
    rw [(hv.readConstants_eq hp).2 hafter]
    exact constantsAt_reports p

theorem not_atTop_of_enclosed (hv : v.Balanced) (hj : v.IsImportWord j)
    (hc : (v.node o).closedBy = some c.val) (hoj : o < j) (hjc : j < c) : ¬ v.AtTop j := by
  intro htop
  have hplain : isPlain (v.kind j) = true := by rcases hj with hj | hj <;> rw [hj] <;> rfl
  obtain ⟨hground, _⟩ := hv.ground_of_atTop htop hplain
  exact hv.not_ground_inside hc hoj (Nat.le_of_lt hjc) hground

end Balanced

/-! ## What is read in a clause -/

/-- Code with the text of an identifier has the kind of a word. -/
def WordsNamed (v : View) : Prop :=
  ∀ i : v.Pos, v.isCode i = true → Text.isIdentifier (v.node i).text = true →
    v.kind i ∈ wordKinds ∨ v.kind i = .endHeredoc

theorem wordsNamed_of_reaches {source : String} {f : Flags} {root : View}
    (hroot : ofSource source f = .ok root) (hv : root.Reaches v) (hb : v.Balanced) :
    v.WordsNamed := by
  intro i hcode hid
  obtain ⟨ts, _, hts, _⟩ := ofSource_ok hroot
  rw [isCode, hb.php] at hcode
  exact mem_wordKinds_of_isIdentifier hts (toToken_mem_of_reaches hts hroot hv i) hcode hid

theorem isPlain_of_word {k : Kind} (h : k ∈ wordKinds ∨ k = .endHeredoc) :
    isPlain k = true ∧ k ≠ .equals := by
  have hall : ∀ k ∈ .endHeredoc :: wordKinds, isPlain k = true ∧ k ≠ .equals := by decide
  exact hall k (by rw [List.mem_cons]; exact h.symm)

theorem isPlain_of_segment {k : Kind} (h : Taxonomy.php.nameSegments.contains k = true) :
    isPlain k = true ∧ k ≠ .equals := by
  cases k <;> first | exact ⟨rfl, Kind.noConfusion⟩ | cases h

namespace Balanced

variable {e : v.Pos} {imports : List Import} {stop : Nat}

theorem closes_in_clause (hv : v.Balanced) (hw : v.WordsNamed) (hehi : e < v.hi)
    (hread : v.readClause (v.clause u e) = .ok imports) (hp : p ∈ v.clause u e) :
    v.kind p ≠ .equals ∧ ∀ c, (v.node p).closedBy = some c → c < e := by
  obtain ⟨_, hpe, hcode⟩ := mem_clause.mp hp
  have hplain : isPlain (v.kind p) = true ∧ v.kind p ≠ .equals →
      v.kind p ≠ .equals ∧ ∀ c, (v.node p).closedBy = some c → c < e := by
    rintro ⟨hk, hne⟩
    refine ⟨hne, fun c hc => ?_⟩
    rw [hv.closedBy_of_plain (Nat.lt_trans hpe hehi) hk] at hc
    cases hc
  cases clauseToken_of_readClause hread hp with
  | sign hk =>
    have hall : ∀ k ∈ [Kind.functionKw, .constKw, .asKw, .comma], isPlain k = true ∧
        k ≠ .equals := by decide
    exact hplain (hall _ hk)
  | segment hk =>
    rw [hv.php] at hk
    exact hplain (isPlain_of_segment hk)
  | named ht => exact hplain (isPlain_of_word (hw p hcode ht))
  | opens hk hc hclosed =>
    refine ⟨by simp [hk], fun c' hc' => ?_⟩
    cases hclosed.symm.trans hc'
    exact (mem_clause.mp hc).2.1
  | closes _ hclosed =>
    have hcloser := hv.isCloser_of_closedBy hclosed
    refine ⟨fun hk => ?_, fun c hc => ?_⟩
    · rw [hk] at hcloser
      cases hcloser
    · have hopens := (hv.pair_of_closedBy hc).openAt.opens
      rw [(hv.pair_of_closedBy hclosed).closes] at hopens
      cases hopens

/-- If a word of a clause is at the top, so is the end of the statement: no bracket is open
there. -/
theorem end_atTop (hv : v.Balanced) (hw : v.WordsNamed) (hehi : e < v.hi)
    (hread : v.readClause (v.clause u e) = .ok imports) (hj : v.AtTop j) (huj : u < j)
    (hje : j < e) : v.AtTop e := by
  have hlo : v.lo ≤ e := Nat.le_trans hj.lo_le (Nat.le_of_lt hje)
  refine ⟨hlo, hehi, (hv.parent_eq_none_iff hlo hehi (getElem?_pos e)).mpr
    fun o c m hle hoe hm hc => ?_⟩
  rcases Nat.lt_or_ge o j with hoj | hjo
  · have hcj := (hv.parent_eq_none_iff hj.lo_le hj.lt_hi (getElem?_pos j)).mp hj.parent o c m hle
      hoj hm hc
    exact Nat.le_trans hcj (Nat.le_of_lt hje)
  · obtain ⟨hlt, rfl⟩ := Array.getElem?_eq_some_iff.mp hm
    let o' : v.Pos := ⟨o, hlt⟩
    have hopener := (hv.linked.roles_opens_iff hv.matched hm).mp
      (hv.pair_of_closedBy (p := o') hc).openAt.opens
    rw [hv.php] at hopener
    have hcode : v.isCode o' = true := by
      rw [isCode, hv.php]
      exact Mirrors.isCode_of_bracket (.inl hopener)
    have hmem : o' ∈ v.clause u e := mem_clause.mpr ⟨Nat.lt_of_lt_of_le huj hjo, hoe, hcode⟩
    exact Nat.le_of_lt ((hv.closes_in_clause hw hehi hread hmem).2 c hc)

theorem use_atTop (hv : v.Balanced) (hw : v.WordsNamed) (hlo : v.lo ≤ u)
    (hat : v.importsAt u = .ok (imports, stop)) (hj : v.AtTop j) (huj : u < j) (hjs : j < stop) :
    v.AtTop u := by
  have huhi : u < v.hi := Nat.lt_trans huj hj.lt_hi
  refine ⟨hlo, huhi, (hv.parent_eq_none_iff hlo huhi (getElem?_pos u)).mpr
    fun o c m hle hou hm hc => ?_⟩
  have hcj := (hv.parent_eq_none_iff hj.lo_le hj.lt_hi (getElem?_pos j)).mp hj.parent o c m hle
    (Nat.lt_trans hou huj) hm hc
  by_contra huc
  obtain ⟨hlt, rfl⟩ := Array.getElem?_eq_some_iff.mp hm
  let o' : v.Pos := ⟨o, hlt⟩
  let c' : v.Pos := ⟨c, Nat.lt_of_le_of_lt hcj j.isLt⟩
  have hclosed : (v.node o').closedBy = some c'.val := hc
  have hcloser := hv.isCloser_of_closedBy hclosed
  have htext : Text.isIdentifier (v.node c').text = false := by
    rw [Bool.eq_false_iff]
    intro hid
    have hcode : v.isCode c' = true := by
      rw [isCode, hv.php]
      exact Mirrors.isCode_of_bracket (.inr hcloser)
    rw [isCloser_of_isPlain (isPlain_of_word (hw c' hcode hid)).1] at hcloser
    cases hcloser
  obtain ⟨e, rfl, _, _, _, hbefore, _⟩ := clause_of_importsAt hat
  obtain ⟨err, herr⟩ := hv.importsAt_fails_over_closer hclosed htext hou
    (show u < c' from not_le.mp huc) fun r hur hrc =>
      hbefore r hur (Nat.lt_trans (Nat.lt_of_lt_of_le hrc hcj) hjs)
  rw [hat] at herr
  cases herr

theorem constantsAt_in_clause (hv : v.Balanced) (hw : v.WordsNamed)
    (hat : v.importsAt u = .ok (imports, stop)) (hj : v.AtTop j) (huj : u < j) (hjs : j < stop)
    (hk : v.kind j = .constKw) :
    v.constantsAt j = ⟨[], .error (.structural (v.node j).line .constantWithoutValue)⟩ := by
  obtain ⟨e, rfl, _, hehi, hend, _, hread⟩ := clause_of_importsAt hat
  have hje : j < e := hjs
  obtain ⟨_, hground⟩ := hv.ground_of_atTop hj (by rw [hk]; rfl)
  have hends : Taxonomy.php.terminators.contains (v.kind e) = true := by
    rwa [endsStatement, hv.php] at hend
  have hstops : (v.valueEnd.insert .equals).contains (v.kind e) = true := by
    rw [KindSet.contains_insert, valueEnd, hv.php, KindSet.contains_insert, hends]
    rfl
  have hhead : v.constantHead j = .error (.structural (v.node j).line .constantWithoutValue) := by
    unfold constantHead
    split
    · rfl
    · rename_i q hq
      have hfirst := (hv.sibling?_eq_some_iff hground hv.isCloser_valueEnd_equals).mp hq
      have hqe := hfirst.first e (hv.end_atTop hw hehi hread hj huj hje) hstops hje
      rw [if_pos]
      intro hequals
      rcases Nat.eq_or_lt_of_le hqe with heq | hlt
      · rw [← Fin.ext heq, hequals] at hends
        cases hends
      · have hmem : q ∈ v.clause u e :=
          mem_clause.mpr ⟨Nat.lt_trans huj hfirst.le, hlt, hv.isCode_of_kind hequals rfl⟩
        exact (hv.closes_in_clause hw hehi hread hmem).1 hequals
  rw [constantsAt_eq, constantAt, hhead]
  rfl

theorem functionAt_of_stop {n : v.Pos} (hv : v.Balanced) (hs : v.scope.member = none)
    (hq : v.sibling? v.bodyOrEnd (n + 1) = some q) (j : v.Pos) (copy : Nat) :
    ∃ item next, v.functionAt copy j n = .ok (item, next) ∧ item.name = (v.node n).text := by
  unfold functionAt
  rw [hq]
  dsimp only
  rw [Scope.enterMember, hs]
  dsimp only [bind, Except.bind, pure, Except.pure]
  split
  · rename_i hbrace
    have hlt := (sibling?_bounds hq).2
    obtain ⟨c, hc⟩ := hv.closer_of_brace hbrace hlt
    obtain ⟨body, hbody⟩ := hv.block_of_brace hbrace hlt copy
      { v.scope with member := some ⟨.function, (v.node n).text, v.mark n⟩ }
    rw [hc, hbody]
    exact ⟨_, _, rfl, rfl⟩
  · exact ⟨_, _, rfl, rfl⟩

theorem functionAt_in_clause {n : v.Pos} (hv : v.Balanced) (hw : v.WordsNamed)
    (hs : v.scope.member = none) (hat : v.importsAt u = .ok (imports, stop)) (hj : v.AtTop j)
    (huj : u < j) (hjs : j < stop) (hk : v.kind j = .functionKw) (hn : v.NamesFunction j n)
    (hns : n < stop) (copy : Nat) :
    ∃ item next, v.functionAt copy j n = .ok (item, next) ∧ item.name = (v.node n).text := by
  obtain ⟨e, rfl, _, hehi, hend, _, hread⟩ := clause_of_importsAt hat
  obtain ⟨hground, _⟩ := hv.ground_of_atTop hj (by rw [hk]; rfl)
  have hname := (hv.functionName?_iff hj.lo_le (hv.isCode_of_kind hk rfl)).mpr hn
  obtain ⟨hbehind, _⟩ := hv.functionName?_ground hground hk hname
  have hends : v.bodyOrEnd.contains (v.kind e) = true := by
    rw [hv.bodyOrEnd_contains]
    rw [endsStatement, hv.php] at hend
    exact .inr hend
  cases hq : v.sibling? v.bodyOrEnd (n + 1) with
  | some q => exact hv.functionAt_of_stop hs hq j copy
  | none =>
    have hfound := (hv.found_iff hv.isCloser_bodyOrEnd).mpr
      ⟨hv.end_atTop hw hehi hread hj huj hjs, hends⟩
    have hlt := (hv.sibling?_passes hbehind).2 hq e hfound
    exact absurd hns (Nat.not_lt.mpr (Nat.le_of_lt_succ hlt))

end Balanced

theorem member_of_startsImport (hp : v.AtTop p) (h : v.startsImport p = true) :
    v.scope.member = none := by
  rw [startsImport, hp.parent, Bool.and_eq_true] at h
  have hlevel : v.scope.isNamespaceLevel = true := h.2
  rw [Scope.isNamespaceLevel, Bool.and_eq_true] at hlevel
  exact Option.isNone_iff_eq_none.mp hlevel.2

/-- The functions and the constants of a view are what is read where their scans stop. A keyword of
an import that is read without an error stands behind `use`, behind the keyword of the whole clause,
or before an item or an alias. It is not reported behind `use` nor in a group. Elsewhere a function
is reported if and only if a name follows, and a constant always, unless the scan has passed the
keyword. What is reported is a function with the name that the clause has there, and for a constant
the error that it has no value. -/
theorem import_keyword_reported_iff {source : String} {f : Flags} {root v : View} {u j : v.Pos}
    {imports : List Import} {stop : Nat} (hroot : ofSource source f = .ok root)
    (hv : root.Reaches v) (hu : u ∈ v.statements) (hat : v.importsAt u = .ok (imports, stop))
    (huj : u < j) (hjs : j < stop) (hj : v.IsImportWord j) (copy : Nat) :
    v.functions copy = v.readStops (.ofList [.functionKw]) (v.readFunction copy) ∧
    v.constants = v.readStops (.ofList [.constKw]) v.readConstants ∧
    v.WordPlace j ∧
    (v.AfterUse j ∨ (∃ o c : v.Pos, (v.node o).closedBy = some c.val ∧ o < j ∧ j < c) →
      ¬ v.ReportsFunction copy j ∧ ¬ v.ReportsConstant j) ∧
    (v.AtTop j → ¬ v.AfterUse j →
      (v.ReportsFunction copy j ↔
        v.kind j = .functionKw ∧ (∃ n, v.NamesFunction j n) ∧ ¬ v.PassesFunction copy j) ∧
      (v.ReportsConstant j ↔ v.kind j = .constKw ∧ ¬ v.PassesConstant j) ∧
      (v.kind j = .functionKw → ∀ n : v.Pos, v.NamesFunction j n → n < stop →
        ∃ item next, v.readFunction copy j = ⟨[item], .ok next⟩ ∧ item.name = (v.node n).text) ∧
      (v.kind j = .constKw →
        v.readConstants j = ⟨[], .error (.structural (v.node j).line .constantWithoutValue)⟩)) := by
  obtain ⟨_, g, _, hlink, hg⟩ := ofSource_ok hroot
  have hb := hv.balanced (balanced_of_ofGraph (.link hlink) hg)
  have huse := kind_of_startsImport (mem_statementsFrom hu)
  have hplace := hb.wordPlace_of_importsAt (le_of_mem_statementsFrom hu) huse hat huj hjs hj
  refine ⟨v.scan_eq _ _, v.scan_eq _ _, hplace, ?_, fun htop hafter => ?_⟩
  · rw [hb.reportsFunction_iff, hb.reportsConstant_iff]
    rintro (hafter | ⟨o, c, hc, hoj, hjc⟩)
    · exact ⟨fun h => h.2.2.1 (.inl hafter), fun h => h.2.2.1 hafter⟩
    · have hnot := hb.not_atTop_of_enclosed hj hc hoj hjc
      exact ⟨fun h => hnot h.1, fun h => hnot h.1⟩
  · have hw := wordsNamed_of_reaches hroot hv hb
    have hfound : ∀ {k}, v.kind j = k → isPlain k = true → v.Found (.ofList [k]) j :=
      fun hk hplain =>
      ⟨(hb.ground_of_atTop htop (by rwa [hk])).1, htop.lt_hi, by simp [hk]⟩
    refine ⟨?_, ?_, fun hk n hn hns => ?_, fun hk => ?_⟩
    · rw [hb.reportsFunction_iff]
      simp [htop, hafter, NoFunction]
    · rw [hb.reportsConstant_iff]
      simp [htop, hafter]
    · have hmember := member_of_startsImport
        (hb.use_atTop hw (le_of_mem_statementsFrom hu) hat htop huj hjs) (mem_statementsFrom hu)
      obtain ⟨item, next, hok, hname⟩ := hb.functionAt_in_clause hw hmember hat htop huj hjs hk hn
        hns copy
      refine ⟨item, next, ?_, hname⟩
      rw [(hb.readFunction_cases (hfound hk rfl) copy).2 hafter n hn, hok]
      rfl
    · rw [(hb.readConstants_eq (hfound hk rfl)).2 hafter]
      exact hb.constantsAt_in_clause hw hat htop huj hjs hk

theorem import_keyword_reported_iff_sample :
    ∃ (root : View) (u j : root.Pos) (stop : Nat),
      ofSource "<?php use function A, B; function C();" = .ok root ∧ root.Reaches root ∧
      u ∈ root.statements ∧ root.importsAt u =
        .ok ([⟨"A", .function, "A"⟩, ⟨"B", .function, "B"⟩], stop) ∧ u < j ∧ j < stop ∧
      root.IsImportWord j ∧ root.WordPlace j ∧ ¬ root.ReportsFunction 0 j ∧
      ¬ root.ReportsConstant j ∧ root.functions.items.map (·.name) = ["C"] := by
  have h : ((ofSource "<?php use function A, B; function C();").toOption.bind fun root =>
      root.statements.head?.bind fun u => (root.nextCode? u).bind fun j =>
        (root.importsAt u).toOption.map fun r =>
        (decide (root.lo ≤ u ∧ root.kind u = .useKw ∧ j.val < r.2 ∧ root.kind j = .functionKw), r.1,
          root.functions.items.map (·.name))) =
      some (true, [⟨"A", .function, "A"⟩, ⟨"B", .function, "B"⟩], ["C"]) := by
    decide +kernel
  obtain ⟨root, hsource, h⟩ := Option.bind_eq_some_iff.mp h
  obtain ⟨u, hu, h⟩ := Option.bind_eq_some_iff.mp h
  obtain ⟨j, hj, h⟩ := Option.bind_eq_some_iff.mp h
  obtain ⟨⟨imports, stop⟩, hat, h⟩ := Option.map_eq_some_iff.mp h
  simp only [Prod.mk.injEq, decide_eq_true_eq] at h
  obtain ⟨⟨hlo, huse, hjs, hkind⟩, rfl, hnames⟩ := h
  have hroot := ok_of_toOption hsource
  obtain ⟨_, g, _, hlink, hg⟩ := ofSource_ok hroot
  have hb := balanced_of_ofGraph (.link hlink) hg
  have hadjacent := (hb.nextCode?_iff_adjacent hlo (hb.isCode_of_kind huse rfl)).mp hj
  have hmem := List.mem_of_mem_head? hu
  obtain ⟨_, _, hplace, hnot, _⟩ :=
    import_keyword_reported_iff hroot .refl hmem (ok_of_toOption hat) hadjacent.lt hjs
      (.inl hkind) 0
  obtain ⟨hfunction, hconstant⟩ := hnot (.inl ⟨u, hadjacent, huse⟩)
  exact ⟨root, u, j, stop, hroot, .refl, hmem, ok_of_toOption hat, hadjacent.lt, hjs, .inl hkind,
    hplace, hfunction, hconstant, hnames⟩

/-- Behind a comma, the keyword of an imported function declares a function, and that of a constant
is an error. -/
theorem import_keyword_declares :
    ((ofSource "<?php use A, function B;").toOption.bind fun root =>
      root.namespaces.items.head?.map fun i =>
        (i.view.imports.items, i.view.imports.error.isNone, i.view.functions.items.map (·.name))) =
      some ([⟨"A", .class_, "A"⟩, ⟨"B", .function, "B"⟩], true, ["B"]) ∧
    ((ofSource "<?php use A, const B;").toOption.bind fun root =>
      root.namespaces.items.head?.map fun i =>
        (i.view.imports.items, i.view.imports.error.isNone, i.view.constants.error)) =
      some ([⟨"A", .class_, "A"⟩, ⟨"B", .constant, "B"⟩], true,
        some (.structural 1 .constantWithoutValue)) := by
  decide +kernel

end View

end PhpOutline
