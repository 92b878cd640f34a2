import PhpOutline.Proofs.ClauseTransfer
import PhpOutline.Proofs.MirrorListings

/-!
# Enumerations one item at a time

A listing gives all items at once. Asked for one item after another, an enumeration keeps a state:
the index to go on from, the keyword or the comma that it stands at, or the imports that it has read
and not handed out. This is a cursor. A state from which nothing more comes, or in which an error
has been handed out, is left for good. Every enumeration of a view has its cursor here, and what a
cursor hands out, call by call, are the results of the listing (`Runs`).
-/

namespace PhpOutline

theorem Listing.results_after {α : Type} (l : Listing α) (items : List α) :
    (l.after items).results = items.map .ok ++ l.results := by
  simp [Listing.after, Listing.results]

namespace Cursor

variable {σ α : Type} (c : Cursor σ α)

def answers : Nat → Option σ → List (Option (Except Error α))
  | 0, _ => []
  | n + 1, s => (c.next s).1 :: answers n (c.next s).2

/-- From a state on the cursor hands out these results and then nothing more. -/
inductive Runs : Option σ → List (Except Error α) → Prop
  | done : Runs none []
  | finish {s : σ} (h : c s = .ok none) : Runs (some s) []
  | fail {s : σ} {e : Error} (h : c s = .error e) : Runs (some s) [.error e]
  | yield {s : σ} {t : Option σ} {a : α} {rs : List (Except Error α)}
      (h : c s = .ok (some (a, t))) (ht : Runs t rs) : Runs (some s) (.ok a :: rs)

variable {c} {s t : σ} {rs : List (Except Error α)}

theorem answers_none (n : Nat) : c.answers n none = List.replicate n none := by
  induction n with
  | zero => rfl
  | succ n ih => rw [answers, List.replicate_succ, ← ih]; rfl

theorem Runs.answers_eq {s : Option σ} (h : c.Runs s rs) (n : Nat) :
    c.answers n s = (rs.map some ++ List.replicate n none).take n := by
  induction h generalizing n with
  | done => simp [answers_none]
  | finish h =>
    cases n with
    | zero => rfl
    | succ n => simp [answers, next, h, answers_none, List.replicate_succ]
  | fail h =>
    cases n with
    | zero => rfl
    | succ n => simp [answers, next, h, answers_none, List.replicate_succ']
  | yield h _ ih =>
    cases n with
    | zero => rfl
    | succ n => simp [answers, next, h, ih, List.replicate_succ', List.take_append]

theorem Runs.congr (h : c.Runs (some t) rs) (hst : c s = c t) : c.Runs (some s) rs := by
  cases h with
  | finish h => exact .finish (hst.trans h)
  | fail h => exact .fail (hst.trans h)
  | yield h ht => exact .yield (hst.trans h) ht

/-- The states of the cursor that satisfy an invariant come closer to the end with every result. -/
structure Advances (c : Cursor σ α) (inv : σ → Prop) (left : σ → Nat) : Prop where
  fails : ∀ {s e}, inv s → c s = .error e → 0 < left s
  last : ∀ {s a}, inv s → c s = .ok (some (a, none)) → 0 < left s
  yields : ∀ {s a t}, inv s → c s = .ok (some (a, some t)) → inv t ∧ left t < left s

theorem Runs.length_le {inv : σ → Prop} {left : σ → Nat} (h : c.Runs (some s) rs)
    (hc : c.Advances inv left) (hs : inv s) : rs.length ≤ left s := by
  generalize hsome : some s = o at h
  induction h generalizing s with
  | done => cases hsome
  | finish h => exact Nat.zero_le _
  | fail h =>
    cases hsome
    exact hc.fails hs h
  | @yield _ t a rs h ht ih =>
    cases hsome
    cases t with
    | none =>
      cases ht
      exact hc.last hs h
    | some t =>
      obtain ⟨ht', hlt⟩ := hc.yields hs h
      exact Nat.le_trans (Nat.succ_le_succ (ih ht' rfl)) hlt

end Cursor

namespace View

variable {α σ : Type} {v : View} {set : KindSet} {i : Nat} {p : v.Pos}

/-! ## What the cursors hand out -/

theorem entryStep_of_none {entry : v.Pos → Option (Except Error (α × σ))}
    (h : v.sibling? set i = none) :
    v.entryStep set entry i = .ok none := by
  rw [entryStep]
  split
  · rfl
  · rename_i hp
    rw [h] at hp
    cases hp

theorem entryStep_of_some (entry : v.Pos → Option (Except Error (α × σ)))
    (h : v.sibling? set i = some p) :
    v.entryStep set entry i =
      match entry p with
      | none => v.entryStep set entry (p + 1)
      | some (.error e) => .error e
      | some (.ok (a, next)) => .ok (some (a, some next)) := by
  rw [entryStep]
  split
  · rename_i hnone
    rw [h] at hnone
    cases hnone
  · rename_i q hq
    rw [h] at hq
    cases hq
    rfl

theorem entryCursor_runs {entry : v.Pos → Option (Except Error (α × Nat))}
    (hnext : ∀ (p : v.Pos) (a : α) (n : Nat), p < v.hi → entry p = some (.ok (a, n)) → p < n)
    (i : Nat) :
    (v.entryCursor set entry).Runs (some i) (v.scan set (v.entryReading entry) i).results := by
  -- by the recursion of the scan: where it skips, the cursor's own search goes on, and a result of
  -- the scan is one of the cursor
  fun_induction scan v set (v.entryReading entry) i with
  | case1 i h => exact .finish (entryStep_of_none h)
  | case2 i p h r e he =>
    have hstep := entryStep_of_some entry h
    cases hentry : entry p with
    | none => simp [r, entryReading, hentry, Reading.skip] at he
    | some found =>
      cases found with
      | ok found => simp [r, entryReading, hentry, Reading.ofItem] at he
      | error e' =>
        rw [hentry] at hstep
        simp only [r, entryReading, hentry, Reading.ofItem, Except.error.injEq] at he ⊢
        subst he
        exact .fail hstep
  | case3 i p h r n hn ih =>
    have hstep := entryStep_of_some entry h
    rw [Listing.results_after]
    cases hentry : entry p with
    | none =>
      rw [hentry] at hstep
      simp only [r, entryReading, hentry, Reading.skip, Except.ok.injEq] at hn ⊢
      rw [← hn, Nat.max_self] at ih
      rw [← hn, Nat.max_self]
      exact ih.congr hstep
    | some found =>
      cases found with
      | error e' => simp [r, entryReading, hentry, Reading.ofItem] at hn
      | ok found =>
        obtain ⟨a, next⟩ := found
        rw [hentry] at hstep
        simp only [r, entryReading, hentry, Reading.ofItem, Except.ok.injEq] at hn ⊢
        have hlt := hnext p a next (sibling?_bounds h).2 hentry
        rw [← hn, Nat.max_eq_left hlt] at ih
        rw [← hn, Nat.max_eq_left hlt]
        exact .yield hstep ih

/-! ## Constants -/

theorem lt_of_constantsAt {n : Nat} (h : (v.constantsAt p).next = .ok n) : p < n := by
  induction hd : v.hi - p using Nat.strongRecOn generalizing p with
  | ind d ih =>
    rw [constantsAt_eq] at h
    split at h
    · cases h
    · rename_i hat
      cases h
      exact (constantAt_bounds hat).1
    · rename_i comma hat
      obtain ⟨hlt, _, hcomma⟩ := constantAt_bounds hat
      obtain ⟨rfl, hlt'⟩ := hcomma comma rfl
      have := ih _ (by omega) h rfl
      omega

def constantsFrom (v : View) (p : v.Pos) : Listing Item :=
  match (v.constantsAt p).next with
  | .error e => ⟨(v.constantsAt p).items, some e⟩
  | .ok n => (v.scan (.ofList [.constKw]) v.readConstants n).after (v.constantsAt p).items

theorem constantsFrom_eq (p : v.Pos) :
    v.constantsFrom p =
      match v.constantAt p with
      | .error e => ⟨[], some e⟩
      | .ok (item, stop, none) => (v.scan (.ofList [.constKw]) v.readConstants stop).after [item]
      | .ok (item, _, some comma) => (v.constantsFrom comma).after [item] := by
  rw [constantsFrom, constantsAt_eq]
  cases v.constantAt p with
  | error e => rfl
  | ok found =>
    obtain ⟨item, stop, pending⟩ := found
    cases pending with
    | none => rfl
    | some comma =>
      dsimp only
      rw [constantsFrom]
      cases (v.constantsAt comma).next <;> rfl

theorem constantCursor_runs_from {s : Nat × Option v.Pos}
    (hs : v.constantCursor s = (v.constantAt p).map fun (item, next) => some (item, some next))
    (hrest : ∀ n : Nat, p < n →
      v.constantCursor.Runs (some (n, none))
        (v.scan (.ofList [.constKw]) v.readConstants n).results) :
    v.constantCursor.Runs (some s) (v.constantsFrom p).results := by
  induction hd : v.hi - p using Nat.strongRecOn generalizing p s with
  | ind d ih =>
    rw [constantsFrom_eq]
    cases hat : v.constantAt p with
    | error e =>
      rw [hat] at hs
      exact .fail hs
    | ok found =>
      obtain ⟨item, stop, pending⟩ := found
      obtain ⟨hlt, _, hcomma⟩ := constantAt_bounds hat
      rw [hat] at hs
      cases pending with
      | none =>
        dsimp only
        rw [Listing.results_after]
        exact .yield hs (hrest stop hlt)
      | some comma =>
        obtain ⟨rfl, hlt'⟩ := hcomma comma rfl
        dsimp only
        rw [Listing.results_after]
        exact .yield hs (ih _ (by omega) rfl (fun n hn => hrest n (by omega)) rfl)

theorem constantCursor_runs (i : Nat) :
    v.constantCursor.Runs (some (i, none))
      (v.scan (.ofList [.constKw]) v.readConstants i).results := by
  induction hd : v.hi - i using Nat.strongRecOn generalizing i with
  | ind d ih =>
    cases h : v.sibling? (.ofList [.constKw]) i with
    | none =>
      rw [scan_of_none h]
      exact .finish (entryStep_of_none h)
    | some p =>
      obtain ⟨hle, hlt⟩ := sibling?_bounds h
      have hstep : v.constantCursor (i, none) = _ := entryStep_of_some v.constantEntry h
      have hrest : ∀ n : Nat, p < n →
          v.constantCursor.Runs (some (n, none))
            (v.scan (.ofList [.constKw]) v.readConstants n).results :=
        fun n hn => ih _ (by omega) n rfl
      rw [scan_of_some h, readConstants]
      rw [constantEntry] at hstep
      by_cases huse : v.follows p .useKw = true
      · rw [if_pos huse] at hstep ⊢
        rw [Reading.skip]
        dsimp only
        rw [Nat.max_self, Listing.results_after]
        exact (hrest _ (Nat.lt_succ_self _)).congr hstep
      · rw [if_neg huse] at hstep ⊢
        have hfrom := constantCursor_runs_from (s := (i, none)) (p := p)
          (by rw [hstep]; cases v.constantAt p <;> rfl) hrest
        rw [constantsFrom] at hfrom
        cases hnext : (v.constantsAt p).next with
        | error e =>
          rw [hnext] at hfrom
          exact hfrom
        | ok n =>
          rw [hnext] at hfrom
          dsimp only
          rw [Nat.max_eq_left (lt_of_constantsAt hnext)]
          exact hfrom

/-! ## Namespaces and imports -/

theorem scan_eq_of_sibling? {read : v.Pos → Reading α} (h : v.sibling? set i = some p) :
    v.scan set read i = v.scan set read p := by
  rw [scan_of_some h, scan_of_some (sibling?_self h)]

theorem namespaceCursor_runs_at {copy : Nat}
    (hnext : ∀ (p : v.Pos) (item : Item) (n : Nat), p < v.hi →
      v.namespaceAt copy p = .ok (item, n) → p < n)
    (hp : v.sibling? namespaceKeyword p = some p) :
    (v.namespaceCursor copy).Runs (some (.keyword p)) (v.declaredNamespaces copy p).results := by
  induction hd : v.hi - p using Nat.strongRecOn generalizing p with
  | ind d ih =>
    have hlt := (sibling?_bounds hp).2
    have hstep : v.namespaceCursor copy (.keyword p) = v.namespaceStepAt copy p := rfl
    rw [declaredNamespaces, scan_of_some hp]
    cases hat : v.namespaceAt copy p with
    | error e =>
      rw [namespaceStepAt, hat] at hstep
      exact .fail hstep
    | ok found =>
      obtain ⟨item, n⟩ := found
      have hpn := hnext p item n hlt hat
      rw [namespaceStepAt, hat] at hstep
      rw [Reading.ofItem]
      dsimp only
      rw [Nat.max_eq_left hpn, Listing.results_after]
      refine .yield hstep ?_
      cases hs : v.sibling? namespaceKeyword n with
      | none =>
        rw [scan_of_none hs]
        exact .done
      | some q =>
        have hle := (sibling?_bounds hs).1
        rw [scan_eq_of_sibling? hs]
        exact ih _ (by omega) (sibling?_self hs) rfl

theorem namespaceCursor_runs {copy : Nat}
    (hnext : ∀ (p : v.Pos) (item : Item) (n : Nat), p < v.hi →
      v.namespaceAt copy p = .ok (item, n) → p < n) :
    (v.namespaceCursor copy).Runs (some .start) (v.namespaces copy).results := by
  -- a preamble comes first, or the error that it lies in a namespace already
  have hpreamble : ∀ {stop : Nat} {next : Option v.NamespaceState} {rest : Listing Item},
      v.namespaceCursor copy .start = v.preambleStep stop next →
      (v.namespaceCursor copy).Runs next rest.results →
      (v.namespaceCursor copy).Runs (some .start) (v.withPreamble stop rest).results := by
    intro stop next rest hs hrest
    rw [preambleStep] at hs
    rw [withPreamble]
    cases hscope : v.scope.enterNamespace "" with
    | error e =>
      rw [hscope] at hs
      exact .fail hs
    | ok scope =>
      rw [hscope] at hs
      dsimp only
      rw [Listing.results_after]
      exact .yield hs hrest
  rw [namespaces]
  cases hfirst : v.sibling? namespaceKeyword v.lo with
  | none => exact hpreamble (by rw [namespaceCursor, hfirst]) .done
  | some first =>
    have hruns := namespaceCursor_runs_at hnext (sibling?_self hfirst)
    dsimp only
    split
    · rename_i hcode
      refine hpreamble ?_ hruns
      simp only [namespaceCursor, hfirst, if_pos hcode]
    · rename_i hcode
      refine hruns.congr ?_
      simp only [namespaceCursor, hfirst, if_neg hcode]

theorem importCursor_runs_pending {rs : List (Except Error Import)} (pending : List Import)
    (h : v.importCursor.Runs (some (i, [])) rs) :
    v.importCursor.Runs (some (i, pending)) (pending.map .ok ++ rs) := by
  induction pending with
  | nil => exact h
  | cons a pending ih => exact .yield (by rw [importCursor, importStep]) ih

theorem importStep_nil (hlt : i < v.hi) (hp : v.pos? i = some p) :
    v.importStep i [] =
      if v.startsImport p then
        match v.importsAt p with
        | .error e => .error e
        | .ok (imports, stop) => v.importStep (stop + 1) imports
      else v.importStep (i + 1) [] := by
  rw [importStep, if_pos hlt]
  split
  · rename_i hnone
    rw [hp] at hnone
    cases hnone
  · rename_i q hq
    rw [hp] at hq
    cases hq
    split
    · split <;> rename_i hat <;> rw [hat]
    · rfl

theorem importCursor_runs (i : Nat) :
    v.importCursor.Runs (some (i, [])) (v.importsFrom i).results := by
  -- by the recursion over the statements: what a statement imports is pending and handed out first
  fun_induction importsFrom v i with
  | case1 i hlt hp =>
    refine .finish ?_
    rw [importCursor, importStep, if_pos hlt]
    split
    · rfl
    · rename_i hsome
      rw [hp] at hsome
      cases hsome
  | case2 i hlt p hp hstarts e he =>
    have hstep : v.importCursor (i, []) = _ := importStep_nil hlt hp
    rw [if_pos hstarts, he] at hstep
    exact .fail hstep
  | case3 i hlt p hp hstarts imports stop hat ih =>
    have hstep : v.importCursor (i, []) = _ := importStep_nil hlt hp
    rw [if_pos hstarts, hat] at hstep
    obtain ⟨q, rfl, hpq, _⟩ := clause_of_importsAt hat
    have : p.val < q.val := hpq
    have := val_of_pos? hp
    rw [Nat.max_eq_left (by omega)] at ih ⊢
    rw [Listing.results_after]
    exact (importCursor_runs_pending imports ih).congr hstep
  | case4 i hlt p hp hstarts ih =>
    have hstep : v.importCursor (i, []) = _ := importStep_nil hlt hp
    rw [if_neg hstarts] at hstep
    exact ih.congr hstep
  | case5 i hlt => exact .finish (by rw [importCursor, importStep, if_neg hlt])

end View

end PhpOutline
