import PhpOutline.Error
import PhpOutline.Import
import PhpOutline.Text.Alphabetic
import PhpOutline.View.Navigation

/-!
# Use clauses

The clause of a use statement is a list of items, separated by commas, with an optional comma at
the end. An item is a name, with an alias or with a group of further items in braces, whose names
continue it. `function` and `const` before the clause or before an item say what is imported.

Groups are read without recursion. The items that are still to be read are frames on a stack, each
a range of indices into the code of the clause. A group puts two frames there: what follows it, and
on top of that what stands in it.
-/

namespace PhpOutline

/-- Why a clause cannot be read: what is wrong with it, or an index that its code does not have. -/
inductive ClauseFault
  | malformed (cause : StructuralError)
  | outside (index : Nat)

/-- Items that are still to be read, with the name of the group around them and what they import
unless they say otherwise. -/
structure UseFrame where
  lead : String
  kind : ImportKind
  start : Nat
  stop : Nat

/-- What an item is, and the index behind it. -/
inductive UsePiece
  | single (i : Import) (next : Nat)
  | group (inside : UseFrame) (next : Nat)

/-- The item ends at `start` or later, and what stands in it lies behind `start`, before `stop` and
before the index behind the item. -/
def UsePiece.Within (start stop : Nat) : UsePiece → Prop
  | .single _ next => start ≤ next
  | .group inside next =>
    start < inside.start ∧ inside.start < inside.stop ∧ inside.stop < stop ∧ inside.stop < next

theorem UsePiece.Within.mono {start start' stop : Nat} {p : UsePiece} (h : p.Within start' stop)
    (hle : start ≤ start') : p.Within start stop := by
  cases p with
  | single => exact Nat.le_trans hle h
  | group => exact ⟨Nat.lt_of_le_of_lt hle h.1, h.2⟩

namespace View

/-- The part of a name after its last separator. -/
def finalSegment (name : String) : String :=
  .ofList (name.toList.reverse.takeWhile (· ≠ '\\')).reverse

/-- A name without a separator before it. -/
def withoutLead (name : String) : String :=
  match name.toList with
  | '\\' :: cs => .ofList cs
  | _ => name

section

variable (v : View)

/-- The import kind that a keyword stands for. -/
def importKind? (i : v.Pos) : Option ImportKind :=
  match v.kind i with
  | .functionKw => some .function
  | .constKw => some .constant
  | _ => none

variable (code : Array v.Pos)

def codeAt (n : Nat) : Except ClauseFault v.Pos :=
  match code[n]? with
  | some i => .ok i
  | none => .error (.outside n)

/-- Whether there is a kind at an index before `stop`. -/
def standsAt (stop n : Nat) (kind : Kind) : Except ClauseFault Bool :=
  if n < stop then do return v.kind (← v.codeAt code n) == kind
  else return false

/-- What is imported at an index, and the index behind the keyword that says so. -/
def kindAt (kind : ImportKind) (n : Nat) : Except ClauseFault (ImportKind × Nat) := do
  match v.importKind? (← v.codeAt code n) with
  | some kind => return (kind, n + 1)
  | none => return (kind, n)

/-- Whether a name that starts at `first` goes on at `n`: its segments touch one another. -/
def continues (first n : Nat) : Except ClauseFault Bool := do
  let i ← v.codeAt code n
  if v.graph.taxonomy.nameSegments.contains (v.kind i) then
    if n = first then return true
    else return i.val == (← v.codeAt code (n - 1)).val + 1
  else return false

/-- Reads on in a name that starts at `first`: the name, and the index behind it. -/
def nameFrom (stop first n : Nat) (name : String) : Except ClauseFault (String × Nat) := do
  if _h : n < stop then
    if ← v.continues code first n then
      nameFrom stop first (n + 1) (name ++ (v.node (← v.codeAt code n)).text)
    else return (name, n)
  else return (name, n)
termination_by stop - n

/-- The alias of a name, and the index behind it. -/
def aliasAt (stop n : Nat) (name : String) : Except ClauseFault (String × Nat) := do
  if ← v.standsAt code stop n .asKw then
    if n + 1 < stop then
      let i ← v.codeAt code (n + 1)
      if Text.isIdentifier (v.node i).text then return ((v.node i).text, n + 2)
      else throw (.malformed .aliasMissing)
    else throw (.malformed .aliasMissing)
  else if finalSegment name = "" then throw (.malformed (.importWithoutFinal name))
  else return (finalSegment name, n)

/-- The index of the brace that closes the group which a brace opens. -/
def groupEnd (stop n : Nat) : Except ClauseFault Nat := do
  let opener ← v.codeAt code n
  match (v.node opener).closedBy.bind
      fun c => (code.extract (n + 1) stop).findIdx? (·.val == c) with
  | none => throw (.malformed .groupWithoutEnd)
  | some 0 => throw (.malformed .groupWithoutItem)
  | some m => return n + 1 + m

/-- The index behind the comma between two items. -/
def behindComma (stop n : Nat) (fault : String → StructuralError) : Except ClauseFault Nat :=
  if n < stop then do
    let i ← v.codeAt code n
    if v.kind i = .comma then return n + 1
    else throw (.malformed (fault (v.node i).text))
  else return n

/-- The text at an index, or what the end of the code is called. -/
def foundAt (n : Nat) : String :=
  match code[n]? with
  | some i => (v.node i).text
  | none => "end of statement"

/-- An item from behind its name on: a group, or an import of the name. -/
def pieceBehind (stop n : Nat) (kind : ImportKind) (name : String) :
    Except ClauseFault UsePiece := do
  if ← v.standsAt code stop n .openBrace then
    let close ← v.groupEnd code stop n
    let next ← v.behindComma code stop (close + 1) .groupFollowedBy
    return .group ⟨name, kind, n + 1, close⟩ next
  else
    let (aliasName, n) ← v.aliasAt code stop n name
    let next ← v.behindComma code stop n .useFollowedBy
    return .single ⟨aliasName, kind, withoutLead name⟩ next

/-- The first item of a frame. -/
def pieceAt (f : UseFrame) : Except ClauseFault UsePiece := do
  let (kind, first) ← v.kindAt code f.kind f.start
  let (own, n) ← v.nameFrom code f.stop first first ""
  if own = "" then throw (.malformed (.useWithoutItem (v.foundAt code n)))
  else v.pieceBehind code f.stop n kind (f.lead ++ own)

/-! ## Bounds

A piece ends behind its start, and what stands in a group lies before the index behind it. -/

variable {v} {code}

theorem nameFrom_bounds {stop first n m : Nat} {name own : String}
    (h : v.nameFrom code stop first n name = .ok (own, m)) : n ≤ m ∧ (m = n → own = name) := by
  induction hd : stop - n using Nat.strongRecOn generalizing n name with
  | ind d ih =>
    rw [nameFrom] at h
    split at h
    · obtain ⟨goes, _, h⟩ := of_bind_ok h
      split at h
      · obtain ⟨i, _, h⟩ := of_bind_ok h
        have := ih _ (by omega) h rfl
        omega
      · cases h
        exact ⟨Nat.le_refl _, fun _ => rfl⟩
    · cases h
      exact ⟨Nat.le_refl _, fun _ => rfl⟩

theorem lt_of_standsAt {stop n : Nat} {kind : Kind} (h : v.standsAt code stop n kind = .ok true) :
    n < stop := by
  unfold standsAt at h
  split at h
  · assumption
  · cases h

theorem groupEnd_bounds {stop n close : Nat} (h : v.groupEnd code stop n = .ok close) :
    n + 1 < close ∧ close < stop := by
  obtain ⟨opener, _, h⟩ := of_bind_ok h
  split at h
  · cases h
  · cases h
  · rename_i m hm hfind
    cases h
    obtain ⟨c, _, hfind⟩ := Option.bind_eq_some_iff.mp hfind
    have hlt := (Array.findIdx?_eq_some_iff_findIdx_eq.mp hfind).1
    rw [Array.size_extract] at hlt
    have : m ≠ 0 := fun e => hm e
    omega

theorem le_behindComma {stop n next : Nat} {fault : String → StructuralError}
    (h : v.behindComma code stop n fault = .ok next) : n ≤ next := by
  unfold behindComma at h
  split at h
  · obtain ⟨i, _, h⟩ := of_bind_ok h
    split at h
    · cases h
      exact Nat.le_succ n
    · cases h
  · cases h
    exact Nat.le_refl n

theorem le_aliasAt {stop n m : Nat} {name aliasName : String}
    (h : v.aliasAt code stop n name = .ok (aliasName, m)) : n ≤ m := by
  obtain ⟨isAs, _, h⟩ := of_bind_ok h
  split at h
  · split at h
    · obtain ⟨i, _, h⟩ := of_bind_ok h
      split at h
      · cases h
        omega
      · cases h
    · cases h
  · split at h
    · cases h
    · cases h
      exact Nat.le_refl n

theorem le_kindAt {kind itemKind : ImportKind} {n first : Nat}
    (h : v.kindAt code kind n = .ok (itemKind, first)) : n ≤ first := by
  obtain ⟨i, _, h⟩ := of_bind_ok h
  split at h <;> cases h <;> omega

theorem pieceBehind_within {stop n : Nat} {kind : ImportKind} {name : String} {p : UsePiece}
    (h : v.pieceBehind code stop n kind name = .ok p) : p.Within n stop := by
  obtain ⟨isBrace, _, h⟩ := of_bind_ok h
  split at h
  · obtain ⟨close, hclose, h⟩ := of_bind_ok h
    obtain ⟨next, hnext, h⟩ := of_bind_ok h
    cases h
    have hbounds := groupEnd_bounds hclose
    exact ⟨Nat.lt_succ_self n, hbounds.1, hbounds.2, le_behindComma hnext⟩
  · obtain ⟨⟨aliasName, m⟩, halias, h⟩ := of_bind_ok h
    obtain ⟨next, hnext, h⟩ := of_bind_ok h
    cases h
    exact Nat.le_trans (le_aliasAt halias) (le_behindComma hnext)

theorem pieceAt_within {f : UseFrame} {p : UsePiece} (h : v.pieceAt code f = .ok p) :
    p.Within (f.start + 1) f.stop := by
  obtain ⟨⟨kind, first⟩, hkind, h⟩ := of_bind_ok h
  obtain ⟨⟨own, n⟩, hname, h⟩ := of_bind_ok h
  have hfirst := le_kindAt hkind
  obtain ⟨hle, hempty⟩ := nameFrom_bounds hname
  dsimp only at h
  split at h
  · cases h
  · rename_i hown
    have hlt : first < n := Nat.lt_of_le_of_ne hle fun e => hown (hempty e.symm)
    exact (pieceBehind_within h).mono (by omega)

/-! ## The stack -/

/-- How many indices are left to read. Every frame counts as one more. -/
def framesLeft : List UseFrame → Nat
  | [] => 0
  | f :: frames => f.stop - f.start + 1 + framesLeft frames

variable (v) (code)

/-- Reads all frames of a stack, the topmost one first, and adds what they import. -/
def readFrames (out : Array Import) : List UseFrame → Except ClauseFault (List Import)
  | [] => .ok out.toList
  | f :: frames =>
    if f.start < f.stop then
      match _h : v.pieceAt code f with
      | .error e => .error e
      | .ok (.single i next) => readFrames (out.push i) ({ f with start := next } :: frames)
      | .ok (.group inside next) =>
        if next < f.stop then readFrames out (inside :: { f with start := next } :: frames)
        else readFrames out (inside :: frames)
    else readFrames out frames
termination_by frames => framesLeft frames
decreasing_by
  all_goals simp only [framesLeft]
  · have : f.start + 1 ≤ next := pieceAt_within _h
    omega
  · obtain ⟨h₁, h₂, _, h₃⟩ := pieceAt_within _h
    omega
  · obtain ⟨h₁, h₂, h₃, _⟩ := pieceAt_within _h
    omega
  · omega

/-- The whole clause, behind the keyword that says what it imports. -/
def clauseFrame : UseFrame :=
  match code[0]?.bind v.importKind? with
  | some kind => ⟨"", kind, 1, code.size⟩
  | none => ⟨"", .class_, 0, code.size⟩

def readStack : Except ClauseFault (List Import) :=
  let f := v.clauseFrame code
  if f.start < f.stop then v.readFrames code #[] [f]
  else .error (.malformed .useWithoutName)

/-! ## Indices

As long as all frames end within the code, so do those that a step puts on the stack, and no step
looks at an index outside the code. -/

/-- Not the failure of an index outside the code. -/
def InRange {α : Type} (r : Except ClauseFault α) : Prop := ∀ n, r ≠ .error (.outside n)

theorem InRange.ok {α : Type} (a : α) : InRange (.ok a) := by
  intro n h
  cases h

theorem InRange.malformed {α : Type} (e : StructuralError) :
    InRange (.error (.malformed e) : Except ClauseFault α) := by
  intro n h
  cases h

theorem InRange.bind {α β : Type} {x : Except ClauseFault α} {f : α → Except ClauseFault β}
    (hx : InRange x) (hf : ∀ a, x = .ok a → InRange (f a)) : InRange (x >>= f) := by
  intro n h
  rcases of_bind_error h with h | ⟨a, ha, h⟩
  · exact hx n h
  · exact hf a ha n h

variable {v} {code} {stop n : Nat}

theorem codeAt_inRange (h : n < code.size) : InRange (v.codeAt code n) := by
  rw [codeAt, Array.getElem?_eq_getElem h]
  exact .ok _

theorem standsAt_inRange (h : stop ≤ code.size) (kind : Kind) :
    InRange (v.standsAt code stop n kind) := by
  unfold standsAt
  split
  · exact (codeAt_inRange (by omega)).bind fun _ _ => .ok _
  · exact .ok _

theorem kindAt_inRange (h : n < code.size) (kind : ImportKind) :
    InRange (v.kindAt code kind n) := by
  refine (codeAt_inRange h).bind fun i _ => ?_
  split <;> exact .ok _

theorem continues_inRange (h : n < code.size) (first : Nat) :
    InRange (v.continues code first n) := by
  refine (codeAt_inRange h).bind fun i _ => ?_
  split
  · split
    · exact .ok _
    · exact (codeAt_inRange (by omega)).bind fun _ _ => .ok _
  · exact .ok _

theorem nameFrom_inRange (h : stop ≤ code.size) (first : Nat) (name : String) :
    InRange (v.nameFrom code stop first n name) := by
  induction hd : stop - n using Nat.strongRecOn generalizing n name with
  | ind d ih =>
    rw [nameFrom]
    split
    · refine (continues_inRange (by omega) first).bind fun goes _ => ?_
      split
      · exact (codeAt_inRange (by omega)).bind fun i _ => ih _ (by omega) _ rfl
      · exact .ok _
    · exact .ok _

theorem aliasAt_inRange (h : stop ≤ code.size) (name : String) :
    InRange (v.aliasAt code stop n name) := by
  refine (standsAt_inRange h .asKw).bind fun isAs _ => ?_
  split
  · split
    · refine (codeAt_inRange (by omega)).bind fun i _ => ?_
      split
      · exact .ok _
      · exact .malformed _
    · exact .malformed _
  · split
    · exact .malformed _
    · exact .ok _

theorem groupEnd_inRange (h : n < code.size) (stop : Nat) : InRange (v.groupEnd code stop n) := by
  refine (codeAt_inRange h).bind fun opener _ => ?_
  split
  · exact .malformed _
  · exact .malformed _
  · exact .ok _

theorem behindComma_inRange (h : stop ≤ code.size) (fault : String → StructuralError) :
    InRange (v.behindComma code stop n fault) := by
  unfold behindComma
  split
  · refine (codeAt_inRange (by omega)).bind fun i _ => ?_
    split
    · exact .ok _
    · exact .malformed _
  · exact .ok _

theorem pieceBehind_inRange (h : stop ≤ code.size) (kind : ImportKind) (name : String) :
    InRange (v.pieceBehind code stop n kind name) := by
  refine (standsAt_inRange h .openBrace).bind fun isBrace hbrace => ?_
  split
  · rename_i hopens
    rw [hopens] at hbrace
    have hlt := lt_of_standsAt hbrace
    refine (groupEnd_inRange (by omega) stop).bind fun close _ => ?_
    exact (behindComma_inRange h _).bind fun next _ => .ok _
  · refine (aliasAt_inRange h name).bind fun found _ => ?_
    exact (behindComma_inRange h _).bind fun next _ => .ok _

theorem pieceAt_inRange {f : UseFrame} (h : f.stop ≤ code.size) (hlt : f.start < f.stop) :
    InRange (v.pieceAt code f) := by
  refine (kindAt_inRange (by omega) f.kind).bind fun found _ => ?_
  refine (nameFrom_inRange h _ _).bind fun named _ => ?_
  dsimp only
  split
  · exact .malformed _
  · exact pieceBehind_inRange h _ _

theorem readFrames_inRange {frames : List UseFrame} (h : ∀ f ∈ frames, f.stop ≤ code.size)
    (out : Array Import) : InRange (v.readFrames code out frames) := by
  fun_induction readFrames v code out frames with
  | case1 out => exact .ok _
  | case2 out f frames hlt e hpiece =>
    intro n he
    cases he
    exact pieceAt_inRange (h f (by simp)) hlt n hpiece
  | case3 out f frames hlt i next hpiece ih =>
    refine ih fun g hg => ?_
    rcases List.mem_cons.mp hg with rfl | hg
    · exact h f (by simp)
    · exact h g (by simp [hg])
  | case4 out f frames hlt inside next hpiece hnext ih =>
    have hf := h f (by simp)
    have hinside := (pieceAt_within hpiece).2.2.1
    refine ih fun g hg => ?_
    simp only [List.mem_cons] at hg
    rcases hg with rfl | rfl | hg
    · omega
    · exact hf
    · exact h g (by simp [hg])
  | case5 out f frames hlt inside next hpiece hnext ih =>
    have hf := h f (by simp)
    have hinside := (pieceAt_within hpiece).2.2.1
    refine ih fun g hg => ?_
    rcases List.mem_cons.mp hg with rfl | hg
    · omega
    · exact h g (by simp [hg])
  | case6 out f frames hlt ih => exact ih fun g hg => h g (by simp [hg])

theorem clauseFrame_stop : (v.clauseFrame code).stop = code.size := by
  unfold clauseFrame
  split <;> rfl

theorem readStack_inRange (code : Array v.Pos) : InRange (v.readStack code) := by
  unfold readStack
  dsimp only
  split
  · refine readFrames_inRange (fun f hf => Nat.le_of_eq ?_) _
    rw [List.mem_singleton.mp hf, clauseFrame_stop]
  · exact .malformed _

/-- The imports of a use clause. -/
def readClause (v : View) (code : List v.Pos) : Except StructuralError (List Import) :=
  match h : v.readStack code.toArray with
  | .ok imports => .ok imports
  | .error (.malformed e) => .error e
  | .error (.outside n) => absurd h (readStack_inRange _ n)

end

end View

end PhpOutline
