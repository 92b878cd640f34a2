import PhpOutline.Import.Clause

/-!
# Use clauses, item by item

A clause is a list of items, and a recursion over them reads it: of a group it reads what stands in
it and then what follows it (`readItems`). Behind the name of an item it does not depend on how the
name was found (`readBehind`).
-/

namespace PhpOutline

/-- Two results that are the same error, or values in a relation. -/
inductive SameResult {ε α β : Type} (S : α → β → Prop) : Except ε α → Except ε β → Prop
  | error (e : ε) : SameResult S (.error e) (.error e)
  | ok {a : α} {b : β} (h : S a b) : SameResult S (.ok a) (.ok b)

namespace SameResult

variable {ε α β γ : Type} {S : α → β → Prop} {x : Except ε α} {y : Except ε β}

theorem error_left {e : ε} (h : SameResult S (.error e) y) : y = .error e := by
  cases h
  rfl

theorem ok_left {a : α} (h : SameResult S (.ok a) y) : ∃ b, y = .ok b ∧ S a b := by
  cases h with
  | ok h => exact ⟨_, rfl, h⟩

theorem map_eq {f : α → γ} {g : β → γ} (h : SameResult S x y) (hfg : ∀ {a b}, S a b → f a = g b) :
    x.map f = y.map g := by
  cases h with
  | error e => rfl
  | ok h => exact congrArg Except.ok (hfg h)

theorem of_mapError {ε' : Type} {x : Except ε' α} {f : ε → ε'}
    (h : SameResult S x (y.mapError f)) :
    (∃ e, x = .error (f e) ∧ y = .error e) ∨ ∃ a b, x = .ok a ∧ y = .ok b ∧ S a b := by
  cases y with
  | error e =>
    cases h
    exact .inl ⟨e, rfl, rfl⟩
  | ok b =>
    cases h with
    | ok h => exact .inr ⟨_, b, rfl, rfl, h⟩

end SameResult

namespace View

section

variable (v : View)

def takeKind (kind : ImportKind) : List v.Pos → ImportKind × List v.Pos
  | [] => (kind, [])
  | i :: code =>
    match v.importKind? i with
    | some k => (k, code)
    | none => (kind, i :: code)

def takeTouching (last : Nat) : List v.Pos → List v.Pos × List v.Pos
  | [] => ([], [])
  | i :: code =>
    if v.graph.taxonomy.nameSegments.contains (v.kind i) && i.val == last + 1 then
      let (name, rest) := takeTouching i code
      (i :: name, rest)
    else ([], i :: code)

def takeName : List v.Pos → String × List v.Pos
  | [] => ("", [])
  | i :: code =>
    if v.graph.taxonomy.nameSegments.contains (v.kind i) then
      let (name, rest) := v.takeTouching i code
      (.join ((i :: name).map fun j => (v.node j).text), rest)
    else ("", i :: code)

theorem length_takeTouching (last : Nat) (code : List v.Pos) :
    (v.takeTouching last code).2.length ≤ code.length := by
  induction code generalizing last with
  | nil => simp [takeTouching]
  | cons i code ih =>
    unfold takeTouching
    split
    · exact Nat.le_succ_of_le (ih i)
    · exact Nat.le_refl _

theorem length_takeName (code : List v.Pos) : (v.takeName code).2.length ≤ code.length := by
  unfold takeName
  split
  · simp
  · split
    · exact Nat.le_succ_of_le (v.length_takeTouching _ _)
    · exact Nat.le_refl _

theorem length_takeKind (kind : ImportKind) (code : List v.Pos) :
    (v.takeKind kind code).2.length ≤ code.length := by
  unfold takeKind
  split
  · simp
  · split <;> simp

def textAt (code : List v.Pos) (follow : String) : String :=
  match code with
  | [] => follow
  | i :: _ => (v.node i).text

def readAlias (kind : ImportKind) (name : String) (code : List v.Pos) :
    Except StructuralError (Import × List v.Pos) :=
  match code with
  | i :: rest =>
    if v.kind i = .asKw then
      match rest with
      | j :: rest =>
        if Text.isIdentifier (v.node j).text then
          .ok (⟨(v.node j).text, kind, withoutLead name⟩, rest)
        else .error .aliasMissing
      | [] => .error .aliasMissing
    else bare code
  | [] => bare code
where
  bare (code : List v.Pos) : Except StructuralError (Import × List v.Pos) :=
    if finalSegment name = "" then .error (.importWithoutFinal name)
    else .ok (⟨finalSegment name, kind, withoutLead name⟩, code)

theorem length_readAlias {kind : ImportKind} {name : String} {code rest : List v.Pos} {i : Import}
    (h : v.readAlias kind name code = .ok (i, rest)) : rest.length ≤ code.length := by
  unfold readAlias readAlias.bare at h
  grind

def splitGroup (opener : v.Pos) (code : List v.Pos) :
    Except StructuralError (List v.Pos × v.Pos × List v.Pos) :=
  match (v.node opener).closedBy with
  | none => .error .groupWithoutEnd
  | some c =>
    match code.takeWhile (·.val ≠ c), code.dropWhile (·.val ≠ c) with
    | _, [] => .error .groupWithoutEnd
    | [], _ => .error .groupWithoutItem
    | inner, close :: rest => .ok (inner, close, rest)

theorem length_splitGroup {opener close : v.Pos} {code inner rest : List v.Pos}
    (h : v.splitGroup opener code = .ok (inner, close, rest)) :
    inner.length ≤ code.length ∧ rest.length < code.length := by
  unfold splitGroup at h
  split at h
  · cases h
  · rename_i c _
    have h₁ := (List.takeWhile_sublist (fun i : v.Pos => decide (i.val ≠ c)) (l := code)).length_le
    have h₂ := (List.dropWhile_sublist (fun i : v.Pos => decide (i.val ≠ c)) (l := code)).length_le
    split at h
    · cases h
    · cases h
    · simp only [Except.ok.injEq, Prod.mk.injEq] at h
      obtain ⟨rfl, rfl, rfl⟩ := h
      constructor <;> grind

/-- The imports of a list of items. `lead` is the name of the group around them, `kind` what is
imported unless an item says otherwise, and `follow` what stands after the list. -/
def readItems (lead : String) (kind : ImportKind) (follow : String) (code : List v.Pos) :
    Except StructuralError (List Import) :=
  if code.isEmpty then .ok []
  else
    match _h₁ : v.takeKind kind code with
    | (itemKind, named) =>
      match _h₂ : v.takeName named with
      | (own, rest) =>
        if own = "" then .error (.useWithoutItem (v.textAt rest follow))
        else
          match _h : rest with
          | [] => (v.readAlias itemKind (lead ++ own) []).map ([·.1])
          | i :: inside =>
            if v.kind i = .openBrace then
              match _h₃ : v.splitGroup i inside with
              | .error e => .error e
              | .ok (inner, close, []) =>
                readItems (lead ++ own) itemKind (v.node close).text inner
              | .ok (inner, close, j :: more) =>
                if v.kind j = .comma then do
                  let grouped ← readItems (lead ++ own) itemKind (v.node close).text inner
                  let others ← readItems lead kind follow more
                  return grouped ++ others
                else .error (.groupFollowedBy (v.node j).text)
            else
              match _h₄ : v.readAlias itemKind (lead ++ own) (i :: inside) with
              | .error e => .error e
              | .ok (item, []) => .ok [item]
              | .ok (item, j :: more) =>
                if v.kind j = .comma then do
                  let others ← readItems lead kind follow more
                  return item :: others
                else .error (.useFollowedBy (v.node j).text)
termination_by code.length
decreasing_by
  all_goals
    have := v.length_takeKind kind code
    have := v.length_takeName (v.takeKind kind code).2
    simp_all
  · have := v.length_splitGroup _h₃
    simp at this
    omega
  · have := v.length_splitGroup _h₃
    simp at this
    omega
  · have := v.length_splitGroup _h₃
    simp at this
    omega
  · have := v.length_readAlias _h₄
    simp at this
    omega

def readBehind (lead : String) (kind : ImportKind) (follow : String) (itemKind : ImportKind)
    (own : String) (rest : List v.Pos) : Except StructuralError (List Import) :=
  if own = "" then .error (.useWithoutItem (v.textAt rest follow))
  else
    match rest with
    | [] => (v.readAlias itemKind (lead ++ own) []).map ([·.1])
    | i :: inside =>
      if v.kind i = .openBrace then
        match v.splitGroup i inside with
        | .error e => .error e
        | .ok (inner, close, []) => v.readItems (lead ++ own) itemKind (v.node close).text inner
        | .ok (inner, close, j :: more) =>
          if v.kind j = .comma then do
            let grouped ← v.readItems (lead ++ own) itemKind (v.node close).text inner
            let others ← v.readItems lead kind follow more
            return grouped ++ others
          else .error (.groupFollowedBy (v.node j).text)
      else
        match v.readAlias itemKind (lead ++ own) (i :: inside) with
        | .error e => .error e
        | .ok (item, []) => .ok [item]
        | .ok (item, j :: more) =>
          if v.kind j = .comma then do
            let others ← v.readItems lead kind follow more
            return item :: others
          else .error (.useFollowedBy (v.node j).text)

theorem readItems_eq (lead : String) (kind : ImportKind) (follow : String) (code : List v.Pos) :
    v.readItems lead kind follow code =
      if code.isEmpty then .ok []
      else
        v.readBehind lead kind follow (v.takeKind kind code).1
          (v.takeName (v.takeKind kind code).2).1
          (v.takeName (v.takeKind kind code).2).2 := by
  rw [readItems.eq_def]
  split
  · rfl
  · dsimp only
    unfold readBehind
    split
    · rfl
    · split
      · rename_i hrest _
        rw [hrest]
      · rename_i hrest _
        rw [hrest]
        dsimp only
        split
        · split <;> rename_i hgroup <;> simp only [hgroup]
        · split <;> rename_i halias <;> simp only [halias]

variable {v}

theorem readItems_nil {lead follow : String} {kind : ImportKind} :
    v.readItems lead kind follow [] = .ok [] := by
  rw [readItems_eq]
  rfl

end

end View

end PhpOutline
