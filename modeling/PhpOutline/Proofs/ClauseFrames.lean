import PhpOutline.Proofs.ClauseItems

/-!
# The stack of frames

A clause is read from a stack of frames, and the theory of clauses is about the recursion over its
items. The two read the same (`readClause_eq`): a frame is read as the recursion reads its range of
the code, and what it imports comes before what the frames below it import (`readFrames_cons`).
-/

namespace PhpOutline
namespace View

/-! ## Slices -/

def slice {α : Type} (code : Array α) (a b : Nat) : List α := (code.extract a b).toList

theorem slice_eq_nil {α : Type} {code : Array α} {a b : Nat} (h : b ≤ a) : slice code a b = [] := by
  rw [slice, Array.toList_extract, List.extract_eq_take_drop, Nat.sub_eq_zero_of_le h,
    List.take_zero]

theorem slice_cons {α : Type} {code : Array α} {a b : Nat} (h : a < b) (hb : b ≤ code.size) :
    ∃ i, code[a]? = some i ∧ slice code a b = i :: slice code (a + 1) b := by
  have ha : a < code.toList.length := by rw [Array.length_toList]; omega
  refine ⟨code.toList[a], by rw [Array.getElem?_eq_getElem (by omega)]; rfl, ?_⟩
  simp only [slice, Array.toList_extract, List.extract_eq_take_drop]
  rw [← List.getElem_cons_drop ha, show b - a = b - (a + 1) + 1 by omega, List.take_succ_cons]

theorem take_slice {α : Type} {code : Array α} {a b k : Nat} (h : a + k ≤ b) :
    (slice code a b).take k = slice code a (a + k) := by
  simp only [slice, Array.toList_extract, List.extract_eq_take_drop, List.take_take]
  rw [Nat.min_eq_left (by omega), Nat.add_sub_cancel_left]

theorem drop_slice {α : Type} (code : Array α) (a b k : Nat) :
    (slice code a b).drop k = slice code (a + k) b := by
  simp only [slice, Array.toList_extract, List.extract_eq_take_drop, List.drop_take, List.drop_drop]
  rw [Nat.sub_sub]

variable {v : View} {code : Array v.Pos} {stop n : Nat} {kind : ImportKind} {name : String}

theorem codeAt_of_some {i : v.Pos} (h : code[n]? = some i) : v.codeAt code n = .ok i := by
  rw [codeAt, h]

/-! ## Names -/

theorem kindAt_eq (kind : ImportKind) (hlt : n < stop) (hstop : stop ≤ code.size) :
    ∃ first, v.kindAt code kind n = .ok ((v.takeKind kind (slice code n stop)).1, first) ∧
      (v.takeKind kind (slice code n stop)).2 = slice code first stop ∧ first ≤ stop := by
  obtain ⟨i, hi, hslice⟩ := slice_cons hlt hstop
  rw [hslice, takeKind, kindAt, codeAt_of_some hi]
  cases hkind : v.importKind? i with
  | none =>
    exact ⟨n, by simp [bind, Except.bind, hkind, pure, Except.pure], hslice.symm, Nat.le_of_lt hlt⟩
  | some k => exact ⟨n + 1, by simp [bind, Except.bind, hkind, pure, Except.pure], rfl, hlt⟩

theorem nameFrom_of_le {first : Nat} (h : stop ≤ n) (name : String) :
    v.nameFrom code stop first n name = .ok (name, n) := by
  rw [nameFrom, dif_neg (Nat.not_lt.mpr h)]
  rfl

theorem nameFrom_of_lt {first : Nat} {i : v.Pos} {goesOn : Bool} (hlt : n < stop)
    (hi : code[n]? = some i) (h : v.continues code first n = .ok goesOn) (name : String) :
    v.nameFrom code stop first n name =
      if goesOn then v.nameFrom code stop first (n + 1) (name ++ (v.node i).text)
      else .ok (name, n) := by
  rw [nameFrom, dif_pos hlt, h]
  cases goesOn with
  | false => rfl
  | true => simp [bind, Except.bind, codeAt_of_some hi]

theorem nameFrom_touching (name : String) {first : Nat} {last : v.Pos} (hfirst : first < n)
    (hlast : code[n - 1]? = some last) (hn : n ≤ stop) (hstop : stop ≤ code.size) :
    ∃ m, v.nameFrom code stop first n name =
        .ok (name ++ .join ((v.takeTouching last (slice code n stop)).1.map fun i =>
          (v.node i).text), m) ∧
      (v.takeTouching last (slice code n stop)).2 = slice code m stop ∧ m ≤ stop := by
  induction hd : stop - n using Nat.strongRecOn generalizing n name last with
  | ind d ih =>
    rcases Nat.lt_or_ge n stop with hlt | hge
    · obtain ⟨i, hi, hslice⟩ := slice_cons hlt hstop
      have hcontinues : v.continues code first n =
          .ok (v.graph.taxonomy.nameSegments.contains (v.kind i) && i.val == last.val + 1) := by
        rw [continues, codeAt_of_some hi, codeAt_of_some hlast]
        simp only [bind, Except.bind, pure, Except.pure, Nat.ne_of_gt hfirst, if_false]
        split <;> simp_all
      rw [nameFrom_of_lt hlt hi hcontinues, hslice, takeTouching]
      split
      · obtain ⟨m, hname, hrest, hm⟩ := ih _ (by omega) (name ++ (v.node i).text)
          (Nat.lt_succ_of_lt hfirst) (show code[n + 1 - 1]? = some i from hi) hlt rfl
        refine ⟨m, ?_, hrest, hm⟩
        rw [hname, List.map_cons, String.join_cons, String.append_assoc]
      · exact ⟨n, by simp, hslice.symm, hn⟩
    · rw [nameFrom_of_le hge, slice_eq_nil hge, takeTouching]
      exact ⟨n, by simp, (slice_eq_nil hge).symm, hn⟩

theorem nameFrom_eq (hn : n ≤ stop) (hstop : stop ≤ code.size) :
    ∃ m, v.nameFrom code stop n n "" = .ok ((v.takeName (slice code n stop)).1, m) ∧
      (v.takeName (slice code n stop)).2 = slice code m stop ∧ m ≤ stop := by
  rcases Nat.lt_or_ge n stop with hlt | hge
  · obtain ⟨i, hi, hslice⟩ := slice_cons hlt hstop
    have hcontinues : v.continues code n n =
        .ok (v.graph.taxonomy.nameSegments.contains (v.kind i)) := by
      rw [continues, codeAt_of_some hi]
      simp only [bind, Except.bind, pure, Except.pure, if_true]
      split <;> simp_all
    rw [nameFrom_of_lt hlt hi hcontinues, hslice, takeName]
    split
    · obtain ⟨m, hname, hrest, hm⟩ := nameFrom_touching (v.node i).text (Nat.lt_succ_self n)
        (show code[n + 1 - 1]? = some i from hi) hlt hstop
      refine ⟨m, ?_, hrest, hm⟩
      rw [String.empty_append, hname]
      dsimp only
      rw [List.map_cons, String.join_cons]
    · exact ⟨n, rfl, hslice.symm, hn⟩
  · rw [nameFrom_of_le hge, slice_eq_nil hge]
    exact ⟨n, rfl, (slice_eq_nil hge).symm, hn⟩

/-! ## Items -/

theorem standsAt_of_some {i : v.Pos} (hlt : n < stop) (hi : code[n]? = some i) (k : Kind) :
    v.standsAt code stop n k = .ok (v.kind i == k) := by
  rw [standsAt, if_pos hlt, codeAt_of_some hi]
  rfl

theorem standsAt_of_le (h : stop ≤ n) (k : Kind) : v.standsAt code stop n k = .ok false := by
  rw [standsAt, if_neg (Nat.not_lt.mpr h)]
  rfl

/-- An alias that was read, as an index and as the code behind it. -/
def ReadsAlias (code : Array v.Pos) (stop : Nat) (kind : ImportKind) (name : String)
    (found : String × Nat) (read : Import × List v.Pos) : Prop :=
  found.2 ≤ stop ∧ read = (⟨found.1, kind, withoutLead name⟩, slice code found.2 stop)

theorem aliasAt_eq (kind : ImportKind) (name : String) (hn : n ≤ stop) (hstop : stop ≤ code.size) :
    SameResult (ReadsAlias code stop kind name) (v.aliasAt code stop n name)
      ((v.readAlias kind name (slice code n stop)).mapError .malformed) := by
  have hbare : SameResult (ReadsAlias code stop kind name)
      (if finalSegment name = "" then throw (.malformed (.importWithoutFinal name))
        else return (finalSegment name, n) : Except ClauseFault (String × Nat))
      ((readAlias.bare v kind name (slice code n stop)).mapError .malformed) := by
    rw [readAlias.bare]
    split
    · exact .error _
    · exact .ok ⟨hn, rfl⟩
  unfold aliasAt readAlias
  rcases Nat.lt_or_ge n stop with hlt | hge
  · obtain ⟨i, hi, hslice⟩ := slice_cons hlt hstop
    rw [standsAt_of_some hlt hi, hslice]
    by_cases has : v.kind i = .asKw
    · simp only [bind, Except.bind, has, BEq.rfl, if_true]
      rcases Nat.lt_or_ge (n + 1) stop with hlt' | hge'
      · obtain ⟨j, hj, hslice'⟩ := slice_cons hlt' hstop
        rw [if_pos hlt', codeAt_of_some hj, hslice']
        dsimp only
        split
        · exact .ok ⟨hlt', rfl⟩
        · exact .error _
      · rw [if_neg (Nat.not_lt.mpr hge'), slice_eq_nil hge']
        exact .error _
    · rw [hslice] at hbare
      simpa only [bind, Except.bind, has, beq_eq_false_iff_ne.mpr has, if_false,
        Bool.false_eq_true] using hbare
  · rw [standsAt_of_le hge]
    rw [slice_eq_nil hge] at hbare ⊢
    exact hbare

/-- A group that was read, as the index of its end and as the code in it and behind it. -/
structure ReadsGroup (code : Array v.Pos) (stop n close : Nat)
    (parts : List v.Pos × v.Pos × List v.Pos) : Prop where
  close_lt : close < stop
  inner : parts.1 = slice code (n + 1) close
  closer : code[close]? = some parts.2.1
  behind : parts.2.2 = slice code (close + 1) stop

theorem groupEnd_eq {i : v.Pos} (hi : code[n]? = some i) (hstop : stop ≤ code.size) :
    SameResult (ReadsGroup code stop n) (v.groupEnd code stop n)
      ((v.splitGroup i (slice code (n + 1) stop)).mapError .malformed) := by
  have hfind : ∀ c : Nat, (code.extract (n + 1) stop).findIdx? (·.val == c) =
      (slice code (n + 1) stop).findIdx? (·.val == c) := by
    intro c
    rw [slice, ← List.findIdx?_toArray, Array.toArray_toList]
  rw [groupEnd, codeAt_of_some hi, splitGroup]
  simp only [bind, Except.bind, hfind]
  cases (v.node i).closedBy with
  | none => exact .error _
  | some c =>
    have hnot : (fun j : v.Pos => !decide (j.val ≠ c)) = fun j => j.val == c := by
      funext j
      by_cases h : j.val = c <;> simp [h]
    dsimp only [Option.bind]
    rw [List.takeWhile_eq_take_findIdx_not, List.dropWhile_eq_drop_findIdx_not, hnot]
    cases hidx : (slice code (n + 1) stop).findIdx? fun j => j.val == c with
    | none =>
      rw [List.findIdx?_eq_none_iff_findIdx_eq.mp hidx, List.drop_length]
      exact .error _
    | some m =>
      obtain ⟨hm, hidx⟩ := List.findIdx?_eq_some_iff_findIdx_eq.mp hidx
      have hlength : (slice code (n + 1) stop).length = stop - (n + 1) := by
        rw [slice, Array.length_toList, Array.size_extract, Nat.min_eq_left hstop]
      have hlt : n + 1 + m < stop := by omega
      obtain ⟨close, hclose, hslice⟩ := slice_cons hlt hstop
      rw [hidx, take_slice (by omega), drop_slice, hslice]
      cases m with
      | zero =>
        rw [Nat.add_zero, slice_eq_nil (Nat.le_refl _)]
        exact .error _
      | succ m =>
        have hfirst : n + 1 < n + 1 + (m + 1) := by omega
        obtain ⟨first, _, hinner⟩ := slice_cons hfirst (Nat.le_trans (Nat.le_of_lt hlt) hstop)
        rw [hinner]
        exact .ok ⟨hlt, hinner.symm, hclose, rfl⟩

/-- The recursion reads the first item of a frame as its piece says, and goes on behind it. -/
inductive Follows (code : Array v.Pos) (f : UseFrame) :
    Except ClauseFault UsePiece → Except StructuralError (List Import) → Prop
  | error (e : StructuralError) : Follows code f (.error (.malformed e)) (.error e)
  | single (i : Import) (next : Nat) :
      Follows code f (.ok (.single i next)) (do
        let others ← v.readItems f.lead f.kind (v.foundAt code f.stop) (slice code next f.stop)
        return i :: others)
  | group (inside : UseFrame) (next : Nat) :
      Follows code f (.ok (.group inside next)) (do
        let grouped ← v.readItems inside.lead inside.kind (v.foundAt code inside.stop)
          (slice code inside.start inside.stop)
        let others ← v.readItems f.lead f.kind (v.foundAt code f.stop) (slice code next f.stop)
        return grouped ++ others)

theorem behindComma_eq {m : Nat} (hstop : stop ≤ code.size) (fault : String → StructuralError) :
    (slice code m stop = [] ∧ v.behindComma code stop m fault = .ok m) ∨
    ∃ j, slice code m stop = j :: slice code (m + 1) stop ∧ v.behindComma code stop m fault =
      if v.kind j = .comma then .ok (m + 1) else .error (.malformed (fault (v.node j).text)) := by
  rw [behindComma]
  rcases Nat.lt_or_ge m stop with hlt | hge
  · obtain ⟨j, hj, hslice⟩ := slice_cons hlt hstop
    rw [if_pos hlt, codeAt_of_some hj]
    exact .inr ⟨j, hslice, rfl⟩
  · rw [if_neg (Nat.not_lt.mpr hge)]
    exact .inl ⟨slice_eq_nil hge, rfl⟩

theorem readBehind_of_alias {lead own follow : String} {kind itemKind : ImportKind}
    {rest : List v.Pos} (hown : own ≠ "") (hrest : ∀ i ∈ rest.head?, v.kind i ≠ .openBrace) :
    v.readBehind lead kind follow itemKind own rest =
      match v.readAlias itemKind (lead ++ own) rest with
      | .error e => .error e
      | .ok (item, []) => .ok [item]
      | .ok (item, j :: more) =>
        if v.kind j = .comma then do
          let others ← v.readItems lead kind follow more
          return item :: others
        else .error (.useFollowedBy (v.node j).text) := by
  rw [readBehind.eq_def, if_neg hown]
  cases rest with
  | nil =>
    dsimp only
    rw [readAlias, readAlias.bare]
    by_cases hfinal : finalSegment (lead ++ own) = ""
    · simp only [if_pos hfinal, Except.map]
    · simp only [if_neg hfinal, Except.map]
  | cons i inside => exact if_neg (hrest i rfl)

theorem pieceBehind_of_alias {f : UseFrame} {own : String} (hown : own ≠ "") (hn : n ≤ f.stop)
    (hstop : f.stop ≤ code.size) (hrest : ∀ i ∈ (slice code n f.stop).head?, v.kind i ≠ .openBrace)
    (hstands : v.standsAt code f.stop n .openBrace = .ok false) (itemKind : ImportKind) :
    Follows code f (v.pieceBehind code f.stop n itemKind (f.lead ++ own))
      (v.readBehind f.lead f.kind (v.foundAt code f.stop) itemKind own (slice code n f.stop)) := by
  rw [pieceBehind, hstands, readBehind_of_alias hown hrest]
  simp only [bind, Except.bind, Bool.false_eq_true, if_false]
  rcases (aliasAt_eq itemKind (f.lead ++ own) hn hstop).of_mapError with
    ⟨e, halias, hread⟩ | ⟨⟨aliasName, m⟩, read, halias, hread, hm, rfl⟩
  · rw [halias, hread]
    exact .error e
  · rw [halias, hread]
    dsimp only
    rcases behindComma_eq hstop StructuralError.useFollowedBy with ⟨hnil, hcomma⟩ |
      ⟨j, hslice, hcomma⟩
    · have hfollows : Follows code f (.ok (.single
          ⟨aliasName, itemKind, withoutLead (f.lead ++ own)⟩ m)) _ :=
        .single _ _
      rw [hnil, readItems_nil] at hfollows
      rw [hcomma, hnil]
      exact hfollows
    · rw [hcomma, hslice]
      dsimp only
      by_cases hj : v.kind j = .comma
      · rw [if_pos hj, if_pos hj]
        exact .single _ _
      · rw [if_neg hj, if_neg hj]
        exact .error _

theorem pieceBehind_of_group {f : UseFrame} {own : String} {i : v.Pos} (hown : own ≠ "")
    (hlt : n < f.stop) (hstop : f.stop ≤ code.size) (hi : code[n]? = some i)
    (hbrace : v.kind i = .openBrace) (itemKind : ImportKind) :
    Follows code f (v.pieceBehind code f.stop n itemKind (f.lead ++ own))
      (v.readBehind f.lead f.kind (v.foundAt code f.stop) itemKind own
        (i :: slice code (n + 1) f.stop)) := by
  rw [pieceBehind, standsAt_of_some hlt hi, readBehind.eq_def, if_neg hown]
  simp only [bind, Except.bind, hbrace, BEq.rfl, if_true]
  rcases (groupEnd_eq hi hstop).of_mapError with ⟨e, hend, hsplit⟩ |
    ⟨close, ⟨inner, closer, behind⟩, hend, hsplit, h⟩
  · rw [hend, hsplit]
    exact .error e
  · obtain ⟨_, rfl, hcloser, rfl⟩ := h
    have hfound : (v.node closer).text = v.foundAt code close := by rw [foundAt, hcloser]
    rw [hend, hsplit]
    dsimp only
    rcases behindComma_eq hstop StructuralError.groupFollowedBy with ⟨hnil, hcomma⟩ |
      ⟨j, hslice, hcomma⟩
    · have hfollows : Follows code f (.ok (.group ⟨f.lead ++ own, itemKind, n + 1, close⟩
          (close + 1))) _ :=
        .group _ _
      rw [hnil, readItems_nil] at hfollows
      rw [hcomma, hnil]
      simp only [hfound]
      generalize v.readItems (f.lead ++ own) itemKind (v.foundAt code close)
        (slice code (n + 1) close) = r at hfollows ⊢
      cases r with
      | error e => exact hfollows
      | ok grouped => simpa [bind, Except.bind, pure, Except.pure] using hfollows
    · rw [hcomma, hslice]
      dsimp only
      by_cases hj : v.kind j = .comma
      · rw [if_pos hj, if_pos hj, hfound]
        exact .group _ _
      · rw [if_neg hj, if_neg hj]
        exact .error _

theorem textAt_slice (hn : n ≤ stop) (hstop : stop ≤ code.size) :
    v.textAt (slice code n stop) (v.foundAt code stop) = v.foundAt code n := by
  rcases Nat.lt_or_ge n stop with hlt | hge
  · obtain ⟨i, hi, hslice⟩ := slice_cons hlt hstop
    rw [hslice, textAt, foundAt, hi]
  · rw [slice_eq_nil hge, textAt, Nat.le_antisymm hn hge]

theorem pieceBehind_follows {f : UseFrame} {own : String} (hown : own ≠ "") (hn : n ≤ f.stop)
    (hstop : f.stop ≤ code.size) (itemKind : ImportKind) :
    Follows code f (v.pieceBehind code f.stop n itemKind (f.lead ++ own))
      (v.readBehind f.lead f.kind (v.foundAt code f.stop) itemKind own (slice code n f.stop)) := by
  rcases Nat.lt_or_ge n f.stop with hlt | hge
  · obtain ⟨i, hi, hslice⟩ := slice_cons hlt hstop
    by_cases hbrace : v.kind i = .openBrace
    · rw [hslice]
      exact pieceBehind_of_group hown hlt hstop hi hbrace itemKind
    · refine pieceBehind_of_alias hown hn hstop ?_ ?_ itemKind
      · rw [hslice]
        simpa using hbrace
      · rw [standsAt_of_some hlt hi, beq_eq_false_iff_ne.mpr hbrace]
  · refine pieceBehind_of_alias hown hn hstop ?_ (standsAt_of_le hge _) itemKind
    rw [slice_eq_nil hge]
    simp

theorem pieceAt_follows {f : UseFrame} (hlt : f.start < f.stop) (hstop : f.stop ≤ code.size) :
    Follows code f (v.pieceAt code f)
      (v.readItems f.lead f.kind (v.foundAt code f.stop) (slice code f.start f.stop)) := by
  obtain ⟨first, hkind, hnamed, hfirst⟩ := kindAt_eq f.kind hlt hstop
  obtain ⟨n, hname, hrest, hn⟩ := nameFrom_eq hfirst hstop
  obtain ⟨i, _, hslice⟩ := slice_cons hlt hstop
  have hempty : (slice code f.start f.stop).isEmpty = false := by rw [hslice]; rfl
  rw [readItems_eq, hempty, hnamed, hrest]
  simp only [pieceAt, bind, Except.bind, hkind, hname, Bool.false_eq_true, if_false]
  by_cases hown : (v.takeName (slice code first f.stop)).1 = ""
  · rw [if_pos hown, readBehind.eq_def, if_pos hown, textAt_slice hn hstop]
    exact .error _
  · rw [if_neg hown]
    exact pieceBehind_follows hown hn hstop _

theorem readFrames_extend (out : Array Import) (frames : List UseFrame) (first : List Import)
    (r : Except StructuralError (List Import)) :
    (do
      let imports ← (do let others ← r; return first ++ others).mapError ClauseFault.malformed
      v.readFrames code (out ++ imports.toArray) frames) = (do
      let imports ← r.mapError .malformed
      v.readFrames code (out ++ first.toArray ++ imports.toArray) frames) := by
  cases r with
  | error e => rfl
  | ok others =>
    show v.readFrames code (out ++ (first ++ others).toArray) frames =
      v.readFrames code (out ++ first.toArray ++ others.toArray) frames
    rw [← List.append_toArray, Array.append_assoc]

/-- The topmost frame is read as the recursion reads its code, and then the frames below it. -/
theorem readFrames_cons {f : UseFrame} (hstop : f.stop ≤ code.size) (out : Array Import)
    (frames : List UseFrame) :
    v.readFrames code out (f :: frames) = (do
      let imports ← (v.readItems f.lead f.kind (v.foundAt code f.stop)
        (slice code f.start f.stop)).mapError .malformed
      v.readFrames code (out ++ imports.toArray) frames) := by
  induction hd : f.stop - f.start using Nat.strongRecOn generalizing f out frames with
  | ind d ih =>
    rw [readFrames]
    by_cases hlt : f.start < f.stop
    · rw [if_pos hlt]
      have hfollows : Follows code f (v.pieceAt code f) _ := pieceAt_follows hlt hstop
      generalize v.readItems f.lead f.kind (v.foundAt code f.stop)
        (slice code f.start f.stop) = r at hfollows ⊢
      split
      · rename_i e hpiece
        rw [hpiece] at hfollows
        cases hfollows
        rfl
      · rename_i i next hpiece
        have hnext : f.start + 1 ≤ next := pieceAt_within hpiece
        rw [hpiece] at hfollows
        cases hfollows
        rw [ih (f.stop - next) (by omega) (f := { f with start := next }) hstop _ _ rfl,
          Array.push_eq_append]
        exact (readFrames_extend out frames [i] _).symm
      · rename_i inside next hpiece
        obtain ⟨h₁, h₂, h₃, h₄⟩ := pieceAt_within hpiece
        rw [hpiece] at hfollows
        cases hfollows
        have hinside := ih (inside.stop - inside.start) (by omega) (f := inside) (by omega)
        generalize v.readItems inside.lead inside.kind (v.foundAt code inside.stop)
          (slice code inside.start inside.stop) = grouped at hinside ⊢
        -- nothing may follow the group, and then no frame is put under it
        rcases Nat.lt_or_ge next f.stop with hnext | hnext
        · rw [if_pos hnext, hinside _ _ rfl]
          cases grouped with
          | error e => rfl
          | ok grouped =>
            show v.readFrames code (out ++ grouped.toArray) ({ f with start := next } :: frames) = _
            rw [ih (f.stop - next) (by omega) (f := { f with start := next }) hstop _ _ rfl]
            exact (readFrames_extend out frames grouped _).symm
        · rw [if_neg (Nat.not_lt.mpr hnext), hinside _ _ rfl, slice_eq_nil hnext, readItems_nil]
          cases grouped with
          | error e => rfl
          | ok grouped =>
            show v.readFrames code (out ++ grouped.toArray) frames =
              v.readFrames code (out ++ (grouped ++ []).toArray) frames
            simp
    · rw [if_neg hlt, slice_eq_nil (Nat.le_of_not_lt hlt), readItems_nil]
      show v.readFrames code out frames = v.readFrames code (out ++ #[]) frames
      simp

theorem readClause_of_readStack {code : List v.Pos} {r : Except StructuralError (List Import)}
    (h : v.readStack code.toArray = r.mapError .malformed) : v.readClause code = r := by
  unfold readClause
  cases r with
  | error e =>
    split <;> rename_i h' <;> cases h'.symm.trans h
    rfl
  | ok imports =>
    split <;> rename_i h' <;> cases h'.symm.trans h
    rfl

theorem readFrames_drop {code : List v.Pos} (kind : ImportKind) (n : Nat) :
    v.readFrames code.toArray #[] [⟨"", kind, n, code.length⟩] =
      (v.readItems "" kind "end of statement" (code.drop n)).mapError .malformed := by
  have hfound : v.foundAt code.toArray code.length = "end of statement" := by simp [foundAt]
  have hslice : slice code.toArray n code.length = code.drop n := by
    rw [slice, Array.toList_extract, List.extract_eq_take_drop, List.take_of_length_le (by simp)]
  rw [readFrames_cons (Nat.le_refl _), hfound, hslice]
  cases v.readItems "" kind "end of statement" (code.drop n) with
  | error e => rfl
  | ok imports =>
    show v.readFrames code.toArray (#[] ++ imports.toArray) [] = .ok imports
    simp [readFrames]

/-- The stack of frames reads a clause as the recursion over its items does. -/
theorem readClause_eq (code : List v.Pos) :
    v.readClause code =
      match v.takeKind .class_ code with
      | (_, []) => .error .useWithoutName
      | (kind, items) => v.readItems "" kind "end of statement" items := by
  apply readClause_of_readStack
  rw [readStack, clauseFrame]
  cases code with
  | nil => rfl
  | cons i code =>
    rw [takeKind, show (i :: code).toArray[0]?.bind v.importKind? = v.importKind? i by simp]
    cases hkind : v.importKind? i with
    | none => exact readFrames_drop .class_ 0
    | some kind =>
      cases code with
      | nil => rfl
      | cons j code => exact readFrames_drop kind 1

end View

end PhpOutline
