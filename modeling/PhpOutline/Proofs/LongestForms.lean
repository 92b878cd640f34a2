import PhpOutline.Proofs.ClosingBrackets
import PhpOutline.Proofs.ListFacts

/-!
# Names and operators as the longest match

What names, variables, operators and punctuation look like, said as forms of a text. A reader
answers with a length, and `Measures` says that no longer start of the text is of its form. Names
are identifiers with separators in between, as numbers are groups of digits with underscores in
between, so one statement about such runs serves both (`measures_runLength`).
-/

namespace PhpOutline

namespace Lexeme

/-- The longest start of a text that is of a form. -/
structure Longest (form : List Char → Prop) (s w : List Char) : Prop where
  starts : w <+: s
  fits : form w
  longest : ∀ u, u <+: s → form u → u.length ≤ w.length

/-- The length of the longest start of a text that is of a form, zero if there is none. -/
structure Measures (form : List Char → Prop) (s : List Char) (n : Nat) : Prop where
  bound : ∀ u, u <+: s → form u → u.length ≤ n
  reached : n ≠ 0 → ∃ w, w <+: s ∧ form w ∧ w.length = n

section

variable {form : List Char → Prop} {s w t : List Char} {n : Nat}

theorem Measures.longest (h : Measures form s n) (hn : n ≠ 0) : Longest form s (s.take n) := by
  obtain ⟨w, hw, hform, hlength⟩ := h.reached hn
  rw [← hlength, ← List.prefix_iff_eq_take.mp hw]
  refine ⟨hw, hform, fun u hu hu' => ?_⟩
  rw [hlength]
  exact h.bound u hu hu'

theorem Measures.exists_split (h : Measures form s n) :
    ∃ w t, s = w ++ t ∧ (w = [] ∨ form w) ∧ w.length = n := by
  by_cases hn : n = 0
  · exact ⟨[], s, rfl, .inl rfl, hn.symm⟩
  · obtain ⟨w, ⟨t, rfl⟩, hform, hlength⟩ := h.reached hn
    exact ⟨w, t, rfl, .inr hform, hlength⟩

theorem Measures.eq_length (h : Measures form (w ++ t) n) (hw : w = [] ∨ form w)
    (hstop : ∀ c, t.head? = some c → ∀ u, form u → c ∉ u) : n = w.length := by
  have hle : w.length ≤ n := by
    rcases hw with rfl | hw
    · exact Nat.zero_le n
    · exact h.bound w (List.prefix_append w t) hw
  by_contra hne
  obtain ⟨u, hu, hform, hlength⟩ := h.reached (by omega)
  obtain ⟨v, rfl⟩ := List.prefix_of_prefix_length_le (List.prefix_append w t) hu (by omega)
  cases v with
  | nil => simp at hlength; omega
  | cons c v =>
    obtain ⟨r, rfl⟩ := (List.prefix_append_right_inj w).mp hu
    exact hstop c rfl _ hform (by simp)

end

/-! ## Runs with separators -/

/-- Pieces of a form, with one separator between each two. -/
inductive Separated (sep : Char) (form : List Char → Prop) : List Char → Prop
  | one {w : List Char} (h : form w) : Separated sep form w
  | more {w r : List Char} (h : form w) (hr : Separated sep form r) :
      Separated sep form (w ++ sep :: r)

def runLength (piece further : List Char → Nat) (s : List Char) : Nat :=
  match piece s with
  | 0 => 0
  | n + 1 => n + 1 + further (s.drop (n + 1))

theorem Separated.forall_mem {sep : Char} {form : List Char → Prop} {q : Char → Prop}
    {w : List Char} (h : Separated sep form w) (hform : ∀ u, form u → ∀ c ∈ u, q c) (hsep : q sep) :
    ∀ c ∈ w, q c := by
  induction h with
  | one h => exact hform _ h
  | more h _ ih =>
    intro c hc
    rcases List.mem_append.mp hc with hc | hc
    · exact hform _ h c hc
    · rcases List.mem_cons.mp hc with rfl | hc
      · exact hsep
      · exact ih c hc

section

variable {sep : Char} {form : List Char → Prop} {piece further : List Char → Nat}
  (hpiece : ∀ s, Measures form s (piece s)) (hne : ∀ w, form w → w ≠ [])
  (hfree : ∀ w, form w → sep ∉ w) (hsep : ∀ s, further (sep :: s) =
    match piece s with
    | 0 => 0
    | n + 1 => 1 + (n + 1) + further (s.drop (n + 1)))
  (hother : ∀ s, s.head? ≠ some sep → further s = 0)

theorem runLength_of_zero {s : List Char} (h : piece s = 0) : runLength piece further s = 0 := by
  rw [runLength, h]

theorem runLength_of_ne_zero {s : List Char} (h : piece s ≠ 0) :
    runLength piece further s = piece s + further (s.drop (piece s)) := by
  obtain ⟨n, hn⟩ := Nat.exists_eq_succ_of_ne_zero h
  rw [runLength, hn]

include hsep in
theorem further_sep (s : List Char) :
    further (sep :: s) = if piece s = 0 then 0 else 1 + runLength piece further s := by
  rw [hsep]
  split
  · rename_i h
    rw [if_pos h]
  · rename_i n h
    rw [if_neg (by omega), runLength_of_ne_zero (by omega), h]
    exact Nat.add_assoc ..

include hne in
theorem Separated.ne_nil {w : List Char} (h : Separated sep form w) : w ≠ [] := by
  cases h with
  | one h => exact hne _ h
  | more => simp

include hpiece hne hfree hsep in
theorem Separated.length_le {u s : List Char} (h : Separated sep form u) (hu : u <+: s) :
    u.length ≤ runLength piece further s := by
  -- by induction on the run: each piece but the last ends at its separator
  induction h generalizing s with
  | @one w h =>
    have hle := (hpiece s).bound w hu h
    have hpos := List.length_pos_iff.mpr (hne w h)
    rw [runLength_of_ne_zero (by omega)]
    omega
  | @more w r h hr ih =>
    obtain ⟨t, rfl⟩ := hu
    rw [List.append_assoc, List.cons_append]
    have hpos := List.length_pos_iff.mpr (hne w h)
    have heq : piece (w ++ sep :: (r ++ t)) = w.length := by
      apply (hpiece _).eq_length (.inr h)
      intro c hc u hform
      cases hc
      exact hfree u hform
    have hrest := ih (List.prefix_append r t)
    have hrpos := List.length_pos_iff.mpr (Separated.ne_nil hne hr)
    have hmore : piece (r ++ t) ≠ 0 := by
      intro hzero
      rw [runLength_of_zero hzero] at hrest
      omega
    rw [runLength_of_ne_zero (by omega), heq, List.drop_left, further_sep hsep, if_neg hmore,
      List.length_append, List.length_cons]
    omega

include hpiece hne hsep hother in
theorem exists_separated {s : List Char} (h : piece s ≠ 0) :
    ∃ w, w <+: s ∧ Separated sep form w ∧ w.length = runLength piece further s := by
  -- by induction on the length of the text: what follows a piece is shorter
  induction hn : s.length using Nat.strong_induction_on generalizing s with
  | _ n ih =>
    obtain ⟨w, ⟨t, rfl⟩, hform, hlength⟩ := (hpiece s).reached h
    have hpos := List.length_pos_iff.mpr (hne w hform)
    rw [runLength_of_ne_zero h, ← hlength, List.drop_left]
    have last : further t = 0 →
        ∃ u, u <+: w ++ t ∧ Separated sep form u ∧ u.length = w.length + further t := fun hzero =>
      ⟨w, List.prefix_append w t, .one hform, by rw [hzero]; rfl⟩
    by_cases hhead : t.head? = some sep
    · obtain ⟨t, rfl⟩ := List.head?_eq_some_iff.mp hhead
      by_cases hzero : piece t = 0
      · apply last
        rw [further_sep hsep, if_pos hzero]
      · have hlt : t.length < n := by
          rw [← hn, List.length_append, List.length_cons]
          omega
        obtain ⟨r, ⟨t, rfl⟩, hr, hrlength⟩ := ih t.length hlt hzero rfl
        refine ⟨w ++ sep :: r, ⟨t, by simp⟩, .more hform hr, ?_⟩
        rw [further_sep hsep, if_neg hzero, List.length_append, List.length_cons, hrlength]
        omega
    · exact last (hother t hhead)

include hpiece hne hfree hsep hother in
theorem measures_runLength (s : List Char) :
    Measures (Separated sep form) s (runLength piece further s) where
  bound u hu h := Separated.length_le hpiece hne hfree hsep h hu
  reached h := by
    apply exists_separated hpiece hne hsep hother
    intro hzero
    exact h (runLength_of_zero hzero)

end

/-! ## Identifiers and names -/

def IsIdent (w : List Char) : Prop :=
  ∃ c r, w = c :: r ∧ isIdentStart c = true ∧ ∀ d ∈ r, isIdentRest d = true

def IsPath : List Char → Prop := Separated '\\' IsIdent

inductive IsName : List Char → Prop
  | path {w : List Char} (h : IsPath w) : IsName w
  | full {w : List Char} (h : IsPath w) : IsName ('\\' :: w)

def NameForm (w : List Char) : Prop := IsName w ∨ w = ['\\']

inductive VariableForm : List Char → Prop
  | named {w : List Char} (h : IsIdent w) : VariableForm ('$' :: w)
  | dollar : VariableForm ['$']

variable {c : Char} {s w : List Char}

theorem toLower_of_past_ascii (h : 128 ≤ c.toNat) : c.toLower = c := by
  refine dif_neg fun hupper => ?_
  have := UInt32.le_iff_toNat_le.mp hupper.2
  change c.toNat ≤ 90 at this
  omega

theorem IsIdent.ne_nil (h : IsIdent w) : w ≠ [] := by
  obtain ⟨c, r, rfl, -⟩ := h
  simp

theorem IsIdent.isIdentRest (h : IsIdent w) : ∀ d ∈ w, isIdentRest d = true := by
  obtain ⟨c, r, rfl, hc, hr⟩ := h
  intro d hd
  rcases List.mem_cons.mp hd with rfl | hd
  · rw [Lexeme.isIdentRest, hc]
    rfl
  · exact hr d hd

theorem IsIdent.separator_not_mem (h : IsIdent w) : '\\' ∉ w := by
  intro hmem
  have := h.isIdentRest _ hmem
  revert this
  decide

theorem measures_identLength (s : List Char) : Measures IsIdent s (identLength s) where
  bound u hu h := by
    obtain ⟨c, r, rfl, hc, hr⟩ := h
    obtain ⟨t, rfl⟩ := hu
    have := length_le_takeWhile (List.prefix_append r t) hr
    rw [List.cons_append, identLength, if_pos hc, List.length_cons]
    omega
  reached h := by
    cases s with
    | nil => exact absurd rfl h
    | cons c s =>
      rw [identLength] at h ⊢
      by_cases hc : isIdentStart c = true
      · rw [if_pos hc]
        refine ⟨c :: s.takeWhile isIdentRest, ?_, ⟨c, _, rfl, hc, ?_⟩, ?_⟩
        · exact List.cons_prefix_cons.mpr ⟨rfl, List.takeWhile_prefix _⟩
        · exact fun d hd => List.all_eq_true.mp List.all_takeWhile d hd
        · rw [List.length_cons, Nat.add_comm]
      · rw [if_neg hc] at h
        exact absurd rfl h

def pathLength : List Char → Nat := runLength identLength segmentsLength

theorem measures_pathLength (s : List Char) : Measures IsPath s (pathLength s) := by
  apply measures_runLength
  · exact measures_identLength
  · exact fun w h => h.ne_nil
  · exact fun w h => h.separator_not_mem
  · intro s
    rw [segmentsLength]
    split <;> simp_all
  · intro s hs
    unfold segmentsLength
    split
    · simp at hs
    · rfl

theorem nameLength_separator (s : List Char) :
    nameLength ('\\' :: s) = if identLength s = 0 then 0 else 1 + pathLength s := by
  have hlead : ['\\'].isPrefixOf ('\\' :: s) = true := by simp
  unfold nameLength
  dsimp only
  rw [hlead, if_pos rfl, List.drop_one, List.tail_cons, pathLength]
  split
  · rename_i h
    rw [if_pos h]
  · rename_i n h
    rw [if_neg (by omega), runLength_of_ne_zero (by omega), h, Nat.add_comm 1 (n + 1),
      List.drop_succ_cons, Nat.add_comm (n + 1) 1]
    exact Nat.add_assoc ..

theorem nameLength_of_ne (hc : c ≠ '\\') : nameLength (c :: s) = pathLength (c :: s) := by
  have hlead : ['\\'].isPrefixOf (c :: s) = false := by simp [List.isPrefixOf_cons_cons, hc.symm]
  unfold nameLength
  dsimp only
  rw [hlead, if_neg Bool.false_ne_true, List.drop_zero, pathLength]
  split
  · rename_i h
    rw [runLength_of_zero h]
  · rename_i n h
    rw [runLength_of_ne_zero (by omega), h, Nat.zero_add]

theorem IsPath.head (h : IsPath w) : ∃ c r, w = c :: r ∧ isIdentStart c = true := by
  cases h with
  | one h =>
    obtain ⟨c, r, hw, hc, -⟩ := h
    exact ⟨c, r, hw, hc⟩
  | more h _ =>
    obtain ⟨c, r, rfl, hc, -⟩ := h
    exact ⟨c, _, rfl, hc⟩

theorem IsPath.length_pos (h : IsPath w) : 0 < w.length := by
  obtain ⟨c, r, rfl, -⟩ := h.head
  simp

theorem not_isPath_separator (w : List Char) : ¬ IsPath ('\\' :: w) := by
  intro h
  obtain ⟨c, r, heq, hc⟩ := h.head
  obtain ⟨rfl, -⟩ := List.cons.inj heq
  revert hc
  decide

theorem measures_nameLength_separator (s : List Char) :
    Measures IsName ('\\' :: s) (nameLength ('\\' :: s)) where
  bound u hu h := by
    cases h with
    | path h =>
      obtain ⟨c, r, rfl, -⟩ := h.head
      obtain ⟨rfl, -⟩ := List.cons_prefix_cons.mp hu
      exact absurd h (not_isPath_separator r)
    | @full w h =>
      have hle := (measures_pathLength s).bound w (List.cons_prefix_cons.mp hu).2 h
      have hpos := h.length_pos
      have hne : identLength s ≠ 0 := by
        intro hzero
        rw [pathLength, runLength_of_zero hzero] at hle
        omega
      rw [nameLength_separator, if_neg hne, List.length_cons]
      omega
  reached h := by
    rw [nameLength_separator] at h ⊢
    by_cases hzero : identLength s = 0
    · simp [hzero] at h
    · have hpath : pathLength s ≠ 0 := by
        rw [pathLength, runLength_of_ne_zero hzero]
        omega
      obtain ⟨w, hw, hform, hlength⟩ := (measures_pathLength s).reached hpath
      refine ⟨'\\' :: w, List.cons_prefix_cons.mpr ⟨rfl, hw⟩, .full hform, ?_⟩
      rw [if_neg hzero, List.length_cons]
      omega

theorem measures_nameLength (s : List Char) : Measures IsName s (nameLength s) := by
  cases s with
  | nil =>
    refine ⟨fun u hu _ => ?_, fun h => absurd rfl h⟩
    rw [List.prefix_nil.mp hu]
    exact Nat.zero_le _
  | cons c s =>
    by_cases hc : c = '\\'
    · subst hc
      exact measures_nameLength_separator s
    · rw [nameLength_of_ne hc]
      constructor
      · intro u hu h
        cases h with
        | path h => exact (measures_pathLength _).bound u hu h
        | full h => exact absurd (List.cons_prefix_cons.mp hu).1.symm hc
      · intro h
        obtain ⟨w, hw, hform, hlength⟩ := (measures_pathLength _).reached h
        exact ⟨w, hw, .path hform, hlength⟩

theorem longest_name (h : c = '\\' ∨ isIdentStart c = true) :
    (nameLength (c :: s) ≠ 0 ∧ Longest NameForm (c :: s) ((c :: s).take (nameLength (c :: s))) ∧
      IsName ((c :: s).take (nameLength (c :: s)))) ∨
    (nameLength (c :: s) = 0 ∧ c = '\\' ∧ Longest NameForm (c :: s) ['\\']) := by
  have hmeasures := measures_nameLength (c :: s)
  by_cases hzero : nameLength (c :: s) = 0
  · right
    have hc : c = '\\' := by
      rcases h with h | h
      · exact h
      · by_contra hne
        rw [nameLength_of_ne hne, pathLength,
          runLength_of_ne_zero (by simp [identLength, h])] at hzero
        simp [identLength, h] at hzero
    subst hc
    refine ⟨hzero, rfl, by simp, .inr rfl, fun u hu hform => ?_⟩
    rcases hform with hform | rfl
    · have := hmeasures.bound u hu hform
      omega
    · simp
  · left
    have hlongest := hmeasures.longest hzero
    refine ⟨hzero, ⟨hlongest.starts, .inl hlongest.fits, fun u hu hform => ?_⟩, hlongest.fits⟩
    rcases hform with hform | rfl
    · exact hlongest.longest u hu hform
    · simp only [List.length_take, List.length_cons, List.length_nil]
      omega

/-! ## Variables -/

theorem longest_variable (s : List Char) :
    (variableLength ('$' :: s) ≠ 0 ∧ Longest VariableForm ('$' :: s)
      (('$' :: s).take (variableLength ('$' :: s)))) ∨
    (variableLength ('$' :: s) = 0 ∧ Longest VariableForm ('$' :: s) ['$']) := by
  have hmeasures := measures_identLength s
  rw [variableLength]
  split
  · rename_i hzero
    refine .inr ⟨rfl, by simp, .dollar, fun u hu hform => ?_⟩
    cases hform with
    | dollar => simp
    | named h =>
      have := hmeasures.bound _ (List.cons_prefix_cons.mp hu).2 h
      have := List.length_pos_iff.mpr h.ne_nil
      omega
  · rename_i n hn
    have hlongest := hmeasures.longest (by omega)
    rw [hn] at hlongest
    refine .inl ⟨by omega, ?_⟩
    rw [Nat.add_comm 1, List.take_succ_cons]
    refine ⟨List.cons_prefix_cons.mpr ⟨rfl, hlongest.starts⟩, .named hlongest.fits,
      fun u hu hform => ?_⟩
    cases hform with
    | dollar => simp
    | named h =>
      have := hlongest.longest _ (List.cons_prefix_cons.mp hu).2 h
      simpa using this

/-! ## Operators -/

/-- An operator of the table, or a punctuation character alone. -/
inductive OperatorForm : List Char → Prop
  | operator {op : String} (h : op ∈ operators) : OperatorForm op.toList
  | single {c : Char} (h : (punctuationKind? c).isSome = true) : OperatorForm [c]

/-- In the table no operator comes behind a shorter one, so the first match is the longest. -/
theorem operators_sorted : operators.Pairwise fun op op' => op'.length ≤ op.length := by
  decide +kernel

theorem two_le_length_operator : ∀ op ∈ operators, 2 ≤ op.length := by
  decide +kernel

theorem length_le_of_find? {p : String → Bool} {op op' : String} (h : operators.find? p = some op)
    (hmem : op' ∈ operators) (hp : p op' = true) : op'.length ≤ op.length := by
  obtain ⟨_, before, after, heq, hbefore⟩ := List.find?_eq_some_iff_append.mp h
  have hsorted := operators_sorted
  rw [heq] at hmem hsorted
  rcases List.mem_append.mp hmem with hmem | hmem
  · have := hbefore op' hmem
    simp [hp] at this
  · rcases List.mem_cons.mp hmem with rfl | hmem
    · exact Nat.le_refl _
    · exact (List.pairwise_cons.mp (List.pairwise_append.mp hsorted).2.1).1 op' hmem

theorem longest_operator {kind : Kind} {n : Nat} (h : operator? s = some (kind, n)) :
    Longest OperatorForm s (s.take n) := by
  unfold operator? at h
  split at h
  · rename_i op hop
    cases h
    have hstarts : op.toList.isPrefixOf s = true := by simpa using List.find?_some hop
    have hstart := List.isPrefixOf_iff_prefix.mp hstarts
    have hmem := List.mem_of_find?_eq_some hop
    rw [← String.length_toList, ← List.prefix_iff_eq_take.mp hstart]
    refine ⟨hstart, .operator hmem, fun u hu hform => ?_⟩
    rw [String.length_toList]
    cases hform with
    | operator h =>
      rw [String.length_toList]
      exact length_le_of_find? hop h (List.isPrefixOf_iff_prefix.mpr hu)
    | single =>
      have := two_le_length_operator op hmem
      rw [List.length_singleton]
      omega
  · rename_i hnone
    cases s with
    | nil => cases h
    | cons c s =>
      obtain ⟨kind, hkind, heq⟩ := Option.map_eq_some_iff.mp h
      cases heq
      rw [List.take_succ_cons, List.take_zero]
      refine ⟨by simp, .single (by rw [hkind]; rfl), fun u hu hform => ?_⟩
      cases hform with
      | @operator op h =>
        exact absurd (List.isPrefixOf_iff_prefix.mpr hu) (List.find?_eq_none.mp hnone op h)
      | single => simp

theorem not_operatorForm {u : List Char} (h : operator? s = none) (hu : u <+: s) :
    ¬ OperatorForm u := by
  intro hform
  unfold operator? at h
  split at h
  · cases h
  · rename_i hnone
    cases hform with
    | @operator op hop =>
      exact List.find?_eq_none.mp hnone op hop (List.isPrefixOf_iff_prefix.mpr hu)
    | @single c hc =>
      obtain ⟨t, rfl⟩ := hu
      rw [List.singleton_append] at h
      simp [Option.map_eq_none_iff.mp h] at hc

end Lexeme

end PhpOutline
