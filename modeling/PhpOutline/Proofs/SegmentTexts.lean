import PhpOutline.Proofs.LongestForms
import PhpOutline.Proofs.ScanSteps

/-!
# The texts of name tokens

A name is well formed if it is a row of segments with one separator between each two: it does not
start or end with a separator, and no two stand together. The tokens that names are made of hold to
this each by itself. Only a separator alone ends with one, and only that and a fully qualified name
start with one.
-/

namespace PhpOutline

open Lexeme

namespace Lexeme

/-- Segments that are not empty, with one separator between each two. -/
def IsSegmented : List Char → Prop := Separated '\\' fun u => u ≠ [] ∧ '\\' ∉ u

/-- No two separators stand together. -/
def SingleSeparators (s : List Char) : Prop := s.IsChain fun c d => ¬ (c = '\\' ∧ d = '\\')

variable {c : Char} {s u w : List Char}

theorem singleSeparators_of_not_mem (h : '\\' ∉ s) : SingleSeparators s := by
  apply List.Pairwise.isChain
  rw [List.pairwise_iff_forall_sublist]
  rintro a b hab ⟨rfl, -⟩
  exact h (hab.subset (by simp))

theorem singleSeparators_cons :
    SingleSeparators ('\\' :: s) ↔ s.head? ≠ some '\\' ∧ SingleSeparators s := by
  cases s with
  | nil => simp [SingleSeparators]
  | cons d s => simp [SingleSeparators]

theorem IsSegmented.spaced (h : IsSegmented w) :
    w ≠ [] ∧ w.head? ≠ some '\\' ∧ w.getLast? ≠ some '\\' ∧ SingleSeparators w := by
  have hpiece : ∀ u : List Char, '\\' ∉ u → u.head? ≠ some '\\' ∧ u.getLast? ≠ some '\\' :=
    fun u hu =>
    ⟨fun h => hu (List.mem_of_head? h), fun h => hu (List.mem_of_getLast? h)⟩
  induction h with
  | one h =>
    obtain ⟨hhead, hlast⟩ := hpiece _ h.2
    exact ⟨h.1, hhead, hlast, singleSeparators_of_not_mem h.2⟩
  | @more u r h _ ih =>
    obtain ⟨hne, hhead, hlast, hsingle⟩ := ih
    obtain ⟨huhead, hulast⟩ := hpiece u h.2
    refine ⟨by simp, ?_, ?_, ?_⟩
    · rwa [List.head?_append_of_ne_nil _ h.1]
    · rwa [List.getLast?_append_of_ne_nil _ (List.cons_ne_nil _ _),
        List.getLast?_cons_of_ne_nil hne]
    · refine List.isChain_append.mpr
        ⟨singleSeparators_of_not_mem h.2, singleSeparators_cons.mpr ⟨hhead, hsingle⟩, ?_⟩
      rintro x hx y _ ⟨rfl, -⟩
      exact hulast hx

theorem isSegmented_of_spaced (hne : w ≠ []) (hhead : w.head? ≠ some '\\')
    (hlast : w.getLast? ≠ some '\\') (hsingle : SingleSeparators w) : IsSegmented w := by
  -- by induction on the length, with the first segment cut off
  induction hn : w.length using Nat.strong_induction_on generalizing w with
  | _ n ih =>
  have hsplit := List.takeWhile_append_dropWhile (p := fun c => decide (c ≠ '\\')) (l := w)
  generalize hu : w.takeWhile (fun c => decide (c ≠ '\\')) = u at hsplit
  have hpiece : u ≠ [] ∧ '\\' ∉ u := by
    constructor
    · rintro rfl
      cases w with
      | nil => exact hne rfl
      | cons c w =>
        rw [List.takeWhile_cons] at hu
        split at hu
        · cases hu
        · rename_i hc
          simp only [ne_eq, decide_not, Bool.not_eq_true', decide_eq_false_iff_not, not_not] at hc
          exact hhead (by rw [hc]; rfl)
    · intro hmem
      rw [← hu] at hmem
      simpa using List.mem_takeWhile_imp hmem
  -- without a separator the piece is all of the name
  cases hrest : w.dropWhile fun c => decide (c ≠ '\\') with
  | nil =>
    rw [hrest, List.append_nil] at hsplit
    exact hsplit ▸ .one hpiece
  | cons c r =>
    obtain rfl : c = '\\' := by
      have := List.head?_dropWhile_not (fun c => decide (c ≠ '\\')) w
      rw [hrest] at this
      simpa using this
    rw [hrest] at hsplit
    obtain ⟨-, hr, -⟩ := List.isChain_append.mp (hsplit ▸ hsingle)
    obtain ⟨hrhead, hrsingle⟩ := singleSeparators_cons.mp hr
    have hrlast : r ≠ [] ∧ r.getLast? ≠ some '\\' := by
      rw [← hsplit, List.getLast?_append, List.getLast?_cons] at hlast
      constructor
      · rintro rfl
        simp at hlast
      · intro h
        simp [h] at hlast
    have hlt : r.length < n := by
      rw [← hn, ← hsplit, List.length_append, List.length_cons]
      omega
    rw [← hsplit]
    exact .more hpiece (ih r.length hlt hrlast.1 hrhead hrlast.2 hrsingle rfl)

theorem isSegmented_iff :
    IsSegmented w ↔ w ≠ [] ∧ w.head? ≠ some '\\' ∧ w.getLast? ≠ some '\\' ∧ SingleSeparators w :=
  ⟨IsSegmented.spaced, fun ⟨hne, hhead, hlast, hsingle⟩ =>
    isSegmented_of_spaced hne hhead hlast hsingle⟩

theorem IsPath.isSegmented (h : IsPath w) : IsSegmented w := by
  induction h with
  | one h => exact .one ⟨h.ne_nil, h.separator_not_mem⟩
  | more h _ ih => exact .more ⟨h.ne_nil, h.separator_not_mem⟩ ih

structure SegmentText (kind : Kind) (s : List Char) : Prop where
  ne_nil : s ≠ []
  single : SingleSeparators s
  leads : s.head? = some '\\' ↔ kind = .nsSeparator ∨ kind = .nameFullyQualified
  trails : s.getLast? = some '\\' ↔ kind = .nsSeparator

theorem segmentText_separator : SegmentText .nsSeparator ['\\'] :=
  ⟨by simp, by simp [SingleSeparators], by simp, by simp⟩

theorem nameKind_eq_nameFullyQualified_iff {ctx : Context} {after : List Char} :
    nameKind ctx s after = .nameFullyQualified ↔ s.head? = some '\\' := by
  have hlead : ['\\'].isPrefixOf s = true ↔ s.head? = some '\\' := by
    rw [List.isPrefixOf_iff_prefix, List.head?_eq_some_iff]
    constructor
    · rintro ⟨r, rfl⟩
      exact ⟨r, rfl⟩
    · rintro ⟨r, rfl⟩
      exact ⟨r, rfl⟩
  rw [← hlead]
  constructor
  · intro h
    by_contra hne
    have hword : wordKind ctx s after ≠ .nameFullyQualified := by
      unfold wordKind keywordKind
      dsimp only
      repeat' split
      case h_1 kind hlookup =>
        have hall : ∀ e ∈ keywords, e.2 ≠ .nameFullyQualified := by decide
        exact hall _ (mem_keywords_of_lookup hlookup)
      all_goals exact Kind.noConfusion
    unfold nameKind at h
    rw [if_neg hne] at h
    split at h
    · split at h <;> cases h
    · exact hword h
  · intro h
    rw [nameKind, if_pos h]

theorem IsName.segmentText {ctx : Context} {after : List Char} (h : IsName w) :
    SegmentText (nameKind ctx w after) w := by
  have hne : nameKind ctx w after ≠ .nsSeparator := by
    have := nameKind_of (q := fun k => decide (k = .nsSeparator)) (by decide)
      (by decide) ctx w after
    simpa using this
  have hleads : w.head? = some '\\' ↔
      nameKind ctx w after = .nsSeparator ∨ nameKind ctx w after = .nameFullyQualified := by
    rw [nameKind_eq_nameFullyQualified_iff]
    simp [hne]
  have htrails : w.getLast? ≠ some '\\' → (w.getLast? = some '\\' ↔
      nameKind ctx w after = .nsSeparator) := by
    intro hlast
    simp [hne, hlast]
  cases h with
  | path h =>
    obtain ⟨hnil, -, hlast, hsingle⟩ := h.isSegmented.spaced
    exact ⟨hnil, hsingle, hleads, htrails hlast⟩
  | @full u h =>
    obtain ⟨hnil, hhead, hlast, hsingle⟩ := h.isSegmented.spaced
    refine ⟨by simp, singleSeparators_cons.mpr ⟨hhead, hsingle⟩, hleads, htrails ?_⟩
    rwa [List.getLast?_cons_of_ne_nil hnil]

end Lexeme

variable {source : String} {ts : List Token} {t : Token}

theorem name_of_tokenize (h : tokenize source = .ok ts) (ht : t ∈ ts)
    (hx : Lexer.Reader.of? t.kind = some .name) :
    (IsName t.text.toList ∧ ∃ ctx after, t.kind = nameKind ctx t.text.toList after) ∨
      (t.kind = .nsSeparator ∧ t.text.toList = ['\\']) := by
  obtain ⟨_, hscans⟩ := Lexer.scans_of_tokensFrom h
  obtain ⟨st, c, s, k, us, vs, ⟨hc, rfl⟩, hcut⟩ := hscans.takes ht hx
  unfold Lexer.name at hcut
  rcases longest_name (s := s) hc with ⟨hne, -, hname⟩ | ⟨hzero, rfl, -⟩
  · split at hcut
    · rename_i hzero
      exact absurd hzero hne
    · obtain ⟨-, -, rfl⟩ := Lexer.eq_of_cut_one hcut
      rw [Lexer.State.token, String.toList_ofList]
      exact .inl ⟨hname, _, _, rfl⟩
  · rw [hzero] at hcut
    obtain ⟨-, -, rfl⟩ := Lexer.eq_of_cut_one hcut
    exact .inr ⟨rfl, String.toList_ofList⟩

theorem segmentText_of_tokenize (h : tokenize source = .ok ts) (ht : t ∈ ts)
    (hkind : Taxonomy.php.nameSegments.contains t.kind = true) :
    SegmentText t.kind t.text.toList := by
  have hall : ∀ k, Taxonomy.php.nameSegments.contains k = true →
      Lexer.Reader.of? k = some .name := by
    intro k
    cases k <;> decide
  rcases name_of_tokenize h ht (hall _ hkind) with ⟨hname, ctx, after, hk⟩ | ⟨hk, htext⟩
  · rw [hk]
    exact hname.segmentText
  · rw [hk, htext]
    exact segmentText_separator

end PhpOutline
