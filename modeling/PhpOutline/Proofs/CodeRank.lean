import PhpOutline.Proofs.Balanced

/-!
# Dropping trivia

Dropping the trivia of a list of tokens moves the code to the front: a code token goes to its rank,
the number of code tokens before it. Trivia neither opens nor closes brackets, so heights, and with
them pairs and the brackets around a token, stay as they are up to the ranks.
-/

namespace PhpOutline

namespace Graph

variable {x : Taxonomy} {f : Flags} {ts : List Token} {t : Token} {a b c i j k o : Nat}

def codeOf (x : Taxonomy) (ts : List Token) : List Token := ts.filter (x.isCode ·.kind)

/-- How many code tokens stand before an index. -/
def rank (x : Taxonomy) (ts : List Token) (i : Nat) : Nat := (codeOf x (ts.take i)).length

@[simp] theorem rank_zero : rank x ts 0 = 0 := by simp [rank, codeOf]

theorem rank_of_length_le (h : ts.length ≤ i) : rank x ts i = (codeOf x ts).length := by
  rw [rank, List.take_of_length_le h]

theorem codeAt_iff_isCode (h : ts[i]? = some t) : CodeAt x ts i ↔ x.isCode t.kind = true := by
  rw [codeAt_iff h]
  simp [Taxonomy.isCode]

theorem rank_succ_of_code (h : CodeAt x ts i) : rank x ts (i + 1) = rank x ts i + 1 := by
  obtain ⟨t, ht, hcode⟩ := h
  simp [rank, codeOf, List.take_add_one, ht, Taxonomy.isCode, hcode]

theorem rank_succ_of_not_code (h : ¬ CodeAt x ts i) : rank x ts (i + 1) = rank x ts i := by
  cases ht : ts[i]? with
  | none => simp [rank, List.take_add_one, ht]
  | some t =>
    rw [codeAt_iff_isCode ht] at h
    simp [rank, codeOf, List.take_add_one, ht, h]

theorem rank_le_succ : rank x ts i ≤ rank x ts (i + 1) := by
  by_cases h : CodeAt x ts i
  · rw [rank_succ_of_code h]
    omega
  · exact Nat.le_of_eq (rank_succ_of_not_code h).symm

theorem rank_mono (h : i ≤ j) : rank x ts i ≤ rank x ts j := by
  induction j with
  | zero => simp [show i = 0 by omega]
  | succ j ih =>
    by_cases hij : i ≤ j
    · exact Nat.le_trans (ih hij) rank_le_succ
    · exact Nat.le_of_eq (by rw [show i = j + 1 by omega])

theorem rank_lt (h : CodeAt x ts i) (hij : i < j) : rank x ts i < rank x ts j := by
  have : rank x ts (i + 1) ≤ rank x ts j := rank_mono hij
  rw [rank_succ_of_code h] at this
  omega

theorem lt_of_rank_lt (h : rank x ts i < rank x ts j) : i < j := by
  rcases Nat.lt_or_ge i j with hlt | hge
  · exact hlt
  · have : rank x ts j ≤ rank x ts i := rank_mono hge
    omega

theorem exists_rank_eq (h : k ≤ rank x ts i) : ∃ j, j ≤ i ∧ rank x ts j = k := by
  -- the ranks grow one by one, so all numbers up to a rank are ranks
  induction i with
  | zero => exact ⟨0, Nat.le_refl 0, by simp_all⟩
  | succ i ih =>
    by_cases hk : k ≤ rank x ts i
    · obtain ⟨j, hj, heq⟩ := ih hk
      exact ⟨j, by omega, heq⟩
    · refine ⟨i + 1, Nat.le_refl _, ?_⟩
      by_cases hc : CodeAt x ts i
      · rw [rank_succ_of_code hc] at h ⊢
        omega
      · rw [rank_succ_of_not_code hc] at h
        exact absurd h hk

theorem exists_code_of_rank (h : k < rank x ts i) :
    ∃ j, j < i ∧ CodeAt x ts j ∧ rank x ts j = k := by
  induction i with
  | zero => simp at h
  | succ i ih =>
    by_cases hk : k < rank x ts i
    · obtain ⟨j, hj, hcode, heq⟩ := ih hk
      exact ⟨j, by omega, hcode, heq⟩
    · by_cases hc : CodeAt x ts i
      · rw [rank_succ_of_code hc] at h
        exact ⟨i, Nat.lt_succ_self i, hc, by omega⟩
      · rw [rank_succ_of_not_code hc] at h
        exact absurd h hk

/-! ## The tokens at the ranks -/

theorem codeOf_split (i : Nat) : codeOf x ts = codeOf x (ts.take i) ++ codeOf x (ts.drop i) := by
  rw [codeOf, codeOf, codeOf, ← List.filter_append, List.take_append_drop]

theorem take_codeOf : (codeOf x ts).take (rank x ts i) = codeOf x (ts.take i) := by
  rw [codeOf_split i, rank, List.take_left]

theorem drop_codeOf : (codeOf x ts).drop (rank x ts i) = codeOf x (ts.drop i) := by
  rw [codeOf_split i, rank, List.drop_left]

theorem getElem?_codeOf (h : CodeAt x ts i) : (codeOf x ts)[rank x ts i]? = ts[i]? := by
  obtain ⟨t, ht, hcode⟩ := h
  have hdrop : (ts.drop i).head? = some t := by rw [List.head?_drop, ht]
  obtain ⟨rest, hrest⟩ := List.head?_eq_some_iff.mp hdrop
  rw [← List.head?_drop, drop_codeOf, hrest, codeOf, List.filter_cons,
    if_pos (by simp [Taxonomy.isCode, hcode]), ht]
  rfl

theorem window_codeOf (h : a ≤ b) :
    window (codeOf x ts) (rank x ts a) (rank x ts b) = codeOf x (window ts a b) := by
  have htake : rank x (ts.take b) a = rank x ts a := by
    rw [rank, rank, List.take_take, Nat.min_eq_left h]
  rw [window, window, take_codeOf, ← drop_codeOf, htake]

theorem codeAt_codeOf : CodeAt x (codeOf x ts) k ↔ k < (codeOf x ts).length := by
  refine ⟨fun h => h.lt, fun h => ⟨(codeOf x ts)[k], List.getElem?_eq_getElem h, ?_⟩⟩
  have := (List.mem_filter.mp (List.getElem_mem h)).2
  simpa [Taxonomy.isCode] using this

theorem CodeAt.rank (h : CodeAt x ts i) : CodeAt x (codeOf x ts) (rank x ts i) := by
  rw [codeAt_codeOf, ← rank_of_length_le (Nat.le_refl ts.length)]
  exact rank_lt h h.lt

theorem lastBefore_rank (hj : CodeAt x ts j) :
    LastBefore (CodeAt x (codeOf x ts)) (rank x ts i) (rank x ts j) ↔
      LastBefore (CodeAt x ts) i j := by
  constructor
  · intro h
    exact ⟨lt_of_rank_lt h.lt, hj, fun k hjk hki hk => h.last _ (rank_lt hj hjk)
      (rank_lt hk hki) hk.rank⟩
  · intro h
    refine ⟨rank_lt hj h.lt, hj.rank, fun k hjk hki _ => ?_⟩
    obtain ⟨l, _, hl, rfl⟩ := exists_code_of_rank hki
    exact h.last l (lt_of_rank_lt hjk) (lt_of_rank_lt hki) hl

theorem firstFrom_rank (hi : CodeAt x ts i) (hj : CodeAt x ts j) :
    FirstFrom (CodeAt x (codeOf x ts)) (rank x ts i + 1) (rank x ts j) ↔
      FirstFrom (CodeAt x ts) (i + 1) j := by
  have hbehind : ∀ {us k l}, CodeAt x us k → CodeAt x us l →
      (FirstFrom (CodeAt x us) (k + 1) l ↔ LastBefore (CodeAt x us) l k) :=
    fun hk hl => ⟨fun h => ⟨h.le, hk, h.first⟩, fun h => ⟨h.lt, hl, h.last⟩⟩
  rw [hbehind hi.rank hj.rank, hbehind hi hj, lastBefore_rank hi]

/-! ## Brackets -/

theorem roleAt_congr {f' : Flags} (h : f.matchBrackets = f'.matchBrackets) :
    roleAt x f ts = roleAt x f' ts := by
  funext i
  unfold roleAt role
  rw [h]

def PlainTrivia (x : Taxonomy) : Prop :=
  ∀ k, x.isTrivia k = true → x.isOpener k = false ∧ x.isCloser k = false

theorem php_plainTrivia : PlainTrivia .php := by
  intro k h
  cases k <;> first | exact ⟨rfl, rfl⟩ | cases h

section

variable (hx : PlainTrivia x)

include hx

theorem roleAt_of_not_code (h : ¬ CodeAt x ts i) : roleAt x f ts i = .plain := by
  cases ht : ts[i]? with
  | none => rw [roleAt, ht]
  | some t =>
    rw [codeAt_iff ht, Bool.not_eq_false] at h
    obtain ⟨hopens, hcloses⟩ := hx _ h
    rw [roleAt_of_getElem? ht, role, hopens, hcloses]
    simp

theorem codeAt_of_role (h : roleAt x f ts i ≠ .plain) : CodeAt x ts i := by
  rcases Classical.em (CodeAt x ts i) with hcode | hcode
  · exact hcode
  · exact absurd (roleAt_of_not_code hx hcode) h

omit hx in
theorem roleAt_rank (h : CodeAt x ts i) :
    roleAt x f (codeOf x ts) (rank x ts i) = roleAt x f ts i := by
  rw [roleAt, roleAt, getElem?_codeOf h]

theorem height_rank (i : Nat) :
    height (roleAt x f (codeOf x ts)) (rank x ts i) = height (roleAt x f ts) i := by
  induction i with
  | zero => simp
  | succ i ih =>
    by_cases h : CodeAt x ts i
    · rw [rank_succ_of_code h, height_succ, height_succ, ih, roleAt_rank h]
    · rw [rank_succ_of_not_code h, ih, height_plain (roleAt_of_not_code hx h)]

theorem openAt_rank (ho : CodeAt x ts o) (hoi : o < i) :
    OpenAt (roleAt x f (codeOf x ts)) (rank x ts i) (rank x ts o) ↔ OpenAt (roleAt x f ts) i o := by
  constructor
  · intro h
    refine ⟨by rw [← roleAt_rank ho]; exact h.opens, hoi, fun j hoj hji => ?_⟩
    have := h.above (rank x ts j) (rank_lt ho hoj) (rank_mono hji)
    rwa [height_rank hx, height_rank hx] at this
  · intro h
    refine ⟨by rw [roleAt_rank ho]; exact h.opens, rank_lt ho hoi, fun k hok hki => ?_⟩
    obtain ⟨j, hji, rfl⟩ := exists_rank_eq hki
    rw [height_rank hx, height_rank hx]
    exact h.above j (lt_of_rank_lt hok) hji

theorem pair_rank (ho : CodeAt x ts o) (hc : CodeAt x ts c) :
    Pair (roleAt x f (codeOf x ts)) (rank x ts o) (rank x ts c) ↔ Pair (roleAt x f ts) o c := by
  have hheight : height (roleAt x f (codeOf x ts)) (rank x ts c + 1) =
      height (roleAt x f ts) (c + 1) := by
    rw [← rank_succ_of_code hc, height_rank hx]
  constructor
  · intro h
    have hlt := lt_of_rank_lt h.lt
    exact ⟨(openAt_rank hx ho hlt).mp h.openAt, by rw [← hheight, h.height_eq, height_rank hx]⟩
  · intro h
    exact ⟨(openAt_rank hx ho h.lt).mpr h.openAt, by rw [hheight, h.height_eq, height_rank hx]⟩

theorem innermost_rank (hi : CodeAt x ts i) (ho : CodeAt x ts o) :
    Innermost (roleAt x f (codeOf x ts)) (rank x ts i) (rank x ts o) ↔
      Innermost (roleAt x f ts) i o := by
  constructor
  · intro h
    have hlt := lt_of_rank_lt h.lt
    have hopen := h.openAt
    rw [← rank_succ_of_code hi] at hopen
    refine ⟨hlt, (openAt_rank hx ho (by omega)).mp hopen, fun p hp hopenp => ?_⟩
    have hpcode := codeAt_of_role hx (by rw [hopenp.opens]; simp)
    have hle := h.greatest (rank x ts p) (rank_lt hpcode hp)
      (by rw [← rank_succ_of_code hi]; exact (openAt_rank hx hpcode (by omega)).mpr hopenp)
    rcases Nat.lt_or_ge o p with hgt | hle'
    · have := rank_lt ho hgt
      omega
    · exact hle'
  · intro h
    refine ⟨rank_lt ho h.lt, ?_, fun p hp hopenp => ?_⟩
    · rw [← rank_succ_of_code hi]
      exact (openAt_rank hx ho (by have := h.lt; omega)).mpr h.openAt
    · obtain ⟨q, hq, hqcode, rfl⟩ := exists_code_of_rank hp
      rw [← rank_succ_of_code hi, openAt_rank hx hqcode (by omega)] at hopenp
      exact rank_mono (h.greatest q hq hopenp)

theorem firstExcess_rank (hf : f.matchBrackets = true) (hc : CodeAt x ts c) :
    FirstExcess x (codeOf x ts) 0 (rank x ts c) ↔ FirstExcess x ts 0 c := by
  rw [firstExcess_iff hf, firstExcess_iff hf, ← rank_succ_of_code hc, height_rank hx]
  simp only [height_zero, Nat.zero_le, true_and, forall_const]
  refine and_congr_right fun _ => ⟨fun h j hjc => ?_, fun h k hkc => ?_⟩
  · rw [← height_rank hx]
    rcases Nat.eq_zero_or_pos (rank x ts (j + 1)) with hzero | hpos
    · exact Int.le_of_eq (by rw [hzero, height_zero])
    · have hle : rank x ts (j + 1) ≤ rank x ts c := rank_mono hjc
      rw [show rank x ts (j + 1) = rank x ts (j + 1) - 1 + 1 by omega]
      exact h _ (by omega)
  · obtain ⟨l, hlc, hl, rfl⟩ := exists_code_of_rank hkc
    rw [← rank_succ_of_code hl, height_rank hx]
    exact h l hlc

end

end Graph

end PhpOutline
