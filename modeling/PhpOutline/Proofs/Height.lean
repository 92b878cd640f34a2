import PhpOutline.Graph

/-!
# Heights of brackets

Roles along a sequence of positions give every position a height: how many more brackets open
before it than close. All that brackets do to each other can be told from heights. A bracket is
open as long as the height stays above its own (`OpenAt`), and its partner is where the height
first comes back to it (`Pair`). The stack of open brackets holds what is open (`mem_openStack`).
-/

namespace PhpOutline

namespace Graph

def Role.rise : Role → Int
  | .opens => 1
  | .closes => -1
  | .plain => 0

def height (r : Nat → Role) : Nat → Int
  | 0 => 0
  | i + 1 => height r i + (r i).rise

/-- The bracket at `o` is open when position `i` is reached. -/
structure OpenAt (r : Nat → Role) (i o : Nat) : Prop where
  opens : r o = .opens
  lt : o < i
  above : ∀ j, o < j → j ≤ i → height r o < height r j

/-- The bracket at `c` closes the one at `o`. -/
structure Pair (r : Nat → Role) (o c : Nat) : Prop where
  openAt : OpenAt r c o
  height_eq : height r (c + 1) = height r o

/-- The bracket at `o` is the innermost one around position `i`. -/
structure Innermost (r : Nat → Role) (i o : Nat) : Prop where
  lt : o < i
  openAt : OpenAt r (i + 1) o
  greatest : ∀ p, p < i → OpenAt r (i + 1) p → p ≤ o

section

variable {r : Nat → Role} {i j o p c : Nat}

@[simp] theorem height_zero (r : Nat → Role) : height r 0 = 0 := rfl

theorem height_succ (r : Nat → Role) (i : Nat) : height r (i + 1) = height r i + (r i).rise := rfl

theorem height_opens (h : r i = .opens) : height r (i + 1) = height r i + 1 := by
  rw [height_succ, h]; rfl

theorem height_closes (h : r i = .closes) : height r (i + 1) = height r i - 1 := by
  rw [height_succ, h]; rfl

theorem height_plain (h : r i = .plain) : height r (i + 1) = height r i := by
  rw [height_succ, h]; exact Int.add_zero _

theorem height_le_of_ne_closes (h : r i ≠ .closes) : height r i ≤ height r (i + 1) := by
  cases hr : r i with
  | opens => rw [height_opens hr]; omega
  | closes => exact absurd hr h
  | plain => exact Int.le_of_eq (height_plain hr).symm

theorem closes_of_height_lt (h : height r (i + 1) < height r i) : r i = .closes := by
  cases hr : r i with
  | opens => rw [height_opens hr] at h; omega
  | closes => rfl
  | plain => rw [height_plain hr] at h; omega

theorem height_eq_of_plain (hij : i ≤ j) (h : ∀ k, i ≤ k → k < j → r k = .plain) :
    height r j = height r i := by
  induction j with
  | zero => rw [show i = 0 by omega]
  | succ j ih =>
    rcases Nat.lt_or_ge j i with hji | hji
    · rw [show i = j + 1 by omega]
    · rw [height_plain (h j hji (by omega)), ih hji fun k hik hkj => h k hik (by omega)]

/-! ## Open brackets and pairs -/

theorem OpenAt.of_le (h : OpenAt r i o) (hlt : o < j) (hji : j ≤ i) : OpenAt r j o :=
  ⟨h.opens, hlt, fun k hok hkj => h.above k hok (by omega)⟩

theorem OpenAt.height_lt (h : OpenAt r i o) (hp : OpenAt r i p) (hlt : o < p) :
    height r o < height r p :=
  h.above p hlt (by have := hp.lt; omega)

theorem OpenAt.succ (h : OpenAt r i o) (hup : height r o < height r (i + 1)) :
    OpenAt r (i + 1) o := by
  refine ⟨h.opens, by have := h.lt; omega, fun j hoj hji => ?_⟩
  rcases Nat.lt_or_ge i j with hij | hij
  · rw [show j = i + 1 by omega]; exact hup
  · exact h.above j hoj hij

theorem OpenAt.pred (h : OpenAt r (i + 1) o) (hi : r i ≠ .opens) : OpenAt r i o := by
  have hne : o ≠ i := fun e => hi (e ▸ h.opens)
  have := h.lt
  exact h.of_le (by omega) (by omega)

theorem openAt_succ_of_ne_closes (hi : r i ≠ .closes) (hlt : o < i) :
    OpenAt r (i + 1) o ↔ OpenAt r i o := by
  refine ⟨fun h => h.of_le hlt (by omega), fun h => h.succ ?_⟩
  have := h.above i hlt (by omega)
  have := height_le_of_ne_closes hi
  omega

theorem Pair.closes (h : Pair r o c) : r c = .closes := by
  apply closes_of_height_lt
  rw [h.height_eq]
  exact h.openAt.above c h.openAt.lt (Nat.le_refl c)

theorem Pair.lt (h : Pair r o c) : o < c := h.openAt.lt

theorem Pair.le_of_openAt (h : Pair r o c) (hi : OpenAt r i o) : i ≤ c := by
  rcases Nat.lt_or_ge c i with hci | hci
  · have := hi.above (c + 1) (by have := h.lt; omega) (by omega)
    rw [h.height_eq] at this
    omega
  · exact hci

theorem Pair.closer_unique (h : Pair r o c) (hj : Pair r o j) : c = j := by
  have h1 := h.le_of_openAt hj.openAt
  have h2 := hj.le_of_openAt h.openAt
  omega

theorem Pair.opener_unique (h : Pair r o c) (hp : Pair r p c) : o = p := by
  have he : height r o = height r p := by rw [← h.height_eq, hp.height_eq]
  rcases Nat.lt_trichotomy o p with hlt | heq | hgt
  · have := h.openAt.height_lt hp.openAt hlt; omega
  · exact heq
  · have := hp.openAt.height_lt h.openAt hgt; omega

theorem openAt_or_pair (ho : r o = .opens) (hlt : o < i) :
    OpenAt r i o ∨ ∃ c, c < i ∧ Pair r o c := by
  induction i with
  | zero => omega
  | succ i ih =>
    rcases Nat.lt_or_ge o i with hoi | hoi
    · rcases ih hoi with hopen | ⟨c, hc, hp⟩
      · have habove := hopen.above i hoi (Nat.le_refl i)
        by_cases hup : height r o < height r (i + 1)
        · exact Or.inl (hopen.succ hup)
        · -- the height moves by one, so it is just back where the bracket opened
          have hcl := height_closes (closes_of_height_lt (r := r) (i := i) (by omega))
          exact Or.inr ⟨i, by omega, hopen, by omega⟩
      · exact Or.inr ⟨c, by omega, hp⟩
    · obtain rfl : o = i := by omega
      refine Or.inl ⟨ho, by omega, fun j hoj hji => ?_⟩
      rw [show j = o + 1 by omega, height_opens ho]
      omega

theorem exists_pair_of_height_le (ho : r o = .opens) (hlt : o < i) (hle : height r i ≤ height r o) :
    ∃ c, c < i ∧ Pair r o c := by
  rcases openAt_or_pair ho hlt with h | h
  · have := h.above i hlt (Nat.le_refl i); omega
  · exact h

/-! ## The stack of open brackets -/

def openStack (r : Nat → Role) : Nat → List Nat
  | 0 => []
  | i + 1 =>
    match r i with
    | .opens => i :: openStack r i
    | .closes => (openStack r i).tail
    | .plain => openStack r i

theorem openStack_opens (h : r i = .opens) : openStack r (i + 1) = i :: openStack r i := by
  rw [openStack, h]

theorem openStack_closes (h : r i = .closes) : openStack r (i + 1) = (openStack r i).tail := by
  rw [openStack, h]

theorem openStack_plain (h : r i = .plain) : openStack r (i + 1) = openStack r i := by
  rw [openStack, h]

theorem height_openStack {k : Nat} (h : (openStack r i)[k]? = some o) :
    height r o + k + 1 = height r i := by
  induction i generalizing k with
  | zero => simp [openStack] at h
  | succ i ih =>
    cases hr : r i with
    | opens =>
      rw [openStack_opens hr] at h
      rw [height_opens hr]
      cases k with
      | zero =>
        rw [List.getElem?_cons_zero, Option.some.injEq] at h
        subst h
        simp
      | succ k =>
        have := ih h
        omega
    | closes =>
      rw [openStack_closes hr, List.getElem?_tail] at h
      have := ih h
      rw [height_closes hr]
      omega
    | plain =>
      rw [openStack_plain hr] at h
      rw [height_plain hr]
      exact ih h

theorem lt_of_mem_openStack (h : o ∈ openStack r i) : o < i := by
  induction i with
  | zero => simp [openStack] at h
  | succ i ih =>
    cases hr : r i with
    | opens =>
      rw [openStack_opens hr] at h
      rcases List.mem_cons.mp h with rfl | h
      · omega
      · have := ih h; omega
    | closes =>
      rw [openStack_closes hr] at h
      have := ih (List.mem_of_mem_tail h); omega
    | plain =>
      rw [openStack_plain hr] at h
      have := ih h; omega

theorem openStack_pairwise (r : Nat → Role) (i : Nat) : (openStack r i).Pairwise (· > ·) := by
  induction i with
  | zero => exact List.Pairwise.nil
  | succ i ih =>
    cases hr : r i with
    | opens =>
      rw [openStack_opens hr]
      exact List.pairwise_cons.mpr ⟨fun o ho => lt_of_mem_openStack ho, ih⟩
    | closes => rw [openStack_closes hr]; exact ih.sublist (List.tail_sublist _)
    | plain => rw [openStack_plain hr]; exact ih

theorem height_top {top : Nat} {rest : List Nat} (hi : r i = .closes)
    (hs : openStack r i = top :: rest) :
    height r (i + 1) = height r top := by
  have := height_openStack (k := 0) (by rw [hs]; rfl : (openStack r i)[0]? = some top)
  rw [height_closes hi]
  omega

theorem mem_openStack : o ∈ openStack r i ↔ OpenAt r i o := by
  induction i generalizing o with
  | zero => exact ⟨fun h => by simp [openStack] at h, fun h => by have := h.lt; omega⟩
  | succ i ih =>
    cases hr : r i with
    | opens =>
      rw [openStack_opens hr, List.mem_cons, ih]
      constructor
      · rintro (rfl | h)
        · refine ⟨hr, by omega, fun j hoj hji => ?_⟩
          rw [show j = o + 1 by omega, height_opens hr]
          omega
        · exact (openAt_succ_of_ne_closes (by simp [hr]) h.lt).mpr h
      · intro h
        rcases Nat.lt_or_ge o i with hoi | hoi
        · exact Or.inr (h.of_le hoi (by omega))
        · exact Or.inl (by have := h.lt; omega)
    | closes =>
      rw [openStack_closes hr]
      cases hs : openStack r i with
      | nil =>
        refine ⟨fun h => by simp at h, fun h => ?_⟩
        have := ih.mpr (h.pred (by simp [hr]))
        rw [hs] at this
        cases this
      | cons top rest =>
        -- the top of the stack is what the position closes
        have htop := height_top hr hs
        have hpw := openStack_pairwise r i
        rw [hs, List.pairwise_cons] at hpw
        have htopOpen : OpenAt r i top := ih.mp (by rw [hs]; exact List.mem_cons_self ..)
        rw [List.tail_cons]
        constructor
        · intro h
          have hopen : OpenAt r i o := ih.mp (by rw [hs]; exact List.mem_cons_of_mem _ h)
          have := hopen.height_lt htopOpen (hpw.1 o h)
          exact hopen.succ (by omega)
        · intro h
          have := ih.mpr (h.pred (by simp [hr]))
          rw [hs] at this
          rcases List.mem_cons.mp this with rfl | h'
          · have := h.above (i + 1) (by have := h.lt; omega) (by omega); omega
          · exact h'
    | plain =>
      rw [openStack_plain hr, ih]
      exact ⟨fun h => (openAt_succ_of_ne_closes (by simp [hr]) h.lt).mpr h,
        fun h => h.pred (by simp [hr])⟩

theorem head?_openStack :
    (openStack r i).head? = some o ↔ OpenAt r i o ∧ ∀ p, OpenAt r i p → p ≤ o := by
  have hpw := openStack_pairwise r i
  simp only [← mem_openStack]
  cases hs : openStack r i with
  | nil => simp
  | cons top rest =>
    rw [hs, List.pairwise_cons] at hpw
    rw [List.head?_cons, Option.some.injEq]
    constructor
    · rintro rfl
      refine ⟨List.mem_cons_self .., fun p hp => ?_⟩
      rcases List.mem_cons.mp hp with rfl | hp
      · omega
      · have := hpw.1 p hp; omega
    · rintro ⟨ho, hmax⟩
      have := hmax top (List.mem_cons_self ..)
      rcases List.mem_cons.mp ho with rfl | ho
      · rfl
      · have := hpw.1 o ho; omega

theorem length_openStack (h : ∀ j, j ≤ i → 0 ≤ height r j) :
    ((openStack r i).length : Int) = height r i := by
  induction i with
  | zero => rfl
  | succ i ih =>
    have ih := ih fun j hj => h j (by omega)
    have hi := h (i + 1) (Nat.le_refl _)
    cases hr : r i with
    | opens => rw [openStack_opens hr, height_opens hr, List.length_cons]; omega
    | closes =>
      rw [height_closes hr] at hi ⊢
      rw [openStack_closes hr, List.length_tail]
      omega
    | plain => rw [openStack_plain hr, height_plain hr, ih]

theorem head?_openStack_of_closes (hi : r i = .closes) :
    (openStack r i).head? = some o ↔ Pair r o i := by
  have top : ∀ p, (openStack r i).head? = some p → Pair r p i := by
    intro p hp
    obtain ⟨rest, hs⟩ := List.head?_eq_some_iff.mp hp
    exact ⟨(head?_openStack.mp hp).1, height_top hi hs⟩
  refine ⟨top o, fun h => ?_⟩
  cases hs : (openStack r i).head? with
  | none =>
    have := mem_openStack.mpr h.openAt
    rw [List.head?_eq_none_iff.mp hs] at this
    cases this
  | some p => rw [(top p hs).opener_unique h]

theorem exists_pair_of_closes (hi : r i = .closes) (h : ∀ j, j ≤ i + 1 → 0 ≤ height r j) :
    ∃ o, Pair r o i := by
  have hlen := length_openStack fun j (hj : j ≤ i) => h j (by omega)
  have hnext := h (i + 1) (Nat.le_refl _)
  rw [height_closes hi] at hnext
  cases hs : (openStack r i).head? with
  | none =>
    rw [List.head?_eq_none_iff.mp hs, List.length_nil] at hlen
    omega
  | some o => exact ⟨o, (head?_openStack_of_closes hi).mp hs⟩

/-- The innermost bracket around a position is the top of the stack, once the position has closed
what it closes. -/
theorem head?_openStack_innermost :
    (if r i = .closes then (openStack r i).tail else openStack r i).head? = some o ↔
      Innermost r i o := by
  by_cases hi : r i = .closes
  · rw [if_pos hi, ← openStack_closes hi, head?_openStack]
    constructor
    · rintro ⟨ho, hmax⟩
      exact ⟨(ho.pred (by simp [hi])).lt, ho, fun p _ hp => hmax p hp⟩
    · intro h
      exact ⟨h.openAt, fun p hp => h.greatest p (hp.pred (by simp [hi])).lt hp⟩
  · rw [if_neg hi, head?_openStack]
    constructor
    · rintro ⟨ho, hmax⟩
      refine ⟨ho.lt, (openAt_succ_of_ne_closes hi ho.lt).mpr ho, fun p hpi hp => ?_⟩
      exact hmax p ((openAt_succ_of_ne_closes hi hpi).mp hp)
    · intro h
      refine ⟨(openAt_succ_of_ne_closes hi h.lt).mp h.openAt, fun p hp => ?_⟩
      exact h.greatest p hp.lt ((openAt_succ_of_ne_closes hi hp.lt).mpr hp)

theorem exists_innermost (h : OpenAt r (i + 1) o) (hlt : o < i) : ∃ p, Innermost r i p := by
  have hmem : o ∈ (if r i = .closes then (openStack r i).tail else openStack r i) := by
    by_cases hi : r i = .closes
    · rw [if_pos hi, ← openStack_closes hi, mem_openStack]
      exact h
    · rw [if_neg hi, mem_openStack]
      exact (openAt_succ_of_ne_closes hi hlt).mp h
  cases hs : (if r i = .closes then (openStack r i).tail else openStack r i).head? with
  | none =>
    rw [List.head?_eq_none_iff.mp hs] at hmem
    cases hmem
  | some p => exact ⟨p, head?_openStack_innermost.mp hs⟩

/-! ## The closing brackets ahead -/

/-- The first position from `i` on that brings the height `d` below the height at `i`. -/
structure Falls (r : Nat → Role) (i d c : Nat) : Prop where
  le : i ≤ c
  height_eq : height r (c + 1) + d = height r i
  above : ∀ j, i ≤ j → j ≤ c → height r (c + 1) < height r j

theorem falls_succ {d e : Nat} (he : (e : Int) = d + (r i).rise) (hd : 0 < d) (hpos : 0 < e) :
    Falls r i d c ↔ Falls r (i + 1) e c := by
  have hh := height_succ r i
  constructor
  · intro h
    have hc := h.height_eq
    have hne : c ≠ i := fun e' => by rw [e'] at hc; omega
    exact ⟨by have := h.le; omega, by omega, fun j hij hjc => h.above j (by omega) hjc⟩
  · intro h
    have hc := h.height_eq
    refine ⟨by have := h.le; omega, by omega, fun j hij hjc => ?_⟩
    rcases Nat.eq_or_lt_of_le hij with rfl | hij
    · omega
    · exact h.above j hij hjc

theorem falls_one_of_closes (hi : r i = .closes) : Falls r i 1 c ↔ c = i := by
  have hh := height_closes hi
  constructor
  · intro h
    rcases Nat.eq_or_lt_of_le h.le with he | hlt
    · exact he.symm
    · have := h.above (i + 1) (by omega) (by omega)
      have := h.height_eq
      omega
  · rintro rfl
    refine ⟨Nat.le_refl c, by omega, fun j hij hjc => ?_⟩
    rw [show j = c by omega]
    omega

theorem pair_iff_falls (ho : r o = .opens) : Pair r o c ↔ Falls r (o + 1) 1 c := by
  have hh := height_opens ho
  constructor
  · intro h
    have he := h.height_eq
    exact ⟨h.lt, by omega, fun j hoj hjc => by have := h.openAt.above j hoj hjc; omega⟩
  · intro h
    have he := h.height_eq
    exact ⟨⟨ho, h.le, fun j hoj hjc => by have := h.above j hoj hjc; omega⟩, by omega⟩

/-! ## Windows -/

section

variable {r' : Nat → Role} {a m : Nat} (hw : ∀ j, j < m → r' j = r (a + j))

include hw

theorem height_window : ∀ {j}, j ≤ m → height r' j = height r (a + j) - height r a
  | 0, _ => by simp
  | j + 1, hj => by
    rw [height_succ, hw j hj, height_window (Nat.le_of_succ_le hj), ← Nat.add_assoc, height_succ]
    omega

theorem openAt_window (hi : i ≤ m) (ho : o < i) : OpenAt r' i o ↔ OpenAt r (a + i) (a + o) := by
  have hho := height_window hw (show o ≤ m by omega)
  constructor
  · intro h
    refine ⟨by rw [← hw o (by omega)]; exact h.opens, by omega, fun j hoj hji => ?_⟩
    have hj := height_window hw (show j - a ≤ m by omega)
    rw [show a + (j - a) = j by omega] at hj
    have := h.above (j - a) (by omega) (by omega)
    omega
  · intro h
    refine ⟨by rw [hw o (by omega)]; exact h.opens, ho, fun j hoj hji => ?_⟩
    have hj := height_window hw (show j ≤ m by omega)
    have := h.above (a + j) (by omega) (by omega)
    omega

theorem pair_window (hc : c < m) (ho : o < c) : Pair r' o c ↔ Pair r (a + o) (a + c) := by
  have hho := height_window hw (show o ≤ m by omega)
  have hhc := height_window hw (show c + 1 ≤ m by omega)
  have hopen := openAt_window hw (show c ≤ m by omega) ho
  rw [← Nat.add_assoc] at hhc
  constructor
  · exact fun h => ⟨hopen.mp h.openAt, by have := h.height_eq; omega⟩
  · exact fun h => ⟨hopen.mpr h.openAt, by have := h.height_eq; omega⟩

theorem innermost_window (hi : i < m) (ho : o < i) :
    Innermost r' i o ↔ Innermost r (a + i) (a + o) := by
  have hopen : ∀ p, p < i → (OpenAt r' (i + 1) p ↔ OpenAt r (a + i + 1) (a + p)) := fun p hp => by
    rw [openAt_window hw (show i + 1 ≤ m by omega) (by omega), Nat.add_assoc]
  constructor
  · intro h
    refine ⟨by omega, (hopen o ho).mp h.openAt, fun p hpi hp => ?_⟩
    rcases Nat.lt_or_ge p a with hpa | hpa
    · omega
    · obtain ⟨q, rfl⟩ := Nat.exists_eq_add_of_le hpa
      have := h.greatest q (by omega) ((hopen q (by omega)).mpr hp)
      omega
  · intro h
    refine ⟨ho, (hopen o ho).mpr h.openAt, fun p hpi hp => ?_⟩
    have := h.greatest (a + p) (by omega) ((hopen p hpi).mp hp)
    omega

end

end

end Graph

end PhpOutline
