import Mathlib.Data.List.Forall2
import Mathlib.Data.List.TakeWhile
import PhpOutline.Error

/-!
# Lists, options and results

What the proofs use about lists, options and results in general.
-/

namespace PhpOutline

variable {α β γ δ ε : Type}

/-! ## Prefixes and runs -/

section

variable [BEq α] [LawfulBEq α] {a b c : α} {p l : List α}

theorem length_le_of_isPrefixOf (h : p.isPrefixOf l = true) : p.length ≤ l.length :=
  (List.isPrefixOf_iff_prefix.mp h).length_le

theorem cons_of_isPrefixOf (h : (b :: p).isPrefixOf (a :: l) = true) :
    a = b ∧ p.isPrefixOf l = true := by
  simp only [List.isPrefixOf_cons_cons, Bool.and_eq_true, beq_iff_eq] at h
  exact ⟨h.1.symm, h.2⟩

theorem cons_cons_of_isPrefixOf (h : [b, c].isPrefixOf (a :: l) = true) :
    a = b ∧ ∃ r, l = c :: r := by
  obtain ⟨ha, hl⟩ := cons_of_isPrefixOf h
  obtain ⟨r, hr⟩ := List.isPrefixOf_iff_prefix.mp hl
  exact ⟨ha, r, hr.symm⟩

end

theorem takeWhile_append_of_head? {p : α → Bool} {l r : List α} (hl : ∀ a ∈ l, p a = true)
    (hr : ∀ a, r.head? = some a → p a = false) : (l ++ r).takeWhile p = l := by
  rw [List.takeWhile_append_of_pos hl]
  cases r with
  | nil => simp
  | cons a r => simp [hr a rfl]

theorem length_le_takeWhile {p : α → Bool} {l r : List α} (hl : l <+: r) (h : ∀ a ∈ l, p a = true) :
    l.length ≤ (r.takeWhile p).length := by
  obtain ⟨t, rfl⟩ := hl
  rw [List.takeWhile_append_of_pos h, List.length_append]
  omega

/-! ## Members -/

theorem findSome?_filter {f : α → Option β} {test : α → Bool} {l : List α}
    (h : ∀ x, test x = false → f x = none) : (l.filter test).findSome? f = l.findSome? f := by
  induction l with
  | nil => rfl
  | cons x l ih =>
    rw [List.filter_cons]
    split
    · rw [List.findSome?_cons, List.findSome?_cons, ih]
    · rename_i hx
      rw [List.findSome?_cons, h x (by simpa using hx), ih]

theorem lookup_filter_ne [BEq α] [LawfulBEq α] {a b : α} (h : a ≠ b) (l : List (α × β)) :
    (l.filter (·.1 != a)).lookup b = l.lookup b := by
  induction l with
  | nil => rfl
  | cons e l ih =>
    obtain ⟨c, d⟩ := e
    by_cases hc : c = a
    · subst hc
      rw [List.filter_cons_of_neg (by simp), ih, List.lookup_cons, beq_false_of_ne h.symm]
    · rw [List.filter_cons_of_pos (by simpa using hc), List.lookup_cons, List.lookup_cons, ih]

theorem exists_of_isChain {R S : α → α → Prop} {a b : α} {l : List α} (hR : (a :: l).IsChain R)
    (hS : (a :: l).IsChain S) (hb : b ∈ l) : ∃ c, R c b ∧ S c b := by
  induction l generalizing a with
  | nil => cases hb
  | cons d l ih =>
    rw [List.isChain_cons_cons] at hR hS
    rcases List.mem_cons.mp hb with rfl | hb
    · exact ⟨a, hR.1, hS.1⟩
    · exact ih hR.2 hS.2 hb

theorem mem_intercalate {sep : List α} {ls : List (List α)} {a : α} (h : a ∈ sep.intercalate ls) :
    a ∈ sep ∨ ∃ l ∈ ls, a ∈ l := by
  induction ls with
  | nil => simp at h
  | cons l ls ih =>
    cases ls with
    | nil =>
      rw [List.intercalate_singleton] at h
      exact .inr ⟨l, by simp, h⟩
    | cons l' ls =>
      rw [List.intercalate_cons_cons, List.mem_append, List.mem_append] at h
      rcases h with (h | h) | h
      · exact .inr ⟨l, by simp, h⟩
      · exact .inl h
      · obtain h | ⟨k, hk, h⟩ := ih h
        · exact .inl h
        · exact .inr ⟨k, List.mem_cons_of_mem _ hk, h⟩

theorem length_intercalate_singleton (a : α) (ls : List (List α)) :
    ([a].intercalate ls).length = ls.flatten.length + (ls.length - 1) := by
  induction ls with
  | nil => rfl
  | cons l ls ih =>
    cases ls with
    | nil => simp
    | cons l' ls =>
      rw [List.intercalate_cons_cons, List.length_append, List.length_append, ih]
      simp only [List.flatten_cons, List.length_append, List.length_cons, List.length_nil]
      omega

/-! ## Two lists, element by element -/

section

variable {R : α → β → Prop} {l : List α} {l' : List β}

theorem exists_of_forall₂ (h : List.Forall₂ R l l') : ∀ a ∈ l, ∃ b ∈ l', R a b := by
  induction h with
  | nil => simp
  | cons hR _ ih =>
    intro a ha
    rcases List.mem_cons.mp ha with rfl | ha
    · exact ⟨_, by simp, hR⟩
    · obtain ⟨b, hb, hab⟩ := ih a ha
      exact ⟨b, List.mem_cons_of_mem _ hb, hab⟩

variable {f : α → Bool} {g : β → Bool}

theorem forall₂_takeWhile (h : List.Forall₂ R l l') (hfg : ∀ {a b}, R a b → f a = g b) :
    List.Forall₂ R (l.takeWhile f) (l'.takeWhile g) := by
  induction h with
  | nil => exact .nil
  | cons hab _ ih =>
    rw [List.takeWhile_cons, List.takeWhile_cons, hfg hab]
    split
    · exact .cons hab ih
    · exact .nil

theorem forall₂_dropWhile (h : List.Forall₂ R l l') (hfg : ∀ {a b}, R a b → f a = g b) :
    List.Forall₂ R (l.dropWhile f) (l'.dropWhile g) := by
  induction h with
  | nil => exact .nil
  | cons hab ht ih =>
    rw [List.dropWhile_cons, List.dropWhile_cons, hfg hab]
    split
    · exact ih
    · exact .cons hab ht

theorem head?_any_eq (h : List.Forall₂ R l l') (hfg : ∀ {a b}, R a b → f a = g b) :
    l.head?.any f = l'.head?.any g := by
  cases h with
  | nil => rfl
  | cons hab => exact hfg hab

theorem forall₂_of_mapM {f : α → Except ε β} (h : l.mapM f = .ok l') :
    List.Forall₂ (fun x y => f x = .ok y) l l' := by
  induction l generalizing l' with
  | nil =>
    cases h
    exact .nil
  | cons x l ih =>
    rw [List.mapM_cons] at h
    obtain ⟨y, hy, h⟩ := of_bind_ok h
    obtain ⟨ys, hys, h⟩ := of_bind_ok h
    cases h
    exact .cons hy (ih hys)

theorem mapM_eq_of_forall₂ {f : α → Except ε γ} {g : β → Except ε γ} (h : List.Forall₂ R l l')
    (hfg : ∀ a ∈ l, ∀ b, R a b → f a = g b) : l.mapM f = l'.mapM g := by
  induction h with
  | nil => rfl
  | @cons a b l l' hab _ ih =>
    rw [List.mapM_cons, List.mapM_cons, hfg a (by simp) b hab, ih fun c hc => hfg c (by simp [hc])]

end

/-! ## Options and results -/

section

variable {R : α → β → Prop} {S : γ → δ → Prop} {l : Option α} {r : Option β}

theorem rel_none_left (h : Option.Rel R none r) : r = none := by
  cases h
  rfl

theorem rel_some_left {a : α} (h : Option.Rel R (some a) r) : ∃ b, r = some b ∧ R a b := by
  cases h with
  | some h => exact ⟨_, rfl, h⟩

theorem rel_bind {f : α → Option γ} {g : β → Option δ} (h : Option.Rel R l r)
    (hfg : ∀ a b, R a b → Option.Rel S (f a) (g b)) : Option.Rel S (l.bind f) (r.bind g) := by
  cases h with
  | none => exact .none
  | some h => exact hfg _ _ h

theorem rel_filter {f : α → Bool} {g : β → Bool} (h : Option.Rel R l r)
    (hfg : ∀ {a b}, R a b → g b = f a) :
    Option.Rel R (l.filter f) (r.filter g) := by
  cases h with
  | none => exact .none
  | some hab =>
    simp only [Option.filter, hfg hab]
    split
    · exact .some hab
    · exact .none

end

theorem ok_of_toOption {x : Except ε α} {a : α} (h : x.toOption = some a) : x = .ok a := by
  cases x with
  | error e => cases h
  | ok b =>
    cases h
    rfl

end PhpOutline
