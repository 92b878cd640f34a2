import Mathlib
import PhpOutline.Proofs.LexemeBounds

/-!
# Tokens cover the source

The tokens of a source lie end to end over it. `Laid` says so for a text from some offset and line
on; reading keeps it chunk by chunk (`tokensFrom_laid`). Offsets, lines and texts of all tokens
follow from it.
-/

namespace PhpOutline

/-! ## Line feeds among the bytes of a text -/

def lineFeeds (b : ByteArray) : Nat := b.data.toList.count 10

theorem le_of_mem_utf8EncodeChar {c : Char} {b : UInt8} (hc : ¬ c.val.toNat ≤ 127)
    (hb : b ∈ String.utf8EncodeChar c) : 128 ≤ b.toNat := by
  unfold String.utf8EncodeChar at hb
  dsimp only at hb
  rw [if_neg hc] at hb
  split at hb
  · simp only [List.mem_cons, List.not_mem_nil, or_false] at hb
    rcases hb with rfl | rfl <;> rw [UInt8.toNat_ofNat'] <;> omega
  · split at hb
    · simp only [List.mem_cons, List.not_mem_nil, or_false] at hb
      rcases hb with rfl | rfl | rfl <;> rw [UInt8.toNat_ofNat'] <;> omega
    · simp only [List.mem_cons, List.not_mem_nil, or_false] at hb
      rcases hb with rfl | rfl | rfl | rfl <;> rw [UInt8.toNat_ofNat'] <;> omega

theorem count_utf8EncodeChar (c : Char) :
    (String.utf8EncodeChar c).count 10 = if c = '\n' then 1 else 0 := by
  have hc : c = '\n' ↔ c.val.toNat = 10 := by
    rw [← Char.val_inj, ← UInt32.toNat_inj]
    rfl
  have zero : c ≠ '\n' → (∀ b ∈ String.utf8EncodeChar c, b.toNat ≠ 10) →
      (String.utf8EncodeChar c).count 10 = if c = '\n' then 1 else 0 := by
    intro hne hb
    rw [if_neg hne, List.count_eq_zero]
    exact fun h => hb 10 h rfl
  by_cases hv : c.val.toNat ≤ 127
  · by_cases he : c = '\n'
    · subst he; rfl
    · apply zero he
      intro b hb
      unfold String.utf8EncodeChar at hb
      dsimp only at hb
      rw [if_pos hv, List.mem_singleton] at hb
      subst hb
      rw [UInt8.toNat_ofNat']
      have := mt hc.mpr he
      omega
  · apply zero (fun he => by have := hc.mp he; omega)
    intro b hb
    have := le_of_mem_utf8EncodeChar hv hb
    omega

theorem count_flatMap_utf8EncodeChar (l : List Char) :
    (l.flatMap String.utf8EncodeChar).count 10 = l.count '\n' := by
  induction l with
  | nil => rfl
  | cons c l ih =>
    rw [List.flatMap_cons, List.count_append, ih, count_utf8EncodeChar, List.count_cons]
    by_cases h : c = '\n' <;> simp [h, Nat.add_comm]

theorem lineFeeds_toByteArray (s : String) : lineFeeds s.toByteArray = s.toList.count '\n' := by
  have hb : s.toByteArray.data.toList = s.toList.flatMap String.utf8EncodeChar := by
    conv => lhs; rw [← String.ofList_toList (s := s), String.toByteArray_ofList]
    simp [List.utf8Encode]
  rw [lineFeeds, hb, count_flatMap_utf8EncodeChar]

/-! ## Tokens end to end -/

/-- Tokens that are not empty and lie end to end over a text, the first one at an offset and
line. -/
inductive Laid : Nat → Nat → List Token → List Char → Prop
  | nil (o l : Nat) : Laid o l [] []
  | cons {t : Token} {ts : List Token} {s : List Char} (hne : t.text ≠ "")
      (h : Laid t.endOffset (t.line + t.text.toList.count '\n') ts s) :
      Laid t.offset t.line (t :: ts) (t.text.toList ++ s)

namespace Laid

variable {o l : Nat} {ts : List Token} {s : List Char}

theorem join_eq (h : Laid o l ts s) : String.join (ts.map (·.text)) = String.ofList s := by
  induction h with
  | nil => rfl
  | cons _ _ ih =>
    rw [List.map_cons, String.join_cons, ih, String.ofList_append, String.ofList_toList]

theorem text_ne_empty (h : Laid o l ts s) : ∀ t ∈ ts, t.text ≠ "" := by
  induction h with
  | nil => simp
  | cons hne _ ih => exact List.forall_mem_cons.mpr ⟨hne, ih⟩

theorem place {pre post : List Token} {t : Token} (h : Laid o l (pre ++ t :: post) s) :
    t.offset = o + (String.join (pre.map (·.text))).utf8ByteSize ∧
    t.line = l + (String.join (pre.map (·.text))).toList.count '\n' := by
  induction pre generalizing o l s with
  | nil => cases h; simp
  | cons p pre ih =>
    cases h with
    | cons _ h =>
      obtain ⟨ho, hl⟩ := ih h
      rw [List.map_cons, String.join_cons, String.utf8ByteSize_append, String.toList_append,
        List.count_append]
      simp only [Token.endOffset] at ho
      omega

end Laid

namespace Lexer

theorem State.cut_laid (mode : Mode) {ls : List (Kind × Nat)} {us : List Token} :
    ∀ (st : State) {s : List Char}, (∀ l ∈ ls, 0 < l.2) → Chunk.size ⟨ls, mode⟩ ≤ s.length →
      Laid (st.cut ls s).2.offset (st.cut ls s).2.line us (s.drop (Chunk.size ⟨ls, mode⟩)) →
      Laid st.offset st.line ((st.cut ls s).1 ++ us) s := by
  induction ls with
  | nil => intro st s _ _ h; exact h
  | cons l ls ih =>
    obtain ⟨kind, n⟩ := l
    intro st s hpos hle h
    have hsize : Chunk.size ⟨(kind, n) :: ls, mode⟩ = n + Chunk.size ⟨ls, mode⟩ := rfl
    have hn : 0 < n := hpos (kind, n) (List.mem_cons_self ..)
    rw [hsize] at hle h
    have htext : (st.token kind n s).text.toList = s.take n := String.toList_ofList
    have hrest : Laid (st.token kind n s).endOffset
        ((st.token kind n s).line + (st.token kind n s).text.toList.count '\n')
        (((st.push (st.token kind n s)).cut ls (s.drop n)).1 ++ us) (s.drop n) := by
      apply ih (st.push (st.token kind n s))
      · exact fun l hl => hpos l (List.mem_cons_of_mem _ hl)
      · rw [List.length_drop]; omega
      · rw [List.drop_drop]; exact h
    have hne : (st.token kind n s).text ≠ "" := by
      intro e
      rw [e, String.toList_empty] at htext
      have := congrArg List.length htext
      rw [List.length_take, List.length_nil] at this
      omega
    have := Laid.cons hne hrest
    rw [htext, List.take_append_drop] at this
    exact this

theorem tokensFrom_laid {st : State} {s : List Char} {ts : List Token}
    (h : tokensFrom st s = .ok ts) :
    Laid st.offset st.line ts s := by
  fun_induction tokensFrom st s generalizing ts with
  | case1 st => cases h; exact Laid.nil _ _
  | case2 => cases h
  | case3 => cases h
  | case4 st c s k hk us st' hcut vs hvs ih =>
    cases h
    have hf := chunk_fits hk
    have hdrop : s.drop (k.size - 1) = (c :: s).drop k.size := by
      rw [← List.drop_succ_cons (a := c), Nat.sub_add_cancel hf.size_pos]
    have hrest := ih hvs
    rw [hdrop] at hrest
    have hlaid : Laid st.offset st.line ((st.cut k.lexemes (c :: s)).1 ++ vs) (c :: s) :=
      State.cut_laid k.mode st hf.pos hf.size_le (by rw [hcut]; exact hrest)
    rwa [hcut] at hlaid

end Lexer

/-! ## The whole source -/

theorem tokenize_laid {s : String} {ts : List Token} (h : tokenize s = .ok ts) :
    Laid 0 1 ts s.toList :=
  Lexer.tokensFrom_laid h

theorem utf8ByteSize_join (l : List String) :
    (String.join l).utf8ByteSize = (l.map String.utf8ByteSize).sum := by
  induction l with
  | nil => rfl
  | cons a l ih =>
    rw [String.join_cons, String.utf8ByteSize_append, ih, List.map_cons, List.sum_cons]

theorem tokenize_split {s : String} {ts : List Token} {i : Nat} (h : tokenize s = .ok ts)
    (hi : i < ts.length) :
    s = String.join ((ts.take i).map (·.text)) ++ String.join ((ts.drop i).map (·.text)) ∧
    ts[i].offset = (String.join ((ts.take i).map (·.text))).utf8ByteSize ∧
    ts[i].line = 1 + (String.join ((ts.take i).map (·.text))).toList.count '\n' := by
  have hl := tokenize_laid h
  have hs : String.join (ts.map (·.text)) = s := by rw [hl.join_eq, String.ofList_toList]
  rw [← String.join_append, ← List.map_append, List.take_append_drop, hs]
  rw [← List.take_append_drop i ts, ← List.getElem_cons_drop hi] at hl
  have := hl.place
  rw [Nat.zero_add] at this
  exact ⟨rfl, this⟩

theorem tokenize_slice {s : String} {before ts after : List Token} {first last : Token}
    (h : tokenize s = .ok (before ++ ts ++ after)) (hf : ts.head? = some first)
    (hl : ts.getLast? = some last) :
    (String.join (ts.map (·.text))).toByteArray =
      s.toByteArray.extract first.offset last.endOffset := by
  have hlaid := tokenize_laid h
  have hs : s = String.join (before.map (·.text)) ++
      (String.join (ts.map (·.text)) ++ String.join (after.map (·.text))) := by
    rw [← String.join_append, ← String.join_append, ← List.map_append, ← List.map_append,
      ← List.append_assoc, hlaid.join_eq, String.ofList_toList]
  have hstart : first.offset = (String.join (before.map (·.text))).utf8ByteSize := by
    obtain ⟨rest, rfl⟩ := List.head?_eq_some_iff.mp hf
    rw [List.append_assoc, List.cons_append] at hlaid
    rw [hlaid.place.1, Nat.zero_add]
  have hend : last.endOffset = (String.join (before.map (·.text))).utf8ByteSize +
      (String.join (ts.map (·.text))).utf8ByteSize := by
    obtain ⟨init, rfl⟩ := List.getLast?_eq_some_iff.mp hl
    rw [← List.append_assoc, List.append_assoc, List.singleton_append] at hlaid
    rw [Token.endOffset, hlaid.place.1, List.map_append, List.map_append, String.join_append,
      String.join_append, String.utf8ByteSize_append, String.utf8ByteSize_append]
    simp only [List.map_cons, List.map_nil, String.join_cons, String.join_nil, String.append_empty]
    omega
  rw [hstart, hend]
  conv => rhs; rw [hs, String.toByteArray_append, String.toByteArray_append]
  have := ByteArray.extract_append_size_add (a := (String.join (before.map (·.text))).toByteArray)
    (b := (String.join (ts.map (·.text))).toByteArray ++
      (String.join (after.map (·.text))).toByteArray)
    (i := 0) (j := (String.join (ts.map (·.text))).toByteArray.size)
  rw [Nat.add_zero, ByteArray.extract_append_eq_left rfl] at this
  exact this.symm

/-- The tokens of a source, put together, are the source. None is empty, each starts at the byte
where the one before it ends, at the boundary of a character, and its line counts the line feeds
before it. As long as the source has fewer than `2 ^ 32 - 1` of them, every line is a 32-bit
number. -/
theorem tokenize_covers {s : String} {ts : List Token} (hn : lineFeeds s.toByteArray < 2 ^ 32 - 1)
    (h : tokenize s = .ok ts) :
    String.join (ts.map (·.text)) = s ∧ (∀ t ∈ ts, t.text ≠ "") ∧
    ∀ (i : Nat) (hi : i < ts.length),
      ts[i].offset = ((ts.take i).map (·.text.utf8ByteSize)).sum ∧
      (∀ hi' : i + 1 < ts.length, ts[i + 1].offset = ts[i].endOffset) ∧
      (String.Pos.Raw.mk ts[i].offset).IsValid s ∧
      ts[i].line = 1 + lineFeeds (s.toByteArray.extract 0 ts[i].offset) ∧ ts[i].line < 2 ^ 32 := by
  have hl := tokenize_laid h
  refine ⟨by rw [hl.join_eq, String.ofList_toList], hl.text_ne_empty, fun i hi => ?_⟩
  obtain ⟨hs, ho, hline⟩ := tokenize_split h hi
  have hfeeds : lineFeeds (s.toByteArray.extract 0 ts[i].offset) =
      (String.join ((ts.take i).map (·.text))).toList.count '\n' := by
    conv => lhs; rw [hs, String.toByteArray_append]
    rw [ByteArray.extract_append_eq_left (by rw [ho]; rfl), lineFeeds_toByteArray]
  refine ⟨?_, fun hi' => ?_, ?_, by rw [hfeeds, hline], ?_⟩
  · rw [ho, utf8ByteSize_join, List.map_map]; rfl
  · rw [(tokenize_split h hi').2.1, List.take_succ_eq_append_getElem hi, List.map_append,
      String.join_append, String.utf8ByteSize_append, ← ho, Token.endOffset]
    simp
  · rw [String.Pos.Raw.isValid_iff_exists_append]
    exact ⟨_, _, hs, by rw [ho]; rfl⟩
  · have hc : s.toList.count '\n' = (String.join ((ts.take i).map (·.text))).toList.count '\n' +
        (String.join ((ts.drop i).map (·.text))).toList.count '\n' := by
      conv => lhs; rw [hs]
      rw [String.toList_append, List.count_append]
    rw [lineFeeds_toByteArray] at hn
    omega

theorem tokenize_covers_sample :
    ∃ ts, tokenize "<p><?php\n$é;\nx" = .ok ts ∧
      lineFeeds "<p><?php\n$é;\nx".toByteArray < 2 ^ 32 - 1 ∧
      String.join (ts.map (·.text)) = "<p><?php\n$é;\nx" ∧ ∃ hi : 5 < ts.length, ts[5].offset = 14 ∧
      ts[5].offset = ((ts.take 5).map (·.text.utf8ByteSize)).sum ∧
        ts[5].line = 1 + lineFeeds ("<p><?php\n$é;\nx".toByteArray.extract 0 ts[5].offset) := by
  have h : tokenize "<p><?php\n$é;\nx" = .ok
      [⟨.inlineHtml, "<p>", 0, 1⟩, ⟨.openTag, "<?php\n", 3, 1⟩, ⟨.variableName, "$é", 9, 2⟩,
       ⟨.semicolon, ";", 12, 2⟩, ⟨.whitespace, "\n", 13, 2⟩, ⟨.string, "x", 14, 3⟩] := by cbv
  have hn : lineFeeds "<p><?php\n$é;\nx".toByteArray < 2 ^ 32 - 1 := by
    rw [lineFeeds_toByteArray]; decide
  obtain ⟨hjoin, _, hplace⟩ := tokenize_covers hn h
  obtain ⟨ho, _, _, hline, _⟩ := hplace 5 (by decide)
  exact ⟨_, h, hn, hjoin, by decide, rfl, ho, hline⟩

end PhpOutline
