import PhpOutline.Proofs.MarkupSegments
import PhpOutline.Proofs.ScanSteps

/-!
# The tokens of a heredoc

A heredoc goes from its header to the first line that closes it. It gives one token for the header,
one for the text up to that line unless there is none, and one for the blanks and the label of that
line. If no line closes it, the source has no tokens at all.
-/

namespace PhpOutline

open Lexeme

namespace Lexeme

/-- The first line of a text that closes a heredoc: the text before it, its blanks, and what stands
behind its label. -/
structure FirstClosing (l body text indent rest : List Char) : Prop where
  split : body = text ++ (indent ++ l ++ rest)
  line : EndsLine text
  blanks : ∀ c ∈ indent, isBlank c = true
  word : ∀ c, rest.head? = some c → Text.isAlphanumeric c = false ∧ c ≠ '_'
  first : ∀ a b, body = a ++ b → EndsLine a → ClosesAt l b → text.length ≤ a.length

variable {l s body text indent rest : List Char} {m n : Nat}

theorem EndsLine.cons {line a : List Char} (h : EndsLine a) : EndsLine (line ++ '\n' :: a) := by
  right
  rcases h with rfl | h
  · rw [List.getLast?_concat]
  · rw [List.getLast?_append, List.getLast?_cons, h]
    simp

theorem firstClosing_of_heredocBody? (hl : IsLabel l) (h : heredocBody? l s = some (m, n)) :
    ∃ text indent rest, FirstClosing l s text indent rest ∧ text.length = m ∧
      (indent ++ l).length = n := by
  -- by the recursion over the lines: where the search ends is the first closing line
  fun_induction heredocBody? l s generalizing m n with
  | case1 s hc =>
    cases h
    obtain ⟨indent, rest, rfl, hindent, hrest⟩ := (closesHeredoc_iff hl).mp hc
    refine ⟨[], indent, rest, ⟨rfl, .inl rfl, hindent, hrest, fun _ _ _ _ _ => Nat.zero_le _⟩, rfl,
      ?_⟩
    obtain ⟨c, r, rfl, hstart, _⟩ := hl
    rw [List.append_assoc, takeWhile_append_of_head? hindent, List.length_append]
    intro d hd
    cases hd
    exact isBlank_of_isLabelStart hstart
  | case2 s hc line hlt =>
    rename_i ih
    have hsplit := line_append hlt
    obtain ⟨⟨m', n'⟩, hbody, heq⟩ := Option.map_eq_some_iff.mp h
    obtain ⟨text, indent, rest, hfirst, hm, hn⟩ := ih hbody
    cases heq
    refine ⟨s.takeWhile (· ≠ '\n') ++ '\n' :: text, indent, rest,
      ⟨?_, hfirst.line.cons, hfirst.blanks, hfirst.word, ?_⟩, ?_, hn⟩
    · rw [List.append_assoc, List.cons_append, ← hfirst.split, hsplit]
    · intro a b heq ha hcloses
      rcases ha.cases (not_mem_line s) (hsplit.trans heq) with rfl | ⟨a', rfl, hrest, ha'⟩
      · rw [List.nil_append] at heq
        rw [← heq] at hcloses
        exact absurd ((closesHeredoc_iff hl).mpr hcloses) hc
      · have := hfirst.first a' b hrest ha' hcloses
        simp only [List.length_append, List.length_cons]
        omega
    · simp only [List.length_append, List.length_cons]
      omega
  | case3 => cases h

end Lexeme

/-- A heredoc that reading comes to in a source, behind some tokens: its label, its header, and all
that follows the header. -/
structure HeredocAt (source : String) (before : List Token) (st : Lexer.State)
    (l head body : List Char) : Prop where
  scans : Lexer.Scans {} source.toList before st (head ++ body)
  mode : st.mode = .php
  label : IsLabel l
  header : Heads l head

/-- The kinds and texts of the tokens of a heredoc. -/
def heredocParts (l head text indent : List Char) : List (Kind × List Char) :=
  (.startHeredoc, head) ::
    ((if text = [] then [] else [(.encapsedAndWhitespace, text)]) ++ [(.endHeredoc, indent ++ l)])

namespace Lexer

variable {line : Nat} {c : Char} {s r l head body text indent rest : List Char} {k : Chunk}
  {st st' : State} {ts us : List Token}

theorem cut_parts (st : State) (parts : List (Kind × List Char)) (rest : List Char) :
    (st.cut (parts.map fun p => (p.1, p.2.length)) (parts.flatMap (·.2) ++ rest)).1.map
      (fun t => (t.kind, t.text.toList)) = parts := by
  induction parts generalizing st with
  | nil => rfl
  | cons p parts ih =>
    rw [List.map_cons, List.flatMap_cons, List.append_assoc, State.cut, List.drop_left]
    dsimp only
    rw [List.map_cons, ih, toList_token]
    rfl

theorem size_parts (parts : List (Kind × List Char)) (mode : Mode) :
    Chunk.size ⟨parts.map fun p => (p.1, p.2.length), mode⟩ = (parts.flatMap (·.2)).length := by
  induction parts with
  | nil => rfl
  | cons p parts ih =>
    rw [List.flatMap_cons, List.length_append, ← ih]
    rfl

theorem flatMap_heredocParts (l head text indent : List Char) :
    (heredocParts l head text indent).flatMap (·.2) = head ++ (text ++ (indent ++ l)) := by
  unfold heredocParts
  split
  · rename_i h
    simp [h]
  · simp

theorem heredoc_ok (hl : IsLabel l) (h : heredoc line ⟨l, head.length⟩ (head ++ body) = .ok k) :
    ∃ text indent rest, FirstClosing l body text indent rest ∧
      k = ⟨(heredocParts l head text indent).map fun p => (p.1, p.2.length), .php⟩ := by
  unfold heredoc at h
  rw [List.drop_left] at h
  split at h
  · cases h
  · rename_i close hbody
    cases h
    obtain ⟨text, indent, rest, hfirst, hzero, rfl⟩ := firstClosing_of_heredocBody? hl hbody
    obtain rfl := List.length_eq_zero_iff.mp hzero
    exact ⟨[], indent, rest, hfirst, rfl⟩
  · rename_i n close hne hbody
    cases h
    obtain ⟨text, indent, rest, hfirst, rfl, rfl⟩ := firstClosing_of_heredocBody? hl hbody
    have htext : text ≠ [] := by
      rintro rfl
      exact hne rfl
    refine ⟨text, indent, rest, hfirst, ?_⟩
    rw [heredocParts, if_neg htext]
    rfl

theorem heredoc_scans (hk : st.chunk c (c :: s) = .ok k) (heq : c :: s = head ++ body)
    (hl : IsLabel l) (hh : heredoc line ⟨l, head.length⟩ (c :: s) = .ok k) :
    ∃ text indent rest, FirstClosing l body text indent rest ∧
      (st.cut k.lexemes (c :: s)).1.map (fun t => (t.kind, t.text.toList)) =
        heredocParts l head text indent ∧
      Scans st (c :: s) (st.cut k.lexemes (c :: s)).1 (st.behind k (c :: s)) rest ∧
      (st.behind k (c :: s)).mode = .php := by
  rw [heq] at hh
  obtain ⟨text, indent, rest, hfirst, rfl⟩ := heredoc_ok hl hh
  have hwhole : c :: s = (heredocParts l head text indent).flatMap (·.2) ++ rest := by
    rw [heq, hfirst.split, flatMap_heredocParts]
    simp
  refine ⟨text, indent, rest, hfirst, ?_, ?_, rfl⟩
  · rw [hwhole, cut_parts]
  · have hscans := Scans.chunk hk
    rwa [hwhole, size_parts, List.drop_left, ← hwhole] at hscans

theorem exists_heredoc (line : Nat) (head : List Char) {p : Nat × Nat}
    (h : heredocBody? l body = some p) :
    ∃ k, heredoc line ⟨l, head.length⟩ (head ++ body) = .ok k := by
  unfold heredoc
  rw [List.drop_left, h]
  split
  · rename_i hnone
    cases hnone
  · exact ⟨_, rfl⟩
  · exact ⟨_, rfl⟩

end Lexer

variable {source : String} {before : List Token} {st : Lexer.State} {l head body : List Char}

theorem HeredocAt.reads (h : HeredocAt source before st l head body)
    (hcloses : ∃ a b, body = a ++ b ∧ EndsLine a ∧ ClosesAt l b) :
    ∃ text indent rest ts st', FirstClosing l body text indent rest ∧
      ts.map (fun t => (t.kind, t.text.toList)) = heredocParts l head text indent ∧
      st'.mode = .php ∧ Lexer.Scans {} source.toList (before ++ ts) st' rest := by
  obtain ⟨hscans, hmode, hl, hhead⟩ := h
  have hbody : heredocBody? l body ≠ none := by
    obtain ⟨a, b, heq, ha, hb⟩ := hcloses
    rw [ne_eq, heredocBody?_eq_none_iff hl]
    exact fun h => h a b heq ha hb
  obtain ⟨p, hp⟩ := Option.ne_none_iff_exists'.mp hbody
  obtain ⟨k, hheredoc⟩ := Lexer.exists_heredoc st.line head hp
  obtain ⟨s, hs⟩ : ∃ s, head ++ body = '<' :: s := by
    cases hhead
    exact ⟨_, rfl⟩
  have hheader : heredocHeader? ('<' :: s) = some ⟨l, head.length⟩ :=
    heredocHeader?_eq_some_iff.mpr ⟨hl, head, body, hs.symm, hhead, rfl⟩
  have hk : st.chunk '<' ('<' :: s) = .ok k := by
    rw [Lexer.State.chunk, hmode]
    dsimp only
    rw [Lexer.phpChunk_of_heredocHeader? hheader, ← hs]
    exact hheredoc
  rw [hs] at hscans hheredoc
  obtain ⟨text, indent, rest, hfirst, htokens, hbehind, hphp⟩ :=
    Lexer.heredoc_scans hk hs.symm hl hheredoc
  exact ⟨text, indent, rest, _, _, hfirst, htokens, hphp, hscans.trans hbehind⟩

theorem HeredocAt.fails (h : HeredocAt source before st l head body)
    (hopen : ∀ a b, body = a ++ b → EndsLine a → ¬ ClosesAt l b) :
    tokenize source = .error (.unterminatedHeredoc (.ofList l) (1 + (textOf before).count '\n')) :=
  tokenize_error_iff.mpr
    ⟨before, st, head ++ body, h.scans, h.mode, h.scans.place.1, .heredoc h.label h.header hopen⟩

theorem exists_heredocAt {t : Token} {after : List Token}
    (h : tokenize source = .ok (before ++ t :: after))
    (hkind : t.kind ∈ [.startHeredoc, .encapsedAndWhitespace, .endHeredoc]) :
    ∃ pre us vs post st l head body text indent rest, before = pre ++ us ∧ after = vs ++ post ∧
      HeredocAt source pre st l head body ∧ FirstClosing l body text indent rest ∧
      (us ++ t :: vs).map (fun t => (t.kind, t.text.toList)) = heredocParts l head text indent := by
  obtain ⟨_, hscans⟩ := Lexer.scans_of_tokensFrom h
  have hx : Lexer.Reader.of? t.kind = some .heredoc := by
    simp only [List.mem_cons, List.not_mem_nil, or_false] at hkind
    rcases hkind with hkind | hkind | hkind <;> rw [hkind] <;> rfl
  obtain ⟨pre, us, vs, post, st, c, s, k, hbefore, hafter, hpre, hmode, hk,
    ⟨⟨l, n⟩, hheader, hheredoc⟩, hcut, _⟩ :=
    hscans.exists_reader hx
  obtain ⟨hl, head, body, heq, hhead, rfl⟩ := heredocHeader?_eq_some_iff.mp hheader
  obtain ⟨text, indent, rest, hfirst, htokens, _, _⟩ := Lexer.heredoc_scans hk heq hl hheredoc
  rw [hcut] at htokens
  rw [heq] at hpre
  exact ⟨pre, us, vs, post, st, l, head, body, text, indent, rest, hbefore, hafter,
    ⟨hpre, hmode, hl, hhead⟩, hfirst, htokens⟩

/-- Where reading comes to the header of a heredoc, it gives the tokens of the heredoc up to the
first line that closes it and goes on behind the label of that line, or it fails if there is no such
line. The tokens of a heredoc come from nowhere else. -/
theorem heredoc_ends_at_first_closing_line (source : String) :
    (∀ before st l head body, HeredocAt source before st l head body →
      ((∃ a b, body = a ++ b ∧ EndsLine a ∧ ClosesAt l b) →
        ∃ text indent rest ts st', FirstClosing l body text indent rest ∧
          ts.map (fun t => (t.kind, t.text.toList)) = heredocParts l head text indent ∧
          st'.mode = .php ∧ Lexer.Scans {} source.toList (before ++ ts) st' rest ∧
          tokenize source = (Lexer.tokensFrom st' rest).map (before ++ ts ++ ·)) ∧
      ((∀ a b, body = a ++ b → EndsLine a → ¬ ClosesAt l b) →
        tokenize source =
          .error (.unterminatedHeredoc (.ofList l) (1 + (textOf before).count '\n')))) ∧
    ∀ before t after, tokenize source = .ok (before ++ t :: after) →
      t.kind ∈ [.startHeredoc, .encapsedAndWhitespace, .endHeredoc] →
      ∃ pre us vs post st l head body text indent rest, before = pre ++ us ∧ after = vs ++ post ∧
        HeredocAt source pre st l head body ∧ FirstClosing l body text indent rest ∧
        (us ++ t :: vs).map (fun t => (t.kind, t.text.toList)) =
          heredocParts l head text indent := by
  refine ⟨fun before st l head body h => ⟨fun hcloses => ?_, h.fails⟩, fun before t after =>
    exists_heredocAt⟩
  obtain ⟨text, indent, rest, ts, st', hfirst, htokens, hmode, hscans⟩ := h.reads hcloses
  exact ⟨text, indent, rest, ts, st', hfirst, htokens, hmode, hscans, hscans.tokensFrom_eq⟩

theorem heredoc_ends_at_first_closing_line_sample :
    (∃ before st text indent rest ts st',
      HeredocAt "<?php <<<A\n AB\n A;" before st ['A'] "<<<A\n".toList " AB\n A;".toList ∧
      FirstClosing ['A'] " AB\n A;".toList text indent rest ∧
      ts.map (fun t => (t.kind, t.text.toList)) = heredocParts ['A'] "<<<A\n".toList text indent ∧
      tokenize "<?php <<<A\n AB\n A;" = (Lexer.tokensFrom st' rest).map (before ++ ts ++ ·)) ∧
    tokenize "<?php <<<A\n AB" = .error (.unterminatedHeredoc "A" 1) := by
  have hlabel : IsLabel ['A'] := ⟨'A', [], rfl, rfl, by simp⟩
  have hheads : Heads ['A'] "<<<A\n".toList := @Heads.mk _ [] _ _ (by simp) .bare (.inl rfl)
  have hat : HeredocAt "<?php <<<A\n AB\n A;" [⟨.openTag, "<?php ", 0, 1⟩] ⟨.php, {}, 6, 1⟩
      ['A'] "<<<A\n".toList
      " AB\n A;".toList :=
    ⟨Lexer.Scans.chunk (k := ⟨[(.openTag, 6)], .php⟩) rfl, rfl, hlabel, hheads⟩
  have hopen : HeredocAt "<?php <<<A\n AB" [⟨.openTag, "<?php ", 0, 1⟩] ⟨.php, {}, 6, 1⟩
      ['A'] "<<<A\n".toList
      " AB".toList :=
    ⟨Lexer.Scans.chunk (k := ⟨[(.openTag, 6)], .php⟩) rfl, rfl, hlabel, hheads⟩
  have hend : ∀ c, [';'].head? = some c → Text.isAlphanumeric c = false ∧ c ≠ '_' := by
    intro c hc
    cases hc
    exact ⟨by decide +kernel, by decide⟩
  constructor
  · obtain ⟨text, indent, rest, ts, st', hfirst, htokens, _, _, hread⟩ :=
      ((heredoc_ends_at_first_closing_line _).1 _ _ _ _ _ hat).1
        ⟨" AB\n".toList, " A;".toList, rfl, .inr rfl, [' '], [';'], rfl, by simp [isBlank], hend⟩
    exact ⟨_, _, text, indent, rest, ts, st', hat, hfirst, htokens, hread⟩
  · apply ((heredoc_ends_at_first_closing_line _).1 _ _ _ _ _ hopen).2
    rw [← heredocBody?_eq_none_iff hlabel]
    cbv

end PhpOutline
