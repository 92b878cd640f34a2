import PhpOutline.Proofs.HeredocTokens
import PhpOutline.Proofs.LongestMatch

/-!
# The kinds of words

The kind of a word is decided by its letters, whatever their case, and by the two code tokens before
it. After a member access, and where a function or a constant gets its name, every word is a name,
so no keyword is found there. Trivia in between makes no difference.
-/

namespace PhpOutline

open Lexeme

/-- The places where a word can only be a name, by the nearest code token and the one before that:
members, and the names of functions and constants. -/
def NamePlace (last before : Option Kind) (word : String) : Prop :=
  last ∈ [some .objectOperator, some .functionKw, some .constKw] ∨
  (last = some .doubleColon ∧ word ≠ "class") ∨
  (last = some .ampersand ∧ before = some .functionKw)

/-- The kind of a word in lower case where it may be a keyword. -/
structure KeywordKind (word : String) (kind : Kind) : Prop where
  keyword : ∀ k, (word, k) ∈ keywords → kind = k
  reserved : word ∈ reserved → kind = .keyword
  free : kind = .string ↔ (∀ k, (word, k) ∉ keywords) ∧ word ∉ Lexeme.reserved

def Token.lowerText (t : Token) : String := .ofList (t.text.toList.map Char.toLower)

/-- Whether a token of a source is read as code, and not as text outside PHP or as part of a
heredoc. -/
def ReadInPhp (source : String) (before : List Token) (t : Token) (after : List Token) : Prop :=
  ∃ st, Lexer.Scans {} source.toList before st (textOf (t :: after)) ∧ st.mode = .php

/-! ## Words in their places -/

theorem forcesName_iff_namePlace {a b : Option Kind} {word : String} :
    Context.forcesName ⟨a, b⟩ word = true ↔ NamePlace a b word := by
  unfold Context.forcesName NamePlace
  dsimp only
  split <;> simp_all

theorem lookup_keywords {word : String} {k : Kind} (h : (word, k) ∈ keywords) :
    keywords.lookup word = some k := by
  have hall : ∀ e ∈ keywords, keywords.lookup e.1 = some e.2 := by decide +kernel
  exact hall (word, k) h

theorem keywordKind_spec {word : String} (henum : word ≠ "enum") (after : List Char) :
    KeywordKind word (keywordKind word after) := by
  have hkeywords : ∀ e ∈ keywords, e.2 ≠ .string ∧ e.1 ∉ reserved := by decide +kernel
  rw [keywordKind, if_neg henum]
  split
  · rename_i kind hlookup
    have hmem := mem_keywords_of_lookup hlookup
    obtain ⟨hkind, hreserved⟩ := hkeywords _ hmem
    refine ⟨fun k hk => ?_, fun h => absurd h hreserved, fun h => absurd h hkind,
      fun h => absurd hmem (h.1 kind)⟩
    exact Option.some.inj (hlookup.symm.trans (lookup_keywords hk))
  · rename_i hlookup
    have hfree : ∀ k, (word, k) ∉ keywords := by
      intro k hk
      cases hlookup.symm.trans (lookup_keywords hk)
    refine ⟨fun k hk => absurd hk (hfree k), fun h => ?_, ?_⟩
    · simp [h]
    · by_cases hreserved : word ∈ reserved
      · simp [hreserved]
      · simp [hreserved, hfree]

namespace Lexer

variable {ctx : Context} {line : Nat} {c : Char} {s r : List Char} {k : Chunk} {st st' : State}
  {us vs : List Token} {t u : Token}

theorem startsClass_of_isIdentStart (hc : isIdentStart c = true) : StartsClass c s := by
  have hne : ∀ {d}, isIdentStart d = false → c ≠ d := ne_of_isIdentStart hc
  have hstart : ∀ {d p}, isIdentStart d = false → ¬ d :: p <+: c :: s := by
    intro d p hd h
    exact hne hd (List.cons_prefix_cons.mp h).1.symm
  refine ⟨?_, ?_, hne rfl, hstart rfl, hstart rfl, hstart rfl, ?_⟩
  · rw [isBlankChar_eq]
    exact isGap_of_isIdentStart hc
  · rw [isQuote, List.contains_eq_mem, decide_eq_false_iff_not]
    simp only [List.mem_cons, List.not_mem_nil, or_false, not_or]
    exact ⟨hne rfl, hne rfl, hne rfl⟩
  · intro l head body _ hhead heq
    cases hhead
    exact hne (d := '<') rfl (List.cons.inj heq).1

theorem chunk_of_isIdentStart (hmode : st.mode = .php) (hc : isIdentStart c = true) :
    st.chunk c (c :: s) =
      .ok (.one (nameKind st.context ((c :: s).take (nameLength (c :: s)))
        ((c :: s).drop (nameLength (c :: s)))) (nameLength (c :: s))) := by
  have hdigit : c.isDigit = false := by
    by_contra h
    rw [isIdentStart_of_isDigit (by simpa using h)] at hc
    cases hc
  have hclass : classAt c s = .name := by
    rw [classAt, if_neg (ne_of_isIdentStart hc rfl), if_neg, if_pos (.inr hc)]
    simp [hdigit, ne_of_isIdentStart (d := '.') hc rfl]
  rw [State.chunk, hmode]
  dsimp only
  rw [phpChunk_of_startsClass (startsClass_of_isIdentStart hc), hclass]
  dsimp only
  rw [name_eq st.context hc]

theorem Scans.next_eq (h : Scans st s [t] st' r) (hread : tokensFrom st s = .ok (u :: us)) :
    u = t := by
  rw [h.tokensFrom_eq] at hread
  cases htail : tokensFrom st' r with
  | error e =>
    rw [htail] at hread
    cases hread
  | ok vs =>
    rw [htail] at hread
    exact (List.cons.inj (Except.ok.inj hread)).1.symm

theorem kind_of_tokensFrom (hmode : st.mode = .php) (hword : IsIdent t.text.toList)
    (hread : tokensFrom st (textOf (t :: us)) = .ok (t :: us)) :
    t.kind = wordKind st.context t.text.toList (textOf us) := by
  have htext : textOf (t :: us) = t.text.toList ++ textOf us := List.flatMap_cons
  obtain ⟨c, s, hcons, hc⟩ : ∃ c s, textOf (t :: us) = c :: s ∧ isIdentStart c = true := by
    obtain ⟨c, r, hcr, hc, _⟩ := hword
    exact ⟨c, r ++ textOf us, by rw [htext, hcr]; rfl, hc⟩
  rw [hcons] at hread htext
  have ht := (Scans.one (chunk_of_isIdentStart hmode hc)).next_eq hread
  generalize nameLength (c :: s) = n at ht
  have htake : t.text.toList = (c :: s).take n := by
    rw [ht, State.token, String.toList_ofList]
  have hdrop : textOf us = (c :: s).drop n := by
    apply @List.append_cancel_left _ t.text.toList
    rw [← htext, htake, List.take_append_drop]
  have hkind : t.kind = nameKind st.context t.text.toList (textOf us) := by
    rw [htake, hdrop, ht, State.token]
  have hsep := hword.separator_not_mem
  have hlead : ¬ ['\\'].isPrefixOf t.text.toList = true := fun hstart =>
    hsep ((List.isPrefixOf_iff_prefix.mp hstart).subset (by simp))
  rw [hkind, nameKind, if_neg hlead, if_neg (by simpa using hsep)]

/-! ## Tokens that look like words -/

theorem isIdentStart_of_toLower_lt (h : c.toLower = '<') : isIdentStart c = false := by
  unfold Char.toLower at h
  split at h
  · rename_i hupper
    have hval := congrArg (fun d : Char => d.val.toNat) h
    have hlow := UInt32.le_iff_toNat_le.mp hupper.1
    have hhigh := UInt32.le_iff_toNat_le.mp hupper.2
    simp at hval hlow hhigh
    omega
  · rw [h]
    rfl

theorem TagAt.not_isIdent {kind : Kind} {tag after : List Char} (h : TagAt kind tag after) :
    ¬ IsIdent tag := by
  rintro ⟨c, r, heq, hc, _⟩
  cases h with
  | echo =>
    obtain ⟨rfl, _⟩ := List.cons.inj heq
    cases hc
  | @php word blank _ hword hblank =>
    cases word with
    | nil => cases hword
    | cons d word =>
      obtain ⟨rfl, _⟩ := List.cons.inj heq
      rw [isIdentStart_of_toLower_lt (List.cons.inj hword).1] at hc
      cases hc

theorem mem_parts (parts : List (Kind × List Char)) (rest : List Char)
    (hlexemes : k.lexemes = parts.map fun p => (p.1, p.2.length))
    (hr : r = parts.flatMap (·.2) ++ rest) (hcut : (st.cut k.lexemes r).1 = us ++ t :: vs) :
    (t.kind, t.text.toList) ∈ parts := by
  have hparts := cut_parts st parts rest
  rw [← hlexemes, ← hr, hcut] at hparts
  rw [← hparts]
  simp

theorem htmlChunk_ident (hcut : (st.cut (htmlChunk r).lexemes r).1 = us ++ t :: vs)
    (hword : IsIdent t.text.toList) :
    t.kind = .inlineHtml := by
  have hreads := htmlChunk_reads r
  generalize htmlChunk r = k at hreads hcut
  cases hreads with
  | rest =>
    have := mem_parts [(.inlineHtml, r)] [] rfl (by simp) hcut
    simp only [List.mem_singleton, Prod.mk.injEq] at this
    exact this.1
  | @tag kind tag after htag =>
    have := mem_parts [(kind, tag)] after rfl (by simp) hcut
    simp only [List.mem_singleton, Prod.mk.injEq] at this
    rw [this.2] at hword
    exact absurd hword (TagAt.not_isIdent htag)
  | @htmlTag kind html tag after htag =>
    have := mem_parts [(.inlineHtml, html), (kind, tag)] after rfl (by simp) hcut
    simp only [List.mem_cons, List.not_mem_nil, or_false, Prod.mk.injEq] at this
    rcases this with h | h
    · exact h.1
    · rw [h.2] at hword
      exact absurd hword (TagAt.not_isIdent htag)

theorem phpChunk_behind_first (hk : phpChunk ctx line c (c :: s) = .ok k)
    (hcut : (st.cut k.lexemes (c :: s)).1 = us ++ t :: vs) :
    us = [] ∨ t.kind = .encapsedAndWhitespace ∨ t.kind = .endHeredoc := by
  rcases phpChunk_cases hk with ⟨_, rfl⟩ | ⟨_, rfl⟩ | ⟨_, _, n, _, rfl⟩ | ⟨hc, rfl⟩ |
    ⟨hc, l, rest, hls, _, hrest⟩
  · exact .inl (eq_of_cut_one hcut).1
  · exact .inl (eq_of_cut_one hcut).1
  · exact .inl (eq_of_cut_one hcut).1
  · rw [name_eq ctx hc] at hcut
    exact .inl (eq_of_cut_one hcut).1
  · cases us with
    | nil => exact .inl rfl
    | cons u us =>
      right
      have hkinds := st.kinds_cut k.lexemes (c :: s)
      rw [hcut, hls] at hkinds
      have hmem : t.kind ∈ rest.map (·.1) := by
        rw [← (List.cons.inj hkinds).2]
        simp
      obtain ⟨l', hl', heq⟩ := List.mem_map.mp hmem
      rw [← heq]
      exact hrest l' hl'

/-- A token that looks like a word is the first one of a chunk of code, unless it is text outside
PHP or a part of a heredoc. -/
theorem chunk_ident (hk : st.chunk c (c :: s) = .ok k)
    (hcut : (st.cut k.lexemes (c :: s)).1 = us ++ t :: vs) (hword : IsIdent t.text.toList) :
    (us = [] ∧ st.mode = .php) ∨ t.kind = .inlineHtml ∨ t.kind = .encapsedAndWhitespace ∨
      t.kind = .endHeredoc := by
  unfold State.chunk at hk
  split at hk
  · cases hk
    exact .inr (.inl (htmlChunk_ident hcut hword))
  · rename_i hmode
    rcases phpChunk_behind_first hk hcut with hfirst | hkind
    · exact .inl ⟨hfirst, hmode⟩
    · exact .inr (.inr hkind)

end Lexer

/-! ## The words of a source -/

variable {source : String} {before after : List Token} {t : Token}

theorem not_isIdent_encapsed (h : tokenize source = .ok (before ++ t :: after))
    (hkind : t.kind = .encapsedAndWhitespace) : ¬ IsIdent t.text.toList := by
  intro hword
  obtain ⟨_, us, vs, _, _, l, head, body, text, indent, rest, _, _, _, hfirst, htokens⟩ :=
    exists_heredocAt h (by simp [hkind])
  have hmem : (t.kind, t.text.toList) ∈ heredocParts l head text indent := by
    rw [← htokens]
    simp
  -- the text of a heredoc ends with its last line
  have hlast : t.text.toList.getLast? = some '\n' := by
    unfold heredocParts at hmem
    split at hmem
    · simp [hkind] at hmem
    · rename_i hne
      simp only [hkind, List.mem_cons, List.mem_append, List.not_mem_nil, or_false, Prod.mk.injEq,
        reduceCtorEq, false_and, true_and, false_or] at hmem
      rw [hmem]
      exact hfirst.line.resolve_left hne
  have := hword.isIdentRest '\n' (List.mem_of_getLast? hlast)
  revert this
  decide

theorem readInPhp_of_isIdent (h : tokenize source = .ok (before ++ t :: after))
    (hword : IsIdent t.text.toList) :
    ReadInPhp source before t after ∨ t.kind = .inlineHtml ∨ t.kind = .endHeredoc := by
  obtain ⟨_, hall⟩ := Lexer.scans_of_tokensFrom h
  obtain ⟨pre, us, vs, post, st, c, s, k, hbefore, _, hscans, hk, hcut, _⟩ := hall.exists_chunk
  rcases Lexer.chunk_ident hk hcut hword with ⟨rfl, hmode⟩ | hkind
  · rw [List.append_nil] at hbefore
    subst hbefore
    left
    refine ⟨st, ?_, hmode⟩
    have htext : textOf (t :: after) = c :: s := by
      apply @List.append_cancel_left _ (textOf before)
      rw [hscans.place.1, ← Lexer.textOf_append, ← hall.place.1, List.append_nil]
    rw [htext]
    exact hscans
  · rcases hkind with hkind | hkind | hkind
    · exact .inr (.inl hkind)
    · exact absurd hword (not_isIdent_encapsed h hkind)
    · exact .inr (.inr hkind)

theorem kind_of_word (h : tokenize source = .ok (before ++ t :: after))
    (hplace : ReadInPhp source before t after) (hword : IsIdent t.text.toList) :
    t.kind = if Context.forcesName ⟨(codeKinds before).getLast?,
      (codeKinds before).dropLast.getLast?⟩ t.lowerText then
      .string else keywordKind t.lowerText (textOf after) := by
  obtain ⟨st, hscans, hmode⟩ := hplace
  have hcontext : st.context = ⟨(codeKinds before).getLast?,
      (codeKinds before).dropLast.getLast?⟩ :=
    hscans.context.trans (context_eq before)
  rw [Lexer.kind_of_tokensFrom hmode hword (hscans.tokensFrom_ok h), ← hcontext]
  rfl

theorem codeKinds_gap {pre gap : List Token} {m : Token} (hm : Taxonomy.php.isTrivia m.kind = false)
    (hgap : ∀ g ∈ gap, Taxonomy.php.isTrivia g.kind = true) :
    codeKinds (pre ++ m :: gap) = codeKinds pre ++ [m.kind] := by
  have hnone : (gap.map (·.kind)).filter Taxonomy.php.isCode = [] := by
    rw [List.filter_eq_nil_iff]
    intro k hk
    obtain ⟨g, hg, rfl⟩ := List.mem_map.mp hk
    simp [Taxonomy.isCode, hgap g hg]
  rw [codeKinds, List.map_append, List.map_cons, List.filter_append,
    List.filter_cons_of_pos (by simp [Taxonomy.isCode, hm]), hnone]
  rfl

theorem NamePlace.isTrivia {kind : Kind} {b : Option Kind} {word : String}
    (h : NamePlace (some kind) b word) :
    Taxonomy.php.isTrivia kind = false := by
  unfold NamePlace at h
  simp only [List.mem_cons, List.not_mem_nil, or_false, Option.some.injEq] at h
  rcases h with (rfl | rfl | rfl) | ⟨rfl, _⟩ | ⟨rfl, _⟩ <;> rfl

/-- A token that looks like a word is text outside PHP, the label of a heredoc, or read as code.
There it is a name where only a name can stand, and else a keyword if and only if the word is
reserved. So behind a member access, or where a function or a constant gets its name, with only
trivia in between, no word is a keyword. -/
theorem word_kind_by_place (h : tokenize source = .ok (before ++ t :: after))
    (hword : IsIdent t.text.toList) (henum : t.lowerText ≠ "enum") :
    (ReadInPhp source before t after ∨ t.kind = .inlineHtml ∨ t.kind = .endHeredoc) ∧
    (ReadInPhp source before t after →
      (NamePlace (codeKinds before).getLast? (codeKinds before).dropLast.getLast? t.lowerText →
        t.kind = .string) ∧
      (¬ NamePlace (codeKinds before).getLast? (codeKinds before).dropLast.getLast? t.lowerText →
        KeywordKind t.lowerText t.kind) ∧
      ∀ pre m gap, before = pre ++ m :: gap → (∀ g ∈ gap, Taxonomy.php.isTrivia g.kind = true) →
        NamePlace (some m.kind) (codeKinds pre).getLast? t.lowerText → t.kind = .string) := by
  refine ⟨readInPhp_of_isIdent h hword, fun hplace => ?_⟩
  have hkind := kind_of_word h hplace hword
  have hname : NamePlace (codeKinds before).getLast?
      (codeKinds before).dropLast.getLast? t.lowerText → t.kind = .string := by
    intro hforced
    rw [hkind, if_pos (forcesName_iff_namePlace.mpr hforced)]
  refine ⟨hname, fun hfree => ?_, fun pre m gap hbefore hgap hforced => ?_⟩
  · rw [hkind, if_neg (fun hforces => hfree (forcesName_iff_namePlace.mp hforces))]
    exact keywordKind_spec henum _
  · apply hname
    rw [hbefore, codeKinds_gap hforced.isTrivia hgap, List.getLast?_concat, List.dropLast_concat]
    exact hforced

theorem word_kind_by_place_sample :
    (∃ before t after, tokenize "<?php $a->/**/?><?=Class" = .ok (before ++ t :: after) ∧
      t.lowerText = "class" ∧ ReadInPhp "<?php $a->/**/?><?=Class" before t after ∧
      t.kind = .string) ∧
    (∃ before t after, tokenize "<?=Class" = .ok (before ++ t :: after) ∧ t.lowerText = "class" ∧
      ReadInPhp "<?=Class" before t after ∧ t.kind = .classKw) ∧
    ∃ before t after, tokenize "<?=If" = .ok (before ++ t :: after) ∧ t.lowerText = "if" ∧
      ReadInPhp "<?=If" before t after ∧ t.kind = .keyword := by
  have hclass : IsIdent "Class".toList := ⟨'C', ['l', 'a', 's', 's'], rfl, rfl, by simp; decide⟩
  have hfree : ∀ word, ¬ NamePlace (codeKinds [⟨.openTagWithEcho, "<?=", 0, 1⟩]).getLast?
      (codeKinds [⟨.openTagWithEcho, "<?=", 0, 1⟩]).dropLast.getLast? word := by
    rintro word (h | ⟨h, _⟩ | ⟨h, _⟩)
    · revert h
      decide
    · cases h
    · cases h
  refine ⟨?_, ?_, ?_⟩
  · have h : tokenize "<?php $a->/**/?><?=Class" = .ok
        ([⟨.openTag, "<?php ", 0, 1⟩, ⟨.variableName, "$a", 6, 1⟩, ⟨.objectOperator, "->", 8, 1⟩,
          ⟨.comment, "/**/", 10, 1⟩, ⟨.closeTag, "?>", 14, 1⟩, ⟨.openTagWithEcho, "<?=", 16, 1⟩] ++
          ⟨.string, "Class", 19, 1⟩ :: []) := by
      decide +kernel
    obtain ⟨hread, hkind⟩ := word_kind_by_place h hclass (by decide +kernel)
    have hplace := hread.resolve_right (by simp)
    refine ⟨_, _, _, h, by decide +kernel, hplace, (hkind hplace).2.2
      [⟨.openTag, "<?php ", 0, 1⟩, ⟨.variableName, "$a", 6, 1⟩]
      ⟨.objectOperator, "->", 8, 1⟩ _ rfl (by decide) (.inl (by simp))⟩
  · have h : tokenize "<?=Class" = .ok ([⟨.openTagWithEcho, "<?=", 0, 1⟩] ++
        ⟨.classKw, "Class", 3, 1⟩ :: []) := by
      decide +kernel
    obtain ⟨hread, hkind⟩ := word_kind_by_place h hclass (by decide +kernel)
    have hplace := hread.resolve_right (by simp)
    have hlower : Token.lowerText ⟨.classKw, "Class", 3, 1⟩ = "class" := by decide +kernel
    rw [hlower] at hkind
    exact ⟨_, _, _, h, hlower, hplace, ((hkind hplace).2.1 (hfree _)).keyword .classKw
      (by decide +kernel)⟩
  · have h : tokenize "<?=If" =
        .ok ([⟨.openTagWithEcho, "<?=", 0, 1⟩] ++ ⟨.keyword, "If", 3, 1⟩ :: []) := by
      decide +kernel
    obtain ⟨hread, hkind⟩ := word_kind_by_place h ⟨'I', ['f'], rfl, rfl, by simp; decide⟩
      (by decide +kernel)
    have hplace := hread.resolve_right (by simp)
    have hlower : Token.lowerText ⟨.keyword, "If", 3, 1⟩ = "if" := by decide +kernel
    rw [hlower] at hkind
    exact ⟨_, _, _, h, hlower, hplace, ((hkind hplace).2.1 (hfree _)).reserved (by decide +kernel)⟩

end PhpOutline
