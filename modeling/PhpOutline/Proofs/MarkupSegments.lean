import PhpOutline.Proofs.EnumKeyword

/-!
# Markup and code take turns

Outside PHP, text runs up to the first open tag (`TagAt`, `TagFree`); in PHP, tokens run up to a
close tag. `Spelt` is the language of token lists that reading gives in each mode. That the tokens
of a source fall into segments, and where each region outside PHP ends, follows from it.
-/

namespace PhpOutline

namespace Lexeme

/-! ## Open tags in the text -/

/-- The blank that an open tag takes along before some text: one at most, a carriage return and a
line feed being one. Without a blank the source ends behind the tag. -/
inductive TagBlank : List Char → List Char → Prop
  | none : TagBlank [] []
  | pair {after : List Char} : TagBlank ['\r', '\n'] after
  | single {c : Char} {after : List Char} (hc : c ∈ [' ', '\t', '\n', '\r'])
      (hpair : c = '\r' → after.head? ≠ some '\n') : TagBlank [c] after

/-- The open tags, each with its kind, before some text. -/
inductive TagAt : Kind → List Char → List Char → Prop
  | echo {after : List Char} : TagAt .openTagWithEcho ['<', '?', '='] after
  | php {word blank after : List Char} (hword : word.map Char.toLower = "<?php".toList)
      (hblank : TagBlank blank after) : TagAt .openTag (word ++ blank) after

def StartsTag (s : List Char) : Prop := ∃ kind tag after, TagAt kind tag after ∧ s = tag ++ after

/-- No open tag starts in a text that others follow. -/
def TagFree (html rest : List Char) : Prop :=
  ∀ before after, html = before ++ after → after ≠ [] → ¬ StartsTag (after ++ rest)

variable {s html rest tag after : List Char} {c : Char} {kind : Kind} {n : Nat}

theorem tagBlankLength?_eq_some (h : tagBlankLength? s = some n) :
    ∃ blank after, s = blank ++ after ∧ blank.length = n ∧ TagBlank blank after := by
  unfold tagBlankLength? at h
  split at h
  · cases h
    exact ⟨[], [], rfl, rfl, .none⟩
  · rename_i after
    cases h
    exact ⟨['\r', '\n'], after, rfl, rfl, .pair⟩
  · rename_i c after hpair
    split at h
    · rename_i hc
      cases h
      refine ⟨[c], after, rfl, rfl, .single (List.contains_iff_mem.mp hc) fun hcr hlf => ?_⟩
      obtain ⟨after, rfl⟩ := List.head?_eq_some_iff.mp hlf
      exact hpair after hcr rfl
    · cases h

theorem tagBlankLength?_append {blank : List Char} (h : TagBlank blank after) :
    tagBlankLength? (blank ++ after) = some blank.length := by
  cases h with
  | none => rfl
  | pair => rfl
  | single hc hpair =>
    rw [List.singleton_append]
    unfold tagBlankLength?
    split
    · contradiction
    · rename_i heq
      obtain ⟨rfl, rfl⟩ := List.cons.inj heq
      exact absurd rfl (hpair rfl)
    · rename_i heq
      obtain ⟨rfl, rfl⟩ := List.cons.inj heq
      rw [if_pos (List.contains_iff_mem.mpr hc)]
      rfl

theorem openTag?_eq_some_iff :
    openTag? s = some (kind, n) ↔ ∃ tag after, s = tag ++ after ∧ tag.length = n ∧
      TagAt kind tag after := by
  constructor
  · intro h
    unfold openTag? at h
    split at h
    · rename_i hecho
      cases h
      obtain ⟨after, rfl⟩ := List.isPrefixOf_iff_prefix.mp hecho
      exact ⟨_, after, rfl, rfl, .echo⟩
    · split at h
      · rename_i hphp
        obtain ⟨word, rest, rfl, hword⟩ := Text.startsWithWord_iff.mp hphp
        have hlength : word.length = 5 := by simpa using congrArg List.length hword
        obtain ⟨m, hm, he⟩ := Option.map_eq_some_iff.mp h
        cases he
        rw [List.drop_left' hlength] at hm
        obtain ⟨blank, after, rfl, rfl, hblank⟩ := tagBlankLength?_eq_some hm
        exact ⟨word ++ blank, after, by simp, by simp [hlength], .php hword hblank⟩
      · cases h
  · rintro ⟨tag, after, rfl, rfl, htag⟩
    cases htag with
    | echo => rfl
    | @php word blank _ hword hblank =>
      have hlength : word.length = 5 := by simpa using congrArg List.length hword
      have hecho : ¬ ['<', '?', '='].isPrefixOf (word ++ blank ++ after) = true := by
        -- the third letter of the word is no equals sign
        intro hecho
        obtain ⟨rest, hrest⟩ := List.isPrefixOf_iff_prefix.mp hecho
        match word, hlength with
        | [a, b, c, d, e], _ =>
          simp only [List.cons_append, List.cons.injEq] at hrest
          obtain ⟨-, -, rfl, -⟩ := hrest
          simp at hword
      rw [List.append_assoc] at hecho ⊢
      have hphp : Text.startsWithWord ['<', '?', 'p', 'h', 'p'] (word ++ (blank ++ after)) = true :=
        Text.startsWithWord_iff.mpr ⟨word, blank ++ after, rfl, hword⟩
      rw [openTag?, if_neg hecho, if_pos hphp, List.drop_left' hlength,
        tagBlankLength?_append hblank]
      simp [hlength]

theorem openTag?_eq_none_iff : openTag? s = none ↔ ¬ StartsTag s := by
  rw [← Option.not_isSome_iff_eq_none, Option.isSome_iff_exists, not_iff_not]
  constructor
  · rintro ⟨⟨kind, n⟩, h⟩
    obtain ⟨tag, after, hs, _, htag⟩ := openTag?_eq_some_iff.mp h
    exact ⟨kind, tag, after, htag, hs⟩
  · rintro ⟨kind, tag, after, htag, hs⟩
    exact ⟨_, openTag?_eq_some_iff.mpr ⟨tag, after, hs, rfl, htag⟩⟩

theorem tagFree_nil (rest : List Char) : TagFree [] rest := by
  intro before after h hne
  exact absurd (List.append_eq_nil_iff.mp h.symm).2 hne

theorem TagFree.cons (hc : openTag? (c :: (html ++ rest)) = none) (h : TagFree html rest) :
    TagFree (c :: html) rest := by
  intro before after heq hne
  cases before with
  | nil =>
    rw [List.nil_append] at heq
    rw [← heq]
    exact openTag?_eq_none_iff.mp hc
  | cons d before =>
    exact h before after (List.cons.inj heq).2 hne

theorem findOpenTag_tagFree (h : findOpenTag s = (n, none)) : TagFree s [] := by
  induction s generalizing n with
  | nil => exact tagFree_nil []
  | cons c s ih =>
    unfold findOpenTag at h
    split at h
    · cases h
    · rename_i htag
      simp only [Prod.mk.injEq] at h
      exact TagFree.cons (by rwa [List.append_nil]) (ih (Prod.ext rfl h.2))

theorem findOpenTag_first {length : Nat} (h : findOpenTag s = (n, some (kind, length))) :
    ∃ html tag after, s = html ++ (tag ++ after) ∧ html.length = n ∧ tag.length = length ∧
      TagAt kind tag after ∧ TagFree html (tag ++ after) := by
  induction s generalizing n with
  | nil => cases h
  | cons c s ih =>
    unfold findOpenTag at h
    split at h
    · rename_i htag
      cases h
      obtain ⟨tag, after, hs, hlength, htag⟩ := openTag?_eq_some_iff.mp htag
      exact ⟨[], tag, after, hs, rfl, hlength, htag, tagFree_nil _⟩
    · rename_i htag
      simp only [Prod.mk.injEq] at h
      obtain ⟨html, tag, after, rfl, hn, hlength, hat, hfree⟩ := ih (Prod.ext rfl h.2)
      exact ⟨c :: html, tag, after, rfl, by rw [List.length_cons, hn]; exact h.1, hlength, hat,
        hfree.cons htag⟩

end Lexeme

theorem Laid.eq_nil {o l : Nat} {ts : List Token} (h : Laid o l ts []) : ts = [] := by
  cases ts with
  | nil => rfl
  | cons t ts =>
    have htext := h.textOf_eq
    rw [textOf, List.flatMap_cons, List.append_eq_nil_iff, String.toList_eq_nil_iff] at htext
    exact absurd htext.1 (h.text_ne_empty t (List.mem_cons_self ..))

namespace Lexer

open Lexeme

variable {ctx : Context} {line : Nat} {c : Char} {s : List Char} {k : Chunk} {ts us : List Token}

/-! ## Kinds of markup -/

def isMarkup (kind : Kind) : Bool :=
  [Kind.inlineHtml, .openTag, .openTagWithEcho, .closeTag].contains kind

theorem isMarkup_operatorKinds : ∀ kind ∈ operatorKinds, isMarkup kind = false := by decide

structure Chunk.Plain (k : Chunk) : Prop where
  mode : k.mode = .php
  kinds : ∀ l ∈ k.lexemes, isMarkup l.1 = false

theorem Chunk.plain_one {kind : Kind} {n : Nat} (h : isMarkup kind = false) :
    (Chunk.one kind n).Plain :=
  ⟨rfl, by simpa [Chunk.one] using h⟩

theorem phpChunk_plain (h : phpChunk ctx line c (c :: s) = .ok k) :
    (∃ n, k = ⟨[(.closeTag, n)], .html⟩) ∨ k.Plain := by
  have hselects := phpChunk_selects ctx line c s
  rw [h] at hselects
  cases hselects with
  | blank => exact .inr (Chunk.plain_one rfl)
  | closeTag => exact .inl ⟨_, rfl⟩
  | attributeOpen => exact .inr (Chunk.plain_one rfl)
  | lineComment => exact .inr (Chunk.plain_one rfl)
  | blockComment h =>
    obtain ⟨n, -, rfl⟩ := eq_of_blockComment h
    refine .inr (Chunk.plain_one ?_)
    rcases blockCommentKind_cases _ with hkind | hkind <;> rw [hkind] <;> rfl
  | quotation _ h =>
    obtain ⟨n, -, rfl⟩ := eq_of_quotation h
    exact .inr (Chunk.plain_one rfl)
  | heredoc _ h =>
    have hall : ∀ kind ∈ heredocKinds, isMarkup kind = false := by decide
    obtain ⟨hmode, hkinds⟩ := kinds_of_heredoc h
    exact .inr ⟨hmode, fun l hl => hall _ (hkinds l hl)⟩
  | dollar =>
    unfold dollar
    split <;> exact .inr (Chunk.plain_one rfl)
  | number =>
    unfold number numberKind
    split <;> exact .inr (Chunk.plain_one rfl)
  | name =>
    unfold name
    split
    · exact .inr (Chunk.plain_one rfl)
    · exact .inr (Chunk.plain_one (nameKind_of (by decide) (by decide) _ _ _))
  | punctuation _ h =>
    obtain ⟨kind, n, hop, rfl⟩ := eq_of_punctuation h
    exact .inr (Chunk.plain_one (isMarkup_operatorKinds _ (operator?_mem hop)))

/-! ## Token lists by mode -/

def IsHtml (ts : List Token) : Prop := ts = [] ∨ ∃ t, ts = [t] ∧ t.kind = .inlineHtml

/-- The tokens of a source from some place on, by the mode there. -/
inductive Spelt : Mode → List Token → Prop
  | done : Spelt .php []
  | html {ts : List Token} (hhtml : IsHtml ts) (hfree : TagFree (textOf ts) []) : Spelt .html ts
  | tag {html ts : List Token} {t : Token} (hhtml : IsHtml html)
      (htag : TagAt t.kind t.text.toList (textOf ts))
      (hfree : TagFree (textOf html) (textOf (t :: ts))) (h : Spelt .php ts) :
        Spelt .html (html ++ t :: ts)
  | code {ts : List Token} {t : Token} (hkind : isMarkup t.kind = false) (h : Spelt .php ts) :
      Spelt .php (t :: ts)
  | close {ts : List Token} {t : Token} (hkind : t.kind = .closeTag) (h : Spelt .html ts) :
      Spelt .php (t :: ts)

theorem Spelt.codes (hts : ∀ t ∈ ts, isMarkup t.kind = false) (h : Spelt .php us) :
    Spelt .php (ts ++ us) := by
  induction ts with
  | nil => exact h
  | cons t ts ih =>
    rw [List.forall_mem_cons] at hts
    exact .code hts.1 (ih hts.2)

inductive HtmlChunk : List Char → Chunk → Prop
  | rest {s : List Char} (hfree : TagFree s []) : HtmlChunk s ⟨[(.inlineHtml, s.length)], .html⟩
  | tag {kind : Kind} {tag after : List Char} (htag : TagAt kind tag after) :
      HtmlChunk (tag ++ after) ⟨[(kind, tag.length)], .php⟩
  | htmlTag {kind : Kind} {html tag after : List Char} (htag : TagAt kind tag after)
      (hfree : TagFree html (tag ++ after)) :
      HtmlChunk (html ++ (tag ++ after)) ⟨[(.inlineHtml, html.length), (kind, tag.length)], .php⟩

theorem htmlChunk_reads (s : List Char) : HtmlChunk s (htmlChunk s) := by
  unfold htmlChunk
  split
  · rename_i hfind
    rw [findOpenTag_none hfind]
    exact .rest (findOpenTag_tagFree hfind)
  · rename_i found hfind
    obtain ⟨html, tag, after, rfl, hempty, hlength, htag, -⟩ := findOpenTag_first hfind
    obtain rfl := List.length_eq_zero_iff.mp hempty
    rw [show found = (found.1, tag.length) from Prod.ext rfl hlength.symm]
    exact .tag htag
  · rename_i found _ hfind
    obtain ⟨html, tag, after, rfl, rfl, hlength, htag, hfree⟩ := findOpenTag_first hfind
    rw [show found = (found.1, tag.length) from Prod.ext rfl hlength.symm]
    exact .htmlTag htag hfree

theorem toList_token (st : State) (kind : Kind) (a b : List Char) :
    (st.token kind a.length (a ++ b)).text.toList = a := by
  rw [State.token, String.toList_ofList, List.take_left]

theorem htmlChunk_spelt {st : State} {o l : Nat} (hchunk : HtmlChunk s k)
    (hrest : Laid o l us (s.drop k.size)) (h : Spelt k.mode us) :
    Spelt .html ((st.cut k.lexemes s).1 ++ us) := by
  cases hchunk with
  | rest hfree =>
    rw [show Chunk.size ⟨[(.inlineHtml, s.length)], .html⟩ = s.length from rfl,
      List.drop_length] at hrest
    rw [hrest.eq_nil, List.append_nil]
    refine .html (.inr ⟨_, rfl, rfl⟩) ?_
    simpa [State.cut, State.token, textOf] using hfree
  | @tag kind tag after htag =>
    rw [show Chunk.size ⟨[(kind, tag.length)], .php⟩ = tag.length from rfl, List.drop_left] at hrest
    change Spelt .html ([] ++ st.token kind tag.length (tag ++ after) :: us)
    refine .tag (.inl rfl) ?_ (tagFree_nil _) h
    rw [toList_token, hrest.textOf_eq]
    exact htag
  | @htmlTag kind html tag after htag hfree =>
    have hsize : (html ++ (tag ++ after)).drop
        (Chunk.size ⟨[(.inlineHtml, html.length), (kind, tag.length)], .php⟩) =
        after := by
      rw [show Chunk.size _ = html.length + tag.length from rfl, ← List.drop_drop, List.drop_left,
        List.drop_left]
    rw [hsize] at hrest
    simp only [State.cut, List.drop_left, List.cons_append, List.nil_append]
    change Spelt .html ([_] ++ _ :: us)
    refine .tag (.inr ⟨_, rfl, rfl⟩) ?_ ?_ h
    · rw [toList_token, hrest.textOf_eq]
      exact htag
    · simp only [textOf, List.flatMap_cons, List.flatMap_nil, List.append_nil, toList_token]
      rw [← textOf, hrest.textOf_eq]
      exact hfree

theorem tokensFrom_spelt {st : State} (h : tokensFrom st s = .ok ts) : Spelt st.mode ts := by
  fun_induction tokensFrom st s generalizing ts with
  | case1 st =>
    cases h
    cases st.mode with
    | html => exact .html (.inl rfl) (tagFree_nil _)
    | php => exact .done
  | case2 => cases h
  | case3 => cases h
  | case4 st c s k hk us st' hcut vs hvs ih =>
    cases h
    have hrest := ih hvs
    have hlaid := tokensFrom_laid hvs
    rw [← List.drop_succ_cons (a := c), Nat.sub_add_cancel (chunk_fits hk).size_pos] at hlaid
    have hus : us = (st.cut k.lexemes (c :: s)).1 := by rw [hcut]
    cases hmode : st.mode with
    | html =>
      rw [State.chunk, hmode] at hk
      cases hk
      rw [hus]
      exact htmlChunk_spelt (htmlChunk_reads _) hlaid hrest
    | php =>
      rw [State.chunk, hmode] at hk
      rcases phpChunk_plain hk with ⟨n, rfl⟩ | hplain
      · rw [hus]
        exact .close rfl hrest
      · rw [hplain.mode] at hrest
        refine Spelt.codes (fun t ht => ?_) hrest
        have hkind : t.kind ∈ k.lexemes.map (·.1) := by
          rw [← st.kinds_cut k.lexemes (c :: s), ← hus]
          exact List.mem_map_of_mem ht
        obtain ⟨l, hl, hkind⟩ := List.mem_map.mp hkind
        rw [← hkind]
        exact hplain.kinds l hl

/-! ## What the tokens of a source are -/

/-- A segment up to its close tag: text outside PHP, if there is any, an open tag and tokens of
code. -/
def Opened (ts : List Token) : Prop :=
  ∃ html tag code, ts = html ++ tag :: code ∧ IsHtml html ∧
  (tag.kind = .openTag ∨ tag.kind = .openTagWithEcho) ∧
    ∀ t ∈ code, isMarkup t.kind = false

def Closed (ts : List Token) : Prop :=
  ∃ body close, ts = body ++ [close] ∧ Opened body ∧ close.kind = .closeTag

/-- Whole segments, and a last one without close tag or with text outside PHP alone. -/
def Segmented (ts : List Token) : Prop :=
  ∃ (segments : List (List Token)) (last : List Token), ts = segments.flatten ++ last ∧
    (∀ segment ∈ segments, Closed segment) ∧ (IsHtml last ∨ Opened last)

/-- What follows the place where a region outside PHP starts: text up to the first open tag and that
tag, or text to the end of the source, and no tag in it. -/
inductive Region : List Token → Prop
  | tag {html after : List Token} {t : Token} (hhtml : IsHtml html)
      (htag : TagAt t.kind t.text.toList (textOf after))
      (hfree : TagFree (textOf html) (textOf (t :: after))) : Region (html ++ t :: after)
  | rest {html : List Token} (hhtml : IsHtml html) (hfree : TagFree (textOf html) []) : Region html

variable {mode : Mode} {t : Token} {opened before rest : List Token}

theorem kind_of_tagAt {kind : Kind} {tag after : List Char} (h : TagAt kind tag after) :
    kind = .openTag ∨ kind = .openTagWithEcho := by
  cases h with
  | echo => exact .inr rfl
  | php => exact .inl rfl

theorem Opened.concat (h : Opened ts) (ht : isMarkup t.kind = false) : Opened (ts ++ [t]) := by
  obtain ⟨html, tag, code, rfl, hhtml, htag, hcode⟩ := h
  refine ⟨html, tag, code ++ [t], by simp, hhtml, htag, ?_⟩
  rw [List.forall_mem_append, List.forall_mem_singleton]
  exact ⟨hcode, ht⟩

theorem Spelt.segmented (h : Spelt mode ts) (hphp : mode = .php → Opened opened)
    (hhtml : mode = .html → opened = []) :
    Segmented (opened ++ ts) := by
  -- in PHP the tokens go on with the segment that was opened before them
  induction h generalizing opened with
  | done => exact ⟨[], opened, by simp, by simp, .inr (hphp rfl)⟩
  | html h => exact ⟨[], _, by simp [hhtml rfl], by simp, .inl h⟩
  | @tag html ts t hhtml' htag _ _ ih =>
    have hopened : Opened (html ++ [t]) := ⟨html, t, [], rfl, hhtml', kind_of_tagAt htag, by simp⟩
    have hts := ih (fun _ => hopened) (by simp)
    rw [hhtml rfl, List.nil_append]
    simpa using hts
  | @code ts t hkind _ ih =>
    have hts := ih (fun _ => (hphp rfl).concat hkind) (by simp)
    simpa using hts
  | @close ts t hkind _ ih =>
    obtain ⟨segments, last, hts, hsegments, hlast⟩ := ih (by simp) (fun _ => rfl)
    refine ⟨(opened ++ [t]) :: segments, last, ?_, ?_, hlast⟩
    · rw [List.nil_append] at hts
      simp [hts]
    · rw [List.forall_mem_cons]
      exact ⟨⟨opened, t, rfl, hphp rfl, hkind⟩, hsegments⟩

theorem Spelt.not_adjacent (h : Spelt mode ts) :
    ¬ [Kind.inlineHtml, .inlineHtml] <:+: ts.map (·.kind) := by
  have hcons : ∀ {kind : Kind} {kinds : List Kind}, kind ≠ .inlineHtml →
      ¬ [Kind.inlineHtml, .inlineHtml] <:+: kinds →
        ¬ [Kind.inlineHtml, .inlineHtml] <:+: kind :: kinds := by
    intro kind kinds hne hkinds h
    rcases List.infix_cons_iff.mp h with h | h
    · exact hne (List.cons_prefix_cons.mp h).1.symm
    · exact hkinds h
  induction h with
  | done => simp
  | html hhtml =>
    rcases hhtml with rfl | ⟨t, rfl, -⟩
    · simp
    · intro h
      simpa using h.length_le
  | @tag html ts t hhtml htag _ _ ih =>
    have hne : t.kind ≠ .inlineHtml := by rcases kind_of_tagAt htag with h | h <;> simp [h]
    rcases hhtml with rfl | ⟨u, rfl, -⟩
    · exact hcons hne ih
    · intro h
      rcases List.infix_cons_iff.mp h with h | h
      · exact hne (List.cons_prefix_cons.mp (List.cons_prefix_cons.mp h).2).1.symm
      · exact hcons hne ih h
  | code hkind _ ih =>
    refine hcons (fun h => ?_) ih
    rw [show isMarkup _ = true from congrArg isMarkup h] at hkind
    cases hkind
  | close hkind _ ih => exact hcons (by simp [hkind]) ih

theorem Spelt.region (h : Spelt .html ts) : Region ts := by
  cases h with
  | html hhtml hfree => exact .rest hhtml hfree
  | tag hhtml htag hfree => exact .tag hhtml htag hfree

theorem tail_of_ne_closeTag {u : Token} (hu : u.kind ≠ .closeTag) (ht : t.kind = .closeTag)
    (hts : u :: ts = before ++ t :: rest) : ∃ before', ts = before' ++ t :: rest := by
  cases before with
  | nil =>
    obtain ⟨rfl, -⟩ := List.cons.inj hts
    exact absurd ht hu
  | cons v before => exact ⟨before, (List.cons.inj hts).2⟩

theorem Spelt.after_close (h : Spelt mode ts) (ht : t.kind = .closeTag)
    (hts : ts = before ++ t :: rest) :
    Spelt .html rest := by
  -- the tokens that are no close tag are taken off one by one
  have hhtml : ∀ {html us before : List Token}, IsHtml html → html ++ us = before ++ t :: rest →
      ∃ before', us = before' ++ t :: rest := by
    rintro html us before (rfl | ⟨u, rfl, hu⟩) heq
    · exact ⟨before, heq⟩
    · exact tail_of_ne_closeTag (by simp [hu]) ht heq
  induction h generalizing before with
  | done => simp at hts
  | @html ts h =>
    obtain ⟨_, heq⟩ := hhtml h (by rw [List.append_nil]; exact hts)
    simp at heq
  | @tag html ts u h htag _ _ ih =>
    obtain ⟨_, heq⟩ := hhtml h hts
    have hu : u.kind ≠ .closeTag := by rcases kind_of_tagAt htag with hu | hu <;> simp [hu]
    obtain ⟨_, heq⟩ := tail_of_ne_closeTag hu ht heq
    exact ih heq
  | @code ts u hkind h ih =>
    have hu : u.kind ≠ .closeTag := by
      intro hu
      rw [hu] at hkind
      cases hkind
    obtain ⟨_, heq⟩ := tail_of_ne_closeTag hu ht hts
    exact ih heq
  | @close ts u hkind h ih =>
    cases before with
    | nil =>
      obtain ⟨-, rfl⟩ := List.cons.inj hts
      exact h
    | cons v before => exact ih (List.cons.inj hts).2

end Lexer

/-- The tokens of a source are segments one after another: text outside PHP, if there is any, an
open tag, tokens of code and a close tag. The last one may lack its close tag or have text outside
PHP alone. Two tokens of such text are never neighbours. From the start of the source, and behind
each close tag, such text runs up to the first open tag in the source, or to its end if there is
none. -/
theorem tokenize_takes_turns {source : String} {ts : List Token} (h : tokenize source = .ok ts) :
    textOf ts = source.toList ∧ Lexer.Segmented ts ∧
      ¬ [Kind.inlineHtml, .inlineHtml] <:+: ts.map (·.kind) ∧
    Lexer.Region ts ∧ ∀ before t rest, ts = before ++ t :: rest → t.kind = .closeTag →
      Lexer.Region rest := by
  have hspelt : Lexer.Spelt .html ts := Lexer.tokensFrom_spelt h
  refine ⟨(tokenize_laid h).textOf_eq, ?_, hspelt.not_adjacent, hspelt.region,
    fun before t rest hts ht => ?_⟩
  · have hnil : Lexer.Segmented ([] ++ ts) := hspelt.segmented (by simp) (fun _ => rfl)
    exact hnil
  · exact (hspelt.after_close ht hts).region

theorem tokenize_takes_turns_sample :
    ∃ first second : List Token,
      tokenize "<?xml <?phpé <?PHP\r\n\n?>\nb<?=1" = .ok (first ++ second) ∧
      first.map (·.kind) = [.inlineHtml, .openTag, .whitespace, .closeTag] ∧
      second.map (·.kind) = [.inlineHtml, .openTagWithEcho, .lnumber] ∧
      Lexer.Segmented (first ++ second) ∧ Lexer.Region (first ++ second) ∧ Lexer.Region second := by
  have h : tokenize "<?xml <?phpé <?PHP\r\n\n?>\nb<?=1" = .ok
      ([⟨.inlineHtml, "<?xml <?phpé ", 0, 1⟩, ⟨.openTag, "<?PHP\r\n", 14, 1⟩,
        ⟨.whitespace, "\n", 21, 2⟩, ⟨.closeTag, "?>\n", 22, 3⟩] ++
       [⟨.inlineHtml, "b", 25, 4⟩, ⟨.openTagWithEcho, "<?=", 26, 4⟩, ⟨.lnumber, "1", 29, 4⟩]) := by
         cbv
  obtain ⟨-, hsegments, -, hfirst, hregion⟩ := tokenize_takes_turns h
  exact ⟨_, _, h, rfl, rfl, hsegments, hfirst, hregion [_, _, _] _ _ rfl rfl⟩

end PhpOutline
