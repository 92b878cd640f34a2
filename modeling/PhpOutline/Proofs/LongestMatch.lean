import PhpOutline.Proofs.LongestNumbers
import PhpOutline.Proofs.ScanSteps

/-!
# The longest match

Where no blank, tag, attribute, comment, quotation or heredoc starts, the first characters tell the
class of the next lexeme. The token taken there is the longest one of its class
(`token_is_longest_match`).
-/

namespace PhpOutline

open Lexeme

namespace Lexeme

inductive LexemeClass
  | name | variableName | number | punctuation
deriving DecidableEq

def LexemeClass.Form : LexemeClass → List Char → Prop
  | .name => NameForm
  | .variableName => VariableForm
  | .number => NumberForm
  | .punctuation => OperatorForm

end Lexeme

namespace Lexer

variable {ctx : Context} {line : Nat} {c : Char} {s r : List Char} {st st' : State}
  {ts : List Token} {t : Token}

/-- A text that starts with one of these classes: with no blank, tag, attribute, comment, quotation
or heredoc. -/
structure StartsClass (c : Char) (s : List Char) : Prop where
  blank : isBlankChar c = false
  quote : isQuote c = false
  hash : c ≠ '#'
  closeTag : ¬ ['?', '>'] <+: c :: s
  lineComment : ¬ ['/', '/'] <+: c :: s
  blockComment : ¬ ['/', '*'] <+: c :: s
  heredoc : ∀ l head body, IsLabel l → Heads l head → c :: s ≠ head ++ body

/-- The class of the lexeme that such a text starts with. -/
def classAt (c : Char) (s : List Char) : LexemeClass :=
  if c = '$' then .variableName
  else if c.isDigit ∨ (c = '.' ∧ s.head?.any Char.isDigit) then .number
  else if c = '\\' ∨ isIdentStart c then .name
  else .punctuation

theorem startsNumber_iff :
    startsNumber c (c :: s) = true ↔ c.isDigit = true ∨
      (c = '.' ∧ s.head?.any Char.isDigit = true) := by
  simp [startsNumber]

theorem starts_of_classAt (c : Char) (s : List Char) :
    (classAt c s = .name → c = '\\' ∨ isIdentStart c = true) ∧
      (classAt c s = .variableName → c = '$') ∧
      (classAt c s = .number → startsNumber c (c :: s) = true) := by
  unfold classAt
  simp only [startsNumber_iff]
  repeat' split
  all_goals simp_all

theorem phpChunk_of_startsClass (h : StartsClass c s) :
    phpChunk ctx line c (c :: s) =
      match classAt c s with
      | .name => .ok (name ctx (c :: s))
      | .variableName => .ok (dollar (c :: s))
      | .number => .ok (number (c :: s))
      | .punctuation => punctuation line c (c :: s) := by
  have hstart : ∀ {p}, ¬ p <+: c :: s → ¬ p.isPrefixOf (c :: s) = true := by
    intro p hp
    rwa [List.isPrefixOf_iff_prefix]
  have hattr : ¬ ['#', '['].isPrefixOf (c :: s) = true := by
    apply hstart
    rintro ⟨r, hr⟩
    exact h.hash (List.cons.inj hr).1.symm
  have hline : ¬ (c = '#' ∨ ['/', '/'].isPrefixOf (c :: s) = true) :=
    not_or.mpr ⟨h.hash, hstart h.lineComment⟩
  have hheader : heredocHeader? (c :: s) = none := by
    rw [Option.eq_none_iff_forall_ne_some]
    intro header hheader
    obtain ⟨hl, head, body, heq, hhead, _⟩ := heredocHeader?_eq_some_iff.mp hheader
    exact h.heredoc _ head body hl hhead heq
  rw [phpChunk, if_neg (by simp [h.blank]), if_neg (hstart h.closeTag), if_neg hattr, if_neg hline,
    if_neg (hstart h.blockComment), if_neg (by simp [h.quote]), hheader, classAt]
  dsimp only
  simp only [startsNumber_iff]
  split
  · rfl
  split
  · rfl
  split
  · rfl
  · rfl

theorem longest_number (h : startsNumber c (c :: s) = true) :
    Longest NumberForm (c :: s) ((c :: s).take (numberLength (c :: s))) :=
  (measures_numberLength (c :: s)).longest (Nat.ne_of_gt (numberLength_pos_of_startsNumber h))

theorem chunk_longest (hmode : st.mode = .php) (h : StartsClass c s) :
    (∃ kind n, st.chunk c (c :: s) = .ok (.one kind n) ∧ Longest (classAt c s).Form (c :: s)
      ((c :: s).take n) ∧ (classAt c s = .number → kind = numberKind ((c :: s).take n))) ∨
    (classAt c s = .punctuation ∧ (∀ w, w <+: c :: s → ¬ OperatorForm w) ∧
      st.chunk c (c :: s) = .error (.unexpectedCharacter c st.line)) := by
  obtain ⟨hname, hdollar, hnumber⟩ := starts_of_classAt c s
  unfold State.chunk
  rw [hmode]
  dsimp only
  rw [phpChunk_of_startsClass h]
  cases hclass : classAt c s with
  | name =>
    left
    dsimp only [name]
    rcases longest_name (s := s) (hname hclass) with ⟨hne, hlongest, -⟩ | ⟨hzero, rfl, hlongest⟩
    · split
      · rename_i hzero
        exact absurd hzero hne
      · exact ⟨_, _, rfl, hlongest, nofun⟩
    · rw [hzero]
      exact ⟨_, 1, rfl, hlongest, nofun⟩
  | variableName =>
    obtain rfl := hdollar hclass
    left
    dsimp only [dollar]
    rcases longest_variable s with ⟨hne, hlongest⟩ | ⟨hzero, hlongest⟩
    · split
      · rename_i hzero
        exact absurd hzero hne
      · exact ⟨_, _, rfl, hlongest, nofun⟩
    · rw [hzero]
      exact ⟨_, 1, rfl, hlongest, nofun⟩
  | number => exact .inl ⟨_, _, rfl, longest_number (hnumber hclass), fun _ => rfl⟩
  | punctuation =>
    dsimp only [punctuation]
    cases hop : operator? (c :: s) with
    | none => exact .inr ⟨rfl, fun w hw => not_operatorForm hop hw, rfl⟩
    | some found => exact .inl ⟨found.1, found.2, rfl, longest_operator hop, nofun⟩

theorem Scans.number_token (h : Scans st s ts st' r) (ht : t ∈ ts)
    (hkind : t.kind = .dnumber ∨ t.kind = .lnumber) :
    NumberForm t.text.toList ∧ (t.kind = .dnumber ↔ IsFloat t.text.toList) := by
  have hx : Reader.of? t.kind = some .number := by
    rcases hkind with hkind | hkind <;> rw [hkind] <;> rfl
  obtain ⟨st₁, c, s₁, k, us, vs, ⟨hstarts, rfl⟩, hcut⟩ := h.takes ht hx
  obtain ⟨-, -, rfl⟩ := eq_of_cut_one hcut
  have hform := (longest_number hstarts).fits
  obtain ⟨hfloat, hinteger⟩ := numberKind_of hform
  rw [State.token, String.toList_ofList]
  refine ⟨hform, fun h => ?_, hfloat⟩
  by_contra hne
  cases h.symm.trans (hinteger hne)

end Lexer

/-- In PHP, where no blank, tag, attribute, comment, quotation or heredoc starts, the next token is
the longest text of its class that stands there, and there is none only where no punctuation stands
at all. A number is a float if and only if it has no mark and has a point or an exponent. -/
theorem token_is_longest_match :
    (∀ (st : Lexer.State) (c : Char) (s : List Char), st.mode = .php → Lexer.StartsClass c s →
      (∃ (t : Token) (st' : Lexer.State) (r : List Char),
        Longest (Lexer.classAt c s).Form (c :: s) t.text.toList ∧ t.text.toList ++ r = c :: s ∧
        Lexer.tokensFrom st (c :: s) = (Lexer.tokensFrom st' r).map (t :: ·) ∧
        (Lexer.classAt c s = .number →
          (t.kind = .dnumber ∧ IsFloat t.text.toList) ∨
          (t.kind = .lnumber ∧ ¬ IsFloat t.text.toList))) ∨
      (Lexer.classAt c s = .punctuation ∧ (∀ w, w <+: c :: s → ¬ OperatorForm w) ∧
        Lexer.tokensFrom st (c :: s) = .error (.unexpectedCharacter c st.line))) ∧
    ∀ (source : String) (ts : List Token), tokenize source = .ok ts → ∀ t ∈ ts,
      t.kind = .dnumber ∨ t.kind = .lnumber →
        NumberForm t.text.toList ∧ (t.kind = .dnumber ↔ IsFloat t.text.toList) := by
  refine ⟨fun st c s hmode hstarts => ?_, fun source ts h t ht hkind => ?_⟩
  · rcases Lexer.chunk_longest hmode hstarts with ⟨kind, n, hk, hlongest, hnumber⟩ |
      ⟨hclass, hnone, hk⟩
    · have hscans := Lexer.Scans.one hk
      have htext : (st.token kind n (c :: s)).text.toList = (c :: s).take n := String.toList_ofList
      refine .inl ⟨st.token kind n (c :: s), _, (c :: s).drop n, ?_, ?_, hscans.tokensFrom_eq,
        fun hclass => ?_⟩
      · rw [htext]
        exact hlongest
      · rw [htext]
        exact List.take_append_drop n (c :: s)
      · rw [htext]
        rw [hclass] at hlongest
        obtain ⟨hfloat, hinteger⟩ := numberKind_of hlongest.fits
        by_cases hpoint : IsFloat ((c :: s).take n)
        · exact .inl ⟨(hnumber hclass).trans (hfloat hpoint), hpoint⟩
        · exact .inr ⟨(hnumber hclass).trans (hinteger hpoint), hpoint⟩
    · refine .inr ⟨hclass, hnone, ?_⟩
      rw [Lexer.tokensFrom, hk]
  · obtain ⟨st, hscans⟩ := Lexer.scans_of_tokensFrom h
    exact hscans.number_token ht hkind

theorem token_is_longest_match_sample :
    (Lexer.StartsClass '1' "_0.e+3.x".toList ∧
      ∃ (t : Token) (r : List Char), Longest NumberForm "1_0.e+3.x".toList t.text.toList ∧
        t.text.toList ++ r = "1_0.e+3.x".toList) ∧
    (Lexer.StartsClass '?' "->x".toList ∧
      ∃ (t : Token) (r : List Char), Longest OperatorForm "?->x".toList t.text.toList ∧
        t.text.toList ++ r = "?->x".toList) ∧
    tokenize "<?=$a?->x<<=1" = .ok [⟨.openTagWithEcho, "<?=", 0, 1⟩, ⟨.variableName, "$a", 3, 1⟩,
      ⟨.objectOperator, "?->", 5, 1⟩, ⟨.string, "x", 8, 1⟩, ⟨.operator, "<<=", 9, 1⟩,
      ⟨.lnumber, "1", 12, 1⟩] ∧
    tokenize "<?php 1_0.e+3.0x1e" = .ok [⟨.openTag, "<?php ", 0, 1⟩, ⟨.dnumber, "1_0.e+3", 6, 1⟩,
      ⟨.dnumber, ".0", 13, 1⟩, ⟨.string, "x1e", 15, 1⟩] ∧
    tokenize "<?=0x1e" = .ok [⟨.openTagWithEcho, "<?=", 0, 1⟩, ⟨.lnumber, "0x1e", 3, 1⟩] ∧
    IsFloat "1_0.e+3".toList ∧ ¬ IsFloat "0x1e".toList := by
  obtain ⟨hmatch, hnumber⟩ := token_is_longest_match
  have hstarts : Lexer.StartsClass '1' "_0.e+3.x".toList := by
    refine ⟨by decide, by decide, by decide, by decide, by decide, by decide,
      fun l head body _ hhead heq => ?_⟩
    cases hhead
    simp at heq
  have hstarts' : Lexer.StartsClass '?' "->x".toList := by
    refine ⟨by decide, by decide, by decide, by decide, by decide, by decide,
      fun l head body _ hhead heq => ?_⟩
    cases hhead
    simp at heq
  have hfloat : tokenize "<?php 1_0.e+3.0x1e" =
      .ok [⟨.openTag, "<?php ", 0, 1⟩, ⟨.dnumber, "1_0.e+3", 6, 1⟩, ⟨.dnumber, ".0", 13, 1⟩,
        ⟨.string, "x1e", 15, 1⟩] := by
    decide +kernel
  have hhex : tokenize "<?=0x1e" = .ok [⟨.openTagWithEcho, "<?=", 0, 1⟩,
      ⟨.lnumber, "0x1e", 3, 1⟩] := by
    decide +kernel
  refine ⟨⟨hstarts, ?_⟩, ⟨hstarts', ?_⟩, by decide +kernel, hfloat, hhex, ?_, fun h => ?_⟩
  · rcases hmatch { mode := .php } '1' _ rfl hstarts with ⟨t, _, r, hlongest, htext, _, _⟩ |
      ⟨hclass, _, _⟩
    · exact ⟨t, r, hlongest, htext⟩
    · exact absurd hclass (by decide)
  · rcases hmatch { mode := .php } '?' _ rfl hstarts' with ⟨t, _, r, hlongest, htext, _, _⟩ |
      ⟨_, hnone, _⟩
    · exact ⟨t, r, hlongest, htext⟩
    · exact absurd (.operator (show "?->" ∈ operators by decide)) (hnone "?->".toList (by decide))
  · exact (hnumber _ _ hfloat ⟨.dnumber, "1_0.e+3", 6, 1⟩ (by simp) (.inl rfl)).2.mp rfl
  · have := (hnumber _ _ hhex ⟨.lnumber, "0x1e", 3, 1⟩ (by simp) (.inr rfl)).2.mpr h
    cases this

end PhpOutline
