import PhpOutline.Lexer
import PhpOutline.Proofs.ListFacts

/-!
# Which reader takes a text

In PHP the first characters of a text select the reader that takes the next chunk. `Selects` says
what each choice means, and with it what is read or how reading fails (`phpChunk_selects`). No other
proof goes through the tests in their order.
-/

namespace PhpOutline

namespace Lexer

open Lexeme

structure StartsPunctuation (c : Char) : Prop where
  blank : isBlankChar c = false
  quote : isQuote c = false
  hash : c ≠ '#'
  dollar : c ≠ '$'
  digit : c.isDigit = false
  separator : c ≠ '\\'
  ident : isIdentStart c = false

/-- The readers in PHP: where `c` and then `s` is the text, one of them gives the result. -/
inductive Selects (ctx : Context) (line : Nat) : Char → List Char → Except LexError Chunk → Prop
  | blank {c : Char} {s : List Char} (h : isBlankChar c = true) :
      Selects ctx line c s (.ok (.one .whitespace ((c :: s).takeWhile isBlankChar).length))
  | closeTag {s : List Char} :
      Selects ctx line '?' ('>' :: s) (.ok ⟨[(.closeTag, closeTagLength ('?' :: '>' :: s))], .html⟩)
  | attributeOpen {s : List Char} : Selects ctx line '#' ('[' :: s) (.ok (.one .attributeOpen 2))
  | lineComment {c : Char} {s : List Char} (h : (c = '#' ∧ s.head? ≠ some '[') ∨
      (c = '/' ∧ s.head? = some '/')) :
      Selects ctx line c s (.ok (.one .comment (lineCommentLength (c :: s))))
  | blockComment {s : List Char} {r : Except LexError Chunk}
      (h : blockComment line ('/' :: '*' :: s) = r) :
      Selects ctx line '/' ('*' :: s) r
  | quotation {c : Char} {s : List Char} {r : Except LexError Chunk} (hc : isQuote c = true)
      (h : quotation line c (c :: s) = r) : Selects ctx line c s r
  | heredoc {s : List Char} {header : HeredocHeader} {r : Except LexError Chunk}
      (hh : heredocHeader? ('<' :: s) = some header) (h : heredoc line header ('<' :: s) = r) :
      Selects ctx line '<' s r
  | dollar {s : List Char} : Selects ctx line '$' s (.ok (dollar ('$' :: s)))
  | number {c : Char} {s : List Char} (h : startsNumber c (c :: s) = true) :
      Selects ctx line c s (.ok (number (c :: s)))
  | name {c : Char} {s : List Char} (h : c = '\\' ∨ isIdentStart c = true) :
      Selects ctx line c s (.ok (name ctx (c :: s)))
  | punctuation {c : Char} {s : List Char} {r : Except LexError Chunk} (hc : StartsPunctuation c)
      (h : punctuation line c (c :: s) = r) : Selects ctx line c s r

theorem phpChunk_selects (ctx : Context) (line : Nat) (c : Char) (s : List Char) :
    Selects ctx line c s (phpChunk ctx line c (c :: s)) := by
  unfold phpChunk
  split
  · rename_i hblank
    exact .blank hblank
  split
  · rename_i htag
    obtain ⟨rfl, r, rfl⟩ := cons_cons_of_isPrefixOf htag
    exact .closeTag
  split
  · rename_i hattr
    obtain ⟨rfl, r, rfl⟩ := cons_cons_of_isPrefixOf hattr
    exact .attributeOpen
  rename_i hattr
  split
  · rename_i hline
    refine .lineComment ?_
    rcases hline with rfl | hslash
    · refine .inl ⟨rfl, fun hs => hattr ?_⟩
      obtain ⟨r, rfl⟩ := List.head?_eq_some_iff.mp hs
      simp
    · obtain ⟨rfl, r, rfl⟩ := cons_cons_of_isPrefixOf hslash
      exact .inr ⟨rfl, rfl⟩
  rename_i hline
  split
  · rename_i hblock
    obtain ⟨rfl, r, rfl⟩ := cons_cons_of_isPrefixOf hblock
    exact .blockComment rfl
  split
  · rename_i hquote
    exact .quotation hquote rfl
  split
  · rename_i header hheader
    have hlt : c = '<' := by
      unfold heredocHeader? at hheader
      split at hheader
      · rename_i hstarts
        exact (cons_of_isPrefixOf hstarts).1
      · cases hheader
    subst hlt
    exact .heredoc hheader rfl
  split
  · rename_i hdollar
    subst hdollar
    exact .dollar
  split
  · rename_i hnumber
    exact .number hnumber
  rename_i hnumber
  split
  · rename_i hname
    exact .name hname
  · rename_i hblank _ _ hquote _ _ hdollar hname
    refine .punctuation ⟨?_, ?_, ?_, hdollar, ?_, ?_, ?_⟩ rfl
    · simpa using hblank
    · simpa using hquote
    · exact fun hc => hline (.inl hc)
    · simp only [startsNumber, Bool.or_eq_true, not_or] at hnumber
      simpa using hnumber.1
    · exact fun hc => hname (.inl hc)
    · simpa using fun hc => hname (.inr hc)

/-! ## The chunks of the readers that can fail -/

variable {line : Nat} {c : Char} {s : List Char} {k : Chunk}

theorem eq_of_blockComment (h : blockComment line s = .ok k) :
    ∃ n, blockCommentLength? s = some n ∧ k = .one (blockCommentKind s) n := by
  unfold blockComment at h
  split at h
  · cases h
  · rename_i n hn
    cases h
    exact ⟨n, hn, rfl⟩

theorem eq_of_quotation (h : quotation line c s = .ok k) :
    ∃ n, closingLength? c (s.drop 1) = some n ∧ k = .one .constantEncapsedString (1 + n) := by
  unfold quotation at h
  split at h
  · cases h
  · rename_i n hn
    cases h
    exact ⟨n, hn, rfl⟩

theorem eq_of_punctuation (h : punctuation line c s = .ok k) :
    ∃ kind n, operator? s = some (kind, n) ∧ k = .one kind n := by
  unfold punctuation at h
  split at h
  · cases h
  · rename_i kind n hn
    cases h
    exact ⟨kind, n, hn, rfl⟩

def heredocKinds : List Kind := [.startHeredoc, .encapsedAndWhitespace, .endHeredoc]

theorem kinds_of_heredoc {header : HeredocHeader} (h : heredoc line header s = .ok k) :
    k.mode = .php ∧ ∀ l ∈ k.lexemes, l.1 ∈ heredocKinds := by
  unfold heredoc at h
  split at h
  · cases h
  · cases h
    exact ⟨rfl, by simp [heredocKinds]⟩
  · cases h
    exact ⟨rfl, by simp [heredocKinds]⟩

end Lexer

end PhpOutline
