import PhpOutline.Proofs.DeclarationListings
import PhpOutline.Proofs.ImportNames
import PhpOutline.Proofs.ValueListings
import PhpOutline.Proofs.WordKinds

/-!
# Identifiers

For the lexer any character past ASCII is part of an identifier. An alias and the name of a constant
have to be identifiers of letters and digits as Unicode has them (`isLettered`). Keywords are so, as
they are ASCII. Any other word is taken as an alias or as a name if and only if it is made of such
characters.
-/

namespace PhpOutline

open Lexeme

/-- The kinds of tokens that are a single identifier. -/
def wordKinds : List Kind := [.string, .enumKw, .keyword] ++ keywords.map (·.2)

/-- The characters past ASCII in a word are letters and, behind the first, numerals. -/
def isLettered : List Char → Bool
  | [] => false
  | c :: s => (c.toNat < 128 || Text.isAlphabetic c) && s.all fun d =>
      d.toNat < 128 || Text.isAlphanumeric d

variable {w : List Char} {c : Char}

/-! ## Characters -/

theorem isAlphabetic_of_ascii (h : c.toNat < 128) : Text.isAlphabetic c = c.isAlpha := by
  rw [Text.isAlphabetic, if_pos h]

theorem isAlphanumeric_of_ascii (h : c.toNat < 128) :
    Text.isAlphanumeric c = (c.isAlpha || c.isDigit) := by
  rw [Text.isAlphanumeric, isAlphabetic_of_ascii h, Text.isNumeric, if_pos h]

theorem startsIdentifier_iff (h : isIdentStart c = true) :
    (c == '_' || Text.isAlphabetic c) = (decide (c.toNat < 128) || Text.isAlphabetic c) := by
  by_cases hc : c.toNat < 128
  · have hnot : ¬ 128 ≤ c.toNat := by omega
    rw [isIdentStart, decide_eq_false hnot, Bool.or_false, Bool.or_comm] at h
    rw [isAlphabetic_of_ascii hc, h, decide_eq_true hc, Bool.true_or]
  · have hne : c ≠ '_' := by
      rintro rfl
      exact hc (by decide)
    rw [decide_eq_false hc, beq_false_of_ne hne]

theorem continuesIdentifier_iff (h : isIdentRest c = true) :
    (c == '_' || Text.isAlphanumeric c) = (decide (c.toNat < 128) || Text.isAlphanumeric c) := by
  by_cases hc : c.toNat < 128
  · have hnot : ¬ 128 ≤ c.toNat := by omega
    rw [isIdentRest, isIdentStart, decide_eq_false hnot, Bool.or_false] at h
    have hword : (c == '_' || (c.isAlpha || c.isDigit)) = true := by
      rw [← h, Bool.or_left_comm, Bool.or_assoc]
    rw [isAlphanumeric_of_ascii hc, hword, decide_eq_true hc, Bool.true_or]
  · have hne : c ≠ '_' := by
      rintro rfl
      exact hc (by decide)
    rw [decide_eq_false hc, beq_false_of_ne hne]

theorem Lexeme.IsIdent.isIdentifier_eq (h : IsIdent w) :
    Text.isIdentifier (.ofList w) = isLettered w := by
  obtain ⟨c, r, rfl, hc, hr⟩ := h
  rw [Text.isIdentifier, String.toList_ofList]
  dsimp only
  rw [startsIdentifier_iff hc, isLettered]
  congr 1
  rw [Bool.eq_iff_iff, List.all_eq_true, List.all_eq_true]
  refine forall₂_congr fun d hd => ?_
  rw [continuesIdentifier_iff (hr d hd)]

theorem isIdent_of_isIdentifier {s : String} (h : Text.isIdentifier s = true) :
    IsIdent s.toList := by
  have halpha : ∀ {c}, Text.isAlphabetic c = true → isIdentStart c = true := by
    intro c hc
    rcases Nat.lt_or_ge c.toNat 128 with hlt | hge
    · rw [isAlphabetic_of_ascii hlt] at hc
      simp [isIdentStart, hc]
    · simp [isIdentStart, hge]
  have hnumeric : ∀ {c}, Text.isAlphanumeric c = true → isIdentRest c = true := by
    intro c hc
    rcases Nat.lt_or_ge c.toNat 128 with hlt | hge
    · rw [isAlphanumeric_of_ascii hlt, Bool.or_eq_true] at hc
      rcases hc with hc | hc <;> simp [isIdentRest, isIdentStart, hc]
    · simp [isIdentRest, isIdentStart, hge]
  unfold Text.isIdentifier at h
  split at h
  · cases h
  · rename_i c r hs
    rw [Bool.and_eq_true, Bool.or_eq_true, beq_iff_eq, List.all_eq_true] at h
    refine ⟨c, r, hs, ?_, fun d hd => ?_⟩
    · rcases h.1 with rfl | hc
      · rfl
      · exact halpha hc
    · rcases (Bool.or_eq_true _ _).mp (h.2 d hd) with hd | hd
      · rw [beq_iff_eq.mp hd]
        rfl
      · exact hnumeric hd

theorem isLettered_of_ascii (hne : w ≠ []) (h : ∀ d ∈ w, d.toNat < 128) : isLettered w = true := by
  cases w with
  | nil => exact absurd rfl hne
  | cons c r =>
    rw [List.forall_mem_cons] at h
    rw [isLettered, decide_eq_true h.1, Bool.true_or, Bool.true_and, List.all_eq_true]
    intro d hd
    rw [decide_eq_true (h.2 d hd), Bool.true_or]

/-! ## Words of a source -/

theorem Lexeme.IsName.isIdent (h : IsName w) (hsep : '\\' ∉ w) : IsIdent w := by
  cases h with
  | path h =>
    cases h with
    | one h => exact h
    | more => simp at hsep
  | full => simp at hsep

theorem separator_not_mem_of_nameKind {ctx : Context} {after : List Char}
    (h : nameKind ctx w after ∈ wordKinds) :
    '\\' ∉ w ∧ nameKind ctx w after = wordKind ctx w after := by
  unfold nameKind at h ⊢
  split at h
  · exact absurd h (by decide)
  · rename_i hlead
    split at h
    · split at h
      · exact absurd h (by decide)
      · exact absurd h (by decide)
    · rename_i hsep
      rw [if_neg hlead, if_neg hsep]
      exact ⟨by simpa using hsep, rfl⟩

theorem ascii_of_wordKind {ctx : Context} {after : List Char} (h : wordKind ctx w after ≠ .string) :
    ∀ d ∈ w, d.toNat < 128 := by
  -- a keyword is ASCII whatever the case of its letters, as only ASCII letters have a lower case
  -- here
  have hascii : ("enum" :: (keywords.map (·.1) ++ reserved)).all (·.toList.all (·.toNat < 128)) =
      true := by
    decide +kernel
  simp only [List.all_eq_true, decide_eq_true_eq] at hascii
  have hword : String.ofList (w.map Char.toLower) ∈ "enum" :: (keywords.map (·.1) ++ reserved) := by
    unfold wordKind keywordKind at h
    dsimp only at h
    split at h
    · exact absurd rfl h
    · split at h
      · rename_i henum
        simp [henum]
      · split at h
        · rename_i k hlookup
          have hmem := mem_keywords_of_lookup hlookup
          exact List.mem_cons_of_mem _ (List.mem_append_left _ (List.mem_map.mpr ⟨_, hmem, rfl⟩))
        · split at h
          · rename_i hreserved
            exact List.mem_cons_of_mem _ (List.mem_append_right _
              (List.contains_iff_mem.mp hreserved))
          · exact absurd rfl h
  intro d hd
  by_contra hpast
  have hmem : d ∈ (String.ofList (w.map Char.toLower)).toList := by
    rw [String.toList_ofList]
    exact List.mem_map.mpr ⟨d, hd, toLower_of_past_ascii (not_lt.mp hpast)⟩
  exact hpast (hascii _ hword d hmem)

theorem isIdent_of_tokenize {source : String} {ts : List Token} {t : Token}
    (h : tokenize source = .ok ts) (ht : t ∈ ts) (hk : t.kind ∈ wordKinds) :
    IsIdent t.text.toList ∧ (t.kind ≠ .string → isLettered t.text.toList = true) := by
  have hreader : ∀ k ∈ wordKinds, Lexer.Reader.of? k = some .name := by decide
  rcases name_of_tokenize h ht (hreader _ hk) with ⟨hname, ctx, after, hkind⟩ | ⟨hkind, _⟩
  · rw [hkind] at hk ⊢
    obtain ⟨hsep, hword⟩ := separator_not_mem_of_nameKind hk
    have hident := hname.isIdent hsep
    rw [hword]
    exact ⟨hident, fun hne => isLettered_of_ascii hident.ne_nil (ascii_of_wordKind hne)⟩
  · rw [hkind] at hk
    exact absurd hk (by decide)

theorem keywordKind_mem (word : String) (after : List Char) :
    keywordKind word after ∈ wordKinds := by
  unfold keywordKind
  split
  · split <;> simp [wordKinds]
  · split
    · rename_i kind hlookup
      exact List.mem_append_right _ (List.mem_map.mpr ⟨_, mem_keywords_of_lookup hlookup, rfl⟩)
    · split <;> simp [wordKinds]

/-- Code that passes the test is a word, or the label that closes a heredoc. -/
theorem mem_wordKinds_of_isIdentifier {source : String} {ts : List Token} {t : Token}
    (h : tokenize source = .ok ts) (ht : t ∈ ts) (hcode : Taxonomy.php.isCode t.kind = true)
    (hid : Text.isIdentifier t.text = true) :
    t.kind ∈ wordKinds ∨ t.kind = .endHeredoc := by
  obtain ⟨before, after, rfl⟩ := List.append_of_mem ht
  have hident := isIdent_of_isIdentifier hid
  rcases readInPhp_of_isIdent h hident with hplace | hkind | hkind
  · left
    rw [kind_of_word h hplace hident]
    split
    · simp [wordKinds]
    · exact keywordKind_mem _ _
  · rw [hkind] at hcode
    cases hcode
  · exact .inr hkind

/-! ## Words as names -/

namespace View

section

variable (v : View)

/-- Whether a word is taken for the alias where it follows the name of an item and `as`, at the
start of the topmost frame. If it is, the item is imported by that name and the frame goes on behind
it. If it is not, the whole clause fails. -/
def TakenAsAlias (j : v.Pos) (taken : Bool) : Prop :=
  ∀ {code : Array v.Pos} {f : UseFrame} {word name behind : List v.Pos} {w : Option ImportKind}
    {own : String} {i : v.Pos}, f.stop ≤ code.size → slice code f.start f.stop = word ++
    (name ++ i :: j :: behind) → v.UseWord word w → v.NameRun name (i :: j :: behind) own →
      v.kind i = .asKw →
    (∀ k ∈ behind.head?, v.kind k = .comma) → ∀ out frames, v.readFrames code out (f :: frames) =
      if taken then
        v.readFrames code (out.push ⟨(v.node j).text, w.getD f.kind, withoutLead (f.lead ++ own)⟩)
          ({ f with start := f.start + (word ++ name).length + 3 } :: frames)
      else .error (.malformed .aliasMissing)

/-- Whether a word is taken for the name of a constant where it stands before the equals sign,
behind the keyword or a comma. If it is not, the declaration fails. -/
def TakenAsConstant (j : v.Pos) (taken : Bool) : Prop :=
  ∀ {p q : v.Pos}, v.AtTop p → v.kind p = .constKw ∨ v.kind p = .comma →
    v.FirstTop (v.valueEnd.insert .equals) (p + 1) q → v.kind q = .equals → p < j → v.Adjacent j q →
    (taken = true → v.scope.member = none →
      ∃ value rest, (v.constantsAt p).items = ⟨(v.node j).text, value⟩ :: rest) ∧
    (taken = false →
      v.constantsAt p = ⟨[], .error (.structural (v.node p).line .constantWithoutName)⟩)

end

variable {v : View}

namespace Balanced

theorem takenAsAlias (hv : v.Balanced) (j : v.Pos) :
    v.TakenAsAlias j (Text.isIdentifier (v.node j).text) := by
  intro code f word name behind w own i hstop hslice hw hn hi hbehind out frames
  have hnext : slice code (f.start + (word ++ name).length + 3) f.stop = behind.drop 1 := by
    rw [Nat.add_assoc, ← drop_slice, hslice, ← List.append_assoc, List.drop_append]
    simp
  have hrest := readFrames_cons (f := { f with start := f.start + (word ++ name).length + 3 }) hstop
  rw [readFrames_cons hstop, hslice]
  split
  · rename_i hj
    have halias : v.UseAlias own [i, j] (some (v.node j).text) := .named hi hj
    have hname : v.NameRun name ([i, j] ++ behind) own := hn
    rw [show i :: j :: behind = [i, j] ++ behind from rfl,
      readItems_name hv.php hw hname halias hbehind, hrest, hnext]
    cases v.readItems f.lead f.kind (v.foundAt code f.stop) (behind.drop 1) with
    | error e => rfl
    | ok others =>
      show v.readFrames code (out ++ (importOf _ _ (some _) :: others).toArray) frames =
        v.readFrames code (out.push _ ++ others.toArray) frames
      simp [importOf]
  · rename_i hj
    rw [readItems_behind hv.php hw hn, readBehind, if_neg hn.text_ne, if_neg (by rw [hi]; decide),
      readAlias, if_pos hi]
    simp only [if_neg hj]
    rfl

theorem takenAsConstant (hv : v.Balanced) (j : v.Pos) :
    v.TakenAsConstant j (Text.isIdentifier (v.node j).text) := by
  intro p q hp hk hq hequals hpj hj
  have hplain : isPlain (v.kind p) = true := by rcases hk with hk | hk <;> rw [hk] <;> rfl
  obtain ⟨_, hground⟩ := hv.ground_of_atTop hp hplain
  have hsibling := (hv.sibling?_eq_some_iff hground hv.isCloser_valueEnd_equals).mpr hq
  have hprev := (hv.prevCode?_iff_adjacent hq.top.lt_hi (hv.isCode_of_kind hequals rfl)).mpr hj
  have hname : v.constantName? p q =
      if Text.isIdentifier (v.node j).text then some j else none := by
    rw [constantName?, hprev, Option.filter_some, decide_eq_true hpj, Bool.true_and]
  constructor
  · intro hident hmember
    have hat : ∃ value last pending, v.constantAt p =
        .ok (⟨(v.node j).text, value⟩, last, pending) := by
      rw [constantAt, constantHead, hsibling]
      dsimp only
      rw [if_neg (not_not.mpr hequals), hname, if_pos hident]
      dsimp only
      rw [Scope.enterMember, hmember]
      exact ⟨_, _, _, rfl⟩
    obtain ⟨value, last, pending, hat⟩ := hat
    rw [constantsAt_eq, hat]
    cases pending <;> exact ⟨_, _, rfl⟩
  · intro hident
    rw [constantsAt_eq, constantAt, constantHead, hsibling]
    dsimp only
    rw [if_neg (not_not.mpr hequals), hname, if_neg (by simp [hident])]
    rfl

end Balanced

end View

open View

/-- Every token of a word's kind is an identifier for the lexer. It is one by the test for aliases
and names of constants if and only if its characters past ASCII are letters and numerals, which is
so for all keywords. In every view that can be reached, a word is taken as an alias and as the name
of a constant just then. -/
theorem word_taken_iff_lettered {source : String} {ts : List Token} (h : tokenize source = .ok ts) :
    (∀ t ∈ ts, t.kind ∈ wordKinds → IsIdent t.text.toList ∧
      (Text.isIdentifier t.text = true ↔ isLettered t.text.toList = true) ∧
      (t.kind ≠ .string → Text.isIdentifier t.text = true)) ∧
    ∀ {f : Flags} {root v : View}, ofSource source f = .ok root → root.Reaches v → ∀ j :
      v.Pos, v.kind j ∈ wordKinds → v.TakenAsAlias j (isLettered (v.node j).text.toList) ∧
      v.TakenAsConstant j (isLettered (v.node j).text.toList) := by
  have hword : ∀ t ∈ ts, t.kind ∈ wordKinds → IsIdent t.text.toList ∧
      Text.isIdentifier t.text = isLettered t.text.toList ∧
      (t.kind ≠ .string → isLettered t.text.toList = true) := by
    intro t ht hk
    obtain ⟨hident, hkeyword⟩ := isIdent_of_tokenize h ht hk
    have heq := hident.isIdentifier_eq
    rw [String.ofList_toList] at heq
    exact ⟨hident, heq, hkeyword⟩
  constructor
  · intro t ht hk
    obtain ⟨hident, heq, hkeyword⟩ := hword t ht hk
    rw [heq]
    exact ⟨hident, Iff.rfl, hkeyword⟩
  · intro f root v hroot hv j hj
    obtain ⟨_, g, _, hlink, hg⟩ := ofSource_ok hroot
    have hb := hv.balanced (balanced_of_ofGraph (.link hlink) hg)
    obtain ⟨_, heq, _⟩ := hword _ (toToken_mem_of_reaches h hroot hv j) hj
    rw [← heq]
    exact ⟨hb.takenAsAlias j, hb.takenAsConstant j⟩

theorem word_taken_iff_lettered_sample :
    ∃ (ts : List Token) (root : View) (j k : root.Pos),
      tokenize "<?php use A as Été; const List = 1;" = .ok ts ∧
      ofSource "<?php use A as Été; const List = 1;" = .ok root ∧ root.Reaches root ∧
      ((root.node j).text = "Été" ∧ root.kind j ∈ wordKinds ∧ root.TakenAsAlias j true) ∧
      ((root.node k).text = "List" ∧ root.kind k ∈ wordKinds ∧ root.TakenAsConstant k true) ∧
      root.imports.items = [⟨"Été", .class_, "A"⟩] ∧
      root.constants.items.map (·.name) = ["List"] := by
  have h : ((ofSource "<?php use A as Été; const List = 1;").toOption.bind fun root =>
      ((root.between root.lo root.hi).find? fun j => (root.node j).text == "Été").bind fun j =>
        ((root.between root.lo root.hi).find? fun k => (root.node k).text == "List").map fun k =>
          (decide (root.kind j ∈ wordKinds ∧ isLettered "Été".toList = true ∧
            root.kind k ∈ wordKinds ∧ isLettered "List".toList = true), root.imports.items,
            root.constants.items.map (·.name))) =
      some (true, [⟨"Été", .class_, "A"⟩], ["List"]) := by
    decide +kernel
  obtain ⟨root, hsource, h⟩ := Option.bind_eq_some_iff.mp h
  obtain ⟨j, hj, h⟩ := Option.bind_eq_some_iff.mp h
  obtain ⟨k, hk, h⟩ := Option.map_eq_some_iff.mp h
  simp only [Prod.mk.injEq, decide_eq_true_eq] at h
  obtain ⟨⟨hjword, hjtext, hkword, hktext⟩, himports, hconstants⟩ := h
  have hj : (root.node j).text = "Été" := beq_iff_eq.mp (find?_between hj).2.2.1
  have hk : (root.node k).text = "List" := beq_iff_eq.mp (find?_between hk).2.2.1
  have hroot := ok_of_toOption hsource
  obtain ⟨ts, _, hts, _⟩ := ofSource_ok hroot
  obtain ⟨_, htaken⟩ := word_taken_iff_lettered hts
  obtain ⟨halias, _⟩ := htaken hroot .refl j hjword
  obtain ⟨_, hconstant⟩ := htaken hroot .refl k hkword
  rw [hj, hjtext] at halias
  rw [hk, hktext] at hconstant
  exact ⟨ts, root, j, k, hts, hroot, .refl, ⟨hj, hjword, halias⟩, ⟨hk, hkword, hconstant⟩, himports,
    hconstants⟩

/-- A sign past ASCII is an identifier for the lexer, but neither an alias nor the name of a
constant. -/
theorem sign_not_taken :
    ((tokenize "<?php use A as €;").toOption.map fun ts => ts.map fun t => (t.kind, t.text)) =
      some [(.openTag, "<?php "), (.useKw, "use"), (.whitespace, " "), (.string, "A"),
        (.whitespace, " "), (.asKw, "as"), (.whitespace, " "), (.string, "€"), (.semicolon, ";")] ∧
    Text.isIdentifier "€" = false ∧
    ((ofSource "<?php use A as €;").toOption.map fun root =>
      (root.imports.items, root.imports.error)) =
      some ([], some (.structural 1 .aliasMissing)) ∧
    ((ofSource "<?php const € = 1;").toOption.map fun root =>
      (root.constants.items.map (·.name), root.constants.error)) =
        some ([], some (.structural 1 .constantWithoutName)) := by
  refine ⟨by decide +kernel, by decide +kernel, by decide +kernel, by decide +kernel⟩

end PhpOutline
