import DocTypes.Proofs.Token.Written
import Mathlib.Data.List.Chain

/-!
# Tokens as texts

A list of texts is written out with blanks before, between and after its texts.  The texts of the
tokens of an expression are the one canonical list that the expression is written out from: each is
the character of a mark or a word, and no two words are side by side.

* `CanonicalTexts`           such lists;
* `Spells`                   a text written out from others, with blanks around each of them;
* `spells_iff_written`       the same, of the texts of tokens;
* `CanonicalTexts.ofTexts`   a canonical list is the texts of canonical tokens;
* `tokenize_spelled`         the tokens of a text, and of the text without blanks around them.
-/

namespace DocTypes

/-- the character of a mark, alone -/
def IsMarkText (s : String) : Prop := ∃ m : Mark, s = (Token.mark m).text

structure CanonicalTexts (texts : List String) : Prop where
  each : ∀ s ∈ texts, IsMarkText s ∨ IsWord s
  /-- no two words are side by side -/
  apart : texts.IsChain fun a b => ¬(IsWord a ∧ IsWord b)

/-- `text` is made of `texts`, in order, with a gap of blanks before the first and after each -/
def Spells (texts : List String) (text : String) : Prop :=
  ∃ (gap : String) (gaps : List String), gaps.length = texts.length ∧
    (∀ g ∈ gap :: gaps, Blank g.toList) ∧ text = gap ++ String.join (texts.zipWith (· ++ ·) gaps)

/-! ## words and marks -/

theorem not_isWord_mark (m : Mark) : ¬IsWord (Token.mark m).text := by
  intro h
  have hnone := h.unmarked m.char (by simp [Token.text])
  rw [Mark.ofChar?_char] at hnone
  cases hnone

theorem ofText_mark (m : Mark) : Token.ofText (Token.mark m).text = .mark m := by
  cases m <;> rfl

theorem ofText_word {w : String} (hw : IsWord w) : Token.ofText w = .word w := by
  unfold Token.ofText
  split
  · rename_i c hc
    have hnone : Mark.ofChar? c = none :=
      hw.unmarked c (by rw [hc]; exact List.mem_singleton_self c)
    rw [hnone]
    rfl
  · rfl

/-! ## canonical lists -/

theorem Canonical.of_mark {m : Mark} {rest : List Token} (h : Canonical (.mark m :: rest)) :
    Canonical rest := by
  cases h
  assumption

/-- the texts of canonical tokens are a canonical list -/
theorem Canonical.texts {ts : List Token} (h : Canonical ts) :
    CanonicalTexts (ts.map Token.text) := by
  have hmark (m : Mark) {rest : List String} (h : CanonicalTexts rest) :
      CanonicalTexts ((Token.mark m).text :: rest) :=
    ⟨List.forall_mem_cons.2 ⟨.inl ⟨m, rfl⟩, h.each⟩,
      h.apart.cons fun _ _ hwords => not_isWord_mark m hwords.1⟩
  induction h with
  | nil => exact ⟨nofun, .nil⟩
  | word hw => exact ⟨List.forall_mem_singleton.2 (.inr hw), .singleton _⟩
  | mark m _ ih => exact hmark m ih
  | wordMark hw m _ ih =>
    obtain ⟨heach, hapart⟩ := hmark m ih
    exact ⟨List.forall_mem_cons.2 ⟨.inr hw, heach⟩,
      List.isChain_cons_cons.2 ⟨fun hwords => not_isWord_mark m hwords.2, hapart⟩⟩

/-- a canonical list is the texts of canonical tokens -/
theorem CanonicalTexts.ofTexts {texts : List String} (h : CanonicalTexts texts) :
    Canonical (texts.map Token.ofText) := by
  induction texts with
  | nil => exact .nil
  | cons s rest ih =>
    obtain ⟨heach, hapart⟩ := h
    obtain ⟨hs, hrest⟩ := List.forall_mem_cons.1 heach
    have hcanonical := ih ⟨hrest, hapart.tail⟩
    rw [List.map_cons]
    rcases hs with ⟨m, rfl⟩ | hw
    · rw [ofText_mark]
      exact .mark m hcanonical
    · rw [ofText_word hw]
      -- only a mark may follow the word
      cases rest with
      | nil => exact .word hw
      | cons next more =>
        have hnext : ¬IsWord next := fun h => (List.isChain_cons_cons.1 hapart).1 ⟨hw, h⟩
        obtain ⟨m, rfl⟩ := (hrest next List.mem_cons_self).resolve_right hnext
        rw [List.map_cons, ofText_mark] at hcanonical ⊢
        exact .wordMark hw m hcanonical.of_mark

/-! ## writing out -/

theorem spells_nil {text : String} : Spells [] text ↔ Blank text.toList := by
  constructor
  · rintro ⟨gap, gaps, -, hblank, rfl⟩
    rw [List.zipWith_nil_left, String.join_nil, String.append_empty]
    exact hblank gap List.mem_cons_self
  · intro h
    refine ⟨text, [], rfl, List.forall_mem_singleton.2 h, ?_⟩
    rw [List.zipWith_nil_left, String.join_nil, String.append_empty]

theorem spells_cons {s : String} {texts : List String} {text : String} :
    Spells (s :: texts) text ↔
      ∃ gap rest, Blank gap.toList ∧ Spells texts rest ∧ text = gap ++ (s ++ rest) := by
  constructor
  · rintro ⟨gap, gaps, hlength, hblank, rfl⟩
    obtain ⟨next, gaps, rfl⟩ := List.exists_cons_of_length_eq_add_one hlength
    obtain ⟨hgap, hgaps⟩ := List.forall_mem_cons.1 hblank
    refine ⟨gap, _, hgap, ⟨next, gaps, Nat.succ.inj hlength, hgaps, rfl⟩, ?_⟩
    rw [List.zipWith_cons_cons, String.join_cons, String.append_assoc]
  · rintro ⟨gap, _, hgap, ⟨next, gaps, hlength, hgaps, rfl⟩, rfl⟩
    refine ⟨gap, next :: gaps, congrArg (· + 1) hlength, List.forall_mem_cons.2 ⟨hgap, hgaps⟩, ?_⟩
    rw [List.zipWith_cons_cons, String.join_cons, String.append_assoc]

theorem spells_iff_written {ts : List Token} {text : String} :
    Spells (ts.map Token.text) text ↔ Written ts text.toList := by
  induction ts generalizing text with
  | nil =>
    rw [List.map_nil, spells_nil]
    refine ⟨.nil, fun h => ?_⟩
    obtain ⟨hgap⟩ := h
    exact hgap
  | cons t ts ih =>
    rw [List.map_cons, spells_cons]
    constructor
    · rintro ⟨gap, rest, hgap, hrest, rfl⟩
      rw [String.toList_append, String.toList_append]
      exact .cons hgap (ih.1 hrest)
    · intro h
      generalize hcs : text.toList = cs at h
      obtain _ | @⟨_, _, gap, rest, hgap, hrest⟩ := h
      refine ⟨String.ofList gap, String.ofList rest, ?_, ih.2 ?_, ?_⟩
      · rwa [String.toList_ofList]
      · rwa [String.toList_ofList]
      · rw [← String.toList_inj, hcs]
        simp only [String.toList_append, String.toList_ofList]

/-! ## the tokens of a text -/

/-- the texts of the tokens of a text are the one canonical list that it is written out from, and
can be written out without any blanks -/
theorem tokenize_spelled (text : String) :
    (∀ texts : List String, (tokenize text).map Token.text = texts ↔
      CanonicalTexts texts ∧ Spells texts text) ∧
    tokenize (String.join ((tokenize text).map Token.text)) = tokenize text := by
  refine ⟨fun texts => ⟨?_, ?_⟩, tokenize_joined (canonical_tokenize text)⟩
  · rintro rfl
    exact ⟨(canonical_tokenize text).texts, spells_iff_written.2 (written_tokenize text)⟩
  · rintro ⟨hcanonical, hspells⟩
    have htexts : (texts.map Token.ofText).map Token.text = texts := by
      rw [List.map_map]
      exact List.map_id'' Token.text_ofText texts
    rw [← htexts] at hspells
    rw [tokenize_of_written hcanonical.ofTexts (spells_iff_written.1 hspells), htexts]

end DocTypes
