import DocTypes.Token.Lexer

/-!
# Writing tokens out

A list of tokens can be written out with blanks before, between and after its tokens.  If its words
are such as can stand between marks, and no two of them are side by side, then the text is read
back as the list, whatever the blanks are; and every text is its own tokens written out.

* `IsWord`                what can stand between two marks as one word;
* `Bare`                  what neither begins nor ends with a blank, as words do;
* `Canonical`             lists of words and marks with a mark between any two words;
* `Written`               the texts that a list of tokens can be written as;
* `tokenize_of_written`   a canonical list is read back from any text it is written as;
* `written_tokenize`      a text is one way to write its own tokens;
* `canonical_tokenize`    they are a canonical list (`tokenize_eq_iff`).
-/

namespace DocTypes

open Text (isBlank trim trimStart trimEnd)

/-! ## words and gaps -/

/-- without marks, and with no blank at either end -/
structure IsWord (w : String) : Prop where
  unmarked : ∀ c ∈ w.toList, Mark.ofChar? c = none
  head : ∃ c ∈ w.toList.head?, isBlank c = false
  last : ∃ c ∈ w.toList.getLast?, isBlank c = false

-- the quantifiers range over the characters of the word alone, so the test is one on lists
instance (w : String) : Decidable (IsWord w) :=
  decidable_of_iff (w.toList.all (fun c => (Mark.ofChar? c).isNone) = true ∧
      w.toList.head?.any (!isBlank ·) = true ∧ w.toList.getLast?.any (!isBlank ·) = true) <| by
    simp only [List.all_eq_true, Option.any_eq_true, Option.isNone_iff_eq_none, Bool.not_eq_true']
    exact ⟨fun h => ⟨h.1, h.2.1, h.2.2⟩, fun h => ⟨h.unmarked, h.head, h.last⟩⟩

/-- there is something in the text, and no blank at either end -/
structure Bare (cs : List Char) : Prop where
  head : ∃ c ∈ cs.head?, isBlank c = false
  last : ∃ c ∈ cs.getLast?, isBlank c = false

theorem Bare.append {a b : List Char} (ha : Bare a) (hb : Bare b) : Bare (a ++ b) := by
  obtain ⟨c, hc, hcb⟩ := ha.head
  obtain ⟨d, hd, hdb⟩ := hb.last
  refine ⟨⟨c, ?_, hcb⟩, ⟨d, ?_, hdb⟩⟩
  · rw [List.head?_append, Option.mem_def.1 hc]
    rfl
  · rw [List.getLast?_append, Option.mem_def.1 hd]
    rfl

theorem isWord_iff {w : String} :
    IsWord w ↔ (∀ c ∈ w.toList, Mark.ofChar? c = none) ∧ Bare w.toList :=
  ⟨fun h => ⟨h.unmarked, h.head, h.last⟩, fun h => ⟨h.1, h.2.head, h.2.last⟩⟩

theorem IsWord.bare {w : String} (h : IsWord w) : Bare w.toList := (isWord_iff.1 h).2

theorem IsWord.append {a b : String} (ha : IsWord a) (hb : IsWord b) : IsWord (a ++ b) := by
  rw [isWord_iff, String.toList_append]
  refine ⟨fun c hc => ?_, ha.bare.append hb.bare⟩
  exact (List.mem_append.1 hc).elim (ha.unmarked c) (hb.unmarked c)

def Blank (gap : List Char) : Prop := ∀ c ∈ gap, isBlank c = true

theorem blank_nil : Blank [] := nofun

theorem Blank.append {a b : List Char} (ha : Blank a) (hb : Blank b) : Blank (a ++ b) :=
  fun c hc => (List.mem_append.1 hc).elim (ha c) (hb c)

theorem ofChar?_of_isBlank {c : Char} (h : isBlank c = true) : Mark.ofChar? c = none := by
  cases hm : Mark.ofChar? c with
  | none => rfl
  | some m =>
    obtain rfl := Mark.char_of_ofChar? hm
    cases m <;> cases h

theorem Blank.unmarked {gap : List Char} (h : Blank gap) : ∀ c ∈ gap, Mark.ofChar? c = none :=
  fun c hc => ofChar?_of_isBlank (h c hc)

/-! ## blanks taken off -/

theorem trimStart_append_of_blank {gap : List Char} (h : Blank gap) (cs : List Char) :
    trimStart (gap ++ cs) = trimStart cs := List.dropWhile_append_of_pos h

theorem trimStart_of_head {cs : List Char} (h : ∃ c ∈ cs.head?, isBlank c = false) :
    trimStart cs = cs := by
  obtain ⟨c, hc, hblank⟩ := h
  cases cs with
  | nil => cases hc
  | cons d cs =>
    cases hc
    exact List.dropWhile_cons_of_neg (by simp [hblank])

theorem trim_of_blank {gap : List Char} (h : Blank gap) : trim gap = [] := by
  have hstart := trimStart_append_of_blank h []
  rw [List.append_nil] at hstart
  rw [trim, hstart]
  rfl

theorem trim_word {w : String} (hw : IsWord w) {gap gap' : List Char} (hgap : Blank gap)
    (hgap' : Blank gap') : trim (gap ++ (w.toList ++ gap')) = w.toList := by
  have hstart : trimStart (w.toList ++ gap') = w.toList ++ gap' := by
    obtain ⟨c, hc, hblank⟩ := hw.head
    refine trimStart_of_head ⟨c, ?_, hblank⟩
    rw [List.head?_append, Option.mem_def.1 hc]
    rfl
  have hend : trimStart w.toList.reverse = w.toList.reverse := by
    refine trimStart_of_head ?_
    rw [List.head?_reverse]
    exact hw.last
  rw [trim, trimStart_append_of_blank hgap, hstart, trimEnd, List.reverse_append,
    trimStart_append_of_blank (fun c hc => hgap' c (List.mem_reverse.1 hc)), hend,
    List.reverse_reverse]

/-- a text is its trimmed self between blanks -/
theorem exists_trim (cs : List Char) :
    ∃ gap gap', Blank gap ∧ Blank gap' ∧ cs = gap ++ (trim cs ++ gap') := by
  have hstart (cs : List Char) : ∃ gap, Blank gap ∧ cs = gap ++ trimStart cs :=
    ⟨cs.takeWhile isBlank, fun _ hc => List.all_eq_true.1 List.all_takeWhile _ hc,
      List.takeWhile_append_dropWhile.symm⟩
  obtain ⟨gap, hgap, hcs⟩ := hstart cs
  obtain ⟨gap', hgap', hrev⟩ := hstart (trimStart cs).reverse
  refine ⟨gap, gap'.reverse, hgap, fun c hc => hgap' c (List.mem_reverse.1 hc), ?_⟩
  have hend := congrArg List.reverse hrev
  rw [List.reverse_append, List.reverse_reverse] at hend
  exact hcs.trans (congrArg (gap ++ ·) hend)

theorem wordToken_of_blank {gap : List Char} (h : Blank gap) : wordToken gap = [] := by
  rw [wordToken, trim_of_blank h]

theorem wordToken_word {w : String} (hw : IsWord w) {gap gap' : List Char} (hgap : Blank gap)
    (hgap' : Blank gap') : wordToken (gap ++ (w.toList ++ gap')) = [.word w] := by
  rw [wordToken, trim_word hw hgap hgap']
  split
  · rename_i hnil
    obtain ⟨c, hc, -⟩ := hw.head
    rw [hnil] at hc
    cases hc
  · rw [String.ofList_toList]

/-! ## cutting at marks -/

theorem cut_mark (m : Mark) (cs : List Char) :
    cut (m.char :: cs) = ([], .mark m :: (wordToken (cut cs).1 ++ (cut cs).2)) := by
  rw [cut, Mark.ofChar?_char]

theorem cut_unmarked {c : Char} (h : Mark.ofChar? c = none) (cs : List Char) :
    cut (c :: cs) = (c :: (cut cs).1, (cut cs).2) := by
  rw [cut, h]

theorem cut_append_of_unmarked {a : List Char} (h : ∀ c ∈ a, Mark.ofChar? c = none)
    (b : List Char) : cut (a ++ b) = (a ++ (cut b).1, (cut b).2) := by
  induction a with
  | nil => rfl
  | cons c a ih =>
    obtain ⟨hc, ha⟩ := List.forall_mem_cons.1 h
    rw [List.cons_append, cut_unmarked hc, ih ha]
    rfl

/-! ## writing and reading back -/

inductive Canonical : List Token → Prop where
  | nil : Canonical []
  | word {w : String} (hw : IsWord w) : Canonical [.word w]
  | mark (m : Mark) {rest : List Token} (hrest : Canonical rest) : Canonical (.mark m :: rest)
  | wordMark {w : String} (hw : IsWord w) (m : Mark) {rest : List Token}
    (hrest : Canonical rest) : Canonical (.word w :: .mark m :: rest)

theorem Canonical.append_mark {a b : List Token} (ha : Canonical a) (m : Mark)
    (hb : Canonical b) : Canonical (a ++ .mark m :: b) := by
  induction ha with
  | nil => exact .mark m hb
  | word hw => exact .wordMark hw m hb
  | mark n _ ih => exact .mark n ih
  | wordMark hw n _ ih => exact .wordMark hw n ih

theorem Canonical.intercalate (m : Mark) {spans : List (List Token)}
    (h : ∀ span ∈ spans, Canonical span) : Canonical ([.mark m].intercalate spans) := by
  induction spans with
  | nil => exact .nil
  | cons span more ih =>
    obtain ⟨hspan, hmore⟩ := List.forall_mem_cons.1 h
    cases more with
    | nil => rwa [List.intercalate_singleton]
    | cons next more =>
      rw [List.intercalate_cons_cons, List.append_assoc]
      exact hspan.append_mark m (ih hmore)

inductive Written : List Token → List Char → Prop where
  | nil {gap : List Char} (hgap : Blank gap) : Written [] gap
  | cons {t : Token} {ts : List Token} {gap cs : List Char} (hgap : Blank gap)
    (hcs : Written ts cs) : Written (t :: ts) (gap ++ (t.text.toList ++ cs))

/-- what stands before a mark, and the tokens from the mark on -/
theorem cut_append_mark {front : List Char} (hfront : ∀ c ∈ front, Mark.ofChar? c = none)
    (m : Mark) (cs : List Char) : cut (front ++ ((Token.mark m).text.toList ++ cs))
      = (front, .mark m :: (wordToken (cut cs).1 ++ (cut cs).2)) := by
  rw [Token.text, String.toList_singleton, List.singleton_append, cut_append_of_unmarked hfront,
    cut_mark, List.append_nil]

theorem cut_eq_of_unmarked {cs : List Char} (h : ∀ c ∈ cs, Mark.ofChar? c = none) :
    cut cs = (cs, []) := by
  have hcut := cut_append_of_unmarked h []
  rwa [List.append_nil, cut, List.append_nil] at hcut

theorem cut_of_written {ts : List Token} (hc : Canonical ts) {cs : List Char}
    (h : Written ts cs) : wordToken (cut cs).1 ++ (cut cs).2 = ts := by
  have hfront {w : String} (hw : IsWord w) {gap gap' : List Char} (hgap : Blank gap)
      (hgap' : Blank gap') : ∀ c ∈ gap ++ (w.toList ++ gap'), Mark.ofChar? c = none := by
    intro c hc
    rcases List.mem_append.1 hc with hc | hc
    · exact hgap.unmarked c hc
    · exact (List.mem_append.1 hc).elim (hw.unmarked c) (hgap'.unmarked c)
  induction hc generalizing cs with
  | nil =>
    obtain ⟨hgap⟩ := h
    rw [cut_eq_of_unmarked hgap.unmarked, wordToken_of_blank hgap]
    rfl
  | word hw =>
    obtain _ | ⟨hgap, ⟨hgap'⟩⟩ := h
    rw [Token.text, cut_eq_of_unmarked (hfront hw hgap hgap'), wordToken_word hw hgap hgap']
    rfl
  | mark m _ ih =>
    obtain _ | ⟨hgap, hcs⟩ := h
    rw [cut_append_mark hgap.unmarked, ih hcs, wordToken_of_blank hgap]
    rfl
  | @wordMark w hw m rest _ ih =>
    obtain _ | @⟨_, _, gap, _, hgap, _ | @⟨_, _, gap', cs, hgap', hcs⟩⟩ := h
    have happend : gap ++ (w.toList ++ (gap' ++ ((Token.mark m).text.toList ++ cs)))
        = (gap ++ (w.toList ++ gap')) ++ ((Token.mark m).text.toList ++ cs) := by
      simp only [List.append_assoc]
    show wordToken (cut (gap ++ (w.toList ++ _))).1 ++ (cut (gap ++ (w.toList ++ _))).2 = _
    rw [happend, cut_append_mark (hfront hw hgap hgap'), ih hcs, wordToken_word hw hgap hgap']
    rfl

/-- a canonical list is read back from any text it is written as -/
theorem tokenize_of_written {ts : List Token} (hc : Canonical ts) {text : String}
    (h : Written ts text.toList) : tokenize text = ts := cut_of_written hc h

/-- tokens can be written one after the other, without any blanks -/
theorem written_joined (ts : List Token) : Written ts (Token.joined ts).toList := by
  unfold Token.joined
  induction ts with
  | nil => exact .nil (by simp [Blank])
  | cons t ts ih =>
    rw [List.map_cons, String.join_cons, String.toList_append]
    exact .cons blank_nil ih

theorem tokenize_joined {ts : List Token} (hc : Canonical ts) :
    tokenize (Token.joined ts) = ts := tokenize_of_written hc (written_joined ts)

theorem Written.indent {ts : List Token} {gap cs : List Char} (hgap : Blank gap)
    (h : Written ts cs) : Written ts (gap ++ cs) := by
  cases h with
  | nil hgap' => exact .nil (hgap.append hgap')
  | cons hgap' hcs =>
    rw [← List.append_assoc]
    exact .cons (hgap.append hgap') hcs

theorem written_wordToken (front : List Char) {ts : List Token} {cs : List Char}
    (h : Written ts cs) : Written (wordToken front ++ ts) (front ++ cs) := by
  obtain ⟨gap, gap', hgap, hgap', hfront⟩ := exists_trim front
  have hcs := h.indent hgap'
  have happend : front ++ cs = gap ++ (trim front ++ (gap' ++ cs)) := by
    rw [← List.append_assoc (trim front), ← List.append_assoc gap, ← hfront]
  rw [happend, wordToken]
  split
  · rename_i htrim
    rw [htrim]
    exact hcs.indent hgap
  · have hword := Written.cons (t := .word (String.ofList (trim front))) hgap hcs
    rwa [Token.text, String.toList_ofList] at hword

/-- a text is one way to write its own tokens -/
theorem written_tokenize (text : String) : Written (tokenize text) text.toList := by
  have hcut (cs : List Char) : ∃ rest, cs = (cut cs).1 ++ rest ∧ Written (cut cs).2 rest := by
    induction cs with
    | nil => exact ⟨[], rfl, .nil blank_nil⟩
    | cons c cs ih =>
      obtain ⟨rest, hcs, hrest⟩ := ih
      cases hm : Mark.ofChar? c with
      | none =>
        rw [cut_unmarked hm]
        exact ⟨rest, congrArg (c :: ·) hcs, hrest⟩
      | some m =>
        obtain rfl := Mark.char_of_ofChar? hm
        rw [cut_mark]
        refine ⟨m.char :: cs, rfl, ?_⟩
        have hword := written_wordToken (cut cs).1 hrest
        rw [← hcs] at hword
        have hcons := Written.cons (t := .mark m) blank_nil hword
        rwa [Token.text, String.toList_singleton] at hcons
  obtain ⟨rest, htext, hrest⟩ := hcut text.toList
  have hword := written_wordToken (cut text.toList).1 hrest
  rwa [← htext] at hword

/-! ## the tokens of a text -/

theorem head?_trimStart (cs : List Char) : ∀ c ∈ (trimStart cs).head?, isBlank c = false := by
  intro c hc
  have hhead := List.head?_dropWhile_not isBlank cs
  rw [show List.dropWhile isBlank cs = trimStart cs from rfl, Option.mem_def.1 hc] at hhead
  exact hhead

/-- what is left of the characters between two marks, if anything is, can stand there as one word -/
theorem isWord_trim {cs : List Char} (h : ∀ c ∈ cs, Mark.ofChar? c = none) (hne : trim cs ≠ []) :
    IsWord (String.ofList (trim cs)) := by
  obtain ⟨first, rest, htrim⟩ := List.exists_cons_of_ne_nil hne
  have hsuffix : (trimStart (trimStart cs).reverse) <:+ (trimStart cs).reverse :=
    List.dropWhile_suffix _
  constructor
  · intro c hc
    rw [String.toList_ofList] at hc
    obtain ⟨gap, gap', -, -, hcs⟩ := exists_trim cs
    refine h c ?_
    rw [hcs]
    exact List.mem_append_right gap (List.mem_append_left gap' hc)
  · -- taking blanks off the end leaves the first character in its place
    have hhead : (trimStart cs).head? = some first := by
      obtain ⟨front, hfront⟩ := hsuffix
      have hreverse := congrArg List.reverse hfront
      rw [List.reverse_append, List.reverse_reverse] at hreverse
      rw [← hreverse]
      show (trim cs ++ _).head? = _
      rw [htrim]
      rfl
    rw [String.toList_ofList, htrim]
    exact ⟨first, rfl, head?_trimStart cs first hhead⟩
  · rw [String.toList_ofList, trim, trimEnd, List.getLast?_reverse]
    obtain ⟨last, hlast⟩ : ∃ last, (trimStart (trimStart cs).reverse).head? = some last := by
      refine Option.ne_none_iff_exists'.1 fun hnone => hne ?_
      rw [trim, trimEnd, List.head?_eq_none_iff.1 hnone, List.reverse_nil]
    exact ⟨last, hlast, head?_trimStart _ last hlast⟩

/-- the tokens of a text are words and marks with a mark between any two words -/
theorem canonical_tokenize (text : String) : Canonical (tokenize text) := by
  have hword {front : List Char} (hfront : ∀ c ∈ front, Mark.ofChar? c = none) {ts : List Token}
      (hts : ts = [] ∨ ∃ m rest, ts = .mark m :: rest ∧ Canonical rest) :
      Canonical (wordToken front ++ ts) := by
    unfold wordToken
    split
    · rcases hts with rfl | ⟨m, rest, rfl, hrest⟩
      · exact .nil
      · exact .mark m hrest
    · rename_i hne
      have hw := isWord_trim hfront hne
      rcases hts with rfl | ⟨m, rest, rfl, hrest⟩
      · exact .word hw
      · exact .wordMark hw m hrest
  have hcut (cs : List Char) : (∀ c ∈ (cut cs).1, Mark.ofChar? c = none) ∧
      ((cut cs).2 = [] ∨ ∃ m rest, (cut cs).2 = .mark m :: rest ∧ Canonical rest) := by
    induction cs with
    | nil => exact ⟨nofun, .inl rfl⟩
    | cons c cs ih =>
      obtain ⟨hfront, hts⟩ := ih
      cases hm : Mark.ofChar? c with
      | none =>
        rw [cut_unmarked hm]
        exact ⟨List.forall_mem_cons.2 ⟨hm, hfront⟩, hts⟩
      | some m =>
        obtain rfl := Mark.char_of_ofChar? hm
        rw [cut_mark]
        exact ⟨nofun, .inr ⟨m, _, rfl, hword hfront hts⟩⟩
  obtain ⟨hfront, hts⟩ := hcut text.toList
  exact hword hfront hts

/-- the tokens of a text are the one canonical list that it is a way to write -/
theorem tokenize_eq_iff {text : String} {ts : List Token} :
    tokenize text = ts ↔ Canonical ts ∧ Written ts text.toList := by
  constructor
  · rintro rfl
    exact ⟨canonical_tokenize text, written_tokenize text⟩
  · rintro ⟨hc, h⟩
    exact tokenize_of_written hc h

end DocTypes
