import DocTypes.Piece
import DocTypes.Proofs.Token.Written
import Mathlib.Data.List.Basic

/-!
# Names cut out of words

The name of a generic type is a word without the dot at its end; the path of a module is put
together from several tokens and cut at its first tilde.  Blanks may stand within a word, so what is
left of it can end in one: it does not where no blank is next to the dot or the tilde.  Marks among
the tokens of a path stay in it.

* `DotTight`, `TildeTight`  no blank is next to the dot or the tilde where a text is cut;
* `splitPath_cases`         where a path is cut;
* `GenericName`             what the word in front of an argument list makes a name;
* `TargetName`              what the tokens of a path make a name and a qualifier.
-/

namespace DocTypes

open Text (isBlank)

/-! ## blanks at the ends -/

namespace Bare

variable {a b : List Char}

theorem ne_nil (h : Bare a) : a ≠ [] := by
  rintro rfl
  obtain ⟨c, hc, -⟩ := h.head
  cases hc

/-- what a text begins with has no blank in front either -/
theorem head_of_prefix (h : Bare b) (hab : a <+: b) (ha : a ≠ []) :
    ∃ c ∈ a.head?, isBlank c = false := by
  obtain ⟨rest, rfl⟩ := hab
  obtain ⟨c, hc, hcb⟩ := h.head
  obtain ⟨first, more, rfl⟩ := List.exists_cons_of_ne_nil ha
  exact ⟨c, hc, hcb⟩

theorem last_of_suffix (h : Bare b) (hab : a <:+ b) (ha : a ≠ []) :
    ∃ c ∈ a.getLast?, isBlank c = false := by
  obtain ⟨front, rfl⟩ := hab
  obtain ⟨c, hc, hcb⟩ := h.last
  have hlast := List.getLast?_eq_some_getLast ha
  rw [List.getLast?_append, hlast] at hc
  exact ⟨c, hlast.trans hc, hcb⟩

end Bare

/-! ## a dot taken off the end -/

/-- no blank is right before a dot at the end -/
def DotTight (cs : List Char) : Prop :=
  ∀ front, cs = front ++ ['.'] → ∀ c ∈ front.getLast?, isBlank c = false

theorem dropDot_cases (cs : List Char) :
    endsInDot cs = false ∧ dropDot cs = cs ∨ cs = dropDot cs ++ ['.'] := by
  unfold dropDot
  split
  · rename_i hdot
    exact .inr (List.dropLast_append_getLast? '.' (beq_iff_eq.1 hdot)).symm
  · rename_i hdot
    exact .inl ⟨Bool.eq_false_iff.2 hdot, rfl⟩

theorem dropDot_isPrefix (cs : List Char) : dropDot cs <+: cs := by
  unfold dropDot
  split
  · exact List.dropLast_prefix cs
  · exact List.prefix_rfl

theorem Bare.dropDot {cs : List Char} (h : Bare cs) (hdot : DotTight cs)
    (hne : dropDot cs ≠ []) : Bare (dropDot cs) := by
  refine ⟨h.head_of_prefix (dropDot_isPrefix cs) hne, ?_⟩
  rcases dropDot_cases cs with ⟨-, hsame⟩ | hcut
  · rw [hsame]
    exact h.last
  · exact ⟨_, List.getLast?_eq_some_getLast hne,
      hdot _ hcut _ (List.getLast?_eq_some_getLast hne)⟩

/-- what stands at the end of a tight text is tight -/
theorem DotTight.of_suffix {a b : List Char} (h : DotTight b) (hab : a <:+ b) : DotTight a := by
  obtain ⟨before, rfl⟩ := hab
  rintro front rfl c hc
  refine h (before ++ front) (List.append_assoc ..).symm c ?_
  rw [List.getLast?_append, Option.mem_def.1 hc]
  rfl

/-! ## the path of a module -/

/-- no blank is next to the first tilde -/
def TildeTight (cs : List Char) : Prop :=
  ∀ front back, '~' ∉ front → cs = front ++ '~' :: back →
    (∀ c ∈ front.getLast?, isBlank c = false) ∧ ∀ c ∈ back.head?, isBlank c = false

theorem splitPath_of_not_mem {cs : List Char} (h : '~' ∉ cs) :
    splitPath cs = (dropDot cs, none) := by
  have hpos : ∀ c ∈ cs, (c != '~') = true := fun c hc => bne_iff_ne.2 fun e => h (e ▸ hc)
  have htake : (cs ++ []).takeWhile (· != '~') = cs ++ _ := List.takeWhile_append_of_pos hpos
  have hdrop : (cs ++ []).dropWhile (· != '~') = _ := List.dropWhile_append_of_pos hpos
  rw [List.append_nil] at htake hdrop
  rw [splitPath, htake, hdrop]
  exact Prod.ext (congrArg dropDot (List.append_nil cs)) rfl

theorem splitPath_append {path : List Char} (h : '~' ∉ path) (member : List Char) :
    splitPath (path ++ '~' :: member)
      = (path, if (dropDot member).isEmpty then none else some (dropDot member)) := by
  have hpos : ∀ c ∈ path, (c != '~') = true := fun c hc => bne_iff_ne.2 fun e => h (e ▸ hc)
  have htake : (path ++ '~' :: member).takeWhile (· != '~') = path ++ _ :=
    List.takeWhile_append_of_pos hpos
  have hdrop : (path ++ '~' :: member).dropWhile (· != '~') = _ :=
    List.dropWhile_append_of_pos hpos
  rw [splitPath, htake, hdrop]
  exact Prod.ext (List.append_nil path) rfl

/-- a path without a tilde only loses its dot; else it is cut at the first tilde, and the member
behind it loses its dot -/
theorem splitPath_cases (cs : List Char) :
    ('~' ∉ cs ∧ splitPath cs = (dropDot cs, none)) ∨
    ∃ path member, cs = path ++ '~' :: member ∧ '~' ∉ path ∧
      (dropDot member = [] ∧ splitPath cs = (path, none) ∨
        dropDot member ≠ [] ∧ splitPath cs = (path, some (dropDot member))) := by
  by_cases h : '~' ∈ cs
  · obtain ⟨path, member, rfl, hpath⟩ := List.eq_append_cons_of_mem h
    refine .inr ⟨path, member, rfl, hpath, ?_⟩
    rw [splitPath_append hpath]
    cases hmember : dropDot member with
    | nil => exact .inl ⟨rfl, rfl⟩
    | cons c more => exact .inr ⟨nofun, rfl⟩
  · exact .inl ⟨h, splitPath_of_not_mem h⟩

theorem splitPath_qualifier_ne_nil (cs : List Char) : (splitPath cs).2 ≠ some [] := by
  rcases splitPath_cases cs with ⟨-, h⟩ | ⟨path, member, -, -, ⟨-, h⟩ | ⟨hne, h⟩⟩
  · rw [h]
    nofun
  · rw [h]
    nofun
  · rw [h]
    exact fun hnil => hne (Option.some.inj hnil)

/-- the parts of a path, written one after the other, are the path without its end -/
theorem splitPath_spelled (cs : List Char) : ∃ rest ∈ ["", ".", "~", "~."],
    cs = (splitPath cs).1 ++ (((splitPath cs).2.elim [] ('~' :: ·)) ++ rest.toList) := by
  rcases splitPath_cases cs with ⟨-, h⟩ | ⟨path, member, rfl, -, ⟨hnil, h⟩ | ⟨-, h⟩⟩
  · rw [h]
    rcases dropDot_cases cs with ⟨-, hsame⟩ | hdot
    · exact ⟨"", by simp, by simp [hsame]⟩
    · exact ⟨".", by simp, by simpa using hdot⟩
  · rw [h]
    rcases dropDot_cases member with ⟨-, hsame⟩ | hdot
    · obtain rfl : member = [] := hsame.symm.trans hnil
      exact ⟨"~", by simp, by simp⟩
    · rw [hnil] at hdot
      exact ⟨"~.", by simp, by simp [hdot]⟩
  · rw [h]
    rcases dropDot_cases member with ⟨-, hsame⟩ | hdot
    · exact ⟨"", by simp, by simp [hsame]⟩
    · exact ⟨".", by simp, by simpa using hdot⟩

theorem splitPath_isPrefix (cs : List Char) : (splitPath cs).1 <+: cs := by
  obtain ⟨rest, -, h⟩ := splitPath_spelled cs
  exact ⟨_, h.symm⟩

theorem splitPath_member_subset {cs member : List Char} (h : (splitPath cs).2 = some member) :
    member ⊆ cs := by
  obtain ⟨rest, -, hcs⟩ := splitPath_spelled cs
  intro c hc
  rw [hcs, h]
  simp [hc]

theorem tilde_not_mem_splitPath (cs : List Char) : '~' ∉ (splitPath cs).1 := by
  rcases splitPath_cases cs with ⟨htilde, -⟩ | ⟨path, member, -, htilde, ⟨-, h⟩ | ⟨-, h⟩⟩
  · exact fun hmem => htilde ((splitPath_isPrefix cs).subset hmem)
  · rwa [h]
  · rwa [h]

/-- the parts of a tight path neither begin nor end with a blank -/
theorem Bare.splitPath {cs : List Char} (h : Bare cs) (hdot : DotTight cs)
    (htilde : TildeTight cs) (hne : (splitPath cs).1 ≠ []) :
    Bare (splitPath cs).1 ∧ ∀ member ∈ (splitPath cs).2, Bare member := by
  have hhead := h.head_of_prefix (splitPath_isPrefix cs) hne
  rcases splitPath_cases cs with ⟨-, heq⟩ | ⟨path, member, rfl, hpath, hcut⟩
  · rw [heq] at hne ⊢
    exact ⟨h.dropDot hdot hne, nofun⟩
  · obtain ⟨hlast, hfirst⟩ := htilde path member hpath rfl
    have hbare (hne : path ≠ []) : ∃ c ∈ path.getLast?, isBlank c = false :=
      ⟨_, List.getLast?_eq_some_getLast hne, hlast _ (List.getLast?_eq_some_getLast hne)⟩
    rcases hcut with ⟨-, heq⟩ | ⟨hmember, heq⟩
    · rw [heq] at hne hhead ⊢
      exact ⟨⟨hhead, hbare hne⟩, nofun⟩
    · rw [heq] at hne hhead ⊢
      refine ⟨⟨hhead, hbare hne⟩, ?_⟩
      rintro _ ⟨⟩
      -- the member ends as the whole path does, and loses its dot as the path would
      have hmem : member ≠ [] := by
        rintro rfl
        exact hmember rfl
      have hsuffix : member <:+ path ++ '~' :: member :=
        List.suffix_append_of_suffix (List.suffix_cons _ _)
      have hwhole : Bare member :=
        ⟨⟨_, List.head?_eq_some_head hmem, hfirst _ (List.head?_eq_some_head hmem)⟩,
          h.last_of_suffix hsuffix hmem⟩
      exact hwhole.dropDot (hdot.of_suffix hsuffix) hmember

/-! ## words among tokens -/

/-- the words among the tokens are such as stand between marks -/
def Worded (tokens : List Token) : Prop := ∀ w, .word w ∈ tokens → IsWord w

theorem Worded.of_isInfix {a b : List Token} (h : Worded b) (hab : a <:+: b) : Worded a :=
  fun w hw => h w (hab.subset hw)

theorem Worded.take {tokens : List Token} (h : Worded tokens) (n : Nat) : Worded (tokens.take n) :=
  h.of_isInfix (List.take_prefix n tokens).isInfix

theorem Worded.drop {tokens : List Token} (h : Worded tokens) (n : Nat) : Worded (tokens.drop n) :=
  h.of_isInfix (List.drop_suffix n tokens).isInfix

theorem Worded.tail {t : Token} {tokens : List Token} (h : Worded (t :: tokens)) : Worded tokens :=
  h.of_isInfix (List.suffix_cons t tokens).isInfix

theorem Canonical.worded {tokens : List Token} (h : Canonical tokens) : Worded tokens := by
  intro v hv
  induction h with
  | nil => cases hv
  | word hw =>
    obtain rfl := Token.word.inj (List.mem_singleton.1 hv)
    exact hw
  | mark m _ ih => exact ih (by simpa using hv)
  | wordMark hw m _ ih =>
    rcases List.mem_cons.1 hv with hv | hv
    · obtain rfl := Token.word.inj hv
      exact hw
    · exact ih (by simpa using hv)

theorem Worded.bare_text {tokens : List Token} (h : Worded tokens) :
    ∀ t ∈ tokens, Bare t.text.toList := by
  intro t ht
  cases t with
  | mark m =>
    have hblank : isBlank m.char = false := by cases m <;> rfl
    rw [Token.text, String.toList_singleton]
    exact ⟨⟨_, rfl, hblank⟩, ⟨_, rfl, hblank⟩⟩
  | word w => exact (h w ht).bare

theorem bare_joined {tokens : List Token} (h : ∀ t ∈ tokens, Bare t.text.toList)
    (hne : tokens ≠ []) : Bare (Token.joined tokens).toList := by
  induction tokens with
  | nil => exact absurd rfl hne
  | cons t rest ih =>
    obtain ⟨ht, hrest⟩ := List.forall_mem_cons.1 h
    have hjoined : (Token.joined (t :: rest)).toList
        = t.text.toList ++ (Token.joined rest).toList := by
      simp [Token.joined]
    rw [hjoined]
    cases rest with
    | nil => simpa [Token.joined] using ht
    | cons next more => exact ht.append (ih hrest nofun)

/-- the marks in the joined text are tokens themselves -/
theorem mem_of_char_mem_joined {tokens : List Token} (h : Worded tokens) {m : Mark}
    (hm : m.char ∈ (Token.joined tokens).toList) : .mark m ∈ tokens := by
  rw [Token.joined, String.toList_join, List.mem_flatMap] at hm
  obtain ⟨_, htext, hchar⟩ := hm
  obtain ⟨t, ht, rfl⟩ := List.mem_map.1 htext
  cases t with
  | mark n =>
    rw [Token.text, String.toList_singleton, List.mem_singleton] at hchar
    have hsome := congrArg Mark.ofChar? hchar
    rw [Mark.ofChar?_char, Mark.ofChar?_char] at hsome
    obtain rfl := Option.some.inj hsome
    exact ht
  | word w =>
    have hnone := (h w ht).unmarked m.char hchar
    rw [Mark.ofChar?_char] at hnone
    cases hnone

/-! ## names -/

theorem isWord_plainName {w : String} (h : IsWord w) : IsWord (plainName w) := by
  unfold plainName
  split
  · decide
  · decide
  · decide
  · decide
  · exact h

/-- `name` stands for a type whose arguments follow the word `w` -/
structure GenericName (w name : String) : Prop where
  /-- the name is the word but for a dot at its end -/
  cut : endsInDot w.toList = false ∧ w = name ∨ w = name ++ "."
  unmarked : ∀ c ∈ name.toList, Mark.ofChar? c = none
  head : ∀ c ∈ name.toList.head?, isBlank c = false
  /-- it is empty or ends in a blank only if nothing or a blank stands before the dot -/
  tight : w ≠ "." → DotTight w.toList → IsWord name

theorem GenericName.name_eq {w name : String} (h : GenericName w name) :
    name = String.ofList (dropDot w.toList) := by
  rcases h.cut with ⟨hdot, rfl⟩ | rfl
  · rw [dropDot, hdot]
    exact String.ofList_toList.symm
  · simp [dropDot, endsInDot]

theorem genericName_dropDot {w : String} (h : IsWord w) :
    GenericName w (String.ofList (dropDot w.toList)) := by
  have hunmarked : ∀ c ∈ dropDot w.toList, Mark.ofChar? c = none :=
    fun c hc => h.unmarked c ((dropDot_isPrefix _).subset hc)
  refine ⟨?_, ?_, ?_, ?_⟩
  · rcases dropDot_cases w.toList with ⟨hundotted, hsame⟩ | hdot
    · exact .inl ⟨hundotted, by rw [hsame, String.ofList_toList]⟩
    · refine .inr (String.toList_inj.1 ?_)
      rw [String.toList_append, String.toList_ofList]
      exact hdot
  · rwa [String.toList_ofList]
  · intro c hc
    rw [String.toList_ofList] at hc
    have hne : dropDot w.toList ≠ [] := fun hnil => by simp [hnil] at hc
    obtain ⟨d, hd, hblank⟩ := h.bare.head_of_prefix (dropDot_isPrefix _) hne
    obtain rfl := Option.some.inj (hc.symm.trans hd)
    exact hblank
  · intro hlone htight
    have hne : dropDot w.toList ≠ [] := by
      intro hnil
      rcases dropDot_cases w.toList with ⟨-, hsame⟩ | hdot
      · exact h.bare.ne_nil (hsame.symm.trans hnil)
      · rw [hnil] at hdot
        exact hlone (String.toList_inj.1 hdot)
    rw [isWord_iff, String.toList_ofList]
    exact ⟨hunmarked, h.bare.dropDot htight hne⟩

/-- `name` and `qualifier` stand for a module whose path has these tokens, and a member of it -/
structure TargetName (path : List Token) (name : String) (qualifier : Option String) : Prop where
  /-- they are what the path is cut into -/
  cut : splitPath (Token.joined path).toList = (name.toList, qualifier.map String.toList)
  /-- written one after the other, they are the path without its end -/
  spelled : ∃ rest ∈ ["", ".", "~", "~."],
    Token.joined path = name ++ qualifier.elim "" ("~" ++ ·) ++ rest
  tilde : '~' ∉ name.toList
  head : ∃ c ∈ name.toList.head?, isBlank c = false
  member : qualifier ≠ some ""
  /-- a mark in the name or in the qualifier is one of the tokens -/
  marks : ∀ m : Mark, (m.char ∈ name.toList ∨ ∃ q ∈ qualifier, m.char ∈ q.toList) →
    .mark m ∈ path
  /-- no blanks are at their ends unless one is next to a cut -/
  tight : DotTight (Token.joined path).toList → TildeTight (Token.joined path).toList →
    Bare name.toList ∧ ∀ q ∈ qualifier, Bare q.toList

theorem targetName_of_splitPath {path : List Token} (h : Worded path) {name : String}
    {qualifier : Option String} (hname : name ≠ "")
    (hsplit : splitPath (Token.joined path).toList
      = (name.toList, qualifier.map String.toList)) : TargetName path name qualifier := by
  obtain ⟨hpath, hqualifier⟩ := Prod.ext_iff.1 hsplit
  dsimp only at hpath hqualifier
  have hne : (splitPath (Token.joined path).toList).1 ≠ [] := by
    rw [hpath]
    simpa using hname
  have hbare : Bare (Token.joined path).toList := by
    refine bare_joined h.bare_text ?_
    rintro rfl
    exact hne (by decide)
  refine ⟨hsplit, ?_, ?_, ?_, ?_, fun m hm => mem_of_char_mem_joined h ?_, fun hdot htilde => ?_⟩
  · obtain ⟨rest, hrest, hjoined⟩ := splitPath_spelled (Token.joined path).toList
    rw [hpath, hqualifier] at hjoined
    refine ⟨rest, hrest, String.toList_inj.1 ?_⟩
    rw [hjoined]
    cases qualifier <;> simp
  · exact hpath ▸ tilde_not_mem_splitPath _
  · exact hpath ▸ hbare.head_of_prefix (splitPath_isPrefix _) hne
  · rintro rfl
    exact splitPath_qualifier_ne_nil _ hqualifier
  · rcases hm with hm | ⟨q, rfl, hm⟩
    · rw [← hpath] at hm
      exact (splitPath_isPrefix _).subset hm
    · exact splitPath_member_subset hqualifier hm
  · obtain ⟨hfirst, hmember⟩ := hbare.splitPath hdot htilde hne
    refine ⟨hpath ▸ hfirst, ?_⟩
    rintro q rfl
    exact hmember _ hqualifier

end DocTypes
