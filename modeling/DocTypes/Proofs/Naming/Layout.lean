import DocTypes.Naming.Callback
import DocTypes.Proofs.Growth.Source
import DocTypes.Proofs.Token.Written
import DocTypes.TsType.Equality

/-!
# Names and their layout

The blanks around the marks of a name and at its two ends do not bear on the type that it stands
for, although some names are looked up as they are written, before anything is read as tokens.  There
is one exception: `function()` is the name of functions in general, and with a blank inside its
parentheses it is read as a function without parameters.

* `tokenize_stripped`      the blanks at the ends of a text are in no token;
* `stripped_or_mark`       names with the same tokens are the same but for the blanks at their ends,
                           or have a mark;
* `NameForm.ofName_mark`   a name with a mark is read as an expression, or is `function()`;
* `NameForm.ofName_alike`  names with the same tokens have forms that come to the same;
* `resolveName_layout`     they stand for the same type, in any record.
-/

namespace DocTypes

open Text (isBlank trim stripped capitals upper)

/-! ## the blanks at the ends -/

theorem Written.append_blank {ts : List Token} {cs gap : List Char} (h : Written ts cs)
    (hgap : Blank gap) : Written ts (cs ++ gap) := by
  induction h with
  | nil hgap' => exact .nil (hgap'.append hgap)
  | cons hgap' _ ih =>
    rw [List.append_assoc, List.append_assoc]
    exact .cons hgap' ih

theorem tokenize_stripped (s : String) : tokenize (stripped s) = tokenize s := by
  obtain ⟨gap, gap', hgap, hgap', hs⟩ := exists_trim s.toList
  have hwritten : Written (tokenize (stripped s)) (trim s.toList) := by
    have htext : (stripped s).toList = trim s.toList := String.toList_ofList
    rw [← htext]
    exact written_tokenize (stripped s)
  refine (tokenize_eq_iff.2 ⟨canonical_tokenize _, ?_⟩).symm
  rw [hs]
  exact (hwritten.append_blank hgap').indent hgap

section
variable {s t : String}

theorem stripped_of_tokenize_nil (h : tokenize s = []) : stripped s = "" := by
  have hwritten := written_tokenize s
  rw [h] at hwritten
  obtain ⟨hgap⟩ := hwritten
  rw [stripped, trim_of_blank hgap]

theorem stripped_of_tokenize_word {w : String} (h : tokenize s = [.word w]) : stripped s = w := by
  have hwritten := written_tokenize s
  have hcanonical := canonical_tokenize s
  rw [h] at hwritten hcanonical
  obtain _ | ⟨hw⟩ := hcanonical
  generalize hcs : s.toList = cs at hwritten
  obtain _ | ⟨hgap, ⟨hgap'⟩⟩ := hwritten
  rw [stripped, hcs, Token.text, trim_word hw hgap hgap', String.ofList_toList]

/-- names with the same tokens are the same but for the blanks at their ends, or have a mark -/
theorem stripped_or_mark (h : tokenize s = tokenize t) :
    stripped s = stripped t ∨ ∃ m, .mark m ∈ tokenize s := by
  cases hs : tokenize s with
  | nil =>
    rw [stripped_of_tokenize_nil hs, stripped_of_tokenize_nil (h.symm.trans hs)]
    exact .inl rfl
  | cons first rest =>
    have hcanonical := canonical_tokenize s
    rw [hs] at hcanonical
    cases hcanonical with
    | word hw =>
      rw [stripped_of_tokenize_word hs, stripped_of_tokenize_word (h.symm.trans hs)]
      exact .inl rfl
    | mark m => exact .inr ⟨m, List.mem_cons_self⟩
    | wordMark hw m => exact .inr ⟨m, List.mem_cons_of_mem _ List.mem_cons_self⟩

end

/-! ## names with a mark -/

theorem Written.char_mem {ts : List Token} {cs : List Char} {m : Mark} (h : Written ts cs)
    (hm : .mark m ∈ ts) : m.char ∈ cs := by
  induction h with
  | nil => cases hm
  | @cons t ts gap cs hgap _ ih =>
    rcases List.mem_cons.1 hm with rfl | hm
    · have htext : m.char ∈ (Token.mark m).text.toList := by
        rw [Token.text, String.toList_singleton]
        exact List.mem_singleton.2 rfl
      exact List.mem_append_right gap (List.mem_append_left cs htext)
    · exact List.mem_append_right gap (List.mem_append_right _ (ih hm))

theorem char_mem_stripped {s : String} {m : Mark} (hm : .mark m ∈ tokenize s) :
    m.char ∈ (stripped s).toList :=
  (written_tokenize (stripped s)).char_mem (by rwa [tokenize_stripped])

/-- a character is its own capital form, or a letter, as those of its capital form are -/
theorem capitals_cases (c : Char) : capitals c = [c] ∨
    (Mark.ofChar? c = none ∧ isBlank c = false) ∧ capitals c ≠ [] ∧
      ((capitals c).all fun d => (Mark.ofChar? d).isNone) = true := by
  by_cases hc : 97 ≤ c.toNat ∧ c.toNat ≤ 122
  · have hsmall : ∀ k : Fin 26, let c := Char.ofNat (97 + k)
        (Mark.ofChar? c = none ∧ isBlank c = false) ∧ capitals c ≠ [] ∧
          ((capitals c).all fun d => (Mark.ofChar? d).isNone) = true := by decide
    have hletter := hsmall ⟨c.toNat - 97, by omega⟩
    have hofNat : Char.ofNat (97 + (c.toNat - 97)) = c := by
      rw [Nat.add_sub_cancel' hc.1, Char.ofNat_toNat]
    rw [hofNat] at hletter
    exact .inr hletter
  · unfold capitals
    split
    case h_11 =>
      refine .inl (congrArg ([·]) ?_)
      unfold Char.toUpper
      exact dif_neg hc
    all_goals exact .inr (by decide)

theorem capitals_mark (m : Mark) : capitals m.char = [m.char] := by cases m <;> rfl

theorem char_mem_upper {m : Mark} {name : String} (hm : m.char ∈ name.toList) :
    m.char ∈ (upper name).toList := Text.mem_upper (capitals_mark m) hm

/-- no keyword has a mark -/
theorem ofName?_mark {m : Mark} {name : String} (hm : m.char ∈ name.toList) :
    Keyword.ofName? name = none := by
  have hupper := char_mem_upper hm
  have hlabels : ∀ k ∈ Keyword.all,
      (k.label.toList.all fun c => (Mark.ofChar? c).isNone) = true := by decide +kernel
  have hbool : upper name ≠ "BOOL" := by
    intro h
    rw [h] at hupper
    cases m <;> exact absurd hupper (by decide)
  rw [Keyword.ofName?, Keyword.ofCapitals?, if_neg hbool, List.find?_eq_none]
  intro k hk hlabel
  rw [← beq_iff_eq.1 hlabel] at hupper
  have hnone := List.all_eq_true.1 (hlabels k hk) _ hupper
  rw [Mark.ofChar?_char] at hnone
  cases hnone

/-- a name with a mark is read as an expression, or is `function()` -/
theorem NameForm.ofName_mark {s : String} {m : Mark} (hm : .mark m ∈ tokenize s) :
    ofName (some s)
      = if isCallableName (stripped s) then callable else expression (stripped s) := by
  have hchar := char_mem_stripped hm
  have hempty : stripped s ≠ "" := by
    intro h
    rw [h] at hchar
    cases hchar
  have hstar : stripped s ≠ "*" := by
    intro h
    rw [h] at hchar
    cases m <;> exact absurd hchar (by decide)
  simp only [ofName, Option.getD_some]
  rw [if_neg hempty, if_neg hstar, ofName?_mark hchar]

/-! ## the name of functions in general -/

/-- a text whose capital form ends in a mark ends in that mark -/
theorem exists_of_capitals_append {cs front : List Char} {m : Mark}
    (h : cs.flatMap capitals = front ++ [m.char]) :
    ∃ cs', cs = cs' ++ [m.char] ∧ cs'.flatMap capitals = front := by
  rcases List.eq_nil_or_concat cs with rfl | ⟨cs', c, rfl⟩
  · cases front <;> cases h
  · rw [List.concat_eq_append, List.flatMap_append, List.flatMap_singleton] at h
    have hc : c = m.char := by
      rcases capitals_cases c with hself | ⟨-, hne, hunmarked⟩
      · rw [hself] at h
        exact (List.append_singleton_inj.1 h).2
      · obtain ⟨ds, d, hds⟩ : ∃ ds d, capitals c = ds ++ [d] :=
          ⟨_, _, (List.dropLast_concat_getLast hne).symm⟩
        rw [hds, ← List.append_assoc] at h
        have hd : d = m.char := (List.append_singleton_inj.1 h).2
        have hnone := List.all_eq_true.1 hunmarked d (by simp [hds])
        rw [hd, Mark.ofChar?_char] at hnone
        cases hnone
    subst hc
    rw [capitals_mark] at h
    exact ⟨cs', List.concat_eq_append, (List.append_singleton_inj.1 h).1⟩

/-- characters that are neither marks nor blanks make a word -/
theorem isWord_of_plain {cs : List Char} (hne : cs ≠ [])
    (h : ∀ c ∈ cs, Mark.ofChar? c = none ∧ isBlank c = false) : IsWord (String.ofList cs) := by
  obtain ⟨first, rest, rfl⟩ := List.exists_cons_of_ne_nil hne
  refine ⟨?_, ⟨first, ?_, (h first List.mem_cons_self).2⟩,
    ⟨(first :: rest).getLast hne, ?_, (h _ (List.getLast_mem hne)).2⟩⟩
  · rw [String.toList_ofList]
    exact fun c hc => (h c hc).1
  · rw [String.toList_ofList]
    rfl
  · rw [String.toList_ofList]
    exact List.getLast?_eq_some_getLast hne

/-- among the names with a mark, only `function()` is that of functions in general -/
theorem tokenize_of_isCallableName {s : String} {m : Mark} (hm : .mark m ∈ tokenize s)
    (h : isCallableName (stripped s) = true) :
    ∃ w, isFunctionWord w = true ∧ tokenize s = [.word w, .mark .lparen, .mark .rparen] := by
  have hchar := char_mem_upper (char_mem_stripped hm)
  have hupper : upper (stripped s) = "FUNCTION()" := by
    rcases Bool.or_eq_true_iff.1 h with hword | hcall
    · rw [beq_iff_eq.1 hword] at hchar
      cases m <;> exact absurd hchar (by decide)
    · exact beq_iff_eq.1 hcall
  have hcapitals : (stripped s).toList.flatMap capitals
      = ("FUNCTION".toList ++ [Mark.lparen.char]) ++ [Mark.rparen.char] := by
    have htext := congrArg String.toList hupper
    rw [upper, String.toList_ofList] at htext
    exact htext
  obtain ⟨cs, hcs, hfront⟩ := exists_of_capitals_append hcapitals
  obtain ⟨word, rfl, hword⟩ := exists_of_capitals_append hfront
  have hletter : ∀ c ∈ word, Mark.ofChar? c = none ∧ isBlank c = false := by
    intro c hc
    have hfunction :
        ("FUNCTION".toList.all fun d => (Mark.ofChar? d).isNone && !isBlank d) = true := by decide
    rcases capitals_cases c with hself | ⟨hplain, -⟩
    · have hmem : c ∈ "FUNCTION".toList := by
        rw [← hword]
        exact List.mem_flatMap.2 ⟨c, hc, by rw [hself]; exact List.mem_singleton.2 rfl⟩
      have hplain := List.all_eq_true.1 hfunction c hmem
      rwa [Bool.and_eq_true, Option.isNone_iff_eq_none, Bool.not_eq_true'] at hplain
    · exact hplain
  have hne : word ≠ [] := by
    rintro rfl
    cases hword
  have hname : stripped s
      = Token.joined [.word (String.ofList word), .mark .lparen, .mark .rparen] := by
    refine String.toList_injective (hcs.trans ?_)
    simp [Token.joined, Token.text, String.join, Mark.char]
  refine ⟨String.ofList word, ?_, ?_⟩
  · rw [isFunctionWord, upper, String.toList_ofList, hword]
    rfl
  · rw [← tokenize_stripped, hname]
    exact tokenize_joined (.wordMark (isWord_of_plain hne hletter) .lparen (.mark .rparen .nil))

/-! ## forms -/

namespace NameForm

/-- forms that come to the same type -/
inductive Alike : NameForm → NameForm → Prop where
  | same (form : NameForm) : Alike form form
  | blank (written written' : String) : Alike (blank written) (blank written')
  | expression {text text' : String} (h : tokenize text = tokenize text') :
    Alike (expression text) (expression text')

theorem ofName_alike {s t : String} (h : tokenize s = tokenize t)
    (hfunction : ∀ w, isFunctionWord w = true →
      tokenize s ≠ [.word w, .mark .lparen, .mark .rparen]) :
    Alike (ofName (some s)) (ofName (some t)) := by
  rcases stripped_or_mark h with hstripped | ⟨m, hm⟩
  · simp only [ofName, Option.getD_some, hstripped]
    split
    · exact .blank s t
    · exact .same _
  · -- a name with a mark is found in no table but that of the names of functions
    have hexpression {u : String} (hu : tokenize u = tokenize s) :
        ofName (some u) = expression (stripped u) := by
      rw [← hu] at hm
      refine (ofName_mark hm).trans (if_neg fun hcallable => ?_)
      obtain ⟨w, hw, htokens⟩ := tokenize_of_isCallableName hm hcallable
      exact hfunction w hw (hu.symm.trans htokens)
    rw [hexpression rfl, hexpression h.symm]
    refine .expression ?_
    rw [tokenize_stripped, tokenize_stripped, h]

theorem Alike.type {form form' : NameForm} (h : Alike form form') (config : Config)
    (context : Option String) :
    (form.type config context).result? = (form'.type config context).result? := by
  cases h with
  | same => rfl
  | blank written written' =>
    unfold NameForm.type
    rw [Run.result?_bind, Run.result?_bind, Run.result?_warn, Run.result?_warn]
  | expression h =>
    show (expressionType config _).result? = (expressionType config _).result?
    rw [expressionType, expressionType, Run.result?_bind, Run.result?_bind,
      Node.ofText_alike config h]

end NameForm

theorem Doclet.nameWith_alike {name name' : Option String}
    (h : (NameForm.ofName name).Alike (NameForm.ofName name')) (config : Config)
    (callback : Doclet → Run TsType) (d : Doclet) :
    (d.nameWith config callback name).result? = (d.nameWith config callback name').result? := by
  unfold nameWith
  generalize NameForm.ofName name = form at h
  generalize NameForm.ofName name' = form' at h
  have htype := h.type config (some d.described)
  cases h with
  | same => rfl
  | blank => exact htype
  | expression => exact htype

/-- Names with the same tokens stand for the same type, with or without a record, or both for none.
Only of `function()` the blanks bear on the type. -/
theorem resolveName_layout {s t : String} (h : tokenize s = tokenize t)
    (hfunction : ∀ w, isFunctionWord w = true →
      tokenize s ≠ [.word w, .mark .lparen, .mark .rparen])
    (config : Config) (doclet : Option Doclet) :
    (resolveName config doclet (some s)).result? = (resolveName config doclet (some t)).result? := by
  have hforms := NameForm.ofName_alike h hfunction
  cases doclet with
  | none => exact hforms.type config none
  | some d => exact Doclet.nameWith_alike hforms config _ d

/-- blanks of several kinds at the ends and around the marks, in the record of a callback -/
theorem resolveName_layout_of_blanks :
    let s := "Map.<string,function(Foo):*>"
    let t := "\u3000Map.<\tstring\n, function(\u00a0Foo ) : * >\n"
    let doclet : Doclet := { kind := some "typedef" }
    (resolveName { strict := true } (some doclet) (some s)).result?
      = (resolveName { strict := true } (some doclet) (some t)).result? := by
  intro s t doclet
  have htokens : tokenize s = tokenize t := by decide +kernel
  refine resolveName_layout htokens (fun w _ => ?_) _ _
  have hs : tokenize s = [.word "Map.", .mark .lt, .word "string", .mark .comma, .word "function",
      .mark .lparen, .word "Foo", .mark .rparen, .mark .colon, .word "*", .mark .gt] := by
    decide +kernel
  rw [hs]
  nofun

/-- with a blank inside the parentheses, the name of functions in general is that of a function
without a result -/
theorem resolveName_layout_of_function :
    tokenize "function()" = tokenize "function( )" ∧
      (resolveName {} none (some "function()")).result?
        ≠ (resolveName {} none (some "function( )")).result? := by
  have hnamed : (resolveName {} none (some "function()")).result? = some callableType := by
    decide +kernel
  have hread : (resolveName {} none (some "function( )")).result?
      = some (.function [] (.reference "void" []) (some anyParams)) := by decide +kernel
  refine ⟨by decide +kernel, ?_⟩
  rw [hnamed, hread]
  nofun

end DocTypes
