import DocTypes.Proofs.TsType.Reading

/-!
# Declared types can be told apart by their texts

The text of a type whose names are plain determines the type, whatever is nested in it, but for
keywords, which look like references.

* `TsType.beginsParams_element`   a type in parentheses is not taken for parameters;
* `TsType.member_reads`           a type is read back with all array marks behind it;
* `readType_reads`                a type is read back if enough levels may be nested;
* `byName_eq_of_text_eq`          types of the same text are the same.
-/

namespace DocTypes

open Reader (comma bar dropPrefix?_append)

namespace Reader

theorem beginsParams_name {word : String} (hword : IsIdentifier word) {c : Char}
    (hc : isNameChar c = false) (rest : List Char) :
    beginsParams (word.toList ++ c :: rest) = beginsParams (c :: rest) := by
  have hstop : (c :: rest).dropWhile isNameChar = c :: rest :=
    List.dropWhile_cons_of_neg (by rw [hc]; exact Bool.false_ne_true)
  rw [beginsParams, beginsParams, List.dropWhile_append_of_pos hword.isNameChar, hstop]

theorem marks_of_endsMember {rest : List Char} (h : EndsMember rest) (t : TsType) :
    marks t rest = (t, rest) := by
  cases h with
  | closes h => cases h <;> rfl
  | bar rest => rfl

end Reader

theorem Closes.dropPrefix?_bar {rest : List Char} (h : Closes rest) :
    rest.dropPrefix? bar = none := by
  cases h <;> rfl

namespace TsType

/-! ## parentheses -/

/-- parameters follow an opening parenthesis -/
theorem beginsParams_params {params : List (Param TsType)}
    (hnames : ∀ p ∈ params, IsIdentifier p.name) (last : Option (Named TsType))
    (rest : List Char) :
    Reader.beginsParams (comma.intercalate (params.map paramChars ++ (last.map restChars).toList)
      ++ ([')'] ++ rest)) = true := by
  cases params with
  | nil => cases last <;> rfl
  | cons p ps =>
    have hname := hnames p List.mem_cons_self
    obtain ⟨more, hmore⟩ := Reader.exists_intercalate_cons comma (paramChars p)
      (ps.map paramChars ++ (last.map restChars).toList)
    rw [List.map_cons, List.cons_append, hmore, paramChars, List.append_assoc, List.append_assoc,
      List.append_assoc]
    cases p.optional with
    | true => exact Reader.beginsParams_name hname (c := '?') rfl _
    | false => exact Reader.beginsParams_name hname (c := ':') rfl _

/-- no parameters do, where a blank or an array mark stands behind the first type -/
theorem beginsParams_element {t : TsType} (h : t.Readable) {c : Char} (hc : c = ' ' ∨ c = '[')
    (rest : List Char) : Reader.beginsParams (t.elementChars ++ c :: rest) = false := by
  have hname : ∀ word : String, IsIdentifier word →
      Reader.beginsParams (word.toList ++ c :: rest) = false := by
    intro word hword
    rcases hc with rfl | rfl
    · exact Reader.beginsParams_name hword rfl rest
    · exact Reader.beginsParams_name hword rfl rest
  induction h generalizing c rest with
  | keyword k => exact hname k.text (by cases k <;> decide)
  | this => exact hname "this" (by decide)
  | @reference name args hword _ _ =>
    show Reader.beginsParams ((reference name args).chars ++ c :: rest) = false
    rw [chars_reference, List.append_assoc]
    cases args with
    | nil => exact hname name hword
    | cons a as => exact Reader.beginsParams_name hword (c := '<') rfl _
  | @array element _ ih =>
    show Reader.beginsParams ((array element).chars ++ c :: rest) = false
    rw [chars_array, List.append_assoc]
    refine ih (c := '[') (.inr rfl) _ fun word hword => ?_
    exact Reader.beginsParams_name hword rfl _
  | union => rfl
  | function => rfl
  | @object properties optional index =>
    show Reader.beginsParams ((object properties optional index true []).chars ++ c :: rest) = false
    rw [chars_object]
    split <;> rfl
  | @query target _ =>
    show Reader.beginsParams ((query target).chars ++ c :: rest) = false
    rw [chars_query, List.append_assoc]
    have htypeof : IsIdentifier "typeof" := by decide
    exact Reader.beginsParams_name htypeof (c := ' ') rfl _
  | @imported path qualifier args =>
    show Reader.beginsParams ((imported path qualifier args).chars ++ c :: rest) = false
    rw [chars_imported, List.append_assoc]
    have himport : IsIdentifier "import" := by decide
    exact Reader.beginsParams_name himport (c := '(') rfl _

/-! ## members -/

theorem elementChars_of_simple {t : TsType} (h : t.isCompound = false) :
    t.elementChars = t.chars := if_neg (by rw [h]; exact Bool.false_ne_true)

theorem elementChars_of_compound {t : TsType} (h : t.isCompound = true) :
    t.elementChars = '(' :: (t.chars ++ [')']) := if_pos h

section
variable {inner : Reader TsType} {limit : Nat} (hinner : ReadsBelow inner limit)
include hinner

theorem primary_function {params : List (Param TsType)} {result : TsType}
    {last : Option (Named TsType)} {rest : List Char}
    (h : (function params result last).Readable)
    (hsize : sizeOf (function params result last) ≤ limit) (hrest : Closes rest) :
    Reader.primary inner limit ((function params result last).chars ++ rest)
      = some ((function params result last).byName, rest) := by
  have hread := function_reads hinner h hsize hrest
  have htext : (function params result last).chars ++ rest
      = '(' :: (comma.intercalate (params.map paramChars ++ (last.map restChars).toList)
        ++ ([')'] ++ (" => ".toList ++ (result.chars ++ rest)))) := by
    rw [chars_function, List.cons_append, List.append_assoc, List.cons_append, List.append_assoc]
    rfl
  cases h with
  | function hnames _ _ _ _ =>
  rw [htext, Reader.primary, beginsParams_params hnames, if_pos rfl, hread, byName]

/-- a union or a function in parentheses -/
theorem primary_group {t : TsType} (h : t.Readable) (hcompound : t.isCompound = true)
    (hsize : sizeOf t < limit) (rest : List Char) :
    Reader.primary inner limit (t.elementChars ++ rest) = some (t.byName, rest) := by
  have hstart : Reader.beginsParams (t.chars ++ ')' :: rest) = false := by
    cases h with
    | @union members several flat hmembers =>
      match members, several with
      | first :: second :: more, _ =>
        rw [chars_union flat, List.map_cons, List.map_cons, List.intercalate_cons_cons,
          List.append_assoc, List.append_assoc]
        exact beginsParams_element (hmembers first List.mem_cons_self) (.inl rfl) _
    | function =>
      rw [chars_function]
      rfl
    | _ => cases hcompound
  have hread := hinner t h hsize (')' :: rest) (.paren rest)
  have hclosing : (')' :: rest).dropPrefix? [')'] = some rest := dropPrefix?_append [')'] rest
  rw [elementChars_of_compound hcompound, List.cons_append, List.append_assoc]
  show (if Reader.beginsParams (t.chars ++ ')' :: rest) = true then _
    else Reader.group inner (t.chars ++ ')' :: rest)) = _
  rw [hstart, if_neg Bool.false_ne_true, Reader.group, hread]
  simp only [Option.bind_eq_bind, Option.bind_some, hclosing]

/-- a type that is no array, with parentheses if it needs them -/
theorem primary_element {t : TsType} (h : t.Readable) (harray : ∀ e, t ≠ array e)
    (hsize : sizeOf t ≤ limit) (hcompound : t.isCompound = true → sizeOf t < limit)
    {rest : List Char} (hrest : EndsElement rest) :
    Reader.primary inner limit (t.elementChars ++ rest) = some (t.byName, rest) := by
  cases h with
  | keyword k =>
    have hname : IsIdentifier k.text := by cases k <;> decide
    rw [keyword.sizeOf_spec] at hsize
    exact primary_reference hinner hname [] nofun (by rw [List.nil.sizeOf_spec]; omega) hrest
  | this =>
    have hname : IsIdentifier "this" := by decide
    exact primary_reference hinner hname [] nofun hsize hrest
  | reference hname hargs =>
    rw [reference.sizeOf_spec] at hsize
    rw [elementChars_of_simple rfl, chars_reference, List.append_assoc]
    exact primary_reference hinner hname _ hargs (by omega) hrest
  | array => exact absurd rfl (harray _)
  | union several flat hmembers =>
    exact primary_group hinner (.union several flat hmembers) rfl (hcompound rfl) rest
  | function hnames hparams hresult hrestName hrestType =>
    exact primary_group hinner (.function hnames hparams hresult hrestName hrestType) rfl
      (hcompound rfl) rest
  | object hnames hoptional hproperties hkey hvalue =>
    exact primary_object hinner (.object hnames hoptional hproperties hkey hvalue) hsize rest
  | query htarget => exact primary_query htarget hrest
  | imported hpath hqualifier hargs =>
    rw [imported.sizeOf_spec] at hsize
    exact primary_imported hinner hpath hqualifier hargs (by omega) hrest

theorem member_reads {t : TsType} (h : t.Readable) (hsize : sizeOf t ≤ limit)
    (hcompound : t.isCompound = true → sizeOf t < limit) {rest : List Char}
    (hrest : EndsElement rest) :
    Reader.member inner limit (t.elementChars ++ rest) = some (Reader.marks t.byName rest) := by
  have hreadable := h
  induction h generalizing rest with
  | @array element h ih =>
    rw [array.sizeOf_spec] at hsize
    have hread := ih (by omega) (fun _ => by omega) (.mark rest) h
    rw [elementChars_of_simple rfl, chars_array, List.append_assoc]
    exact hread
  | _ =>
    rw [Reader.member, primary_element hinner hreadable nofun hsize hcompound hrest]
    rfl

/-! ## whole types -/

omit hinner in
theorem sizeOf_pos (t : TsType) : 0 < sizeOf t := by
  cases t <;> simp only [keyword.sizeOf_spec, this.sizeOf_spec, reference.sizeOf_spec,
    array.sizeOf_spec, union.sizeOf_spec, function.sizeOf_spec, object.sizeOf_spec,
    query.sizeOf_spec, imported.sizeOf_spec] <;> omega

omit hinner in
/-- a single member is the type itself -/
theorem union_of_member {input rest : List Char} {t : TsType} (hlimit : 0 < limit)
    (hrest : Closes rest) (h : Reader.member inner limit input = some (t, rest)) :
    Reader.union inner limit input = some (t, rest) := by
  have hend : rest.dropPrefix? bar = none := hrest.dropPrefix?_bar
  obtain ⟨k, hk⟩ : ∃ k, limit = k + 1 := ⟨limit - 1, by omega⟩
  have hone : Reader.separated (Reader.member inner limit) bar limit input = some ([t], rest) := by
    have hsucc : Reader.separated (Reader.member inner limit) bar (k + 1) input
        = some ([t], rest) := by
      rw [Reader.separated, h]
      simp only [Option.bind_eq_bind, Option.bind_some, hend]
    rwa [← hk] at hsucc
  rw [Reader.union, hone]
  rfl

theorem union_reads {t : TsType} (h : t.Readable) (hsize : sizeOf t ≤ limit) {rest : List Char}
    (hrest : Closes rest) :
    Reader.union inner limit (t.chars ++ rest) = some (t.byName, rest) := by
  have hpos := sizeOf_pos t
  have hlimit : 0 < limit := by omega
  have hsimple : t.isCompound = false →
      Reader.union inner limit (t.chars ++ rest) = some (t.byName, rest) := by
    intro hsimple
    have hread := member_reads hinner h hsize
      (fun hcompound => by cases hsimple.symm.trans hcompound) hrest.endsElement
    rw [elementChars_of_simple hsimple, Reader.marks_of_endsMember (.closes hrest)] at hread
    exact union_of_member hlimit hrest hread
  cases h with
  | @union members several flat hmembers =>
    rw [union.sizeOf_spec] at hsize
    have hitem : ∀ m ∈ members, ∀ more, more = rest ∨ (∃ tail, more = bar ++ tail) →
        Reader.member inner limit (m.elementChars ++ more) = some (m.byName, more) := by
      intro m hm more hmore
      have hlt := List.sizeOf_lt_of_mem hm
      have hends : EndsMember more := by
        rcases hmore with rfl | ⟨tail, rfl⟩
        · exact .closes hrest
        · exact .bar tail
      have hread := member_reads hinner (hmembers m hm) (by omega) (fun _ => by omega)
        (.member hends)
      rwa [Reader.marks_of_endsMember hends] at hread
    have hend : rest.dropPrefix? bar = none := hrest.dropPrefix?_bar
    have hlength := length_lt_sizeOf members
    match members, several with
    | first :: second :: more, _ =>
      have hread := Reader.separated_intercalate (Reader.member inner limit) bar hend
        (List.cons_ne_nil first (second :: more)) hitem limit (by omega)
      rw [chars_union flat, Reader.union, hread, byName, byNameAll_eq_map]
      rfl
  | @function params result last hnames hparams hresult hrestName hrestType =>
    have hreadable : (function params result last).Readable :=
      .function hnames hparams hresult hrestName hrestType
    refine union_of_member hlimit hrest ?_
    rw [Reader.member, primary_function hinner hreadable hsize hrest]
    exact congrArg some (Reader.marks_of_endsMember (.closes hrest) _)
  | _ => exact hsimple rfl

end

end TsType

theorem readType_reads {limit : Nat} {t : TsType} (h : t.Readable) (hsize : sizeOf t ≤ limit)
    {rest : List Char} (hrest : Closes rest) :
    readType limit (t.chars ++ rest) = some (t.byName, rest) := by
  induction limit generalizing t rest with
  | zero =>
    have hpos := t.sizeOf_pos
    omega
  | succ limit ih =>
    have hinner : ReadsBelow (readType limit) (limit + 1) := fun t ht hlt _ hrest =>
      ih ht (Nat.le_of_lt_succ hlt) hrest
    exact TsType.union_reads hinner h hsize hrest

/-- types of the same text are the same, but for keywords and references of the same name -/
theorem byName_eq_of_text_eq {s t : TsType} (hs : s.Readable) (ht : t.Readable)
    (h : s.text = t.text) : s.byName = t.byName := by
  have hchars : s.chars = t.chars := congrArg String.toList h
  have hs := readType_reads hs (Nat.le_max_left (sizeOf s) (sizeOf t)) .nil
  have ht := readType_reads ht (Nat.le_max_right (sizeOf s) (sizeOf t)) .nil
  rw [hchars] at hs
  exact congrArg Prod.fst (Option.some.inj (hs.symm.trans ht))

/-- a function in parentheses as a member and another one as an element, with names for keywords -/
theorem byName_eq_of_text_eq_of_function :
    let callback (type : TsType) : TsType := .function [⟨⟨"a", type⟩, true⟩] (.query "b") none
    let rest (type : TsType) : TsType := .function [] (.union [type, callback type])
      (some ⟨"c", callback type⟩)
    (rest .this).text = "(...c: ((a?: this) => typeof b)[]) => this | ((a?: this) => typeof b)" ∧
      (rest (.reference "this" [])).text = (rest .this).text ∧
      (rest (.reference "this" [])).byName = (rest .this).byName := by
  intro callback rest
  have ha : IsIdentifier "a" := by decide
  have hc : IsIdentifier "c" := by decide
  have hcallback : ∀ {type : TsType}, type.Readable → (callback type).Readable := fun h =>
    .function (List.forall_mem_singleton.2 ha) (List.forall_mem_singleton.2 h)
      (.query (by decide)) nofun nofun
  have hrest : ∀ {type : TsType}, type.isUnion = false → type.Readable →
      (rest type).Readable := by
    intro type hflat h
    refine .function nofun nofun (.union (Nat.le_refl 2) ?_ ?_) ?_ ?_
    · exact List.forall_mem_cons.2 ⟨hflat, List.forall_mem_singleton.2 rfl⟩
    · exact List.forall_mem_cons.2 ⟨h, List.forall_mem_singleton.2 (hcallback h)⟩
    · rintro _ ⟨⟩
      exact hc
    · rintro _ ⟨⟩
      exact hcallback h
  have htext : (rest (.reference "this" [])).text = (rest .this).text := by decide
  exact ⟨by decide, htext, byName_eq_of_text_eq (hrest rfl (.reference (by decide) nofun))
    (hrest rfl .this) htext⟩

end DocTypes
