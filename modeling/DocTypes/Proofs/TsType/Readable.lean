import DocTypes.Proofs.TsType.Reader

/-!
# Types with plain names

The texts of declared types tell the types apart where names are plain: letters, digits and a few
marks, nothing that could be taken for a part of the notation.

* `IsIdentifier`        a plain name;
* `TsType.Readable`     types with plain names throughout, as they are written on one line;
* `TsType.byName`       a type with references in the place of keywords, which look the same;
* `TsType.chars`        the text of a type as a list of characters, with an equation for each shape.
-/

namespace DocTypes

/-- a plain name -/
structure IsIdentifier (name : String) : Prop where
  nonempty : name.toList ≠ []
  plain : name.toList.all isNameChar = true

instance : DecidablePred IsIdentifier := fun name =>
  decidable_of_iff (name.toList ≠ [] ∧ name.toList.all isNameChar = true)
    ⟨fun h => ⟨h.1, h.2⟩, fun h => ⟨h.nonempty, h.plain⟩⟩

theorem IsIdentifier.isNameChar {name : String} (h : IsIdentifier name) :
    ∀ c ∈ name.toList, isNameChar c = true := List.all_eq_true.1 h.plain

theorem IsIdentifier.exists_cons {name : String} (h : IsIdentifier name) :
    ∃ c cs, name.toList = c :: cs ∧ DocTypes.isNameChar c = true := by
  obtain ⟨c, cs, hchars⟩ := List.exists_cons_of_ne_nil h.nonempty
  exact ⟨c, cs, hchars, h.isNameChar c (by rw [hchars]; exact List.mem_cons_self)⟩

namespace TsType

def isUnion : TsType → Bool
  | union _ => true
  | _ => false

/-- types with plain names throughout, whose unions have two members or more and are not nested, and
whose object types are those of one line -/
inductive Readable : TsType → Prop where
  | keyword (k : Keyword) : Readable (.keyword k)
  | this : Readable .this
  | reference {name : String} {args : List TsType} (hname : IsIdentifier name)
      (hargs : ∀ a ∈ args, Readable a) : Readable (.reference name args)
  | array {element : TsType} (h : Readable element) : Readable (.array element)
  | union {members : List TsType} (several : 2 ≤ members.length)
      (flat : ∀ m ∈ members, m.isUnion = false) (h : ∀ m ∈ members, Readable m) :
    Readable (.union members)
  | function {params : List (Param TsType)} {result : TsType} {rest : Option (Named TsType)}
      (hnames : ∀ p ∈ params, IsIdentifier p.name) (hparams : ∀ p ∈ params, Readable p.type)
      (hresult : Readable result) (hrestName : ∀ r ∈ rest, IsIdentifier r.name)
      (hrest : ∀ r ∈ rest, Readable r.type) : Readable (.function params result rest)
  | object {properties : List (Named TsType)} {optional : NameSet}
      {index : Option (TsType × TsType)} (hnames : ∀ p ∈ properties, IsIdentifier p.name)
      (hoptional : ∀ name ∈ optional, ∃ p ∈ properties, p.name = name)
      (hproperties : ∀ p ∈ properties, Readable p.type) (hkey : ∀ i ∈ index, Readable i.1)
      (hvalue : ∀ i ∈ index, Readable i.2) :
    Readable (.object properties optional index true [])
  | query {target : String} (h : IsIdentifier target) : Readable (.query target)
  | imported {path qualifier : String} {args : List TsType} (hpath : '"' ∉ path.toList)
      (hqualifier : IsIdentifier qualifier) (hargs : ∀ a ∈ args, Readable a) :
    Readable (.imported path qualifier args)

/-! ## keywords as references -/

mutual
/-- the type with each keyword, and `this`, made the reference of the same text -/
def byName : TsType → TsType
  | keyword k => reference k.text []
  | this => reference "this" []
  | reference name args => reference name (byNameAll args)
  | array element => array element.byName
  | union members => union (byNameAll members)
  | function params result rest =>
    function (byNameParams params) result.byName (byNameRest rest)
  | object properties optional index singleLine docs =>
    object (byNameProperties properties) optional (byNameIndex index) singleLine docs
  | query target => query target
  | imported path qualifier args => imported path qualifier (byNameAll args)
def byNameAll : List TsType → List TsType
  | [] => []
  | t :: ts => t.byName :: byNameAll ts
def byNameParams : List (Param TsType) → List (Param TsType)
  | [] => []
  | ⟨⟨name, type⟩, optional⟩ :: ps => ⟨⟨name, type.byName⟩, optional⟩ :: byNameParams ps
def byNameProperties : List (Named TsType) → List (Named TsType)
  | [] => []
  | ⟨name, type⟩ :: ps => ⟨name, type.byName⟩ :: byNameProperties ps
def byNameRest : Option (Named TsType) → Option (Named TsType)
  | none => none
  | some ⟨name, type⟩ => some ⟨name, type.byName⟩
def byNameIndex : Option (TsType × TsType) → Option (TsType × TsType)
  | none => none
  | some (key, value) => some (key.byName, value.byName)
end

theorem byNameAll_eq_map (ts : List TsType) : byNameAll ts = ts.map byName := by
  induction ts with
  | nil => rfl
  | cons t ts ih => rw [byNameAll, ih, List.map_cons]

def paramByName (p : Param TsType) : Param TsType := ⟨⟨p.name, p.type.byName⟩, p.optional⟩

def namedByName (p : Named TsType) : Named TsType := ⟨p.name, p.type.byName⟩

theorem byNameParams_eq_map (ps : List (Param TsType)) : byNameParams ps = ps.map paramByName := by
  induction ps with
  | nil => rfl
  | cons p ps ih => rw [byNameParams, ih, List.map_cons]; rfl

theorem byNameProperties_eq_map (ps : List (Named TsType)) :
    byNameProperties ps = ps.map namedByName := by
  induction ps with
  | nil => rfl
  | cons p ps ih => rw [byNameProperties, ih, List.map_cons]; rfl

theorem byNameRest_eq_map (rest : Option (Named TsType)) :
    byNameRest rest = rest.map namedByName := by cases rest <;> rfl

theorem byNameIndex_eq_map (index : Option (TsType × TsType)) :
    byNameIndex index = index.map fun i => (i.1.byName, i.2.byName) := by cases index <;> rfl

/-! ## texts as lists of characters -/

def chars (t : TsType) : List Char := t.text.toList

/-- the text of a type where a union or a function needs parentheses -/
def elementChars (t : TsType) : List Char :=
  if t.isCompound then '(' :: (t.chars ++ [')']) else t.chars

def argumentChars (args : List TsType) : List Char :=
  match args with
  | [] => []
  | args => '<' :: (Reader.comma.intercalate (args.map chars) ++ ['>'])

def typedChars (t : TsType) : List Char := ':' :: ' ' :: t.chars

def paramChars (p : Param TsType) : List Char :=
  p.name.toList ++ (if p.optional then ['?'] else []) ++ typedChars p.type

def restChars (p : Named TsType) : List Char :=
  '.' :: '.' :: '.' :: (p.name.toList ++ typedChars (.array p.type))

def indexChars (i : TsType × TsType) : List Char :=
  "[key: ".toList ++ (i.1.chars ++ ']' :: typedChars i.2)

/-- a property as a parameter -/
def propertyParam (optional : NameSet) (p : Named TsType) : Param TsType :=
  ⟨p, decide (p.name ∈ optional)⟩

theorem toList_parenthesized (s : String) :
    (parenthesized s).toList = '(' :: (s.toList ++ [')']) := by
  rw [parenthesized, String.toList_append, String.toList_append]
  rfl

theorem toList_argumentText (args : List TsType) :
    (argumentText (texts args)).toList = argumentChars args := by
  rw [texts_eq_map]
  cases args with
  | nil => rfl
  | cons a as =>
    show ("<" ++ ", ".intercalate ((a :: as).map text) ++ ">").toList = _
    rw [String.toList_append, String.toList_append, String.toList_intercalate, List.map_map]
    rfl

theorem chars_reference (name : String) (args : List TsType) :
    (reference name args).chars = name.toList ++ argumentChars args := by
  show (name ++ argumentText (texts args)).toList = _
  rw [String.toList_append, toList_argumentText]

theorem toList_optionalMark (optional : Bool) :
    (optionalMark optional).toList = if optional then ['?'] else [] := by cases optional <;> rfl

theorem chars_array (element : TsType) :
    (array element).chars = element.elementChars ++ ['[', ']'] := by
  show ((if element.isCompound then parenthesized element.text else element.text)
    ++ "[]").toList = _
  rw [String.toList_append]
  unfold elementChars
  split
  · rw [toList_parenthesized]
    rfl
  · rfl

theorem toList_paramText (name : String) (optional : Bool) (type : TsType) :
    (name ++ optionalMark optional ++ ": " ++ type.text).toList
      = paramChars ⟨⟨name, type⟩, optional⟩ := by
  rw [String.toList_append, String.toList_append, String.toList_append, toList_optionalMark,
    List.append_assoc]
  rfl

theorem map_toList_paramTexts (params : List (Param TsType)) :
    (paramTexts params).map String.toList = params.map paramChars := by
  induction params with
  | nil => rfl
  | cons p ps ih =>
    rw [paramTexts, List.map_cons, List.map_cons, toList_paramText, ih]

theorem map_toList_restTexts (rest : Option (Named TsType)) :
    (restTexts rest).map String.toList = (rest.map restChars).toList := by
  cases rest with
  | none => rfl
  | some p =>
    have harray : (if p.type.isCompound then parenthesized p.type.text else p.type.text) ++ "[]"
        = (array p.type).text := rfl
    rw [restTexts, List.map_singleton, String.append_assoc, harray]
    rw [String.toList_append, String.toList_append, String.toList_append, List.append_assoc]
    rfl

theorem map_toList_memberTexts {members : List TsType} (flat : ∀ m ∈ members, m.isUnion = false) :
    (memberTexts members).map String.toList = members.map elementChars := by
  induction members with
  | nil => rfl
  | cons m ms ih =>
    obtain ⟨hm, hms⟩ := List.forall_mem_cons.1 flat
    have hcompound : m.isCompound = m.isFunction := by
      cases m with
      | union => cases hm
      | _ => rfl
    rw [memberTexts, List.map_cons, List.map_cons, ih hms, elementChars, hcompound]
    split
    · rw [toList_parenthesized]
      rfl
    · rfl

theorem map_propertyTexts (optional : NameSet) (properties : List (Named TsType)) :
    (propertyTexts optional properties).map (fun m => m.text.toList)
      = (properties.map (propertyParam optional)).map paramChars := by
  induction properties with
  | nil => rfl
  | cons p ps ih =>
    rw [propertyTexts, List.map_cons, List.map_cons, List.map_cons, toList_paramText, ih]
    rfl

theorem map_indexTexts (index : Option (TsType × TsType)) :
    (indexTexts index).map (fun m => m.text.toList) = (index.map indexChars).toList := by
  cases index with
  | none => rfl
  | some i =>
    rw [indexTexts, List.map_singleton, String.toList_append, String.toList_append,
      String.toList_append, List.append_assoc, List.append_assoc]
    rfl

theorem chars_union {members : List TsType} (flat : ∀ m ∈ members, m.isUnion = false) :
    (union members).chars = Reader.bar.intercalate (members.map elementChars) := by
  show (" | ".intercalate (memberTexts members)).toList = _
  rw [String.toList_intercalate, map_toList_memberTexts flat]
  rfl

theorem chars_function (params : List (Param TsType)) (result : TsType)
    (rest : Option (Named TsType)) : (function params result rest).chars
      = '(' :: (Reader.comma.intercalate (params.map paramChars ++ (rest.map restChars).toList)
        ++ (')' :: (" => ".toList ++ result.chars))) := by
  show ("(" ++ ", ".intercalate (paramTexts params ++ restTexts rest) ++ ") => "
    ++ result.text).toList = _
  rw [String.toList_append, String.toList_append, String.toList_append,
    String.toList_intercalate, List.map_append, map_toList_paramTexts, map_toList_restTexts,
    List.append_assoc, List.append_assoc]
  rfl

theorem chars_object (properties : List (Named TsType)) (optional : NameSet)
    (index : Option (TsType × TsType)) : (object properties optional index true []).chars
      = match (properties.map (propertyParam optional)).map paramChars
          ++ (index.map indexChars).toList with
        | [] => ['{', '}']
        | slots => '{' :: ' ' :: (Reader.comma.intercalate slots ++ [' ', '}']) := by
  rw [← map_propertyTexts, ← map_indexTexts, ← List.map_append]
  show (objectText true [] (propertyTexts optional properties ++ indexTexts index)).toList = _
  generalize propertyTexts optional properties ++ indexTexts index = members
  cases members with
  | nil => rfl
  | cons m ms =>
    show ("\x7b " ++ ", ".intercalate ((m :: ms).map (·.text)) ++ " \x7d").toList = _
    rw [String.toList_append, String.toList_append, String.toList_intercalate, List.map_map]
    rfl

theorem chars_imported (path qualifier : String) (args : List TsType) :
    (imported path qualifier args).chars = "import".toList ++ '(' :: '"' :: (path.toList
      ++ '"' :: ')' :: '.' :: (qualifier.toList ++ argumentChars args)) := by
  show ("import(\"" ++ path ++ "\")." ++ qualifier ++ argumentText (texts args)).toList = _
  rw [String.toList_append, String.toList_append, String.toList_append, String.toList_append,
    toList_argumentText]
  simp only [List.append_assoc]
  rfl

theorem chars_query (target : String) :
    (query target).chars = "typeof".toList ++ ' ' :: target.toList := by
  show ("typeof " ++ target).toList = _
  rw [String.toList_append]
  rfl

end TsType

end DocTypes
