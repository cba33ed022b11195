import DocTypes.Doclet.Record

/-!
# Records written and read back

A record that is written as an object and read from it is the same record, save for empty texts: a
longname, a type of `this` or a description that is empty is not written, and is read as null.  All
else survives, such as a list without items, a kind that is null, and a default value of `0` or
`false`.

* `Doclet.withoutEmptyTexts`  a record with null in the place of its empty texts;
* `Property.read_written`     what is read of a written property, and in the same way of a result;
* `Doclet.read_written`       what is read of a written record;
* `doclet_read_back`          when this is the record itself, and what is written of it again.
-/

namespace DocTypes

/-! ## looking up written entries -/

section
variable {α : Type} (key other : String)

@[simp] theorem entry?_object (entries : List (String × Json)) :
    Json.entry? key (.object entries) = entries.lookup key := rfl

@[simp] theorem lookup_entry (value : Json) (entries : List (String × Json)) :
    ((other, value) :: entries).lookup key
      = if key = other then some value else entries.lookup key := by
  by_cases h : key = other
  · rw [if_pos h, h, List.lookup_cons_self]
  · rw [if_neg h, List.lookup_cons, beq_eq_false_iff_ne.2 h]

@[simp] theorem lookup_optionalEntry (write : α → Json) (value : Option α) :
    (optionalEntry other write value).lookup key
      = if key = other then value.map write else none := by
  cases value with
  | none => exact (ite_self none).symm
  | some a => exact lookup_entry key other (write a) []

/-- a flag as an entry: there only if it is set -/
def shownFlag (flag : Bool) : Option Json := if flag then some (.bool true) else none

@[simp] theorem lookup_flagEntry (flag : Bool) :
    (flagEntry other flag).lookup key = if key = other then shownFlag flag else none := by
  cases flag with
  | false => exact (ite_self none).symm
  | true => exact lookup_entry key other (.bool true) []

/-- a value as an entry: there only if it is not null -/
def shownValue (value : Json) : Option Json := if value = .null then none else some value

@[simp] theorem lookup_value (value : Json) :
    (if value = .null then [] else [(other, value)]).lookup key
      = if key = other then shownValue value else none := by
  unfold shownValue
  split
  · exact (ite_self none).symm
  · exact lookup_entry key other value []

end

/-! ## reading an entry -/

section
variable {record : Json} {key : String}

theorem Json.text?_ofText? (s : Option String) : (Json.ofText? s).text? = s := by
  cases s <;> rfl

theorem elim_text?_of_entry {absent s : Option String}
    (h : record.entry? key = some (.ofText? s)) :
    (record.entry? key).elim absent Json.text? = s := by
  rw [h]
  exact Json.text?_ofText? s

theorem textAt_of_entry {s : Option String} (h : record.entry? key = s.map .text) :
    record.textAt key = s := by
  rw [Json.textAt, h]
  cases s <;> rfl

theorem flagAt_of_entry {flag : Bool} (h : record.entry? key = shownFlag flag) :
    record.flagAt key = flag := by
  rw [Json.flagAt, h]
  cases flag <;> rfl

theorem getD_of_entry {value : Json} (h : record.entry? key = shownValue value) :
    (record.entry? key).getD .null = value := by
  rw [h, shownValue]
  split
  · rename_i hnull
    exact hnull.symm
  · rfl

theorem TypeNames.read_written (names : TypeNames) : ofJson names.toJson = names := by
  show (names.map Json.ofText?).map Json.text? = names
  rw [List.map_map]
  exact List.map_id'' Json.text?_ofText? names

theorem typeAt_of_entry {type : Option TypeNames}
    (h : record.entry? "type" = type.map TypeNames.toJson) : typeAt record = type := by
  rw [typeAt, Json.part?, h]
  cases type with
  | none => rfl
  | some names => exact congrArg some names.read_written

/-- the items of a list are read one by one -/
theorem items_of_entry {α : Type} {write : α → Json} {read : Json → α} {asRead : α → α}
    (hread : ∀ a, read (write a) = asRead a) {items : Option (List α)}
    (h : record.entry? key = items.map fun as => .array (as.map write)) :
    (record.part? key).map (fun list => list.items.map read) = items.map (·.map asRead) := by
  rw [Json.part?, h]
  cases items with
  | none => rfl
  | some as =>
    show some ((as.map write).map read) = some (as.map asRead)
    rw [List.map_map]
    exact congrArg some (List.map_congr_left fun a _ => hread a)

end

/-! ## records without empty texts -/

theorem given_eq_self_iff {s : Option String} : given s = s ↔ s ≠ some "" := by
  cases s <;> simp [given]

theorem given_given (s : Option String) : given (given s) = given s := by
  rw [given_eq_self_iff, given, Ne, Option.filter_eq_some_iff]
  exact fun h => of_decide_eq_true h.2 rfl

namespace Property

def withoutEmptyTexts (p : Property) : Property := { p with description := given p.description }

theorem withoutEmptyTexts_eq_self_iff {p : Property} :
    p.withoutEmptyTexts = p ↔ p.description ≠ some "" := by
  rw [← given_eq_self_iff]
  exact ⟨fun h => congrArg Property.description h, fun h => by rw [withoutEmptyTexts, h]⟩

/-- what is not written is left out anyway -/
theorem toJson_withoutEmptyTexts (p : Property) : p.withoutEmptyTexts.toJson = p.toJson := by
  rw [toJson, toJson, withoutEmptyTexts, given_given]

theorem read_written (p : Property) : ofJson p.toJson = p.withoutEmptyTexts := by
  have hname : p.toJson.entry? "name" = some (.ofText? p.name) := by simp [toJson]
  have htype : p.toJson.entry? "type" = p.type.map TypeNames.toJson := by
    simp [toJson, List.lookup_append]
  have hoptional : p.toJson.entry? "optional" = shownFlag p.optional := by
    simp [toJson, List.lookup_append]
  have hvariadic : p.toJson.entry? "variable" = shownFlag p.variadic := by
    simp [toJson, List.lookup_append]
  have hdefault : p.toJson.entry? "defaultvalue" = shownValue p.defaultValue := by
    simp [toJson, List.lookup_append]
  have hdescription : p.toJson.entry? "description" = (given p.description).map .text := by
    simp [toJson, List.lookup_append]
  rw [ofJson, elim_text?_of_entry hname, typeAt_of_entry htype, flagAt_of_entry hoptional,
    flagAt_of_entry hvariadic, getD_of_entry hdefault, textAt_of_entry hdescription,
    withoutEmptyTexts]

end Property

namespace Returned

def withoutEmptyTexts (r : Returned) : Returned := { r with description := given r.description }

theorem withoutEmptyTexts_eq_self_iff {r : Returned} :
    r.withoutEmptyTexts = r ↔ r.description ≠ some "" := by
  rw [← given_eq_self_iff]
  exact ⟨fun h => congrArg Returned.description h, fun h => by rw [withoutEmptyTexts, h]⟩

theorem toJson_withoutEmptyTexts (r : Returned) : r.withoutEmptyTexts.toJson = r.toJson := by
  rw [toJson, toJson, withoutEmptyTexts, given_given]

theorem read_written (r : Returned) : ofJson r.toJson = r.withoutEmptyTexts := by
  have htype : r.toJson.entry? "type" = r.type.map TypeNames.toJson := by
    simp [toJson, List.lookup_append]
  have hdescription : r.toJson.entry? "description" = (given r.description).map .text := by
    simp [toJson, List.lookup_append]
  rw [ofJson, typeAt_of_entry htype, textAt_of_entry hdescription, withoutEmptyTexts]

end Returned

/-- a declared list is the same after a change to its items if each of them is -/
theorem map_map_eq_self_iff {α : Type} {f : α → α} {items : Option (List α)} :
    items.map (·.map f) = items ↔ ∀ as ∈ items, ∀ a ∈ as, f a = a := by
  cases items with
  | none => exact iff_of_true rfl nofun
  | some as =>
    have hmap : as.map f = as ↔ ∀ a ∈ as, f a = a := by
      have hid := @List.map_inj_left _ _ as f id
      rwa [List.map_id] at hid
    simpa using hmap

namespace Doclet

def withoutEmptyTexts (d : Doclet) : Doclet :=
  { d with
    longname := given d.longname
    properties := d.properties.map (·.map Property.withoutEmptyTexts)
    params := d.params.map (·.map Property.withoutEmptyTexts)
    returns := d.returns.map (·.map Returned.withoutEmptyTexts)
    this := given d.this }

/-- none of the texts that may be null is empty -/
structure NoEmptyText (d : Doclet) : Prop where
  longname : d.longname ≠ some ""
  properties : ∀ ps ∈ d.properties, ∀ p ∈ ps, p.description ≠ some ""
  params : ∀ ps ∈ d.params, ∀ p ∈ ps, p.description ≠ some ""
  returns : ∀ rs ∈ d.returns, ∀ r ∈ rs, r.description ≠ some ""
  this : d.this ≠ some ""

theorem withoutEmptyTexts_eq_self_iff {d : Doclet} : d.withoutEmptyTexts = d ↔ d.NoEmptyText := by
  have hproperties (ps : Option (List Property)) :
      ps.map (·.map Property.withoutEmptyTexts) = ps
        ↔ ∀ as ∈ ps, ∀ p ∈ as, p.description ≠ some "" := by
    simp only [map_map_eq_self_iff, Property.withoutEmptyTexts_eq_self_iff]
  have hreturns : d.returns.map (·.map Returned.withoutEmptyTexts) = d.returns
      ↔ ∀ rs ∈ d.returns, ∀ r ∈ rs, r.description ≠ some "" := by
    simp only [map_map_eq_self_iff, Returned.withoutEmptyTexts_eq_self_iff]
  constructor
  · intro h
    exact {
      longname := given_eq_self_iff.1 (congrArg Doclet.longname h)
      properties := (hproperties _).1 (congrArg Doclet.properties h)
      params := (hproperties _).1 (congrArg Doclet.params h)
      returns := hreturns.1 (congrArg Doclet.returns h)
      this := given_eq_self_iff.1 (congrArg Doclet.this h) }
  · intro h
    rw [withoutEmptyTexts, given_eq_self_iff.2 h.longname, (hproperties _).2 h.properties,
      (hproperties _).2 h.params, hreturns.2 h.returns, given_eq_self_iff.2 h.this]

theorem toJson_withoutEmptyTexts (d : Doclet) : d.withoutEmptyTexts.toJson = d.toJson := by
  have hlist {α : Type} {write : α → Json} {f : α → α} (h : ∀ a, write (f a) = write a)
      (key : String) (items : Option (List α)) :
      optionalEntry key (fun as => .array (as.map write)) (items.map (·.map f))
        = optionalEntry key (fun as => .array (as.map write)) items := by
    cases items with
    | none => rfl
    | some as =>
      show [(key, Json.array ((as.map f).map write))] = _
      rw [List.map_map, show write ∘ f = write from funext h]
      rfl
  rw [toJson, toJson, withoutEmptyTexts, given_given, given_given,
    hlist Property.toJson_withoutEmptyTexts, hlist Property.toJson_withoutEmptyTexts,
    hlist Returned.toJson_withoutEmptyTexts]

theorem read_written (d : Doclet) : ofJson d.toJson = d.withoutEmptyTexts := by
  have hname : d.toJson.entry? "name" = some (.ofText? d.name) := by simp [toJson]
  have hkind : d.toJson.entry? "kind" = some (.ofText? d.kind) := by simp [toJson]
  have hlongname : d.toJson.entry? "longname" = (given d.longname).map .text := by
    simp [toJson, List.lookup_append]
  have htype : d.toJson.entry? "type" = d.type.map TypeNames.toJson := by
    simp [toJson, List.lookup_append]
  have hproperties : d.toJson.entry? "properties"
      = d.properties.map fun ps => .array (ps.map Property.toJson) := by
    simp [toJson, List.lookup_append]
  have hparams : d.toJson.entry? "params"
      = d.params.map fun ps => .array (ps.map Property.toJson) := by
    simp [toJson, List.lookup_append]
  have hreturns : d.toJson.entry? "returns"
      = d.returns.map fun rs => .array (rs.map Returned.toJson) := by
    simp [toJson, List.lookup_append]
  have hthis : d.toJson.entry? "this" = (given d.this).map .text := by
    simp [toJson, List.lookup_append]
  have hoptional : d.toJson.entry? "optional" = shownFlag d.optional := by
    simp [toJson, List.lookup_append]
  rw [ofJson, elim_text?_of_entry hname, textAt_of_entry hlongname, elim_text?_of_entry hkind,
    typeAt_of_entry htype, items_of_entry Property.read_written hproperties,
    items_of_entry Property.read_written hparams, items_of_entry Returned.read_written hreturns,
    textAt_of_entry hthis, flagAt_of_entry hoptional, withoutEmptyTexts]

end Doclet

/-- a written record is read back, up to its empty texts, and written again as it was -/
theorem doclet_read_back (d : Doclet) :
    Doclet.ofJson d.toJson = d.withoutEmptyTexts ∧
      (Doclet.ofJson d.toJson = d ↔ d.NoEmptyText) ∧
      (Doclet.ofJson d.toJson).toJson = d.toJson := by
  rw [d.read_written]
  exact ⟨rfl, Doclet.withoutEmptyTexts_eq_self_iff, d.toJson_withoutEmptyTexts⟩

/-- a list without items, a kind that is null, and default values that do not count as given -/
example :
    let properties : List Property :=
      [{ defaultValue := .int 0 }, { defaultValue := .bool false, description := some " " }]
    let d : Doclet := { kind := none, params := some [], properties := some properties }
    d.survivesWriting = true := by
  decide +kernel

end DocTypes
