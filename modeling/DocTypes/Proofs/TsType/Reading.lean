import DocTypes.Proofs.TsType.Readable
import Mathlib.Data.List.Sort

/-!
# Reading back what types are made of

Each part of a declared type is read back from its text, given what stands behind it, if the types
in it are.  Few things can stand behind a type, and none of them could be a further part of it.

* `Closes`, `EndsMember`, `EndsElement`   what may stand behind a whole type, behind a member of a
  union, and before an array mark;
* `Reader.separated_intercalate`          things with a separator between any two are read back;
* `Reader.row_slots`                      so are parameters or properties with a special one behind;
* `ReadsBelow`                            types smaller than a limit are read back;
* `TsType.primary_reference`, `TsType.function_reads`, `TsType.primary_object`   references,
  functions and object types are, if the types in them are.
-/

namespace DocTypes

open Reader (comma bar)

/-! ## what may stand behind a type -/

/-- behind a whole type -/
inductive Closes : List Char → Prop where
  | nil : Closes []
  | comma (rest : List Char) : Closes (',' :: rest)
  | paren (rest : List Char) : Closes (')' :: rest)
  | angle (rest : List Char) : Closes ('>' :: rest)
  | bracket (rest : List Char) : Closes (']' :: rest)
  | brace (rest : List Char) : Closes (' ' :: '}' :: rest)

/-- behind a member of a union -/
inductive EndsMember : List Char → Prop where
  | closes {rest : List Char} (h : Closes rest) : EndsMember rest
  | bar (rest : List Char) : EndsMember (bar ++ rest)

/-- behind a type that may be the element of an array -/
inductive EndsElement : List Char → Prop where
  | member {rest : List Char} (h : EndsMember rest) : EndsElement rest
  | mark (rest : List Char) : EndsElement ('[' :: ']' :: rest)

/-- what may stand behind the name that a reference begins with -/
structure EndsName (rest : List Char) : Prop where
  stops : ∀ c ∈ rest.head?, isNameChar c = false
  noModule : ∀ more, rest ≠ '(' :: '"' :: more
  noTarget : (rest.dropPrefix? [' ']).bind Reader.name = none

theorem endsName_of_head {c : Char} (h : isNameChar c = false) (hparen : c ≠ '(')
    (hblank : c ≠ ' ') (rest : List Char) : EndsName (c :: rest) := by
  have hnone : (c :: rest).dropPrefix? [' '] = none := by
    rw [List.dropPrefix?, beq_eq_false_iff_ne.2 hblank]
    rfl
  refine ⟨?_, fun more heq => hparen (List.cons.inj heq).1, ?_⟩
  · rintro _ ⟨⟩
    exact h
  · rw [hnone]
    rfl

theorem endsName_of_blank {c : Char} (h : isNameChar c = false) (rest : List Char) :
    EndsName (' ' :: c :: rest) := by
  refine ⟨by rintro _ ⟨⟩; rfl, nofun, ?_⟩
  show Reader.name (c :: rest) = none
  unfold Reader.name
  rw [List.takeWhile_cons_of_neg (by rw [h]; exact Bool.false_ne_true)]

theorem Closes.endsName {rest : List Char} (h : Closes rest) : EndsName rest := by
  cases h with
  | nil => exact ⟨nofun, nofun, rfl⟩
  | comma rest => exact endsName_of_head (by decide) (by decide) (by decide) rest
  | paren rest => exact endsName_of_head (by decide) (by decide) (by decide) rest
  | angle rest => exact endsName_of_head (by decide) (by decide) (by decide) rest
  | bracket rest => exact endsName_of_head (by decide) (by decide) (by decide) rest
  | brace rest => exact endsName_of_blank rfl rest

theorem EndsElement.endsName {rest : List Char} (h : EndsElement rest) : EndsName rest := by
  cases h with
  | member h =>
    cases h with
    | closes h => exact h.endsName
    | bar rest => exact endsName_of_blank rfl _
  | mark rest => exact endsName_of_head (by decide) (by decide) (by decide) _

theorem Closes.endsElement {rest : List Char} (h : Closes rest) : EndsElement rest :=
  .member (.closes h)

/-! ## names -/

namespace Reader

theorem name_toList {word : String} (h : IsIdentifier word) {rest : List Char}
    (hstop : ∀ c ∈ rest.head?, isNameChar c = false) :
    name (word.toList ++ rest) = some (word, rest) := by
  have htake : rest.takeWhile isNameChar = [] := by
    cases rest with
    | nil => rfl
    | cons c rest => exact List.takeWhile_cons_of_neg (by simp [hstop c rfl])
  have hdrop : rest.dropWhile isNameChar = rest := by
    cases rest with
    | nil => rfl
    | cons c rest => exact List.dropWhile_cons_of_neg (by simp [hstop c rfl])
  unfold name
  rw [List.takeWhile_append_of_pos h.isNameChar, List.dropWhile_append_of_pos h.isNameChar, htake,
    hdrop, List.append_nil]
  split
  · exact absurd ‹_› h.nonempty
  · rw [String.ofList_toList]

/-! ## separated things -/

theorem dropPrefix?_append (front rest : List Char) :
    (front ++ rest).dropPrefix? front = some rest :=
  List.dropPrefix?_append_of_beq rest BEq.rfl

section
variable {α β ι κ : Type}

theorem separated_intercalate (item : Reader α) (separator : List Char) {rest : List Char}
    {chars : ι → List Char} {value : ι → α} (hend : rest.dropPrefix? separator = none)
    {xs : List ι} (hne : xs ≠ [])
    (h : ∀ x ∈ xs, ∀ more, more = rest ∨ (∃ tail, more = separator ++ tail) →
      item (chars x ++ more) = some (value x, more)) (limit : Nat) (hlimit : xs.length ≤ limit) :
    separated item separator limit (separator.intercalate (xs.map chars) ++ rest)
      = some (xs.map value, rest) := by
  induction xs generalizing limit with
  | nil => exact absurd rfl hne
  | cons x xs ih =>
    obtain ⟨hx, hxs⟩ := List.forall_mem_cons.1 h
    rw [List.length_cons] at hlimit
    obtain ⟨limit, rfl⟩ : ∃ k, limit = k + 1 := ⟨limit - 1, by omega⟩
    cases xs with
    | nil =>
      have hitem := hx rest (.inl rfl)
      rw [List.map_singleton, List.intercalate_singleton, separated, hitem]
      simp [hend]
    | cons y ys =>
      have hrest := ih (List.cons_ne_nil y ys) hxs limit (by omega)
      have hitem := hx (separator ++ (separator.intercalate ((y :: ys).map chars) ++ rest))
        (.inr ⟨_, rfl⟩)
      rw [List.map_cons, List.map_cons, List.intercalate_cons_cons, ← List.map_cons,
        List.append_assoc, List.append_assoc, separated, hitem]
      simp only [Option.bind_eq_bind, Option.bind_some, dropPrefix?_append, hrest]
      rfl

/-- items, with the special one behind them -/
def slots (xs : List ι) (last : Option κ) : List (ι ⊕ κ) :=
  xs.map Sum.inl ++ (last.map Sum.inr).toList

theorem splitLast_slots (as : List α) (b : Option β) : splitLast (slots as b) = some (as, b) := by
  induction as with
  | nil => cases b <;> rfl
  | cons a as ih =>
    rw [slots, List.map_cons, List.cons_append, splitLast, ← slots, ih]
    rfl

theorem map_slots (f : ι → α) (g : κ → β) (xs : List ι) (last : Option κ) :
    (slots xs last).map (Sum.map f g) = slots (xs.map f) (last.map g) := by
  cases last <;> simp [slots]

theorem elim_slots (f : ι → α) (g : κ → α) (xs : List ι) (last : Option κ) :
    (slots xs last).map (Sum.elim f g) = xs.map f ++ (last.map g).toList := by
  cases last <;> simp [slots]

theorem forall_mem_slots {P : ι ⊕ κ → Prop} {xs : List ι} {last : Option κ}
    (hxs : ∀ x ∈ xs, P (.inl x)) (hlast : ∀ y ∈ last, P (.inr y)) : ∀ s ∈ slots xs last, P s := by
  intro s hs
  rcases List.mem_append.1 hs with hs | hs
  · obtain ⟨x, hx, rfl⟩ := List.mem_map.1 hs
    exact hxs x hx
  · obtain ⟨y, hy, rfl⟩ := Option.map_eq_some_iff.1 (Option.mem_toList.1 hs)
    exact hlast y hy

theorem length_slots_le (xs : List ι) (last : Option κ) :
    (slots xs last).length ≤ xs.length + 1 := by
  cases last <;> simp [slots]

theorem exists_intercalate_cons (separator x : List α) (xs : List (List α)) :
    ∃ more, separator.intercalate (x :: xs) = x ++ more := by
  cases xs with
  | nil => exact ⟨[], by rw [List.intercalate_singleton, List.append_nil]⟩
  | cons y ys => exact ⟨_, by rw [List.intercalate_cons_cons, List.append_assoc]⟩

/-- an item of a row, or the special one: it is read back, not taken for the end of the row -/
structure SlotReads (special : Reader β) (item : Reader α) (closing : List Char)
    (chars : ι → List Char) (value : ι → α ⊕ β) (x : ι) : Prop where
  opens : ∀ more, (chars x ++ more).dropPrefix? closing = none
  reads : ∀ more, Closes more → slot special item (chars x ++ more) = some (value x, more)

theorem slotReads_item {special : Reader β} {item : Reader α} {closing : List Char}
    {chars : ι → List Char} {chars' : κ → List Char} {value : ι → α} {value' : κ → β} {x : ι}
    (opens : ∀ more, (chars x ++ more).dropPrefix? closing = none)
    (ordinary : ∀ more, special (chars x ++ more) = none)
    (reads : ∀ more, Closes more → item (chars x ++ more) = some (value x, more)) :
    SlotReads special item closing (Sum.elim chars chars') (Sum.map value value') (.inl x) := by
  refine ⟨opens, fun more hmore => ?_⟩
  show slot special item (chars x ++ more) = _
  rw [slot, ordinary more, reads more hmore]
  rfl

theorem slotReads_last {special : Reader β} {item : Reader α} {closing : List Char}
    {chars : ι → List Char} {chars' : κ → List Char} {value : ι → α} {value' : κ → β} {y : κ}
    (opens : ∀ more, (chars' y ++ more).dropPrefix? closing = none)
    (reads : ∀ more, Closes more → special (chars' y ++ more) = some (value' y, more)) :
    SlotReads special item closing (Sum.elim chars chars') (Sum.map value value') (.inr y) := by
  refine ⟨opens, fun more hmore => ?_⟩
  show slot special item (chars' y ++ more) = _
  rw [slot, reads more hmore]
  rfl

theorem row_slots {special : Reader β} {item : Reader α} {closing : List Char} (rest : List Char)
    {chars : ι → List Char} {chars' : κ → List Char} {value : ι → α} {value' : κ → β}
    {xs : List ι} {last : Option κ} (hcloses : Closes (closing ++ rest))
    (hend : (closing ++ rest).dropPrefix? comma = none)
    (hslots : ∀ s ∈ slots xs last, SlotReads special item closing (Sum.elim chars chars')
      (Sum.map value value') s) (limit : Nat) (hlimit : xs.length < limit) :
    row special item closing limit
        (comma.intercalate (xs.map chars ++ (last.map chars').toList) ++ (closing ++ rest))
      = some ((xs.map value, last.map value'), rest) := by
  have hvalues := map_slots value value' xs last
  have hlength := length_slots_le xs last
  rw [← elim_slots]
  cases hall : slots xs last with
  | nil =>
    obtain ⟨hxs, hlast⟩ := List.append_eq_nil_iff.1 hall
    obtain rfl := List.map_eq_nil_iff.1 hxs
    cases last with
    | none =>
      rw [List.map_nil, List.intercalate_nil, List.nil_append, row, dropPrefix?_append]
      rfl
    | some y => cases hlast
  | cons s ss =>
    rw [hall] at hslots hvalues hlength
    have hopens : (comma.intercalate ((s :: ss).map (Sum.elim chars chars'))
        ++ (closing ++ rest)).dropPrefix? closing = none := by
      obtain ⟨more, hmore⟩ := exists_intercalate_cons comma (Sum.elim chars chars' s)
        (ss.map (Sum.elim chars chars'))
      rw [List.map_cons, hmore, List.append_assoc]
      exact (hslots s List.mem_cons_self).opens _
    have hreads := separated_intercalate (slot special item) comma hend (List.cons_ne_nil s ss)
      (fun x hx more hmore => (hslots x hx).reads more (by
        rcases hmore with rfl | ⟨tail, rfl⟩
        · exact hcloses
        · exact .comma _)) limit (by omega)
    rw [row, hopens]
    simp only [Option.bind_eq_bind, hreads, Option.bind_some, dropPrefix?_append, hvalues,
      splitLast_slots]

end

end Reader

/-! ## sets of names -/

theorem NameSet.ext_mem {s t : NameSet} (h : ∀ name, name ∈ s ↔ name ∈ t) : s = t := by
  obtain ⟨names, hnames⟩ := s
  obtain ⟨names', hnames'⟩ := t
  have heq : names = names' := hnames.eq_of_mem_iff hnames' h
  subst heq
  rfl

/-- the names that are marked are those that the set held -/
theorem optionalNames_paramByName {properties : List (Named TsType)} {optional : NameSet}
    (h : ∀ name ∈ optional, ∃ p ∈ properties, p.name = name) :
    optionalNames ((properties.map (TsType.propertyParam optional)).map TsType.paramByName)
      = optional := by
  refine NameSet.ext_mem fun name => ?_
  rw [optionalNames, NameSet.mem_ofList]
  constructor
  · intro hname
    obtain ⟨p, hp, rfl⟩ := List.mem_map.1 hname
    obtain ⟨hp, hmarked⟩ := List.mem_filter.1 hp
    rw [List.map_map] at hp
    obtain ⟨q, -, rfl⟩ := List.mem_map.1 hp
    exact of_decide_eq_true hmarked
  · intro hname
    obtain ⟨p, hp, rfl⟩ := h name hname
    refine List.mem_map.2 ⟨TsType.paramByName (TsType.propertyParam optional p), ?_, rfl⟩
    refine List.mem_filter.2 ⟨List.mem_map_of_mem (List.mem_map_of_mem hp), ?_⟩
    exact decide_eq_true hname

/-! ## types that a name begins -/

namespace Reader

theorem arguments_of_endsElement (inner : Reader TsType) (limit : Nat) {rest : List Char}
    (h : EndsElement rest) : arguments inner limit rest = some ([], rest) := by
  cases h with
  | member h =>
    cases h with
    | closes h => cases h <;> rfl
    | bar rest => rfl
  | mark rest => rfl

theorem named_of_endsName (inner : Reader TsType) (limit : Nat) {word : String}
    (hword : IsIdentifier word) {rest : List Char} (h : EndsName rest) :
    named inner limit (word.toList ++ rest) = (do
      let (args, rest) ← arguments inner limit rest
      some (.reference word args, rest)) := by
  rw [named, name_toList hword h.stops]
  simp only [Option.bind_eq_bind, Option.bind_some]
  split
  · exact absurd rfl (h.noModule _)
  · rw [h.noTarget]

theorem primary_of_name (inner : Reader TsType) (limit : Nat) {word : String}
    (hword : IsIdentifier word) (rest : List Char) :
    primary inner limit (word.toList ++ rest) = named inner limit (word.toList ++ rest) := by
  obtain ⟨c, cs, hchars, hc⟩ := hword.exists_cons
  rw [hchars, List.cons_append]
  unfold primary
  split
  · rename_i heq
    cases heq
    cases hc
  · rename_i heq
    cases heq
    cases hc
  · rfl

end Reader

/-- `inner` reads back all types smaller than `limit` -/
def ReadsBelow (inner : Reader TsType) (limit : Nat) : Prop :=
  ∀ t : TsType, t.Readable → sizeOf t < limit → ∀ rest, Closes rest →
    inner (t.chars ++ rest) = some (t.byName, rest)

theorem length_lt_sizeOf {α : Type} [SizeOf α] (xs : List α) : xs.length < sizeOf xs := by
  induction xs with
  | nil => simp
  | cons x xs ih =>
    simp only [List.length_cons, List.cons.sizeOf_spec]
    omega

namespace TsType

open Reader (dropPrefix?_append)

section
variable {inner : Reader TsType} {limit : Nat}

theorem primary_query {target : String} (htarget : IsIdentifier target) {rest : List Char}
    (hrest : EndsElement rest) :
    Reader.primary inner limit ((query target).chars ++ rest) = some (.query target, rest) := by
  have htypeof : IsIdentifier "typeof" := by decide
  have hblank : (' ' :: (target.toList ++ rest)).dropPrefix? [' '] = some (target.toList ++ rest) :=
    dropPrefix?_append [' '] _
  rw [chars_query, List.append_assoc, List.cons_append, Reader.primary_of_name inner limit htypeof,
    Reader.named, Reader.name_toList htypeof (by rintro _ ⟨⟩; rfl)]
  simp only [Option.bind_eq_bind, Option.bind_some]
  split
  · rename_i heq
    cases heq
  · rw [hblank, Option.bind_some, Reader.name_toList htarget hrest.endsName.stops]

theorem sizeOf_type_lt_of_mem {p : Param TsType} {params : List (Param TsType)}
    (h : p ∈ params) : sizeOf p.type < sizeOf params := by
  have hlt := List.sizeOf_lt_of_mem h
  obtain ⟨⟨name, type⟩, optional⟩ := p
  simp only [Param.mk.sizeOf_spec, Named.mk.sizeOf_spec] at hlt
  show sizeOf type < _
  omega

/-- a parameter does not begin like anything that begins with a mark -/
theorem dropPrefix?_paramChars {p : Param TsType} (hname : IsIdentifier p.name) {c : Char}
    (hc : isNameChar c = false) (front more : List Char) :
    (paramChars p ++ more).dropPrefix? (c :: front) = none := by
  obtain ⟨d, ds, hchars, hd⟩ := hname.exists_cons
  have hne : (d == c) = false := by
    rw [beq_eq_false_iff_ne]
    rintro rfl
    cases hd.symm.trans hc
  rw [paramChars, List.append_assoc, List.append_assoc, hchars, List.cons_append,
    List.dropPrefix?, hne]
  rfl

theorem sizeOf_named_lt_of_mem {p : Named TsType} {properties : List (Named TsType)}
    (h : p ∈ properties) : sizeOf p.type < sizeOf properties := by
  have hlt := List.sizeOf_lt_of_mem h
  obtain ⟨name, type⟩ := p
  simp only [Named.mk.sizeOf_spec] at hlt
  show sizeOf type < _
  omega

theorem restParam_paramChars {p : Param TsType} (hname : IsIdentifier p.name) (more : List Char) :
    Reader.restParam inner (paramChars p ++ more) = none := by
  rw [Reader.restParam, dropPrefix?_paramChars hname rfl]
  rfl

theorem index_paramChars {p : Param TsType} (hname : IsIdentifier p.name) (more : List Char) :
    Reader.index inner (paramChars p ++ more) = none := by
  have hnone : (paramChars p ++ more).dropPrefix? "[key: ".toList = none :=
    dropPrefix?_paramChars hname rfl "key: ".toList more
  rw [Reader.index, hnone]
  rfl

section
variable (hinner : ReadsBelow inner limit)
include hinner

theorem typed_reads {t : TsType} (ht : t.Readable) (hsize : sizeOf t < limit) {rest : List Char}
    (hrest : Closes rest) : Reader.typed inner (t.typedChars ++ rest) = some (t.byName, rest) := by
  have hcolon : (t.typedChars ++ rest).dropPrefix? [':', ' '] = some (t.chars ++ rest) :=
    dropPrefix?_append [':', ' '] (t.chars ++ rest)
  rw [Reader.typed, hcolon]
  exact hinner t ht hsize rest hrest

theorem arguments_reads {args : List TsType} (hargs : ∀ a ∈ args, a.Readable)
    (hsize : sizeOf args ≤ limit) {rest : List Char} (hrest : EndsElement rest) :
    Reader.arguments inner limit (argumentChars args ++ rest)
      = some (byNameAll args, rest) := by
  rw [byNameAll_eq_map]
  cases args with
  | nil => exact Reader.arguments_of_endsElement inner limit hrest
  | cons a as =>
    have hitem : ∀ x ∈ a :: as, ∀ more, more = '>' :: rest ∨ (∃ tail, more = comma ++ tail) →
        inner (x.chars ++ more) = some (x.byName, more) := by
      intro x hx more hmore
      have hlt := List.sizeOf_lt_of_mem hx
      refine hinner x (hargs x hx) (by omega) more ?_
      rcases hmore with rfl | ⟨tail, rfl⟩
      · exact .angle rest
      · exact .comma _
    have hlength := length_lt_sizeOf (a :: as)
    have hseparated := Reader.separated_intercalate inner comma rfl (List.cons_ne_nil a as) hitem
      limit (by omega)
    have htext : argumentChars (a :: as) ++ rest
        = '<' :: (comma.intercalate ((a :: as).map chars) ++ '>' :: rest) := by
      rw [argumentChars, List.cons_append, List.append_assoc]
      rfl
      nofun
    have hclosing : ('>' :: rest).dropPrefix? ['>'] = some rest := dropPrefix?_append ['>'] rest
    rw [htext, Reader.arguments, hseparated]
    simp only [Option.bind_eq_bind, Option.bind_some, hclosing]

theorem primary_reference {word : String} (hword : IsIdentifier word) (args : List TsType)
    (hargs : ∀ a ∈ args, a.Readable) (hsize : sizeOf args ≤ limit) {rest : List Char}
    (hrest : EndsElement rest) :
    Reader.primary inner limit (word.toList ++ (argumentChars args ++ rest))
      = some (.reference word (byNameAll args), rest) := by
  have hends : EndsName (argumentChars args ++ rest) := by
    cases args with
    | nil => exact hrest.endsName
    | cons a as => exact endsName_of_head (by decide) (by decide) (by decide) _
  rw [Reader.primary_of_name inner limit hword, Reader.named_of_endsName inner limit hword hends,
    arguments_reads hinner hargs hsize hrest]
  rfl

theorem primary_imported {path qualifier : String} {args : List TsType}
    (hpath : '"' ∉ path.toList) (hqualifier : IsIdentifier qualifier)
    (hargs : ∀ a ∈ args, a.Readable) (hsize : sizeOf args ≤ limit) {rest : List Char}
    (hrest : EndsElement rest) :
    Reader.primary inner limit ((imported path qualifier args).chars ++ rest)
      = some (.imported path qualifier (byNameAll args), rest) := by
  have himport : IsIdentifier "import" := by decide
  have hends : ∀ c ∈ (argumentChars args ++ rest).head?, isNameChar c = false := by
    cases args with
    | nil => exact hrest.endsName.stops
    | cons a as =>
      rintro _ ⟨⟩
      rfl
  have hquote : ∀ c ∈ path.toList, (c != '"') = true := fun c hc => by
    rw [bne_iff_ne]
    rintro rfl
    exact hpath hc
  generalize htail : qualifier.toList ++ (argumentChars args ++ rest) = tail
  have htake : (path.toList ++ '"' :: ')' :: '.' :: tail).takeWhile (· != '"') = path.toList := by
    rw [List.takeWhile_append_of_pos hquote, List.takeWhile_cons_of_neg (by decide),
      List.append_nil]
  have hdrop : (path.toList ++ '"' :: ')' :: '.' :: tail).dropWhile (· != '"')
      = '"' :: ')' :: '.' :: tail := by
    rw [List.dropWhile_append_of_pos hquote, List.dropWhile_cons_of_neg (by decide)]
  have hclosing : ('"' :: ')' :: '.' :: tail).dropPrefix? ['"', ')', '.'] = some tail :=
    dropPrefix?_append ['"', ')', '.'] tail
  have htext : (imported path qualifier args).chars ++ rest
      = "import".toList ++ '(' :: '"' :: (path.toList ++ '"' :: ')' :: '.' :: tail) := by
    rw [chars_imported, ← htail]
    simp only [List.append_assoc, List.cons_append]
  rw [htext, Reader.primary_of_name inner limit himport, Reader.named,
    Reader.name_toList himport (by rintro _ ⟨⟩; rfl)]
  simp only [Option.bind_eq_bind, Option.bind_some]
  rw [Reader.imported]
  simp only [htake, hdrop, hclosing, Option.bind_eq_bind, Option.bind_some]
  rw [← htail, Reader.name_toList hqualifier hends]
  simp only [Option.bind_some, arguments_reads hinner hargs hsize hrest, String.ofList_toList]

/-! ## parameters and properties -/

theorem param_reads {p : Param TsType} (hname : IsIdentifier p.name) (ht : p.type.Readable)
    (hsize : sizeOf p.type < limit) {rest : List Char} (hrest : Closes rest) :
    Reader.param inner (paramChars p ++ rest) = some (paramByName p, rest) := by
  obtain ⟨⟨name, type⟩, optional⟩ := p
  have htyped := typed_reads hinner ht hsize hrest
  have htext : paramChars ⟨⟨name, type⟩, optional⟩ ++ rest
      = name.toList ++ ((if optional then ['?'] else []) ++ (type.typedChars ++ rest)) := by
    rw [paramChars, List.append_assoc, List.append_assoc]
  cases optional with
  | true =>
    rw [htext, Reader.param, Reader.name_toList hname (by rintro _ ⟨⟩; rfl)]
    simp only [Option.bind_eq_bind, Option.bind_some]
    show (Reader.typed inner (type.typedChars ++ rest)).bind _ = _
    rw [htyped]
    rfl
  | false =>
    rw [htext, Reader.param, Reader.name_toList hname (by rintro _ ⟨⟩; rfl)]
    simp only [Option.bind_eq_bind, Option.bind_some]
    show (Reader.typed inner (type.typedChars ++ rest)).bind _ = _
    rw [htyped]
    rfl

theorem restParam_reads {p : Named TsType} (hname : IsIdentifier p.name) (ht : p.type.Readable)
    (hsize : sizeOf (array p.type) < limit) {rest : List Char} (hrest : Closes rest) :
    Reader.restParam inner (restChars p ++ rest) = some (namedByName p, rest) := by
  have htyped := typed_reads hinner (.array ht) hsize hrest
  have hdots : (restChars p ++ rest).dropPrefix? ['.', '.', '.']
      = some (p.name.toList ++ ((array p.type).typedChars ++ rest)) := by
    rw [← List.append_assoc]
    exact dropPrefix?_append ['.', '.', '.'] _
  rw [Reader.restParam, hdots]
  simp only [Option.bind_eq_bind, Option.bind_some]
  rw [Reader.name_toList hname (by rintro _ ⟨⟩; rfl)]
  simp only [Option.bind_some, htyped, byName]
  rfl

theorem index_reads {i : TsType × TsType} (hkey : i.1.Readable) (hvalue : i.2.Readable)
    (hkeySize : sizeOf i.1 < limit) (hvalueSize : sizeOf i.2 < limit) {rest : List Char}
    (hrest : Closes rest) :
    Reader.index inner (indexChars i ++ rest) = some ((i.1.byName, i.2.byName), rest) := by
  have htyped := typed_reads hinner hvalue hvalueSize hrest
  have hopening : (indexChars i ++ rest).dropPrefix? "[key: ".toList
      = some (i.1.chars ++ (']' :: (i.2.typedChars ++ rest))) := by
    have htext : (i.1.chars ++ ']' :: i.2.typedChars) ++ rest
        = i.1.chars ++ (']' :: (i.2.typedChars ++ rest)) := List.append_assoc ..
    rw [← htext]
    exact dropPrefix?_append "[key: ".toList _
  have hclosing : (']' :: (i.2.typedChars ++ rest)).dropPrefix? [']']
      = some (i.2.typedChars ++ rest) := dropPrefix?_append [']'] _
  rw [Reader.index, hopening]
  simp only [Option.bind_eq_bind, Option.bind_some]
  rw [hinner i.1 hkey hkeySize _ (.bracket _)]
  simp only [Option.bind_some, hclosing, htyped]

/-! ## functions and object types -/

theorem param_slotReads {β κ : Type} {special : Reader β} (d : Char) (closing : List Char)
    (chars' : κ → List Char) (value' : κ → β) {params : List (Param TsType)}
    (hnames : ∀ p ∈ params, IsIdentifier p.name) (ht : ∀ p ∈ params, p.type.Readable)
    (hsize : ∀ p ∈ params, sizeOf p.type < limit) (hd : isNameChar d = false)
    (hspecial : ∀ p ∈ params, ∀ more, special (paramChars p ++ more) = none) :
    ∀ p ∈ params, Reader.SlotReads special (Reader.param inner) (d :: closing)
      (Sum.elim paramChars chars') (Sum.map paramByName value') (.inl p) := by
  intro p hp
  have hopens := dropPrefix?_paramChars (hnames p hp) hd closing
  exact Reader.slotReads_item hopens (hspecial p hp) fun _ hmore =>
    param_reads hinner (hnames p hp) (ht p hp) (hsize p hp) hmore

theorem function_reads {params : List (Param TsType)} {result : TsType}
    {last : Option (Named TsType)} {rest : List Char}
    (h : (function params result last).Readable)
    (hsize : sizeOf (function params result last) ≤ limit) (hrest : Closes rest) :
    Reader.function inner limit
        (comma.intercalate (params.map paramChars ++ (last.map restChars).toList)
          ++ ([')'] ++ (" => ".toList ++ (result.chars ++ rest))))
      = some (.function (byNameParams params) result.byName (byNameRest last), rest) := by
  rw [function.sizeOf_spec] at hsize
  cases h with
  | function hnames hparams hresult hrestName hrestType =>
  have hlast : ∀ p ∈ last, Reader.SlotReads (Reader.restParam inner) (Reader.param inner) [')']
      (Sum.elim paramChars restChars) (Sum.map paramByName namedByName) (.inr p) := by
    intro p hp
    have hlt : sizeOf (array p.type) < limit := by
      obtain ⟨name, type⟩ := p
      rw [hp, Option.some.sizeOf_spec, Named.mk.sizeOf_spec] at hsize
      rw [array.sizeOf_spec]
      show 1 + sizeOf type < limit
      omega
    exact Reader.slotReads_last (fun _ => rfl) fun _ hmore =>
      restParam_reads hinner (hrestName p hp) (hrestType p hp) hlt hmore
  have hitemSizes : ∀ p ∈ params, sizeOf p.type < limit := fun p hp => by
    have hlt := sizeOf_type_lt_of_mem hp
    omega
  have hitemStarts : ∀ p ∈ params, ∀ more, Reader.restParam inner (paramChars p ++ more) = none :=
    fun p hp => restParam_paramChars (hnames p hp)
  have hitems := param_slotReads hinner ')' [] restChars namedByName hnames
    hparams hitemSizes rfl hitemStarts
  have hlength := length_lt_sizeOf params
  have hrow := Reader.row_slots (" => ".toList ++ (result.chars ++ rest)) (.paren _) rfl
    (Reader.forall_mem_slots hitems hlast) limit (by omega)
  have harrow : (" => ".toList ++ (result.chars ++ rest)).dropPrefix? " => ".toList
      = some (result.chars ++ rest) := dropPrefix?_append _ _
  have hread := hinner result hresult (by omega) rest hrest
  rw [byNameParams_eq_map, byNameRest_eq_map, Reader.function, hrow]
  simp only [Option.bind_eq_bind, Option.bind_some, harrow, hread]

theorem primary_object {properties : List (Named TsType)} {optional : NameSet}
    {last : Option (TsType × TsType)} (h : (object properties optional last true []).Readable)
    (hsize : sizeOf (object properties optional last true []) ≤ limit) (rest : List Char) :
    Reader.primary inner limit ((object properties optional last true []).chars ++ rest)
      = some ((object properties optional last true []).byName, rest) := by
  rw [object.sizeOf_spec] at hsize
  cases h with
  | object hnames hoptional hproperties hkey hvalue =>
  let params := properties.map (propertyParam optional)
  have hitemNames : ∀ p ∈ params, IsIdentifier p.name := List.forall_mem_map.2 hnames
  have hitemTypes : ∀ p ∈ params, p.type.Readable := List.forall_mem_map.2 hproperties
  have hitemSizes : ∀ p ∈ params, sizeOf p.type < limit := List.forall_mem_map.2 fun p hp => by
    have hlt := sizeOf_named_lt_of_mem hp
    show sizeOf p.type < limit
    omega
  have hitemStarts : ∀ p ∈ params, ∀ more, Reader.index inner (paramChars p ++ more) = none :=
    fun p hp => index_paramChars (hitemNames p hp)
  have hlast : ∀ i ∈ last, Reader.SlotReads (Reader.index inner) (Reader.param inner) [' ', '}']
      (Sum.elim paramChars indexChars)
      (Sum.map paramByName fun i => (i.1.byName, i.2.byName)) (.inr i) := by
    intro i hi
    have hlt : sizeOf i.1 + sizeOf i.2 < limit := by
      obtain ⟨key, value⟩ := i
      rw [hi, Option.some.sizeOf_spec, Prod.mk.sizeOf_spec] at hsize
      show sizeOf key + sizeOf value < limit
      omega
    exact Reader.slotReads_last (fun _ => rfl) fun _ hmore =>
      index_reads hinner (hkey i hi) (hvalue i hi) (by omega) (by omega) hmore
  have hitems := param_slotReads hinner ' ' ['}'] indexChars
    (fun i => (i.1.byName, i.2.byName)) hitemNames hitemTypes hitemSizes rfl hitemStarts
  have hlength := length_lt_sizeOf properties
  have hrow := Reader.row_slots rest (.brace _) rfl (Reader.forall_mem_slots hitems hlast) limit
    (by rw [List.length_map]; omega)
  have hnamed : (params.map paramByName).map Param.toNamed = properties.map namedByName := by
    rw [List.map_map, List.map_map]
    rfl
  have hread : Reader.object inner limit (' ' :: (comma.intercalate (params.map paramChars
      ++ (last.map indexChars).toList) ++ ([' ', '}'] ++ rest)))
      = some ((object properties optional last true []).byName, rest) := by
    rw [Reader.object, hrow, byName, byNameProperties_eq_map, byNameIndex_eq_map]
    simp only [Option.bind_eq_bind, Option.bind_some]
    rw [hnamed, optionalNames_paramByName hoptional]
  rw [chars_object]
  split
  · rename_i hnone
    obtain ⟨hproperties, hlast⟩ := List.append_eq_nil_iff.1 hnone
    obtain rfl : properties = [] := List.map_eq_nil_iff.1 (List.map_eq_nil_iff.1 hproperties)
    have hempty : optional = .empty := by
      refine NameSet.ext_mem fun name => ⟨fun hname => ?_, nofun⟩
      obtain ⟨p, hp, -⟩ := hoptional name hname
      cases hp
    cases last with
    | some i => cases hlast
    | none =>
      rw [hempty]
      rfl
  · rename_i hslots
    rw [List.cons_append, List.cons_append, List.append_assoc]
    exact hread

end

end

end TsType

end DocTypes
