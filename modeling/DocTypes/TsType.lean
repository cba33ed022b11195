/-!
# Declared types

The types that a documented type is resolved to, in the notation of a declaration:

* keywords, and `this`;
* references, with or without arguments: `Foo`, `Map<K, V>`;
* arrays, unions and functions: `T[]`, `A | B`, `(x: T, y?: U, ...rest: V[]) => R`;
* object types, with named properties or an index signature;
* queries and imports: `typeof Foo`, `import("module").Name<T>`.

`NameSet` is a set of names, kept as an ascending list, so that equal sets are equal values.
-/

namespace DocTypes

inductive Keyword where
  | any | unknown | number | bigint | object | boolean | string | symbol | this | void | undefined
  | null | never
  deriving DecidableEq, Repr

namespace Keyword

def text : Keyword → String
  | any => "any"
  | unknown => "unknown"
  | number => "number"
  | bigint => "bigint"
  | object => "object"
  | boolean => "boolean"
  | string => "string"
  | symbol => "symbol"
  | this => "this"
  | void => "void"
  | undefined => "undefined"
  | null => "null"
  | never => "never"

def all : List Keyword :=
  [any, unknown, number, bigint, object, boolean, string, symbol, this, void, undefined, null,
    never]

end Keyword

/-- a type under a name -/
structure Named (α : Type) where
  name : String
  type : α
  deriving DecidableEq, Repr, Inhabited

/-- a parameter of a function type -/
structure Param (α : Type) extends Named α where
  optional : Bool
  deriving DecidableEq, Repr

/-! ## sets of names -/

/-- a name put into an ascending list, unless it is there already -/
def insertName (name : String) : List String → List String
  | [] => [name]
  | n :: ns =>
    if name < n then name :: n :: ns
    else if name = n then n :: ns
    else n :: insertName name ns

theorem mem_insertName {x name : String} {names : List String} :
    x ∈ insertName name names ↔ x = name ∨ x ∈ names := by
  induction names with
  | nil => simp [insertName]
  | cons n ns ih =>
    unfold insertName
    split
    · simp
    · split
      · subst_vars; simp
      · simp only [List.mem_cons, ih]; grind

theorem pairwise_insertName {name : String} {names : List String}
    (h : names.Pairwise (· < ·)) : (insertName name names).Pairwise (· < ·) := by
  induction names with
  | nil => simp [insertName]
  | cons n ns ih =>
    obtain ⟨hn, hns⟩ := List.pairwise_cons.1 h
    unfold insertName
    split
    · rename_i hlt
      refine List.pairwise_cons.2 ⟨fun x hx => ?_, h⟩
      rcases List.mem_cons.1 hx with rfl | hx
      · exact hlt
      · exact String.lt_trans hlt (hn x hx)
    · rename_i hge
      split
      · exact h
      · rename_i hne
        refine List.pairwise_cons.2 ⟨fun x hx => ?_, ih hns⟩
        rcases mem_insertName.1 hx with rfl | hx
        · exact Std.lt_of_le_of_ne (String.not_lt.1 hge) (Ne.symm hne)
        · exact hn x hx

structure NameSet where
  names : List String
  ascending : names.Pairwise (· < ·)
  deriving DecidableEq

namespace NameSet

def empty : NameSet := ⟨[], .nil⟩

def insert (name : String) (s : NameSet) : NameSet :=
  ⟨insertName name s.names, pairwise_insertName s.ascending⟩

def ofList (names : List String) : NameSet := names.foldr insert empty

instance : Membership String NameSet := ⟨fun s name => name ∈ s.names⟩

instance (name : String) (s : NameSet) : Decidable (name ∈ s) :=
  inferInstanceAs (Decidable (name ∈ s.names))

theorem mem_insert {x name : String} {s : NameSet} : x ∈ s.insert name ↔ x = name ∨ x ∈ s :=
  mem_insertName

theorem mem_ofList {x : String} {names : List String} : x ∈ ofList names ↔ x ∈ names := by
  induction names with
  | nil => exact iff_of_false (List.not_mem_nil : x ∉ []) List.not_mem_nil
  | cons n ns ih => rw [ofList, List.foldr_cons, mem_insert, ← ofList, ih, List.mem_cons]

end NameSet

/-! ## types -/

inductive TsType where
  | keyword (k : Keyword)
  | this
  | reference (name : String) (args : List TsType)
  | array (element : TsType)
  | union (members : List TsType)
  /-- the rest parameter has the type of its elements -/
  | function (params : List (Param TsType)) (result : TsType) (rest : Option (Named TsType))
  /-- `index` is the type of the keys and that of the values of an index signature; `docs` are
  the texts of doc comments, by the name of the property -/
  | object (properties : List (Named TsType)) (optional : NameSet)
      (index : Option (TsType × TsType)) (singleLine : Bool) (docs : List (String × String))
  | query (target : String)
  | imported (path : String) (qualifier : String) (args : List TsType)

namespace TsType

def any : TsType := keyword .any

instance : Inhabited TsType := ⟨any⟩

def isFunction : TsType → Bool
  | function .. => true
  | _ => false

/-- the types that need parentheses before `[]` -/
def isCompound : TsType → Bool
  | union _ | function .. => true
  | _ => false

/-- the type of a keyword; `this` is a type of its own -/
def ofKeyword : Keyword → TsType
  | .this => this
  | k => keyword k

end TsType

end DocTypes
