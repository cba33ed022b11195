import DocTypes.Naming.Record

/-!
# Types of documentation records

Within a record, the name `object` stands for the object type of its declared properties, and in
the record of a callback the name `Function` stands for the function type that the record
documents.  A callback whose own `this` or result is again `Function` has no finite type.

* `Doclet.signature`   the parameters of the function that a record documents;
* `Doclet.resultType`  its result;
* `Doclet.nameType`    the type of a name within a record;
* `resolveName`, `resolveType`, `resolveSignature`, `resolveResult`  the types that names and
  records are resolved to.
-/

namespace DocTypes

/-- positional parameters, and the rest parameter if there is one -/
structure Signature where
  params : List (Param TsType)
  rest : Option (Named TsType)

namespace Doclet

def described (d : Doclet) : String := d.toJson.indented

def isCallback (d : Doclet) : Bool := d.kind == some "typedef"

def isFunction (d : Doclet) : Bool := d.kind == some "function" || d.isCallback

/-- the parameters that the roots of the declared ones give; the last variadic one becomes the rest
parameter, and a warning tells of each that it replaces -/
def collect (config : Config) (d : Doclet) (rest : Option (Named TsType)) :
    List PropertyNode → Run Signature
  | [] => pure ⟨[], rest⟩
  | node :: nodes => do
    let type ← node.type config
    if node.prop.variadic then
      if let some previous := rest then
        Run.warn config.strict
          ((Lack.oneRest previous.name node.name).warning (some d.described) none)
      collect config d (some ⟨node.name, type⟩) nodes
    else
      let more ← collect config d rest nodes
      pure { more with params := ⟨⟨node.name, type⟩, node.prop.isOptionalParam⟩ :: more.params }

/-- a declared `this` of a function comes first -/
def thisParam (resolve : Option String → Run TsType) (d : Doclet) : Run (List (Param TsType)) :=
  match given d.this with
  | some this =>
    if d.isFunction then do
      let type ← resolve (some this)
      pure [⟨⟨"this", type⟩, false⟩]
    else pure []
  | none => pure []

def signature (config : Config) (resolve : Option String → Run TsType) (d : Doclet) :
    Run Signature := do
  let this ← thisParam resolve d
  let roots ← nest config.strict (d.params.getD [])
  let collected ← collect config d none roots
  pure { collected with params := this ++ collected.params }

/-- the type of an item of a record that declares no names: its properties, if it has any -/
def missingType (config : Config) (d : Doclet) (label : Option String) : Run TsType :=
  match d.properties with
  | some props => literalType config props
  | none =>
    DocTypes.missingType config (some d.described)
      (some (((given label).or d.debugName).getD "None"))

/-- the type that names within a record form -/
def typeOf (config : Config) (resolve : Option String → Run TsType) (d : Doclet)
    (label : Option String) (names : Option TypeNames) : Run TsType :=
  unionType resolve (d.missingType config label) (names.getD [])

def resultType (config : Config) (resolve : Option String → Run TsType) (d : Doclet) :
    Run TsType :=
  match d.returns with
  | some [r] => d.typeOf config resolve none r.type
  | _ => pure (.keyword .void)

/-- the type of a name within a record; `callback` is the type of the callback it documents -/
def nameWith (config : Config) (callback : Doclet → Run TsType) (d : Doclet)
    (name : Option String) : Run TsType :=
  match NameForm.ofName name with
  | .keyword .object =>
    match d.properties with
    | some props => literalType config props
    | none => pure (.keyword .object)
  | .callable => if d.isCallback then callback d else pure callableType
  | form => form.type config (some d.described)

/-- the type of a name within the signature of a callback -/
def partType (config : Config) : Doclet → Option String → Run TsType :=
  nameWith config fun _ => Run.fail .endless

/-- the function type that the record of a callback documents -/
def callbackType (config : Config) (d : Doclet) : Run TsType := do
  let signature ← d.signature config (d.partType config)
  let result ← d.resultType config (d.partType config)
  pure (.function signature.params result signature.rest)

def nameType (config : Config) : Doclet → Option String → Run TsType :=
  nameWith config (callbackType config)

end Doclet

/-! ## with or without a record -/

def resolveName (config : Config) (doclet : Option Doclet) (name : Option String) : Run TsType :=
  match doclet with
  | some d => d.nameType config name
  | none => nameType config name

def resolveType (config : Config) (doclet : Option Doclet) (label : Option String)
    (names : Option TypeNames) : Run TsType :=
  match doclet with
  | some d => d.typeOf config (d.nameType config) label names
  | none => typeOf config label names

def resolveSignature (config : Config) (d : Doclet) : Run Signature :=
  d.signature config (d.nameType config)

def resolveResult (config : Config) (d : Doclet) : Run TsType :=
  d.resultType config (d.nameType config)

end DocTypes
