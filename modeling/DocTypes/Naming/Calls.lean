import DocTypes.Naming.Callback

/-!
# The calls that make a type

The type of declared names is made from those of the names one by one, and these may need the object type
of properties, or the parameters and the result of a callback, whose types have declared names again.
Each of these is a call: the record that names belong to is handed on from call to call, except to the
properties, whose names belong to no record.

* `Call`           what is asked;
* `Call.Result`    what the answer is, a type or parameters;
* `Call.body`      the answer, given the answers to other calls;
* `Call.inner`     the calls that can be asked for it;
* `Call.answer`    the answer with a bound on how deep calls may be nested.
-/

namespace DocTypes

inductive Call where
  /-- the type that declared names form, those of an item with a label -/
  | types (names : Option TypeNames) (doclet : Option Doclet) (label : Option String)
  | name (name : Option String) (doclet : Option Doclet)
  /-- the object type of declared properties -/
  | literal (props : List Property)
  /-- the object type of nodes, which are roots or the parts of `parent` -/
  | record (nodes : List PropertyNode) (parent : Option PropertyNode)
  /-- the parameters of a function or callback -/
  | params (d : Doclet)
  /-- its result -/
  | result (d : Doclet)

/-- the call for the type of a node: that of its parts, or of its declared names -/
def PropertyNode.call (node : PropertyNode) : Call :=
  match node.children with
  | [] => .types node.prop.type none node.prop.name
  | parts => .record parts (some node)

/-- the record of the declared type of `this`, as names -/
def Doclet.thisNames (d : Doclet) : List (Option String) :=
  if d.isFunction then (given d.this).toList.map some else []

/-- the parameters of a function, where `typeOf` tells the type of a root -/
def Doclet.collectWith (config : Config) (d : Doclet) (typeOf : PropertyNode → Run TsType)
    (rest : Option (Named TsType)) : List PropertyNode → Run Signature
  | [] => pure ⟨[], rest⟩
  | node :: nodes => do
    let type ← typeOf node
    if node.prop.variadic then
      if let some previous := rest then
        Run.warn config.strict
          ((Lack.oneRest previous.name node.name).warning (some d.described) none)
      collectWith config d typeOf (some ⟨node.name, type⟩) nodes
    else
      let more ← collectWith config d typeOf rest nodes
      pure { more with params := ⟨⟨node.name, type⟩, node.prop.isOptionalParam⟩ :: more.params }

namespace Call

abbrev Result : Call → Type
  | params _ => Signature
  | _ => TsType

/-- the record whose names are asked for -/
def doclet? : Call → Option Doclet
  | types _ doclet _ | name _ doclet => doclet
  | params d | result d => some d
  | literal _ | record _ _ => none

/-- a name that stands for the function type which the record of a callback documents -/
def entersCallback : Call → Bool
  | name n (some d) => NameForm.ofName n = .callable && d.isCallback
  | _ => false

section
variable (config : Config) (ask : (c : Call) → Run c.Result)

/-- the answer for the type of a node -/
def askNode (node : PropertyNode) : Run TsType :=
  match node.children with
  | [] => ask (.types node.prop.type none node.prop.name)
  | parts => ask (.record parts (some node))

/-- the type of an item that declares no names -/
def missingBody (doclet : Option Doclet) (label : Option String) : Run TsType :=
  match doclet with
  | some d =>
    if d.properties.isSome then ask (.name (some "object") (some d))
    else DocTypes.missingType config (some d.described)
      (some (((given label).or d.debugName).getD "None"))
  | none => DocTypes.missingType config none (given label)

def nameBody (name : Option String) (doclet : Option Doclet) : Run TsType :=
  match doclet with
  | none => nameType config name
  | some d =>
    match NameForm.ofName name with
    | .keyword .object =>
      match d.properties with
      | some props => ask (.literal props)
      | none => pure (.keyword .object)
    | .callable =>
      if d.isCallback then do
        let signature ← ask (.params d)
        let result ← ask (.result d)
        pure (.function signature.params result signature.rest)
      else pure callableType
    | form => form.type config (some d.described)

def literalBody (props : List Property) : Run TsType :=
  match props with
  | [] => pure (.object [] .empty none false [])
  | props => do
    let roots ← nest config.strict props
    ask (.record roots none)

/-- the object type of nodes, given the types of the nodes -/
def recordOf (nodes : List PropertyNode) (parent : Option PropertyNode) (types : List TsType) :
    Run TsType :=
  match parent with
  | some parent => wrapParts parent.prop.type (recordType nodes types [])
  | none => pure (recordType nodes types (commentsOf nodes))

def paramsBody (d : Doclet) : Run Signature := do
  let this ← d.thisParam fun name => ask (.types (some [name]) (some d) none)
  let roots ← nest config.strict (d.params.getD [])
  let collected ← d.collectWith config (askNode ask) none roots
  pure { collected with params := this ++ collected.params }

def resultBody (d : Doclet) : Run TsType :=
  match d.returns with
  | some [r] => ask (.types r.type (some d) none)
  | _ => pure (.keyword .void)

/-- the answer to a call, given the answers to the calls in it -/
def body : (c : Call) → Run c.Result
  | types names doclet label =>
    unionType (fun name => ask (.name name doclet)) (missingBody config ask doclet label)
      (names.getD [])
  | name n doclet => nameBody config ask n doclet
  | literal props => literalBody config ask props
  | record nodes parent => do
    let types ← nodes.mapM (askNode ask)
    recordOf nodes parent types
  | params d => paramsBody config ask d
  | result d => resultBody ask d

end

/-- the answer to a call, if calls are nested no deeper than this -/
def answer (config : Config) : Nat → (c : Call) → Run c.Result
  | 0, _ => Run.fail .endless
  | depth + 1, c => body config (answer config depth) c

/-! ## inner calls -/

/-- the calls for names of a record, or for the record itself if there are none -/
def typesInner (doclet : Option Doclet) : List (Option String) → List Call
  | [] => (doclet.filter (·.properties.isSome)).toList.map fun d => name (some "object") (some d)
  | names => names.map (name · doclet)

def nameInner (n : Option String) (d : Doclet) : List Call :=
  match NameForm.ofName n with
  | .keyword .object => d.properties.toList.map literal
  | .callable => if d.isCallback then [params d, result d] else []
  | _ => []

def resultInner (d : Doclet) : List Call :=
  match d.returns with
  | some [r] => [types r.type (some d) none]
  | _ => []

/-- the calls that can be asked for the answer -/
def inner : Call → List Call
  | types names doclet _ => typesInner doclet (names.getD [])
  | name n doclet => doclet.toList.flatMap (nameInner n)
  | literal props => if props = [] then [] else [record (rootsAfter [] (declared props)) none]
  | record nodes _ => nodes.map PropertyNode.call
  | params d =>
    d.thisNames.map (fun name => types (some [name]) (some d) none)
      ++ (rootsAfter [] (declared (d.params.getD []))).map PropertyNode.call
  | result d => resultInner d

end Call

end DocTypes
