import DocTypes.Naming.Callback
import DocTypes.Report.Log

/-!
# Sessions

A session takes steps one after the other.  It keeps the diagnostics recorded so far, a node into
which spans are read, and a list of types; apart from these and from the settings, no step can see
what an earlier one did.  Most steps are given the settings only (`Session.plainStep`): what they
come to cannot depend on the rest, and they are recorded behind what is there.

* `Step`          what a session can be asked to do;
* `Answer`        what a step answers if it does not end with a fault;
* `Session.step`  one step: the session after it, and the run of the step.
-/

namespace DocTypes

inductive Step where
  /-- the tree of an expression -/
  | tree (text : String)
  /-- a span read into the node that the session keeps -/
  | readSpan (tokens : List Token) (source : String) (depth : Int)
  /-- the type of a tree, whose nodes may not know their parents -/
  | lower (node : Node) (linked : Bool)
  /-- the same, put at the end of the list that the session keeps -/
  | lowerInto (node : Node) (linked : Bool)
  | expression (text : String)
  | name (name : Option String) (doclet : Option Doclet)
  | names (names : Option TypeNames) (doclet : Option Doclet) (label : Option String)
  | literal (props : List Property)
  | signature (doclet : Doclet)
  | result (doclet : Doclet)
  /-- the nesting of properties, and the nodes of some names -/
  | nesting (props : List Property) (names : List String)
  | warn (w : Warning)
  | trace (message : String)
  /-- forget the recorded diagnostics -/
  | clear
  | configure (strict verbose : Option Bool)
  | state

inductive Answer where
  | tree (node : Node)
  | type (type : TsType)
  | types (types : List TsType)
  | signature (s : Signature)
  | nesting (roots : List PropertyNode) (found : List (Option PropertyNode))
  | last (diagnostic : Diagnostic)
  | state (records : List Diagnostic)
  | done

structure Session where
  config : Config
  records : List Diagnostic := []
  /-- the children of the node that the session keeps -/
  held : List Node := []
  /-- the list of types that the session keeps -/
  types : List TsType := []

namespace Session

def start (config : Config) : Session := { config }

def trailOf (linked : Bool) : Trail := if linked then .below [] else .loose

/-- a step that changes nothing but the records -/
def plainStep (config : Config) : Step → Run Answer
  | .tree text => .tree <$> Node.ofText config text
  | .lower node linked => .type <$> node.lowerFrom config.strict (trailOf linked)
  | .expression text => .type <$> expressionType config text
  | .name name doclet => .type <$> resolveName config doclet name
  | .names names doclet label => .type <$> resolveType config doclet label names
  | .literal props => .type <$> literalType config props
  | .signature doclet => .signature <$> resolveSignature config doclet
  | .result doclet => .type <$> resolveResult config doclet
  | .nesting props names => do
    let roots ← nest config.strict props
    pure (.nesting roots (names.map (findNode? props)))
  | .warn w => do
    Run.warn config.strict w
    pure (.last w.toDiagnostic)
  | .trace message => do
    Run.trace message
    pure .done
  | _ => pure .done

/-- the session with the diagnostics of a run recorded -/
def record {α : Type} (s : Session) (r : Run α) : Session :=
  { s with records := s.records ++ r.diagnostics }

def step (s : Session) : Step → Session × Run Answer
  | .readSpan tokens source depth =>
    let growth := spanGrowth ⟨source, s.config⟩ (s.config.levels depth) tokens
    let held := s.held ++ growth.nodes
    let outcome := match growth.halt with
      | some r => .error (.rejected r)
      | none => .ok (.tree (.unionOf held))
    let run : Run Answer := ⟨growth.journal, outcome⟩
    ({ s.record run with held }, run)
  | .lowerInto node linked =>
    let run := node.lowerFrom s.config.strict (trailOf linked)
    let types := s.types ++ match run.outcome with
      | .ok type => [type]
      | .error _ => []
    ({ s.record run with types }, do let _ ← run; pure (.types types))
  | .clear => ({ s with records := [] }, pure .done)
  | .configure strict verbose =>
    let config := { s.config with
      strict := strict.getD s.config.strict
      verbose := verbose.getD s.config.verbose }
    ({ s with config }, pure .done)
  | .state => (s, pure (.state s.records))
  | step =>
    let run := plainStep s.config step
    (s.record run, run)

/-- the sessions and runs of several steps -/
def steps (s : Session) : List Step → List (Session × Run Answer)
  | [] => []
  | step :: more =>
    let after := s.step step
    after :: steps after.1 more

end Session

end DocTypes
