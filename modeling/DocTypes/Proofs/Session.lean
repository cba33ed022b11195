import DocTypes.Proofs.Growth.Linked
import DocTypes.Proofs.Naming.Strict
import DocTypes.Session
import Mathlib.Data.List.DropRight

/-!
# Steps of a session

The steps of a session share its records and the node into which spans are read, and only add to
both.  So each step comes to what it comes to in a session of its own, and what the session has
recorded is what its steps record on their own, one after the other, from the last point on at which
the records were forgotten.

That a plain step does not look at the records is how `Session.plainStep` is made.  What is shown is
what the steps leave behind: that no step changes the settings, that spans read into the shared node
add to it what they add alone, that the records are those of the single steps and none if the settings
are strict, and that among linked nodes only new ones are put below the one that is read into.

* `Step.alone`          the run of a step in a session of its own;
* `sinceClear`          the steps behind the last one that forgets the records;
* `Session.Stands`      what a session holds after some steps; each step keeps this;
* `Session.RunsAlone`   what a step behind other steps comes to;
* `AddsOnly`            reading and building leave the linked nodes that there are as they are;
* `step_runs_alone`     all of this holds of every step of every session.
-/

namespace DocTypes

open Run (Mirrors mirrors_pure mirrors_trace mirrors_warn)

/-! ## steps -/

namespace Step

/-- the steps that neither change the settings nor show what the session keeps -/
def isOrdinary : Step → Bool
  | lowerInto .. | configure .. | state => false
  | _ => true

/-- the steps that change nothing but the records -/
def isPlain : Step → Bool
  | readSpan .. | lowerInto .. | clear | configure .. | state => false
  | _ => true

def isClear : Step → Bool
  | clear => true
  | _ => false

theorem ordinary_cases {step : Step} (h : step.isOrdinary = true) :
    step.isPlain = true ∨ (∃ tokens source depth, step = readSpan tokens source depth) ∨
      step = clear := by
  cases step with
  | readSpan tokens source depth => exact .inr (.inl ⟨tokens, source, depth, rfl⟩)
  | clear => exact .inr (.inr rfl)
  | lowerInto | configure | state => cases h
  | _ => exact .inl rfl

/-- the run of a step in a session of its own -/
def alone (config : Config) (step : Step) : Run Answer := ((Session.start config).step step).2

/-- the nodes that a step reads into the node of the session -/
def reads (config : Config) (step : Step) : List Node := ((Session.start config).step step).1.held

/-- the answer of a step behind others that have read nodes: reading shows all nodes read so far -/
def answerBehind (earlier : List Node) : Step → Answer → Answer
  | readSpan .., .tree node => .tree (.unionOf (earlier ++ node.children))
  | _, answer => answer

end Step

/-- the steps behind the last one that forgets the records -/
def sinceClear (steps : List Step) : List Step := steps.rtakeWhile (!·.isClear)

theorem sinceClear_concat {step : Step} (h : step.isClear = false) (steps : List Step) :
    sinceClear (steps ++ [step]) = sinceClear steps ++ [step] :=
  List.rtakeWhile_concat_pos _ _ _ (by rw [h]; rfl)

theorem sinceClear_clear (steps : List Step) : sinceClear (steps ++ [.clear]) = [] :=
  List.rtakeWhile_concat_neg _ _ _ nofun

namespace Session

/-- what a plain step does to a session -/
theorem step_of_isPlain {step : Step} (h : step.isPlain = true) (s : Session) :
    s.step step = (s.record (plainStep s.config step), plainStep s.config step) := by
  cases step with
  | readSpan | lowerInto | clear | configure | state => cases h
  | _ => rfl

theorem answerBehind_of_isPlain {step : Step} (h : step.isPlain = true) (earlier : List Node) :
    step.answerBehind earlier = id := by
  cases step with
  | readSpan => cases h
  | _ => rfl

theorem outcome_readSpan {config : Config} {s : Session} (h : s.config = config)
    (tokens : List Token) (source : String) (depth : Int) :
    let growth := spanGrowth ⟨source, config⟩ (config.levels depth) tokens
    (s.step (.readSpan tokens source depth)).2.outcome = match growth.halt with
      | some r => .error (.rejected r)
      | none => .ok (.tree (.unionOf (s.held ++ growth.nodes))) := by
  subst h
  rfl

/-! ## one step -/

/-- what a session holds after some steps -/
structure Stands (config : Config) (done : List Step) (s : Session) : Prop where
  config_eq : s.config = config
  records_eq : s.records = (sinceClear done).flatMap fun step => (step.alone config).diagnostics
  held_eq : s.held = done.flatMap (Step.reads config)

/-- what a step comes to behind other steps -/
structure RunsAlone (config : Config) (done : List Step) (step : Step) (run : Run Answer) :
    Prop where
  journal_eq : run.journal = (step.alone config).journal
  outcome_eq : run.outcome
    = (step.alone config).outcome.map (step.answerBehind (done.flatMap (Step.reads config)))

theorem stands_start (config : Config) : Stands config [] (start config) := ⟨rfl, rfl, rfl⟩

section
variable {config : Config} {done : List Step} {s : Session} {step : Step}

theorem Stands.runsAlone (h : Stands config done s) (hstep : step.isOrdinary = true) :
    RunsAlone config done step (s.step step).2 := by
  obtain ⟨rfl, -, hheld⟩ := h
  rcases Step.ordinary_cases hstep with hplain | ⟨tokens, source, depth, rfl⟩ | rfl
  · have halone : step.alone s.config = plainStep s.config step := by
      rw [Step.alone, step_of_isPlain hplain]
      rfl
    rw [step_of_isPlain hplain]
    refine ⟨by rw [halone], ?_⟩
    rw [halone, answerBehind_of_isPlain hplain]
    exact Except.map_id ▸ rfl
  · refine ⟨rfl, ?_⟩
    have hstart : (start s.config).config = s.config := rfl
    have hshared := outcome_readSpan (s := s) rfl tokens source depth
    have halone := outcome_readSpan hstart tokens source depth
    rw [← hheld, Step.alone, hshared, halone]
    -- what the span adds is the same in both sessions
    cases (spanGrowth ⟨source, s.config⟩ (s.config.levels depth) tokens).halt with
    | some r => rfl
    | none => rfl
  · exact ⟨rfl, rfl⟩

theorem Stands.after_step (h : Stands config done s) (hstep : step.isOrdinary = true) :
    Stands config (done ++ [step]) (s.step step).1 := by
  have hrun := (h.runsAlone hstep).journal_eq
  obtain ⟨rfl, hrecords, hheld⟩ := h
  have hrecorded (hclear : step.isClear = false) :
      s.records ++ (s.step step).2.diagnostics
        = (sinceClear (done ++ [step])).flatMap fun step =>
          (step.alone s.config).diagnostics := by
    rw [sinceClear_concat hclear, List.flatMap_append, List.flatMap_singleton, hrecords,
      Run.diagnostics, hrun, Run.diagnostics]
  have hread : s.held ++ step.reads s.config
      = (done ++ [step]).flatMap (Step.reads s.config) := by
    rw [List.flatMap_append, List.flatMap_singleton, hheld]
  rcases Step.ordinary_cases hstep with hplain | ⟨tokens, source, depth, rfl⟩ | rfl
  · have hclear : step.isClear = false := by
      cases step with
      | clear => cases hplain
      | _ => rfl
    have hreads : step.reads s.config = [] := by
      rw [Step.reads, step_of_isPlain hplain]
      rfl
    have hrecorded := hrecorded hclear
    rw [step_of_isPlain hplain] at hrecorded ⊢
    refine ⟨rfl, hrecorded, ?_⟩
    rw [← hread, hreads, List.append_nil]
    rfl
  · exact ⟨rfl, hrecorded rfl, hread⟩
  · refine ⟨rfl, ?_, ?_⟩
    · rw [sinceClear_clear]
      rfl
    · rw [← hread]
      exact (List.append_nil s.held).symm

end

/-! ## strict sessions -/

theorem plainStep_mirrors (config : Config) (step : Step) :
    Mirrors config.strict (plainStep config step) (plainStep config.lenient step) := by
  cases step with
  | tree text => exact (Node.ofText_mirrors config text).map _
  | lower node linked => exact (node.lowerFrom_mirrors _).map _
  | expression text => exact (expressionType_mirrors config text).map _
  | name name doclet => exact (resolveName_mirrors config doclet name).map _
  | names names doclet label => exact (resolveType_mirrors config doclet label names).map _
  | literal props => exact (literalType_mirrors config props).map _
  | signature doclet => exact (resolveSignature_mirrors config doclet).map _
  | result doclet => exact (resolveResult_mirrors config doclet).map _
  | nesting props names => exact (nest_mirrors props).bind fun _ => mirrors_pure _
  | warn w => exact (mirrors_warn w).bind fun _ => mirrors_pure _
  | trace message => exact (mirrors_trace message).bind fun _ => mirrors_pure _
  | readSpan | lowerInto | clear | configure | state => exact mirrors_pure _

/-- a strict session records nothing -/
theorem diagnostics_alone_of_strict {config : Config} (hstrict : config.strict = true)
    {step : Step} (hstep : step.isOrdinary = true) : (step.alone config).diagnostics = [] := by
  rcases Step.ordinary_cases hstep with hplain | ⟨tokens, source, depth, rfl⟩ | rfl
  · have hmirrors := plainStep_mirrors config step
    rw [hstrict] at hmirrors
    rw [Step.alone, step_of_isPlain hplain]
    exact hmirrors.diagnostics_eq_nil
  · have hmirrors := spanGrowth_mirrors ⟨source, config⟩ (config.levels depth) tokens
    have hjournal := hmirrors.journal_eq_nil hstrict
    show diagnostics (spanGrowth ⟨source, config⟩ (config.levels depth) tokens).journal = []
    rw [hjournal]
    rfl
  · rfl

/-! ## whole sessions -/

/-- the session after some steps -/
def after (s : Session) (done : List Step) : Session :=
  done.foldl (fun s step => (s.step step).1) s

theorem steps_behind (s : Session) (before : List Step) (step : Step) (later : List Step) :
    (s.steps (before ++ step :: later))[before.length]? = some ((s.after before).step step) := by
  induction before generalizing s with
  | nil => rfl
  | cons first before ih => exact ih (s.step first).1

theorem stands_after {config : Config} {done : List Step}
    (h : ∀ step ∈ done, step.isOrdinary = true) : Stands config done ((start config).after done) := by
  induction done using List.reverseRecOn with
  | nil => exact stands_start config
  | append_singleton done step ih =>
    obtain ⟨hdone, hstep⟩ := List.forall_mem_append.1 h
    have hstands := ih hdone
    rw [after, List.foldl_append]
    exact hstands.after_step (hstep step (List.mem_singleton.2 rfl))

end Session

/-! ## nodes made before -/

/-- Whatever linked nodes there are, a span that is read into one of them adds its nodes below it,
after the children it has, and an expression adds its nodes below none of them.  All other nodes
stay as they are, and what is added depends on none. -/
structure AddsOnly (config : Config) : Prop where
  readSpan (source : String) (levels : Nat) (tokens : List Token) (g : Graph) (parent : Nat)
    (hparent : parent < g.cells.length) :
    Planted parent g (spanInto ⟨source, config⟩ levels parent tokens g)
      (spanGrowth ⟨source, config⟩ levels tokens)
  tree (text : String) (g : Graph) :
    MadeOne g (Scope.plantUnit ⟨text, config⟩ (spanInto ⟨text, config⟩ (config.levels 0))
      (tokenize text) g) (wholeGrowth config text)

theorem addsOnly (config : Config) : AddsOnly config where
  readSpan source levels tokens g parent hparent :=
    spanInto_enacts ⟨source, config⟩ levels tokens parent g hparent
  tree text g := plantUnit_makes
    (spanInto_enacts ⟨text, config⟩ (config.levels 0) (tokenize text)) ⟨text, config⟩ g

open Session

/-- Every step of a session comes to what it comes to alone, and the session holds what its steps
until then record and read alone; among linked nodes, steps only add.  The first of these says
something for steps that read into the shared node, the others are given no more than the settings;
what holds of all steps is the second, carried from step to step by `Stands.after_step`. -/
theorem step_runs_alone (config : Config) {before : List Step} {step : Step}
    (hsteps : ∀ done ∈ before ++ [step], done.isOrdinary = true) (later : List Step) :
    (∃ after run,
      ((start config).steps (before ++ step :: later))[before.length]? = some (after, run) ∧
        RunsAlone config before step run ∧ Stands config (before ++ [step]) after ∧
        (config.strict = true → after.records = [])) ∧ AddsOnly config := by
  obtain ⟨hbefore, hstep⟩ := List.forall_mem_append.1 hsteps
  have hstep := hstep step (List.mem_singleton.2 rfl)
  have hstands : Stands config before ((start config).after before) := stands_after hbefore
  have hafter := hstands.after_step hstep
  have hrecords (hstrict : config.strict = true) :
      (((start config).after before).step step).1.records = [] := by
    rw [hafter.records_eq, List.flatMap_eq_nil_iff]
    intro done hdone
    have hmem : done ∈ before ++ [step] := (List.rtakeWhile_suffix _ _).mem hdone
    exact diagnostics_alone_of_strict hstrict (hsteps done hmem)
  exact ⟨⟨_, _, steps_behind (start config) before step later, hstands.runsAlone hstep, hafter,
    hrecords⟩, addsOnly config⟩

/-- spans read before and after the records were forgotten, and a name that is rejected -/
theorem step_runs_alone_of_clear :
    let before : List Step := [.readSpan [.word "k", .mark .gt] "k>" 0, .clear, .tree "a)|(",
      .name (some "Foo<") (some { kind := some "typedef" })]
    let step : Step := .readSpan [.mark .lparen, .word "x", .mark .comma] "(x," 0
    (∃ after run, ((start {}).steps (before ++ [step]))[4]? = some (after, run) ∧
      RunsAlone {} before step run ∧ Stands {} (before ++ [step]) after ∧
      (({} : Config).strict = true → after.records = [])) ∧ AddsOnly {} :=
  step_runs_alone {} (by decide) []

end DocTypes
