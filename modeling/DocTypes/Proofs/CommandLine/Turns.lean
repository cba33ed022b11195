import DocTypes.Proofs.CommandLine.Record

/-!
# Expressions of one command line

No expression of a command line bears on another.  What has been written when its turn comes stays
as it is, what it adds does not depend on that, and the exit code only remembers whether any of them
was rejected.

* `outputLines`, `errorLines`   what an expression writes: its record, or why it was rejected;
* `turn_eq`                     one turn adds these lines, and nothing else;
* `foldl_turn`                  so do several turns, one after the other;
* `Apart`                       what it means for expressions not to bear on one another;
* `expressions_apart`           the result of a command line, from those of its expressions alone.
-/

namespace DocTypes.CommandLine

/-- lines, each with its end -/
def linesText (lines : List String) : String := String.join (lines.map (· ++ "\n"))

theorem linesText_cons (line : String) (lines : List String) :
    linesText (line :: lines) = line ++ "\n" ++ linesText lines := by
  simp [linesText]

theorem linesText_append (a b : List String) : linesText (a ++ b) = linesText a ++ linesText b := by
  simp [linesText]

theorem linesText_flatMap {ι : Type} (xs : List ι) (lines : ι → List String) :
    linesText (xs.flatMap lines) = String.join (xs.map fun x => linesText (lines x)) := by
  induction xs with
  | nil => rfl
  | cons x xs ih =>
    rw [List.flatMap_cons, linesText_append, ih, List.map_cons, String.join_cons]

/-- a line shows, even if it is empty -/
theorem linesText_eq_empty {lines : List String} : linesText lines = "" ↔ lines = [] := by
  cases lines with
  | nil => simp [linesText]
  | cons line lines => simp [linesText_cons]

/-! ## what is written -/

section
variable (settings : Settings) (e : String)

/-- the run that makes the record of an expression -/
def recordRun : Run Record := Record.of settings.config settings.tree e

def Record.lines (r : Record) : List String :=
  if settings.json then [r.toJson.compact] else r.tree.toList ++ [r.type]

def outputLines : List String :=
  match (recordRun settings e).outcome with
  | .ok r => r.lines settings
  | .error _ => []

/-- the line that tells why there is no record -/
def errorLines : List String :=
  match (recordRun settings e).outcome with
  | .ok _ => []
  | .error fault => ["error: " ++ fault.text]

/-- what is logged of an expression -/
def logged : List String :=
  logLines settings.level settings.verbose (recordRun settings e).journal

/-- all that goes to the error output -/
def toldLines : List String := logged settings e ++ errorLines settings e

theorem Record.lines_ne_nil (r : Record) : r.lines settings ≠ [] := by
  unfold Record.lines
  split
  · simp
  · simp

theorem outputLines_eq_nil : outputLines settings e = [] ↔ (recordRun settings e).Rejected := by
  unfold outputLines
  rcases Record.of_settled settings.config e settings.tree with ⟨r, hr⟩ | ⟨x, hx⟩
  · rw [recordRun, Run.Rejected, hr]
    simp [Record.lines_ne_nil]
  · rw [recordRun, Run.Rejected, hx]
    simp

/-- only a rejection is told of -/
theorem errorLines_eq : errorLines settings e
    = ((recordRun settings e).rejection?.map fun x => "error: " ++ x.text).toList := by
  unfold errorLines
  rcases Record.of_settled settings.config e settings.tree with ⟨r, hr⟩ | ⟨x, hx⟩
  · rw [recordRun, Run.rejection?, hr]
    rfl
  · rw [recordRun, Run.rejection?, hx]
    rfl

theorem errorLines_eq_nil : errorLines settings e = [] ↔ ¬(recordRun settings e).Rejected := by
  rw [errorLines_eq, ← Run.isSome_rejection?]
  cases (recordRun settings e).rejection? with
  | none => simp
  | some x => simp

theorem not_rejected_of_lenient (h : settings.strict = false) :
    ¬(recordRun settings e).Rejected := by
  rintro ⟨x, hx⟩
  obtain ⟨r, hr⟩ := Record.of_lenient settings.config e h settings.tree
  rw [recordRun, hr] at hx
  cases hx

end

/-! ## turns -/

section
variable (settings : Settings) (result : Result)

theorem foldl_tell (lines : List String) : lines.foldl Result.tell result
    = { result with errors := result.errors ++ linesText lines } := by
  induction lines generalizing result with
  | nil => simp [linesText]
  | cons line lines ih =>
    rw [List.foldl_cons, ih, linesText_cons, ← String.append_assoc]
    rfl

theorem Record.print_eq (r : Record) : r.print settings result
    = { result with output := result.output ++ linesText (r.lines settings) } := by
  obtain ⟨input, tree, type, warnings⟩ := r
  unfold Record.print Record.lines
  split
  · simp [Result.print, linesText]
  · cases tree with
    | none => simp [Result.print, linesText]
    | some tree => simp [Result.print, linesText, String.append_assoc]

/-- a turn adds the lines of its expression, and leaves the exit code unless it is rejected -/
theorem turn_eq (e : String) : turn settings result e
    = ⟨if errorLines settings e = [] then result.exit else 1,
      result.output ++ linesText (outputLines settings e),
      result.errors ++ linesText (toldLines settings e)⟩ := by
  have hlog : turn settings result e = match (recordRun settings e).outcome with
      | .ok r => r.print settings ((logged settings e).foldl Result.tell result)
      | .error fault =>
        { ((logged settings e).foldl Result.tell result).tell ("error: " ++ fault.text) with
          exit := 1 } := rfl
  rw [hlog, foldl_tell, toldLines, errorLines, outputLines]
  cases h : (recordRun settings e).outcome with
  | ok r =>
    dsimp only
    rw [Record.print_eq, if_pos rfl, List.append_nil]
  | error fault =>
    dsimp only
    rw [if_neg (List.cons_ne_nil _ _), linesText_append, ← String.append_assoc]
    simp [Result.tell, linesText]

/-- turns add the lines of their expressions, in order -/
theorem foldl_turn (expressions : List String) : expressions.foldl (turn settings) result
    = ⟨if ∀ e ∈ expressions, errorLines settings e = [] then result.exit else 1,
      result.output ++ linesText (expressions.flatMap (outputLines settings)),
      result.errors ++ linesText (expressions.flatMap (toldLines settings))⟩ := by
  induction expressions generalizing result with
  | nil => simp [linesText]
  | cons e more ih =>
    rw [List.foldl_cons, ih, turn_eq]
    simp only [List.flatMap_cons, linesText_append, String.append_assoc, List.forall_mem_cons]
    congr 1
    by_cases he : errorLines settings e = []
    · simp [he]
    · simp [he]

end

/-! ## error lines -/

/-- whether a line of the error output tells why there is no record -/
def isErrorLine (line : String) : Bool := "error: ".toList.isPrefixOf line.toList

theorem isErrorLine_logLine (level : Level) (message : String) :
    isErrorLine (logLine level message) = false := by
  cases level with
  | debug => simp [isErrorLine, logLine, Level.label, List.isPrefixOf]
  | warning => simp [isErrorLine, logLine, Level.label, List.isPrefixOf]

/-- nothing that is logged looks like it -/
theorem isErrorLine_of_mem_logLines {level : Level} {verbose : Bool} {journal : List Entry}
    {line : String} (h : line ∈ logLines level verbose journal) : isErrorLine line = false := by
  obtain ⟨entry, -, hline⟩ := List.mem_flatMap.1 h
  cases entry with
  | warning w =>
    obtain ⟨message, -, rfl⟩ := List.mem_map.1 hline
    exact isErrorLine_logLine .warning message
  | trace message =>
    rw [Entry.logLines] at hline
    split at hline
    · obtain rfl := List.mem_singleton.1 hline
      exact isErrorLine_logLine .debug message
    · cases hline

theorem filter_toldLines (settings : Settings) (e : String) :
    (toldLines settings e).filter isErrorLine = errorLines settings e := by
  have hlogged : (logged settings e).filter isErrorLine = [] :=
    List.filter_eq_nil_iff.2 fun line hline => by
      rw [isErrorLine_of_mem_logLines hline]
      exact Bool.false_ne_true
  have htold : ∀ line ∈ errorLines settings e, isErrorLine line = true := by
    intro line hline
    rw [errorLines_eq, Option.mem_toList] at hline
    obtain ⟨x, -, rfl⟩ := Option.map_eq_some_iff.1 hline
    simp [isErrorLine]
  rw [toldLines, List.filter_append, hlogged, List.nil_append, List.filter_eq_self]
  exact htold

/-! ## command lines -/

section
variable (settings : Settings) (expressions : List String)

theorem resolveAll_eq : resolveAll settings expressions
    = ⟨if ∀ e ∈ expressions, errorLines settings e = [] then 0 else 1,
      linesText (expressions.flatMap (outputLines settings)),
      linesText (expressions.flatMap (toldLines settings))⟩ := by
  rw [resolveAll, foldl_turn]
  simp

theorem output_alone (e : String) :
    (resolveAll settings [e]).output = linesText (outputLines settings e) := by
  rw [resolveAll_eq, List.flatMap_singleton]

theorem exists_rejected_iff : (∃ e ∈ expressions, (recordRun settings e).Rejected) ↔
    ¬∀ e ∈ expressions, errorLines settings e = [] := by
  simp only [errorLines_eq_nil]
  push Not
  rfl

/-- the result of several expressions, from those of each of them alone -/
structure Apart : Prop where
  /-- what is put out for each alone, one after the other -/
  output : (resolveAll settings expressions).output
    = String.join (expressions.map fun e => (resolveAll settings [e]).output)
  /-- nothing is put out just for those that are rejected -/
  silent_iff (e : String) :
    (resolveAll settings [e]).output = "" ↔ (recordRun settings e).Rejected
  errors : (resolveAll settings expressions).errors
    = linesText (expressions.flatMap (toldLines settings))
  /-- an error line for each that is rejected, in order -/
  error_lines : (expressions.flatMap (toldLines settings)).filter isErrorLine
    = expressions.filterMap fun e =>
        (recordRun settings e).rejection?.map fun x => "error: " ++ x.text
  exit_iff :
    (resolveAll settings expressions).exit = 1 ↔ ∃ e ∈ expressions, (recordRun settings e).Rejected
  exit_cases :
    (resolveAll settings expressions).exit = 0 ∨ (resolveAll settings expressions).exit = 1
  lenient : settings.strict = false → (resolveAll settings expressions).exit = 0

/-- the expressions of a command line do not bear on one another -/
theorem expressions_apart :
    (∀ arguments es, Request.ofArguments arguments = .resolve settings es →
      run arguments = resolveAll settings es) ∧ Apart settings expressions := by
  constructor
  · intro arguments es h
    rw [run, h]
  constructor
  case output =>
    simp only [output_alone]
    rw [resolveAll_eq, linesText_flatMap]
  case silent_iff =>
    intro e
    rw [output_alone, linesText_eq_empty, outputLines_eq_nil]
  case errors => rw [resolveAll_eq]
  case error_lines =>
    simp only [List.filter_flatMap, filter_toldLines, errorLines_eq,
      List.filterMap_eq_flatMap_toList]
  case exit_iff =>
    rw [exists_rejected_iff, resolveAll_eq]
    by_cases h : ∀ e ∈ expressions, errorLines settings e = []
    · rw [if_pos h]
      show (0 : UInt32) = 1 ↔ _
      exact ⟨fun hexit => absurd hexit (by decide), fun hn => absurd h hn⟩
    · rw [if_neg h]
      show (1 : UInt32) = 1 ↔ _
      exact ⟨fun _ => h, fun _ => rfl⟩
  case exit_cases =>
    rw [resolveAll_eq]
    split
    · exact .inl rfl
    · exact .inr rfl
  case lenient =>
    intro hlenient
    have hnone : ∀ e ∈ expressions, errorLines settings e = [] := by
      intro e _
      exact (errorLines_eq_nil settings e).2 (not_rejected_of_lenient settings e hlenient)
    rw [resolveAll_eq]
    exact if_pos hnone

end

/-- between two expressions that have a record stands one that is rejected -/
theorem expressions_apart_of_unclosed :
    let settings : Settings := { tree := true, strict := true }
    let result := run ["--tree", "--strict", "a", "b<", "c"]
    result.output = (resolveAll settings ["a"]).output ++ (resolveAll settings ["c"]).output ∧
      result.exit = 1 := by
  intro settings result
  obtain ⟨hrun, hapart⟩ := expressions_apart settings ["a", "b<", "c"]
  have hresult : result = resolveAll settings ["a", "b<", "c"] := hrun _ _ (by decide +kernel)
  have hrejected : (recordRun settings "b<").Rejected :=
    Run.isSome_rejection?.1 (by decide +kernel)
  have hsilent : (resolveAll settings ["b<"]).output = "" := (hapart.silent_iff "b<").2 hrejected
  rw [hresult]
  refine ⟨?_, hapart.exit_iff.2 ⟨"b<", by simp, hrejected⟩⟩
  rw [hapart.output]
  simp [hsilent]

end DocTypes.CommandLine
