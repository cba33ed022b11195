import DocTypes.CommandLine.Run
import DocTypes.Proofs.Expression.Tree
import DocTypes.Proofs.Naming.Conforming
import DocTypes.Proofs.Naming.Layout
import DocTypes.Proofs.Naming.Strict

/-!
# The tree and the type of a record

The tree of a record is read from the expression as it is written, its type is found by name, with
the blanks at both ends stripped and with some names looked up instead of read.  They belong together
all the same: asking for the tree makes no difference to the rest of the record, nor to whether there
is one, and a type that was not looked up is that of the very tree that is shown.

* `nameType_settled`        the type of a name is found, or the name is rejected;
* `Shortcut`                the names that are looked up; they are always read without a warning;
* `exists_tree`             an expression that has a type has a tree;
* `record_of_tree`          records with and without their tree.
-/

namespace DocTypes

open Text (stripped upper)

/-! ## no other fault -/

theorem Node.ofText_settled (config : Config) (text : String) : (ofText config text).Settled :=
  (Node.ofText_mirrors config text).settled (Node.ofText_lenient rfl text)

/-- a lenient run finds the type of any name -/
theorem nameType_lenient (config : Config) (name : Option String) :
    ∃ type, (nameType config.lenient name).outcome = .ok type := by
  have hlenient : config.lenient.strict = false := rfl
  obtain ⟨type, htype, -⟩ := nameType_gives hlenient name
  exact ⟨type, htype⟩

theorem nameType_settled (config : Config) (name : Option String) :
    (nameType config name).Settled := by
  obtain ⟨type, htype⟩ := nameType_lenient config name
  exact (nameType_mirrors config name).settled htype

/-! ## names that are looked up -/

/-- a name that is not read as an expression -/
def Shortcut (name : String) : Prop :=
  name = "*" ∨ (Keyword.ofName? name).isSome = true ∨ isCallableName name = true

instance : DecidablePred Shortcut := fun _ => inferInstanceAs (Decidable (_ ∨ _ ∨ _))

theorem no_dot_of_ofName? {name : String} (h : (Keyword.ofName? name).isSome = true) :
    '.' ∉ (upper name).toList := by
  obtain ⟨k, hk⟩ := Option.isSome_iff_exists.1 h
  rw [Keyword.ofName?, Keyword.ofCapitals?] at hk
  split at hk
  · rename_i hbool
    rw [hbool]
    decide
  · have hlabels : ∀ k ∈ Keyword.all, '.' ∉ k.label.toList := by decide +kernel
    have hlabel := List.find?_some hk
    rw [← beq_iff_eq.1 hlabel]
    exact hlabels k (List.mem_of_find?_eq_some hk)

theorem no_dot_of_isCallableName {name : String} (h : isCallableName name = true) :
    '.' ∉ (upper name).toList := by
  rcases Bool.or_eq_true_iff.1 h with h | h
  · rw [beq_iff_eq.1 h]
    decide
  · rw [beq_iff_eq.1 h]
    decide

/-- no name that is looked up ends in a dot -/
theorem Shortcut.undotted {name : String} (h : Shortcut name) : endsInDot name.toList = false := by
  rcases h with rfl | h | h
  · decide
  · exact undotted_of_upper (no_dot_of_ofName? h)
  · exact undotted_of_upper (no_dot_of_isCallableName h)

/-- of the names with a mark, only that of functions in general is looked up -/
theorem Shortcut.isCallableName_of_mark {e : String} {m : Mark} (h : Shortcut (stripped e))
    (hm : .mark m ∈ tokenize e) : isCallableName (stripped e) = true := by
  have hchar := char_mem_stripped hm
  rcases h with hstar | hkeyword | hcallable
  · rw [hstar] at hchar
    cases m <;> exact absurd hchar (by decide)
  · rw [ofName?_mark hchar] at hkeyword
    cases hkeyword
  · exact hcallable

theorem NameForm.ofName_of_not_shortcut {e : String} (hempty : stripped e ≠ "")
    (h : ¬Shortcut (stripped e)) : ofName (some e) = expression (stripped e) := by
  obtain ⟨hstar, hkeyword, hcallable⟩ : stripped e ≠ "*" ∧
      Keyword.ofName? (stripped e) = none ∧ ¬isCallableName (stripped e) = true := by
    simpa [Shortcut] using h
  simp only [ofName, Option.getD_some]
  rw [if_neg hempty, if_neg hstar, hkeyword]
  exact if_neg hcallable

/-! ## trees of expressions that have a type -/

section
variable {config : Config} (hdepth : 0 ≤ config.maxDepth) {e : String}
include hdepth

/-- an expression in which no other stands is read without a warning -/
theorem exists_tree_of_flat {x : Expression} (hspelled : x.Spelled) (hflat : x.spans = [])
    (h : tokenize e = x.tokens) : ∃ root, (Node.ofText config e).outcome = .ok root := by
  have hwf : x.WellFormed := by
    refine .mk hspelled ?_ ?_
    · rw [hflat]
      nofun
    · rw [hflat]
      nofun
  have hspan : tokenize e = Expression.spanTokens .bar [x] := by
    rw [h, Expression.spanTokens_singleton]
  have hheight : Expression.spanHeight [x] = 0 := by
    simp [Expression.spanHeight, Expression.height_eq, hflat]
  have hwhole : wholeGrowth config e = Growth.clean [x.node] :=
    wholeGrowth_union (List.cons_ne_nil x []) (List.forall_mem_singleton.2 hwf) nofun hspan
      (by omega)
  have hne : tokenize e ≠ [] := by
    rw [h]
    exact x.tokens_ne_nil
  rw [Node.ofText_tokens config hne, hwhole]
  exact ⟨x.node, rfl⟩

/-- a name that is looked up could be read as well -/
theorem exists_tree_of_shortcut (h : Shortcut (stripped e)) :
    ∃ root, (Node.ofText config e).outcome = .ok root := by
  have hcanonical := canonical_tokenize e
  by_cases hmark : ∃ m, .mark m ∈ tokenize e
  · obtain ⟨m, hm⟩ := hmark
    obtain ⟨w, hw, hcall⟩ := tokenize_of_isCallableName hm (h.isCallableName_of_mark hm)
    have hword : IsWord w := by
      rw [hcall] at hcanonical
      obtain _ | _ | _ | ⟨hword⟩ := hcanonical
      exact hword
    refine exists_tree_of_flat hdepth (x := .function w [] none)
      ⟨⟨hword, undotted_of_isFunctionWord hw⟩, hw, nofun⟩ rfl ?_
    rw [hcall, Expression.tokens_function]
    rfl
  · generalize htokens : tokenize e = ts at hcanonical hmark
    cases hcanonical with
    | nil =>
      rw [stripped_of_tokenize_nil htokens] at h
      exact absurd h (by decide +kernel)
    | @word w hword =>
      rw [stripped_of_tokenize_word htokens] at h
      exact exists_tree_of_flat hdepth (x := .name w) ⟨hword, h.undotted⟩ rfl
        (by rw [htokens, Expression.tokens_name])
    | mark m => exact absurd ⟨m, List.mem_cons_self⟩ hmark
    | wordMark hword m => exact absurd ⟨m, List.mem_cons_of_mem _ List.mem_cons_self⟩ hmark

end

/-- a reading does not depend on the blanks at the ends -/
theorem exists_tree_of_expressionType {config : Config} {e : String} {type : TsType}
    (h : (expressionType config (stripped e)).outcome = .ok type) :
    ∃ root, (Node.ofText config e).outcome = .ok root ∧
      (root.lower config.strict).outcome = .ok type := by
  cases hread : (Node.ofText config (stripped e)).outcome with
  | error fault =>
    rw [expressionType, Run.bind_of_error _ hread] at h
    cases h
  | ok root =>
    rw [expressionType, Run.bind_of_ok _ hread] at h
    have hsame := Node.ofText_alike config (tokenize_stripped e)
    rw [Run.result?_eq_some.2 hread] at hsame
    exact ⟨root, Run.result?_eq_some.1 hsame.symm, h⟩

/-- an expression that has a type has a tree -/
theorem exists_tree {config : Config} (hdepth : 0 ≤ config.maxDepth) {e : String} {type : TsType}
    (h : (nameType config (some e)).outcome = .ok type) :
    ∃ root, (Node.ofText config e).outcome = .ok root := by
  cases hstrict : config.strict with
  | false => exact ⟨_, Node.ofText_lenient hstrict e⟩
  | true =>
    by_cases hempty : stripped e = ""
    · have hform : NameForm.ofName (some e) = .blank e := if_pos hempty
      rw [nameType, hform, NameForm.type, hstrict] at h
      cases h
    · by_cases hshortcut : Shortcut (stripped e)
      · exact exists_tree_of_shortcut hdepth hshortcut
      · rw [nameType, NameForm.ofName_of_not_shortcut hempty hshortcut] at h
        obtain ⟨root, hroot, -⟩ := exists_tree_of_expressionType h
        exact ⟨root, hroot⟩

/-! ## records -/

namespace CommandLine.Record

section
variable {run : Run TsType} (e : String) (tree : Option String)

theorem ofRun_of_ok {type : TsType} (h : run.outcome = .ok type) : (ofRun e tree run).outcome
    = .ok ⟨e, tree, type.text, run.diagnostics.map (·.message)⟩ := by
  rw [ofRun, Run.bind_of_ok _ h]
  rfl

theorem ofRun_rejected (h : run.Rejected) : (ofRun e tree run).Rejected := by
  obtain ⟨x, hx⟩ := h
  refine ⟨x, ?_⟩
  rw [ofRun, Run.bind_of_error _ hx]

end

section
variable (config : Config) (e : String)

theorem of_bare : of config false e = ofRun e none (nameType config (some e)) := by
  rw [of, if_neg Bool.false_ne_true, pure_bind]

theorem of_tree {root : Node} (h : (Node.ofText config e).outcome = .ok root) :
    of config true e = ofRun e (some root.dump) (nameType config (some e)) := by
  have hlisting : listing config e = pure (some root.dump) := by
    rw [listing, h]
    rfl
  rw [of, if_pos rfl, hlisting, pure_bind]

theorem of_tree_rejected (h : (Node.ofText config e).Rejected) : (of config true e).Rejected := by
  obtain ⟨x, hx⟩ := h
  refine ⟨x, ?_⟩
  have hlisting : (listing config e).outcome = .error (.rejected x) := by
    rw [listing, hx]
    rfl
  rw [of, if_pos rfl, Run.bind_of_error _ hlisting]

/-- there is a record of an expression, or it is rejected -/
theorem of_settled (withTree : Bool) : (of config withTree e).Settled := by
  have htype (tree : Option String) : (ofRun e tree (nameType config (some e))).Settled := by
    rcases nameType_settled config (some e) with ⟨type, htype⟩ | hrejected
    · exact .inl ⟨_, ofRun_of_ok e tree htype⟩
    · exact .inr (ofRun_rejected e tree hrejected)
  cases withTree with
  | false =>
    rw [of_bare]
    exact htype none
  | true =>
    rcases Node.ofText_settled config e with ⟨root, hroot⟩ | hrejected
    · rw [of_tree config e hroot]
      exact htype _
    · exact .inr (of_tree_rejected config e hrejected)

/-- a lenient run always makes a record -/
theorem of_lenient (h : config.strict = false) (withTree : Bool) :
    ∃ r, (of config withTree e).outcome = .ok r := by
  obtain ⟨type, htype⟩ := nameType_lenient config (some e)
  have hsame := (nameType_mirrors config (some e)).eq
  rw [h, if_neg Bool.false_ne_true] at hsame
  rw [← hsame] at htype
  cases withTree with
  | false =>
    rw [of_bare]
    exact ⟨_, ofRun_of_ok e none htype⟩
  | true =>
    rw [of_tree config e (Node.ofText_lenient h e)]
    exact ⟨_, ofRun_of_ok e _ htype⟩

end

end CommandLine.Record

open CommandLine (Record)

/-- Asking for the tree makes no difference to the rest of a record, nor to whether there is one; and
a type that was not looked up is that of the very tree that is shown. -/
theorem record_of_tree (config : Config) (hdepth : 0 ≤ config.maxDepth) (e : String) :
    (((Record.of config true e).Rejected ∧ (Record.of config false e).Rejected) ∨
      ∃ r s, (Record.of config true e).outcome = .ok r ∧
        (Record.of config false e).outcome = .ok s ∧
        r.input = s.input ∧ r.type = s.type ∧ r.warnings = s.warnings) ∧
    ∀ r, (Record.of config true e).outcome = .ok r → stripped e ≠ "" → ¬Shortcut (stripped e) →
      ∃ root type, (Node.ofText config e).outcome = .ok root ∧ r.tree = some root.dump ∧
        (root.lower config.strict).outcome = .ok type ∧ r.type = type.text := by
  rcases nameType_settled config (some e) with ⟨type, htype⟩ | hrejected
  · obtain ⟨root, hroot⟩ := exists_tree hdepth htype
    have hrecord := Record.ofRun_of_ok e (some root.dump) htype
    have hbare := Record.ofRun_of_ok e none htype
    rw [← Record.of_tree config e hroot] at hrecord
    rw [← Record.of_bare config e] at hbare
    refine ⟨.inr ⟨_, _, hrecord, hbare, rfl, rfl, rfl⟩, ?_⟩
    intro r hr hempty hshortcut
    obtain rfl := Except.ok.inj (hrecord.symm.trans hr)
    rw [nameType, NameForm.ofName_of_not_shortcut hempty hshortcut] at htype
    obtain ⟨root', hroot', hlower⟩ := exists_tree_of_expressionType htype
    obtain rfl := Except.ok.inj (hroot.symm.trans hroot')
    exact ⟨root, type, hroot, rfl, hlower, rfl⟩
  · have hbare := Record.ofRun_rejected e none hrejected
    rw [← Record.of_bare config e] at hbare
    have htree : (Record.of config true e).Rejected := by
      rcases Node.ofText_settled config e with ⟨root, hroot⟩ | hunread
      · rw [Record.of_tree config e hroot]
        exact Record.ofRun_rejected e _ hrejected
      · exact Record.of_tree_rejected config e hunread
    refine ⟨.inl ⟨htree, hbare⟩, ?_⟩
    intro r hr
    obtain ⟨x, hx⟩ := htree
    rw [hx] at hr
    cases hr

/-- under strict settings, a map with blanks around it, which is not looked up -/
theorem record_of_tree_of_map :
    let config : Config := { strict := true, maxDepth := 2 }
    let e := " Map.<a, function( )>\n"
    let tree := "name: Map, type:GENERIC\n  name: a, type:TYPE\n"
      ++ "  name: function, type:FUNCTION\n    name: void, type:TYPE"
    let r : Record := ⟨e, some tree, "Map<a, (...params: any[]) => void>", []⟩
    (Record.of config true e).outcome = .ok r ∧ ∃ root type,
      (Node.ofText config e).outcome = .ok root ∧ r.tree = some root.dump ∧
        (root.lower true).outcome = .ok type ∧ r.type = type.text := by
  intro config e tree r
  have hr : (Record.of config true e).outcome = .ok r :=
    Run.result?_eq_some.1 (by decide +kernel)
  obtain ⟨-, htree⟩ := record_of_tree config (by decide) e
  exact ⟨hr, htree r hr (by decide +kernel) (by decide +kernel)⟩

end DocTypes
