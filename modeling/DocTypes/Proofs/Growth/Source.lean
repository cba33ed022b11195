import DocTypes.Proofs.Growth.Related
import DocTypes.Proofs.Lowering.Strict

/-!
# The expression that a warning shows

A span is read for an expression, and the warnings about the span show that expression.  It bears
on nothing else: whatever the expression is, the same nodes are added, warnings of the same
categories are written down, and the reading is halted or not.  So the tree of an expression depends
on its tokens only.

* `Run.result?`          the result of a run, if it does not end with a fault;
* `Growth.Alike`         the same nodes and categories, with both readings halted or neither;
* `kept_alike`           every way of putting readings together keeps this;
* `Node.ofText_alike`    expressions with the same tokens have the same tree, or both have none.
-/

namespace DocTypes

/-! ## results -/

namespace Run

variable {α β : Type}

def result? (r : Run α) : Option α := r.outcome.toOption

theorem result?_eq_some {r : Run α} {a : α} : r.result? = some a ↔ r.outcome = .ok a := by
  rw [result?]
  cases r.outcome with
  | error fault => simp [Except.toOption]
  | ok b => simp [Except.toOption]

theorem result?_bind (r : Run α) (f : α → Run β) :
    (r >>= f).result? = r.result?.bind fun a => (f a).result? := by
  unfold result?
  cases h : r.outcome with
  | error fault =>
    rw [bind_of_error f h]
    rfl
  | ok a =>
    rw [bind_of_ok f h]
    rfl

/-- a warning leads to a result just under lenient settings, whatever it tells of -/
theorem result?_warn (strict : Bool) (w : Warning) :
    (warn strict w).result? = if strict then none else some () := by
  cases strict <;> rfl

/-- nothing is recorded of a warning under strict settings -/
theorem anomalies_warn_bind {a : α} (strict : Bool) (w : Warning) :
    (warn strict w >>= fun _ => Pure.pure a : Run α).diagnostics.map (·.anomaly)
      = if strict then [] else [w.anomaly] := by
  cases strict <;> rfl

end Run

theorem Flaw.anomaly_warning (flaw : Flaw) (source : String) :
    (flaw.warning source).anomaly = flaw.anomaly := rfl

/-! ## readings -/

namespace Growth

structure Alike (g g' : Growth) : Prop where
  nodes : g.nodes = g'.nodes
  anomalies : (diagnostics g.journal).map (·.anomaly) = (diagnostics g'.journal).map (·.anomaly)
  halted : g.halt.isSome = g'.halt.isSome

section
variable {scope scope' : Scope} {a a' b b' g g' : Growth}

theorem alike_self (g : Growth) : Alike g g := ⟨rfl, rfl, rfl⟩

theorem alike_warn (hstrict : scope'.config.strict = scope.config.strict) {flaw flaw' : Flaw}
    (h : flaw.anomaly = flaw'.anomaly) : Alike (warn scope flaw) (warn scope' flaw') := by
  unfold warn
  rw [hstrict]
  split
  · exact ⟨rfl, rfl, rfl⟩
  · exact ⟨rfl, congrArg (fun anomaly => [anomaly]) h, rfl⟩

theorem Alike.halt_eq_none (h : Alike g g') (hhalt : g.halt = none) : g'.halt = none := by
  have hhalted := h.halted
  rw [hhalt] at hhalted
  exact Option.isNone_iff_eq_none.1 (Option.isSome_eq_false_iff.1 hhalted.symm)

theorem Alike.exists_halt (h : Alike g g') {r : Rejection} (hhalt : g.halt = some r) :
    ∃ r', g'.halt = some r' := by
  have hhalted := h.halted
  rw [hhalt] at hhalted
  exact Option.isSome_iff_exists.1 hhalted.symm

theorem Alike.append (ha : Alike a a') (hb : Alike b b') : Alike (a ++ b) (a' ++ b') := by
  cases hhalt : a.halt with
  | some r =>
    obtain ⟨r', hhalt'⟩ := ha.exists_halt hhalt
    rw [append_of_halted hhalt, append_of_halted hhalt']
    exact ha
  | none =>
    rw [append_of_unhalted hhalt, append_of_unhalted (ha.halt_eq_none hhalt)]
    refine ⟨?_, ?_, hb.halted⟩
    · show a.nodes ++ b.nodes = a'.nodes ++ b'.nodes
      rw [ha.nodes, hb.nodes]
    · show (diagnostics (a.journal ++ b.journal)).map _ = (diagnostics (a'.journal ++ b'.journal)).map _
      rw [diagnostics_append, diagnostics_append, List.map_append, List.map_append, ha.anomalies,
        hb.anomalies]

theorem Alike.under (h : Alike g g') (kind : Kind) (name : String) :
    Alike (g.under kind name) (g'.under kind name) := by
  refine ⟨?_, h.anomalies, h.halted⟩
  show [Node.mk kind name g.nodes] = [Node.mk kind name g'.nodes]
  rw [h.nodes]

theorem Alike.unit (hstrict : scope'.config.strict = scope.config.strict) (h : Alike g g')
    (span span' : List Token) : Alike (g.unit scope span) (g'.unit scope' span') := by
  cases hhalt : g.halt with
  | some r =>
    obtain ⟨r', hhalt'⟩ := h.exists_halt hhalt
    rw [unit_of_halted hhalt, unit_of_halted hhalt']
    exact ⟨rfl, h.anomalies, rfl⟩
  | none =>
    rw [unit_of_unhalted hhalt, unit_of_unhalted (h.halt_eq_none hhalt), h.nodes]
    split
    · have hwarn : Alike (warn scope (.typeless (Token.joined span)))
          (warn scope' (.typeless (Token.joined span'))) := alike_warn hstrict rfl
      exact h.append (hwarn.append (alike_self _))
    · exact h
    · exact ⟨rfl, h.anomalies, h.halted⟩

theorem kept_alike (hstrict : scope'.config.strict = scope.config.strict) :
    Kept scope scope' Alike where
  empty := alike_self _
  add _ := alike_self _
  warn _ := alike_warn hstrict rfl
  append := Alike.append
  under := Alike.under
  unit h span := h.unit hstrict span span

theorem Alike.root (h : Alike g g') : g.root.result? = g'.root.result? := by
  cases hhalt : g.halt with
  | some r =>
    obtain ⟨r', hhalt'⟩ := h.exists_halt hhalt
    rw [root_of_halted hhalt, root_of_halted hhalt']
    rfl
  | none =>
    rw [root_of_unhalted hhalt, root_of_unhalted (h.halt_eq_none hhalt), h.nodes]
    rfl

end

end Growth

/-! ## whole expressions -/

/-- where a reading comes to alike, so does the whole -/
theorem Node.ofText_of_alike (config : Config) {text text' : String}
    (hblank : tokenize text = [] ↔ tokenize text' = [])
    (h : Growth.Alike (wholeGrowth config text) (wholeGrowth config text')) :
    (ofText config text).result? = (ofText config text').result? ∧
      (ofText config text).diagnostics.map (·.anomaly)
        = (ofText config text').diagnostics.map (·.anomaly) := by
  by_cases hnone : tokenize text = []
  · rw [ofText_blank config hnone, ofText_blank config (hblank.1 hnone), Run.result?_bind,
      Run.result?_bind, Run.result?_warn, Run.result?_warn]
    refine ⟨rfl, ?_⟩
    rw [Run.anomalies_warn_bind, Run.anomalies_warn_bind, Flaw.anomaly_warning,
      Flaw.anomaly_warning]
  · have hnone' : tokenize text' ≠ [] := fun hnil => hnone (hblank.2 hnil)
    rw [ofText_diagnostics config hnone, ofText_diagnostics config hnone', ofText_tokens config hnone,
      ofText_tokens config hnone', Run.result?_bind, Run.result?_bind, h.root]
    exact ⟨rfl, h.anomalies⟩

theorem wholeGrowth_alike (config : Config) {text text' : String}
    (h : tokenize text = tokenize text') :
    Growth.Alike (wholeGrowth config text) (wholeGrowth config text') := by
  have hkept : Growth.Kept ⟨text, config⟩ ⟨text', config⟩ Growth.Alike := Growth.kept_alike rfl
  unfold wholeGrowth
  rw [h]
  exact hkept.one (hkept.span rfl (config.levels 0)) (tokenize text')

/-- expressions with the same tokens have the same tree, or both are rejected -/
theorem Node.ofText_alike (config : Config) {text text' : String}
    (h : tokenize text = tokenize text') :
    (ofText config text).result? = (ofText config text').result? :=
  (ofText_of_alike config (by rw [h]) (wholeGrowth_alike config h)).1

end DocTypes
