import DocTypes.Proofs.Growth.Journal
import DocTypes.Proofs.Growth.Related

/-!
# Strict and lenient readings of a span

The same span is read under two settings: those of a scope, and the lenient ones that go with it.
A lenient reading never halts.  A strict one comes to the same if the lenient one warns of nothing;
else it halts with the rejection of the first warning.

* `Scope.lenient`          the same expression under lenient settings;
* `Growth.Mirrors`         what the first reading comes to, given what the second comes to;
* `kept_mirrors`           every way of putting readings together keeps this;
* `spanGrowth_mirrors`     it holds of every span, however many levels may be opened.
-/

namespace DocTypes

def Config.lenient (config : Config) : Config := { maxDepth := config.maxDepth }

def Scope.lenient (scope : Scope) : Scope := ⟨scope.source, scope.config.lenient⟩

open Growth (add warn degrade append_def)

/-- a warning about a flaw of the expression that is read -/
def Scope.Reports (scope : Scope) (e : Entry) : Prop :=
  ∃ flaw : Flaw, e = .warning (flaw.warning scope.source)

namespace Growth

/-- a reading that is strict or not, and the lenient one -/
inductive Echoes (strict : Bool) : Growth → Growth → Prop where
  | same {l : Growth} (h : strict = false ∨ l.journal = []) : Echoes strict l l
  | stopped {g l : Growth} (w : Warning) (rest : List Entry) (hstrict : strict = true)
      (hl : l.journal = .warning w :: rest) (hg : g.journal = [])
      (hrejected : g.halt = some w.rejection) : Echoes strict g l

/-- `g` under the settings of `scope`, where the lenient reading comes to `l` -/
structure Mirrors (scope : Scope) (g l : Growth) : Prop where
  halt : l.halt = none
  entries : l.Every scope.Reports
  echoes : Echoes scope.config.strict g l

section
variable {scope : Scope} {a a' b b' g l : Growth}

theorem Mirrors.same (halt : l.halt = none) (hj : l.journal = []) : Mirrors scope l l :=
  ⟨halt, by simp [Every, hj], .same (.inr hj)⟩

theorem mirrors_empty : Mirrors scope empty empty := .same rfl rfl

theorem mirrors_add (node : Node) : Mirrors scope (add node) (add node) := .same rfl rfl

/-- what a reading halts with tells of the expression that is read -/
theorem Mirrors.expression_eq (h : Mirrors scope g l) {r : Rejection} (hr : g.halt = some r) :
    r.expression = scope.source := by
  obtain ⟨hhalt, hentries, hechoes⟩ := h
  cases hechoes with
  | same => cases hhalt.symm.trans hr
  | stopped w rest _ hl _ hrejected =>
    obtain ⟨flaw, hflaw⟩ := hentries (.warning w) (by rw [hl]; exact List.mem_cons_self)
    cases hflaw
    cases hrejected.symm.trans hr
    rfl

/-- under lenient settings both are the same -/
theorem Mirrors.eq_lenient (h : Mirrors scope g l) (hlenient : scope.config.strict = false) :
    g = l := by
  cases h.echoes with
  | same => rfl
  | stopped w rest hstrict => cases hlenient.symm.trans hstrict

/-- a lenient reading without diagnostics is silent -/
theorem Mirrors.silent (h : Mirrors scope g l) (hquiet : diagnostics l.journal = []) :
    l.Silent := by
  refine ⟨List.eq_nil_iff_forall_not_mem.2 fun e he => ?_, h.halt⟩
  obtain ⟨flaw, rfl⟩ := h.entries e he
  have hmem : (flaw.warning scope.source).toDiagnostic ∈ diagnostics l.journal :=
    List.mem_filterMap.2 ⟨_, he, rfl⟩
  rw [hquiet] at hmem
  cases hmem

/-- a strict reading writes no warning down -/
theorem Mirrors.journal_eq_nil (h : Mirrors scope g l) (hstrict : scope.config.strict = true) :
    g.journal = [] := by
  cases h.echoes with
  | same hquiet => exact hquiet.resolve_left (by rw [hstrict]; nofun)
  | stopped w rest _ _ hg _ => exact hg

theorem append_of_unhalted (h : a.halt = none) :
    a ++ b = ⟨a.nodes ++ b.nodes, a.journal ++ b.journal, b.halt⟩ := by rw [append_def, h]

theorem append_of_halted {r : Rejection} (h : a.halt = some r) : a ++ b = a := by rw [append_def, h]

theorem Mirrors.append (ha : Mirrors scope a a') (hb : Mirrors scope b b') :
    Mirrors scope (a ++ b) (a' ++ b') := by
  refine ⟨?_, ha.entries.append hb.entries, ?_⟩
  · rw [append_of_unhalted ha.halt]
    exact hb.halt
  · obtain ⟨hhalt, -, ha⟩ := ha
    obtain ⟨-, -, hb⟩ := hb
    -- what `b` adds is kept only if `a` came to the same in both readings
    cases ha with
    | same hquiet =>
      cases hb with
      | same hquiet' =>
        refine .same ?_
        rw [append_of_unhalted hhalt]
        rcases hquiet with hlenient | hj
        · exact .inl hlenient
        · rw [hj]
          exact hquiet'
      | stopped w rest hstrict hl hg hr =>
        have hj : a.journal = [] := hquiet.resolve_left (by simp [hstrict])
        rw [append_of_unhalted hhalt, append_of_unhalted hhalt, hj]
        exact .stopped w rest hstrict hl hg hr
    | stopped w rest hstrict hl hg hr =>
      rw [append_of_halted hr, append_of_unhalted hhalt]
      refine .stopped w (rest ++ b'.journal) hstrict ?_ hg hr
      rw [hl, List.cons_append]

theorem Mirrors.under (h : Mirrors scope g l) (kind : Kind) (name : String) :
    Mirrors scope (g.under kind name) (l.under kind name) := by
  refine ⟨h.halt, h.entries, ?_⟩
  cases h.echoes with
  | same hquiet => exact .same hquiet
  | stopped w rest hstrict hl hg hr => exact .stopped w rest hstrict hl hg hr

theorem mirrors_warn (flaw : Flaw) : Mirrors scope (warn scope flaw) (warn scope.lenient flaw) := by
  refine ⟨rfl, List.forall_mem_singleton.2 ⟨flaw, rfl⟩, ?_⟩
  by_cases hstrict : scope.config.strict = true
  · have hwarn : warn scope flaw = ⟨[], [], some (flaw.warning scope.source).rejection⟩ :=
      if_pos hstrict
    rw [hwarn]
    exact .stopped _ [] hstrict rfl rfl rfl
  · have hwarn : warn scope flaw = warn scope.lenient flaw := if_neg hstrict
    rw [hwarn]
    exact .same (.inl (Bool.eq_false_iff.2 hstrict))

theorem mirrors_degrade (flaw : Flaw) :
    Mirrors scope (degrade scope flaw) (degrade scope.lenient flaw) :=
  (mirrors_warn flaw).append (mirrors_add _)

theorem unit_of_halted {r : Rejection} (h : g.halt = some r) (span : List Token) :
    g.unit scope span = ⟨[], g.journal, some r⟩ := by
  unfold Growth.unit
  rw [h]

/-- all nodes made into one, of a reading that was not halted -/
theorem unit_of_unhalted (h : g.halt = none) (span : List Token) :
    g.unit scope span = match g.nodes with
      | [] => g ++ degrade scope (.typeless (Token.joined span))
      | [_] => g
      | nodes => { g with nodes := [.unionOf nodes] } := by
  unfold Growth.unit
  rw [h]
  split <;> simp_all

theorem Mirrors.unit (h : Mirrors scope g l) (span : List Token) :
    Mirrors scope (g.unit scope span) (l.unit scope.lenient span) := by
  have hempty := h.append (mirrors_degrade (.typeless (Token.joined span)))
  have ⟨hhalt, hentries, hechoes⟩ := h
  cases hechoes with
  | same hquiet =>
    rw [unit_of_unhalted hhalt, unit_of_unhalted hhalt]
    split
    · exact hempty
    · exact h
    · exact ⟨hhalt, hentries, .same hquiet⟩
  | stopped w rest hstrict hl hg hr =>
    rw [unit_of_halted hr, unit_of_unhalted hhalt]
    split
    · refine ⟨hempty.halt, hempty.entries, ?_⟩
      rw [append_of_unhalted hhalt]
      refine .stopped w (rest ++ (degrade scope.lenient (.typeless (Token.joined span))).journal)
        hstrict ?_ hg rfl
      rw [hl, List.cons_append]
    · exact ⟨hhalt, hentries, .stopped w rest hstrict hl hg rfl⟩
    · exact ⟨hhalt, hentries, .stopped w rest hstrict hl hg rfl⟩

end

end Growth

/-! ## spans -/

open Growth (Kept Mirrors)

theorem kept_mirrors (scope : Scope) : Kept scope scope.lenient (Mirrors scope) where
  empty := Growth.mirrors_empty
  add := Growth.mirrors_add
  warn := Growth.mirrors_warn
  append := Mirrors.append
  under := Mirrors.under
  unit := Mirrors.unit

theorem spanGrowth_mirrors (scope : Scope) (levels : Nat) (tokens : List Token) :
    Mirrors scope (spanGrowth scope levels tokens) (spanGrowth scope.lenient levels tokens) :=
  (kept_mirrors scope).span rfl levels tokens

theorem wholeGrowth_mirrors (config : Config) (text : String) :
    Mirrors ⟨text, config⟩ (wholeGrowth config text) (wholeGrowth config.lenient text) :=
  (spanGrowth_mirrors ⟨text, config⟩ (config.levels 0) (tokenize text)).unit (tokenize text)

theorem wholeGrowth_lenient {config : Config} (h : config.strict = false) (text : String) :
    wholeGrowth config text = wholeGrowth config.lenient text :=
  (wholeGrowth_mirrors config text).eq_lenient h

/-- a lenient reading of a span without diagnostics is silent -/
theorem spanGrowth_silent {scope : Scope} (hlenient : scope.config.strict = false) {levels : Nat}
    {tokens : List Token} (h : diagnostics (spanGrowth scope levels tokens).journal = []) :
    (spanGrowth scope levels tokens).Silent := by
  have hmirrors := spanGrowth_mirrors scope levels tokens
  rw [hmirrors.eq_lenient hlenient] at h ⊢
  exact hmirrors.silent h

end DocTypes
