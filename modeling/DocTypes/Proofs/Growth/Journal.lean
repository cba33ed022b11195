import DocTypes.Growth.Span

/-!
# The journal of a reading

What the journal of a reading holds follows from what its parts write into it.  Two questions are
asked of it: whether all its entries have a property, and whether there is none and the reading was
not halted.

* `Growth.Every`              all entries have a property; every part of a reading keeps it;
* `Growth.Silent`             no entry and no halt; a silent reading has silent parts only;
* `Node.ofText_diagnostics`   the diagnostics of an expression are those of its span.
-/

namespace DocTypes

namespace Growth

/-! ## all entries -/

def Every (P : Entry → Prop) (g : Growth) : Prop := ∀ e ∈ g.journal, P e

section
variable {P : Entry → Prop} {scope : Scope} {a b g : Growth}

theorem every_empty : empty.Every P := nofun

theorem every_add (node : Node) : (add node).Every P := nofun

theorem Every.append (ha : a.Every P) (hb : b.Every P) : (a ++ b).Every P := by
  rw [append_def]
  split
  · exact ha
  · intro e he
    exact (List.mem_append.1 he).elim (ha e) (hb e)

theorem every_chain {gs : List Growth} (h : ∀ g ∈ gs, g.Every P) : (chain gs).Every P := by
  induction gs with
  | nil => exact every_empty
  | cons g gs ih =>
    rw [chain_cons]
    exact (h g List.mem_cons_self).append (ih fun k hk => h k (List.mem_cons_of_mem _ hk))

theorem Every.under (h : g.Every P) (kind : Kind) (name : String) : (g.under kind name).Every P := h

theorem every_warn {flaw : Flaw} (h : P (.warning (flaw.warning scope.source))) :
    (warn scope flaw).Every P := by
  unfold warn
  split
  · nofun
  · exact List.forall_mem_singleton.2 h

theorem every_degrade {flaw : Flaw} (h : P (.warning (flaw.warning scope.source))) :
    (degrade scope flaw).Every P := (every_warn h).append (every_add _)

theorem Every.unit {span : List Token} (hg : g.Every P)
    (h : P (.warning ((Flaw.typeless (Token.joined span)).warning scope.source))) :
    (g.unit scope span).Every P := by
  unfold Growth.unit
  split
  · exact hg
  · exact hg.append (every_degrade h)
  · exact hg
  · exact hg

end

/-! ## silence -/

structure Silent (g : Growth) : Prop where
  journal : g.journal = []
  halt : g.halt = none

section
variable {scope : Scope} {a b g : Growth}

theorem silent_append : (a ++ b).Silent ↔ a.Silent ∧ b.Silent := by
  rw [append_def]
  cases h : a.halt with
  | some r => exact ⟨fun s => absurd (h.symm.trans s.halt) nofun,
      fun s => absurd (h.symm.trans s.1.halt) nofun⟩
  | none =>
    constructor
    · rintro ⟨hj, hh⟩
      obtain ⟨ha, hb⟩ := List.append_eq_nil_iff.1 hj
      exact ⟨⟨ha, h⟩, ⟨hb, hh⟩⟩
    · rintro ⟨⟨ha, -⟩, hb, hh⟩
      exact ⟨List.append_eq_nil_iff.2 ⟨ha, hb⟩, hh⟩

theorem silent_chain {gs : List Growth} : (chain gs).Silent ↔ ∀ g ∈ gs, g.Silent := by
  induction gs with
  | nil => exact ⟨nofun, fun _ => ⟨rfl, rfl⟩⟩
  | cons g gs ih => rw [chain_cons, silent_append, ih, List.forall_mem_cons]

theorem Silent.of_under {kind : Kind} {name : String} (h : (g.under kind name).Silent) : g.Silent :=
  ⟨h.journal, h.halt⟩

theorem not_silent_warn (flaw : Flaw) : ¬(warn scope flaw).Silent := by
  rintro ⟨hj, hh⟩
  unfold warn at hj hh
  split at hj
  · rename_i hs
    rw [if_pos hs] at hh
    cases hh
  · cases hj

theorem not_silent_degrade (flaw : Flaw) : ¬(degrade scope flaw).Silent := fun h =>
  not_silent_warn flaw (silent_append.1 h).1

theorem Silent.of_unit {span : List Token} (h : (g.unit scope span).Silent) : g.Silent := by
  unfold Growth.unit at h
  split at h
  · exact absurd h.halt nofun
  · exact (silent_append.1 h).1
  · exact h
  · exact ⟨h.journal, h.halt⟩

end

end Growth

/-! ## whole expressions -/

/-- the growth of the one type of an expression that has tokens -/
def wholeGrowth (config : Config) (text : String) : Growth :=
  Scope.unit ⟨text, config⟩ (spanGrowth ⟨text, config⟩ (config.levels 0)) (tokenize text)

namespace Node

theorem ofText_blank {text : String} (config : Config) (h : tokenize text = []) :
    ofText config text = (do Run.warn config.strict (Flaw.blank.warning text); pure .any) := by
  rw [ofText, h]

theorem ofText_tokens {text : String} (config : Config) (h : tokenize text ≠ []) :
    ofText config text = (do
      let root ← (wholeGrowth config text).root
      Run.trace ("built tree for '" ++ text ++ "':\n" ++ root.dump)
      pure root) := by
  unfold ofText wholeGrowth
  split
  · exact absurd ‹_› h
  · rfl

theorem ofText_diagnostics {text : String} (config : Config) (h : tokenize text ≠ []) :
    (ofText config text).diagnostics = diagnostics (wholeGrowth config text).journal := by
  rw [ofText_tokens config h]
  cases hr : (wholeGrowth config text).root.outcome with
  | error e =>
    rw [Run.bind_of_error _ hr]
    rfl
  | ok root =>
    rw [Run.bind_of_ok _ hr]
    show diagnostics (_ ++ [_]) = _
    rw [diagnostics_append]
    exact List.append_nil _

end Node

end DocTypes
