import DocTypes.Growth.Span

/-!
# Two readings side by side

The same span can be read twice: under other settings, or as a part of another expression.  A
relation between two readings that is kept by every way of putting readings together holds of the
readings of each piece if it holds of those of the spans inside it, and so it holds of every span.

* `Flaw.isReplaced`          whether `any` takes the place of what is flawed;
* `Growth.KeptApart`         a relation that is kept by every way of putting readings together, where
                             a flaw and the `any` in its place belong together;
* `Growth.KeptApart.piece`   it holds of a piece if it holds of the spans inside it;
* `Growth.KeptApart.span`    it holds of every span, under settings that allow as many levels;
* `Growth.Kept`              the same where a flaw may stand alone, whatever takes its place.
-/

namespace DocTypes

/-- whether `any` takes the place of what is flawed; if not, it is left out -/
def Flaw.isReplaced : Flaw → Bool
  | namelessField | stray _ | unclosedArguments _ => false
  | blank | tooDeep _ | unclosed _ _ | typeless _ | untypedField _ | unclosedResult _ | pathless =>
    true

namespace Growth

/-- `R` relates what is added under `scope` to what is added under `scope'` -/
structure KeptApart (scope scope' : Scope) (R : Growth → Growth → Prop) : Prop where
  empty : R empty empty
  add (node : Node) : R (add node) (add node)
  warn {flaw : Flaw} (hflaw : flaw.isReplaced = false) : R (warn scope flaw) (warn scope' flaw)
  degrade {flaw : Flaw} (hflaw : flaw.isReplaced = true) :
    R (degrade scope flaw) (degrade scope' flaw)
  append {a a' b b' : Growth} (ha : R a a') (hb : R b b') : R (a ++ b) (a' ++ b')
  under {g g' : Growth} (hg : R g g') (kind : Kind) (name : String) :
    R (g.under kind name) (g'.under kind name)
  unit {g g' : Growth} (hg : R g g') (span : List Token) :
    R (g.unit scope span) (g'.unit scope' span)

namespace KeptApart

variable {scope scope' : Scope} {R : Growth → Growth → Prop} (h : KeptApart scope scope' R)
include h

theorem chain {ι : Type} {f f' : ι → Growth} {xs : List ι} (hf : ∀ x ∈ xs, R (f x) (f' x)) :
    R (chain (xs.map f)) (chain (xs.map f')) := by
  induction xs with
  | nil => exact h.empty
  | cons x xs ih =>
    obtain ⟨hx, hxs⟩ := List.forall_mem_cons.1 hf
    rw [List.map_cons, List.map_cons, chain_cons, chain_cons]
    exact h.append hx (ih hxs)

section
variable {inner inner' : List Token → Growth} (hinner : ∀ tokens, R (inner tokens) (inner' tokens))
include hinner

theorem one (tokens : List Token) : R (scope.unit inner tokens) (scope'.unit inner' tokens) :=
  h.unit (hinner tokens) tokens

theorem field (field : Field) : R (scope.field inner field) (scope'.field inner' field) := by
  cases field with
  | nameless => exact h.warn rfl
  | untyped key => exact h.append (h.add _) (h.degrade rfl)
  | typed key value => exact h.append (h.add _) (h.one hinner value)

theorem result (result : Tail) : R (scope.result inner result) (scope'.result inner' result) := by
  cases result with
  | absent => exact h.add _
  | unclosed first => exact h.degrade rfl
  | span tokens => exact h.one hinner tokens

theorem arguments (path : String) (args : Tail) :
    R (scope.arguments inner path args) (scope'.arguments inner' path args) := by
  cases args with
  | absent => exact h.empty
  | unclosed first => exact h.warn rfl
  | span tokens => exact hinner tokens

theorem piece (piece : Piece) : R (piece.growth scope inner) (piece.growth scope' inner') := by
  cases piece with
  | plain name => exact h.add _
  | generic name args => exact h.under (hinner args) _ _
  | group body => exact h.under (hinner body) _ _
  | record body =>
    have hfields : R (scope.fields inner body) (scope'.fields inner' body) :=
      h.chain fun tokens _ => h.field hinner (.ofTokens tokens)
    exact h.under hfields _ _
  | function name params result =>
    have hparams : R (scope.params inner params) (scope'.params inner' params) :=
      h.chain fun tokens _ => h.one hinner (paramType tokens)
    exact h.under (h.append hparams (h.result hinner result)) _ _
  | reference path qualifier args => exact h.under (h.arguments hinner path args) _ _
  | pathless => exact h.degrade rfl
  | separator => exact h.empty
  | stray m => exact h.warn rfl
  | unclosed fragment b => exact h.degrade rfl

end

/-- what every way of putting readings together keeps holds of every span -/
theorem span (hlimit : scope'.config.maxDepth = scope.config.maxDepth) (levels : Nat)
    (tokens : List Token) : R (spanGrowth scope levels tokens) (spanGrowth scope' levels tokens) := by
  induction levels generalizing tokens with
  | zero =>
    rw [spanGrowth, spanGrowth, hlimit]
    exact h.degrade rfl
  | succ levels ih => exact h.chain fun piece _ => h.piece ih piece

end KeptApart

/-- the same, if the `any` in the place of what is flawed need not be told from any other node -/
structure Kept (scope scope' : Scope) (R : Growth → Growth → Prop) : Prop where
  empty : R empty empty
  add (node : Node) : R (add node) (add node)
  warn (flaw : Flaw) : R (warn scope flaw) (warn scope' flaw)
  append {a a' b b' : Growth} (ha : R a a') (hb : R b b') : R (a ++ b) (a' ++ b')
  under {g g' : Growth} (hg : R g g') (kind : Kind) (name : String) :
    R (g.under kind name) (g'.under kind name)
  unit {g g' : Growth} (hg : R g g') (span : List Token) :
    R (g.unit scope span) (g'.unit scope' span)

namespace Kept

variable {scope scope' : Scope} {R : Growth → Growth → Prop} (h : Kept scope scope' R)
include h

theorem degrade (flaw : Flaw) : R (degrade scope flaw) (degrade scope' flaw) :=
  h.append (h.warn flaw) (h.add .any)

theorem apart : KeptApart scope scope' R where
  empty := h.empty
  add := h.add
  warn {flaw} _ := h.warn flaw
  degrade {flaw} _ := h.degrade flaw
  append := h.append
  under := h.under
  unit := h.unit

theorem chain {ι : Type} {f f' : ι → Growth} {xs : List ι} (hf : ∀ x ∈ xs, R (f x) (f' x)) :
    R (chain (xs.map f)) (chain (xs.map f')) := h.apart.chain hf

theorem one {inner inner' : List Token → Growth} (hinner : ∀ tokens, R (inner tokens) (inner' tokens))
    (tokens : List Token) : R (scope.unit inner tokens) (scope'.unit inner' tokens) :=
  h.apart.one hinner tokens

theorem piece {inner inner' : List Token → Growth}
    (hinner : ∀ tokens, R (inner tokens) (inner' tokens)) (piece : Piece) :
    R (piece.growth scope inner) (piece.growth scope' inner') := h.apart.piece hinner piece

theorem span (hlimit : scope'.config.maxDepth = scope.config.maxDepth) (levels : Nat)
    (tokens : List Token) : R (spanGrowth scope levels tokens) (spanGrowth scope' levels tokens) :=
  h.apart.span hlimit levels tokens

end Kept

end Growth

end DocTypes
