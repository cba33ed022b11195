import DocTypes.Run

/-!
# Runs stopped at their first warning

A run that is stopped where it first warns keeps the traces before that warning and ends with the
rejection that takes its place; a run that warns of nothing is left as it is.  Stopping goes with
sequencing, so that a resolution under strict settings is the lenient one stopped at its first
warning as soon as each of its parts is.

* `Run.stopped`        the run up to its first warning;
* `Run.stopped_bind`   one run after the other, stopped, is one stopped run after the other;
* `Run.Mirrors`        what a run comes to, strict or not, given what the lenient run comes to;
* `Run.Settled`        no fault ends the run but a rejection.
-/

namespace DocTypes

def Entry.warning? : Entry → Option Warning
  | warning w => some w
  | trace _ => none

def firstWarning? (journal : List Entry) : Option Warning := journal.findSome? Entry.warning?

/-- the traces before the first warning -/
def beforeWarning (journal : List Entry) : List Entry :=
  journal.takeWhile fun e => e.warning?.isNone

theorem firstWarning?_append (a b : List Entry) :
    firstWarning? (a ++ b) = (firstWarning? a).or (firstWarning? b) := List.findSome?_append

theorem firstWarning?_eq_none {journal : List Entry} :
    firstWarning? journal = none ↔ ∀ e ∈ journal, e.warning? = none := List.findSome?_eq_none_iff

theorem head?_diagnostics (journal : List Entry) :
    (diagnostics journal).head? = (firstWarning? journal).map Warning.toDiagnostic := by
  have hentry : Entry.diagnostic? = Option.map Warning.toDiagnostic ∘ Entry.warning? := by
    funext e
    cases e <;> rfl
  unfold diagnostics firstWarning?
  rw [List.head?_filterMap, hentry, List.map_findSome?]

theorem diagnostics_eq_nil {journal : List Entry} :
    diagnostics journal = [] ↔ firstWarning? journal = none := by
  rw [← List.head?_eq_none_iff, head?_diagnostics, Option.map_eq_none_iff]

theorem beforeWarning_append_of_none {a : List Entry} (h : firstWarning? a = none)
    (b : List Entry) : beforeWarning (a ++ b) = a ++ beforeWarning b :=
  List.takeWhile_append_of_pos fun e he => by rw [firstWarning?_eq_none.1 h e he]; rfl

theorem beforeWarning_append_of_some {a : List Entry} {w : Warning} (h : firstWarning? a = some w)
    (b : List Entry) : beforeWarning (a ++ b) = beforeWarning a := by
  induction a with
  | nil => cases h
  | cons e a ih =>
    cases e with
    | warning v => rfl
    | trace message => exact congrArg (Entry.trace message :: ·) (ih h)

theorem diagnostics_beforeWarning (journal : List Entry) :
    diagnostics (beforeWarning journal) = [] := by
  refine diagnostics_eq_nil.2 (firstWarning?_eq_none.2 fun e he => ?_)
  have hall := List.all_takeWhile (p := fun e : Entry => e.warning?.isNone) (l := journal)
  exact Option.isNone_iff_eq_none.1 (List.all_eq_true.1 hall e he)

namespace Run

variable {α β : Type}

/-- the run up to its first warning, with the rejection that takes the place of the warning -/
def stopped (r : Run α) : Run α :=
  match firstWarning? r.journal with
  | none => r
  | some w => ⟨beforeWarning r.journal, .error (.rejected w.rejection)⟩

theorem stopped_of_none {r : Run α} (h : firstWarning? r.journal = none) : r.stopped = r := by
  rw [stopped, h]

theorem stopped_of_some {r : Run α} {w : Warning} (h : firstWarning? r.journal = some w) :
    r.stopped = ⟨beforeWarning r.journal, .error (.rejected w.rejection)⟩ := by
  rw [stopped, h]

theorem stopped_eq_self {r : Run α} (h : r.diagnostics = []) : r.stopped = r :=
  stopped_of_none (diagnostics_eq_nil.1 h)

theorem diagnostics_stopped (r : Run α) : r.stopped.diagnostics = [] := by
  cases h : firstWarning? r.journal with
  | none =>
    rw [stopped_of_none h]
    exact diagnostics_eq_nil.2 h
  | some w =>
    rw [stopped_of_some h]
    exact diagnostics_beforeWarning r.journal

/-- a run that is not itself rejected is, once stopped, rejected for its first warning -/
theorem stopped_rejected {l : Run α} (hout : ∀ x, l.outcome ≠ .error (.rejected x))
    {x : Rejection} : l.stopped.outcome = .error (.rejected x) ↔
      ∃ w, firstWarning? l.journal = some w ∧ w.rejection = x := by
  cases h : firstWarning? l.journal with
  | none =>
    rw [stopped_of_none h]
    exact ⟨fun ho => absurd ho (hout x), nofun⟩
  | some w =>
    rw [stopped_of_some h]
    constructor
    · rintro ⟨⟩
      exact ⟨w, rfl, rfl⟩
    · rintro ⟨_, ⟨⟩, rfl⟩
      rfl

theorem stopped_bind (r : Run α) (f : α → Run β) :
    (r >>= f).stopped = r.stopped >>= fun a => (f a).stopped := by
  have hjournal : ∃ more, (r >>= f).journal = r.journal ++ more := by
    cases ho : r.outcome with
    | error e => exact ⟨[], by rw [bind_of_error f ho, List.append_nil]⟩
    | ok a => exact ⟨(f a).journal, by rw [bind_of_ok f ho]⟩
  -- a warning of `r` cuts off all of `f`; without one, the cut lies in what `f` adds
  cases hr : firstWarning? r.journal with
  | some w =>
    obtain ⟨more, hmore⟩ := hjournal
    have hfirst : firstWarning? (r >>= f).journal = some w := by
      rw [hmore, firstWarning?_append, hr]
      rfl
    rw [stopped_of_some hr, stopped_of_some hfirst, hmore, beforeWarning_append_of_some hr]
    rfl
  | none =>
    rw [stopped_of_none hr]
    cases ho : r.outcome with
    | error e =>
      rw [bind_of_error f ho, bind_of_error _ ho]
      exact stopped_of_none hr
    | ok a =>
      have hfirst : firstWarning? (r >>= f).journal = firstWarning? (f a).journal := by
        rw [bind_of_ok f ho, firstWarning?_append, hr, Option.none_or]
      rw [bind_of_ok (fun a => (f a).stopped) ho]
      cases hf : firstWarning? (f a).journal with
      | none => rw [stopped_of_none (hfirst.trans hf), stopped_of_none hf, bind_of_ok f ho]
      | some w =>
        rw [stopped_of_some (hfirst.trans hf), stopped_of_some hf, bind_of_ok f ho,
          beforeWarning_append_of_none hr]

/-! ## strict and lenient runs -/

/-- a warning ended the run -/
def Rejected (r : Run α) : Prop := ∃ x, r.outcome = .error (.rejected x)

def rejection? (r : Run α) : Option Rejection :=
  match r.outcome with
  | .error (.rejected x) => some x
  | _ => none

theorem isSome_rejection? {r : Run α} : r.rejection?.isSome = true ↔ r.Rejected := by
  unfold rejection? Rejected
  cases r.outcome with
  | ok a => simp
  | error fault => cases fault <;> simp

/-- the run ends with a result or is rejected -/
def Settled (r : Run α) : Prop := (∃ a, r.outcome = .ok a) ∨ r.Rejected

/-- `r` is strict or not, `l` is the lenient run -/
structure Mirrors (strict : Bool) (r l : Run α) : Prop where
  unrejected : ∀ x, l.outcome ≠ .error (.rejected x)
  eq : r = if strict then l.stopped else l

section
variable {strict : Bool}

theorem Mirrors.same {l : Run α} (hout : ∀ x, l.outcome ≠ .error (.rejected x))
    (hj : firstWarning? l.journal = none) : Mirrors strict l l := by
  refine ⟨hout, ?_⟩
  rw [stopped_of_none hj, ite_self]

theorem mirrors_pure (a : α) : Mirrors strict (Pure.pure a : Run α) (Pure.pure a) :=
  .same nofun rfl

theorem mirrors_trace (message : String) : Mirrors strict (trace message) (trace message) :=
  .same nofun rfl

theorem mirrors_fail {fault : Fault} (h : ∀ x, fault ≠ .rejected x) :
    Mirrors strict (fail fault : Run α) (fail fault) :=
  .same (fun x hx => h x (Except.error.inj hx)) rfl

theorem mirrors_warn (w : Warning) : Mirrors strict (warn strict w) (warn false w) := by
  refine ⟨nofun, ?_⟩
  cases strict <;> rfl

theorem Mirrors.bind {r l : Run α} {f g : α → Run β} (hr : Mirrors strict r l)
    (hf : ∀ a, Mirrors strict (f a) (g a)) : Mirrors strict (r >>= f) (l >>= g) := by
  constructor
  · intro x
    cases ho : l.outcome with
    | error e =>
      rw [bind_of_error g ho]
      intro he
      cases he
      exact hr.unrejected x ho
    | ok a =>
      rw [bind_of_ok g ho]
      exact (hf a).unrejected x
  · have hrest : f = fun a => if strict then (g a).stopped else g a := funext fun a => (hf a).eq
    rw [hr.eq, hrest]
    cases strict
    · rfl
    · exact (stopped_bind l g).symm

/-- a run is settled if the lenient one ends with a result -/
theorem Mirrors.settled {r l : Run α} (h : Mirrors strict r l) {a : α} (hl : l.outcome = .ok a) :
    r.Settled := by
  rw [h.eq]
  cases strict with
  | false => exact .inl ⟨a, hl⟩
  | true =>
    rw [if_pos rfl]
    cases hw : firstWarning? l.journal with
    | none =>
      rw [stopped_of_none hw]
      exact .inl ⟨a, hl⟩
    | some w =>
      rw [stopped_of_some hw]
      exact .inr ⟨w.rejection, rfl⟩

theorem Mirrors.map {r l : Run α} (h : Mirrors strict r l) (f : α → β) :
    Mirrors strict (f <$> r) (f <$> l) := by
  rw [map_eq_pure_bind, map_eq_pure_bind]
  exact h.bind fun a => mirrors_pure (f a)

/-- a strict run records nothing -/
theorem Mirrors.diagnostics_eq_nil {r l : Run α} (h : Mirrors true r l) : r.diagnostics = [] := by
  rw [h.eq]
  exact diagnostics_stopped l

theorem mirrors_mapM {f g : α → Run β} (h : ∀ a, Mirrors strict (f a) (g a)) (xs : List α) :
    Mirrors strict (xs.mapM f) (xs.mapM g) := by
  induction xs with
  | nil =>
    rw [List.mapM_nil, List.mapM_nil]
    exact mirrors_pure []
  | cons x xs ih =>
    rw [List.mapM_cons, List.mapM_cons]
    exact (h x).bind fun a => ih.bind fun as => mirrors_pure (a :: as)

end

end Run

end DocTypes
