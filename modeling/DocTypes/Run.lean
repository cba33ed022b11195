import DocTypes.Report

/-!
# Runs

A run of a resolution keeps a journal and ends with a result or with a fault.  What follows a
fault is not done, and adds nothing to the journal.

* `Run.warn`   a warning: an entry of the journal if the run is lenient, a fault if it is strict;
* `Run.trace`  an entry that tells of progress;
* `Run.fail`   a fault.
-/

namespace DocTypes

/-- why a run ends without a result -/
inductive Fault where
  /-- a strict run met a warning -/
  | rejected (r : Rejection)
  /-- a name was needed where a null stands -/
  | nullName
  /-- a callback type that takes its own type as a part -/
  | endless
  deriving DecidableEq, Repr

def Fault.text : Fault → String
  | rejected r => r.text
  | nullName => "a type name is null"
  | endless => "a callback type is a part of itself"

structure Run (α : Type) where
  journal : List Entry
  outcome : Except Fault α

namespace Run

variable {α β : Type}

def pure (a : α) : Run α := ⟨[], .ok a⟩

def bind (r : Run α) (f : α → Run β) : Run β :=
  match r.outcome with
  | .ok a =>
    let next := f a
    ⟨r.journal ++ next.journal, next.outcome⟩
  | .error fault => ⟨r.journal, .error fault⟩

instance : Monad Run where
  pure := pure
  bind := bind

theorem ext {r s : Run α} (hj : r.journal = s.journal) (ho : r.outcome = s.outcome) : r = s := by
  cases r; cases s; simp_all

instance : LawfulMonad Run := LawfulMonad.mk' Run
  (by rintro α ⟨j, o⟩; cases o <;> simp [Functor.map, bind, pure])
  (by intro α β a f; apply ext <;> simp [Bind.bind, Pure.pure, bind, pure])
  (by
    rintro α β γ ⟨j, o⟩ f g
    cases o with
    | error e => rfl
    | ok a => cases h : (f a).outcome <;> simp [Bind.bind, bind, h])

def fail (fault : Fault) : Run α := ⟨[], .error fault⟩

def trace (message : String) : Run Unit := ⟨[.trace message], .ok ()⟩

def warn (strict : Bool) (w : Warning) : Run Unit :=
  if strict then fail (.rejected w.rejection) else ⟨[.warning w], .ok ()⟩

/-- the diagnostics that the run recorded -/
def diagnostics (r : Run α) : List Diagnostic := DocTypes.diagnostics r.journal

@[simp] theorem journal_pure (a : α) : (Pure.pure a : Run α).journal = [] := rfl

theorem bind_of_ok {r : Run α} {a : α} (f : α → Run β) (h : r.outcome = .ok a) :
    r >>= f = ⟨r.journal ++ (f a).journal, (f a).outcome⟩ := by
  simp [Bind.bind, bind, h]

theorem bind_of_error {r : Run α} {e : Fault} (f : α → Run β) (h : r.outcome = .error e) :
    r >>= f = ⟨r.journal, .error e⟩ := by
  simp [Bind.bind, bind, h]

theorem diagnostics_bind_of_ok {r : Run α} {a : α} (f : α → Run β) (h : r.outcome = .ok a) :
    (r >>= f).diagnostics = r.diagnostics ++ (f a).diagnostics := by
  rw [bind_of_ok f h]
  exact diagnostics_append _ _

theorem exists_of_bind_ok {r : Run α} {f : α → Run β} {b : β} (h : (r >>= f).outcome = .ok b) :
    ∃ a, r.outcome = .ok a ∧ (f a).outcome = .ok b := by
  cases hr : r.outcome with
  | error e =>
    rw [bind_of_error f hr] at h
    cases h
  | ok a =>
    rw [bind_of_ok f hr] at h
    exact ⟨a, rfl, h⟩

end Run

end DocTypes
