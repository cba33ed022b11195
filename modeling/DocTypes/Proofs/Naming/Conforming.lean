import DocTypes.Naming.Callback
import DocTypes.Proofs.Growth.Nodes
import DocTypes.Proofs.Lowering.Conforming

/-!
# Every name has a type

Under lenient settings the type of a name is always found, whether the name is looked up or read, and
all that occurs in the type conforms to its shape.

* `nameType_gives`   the type of a name;
* `typeOf_gives`     the type of several names, which is the union of theirs.
-/

namespace DocTypes

/-- a type for each, in order -/
theorem Run.Gives.mapM {α β : Type} {P : β → Prop} {f : α → Run β} (h : ∀ a, (f a).Gives P)
    (as : List α) : (as.mapM f).Gives fun bs => bs.length = as.length ∧ ∀ b ∈ bs, P b := by
  induction as with
  | nil => exact gives_pure ⟨rfl, nofun⟩
  | cons a as ih =>
    rw [List.mapM_cons]
    refine (h a).bind fun b hb => ih.bind fun bs hbs => gives_pure ⟨?_, ?_⟩
    · exact congrArg Nat.succ hbs.1
    · exact List.forall_mem_cons.2 ⟨hb, hbs.2⟩

section
variable {config : Config} (hlenient : config.strict = false)
include hlenient

theorem warn_gives {α : Type} {P : α → Prop} (w : Warning) {a : α} (h : P a) :
    (do Run.warn config.strict w; pure a : Run α).Gives P := by
  rw [hlenient]
  exact ⟨a, rfl, h⟩

theorem expressionType_gives (text : String) :
    (expressionType config text).Gives TsType.Sound := by
  have hread := Node.ofText_lenient hlenient text
  unfold expressionType Run.Gives
  rw [Run.bind_of_ok _ hread, hlenient]
  obtain ⟨type, htype, hbecomes⟩ := (lowers_lowerFrom (.below []) _).becomes
  exact ⟨type, htype, hbecomes.sound⟩

theorem nameType_gives (name : Option String) : (nameType config name).Gives TsType.Sound := by
  unfold nameType
  cases NameForm.ofName name with
  | blank written => exact warn_gives hlenient _ .any
  | star => exact gives_pure .any
  | keyword k =>
    refine gives_pure ?_
    cases k with
    | this => exact .this
    | any | unknown | number | bigint | object | boolean | string | symbol | void | undefined | null
    | never => exact .keyword _
  | callable => exact gives_pure (.anyFunction .any)
  | expression text => exact expressionType_gives hlenient text

theorem typeOf_gives (label : Option String) (names : Option TypeNames) :
    (typeOf config label names).Gives TsType.Sound := by
  unfold typeOf
  match names.getD [] with
  | [] => exact warn_gives hlenient _ .any
  | [name] => exact nameType_gives hlenient name
  | first :: second :: rest =>
    refine (Run.Gives.mapM (nameType_gives hlenient) _).bind fun members hmembers => ?_
    have hne : members ≠ [] := List.ne_nil_of_length_eq_add_one hmembers.1
    exact gives_pure (.union hne hmembers.2)

end

end DocTypes
