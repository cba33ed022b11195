import DocTypes.Naming.Calls
import DocTypes.Proofs.Doclet.Nesting
import DocTypes.Proofs.Naming.Conforming
import DocTypes.Proofs.Naming.Strict

/-!
# Calls depend on inner calls

The answer to a call depends on the answers to the calls in it alone, and it is one that ends if these
end.

* `Run.Kept`          a relation between runs that is kept by putting runs together;
* `Run.Agrees`        two runs that are the same, and do not fault for want of an end;
* `Call.body_congr`   no call but the inner ones is asked for an answer;
* `Call.body_agrees`  answers agree if those to the inner calls do.
-/

namespace DocTypes

/-! ## runs side by side -/

/-- a relation that is kept when runs follow one another -/
structure Run.Kept (R : {α : Type} → Run α → Run α → Prop) : Prop where
  pure {α : Type} (a : α) : R (pure a) (pure a)
  bind {α β : Type} {r r' : Run α} {f g : α → Run β} (hr : R r r')
    (hf : ∀ a, r.outcome = .ok a → R (f a) (g a)) : R (r >>= f) (r' >>= g)

/-- the run ends with a result, or with a fault other than a type without end -/
def Run.Finishes {α : Type} (r : Run α) : Prop := r.outcome ≠ .error .endless

/-- the runs are the same, and finish -/
structure Run.Agrees {α : Type} (r r' : Run α) : Prop where
  eq : r = r'
  finishes : r.Finishes

section
variable {α β : Type}

theorem Run.bind_congr_of_ok {r : Run α} {f g : α → Run β} (h : ∀ a, r.outcome = .ok a → f a = g a) :
    r >>= f = r >>= g := by
  cases hr : r.outcome with
  | error fault => rw [Run.bind_of_error f hr, Run.bind_of_error g hr]
  | ok a => rw [Run.bind_of_ok f hr, Run.bind_of_ok g hr, h a hr]

theorem Run.Finishes.bind {r : Run α} {f : α → Run β} (hr : r.Finishes)
    (hf : ∀ a, r.outcome = .ok a → (f a).Finishes) : (r >>= f).Finishes := by
  unfold Run.Finishes at *
  cases hout : r.outcome with
  | error fault =>
    rw [Run.bind_of_error f hout]
    rw [hout] at hr
    exact fun hendless => hr (congrArg Except.error (Except.error.inj hendless))
  | ok a =>
    rw [Run.bind_of_ok f hout]
    exact hf a hout

theorem finishes_pure (a : α) : (pure a : Run α).Finishes := nofun

theorem finishes_warn (strict : Bool) (w : Warning) : (Run.warn strict w).Finishes := by
  unfold Run.warn
  split <;> nofun

theorem Run.Settled.finishes {r : Run α} (h : r.Settled) : r.Finishes := by
  rcases h with ⟨a, hok⟩ | ⟨x, hrejected⟩
  · exact fun hendless => nomatch hok.symm.trans hendless
  · exact fun hendless => nomatch hrejected.symm.trans hendless

theorem Run.Finishes.agrees {r : Run α} (h : r.Finishes) : r.Agrees r := ⟨rfl, h⟩

end

theorem kept_eq : Run.Kept fun {_} r r' => r = r' where
  pure _ := rfl
  bind hr hf := hr ▸ Run.bind_congr_of_ok hf

theorem kept_agrees : Run.Kept Run.Agrees where
  pure a := (finishes_pure a).agrees
  bind hr hf := ⟨kept_eq.bind hr.eq fun a ha => (hf a ha).eq,
    hr.finishes.bind fun a ha => (hf a ha).finishes⟩

namespace Run.Kept

variable {R : {α : Type} → Run α → Run α → Prop} (hR : Run.Kept R)
include hR

theorem mapM {α β : Type} {f g : α → Run β} {xs : List α} (h : ∀ x ∈ xs, R (f x) (g x)) :
    R (xs.mapM f) (xs.mapM g) := by
  induction xs with
  | nil => exact hR.pure []
  | cons x xs ih =>
    obtain ⟨hx, hxs⟩ := List.forall_mem_cons.1 h
    rw [List.mapM_cons, List.mapM_cons]
    exact hR.bind hx fun y _ => hR.bind (ih hxs) fun ys _ => hR.pure (y :: ys)

theorem unionType {resolve resolve' : Option String → Run TsType} {missing missing' : Run TsType}
    {names : List (Option String)} (hnames : ∀ name ∈ names, R (resolve name) (resolve' name))
    (hmissing : names = [] → R missing missing') :
    R (unionType resolve missing names) (unionType resolve' missing' names) := by
  unfold DocTypes.unionType
  split
  · exact hmissing rfl
  · exact hnames _ (List.mem_singleton_self _)
  · exact hR.bind (hR.mapM hnames) fun members _ => hR.pure _

theorem thisParam {d : Doclet} {resolve resolve' : Option String → Run TsType}
    (h : ∀ name ∈ d.thisNames, R (resolve name) (resolve' name)) :
    R (d.thisParam resolve) (d.thisParam resolve') := by
  unfold Doclet.thisParam
  unfold Doclet.thisNames at h
  cases hthis : given d.this with
  | none => exact hR.pure []
  | some this =>
    dsimp only
    split
    · rename_i hfunction
      rw [hthis, if_pos hfunction] at h
      exact hR.bind (h _ (List.mem_singleton_self _)) fun type _ => hR.pure _
    · exact hR.pure []

end Run.Kept

/-! ## what is found without further calls -/

theorem NameForm.type_finishes (config : Config) (context : Option String) (form : NameForm) :
    (form.type config context).Finishes := by
  cases form with
  | blank written => exact (finishes_warn _ _).bind fun _ _ => finishes_pure _
  | star | keyword | callable => exact finishes_pure _
  | expression text =>
    have hlenient : config.lenient.strict = false := rfl
    obtain ⟨type, htype, -⟩ := expressionType_gives hlenient text
    exact ((expressionType_mirrors config text).settled htype).finishes

theorem missingType_finishes (config : Config) (context label : Option String) :
    (missingType config context label).Finishes :=
  (finishes_warn _ _).bind fun _ _ => finishes_pure _

theorem wrapParts_finishes (names : Option TypeNames) (parts : TsType) :
    (wrapParts names parts).Finishes := by
  unfold wrapParts
  split <;> nofun

theorem nest_finishes (config : Config) (props : List Property) :
    (nest config.strict props).Finishes := by
  have hlenient : (nest false props).outcome = .ok (rootsAfter [] (declared props)) := by
    rw [nest, Run.bind_of_ok _ (checkNesting_lenient [] props)]
    rfl
  exact ((nest_mirrors props).settled hlenient).finishes

/-- the roots that nesting ends with, if it is not halted -/
theorem nest_roots {strict : Bool} {props : List Property} {roots : List PropertyNode}
    (h : (nest strict props).outcome = .ok roots) : roots = rootsAfter [] (declared props) := by
  obtain ⟨_, -, h⟩ := Run.exists_of_bind_ok h
  cases h
  rfl

theorem Call.recordOf_finishes (nodes : List PropertyNode) (parent : Option PropertyNode)
    (types : List TsType) : (Call.recordOf nodes parent types).Finishes := by
  cases parent with
  | none => exact finishes_pure _
  | some parent => exact wrapParts_finishes _ _

/-! ## what an answer depends on -/

section
variable {R : {α : Type} → Run α → Run α → Prop} {config : Config} {ask ask' : (c : Call) → Run c.Result}

theorem Call.askNode_kept {node : PropertyNode} (h : R (ask node.call) (ask' node.call)) :
    R (Call.askNode ask node) (Call.askNode ask' node) := by
  unfold PropertyNode.call at h
  unfold Call.askNode
  cases hchildren : node.children with
  | nil =>
    rw [hchildren] at h
    exact h
  | cons part parts =>
    rw [hchildren] at h
    exact h

variable (hR : Run.Kept R)
include hR

theorem Call.resultBody_kept {d : Doclet} (h : ∀ c' ∈ Call.resultInner d, R (ask c') (ask' c')) :
    R (Call.resultBody ask d) (Call.resultBody ask' d) := by
  unfold Call.resultInner at h
  unfold Call.resultBody
  split
  · rename_i r hreturns
    rw [hreturns] at h
    exact h _ (List.mem_singleton_self _)
  · exact hR.pure _

variable (hrefl : ∀ {α : Type} {r : Run α}, r.Finishes → R r r)
include hrefl

theorem collectWith_kept {d : Doclet} {typeOf typeOf' : PropertyNode → Run TsType}
    {nodes : List PropertyNode} (h : ∀ node ∈ nodes, R (typeOf node) (typeOf' node))
    (rest : Option (Named TsType)) :
    R (d.collectWith config typeOf rest nodes) (d.collectWith config typeOf' rest nodes) := by
  induction nodes generalizing rest with
  | nil => exact hR.pure _
  | cons node nodes ih =>
    obtain ⟨hnode, hnodes⟩ := List.forall_mem_cons.1 h
    unfold Doclet.collectWith
    refine hR.bind hnode fun type _ => ?_
    split
    · split
      · exact hR.bind (hrefl (finishes_warn _ _)) fun _ _ => ih hnodes _
      · exact ih hnodes _
    · exact hR.bind (ih hnodes rest) fun more _ => hR.pure _

namespace Call

omit hR in
theorem missingBody_kept {doclet : Option Doclet} {label : Option String}
    (h : ∀ c' ∈ typesInner doclet [], R (ask c') (ask' c')) :
    R (missingBody config ask doclet label) (missingBody config ask' doclet label) := by
  cases doclet with
  | none => exact hrefl (missingType_finishes config none (given label))
  | some d =>
    unfold missingBody
    dsimp only
    split
    · rename_i hprops
      refine h _ (List.mem_map_of_mem ?_)
      rw [Option.filter_some, if_pos hprops]
      exact List.mem_singleton_self d
    · exact hrefl (missingType_finishes config _ _)

theorem typesBody_kept {doclet : Option Doclet} {label : Option String}
    {names : List (Option String)} (h : ∀ c' ∈ typesInner doclet names, R (ask c') (ask' c')) :
    R (unionType (fun name => ask (.name name doclet)) (missingBody config ask doclet label) names)
      (unionType (fun name => ask' (.name name doclet)) (missingBody config ask' doclet label)
        names) := by
  cases names with
  | nil => exact missingBody_kept hrefl h
  | cons first more => exact hR.unionType (fun n hn => h _ (List.mem_map_of_mem hn)) nofun

theorem nameBody_kept {n : Option String} {d : Doclet}
    (h : ∀ c' ∈ nameInner n d, R (ask c') (ask' c')) :
    R (nameBody config ask n (some d)) (nameBody config ask' n (some d)) := by
  unfold nameInner at h
  unfold nameBody
  dsimp only
  split
  · rename_i hform
    rw [hform] at h
    cases hprops : d.properties with
    | none => exact hR.pure _
    | some props =>
      rw [hprops] at h
      exact h _ (List.mem_singleton_self _)
  · rename_i hform
    rw [hform] at h
    split
    · rename_i hcallback
      dsimp only at h
      rw [if_pos hcallback] at h
      obtain ⟨hparams, hresult⟩ := List.forall_mem_cons.1 h
      have hresult := hresult _ (List.mem_singleton_self _)
      exact hR.bind hparams fun signature _ => hR.bind hresult fun result _ => hR.pure _
    · exact hR.pure _
  · exact hrefl (NameForm.type_finishes config _ _)

theorem literalBody_kept {props : List Property}
    (h : ∀ c' ∈ (literal props).inner, R (ask c') (ask' c')) :
    R (literalBody config ask props) (literalBody config ask' props) := by
  cases props with
  | nil => exact hR.pure _
  | cons p props =>
    refine hR.bind (hrefl (nest_finishes config _)) fun roots hroots => ?_
    rw [nest_roots hroots]
    exact h _ (List.mem_singleton_self _)

theorem paramsBody_kept {d : Doclet} (h : ∀ c' ∈ (params d).inner, R (ask c') (ask' c')) :
    R (paramsBody config ask d) (paramsBody config ask' d) := by
  obtain ⟨hthis, hroots⟩ := List.forall_mem_append.1 h
  have hnames : ∀ name ∈ d.thisNames, R (ask (.types (some [name]) (some d) none))
      (ask' (.types (some [name]) (some d) none)) := fun name hname =>
    hthis _ (List.mem_map_of_mem hname)
  refine hR.bind (hR.thisParam hnames) fun this _ => ?_
  refine hR.bind (hrefl (nest_finishes config _)) fun roots hnest => ?_
  cases nest_roots hnest
  have hnodes : ∀ node ∈ rootsAfter [] (declared (d.params.getD [])),
      R (askNode ask node) (askNode ask' node) := fun node hnode =>
    askNode_kept (hroots node.call (List.mem_map_of_mem hnode))
  exact hR.bind (collectWith_kept hR hrefl hnodes none) fun collected _ => hR.pure _

/-- answers are related if those to the inner calls are -/
theorem body_kept {c : Call} (h : ∀ c' ∈ c.inner, R (ask c') (ask' c')) :
    R (c.body config ask) (c.body config ask') := by
  cases c with
  | types names doclet label => exact typesBody_kept hR hrefl h
  | name n doclet =>
    cases doclet with
    | none => exact hrefl (NameForm.type_finishes config none _)
    | some d => exact nameBody_kept hR hrefl fun c' hc' => h c' (List.mem_append_left [] hc')
  | literal props => exact literalBody_kept hR hrefl h
  | record nodes parent =>
    have hnodes : ∀ node ∈ nodes, R (askNode ask node) (askNode ask' node) :=
      fun node hnode => askNode_kept (h node.call (List.mem_map_of_mem hnode))
    exact hR.bind (hR.mapM hnodes) fun types _ => hrefl (recordOf_finishes nodes parent types)
  | params d => exact paramsBody_kept hR hrefl h
  | result d => exact resultBody_kept hR h

end Call

end

namespace Call

section
variable {config : Config} {ask ask' : (c : Call) → Run c.Result} {c : Call}

/-- no call but the inner ones is asked for the answer -/
theorem body_congr (h : ∀ c' ∈ c.inner, ask c' = ask' c') : c.body config ask = c.body config ask' :=
  body_kept kept_eq (fun _ => rfl) h

theorem body_agrees (h : ∀ c' ∈ c.inner, (ask c').Agrees (ask' c')) :
    (c.body config ask).Agrees (c.body config ask') :=
  body_kept kept_agrees Run.Finishes.agrees h

end

end Call

end DocTypes
