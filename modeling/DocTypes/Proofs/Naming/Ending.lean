import DocTypes.Proofs.Naming.Answers
import DocTypes.Proofs.Naming.Record
import Mathlib.Data.List.Chain
import Mathlib.Logic.Relation

/-!
# Calls come to an end

A call leads to its inner calls and by them to others.  However long it is led on, it comes to an end: a
callback is entered once at most, since the names inside it do not enter it again; a record is not handed
on to its properties; and below the object type of nodes there are only calls for nodes inside them.

* `Call.Leads`          the second of two calls is an inner call of the first;
* `Call.Ends`           how deep calls can be nested, and how many of them enter a callback;
* `Call.exists_ends`    all calls end but those for the record of a circular callback;
* `Call.Descends`       what holds of the calls below properties and nodes;
* `Call.Ends.agrees`    calls that end are answered as they should be;
* `Call.exists_cycle`   in the record of a circular callback a call leads back to itself;
* `resolution_ends`     every call ends, and with the type that is found.
-/

namespace DocTypes

open PropertyNode (IsIn)

namespace Call

/-! ## the inner calls of each call -/

theorem eq_of_mem_typesInner {doclet : Option Doclet} {names : List (Option String)} {c : Call}
    (h : c ∈ typesInner doclet names) :
    (∃ n ∈ names, c = name n doclet) ∨ ∃ d, doclet = some d ∧ c = name (some "object") (some d) := by
  cases names with
  | nil =>
    obtain ⟨d, hd, rfl⟩ := List.mem_map.1 h
    exact .inr ⟨d, (Option.filter_eq_some_iff.1 (Option.mem_toList.1 hd)).1, rfl⟩
  | cons first more =>
    obtain ⟨n, hn, rfl⟩ := List.mem_map.1 h
    exact .inl ⟨n, hn, rfl⟩

theorem eq_of_mem_name {n : Option String} {doclet : Option Doclet} {c : Call}
    (h : c ∈ (name n doclet).inner) :
    (∃ props, c = literal props) ∨
      ∃ d, doclet = some d ∧ (name n (some d)).entersCallback = true ∧ (c = params d ∨ c = result d) := by
  obtain ⟨d, hd, hc⟩ := List.mem_flatMap.1 h
  obtain rfl := Option.mem_toList.1 hd
  unfold nameInner at hc
  split at hc
  · obtain ⟨props, -, rfl⟩ := List.mem_map.1 hc
    exact .inl ⟨props, rfl⟩
  · rename_i hform
    split at hc
    · rename_i hcallback
      have henters : (name n (some d)).entersCallback = true := by
        rw [entersCallback, hform, hcallback]
        rfl
      rcases List.mem_cons.1 hc with rfl | hc
      · exact .inr ⟨d, rfl, henters, .inl rfl⟩
      · exact .inr ⟨d, rfl, henters, .inr (List.mem_singleton.1 hc)⟩
    · cases hc
  · cases hc

theorem eq_of_mem_literal {props : List Property} {c : Call} (h : c ∈ (literal props).inner) :
    c = record (rootsAfter [] (declared props)) none := by
  unfold inner at h
  dsimp only at h
  split at h
  · cases h
  · exact List.mem_singleton.1 h

theorem eq_of_mem_params {d : Doclet} {c : Call} (h : c ∈ (params d).inner) :
    (∃ n ∈ d.thisNames, c = types (some [n]) (some d) none) ∨ ∃ node : PropertyNode, c = node.call := by
  rcases List.mem_append.1 h with h | h
  · obtain ⟨n, hn, rfl⟩ := List.mem_map.1 h
    exact .inl ⟨n, hn, rfl⟩
  · obtain ⟨node, -, rfl⟩ := List.mem_map.1 h
    exact .inr ⟨node, rfl⟩

theorem eq_of_mem_resultInner {d : Doclet} {c : Call} (h : c ∈ resultInner d) :
    ∃ r, d.returns = some [r] ∧ c = types r.type (some d) none := by
  unfold resultInner at h
  split at h
  · rename_i r hreturns
    exact ⟨r, hreturns, List.mem_singleton.1 h⟩
  · cases h

theorem doclet?_call (node : PropertyNode) : node.call.doclet? = none := by
  unfold PropertyNode.call
  split <;> rfl

/-- a call hands its record on, or drops it -/
theorem doclet?_of_mem_inner {c c' : Call} (h : c' ∈ c.inner) :
    c'.doclet? = none ∨ c'.doclet? = c.doclet? := by
  cases c with
  | types names doclet label =>
    obtain ⟨n, -, rfl⟩ | ⟨d, rfl, rfl⟩ := eq_of_mem_typesInner h
    · exact .inr rfl
    · exact .inr rfl
  | name n doclet =>
    obtain ⟨props, rfl⟩ | ⟨d, rfl, -, rfl | rfl⟩ := eq_of_mem_name h
    · exact .inl rfl
    · exact .inr rfl
    · exact .inr rfl
  | literal props =>
    cases eq_of_mem_literal h
    exact .inl rfl
  | record nodes parent =>
    obtain ⟨node, -, rfl⟩ := List.mem_map.1 h
    exact .inl (doclet?_call node)
  | params d =>
    obtain ⟨n, -, rfl⟩ | ⟨node, rfl⟩ := eq_of_mem_params h
    · exact .inr rfl
    · exact .inl (doclet?_call node)
  | result d =>
    obtain ⟨r, -, rfl⟩ := eq_of_mem_resultInner h
    exact .inr rfl

/-! ## calls that end -/

/-- the second call can be asked for the answer to the first -/
def Leads (c c' : Call) : Prop := c' ∈ c.inner

/-- calls are nested no deeper than `depth`, and no more than `entries` of them enter a callback -/
inductive Ends : Nat → Nat → Call → Prop where
  | plain {depth entries : Nat} {c : Call} (hc : c.entersCallback = false)
      (h : ∀ c' ∈ c.inner, Ends depth entries c') : Ends (depth + 1) entries c
  | entry {depth entries : Nat} {c : Call} (h : ∀ c' ∈ c.inner, Ends depth entries c') :
    Ends (depth + 1) (entries + 1) c

theorem Ends.mono {m n k l : Nat} {c : Call} (h : Ends m k c) (hdepth : m ≤ n) (hentries : k ≤ l) :
    Ends n l c := by
  induction h generalizing n l with
  | plain hc _ ih =>
    obtain ⟨n, rfl⟩ := Nat.exists_eq_add_of_le' (Nat.lt_of_lt_of_le (Nat.succ_pos _) hdepth)
    exact .plain hc fun c' hc' => ih c' hc' (Nat.le_of_succ_le_succ hdepth) hentries
  | entry _ ih =>
    obtain ⟨n, rfl⟩ := Nat.exists_eq_add_of_le' (Nat.lt_of_lt_of_le (Nat.succ_pos _) hdepth)
    obtain ⟨l, rfl⟩ := Nat.exists_eq_add_of_le' (Nat.lt_of_lt_of_le (Nat.succ_pos _) hentries)
    exact .entry fun c' hc' =>
      ih c' hc' (Nat.le_of_succ_le_succ hdepth) (Nat.le_of_succ_le_succ hentries)

/-- several calls that end are nested no deeper than the deepest of them -/
theorem exists_depth {entries : Nat} {cs : List Call} (h : ∀ c ∈ cs, ∃ n, Ends n entries c) :
    ∃ n, ∀ c ∈ cs, Ends n entries c := by
  induction cs with
  | nil => exact ⟨0, fun c hc => absurd hc List.not_mem_nil⟩
  | cons c cs ih =>
    obtain ⟨⟨m, hc⟩, hcs⟩ := List.forall_mem_cons.1 h
    obtain ⟨n, hcs⟩ := ih hcs
    refine ⟨max m n, List.forall_mem_cons.2 ⟨hc.mono (le_max_left m n) le_rfl, fun c' hc' => ?_⟩⟩
    exact (hcs c' hc').mono (le_max_right m n) le_rfl

theorem exists_plain {entries : Nat} {c : Call} (hc : c.entersCallback = false)
    (h : ∀ c' ∈ c.inner, ∃ n, Ends n entries c') : ∃ n, Ends n entries c := by
  obtain ⟨n, hinner⟩ := exists_depth h
  exact ⟨n + 1, .plain hc hinner⟩

theorem exists_ends_types {names : Option TypeNames} {doclet : Option Doclet} (label : Option String)
    {entries : Nat} (hnames : ∀ n ∈ names.getD [], ∃ k, Ends k entries (name n doclet))
    (hobject : ∀ d, doclet = some d → ∃ k, Ends k entries (name (some "object") (some d))) :
    ∃ k, Ends k entries (types names doclet label) := by
  refine exists_plain rfl fun c hc => ?_
  obtain ⟨n, hn, rfl⟩ | ⟨d, hd, rfl⟩ := eq_of_mem_typesInner hc
  · exact hnames n hn
  · exact hobject d hd

/-! ### calls without a record -/

theorem exists_ends_name_none (n : Option String) : ∃ k, Ends k 0 (name n none) :=
  exists_plain rfl fun _ hc => absurd hc List.not_mem_nil

theorem exists_ends_types_none (names : Option TypeNames) (label : Option String) :
    ∃ k, Ends k 0 (types names none label) :=
  exists_ends_types label (fun n _ => exists_ends_name_none n) fun _ hd => nomatch hd

theorem exists_ends_call (node : PropertyNode) : ∃ k, Ends k 0 node.call := by
  induction node using PropertyNode.inductionOn with
  | mk name prop parts ih =>
    cases parts with
    | nil => exact exists_ends_types_none _ _
    | cons part parts =>
      refine exists_plain rfl fun c hc => ?_
      obtain ⟨node, hnode, rfl⟩ := List.mem_map.1 hc
      exact ih node hnode

theorem exists_ends_record (nodes : List PropertyNode) (parent : Option PropertyNode) :
    ∃ k, Ends k 0 (record nodes parent) := by
  refine exists_plain rfl fun c hc => ?_
  obtain ⟨node, -, rfl⟩ := List.mem_map.1 hc
  exact exists_ends_call node

theorem exists_ends_literal (props : List Property) : ∃ k, Ends k 0 (literal props) := by
  refine exists_plain rfl fun c hc => ?_
  cases eq_of_mem_literal hc
  exact exists_ends_record _ _

/-! ### calls with a record -/

theorem exists_ends_name_of_plain {n : Option String} {d : Doclet}
    (h : (name n (some d)).entersCallback = false) : ∃ k, Ends k 0 (name n (some d)) := by
  refine exists_plain h fun c hc => ?_
  obtain ⟨props, rfl⟩ | ⟨e, he, henters, -⟩ := eq_of_mem_name hc
  · exact exists_ends_literal props
  · cases he
    exact nomatch h.symm.trans henters

theorem exists_ends_types_of_plain {names : Option TypeNames} {d : Doclet} (label : Option String)
    (h : ∀ n ∈ names.getD [], (name n (some d)).entersCallback = false) :
    ∃ k, Ends k 0 (types names (some d) label) :=
  exists_ends_types label (fun n hn => exists_ends_name_of_plain (h n hn)) fun e _ =>
    exists_ends_name_of_plain (object_not_entersCallback e)

section
variable {d : Doclet} (hd : ¬d.IsCircular)
include hd

theorem exists_ends_params : ∃ k, Ends k 0 (params d) := by
  refine exists_plain rfl fun c hc => ?_
  obtain ⟨n, hn, rfl⟩ | ⟨node, rfl⟩ := eq_of_mem_params hc
  · refine exists_ends_types_of_plain none fun m hm => ?_
    rw [List.mem_singleton.1 hm]
    exact this_not_entersCallback hd n hn
  · exact exists_ends_call node

theorem exists_ends_result : ∃ k, Ends k 0 (result d) := by
  refine exists_plain rfl fun c hc => ?_
  obtain ⟨r, hreturns, rfl⟩ := eq_of_mem_resultInner hc
  exact exists_ends_types_of_plain none (result_not_entersCallback hd hreturns)

/-- the callback is entered, and not again in its parameters and its result -/
theorem exists_ends_name (n : Option String) : ∃ k, Ends k 1 (name n (some d)) := by
  have hinner : ∀ c ∈ (name n (some d)).inner, ∃ k, Ends k 0 c := fun c hc => by
    obtain ⟨props, rfl⟩ | ⟨e, he, -, rfl | rfl⟩ := eq_of_mem_name hc
    · exact exists_ends_literal props
    · cases he
      exact exists_ends_params hd
    · cases he
      exact exists_ends_result hd
  obtain ⟨k, hinner⟩ := exists_depth hinner
  exact ⟨k + 1, .entry hinner⟩

end

theorem exists_ends_of_free {k : Nat} {c : Call} (h : ∃ n, Ends n 0 c) : ∃ n, Ends n k c := by
  obtain ⟨n, h⟩ := h
  exact ⟨n, h.mono le_rfl (Nat.zero_le k)⟩

/-- all calls end but those for the record of a circular callback -/
theorem exists_ends {c : Call} (h : ∀ d, c.doclet? = some d → ¬d.IsCircular) :
    ∃ n, Ends n 1 c := by
  cases c with
  | types names doclet label =>
    cases doclet with
    | none => exact exists_ends_of_free (exists_ends_types_none names label)
    | some d =>
      refine exists_ends_types label (fun n _ => exists_ends_name (h d rfl) n) fun e he => ?_
      exact exists_ends_name (h e he) (some "object")
  | name n doclet =>
    cases doclet with
    | none => exact exists_ends_of_free (exists_ends_name_none n)
    | some d => exact exists_ends_name (h d rfl) n
  | literal props => exact exists_ends_of_free (exists_ends_literal props)
  | record nodes parent => exact exists_ends_of_free (exists_ends_record nodes parent)
  | params d => exact exists_ends_of_free (exists_ends_params (h d rfl))
  | result d => exact exists_ends_of_free (exists_ends_result (h d rfl))

/-- a chain of calls is no longer than calls are nested, and enters a callback no more often -/
theorem Ends.chain {depth entries : Nat} {c : Call} {rest : List Call} (h : Ends depth entries c)
    (hchain : List.IsChain Leads (c :: rest)) :
    rest.length < depth ∧ (c :: rest).countP entersCallback ≤ entries := by
  induction h generalizing rest with
  | @plain depth entries c hc _ ih =>
    rw [List.countP_cons_of_neg (ne_true_of_eq_false hc)]
    cases rest with
    | nil => exact ⟨Nat.succ_pos depth, Nat.zero_le entries⟩
    | cons next rest =>
      obtain ⟨hlead, hchain⟩ := List.isChain_cons_cons.1 hchain
      obtain ⟨hlength, hcount⟩ := ih next hlead hchain
      exact ⟨Nat.succ_lt_succ hlength, hcount⟩
  | @entry depth entries c _ ih =>
    have hfirst (cs : List Call) : (c :: cs).countP entersCallback ≤ cs.countP entersCallback + 1 := by
      rw [List.countP_cons]
      split <;> omega
    cases rest with
    | nil => exact ⟨Nat.succ_pos depth, (hfirst []).trans (Nat.succ_le_succ (Nat.zero_le entries))⟩
    | cons next rest =>
      obtain ⟨hlead, hchain⟩ := List.isChain_cons_cons.1 hchain
      obtain ⟨hlength, hcount⟩ := ih next hlead hchain
      exact ⟨Nat.succ_lt_succ hlength, (hfirst (next :: rest)).trans (Nat.succ_le_succ hcount)⟩

/-- calls that end are answered as they should be -/
theorem Ends.agrees (config : Config) {depth entries m : Nat} {c : Call} (h : Ends depth entries c)
    (hc : ∀ d, c.doclet? = some d → ¬d.IsCircular) (hm : depth ≤ m) :
    (c.value config).Agrees (c.answer config m) := by
  have hstep {m : Nat} {c : Call} (hc : ∀ d, c.doclet? = some d → ¬d.IsCircular)
      (ih : ∀ c' ∈ c.inner, (∀ d, c'.doclet? = some d → ¬d.IsCircular) →
        (c'.value config).Agrees (c'.answer config m)) :
      (c.value config).Agrees (c.answer config (m + 1)) := by
    rw [← body_value config hc]
    refine body_agrees fun c' hc' => ih c' hc' fun d hd => ?_
    rcases doclet?_of_mem_inner hc' with hfree | hkept
    · exact nomatch hfree.symm.trans hd
    · exact hc d (hkept.symm.trans hd)
  induction h generalizing m with
  | plain _ _ ih | entry _ ih =>
    obtain ⟨m, rfl⟩ := Nat.exists_eq_add_of_le' (Nat.lt_of_lt_of_le (Nat.succ_pos _) hm)
    exact hstep hc fun c' hc' hfree => ih c' hc' hfree (Nat.le_of_succ_le_succ hm)

/-! ## calls below properties and nodes -/

/-- the calls below those for nodes: for the parts of a node among them, or for names of no record -/
inductive Below (nodes : List PropertyNode) : Call → Prop where
  | parts {root node : PropertyNode} (hroot : root ∈ nodes) (h : IsIn node root) :
    Below nodes (record node.children (some node))
  | types (names : Option TypeNames) (label : Option String) : Below nodes (types names none label)
  | name (n : Option String) : Below nodes (name n none)

/-- what holds of a call and one that it leads to: below properties no call is for a record, and below the
object type of nodes there are only calls for parts of them -/
def Descends : Call → Call → Prop
  | literal _, c => c.doclet? = none
  | record nodes _, c => Below nodes c
  | _, _ => True

theorem below_call {nodes : List PropertyNode} {root node : PropertyNode} (hroot : root ∈ nodes)
    (h : IsIn node root) : Below nodes node.call := by
  unfold PropertyNode.call
  split
  · exact .types _ _
  · exact .parts hroot h

theorem Below.step {nodes : List PropertyNode} {c c' : Call} (h : Below nodes c) (hlead : Leads c c') :
    Below nodes c' := by
  cases h with
  | @parts root node hroot hin =>
    obtain ⟨child, hchild, rfl⟩ := List.mem_map.1 hlead
    exact below_call hroot (.trans (.part hchild .root) hin)
  | types names label =>
    obtain ⟨n, -, rfl⟩ | ⟨d, hd, -⟩ := eq_of_mem_typesInner hlead
    · exact .name n
    · cases hd
  | name n => cases hlead

theorem descends_of_leads {c c' : Call} (h : Relation.TransGen Leads c c') : Descends c c' := by
  induction h with
  | single hlead =>
    cases c with
    | literal props => exact (doclet?_of_mem_inner hlead).elim id id
    | record nodes parent =>
      obtain ⟨node, hnode, rfl⟩ := List.mem_map.1 hlead
      exact below_call hnode .root
    | types | name | params | result => trivial
  | tail _ hlead ih =>
    cases c with
    | literal props => exact (doclet?_of_mem_inner hlead).elim id (·.trans ih)
    | record nodes parent => exact ih.step hlead
    | types | name | params | result => trivial

theorem pairwise_descends {cs : List Call} (h : List.IsChain Leads cs) : cs.Pairwise Descends := by
  have : Trans (Relation.TransGen Leads) (Relation.TransGen Leads) (Relation.TransGen Leads) :=
    ⟨Relation.TransGen.trans⟩
  have hchain : List.IsChain (Relation.TransGen Leads) cs := h.imp fun _ _ => .single
  exact hchain.pairwise.imp descends_of_leads

/-! ## circular callbacks -/

section
variable {d : Doclet} {n : String}

theorem name_leads (hkind : d.kind = some "typedef") (hn : IsFunctionName n) :
    Leads (name (some n) (some d)) (params d) ∧ Leads (name (some n) (some d)) (result d) := by
  have henters := entersCallback_iff.2 ⟨hkind, n, rfl, hn⟩
  rw [entersCallback, Bool.and_eq_true] at henters
  have hinner : (name (some n) (some d)).inner = [params d, result d] := by
    rw [inner, Option.toList_some, List.flatMap_cons, List.flatMap_nil, List.append_nil, nameInner,
      NameForm.ofName_eq_callable.2 hn]
    exact if_pos henters.2
  rw [Leads, Leads, hinner]
  exact ⟨List.mem_cons_self, List.mem_cons_of_mem _ (List.mem_singleton_self _)⟩

theorem leads_types {names : TypeNames} (hn : some n ∈ names) (label : Option String) :
    Leads (types (some names) (some d) label) (name (some n) (some d)) := by
  cases names with
  | nil => cases hn
  | cons first more => exact List.mem_map_of_mem hn

theorem params_leads (hkind : d.kind = some "typedef") (hthis : d.this = some n)
    (hn : IsFunctionName n) : Leads (params d) (types (some [some n]) (some d) none) := by
  have hfunction : d.isFunction = true := by
    rw [Doclet.isFunction, Doclet.isCallback, hkind]
    rfl
  have hne : n ≠ "" := by
    rintro rfl
    exact not_isFunctionName_empty hn
  have hnames : d.thisNames = [some n] := by
    rw [Doclet.thisNames, if_pos hfunction, hthis, given, Option.filter_some,
      if_pos (decide_eq_true hne)]
    rfl
  refine List.mem_append_left _ ?_
  rw [hnames]
  exact List.mem_singleton_self _

theorem result_leads {r : Returned} (hreturns : d.returns = some [r]) :
    Leads (result d) (types r.type (some d) none) := by
  show _ ∈ resultInner d
  rw [resultInner, hreturns]
  exact List.mem_singleton_self _

end

/-- the names that make a callback circular lead back to themselves -/
theorem exists_cycle {d : Doclet} (h : d.IsCircular) :
    ∃ n, Relation.TransGen Leads (name n (some d)) (name n (some d)) := by
  obtain ⟨hkind, ⟨n, hthis, hn⟩ | ⟨r, names, n, hreturns, hnames, hmem, hn⟩⟩ := h
  · have htypes : Relation.TransGen Leads (params d) (name (some n) (some d)) :=
      (Relation.TransGen.single (params_leads hkind hthis hn)).tail
        (leads_types (List.mem_singleton_self _) none)
    exact ⟨some n, htypes.head (name_leads hkind hn).1⟩
  · have hresult : Leads (result d) (types (some names) (some d) none) :=
      hnames ▸ result_leads hreturns
    have htypes : Relation.TransGen Leads (result d) (name (some n) (some d)) :=
      (Relation.TransGen.single hresult).tail (leads_types hmem none)
    exact ⟨some n, htypes.head (name_leads hkind hn).2⟩

end Call

open Call (Leads Descends entersCallback)

/-- Every call comes to an end and is answered with the type that is found.  It leads to all calls that are
asked for the answer; and along the calls that it leads to, a callback is entered once at most, a record is
not handed on to its properties, and nodes lead to nothing but their parts. -/
theorem resolution_ends (config : Config) {c : Call}
    (h : ∀ d, c.doclet? = some d → ¬d.IsCircular) :
    (∃ n, (∀ rest, List.IsChain Leads (c :: rest) → rest.length < n) ∧
        ∀ m, n ≤ m → c.answer config m = c.value config) ∧
      (c.value config).outcome ≠ .error .endless ∧
      (∀ ask ask', (∀ c', Leads c c' → ask c' = ask' c') → c.body config ask = c.body config ask') ∧
      ∀ rest, List.IsChain Leads (c :: rest) →
        (c :: rest).countP entersCallback ≤ 1 ∧ (c :: rest).Pairwise Descends := by
  obtain ⟨n, hends⟩ := Call.exists_ends h
  refine ⟨⟨n, fun rest hrest => (hends.chain hrest).1, fun m hm => ?_⟩, ?_, ?_, fun rest hrest => ?_⟩
  · exact (hends.agrees config h hm).eq.symm
  · exact (hends.agrees config h le_rfl).finishes
  · exact fun ask ask' hsame => Call.body_congr hsame
  · exact ⟨(hends.chain hrest).2, Call.pairwise_descends hrest⟩

/-- a callback with function types in its parameters, in its properties and around them -/
theorem resolution_ends_of_callback :
    let config : Config := {}
    let d : Doclet :=
      { kind := some "typedef", this := some "Function<string>",
        properties := some [{ name := some "p.q", type := some [some "Function"] }],
        params := some [{ name := some "f", type := some [some "function()"] }],
        returns := some [{ type := some [some "object", none] }] }
    let c : Call := .name (some " function ") (some d)
    c.entersCallback = true ∧ (∀ e, c.doclet? = some e → ¬e.IsCircular) ∧
      (∃ n, (∀ rest, List.IsChain Leads (c :: rest) → rest.length < n) ∧
          ∀ m, n ≤ m → c.answer config m = c.value config) ∧
        (c.value config).outcome ≠ .error .endless ∧
        (∀ ask ask', (∀ c', Leads c c' → ask c' = ask' c') →
          c.body config ask = c.body config ask') ∧
        ∀ rest, List.IsChain Leads (c :: rest) →
          (c :: rest).countP entersCallback ≤ 1 ∧ (c :: rest).Pairwise Descends := by
  intro config d c
  have hthis : ¬IsFunctionName "Function<string>" := by decide +kernel
  have hresult : ¬IsFunctionName "object" := by decide +kernel
  have hregular : ∀ e, c.doclet? = some e → ¬e.IsCircular := by
    rintro e he ⟨-, ⟨this, h, hfunction⟩ | ⟨r, names, name, hreturns, hnames, hname, hfunction⟩⟩
    · cases he
      cases h
      exact hthis hfunction
    · cases he
      cases hreturns
      cases hnames
      rcases List.mem_cons.1 hname with h | h
      · cases h
        exact hresult hfunction
      · exact nomatch List.mem_singleton.1 h
  exact ⟨by decide +kernel, hregular, resolution_ends config hregular⟩

end DocTypes
