import DocTypes.Doclet.Grove
import DocTypes.Proofs.Doclet.Place
import Mathlib.Data.List.Induction
import Mathlib.Data.List.Perm.Basic
import Mathlib.Logic.Relation

/-!
# The forest that insertion makes

Whatever is declared, in whatever order, the nodes that were inserted one by one are nested just as
the declarations belong: each has one node, each node has the parts that belong below its declaration,
in order, and the index leads to the latest declaration of each key.

* `Grove.settle`       the node of one more declaration, put where it belongs;
* `Grove.Nests`        the nodes, the roots and the index are those that the declarations call for;
* `Nests.settle`       one more declaration keeps this;
* `nests_ofDeclared`   so it holds of the forest of any declarations;
* `Nests.places_perm`  each node is in the forest, once;
* `Nests.acyclic`      no node is below itself.
-/

namespace DocTypes

namespace Grove

/-- the node of one more declaration, put where it belongs -/
def settle (g : Grove) (d : Declared) : Grove :=
  match d.parent.bind fun key => (g.insert d).index.lookup key with
  | some parent => (g.insert d).adopt parent g.cells.length
  | none => (g.insert d).plant g.cells.length

def ofDeclared (ds : List Declared) : Grove := ds.foldl settle {}

section
variable {g : Grove} {d : Declared}

theorem lookup_insert_self : (g.insert d).index.lookup d.key = some g.cells.length := by
  show ((d.key, g.cells.length) :: g.index).lookup d.key = _
  rw [List.lookup_cons, beq_self_eq_true]

theorem lookup_insert_of_ne {key : String} (h : key ≠ d.key) :
    (g.insert d).index.lookup key = g.index.lookup key := by
  show ((d.key, g.cells.length) :: g.index).lookup key = _
  rw [List.lookup_cons, beq_false_of_ne h]

theorem index_settle : (g.settle d).index = (d.key, g.cells.length) :: g.index := by
  unfold settle
  split
  · rfl
  · rfl

end

/-- the forest in which each declaration is where it belongs -/
structure Nests (g : Grove) (ds : List Declared) : Prop where
  cell (i : Nat) : g.cells[i]? = ds[i]?.map fun d => ⟨d.leaf, d.prop, belonging ds (some i)⟩
  roots : g.roots = belonging ds none
  index (key : String) : g.index.lookup key = latest? ds key ds.length

theorem nests_empty : Nests {} [] := ⟨fun _ => rfl, rfl, fun _ => rfl⟩

section
variable {g : Grove} {ds : List Declared} (h : g.Nests ds)
include h

theorem Nests.length : g.cells.length = ds.length := by
  have hle : g.cells.length ≤ ds.length := by
    rw [← List.getElem?_eq_none_iff, h.cell, List.getElem?_eq_none (Nat.le_refl _)]
    rfl
  have hge : ds.length ≤ g.cells.length := by
    rw [← List.getElem?_eq_none_iff, ← Option.map_eq_none_iff, ← h.cell]
    exact List.getElem?_eq_none (Nat.le_refl _)
  omega

/-! ## one more declaration -/

variable (d : Declared)

theorem Nests.lookup_insert (key : String) :
    (g.insert d).index.lookup key = latest? (ds ++ [d]) key (ds.length + 1) := by
  rw [latest?_succ List.getElem?_concat_length, latest?_append [d] (Nat.le_refl _), ← h.index]
  by_cases hkey : key = d.key
  · rw [if_pos hkey.symm, hkey, lookup_insert_self, h.length]
  · rw [if_neg (Ne.symm hkey), lookup_insert_of_ne hkey]

/-- the parent is looked up in the index -/
theorem Nests.lookup_parent :
    (d.parent.bind fun key => (g.insert d).index.lookup key)
      = parentAt? (ds ++ [d]) ds.length := by
  rw [parentAt?_concat_last]
  cases hparent : d.parent with
  | none => rfl
  | some key =>
    rw [Option.bind_some, Option.bind_some, lookup_insert_of_ne (Declared.ne_key_of_parent hparent),
      h.index]

theorem Nests.cell_insert (i : Nat) : (g.insert d).cells[i]?
    = (ds ++ [d])[i]?.map fun e => ⟨e.leaf, e.prop, belonging ds (some i)⟩ := by
  show (g.cells ++ [_])[i]? = _
  have hlength := h.length
  rcases Nat.lt_trichotomy i ds.length with hi | rfl | hi
  · rw [List.getElem?_append_left (by omega), List.getElem?_append_left hi, h.cell]
  · rw [← hlength, List.getElem?_concat_length, hlength, List.getElem?_concat_length,
      belonging_length]
    rfl
  · rw [List.getElem?_eq_none (by simp; omega), List.getElem?_eq_none (by simp; omega)]
    rfl

theorem Nests.settle : (g.settle d).Nests (ds ++ [d]) := by
  have hlength := h.length
  unfold Grove.settle
  rw [h.lookup_parent]
  have hindex (key : String) :
      (g.insert d).index.lookup key = latest? (ds ++ [d]) key (ds ++ [d]).length := by
    rw [h.lookup_insert, List.length_append, List.length_singleton]
  cases hparent : parentAt? (ds ++ [d]) ds.length with
  | none =>
    refine ⟨fun i => ?_, ?_, hindex⟩
    · show (g.insert d).cells[i]? = _
      rw [h.cell_insert, belonging_concat, hparent, if_neg nofun, List.append_nil]
    · show g.roots ++ [g.cells.length] = _
      rw [belonging_concat, hparent, if_pos rfl, h.roots, hlength]
  | some parent =>
    refine ⟨fun i => ?_, ?_, hindex⟩
    · show ((g.insert d).cells.modify parent _)[i]? = _
      rw [List.getElem?_modify, h.cell_insert, belonging_concat, hparent, hlength]
      by_cases hi : parent = i
      · subst hi
        simp [Function.comp_def]
      · simp [hi]
    · show g.roots = _
      rw [belonging_concat, hparent, if_neg nofun, List.append_nil, h.roots]

end

theorem nests_ofDeclared (ds : List Declared) : (ofDeclared ds).Nests ds := by
  induction ds using List.reverseRecOn with
  | nil => exact nests_empty
  | append_singleton ds d ih =>
    rw [ofDeclared, List.foldl_append]
    exact ih.settle d

/-! ## ways down -/

section
variable {g : Grove} {ds : List Declared} (h : g.Nests ds)
include h

theorem Nests.childrenAt (i : Nat) : g.childrenAt i = belonging ds (some i) := by
  rw [Grove.childrenAt, h.cell]
  by_cases hi : i < ds.length
  · rw [List.getElem?_eq_getElem hi]
    rfl
  · rw [List.getElem?_eq_none (by omega)]
    refine (List.eq_nil_iff_forall_not_mem.2 fun k hk => ?_).symm
    have hlt := lt_of_mem_belonging hk
    have hlength := (mem_belonging.1 hk).1
    omega

/-- the children of a node come after it -/
theorem Nests.lt_of_mem_childrenAt {i k : Nat} (hk : k ∈ g.childrenAt i) : i < k := by
  rw [h.childrenAt] at hk
  exact lt_of_mem_belonging hk

/-- no node is below itself -/
theorem Nests.acyclic (i : Nat) : ¬Relation.TransGen (fun i k => k ∈ g.childrenAt i) i i := by
  have hlt {k : Nat} (hbelow : Relation.TransGen (fun i k => k ∈ g.childrenAt i) i k) : i < k := by
    induction hbelow with
    | single hchild => exact h.lt_of_mem_childrenAt hchild
    | tail _ hchild ih => exact Nat.lt_trans ih (h.lt_of_mem_childrenAt hchild)
  intro hbelow
  exact Nat.lt_irrefl i (hlt hbelow)

/-- no more levels are needed than nodes follow -/
theorem Nests.placesBelow_succ {depth i : Nat} (hi : i < ds.length) (hdepth : ds.length - i ≤ depth) :
    g.placesBelow (depth + 1) i = g.placesBelow depth i := by
  induction depth generalizing i with
  | zero => omega
  | succ depth ih =>
    rw [placesBelow, placesBelow, h.childrenAt]
    refine congrArg (i :: ·) (List.flatMap_congr fun k hk => ?_)
    have hlt := lt_of_mem_belonging hk
    exact ih (mem_belonging.1 hk).1 (by omega)

theorem Nests.placesBelow_eq {i : Nat} (hi : i < ds.length) : g.placesBelow ds.length i
    = i :: (belonging ds (some i)).flatMap (g.placesBelow ds.length) := by
  rw [← h.placesBelow_succ hi (by omega), placesBelow, h.childrenAt]

/-! ## each node once -/

/-- the declarations from `s` on that belong below none of these -/
def topsFrom (ds : List Declared) (s : Nat) : List Nat :=
  (List.range' s (ds.length - s)).filter fun k => (parentAt? ds k).all (· < s)

omit h in
/-- without the first of them, its parts are at the top as well -/
theorem topsFrom_perm {s : Nat} (hs : s < ds.length) : ∃ more, topsFrom ds s = s :: more ∧
    (belonging ds (some s) ++ more).Perm (topsFrom ds (s + 1)) := by
  have hrange : List.range' s (ds.length - s)
      = s :: List.range' (s + 1) (ds.length - (s + 1)) := by
    have hlength : ds.length - s = ds.length - (s + 1) + 1 := by omega
    rw [hlength, List.range'_succ]
  have hfirst : ((parentAt? ds s).all fun p => p < s) = true := by
    cases hparent : parentAt? ds s with
    | none => rfl
    | some p => simpa using parentAt?_lt hparent
  refine ⟨_, by rw [topsFrom, hrange, List.filter_cons, if_pos hfirst], ?_⟩
  rw [belonging_eq hs, topsFrom]
  -- those that are at the top from here on are the parts of `s`, and those that were so before
  have hsplit := List.filter_append_perm (fun k => decide (parentAt? ds k = some s))
    ((List.range' (s + 1) (ds.length - (s + 1))).filter fun k => (parentAt? ds k).all (· < s + 1))
  rw [List.filter_filter, List.filter_filter] at hsplit
  refine (List.Perm.of_eq ?_).trans hsplit
  congr 1
  · refine List.filter_congr fun k _ => ?_
    by_cases hparent : parentAt? ds k = some s
    · simp [hparent]
    · simp [hparent]
  · refine List.filter_congr fun k _ => ?_
    cases parentAt? ds k with
    | none => rfl
    | some p =>
      rw [Bool.eq_iff_iff]
      simp only [Option.all_some, Option.some.injEq, Bool.and_eq_true, Bool.not_eq_true',
        decide_eq_true_eq, decide_eq_false_iff_not]
      omega

/-- the forest of the declarations from `s` on -/
theorem Nests.flatMap_topsFrom_perm {m s : Nat} (hs : s + m = ds.length) :
    ((topsFrom ds s).flatMap (g.placesBelow ds.length)).Perm (List.range' s m) := by
  induction m generalizing s with
  | zero =>
    have hnone : topsFrom ds s = [] := by
      rw [topsFrom, ← hs, Nat.add_zero, Nat.sub_self]
      rfl
    rw [hnone]
    exact .nil
  | succ m ih =>
    have hlt : s < ds.length := by omega
    obtain ⟨more, htops, hperm⟩ := topsFrom_perm hlt
    rw [htops, List.flatMap_cons, h.placesBelow_eq (by omega), List.range'_succ, List.cons_append,
      ← List.flatMap_append]
    exact ((hperm.flatMap_right _).trans (ih (by omega))).cons s

/-- each node is in the forest, once -/
theorem Nests.places_perm : g.places.Perm (List.range ds.length) := by
  have hroots : topsFrom ds 0 = belonging ds none := by
    rw [topsFrom, belonging, List.range_eq_range', Nat.sub_zero]
    refine List.filter_congr fun k _ => ?_
    cases parentAt? ds k with
    | none => rfl
    | some p => simp
  have hall := h.flatMap_topsFrom_perm (Nat.zero_add ds.length)
  rw [hroots, ← h.roots, ← List.range_eq_range'] at hall
  rw [places, h.length]
  exact hall

end

end Grove

end DocTypes
