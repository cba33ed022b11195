import DocTypes.Proofs.Doclet.Grove

/-!
# Declared properties and their forest

Nesting properties by insertion and reading the forest off the list of declarations come to the same,
with the same warnings; and in both, each property is where it belongs.

* `Grove.ofProps_eq`           insertion warns like the check of the list, and settles the declarations;
* `nodeAt`                     the node that is read off the list for one of the declarations;
* `nodeAt_eq`                  its parts are the nodes of the declarations that belong below it;
* `rootsAfter_drop`            the roots that are read off are those of the declarations with no parent;
* `Nests.forest`               so they are the forest of the nodes that were inserted;
* `diagnostics_checkNesting`   a warning for each property that is misplaced, in order;
* `nesting_of_props`           what nesting comes to.
-/

namespace DocTypes

/-! ## insertion -/

namespace Grove

theorem contains_keys (index : List (String × Nat)) (key : String) :
    (index.map Prod.fst).contains key = (index.lookup key).isSome := by
  induction index with
  | nil => rfl
  | cons entry index ih =>
    obtain ⟨k, place⟩ := entry
    rw [List.map_cons, List.contains_cons, List.lookup_cons, ih]
    cases key == k <;> rfl

section
variable (strict : Bool) {g : Grove} {p : Property} {d : Declared} (h : p.declared? = some d)
include h

/-- what is settled is a named property, after a warning if its parent is not in the index -/
theorem add_of_orphan (horphan : d.isOrphan (g.index.map Prod.fst) = true) :
    add strict g p = (do
      Run.warn strict ((Misplacement.orphan (d.parent.getD "") d.name).warning p)
      pure (g.settle d)) := by
  rw [Declared.isOrphan, Option.any_eq_true] at horphan
  obtain ⟨key, hparent, habsent⟩ := horphan
  have hne := Declared.ne_key_of_parent hparent
  have hlookup : (g.insert d).index.lookup key = none := by
    rw [contains_keys, Bool.not_eq_true', Option.isSome_eq_false_iff, Option.isNone_iff_eq_none]
      at habsent
    rw [lookup_insert_of_ne hne, habsent]
  simp only [add, h, settle, hparent, hlookup, Option.bind_some, Option.getD_some]

theorem add_of_placed (hplaced : d.isOrphan (g.index.map Prod.fst) = false) :
    add strict g p = pure (g.settle d) := by
  cases hparent : d.parent with
  | none => simp only [add, h, settle, hparent, Option.bind_none]
  | some key =>
    have hne := Declared.ne_key_of_parent hparent
    rw [Declared.isOrphan, hparent, Option.any_some, contains_keys, Bool.not_eq_false',
      Option.isSome_iff_exists] at hplaced
    obtain ⟨parent, hlookup⟩ := hplaced
    rw [← lookup_insert_of_ne hne] at hlookup
    simp only [add, h, settle, hparent, hlookup, Option.bind_some]

end

/-- the warnings of several properties, and what comes of those that have a name -/
theorem foldlM_add (strict : Bool) (g : Grove) (props : List Property) :
    props.foldlM (add strict) g = (do
      checkNesting strict (g.index.map Prod.fst) props
      pure ((declared props).foldl settle g)) := by
  induction props generalizing g with
  | nil => rfl
  | cons p later ih =>
    cases hp : p.declared? with
    | none =>
      have hadd : add strict g p = (do
          Run.warn strict (Misplacement.unnamed.warning p)
          pure g) := by
        rw [add, hp]
      simp only [List.foldlM_cons, checkNesting, hp, hadd, declared, List.filterMap_cons_none hp,
        bind_assoc, pure_bind, ih]
    | some d =>
      have hindex : d.key :: g.index.map Prod.fst = (g.settle d).index.map Prod.fst := by
        rw [index_settle]
        rfl
      rw [List.foldlM_cons, checkNesting, hp, declared, List.filterMap_cons_some hp, List.foldl_cons]
      dsimp only
      rw [hindex]
      by_cases horphan : d.isOrphan (g.index.map Prod.fst) = true
      · rw [add_of_orphan strict hp horphan, if_pos horphan, bind_assoc, bind_assoc]
        simp only [pure_bind, ih]
        rfl
      · rw [add_of_placed strict hp (Bool.eq_false_iff.2 horphan), if_neg horphan, pure_bind, ih]
        rfl

/-- nesting by insertion warns of the same, and makes the forest of the declarations -/
theorem ofProps_eq (strict : Bool) (props : List Property) : ofProps strict props = (do
    checkNesting strict [] props
    pure (ofDeclared (declared props))) := foldlM_add strict {} props

end Grove

/-! ## the forest of the declarations -/

/-- the node that is read off the list of declarations for one of them -/
def nodeAt (ds : List Declared) (i : Nat) : Option PropertyNode :=
  ds[i]?.map fun d => .mk d.leaf d.prop (partsOf d.key (ds.drop (i + 1)))

section
variable {ds : List Declared}

theorem nodeAt_of_getElem? {d : Declared} {i : Nat} (hd : ds[i]? = some d) :
    nodeAt ds i = some (.mk d.leaf d.prop (partsOf d.key (ds.drop (i + 1)))) := by
  rw [nodeAt, hd]
  rfl

/-- once the key is declared anew, no more parts come -/
theorem parentAt?_ne_of_redeclared {key : String} {i s k : Nat} (hi : latest? ds key s = some i)
    (hs : ds[s]?.map Declared.key = some key) (hk : s < k) : parentAt? ds k ≠ some i := by
  intro hparent
  obtain ⟨key', -, hlatest⟩ := Option.bind_eq_some_iff.1 hparent
  obtain rfl := Option.some.inj ((latest?_key hi).symm.trans (latest?_key hlatest))
  have hle := le_of_latest? hlatest hk hs
  have hlt := latest?_lt hi
  omega

/-- whether a declaration is a part of another depends on the key of its parent -/
theorem parentAt?_eq_some_iff {key : String} {i s : Nat} (hi : latest? ds key s = some i)
    {d : Declared} (hd : ds[s]? = some d) : parentAt? ds s = some i ↔ d.parent = some key := by
  rw [parentAt?, hd]
  show (d.parent.bind fun key => latest? ds key s) = some i ↔ _
  constructor
  · intro hparent
    obtain ⟨key', hkey', hlatest⟩ := Option.bind_eq_some_iff.1 hparent
    obtain rfl := Option.some.inj ((latest?_key hi).symm.trans (latest?_key hlatest))
    exact hkey'
  · intro hparent
    rw [hparent]
    exact hi

/-- the parts of a declaration, up to where its key is declared anew -/
theorem partsOf_drop {key : String} {i m s : Nat} (hi : latest? ds key s = some i)
    (hm : s + m = ds.length) : partsOf key (ds.drop s)
      = ((List.range' s m).filter fun k => parentAt? ds k = some i).filterMap (nodeAt ds) := by
  induction m generalizing s with
  | zero =>
    rw [List.drop_eq_nil_of_le (by omega), partsOf]
    rfl
  | succ m ih =>
    have hs : s < ds.length := by omega
    have hget : ds[s]? = some ds[s] := List.getElem?_eq_getElem hs
    have hpart := parentAt?_eq_some_iff hi hget
    rw [List.drop_eq_getElem_cons hs, partsOf, List.range'_succ]
    by_cases hkey : ds[s].key = key
    · have hredeclared : ds[s]?.map Declared.key = some key := by
        rw [hget]
        exact congrArg some hkey
      have hnone : (s :: List.range' (s + 1) m).filter (fun k => parentAt? ds k = some i) = [] := by
        refine List.filter_eq_nil_iff.2 fun k hk hparent => ?_
        have hparent := of_decide_eq_true hparent
        rcases List.mem_cons.1 hk with rfl | hk
        · rw [hpart, ← hkey] at hparent
          exact Declared.ne_key_of_parent hparent rfl
        · have hlt := (List.mem_range'_1.1 hk).1
          exact parentAt?_ne_of_redeclared hi hredeclared (by omega) hparent
      rw [if_pos hkey, hnone]
      rfl
    · have hi' : latest? ds key (s + 1) = some i := by
        rw [latest?_succ hget, if_neg hkey, hi]
      rw [if_neg hkey, ih hi' (by omega)]
      by_cases hparent : ds[s].parent = some key
      · rw [if_pos hparent, List.filter_cons, if_pos (decide_eq_true (hpart.2 hparent)),
          List.filterMap_cons_some (nodeAt_of_getElem? hget)]
      · rw [if_neg hparent, List.filter_cons, if_neg fun h => hparent (hpart.1 (of_decide_eq_true h))]

/-- a node has the parts that belong below its declaration -/
theorem nodeAt_eq {d : Declared} {i : Nat} (hd : ds[i]? = some d) : nodeAt ds i
    = some (.mk d.leaf d.prop ((belonging ds (some i)).filterMap (nodeAt ds))) := by
  obtain ⟨hi, -⟩ := List.getElem?_eq_some_iff.1 hd
  have hlatest : latest? ds d.key (i + 1) = some i := by
    rw [latest?_succ hd, if_pos rfl]
  have hparts := partsOf_drop hlatest (m := ds.length - (i + 1)) (by omega)
  rw [← belonging_eq hi] at hparts
  rw [nodeAt_of_getElem? hd, hparts]

theorem rootsAfter_drop {earlier : List String} {m s : Nat}
    (hearlier : ∀ key, earlier.contains key = (latest? ds key s).isSome) (hm : s + m = ds.length) :
    rootsAfter earlier (ds.drop s)
      = ((List.range' s m).filter fun k => parentAt? ds k = none).filterMap (nodeAt ds) := by
  induction m generalizing s earlier with
  | zero =>
    rw [List.drop_eq_nil_of_le (by omega), rootsAfter]
    rfl
  | succ m ih =>
    have hs : s < ds.length := by omega
    have hget : ds[s]? = some ds[s] := List.getElem?_eq_getElem hs
    have hmore : ∀ key, (ds[s].key :: earlier).contains key = (latest? ds key (s + 1)).isSome := by
      intro key
      rw [List.contains_cons, hearlier, latest?_succ hget]
      by_cases hkey : ds[s].key = key
      · simp [hkey]
      · simp [hkey, Ne.symm hkey]
    have hroot : (ds[s].parent.isNone || ds[s].isOrphan earlier) = true ↔ parentAt? ds s = none := by
      rw [parentAt?, hget, Declared.isOrphan, Option.bind_some]
      cases ds[s].parent with
      | none => simp
      | some key =>
        rw [Option.any_some, hearlier]
        simp
    rw [List.drop_eq_getElem_cons hs, rootsAfter, List.range'_succ, ih hmore (by omega)]
    by_cases hnone : parentAt? ds s = none
    · rw [if_pos (hroot.2 hnone), List.filter_cons, if_pos (decide_eq_true hnone),
        List.filterMap_cons_some (nodeAt_of_getElem? hget)]
    · rw [if_neg (mt hroot.1 hnone), List.filter_cons, if_neg fun h => hnone (of_decide_eq_true h)]

/-- the node of the latest declaration of a key -/
theorem lastWithKey?_drop {key : String} {m s : Nat} (hm : s + m = ds.length) :
    lastWithKey? key (ds.drop s)
      = ((latest? ds key ds.length).filter (s ≤ ·)).bind (nodeAt ds) := by
  induction m generalizing s with
  | zero =>
    rw [List.drop_eq_nil_of_le (by omega), lastWithKey?]
    cases hlatest : latest? ds key ds.length with
    | none => rfl
    | some i =>
      have hlt := latest?_lt hlatest
      rw [Option.filter_some, if_neg (by simp; omega), Option.bind_none]
  | succ m ih =>
    have hs : s < ds.length := by omega
    have hget : ds[s]? = some ds[s] := List.getElem?_eq_getElem hs
    have hkey : ds[s]?.map Declared.key = some key ↔ ds[s].key = key := by
      rw [hget, Option.map_some, Option.some.injEq]
    rw [List.drop_eq_getElem_cons hs, lastWithKey?, ih (by omega), ← nodeAt_of_getElem? hget]
    cases hlatest : latest? ds key ds.length with
    | none =>
      rw [if_neg (mt hkey.2 (latest?_eq_none.1 hlatest s hs))]
      rfl
    | some i =>
      have hfrom {t : Nat} (h : t ≤ i) : (some i).filter (t ≤ ·) = some i := by simp [h]
      have hbefore {t : Nat} (h : i < t) : (some i).filter (t ≤ ·) = none := by simp [h]
      rcases Nat.lt_trichotomy i s with hi | rfl | hi
      · have hother : ¬ds[s].key = key := by
          intro h
          have hle := le_of_latest? hlatest hs (hkey.2 h)
          omega
        rw [if_neg hother, hbefore hi, hbefore (by omega)]
        rfl
      · rw [if_pos (hkey.1 (latest?_key hlatest)), hbefore (Nat.lt_succ_self i),
          hfrom (Nat.le_refl i)]
        rfl
      · have hnode := nodeAt_of_getElem? (List.getElem?_eq_getElem (latest?_lt hlatest))
        rw [hfrom hi, hfrom (Nat.le_of_lt hi), Option.bind_some, hnode, Option.some_or]

end

/-! ## trees -/

namespace Grove.Nests

variable {g : Grove} {ds : List Declared} (h : g.Nests ds)
include h

theorem treeAt {depth i : Nat} (hdepth : ds.length - i ≤ depth) :
    g.treeAt depth i = nodeAt ds i := by
  induction depth generalizing i with
  | zero =>
    rw [Grove.treeAt, nodeAt, List.getElem?_eq_none (by omega)]
    rfl
  | succ depth ih =>
    rw [Grove.treeAt, h.cell]
    cases hd : ds[i]? with
    | none =>
      rw [nodeAt, hd]
      rfl
    | some d =>
      have hparts : (belonging ds (some i)).filterMap (g.treeAt depth)
          = (belonging ds (some i)).filterMap (nodeAt ds) :=
        List.filterMap_congr fun k hk => by
          have hlt := lt_of_mem_belonging hk
          exact ih (by omega)
      rw [nodeAt_eq hd, ← hparts]
      rfl

theorem tree? (i : Nat) : g.tree? i = nodeAt ds i := by
  refine h.treeAt ?_
  rw [h.length]
  omega

theorem forest : g.forest = rootsAfter [] ds := by
  have hnone (key : String) : [].contains key = (latest? ds key 0).isSome := rfl
  have hroots := rootsAfter_drop hnone (Nat.zero_add ds.length)
  rw [List.drop_zero, ← List.range_eq_range'] at hroots
  rw [hroots, Grove.forest, h.roots, belonging]
  exact List.filterMap_congr fun i _ => h.tree? i

theorem tree?_latest (key : String) :
    (g.index.lookup key).bind g.tree? = lastWithKey? key ds := by
  have hlast : lastWithKey? key (ds.drop 0)
      = ((latest? ds key ds.length).filter (0 ≤ ·)).bind (nodeAt ds) :=
    lastWithKey?_drop (Nat.zero_add ds.length)
  rw [List.drop_zero] at hlast
  rw [hlast, h.index]
  cases latest? ds key ds.length with
  | none => rfl
  | some i => exact h.tree? i

end Grove.Nests

/-! ## warnings -/

def Misplacement.diagnostic (m : Misplacement) : Diagnostic := ⟨.unknownTypeName, m.message⟩

/-- what is wrong with the place of a property, given those that are declared before it -/
def misplacement? (earlier : List Property) (p : Property) : Option Misplacement :=
  match p.declared? with
  | none => some .unnamed
  | some d =>
    if d.isOrphan ((declared earlier).map Declared.key) then
      some (.orphan (d.parent.getD "") d.name)
    else none

/-- what is wrong with the places of properties, in order -/
def misplacements (props : List Property) : List Misplacement :=
  (List.range props.length).filterMap fun k => props[k]?.bind (misplacement? (props.take k))

theorem Run.diagnostics_warn_bind {α : Type} (w : Warning) (f : Unit → Run α) :
    (Run.warn false w >>= f).diagnostics = w.toDiagnostic :: (f ()).diagnostics := rfl

/-- the first of several is judged by what comes before all of them -/
theorem misplacements_cons (front : List Property) (p : Property) (later : List Property) :
    (List.range (p :: later).length).filterMap
        (fun k => (p :: later)[k]?.bind (misplacement? (front ++ (p :: later).take k)))
      = (misplacement? front p).toList ++ (List.range later.length).filterMap fun k =>
          later[k]?.bind (misplacement? (front ++ [p] ++ later.take k)) := by
  have hfirst : (p :: later)[0]?.bind (misplacement? (front ++ (p :: later).take 0))
      = misplacement? front p := by
    rw [List.take_zero, List.append_nil]
    rfl
  have hrest : ((List.range later.length).map Nat.succ).filterMap
        (fun k => (p :: later)[k]?.bind (misplacement? (front ++ (p :: later).take k)))
      = (List.range later.length).filterMap fun k =>
          later[k]?.bind (misplacement? (front ++ [p] ++ later.take k)) := by
    rw [List.filterMap_map]
    refine List.filterMap_congr fun k _ => ?_
    rw [List.append_assoc]
    rfl
  rw [List.length_cons, List.range_succ_eq_map, List.filterMap_cons, hfirst, hrest]
  cases misplacement? front p with
  | none => rfl
  | some m => rfl

/-- in which order the keys are listed makes no difference -/
theorem isOrphan_congr {keys keys' : List String} (h : ∀ key, key ∈ keys ↔ key ∈ keys')
    (d : Declared) : d.isOrphan keys = d.isOrphan keys' := by
  have hcontains : (fun key => !keys.contains key) = fun key => !keys'.contains key := by
    funext key
    rw [Bool.eq_iff_iff]
    simp [h key]
  rw [Declared.isOrphan, Declared.isOrphan, hcontains]

theorem declared_concat (front : List Property) (p : Property) :
    declared (front ++ [p]) = declared front ++ p.declared?.toList := by
  rw [declared, List.filterMap_append, declared]
  cases hp : p.declared? with
  | none => rw [List.filterMap_cons_none hp]; rfl
  | some d => rw [List.filterMap_cons_some hp]; rfl

/-- a check that goes on from `front` tells of those that are misplaced -/
theorem diagnostics_checkNesting {front : List Property} {earlier : List String}
    (hearlier : ∀ key, key ∈ earlier ↔ key ∈ (declared front).map Declared.key)
    (props : List Property) : (checkNesting false earlier props).diagnostics
      = ((List.range props.length).filterMap fun k =>
          props[k]?.bind (misplacement? (front ++ props.take k))).map Misplacement.diagnostic := by
  induction props generalizing front earlier with
  | nil => rfl
  | cons p later ih =>
    rw [misplacements_cons, List.map_append, checkNesting]
    have hmore := declared_concat front p
    cases hp : p.declared? with
    | none =>
      have hmisplaced : misplacement? front p = some .unnamed := by rw [misplacement?, hp]
      rw [hp, Option.toList_none, List.append_nil] at hmore
      rw [← hmore] at hearlier
      dsimp only
      rw [hmisplaced, Run.diagnostics_warn_bind, ih hearlier]
      rfl
    | some d =>
      have hlater : ∀ key, key ∈ d.key :: earlier ↔
          key ∈ (declared (front ++ [p])).map Declared.key := by
        intro key
        rw [hmore, hp, List.mem_cons, hearlier]
        simp [or_comm]
      have hmisplaced : misplacement? front p
          = if d.isOrphan earlier then some (.orphan (d.parent.getD "") d.name) else none := by
        rw [isOrphan_congr hearlier, misplacement?, hp]
      dsimp only
      rw [hmisplaced]
      by_cases horphan : d.isOrphan earlier = true
      · rw [if_pos horphan, if_pos horphan, Run.diagnostics_warn_bind, ih hlater]
        rfl
      · rw [if_neg horphan, if_neg horphan, ih hlater]
        rfl

/-- a lenient check is never halted -/
theorem checkNesting_lenient (earlier : List String) (props : List Property) :
    (checkNesting false earlier props).outcome = .ok () := by
  induction props generalizing earlier with
  | nil => rfl
  | cons p later ih =>
    rw [checkNesting]
    cases p.declared? with
    | none => exact ih earlier
    | some d =>
      dsimp only
      split
      · exact ih _
      · exact ih _

/-! ## what nesting comes to -/

/-- the forest of a list of properties, as it is declared -/
structure IsNesting (props : List Property) (g : Grove) : Prop where
  /-- the nodes, their names, properties and parts, the roots and the index -/
  nests : g.Nests (declared props)
  /-- the name of a node is its key without that of the parent and the dot behind it -/
  names : ∀ d ∈ declared props, (d.parent = none ∧ d.leaf = d.key ∧ '.' ∉ d.key.toList) ∨
    ∃ key, d.parent = some key ∧ d.key = key ++ "." ++ d.leaf ∧ '.' ∉ d.leaf.toList
  /-- each property that has a name has one node in the forest -/
  once : g.places.Perm (List.range (declared props).length)
  acyclic (i : Nat) : ¬Relation.TransGen (fun i k => k ∈ g.childrenAt i) i i
  /-- a name leads to the last property of its key -/
  find? (name : String) :
    g.find? name = latest? (declared props) (keyOf name) (declared props).length
  /-- the list of declarations gives the same node -/
  node (name : String) : findNode? props name = (g.find? name).bind g.tree?

theorem isNesting_ofDeclared (props : List Property) :
    IsNesting props (Grove.ofDeclared (declared props)) := by
  have h := Grove.nests_ofDeclared (declared props)
  exact {
    nests := h
    names := fun d _ => d.parent_cases
    once := h.places_perm
    acyclic := h.acyclic
    find? := fun name => h.index (keyOf name)
    node := fun name => (h.tree?_latest (keyOf name)).symm }

/-- the list of declarations gives the forest that insertion makes, strict or not -/
theorem nest_eq (strict : Bool) (props : List Property) :
    nest strict props = Grove.forest <$> Grove.ofProps strict props := by
  have hforest := (Grove.nests_ofDeclared (declared props)).forest
  rw [Grove.ofProps_eq, map_eq_pure_bind, bind_assoc, nest, ← hforest]
  simp only [pure_bind]

/-- Properties are nested as they are declared: the nodes that are inserted one by one make the
forest in which each is below the latest property of its parent's key.  A strict run makes the same,
unless it is rejected. -/
theorem nesting_of_props (props : List Property) : ∃ g, IsNesting props g ∧
    (Grove.ofProps false props).outcome = .ok g ∧
    (Grove.ofProps false props).diagnostics
      = (misplacements props).map Misplacement.diagnostic ∧
    (∀ g', (Grove.ofProps true props).outcome = .ok g' → g' = g) ∧
    ∀ strict, nest strict props = Grove.forest <$> Grove.ofProps strict props := by
  have hlenient := checkNesting_lenient [] props
  have hnone (key : String) : key ∈ [] ↔ key ∈ (declared []).map Declared.key := Iff.rfl
  have hdiagnostics := diagnostics_checkNesting hnone props
  refine ⟨Grove.ofDeclared (declared props), isNesting_ofDeclared props, ?_, ?_, ?_,
    fun strict => nest_eq strict props⟩
  · rw [Grove.ofProps_eq, Run.bind_of_ok _ hlenient]
    rfl
  · rw [Grove.ofProps_eq, Run.bind_of_ok _ hlenient]
    show diagnostics (_ ++ []) = _
    rw [List.append_nil]
    exact hdiagnostics
  · intro g' hg'
    rw [Grove.ofProps_eq] at hg'
    cases hstrict : (checkNesting true [] props).outcome with
    | error fault =>
      rw [Run.bind_of_error _ hstrict] at hg'
      cases hg'
    | ok _ =>
      rw [Run.bind_of_ok _ hstrict] at hg'
      exact (Except.ok.inj hg').symm

end DocTypes
