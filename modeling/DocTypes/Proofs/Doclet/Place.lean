import DocTypes.Doclet.Nesting

/-!
# Where declarations belong

Of declared properties it can be said at once, without nesting them, where each belongs: below the
latest one before it whose key is its own key up to the last dot, if there is one.

* `Declared.parent_cases`   the key of a declaration, its parent's key and its name;
* `latest?`                 the latest of the first declarations that has a given key;
* `parentAt?`               where the parent of a declaration is;
* `belonging`               the declarations that belong below a given one, or below none;
* `belonging_concat`        one more declaration comes last where it belongs.

A declaration is referred to by its place in the list.
-/

namespace DocTypes

/-! ## keys -/

theorem splitLastDot?_eq_none {cs : List Char} : splitLastDot? cs = none ↔ '.' ∉ cs := by
  induction cs with
  | nil => simp [splitLastDot?]
  | cons c rest ih =>
    rw [splitLastDot?]
    by_cases hdot : '.' ∈ rest
    · obtain ⟨split, hsplit⟩ := Option.ne_none_iff_exists'.1 (mt ih.1 (not_not_intro hdot))
      rw [hsplit]
      simp [hdot]
    · rw [ih.2 hdot]
      by_cases hc : c = '.'
      · simp [hc]
      · simp [hc, hdot, Ne.symm hc]

theorem splitLastDot?_eq_some {cs path leaf : List Char} (h : splitLastDot? cs = some (path, leaf)) :
    cs = path ++ '.' :: leaf ∧ '.' ∉ leaf := by
  induction cs generalizing path with
  | nil => cases h
  | cons c rest ih =>
    rw [splitLastDot?] at h
    cases hrest : splitLastDot? rest with
    | some split =>
      rw [hrest] at h
      cases h
      obtain ⟨hsplit, hleaf⟩ := ih hrest
      exact ⟨by rw [hsplit, List.cons_append], hleaf⟩
    | none =>
      rw [hrest] at h
      by_cases hc : c = '.'
      · rw [if_pos hc] at h
        cases h
        rw [hc]
        exact ⟨rfl, splitLastDot?_eq_none.1 hrest⟩
      · rw [if_neg hc] at h
        cases h

namespace Declared

/-- a key without a dot is the name; any other is the key of the parent, a dot and the name -/
theorem parent_cases (d : Declared) :
    (d.parent = none ∧ d.leaf = d.key ∧ '.' ∉ d.key.toList) ∨
      ∃ key, d.parent = some key ∧ d.key = key ++ "." ++ d.leaf ∧ '.' ∉ d.leaf.toList := by
  unfold parent leaf parentAndLeaf
  cases hsplit : splitLastDot? d.key.toList with
  | none => exact .inl ⟨rfl, rfl, splitLastDot?_eq_none.1 hsplit⟩
  | some split =>
    obtain ⟨path, leaf⟩ := split
    obtain ⟨hkey, hleaf⟩ := splitLastDot?_eq_some hsplit
    refine .inr ⟨String.ofList path, rfl, ?_, ?_⟩
    · refine String.toList_injective (hkey.trans ?_)
      simp
    · rwa [String.toList_ofList]

/-- no declaration is its own parent -/
theorem ne_key_of_parent {d : Declared} {key : String} (h : d.parent = some key) : key ≠ d.key := by
  rintro rfl
  rcases d.parent_cases with ⟨hnone, -⟩ | ⟨key, hsome, hkey, -⟩
  · rw [hnone] at h
    cases h
  · obtain rfl := Option.some.inj (hsome.symm.trans h)
    have hlength := congrArg String.length hkey
    simp only [String.length_append] at hlength
    have hdot : ".".length = 1 := rfl
    omega

end Declared

/-! ## the latest of a key -/

/-- the latest of the first `n` declarations that has this key -/
def latest? (ds : List Declared) (key : String) : Nat → Option Nat
  | 0 => none
  | n + 1 => if ds[n]?.map Declared.key = some key then some n else latest? ds key n

section
variable {ds : List Declared} {key : String} {n i : Nat}

theorem latest?_succ {d : Declared} (hd : ds[n]? = some d) :
    latest? ds key (n + 1) = if d.key = key then some n else latest? ds key n := by
  rw [latest?, hd, Option.map_some]
  simp only [Option.some.injEq]

theorem latest?_lt (h : latest? ds key n = some i) : i < n := by
  induction n with
  | zero => cases h
  | succ n ih =>
    rw [latest?] at h
    split at h
    · cases h
      omega
    · have hlt := ih h
      omega

theorem latest?_key (h : latest? ds key n = some i) : ds[i]?.map Declared.key = some key := by
  induction n with
  | zero => cases h
  | succ n ih =>
    rw [latest?] at h
    split at h
    · cases h
      assumption
    · exact ih h

/-- no later one has the key -/
theorem le_of_latest? {k : Nat} (h : latest? ds key n = some i) (hk : k < n)
    (hkey : ds[k]?.map Declared.key = some key) : k ≤ i := by
  induction n with
  | zero => omega
  | succ n ih =>
    rw [latest?] at h
    by_cases hn : ds[n]?.map Declared.key = some key
    · rw [if_pos hn] at h
      cases h
      omega
    · rw [if_neg hn] at h
      have hne : k ≠ n := by
        rintro rfl
        exact hn hkey
      exact ih h (by omega)

theorem latest?_eq_none : latest? ds key n = none ↔
    ∀ k < n, ds[k]?.map Declared.key ≠ some key := by
  induction n with
  | zero => simp [latest?]
  | succ n ih =>
    rw [latest?]
    by_cases hn : ds[n]?.map Declared.key = some key
    · rw [if_pos hn]
      constructor
      · nofun
      · intro h
        exact absurd hn (h n (by omega))
    · rw [if_neg hn, ih]
      constructor
      · intro h k hk
        by_cases hkn : k = n
        · rwa [hkn]
        · exact h k (by omega)
      · intro h k hk
        exact h k (by omega)

/-- which declarations follow makes no difference -/
theorem latest?_append (more : List Declared) (h : n ≤ ds.length) :
    latest? (ds ++ more) key n = latest? ds key n := by
  induction n with
  | zero => rfl
  | succ n ih =>
    rw [latest?, latest?, List.getElem?_append_left (by omega), ih (by omega)]

end

/-! ## where a declaration belongs -/

/-- the place of the parent of a declaration; the declaration is a root if there is none -/
def parentAt? (ds : List Declared) (i : Nat) : Option Nat :=
  (ds[i]?.bind Declared.parent).bind fun key => latest? ds key i

/-- the declarations with this parent, or the roots, in the order in which they are declared -/
def belonging (ds : List Declared) (parent : Option Nat) : List Nat :=
  (List.range ds.length).filter fun k => parentAt? ds k = parent

/-- a parent that is declared anew takes what follows, and an orphan can be a parent itself -/
example :
    let names := ["a", "a.b", "a", "a[].c", "x.y", "x.y.z", "[]", ".w"]
    let ds := declared (names.map fun name => { name := some name })
    (List.range 8).map (parentAt? ds)
      = [none, some 0, none, some 2, none, some 4, none, some 6] := by decide +kernel

section
variable {ds : List Declared} {i k : Nat}

/-- a parent is declared before its parts -/
theorem parentAt?_lt (h : parentAt? ds k = some i) : i < k := by
  obtain ⟨key, -, hlatest⟩ := Option.bind_eq_some_iff.1 h
  exact latest?_lt hlatest

theorem mem_belonging {parent : Option Nat} :
    k ∈ belonging ds parent ↔ k < ds.length ∧ parentAt? ds k = parent := by
  simp [belonging]

theorem lt_of_mem_belonging (h : k ∈ belonging ds (some i)) : i < k :=
  parentAt?_lt (mem_belonging.1 h).2

/-- the parts of a declaration are among those that follow it -/
theorem belonging_eq (h : i < ds.length) : belonging ds (some i)
    = (List.range' (i + 1) (ds.length - (i + 1))).filter fun k => parentAt? ds k = some i := by
  have hsplit : List.range ds.length
      = List.range (i + 1) ++ List.range' (i + 1) (ds.length - (i + 1)) := by
    have hlength : ds.length = i + 1 + (ds.length - (i + 1)) := by omega
    rw [List.range_eq_range', List.range_eq_range', hlength, ← List.range'_append_1, Nat.zero_add,
      Nat.add_sub_cancel_left]
  have hbefore : (List.range (i + 1)).filter (fun k => parentAt? ds k = some i) = [] := by
    refine List.filter_eq_nil_iff.2 fun k hk hparent => ?_
    have hlt := parentAt?_lt (of_decide_eq_true hparent)
    have hle := List.mem_range.1 hk
    omega
  rw [belonging, hsplit, List.filter_append, hbefore, List.nil_append]

/-! ### one more declaration -/

variable (d : Declared)

theorem parentAt?_concat_of_lt (h : k < ds.length) :
    parentAt? (ds ++ [d]) k = parentAt? ds k := by
  unfold parentAt?
  rw [List.getElem?_append_left h]
  congr 1
  funext key
  exact latest?_append [d] (by omega)

theorem parentAt?_concat_last : parentAt? (ds ++ [d]) ds.length
    = d.parent.bind fun key => latest? ds key ds.length := by
  unfold parentAt?
  rw [List.getElem?_concat_length]
  show d.parent.bind _ = _
  congr 1
  funext key
  exact latest?_append [d] (Nat.le_refl _)

/-- it comes last where it belongs, and nothing else changes -/
theorem belonging_concat (parent : Option Nat) : belonging (ds ++ [d]) parent
    = belonging ds parent
      ++ if parentAt? (ds ++ [d]) ds.length = parent then [ds.length] else [] := by
  have hold : (List.range ds.length).filter (fun k => parentAt? (ds ++ [d]) k = parent)
      = belonging ds parent :=
    List.filter_congr fun k hk => by
      rw [parentAt?_concat_of_lt d (List.mem_range.1 hk)]
  rw [belonging, List.length_append, List.length_singleton, List.range_succ, List.filter_append,
    hold, List.filter_cons, List.filter_nil]
  simp only [decide_eq_true_eq]

/-- nothing belongs below what is not declared yet -/
theorem belonging_length : belonging ds (some ds.length) = [] := by
  refine List.eq_nil_iff_forall_not_mem.2 fun k hk => ?_
  have hlt := lt_of_mem_belonging hk
  have hlength := (mem_belonging.1 hk).1
  omega

end

end DocTypes
