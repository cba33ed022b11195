import DocTypes.TsType

/-!
# Equality of declared types

Two types are equal if they have the same shape and equal parts in the same order; the optional
names of an object type are compared as sets.
-/

namespace DocTypes.TsType

mutual
def same : TsType → TsType → Bool
  | keyword k, keyword l => k == l
  | this, this => true
  | reference n as, reference m bs => n == m && sameAll as bs
  | array a, array b => same a b
  | union as, union bs => sameAll as bs
  | function ps r x, function qs s y => sameParams ps qs && same r s && sameRest x y
  | object ps o i l d, object qs o' j l' d' =>
    sameProperties ps qs && o == o' && sameIndex i j && l == l' && d == d'
  | query t, query u => t == u
  | imported p q as, imported p' q' bs => p == p' && q == q' && sameAll as bs
  | _, _ => false
def sameAll : List TsType → List TsType → Bool
  | [], [] => true
  | a :: as, b :: bs => same a b && sameAll as bs
  | _, _ => false
def sameParams : List (Param TsType) → List (Param TsType) → Bool
  | [], [] => true
  | ⟨⟨n, a⟩, o⟩ :: ps, ⟨⟨m, b⟩, o'⟩ :: qs => n == m && same a b && o == o' && sameParams ps qs
  | _, _ => false
def sameProperties : List (Named TsType) → List (Named TsType) → Bool
  | [], [] => true
  | ⟨n, a⟩ :: ps, ⟨m, b⟩ :: qs => n == m && same a b && sameProperties ps qs
  | _, _ => false
def sameRest : Option (Named TsType) → Option (Named TsType) → Bool
  | none, none => true
  | some ⟨n, a⟩, some ⟨m, b⟩ => n == m && same a b
  | _, _ => false
def sameIndex : Option (TsType × TsType) → Option (TsType × TsType) → Bool
  | none, none => true
  | some (k, v), some (l, w) => same k l && same v w
  | _, _ => false
end

mutual
theorem same_iff : (a b : TsType) → (same a b = true ↔ a = b)
  | keyword _, b => by cases b <;> simp [same]
  | this, b => by cases b <;> simp [same]
  | reference _ as, b => by cases b <;> simp [same, sameAll_iff as]
  | array a, b => by cases b <;> simp [same, same_iff a]
  | union as, b => by cases b <;> simp [same, sameAll_iff as]
  | function ps r x, b => by
    cases b <;> simp [same, sameParams_iff ps, same_iff r, sameRest_iff x, and_assoc]
  | object ps _ i _ _, b => by
    cases b <;> simp [same, sameProperties_iff ps, sameIndex_iff i, and_assoc]
  | query _, b => by cases b <;> simp [same]
  | imported _ _ as, b => by cases b <;> simp [same, sameAll_iff as, and_assoc]
theorem sameAll_iff : (as bs : List TsType) → (sameAll as bs = true ↔ as = bs)
  | [], bs => by cases bs <;> simp [sameAll]
  | a :: as, bs => by cases bs <;> simp [sameAll, same_iff a, sameAll_iff as]
theorem sameParams_iff :
    (ps qs : List (Param TsType)) → (sameParams ps qs = true ↔ ps = qs)
  | [], qs => by cases qs <;> simp [sameParams]
  | ⟨⟨n, a⟩, o⟩ :: ps, qs => by
    rcases qs with _ | ⟨⟨⟨m, b⟩, o'⟩, qs⟩ <;>
      simp [sameParams, same_iff a, sameParams_iff ps, and_assoc]
theorem sameProperties_iff :
    (ps qs : List (Named TsType)) → (sameProperties ps qs = true ↔ ps = qs)
  | [], qs => by cases qs <;> simp [sameProperties]
  | ⟨n, a⟩ :: ps, qs => by
    rcases qs with _ | ⟨⟨m, b⟩, qs⟩ <;>
      simp [sameProperties, same_iff a, sameProperties_iff ps, and_assoc]
theorem sameRest_iff : (x y : Option (Named TsType)) → (sameRest x y = true ↔ x = y)
  | none, y => by cases y <;> simp [sameRest]
  | some ⟨n, a⟩, y => by
    rcases y with _ | ⟨m, b⟩ <;> simp [sameRest, same_iff a]
theorem sameIndex_iff : (x y : Option (TsType × TsType)) → (sameIndex x y = true ↔ x = y)
  | none, y => by cases y <;> simp [sameIndex]
  | some (k, v), y => by
    rcases y with _ | ⟨l, w⟩ <;> simp [sameIndex, same_iff k, same_iff v]
end

instance : DecidableEq TsType := fun a b => decidable_of_iff _ (same_iff a b)

end DocTypes.TsType
