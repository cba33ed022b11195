import DocTypes.Proofs.Bracket.Nested
import Mathlib.Order.Bounds.Basic

/-!
# The partner of an opening token

The partner of the first opening token is found by a count of two tokens that takes no notice of any
other.  It is the first place behind the opening token at which as many closing as opening tokens
have been met.  In a properly nested span that is the other mark of the same bracket.

* `FirstWhere`              the first place at which the tokens so far have a property;
* `closing?_iff_firstWhere` where the count of open brackets comes back to zero;
* `FirstFrom`, `EvenFrom`   the first opening token, and the place by which the counts are even;
* `matchIndex?_eq_some_iff` which is the one that is found;
* `Partners`                the places of the two marks of a bracket;
* `Nested.exists_partner`   in a nested span each opening mark has a partner;
* `partner_isLeast`         what is found for an opening token, by counts and by brackets.
-/

namespace DocTypes

/-! ## the first place -/

/-- the least of some numbers that are `n` at least, counted from `n` on -/
theorem isLeast_add {P : Nat → Prop} {n i : Nat} (hn : ∀ k, P k → n ≤ k) :
    IsLeast {k | P k} i ↔ ∃ j, IsLeast {k | P (k + n)} j ∧ j + n = i := by
  have hback : ∀ k, P k → P (k - n + n) := by
    intro k hk
    rwa [Nat.sub_add_cancel (hn k hk)]
  constructor
  · rintro ⟨hi, hleast⟩
    refine ⟨i - n, ⟨hback i hi, ?_⟩, Nat.sub_add_cancel (hn i hi)⟩
    intro k hk
    have hle : i ≤ k + n := hleast hk
    omega
  · rintro ⟨j, ⟨hj, hleast⟩, rfl⟩
    refine ⟨hj, ?_⟩
    intro k hk
    have hle : j ≤ k - n := hleast (hback k hk)
    have hnk := hn k hk
    omega

/-- the first place of a span at which the tokens up to there, and the one there, have a property -/
def FirstWhere (P : List Token → Prop) (ts : List Token) (i : Nat) : Prop :=
  IsLeast {k | k < ts.length ∧ P (ts.take (k + 1))} i

section
variable {P : List Token → Prop} {t : Token} {rest : List Token} {i : Nat}

theorem not_firstWhere_nil : ¬FirstWhere P [] i := fun h => Nat.not_lt_zero i h.1.1

theorem firstWhere_cons_of_pos (h : P [t]) : FirstWhere P (t :: rest) i ↔ i = 0 := by
  have hzero : FirstWhere P (t :: rest) 0 := by
    refine ⟨⟨Nat.succ_pos _, h⟩, ?_⟩
    intro k _
    exact Nat.zero_le k
  constructor
  · intro hi
    exact hi.unique hzero
  · rintro rfl
    exact hzero

theorem firstWhere_cons_of_neg (h : ¬P [t]) :
    FirstWhere P (t :: rest) i ↔ ∃ j, FirstWhere (fun p => P (t :: p)) rest j ∧ j + 1 = i := by
  have hone : ∀ k, k < (t :: rest).length ∧ P ((t :: rest).take (k + 1)) → 1 ≤ k := by
    intro k hk
    cases k with
    | zero => exact absurd hk.2 h
    | succ k => exact Nat.succ_pos k
  have hset (k : Nat) : k + 1 < (t :: rest).length ∧ P ((t :: rest).take (k + 1 + 1))
      ↔ k < rest.length ∧ P (t :: rest.take (k + 1)) := by
    rw [List.length_cons, Nat.succ_lt_succ_iff, List.take_succ_cons]
  unfold FirstWhere
  rw [isLeast_add hone]
  simp only [hset]

end

/-! ## counting -/

section
variable {o c : Token} (hoc : o ≠ c)
include hoc

/-- With some brackets open, the count comes back to zero at the first place by which that many more
closing than opening tokens have been met. -/
theorem closing?_iff_firstWhere {depth : Nat} {ts : List Token} {i : Nat} :
    closing? o c (depth + 1) ts = some i
      ↔ FirstWhere (fun p => p.count c = p.count o + (depth + 1)) ts i := by
  -- the first token changes the depth, and the difference asked of the rest with it
  induction ts generalizing depth i with
  | nil => simp [closing?_nil, not_firstWhere_nil]
  | cons t rest ih =>
    by_cases ho : t = o
    · subst ho
      have hne : ¬[t].count c = [t].count t + (depth + 1) := by simp [hoc]
      have hshift (p : List Token) : (t :: p).count c = (t :: p).count t + (depth + 1)
          ↔ p.count c = p.count t + (depth + 1 + 1) := by
        rw [List.count_cons_of_ne hoc, List.count_cons_self]
        omega
      rw [closing?_cons_opening, Option.map_eq_some_iff, firstWhere_cons_of_neg hne]
      simp only [ih, hshift]
    by_cases hc : t = c
    · subst hc
      cases depth with
      | zero =>
        have hpos : [t].count t = [t].count o + (0 + 1) := by simp [ho]
        rw [closing?_cons_last rest hoc, firstWhere_cons_of_pos hpos]
        simp [eq_comm]
      | succ depth =>
        have hne : ¬[t].count t = [t].count o + (depth + 1 + 1) := by simp [ho]
        have hshift (p : List Token) : (t :: p).count t = (t :: p).count o + (depth + 1 + 1)
            ↔ p.count t = p.count o + (depth + 1) := by
          rw [List.count_cons_of_ne ho, List.count_cons_self]
          omega
        rw [closing?_cons_closing depth rest hoc, Option.map_eq_some_iff,
          firstWhere_cons_of_neg hne]
        simp only [ih, hshift]
    have hne : ¬[t].count c = [t].count o + (depth + 1) := by simp [ho, hc]
    have hshift (p : List Token) : (t :: p).count c = (t :: p).count o + (depth + 1)
        ↔ p.count c = p.count o + (depth + 1) := by
      rw [List.count_cons_of_ne ho, List.count_cons_of_ne hc]
    rw [closing?_cons_of_ne _ rest ho hc, Option.map_eq_some_iff, firstWhere_cons_of_neg hne]
    simp only [ih, hshift]

end

/-! ## the first opening token -/

/-- the first place of a span, from `start` on, that holds `o` -/
def FirstFrom (o : Token) (tokens : List Token) (start f : Nat) : Prop :=
  IsLeast {k | start ≤ k ∧ tokens[k]? = some o} f

/-- the first place behind `f` by which, from `f` on, as many `c` as `o` have been met -/
def EvenFrom (o c : Token) (tokens : List Token) (f i : Nat) : Prop :=
  IsLeast {k | f < k ∧ k < tokens.length ∧
    (tokens.extract f (k + 1)).count c = (tokens.extract f (k + 1)).count o} i

section
variable {o c : Token} {tokens front rest : List Token} {start : Nat}

/-- what stands in front of the first opening token is passed over -/
theorem closing?_append_of_not_mem (hfront : o ∉ front) :
    closing? o c 0 (front ++ o :: rest)
      = (closing? o c 1 rest).map (· + (front.length + 1)) := by
  induction front with
  | nil => exact closing?_cons_opening 0 rest
  | cons t front ih =>
    have ht : t ≠ o := (List.ne_of_not_mem_cons hfront).symm
    rw [List.cons_append, closing?_cons_zero _ ht, ih (List.not_mem_of_not_mem_cons hfront),
      Option.map_map]
    rfl

theorem closing?_of_not_mem {ts : List Token} (h : o ∉ ts) : closing? o c 0 ts = none := by
  induction ts with
  | nil => rfl
  | cons t ts ih =>
    have ht : t ≠ o := (List.ne_of_not_mem_cons h).symm
    rw [closing?_cons_zero _ ht, ih (List.not_mem_of_not_mem_cons h)]
    rfl

theorem firstFrom_of_drop (hdrop : tokens.drop start = front ++ o :: rest) (hfront : o ∉ front) :
    FirstFrom o tokens start (start + front.length) := by
  have hget (k : Nat) : tokens[start + k]? = (front ++ o :: rest)[k]? := by
    rw [← hdrop, List.getElem?_drop]
  refine ⟨⟨Nat.le_add_right _ _, by simp [hget]⟩, ?_⟩
  rintro k ⟨hk, hopening⟩
  obtain ⟨j, rfl⟩ := Nat.exists_eq_add_of_le hk
  rw [hget] at hopening
  by_contra hlt
  have hj : j < front.length := by omega
  rw [List.getElem?_append_left hj] at hopening
  exact hfront (List.mem_of_getElem? hopening)

/-- behind an opening token, that is where the count of open brackets comes back to zero -/
theorem evenFrom_iff (hoc : o ≠ c) {f i : Nat} (hdrop : tokens.drop f = o :: rest) :
    EvenFrom o c tokens f i ↔ ∃ j, closing? o c 1 rest = some j ∧ j + (f + 1) = i := by
  have hlength := length_of_drop hdrop
  have hset (k : Nat) : (f < k + (f + 1) ∧ k + (f + 1) < tokens.length ∧
        (tokens.extract f (k + (f + 1) + 1)).count c = (tokens.extract f (k + (f + 1) + 1)).count o)
      ↔ k < rest.length ∧ (rest.take (k + 1)).count c = (rest.take (k + 1)).count o + (0 + 1) := by
    have hextract : tokens.extract f (k + (f + 1) + 1) = o :: rest.take (k + 1) := by
      have hspan : k + (f + 1) + 1 - f = k + 1 + 1 := by omega
      rw [List.extract_eq_take_drop, hdrop, hspan, List.take_succ_cons]
    rw [hextract, List.count_cons_of_ne hoc, List.count_cons_self, hlength]
    omega
  unfold EvenFrom
  rw [isLeast_add (n := f + 1) fun k hk => hk.1]
  simp only [hset, closing?_iff_firstWhere hoc]
  rfl

theorem matchIndex?_of_opening (hdrop : tokens.drop start = front ++ o :: rest)
    (hfront : o ∉ front) :
    matchIndex? tokens start o c
      = (closing? o c 1 rest).map (· + (start + front.length + 1)) := by
  rw [matchIndex?, hdrop, closing?_append_of_not_mem hfront, Option.map_map]
  refine Option.map_congr fun n _ => ?_
  show n + (front.length + 1) + start = _
  omega

theorem not_firstFrom (hmem : o ∉ tokens.drop start) (f : Nat) : ¬FirstFrom o tokens start f := by
  rintro ⟨⟨hle, hf⟩, -⟩
  apply hmem
  obtain ⟨j, rfl⟩ := Nat.exists_eq_add_of_le hle
  rw [← List.getElem?_drop] at hf
  exact List.mem_of_getElem? hf

theorem matchIndex?_eq_some_iff (hoc : o ≠ c) {i : Nat} :
    matchIndex? tokens start o c = some i
      ↔ ∃ f, FirstFrom o tokens start f ∧ EvenFrom o c tokens f i := by
  by_cases hmem : o ∈ tokens.drop start
  · obtain ⟨front, rest, hdrop, hfront⟩ := List.eq_append_cons_of_mem hmem
    have hfirst : FirstFrom o tokens start (start + front.length) := firstFrom_of_drop hdrop hfront
    have hbehind : tokens.drop (start + front.length) = o :: rest := by
      rw [← List.drop_drop, hdrop, List.drop_left]
    rw [matchIndex?_of_opening hdrop hfront, Option.map_eq_some_iff]
    show (∃ j, closing? o c 1 rest = some j ∧ j + (start + front.length + 1) = i) ↔ _
    rw [← evenFrom_iff hoc hbehind]
    constructor
    · intro hi
      exact ⟨_, hfirst, hi⟩
    · rintro ⟨f, hf, hi⟩
      rwa [hfirst.unique hf]
  · rw [matchIndex?, closing?_of_not_mem hmem, Option.map_none]
    refine iff_of_false (Option.some_ne_none i).symm ?_
    rintro ⟨f, hf, -⟩
    exact not_firstFrom hmem f hf

theorem matchIndex?_eq_none_iff (hoc : o ≠ c) :
    matchIndex? tokens start o c = none ↔ (¬∃ f, FirstFrom o tokens start f) ∨
      ∃ f, FirstFrom o tokens start f ∧ ¬∃ i, EvenFrom o c tokens f i := by
  simp only [Option.eq_none_iff_forall_ne_some, ne_eq, matchIndex?_eq_some_iff hoc]
  constructor
  · intro hnone
    by_cases h : ∃ f, FirstFrom o tokens start f
    · obtain ⟨f, hf⟩ := h
      refine .inr ⟨f, hf, ?_⟩
      rintro ⟨i, hi⟩
      exact hnone i ⟨f, hf, hi⟩
    · exact .inl h
  · rintro (hnone | ⟨f, hf, hnone⟩) i ⟨f', hf', hi⟩
    · exact hnone ⟨f', hf'⟩
    · obtain rfl := hf.unique hf'
      exact hnone ⟨i, hi⟩

end

/-! ## the marks of a bracket -/

/-- `f` and `i` are the places of two marks of one kind with a nested span between them -/
def Partners (tokens : List Token) (f i : Nat) : Prop :=
  ∃ (b : Bracket) (front body after : List Token), Nested body ∧
    tokens = front ++ .mark b.opener :: (body ++ .mark b.closer :: after) ∧
    f = front.length ∧ i = f + 1 + body.length

/-- what is left of a span closes the brackets that are open there -/
theorem exists_closes_of_append {front rest : List Token} {stack : List Bracket}
    (h : closes stack (front ++ rest) = true) : ∃ below, closes below rest = true := by
  induction front generalizing stack with
  | nil => exact ⟨stack, h⟩
  | cons t front ih =>
    rw [List.cons_append] at h
    unfold closes at h
    split at h
    · exact ih h
    · exact ih h
    · exact ih (Bool.and_eq_true_iff.1 h).2
    · cases h

/-- in a nested span, each opening mark has a partner -/
theorem Nested.exists_partner {tokens : List Token} (h : Nested tokens) {b : Bracket} {f : Nat}
    (hf : tokens[f]? = some (.mark b.opener)) : ∃ i, Partners tokens f i := by
  obtain ⟨hlt, hmark⟩ := List.getElem?_eq_some_iff.1 hf
  have htokens : tokens = tokens.take f ++ .mark b.opener :: tokens.drop (f + 1) := by
    rw [← hmark, List.getElem_cons_drop, List.take_append_drop]
  have hcloses := nested_iff_closes.1 h
  rw [htokens] at hcloses
  obtain ⟨stack, hstack⟩ := exists_closes_of_append hcloses
  rw [closes_opener] at hstack
  obtain ⟨body, after, hrest, hbody, -⟩ := nestedBelow_of_closes hstack
  rw [hrest] at htokens
  exact ⟨_, b, tokens.take f, body, after, hbody, htokens,
    (List.length_take_of_le (Nat.le_of_lt hlt)).symm, rfl⟩

/-- the partner of a mark is found from its place on -/
theorem matchIndex?_of_partners {tokens : List Token} {b : Bracket} {f i : Nat}
    (hf : tokens[f]? = some (.mark b.opener)) (h : Partners tokens f i) :
    matchIndex? tokens f (.mark b.opener) (.mark b.closer) = some i := by
  obtain ⟨k, front, body, after, hbody, rfl, rfl, rfl⟩ := h
  have hdrop : (front ++ .mark k.opener :: (body ++ .mark k.closer :: after)).drop front.length
      = .mark k.opener :: (body ++ .mark k.closer :: after) := List.drop_left
  rw [List.getElem?_append_right (Nat.le_refl _), Nat.sub_self] at hf
  have hkind : Token.mark k.opener = .mark b.opener := Option.some.inj hf
  obtain rfl : k = b := by
    cases k <;> cases b <;> first | rfl | cases hkind
  rw [k.matchIndex?_of_drop hdrop, k.interior?_of_nested hbody, Option.map_some, Nat.add_comm]

/-- From a place on, the partner of the first opening token is the first place behind it by which as
many closing as opening tokens have been met; there is none if there is no such token or no such
place.  In a nested span, what is found for an opening mark from its own place on is the place of
the other mark of its bracket. -/
theorem partner_isLeast (tokens : List Token) :
    (∀ start o c, o ≠ c →
      (∀ i, matchIndex? tokens start o c = some i
        ↔ ∃ f, FirstFrom o tokens start f ∧ EvenFrom o c tokens f i) ∧
      (matchIndex? tokens start o c = none
        ↔ (¬∃ f, FirstFrom o tokens start f) ∨
          ∃ f, FirstFrom o tokens start f ∧ ¬∃ i, EvenFrom o c tokens f i)) ∧
    (Nested tokens → ∀ (b : Bracket) (f : Nat), tokens[f]? = some (.mark b.opener) →
      ∃ i, matchIndex? tokens f (.mark b.opener) (.mark b.closer) = some i ∧
        ∀ k, Partners tokens f k ↔ k = i) := by
  constructor
  · intro start o c hoc
    exact ⟨fun i => matchIndex?_eq_some_iff hoc, matchIndex?_eq_none_iff hoc⟩
  · intro hnested b f hf
    obtain ⟨i, hi⟩ := hnested.exists_partner hf
    have hfound := matchIndex?_of_partners hf hi
    refine ⟨i, hfound, ?_⟩
    intro k
    constructor
    · intro hk
      exact Option.some.inj ((matchIndex?_of_partners hf hk).symm.trans hfound)
    · rintro rfl
      exact hi

/-- brackets of three kinds behind marks that close nothing; crossing ones, of which one kind is
found across the other; and one that is not closed -/
theorem partner_isLeast_of_kinds :
    let tokens : List Token := [.mark .lbrace, .word "k", .mark .colon, .word "a", .mark .lt,
      .mark .lparen, .mark .rparen, .mark .gt, .mark .rbrace]
    let crossed : List Token := [.mark .rparen, .mark .lparen, .mark .lt, .mark .rparen, .mark .gt]
    Nested tokens ∧ tokens[4]? = some (.mark Bracket.angle.opener) ∧
      (∃ i, matchIndex? tokens 4 (.mark .lt) (.mark .gt) = some i ∧
        ∀ k, Partners tokens 4 k ↔ k = i) ∧
      ((Token.mark .lparen : Token) ≠ .mark .rparen ∧
        ∃ f, FirstFrom (.mark .lparen) crossed 0 f ∧
          EvenFrom (.mark .lparen) (.mark .rparen) crossed f 3) ∧
      ((Token.mark .lt : Token) ≠ .mark .rparen ∧
        ((¬∃ f, FirstFrom (.mark .lt) crossed 3 f) ∨
          ∃ f, FirstFrom (.mark .lt) crossed 3 f ∧
            ¬∃ i, EvenFrom (.mark .lt) (.mark .rparen) crossed f i)) := by
  intro tokens crossed
  have hparen : (Token.mark .lparen : Token) ≠ .mark .rparen := by decide
  have hlt : (Token.mark .lt : Token) ≠ .mark .rparen := by decide
  refine ⟨by decide, rfl, (partner_isLeast tokens).2 (by decide) .angle 4 rfl, ⟨hparen, ?_⟩,
    hlt, ?_⟩
  · exact (((partner_isLeast crossed).1 0 _ _ hparen).1 3).1 (by decide)
  · exact (((partner_isLeast crossed).1 3 _ _ hlt).2).1 (by decide)

end DocTypes
