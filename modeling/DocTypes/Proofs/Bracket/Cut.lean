import DocTypes.Proofs.Bracket.Partner

/-!
# Where a span is cut

All kinds of brackets count together, and the count never falls below zero.  A span is cut at each
separator that comes when nothing is open.  In a properly nested span that is each separator that
stands outside every bracket.

* `IsCut`                      the places at which a span is cut;
* `segments_eq_cutAt`          the segments are what lies between them;
* `flatten_cutAt`              joined without separators, they are the tokens at the other places;
* `splitTopLevel_intercalate`  joined with separators, they are cut in the same places again;
* `Nested.isCut_iff`           in a nested span, the cuts are the separators in no bracket;
* `split_loses_nothing`        what a splitting keeps, of any tokens and of nested ones.
-/

namespace DocTypes

/-! ## the depth in a nested span -/

namespace Nested
variable {body : List Token}

theorem foldl_depthBehind (h : Nested body) (depth : Nat) :
    body.foldl depthBehind depth = depth := by
  induction h generalizing depth with
  | nil => rfl
  | plain ht _ ih => rw [List.foldl_cons, depthBehind_plain ht, ih]
  | bracket b _ _ ihbody ihrest =>
    rw [List.foldl_cons, List.foldl_append, List.foldl_cons, depthBehind_opener, ihbody,
      depthBehind_closer, Nat.add_sub_cancel, ihrest]

/-- inside a nested span, nothing is closed that was open before -/
theorem le_foldl_take (h : Nested body) (n depth : Nat) :
    depth ≤ (body.take n).foldl depthBehind depth := by
  induction h generalizing n depth with
  | nil => simp
  | plain ht _ ih =>
    cases n with
    | zero => exact Nat.le_refl depth
    | succ n =>
      rw [List.take_succ_cons, List.foldl_cons, depthBehind_plain ht]
      exact ih n depth
  | @bracket b body rest hbody _ ihbody ihrest =>
    cases n with
    | zero => exact Nat.le_refl depth
    | succ n =>
      rw [List.take_succ_cons, List.foldl_cons, depthBehind_opener, List.take_append,
        List.foldl_append]
      cases hn : n - body.length with
      | zero => exact Nat.le_of_succ_le (ihbody n (depth + 1))
      | succ k =>
        have hle : body.length ≤ n := by omega
        rw [List.take_of_length_le hle, hbody.foldl_depthBehind, List.take_succ_cons,
          List.foldl_cons, depthBehind_closer]
        exact ihrest k depth

end Nested

/-! ## the places of the cuts -/

/-- `i` is a place at which a span that begins `depth` brackets deep is cut -/
def IsCut (separator : Token) (depth : Nat) (tokens : List Token) (i : Nat) : Prop :=
  tokens[i]? = some separator ∧ separator.isOpener = false ∧
    (tokens.take i).foldl depthBehind depth = 0

instance (separator : Token) (depth : Nat) (tokens : List Token) (i : Nat) :
    Decidable (IsCut separator depth tokens i) := inferInstanceAs (Decidable (_ ∧ _ ∧ _))

/-- the tokens of a span, each with whether it is cut there -/
def withCuts (cut : Nat → Bool) (tokens : List Token) : List (Token × Bool) :=
  tokens.mapIdx fun i t => (t, cut i)

/-- what lies between the places at which a span is cut -/
def cutAt (cut : Nat → Bool) (tokens : List Token) : List (List Token) :=
  ((withCuts cut tokens).splitOnP Prod.snd).map (·.map Prod.fst)

/-- the tokens at all other places -/
def withoutCuts (cut : Nat → Bool) (tokens : List Token) : List Token :=
  ((withCuts cut tokens).filter (!·.2)).map Prod.fst

section
variable (cut : Nat → Bool) (t : Token) (rest : List Token)

theorem withCuts_cons :
    withCuts cut (t :: rest) = (t, cut 0) :: withCuts (fun i => cut (i + 1)) rest :=
  List.mapIdx_cons

theorem cutAt_cons_of_cut (h : cut 0 = true) :
    cutAt cut (t :: rest) = [] :: cutAt (fun i => cut (i + 1)) rest := by
  rw [cutAt, withCuts_cons, List.splitOnP_cons_eq_if_modifyHead, if_pos h]
  rfl

theorem cutAt_cons (h : cut 0 = false) :
    cutAt cut (t :: rest) = extendSegment t (cutAt (fun i => cut (i + 1)) rest) := by
  rw [cutAt, withCuts_cons, List.splitOnP_cons_eq_if_modifyHead, if_neg (by simp [h]), cutAt]
  cases hsplit : (withCuts (fun i => cut (i + 1)) rest).splitOnP Prod.snd with
  | nil => exact absurd hsplit (List.splitOnP_ne_nil _ _)
  | cons segment more => rfl

end

theorem flatten_extendSegment (t : Token) (more : List (List Token)) :
    (extendSegment t more).flatten = t :: more.flatten := by
  cases more <;> rfl

theorem flatten_cutAt (cut : Nat → Bool) (tokens : List Token) :
    (cutAt cut tokens).flatten = withoutCuts cut tokens := by
  induction tokens generalizing cut with
  | nil => rfl
  | cons t rest ih =>
    rw [withoutCuts, withCuts_cons]
    cases h : cut 0 with
    | true =>
      rw [cutAt_cons_of_cut cut t rest h, List.flatten_cons, ih]
      rfl
    | false =>
      rw [cutAt_cons cut t rest h, flatten_extendSegment, ih]
      rfl

section
variable {separator t : Token} {depth : Nat} {rest : List Token}

theorem isCut_zero :
    IsCut separator depth (t :: rest) 0 ↔ t = separator ∧ t.isOpener = false ∧ depth = 0 := by
  unfold IsCut
  rw [List.getElem?_cons_zero, Option.some.injEq]
  constructor
  · rintro ⟨rfl, h⟩
    exact ⟨rfl, h⟩
  · rintro ⟨rfl, h⟩
    exact ⟨rfl, h⟩

theorem isCut_succ (i : Nat) :
    IsCut separator depth (t :: rest) (i + 1) ↔ IsCut separator (depthBehind depth t) rest i :=
  Iff.rfl

end

theorem segments_eq_cutAt (separator : Token) (depth : Nat) (tokens : List Token) :
    segments separator depth tokens
      = cutAt (fun i => decide (IsCut separator depth tokens i)) tokens := by
  induction tokens generalizing depth with
  | nil => rfl
  | cons t rest ih =>
    by_cases h : t = separator ∧ t.isOpener = false ∧ depth = 0
    · rw [segments_cons_of_cut h, cutAt_cons_of_cut _ t rest (decide_eq_true (isCut_zero.2 h)), ih]
      obtain ⟨-, ho, rfl⟩ := h
      simp only [isCut_succ, depthBehind_zero ho]
    · rw [segments_cons h, cutAt_cons _ t rest (decide_eq_false (mt isCut_zero.1 h)), ih]
      simp only [isCut_succ]

/-! ## joining again -/

/-- the first segment with the others that hold something, joined, are the same segments again -/
theorem segments_intercalate {separator : Token} {depth : Nat} {tokens first : List Token}
    {more : List (List Token)} (h : segments separator depth tokens = first :: more) :
    segments separator depth ([separator].intercalate (first :: more.filter (!·.isEmpty)))
      = first :: more.filter (!·.isEmpty) := by
  induction tokens generalizing depth first more with
  | nil =>
    obtain ⟨rfl, rfl⟩ := List.cons.inj h
    rfl
  | cons t rest ih =>
    obtain ⟨segment, others, hrest⟩ :=
      List.exists_cons_of_ne_nil (segments_ne_nil separator (depthBehind depth t) rest)
    by_cases hcut : t = separator ∧ t.isOpener = false ∧ depth = 0
    · obtain ⟨rfl, ho, rfl⟩ := hcut
      rw [depthBehind_zero ho] at hrest
      rw [segments_cons_of_cut ⟨rfl, ho, rfl⟩, hrest] at h
      obtain ⟨rfl, rfl⟩ := List.cons.inj h
      have hjoined := ih hrest
      cases segment with
      | nil =>
        -- an empty segment behind the cut is left out, and the cut with it
        exact hjoined
      | cons u segment =>
        show segments t 0 (t :: [t].intercalate ((u :: segment) :: others.filter (!·.isEmpty))) = _
        rw [segments_cons_of_cut ⟨rfl, ho, rfl⟩, hjoined]
        rfl
    · rw [segments_cons hcut, hrest] at h
      obtain ⟨rfl, rfl⟩ := List.cons.inj h
      rw [List.intercalate_cons_cons_left, segments_cons hcut, ih hrest]
      rfl

theorem splitTopLevel_intercalate (separator : Token) (tokens : List Token) :
    splitTopLevel separator ([separator].intercalate (splitTopLevel separator tokens))
      = splitTopLevel separator tokens := by
  induction tokens with
  | nil => rfl
  | cons t rest ih =>
    by_cases hcut : t = separator ∧ t.isOpener = false ∧ (0 : Nat) = 0
    · -- the segment before the first cut is empty
      have hrest : splitTopLevel separator (t :: rest) = splitTopLevel separator rest := by
        rw [splitTopLevel, segments_cons_of_cut hcut]
        rfl
      rw [hrest, ih]
    · obtain ⟨segment, more, hsegments⟩ :=
        List.exists_cons_of_ne_nil (segments_ne_nil separator (depthBehind 0 t) rest)
      have hfirst : segments separator 0 (t :: rest) = (t :: segment) :: more := by
        rw [segments_cons hcut, hsegments]
        rfl
      have hsplit : splitTopLevel separator (t :: rest)
          = (t :: segment) :: more.filter (!·.isEmpty) := by
        rw [splitTopLevel, hfirst]
        rfl
      rw [hsplit, splitTopLevel, segments_intercalate hfirst, ← hsplit, splitTopLevel,
        List.filter_filter]
      simp only [Bool.and_self]

/-! ## nested spans -/

/-- a bracket with more tokens in front of it -/
theorem Partners.append_left {tokens : List Token} {f k : Nat} (h : Partners tokens f k)
    (front : List Token) : Partners (front ++ tokens) (f + front.length) (k + front.length) := by
  obtain ⟨b, before, body, after, hbody, rfl, rfl, rfl⟩ := h
  refine ⟨b, front ++ before, body, after, hbody, (List.append_assoc _ _ _).symm, ?_, ?_⟩
  · rw [List.length_append, Nat.add_comm]
  · show before.length + 1 + body.length + front.length = _
    omega

/-- `i` is a place between the two marks of a bracket -/
def Enclosed (tokens : List Token) (i : Nat) : Prop := ∃ f k, Partners tokens f k ∧ f < i ∧ i < k

theorem Enclosed.append_left {tokens : List Token} {i : Nat} (h : Enclosed tokens i)
    (front : List Token) : Enclosed (front ++ tokens) (i + front.length) := by
  obtain ⟨f, k, hfk, hf, hk⟩ := h
  exact ⟨_, _, hfk.append_left front, Nat.add_lt_add_right hf _, Nat.add_lt_add_right hk _⟩

theorem enclosed_of_lt {b : Bracket} {body rest : List Token} (hbody : Nested body) {i : Nat}
    (h : i < body.length) :
    Enclosed (.mark b.opener :: (body ++ .mark b.closer :: rest)) (i + 1) := by
  refine ⟨0, 0 + 1 + body.length, ⟨b, [], body, rest, hbody, rfl, rfl, rfl⟩, Nat.succ_pos i, ?_⟩
  omega

/-- between the marks of a bracket something is open -/
theorem Enclosed.foldl_ne_zero {tokens : List Token} {i : Nat} (h : Enclosed tokens i)
    (depth : Nat) : (tokens.take i).foldl depthBehind depth ≠ 0 := by
  obtain ⟨_, _, ⟨b, front, body, after, hbody, rfl, rfl, rfl⟩, hf, hk⟩ := h
  obtain ⟨n, rfl⟩ := Nat.exists_eq_add_of_lt hf
  have hn : n ≤ body.length := by omega
  have htake : (front ++ .mark b.opener :: (body ++ .mark b.closer :: after)).take
      (front.length + n + 1) = front ++ .mark b.opener :: body.take n := by
    rw [Nat.add_assoc, List.take_length_add_append, List.take_succ_cons,
      List.take_append_of_le_length hn]
  rw [htake, List.foldl_append, List.foldl_cons, depthBehind_opener]
  have hle := hbody.le_foldl_take n (front.foldl depthBehind depth + 1)
  omega

/-- in a nested span, nothing is open before a token that stands in no bracket -/
theorem Nested.enclosed_or_zero {tokens : List Token} (h : Nested tokens) {i : Nat} {t : Token}
    (ht : t.isBracket = false) (hi : tokens[i]? = some t) :
    Enclosed tokens i ∨ (tokens.take i).foldl depthBehind 0 = 0 := by
  induction h generalizing i with
  | nil => cases hi
  | @plain first rest hfirst _ ih =>
    cases i with
    | zero => exact .inr rfl
    | succ i =>
      rw [List.take_succ_cons, List.foldl_cons, depthBehind_plain hfirst]
      exact (ih hi).imp (·.append_left [first]) id
  | @bracket b body rest hbody _ _ ih =>
    have hsplit : Token.mark b.opener :: (body ++ .mark b.closer :: rest)
        = (.mark b.opener :: (body ++ [.mark b.closer])) ++ rest := by simp
    have hlength : (Token.mark b.opener :: (body ++ [.mark b.closer])).length = body.length + 2 := by
      simp
    by_cases hi' : i < body.length + 2
    · cases i with
      | zero => exact .inr rfl
      | succ i =>
        have hne : i ≠ body.length := by
          rintro rfl
          rw [List.getElem?_cons_succ, List.getElem?_append_right (Nat.le_refl _), Nat.sub_self] at hi
          obtain rfl : Token.mark b.closer = t := Option.some.inj hi
          cases b <;> cases ht
        exact .inl (enclosed_of_lt hbody (by omega))
    · obtain ⟨n, rfl⟩ := Nat.exists_eq_add_of_le (Nat.le_of_not_lt hi')
      rw [hsplit, ← hlength] at hi ⊢
      rw [List.getElem?_append_right (Nat.le_add_right _ _), Nat.add_sub_cancel_left] at hi
      rw [List.take_length_add_append, List.foldl_append, (hbody.enclose b).foldl_depthBehind,
        Nat.add_comm]
      exact (ih hi).imp (·.append_left _) id

theorem Nested.isCut_iff {separator : Token} (hs : separator.isBracket = false)
    {tokens : List Token} (h : Nested tokens) (i : Nat) :
    IsCut separator 0 tokens i ↔ tokens[i]? = some separator ∧ ¬Enclosed tokens i := by
  obtain ⟨ho, -⟩ := Bool.or_eq_false_iff.1 hs
  constructor
  · rintro ⟨hi, -, hzero⟩
    exact ⟨hi, fun henclosed => henclosed.foldl_ne_zero 0 hzero⟩
  · rintro ⟨hi, hfree⟩
    exact ⟨hi, ho, (h.enclosed_or_zero hs hi).resolve_left hfree⟩

theorem Nested.of_mem_segments {separator : Token} (hs : separator.isBracket = false)
    {tokens : List Token} (h : Nested tokens) :
    ∀ segment ∈ segments separator 0 tokens, Nested segment := by
  induction h with
  | nil =>
    intro segment hmem
    obtain rfl := List.mem_singleton.1 hmem
    exact .nil
  | @plain t rest ht _ ih =>
    by_cases hts : t = separator
    · subst hts
      rw [segments_separator hs]
      exact List.forall_mem_cons.2 ⟨.nil, ih⟩
    · rw [segments_plain ht (.inl hts), extendSegment_eq]
      exact forall_mem_extendFirstSegment (fun _ => .plain ht) (segments_ne_nil _ _ _) ih
  | @bracket b body rest hbody _ _ ih =>
    rw [segments_bracket b hbody]
    exact forall_mem_extendFirstSegment (fun _ hrest => (hbody.enclose b).append hrest)
      (segments_ne_nil _ _ _) ih

/-- Whatever the tokens and the separator, no segment is empty, the segments are what lies between
the cuts, joined they are the tokens at all other places, and joined by a separator they are split
into the same segments again.  If the tokens are properly nested and the separator is no bracket,
the cuts are the separators that stand in no bracket, and each segment is properly nested. -/
theorem split_loses_nothing (separator : Token) (tokens : List Token) :
    let cut : Nat → Bool := fun i => decide (IsCut separator 0 tokens i)
    let split := splitTopLevel separator tokens
    [] ∉ split ∧
    split = (cutAt cut tokens).filter (!·.isEmpty) ∧
    split.flatten = withoutCuts cut tokens ∧
    splitTopLevel separator ([separator].intercalate split) = split ∧
    (Nested tokens → separator.isBracket = false →
      (∀ i, IsCut separator 0 tokens i
        ↔ tokens[i]? = some separator ∧ ¬∃ f k, Partners tokens f k ∧ f < i ∧ i < k) ∧
      ∀ segment ∈ split, Nested segment) := by
  intro cut split
  have hsplit : split = (cutAt cut tokens).filter (!·.isEmpty) := by
    show splitTopLevel separator tokens = _
    rw [splitTopLevel, segments_eq_cutAt]
  refine ⟨by simp [hsplit], hsplit, ?_, splitTopLevel_intercalate separator tokens, ?_⟩
  · rw [hsplit, List.flatten_filter_not_isEmpty, flatten_cutAt]
  · intro hnested hs
    refine ⟨hnested.isCut_iff hs, ?_⟩
    intro segment hmem
    exact hnested.of_mem_segments hs segment (List.mem_filter.1 hmem).1

/-- a nested span with commas inside and outside its brackets, three of them side by side -/
theorem split_loses_nothing_of_commas :
    let tokens : List Token := [.mark .comma, .word "Map.", .mark .lt, .word "a", .mark .comma,
      .word "b", .mark .gt, .mark .comma, .mark .comma, .mark .comma, .mark .lparen, .mark .comma,
      .mark .rparen]
    Nested tokens ∧ (Token.mark .comma).isBracket = false ∧
      (IsCut (.mark .comma) 0 tokens 8 ∧ tokens[8]? = some (.mark .comma) ∧
        ¬∃ f k, Partners tokens f k ∧ f < 8 ∧ 8 < k) ∧
      (¬IsCut (.mark .comma) 0 tokens 4 ∧ ∃ f k, Partners tokens f k ∧ f < 4 ∧ 4 < k) ∧
      ∀ segment ∈ splitTopLevel (.mark .comma) tokens, Nested segment := by
  intro tokens
  have hnested : Nested tokens := by decide
  obtain ⟨-, -, -, -, hcuts⟩ := split_loses_nothing (.mark .comma) tokens
  obtain ⟨hiff, hsegments⟩ := hcuts hnested rfl
  have hcut : IsCut (.mark .comma) 0 tokens 8 := by decide
  have hinside : ¬IsCut (.mark .comma) 0 tokens 4 := by decide
  refine ⟨hnested, rfl, ⟨hcut, (hiff 8).1 hcut⟩, ⟨hinside, ?_⟩, hsegments⟩
  by_contra hfree
  exact hinside ((hiff 4).2 ⟨rfl, hfree⟩)

end DocTypes
