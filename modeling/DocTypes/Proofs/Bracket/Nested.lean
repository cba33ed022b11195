import DocTypes.Bracket.Match
import DocTypes.Bracket.Split

/-!
# Proper nesting

A span is properly nested if each bracket that it opens is closed by a mark of its own kind, the
last opened first, and if no closing mark stands alone.  On such spans two scans that know less
agree with the nesting: the one that counts a single kind and passes over the others, and the one
that counts all kinds together.

* `Nested`                        properly nested spans, cut at their outermost brackets;
* `closes`                        the same by a stack of open brackets (`nested_iff_closes`);
* `Bracket.interior?_of_nested`   the interior of a bracket is found although other kinds are
                                  passed over;
* `depthBehind`, `segments_cons`  the segments of a span by its first token;
* `segments_bracket`              a bracket is never cut, whatever is between its marks;
* `intercalate_segments`          the segments of a span, joined, are the span.
-/

namespace DocTypes

def Token.isBracket (t : Token) : Bool := t.isOpener || t.isCloser

/-- the kind of bracket that a token opens -/
def Token.opened? : Token → Option Bracket
  | .mark .lt => some .angle
  | .mark .lparen => some .paren
  | .mark .lbrace => some .brace
  | _ => none

/-- the kind of bracket that a token closes -/
def Token.closed? : Token → Option Bracket
  | .mark .gt => some .angle
  | .mark .rparen => some .paren
  | .mark .rbrace => some .brace
  | _ => none

theorem Token.opened?_eq_some {t : Token} {b : Bracket} :
    t.opened? = some b ↔ t = .mark b.opener := by
  cases b <;> rcases t with m | w <;> try cases m
  all_goals simp [Token.opened?, Bracket.opener]

theorem Token.closed?_eq_some {t : Token} {b : Bracket} :
    t.closed? = some b ↔ t = .mark b.closer := by
  cases b <;> rcases t with m | w <;> try cases m
  all_goals simp [Token.closed?, Bracket.closer]

theorem Token.isBracket_eq_false {t : Token} :
    t.isBracket = false ↔ t.opened? = none ∧ t.closed? = none := by
  rcases t with m | w <;> try cases m
  all_goals simp [Token.isBracket, Token.isOpener, Token.isCloser, Mark.isOpener, Mark.isCloser,
    Token.opened?, Token.closed?]

theorem Bracket.opening_ne_closing (b : Bracket) : Token.mark b.opener ≠ .mark b.closer := by
  cases b <;> decide

theorem Bracket.opened?_closer (b : Bracket) : (Token.mark b.closer).opened? = none := by
  cases b <;> rfl

theorem Bracket.closed?_opener (b : Bracket) : (Token.mark b.opener).closed? = none := by
  cases b <;> rfl

/-! ## nested spans -/

inductive Nested : List Token → Prop where
  | nil : Nested []
  | plain {t : Token} {rest : List Token} (ht : t.isBracket = false) (hrest : Nested rest) :
    Nested (t :: rest)
  | bracket (b : Bracket) {body rest : List Token} (hbody : Nested body) (hrest : Nested rest) :
    Nested (.mark b.opener :: (body ++ .mark b.closer :: rest))

theorem Nested.append {a b : List Token} (ha : Nested a) (hb : Nested b) : Nested (a ++ b) := by
  induction ha with
  | nil => exact hb
  | plain ht _ ih => exact .plain ht ih
  | bracket k hbody _ _ ih =>
    rw [List.cons_append, List.append_assoc, List.cons_append]
    exact .bracket k hbody ih

theorem Nested.enclose (b : Bracket) {body : List Token} (h : Nested body) :
    Nested (.mark b.opener :: (body ++ [.mark b.closer])) := .bracket b h .nil

theorem Nested.word (w : String) {rest : List Token} (h : Nested rest) :
    Nested (.word w :: rest) := .plain rfl h

/-- what holds of the empty span, and of two spans one after the other if it holds of both -/
structure Joins (P : List Token → Prop) : Prop where
  nil : P []
  append {a b : List Token} (ha : P a) (hb : P b) : P (a ++ b)

theorem joins_nested : Joins Nested := ⟨.nil, .append⟩

theorem Joins.intercalate {P : List Token → Prop} (hP : Joins P) {separator : List Token}
    (hs : P separator) {spans : List (List Token)} (h : ∀ span ∈ spans, P span) :
    P (separator.intercalate spans) := by
  induction spans with
  | nil => exact hP.nil
  | cons span spans ih =>
    obtain ⟨hspan, hmore⟩ := List.forall_mem_cons.1 h
    cases spans with
    | nil => rwa [List.intercalate_singleton]
    | cons next spans =>
      rw [List.intercalate_cons_cons]
      exact hP.append (hP.append hspan hs) (ih hmore)

/-! ## by a stack -/

/-- whether a span closes the brackets of a stack, the last opened first, and all that it opens
itself -/
def closes : List Bracket → List Token → Bool
  | stack, [] => stack.isEmpty
  | stack, t :: rest =>
    match t.opened?, t.closed?, stack with
    | some b, _, _ => closes (b :: stack) rest
    | none, none, _ => closes stack rest
    | none, some b, top :: below => b == top && closes below rest
    | none, some _, [] => false

theorem closes_opener (b : Bracket) (stack : List Bracket) (rest : List Token) :
    closes stack (.mark b.opener :: rest) = closes (b :: stack) rest := by
  simp only [closes, Token.opened?_eq_some.2 rfl]

theorem closes_closer (b : Bracket) (stack : List Bracket) (rest : List Token) :
    closes (b :: stack) (.mark b.closer :: rest) = closes stack rest := by
  simp only [closes, Bracket.opened?_closer, Token.closed?_eq_some.2 rfl, beq_self_eq_true,
    Bool.true_and]

theorem closes_plain {t : Token} (ht : t.isBracket = false) (stack : List Bracket)
    (rest : List Token) : closes stack (t :: rest) = closes stack rest := by
  obtain ⟨ho, hc⟩ := Token.isBracket_eq_false.1 ht
  simp only [closes, ho, hc]

theorem closes_append_of_nested {body : List Token} (h : Nested body) (stack : List Bracket)
    (rest : List Token) : closes stack (body ++ rest) = closes stack rest := by
  induction h generalizing stack rest with
  | nil => rfl
  | plain ht _ ih => rw [List.cons_append, closes_plain ht, ih]
  | bracket b _ _ ihbody ihrest =>
    rw [List.cons_append, List.append_assoc, List.cons_append, closes_opener, ihbody,
      closes_closer, ihrest]

/-- a span that closes the brackets of a stack: a nested span before each of the closing marks, and
one at the end -/
def NestedBelow : List Bracket → List Token → Prop
  | [], ts => Nested ts
  | b :: stack, ts =>
    ∃ body rest, ts = body ++ .mark b.closer :: rest ∧ Nested body ∧ NestedBelow stack rest

theorem NestedBelow.cons {front : List Token} (hfront : Nested front) :
    ∀ {stack : List Bracket} {ts : List Token}, NestedBelow stack ts →
      NestedBelow stack (front ++ ts)
  | [], _, h => hfront.append h
  | _ :: _, _, ⟨body, rest, hts, hbody, hrest⟩ =>
    ⟨front ++ body, rest, by rw [hts, List.append_assoc], hfront.append hbody, hrest⟩

theorem nestedBelow_of_closes {stack : List Bracket} {ts : List Token}
    (h : closes stack ts = true) : NestedBelow stack ts := by
  induction ts generalizing stack with
  | nil =>
    cases stack with
    | nil => exact .nil
    | cons b stack => exact absurd h (by simp [closes])
  | cons t rest ih =>
    cases ho : t.opened? with
    | some b =>
      obtain rfl := Token.opened?_eq_some.1 ho
      rw [closes_opener] at h
      obtain ⟨body, after, rfl, hbody, hafter⟩ := ih h
      have := NestedBelow.cons (hbody.enclose b) hafter
      rwa [List.cons_append, List.append_assoc, List.singleton_append] at this
    | none =>
      cases hc : t.closed? with
      | none =>
        have ht := Token.isBracket_eq_false.2 ⟨ho, hc⟩
        rw [closes_plain ht] at h
        exact NestedBelow.cons (.plain ht .nil) (ih h)
      | some b =>
        cases stack with
        | nil => simp [closes, ho, hc] at h
        | cons top below =>
          simp only [closes, ho, hc, Bool.and_eq_true, beq_iff_eq] at h
          obtain ⟨rfl, hrest⟩ := h
          exact ⟨[], rest, by rw [Token.closed?_eq_some.1 hc, List.nil_append], .nil, ih hrest⟩

theorem nested_iff_closes {ts : List Token} : Nested ts ↔ closes [] ts = true := by
  constructor
  · intro h
    have := closes_append_of_nested h [] []
    rwa [List.append_nil] at this
  · exact nestedBelow_of_closes

instance : DecidablePred Nested := fun _ => decidable_of_iff _ nested_iff_closes.symm

/-! ## places -/

section
variable {tokens rest : List Token} {t : Token} {j : Nat} (hdrop : tokens.drop j = t :: rest)
include hdrop

theorem drop_succ_of_drop :
    tokens.drop (j + 1) = rest := by rw [← List.drop_drop, hdrop, List.drop_succ_cons, List.drop_zero]

theorem getElem?_of_drop : tokens[j]? = some t := by
  rw [← List.head?_drop, hdrop, List.head?_cons]

theorem lt_length_of_drop : j < tokens.length :=
  (List.getElem?_eq_some_iff.1 (getElem?_of_drop hdrop)).1

theorem length_of_drop : tokens.length = j + 1 + rest.length := by
  have hlength := congrArg List.length hdrop
  rw [List.length_drop, List.length_cons] at hlength
  omega

end

/-! ## partners of opening marks -/

section
variable (b : Bracket) (depth : Nat) (rest : List Token)

theorem closing?_opener :
    closing? (.mark b.opener) (.mark b.closer) depth (.mark b.opener :: rest)
      = (closing? (.mark b.opener) (.mark b.closer) (depth + 1) rest).map (· + 1) :=
  closing?_cons_opening depth rest

theorem closing?_closer_one :
    closing? (.mark b.opener) (.mark b.closer) 1 (.mark b.closer :: rest) = some 0 :=
  closing?_cons_last rest b.opening_ne_closing

theorem closing?_closer :
    closing? (.mark b.opener) (.mark b.closer) (depth + 2) (.mark b.closer :: rest)
      = (closing? (.mark b.opener) (.mark b.closer) (depth + 1) rest).map (· + 1) :=
  closing?_cons_closing depth rest b.opening_ne_closing

theorem closing?_other {t : Token} (ho : t.opened? ≠ some b) (hc : t.closed? ≠ some b) :
    closing? (.mark b.opener) (.mark b.closer) depth (t :: rest)
      = (closing? (.mark b.opener) (.mark b.closer) depth rest).map (· + 1) :=
  closing?_cons_of_ne depth rest (mt Token.opened?_eq_some.2 ho) (mt Token.closed?_eq_some.2 hc)

end

/-- the partner of an opening mark is found by the interior of its bracket -/
theorem Bracket.matchIndex?_of_drop (b : Bracket) {tokens rest : List Token} {start : Nat}
    (hdrop : tokens.drop start = .mark b.opener :: rest) :
    matchIndex? tokens start (.mark b.opener) (.mark b.closer)
      = (b.interior? rest).map (· + (start + 1)) := by
  rw [matchIndex?, hdrop, closing?_opener, Option.map_map]
  refine Option.map_congr fun n _ => ?_
  show n + 1 + start = n + (start + 1)
  omega

/-- a nested span leaves the count of one kind as it is -/
theorem closing?_append_of_nested {body : List Token} (h : Nested body) (b : Bracket) (depth : Nat)
    (rest : List Token) :
    closing? (.mark b.opener) (.mark b.closer) (depth + 1) (body ++ rest)
      = (closing? (.mark b.opener) (.mark b.closer) (depth + 1) rest).map (· + body.length) := by
  induction h generalizing depth rest with
  | nil => simp
  | plain ht _ ih =>
    obtain ⟨ho, hc⟩ := Token.isBracket_eq_false.1 ht
    rw [List.cons_append, closing?_other b _ _ (by simp [ho]) (by simp [hc]), ih, Option.map_map]
    rfl
  | @bracket k body after _ _ ihbody ihafter =>
    have hlen (n : Nat) : n + after.length + 1 + body.length + 1
        = n + (Token.mark k.opener :: (body ++ .mark k.closer :: after)).length := by
      simp only [List.length_cons, List.length_append]
      omega
    rw [List.cons_append, List.append_assoc, List.cons_append]
    by_cases hk : k = b
    · subst hk
      rw [closing?_opener, ihbody, closing?_closer, ihafter]
      simp only [Option.map_map, Function.comp_def, hlen]
    · have ho : (Token.mark k.opener).opened? ≠ some b := by
        rw [Token.opened?_eq_some.2 rfl]
        exact fun e => hk (Option.some.inj e)
      have hc : (Token.mark k.closer).closed? ≠ some b := by
        rw [Token.closed?_eq_some.2 rfl]
        exact fun e => hk (Option.some.inj e)
      rw [closing?_other b _ _ ho (by simp [k.closed?_opener]), ihbody,
        closing?_other b _ _ (by simp [k.opened?_closer]) hc, ihafter]
      simp only [Option.map_map, Function.comp_def, hlen]

theorem Bracket.interior?_of_nested (b : Bracket) {body : List Token} (h : Nested body)
    (rest : List Token) : b.interior? (body ++ .mark b.closer :: rest) = some body.length := by
  rw [Bracket.interior?, closing?_append_of_nested h b 0, closing?_closer_one, Option.map_some,
    Nat.zero_add]

/-- the tokens behind a bracket that was opened just before a span -/
theorem Bracket.drop_interior (b : Bracket) {body after : List Token} {n : Nat}
    (hbody : Nested body) (h : b.interior? (body ++ .mark b.closer :: after) = some n) :
    n = body.length ∧ (body ++ .mark b.closer :: after).drop (n + 1) = after := by
  obtain rfl := Option.some.inj ((b.interior?_of_nested hbody after).symm.trans h)
  refine ⟨rfl, ?_⟩
  rw [← List.drop_drop, List.drop_left, List.drop_succ_cons, List.drop_zero]

/-- what lies before and behind a closing token that was found -/
theorem closing?_eq_some {o c : Token} {depth i : Nat} {ts : List Token}
    (h : closing? o c depth ts = some i) : ts = ts.take i ++ c :: ts.drop (i + 1) := by
  fun_induction closing? o c depth ts generalizing i with
  | case1 => simp at h
  | case2 depth rest ih | case3 rest _ ih | case5 rest d _ ih | case6 depth t rest _ _ ih =>
    obtain ⟨j, hj, rfl⟩ := Option.map_eq_some_iff.1 h
    rw [List.take_succ_cons, List.drop_succ_cons, List.cons_append, ← ih hj]
  | case4 =>
    obtain rfl := Option.some.inj h
    rfl

theorem Bracket.interior?_eq_some {b : Bracket} {rest : List Token} {n : Nat}
    (h : b.interior? rest = some n) :
    rest = rest.take n ++ .mark b.closer :: rest.drop (n + 1) := closing?_eq_some h

theorem Bracket.length_interior {b : Bracket} {rest : List Token} {n : Nat}
    (h : b.interior? rest = some n) : (rest.take n).length = n :=
  List.length_take_of_le (Nat.le_of_lt (interior?_lt h))

/-! ## segments -/

/-- a span put in front of the first segment -/
def extendFirstSegment (span : List Token) : List (List Token) → List (List Token)
  | [] => [span]
  | segment :: more => (span ++ segment) :: more

theorem extendFirstSegment_cons (t : Token) (span : List Token) (more : List (List Token)) :
    extendFirstSegment (t :: span) more = extendSegment t (extendFirstSegment span more) := by
  cases more <;> rfl

theorem extendSegment_eq (t : Token) (more : List (List Token)) :
    extendSegment t more = extendFirstSegment [t] more := by
  cases more <;> rfl

theorem extendFirstSegment_nil {more : List (List Token)} (h : more ≠ []) :
    extendFirstSegment [] more = more := by
  cases more with
  | nil => exact absurd rfl h
  | cons => rfl

theorem extendFirstSegment_append (a b : List Token) (more : List (List Token)) :
    extendFirstSegment (a ++ b) more = extendFirstSegment a (extendFirstSegment b more) := by
  cases more <;> simp [extendFirstSegment]

/-- what holds of all segments holds of them with a longer first one, if that keeps it -/
theorem forall_mem_extendFirstSegment {P : List Token → Prop} {span : List Token}
    (hspan : ∀ segment, P segment → P (span ++ segment)) {more : List (List Token)}
    (hne : more ≠ []) (h : ∀ segment ∈ more, P segment) :
    ∀ segment ∈ extendFirstSegment span more, P segment := by
  cases more with
  | nil => exact absurd rfl hne
  | cons first more =>
    intro segment hmem
    rcases List.mem_cons.1 hmem with rfl | hmem
    · exact hspan first (h first List.mem_cons_self)
    · exact h segment (List.mem_cons_of_mem _ hmem)

theorem extendSegment_ne_nil (t : Token) (more : List (List Token)) :
    extendSegment t more ≠ [] := by
  cases more <;> simp [extendSegment]

theorem segments_ne_nil (separator : Token) (depth : Nat) (ts : List Token) :
    segments separator depth ts ≠ [] := by
  fun_cases segments separator depth ts <;> simp [extendSegment_ne_nil]

/-- how many brackets are open behind a token; with nothing open, a closing token changes nothing -/
def depthBehind (depth : Nat) (t : Token) : Nat :=
  if t.isOpener then depth + 1 else if t.isCloser then depth - 1 else depth

theorem depthBehind_opener (b : Bracket) (depth : Nat) :
    depthBehind depth (.mark b.opener) = depth + 1 := if_pos (by cases b <;> rfl)

theorem depthBehind_closer (b : Bracket) (depth : Nat) :
    depthBehind depth (.mark b.closer) = depth - 1 := by
  cases b <;> rfl

theorem depthBehind_plain {t : Token} (ht : t.isBracket = false) (depth : Nat) :
    depthBehind depth t = depth := by
  obtain ⟨ho, hc⟩ := Bool.or_eq_false_iff.1 ht
  simp [depthBehind, ho, hc]

theorem depthBehind_zero {t : Token} (ho : t.isOpener = false) : depthBehind 0 t = 0 := by
  simp [depthBehind, ho]

section
variable {separator : Token}

/-- a token at which a span is cut begins the next segment -/
theorem segments_cons_of_cut {t : Token} {depth : Nat} {rest : List Token}
    (h : t = separator ∧ t.isOpener = false ∧ depth = 0) :
    segments separator depth (t :: rest) = [] :: segments separator 0 rest := by
  obtain ⟨hs, ho, rfl⟩ := h
  rw [segments, if_neg (by simp [ho]), if_neg (by simp), if_pos ⟨hs, rfl⟩]

/-- any other token belongs to the first segment -/
theorem segments_cons {t : Token} {depth : Nat} {rest : List Token}
    (h : ¬(t = separator ∧ t.isOpener = false ∧ depth = 0)) :
    segments separator depth (t :: rest)
      = extendSegment t (segments separator (depthBehind depth t) rest) := by
  by_cases ho : t.isOpener = true
  · have hbehind : depthBehind depth t = depth + 1 := if_pos ho
    rw [segments, if_pos ho, hbehind]
  have hs : ¬(t = separator ∧ depth = 0) := fun hs => h ⟨hs.1, Bool.not_eq_true _ ▸ ho, hs.2⟩
  by_cases hc : t.isCloser = true
  · have hbehind : depthBehind depth t = depth - 1 := (if_neg ho).trans (if_pos hc)
    rw [segments, if_neg ho, hbehind]
    cases depth with
    | zero => rw [if_neg (by simp), if_neg hs]
    | succ depth => rw [if_pos (by simp [hc])]
  · have hbehind : depthBehind depth t = depth := (if_neg ho).trans (if_neg hc)
    rw [segments, if_neg ho, if_neg (by simp [hc]), if_neg hs, hbehind]

theorem segments_opener (b : Bracket) (depth : Nat) (rest : List Token) :
    segments separator depth (.mark b.opener :: rest)
      = extendSegment (.mark b.opener) (segments separator (depth + 1) rest) := by
  rw [segments_cons (by cases b <;> simp [Token.isOpener, Bracket.opener, Mark.isOpener]),
    depthBehind_opener]

theorem segments_closer (b : Bracket) (depth : Nat) (rest : List Token) :
    segments separator (depth + 1) (.mark b.closer :: rest)
      = extendSegment (.mark b.closer) (segments separator depth rest) := by
  rw [segments_cons (by simp), depthBehind_closer]
  rfl

theorem segments_plain {t : Token} (ht : t.isBracket = false) {depth : Nat}
    (hs : t ≠ separator ∨ depth ≠ 0) (rest : List Token) :
    segments separator depth (t :: rest) = extendSegment t (segments separator depth rest) := by
  rw [segments_cons fun h => hs.elim (· h.1) (· h.2.2), depthBehind_plain ht]

theorem segments_word {m : Mark} (depth : Nat) (w : String) (rest : List Token) :
    segments (.mark m) depth (.word w :: rest)
      = extendSegment (.word w) (segments (.mark m) depth rest) :=
  segments_plain rfl (.inl Token.noConfusion) rest

theorem segments_separator (hs : separator.isBracket = false) (rest : List Token) :
    segments separator 0 (separator :: rest) = [] :: segments separator 0 rest :=
  segments_cons_of_cut ⟨rfl, (Bool.or_eq_false_iff.1 hs).1, rfl⟩

/-- inside a bracket a nested span is not cut -/
theorem segments_append_of_nested {body : List Token} (h : Nested body) (depth : Nat)
    (rest : List Token) :
    segments separator (depth + 1) (body ++ rest)
      = extendFirstSegment body (segments separator (depth + 1) rest) := by
  induction h generalizing depth rest with
  | nil => exact (extendFirstSegment_nil (segments_ne_nil _ _ _)).symm
  | plain ht _ ih =>
    rw [List.cons_append, segments_plain ht (.inr (Nat.succ_ne_zero _)), ih,
      extendFirstSegment_cons]
  | bracket b _ _ ihbody ihrest =>
    rw [List.cons_append, List.append_assoc, List.cons_append, segments_opener, ihbody,
      segments_closer, ihrest, extendFirstSegment_cons, extendFirstSegment_append,
      extendFirstSegment_cons]

theorem segments_bracket (b : Bracket) {body : List Token} (h : Nested body) (depth : Nat)
    (rest : List Token) :
    segments separator depth (.mark b.opener :: (body ++ .mark b.closer :: rest))
      = extendFirstSegment (.mark b.opener :: (body ++ [.mark b.closer]))
          (segments separator depth rest) := by
  rw [segments_opener, segments_append_of_nested h, segments_closer, extendFirstSegment_cons,
    extendFirstSegment_append, extendFirstSegment_cons,
    extendFirstSegment_nil (segments_ne_nil _ _ _)]

theorem intercalate_extendSegment (t : Token) {more : List (List Token)} (h : more ≠ []) :
    [separator].intercalate (extendSegment t more) = t :: [separator].intercalate more := by
  cases more with
  | nil => exact absurd rfl h
  | cons segment more => exact List.intercalate_cons_cons_left

theorem intercalate_segments (depth : Nat) (ts : List Token) :
    [separator].intercalate (segments separator depth ts) = ts := by
  fun_induction segments separator depth ts with
  | case1 => rfl
  | case2 depth t rest _ ih | case3 depth t rest _ _ ih | case5 depth t rest _ _ _ ih =>
    rw [intercalate_extendSegment t (segments_ne_nil _ _ _), ih]
  | case4 depth t rest _ _ hs ih =>
    rw [List.intercalate_cons_of_ne_nil (segments_ne_nil _ _ _), ih, hs.1]
    rfl

theorem infix_intercalate {spans : List (List Token)} {span : List Token} (h : span ∈ spans) :
    span <:+: [separator].intercalate spans := by
  induction spans with
  | nil => cases h
  | cons first more ih =>
    cases more with
    | nil =>
      obtain rfl := List.mem_singleton.1 h
      exact ⟨[], [], by rw [List.append_nil, List.nil_append, List.intercalate_singleton]⟩
    | cons next more =>
      rw [List.intercalate_cons_cons]
      rcases List.mem_cons.1 h with rfl | h
      · rw [List.append_assoc]
        exact List.infix_append' [] span _
      · exact (ih h).trans (List.suffix_append _ _).isInfix

theorem infix_of_mem_segments {depth : Nat} {ts span : List Token}
    (h : span ∈ segments separator depth ts) : span <:+: ts := by
  have := @infix_intercalate separator _ _ h
  rwa [intercalate_segments] at this

end

/-- what joins holds of a span if it holds of a comma and of what stands between commas -/
theorem Joins.of_splitCommas {P : List Token → Prop} (hP : Joins P) (hcomma : P [.mark .comma])
    {ts : List Token} (h : ∀ span ∈ splitCommas ts, P span) : P ts := by
  rw [← @intercalate_segments (.mark .comma) 0 ts]
  refine hP.intercalate hcomma fun segment hs => ?_
  cases segment with
  | nil => exact hP.nil
  | cons t rest => exact h _ (List.mem_filter.2 ⟨hs, rfl⟩)

end DocTypes
