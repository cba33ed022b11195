import DocTypes.Piece
import DocTypes.Proofs.Bracket.Nested
import Mathlib.Data.List.Chain

/-!
# Bars between types side by side

Two types may stand side by side without a separator, as in `(a)b` or `a{b: c}`.  A span with a bar
put in at each such place has its brackets and its commas where the span has them.

* `Token.adjoins`           whether one token ends a type and the next begins another;
* `barred`                  a span with a bar between any two such tokens;
* `barred_separated`        then no two such tokens are left side by side;
* `interior?_barred`        the partner of a bracket is the same;
* `splitCommas_barred`      so is what stands between commas.
-/

namespace DocTypes

/-- a token that ends a type, and one that begins a type -/
def Token.adjoins : Token → Token → Bool
  | .mark m, .word _ => m.isCloser
  | .mark m, .mark k => m.isCloser && (k == .lparen || k == .lbrace)
  | .word w, .mark .lparen => !isFunctionWord w
  | .word _, .mark .lbrace => true
  | .word _, _ => false

/-- the rest of a span behind a token -/
def barredBehind : Token → List Token → List Token
  | _, [] => []
  | t, next :: rest =>
    if t.adjoins next then .mark .bar :: next :: barredBehind next rest
    else next :: barredBehind next rest

def barred : List Token → List Token
  | [] => []
  | t :: rest => t :: barredBehind t rest

theorem barredBehind_cons_of_adjoins {t next : Token} (h : t.adjoins next = true)
    (rest : List Token) :
    barredBehind t (next :: rest) = .mark .bar :: next :: barredBehind next rest := if_pos h

theorem barredBehind_cons {t next : Token} (h : t.adjoins next = false) (rest : List Token) :
    barredBehind t (next :: rest) = next :: barredBehind next rest := if_neg (by simp [h])

/-- a bar at most is what stands behind a token before the rest -/
theorem barredBehind_cases (t : Token) (rest : List Token) :
    barredBehind t rest = barred rest ∨ barredBehind t rest = .mark .bar :: barred rest := by
  cases rest with
  | nil => exact .inl rfl
  | cons next rest =>
    by_cases h : t.adjoins next = true
    · exact .inr (barredBehind_cons_of_adjoins h rest)
    · exact .inl (barredBehind_cons (Bool.eq_false_iff.2 h) rest)

/-- with bars, a token other than a bar comes next where it does without -/
theorem barredBehind_ne_cons {t next : Token} {rest : List Token} (hnext : next ≠ .mark .bar)
    (h : ∀ more, rest ≠ next :: more) (more : List Token) : barredBehind t rest ≠ next :: more := by
  intro hbarred
  rcases barredBehind_cases t rest with hsame | hbar
  · rw [hsame] at hbarred
    cases rest with
    | nil => cases hbarred
    | cons first rest =>
      obtain rfl : first = next := (List.cons.inj hbarred).1
      exact h rest rfl
  · rw [hbar] at hbarred
    exact hnext (List.cons.inj hbarred).1.symm

theorem barredBehind_mark {m : Mark} (hm : m.isCloser = false) (rest : List Token) :
    barredBehind (.mark m) rest = barred rest := by
  cases rest with
  | nil => rfl
  | cons next rest => exact barredBehind_cons (by cases next <;> simp [Token.adjoins, hm]) rest

theorem barredBehind_separator {m : Mark} (hm : m.isSeparator = true) (t : Token)
    (rest : List Token) : barredBehind t (.mark m :: rest) = .mark m :: barred rest := by
  cases m with
  | lt | gt | lparen | rparen | lbrace | rbrace => cases hm
  | bar | comma | colon =>
    rw [barredBehind_cons (by cases t <;> simp [Token.adjoins]), barredBehind_mark rfl]

theorem barredBehind_append (t : Token) (a b : List Token) :
    barredBehind t (a ++ b) = barredBehind t a ++ barredBehind (a.getLastD t) b := by
  induction a generalizing t with
  | nil => rfl
  | cons next a ih =>
    rw [List.cons_append, List.getLastD_cons]
    by_cases h : t.adjoins next = true
    · rw [barredBehind_cons_of_adjoins h, barredBehind_cons_of_adjoins h, ih]
      rfl
    · have h : t.adjoins next = false := Bool.eq_false_iff.2 h
      rw [barredBehind_cons h, barredBehind_cons h, ih]
      rfl

theorem take_barredBehind (t : Token) (ts : List Token) (n : Nat) :
    (barredBehind t ts).take (barredBehind t (ts.take n)).length = barredBehind t (ts.take n) := by
  have happend := barredBehind_append t (ts.take n) (ts.drop n)
  rw [List.take_append_drop] at happend
  rw [happend, List.take_left]

theorem drop_barredBehind (t : Token) (ts : List Token) (n : Nat) :
    (barredBehind t ts).drop (barredBehind t (ts.take n)).length
      = barredBehind ((ts.take n).getLastD t) (ts.drop n) := by
  have happend := barredBehind_append t (ts.take n) (ts.drop n)
  rw [List.take_append_drop] at happend
  rw [happend, List.drop_left]

theorem take_barred (ts : List Token) (n : Nat) :
    (barred ts).take (barred (ts.take n)).length = barred (ts.take n) := by
  have htake := take_barredBehind (.mark .bar) ts n
  rwa [barredBehind_mark rfl, barredBehind_mark rfl] at htake

theorem barred_separated (ts : List Token) :
    (barred ts).IsChain fun a b => a.adjoins b = false := by
  have hbehind (t : Token) (rest : List Token) :
      (t :: barredBehind t rest).IsChain fun a b => a.adjoins b = false := by
    induction rest generalizing t with
    | nil => exact List.isChain_singleton t
    | cons next rest ih =>
      by_cases h : t.adjoins next = true
      · rw [barredBehind_cons_of_adjoins h]
        have hbar : Token.adjoins t (.mark .bar) = false := by
          cases t <;> simp [Token.adjoins]
        have hnext : Token.adjoins (.mark .bar) next = false := by
          cases next <;> rfl
        exact List.isChain_cons_cons.2 ⟨hbar, List.isChain_cons_cons.2 ⟨hnext, ih next⟩⟩
      · have h : t.adjoins next = false := Bool.eq_false_iff.2 h
        rw [barredBehind_cons h]
        exact List.isChain_cons_cons.2 ⟨h, ih next⟩
  cases ts with
  | nil => exact .nil
  | cons t rest => exact hbehind t rest

/-! ## partners of opening marks -/

theorem adjoins_closer (t : Token) (b : Bracket) : t.adjoins (.mark b.closer) = false := by
  cases t <;> cases b <;> simp [Token.adjoins, Bracket.closer]

/-- the first token of a span brings the count to zero, or changes it whatever comes next -/
theorem closing?_cons_cases (b : Bracket) (depth : Nat) (next : Token) :
    (next = .mark b.closer ∧
      ∀ rest, closing? (.mark b.opener) (.mark b.closer) depth (next :: rest) = some 0) ∨
    ∃ depth', ∀ rest, closing? (.mark b.opener) (.mark b.closer) depth (next :: rest)
      = (closing? (.mark b.opener) (.mark b.closer) depth' rest).map (· + 1) := by
  by_cases ho : next = .mark b.opener
  · subst ho
    exact .inr ⟨depth + 1, closing?_opener b depth⟩
  · by_cases hc : next = .mark b.closer
    · subst hc
      rcases depth with _ | _ | depth
      · exact .inr ⟨0, fun rest => closing?_cons_zero rest ho⟩
      · exact .inl ⟨rfl, closing?_closer_one b⟩
      · exact .inr ⟨depth + 1, closing?_closer b depth⟩
    · exact .inr ⟨depth, fun rest => closing?_cons_of_ne depth rest ho hc⟩

theorem closing?_barredBehind (b : Bracket) (depth : Nat) (t : Token) (ts : List Token) :
    closing? (.mark b.opener) (.mark b.closer) depth (barredBehind t ts)
      = (closing? (.mark b.opener) (.mark b.closer) depth ts).map
          fun n => (barredBehind t (ts.take n)).length := by
  induction ts generalizing depth t with
  | nil => rfl
  | cons next rest ih =>
    have hnext : closing? (.mark b.opener) (.mark b.closer) depth (next :: barredBehind next rest)
        = (closing? (.mark b.opener) (.mark b.closer) depth (next :: rest)).map
            fun n => (barred ((next :: rest).take n)).length := by
      rcases closing?_cons_cases b depth next with ⟨-, hzero⟩ | ⟨depth', hmap⟩
      · rw [hzero, hzero]
        rfl
      · rw [hmap, hmap, ih, Option.map_map, Option.map_map]
        rfl
    by_cases h : t.adjoins next = true
    · have hbar : closing? (.mark b.opener) (.mark b.closer) depth
          (.mark .bar :: next :: barredBehind next rest)
            = (closing? (.mark b.opener) (.mark b.closer) depth
                (next :: barredBehind next rest)).map (· + 1) :=
        closing?_other b _ _ nofun nofun
      rw [barredBehind_cons_of_adjoins h, hbar, hnext, Option.map_map]
      -- a mark that closes a bracket follows without a bar, so the interior is not empty
      refine Option.map_congr fun n hn => ?_
      cases n with
      | zero =>
        rcases closing?_cons_cases b depth next with ⟨rfl, -⟩ | ⟨depth', hmap⟩
        · rw [adjoins_closer] at h
          cases h
        · rw [hmap] at hn
          obtain ⟨k, -, hk⟩ := Option.map_eq_some_iff.1 hn
          cases hk
      | succ n =>
        rw [List.take_succ_cons, barredBehind_cons_of_adjoins h]
        rfl
    · have h : t.adjoins next = false := Bool.eq_false_iff.2 h
      rw [barredBehind_cons h, hnext]
      refine Option.map_congr fun n _ => ?_
      cases n with
      | zero => rfl
      | succ n =>
        rw [List.take_succ_cons, barredBehind_cons h]
        rfl

theorem barredBehind_bracket (b : Bracket) (body after : List Token) :
    barredBehind (.mark b.opener) (body ++ .mark b.closer :: after)
      = barred body ++ .mark b.closer :: barredBehind (.mark b.closer) after := by
  have hopener : b.opener.isCloser = false := by cases b <;> rfl
  rw [barredBehind_append, barredBehind_mark hopener, barredBehind_cons (adjoins_closer _ b)]

/-- the interior of a bracket, and what stands behind the bracket -/
theorem interior?_barred {b : Bracket} {rest : List Token} {n : Nat}
    (h : b.interior? rest = some n) :
    ∃ body after, rest = body ++ .mark b.closer :: after ∧ body.length = n ∧
      b.interior? (barredBehind (.mark b.opener) rest) = some (barred body).length := by
  have hopener : b.opener.isCloser = false := by cases b <;> rfl
  refine ⟨rest.take n, rest.drop (n + 1), Bracket.interior?_eq_some h, Bracket.length_interior h, ?_⟩
  unfold Bracket.interior? at h ⊢
  rw [closing?_barredBehind, h, Option.map_some, barredBehind_mark hopener]

theorem interior?_barred_eq_none {b : Bracket} {rest : List Token} (h : b.interior? rest = none) :
    b.interior? (barredBehind (.mark b.opener) rest) = none := by
  unfold Bracket.interior? at h ⊢
  rw [closing?_barredBehind, h, Option.map_none]

/-! ## commas -/

/-- the segments of the rest of a span behind a token -/
def barredSegments (t : Token) : List (List Token) → List (List Token)
  | [] => []
  | segment :: more => barredBehind t segment :: more.map barred

/-- the first token of a span is a cut, or belongs to the first segment whatever comes next -/
theorem segments_cons_cases (depth : Nat) (next : Token) :
    (next = .mark .comma ∧ ∀ rest, segments (.mark .comma) depth (next :: rest)
        = [] :: segments (.mark .comma) 0 rest) ∨
    ∃ depth', ∀ rest, segments (.mark .comma) depth (next :: rest)
      = extendSegment next (segments (.mark .comma) depth' rest) := by
  by_cases h : next = .mark .comma ∧ next.isOpener = false ∧ depth = 0
  · exact .inl ⟨h.1, fun rest => segments_cons_of_cut h⟩
  · exact .inr ⟨depthBehind depth next, fun rest => segments_cons h⟩

theorem segments_barredBehind (depth : Nat) (t : Token) (ts : List Token) :
    segments (.mark .comma) depth (barredBehind t ts)
      = barredSegments t (segments (.mark .comma) depth ts) := by
  induction ts generalizing depth t with
  | nil => rfl
  | cons next rest ih =>
    rcases segments_cons_cases depth next with ⟨rfl, hcut⟩ | ⟨depth', hextend⟩
    · have hrest : barred rest = barredBehind (.mark .comma) rest := (barredBehind_mark rfl rest).symm
      rw [barredBehind_separator rfl, hcut, hcut, hrest, ih]
      cases segments (.mark .comma) 0 rest with
      | nil => rfl
      | cons segment more =>
        have hfirst : barredBehind (.mark .comma) segment = barred segment :=
          barredBehind_mark (m := .comma) rfl segment
        show [] :: barredBehind (.mark .comma) segment :: more.map barred = _
        rw [hfirst]
        rfl
    · obtain ⟨segment, more, hsegments⟩ :=
        List.exists_cons_of_ne_nil (segments_ne_nil (.mark .comma) depth' rest)
      have hnext : segments (.mark .comma) depth (next :: barredBehind next rest)
          = (next :: barredBehind next segment) :: more.map barred := by
        rw [hextend, ih, hsegments]
        rfl
      rw [hextend, hsegments]
      by_cases h : t.adjoins next = true
      · have hbar : segments (.mark .comma) depth (.mark .bar :: next :: barredBehind next rest)
            = extendSegment (.mark .bar)
                (segments (.mark .comma) depth (next :: barredBehind next rest)) :=
          segments_plain (t := .mark .bar) rfl (.inl (by decide)) _
        rw [barredBehind_cons_of_adjoins h, hbar, hnext]
        show _ = barredBehind t (next :: segment) :: more.map barred
        rw [barredBehind_cons_of_adjoins h]
        rfl
      · have h : t.adjoins next = false := Bool.eq_false_iff.2 h
        rw [barredBehind_cons h, hnext]
        show _ = barredBehind t (next :: segment) :: more.map barred
        rw [barredBehind_cons h]

theorem splitCommas_barred (ts : List Token) :
    splitCommas (barred ts) = (splitCommas ts).map barred := by
  have hsegments : segments (.mark .comma) 0 (barred ts)
      = (segments (.mark .comma) 0 ts).map barred := by
    have hbehind := segments_barredBehind 0 (.mark .comma) ts
    rw [barredBehind_mark rfl] at hbehind
    rw [hbehind]
    cases segments (.mark .comma) 0 ts with
    | nil => rfl
    | cons segment more =>
      rw [barredSegments, barredBehind_mark rfl, List.map_cons]
  have hempty : (fun segment : List Token => !segment.isEmpty) ∘ barred
      = fun segment => !segment.isEmpty := by
    funext segment
    cases segment <;> rfl
  rw [splitCommas, splitTopLevel, hsegments, List.filter_map, hempty]
  rfl

end DocTypes
