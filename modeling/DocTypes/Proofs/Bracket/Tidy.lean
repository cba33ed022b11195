import DocTypes.Proofs.Bracket.Attached
import DocTypes.Piece
import Mathlib.Data.List.Chain

/-!
# Tidy spans

A span is tidy if it is properly nested and angle brackets stand where they belong: each `<` right
behind a word, and each word that ends in a dot right before a `<`.  What is cut out of a tidy span
along its brackets or at its commas is tidy again.

* `AnglesAttached`          angle brackets stand where they belong;
* `Tidy`                    tidy spans by their first parts;
* `tidy_of_nested`          a nested span whose angle brackets are attached is tidy;
* `Tidy.of_mem_segments`    so are its segments;
* `Tidy.dropWhile_angle`    the first angle bracket of a tidy span is closed, and its interior tidy.
-/

namespace DocTypes

def Token.isWord : Token → Bool
  | .word _ => true
  | .mark _ => false

/-- a word that announces an argument list by the dot at its end -/
def Token.isDotted : Token → Bool
  | .word w => endsInDot w.toList
  | .mark _ => false

/-- whether `b` may follow `a`; nothing stands before the first token and after the last -/
def Beside (a b : Option Token) : Prop :=
  (b = some (.mark .lt) → a.any Token.isWord = true) ∧
    (a.any Token.isDotted = true → b = some (.mark .lt))

instance (a b : Option Token) : Decidable (Beside a b) := inferInstanceAs (Decidable (_ ∧ _))

/-- a span may stand between `before` and `after` -/
def Between (before after : Option Token) (tokens : List Token) : Prop :=
  (before :: (tokens.map some ++ [after])).IsChain Beside

def AnglesAttached (tokens : List Token) : Prop := Between none none tokens

instance : DecidablePred AnglesAttached := fun _ => inferInstanceAs (Decidable (List.IsChain _ _))

inductive Tidy : List Token → Prop where
  | nil : Tidy []
  | separator {m : Mark} {rest : List Token} (hm : m.isSeparator = true) (hrest : Tidy rest) :
    Tidy (.mark m :: rest)
  | word {w : String} {rest : List Token} (hw : endsInDot w.toList = false) (hrest : Tidy rest) :
    Tidy (.word w :: rest)
  | args (w : String) {body rest : List Token} (hbody : Tidy body) (hrest : Tidy rest) :
    Tidy (.word w :: .mark .lt :: (body ++ .mark .gt :: rest))
  | bracket {b : Bracket} (hb : b ≠ .angle) {body rest : List Token} (hbody : Tidy body)
      (hrest : Tidy rest) :
    Tidy (.mark b.opener :: (body ++ .mark b.closer :: rest))

namespace Tidy

theorem attached {tokens : List Token} (h : Tidy tokens) : Attached tokens := by
  induction h with
  | nil => exact .nil
  | separator hm _ ih => exact .separator hm ih
  | word _ _ ih => exact .word _ ih
  | args w _ _ ihbody ihrest => exact .args w ihbody ihrest
  | bracket hb _ _ ihbody ihrest => exact .bracket hb ihbody ihrest

theorem nested {tokens : List Token} (h : Tidy tokens) : Nested tokens := h.attached.nested

theorem head?_ne_lt {tokens : List Token} (h : Tidy tokens) :
    tokens.head? ≠ some (.mark .lt) := h.attached.head?_ne_lt

end Tidy

/-! ## from nesting and attachment -/

section
variable {before after : Option Token} {tokens : List Token}

/-- an opening angle bracket stands behind a word -/
theorem Between.head?_ne_lt (h : Between before after tokens)
    (hbefore : before.any Token.isWord = false) : tokens.head? ≠ some (.mark .lt) := by
  cases tokens with
  | nil => nofun
  | cons t tokens =>
    rintro e
    obtain rfl : t = .mark .lt := Option.some.inj e
    have := (List.isChain_cons_cons.1 h).1.1 rfl
    rw [hbefore] at this
    cases this

/-- the word before a span that does not begin with `<` has no dot at its end -/
theorem Between.endsInDot_eq_false {w : String} (h : Between (some (.word w)) after tokens)
    (hafter : after ≠ some (.mark .lt)) (hhead : tokens.head? ≠ some (.mark .lt)) :
    endsInDot w.toList = false := by
  by_contra hdot
  have hdot : endsInDot w.toList = true := Bool.not_eq_false _ ▸ hdot
  cases tokens with
  | nil => exact hafter ((List.isChain_cons_cons.1 h).1.2 hdot)
  | cons t tokens =>
    have : some t = some (.mark .lt) := (List.isChain_cons_cons.1 h).1.2 hdot
    exact hhead this

theorem Between.tail {t : Token} (h : Between before after (t :: tokens)) :
    Between (some t) after tokens := (List.isChain_cons_cons.1 h).2

theorem Between.left {t : Token} {a b : List Token} (h : Between before after (a ++ t :: b)) :
    Between before (some t) a := by
  refine h.infix ⟨[], b.map some ++ [after], ?_⟩
  simp

theorem Between.right {t : Token} {a b : List Token} (h : Between before after (a ++ t :: b)) :
    Between (some t) after b := by
  refine h.infix ⟨before :: a.map some, [], ?_⟩
  simp

/-- a nested span with attached angle brackets is tidy, if it does not begin with the arguments of
a word before it -/
theorem tidy_or_args (hn : Nested tokens) (hafter : after ≠ some (.mark .lt))
    (h : Between before after tokens) :
    Tidy tokens ∨ ∃ body rest, tokens = .mark .lt :: (body ++ .mark .gt :: rest) ∧
      Tidy body ∧ Tidy rest := by
  induction hn generalizing before after with
  | nil => exact .inl .nil
  | @plain t rest ht hrest ih =>
    cases t with
    | mark m =>
      have hm : m.isSeparator = true := by cases m <;> first | rfl | cases ht
      rcases ih hafter h.tail with hrest | ⟨body, more, rfl, -, -⟩
      · exact .inl (.separator hm hrest)
      · exact absurd rfl (h.tail.head?_ne_lt rfl)
    | word w =>
      rcases ih hafter h.tail with hrest | ⟨body, more, rfl, hbody, hmore⟩
      · exact .inl (.word (h.tail.endsInDot_eq_false hafter hrest.head?_ne_lt) hrest)
      · exact .inl (.args w hbody hmore)
  | @bracket b body rest _ _ ihbody ihrest =>
    have hbody : Tidy body := by
      have hafter : some (Token.mark b.closer) ≠ some (.mark .lt) := by cases b <;> nofun
      rcases ihbody hafter h.tail.left with hbody | ⟨_, _, rfl, -, -⟩
      · exact hbody
      · exact absurd rfl (h.tail.left.head?_ne_lt rfl)
    have hrest : Tidy rest := by
      rcases ihrest hafter h.tail.right with hrest | ⟨_, _, rfl, -, -⟩
      · exact hrest
      · exact absurd rfl (h.tail.right.head?_ne_lt rfl)
    by_cases hb : b = .angle
    · subst hb
      exact .inr ⟨body, rest, rfl, hbody, hrest⟩
    · exact .inl (.bracket hb hbody hrest)

theorem tidy_of_nested (hn : Nested tokens) (ha : AnglesAttached tokens) : Tidy tokens := by
  have hnone : none ≠ some (Token.mark .lt) := nofun
  rcases tidy_or_args hn hnone ha with ht | ⟨_, _, rfl, -, -⟩
  · exact ht
  · exact absurd rfl (Between.head?_ne_lt ha rfl)

end

/-! ## parts of tidy spans -/

namespace Tidy

theorem of_separator {m : Mark} {rest : List Token} (hm : m.isSeparator = true)
    (h : Tidy (.mark m :: rest)) : Tidy rest := by
  generalize hts : Token.mark m :: rest = tokens at h
  cases h with
  | nil | word | args => cases hts
  | separator => cases hts; assumption
  | @bracket b =>
    obtain ⟨e, -⟩ := List.cons.inj hts
    obtain rfl := Token.mark.inj e
    cases b <;> cases hm

theorem of_word {w : String} {rest : List Token} (h : Tidy (.word w :: rest))
    (hrest : rest.head? ≠ some (.mark .lt)) : endsInDot w.toList = false ∧ Tidy rest := by
  generalize hts : Token.word w :: rest = tokens at h
  cases h with
  | nil | separator | bracket => cases hts
  | word hw ht => cases hts; exact ⟨hw, ht⟩
  | args => cases hts; exact absurd rfl hrest

theorem of_args {w : String} {more : List Token} (h : Tidy (.word w :: .mark .lt :: more)) :
    ∃ body rest, more = body ++ .mark .gt :: rest ∧ Tidy body ∧ Tidy rest := by
  generalize hts : Token.word w :: .mark .lt :: more = tokens at h
  cases h with
  | nil | separator | bracket => cases hts
  | word _ ht => cases hts; exact absurd rfl ht.head?_ne_lt
  | args _ hbody hrest => cases hts; exact ⟨_, _, rfl, hbody, hrest⟩

theorem of_bracket {b : Bracket} {more : List Token} (h : Tidy (.mark b.opener :: more)) :
    ∃ body rest, more = body ++ .mark b.closer :: rest ∧ Tidy body ∧ Tidy rest := by
  generalize hts : Token.mark b.opener :: more = tokens at h
  cases h with
  | nil | word | args => cases hts
  | separator hm =>
    obtain ⟨e, -⟩ := List.cons.inj hts
    obtain rfl := Token.mark.inj e
    cases b <;> cases hm
  | @bracket k _ _ _ hbody hrest =>
    obtain ⟨e, rfl⟩ := List.cons.inj hts
    obtain rfl : b = k := by
      cases b <;> cases k <;> first | rfl | cases e
    exact ⟨_, _, rfl, hbody, hrest⟩

theorem isCloser_eq_false {m : Mark} {rest : List Token} (h : Tidy (.mark m :: rest)) :
    m.isCloser = false := by
  generalize hts : Token.mark m :: rest = tokens at h
  cases h with
  | nil | word | args => cases hts
  | @separator k _ hk => cases hts; cases m <;> first | rfl | cases hk
  | @bracket b =>
    obtain ⟨e, -⟩ := List.cons.inj hts
    obtain rfl := Token.mark.inj e
    cases b <;> rfl

theorem of_mem_segments {tokens : List Token} (h : Tidy tokens) {m : Mark}
    (hm : m.isSeparator = true) :
    ∀ segment ∈ segments (.mark m) 0 tokens, Tidy segment := by
  induction h with
  | nil =>
    intro segment hs
    obtain rfl := List.mem_singleton.1 hs
    exact .nil
  | @separator k rest hk hrest ih =>
    have hplain : (Token.mark k).isBracket = false := by cases k <;> first | rfl | cases hk
    by_cases hkm : k = m
    · subst hkm
      rw [segments_separator hplain]
      exact List.forall_mem_cons.2 ⟨.nil, ih⟩
    · have hne : Token.mark k ≠ .mark m := fun e => hkm (Token.mark.inj e)
      rw [segments_plain hplain (.inl hne), extendSegment_eq]
      exact forall_mem_extendFirstSegment (fun _ => .separator hk) (segments_ne_nil _ _ _) ih
  | @word w rest hw hrest ih =>
    rw [segments_word, extendSegment_eq]
    exact forall_mem_extendFirstSegment (fun _ => .word hw) (segments_ne_nil _ _ _) ih
  | @args w body rest hbody _ _ ih =>
    have hcut := @segments_bracket (.mark m) .angle body hbody.nested 0 rest
    rw [segments_word, show Token.mark .lt = .mark Bracket.angle.opener from rfl,
      show Token.mark .gt = .mark Bracket.angle.closer from rfl, hcut, ← extendFirstSegment_cons]
    refine forall_mem_extendFirstSegment (fun segment hs => ?_) (segments_ne_nil _ _ _) ih
    have := Tidy.args w hbody hs
    rwa [List.cons_append, List.cons_append, List.append_assoc, List.singleton_append]
  | @bracket b hb body rest hbody _ _ ih =>
    rw [segments_bracket b hbody.nested]
    refine forall_mem_extendFirstSegment (fun segment hs => ?_) (segments_ne_nil _ _ _) ih
    have := Tidy.bracket hb hbody hs
    rwa [List.cons_append, List.append_assoc, List.singleton_append]

/-- the first angle bracket of a tidy span, if there is one, is closed -/
theorem dropWhile_angle {tokens : List Token} (h : Tidy tokens) :
    tokens.dropWhile (· != .mark .lt) = [] ∨
      ∃ body rest, tokens.dropWhile (· != .mark .lt) = .mark .lt :: (body ++ .mark .gt :: rest) ∧
        Tidy body := by
  induction h with
  | nil => exact .inl rfl
  | @separator m rest hm _ ih =>
    rwa [List.dropWhile_cons_of_pos (by cases m <;> first | rfl | cases hm)]
  | word _ _ ih => rwa [List.dropWhile_cons_of_pos rfl]
  | @args w body rest hbody _ _ _ => exact .inr ⟨body, rest, rfl, hbody⟩
  | @bracket b hb body rest _ _ ihbody ihrest =>
    rw [List.dropWhile_cons_of_pos (by cases b <;> first | rfl | exact absurd rfl hb),
      List.dropWhile_append]
    rcases ihbody with hbody | ⟨inner, more, hbody, hinner⟩
    · rw [hbody, if_pos List.isEmpty_nil, List.dropWhile_cons_of_pos (by cases b <;> rfl)]
      exact ihrest
    · rw [hbody, List.isEmpty_cons, if_neg Bool.false_ne_true]
      refine .inr ⟨inner, more ++ .mark b.closer :: rest, ?_, hinner⟩
      rw [List.cons_append, List.append_assoc, List.cons_append]

end Tidy

end DocTypes
