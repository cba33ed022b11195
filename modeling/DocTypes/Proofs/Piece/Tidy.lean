import DocTypes.Proofs.Bracket.Tidy
import DocTypes.Proofs.Piece.Cover

/-!
# The pieces of a tidy span

A tidy span falls into pieces whose brackets are all closed, and the spans inside these brackets
are tidy.  In particular the result type of a function ends where a tidy span can be cut.

* `Piece.Sound`              a piece with closed brackets around tidy spans;
* `unitLength?_of_tidy`      the type at the head of a tidy span ends where the span can be cut;
* `Piece.first_of_tidy`      the same for the first piece, which is sound;
* `pieces_sound`             all pieces of a tidy span are sound.
-/

namespace DocTypes

def Tail.Sound : Tail → Prop
  | .absent => True
  | .unclosed _ => False
  | .span tokens => Tidy tokens

def Piece.Sound : Piece → Prop
  | .plain _ | .pathless | .separator => True
  | .generic _ span | .group span | .record span => Tidy span
  | .function _ params result => Tidy params ∧ result.Sound
  | .reference _ _ args => args.Sound
  | .stray _ | .unclosed _ _ => False

/-! ## how far a type reaches -/

/-- a number of tokens at the head of a tidy span, behind which the span can be cut -/
def CutsAt (tokens : List Token) (n : Nat) : Prop :=
  ∃ front back, tokens = front ++ back ∧ front.length = n ∧ Tidy front ∧ Tidy back

theorem CutsAt.all {tokens : List Token} (h : Tidy tokens) : CutsAt tokens tokens.length :=
  ⟨tokens, [], (List.append_nil _).symm, rfl, h, .nil⟩

/-- behind a bracket, a span can be cut where its rest can -/
theorem CutsAt.bracket {b : Bracket} (hb : b ≠ .angle) {body rest : List Token} {n : Nat}
    (hbody : Tidy body) (h : CutsAt rest n) :
    CutsAt (.mark b.opener :: (body ++ .mark b.closer :: rest)) (n + (body.length + 2)) := by
  obtain ⟨front, back, rfl, rfl, hfront, hback⟩ := h
  refine ⟨.mark b.opener :: (body ++ .mark b.closer :: front), back, ?_, ?_,
    .bracket hb hbody hfront, hback⟩
  · rw [List.cons_append, List.append_assoc, List.cons_append]
  · simp only [List.length_cons, List.length_append]
    omega

theorem CutsAt.args (w : String) {body rest : List Token} {n : Nat} (hbody : Tidy body)
    (h : CutsAt rest n) :
    CutsAt (.word w :: .mark .lt :: (body ++ .mark .gt :: rest)) (n + (body.length + 3)) := by
  obtain ⟨front, back, rfl, rfl, hfront, hback⟩ := h
  refine ⟨.word w :: .mark .lt :: (body ++ .mark .gt :: front), back, ?_, ?_,
    .args w hbody hfront, hback⟩
  · rw [List.cons_append, List.cons_append, List.append_assoc, List.cons_append]
  · simp only [List.length_cons, List.length_append]
    omega

theorem CutsAt.paren {body rest : List Token} {n : Nat} (hbody : Tidy body) (h : CutsAt rest n) :
    CutsAt (.mark .lparen :: (body ++ .mark .rparen :: rest)) (n + (body.length + 2)) :=
  .bracket (b := .paren) Bracket.noConfusion hbody h

theorem CutsAt.separator {m : Mark} (hm : m.isSeparator = true) {rest : List Token} {n : Nat}
    (h : CutsAt rest n) : CutsAt (.mark m :: rest) (n + 1) := by
  obtain ⟨front, back, rfl, rfl, hfront, hback⟩ := h
  exact ⟨.mark m :: front, back, rfl, rfl, .separator hm hfront, hback⟩

theorem CutsAt.word {w : String} (hw : endsInDot w.toList = false) {rest : List Token} {n : Nat}
    (h : CutsAt rest n) : CutsAt (.word w :: rest) (n + 1) := by
  obtain ⟨front, back, rfl, rfl, hfront, hback⟩ := h
  exact ⟨.word w :: front, back, rfl, rfl, .word hw hfront, hback⟩

theorem CutsAt.zero {tokens : List Token} (h : Tidy tokens) : CutsAt tokens 0 :=
  ⟨[], tokens, rfl, rfl, .nil, h⟩

theorem CutsAt.take {tokens : List Token} {n : Nat} (h : CutsAt tokens n) :
    Tidy (tokens.take n) := by
  obtain ⟨front, back, rfl, rfl, hfront, -⟩ := h
  rwa [List.take_left]

theorem CutsAt.drop {tokens : List Token} {n : Nat} (h : CutsAt tokens n) :
    Tidy (tokens.drop n) := by
  obtain ⟨front, back, rfl, rfl, -, hback⟩ := h
  rwa [List.drop_left]

theorem unitLength?_of_tidy {tokens : List Token} (h : Tidy tokens) (hne : tokens ≠ []) :
    ∃ n, unitLength? tokens = some n ∧ CutsAt tokens n := by
  fun_induction unitLength? tokens with
  | case1 w rest =>
    obtain ⟨body, after, rfl, hbody, hafter⟩ := h.of_args
    have hn := Bracket.angle.interior?_of_nested hbody.nested after
    refine ⟨0 + (body.length + 3), ?_, .args w hbody (.zero hafter)⟩
    rw [show Token.mark .gt = .mark Bracket.angle.closer from rfl, hn, Option.map_some,
      Nat.zero_add]
  | case2 rest =>
    obtain ⟨body, after, rfl, hbody, hafter⟩ := h.of_bracket (b := .paren)
    have hn := Bracket.paren.interior?_of_nested hbody.nested after
    refine ⟨0 + (body.length + 2), ?_, .paren hbody (.zero hafter)⟩
    rw [hn, Option.map_some, Nat.zero_add]
  | case3 rest =>
    obtain ⟨body, after, rfl, hbody, hafter⟩ := h.of_bracket (b := .brace)
    have hn := Bracket.brace.interior?_of_nested hbody.nested after
    refine ⟨0 + (body.length + 2), ?_,
      .bracket (b := .brace) Bracket.noConfusion hbody (.zero hafter)⟩
    rw [hn, Option.map_some, Nat.zero_add]
  | case4 w rest _ hnone =>
    obtain ⟨-, ht⟩ := h.of_word nofun
    obtain ⟨body, after, rfl, hbody, -⟩ := ht.of_bracket (b := .paren)
    rw [Bracket.paren.interior?_of_nested hbody.nested after] at hnone
    cases hnone
  | case5 w rest _ n hn first more hdrop ih =>
    obtain ⟨hw, ht⟩ := h.of_word nofun
    obtain ⟨body, after, rfl, hbody, hafter⟩ := ht.of_bracket (b := .paren)
    obtain ⟨rfl, hsome⟩ := Bracket.paren.drop_interior hbody.nested hn
    obtain rfl : after = .mark .colon :: first :: more := hsome.symm.trans hdrop
    obtain ⟨k, hk, hcut⟩ := ih (hafter.of_separator rfl) nofun
    refine ⟨_, by rw [hk, Option.map_some], ?_⟩
    rw [show k + (body.length + 4) = k + 1 + (body.length + 2) + 1 by omega]
    exact .word hw (.paren hbody (.separator (m := .colon) rfl hcut))
  | case6 w rest _ n hn _ =>
    obtain ⟨hw, ht⟩ := h.of_word nofun
    obtain ⟨body, after, rfl, hbody, hafter⟩ := ht.of_bracket (b := .paren)
    obtain ⟨rfl, -⟩ := Bracket.paren.drop_interior hbody.nested hn
    refine ⟨_, rfl, ?_⟩
    rw [show body.length + 3 = 0 + (body.length + 2) + 1 by omega]
    exact .word hw (.paren hbody (.zero hafter))
  | case8 w rest _ => exact ⟨_, rfl, .all h⟩
  | case7 w rest _ | case9 w rest _ =>
    obtain ⟨hw, ht⟩ := h.of_word nofun
    exact ⟨1, rfl, .word hw (.zero ht)⟩
  | case10 tokens hargs hparen hbrace =>
    refine ⟨1, rfl, ?_⟩
    cases h with
    | nil => exact absurd rfl hne
    | separator hm hrest => exact .separator hm (.zero hrest)
    | word hw hrest => exact .word hw (.zero hrest)
    | args => exact (hargs _ _ rfl).elim
    | @bracket b hb =>
      cases b with
      | angle => exact absurd rfl hb
      | paren => exact (hparen _ rfl).elim
      | brace => exact (hbrace _ rfl).elim

/-! ## pieces -/

theorem resultTail_of_tidy {rest : List Token} (h : Tidy rest) :
    (resultTail rest).1.Sound ∧ Tidy (rest.drop (resultTail rest).2) := by
  fun_cases resultTail rest with
  | case1 first more n hn =>
    obtain ⟨k, hk, hcut⟩ := unitLength?_of_tidy (h.of_separator rfl) (List.cons_ne_nil _ _)
    obtain rfl := Option.some.inj (hn.symm.trans hk)
    exact ⟨hcut.take, hcut.drop⟩
  | case2 first more hn =>
    obtain ⟨k, hk, -⟩ := unitLength?_of_tidy (h.of_separator rfl) (List.cons_ne_nil _ _)
    cases hn.symm.trans hk
  | case3 => exact ⟨trivial, h⟩

theorem functionPiece_of_tidy (name : String) {rest : List Token}
    (h : Tidy (.mark .lparen :: rest)) :
    (functionPiece name rest).1.Sound ∧ Tidy (rest.drop (functionPiece name rest).2) := by
  obtain ⟨body, after, rfl, hbody, hafter⟩ := h.of_bracket (b := .paren)
  obtain ⟨hsound, hdrop⟩ := resultTail_of_tidy hafter
  have hpiece : functionPiece name (body ++ .mark Bracket.paren.closer :: after) = _ :=
    functionPiece_of_interior name (Bracket.paren.interior?_of_nested hbody.nested after)
  rw [hpiece, drop_past]
  exact ⟨⟨hbody, hsound⟩, hdrop⟩

theorem argumentTail_of_tidy {rest : List Token} (h : Tidy rest) :
    (argumentTail (rest.dropWhile (· != .mark .lt))).Sound := by
  rcases h.dropWhile_angle with hnone | ⟨body, more, hsome, hbody⟩
  · rw [hnone]
    trivial
  · have hn := Bracket.angle.interior?_of_nested hbody.nested more
    rw [hsome, argumentTail, show Token.mark .gt = .mark Bracket.angle.closer from rfl, hn]
    simpa only [Tail.Sound, List.take_left] using hbody

theorem referencePiece_of_tidy {rest : List Token} (h : Tidy rest) :
    (referencePiece rest).Sound := by
  fun_cases referencePiece rest with
  | case1 => trivial
  | case2 => exact argumentTail_of_tidy h

namespace Piece

theorem ofWord_of_tidy {w : String} {rest : List Token} (h : Tidy rest) :
    (ofWord w rest).1.Sound ∧ Tidy (rest.drop (ofWord w rest).2) := by
  fun_cases ofWord w rest with
  | case1 rest _ piece n hp =>
    have := functionPiece_of_tidy w h
    rwa [hp] at this
  | case3 rest _ =>
    rw [List.drop_succ_cons, List.drop_length]
    exact ⟨referencePiece_of_tidy (h.of_separator rfl), .nil⟩
  | case2 | case4 | case5 => exact ⟨trivial, h⟩

theorem first_of_tidy {t : Token} {rest : List Token} (h : Tidy (t :: rest)) :
    (first t rest).1.Sound ∧ Tidy (rest.drop (first t rest).2) := by
  fun_cases first t rest with
  | case1 w rest piece n hp =>
    obtain ⟨body, after, rfl, hbody, hafter⟩ := h.of_args
    have := bracketed_of_nested .angle w hbody.nested after
      (generic (String.ofList (dropDot w.toList)))
    obtain ⟨rfl, rfl⟩ := Prod.mk.inj (hp.symm.trans this)
    rw [List.drop_succ_cons, drop_past _ _ _ 0]
    exact ⟨hbody, hafter⟩
  | case2 w rest hlt hw =>
    have hhead : rest.head? ≠ some (.mark .lt) := fun e =>
      (List.head?_eq_some_iff.1 e).elim hlt
    cases (h.of_word hhead).1.symm.trans hw
  | case3 w rest hlt _ =>
    have hhead : rest.head? ≠ some (.mark .lt) := fun e =>
      (List.head?_eq_some_iff.1 e).elim hlt
    exact ofWord_of_tidy (h.of_word hhead).2
  | case4 rest =>
    obtain ⟨body, after, rfl, hbody, hafter⟩ := h.of_bracket (b := .paren)
    rw [bracketed_of_nested .paren _ hbody.nested, drop_past _ _ _ 0]
    exact ⟨hbody, hafter⟩
  | case5 rest =>
    obtain ⟨body, after, rfl, hbody, hafter⟩ := h.of_bracket (b := .brace)
    rw [bracketed_of_nested .brace _ hbody.nested, drop_past _ _ _ 0]
    exact ⟨hbody, hafter⟩
  | case6 m rest _ _ hm => exact ⟨trivial, h.of_separator hm⟩
  | case7 m rest hparen hbrace hm =>
    have hcloser := h.isCloser_eq_false
    have hlt := h.head?_ne_lt
    cases m <;> simp_all [Mark.isSeparator, Mark.isCloser]

end Piece

theorem pieces_sound {tokens : List Token} (h : Tidy tokens) :
    ∀ piece ∈ pieces tokens, piece.Sound := by
  fun_induction pieces tokens with
  | case1 => simp
  | case2 t rest piece n hp ih =>
    obtain ⟨hsound, hdrop⟩ := Piece.first_of_tidy h
    rw [hp] at hsound hdrop
    exact List.forall_mem_cons.2 ⟨hsound, ih hdrop⟩

end DocTypes
