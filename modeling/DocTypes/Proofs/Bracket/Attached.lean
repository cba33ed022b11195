import DocTypes.Proofs.Bracket.Nested
import Mathlib.Data.List.Chain

/-!
# Spans whose angle brackets open behind words

A closing mark followed by an angle bracket, as in `(a)<b>`, shows that a word is missing.

* `Attached`              nested spans in which angle brackets open behind words only;
* `Attached.no_wordless`  in such a span none opens right behind a closing mark;
* `joins_attached`        spans one after the other keep this.
-/

namespace DocTypes

inductive Attached : List Token → Prop where
  | nil : Attached []
  | separator {m : Mark} {rest : List Token} (hm : m.isSeparator = true)
    (hrest : Attached rest) : Attached (.mark m :: rest)
  | word (w : String) {rest : List Token} (hrest : Attached rest) : Attached (.word w :: rest)
  | args (w : String) {body rest : List Token} (hbody : Attached body) (hrest : Attached rest) :
    Attached (.word w :: .mark .lt :: (body ++ .mark .gt :: rest))
  | bracket {b : Bracket} (hb : b ≠ .angle) {body rest : List Token} (hbody : Attached body)
      (hrest : Attached rest) :
    Attached (.mark b.opener :: (body ++ .mark b.closer :: rest))

/-- an angle bracket right behind a closing mark -/
def Wordless (a b : Token) : Prop := a.isCloser = true ∧ b = .mark .lt

instance (a b : Token) : Decidable (Wordless a b) := inferInstanceAs (Decidable (_ ∧ _))

namespace Attached

theorem nested {tokens : List Token} (h : Attached tokens) : Nested tokens := by
  induction h with
  | nil => exact .nil
  | @separator m rest hm _ ih => exact .plain (by cases m <;> first | rfl | cases hm) ih
  | word w _ ih => exact ih.word w
  | args w _ _ ihbody ihrest => exact (Nested.bracket .angle ihbody ihrest).word w
  | bracket _ _ _ ihbody ihrest => exact .bracket _ ihbody ihrest

theorem append {a b : List Token} (ha : Attached a) (hb : Attached b) : Attached (a ++ b) := by
  induction ha with
  | nil => exact hb
  | separator hm _ ih => exact .separator hm ih
  | word w _ ih => exact .word w ih
  | args w hbody _ _ ih =>
    rw [List.cons_append, List.cons_append, List.append_assoc, List.cons_append]
    exact .args w hbody ih
  | bracket hb hbody _ _ ih =>
    rw [List.cons_append, List.append_assoc, List.cons_append]
    exact .bracket hb hbody ih

theorem head?_ne_lt {tokens : List Token} (h : Attached tokens) :
    tokens.head? ≠ some (.mark .lt) := by
  cases h with
  | nil | word | args => simp
  | separator hm => rintro ⟨⟩; cases hm
  | @bracket b hb => cases b <;> simp_all [Bracket.opener]

theorem no_wordless {tokens : List Token} (h : Attached tokens) :
    tokens.IsChain (¬Wordless · ·) := by
  have hclosed (b : Bracket) {body rest : List Token} (hrest : Attached rest)
      (hbody : body.IsChain (¬Wordless · ·))
      (hrestChain : rest.IsChain (¬Wordless · ·)) :
      (body ++ .mark b.closer :: rest).IsChain (¬Wordless · ·) := by
    have hcloser : Token.mark b.closer ≠ .mark .lt := by cases b <;> decide
    refine hbody.append (List.isChain_cons.2 ⟨?_, hrestChain⟩) ?_
    · rintro y hy ⟨-, rfl⟩
      exact hrest.head?_ne_lt hy
    · rintro x - y ⟨⟩ ⟨-, hlt⟩
      exact hcloser hlt
  induction h with
  | nil => exact .nil
  | @separator m rest hm _ ih =>
    refine List.isChain_cons.2 ⟨?_, ih⟩
    have hplain : m.isCloser = false := by cases m <;> first | rfl | cases hm
    exact fun y _ h => Bool.noConfusion (hplain.symm.trans h.1)
  | word w _ ih => exact List.isChain_cons.2 ⟨fun y _ h => Bool.noConfusion h.1, ih⟩
  | args w _ hrest ihbody ihrest =>
    refine List.isChain_cons_cons.2 ⟨fun h => Bool.noConfusion h.1, List.isChain_cons.2 ⟨?_, ?_⟩⟩
    · exact fun y _ h => Bool.noConfusion h.1
    · exact hclosed .angle hrest ihbody ihrest
  | @bracket b hb _ _ _ hrest ihbody ihrest =>
    refine List.isChain_cons.2 ⟨?_, hclosed b hrest ihbody ihrest⟩
    rintro y - ⟨hcloser, -⟩
    cases b <;> cases hcloser

end Attached

theorem joins_attached : Joins Attached := ⟨.nil, .append⟩

theorem attached_comma : Attached [.mark .comma] := .separator rfl .nil

end DocTypes
