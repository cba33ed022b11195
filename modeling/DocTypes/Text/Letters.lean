/-!
# Letters compared without regard to case

Names are compared with words of Basic Latin letters only.  For that it is enough to change the
characters whose capital (or small) form is Basic Latin; every other character stands for itself,
since it could never become part of such a word.

* `capitals`  the capital form of one character, which for a ligature or `ß` is several letters;
* `upper`     a text in capitals;
* `lower`     a text in small letters.
-/

namespace DocTypes.Text

def capitals (c : Char) : List Char :=
  match c with
  | 'ß' => ['S', 'S']
  | 'ı' => ['I']
  | 'ſ' => ['S']
  | 'ﬀ' => ['F', 'F']
  | 'ﬁ' => ['F', 'I']
  | 'ﬂ' => ['F', 'L']
  | 'ﬃ' => ['F', 'F', 'I']
  | 'ﬄ' => ['F', 'F', 'L']
  | 'ﬅ' => ['S', 'T']
  | 'ﬆ' => ['S', 'T']
  | c => [c.toUpper]

def upper (s : String) : String := String.ofList (s.toList.flatMap capitals)

/-- a character that is its own capital form is found in the capital form of a text -/
theorem mem_upper {c : Char} (hself : capitals c = [c]) {s : String} (hc : c ∈ s.toList) :
    c ∈ (upper s).toList := by
  rw [upper, String.toList_ofList]
  refine List.mem_flatMap.2 ⟨c, hc, ?_⟩
  rw [hself]
  exact List.mem_singleton.2 rfl

/-- the small form of one character; the Kelvin sign is a capital `k` too -/
def small (c : Char) : Char := if c == '\u212a' then 'k' else c.toLower

def lower (s : String) : String := String.ofList (s.toList.map small)

end DocTypes.Text
