/-!
# Tokens of a type expression

An expression is read as a list of tokens.  A token is one of nine marks, each a single
character, or a word: any other piece of text.

* `Token.ofText`  the token with a given text;
* `Token.text`    the text of a token.
-/

namespace DocTypes

inductive Mark where
  | lt | gt | comma | lparen | rparen | bar | lbrace | rbrace | colon
  deriving DecidableEq, Repr

namespace Mark

def char : Mark → Char
  | lt => '<'
  | gt => '>'
  | comma => ','
  | lparen => '('
  | rparen => ')'
  | bar => '|'
  | lbrace => '{'
  | rbrace => '}'
  | colon => ':'

def ofChar? : Char → Option Mark
  | '<' => some lt
  | '>' => some gt
  | ',' => some comma
  | '(' => some lparen
  | ')' => some rparen
  | '|' => some bar
  | '{' => some lbrace
  | '}' => some rbrace
  | ':' => some colon
  | _ => none

/-- the marks that open a bracket -/
def isOpener : Mark → Bool
  | lt | lparen | lbrace => true
  | _ => false

/-- the marks that close a bracket -/
def isCloser : Mark → Bool
  | gt | rparen | rbrace => true
  | _ => false

/-- the marks that only part one type from the next -/
def isSeparator : Mark → Bool
  | bar | comma | colon => true
  | _ => false

theorem ofChar?_char (m : Mark) : ofChar? m.char = some m := by cases m <;> rfl

theorem char_of_ofChar? {c : Char} {m : Mark} (h : ofChar? c = some m) : m.char = c := by
  unfold ofChar? at h
  split at h <;> simp_all <;> subst h <;> rfl

end Mark

inductive Token where
  | mark (m : Mark)
  | word (text : String)
  deriving DecidableEq, Repr

namespace Token

def text : Token → String
  | mark m => String.singleton m.char
  | word s => s

/-- a text of one mark's character is that mark, any other text a word -/
def ofText (s : String) : Token :=
  match s.toList with
  | [c] => ((Mark.ofChar? c).map mark).getD (word s)
  | _ => word s

def isOpener : Token → Bool
  | mark m => m.isOpener
  | word _ => false

def isCloser : Token → Bool
  | mark m => m.isCloser
  | word _ => false

theorem text_ofText (s : String) : (ofText s).text = s := by
  unfold ofText
  split
  · rename_i c hc
    cases h : Mark.ofChar? c with
    | none => rfl
    | some m =>
      have : m.char = c := Mark.char_of_ofChar? h
      simp [text, this, String.singleton_eq_ofList, ← hc]
  · rfl

/-- the tokens of a span, written one after the other -/
def joined (tokens : List Token) : String := String.join (tokens.map text)

end Token

end DocTypes
