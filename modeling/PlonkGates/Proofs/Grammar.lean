import PlonkGates.Equation.Lexeme
import PlonkGates.Equation.Basic

/-!
# The grammar of programs

What a program is, said without a reader of programs. A text without its comments is split into
lexemes, with gaps around them (`Lexeme.Split`); there may be several ways to do so. A sentence of
lexemes is a program if a grammar derives it, with equations as values:

    program      {separator} body
    body         [equation], or equation separator {separator} body
    separator    newlines | ;
    equation     left = right
    left         [sign] term {sign term}
    term         [digits [*]] factors
    factors      word | word * word
    right        [sign] word | 0

A text derives equations if one of its splits does (`Grammar.Derives`).
-/

namespace PlonkGates

/-! ## Lexemes of a text -/

/-- A text without its comments, which run up to the end of a line. The flag says whether the text
starts inside of a comment. -/
def withoutComments : Bool → List Char → List Char
  | _, [] => []
  | inside, c :: cs =>
    if c = '\n' then c :: withoutComments false cs
    else if inside || c == '#' then withoutComments true cs
    else c :: withoutComments false cs

/-- The texts of the lexemes of a kind. -/
def LexemeKind.Spells : LexemeKind → List Char → Prop
  | sign, text => text = ['+'] ∨ text = ['-']
  | digits, text => text ≠ [] ∧ ∀ c ∈ text, Text.isAsciiDigit c = true
  | word, text => ∃ c cs, text = c :: cs ∧ Lexeme.isLetter c = true ∧
      ∀ d ∈ cs, Lexeme.isWordChar d = true
  | newlines, text => text ≠ [] ∧ ∀ c ∈ text, c = '\n'
  | semicolon, text => text = [';']
  | equals, text => text = ['=']
  | star, text => text = ['*']
  | zero, text => text = ['0']
  | stray, _ => False

namespace Lexeme

/-- The text is made of these lexemes, in order, with gaps around them. They need not be as long as
possible. The line of a lexeme is told by the line feeds before it, and `before` is the text up to
here; offsets and columns, which only messages show, are left open. -/
inductive Split : List Char → List Lexeme → List Char → Prop where
  | nil {before gap : List Char} (hgap : ∀ c ∈ gap, isGap c = true) : Split before [] gap
  | cons {before gap rest : List Char} {l : Lexeme} {ls : List Lexeme}
      (hgap : ∀ c ∈ gap, isGap c = true) (hspells : l.kind.Spells l.text)
      (hline : l.start.line = 1 + (before ++ gap).count '\n')
      (hrest : Split (before ++ gap ++ l.text) ls rest) :
      Split before (l :: ls) (gap ++ (l.text ++ rest))

/-- The text of a lexeme as a name or a coefficient. -/
def name (l : Lexeme) : String := String.ofList l.text

def isMinus (l : Lexeme) : Bool := l.text == ['-']

end Lexeme

namespace Grammar

/-! ## Rules -/

/-- `[digits [*]]`, with the digits as they are written. -/
inductive Coefficient : List Lexeme → Option String → Prop where
  | absent : Coefficient [] none
  | plain {c : Lexeme} (hc : c.kind = .digits) : Coefficient [c] (some c.name)
  | starred {c star : Lexeme} (hc : c.kind = .digits) (hstar : star.kind = .star) :
      Coefficient [c, star] (some c.name)

/-- `word`, or `word * word`. -/
inductive Factors : List Lexeme → List String → Prop where
  | linear {x : Lexeme} (hx : x.kind = .word) : Factors [x] [x.name]
  | quadratic {x star y : Lexeme} (hx : x.kind = .word) (hstar : star.kind = .star)
      (hy : y.kind = .word) : Factors [x, star, y] [x.name, y.name]

/-- A term without its sign. -/
inductive Term : List Lexeme → Option String → List String → Prop where
  | mk {cs fs : List Lexeme} {c : Option String} {names : List String} (hc : Coefficient cs c)
      (hf : Factors fs names) : Term (cs ++ fs) c names

/-- `{sign term}` -/
inductive SignedTerms : List Lexeme → List Equation.Term → Prop where
  | nil : SignedTerms [] []
  | cons {s : Lexeme} {ls rest : List Lexeme} {c : Option String} {names : List String}
      {terms : List Equation.Term} (hs : s.kind = .sign) (ht : Term ls c names)
      (hrest : SignedTerms rest terms) :
      SignedTerms (s :: (ls ++ rest)) (⟨s.isMinus, c, names⟩ :: terms)

/-- `[sign] term {sign term}` -/
inductive Left : List Lexeme → List Equation.Term → Prop where
  | unsigned {ls rest : List Lexeme} {c : Option String} {names : List String}
      {terms : List Equation.Term} (ht : Term ls c names) (hrest : SignedTerms rest terms) :
      Left (ls ++ rest) (⟨false, c, names⟩ :: terms)
  | signed {s : Lexeme} {ls rest : List Lexeme} {c : Option String} {names : List String}
      {terms : List Equation.Term} (hs : s.kind = .sign) (ht : Term ls c names)
      (hrest : SignedTerms rest terms) :
      Left (s :: (ls ++ rest)) (⟨s.isMinus, c, names⟩ :: terms)

/-- `[sign] word`, or `0`. -/
inductive Right : List Lexeme → Option PublicTerm → Prop where
  | zero {z : Lexeme} (hz : z.kind = .zero) : Right [z] none
  | plain {x : Lexeme} (hx : x.kind = .word) : Right [x] (some ⟨false, x.name⟩)
  | signed {s x : Lexeme} (hs : s.kind = .sign) (hx : x.kind = .word) :
      Right [s, x] (some ⟨s.isMinus, x.name⟩)

/-- `left = right`. The line of an equation is that of its first lexeme. -/
inductive Statement : List Lexeme → Equation → Prop where
  | mk {first eq : Lexeme} {left right : List Lexeme} {terms : List Equation.Term}
      {rhs : Option PublicTerm} (hleft : Left left terms) (hfirst : left.head? = some first)
      (heq : eq.kind = .equals) (hright : Right right rhs) :
      Statement (left ++ eq :: right) ⟨terms, rhs, some (first.start.line : Int)⟩

/-- Newlines and semicolons alone. -/
def Separators (ls : List Lexeme) : Prop := ∀ l ∈ ls, l.kind = .newlines ∨ l.kind = .semicolon

/-- Equations with separators between them, and possibly after the last one. -/
inductive Body : List Lexeme → List Equation → Prop where
  | nil : Body [] []
  | last {ls : List Lexeme} {e : Equation} (he : Statement ls e) : Body ls [e]
  | cons {ls seps rest : List Lexeme} {e : Equation} {es : List Equation} (he : Statement ls e)
      (hne : seps ≠ []) (hseps : Separators seps) (hrest : Body rest es) :
      Body (ls ++ (seps ++ rest)) (e :: es)

/-- A program, with its equations in order. -/
inductive Program : List Lexeme → List Equation → Prop where
  | mk {seps rest : List Lexeme} {es : List Equation} (hseps : Separators seps)
      (hrest : Body rest es) : Program (seps ++ rest) es

/-- The equations that a text stands for, in one of its splits into lexemes. -/
def Derives (text : List Char) (es : List Equation) : Prop :=
  ∃ ls, Lexeme.Split [] ls (withoutComments false text) ∧ Program ls es

end Grammar

end PlonkGates
