/-!
# Words

Words are made of ASCII letters, digits and underscores, and keywords, class aliases and builtin
functions are compared without regard to the case of ASCII letters. No other character has a case
here.
-/

namespace ClassScript

/-- The word with every ASCII capital made small. -/
def lower (s : String) : String := String.ofList (s.toList.map Char.toLower)

/-- Whether two words differ at most in the case of ASCII letters. -/
def sameWord (a b : String) : Bool := lower a == lower b

def isWordStart (c : Char) : Bool := c.isAlpha || c == '_'

def isWordChar (c : Char) : Bool := c.isAlphanum || c == '_'

/-- The pieces between separators, in order: one more than there are separators. -/
def segments (sep : Char) : List Char → List (List Char)
  | [] => [[]]
  | c :: cs =>
    if c = sep then [] :: segments sep cs
    else match segments sep cs with
      | [] => [[c]]
      | piece :: rest => (c :: piece) :: rest

/-- The list without repetitions; the first of equal entries stays. -/
def firsts [BEq α] (xs : List α) : List α := xs.eraseDups

end ClassScript
