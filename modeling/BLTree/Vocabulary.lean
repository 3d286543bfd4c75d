/-!
# The words of BL

Three closed lists (keywords, condition names, primitive instructions) and the rule for identifiers:
a letter followed by letters, digits and underscores, in neither of the first two lists. Letters and
digits are the ASCII ones.
-/

namespace BLTree.Vocabulary

/-- The keywords, in the order in which the grammar uses them. -/
def keywords : List String :=
  ["PROGRAM", "IS", "BEGIN", "END", "INSTRUCTION", "IF", "THEN", "ELSE", "WHILE", "DO"]

def conditions : List String :=
  ["next-is-empty", "next-is-not-empty", "next-is-wall", "next-is-not-wall", "next-is-friend",
    "next-is-not-friend", "next-is-enemy", "next-is-not-enemy", "random", "true"]

/-- Instructions that every program may call and none may define. -/
def primitives : List String :=
  ["move", "turnleft", "turnright", "infect", "skip"]

def isKeyword (word : String) : Bool := keywords.contains word

def isCondition (word : String) : Bool := conditions.contains word

def isPrimitive (word : String) : Bool := primitives.contains word

/-- What may follow the first letter of an identifier. -/
def isWordChar (c : Char) : Bool := c.isAlphanum || c == '_'

def hasIdentifierShape (word : String) : Bool :=
  match word.toList with
  | [] => false
  | first :: others => first.isAlpha && others.all isWordChar

def isIdentifier (word : String) : Bool :=
  hasIdentifierShape word && !isKeyword word && !isCondition word

end BLTree.Vocabulary
