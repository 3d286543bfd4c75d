import BLTree.Program.Basic
import BLTree.Statement.Shape

/-!
# Faults

Everything that can be wrong with given words, trees and programs, in four families. The family
gives the heading, the code and the advice; the fault gives the message.
-/

namespace BLTree

inductive Fault where
  | identifier (word : String) (why : Identifier.Rejection)
  | condition (word : String)
  | tree (flaw : Statement.Flaw)
  | program (defect : Program.Defect)
  deriving DecidableEq

namespace Fault

inductive Family where
  | identifier
  | condition
  | tree
  | program
  deriving DecidableEq

namespace Family

def name : Family → String
  | identifier => "Identifier"
  | condition => "Condition"
  | tree => "Tree"
  | program => "Program"

def heading : Family → String
  | identifier => "Invalid identifier"
  | condition => "Unknown condition"
  | tree => "Malformed statement tree"
  | program => "Malformed program"

def code : Family → String
  | identifier => "bl::identifier"
  | condition => "bl::condition"
  | tree => "bl::tree"
  | program => "bl::program"

def help? : Family → Option String
  | identifier =>
    some <| "identifiers start with a letter, continue with letters, digits or '_', " ++
      "and may not be reserved words"
  | condition =>
    some <| "conditions are next-is-[not-]empty, next-is-[not-]wall, next-is-[not-]friend, " ++
      "next-is-[not-]enemy, random, true"
  | tree =>
    some <| "IF and WHILE take one BLOCK child, IF_ELSE two, CALL none, " ++
      "and a BLOCK may not directly contain a BLOCK"
  | program => none

/-- A message under the heading of its family. -/
def headed (family : Family) (message : String) : String := family.heading ++ ": " ++ message

end Family

def family : Fault → Family
  | identifier _ _ => .identifier
  | condition _ => .condition
  | tree _ => .tree
  | program _ => .program

def message : Fault → String
  | identifier word why => "'" ++ word ++ "' " ++ why.reason
  | condition word => "'" ++ word ++ "'"
  | tree flaw => flaw.message
  | program defect => defect.message

def toText (fault : Fault) : String := fault.family.headed fault.message

end Fault

/-- The identifier that a word is, or the fault that it is not one. -/
def readIdentifier (word : String) : Except Fault Identifier :=
  (Identifier.parse word).mapError (.identifier word)

/-- The condition that a word names, or the fault that it names none. -/
def readCondition (word : String) : Except Fault Condition :=
  match Condition.parse? word with
  | some c => .ok c
  | none => .error (.condition word)

end BLTree
