/-!
# Conditions

The ten tests that guard an IF, an IF_ELSE or a WHILE. Their order is that of the constructors.
-/

namespace BLTree

inductive Condition where
  | nextIsEmpty
  | nextIsNotEmpty
  | nextIsWall
  | nextIsNotWall
  | nextIsFriend
  | nextIsNotFriend
  | nextIsEnemy
  | nextIsNotEnemy
  | random
  | always
  deriving DecidableEq, Ord

namespace Condition

def all : List Condition :=
  [nextIsEmpty, nextIsNotEmpty, nextIsWall, nextIsNotWall, nextIsFriend, nextIsNotFriend,
    nextIsEnemy, nextIsNotEnemy, random, always]

/-- How the condition is written in a program. -/
def spelling : Condition → String
  | nextIsEmpty => "next-is-empty"
  | nextIsNotEmpty => "next-is-not-empty"
  | nextIsWall => "next-is-wall"
  | nextIsNotWall => "next-is-not-wall"
  | nextIsFriend => "next-is-friend"
  | nextIsNotFriend => "next-is-not-friend"
  | nextIsEnemy => "next-is-enemy"
  | nextIsNotEnemy => "next-is-not-enemy"
  | random => "random"
  | always => "true"

def parse? (word : String) : Option Condition :=
  all.find? fun c ↦ c.spelling == word

theorem mem_all (c : Condition) : c ∈ all := by
  cases c <;> decide

theorem parse?_spelling (c : Condition) : parse? c.spelling = some c := by
  cases c <;> decide

theorem spelling_injective {c d : Condition} (h : c.spelling = d.spelling) : c = d := by
  have hparse : some c = some d := by
    rw [← parse?_spelling c, ← parse?_spelling d, h]
  exact Option.some.inj hparse

theorem spelling_of_parse? {word : String} {c : Condition} (h : parse? word = some c) :
    c.spelling = word := by
  simpa using List.find?_some h

end Condition

end BLTree
