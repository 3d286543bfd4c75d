import BLTree.Vocabulary

/-!
# Identifiers

An identifier is a word that carries the proof that it is one. `Identifier.parse` is the only gate:
a refused word comes with the first reason that applies to it, and a word has no reason against it
exactly when it is an identifier (`rejection?_eq_none_iff`).
-/

namespace BLTree

structure Identifier where
  text : String
  valid : Vocabulary.isIdentifier text = true
  deriving DecidableEq

namespace Identifier

open Vocabulary

/-- Why a word is no identifier. -/
inductive Rejection where
  | empty
  | shape
  | keyword
  | condition
  deriving DecidableEq

def Rejection.reason : Rejection → String
  | .empty => "is empty"
  | .shape => "must start with a letter and contain only letters, digits and '_'"
  | .keyword => "is a keyword"
  | .condition => "is a condition"

/-- The first reason against a word, in the order of the constructors. -/
def rejection? (word : String) : Option Rejection :=
  if word = "" then some .empty
  else if !hasIdentifierShape word then some .shape
  else if isKeyword word then some .keyword
  else if isCondition word then some .condition
  else none

theorem rejection?_eq_none_iff (word : String) :
    rejection? word = none ↔ isIdentifier word = true := by
  unfold rejection? isIdentifier
  by_cases hempty : word = ""
  · subst hempty
    simp [hasIdentifierShape]
  · cases hasIdentifierShape word <;> cases isKeyword word <;> cases isCondition word <;>
      simp [hempty]

def parse (word : String) : Except Rejection Identifier :=
  match h : rejection? word with
  | some why => .error why
  | none => .ok ⟨word, (rejection?_eq_none_iff word).mp h⟩

/-- An identifier consists of letters, digits and underscores. -/
theorem isWordChar_of_mem (name : Identifier) {c : Char} (hc : c ∈ name.text.toList) :
    isWordChar c = true := by
  have hshape : hasIdentifierShape name.text = true := by
    have hvalid := name.valid
    simp only [isIdentifier, Bool.and_eq_true] at hvalid
    exact hvalid.1.1
  unfold hasIdentifierShape at hshape
  split at hshape
  · cases hshape
  · rename_i first others htext
    rw [htext] at hc
    have hchars := (Bool.and_eq_true _ _).mp hshape
    rcases List.mem_cons.mp hc with rfl | hc
    · simp [isWordChar, Char.isAlphanum, hchars.1]
    · exact List.all_eq_true.mp hchars.2 c hc

def isPrimitive (name : Identifier) : Bool := Vocabulary.isPrimitive name.text

/-- Identifiers are ordered as their texts are. -/
instance : LT Identifier := ⟨fun a b ↦ a.text < b.text⟩

instance (a b : Identifier) : Decidable (a < b) :=
  inferInstanceAs (Decidable (a.text < b.text))

instance : Ord Identifier := ⟨fun a b ↦ compare a.text b.text⟩

theorem lt_trans {a b c : Identifier} (hab : a < b) (hbc : b < c) : a < c :=
  String.lt_trans hab hbc

theorem lt_irrefl (a : Identifier) : ¬ a < a :=
  String.lt_irrefl a.text

@[ext]
theorem ext {a b : Identifier} (h : a.text = b.text) : a = b := by
  cases a
  cases b
  simp only at h
  subst h
  rfl

theorem lt_of_not_lt_of_ne {a b : Identifier} (hlt : ¬ a < b) (hne : a ≠ b) : b < a := by
  have hle : b.text ≤ a.text := hlt
  have hText : b.text ≠ a.text := fun h ↦ hne (ext h.symm)
  show b.text < a.text
  exact Std.lt_of_le_of_ne hle hText

end Identifier

end BLTree
