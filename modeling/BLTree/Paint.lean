/-!
# Coloured text

A text in spans, some of which have a colour. It is written out with the escape sequences of a
terminal around each coloured span, or without any.
-/

namespace BLTree

inductive Colour where
  | green
  | yellow
  | blue
  | magenta
  deriving DecidableEq

/-- The digit of the foreground colour in an escape sequence. -/
def Colour.digit : Colour → Char
  | green => '2'
  | yellow => '3'
  | blue => '4'
  | magenta => '5'

structure Span where
  text : List Char
  colour : Option Colour
  deriving DecidableEq

namespace Span

def plain (text : List Char) : Span := ⟨text, none⟩

def painted (colour : Colour) (text : List Char) : Span := ⟨text, some colour⟩

/-- The escape sequence with the given parameters. -/
def sequence (parameters : List Char) : List Char := '\x1b' :: '[' :: parameters ++ ['m']

def chars (coloured : Bool) (span : Span) : List Char :=
  match span.colour with
  | some colour =>
    if coloured then
      sequence ['0'] ++ sequence ['1'] ++ sequence ['3', colour.digit] ++ span.text ++
        sequence ['0']
    else span.text
  | none => span.text

/-- The text of a list of spans. -/
def render (coloured : Bool) (spans : List Span) : List Char := spans.flatMap (chars coloured)

end Span

end BLTree
