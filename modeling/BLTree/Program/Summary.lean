import BLTree.Paint
import BLTree.Program.Basic

/-!
# Summaries

The name of a program, how many procedures it has and which, how many statements there are in all,
and a coloured `ok`.
-/

namespace BLTree.Program

/-- The number of nodes in the body and in all procedures. -/
def statementCount (p : Program) : Nat :=
  Tree.sizeList (p.context.entries.map fun entry ↦ entry.2.tree) + p.body.tree.size

def summaryLine (words : List Char) : Span := .plain (words ++ ['\n'])

def summarySpans (p : Program) : List Span :=
  [summaryLine ("program ".toList ++ p.name.text.toList),
    summaryLine ("  procedures: ".toList ++ Nat.toDigits 10 p.context.entries.length)] ++
    p.context.names.map (fun name ↦ summaryLine ("    ".toList ++ name.text.toList)) ++
    [summaryLine ("  statements: ".toList ++ Nat.toDigits 10 p.statementCount),
      .painted .green "ok".toList, .plain ['\n']]

def summaryChars (coloured : Bool) (p : Program) : List Char := Span.render coloured p.summarySpans

def summary (coloured : Bool) (p : Program) : String := String.ofList (p.summaryChars coloured)

end BLTree.Program
