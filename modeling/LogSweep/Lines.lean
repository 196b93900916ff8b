-- Line and column of a byte offset. Lines end at a newline byte; both counts start at one and
-- the column counts bytes.
import LogSweep.Text

namespace LogSweep

/-- The byte offsets at which the lines of a source start, ascending, from zero. -/
structure Lines where
  starts : List Nat
  deriving DecidableEq, Repr

namespace Lines

/-! ## Where lines start -/

/-- The offsets just after each newline, for bytes that begin at `offset`. No other character has
the byte of a newline in it. -/
def afterNewlines (offset : Nat) : List UInt8 → List Nat
  | [] => []
  | b :: bs =>
    if b = 10 then (offset + 1) :: afterNewlines (offset + 1) bs else afterNewlines (offset + 1) bs

def ofSource (source : String) : Lines := ⟨0 :: afterNewlines 0 (Text.bytes source.toList)⟩

/-! ## Searching -/

/-- Where a search among ascending numbers ends: at the number, or at the index of the first one
above it. -/
inductive Found
  | hit (index : Nat)
  | miss (index : Nat)
  deriving DecidableEq, Repr

/-- Searches for a number between two indices, half of the rest at a time. -/
def searchBetween (xs : List Nat) (x low high : Nat) (hhigh : high ≤ xs.length) : Found :=
  if hlow : low < high then
    let middle := low + (high - low) / 2
    have hmiddle : middle < xs.length := by omega
    if xs[middle] = x then .hit middle
    else if xs[middle] < x then searchBetween xs x (middle + 1) high hhigh
    else searchBetween xs x low middle (Nat.le_of_lt hmiddle)
  else .miss low
termination_by high - low

def search (xs : List Nat) (x : Nat) : Found := searchBetween xs x 0 xs.length (Nat.le_refl _)

/-! ## Lines and columns -/

/-- The line that a search for an offset among the starts of lines comes to, counted from one. -/
def Found.line : Found → Nat
  | .hit index => index + 1
  | .miss index => index

def lineOf (lines : Lines) (offset : Nat) : Nat := (search lines.starts offset).line

/-- The start of a line, counted from one. -/
def startOf? (lines : Lines) (line : Nat) : Option Nat :=
  if line = 0 then none else lines.starts[line - 1]?

/-- Line and column of an offset, which may lie past the end. -/
def position (lines : Lines) (offset : Nat) : Nat × Nat :=
  let line := lines.lineOf offset
  (line, offset - (lines.startOf? line).getD 0 + 1)

end Lines

end LogSweep
