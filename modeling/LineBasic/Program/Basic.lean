import LineBasic.Statement.Printer
import Std.Data.TreeMap

/-! Programs: lists of numbered lines. The order of the numbers and their
uniqueness are up to the caller; `insert` keeps both where they hold. -/

namespace LineBasic

structure Program where
  lines : List Line
deriving DecidableEq, Repr, Inhabited

namespace Program

instance : EmptyCollection Program := ⟨⟨[]⟩⟩

/-- A program of the lines as given, in any order and with repeated numbers. -/
def ofList (lines : List Line) : Program := ⟨lines⟩

def size (program : Program) : Nat := program.lines.length

def isEmpty (program : Program) : Bool := program.lines.isEmpty

/-- Appends a line without a look at its number. -/
def push (program : Program) (line : Line) : Program :=
  ⟨program.lines ++ [line]⟩

/-- Puts a line before the first one with a larger number, or in the place of
one with its own number if that comes first. -/
def place (line : Line) : List Line → List Line
  | [] => [line]
  | first :: rest =>
      if first.number < line.number then first :: place line rest
      else if first.number = line.number then line :: rest
      else line :: first :: rest

def insert (program : Program) (line : Line) : Program :=
  ⟨place line program.lines⟩

/-- The first line that has the number. -/
def get? (program : Program) (number : LineNumber) : Option Line :=
  program.lines.find? (·.number = number)

/-- Takes out the first line that has the number. -/
def remove (program : Program) (number : LineNumber) :
    Option Line × Program :=
  match program.lines.findIdx? (·.number = number) with
  | none => (none, program)
  | some position =>
      (program.lines[position]?, ⟨program.lines.eraseIdx position⟩)

/-- For each line number the index of the first line that has it. -/
def lineIndex (program : Program) : Std.TreeMap LineNumber Nat :=
  program.lines.zipIdx.foldl
    (fun index (line, position) => index.insertIfNew line.number position) ∅

/-- The jumps in the program: the number of each line that has one, and its
target. -/
def jumps (program : Program) : List (LineNumber × LineNumber) :=
  program.lines.filterMap fun line =>
    line.statement.jumpTarget?.map (line.number, ·)

/-- The jumps to numbers that no line has. -/
def danglingJumps (program : Program) : List (LineNumber × LineNumber) :=
  let index := program.lineIndex
  program.jumps.filter fun jump => !index.contains jump.2

/-- The text of the program, a row for each line. -/
def listing (program : Program) : String :=
  "\n".intercalate (program.lines.map Line.text)

example :
    (insert ⟨[⟨30, .goto 10⟩, ⟨10, .goto 30⟩]⟩ ⟨20, .goto 20⟩).listing =
      "20 GOTO 20\n30 GOTO 10\n10 GOTO 30" := by
  decide

end Program

end LineBasic
