import Esoterica.Piet.Color

/-!
The commands of Piet. The change of hue and lightness from one block to the next selects a command.
-/

namespace Esoterica.Piet

inductive Command where
  | push
  | pop
  | add
  | subtract
  | multiply
  | divide
  | mod
  | not
  | greater
  | pointer
  | switch
  | duplicate
  | roll
  | inNumber
  | inChar
  | outNumber
  | outChar
deriving DecidableEq, Repr

namespace Command

def all : List Command :=
  [push, pop, add, subtract, multiply, divide, mod, not, greater, pointer, switch, duplicate, roll,
    inNumber, inChar, outNumber, outChar]

def name : Command → String
  | push => "push"
  | pop => "pop"
  | add => "add"
  | subtract => "subtract"
  | multiply => "multiply"
  | divide => "divide"
  | mod => "mod"
  | not => "not"
  | greater => "greater"
  | pointer => "pointer"
  | switch => "switch"
  | duplicate => "duplicate"
  | roll => "roll"
  | inNumber => "in_number"
  | inChar => "in_char"
  | outNumber => "out_number"
  | outChar => "out_char"

/-- The command in a log. -/
def title : Command → String
  | push => "Push"
  | pop => "Pop"
  | add => "Add"
  | subtract => "Subtract"
  | multiply => "Multiply"
  | divide => "Divide"
  | mod => "Mod"
  | not => "Not"
  | greater => "Greater"
  | pointer => "Pointer"
  | switch => "Switch"
  | duplicate => "Duplicate"
  | roll => "Roll"
  | inNumber => "InNumber"
  | inChar => "InChar"
  | outNumber => "OutNumber"
  | outChar => "OutChar"

def ofName? (text : String) : Option Command :=
  all.find? (·.name == text)

/-- A row for each change of hue, with the commands for the changes of lightness. -/
def table : Vector (Vector (Option Command) 3) 6 := #v[
  #v[none, some push, some pop],
  #v[some add, some subtract, some multiply],
  #v[some divide, some mod, some not],
  #v[some greater, some pointer, some switch],
  #v[some duplicate, some roll, some inNumber],
  #v[some inChar, some outNumber, some outChar]]

/-- The command that a move between two colors selects. -/
def between (first second : Color) : Option Command :=
  (first.stepsTo? second).bind fun (hue, lightness) => (table.get hue).get lightness

end Command

end Esoterica.Piet
