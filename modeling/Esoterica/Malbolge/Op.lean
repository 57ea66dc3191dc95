/-!
The instructions of Malbolge. Which one a cell holds depends on its value and on its address, and a
cell that has been carried out is replaced by another through a fixed cipher.
-/

namespace Esoterica.Malbolge

inductive Op where
  | jump
  | output
  | input
  | rotate
  | move
  | crazy
  | nop
  | halt
deriving DecidableEq, Repr

namespace Op

/-- The values that stand for instructions. -/
def legal : List Int :=
  [4, 5, 23, 39, 40, 62, 68, 81]

def ofValue? (value : Int) : Option Op :=
  if value = 4 then some jump
  else if value = 5 then some output
  else if value = 23 then some input
  else if value = 39 then some rotate
  else if value = 40 then some move
  else if value = 62 then some crazy
  else if value = 68 then some nop
  else if value = 81 then some halt
  else none

/-- The instruction that a cell holds at an address. Other values do nothing. -/
def decode (cell : Int) (address : Nat) : Op :=
  (ofValue? ((cell + address) % 94)).getD nop

/-- The instruction in a log. -/
def name : Op → String
  | jump => "Jump"
  | output => "Output"
  | input => "Input"
  | rotate => "Rotate"
  | move => "Move"
  | crazy => "Crazy"
  | nop => "Nop"
  | halt => "Halt"

end Op

/-- What the 94 printable characters are replaced by. -/
def cipher : String :=
  "5z]&gqtyfr$(we4\x7bWP)H-Zn,[%\\3dL+Q;>U!pJS72FhOA1CB6v^=I_0/8|jsb9m<.TVac`uY*MK'X~xDl\x7dREokN:#?G\"i@"

/-- The codes of the cipher. -/
def cipherCodes : Array Int :=
  (cipher.toList.map fun c => (c.toNat : Int)).toArray

/-- The value of a cell after it has been carried out. -/
def encrypt (value : Int) : Int :=
  (cipherCodes[((value - 33) % 94).toNat]?).getD 33

end Esoterica.Malbolge
