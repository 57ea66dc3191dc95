import Esoterica.Json
import Esoterica.Language
import Esoterica.Word

/-!
Snapshots: a view of a machine for diagnosis.
-/

namespace Esoterica

/-- The state of a machine in excerpts. Registers and labels are sorted by name. -/
structure Snapshot where
  language : Language
  cycles : Nat
  registers : List (String × Json)
  /-- Values from the top of the stack down. -/
  stack : List Word
  /-- Addresses with their values. -/
  memory : List (Int × Int)
  labels : List (String × Nat)

namespace Snapshot

/-- How many values of the stack a snapshot holds. -/
def stackLimit : Nat := 32

/-- How many cells of the memory a snapshot holds. -/
def memoryLimit : Nat := 64

def toJson (snapshot : Snapshot) : Json :=
  .record [
    ("language", .text snapshot.language.name),
    ("cycles", .nat snapshot.cycles),
    ("registers", .record snapshot.registers),
    ("stack", .array (snapshot.stack.map fun value => .int value.toInt)),
    ("memory", .array (snapshot.memory.map fun (address, value) =>
      .array [.int address, .int value])),
    ("labels", .record (snapshot.labels.map fun (label, index) => (label, .nat index)))]

end Snapshot

end Esoterica
