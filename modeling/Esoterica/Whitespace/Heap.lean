import Esoterica.Word

/-!
The heap: words stored under words. Nothing stored reads as zero.
-/

namespace Esoterica.Whitespace

/-- Addresses in ascending order, with what is stored there. -/
structure Heap where
  cells : List (Word × Word) := []
deriving DecidableEq, Repr

namespace Heap

/-- Puts a cell in its place among cells in ascending order. -/
def insertCell (address value : Word) : List (Word × Word) → List (Word × Word)
  | [] => [(address, value)]
  | (other, stored) :: rest =>
    if address < other then (address, value) :: (other, stored) :: rest
    else if address = other then (address, value) :: rest
    else (other, stored) :: insertCell address value rest

def insert (heap : Heap) (address value : Word) : Heap :=
  ⟨insertCell address value heap.cells⟩

def get (heap : Heap) (address : Word) : Word :=
  (heap.cells.lookup address).getD 0

def size (heap : Heap) : Nat :=
  heap.cells.length

end Heap

end Esoterica.Whitespace
