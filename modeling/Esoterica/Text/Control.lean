/-!
Texts without control sequences. A control sequence starts with the escape character and says
something to a terminal. A text is read byte by byte; sequences and control characters are left out,
and what remains is what a terminal would show.
-/

namespace Esoterica.Text.Control

/-- Where a text stands with respect to control sequences. -/
inductive Place where
  /-- Outside of all sequences. -/
  | ground
  /-- Right after the escape character. -/
  | escape
  /-- After the escape character and marks that say how to read the byte that ends the sequence. -/
  | marked
  /-- In a sequence with parameters, which a letter ends. -/
  | parameters
  /-- At the start of a device string. -/
  | device
  /-- In the parameters of a device string. -/
  | deviceParameters
  /-- After the marks of a device string. -/
  | deviceMarked
  /-- In a string that only its terminator ends. -/
  | string
  /-- In a string that a bell ends. -/
  | title
deriving DecidableEq, Repr

namespace Place

/-- Where a text stands after one more byte. The escape character starts a sequence anywhere, and two
control characters break one off. -/
def after (place : Place) (byte : Nat) : Place :=
  if byte = 0x1B then escape
  else if byte = 0x18 ∨ byte = 0x1A then ground
  else match place with
    | ground => ground
    | escape =>
      if byte = 0x5B then parameters
      else if byte = 0x5D then title
      else if byte = 0x50 then device
      else if byte = 0x58 ∨ byte = 0x5E ∨ byte = 0x5F then string
      else if 0x20 ≤ byte ∧ byte ≤ 0x2F then marked
      else if 0x30 ≤ byte ∧ byte ≤ 0x7E then ground
      else escape
    | marked => if 0x30 ≤ byte ∧ byte ≤ 0x7E then ground else marked
    | parameters => if 0x40 ≤ byte ∧ byte ≤ 0x7E then ground else parameters
    | device =>
      if 0x20 ≤ byte ∧ byte ≤ 0x2F then deviceMarked
      else if 0x30 ≤ byte ∧ byte ≤ 0x3F then deviceParameters
      else if 0x40 ≤ byte ∧ byte ≤ 0x7E then string
      else device
    | deviceParameters =>
      if 0x20 ≤ byte ∧ byte ≤ 0x2F then deviceMarked
      else if 0x3C ≤ byte ∧ byte ≤ 0x7E then string
      else deviceParameters
    | deviceMarked => if 0x30 ≤ byte ∧ byte ≤ 0x7E then string else deviceMarked
    | string => if byte = 0x9C then ground else string
    | title => if byte = 0x07 then ground else title

/-- Where a text stands after the bytes of one more character. -/
def afterChar (place : Place) (c : Char) : Place :=
  (String.utf8EncodeChar c).foldl (fun place byte => place.after byte.toNat) place

end Place

/-- Control characters that only move on, which are part of a text. -/
def isMove (c : Char) : Bool :=
  c = '\t' || c = '\n' || c = '\x0c' || c = '\r'

/-- Whether a character shows outside of sequences. -/
def isPlain (c : Char) : Bool :=
  isMove c || (0x20 ≤ c.toNat && c.toNat != 0x7F)

/-- Whether a character shows at a place where nothing has shown before it. Moves show in all
sequences but strings. -/
def Place.reveals : Place → Char → Bool
  | ground, c => isPlain c
  | escape, c | marked, c | parameters, c => isMove c
  | _, _ => false

/-- How far a text has been read. Once a character shows, those after it show as well up to the next
that does not; a sequence that a move interrupted goes on from there. -/
structure Scan where
  place : Place := .ground
  showing : Bool := true
deriving DecidableEq, Repr

/-- Reads one more character and says whether it shows. -/
def Scan.read (scan : Scan) (c : Char) : Scan × Bool :=
  if scan.showing && isPlain c then
    ({ scan with place := if c.toNat < 0x80 then scan.place else .ground }, true)
  else if !scan.showing && scan.place.reveals c then
    ({ scan with showing := true }, true)
  else (⟨scan.place.afterChar c, false⟩, false)

/-- The characters that show. -/
def visible (scan : Scan) : List Char → List Char
  | [] => []
  | c :: rest =>
    let (scan, shows) := scan.read c
    if shows then c :: visible scan rest else visible scan rest

/-- The text without control sequences. -/
def strip (text : String) : String :=
  String.ofList (visible {} text.toList)

end Esoterica.Text.Control
