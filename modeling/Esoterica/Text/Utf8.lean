/-!
Bytes as UTF-8 text. A malformed sequence is cut after the longest start of a well-formed one, so
that every byte belongs to one character or to one malformed piece.
-/

namespace Esoterica.Text.Utf8

/-- What the bytes of a sequence read so far promise: this many more bytes, the next of them in a
range, and the bits of the code point up to here. -/
structure Pending where
  first : Nat
  last : Nat
  missing : Nat
  bits : Nat

/-- What a byte above 127 promises when it leads a sequence. The narrow ranges keep out long
spellings, surrogates and numbers past the last code point. -/
def Pending.ofLead? (byte : Nat) : Option Pending :=
  if 0xC2 ≤ byte ∧ byte ≤ 0xDF then some ⟨0x80, 0xBF, 1, byte - 0xC0⟩
  else if byte = 0xE0 then some ⟨0xA0, 0xBF, 2, 0⟩
  else if byte = 0xED then some ⟨0x80, 0x9F, 2, 0xD⟩
  else if 0xE1 ≤ byte ∧ byte ≤ 0xEF then some ⟨0x80, 0xBF, 2, byte - 0xE0⟩
  else if byte = 0xF0 then some ⟨0x90, 0xBF, 3, 0⟩
  else if byte = 0xF4 then some ⟨0x80, 0x8F, 3, 4⟩
  else if 0xF1 ≤ byte ∧ byte ≤ 0xF3 then some ⟨0x80, 0xBF, 3, byte - 0xF0⟩
  else none

/-- Reads a byte that starts a sequence: the piece it completes, or what it promises. -/
def startByte (byte : Nat) : List (Option Char) × Option Pending :=
  if byte < 0x80 then ([some (Char.ofNat byte)], none)
  else match Pending.ofLead? byte with
    | some lead => ([], some lead)
    | none => ([none], none)

/-- Reads a byte: the pieces it completes, and what is pending after it. A byte that breaks a
sequence is read again as the start of the next. -/
def readByte (pending : Option Pending) (byte : Nat) : List (Option Char) × Option Pending :=
  match pending with
  | none => startByte byte
  | some ⟨first, last, missing, bits⟩ =>
    if first ≤ byte ∧ byte ≤ last then
      let sum := bits * 64 + (byte - 0x80)
      if missing ≤ 1 then ([some (Char.ofNat sum)], none)
      else ([], some ⟨0x80, 0xBF, missing - 1, sum⟩)
    else
      let (pieces, pending) := startByte byte
      (none :: pieces, pending)

/-- The pieces of a byte string: a character for each well-formed sequence and `none` for each
malformed one. -/
def pieces (pending : Option Pending) : List UInt8 → List (Option Char)
  | [] => if pending.isSome then [none] else []
  | byte :: rest =>
    let (complete, pending) := readByte pending byte.toNat
    complete ++ pieces pending rest

/-- The text of a byte string, if all of it is well formed. -/
def decode? (bytes : List UInt8) : Option String :=
  ((pieces none bytes).mapM id).map String.ofList

/-- The text of a byte string, with U+FFFD for each malformed piece. -/
def decodeLossy (bytes : List UInt8) : String :=
  String.ofList ((pieces none bytes).map (·.getD (Char.ofNat 0xFFFD)))

end Esoterica.Text.Utf8
