import Esoterica.Language

/-!
Source texts in standard form. Programs that were pasted from a chat come between fences of three
backticks, and Whitespace programs often spell their blanks as letters.
-/

namespace Esoterica.Source

/-- The mark above and below a fenced text. -/
def fence : List Char :=
  ['\x60', '\x60', '\x60']

/-- What stands between two fences. The line of the opening one may hold a tag and is dropped, and so
are the line breaks before the closing one. -/
def unfenced (inner : List Char) : List Char :=
  match inner.dropWhile (· != '\n') with
  | [] => inner
  | _ :: body => Text.trimEnd (fun c => c == '\n' || c == '\r') body

/-- The text inside its fences; a text without them stays. -/
def unfence (source : List Char) : List Char :=
  let trimmed := Text.trim source
  if fence.isPrefixOf trimmed && fence.isSuffixOf trimmed &&
      2 * fence.length ≤ trimmed.length then
    unfenced ((trimmed.drop fence.length).take (trimmed.length - 2 * fence.length))
  else source

/-- The blank that a visible letter stands for. -/
def markedBlank? : Char → Option Char
  | 'S' => some ' '
  | 'T' => some '\t'
  | 'L' => some '\n'
  | _ => none

/-- Letters become the blanks that they stand for and everything else goes. A text without such
letters stays. -/
def expandMarks (source : List Char) : List Char :=
  if source.any fun c => (markedBlank? c).isSome then source.filterMap markedBlank? else source

/-- A line of a grid with blanks for tabs and without carriage returns at its end. -/
def cleanLine (line : List Char) : List Char :=
  (Text.trimEnd (· == '\r') line).map fun c => if c = '\t' then ' ' else c

/-- The clean lines with linefeeds between them. -/
def cleanLines (source : List Char) : List Char :=
  List.intercalate ['\n'] ((Text.lines source).map cleanLine)

/-- The source in the standard form of its language. -/
def normalize (language : Language) (source : String) : String :=
  let body := unfence source.toList
  String.ofList <| match language with
    | .whitespace => expandMarks body
    | .befunge => cleanLines body
    | .brainfuck | .malbolge | .piet => body

end Esoterica.Source
