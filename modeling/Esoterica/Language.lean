import Esoterica.Error
import Esoterica.Text

/-!
The five languages, with the names under which they are asked for.
-/

namespace Esoterica

inductive Language where
  | brainfuck
  | befunge
  | malbolge
  | whitespace
  | piet
deriving DecidableEq, Repr

namespace Language

def all : List Language :=
  [brainfuck, befunge, malbolge, whitespace, piet]

/-- The kind of machine that runs the language, which is also the language's short name. -/
def name : Language → String
  | brainfuck => "tape"
  | befunge => "grid"
  | malbolge => "ternary"
  | whitespace => "trie"
  | piet => "geometric"

/-- The language as a title. -/
def title : Language → String
  | brainfuck => "Brainfuck"
  | befunge => "Befunge"
  | malbolge => "Malbolge"
  | whitespace => "Whitespace"
  | piet => "Piet"

/-- Further names of the language. -/
def aliases : Language → List String
  | brainfuck => ["brainfuck", "bf"]
  | befunge => ["befunge", "bef", "befunge93", "befunge98"]
  | malbolge => ["malbolge", "mb"]
  | whitespace => ["whitespace", "ws"]
  | piet => ["piet"]

/-- Programs are texts in every language but Piet. -/
def isText : Language → Bool
  | piet => false
  | _ => true

/-- The language with this name, whatever the case of its ASCII letters. -/
def ofName (text : String) : Except Error Language :=
  let lower := Text.lowerAscii text
  match all.find? (fun language => language.name == lower || language.aliases.contains lower) with
  | some language => .ok language
  | none =>
    .error ((Error.invalidArgument s!"unknown language '{text}'").noting "language" text)

end Language

end Esoterica
