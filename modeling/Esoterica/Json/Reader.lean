import Esoterica.Json

/-!
Reading JSON documents. A document is cut into tokens, and the tokens are put together with the open
arrays and objects on a list, so that nesting has no limit.
-/

namespace Esoterica.Json

inductive Token where
  | openArray
  | closeArray
  | openObject
  | closeObject
  | comma
  | colon
  | null
  | bool (value : Bool)
  | number (literal : String)
  | string (text : Option String)

/-- The value of a hexadecimal digit. -/
def hexDigit? (c : Char) : Option Nat :=
  if c.isDigit then some (c.toNat - '0'.toNat)
  else if 'a' ≤ c ∧ c ≤ 'f' then some (c.toNat - 'a'.toNat + 10)
  else if 'A' ≤ c ∧ c ≤ 'F' then some (c.toNat - 'A'.toNat + 10)
  else none

/-- The number that four hexadecimal digits spell. -/
def hex4? (a b c d : Char) : Option Nat := do
  let a ← hexDigit? a
  let b ← hexDigit? b
  let c ← hexDigit? c
  let d ← hexDigit? d
  return ((a * 16 + b) * 16 + c) * 16 + d

def isHighSurrogate (code : Nat) : Bool :=
  0xD800 ≤ code && code < 0xDC00

def isLowSurrogate (code : Nat) : Bool :=
  0xDC00 ≤ code && code < 0xE000

/-- The character that a backslash and this letter stand for. -/
def unescape? : Char → Option Char
  | '"' => some '"'
  | '\\' => some '\\'
  | '/' => some '/'
  | 'b' => some '\x08'
  | 'f' => some '\x0c'
  | 'n' => some '\n'
  | 'r' => some '\r'
  | 't' => some '\t'
  | _ => none

/-- The rest of a string after its opening quote: the text, unless half a surrogate pair was met,
and what follows the closing quote. The characters read before are given in reverse. -/
def readString (before : List Char) (paired : Bool) :
    List Char → Option (Option String × List Char)
  | [] => none
  | '"' :: rest => some (if paired then some (String.ofList before.reverse) else none, rest)
  | '\\' :: 'u' :: a :: b :: c :: d :: '\\' :: 'u' :: e :: f :: g :: h :: rest =>
    match hex4? a b c d with
    | none => none
    | some first =>
      match isHighSurrogate first, hex4? e f g h with
      | true, some second =>
        if isLowSurrogate second then
          let code := 0x10000 + (first - 0xD800) * 0x400 + (second - 0xDC00)
          readString (Char.ofNat code :: before) paired rest
        else readString before false ('\\' :: 'u' :: e :: f :: g :: h :: rest)
      | true, none => none
      | false, _ =>
        if isLowSurrogate first then
          readString before false ('\\' :: 'u' :: e :: f :: g :: h :: rest)
        else
          readString (Char.ofNat first :: before) paired
            ('\\' :: 'u' :: e :: f :: g :: h :: rest)
  | '\\' :: 'u' :: a :: b :: c :: d :: rest =>
    match hex4? a b c d with
    | none => none
    | some code =>
      if isHighSurrogate code || isLowSurrogate code then readString before false rest
      else readString (Char.ofNat code :: before) paired rest
  | '\\' :: letter :: rest =>
    match unescape? letter with
    | none => none
    | some c => readString (c :: before) paired rest
  | c :: rest =>
    if c.toNat < 0x20 || c == '\\' then none else readString (c :: before) paired rest
termination_by chars => chars.length

/-- The rest of a text after a run of at least one digit. -/
def afterDigits? (chars : List Char) : Option (List Char) :=
  match chars with
  | c :: rest => if c.isDigit then some (rest.dropWhile Char.isDigit) else none
  | [] => none

/-- Whether the text is a number: a sign, digits without a leading zero, a fraction, an exponent;
all but the digits may be missing. -/
def isNumber (chars : List Char) : Bool :=
  let unsigned := match chars with
    | '-' :: rest => rest
    | _ => chars
  let afterWhole := match unsigned with
    | '0' :: rest => some rest
    | _ => afterDigits? unsigned
  let afterFraction := afterWhole.bind fun
    | '.' :: rest => afterDigits? rest
    | rest => some rest
  let afterExponent := afterFraction.bind fun
    | 'e' :: '+' :: rest | 'e' :: '-' :: rest | 'E' :: '+' :: rest | 'E' :: '-' :: rest
    | 'e' :: rest | 'E' :: rest => afterDigits? rest
    | rest => some rest
  afterExponent == some []

/-- The characters that a number may hold. -/
def inNumber (c : Char) : Bool :=
  c.isDigit || c == '+' || c == '-' || c == '.' || c == 'e' || c == 'E'

/-- The tokens of a document. Each token takes a character, so that as many rounds as there are
characters suffice. -/
def tokens : Nat → List Char → Option (List Token)
  | _, [] => some []
  | 0, _ => none
  | rounds + 1, c :: rest =>
    match c with
    | ' ' | '\n' | '\t' | '\r' => tokens rounds rest
    | '[' => (tokens rounds rest).map (.openArray :: ·)
    | ']' => (tokens rounds rest).map (.closeArray :: ·)
    | '\x7b' => (tokens rounds rest).map (.openObject :: ·)
    | '\x7d' => (tokens rounds rest).map (.closeObject :: ·)
    | ',' => (tokens rounds rest).map (.comma :: ·)
    | ':' => (tokens rounds rest).map (.colon :: ·)
    | '"' =>
      match readString [] true rest with
      | none => none
      | some (value, rest) => (tokens rounds rest).map (.string value :: ·)
    | _ =>
      if inNumber c && c != 'e' then
        let literal := (c :: rest).takeWhile inNumber
        if isNumber literal then
          (tokens rounds (rest.dropWhile inNumber)).map (.number (String.ofList literal) :: ·)
        else none
      else match c :: rest with
        | 'n' :: 'u' :: 'l' :: 'l' :: rest => (tokens rounds rest).map (.null :: ·)
        | 't' :: 'r' :: 'u' :: 'e' :: rest => (tokens rounds rest).map (.bool true :: ·)
        | 'f' :: 'a' :: 'l' :: 's' :: 'e' :: rest => (tokens rounds rest).map (.bool false :: ·)
        | _ => none

/-- An array or object that is still open, with its parts in reverse. An object also holds the key
whose value comes next. -/
inductive Frame where
  | array (items : List Json)
  | object (fields : List (Option String × Json)) (key : Option String)

/-- What may come next: a value, a value or the end of the array, a key, a key or the end of the
object, the colon after a key, or the sequel of a finished value. -/
inductive Expecting where
  | value
  | valueOrEnd
  | key
  | keyOrEnd
  | colon (key : Option String)
  | sequel (value : Json)

/-- The value of a token that is a value by itself. -/
def Token.value? : Token → Option Json
  | .null => some .null
  | .bool value => some (.bool value)
  | .number literal => some (.number literal)
  | .string value => some (.string value)
  | _ => none

/-- The open frames, the innermost first, and what may come next. -/
structure Assembly where
  frames : List Frame := []
  expecting : Expecting := .value

/-- Starts a value with its first token. -/
def Assembly.start? (frames : List Frame) (token : Token) : Option Assembly :=
  match token with
  | .openArray => some ⟨.array [] :: frames, .valueOrEnd⟩
  | .openObject => some ⟨.object [] none :: frames, .keyOrEnd⟩
  | _ => token.value?.map fun value => ⟨frames, .sequel value⟩

/-- Adds a token. -/
def Assembly.add? (assembly : Assembly) (token : Token) : Option Assembly :=
  let frames := assembly.frames
  match assembly.expecting with
  | .value => start? frames token
  | .valueOrEnd =>
    match token, frames with
    | .closeArray, .array _ :: outer => some ⟨outer, .sequel (.array [])⟩
    | _, _ => start? frames token
  | .key =>
    match token with
    | .string key => some ⟨frames, .colon key⟩
    | _ => none
  | .keyOrEnd =>
    match token, frames with
    | .closeObject, .object _ _ :: outer => some ⟨outer, .sequel (.object [])⟩
    | .string key, _ => some ⟨frames, .colon key⟩
    | _, _ => none
  | .colon key =>
    match token, frames with
    | .colon, .object fields _ :: outer => some ⟨.object fields key :: outer, .value⟩
    | _, _ => none
  | .sequel value =>
    match token, frames with
    | .comma, .array items :: outer => some ⟨.array (value :: items) :: outer, .value⟩
    | .closeArray, .array items :: outer =>
      some ⟨outer, .sequel (.array (value :: items).reverse)⟩
    | .comma, .object fields key :: outer =>
      some ⟨.object ((key, value) :: fields) none :: outer, .key⟩
    | .closeObject, .object fields key :: outer =>
      some ⟨outer, .sequel (.object ((key, value) :: fields).reverse)⟩
    | _, _ => none

/-- The value, once all frames are closed. -/
def Assembly.finish? (assembly : Assembly) : Option Json :=
  match assembly.expecting, assembly.frames with
  | .sequel value, [] => some value
  | _, _ => none

/-- The value that a document holds. -/
def parse? (document : String) : Option Json := do
  let chars := document.toList
  let tokens ← tokens chars.length chars
  let assembly ← tokens.foldlM Assembly.add? {}
  assembly.finish?

end Esoterica.Json
