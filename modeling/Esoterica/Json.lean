/-!
JSON values and their two written forms. Numbers keep their spelling, because a document that says
`1.0` does not say `1`.
-/

namespace Esoterica

/-- A JSON value. A string that holds half of a surrogate pair is no text and counts as `none`. -/
inductive Json where
  | null
  | bool (value : Bool)
  | number (literal : String)
  | string (text : Option String)
  | array (items : List Json)
  | object (fields : List (Option String × Json))

namespace Json

def text (value : String) : Json :=
  string (some value)

def int (value : Int) : Json :=
  number (toString value)

def nat (value : Nat) : Json :=
  number (toString value)

/-- The object with these fields, in this order. -/
def record (fields : List (String × Json)) : Json :=
  object (fields.map fun (key, value) => (some key, value))

/-- The value, or null where there is none. -/
def optional {Value : Type} (encode : Value → Json) : Option Value → Json
  | none => null
  | some value => encode value

/-- The value of a field of an object. -/
def field? (json : Json) (key : String) : Option Json :=
  match json with
  | object fields => (fields.find? (·.1 == some key)).map (·.2)
  | _ => none

/-- A number below 65536 as four hexadecimal digits. -/
def hex4 (code : Nat) : String :=
  let digits := Nat.toDigits 16 code
  String.ofList (List.replicate (4 - digits.length) '0' ++ digits)

/-- A character inside a written string. Quotes, backslashes and control characters are escaped. -/
def escape (c : Char) : String :=
  match c with
  | '"' => "\\\""
  | '\\' => "\\\\"
  | '\n' => "\\n"
  | '\r' => "\\r"
  | '\t' => "\\t"
  | '\x08' => "\\b"
  | '\x0c' => "\\f"
  | _ => if c.toNat < 0x20 then "\\u" ++ hex4 c.toNat else c.toString

/-- A written string. -/
def quote (value : Option String) : String :=
  "\"" ++ String.join ((value.getD "").toList.map escape) ++ "\""

mutual

/-- The value on one line. -/
def compact : Json → String
  | null => "null"
  | bool value => if value then "true" else "false"
  | number literal => literal
  | string value => quote value
  | array items => "[" ++ ",".intercalate (compactItems items) ++ "]"
  | object fields => "\x7b" ++ ",".intercalate (compactFields fields) ++ "\x7d"

def compactItems : List Json → List String
  | [] => []
  | item :: rest => item.compact :: compactItems rest

def compactFields : List (Option String × Json) → List String
  | [] => []
  | (key, value) :: rest => (quote key ++ ":" ++ value.compact) :: compactFields rest

end

/-- The start of a line at a depth of nesting. -/
def indent (depth : Nat) : String :=
  "\n" ++ String.ofList (List.replicate (2 * depth) ' ')

/-- Items between brackets, each on its own line; without items the brackets touch. -/
def block (depth : Nat) (opening closing : String) (items : List String) : String :=
  if items.isEmpty then opening ++ closing
  else
    let lines := items.map (indent (depth + 1) ++ ·)
    opening ++ ",".intercalate lines ++ indent depth ++ closing

mutual

/-- The value over several lines, two blanks for each level of nesting. -/
def pretty (depth : Nat) : Json → String
  | null => "null"
  | bool value => if value then "true" else "false"
  | number literal => literal
  | string value => quote value
  | array items => block depth "[" "]" (prettyItems (depth + 1) items)
  | object fields => block depth "\x7b" "\x7d" (prettyFields (depth + 1) fields)

def prettyItems (depth : Nat) : List Json → List String
  | [] => []
  | item :: rest => item.pretty depth :: prettyItems depth rest

def prettyFields (depth : Nat) : List (Option String × Json) → List String
  | [] => []
  | (key, value) :: rest => (quote key ++ ": " ++ value.pretty depth) :: prettyFields depth rest

end

end Json

end Esoterica
