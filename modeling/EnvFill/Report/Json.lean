/-!
JSON documents and their written form: two blanks for each level, every item on a line of its own,
and escapes for quotes, backslashes and control characters only.
-/

namespace EnvFill.Report

inductive Json where
  | string (text : String)
  | number (n : Int)
  | bool (b : Bool)
  | array (items : List Json)
  | object (fields : List (String × Json))

namespace Json

def escapeChar (c : Char) : List Char :=
  if c = '"' then ['\\', '"']
  else if c = '\\' then ['\\', '\\']
  else if c = '\n' then ['\\', 'n']
  else if c = '\r' then ['\\', 'r']
  else if c = '\t' then ['\\', 't']
  else if c = '\x08' then ['\\', 'b']
  else if c = '\x0C' then ['\\', 'f']
  else if c.toNat < 0x20 then
    ['\\', 'u', '0', '0', Nat.digitChar (c.toNat / 16), Nat.digitChar (c.toNat % 16)]
  else [c]

def quote (text : String) : String :=
  String.ofList ('"' :: text.toList.flatMap escapeChar ++ ['"'])

def newLine (level : Nat) : String := "\n" ++ String.ofList (List.replicate (2 * level) ' ')

def enclose (opening closing : String) (level : Nat) (items : List String) : String :=
  if items.isEmpty then opening ++ closing
  else
    opening ++ newLine (level + 1) ++ ("," ++ newLine (level + 1)).intercalate items ++
      newLine level ++ closing

mutual

def renderAt (level : Nat) : Json → String
  | .string text => quote text
  | .number n => toString n
  | .bool true => "true"
  | .bool false => "false"
  | .array items => enclose "[" "]" level (renderItems (level + 1) items)
  | .object fields => enclose "\x7b" "\x7d" level (renderFields (level + 1) fields)

def renderItems (level : Nat) : List Json → List String
  | [] => []
  | item :: items => renderAt level item :: renderItems level items

def renderFields (level : Nat) : List (String × Json) → List String
  | [] => []
  | field :: fields => renderField level field :: renderFields level fields

def renderField (level : Nat) : String × Json → String
  | (name, value) => quote name ++ ": " ++ renderAt level value

end

def render (json : Json) : String := json.renderAt 0

end Json

end EnvFill.Report
