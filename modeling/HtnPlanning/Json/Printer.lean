import HtnPlanning.Json.Value

namespace HtnPlanning.Json

def hexEscape (c : Char) : String :=
  "\\u00" ++ String.ofList [Nat.digitChar (c.toNat / 16), Nat.digitChar (c.toNat % 16)]

def escape (c : Char) : String :=
  if c = '"' then "\\\""
  else if c = '\\' then "\\\\"
  else if c = '\n' then "\\n"
  else if c = '\r' then "\\r"
  else if c = '\t' then "\\t"
  else if c.toNat = 8 then "\\b"
  else if c.toNat = 12 then "\\f"
  else if c.toNat < 32 then hexEscape c
  else String.singleton c

def quote (s : String) : String :=
  "\"" ++ String.join (s.toList.map escape) ++ "\""

def block (opening closing indent : String) : List String → String
  | [] => opening ++ closing
  | lines =>
    let margin := "\n" ++ indent ++ "  "
    opening ++ margin ++ ("," ++ margin).intercalate lines ++ "\n" ++ indent ++ closing

mutual

def print (indent : String) : Json → String
  | .null => "null"
  | .bool b => if b then "true" else "false"
  | .nat n => toString n
  | .str s => quote s
  | .arr items => block "[" "]" indent (printItems (indent ++ "  ") items)
  | .obj fields => block "\x7b" "\x7d" indent (printFields (indent ++ "  ") fields)
  | .foreign => "null"

def printItems (indent : String) : List Json → List String
  | [] => []
  | j :: rest => print indent j :: printItems indent rest

def printFields (indent : String) : List (String × Json) → List String
  | [] => []
  | (key, j) :: rest => (quote key ++ ": " ++ print indent j) :: printFields indent rest

end

def text (j : Json) : String :=
  print "" j

end HtnPlanning.Json
