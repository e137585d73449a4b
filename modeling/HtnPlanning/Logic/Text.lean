namespace HtnPlanning.Text

def commas (items : List String) : String :=
  ", ".intercalate items

def call (name : String) (items : List String) : String :=
  name ++ "(" ++ commas items ++ ")"

def braces (items : List String) : String :=
  "\x7b" ++ commas items ++ "\x7d"

def brackets (items : List String) : String :=
  "[" ++ commas items ++ "]"

end HtnPlanning.Text
