import Custody.Value

/-!
# The written form of values

Text stands in quotes, unescaped; containers list their parts between
brackets; a composite is written as its type with its fields in parentheses,
a resource with its identity after the type and `<moved>` for an empty
field.
-/

namespace Custody

namespace Value

/-- Parts separated by commas. -/
def listed (parts : List String) : String := String.intercalate ", " parts

/-- The written form of a value without parts. -/
def scalarText : Value → String
  | .nil => "nil"
  | .bool b => boolText b
  | .int i => toString i
  | .uint n => toString n
  | .str s => "\"" ++ s ++ "\""
  | .address a => a.text
  | .path p => p.text
  | .capability c => c.text
  | .reference r => r.text
  | _ => ""

/-- The reading behind `text`. -/
def textReading : Reading String where
  scalar := scalarText
  array texts := "[" ++ listed texts ++ "]"
  dict entries :=
    "\x7b" ++ listed (entries.map fun e => e.1.text ++ ": " ++ e.2) ++ "\x7d"
  struct typeName fields :=
    typeName ++ "(" ++ listed (fields.map fun f => f.1 ++ ": " ++ f.2) ++ ")"
  resource r fields :=
    r.typeName ++ r.id.text ++ "("
      ++ listed (fields.map fun f => f.1 ++ ": " ++ f.2.getD "<moved>") ++ ")"

/-- **The written form of a value.** -/
def text : Value → String := fold textReading

end Value

end Custody
