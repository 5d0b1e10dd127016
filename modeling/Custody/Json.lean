import Custody.Table
import Custody.Text

/-!
# JSON documents

Documents are made and printed here, never read. The members of an object
are in the order of their names; `Json.object` sorts them, and of two
members with one name the later is kept. There are two layouts: on one line
without spaces, and with one part per line, indented by two spaces per
level.
-/

namespace Custody

/-- **A JSON document.** -/
inductive Json where
  | null
  | bool (b : Bool)
  | int (i : Int)
  | str (s : String)
  | array (elements : List Json)
  | obj (members : List (String × Json))
deriving Inhabited

namespace Json

/-- The object of a list of members. -/
def object (members : List (String × Json)) : Json := .obj (Table.sorted members)

/-- A character inside a string: quotes, backslashes and control characters
are escaped, all others stand for themselves. -/
def escape (c : Char) : List Char :=
  if c = '"' then ['\\', '"']
  else if c = '\\' then ['\\', '\\']
  else if c = '\n' then ['\\', 'n']
  else if c = '\r' then ['\\', 'r']
  else if c = '\t' then ['\\', 't']
  else if c.toNat = 8 then ['\\', 'b']
  else if c.toNat = 12 then ['\\', 'f']
  else if c.toNat < 32 then '\\' :: 'u' :: Hex.fixed 4 c.toNat
  else [c]

/-- A string in quotes. -/
def quoted (s : String) : String :=
  "\"" ++ String.ofList (s.toList.flatMap escape) ++ "\""

mutual

/-- The document on one line. -/
def compact : Json → String
  | null => "null"
  | bool b => if b then "true" else "false"
  | int i => toString i
  | str s => quoted s
  | array elements => "[" ++ String.intercalate "," (compactElements elements) ++ "]"
  | obj members => "\x7b" ++ String.intercalate "," (compactMembers members) ++ "\x7d"

/-- Each element on one line. -/
def compactElements : List Json → List String
  | [] => []
  | j :: rest => compact j :: compactElements rest

/-- Each member on one line. -/
def compactMembers : List (String × Json) → List String
  | [] => []
  | (name, j) :: rest => (quoted name ++ ":" ++ compact j) :: compactMembers rest

end

/-- The start of a line at a level of nesting. -/
def newline (level : Nat) : String := "\n" ++ String.ofList (List.replicate (2 * level) ' ')

/-- Parts between brackets, each on a line of its own. -/
def spread (opening closing : String) (level : Nat) (parts : List String) : String :=
  if parts.isEmpty then opening ++ closing
  else
    opening ++ newline (level + 1)
      ++ String.intercalate ("," ++ newline (level + 1)) parts ++ newline level ++ closing

mutual

/-- The document with one part per line, at a level of nesting. -/
def prettyAt (level : Nat) : Json → String
  | array elements => spread "[" "]" level (prettyElements level elements)
  | obj members => spread "\x7b" "\x7d" level (prettyMembers level members)
  | null => "null"
  | bool b => if b then "true" else "false"
  | int i => toString i
  | str s => quoted s

/-- Each element, one level deeper. -/
def prettyElements (level : Nat) : List Json → List String
  | [] => []
  | j :: rest => prettyAt (level + 1) j :: prettyElements level rest

/-- Each member, one level deeper. -/
def prettyMembers (level : Nat) : List (String × Json) → List String
  | [] => []
  | (name, j) :: rest =>
    (quoted name ++ ": " ++ prettyAt (level + 1) j) :: prettyMembers level rest

end

/-- The document with one part per line. -/
def pretty (j : Json) : String := prettyAt 0 j

end Json

end Custody
