import Custody.Json
import Custody.Store
import Custody.Value.Typing

/-!
# Storage as a JSON document

The view shows every account with its paths, and under each path the type
and the contents of the entry. Names of composites and identities stand
beside the fields; handles, addresses and paths are shown in their written
form; an empty field is shown as `<moved>`.
-/

namespace Custody

namespace Key

/-- The name of a dictionary entry in the view: text as it is, any other key
in its written form. -/
def label (k : Key) : String := k.name?.getD k.text

end Key

namespace Value

/-- The view of a value without parts. -/
def scalarView : Value → Json
  | .bool b => .bool b
  | .int i => .int i
  | .uint n => .int n
  | .str s => .str s
  | .address a => .str a.text
  | .path p => .str p.text
  | .capability c => Json.object [("capability", .str c.text)]
  | .reference r => Json.object [("reference", .str r.text)]
  | _ => .null

/-- The reading behind `view`. -/
def viewReading : Reading Json where
  scalar := scalarView
  array parts := .array parts
  dict entries := Json.object (entries.map fun e => (e.1.label, e.2))
  struct typeName fields :=
    Json.object [("struct", .str typeName), ("fields", Json.object fields)]
  resource r fields :=
    Json.object
      [("resource", .str r.typeName), ("id", .int r.id.number),
        ("fields", Json.object (fields.map fun f => (f.1, f.2.getD (.str "<moved>"))))]

/-- **The view of a value.** -/
def view : Value → Json := fold viewReading

end Value

namespace Entry

/-- The view of an entry. -/
def view : Entry → Json
  | value v => Json.object [("type", .str v.ty.text), ("value", v.view)]
  | link l => Json.object [("link", .str l.target.text), ("type", .str l.promise.text)]

end Entry

namespace Store

/-- The view of the entries of an account. -/
def accountView (entries : List (Path × Entry)) : Json :=
  Json.object (entries.map fun e => (e.1.text, e.2.view))

/-- **The view of a store**: every account that has an entry. -/
def view (s : Store) : Json :=
  let accounts := s.accounts.entries.map fun account =>
    (account.1.text, accountEntries account.2)
  Json.object ((accounts.filter fun a => !a.2.isEmpty).map fun a => (a.1, accountView a.2))

end Store

end Custody
