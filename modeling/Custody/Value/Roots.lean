import Custody.Place
import Custody.Value

/-!
# The resources a value holds

A resource is a **root** of a value when no other resource encloses it: the
value itself, or an element at some depth of arrays and dictionaries. Roots
are what a move of the value moves; what they own comes along in their
fields. Structs hold no resources, so the search does not enter them.

Three readings belong together. `Value.isLinear` says whether there is a
root, `Value.held` lists the roots with the keys that lead to them, and
`Value.inventory` lists every resource below a place with the place that
holds it, first the roots, then what each owns.
-/

namespace Custody

/-- Elements with their positions as keys. -/
def positions {α : Type} (elements : List α) : List (Key × α) :=
  elements.zipIdx.map fun e => (.uint e.2, e.1)

namespace Value

/-! ## Linearity -/

/-- The reading behind `isLinear`. -/
def linearityReading : Reading Bool where
  scalar _ := false
  array parts := parts.any id
  dict entries := entries.any Prod.snd
  struct _ _ := false
  resource _ _ := true

/-- **Whether the value is linear**: a resource, or a container with a
linear element. -/
def isLinear : Value → Bool := fold linearityReading

/-! ## Roots -/

/-- The roots of keyed parts, with the part's key in front of theirs. -/
def heldBelow (parts : List (Key × List (List Key × Resource))) :
    List (List Key × Resource) :=
  parts.flatMap fun part => part.2.map fun root => (part.1 :: root.1, root.2)

/-- The reading behind `held`. -/
def heldReading : Reading (List (List Key × Resource)) where
  scalar _ := []
  array parts := heldBelow (positions parts)
  dict entries := heldBelow entries
  struct _ _ := []
  resource r _ := [([], r)]

/-- **The roots of a value**, each with the keys that lead to it. -/
def held : Value → List (List Key × Resource) := fold heldReading

/-- The identities of the roots, with the keys that lead to them. -/
def roots (v : Value) : List (ResourceId × List Key) :=
  v.held.map fun root => (root.2.id, root.1)

/-- The identities of the roots. -/
def rootIds (v : Value) : List ResourceId := v.held.map fun root => root.2.id

/-- The identities of the roots with the places that hold them, for a value
standing at `place`. -/
def placings (v : Value) (place : Place) : List (ResourceId × Place) :=
  v.roots.map fun root => (root.1, place.within root.2)

/-! ## Everything below a place -/

/-- What a value at a place holds: its roots, and what these own. -/
structure Inventory where
  /-- The roots, with their places. -/
  roots : List (ResourceId × Place)
  /-- The resources owned by the roots, with their places. -/
  owned : List (ResourceId × Place)

namespace Inventory

/-- The inventory of a value without resources. -/
def empty : Inventory := ⟨[], []⟩

/-- Roots first, then what they own. -/
def all (inv : Inventory) : List (ResourceId × Place) := inv.roots ++ inv.owned

/-- The inventory of a container at a place. -/
def ofParts (parts : List (Key × (Place → Inventory))) (place : Place) : Inventory :=
  let parts := parts.map fun part => part.2 (place.element part.1)
  ⟨parts.flatMap roots, parts.flatMap owned⟩

end Inventory

/-- The reading behind `inventory`. -/
def inventoryReading : Reading (Place → Inventory) where
  scalar _ _ := Inventory.empty
  array parts := Inventory.ofParts (positions parts)
  dict entries := Inventory.ofParts entries
  struct _ _ _ := Inventory.empty
  resource r fields place :=
    ⟨[(r.id, place)],
      fields.flatMap fun f =>
        match f.2 with
        | some part => (part (.field r.id f.1)).all
        | none => []⟩

/-- **Every resource a value at a place holds or owns**, each with the place
that holds it. -/
def inventory (v : Value) (place : Place) : List (ResourceId × Place) :=
  (fold inventoryReading v place).all

end Value

namespace Resource

/-- The roots held in the filled fields, with the field's name. -/
def fieldRoots (r : Resource) : List (String × ResourceId × List Key) :=
  r.fields.flatMap fun f =>
    match f.2 with
    | some v => v.roots.map fun root => (f.1, root.1, root.2)
    | none => []

end Resource

end Custody
