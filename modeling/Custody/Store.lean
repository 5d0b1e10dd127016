import Custody.SortedMap
import Custody.Value

/-!
# Account storage

Storage is what outlives a transaction: per account and domain, the entries
by identifier. An entry is a value or a **link**, which leads from its own
path to another path of the account and declares the type found there.

Removing an entry also removes the maps it leaves empty, so storage that was
only ever written through `Store.insert` and `Store.erase` has no empty map.
-/

namespace Custody

/-- **A link** from one path of an account to another. -/
structure Link where
  /-- The path the link is stored at. -/
  source : Path
  /-- The path it leads to. -/
  target : Path
  /-- The type declared for the target. -/
  promise : RefTy
deriving DecidableEq

/-- **A stored entry.** -/
inductive Entry where
  | value (v : Value)
  | link (l : Link)

namespace Entry

/-- The name of the sort of entry. -/
def kindName : Entry → String
  | value _ => "value"
  | link _ => "link"

/-- The value an entry is. -/
def value? : Entry → Option Value
  | value v => some v
  | link _ => none

/-- The link an entry is. -/
def link? : Entry → Option Link
  | value _ => none
  | link l => some l

end Entry

/-- The entries of a domain, by identifier. -/
abbrev Slots := SortedMap String Entry

/-- **The storage of all accounts.** -/
structure Store where
  /-- The domains of each account. -/
  accounts : SortedMap Address (SortedMap Domain Slots)

namespace Store

/-- Storage without accounts. -/
def empty : Store := ⟨SortedMap.empty⟩

instance : Inhabited Store := ⟨empty⟩

/-- Whether no account has storage. -/
def isEmpty (s : Store) : Bool := s.accounts.isEmpty

/-- The domains of an account. -/
def domains (s : Store) (address : Address) : SortedMap Domain Slots :=
  (s.accounts.get? address).getD SortedMap.empty

/-- The entries of an account's domain. -/
def slots (s : Store) (address : Address) (domain : Domain) : Slots :=
  ((s.domains address).get? domain).getD SortedMap.empty

/-- The entry at a path. -/
def get? (s : Store) (address : Address) (path : Path) : Option Entry :=
  (s.slots address path.domain).get? path.identifier

/-- Whether there is an entry at the path. -/
def contains (s : Store) (address : Address) (path : Path) : Bool :=
  (s.get? address path).isSome

/-- The value stored at a path. -/
def value? (s : Store) (address : Address) (path : Path) : Option Value :=
  (s.get? address path).bind Entry.value?

/-- The link stored at a path. -/
def link? (s : Store) (address : Address) (path : Path) : Option Link :=
  (s.get? address path).bind Entry.link?

/-- Stores an entry at a path. -/
def insert (s : Store) (address : Address) (path : Path) (entry : Entry) : Store :=
  let slots := (s.slots address path.domain).insert path.identifier entry
  ⟨s.accounts.insert address ((s.domains address).insert path.domain slots)⟩

/-- Replaces an account's domain, leaving out a domain without entries. -/
def withSlots (domains : SortedMap Domain Slots) (domain : Domain) (slots : Slots) :
    SortedMap Domain Slots :=
  if slots.isEmpty then domains.erase domain else domains.insert domain slots

/-- Replaces an account, leaving out an account without domains. -/
def withDomains (s : Store) (address : Address) (domains : SortedMap Domain Slots) : Store :=
  if domains.isEmpty then ⟨s.accounts.erase address⟩ else ⟨s.accounts.insert address domains⟩

/-- Removes the entry at a path, and the maps this leaves empty. -/
def erase (s : Store) (address : Address) (path : Path) : Store :=
  let domains := s.domains address
  let slots := s.slots address path.domain
  s.withDomains address (withSlots domains path.domain (slots.erase path.identifier))

/-- The accounts that have storage, ascending. -/
def addresses (s : Store) : List Address := s.accounts.keys

/-- The paths in use in a domain of an account, by identifier. -/
def paths (s : Store) (address : Address) (domain : Domain) : List Path :=
  (s.slots address domain).keys.map fun identifier => ⟨domain, identifier⟩

/-- The entries of one account, by domain and identifier. -/
def accountEntries (domains : SortedMap Domain Slots) : List (Path × Entry) :=
  domains.entries.flatMap fun domain =>
    domain.2.entries.map fun slot => (⟨domain.1, slot.1⟩, slot.2)

/-- **Every entry**, by account, domain and identifier. -/
def entries (s : Store) : List (Address × Path × Entry) :=
  s.accounts.entries.flatMap fun account =>
    (accountEntries account.2).map fun entry => (account.1, entry)

end Store

end Custody
