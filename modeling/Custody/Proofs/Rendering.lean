import Custody.Proofs.Census
import Custody.Proofs.Grammar
import Custody.View

/-!
# What the view of a store shows

The view makes objects out of tables, and two members with one name become one.
So it shows everything as long as names are told apart by their written form.
Addresses are, having all their digits; and so are paths, since the name of a
domain has no slash, even where the identifier is none. Names of fields are
shown as they are.

The keys of a dictionary are not. A text is shown without its quotes, so it has
the label of whatever else is written like it, and a signed number has the label
of the unsigned one. That two keys **clash** in one of these ways is all that can
go wrong (`Key.label_eq_iff`), and of the entries whose keys have one label the
last is shown.
-/

namespace Custody

/-! ## Written forms -/

namespace Key

/-- A number prints as decimal digits. -/
theorem isDigit_of_mem_repr {n : Nat} {c : Char} (h : c ∈ n.repr.toList) : c.isDigit = true := by
  rw [Nat.toList_repr] at h
  exact Nat.isDigit_of_mem_toDigits (by decide) (by decide) h

/-- Numbers are written with digits and a sign. -/
theorem mem_number {i : Int} {c : Char} (h : c ∈ (toString i).toList) :
    c = '-' ∨ c.isDigit = true := by
  rw [Int.toString_eq_repr, Int.repr_eq_if] at h
  split at h
  · exact .inr (isDigit_of_mem_repr h)
  · rw [String.toList_append] at h
    exact (List.mem_append.1 h).imp List.mem_singleton.1 isDigit_of_mem_repr

/-- Different numbers are written differently: the digits can be read back, and the
sign is none of them. -/
theorem number_injective {i j : Int} (h : toString i = toString j) : i = j := by
  -- the library has this as `Int.repr_inj`, but only with an import of all of it
  have digits {n m : Nat} (h : n.repr = m.repr) : n = m := by
    rw [← Nat.ofDigitChars_ten_toDigits (n := n), ← Nat.toList_repr, h, Nat.toList_repr,
      Nat.ofDigitChars_ten_toDigits]
  have unsigned {n m : Nat} (h : "-" ++ n.repr = m.repr) : False := by
    have sign : '-' ∈ m.repr.toList := by
      rw [← h, String.toList_append]
      exact List.mem_cons_self
    exact absurd (isDigit_of_mem_repr sign) (by decide)
  rw [Int.toString_eq_repr, Int.toString_eq_repr, Int.repr_eq_if, Int.repr_eq_if] at h
  split at h <;> split at h
  · have same := digits h
    omega
  · exact (unsigned h.symm).elim
  · exact (unsigned h).elim
  · have same := digits (String.append_right_inj "-" |>.1 h)
    omega

/-- The two Booleans print differently. -/
theorem boolText_injective : ∀ b b', boolText b = boolText b' → b = b' := by decide

/-- A Boolean does not read as a number. -/
theorem boolText_ne_number (b : Bool) (i : Int) : boolText b ≠ toString i := by
  intro same
  have letter : 'e' ∈ (toString i).toList := same ▸ by cases b <;> decide
  rcases mem_number letter with h | h <;> contradiction

/-- A Boolean does not read as an address. -/
theorem boolText_ne_address (b : Bool) (a : Address) : boolText b ≠ a.text := by
  intro same
  have chars := congrArg String.toList same
  unfold Address.text at chars
  rw [String.toList_ofList] at chars
  cases b <;> cases chars

/-- A number does not read as an address, which begins with its marker. -/
theorem number_ne_address (i : Int) (a : Address) : toString i ≠ a.text := by
  intro same
  have marker : 'x' ∈ (toString i).toList := by
    rw [same]
    unfold Address.text
    rw [String.toList_ofList]
    exact List.mem_cons_of_mem _ List.mem_cons_self
  rcases mem_number marker with h | h <;> contradiction

/-- **Two keys clash**: they are different and have one label in a view. So do a
signed and an unsigned number, and a text and whatever is written like it. -/
inductive Clash : Key → Key → Prop where
  | numbers (n : Nat) : Clash (.int n) (.uint n)
  | text {k : Key} (written : k.name? = none) : Clash k (.str k.text)

variable {k k' : Key}

/-- Two keys that are written alike are equal or clash, if neither is a text. -/
theorem eq_or_clash_of_text (written : k.name? = none) (written' : k'.name? = none)
    (h : k.text = k'.text) : k = k' ∨ k.Clash k' ∨ k'.Clash k := by
  cases k with
  | bool b =>
    cases k' with
    | bool b' => exact .inl (congrArg _ (boolText_injective b b' h))
    | int i => exact (boolText_ne_number b i h).elim
    | uint n => exact (boolText_ne_number b n h).elim
    | str s => cases written'
    | address a => exact (boolText_ne_address b a h).elim
  | int i =>
    cases k' with
    | bool b => exact (boolText_ne_number b i h.symm).elim
    | int j => exact .inl (congrArg _ (number_injective h))
    | uint n =>
      obtain rfl := number_injective (j := n) h
      exact .inr (.inl (.numbers n))
    | str s => cases written'
    | address a => exact (number_ne_address i a h).elim
  | uint n =>
    cases k' with
    | bool b => exact (boolText_ne_number b n h.symm).elim
    | int i =>
      obtain rfl := number_injective (i := n) h
      exact .inr (.inr (.numbers n))
    | uint m => exact .inl (congrArg _ (Int.ofNat.inj (number_injective (i := n) (j := m) h)))
    | str s => cases written'
    | address a => exact (number_ne_address n a h).elim
  | str s => cases written
  | address a =>
    cases k' with
    | bool b => exact (boolText_ne_address b a h.symm).elim
    | int i => exact (number_ne_address i a h.symm).elim
    | uint n => exact (number_ne_address n a h.symm).elim
    | str s => cases written'
    | address b => exact .inl (congrArg _ (Address.text_injective h))

/-- A key without a name is labelled by its text. -/
theorem label_eq_text (written : k.name? = none) : k.label = k.text := by
  unfold label
  rw [written]
  rfl

/-- Only a string key has a name. -/
theorem eq_str_of_name {s : String} (name : k.name? = some s) : k = .str s := by
  cases k with
  | str s' => exact congrArg _ (Option.some.inj name)
  | _ => cases name

/-- **Keys with one label** are equal or clash. -/
theorem label_eq_iff : k.label = k'.label ↔ k = k' ∨ k.Clash k' ∨ k'.Clash k := by
  have clash {k k' : Key} (h : k.Clash k') : k.label = k'.label := by
    cases h with
    | numbers n => rfl
    | text written => exact label_eq_text written
  constructor
  · intro h
    rcases name : k.name? with _ | s <;> rcases name' : k'.name? with _ | s'
    · rw [label_eq_text name, label_eq_text name'] at h
      exact eq_or_clash_of_text name name' h
    · obtain rfl := eq_str_of_name name'
      rw [label_eq_text name] at h
      obtain rfl : k.text = s' := h
      exact .inr (.inl (.text name))
    · obtain rfl := eq_str_of_name name
      rw [label_eq_text name'] at h
      obtain rfl : s = k'.text := h
      exact .inr (.inr (.text name'))
    · obtain rfl := eq_str_of_name name
      obtain rfl := eq_str_of_name name'
      exact .inl (congrArg _ h)
  · rintro (rfl | h | h)
    · rfl
    · exact clash h
    · exact (clash h).symm

/-- Keys that clash are different keys of one label. -/
theorem Clash.ne (h : k.Clash k') : k ≠ k' := by
  intro same
  cases h with
  | numbers n => cases same
  | text written =>
    have name := congrArg name? same
    rw [written] at name
    cases name

end Key

/-! ## Objects with a member for each part -/

namespace Json

/-- **The document lists the parts**: it is an object that has one member for
each of them, and no others. -/
def Lists (j : Json) (parts : List (String × Json)) : Prop :=
  ∃ members, j = .obj members ∧ members.Perm parts ∧ (members.map Prod.fst).Nodup

/-- An object lists its parts if no two of them have one name. -/
theorem lists_object_iff {parts : List (String × Json)} :
    (object parts).Lists parts ↔ (parts.map Prod.fst).Nodup := by
  constructor
  · rintro ⟨members, -, same, distinct⟩
    exact (same.map _).nodup_iff.1 distinct
  · intro distinct
    exact ⟨_, rfl, Table.sorted_perm distinct, (Table.ascending_sorted _).nodup_keys⟩

end Json

/-! ## Values -/

namespace Value

variable {v : Value} {entries : List (Key × Value)}

/-- An array is shown element by element. -/
theorem view_array (elements : List Value) :
    (Value.array elements).view = .array (elements.map view) :=
  fold_array ..

/-- A dictionary is shown as an object whose members are named by the labels of
its keys. -/
theorem view_dict (entries : List (Key × Value)) :
    (Value.dict entries).view = Json.object (entries.map fun e => (e.1.label, e.2.view)) := by
  refine (fold_dict ..).trans ?_
  show Json.object _ = _
  rw [List.map_map]
  rfl

/-- A struct is shown with its type name and its fields. -/
theorem view_struct (typeName : String) (fields : List (String × Value)) :
    (Value.struct typeName fields).view = Json.object [("struct", .str typeName),
      ("fields", Json.object (fields.map fun f => (f.1, f.2.view)))] :=
  fold_struct ..

/-- What is shown of a field of a resource. -/
def slotView (slot : Option Value) : Json := (slot.map view).getD (.str "<moved>")

/-- A resource is shown with its identity, and a slot that stands empty as null.
-/
theorem view_resource (id : ResourceId) (typeName : String)
    (fields : List (String × Option Value)) :
    (Value.resource id typeName fields).view = Json.object [("resource", .str typeName),
      ("id", .int id.number),
      ("fields", Json.object (fields.map fun f => (f.1, slotView f.2)))] := by
  refine (fold_resource ..).trans ?_
  show Json.object [_, _, ("fields", Json.object (List.map _ (List.map _ _)))] = _
  rw [List.map_map]
  rfl

/-- **The view shows all direct parts** of a value: a dictionary's view lists
its entries, and in the view of a struct or a resource the fields are listed. -/
def Shown : Value → Prop
  | .array elements => (Value.array elements).view = .array (elements.map view)
  | .dict entries =>
    (Value.dict entries).view.Lists (entries.map fun e => (e.1.label, e.2.view))
  | .struct typeName fields =>
    ∃ inner, (Value.struct typeName fields).view.Lists
        [("struct", .str typeName), ("fields", inner)]
      ∧ inner.Lists (fields.map fun f => (f.1, f.2.view))
  | .resource id typeName fields =>
    ∃ inner, (Value.resource id typeName fields).view.Lists
        [("resource", .str typeName), ("id", .int id.number), ("fields", inner)]
      ∧ inner.Lists (fields.map fun f => (f.1, slotView f.2))
  | _ => True

/-- **No two keys clash** in the value, its parts apart. -/
def Unclashing : Value → Prop
  | .dict entries => ∀ e ∈ entries, ∀ e' ∈ entries, ¬e.1.Clash e'.1
  | _ => True

/-- Different keys have different labels if none of them clash. -/
theorem nodup_labels_iff (distinct : (entries.map Prod.fst).Nodup) :
    (entries.map fun e => e.1.label).Nodup ↔ ∀ e ∈ entries, ∀ e' ∈ entries, ¬e.1.Clash e'.1 := by
  have labels : (entries.map fun e => e.1.label) = (entries.map Prod.fst).map Key.label := by
    rw [List.map_map]
    rfl
  rw [labels]
  constructor
  · intro apart e he e' he' clash
    have same := List.inj_on_of_nodup_map apart (List.mem_map_of_mem he)
      (List.mem_map_of_mem he') (Key.label_eq_iff.2 (.inr (.inl clash)))
    exact clash.ne same
  · intro unclashing
    refine List.Nodup.map_on (fun k hk k' hk' same => ?_) distinct
    obtain ⟨e, he, rfl⟩ := List.mem_map.1 hk
    obtain ⟨e', he', rfl⟩ := List.mem_map.1 hk'
    exact (Key.label_eq_iff.1 same).resolve_right fun clash =>
      clash.elim (unclashing e he e' he') (unclashing e' he' e he)

/-- **The view of a value shows its parts** if it is no dictionary with clashing
keys. -/
theorem shown_iff (wellWritten : v.WellWritten) : v.Shown ↔ v.Unclashing := by
  cases v with
  | array elements => exact iff_of_true (view_array elements) trivial
  | dict entries =>
    refine Iff.trans ?_ (nodup_labels_iff wellWritten.1.nodup_keys)
    show (Value.dict entries).view.Lists _ ↔ _
    rw [view_dict, Json.lists_object_iff, List.map_map]
    rfl
  | struct typeName fields =>
    refine iff_of_true ⟨Json.object (fields.map fun f => (f.1, f.2.view)), ?_, ?_⟩ trivial
    · rw [view_struct, Json.lists_object_iff]
      show ["struct", "fields"].Nodup
      decide
    · rw [Json.lists_object_iff, List.map_map]
      exact wellWritten
  | resource id typeName fields =>
    refine iff_of_true ⟨Json.object (fields.map fun f => (f.1, slotView f.2)), ?_, ?_⟩ trivial
    · rw [view_resource, Json.lists_object_iff]
      show ["resource", "id", "fields"].Nodup
      decide
    · rw [Json.lists_object_iff, List.map_map]
      exact wellWritten.2
  | _ => exact iff_of_true trivial trivial

end Value

/-! ## Stores -/

namespace Store

variable {s : Store}

/-- The accounts that have an entry, each with its entries. -/
def inhabited (s : Store) : List (Address × List (Path × Entry)) :=
  (s.accounts.entries.filter fun a => !(accountEntries a.2).isEmpty).map fun a =>
    (a.1, accountEntries a.2)

/-- **The accounts are those of a store**: each that has an entry comes once, and
with every entry of its own once. -/
structure ListedBy (s : Store) (accounts : List (Address × List (Path × Entry))) : Prop where
  distinct : (accounts.map Prod.fst).Nodup
  occupied : ∀ address, address ∈ accounts.map Prod.fst ↔ ∃ path e, s.get? address path = some e
  apart : ∀ account ∈ accounts, (account.2.map Prod.fst).Nodup
  entries : ∀ account ∈ accounts, ∀ path e,
    (path, e) ∈ account.2 ↔ s.get? account.1 path = some e

/-- The entries shown for an account are those the store has there. -/
theorem mem_accountEntries_iff {address : Address} {domains : SortedMap Domain Slots}
    (known : s.accounts.get? address = some domains) {path : Path} {e : Entry} :
    (path, e) ∈ accountEntries domains ↔ s.get? address path = some e := by
  rw [mem_accountEntries, get?_eq_some_iff, known]
  exact ⟨fun h => ⟨domains, rfl, h⟩, fun ⟨_, same, h⟩ => Option.some.inj same ▸ h⟩

/-- The accounts that have storage list the whole store. -/
theorem listedBy_inhabited (s : Store) : s.ListedBy s.inhabited where
  distinct := by
    unfold inhabited
    rw [List.map_map]
    exact (List.filter_sublist.map _).nodup s.accounts.ascending.nodup_keys
  occupied address := by
    unfold inhabited
    rw [List.map_map]
    constructor
    · intro mem
      obtain ⟨⟨address, domains⟩, account, rfl⟩ := List.mem_map.1 mem
      obtain ⟨known, filled⟩ := List.mem_filter.1 account
      obtain ⟨⟨path, e⟩, there⟩ :=
        List.exists_mem_of_ne_nil (accountEntries domains) (by simpa using filled)
      exact ⟨path, e, (mem_accountEntries_iff (SortedMap.mem_entries_iff.1 known)).1 there⟩
    · rintro ⟨path, e, found⟩
      obtain ⟨domains, known, -⟩ := get?_eq_some_iff.1 found
      have filled := List.ne_nil_of_mem ((mem_accountEntries_iff known).2 found)
      exact List.mem_map.2 ⟨(address, domains), List.mem_filter.2
        ⟨SortedMap.mem_entries_iff.2 known, by simpa using filled⟩, rfl⟩
  apart account mem := by
    obtain ⟨a, -, rfl⟩ := List.mem_map.1 mem
    exact nodup_paths a.2
  entries account mem path e := by
    obtain ⟨a, ha, rfl⟩ := List.mem_map.1 mem
    exact mem_accountEntries_iff (SortedMap.mem_entries_iff.1 (List.mem_of_mem_filter ha))

/-- The view of a store is that of its accounts. -/
theorem view_eq (s : Store) :
    s.view = Json.object (s.inhabited.map fun a => (a.1.text, accountView a.2)) := by
  unfold view inhabited
  dsimp only
  rw [List.filter_map, List.map_map, List.map_map]
  rfl

end Store

namespace Value.Everywhere

variable {P Q R : Value → Prop} {v : Value}

/-- Properties that are the same wherever a third one holds. -/
theorem iff_of (h : Everywhere R v) (same : ∀ v, R v → (P v ↔ Q v)) :
    Everywhere P v ↔ Everywhere Q v := by
  induction h with
  | intro here inside ih =>
    exact ⟨fun h => ⟨(same _ here).1 h.here, fun part mem => (ih part mem).1 (h.inside part mem)⟩,
      fun h => ⟨(same _ here).2 h.here, fun part mem => (ih part mem).2 (h.inside part mem)⟩⟩

end Value.Everywhere

/-- **A view of a dictionary** has the values of the last entries for its labels. -/
theorem Value.exists_view_dict (entries : List (Key × Value)) :
    ∃ members, (Value.dict entries).view = .obj members ∧ (members.map Prod.fst).Nodup
      ∧ ∀ name j, (name, j) ∈ members ↔ ∃ first e later, entries = first ++ e :: later
        ∧ e.1.label = name ∧ name ∉ later.map (fun e => e.1.label) ∧ j = e.2.view := by
  refine ⟨_, view_dict entries, (Table.ascending_sorted _).nodup_keys, fun name j => ?_⟩
  rw [Table.mem_sorted_iff]
  constructor
  · rintro ⟨front, back, split, last⟩
    obtain ⟨first, rest, rfl, rfl, shown⟩ := List.map_eq_append_iff.1 split
    obtain ⟨e, later, rfl, same, rfl⟩ := List.map_eq_cons_iff.1 shown
    obtain ⟨rfl, rfl⟩ := Prod.mk.inj same
    exact ⟨first, e, later, rfl, rfl, by rwa [List.map_map] at last, rfl⟩
  · rintro ⟨first, e, later, rfl, rfl, last, rfl⟩
    refine ⟨_, _, by rw [List.map_append, List.map_cons], ?_⟩
    rwa [List.map_map]

/-- **The view of a store loses nothing**: it lists the accounts that have an
entry, and for each the entries of the account. **The view of a value loses
nothing but entries of dictionaries whose keys clash**: it shows the parts of the
value at every depth if and only if no two keys of a dictionary clash, at any
depth; and of entries with one label it has the last. -/
theorem view_complete (s : Store) {v : Value} (readable : v.Readable)
    (entries : List (Key × Value)) :
    (∃ accounts, s.ListedBy accounts
        ∧ s.view.Lists (accounts.map fun a => (a.1.text, Store.accountView a.2))
        ∧ ∀ a ∈ accounts, (Store.accountView a.2).Lists (a.2.map fun e => (e.1.text, e.2.view)))
      ∧ (v.Everywhere Value.Shown ↔ v.Everywhere Value.Unclashing)
      ∧ ∃ members, (Value.dict entries).view = .obj members ∧ (members.map Prod.fst).Nodup
        ∧ ∀ name j, (name, j) ∈ members ↔ ∃ first e later, entries = first ++ e :: later
          ∧ e.1.label = name ∧ name ∉ later.map (fun e => e.1.label) ∧ j = e.2.view := by
  refine ⟨⟨s.inhabited, s.listedBy_inhabited, ?_, fun a mem => ?_⟩,
    readable.iff_of fun _ => Value.shown_iff, Value.exists_view_dict entries⟩
  · rw [s.view_eq, Json.lists_object_iff, List.map_map]
    have texts := s.listedBy_inhabited.distinct.map_on (f := Address.text)
      fun _ _ _ _ => Address.text_injective
    rwa [List.map_map] at texts
  · have texts := (s.listedBy_inhabited.apart a mem).map_on (f := Path.text)
      fun _ _ _ _ => Path.text_injective
    rw [List.map_map] at texts
    unfold Store.accountView
    rw [Json.lists_object_iff, List.map_map]
    exact texts

namespace Scenario

/-- A dictionary with a number and a text for keys. -/
def prices : Value := .dict [(.uint 1, .str "one"), (.str "gold", .array [.uint 7])]

/-- The dictionary of prices can be read back from its bytes. -/
theorem readable_prices : prices.Readable := by
  have one : (Value.str "one").Readable := ⟨trivial, fun _ mem => nomatch mem⟩
  have seven : (Value.uint 7).Readable :=
    ⟨show 7 < UInt64.size by decide, fun _ mem => nomatch mem⟩
  have gold : (Value.array [.uint 7]).Readable :=
    Value.Everywhere.array_iff.2 ⟨trivial, List.forall_mem_singleton.2 seven⟩
  have inOrder : Table.Ascending [(Key.uint 1, Value.str "one"), (.str "gold", .array [.uint 7])] :=
    List.pairwise_pair.2 rfl
  refine Value.Everywhere.dict_iff.2 ⟨⟨inOrder, List.forall_mem_cons.2
    ⟨show 1 < UInt64.size by decide, List.forall_mem_singleton.2 trivial⟩⟩, ?_⟩
  exact List.forall_mem_cons.2 ⟨one, List.forall_mem_singleton.2 gold⟩

/-- None of its keys clash, nor do any in it. -/
theorem unclashing_prices : prices.Everywhere Value.Unclashing := by
  have one : (Value.str "one").Everywhere Value.Unclashing := ⟨trivial, fun _ mem => nomatch mem⟩
  have seven : (Value.uint 7).Everywhere Value.Unclashing := ⟨trivial, fun _ mem => nomatch mem⟩
  have gold : (Value.array [.uint 7]).Everywhere Value.Unclashing :=
    Value.Everywhere.array_iff.2 ⟨trivial, List.forall_mem_singleton.2 seven⟩
  refine Value.Everywhere.dict_iff.2 ⟨?_, List.forall_mem_cons.2
    ⟨one, List.forall_mem_singleton.2 gold⟩⟩
  exact (Value.nodup_labels_iff (by decide)).1 (by decide)

/-- Two flags, one of them under a text. -/
def flags : Value := .dict [(.bool true, .uint 1), (.str "true", .uint 2)]

end Scenario

/-- The view of the prices shows all there is. -/
theorem view_complete_prices :
    Scenario.prices.Everywhere Value.Shown
      ∧ Scenario.prices.view = .obj [("1", .str "one"), ("gold", .array [.int 7])] :=
  ⟨(view_complete Store.empty Scenario.readable_prices []).2.1.2 Scenario.unclashing_prices, rfl⟩

/-- **A flag is lost in the view**: of the two that clash, the second one is
shown. -/
theorem flag_lost_in_view :
    Scenario.flags.view = .obj [("true", .int 2)] ∧ ¬Scenario.flags.Shown := by
  refine ⟨rfl, ?_⟩
  rintro ⟨members, shown, same, -⟩
  obtain rfl : [("true", Json.int 2)] = members := Json.obj.inj shown
  exact absurd same.length_eq (by decide)

end Custody
