import Custody.Proofs.Codec.Decoded
import Custody.Scenario

/-!
# The byte form

The bytes of a value or a store are a faithful form of it. Only a reference
keeps a value from being written down (`Value.bytes?_eq_none_iff`); what has
bytes is read back from them, whatever follows; and whatever the decoder makes
of bytes, however these came about, is written and read back like anything
else. Values stand for those of a host when they are **readable**: numbers of a
machine, dictionaries in key order, fields with distinct names.
-/

namespace Custody

/-! ## References in values and stores -/

namespace Value

/-- Whether a reference occurs in the value. -/
def Refers (v : Value) : Prop := ∃ r, Occurs (.reference r) v

theorem everywhere_concrete_iff {v : Value} : Everywhere Concrete v ↔ ¬ v.Refers := by
  constructor
  · rintro concrete ⟨r, occurs⟩
    exact concrete.of_occurs occurs
  · intro apart
    induction v using Value.induction with
    | step v ih =>
      refine ⟨?_, fun part mem => ih part mem fun ⟨r, occurs⟩ => apart ⟨r, .inside mem occurs⟩⟩
      cases v with
      | reference r => exact apart ⟨r, .here⟩
      | _ => trivial

/-- Labelled parts that have bytes have them each. -/
theorem exists_of_writeParts {β κ : Type} {label : κ → Bytes} {key : β → κ}
    {write : β → Option Bytes} {parts : List β} {bs : Bytes}
    (written : writeParts label (parts.map fun x => (key x, write x)) = some bs) :
    ∀ x ∈ parts, ∃ part, write x = some part := by
  obtain ⟨joined, together, -⟩ := Option.bind_eq_some_iff.1 written
  exact fun x hx => ⟨_, (joinParts_eq_some together).1 x hx⟩

/-- What has bytes contains no reference. -/
theorem concrete_of_bytes {v : Value} {bs : Bytes} (written : v.bytes? = some bs) :
    Everywhere Concrete v := by
  induction v using Value.induction generalizing bs with
  | step v ih =>
  cases v with
  | array elements =>
    obtain ⟨parts, written, -⟩ := bytes?_array_eq_some.1 written
    refine Everywhere.array_iff.2 ⟨trivial, fun v hv => ?_⟩
    obtain ⟨part, written⟩ := @exists_of_writeParts _ _ _ (fun _ => ()) _ _ _ written v hv
    exact ih v hv written
  | dict entries =>
    obtain ⟨parts, written, -⟩ := bytes?_dict_eq_some.1 written
    refine Everywhere.dict_iff.2 ⟨trivial, fun e he => ?_⟩
    obtain ⟨part, written⟩ := exists_of_writeParts written e he
    exact ih e.2 (List.mem_map_of_mem he) written
  | struct typeName fields =>
    obtain ⟨parts, written, -⟩ := bytes?_struct_eq_some.1 written
    refine Everywhere.struct_iff.2 ⟨trivial, fun f hf => ?_⟩
    obtain ⟨part, written⟩ := exists_of_writeParts written f hf
    exact ih f.2 (List.mem_map_of_mem hf) written
  | resource id typeName fields =>
    obtain ⟨slots, written, -⟩ := bytes?_resource_eq_some.1 written
    refine Everywhere.resource_iff.2 ⟨trivial, fun f hf v hv => ?_⟩
    obtain ⟨slot, written⟩ := exists_of_writeParts written f hf
    rw [Option.mem_def.1 hv] at written
    obtain ⟨part, written, -⟩ := Option.bind_eq_some_iff.1 written
    exact ih v (List.mem_filterMap.2 ⟨f, hf, hv⟩) written
  | reference r => cases written
  | _ => exact ⟨trivial, fun _ mem => nomatch mem⟩

/-- **Only a reference keeps a value from being written down.** -/
theorem bytes?_eq_none_iff {v : Value} : v.bytes? = none ↔ v.Refers := by
  constructor
  · intro missing
    by_contra apart
    obtain ⟨bs, written⟩ := exists_bytes (everywhere_concrete_iff.2 apart)
    rw [missing] at written
    cases written
  · intro refers
    cases written : v.bytes? with
    | none => rfl
    | some bs => exact absurd refers (everywhere_concrete_iff.1 (concrete_of_bytes written))

end Value

/-- Whether a reference occurs in the entry. -/
def Entry.Refers : Entry → Prop
  | .value v => v.Refers
  | .link _ => False

theorem Entry.bytes?_eq_none_iff {e : Entry} : e.bytes? = none ↔ e.Refers := by
  cases e with
  | value v =>
    show v.bytes?.bind (fun bs => some (Bytes.tag 0 ++ bs)) = none ↔ v.Refers
    rw [← Value.bytes?_eq_none_iff]
    cases v.bytes? <;> simp
  | link l => exact iff_of_false (fun h => nomatch h) id

namespace Store

/-- Whether a reference is stored, in whatever value. -/
def Refers (s : Store) : Prop := ∃ e ∈ s.entries, e.2.2.Refers

/-- **Only a stored reference keeps a store from being written down.** -/
theorem bytes?_eq_none_iff {s : Store} : s.bytes? = none ↔ s.Refers := by
  constructor
  · intro missing
    by_contra apart
    have each : ∀ e ∈ s.entries, ∃ bs, e.2.2.bytes? = some bs := fun e he =>
      Option.ne_none_iff_exists'.1 fun none => apart ⟨e, he, Entry.bytes?_eq_none_iff.1 none⟩
    obtain ⟨bs, written⟩ := exists_bytes each
    rw [missing] at written
    cases written
  · rintro ⟨e, he, refers⟩
    cases written : s.bytes? with
    | none => rfl
    | some bs =>
      obtain ⟨account, ha, inAccount⟩ := List.mem_flatMap.1 he
      obtain ⟨e', inDomains, rfl⟩ := List.mem_map.1 inAccount
      obtain ⟨domain, hd, inDomain⟩ := List.mem_flatMap.1 inDomains
      obtain ⟨slot, hs, rfl⟩ := List.mem_map.1 inDomain
      obtain ⟨_, domains⟩ := Value.exists_of_writeParts written account ha
      obtain ⟨_, slots⟩ := Value.exists_of_writeParts domains domain hd
      obtain ⟨bs, entry⟩ := Value.exists_of_writeParts slots slot hs
      rw [Entry.bytes?_eq_none_iff.2 refers] at entry
      cases entry

end Store

/-! ## Faithfulness -/

/-- **The byte form is faithful**, with a decoder that reads it back:

* what cannot be written is what refers;
* what was written is read back, and what follows it is left;
* so two things never share their bytes;
* and what is decoded from any bytes, in order or not, is written and read back
  itself.

The bytes are those that fit into an address space. -/
structure Faithful {α : Type} (write : α → Except Fault Bytes) (read : Decoder α)
    (Native Refers : α → Prop) : Prop where
  refused : ∀ a, (∃ fault, write a = .error fault) ↔ Refers a
  restored : ∀ a bs, Native a → write a = .ok bs → bs.Addressable →
    ∀ tail, read.run (bs ++ tail) = some (a, tail)
  injective : ∀ a b bs, Native a → Native b → write a = .ok bs → write b = .ok bs →
    bs.Addressable → a = b
  stable : ∀ input a rest, input.Addressable → read.run input = some (a, rest) →
    Native a ∧ ∃ bs, write a = .ok bs ∧ bs.Addressable
      ∧ ∀ tail, read.run (bs ++ tail) = some (a, tail)

/-- The byte form is faithful when the decoder reads back what has bytes, and
yields nothing else. -/
theorem Faithful.of_reads {α : Type} {write? : α → Option Bytes} {write : α → Except Fault Bytes}
    {read : Decoder α} {Native Refers : α → Prop} {fault : Fault}
    (writes : ∀ a, write a = match write? a with
      | some bs => .ok bs
      | none => .error fault)
    (refused : ∀ a, write? a = none ↔ Refers a)
    (reads : ∀ a bs, Native a → write? a = some bs → bs.Addressable → read.Reads bs a)
    (yields : read.Yields Native write?) : Faithful write read Native Refers := by
  have ok {a : α} {bs : Bytes} : write a = .ok bs ↔ write? a = some bs := by
    rw [writes]
    cases write? a with
    | none => simp
    | some cs => simp
  refine ⟨fun a => ?_, fun a bs native written whole => reads a bs native (ok.1 written) whole,
    fun a b bs first second writtenA writtenB whole => ?_, fun input a rest whole decoded => ?_⟩
  · rw [← refused, writes]
    cases write? a with
    | none => simp
    | some bs => simp
  · have one := reads a bs first (ok.1 writtenA) whole []
    rw [reads b bs second (ok.1 writtenB) whole []] at one
    exact (Prod.mk.inj (Option.some.inj one)).1.symm
  · obtain ⟨count, taken, ⟨native, bs, written⟩, le⟩ := yields input a rest decoded
    rw [Bytes.extent, written] at le
    -- no more bytes than were taken off the front
    have short : bs.Addressable := whole.of_length_le (by
      have : bs.length ≤ count := le
      omega)
    exact ⟨native, bs, ok.2 written, short, reads a bs native written short⟩

/-- **The byte forms of values and of stores are faithful.** -/
theorem byteForm_faithful :
    Faithful Value.toBytes Value.decoder Value.Readable Value.Refers
      ∧ Faithful Store.toBytes Store.decoder Store.Readable Store.Refers :=
  ⟨.of_reads (fun _ => rfl) (fun _ => Value.bytes?_eq_none_iff)
      (fun v _ readable written whole => v.reads readable written whole) Value.yields,
    .of_reads (fun _ => rfl) (fun _ => Store.bytes?_eq_none_iff)
      (fun _ _ readable written whole => Store.reads readable written whole) Store.yields⟩

namespace Scenario

/-- A dictionary as no encoder writes it: its keys descend, and the first one
comes again. -/
def disorder : Bytes :=
  Bytes.tag 8 ++ Bytes.word 3
    ++ ((Key.uint 2).bytes ++ (Bytes.tag 1 ++ Bytes.flag true))
    ++ ((Key.uint 1).bytes ++ Bytes.tag 0)
    ++ ((Key.uint 2).bytes ++ (Bytes.tag 1 ++ Bytes.flag false))

/-- What is made of it. -/
def order : Value := .dict [(.uint 1, .nil), (.uint 2, .bool false)]

end Scenario

/-- Bytes in disorder come out in order, and stay so. -/
theorem byteForm_faithful_disorder :
    Value.decoder.run Scenario.disorder = some (Scenario.order, [])
      ∧ Scenario.order.toBytes ≠ .ok Scenario.disorder
      ∧ ∃ bs, Scenario.order.toBytes = .ok bs ∧ bs.Addressable
        ∧ ∀ tail, Value.decoder.run (bs ++ tail) = some (Scenario.order, tail) := by
  have whole : Scenario.disorder.Addressable := by
    show List.length Scenario.disorder < UInt64.size
    decide
  have decoded : Value.decoder.run Scenario.disorder = some (Scenario.order, []) := rfl
  exact ⟨decoded, by decide, (byteForm_faithful.1.stable _ _ _ whole decoded).2⟩

end Custody
