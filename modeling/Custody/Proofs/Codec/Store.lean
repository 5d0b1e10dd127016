import Custody.Bytes.Store
import Custody.Proofs.Codec.Value

/-!
# The round trip of stores

A store of readable values that has bytes is read back from them, entry for
entry and field for field. A transaction keeps the bytes of its store, so
this is what an abort rests on.
-/

namespace Custody

open Decoder

/-- The entry is a link or a regular value. -/
def Entry.Regular : Entry → Prop
  | .value v => v.Regular
  | .link _ => True

/-- **Every stored value is regular.** -/
def Store.Regular (s : Store) : Prop := ∀ e ∈ s.entries, e.2.2.Regular

/-- The entry is a link or a readable value. -/
def Entry.Readable : Entry → Prop
  | .value v => v.Readable
  | .link _ => True

/-- **Every stored value is readable.** -/
def Store.Readable (s : Store) : Prop := ∀ e ∈ s.entries, e.2.2.Readable

theorem Store.Regular.readable {s : Store} (h : s.Regular) : s.Readable := by
  rintro ⟨address, path, e⟩ mem
  have regular := h _ mem
  cases e with
  | value v => exact Value.Regular.readable regular
  | link l => trivial

namespace SortedMap

variable {κ α : Type} [Ord κ] [Std.LawfulEqOrd κ] [Std.TransOrd κ]

theorem entries_foldl_insert (m : SortedMap κ α) (added : Table κ α) :
    (added.foldl (fun m entry => m.insert entry.1 entry.2) m).entries
      = added.foldl (fun t entry => Table.place t entry.1 entry.2) m.entries := by
  induction added generalizing m with
  | nil => rfl
  | cons entry added ih => exact ih _

/-- **A map is the map of its entries.** -/
theorem ofList_entries (m : SortedMap κ α) : ofList m.entries = m := by
  obtain ⟨entries, ascending⟩ := m
  have same : (ofList entries).entries = entries :=
    (entries_foldl_insert empty entries).trans (Table.sorted_of_ascending ascending)
  rcases h : ofList entries with ⟨entries', ascending'⟩
  rw [h] at same
  obtain rfl : entries' = entries := same
  rfl

/-- **A map reads back** when its keys and its values do. -/
theorem reads {key : κ → Bytes} {value : α → Option Bytes} {readKey : Decoder κ}
    {readValue : Decoder α} {m : SortedMap κ α} {bs : Bytes}
    (written : m.bytes? key value = some bs) (whole : bs.Addressable)
    (positive : ∀ k, 0 < (key k).length)
    (keys : ∀ k, (key k).Addressable → Reads readKey (key k) k)
    (values : ∀ e ∈ m.entries, ∀ cs, value e.2 = some cs → cs.Addressable →
      Reads readValue cs e.2) :
    Reads (SortedMap.decoder readKey readValue) bs m := by
  have pairsRead : Reads (pairs readKey readValue) bs m.entries := by
    have := Value.reads_parts (f := fun x => x) written whole
      (fun e _ cs _ => by have := positive e.1; rw [List.length_append]; omega)
      (fun e mem cs he short => by
        have part : (key e.1 ++ cs).Addressable := whole.of_length_le (by omega)
        exact reads_pair (keys e.1 part.left) (values e mem cs he part.right))
    rwa [List.map_id'] at this
  have := pairsRead.map (f := SortedMap.ofList)
  rwa [ofList_entries] at this

end SortedMap

theorem Link.reads {l : Link} (h : l.bytes.Addressable) : Reads decoder l.bytes l := by
  show Reads _ (l.source.bytes ++ l.target.bytes ++ l.promise.bytes) _
  rw [List.append_assoc]
  exact (Path.reads h.left.left).bind
    ((Path.reads h.left.right).bind (RefTy.reads h.right).bind_pure)

theorem Entry.reads {e : Entry} {bs : Bytes} (readable : e.Readable) (written : e.bytes? = some bs)
    (whole : bs.Addressable) : Reads decoder bs e := by
  cases e with
  | value v =>
    obtain ⟨part, hv, rfl⟩ : ∃ part, v.bytes? = some part ∧ Bytes.tag 0 ++ part = bs := by
      obtain ⟨part, hv, h⟩ := Option.bind_eq_some_iff.1 written
      exact ⟨part, hv, Option.some.inj h⟩
    exact (reads_tag (by decide)).bind (v.reads readable hv whole.right).map
  | link l =>
    obtain rfl := Option.some.inj written
    exact (reads_tag (by decide)).bind (Link.reads whole.right).map

namespace Store

/-- A slot of a domain of an account is an entry of the store. -/
theorem mem_entries {s : Store} {account : Address × SortedMap Domain Slots}
    {domain : Domain × Slots} {slot : String × Entry} (ha : account ∈ s.accounts.entries)
    (hd : domain ∈ account.2.entries) (hs : slot ∈ domain.2.entries) :
    (account.1, (⟨domain.1, slot.1⟩ : Path), slot.2) ∈ s.entries := by
  refine List.mem_flatMap.2 ⟨account, ha, List.mem_map.2 ⟨(⟨domain.1, slot.1⟩, slot.2), ?_, rfl⟩⟩
  exact List.mem_flatMap.2 ⟨domain, hd, List.mem_map_of_mem hs⟩

/-- **The round trip of a store.** -/
theorem reads {s : Store} {bs : Bytes} (readable : s.Readable) (written : s.bytes? = some bs)
    (whole : bs.Addressable) : Reads decoder bs s := by
  refine (SortedMap.reads written whole (fun a => by rw [Address.length_bytes]; omega)
    (fun a _ => a.reads) fun account ha _ writtenDomains part => ?_).bind_pure
  refine SortedMap.reads writtenDomains part (fun d => by rw [Domain.length_bytes]; omega)
    (fun d _ => d.reads) fun domain hd _ writtenSlots part => ?_
  refine SortedMap.reads writtenSlots part (fun s => by rw [Bytes.length_text]; omega)
    (fun _ h => reads_text h) fun slot hs _ writtenEntry part => ?_
  exact Entry.reads (readable _ (mem_entries ha hd hs)) writtenEntry part

/-- The store fits into memory when it is written. -/
def Writable (s : Store) : Prop := ∀ bytes, s.toBytes = .ok bytes → bytes.Addressable

/-- Whether a store fits into memory is a matter of how many bytes it takes. -/
theorem writable_of_length {s : Store} {n : Nat}
    (length : s.toBytes.toOption.map List.length = some n) (fits : n < UInt64.size) :
    s.Writable := by
  intro bytes written
  rw [written] at length
  obtain rfl : bytes.length = n := Option.some.inj length
  exact fits

/-- **What was written is what is read**: the bytes of a store of readable
values are those of this store and no other. -/
theorem Readable.ofBytes_toBytes {s : Store} {bs : Bytes} (readable : s.Readable)
    (written : s.toBytes = .ok bs) (whole : bs.Addressable) : ofBytes bs = .ok s := by
  have some : s.bytes? = some bs := by
    unfold toBytes at written
    split at written
    next bytes h => rw [h, Except.ok.inj written]
    next => cases written
  unfold ofBytes
  rw [(reads readable some whole).decode?]

end Store

end Custody
