import Custody.Proofs.Codec.Storable
import Mathlib.Algebra.Ring.Nat

/-!
# What a decoder accepts

The decoders take more than what is ever written: the pairs of a map in any
order, with keys repeated, and the fields of a composite likewise. Whatever
they accept, the value they make of it is **readable** again: its numbers came
out of so many bytes, and the tables put what was read in order. And it is
written in **no more bytes** than were taken, since a table keeps of the pairs
that were read one for each key. So it can be written down and read back,
although its bytes need not be those it was read from.

The induction is over the decoders, with the number of bytes taken off the
front in hand (`Decoder.Gives`).
-/

namespace Custody

/-! ## Numbers and texts from bytes -/

namespace Bytes

/-- So many bytes make a number no greater than they can hold. -/
theorem toNat_lt_capacity (bs : Bytes) : toNat bs < capacity bs.length := by
  induction bs with
  | nil => exact Nat.one_pos
  | cons b bs ih =>
    have := b.toNat_lt
    rw [toNat, List.length_cons, capacity]
    omega

/-- What two parts take up is bounded by their bounds. -/
theorem length_append_le {bs cs : Bytes} {n m : Nat} (h : bs.length ≤ n) (h' : cs.length ≤ m) :
    List.length (bs ++ cs) ≤ n + m := by
  rw [List.length_append]
  exact Nat.add_le_add h h'

/-- A text is written with the bytes that it was read from. -/
theorem ofText_of_toText? {bs : Bytes} {s : String} (h : toText? bs = some s) : ofText s = bs := by
  unfold toText? String.fromUTF8? at h
  split at h
  · obtain rfl := Option.some.inj h
    rfl
  · cases h

end Bytes

/-! ## Values with the bytes they took -/

namespace Decoder

variable {α β κ : Type} {d : Decoder α} {P Q : α → Nat → Prop}

/-- **What the decoder gives has a property**, which may speak of the number of
bytes it took off the front. -/
def Gives (d : Decoder α) (P : α → Nat → Prop) : Prop :=
  ∀ input a rest, d.run input = some (a, rest) →
    ∃ count, input.length = count + rest.length ∧ P a count

namespace Gives

/-- What a decoder gives has every weaker property. -/
theorem mono (h : Gives d P) (le : ∀ a n, P a n → Q a n) : Gives d Q := by
  intro input a rest hd
  obtain ⟨count, taken, given⟩ := h input a rest hd
  exact ⟨count, taken, le a count given⟩

/-- A decoder that takes nothing gives its value with no bytes. -/
theorem pure {a : α} (h : P a 0) : Gives (Pure.pure a) P := by
  intro input b rest hd
  obtain ⟨rfl, rfl⟩ := Prod.mk.inj (Option.some.inj hd)
  exact ⟨0, (Nat.zero_add _).symm, h⟩

/-- A decoder that refuses gives nothing. -/
theorem of_failure : Gives (failure : Decoder α) P := fun _ _ _ h => nomatch h

/-- **Decoders in sequence**: the second speaks of the bytes that both took. -/
theorem bind {k : α → Decoder β} {Q : β → Nat → Prop} (hd : Gives d P)
    (hk : ∀ a n, P a n → Gives (k a) fun b m => Q b (n + m)) : Gives (d >>= k) Q := by
  intro input b rest h
  rw [StateT.run_bind, Option.bind_eq_bind, Option.bind_eq_some_iff] at h
  obtain ⟨⟨a, middle⟩, first, second⟩ := h
  obtain ⟨n, hn, pa⟩ := hd input a middle first
  obtain ⟨m, hm, qb⟩ := hk a n pa middle b rest second
  exact ⟨n + m, by omega, qb⟩

/-- The last step may wrap what was given. -/
theorem bind_pure {f : α → β} {Q : β → Nat → Prop} (hd : Gives d P)
    (h : ∀ a n, P a n → Q (f a) n) : Gives (d >>= fun a => Pure.pure (f a)) Q :=
  hd.bind fun a n given => pure (h a n given)

/-- So may a map. -/
theorem map {f : α → β} {Q : β → Nat → Prop} (hd : Gives d P)
    (h : ∀ a n, P a n → Q (f a) n) : Gives (f <$> d) Q := by
  rw [map_eq_pure_bind]
  exact hd.bind_pure h

/-- A decoder that is bounded by the length of its input gives what it gives
with every bound. -/
theorem of_bounded {bounded : Nat → Decoder α} (h : ∀ bound, Gives (bounded bound) P) :
    Gives (do bounded (← get).length) P :=
  fun input => h input.length input

end Gives

/-! ## Numbers, flags and texts -/

/-- As many bytes are taken as are asked for. -/
theorem gives_bytes (count : Nat) :
    Gives (bytes count) fun bs n => bs.length = count ∧ n = count := by
  intro input a rest h
  replace h : (if (input.take count).length = count then some (input.take count, input.drop count)
    else none) = some (a, rest) := h
  split at h
  next whole =>
    obtain ⟨rfl, rfl⟩ := Prod.mk.inj (Option.some.inj h)
    refine ⟨count, ?_, whole, rfl⟩
    rw [List.length_take] at whole
    rw [List.length_drop]
    omega
  · cases h

/-- A number fits into the width it was read with, -/
theorem gives_number (width : Nat) :
    Gives (number width) fun k n => k < Bytes.capacity width ∧ n = width :=
  (gives_bytes width).map fun bs _ h => ⟨h.1 ▸ bs.toNat_lt_capacity, h.2⟩

/-- and a tag, whatever is written for it, takes no more room than the one that
was read. -/
theorem gives_tag : Gives tag fun _ n => ∀ k, (Bytes.tag k).length ≤ n :=
  (gives_number 4).mono fun _ _ h k => Nat.le_of_eq ((Bytes.length_tag k).trans h.2.symm)

/-- A word is a number of 64 bits, -/
theorem gives_word : Gives word fun k n => k < UInt64.size ∧ ∀ k, (Bytes.word k).length ≤ n :=
  (gives_number 8).mono fun _ _ h =>
    ⟨h.1, fun k => Nat.le_of_eq ((Bytes.length_word k).trans h.2.symm)⟩

/-- and so is a signed number, with its sign. -/
theorem gives_signed : Gives signed fun i n =>
    (-(UInt64.size : Int) ≤ 2 * i ∧ 2 * i < UInt64.size) ∧ (Bytes.signed i).length ≤ n := by
  refine gives_word.bind_pure fun k n h => ⟨?_, h.2 _⟩
  have size : UInt64.size = 18446744073709551616 := rfl
  have fits := h.1
  rw [size] at fits ⊢
  split <;> omega

theorem gives_flag : Gives flag fun _ n => ∀ b, (Bytes.flag b).length ≤ n := by
  refine (gives_number 1).bind fun k n h => ?_
  have one : ∀ b, (Bytes.flag b).length ≤ n := fun b => Nat.le_of_eq h.2.symm
  split
  · exact Gives.pure one
  · exact Gives.pure one
  · exact Gives.of_failure

/-- A text is written with no more bytes than it was read from. -/
theorem gives_text : Gives text fun s n => (Bytes.text s).length ≤ n := by
  refine gives_word.bind fun k n eight => (gives_bytes k).bind fun raw m read => ?_
  intro input s rest given
  have valid : Bytes.toText? raw = some s ∧ input = rest := by
    cases found : Bytes.toText? raw with
    | none =>
      rw [found] at given
      cases given
    | some s' =>
      rw [found] at given
      obtain ⟨rfl, rfl⟩ := Prod.mk.inj (Option.some.inj given)
      exact ⟨rfl, rfl⟩
  obtain ⟨valid, rfl⟩ := valid
  refine ⟨0, (Nat.zero_add _).symm, Bytes.length_append_le (eight.2 _) ?_⟩
  rw [Bytes.ofText_of_toText? valid]
  omega

/-! ## Parts together

A property of what is read, and a size that the bytes taken bound, of each
part; the sizes of the parts add up. -/

section Parts

variable {good : α → Prop} {size : α → Nat} {goodKey : κ → Prop} {sizeKey : κ → Nat}

/-- An optional part is good, and small enough, if there is one. -/
theorem gives_optional (h : Gives d fun a n => good a ∧ size a ≤ n) :
    Gives (optional d) fun x n => (∀ a ∈ x, good a) ∧ 1 + (x.map size).getD 0 ≤ n := by
  refine gives_flag.bind fun present n one => ?_
  have first : 1 ≤ n := one present
  cases present with
  | false => exact Gives.pure ⟨(fun _ mem => nomatch mem), first⟩
  | true =>
    refine h.map fun a m given => ⟨fun b hb => Option.some.inj hb ▸ given.1, ?_⟩
    exact Nat.add_le_add first given.2

/-- The elements that were read are good, and together they are small enough. -/
theorem gives_times (h : Gives d fun a n => good a ∧ size a ≤ n) (count : Nat) :
    Gives (times count d) fun as n => (∀ a ∈ as, good a) ∧ (as.map size).sum ≤ n := by
  induction count with
  | zero => exact Gives.pure ⟨(fun _ mem => nomatch mem), Nat.le_refl _⟩
  | succ count ih =>
    refine h.bind fun a n first => ih.bind_pure fun others m rest => ⟨?_, ?_⟩
    · exact List.forall_mem_cons.2 ⟨first.1, rest.1⟩
    · rw [List.map_cons, List.sum_cons]
      exact Nat.add_le_add first.2 rest.2

/-- So are those of a sequence, with its length in front, -/
theorem gives_sequence (h : Gives d fun a n => good a ∧ size a ≤ n) :
    Gives (sequence d) fun as n => (∀ a ∈ as, good a) ∧ 8 + (as.map size).sum ≤ n :=
  gives_word.bind fun count _ eight => (gives_times h count).mono fun _ _ given =>
    ⟨given.1, Nat.add_le_add (eight.2 0) given.2⟩

/-- and the pairs of a map, before the table puts them in order. -/
theorem gives_pairs {readKey : Decoder κ} (hk : Gives readKey fun k n => goodKey k ∧ sizeKey k ≤ n)
    (h : Gives d fun a n => good a ∧ size a ≤ n) :
    Gives (pairs readKey d) fun es n => (∀ e ∈ es, goodKey e.1 ∧ good e.2)
      ∧ 8 + (es.map fun e => sizeKey e.1 + size e.2).sum ≤ n :=
  gives_sequence (hk.bind fun _ _ first => h.bind_pure fun _ _ second =>
    ⟨⟨first.1, second.1⟩, Nat.add_le_add first.2 second.2⟩)

end Parts

end Decoder

open Decoder Bytes

/-! ## Names of things -/

/-- An address is as long as the bytes it was read from, -/
theorem Address.gives : Gives decoder fun a n => a.bytes.length ≤ n :=
  gives_word.bind_pure fun _ _ h => h.2 _

/-- an identity has 64 bits besides, -/
theorem ResourceId.gives : Gives decoder fun id n =>
    id.number < UInt64.size ∧ id.bytes.length ≤ n :=
  gives_word.bind_pure fun _ _ h => ⟨h.1, h.2 _⟩

/-- a domain is one of three that are written alike in length, -/
theorem Domain.gives : Gives decoder fun d n => d.bytes.length ≤ n := by
  refine gives_tag.bind fun k n tagged => ?_
  split
  case h_4 => exact Gives.of_failure
  all_goals exact Gives.pure (tagged _)

/-- and a path has a domain and a text. -/
theorem Path.gives : Gives decoder fun p n => p.bytes.length ≤ n :=
  Domain.gives.bind fun _ _ domain => gives_text.bind_pure fun _ _ identifier =>
    length_append_le domain identifier

/-- A key that was read has a number of 64 bits, if it has one. -/
theorem Key.gives : Gives decoder fun k n => k.InRange ∧ k.bytes.length ≤ n := by
  refine gives_tag.bind fun k n tagged => ?_
  split
  · exact gives_flag.map fun b m h => ⟨trivial, length_append_le (tagged 0) (h b)⟩
  · exact gives_signed.map fun i m h => ⟨h.1, length_append_le (tagged 1) h.2⟩
  · exact gives_word.map fun u m h => ⟨h.1, length_append_le (tagged 2) (h.2 u)⟩
  · exact gives_text.map fun s m h => ⟨trivial, length_append_le (tagged 3) h⟩
  · exact Address.gives.map fun a m h => ⟨trivial, length_append_le (tagged 4) h⟩
  · exact Gives.of_failure

/-! ## Types -/

namespace Bytes

theorem length_optional {α : Type} (write : α → Bytes) (x : Option α) :
    (optional write x).length = 1 + (x.map fun a => (write a).length).getD 0 := by
  cases x with
  | none => rfl
  | some a => exact List.length_append

theorem length_sequence {α : Type} (write : α → Bytes) (elements : List α) :
    (sequence write elements).length = 8 + (elements.map fun a => (write a).length).sum := by
  rw [sequence, List.length_append, length_word, List.length_flatMap]

end Bytes

namespace Ty

/-- A type is read with as much depth as there are bytes, and is written with no
more of them. -/
theorem gives_within (depth : Nat) :
    Gives (decoderWithin depth) fun t n => t.bytes.length ≤ n := by
  induction depth with
  | zero => exact Gives.of_failure
  | succ depth ih =>
    refine gives_tag.bind fun k n tagged => ?_
    have name : Gives Decoder.text fun s n => True ∧ (Bytes.text s).length ≤ n :=
      gives_text.mono fun _ _ h => ⟨trivial, h⟩
    split
    case h_11 => exact ih.map fun t m h => length_append_le (tagged 10) h
    case h_12 =>
      refine ih.bind fun key m first => ih.bind_pure fun element l second => ?_
      rw [bytes, List.append_assoc]
      exact length_append_le (tagged 11) (length_append_le first second)
    case h_13 => exact gives_text.map fun s m h => length_append_le (tagged 12) h
    case h_14 =>
      refine (gives_optional name).bind fun base m first =>
        (gives_sequence name).bind_pure fun interfaces l second => ?_
      rw [bytes, List.append_assoc]
      exact length_append_le (tagged 13) (length_append_le
        (Nat.le_trans (Nat.le_of_eq (length_optional _ _)) first.2)
        (Nat.le_trans (Nat.le_of_eq (length_sequence _ _)) second.2))
    case h_15 =>
      refine gives_flag.bind fun promises m first => ?_
      cases promises with
      | false => exact Gives.pure (length_append_le (tagged 14) (first false))
      | true =>
        refine gives_flag.bind fun authorized l second => ih.bind_pure fun target i h => ?_
        rw [bytes, List.append_assoc, List.append_assoc]
        exact length_append_le (tagged 14)
          (length_append_le (first true) (length_append_le (second authorized) h))
    case h_16 =>
      refine gives_flag.bind fun authorized m first => ih.bind_pure fun target l h => ?_
      rw [bytes, List.append_assoc]
      exact length_append_le (tagged 15) (length_append_le (first authorized) h)
    case h_17 => exact Gives.of_failure
    all_goals exact Gives.pure (tagged _)

theorem gives : Gives decoder fun t n => t.bytes.length ≤ n := Gives.of_bounded gives_within

end Ty

theorem RefTy.gives : Gives decoder fun r n => r.bytes.length ≤ n :=
  gives_flag.bind fun _ _ flagged => Ty.gives.bind_pure fun _ _ h => length_append_le (flagged _) h

theorem Capability.gives : Gives decoder fun c n => c.bytes.length ≤ n := by
  have promises : Gives RefTy.decoder fun r n => True ∧ r.bytes.length ≤ n :=
    RefTy.gives.mono fun _ _ h => ⟨trivial, h⟩
  refine Address.gives.bind fun a n address => Path.gives.bind fun p m path =>
    (gives_optional promises).bind_pure fun promise l h => ?_
  rw [bytes, List.append_assoc]
  exact length_append_le address (length_append_le path
    (Nat.le_trans (Nat.le_of_eq (length_optional _ _)) h.2))

theorem Link.gives : Gives decoder fun l n => l.bytes.length ≤ n := by
  refine Path.gives.bind fun source n first => Path.gives.bind fun target m second =>
    RefTy.gives.bind_pure fun promise l third => ?_
  rw [bytes, List.append_assoc]
  exact length_append_le first (length_append_le second third)

/-! ## Parts of a composite -/

/-- The length of what is written. -/
def Bytes.extent (written : Option Bytes) : Nat := (written.getD []).length

section Restorable

variable {α : Type} {good : α → Prop} {write : α → Option Bytes}

/-- **What has bytes** and is of the kind that these determine. -/
def Restorable (good : α → Prop) (write : α → Option Bytes) (a : α) : Prop :=
  good a ∧ ∃ bs, write a = some bs

/-- A value that was put together from what was read can be written in the bytes
that it took. -/
theorem restorable_of_bytes {a : α} {bs : Bytes} {n : Nat} (here : good a)
    (written : write a = some bs) (le : bs.length ≤ n) :
    Restorable good write a ∧ extent (write a) ≤ n :=
  ⟨⟨here, bs, written⟩, by rw [extent, written]; exact le⟩

/-- **The decoder yields what has bytes again**, no more of them than it
took. -/
abbrev Decoder.Yields (d : Decoder α) (good : α → Prop) (write : α → Option Bytes) : Prop :=
  Gives d fun a n => Restorable good write a ∧ extent (write a) ≤ n

end Restorable

/-- What a table keeps of assignments takes no more room than these. -/
theorem Table.sum_kept_le {κ α : Type} {assignments kept lost : Table κ α} (size : κ × α → Nat)
    (h : assignments.Perm (kept ++ lost)) : (kept.map size).sum ≤ (assignments.map size).sum := by
  rw [(h.map size).sum_nat, List.map_append, List.sum_append]
  exact Nat.le_add_right _ _

namespace Value

/-- Labelled parts that have bytes take these bytes, those of the labels and
those of a length. -/
theorem exists_writeParts_extent {β κ : Type} (label : κ → Bytes) (key : β → κ)
    {write : β → Option Bytes} {parts : List β} (h : ∀ x ∈ parts, ∃ bs, write x = some bs) :
    ∃ bs, writeParts label (parts.map fun x => (key x, write x)) = some bs
      ∧ bs.length = 8 + (parts.map fun x => (label (key x)).length + extent (write x)).sum := by
  obtain ⟨bs, written⟩ := exists_writeParts label key h
  refine ⟨bs, written, ?_⟩
  simp only [writeParts, Option.bind_eq_bind, Option.bind_eq_some_iff, Option.pure_def,
    Option.some.injEq] at written
  obtain ⟨joined, together, rfl⟩ := written
  obtain ⟨-, rfl⟩ := joinParts_eq_some together
  simp only [List.length_append, length_word, List.length_flatMap, extent]

/-- A slot can be written if what is in it can. -/
theorem exists_slotBytes {slot : Option Value} (h : ∀ v ∈ slot, ∃ bs, v.bytes? = some bs) :
    ∃ bs, slotBytes? (slot.map bytes?) = some bs
      ∧ bs.length = 1 + (slot.map fun v => extent v.bytes?).getD 0 := by
  cases slot with
  | none => exact ⟨_, rfl, rfl⟩
  | some v =>
    obtain ⟨bs, written⟩ := h v rfl
    exact ⟨flag true ++ bs, by simp [slotBytes?, written], by simp [extent, written]; rfl⟩

/-! ## Values -/

/-- A value without parts can be written in the bytes that it took. -/
theorem restorable_scalar {v : Value} {bs : Bytes} {n : Nat} (here : WellWritten v)
    (alone : v.parts = []) (written : v.bytes? = some bs) (le : bs.length ≤ n) :
    Restorable Readable bytes? v ∧ extent v.bytes? ≤ n :=
  restorable_of_bytes (⟨here, fun _ mem => by rw [alone] at mem; cases mem⟩ : Readable v) written le

/-- **Whatever is decoded as a value is readable**, and written in no more
bytes, at every depth. -/
theorem yields_within (depth : Nat) : Yields (decoderWithin depth) Readable bytes? := by
  induction depth with
  | zero => exact Gives.of_failure
  | succ depth ih =>
    have name : Gives Decoder.text fun s n => True ∧ (Bytes.text s).length ≤ n :=
      gives_text.mono fun _ _ h => ⟨trivial, h⟩
    refine gives_tag.bind fun k n tagged => ?_
    split
    · exact Gives.pure (restorable_scalar trivial rfl rfl (tagged 0))
    · exact gives_flag.map fun b m h =>
        restorable_scalar trivial rfl rfl (length_append_le (tagged 1) (h b))
    · exact gives_signed.map fun i m h =>
        restorable_scalar h.1 rfl rfl (length_append_le (tagged 2) h.2)
    · exact gives_word.map fun u m h =>
        restorable_scalar h.1 rfl rfl (length_append_le (tagged 3) (h.2 u))
    · exact gives_text.map fun s m h =>
        restorable_scalar trivial rfl rfl (length_append_le (tagged 4) h)
    · exact Address.gives.map fun a m h =>
        restorable_scalar trivial rfl rfl (length_append_le (tagged 5) h)
    · exact Path.gives.map fun p m h =>
        restorable_scalar trivial rfl rfl (length_append_le (tagged 6) h)
    · -- an array takes what its elements take
      refine (gives_sequence ih).map fun elements m given => ?_
      obtain ⟨parts, written, length⟩ := exists_writeParts_extent (fun _ => []) (fun _ => ())
        fun v hv => (given.1 v hv).2
      refine restorable_of_bytes
        (Everywhere.array_iff.2 ⟨trivial, fun v hv => (given.1 v hv).1⟩)
        (bytes?_array_eq_some.2 ⟨parts, written, rfl⟩) (length_append_le (tagged 7) ?_)
      simp only [List.length_nil, Nat.zero_add] at length
      rw [length]
      exact given.2
    · -- a dictionary, what the pairs take that it keeps
      refine (gives_pairs Key.gives ih).bind_pure fun entries m given => ?_
      obtain ⟨lost, kept⟩ := Table.exists_perm_sorted entries
      have good : ∀ e ∈ Table.sorted entries, e.1.InRange ∧ Restorable Readable bytes? e.2 :=
        fun e he => given.1 e (kept.mem_iff.2 (List.mem_append_left _ he))
      obtain ⟨parts, written, length⟩ := exists_writeParts_extent Key.bytes Prod.fst
        fun e he => (good e he).2.2
      refine restorable_of_bytes (Everywhere.dict_iff.2
          ⟨⟨Table.ascending_sorted entries, fun e he => (good e he).1⟩,
            fun e he => (good e he).2.1⟩)
        (bytes?_dict_eq_some.2 ⟨parts, written, rfl⟩) (length_append_le (tagged 8) ?_)
      rw [length]
      exact Nat.le_trans (Nat.add_le_add_left (Table.sum_kept_le _ kept) 8) given.2
    · -- so does a struct
      refine gives_text.bind fun typeName l named => (gives_pairs name ih).bind_pure
        fun fields m given => ?_
      obtain ⟨lost, kept⟩ := Table.exists_perm_ofList fields
      have good : ∀ f ∈ Table.ofList fields, Restorable Readable bytes? f.2 := fun f hf =>
        (given.1 f (kept.mem_iff.2 (List.mem_append_left _ hf))).2
      obtain ⟨parts, written, length⟩ := exists_writeParts_extent Bytes.text Prod.fst
        fun f hf => (good f hf).2
      refine restorable_of_bytes (Everywhere.struct_iff.2
          ⟨Table.nodup_keys_ofList fields, fun f hf => (good f hf).1⟩)
        (bytes?_struct_eq_some.2 ⟨parts, written, rfl⟩) ?_
      rw [List.append_assoc]
      refine length_append_le (tagged 9) (length_append_le named ?_)
      rw [length]
      exact Nat.le_trans (Nat.add_le_add_left (Table.sum_kept_le _ kept) 8) given.2
    · -- and a resource, with a flag for each slot
      refine ResourceId.gives.bind fun id i numbered => gives_text.bind fun typeName l named =>
        (gives_pairs name (gives_optional ih)).bind_pure fun fields m given => ?_
      obtain ⟨lost, kept⟩ := Table.exists_perm_ofList fields
      have good : ∀ f ∈ Table.ofList fields, ∀ v ∈ f.2, Restorable Readable bytes? v :=
        fun f hf => (given.1 f (kept.mem_iff.2 (List.mem_append_left _ hf))).2
      have slots (f) (hf : f ∈ Table.ofList fields) :=
        exists_slotBytes fun v hv => (good f hf v hv).2
      obtain ⟨parts, written, length⟩ := exists_writeParts_extent Bytes.text Prod.fst
        fun f hf => (slots f hf).imp fun _ h => h.1
      have room (f) (hf : f ∈ Table.ofList fields) :
          extent (slotBytes? (f.2.map bytes?)) = 1 + (f.2.map fun v => extent v.bytes?).getD 0 := by
        obtain ⟨bs, written, length⟩ := slots f hf
        rw [extent, written]
        exact length
      refine restorable_of_bytes (Everywhere.resource_iff.2
          ⟨⟨numbered.1, Table.nodup_keys_ofList fields⟩, fun f hf v hv => (good f hf v hv).1⟩)
        (bytes?_resource_eq_some.2 ⟨parts, written, rfl⟩) ?_
      rw [List.append_assoc, List.append_assoc]
      refine length_append_le (tagged 10)
        (length_append_le numbered.2 (length_append_le named ?_))
      rw [length, List.map_congr_left fun f hf => congrArg _ (room f hf)]
      exact Nat.le_trans (Nat.add_le_add_left (Table.sum_kept_le _ kept) 8) given.2
    · exact Capability.gives.map fun c m h =>
        restorable_scalar trivial rfl rfl (length_append_le (tagged 11) h)
    · exact Gives.of_failure

/-- So it is with the depth that the bytes allow. -/
theorem yields : Yields decoder Readable bytes? := Gives.of_bounded yields_within

end Value

/-! ## Stores -/

/-- **A map of what is readable is readable**: of pairs with one key it keeps
the last, which makes it no longer. -/
theorem SortedMap.yields {κ α : Type} [Ord κ] [Std.LawfulEqOrd κ] [Std.TransOrd κ] [DecidableEq κ]
    {key : κ → Bytes} {good : α → Prop} {value : α → Option Bytes} {readKey : Decoder κ}
    {readValue : Decoder α} (hk : Gives readKey fun k n => (key k).length ≤ n)
    (h : Yields readValue good value) :
    Yields (decoder readKey readValue) (fun m => ∀ e ∈ m.entries, good e.2)
      (SortedMap.bytes? key value) := by
  have keys : Gives readKey fun k n => True ∧ (key k).length ≤ n :=
    hk.mono fun _ _ h => ⟨trivial, h⟩
  refine (gives_pairs keys h).map fun assignments n given => ?_
  have inOrder : (ofList assignments).entries = Table.sorted assignments :=
    entries_foldl_insert empty assignments
  obtain ⟨lost, kept⟩ := Table.exists_perm_sorted assignments
  rw [← inOrder] at kept
  have restorable : ∀ e ∈ (ofList assignments).entries, Restorable good value e.2 := fun e he =>
    (given.1 e (kept.mem_iff.2 (List.mem_append_left _ he))).2
  obtain ⟨bs, written, length⟩ := Value.exists_writeParts_extent key Prod.fst
    fun e he => (restorable e he).2
  refine restorable_of_bytes (fun e he => (restorable e he).1) written ?_
  rw [length]
  exact Nat.le_trans (Nat.add_le_add_left (Table.sum_kept_le _ kept) 8) given.2

/-- An entry is a value or a link, each behind its tag. -/
theorem Entry.yields : Yields decoder Readable bytes? := by
  refine gives_tag.bind fun k n tagged => ?_
  split
  · refine Value.yields.map fun v m given => ?_
    obtain ⟨⟨readable, bs, written⟩, le⟩ := given
    rw [extent, written] at le
    exact restorable_of_bytes (a := Entry.value v) readable (by rw [bytes?, written]; rfl)
      (length_append_le (tagged 0) le)
  · exact Link.gives.map fun l m given =>
      restorable_of_bytes (a := Entry.link l) trivial rfl (length_append_le (tagged 1) given)
  · exact Gives.of_failure

/-- **A store that was decoded** can be written down, in no more bytes, and read
back. -/
theorem Store.yields : Yields decoder Readable bytes? := by
  have slots := SortedMap.yields gives_text Entry.yields
  have domains := SortedMap.yields Domain.gives slots
  refine (SortedMap.yields Address.gives domains).bind_pure fun accounts n given => ?_
  obtain ⟨⟨readable, bs, written⟩, le⟩ := given
  rw [extent, written] at le
  refine restorable_of_bytes (a := Store.mk accounts) (fun e he => ?_) written le
  obtain ⟨account, ha, inAccount⟩ := List.mem_flatMap.1 he
  obtain ⟨e', inDomains, rfl⟩ := List.mem_map.1 inAccount
  obtain ⟨domain, hd, inDomain⟩ := List.mem_flatMap.1 inDomains
  obtain ⟨slot, hs, rfl⟩ := List.mem_map.1 inDomain
  exact readable account ha domain hd slot hs

end Custody
