import Custody.Bytes.Value

/-!
# Reading back what was written

A decoder **reads** a value from its bytes when it takes exactly these bytes
off the front of whatever follows them. Readings compose like the decoders
do, so the round trip of a composite form is put together from those of its
parts, in the order in which these were written.

A number reads back when it fits its width. Texts and sequences are preceded
by their length, which is a 64-bit number, so these read back when they are
shorter than `UInt64.size`; `Bytes.Addressable` says so of a whole, and every
part of an addressable whole is addressable.
-/

namespace Custody

/-! ## Lengths -/

namespace Bytes

/-- **The bytes fit into an address space**: a 64-bit number counts them. -/
def Addressable (bs : Bytes) : Prop := bs.length < UInt64.size

/-- A part of what can be addressed can be addressed, -/
theorem Addressable.of_length_le {bs part : Bytes} (h : bs.Addressable)
    (le : part.length ≤ bs.length) : part.Addressable :=
  Nat.lt_of_le_of_lt le h

/-- so the front of it can, -/
theorem Addressable.left {bs cs : Bytes} (h : (bs ++ cs).Addressable) : bs.Addressable :=
  h.of_length_le (by rw [List.length_append]; omega)

/-- and so can the back. -/
theorem Addressable.right {bs cs : Bytes} (h : (bs ++ cs).Addressable) : cs.Addressable :=
  h.of_length_le (by rw [List.length_append]; omega)

/-- A number takes up the width it is written with, -/
@[simp] theorem length_ofNat (width n : Nat) : (ofNat width n).length = width := by
  induction width generalizing n with
  | zero => rfl
  | succ width ih => rw [ofNat, List.length_cons, ih]

@[simp] theorem length_tag (n : Nat) : (tag n).length = 4 := length_ofNat 4 n

@[simp] theorem length_word (n : Nat) : (word n).length = 8 := length_ofNat 8 n

/-- A text is preceded by its length. -/
@[simp] theorem length_text (s : String) : (text s).length = 8 + (ofText s).length := by
  rw [text, List.length_append, length_word]

/-- What starts with a text is not empty. -/
theorem length_text_append_pos (s : String) (bs : Bytes) : 0 < List.length (text s ++ bs) := by
  rw [List.length_append, length_text]
  omega

/-- Every element of a list takes a byte of the whole at least, so there are
no more elements than bytes. -/
theorem length_le_length_flatMap {α : Type} {write : α → Bytes} {elements : List α}
    (h : ∀ x ∈ elements, 0 < (write x).length) :
    elements.length ≤ (elements.flatMap write).length := by
  induction elements with
  | nil => exact Nat.le_refl _
  | cons x elements ih =>
    have := h x List.mem_cons_self
    have := ih fun y hy => h y (List.mem_cons_of_mem _ hy)
    simp only [List.flatMap_cons, List.length_append, List.length_cons]
    omega

/-- No part of a sequence is longer than the whole. -/
theorem length_le_length_of_mem {α : Type} {write : α → Bytes} {elements : List α} {x : α}
    (h : x ∈ elements) : (write x).length ≤ (elements.flatMap write).length := by
  induction elements with
  | nil => cases h
  | cons y elements ih =>
    rw [List.flatMap_cons, List.length_append]
    rcases List.mem_cons.1 h with rfl | h
    · omega
    · have := ih h
      omega

/-- How many numbers fit into so many bytes. -/
def capacity : (width : Nat) → Nat
  | 0 => 1
  | width + 1 => 256 * capacity width

/-- **A number is read back** if it fits into its bytes. -/
theorem toNat_ofNat {width n : Nat} (h : n < capacity width) : toNat (ofNat width n) = n := by
  induction width generalizing n with
  | zero =>
    obtain rfl : n = 0 := Nat.lt_one_iff.1 h
    rfl
  | succ width ih =>
    have quotient : n / 256 < capacity width := Nat.div_lt_of_lt_mul h
    have low : (UInt8.ofNat (n % 256)).toNat = n % 256 := by
      simp
    rw [ofNat, toNat, low, ih quotient]
    omega

/-- A text is read back from its bytes. -/
theorem toText?_ofText (s : String) : toText? (ofText s) = some s := by
  show String.fromUTF8? ⟨s.toByteArray.data.toList.toArray⟩ = some s
  rw [Array.toArray_toList]
  unfold String.fromUTF8?
  rw [dif_pos s.isValidUTF8]
  rfl

end Bytes

namespace Decoder

variable {α β κ : Type} {d : Decoder α} {bs cs : Bytes} {a : α}

/-- **The decoder reads `a` from `bs`**, whatever follows. -/
def Reads (d : Decoder α) (bs : Bytes) (a : α) : Prop :=
  ∀ rest, d.run (bs ++ rest) = some (a, rest)

/-! ## Composition -/

namespace Reads

/-- Nothing is read from nothing. -/
theorem pure : Reads (pure a : Decoder α) [] a := fun _ => rfl

/-- **Readings are put together** in the order in which the parts were written.
-/
theorem bind {k : α → Decoder β} {b : β} (hd : Reads d bs a) (hk : Reads (k a) cs b) :
    Reads (d >>= k) (bs ++ cs) b := by
  intro rest
  rw [List.append_assoc, StateT.run_bind, hd]
  exact hk rest

/-- What is read may be wrapped. -/
theorem map {f : α → β} (hd : Reads d bs a) : Reads (f <$> d) bs (f a) := by
  have := hd.bind (k := fun a => Pure.pure (f a)) pure
  rwa [List.append_nil, ← map_eq_pure_bind] at this

/-- The last part of a form, with what is made of the parts. -/
theorem bind_pure {f : α → β} (hd : Reads d bs a) :
    Reads (d >>= fun a => Pure.pure (f a)) bs (f a) := by
  rw [← map_eq_pure_bind]
  exact hd.map

/-- A decoder bounded by the number of bytes at hand reads what it reads
under every bound that is large enough. -/
theorem of_bounded {bounded : Nat → Decoder α}
    (h : ∀ bound, bs.length ≤ bound → Reads (bounded bound) bs a) :
    Reads (do bounded (← get).length) bs a := by
  intro rest
  exact h (bs ++ rest).length (by rw [List.length_append]; omega) rest

/-- **The round trip**: decoding the bytes gives the value. -/
theorem decode? (hd : Reads d bs a) : decode? d bs = some a := by
  have h := hd []
  rw [List.append_nil] at h
  unfold Decoder.decode?
  rw [h]
  rfl

end Reads

/-! ## Numbers, flags and texts -/

/-- Bytes are read back as they are. -/
theorem reads_bytes : Reads (bytes bs.length) bs bs := by
  intro rest
  show (if ((bs ++ rest).take bs.length).length = bs.length then _ else _) = _
  rw [List.take_left, if_pos rfl, List.drop_left]

/-- A number reads back if it fits its width. -/
theorem reads_number {width n : Nat} (h : n < Bytes.capacity width) :
    Reads (number width) (Bytes.ofNat width n) n := by
  have raw : Reads (bytes width) (Bytes.ofNat width n) (Bytes.ofNat width n) := by
    have := @reads_bytes (Bytes.ofNat width n)
    rwa [Bytes.length_ofNat] at this
  have := raw.map (f := Bytes.toNat)
  rwa [Bytes.toNat_ofNat h] at this

/-- A tag of 32 bits reads back. -/
theorem reads_tag {n : Nat} (h : n < UInt32.size) : Reads tag (Bytes.tag n) n :=
  reads_number h

/-- A word of 64 bits reads back. -/
theorem reads_word {n : Nat} (h : n < UInt64.size) : Reads word (Bytes.word n) n :=
  reads_number h

/-- A signed number reads back if it fits into 64 bits, one of them for the
sign. -/
theorem reads_signed {i : Int} (low : -(UInt64.size : Int) ≤ 2 * i)
    (high : 2 * i < UInt64.size) : Reads signed (Bytes.signed i) i := by
  have size : (UInt64.size : Int) = 18446744073709551616 := rfl
  have fits : (i % UInt64.size).toNat < UInt64.size := by
    rw [size]
    omega
  have := (reads_word fits).bind_pure
    (f := fun n : Nat => if 2 * n < UInt64.size then (n : Int) else (n : Int) - UInt64.size)
  have back : (if 2 * (i % UInt64.size).toNat < UInt64.size then ((i % UInt64.size).toNat : Int)
      else ((i % UInt64.size).toNat : Int) - UInt64.size) = i := by
    rw [size]
    split <;> omega
  rwa [back] at this

/-- A flag reads back. -/
theorem reads_flag (b : Bool) : Reads flag (Bytes.flag b) b := by
  cases b with
  | false => exact (@reads_number 1 0 (by decide)).bind Reads.pure
  | true => exact (@reads_number 1 1 (by decide)).bind Reads.pure

/-- A text reads back if its length can be counted. -/
theorem reads_text {s : String} (h : (Bytes.text s).Addressable) :
    Reads text (Bytes.text s) s := by
  have fits : (Bytes.ofText s).length < UInt64.size := by
    unfold Bytes.Addressable at h
    rw [Bytes.length_text] at h
    omega
  have valid : Reads (Bytes.toText? (Bytes.ofText s) : Decoder String) [] s := by
    intro rest
    rw [Bytes.toText?_ofText]
    rfl
  refine (reads_word fits).bind ?_
  have := reads_bytes.bind (k := fun raw => (Bytes.toText? raw : Decoder String)) valid
  rwa [List.append_nil] at this

/-- An optional part reads back if it is none or does so alone. -/
theorem reads_optional {write : α → Bytes} {x : Option α}
    (h : ∀ a ∈ x, Reads d (write a) a) :
    Reads (optional d) (Bytes.optional write x) x := by
  cases x with
  | none => exact (reads_flag false).bind Reads.pure
  | some a => exact (reads_flag true).bind (h a rfl).map

/-! ## Sequences -/

/-- As many elements as were written read back, one after the other. -/
theorem reads_times {write : β → Bytes} {f : β → α} {elements : List β}
    (h : ∀ x ∈ elements, Reads d (write x) (f x)) :
    Reads (times elements.length d) (elements.flatMap write) (elements.map f) := by
  induction elements with
  | nil => exact Reads.pure
  | cons x elements ih =>
    have others := ih fun y hy => h y (List.mem_cons_of_mem _ hy)
    exact (h x List.mem_cons_self).bind others.bind_pure

/-- **A sequence reads back** when each element does and takes a byte at
least. -/
theorem reads_sequence {write : β → Bytes} {f : β → α} {elements : List β}
    (whole : (Bytes.sequence write elements).Addressable)
    (positive : ∀ x ∈ elements, 0 < (write x).length)
    (h : ∀ x ∈ elements, Reads d (write x) (f x)) :
    Reads (sequence d) (Bytes.sequence write elements) (elements.map f) := by
  have fits : elements.length < UInt64.size := by
    have := Bytes.length_le_length_flatMap positive
    unfold Bytes.Addressable Bytes.sequence at whole
    rw [List.length_append] at whole
    omega
  exact (reads_word fits).bind (reads_times h)

/-- A pair reads back, the key before the value. -/
theorem reads_pair {readKey : Decoder κ} {k : κ} (hk : Reads readKey bs k) (hd : Reads d cs a) :
    Reads (do
      let key ← readKey
      let value ← d
      return (key, value)) (bs ++ cs) (k, a) :=
  hk.bind hd.bind_pure

end Decoder

/-! ## Names of things -/

namespace Address

@[simp] theorem length_bytes (a : Address) : a.bytes.length = 8 := Bytes.length_word _

/-- An address reads back. -/
theorem reads (a : Address) : Decoder.Reads decoder a.bytes a := by
  have := (Decoder.reads_word a.raw.toNat_lt).bind_pure (f := fun n => Address.mk (UInt64.ofNat n))
  rwa [UInt64.ofNat_toNat] at this

end Address

/-- An identity reads back if its number has 64 bits. -/
theorem ResourceId.reads {id : ResourceId} (h : id.number < UInt64.size) :
    Decoder.Reads decoder id.bytes id :=
  (Decoder.reads_word h).bind_pure (f := ResourceId.mk)

namespace Domain

@[simp] theorem length_bytes (d : Domain) : d.bytes.length = 4 := Bytes.length_tag _

/-- A domain reads back. -/
theorem reads (d : Domain) : Decoder.Reads decoder d.bytes d := by
  cases d <;> exact (Decoder.reads_tag (by decide)).bind Decoder.Reads.pure

end Domain

/-- A path reads back, its domain before its identifier. -/
theorem Path.reads {p : Path} (h : p.bytes.Addressable) : Decoder.Reads decoder p.bytes p :=
  p.domain.reads.bind (Decoder.reads_text h.right).bind_pure

namespace Key

/-- **The numbers in a key are those of the machine.** -/
def InRange : Key → Prop
  | int i => -(UInt64.size : Int) ≤ 2 * i ∧ 2 * i < UInt64.size
  | uint n => n < UInt64.size
  | _ => True

/-- A key reads back if its number is one of a machine. -/
theorem reads {k : Key} (range : k.InRange) (h : k.bytes.Addressable) :
    Decoder.Reads decoder k.bytes k := by
  cases k with
  | bool b => exact (Decoder.reads_tag (by decide)).bind (Decoder.reads_flag b).map
  | int i => exact (Decoder.reads_tag (by decide)).bind (Decoder.reads_signed range.1 range.2).map
  | uint n => exact (Decoder.reads_tag (by decide)).bind (Decoder.reads_word range).map
  | str s => exact (Decoder.reads_tag (by decide)).bind (Decoder.reads_text h.right).map
  | address a => exact (Decoder.reads_tag (by decide)).bind a.reads.map

end Key

/-! ## Types -/

namespace Ty

/-- **A type reads back** under every bound on its depth that its bytes
keep. -/
theorem reads_within (t : Ty) {bound : Nat} (le : t.bytes.length ≤ bound)
    (h : t.bytes.Addressable) : Decoder.Reads (decoderWithin bound) t.bytes t := by
  -- the bytes of a type are never none, so the bound leaves room for a level
  induction t generalizing bound with
  | any | never | anyStruct | anyResource | bool | int | uint | string | address | path =>
    obtain _ | bound := bound
    · simp [bytes] at le
    · exact (Decoder.reads_tag (by decide)).bind Decoder.Reads.pure
  | array element ih =>
    obtain _ | bound := bound <;>
      simp only [bytes, List.length_append, Bytes.length_tag] at le
    · omega
    · exact (Decoder.reads_tag (by decide)).bind (ih (by omega) h.right).map
  | dict key element ihKey ihElement =>
    obtain _ | bound := bound <;>
      simp only [bytes, List.length_append, Bytes.length_tag] at le
    · omega
    · show Decoder.Reads _ (Bytes.tag 11 ++ key.bytes ++ element.bytes) _
      rw [List.append_assoc]
      exact (Decoder.reads_tag (by decide)).bind
        ((ihKey (by omega) h.left.right).bind (ihElement (by omega) h.right).bind_pure)
  | composite name =>
    obtain _ | bound := bound
    · simp [bytes] at le
    · exact (Decoder.reads_tag (by decide)).bind (Decoder.reads_text h.right).map
  | restricted base interfaces =>
    obtain _ | bound := bound
    · simp [bytes] at le
    · have name : ∀ b ∈ base, Decoder.Reads Decoder.text (Bytes.text b) b := by
        rintro b rfl
        exact Decoder.reads_text h.left.right.right
      have names : Decoder.Reads (Decoder.sequence Decoder.text)
          (Bytes.sequence Bytes.text interfaces) interfaces := by
        have := Decoder.reads_sequence (f := fun i => i) h.right
          (fun i _ => by rw [Bytes.length_text]; omega)
          (fun i mem => Decoder.reads_text
            (h.right.right.of_length_le (Bytes.length_le_length_of_mem mem)))
        rwa [List.map_id'] at this
      show Decoder.Reads _ (Bytes.tag 13 ++ Bytes.optional Bytes.text base
        ++ Bytes.sequence Bytes.text interfaces) _
      rw [List.append_assoc]
      exact (Decoder.reads_tag (by decide)).bind
        ((Decoder.reads_optional name).bind names.bind_pure)
  | anyCapability =>
    obtain _ | bound := bound
    · simp [bytes] at le
    · exact (Decoder.reads_tag (by decide)).bind
        ((Decoder.reads_flag false).bind Decoder.Reads.pure)
  | capability authorized target ih =>
    obtain _ | bound := bound <;>
      simp only [bytes, List.length_append, Bytes.length_tag] at le
    · omega
    · show Decoder.Reads _ (Bytes.tag 14 ++ Bytes.flag true ++ Bytes.flag authorized
        ++ target.bytes) _
      rw [List.append_assoc, List.append_assoc]
      exact (Decoder.reads_tag (by decide)).bind ((Decoder.reads_flag true).bind
        ((Decoder.reads_flag authorized).bind (ih (by omega) h.right).bind_pure))
  | reference authorized target ih =>
    obtain _ | bound := bound <;>
      simp only [bytes, List.length_append, Bytes.length_tag] at le
    · omega
    · show Decoder.Reads _ (Bytes.tag 15 ++ Bytes.flag authorized ++ target.bytes) _
      rw [List.append_assoc]
      exact (Decoder.reads_tag (by decide)).bind
        ((Decoder.reads_flag authorized).bind (ih (by omega) h.right).bind_pure)

/-- A type reads back at whatever depth. -/
theorem reads {t : Ty} (h : t.bytes.Addressable) : Decoder.Reads decoder t.bytes t :=
  Decoder.Reads.of_bounded fun _ le => t.reads_within le h

end Ty

/-- A borrow type reads back. -/
theorem RefTy.reads {r : RefTy} (h : r.bytes.Addressable) : Decoder.Reads decoder r.bytes r :=
  (Decoder.reads_flag r.authorized).bind (Ty.reads h.right).bind_pure

/-- A capability reads back, with its promise if it has one. -/
theorem Capability.reads {c : Capability} (h : c.bytes.Addressable) :
    Decoder.Reads decoder c.bytes c := by
  have promise : ∀ r ∈ c.promise, Decoder.Reads RefTy.decoder r.bytes r := by
    intro r mem
    refine RefTy.reads (h.right.of_length_le ?_)
    rw [mem]
    show _ ≤ (Bytes.flag true ++ r.bytes).length
    rw [List.length_append]
    omega
  show Decoder.Reads _ (c.address.bytes ++ c.path.bytes ++ Bytes.optional RefTy.bytes c.promise) _
  rw [List.append_assoc]
  exact c.address.reads.bind
    ((Path.reads h.left.right).bind (Decoder.reads_optional promise).bind_pure)

end Custody
