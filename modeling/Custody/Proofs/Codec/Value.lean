import Custody.Proofs.Regular

/-!
# The round trip of values

A regular value that has bytes is read back from them. The induction is on
the parts of the value: the parts of a composite are a sequence of labelled
bytes, each shorter than the whole, so the bound that suffices for the whole
leaves enough for each part.
-/

namespace Custody

/-! ## Tables survive the decoder

The decoders put what they read into a table anew. A table that was in order
comes out as it was. -/

namespace Table

variable {κ α : Type}

section Insertion

variable [DecidableEq κ]

/-- A new key goes to the end. -/
theorem put_of_not_mem {t : Table κ α} {key : κ} (h : key ∉ keys t) (a : α) :
    put t key a = t ++ [(key, a)] := by
  induction t with
  | nil => rfl
  | cons entry t ih =>
    obtain ⟨k, b⟩ := entry
    obtain ⟨ne, h⟩ := not_or.1 (fun mem => h (List.mem_cons.2 mem))
    rw [put, if_neg ne, ih h]
    rfl

/-- Entries of new names are put at the end, in their order. -/
theorem foldl_put_eq_append {t added : Table κ α} (h : (keys (t ++ added)).Nodup) :
    added.foldl (fun t entry => put t entry.1 entry.2) t = t ++ added := by
  induction added generalizing t with
  | nil => exact (List.append_nil t).symm
  | cons entry added ih =>
    have apart : entry.1 ∉ keys t := by
      intro mem
      rw [keys, List.map_append] at h
      exact (List.nodup_append.1 h).2.2 _ mem _ List.mem_cons_self rfl
    rw [List.foldl_cons, put_of_not_mem apart, ih (by rwa [List.append_assoc]),
      List.append_assoc]
    rfl

/-- **A table with distinct keys is the table of its entries.** -/
theorem ofList_of_nodup {t : Table κ α} (h : (keys t).Nodup) : ofList t = t :=
  foldl_put_eq_append (t := []) h

end Insertion

section Order

variable [Ord κ] [Std.TransOrd κ]

/-- A key above all others goes to the end. -/
theorem place_of_lt {t : Table κ α} {key : κ} (h : ∀ e ∈ t, compare e.1 key = .lt) (a : α) :
    place t key a = t ++ [(key, a)] := by
  induction t with
  | nil => rfl
  | cons entry t ih =>
    obtain ⟨k, b⟩ := entry
    have above : compare key k = .gt :=
      Std.OrientedCmp.gt_of_lt (h (k, b) List.mem_cons_self)
    rw [place, above, ih fun e he => h e (List.mem_cons_of_mem _ he)]
    rfl

/-- Entries of ascending keys are placed at the end, in their order. -/
theorem foldl_place_eq_append {t added : Table κ α} (h : Ascending (t ++ added)) :
    added.foldl (fun t entry => place t entry.1 entry.2) t = t ++ added := by
  induction added generalizing t with
  | nil => exact (List.append_nil t).symm
  | cons entry added ih =>
    have above : ∀ e ∈ t, compare e.1 entry.1 = .lt := fun e he =>
      (List.pairwise_append.1 h).2.2 e he entry List.mem_cons_self
    rw [List.foldl_cons, place_of_lt above, ih (by rwa [List.append_assoc]), List.append_assoc]
    rfl

/-- **A table in key order is the sorted table of its entries.** -/
theorem sorted_of_ascending {t : Table κ α} (h : Ascending t) : sorted t = t :=
  foldl_place_eq_append (t := []) h

end Order

end Table

/-! ## Labelled parts -/

namespace Value

open Decoder

variable {α β κ : Type} {label : κ → Bytes} {key : β → κ} {write : β → Option Bytes}
  {parts : List β} {bs : Bytes}

/-- Parts have bytes when each has, and these stand one after the other. -/
theorem joinParts_eq_some (h : joinParts label (parts.map fun x => (key x, write x)) = some bs) :
    (∀ x ∈ parts, write x = some ((write x).getD []))
      ∧ bs = parts.flatMap fun x => label (key x) ++ (write x).getD [] := by
  induction parts generalizing bs with
  | nil =>
    obtain rfl : [] = bs := Option.some.inj h
    exact ⟨(fun x hx => nomatch hx), rfl⟩
  | cons x parts ih =>
    simp only [List.map_cons, joinParts, Option.bind_eq_bind, Option.bind_eq_some_iff,
      Option.pure_def, Option.some.injEq] at h
    obtain ⟨part, hx, others, rest, rfl⟩ := h
    obtain ⟨written, rfl⟩ := ih rest
    refine ⟨fun y hy => ?_, ?_⟩
    · rcases List.mem_cons.1 hy with rfl | hy
      · rw [hx]; rfl
      · exact written y hy
    · rw [List.flatMap_cons, hx]
      rfl

/-- **Labelled parts read back** when each does and takes a byte at least.
Each is shorter than the whole by the length in front. -/
theorem reads_parts {readPart : Decoder α} {f : β → α}
    (written : writeParts label (parts.map fun x => (key x, write x)) = some bs)
    (whole : bs.Addressable)
    (positive : ∀ x ∈ parts, ∀ cs, write x = some cs → 0 < (label (key x) ++ cs).length)
    (h : ∀ x ∈ parts, ∀ cs, write x = some cs → (label (key x) ++ cs).length + 8 ≤ bs.length →
      Reads readPart (label (key x) ++ cs) (f x)) :
    Reads (sequence readPart) bs (parts.map f) := by
  simp only [writeParts, Option.bind_eq_bind, Option.bind_eq_some_iff, Option.pure_def,
    Option.some.injEq, List.length_map] at written
  obtain ⟨joined, hjoined, rfl⟩ := written
  obtain ⟨all, rfl⟩ := joinParts_eq_some hjoined
  refine reads_sequence whole (fun x hx => positive x hx _ (all x hx)) fun x hx => ?_
  refine h x hx _ (all x hx) ?_
  have := @Bytes.length_le_length_of_mem _ (fun x => label (key x) ++ (write x).getD []) _ _ hx
  rw [@List.length_append _ (Bytes.word _), Bytes.length_word]
  omega

/-! ## The bytes of a composite -/

variable {typeName : String}

/-- The bytes of an array are its tag and the bytes of its elements. -/
theorem bytes?_array_eq_some {elements : List Value} :
    (Value.array elements).bytes? = some bs ↔
      ∃ parts, writeParts (fun _ => []) (elements.map fun v => ((), v.bytes?)) = some parts
        ∧ Bytes.tag 7 ++ parts = bs := by
  unfold bytes?
  rw [fold_array]
  show Option.bind (writeParts _ (List.map _ (List.map _ elements))) _ = _ ↔ _
  rw [List.map_map, Option.bind_eq_some_iff]
  exact exists_congr fun parts => and_congr_right fun _ => Iff.of_eq (Option.some.injEq _ _)

/-- The bytes of a dictionary are its tag and the bytes of its keys and values.
-/
theorem bytes?_dict_eq_some {entries : List (Key × Value)} :
    (Value.dict entries).bytes? = some bs ↔
      ∃ parts, writeParts Key.bytes (entries.map fun e => (e.1, e.2.bytes?)) = some parts
        ∧ Bytes.tag 8 ++ parts = bs := by
  unfold bytes?
  rw [fold_dict]
  show Option.bind (writeParts _ (List.map _ entries)) _ = _ ↔ _
  rw [Option.bind_eq_some_iff]
  exact exists_congr fun parts => and_congr_right fun _ => Iff.of_eq (Option.some.injEq _ _)

/-- The bytes of a struct are its tag, its type name and the bytes of its
fields. -/
theorem bytes?_struct_eq_some {fields : List (String × Value)} :
    (Value.struct typeName fields).bytes? = some bs ↔
      ∃ parts, writeParts Bytes.text (fields.map fun f => (f.1, f.2.bytes?)) = some parts
        ∧ Bytes.tag 9 ++ Bytes.text typeName ++ parts = bs := by
  unfold bytes?
  rw [fold_struct]
  show Option.bind (writeParts _ (List.map _ fields)) _ = _ ↔ _
  rw [Option.bind_eq_some_iff]
  exact exists_congr fun parts => and_congr_right fun _ => Iff.of_eq (Option.some.injEq _ _)

/-- The bytes of a resource are its tag, its identity, its type name and the
bytes of its slots. -/
theorem bytes?_resource_eq_some {id : ResourceId} {fields : List (String × Option Value)} :
    (Value.resource id typeName fields).bytes? = some bs ↔
      ∃ slots, writeParts Bytes.text
          (fields.map fun f => (f.1, slotBytes? (f.2.map Value.bytes?))) = some slots
        ∧ Bytes.tag 10 ++ id.bytes ++ Bytes.text typeName ++ slots = bs := by
  unfold bytes?
  rw [fold_resource]
  show Option.bind (writeParts _ (List.map _ (List.map _ fields))) _ = _ ↔ _
  rw [List.map_map, Option.bind_eq_some_iff]
  exact exists_congr fun parts => and_congr_right fun _ => Iff.of_eq (Option.some.injEq _ _)

/-- Every value takes the number of its sort at least. -/
theorem length_bytes_pos {v : Value} (h : v.bytes? = some bs) : 4 ≤ bs.length := by
  cases v with
  | array elements =>
    obtain ⟨parts, -, rfl⟩ := bytes?_array_eq_some.1 h
    simp
  | dict entries =>
    obtain ⟨parts, -, rfl⟩ := bytes?_dict_eq_some.1 h
    simp
  | struct typeName fields =>
    obtain ⟨parts, -, rfl⟩ := bytes?_struct_eq_some.1 h
    simp
  | resource id typeName fields =>
    obtain ⟨parts, -, rfl⟩ := bytes?_resource_eq_some.1 h
    simp
  | reference r => cases h
  | _ =>
    obtain rfl := Option.some.inj h
    simp

/-- A slot reads back when its contents do. -/
theorem reads_slot {readPart : Decoder Value} {slot : Option Value} {cs : Bytes}
    (written : slotBytes? (slot.map bytes?) = some cs)
    (h : ∀ v ∈ slot, ∀ part, v.bytes? = some part → part.length ≤ cs.length →
      Reads readPart part v) :
    Reads (Decoder.optional readPart) cs slot := by
  cases slot with
  | none =>
    obtain rfl := Option.some.inj written
    exact (reads_flag false).bind Reads.pure
  | some v =>
    obtain ⟨part, hv, rfl⟩ : ∃ part, v.bytes? = some part ∧ Bytes.flag true ++ part = cs := by
      obtain ⟨part, hv, h⟩ := Option.bind_eq_some_iff.1 written
      exact ⟨part, hv, Option.some.inj h⟩
    exact (reads_flag true).bind (h v rfl part hv (by simp)).map

/-! ## The round trip -/

/-- A readable value reads back under every bound on its depth that its bytes
keep. -/
theorem reads_within (v : Value) (readable : v.Readable) (written : v.bytes? = some bs)
    (whole : bs.Addressable) {bound : Nat} (le : bs.length ≤ bound) :
    Reads (decoderWithin bound) bs v := by
  induction v using Value.induction generalizing bs bound with
  | step v ih =>
  obtain _ | bound := bound
  · have := length_bytes_pos written
    omega
  -- what is left of the bound suffices for a part
  have part (w : Value) (mem : w ∈ v.parts) (cs : Bytes) (hw : w.bytes? = some cs)
      (lt : cs.length < bs.length) : Reads (decoderWithin bound) cs w :=
    ih w mem (readable.inside w mem) hw (whole.of_length_le (by omega)) (by omega)
  cases v with
  | nil =>
    obtain rfl := Option.some.inj written
    exact (reads_tag (by decide)).bind Reads.pure
  | bool b =>
    obtain rfl := Option.some.inj written
    exact (reads_tag (by decide)).bind (reads_flag b).map
  | int i =>
    obtain rfl := Option.some.inj written
    exact (reads_tag (by decide)).bind (reads_signed readable.here.1 readable.here.2).map
  | uint n =>
    obtain rfl := Option.some.inj written
    exact (reads_tag (by decide)).bind (reads_word readable.here).map
  | str s =>
    obtain rfl := Option.some.inj written
    exact (reads_tag (by decide)).bind (reads_text whole.right).map
  | address a =>
    obtain rfl := Option.some.inj written
    exact (reads_tag (by decide)).bind a.reads.map
  | path p =>
    obtain rfl := Option.some.inj written
    exact (reads_tag (by decide)).bind (Path.reads whole.right).map
  | capability c =>
    obtain rfl := Option.some.inj written
    exact (reads_tag (by decide)).bind (Capability.reads whole.right).map
  | reference r => cases written
  | array elements =>
    obtain ⟨parts, hparts, rfl⟩ := bytes?_array_eq_some.1 written
    have elementsRead : Reads (sequence (decoderWithin bound)) parts elements := by
      have := reads_parts (f := fun x => x) hparts whole.right
        (fun w _ cs hw => by have := length_bytes_pos hw; simp; omega)
        (fun w mem cs hw short => part w mem cs hw (by simp at short ⊢; omega))
      rwa [List.map_id'] at this
    exact (reads_tag (by decide)).bind elementsRead.map
  | dict entries =>
    obtain ⟨parts, hparts, rfl⟩ := bytes?_dict_eq_some.1 written
    have entriesRead : Reads (pairs Key.decoder (decoderWithin bound)) parts entries := by
      have := reads_parts (f := fun x => x) hparts whole.right
        (fun e _ cs hw => by have := length_bytes_pos hw; simp; omega)
        (fun e mem cs hw short => reads_pair
          (Key.reads (readable.here.2 e mem) (whole.of_length_le (by simp at short ⊢; omega)))
          (part e.2 (List.mem_map_of_mem mem) cs hw (by simp at short ⊢; omega)))
      rwa [List.map_id'] at this
    have sorted := entriesRead.bind_pure (f := fun es => Value.dict (Table.sorted es))
    rw [Table.sorted_of_ascending readable.here.1] at sorted
    exact (reads_tag (by decide)).bind sorted
  | struct typeName fields =>
    obtain ⟨parts, hparts, rfl⟩ := bytes?_struct_eq_some.1 written
    have fieldsRead : Reads (pairs Decoder.text (decoderWithin bound)) parts fields := by
      have := reads_parts (f := fun x => x) hparts whole.right
        (fun f _ cs _ => Bytes.length_text_append_pos f.1 cs)
        (fun f mem cs hw short => reads_pair
          (reads_text (whole.of_length_le (by simp at short ⊢; omega)))
          (part f.2 (List.mem_map_of_mem mem) cs hw (by simp at short ⊢; omega)))
      rwa [List.map_id'] at this
    have kept := fieldsRead.bind_pure (f := fun fs => Value.struct typeName (Table.ofList fs))
    rw [Table.ofList_of_nodup readable.here] at kept
    rw [List.append_assoc]
    exact (reads_tag (by decide)).bind ((reads_text whole.left.right).bind kept)
  | resource id typeName fields =>
    obtain ⟨slots, hslots, rfl⟩ := bytes?_resource_eq_some.1 written
    have fieldsRead :
        Reads (pairs Decoder.text (Decoder.optional (decoderWithin bound))) slots fields := by
      have := reads_parts (f := fun x => x) hslots whole.right
        (fun f _ cs _ => Bytes.length_text_append_pos f.1 cs)
        (fun f mem cs hw short => reads_pair
          (reads_text (whole.of_length_le (by simp at short ⊢; omega)))
          (reads_slot hw fun w hv cs' hw' le => part w
            (List.mem_filterMap.2 ⟨f, mem, hv⟩) cs' hw' (by simp at short ⊢; omega)))
      rwa [List.map_id'] at this
    have kept := fieldsRead.bind_pure (f := fun fs => Value.resource id typeName (Table.ofList fs))
    rw [Table.ofList_of_nodup readable.here.2] at kept
    rw [List.append_assoc, List.append_assoc]
    exact (reads_tag (by decide)).bind
      ((ResourceId.reads readable.here.1).bind ((reads_text whole.left.right).bind kept))

/-- **The round trip of a readable value.** -/
theorem reads (v : Value) (readable : v.Readable) (written : v.bytes? = some bs)
    (whole : bs.Addressable) : Reads decoder bs v :=
  Reads.of_bounded fun _ le => v.reads_within readable written whole le

end Value

end Custody
