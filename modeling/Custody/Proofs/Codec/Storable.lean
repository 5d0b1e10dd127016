import Custody.Proofs.Codec.Store
import Custody.Value.Copy

/-!
# What may be stored can be written down

A value may be stored when there is no reference in it and no field of a
resource in it is empty. Both conditions look at one value at a time, so being
storable is a property that holds **everywhere** in a value
(`Value.isStorable_iff`), and it endures edits. A value without references has
bytes, and so a store of storable values has.
-/

namespace Custody

namespace Value

/-! ## Storable values -/

/-- What being storable asks of a value, its parts apart. -/
def Intact : Value → Prop
  | .reference _ => False
  | .resource _ _ fields => ∀ f ∈ fields, f.2.isSome = true
  | _ => True

/-- **A value may be stored when everything in it is intact.** -/
theorem isStorable_iff {v : Value} : v.isStorable = true ↔ Everywhere Intact v := by
  induction v using Value.induction with
  | step v ih =>
    unfold isStorable at ih ⊢
    cases v with
    | array elements =>
      rw [fold_array, Everywhere.array_iff]
      show List.all _ id = true ↔ True ∧ _
      simp only [List.all_map, List.all_eq_true, true_and]
      exact forall₂_congr fun v hv => ih v hv
    | dict entries =>
      rw [fold_dict, Everywhere.dict_iff]
      show List.all _ Prod.snd = true ↔ True ∧ _
      simp only [List.all_map, List.all_eq_true, true_and]
      exact forall₂_congr fun e he => ih e.2 (List.mem_map_of_mem he)
    | struct typeName fields =>
      rw [fold_struct, Everywhere.struct_iff]
      show List.all _ Prod.snd = true ↔ True ∧ _
      simp only [List.all_map, List.all_eq_true, true_and]
      exact forall₂_congr fun f hf => ih f.2 (List.mem_map_of_mem hf)
    | resource number typeName fields =>
      rw [fold_resource, Everywhere.resource_iff]
      show List.all _ (fun f : String × Option Bool => f.2.any id) = true
        ↔ (∀ f ∈ fields, f.2.isSome = true) ∧ _
      simp only [List.all_map, List.all_eq_true, ← forall₂_and]
      refine forall₂_congr fun f hf => ?_
      obtain ⟨name, _ | w⟩ := f
      · simp
      · have part := ih w (List.mem_filterMap.2 ⟨_, hf, rfl⟩)
        simp [part]
    | reference r =>
      exact iff_of_false (fun h => nomatch h) fun h => h.here
    | _ => exact iff_of_true rfl ⟨trivial, fun _ mem => nomatch mem⟩

/-- What is taken out or put in leaves a value intact, unless a field is
emptied. -/
theorem enduring_intact : Enduring Intact where
  array _ := trivial
  place _ _ _ _ _ := trivial
  erase _ _ _ := trivial
  assign _ _ _ _ _ _ := trivial
  fill r field v intact := by
    intro f hf
    rcases Table.mem_put hf with rfl | hf
    · rfl
    · exact intact f hf

/-! ## Their bytes -/

/-- Labelled parts can be written when each of them can. -/
theorem exists_writeParts {κ β : Type} (label : κ → Bytes) (key : β → κ)
    {write : β → Option Bytes} {parts : List β} (h : ∀ x ∈ parts, ∃ bs, write x = some bs) :
    ∃ bs, writeParts label (parts.map fun x => (key x, write x)) = some bs := by
  have joined : ∃ bs, joinParts label (parts.map fun x => (key x, write x)) = some bs := by
    induction parts with
    | nil => exact ⟨[], rfl⟩
    | cons x parts ih =>
      obtain ⟨bs, written⟩ := h x List.mem_cons_self
      obtain ⟨others, rest⟩ := ih fun y hy => h y (List.mem_cons_of_mem _ hy)
      exact ⟨label (key x) ++ bs ++ others, by simp [joinParts, written, rest]⟩
  obtain ⟨bs, joined⟩ := joined
  exact ⟨_, by rw [writeParts, joined]; rfl⟩

/-- The value is not a reference. -/
def Concrete : Value → Prop
  | .reference _ => False
  | _ => True

/-- What is intact is no reference. -/
theorem Intact.concrete {v : Value} (h : Intact v) : Concrete v := by
  cases v with
  | reference r => exact h
  | _ => trivial

/-- **A value without references has bytes**, and so has one that may be
stored. -/
theorem exists_bytes {v : Value} (concrete : Everywhere Concrete v) :
    ∃ bs, v.bytes? = some bs := by
  induction concrete with
  | @intro v here inside ih =>
    cases v with
    | array elements =>
      obtain ⟨parts, written⟩ := exists_writeParts (fun _ => []) (fun _ => ()) ih
      exact ⟨_, bytes?_array_eq_some.2 ⟨parts, written, rfl⟩⟩
    | dict entries =>
      have each : ∀ e ∈ entries, ∃ bs, e.2.bytes? = some bs :=
        fun e he => ih e.2 (List.mem_map_of_mem he)
      obtain ⟨parts, written⟩ := exists_writeParts Key.bytes Prod.fst each
      exact ⟨_, bytes?_dict_eq_some.2 ⟨parts, written, rfl⟩⟩
    | struct typeName fields =>
      have each : ∀ f ∈ fields, ∃ bs, f.2.bytes? = some bs :=
        fun f hf => ih f.2 (List.mem_map_of_mem hf)
      obtain ⟨parts, written⟩ := exists_writeParts Bytes.text Prod.fst each
      exact ⟨_, bytes?_struct_eq_some.2 ⟨parts, written, rfl⟩⟩
    | resource id typeName fields =>
      have slots : ∀ f ∈ fields, ∃ bs, slotBytes? (f.2.map Value.bytes?) = some bs := by
        rintro ⟨name, _ | w⟩ hf
        · exact ⟨_, rfl⟩
        · obtain ⟨bs, written⟩ := ih w (List.mem_filterMap.2 ⟨_, hf, rfl⟩)
          exact ⟨Bytes.flag true ++ bs, by simp [slotBytes?, written]⟩
      obtain ⟨parts, written⟩ := exists_writeParts Bytes.text Prod.fst slots
      exact ⟨_, bytes?_resource_eq_some.2 ⟨parts, written, rfl⟩⟩
    | reference r => exact here.elim
    | _ => exact ⟨_, rfl⟩

end Value

/-- The entry is a link or a storable value. -/
def Entry.Storable : Entry → Prop
  | .value v => v.isStorable = true
  | .link _ => True

/-- **Every stored value is storable.** -/
def Store.Storable (s : Store) : Prop := ∀ e ∈ s.entries, e.2.2.Storable

/-- A storable entry has bytes. -/
theorem Entry.exists_bytes {e : Entry} (storable : e.Storable) : ∃ bs, e.bytes? = some bs := by
  cases e with
  | value v =>
    obtain ⟨bs, written⟩ := Value.exists_bytes
      ((Value.isStorable_iff.1 storable).mono fun _ => Value.Intact.concrete)
    exact ⟨Bytes.tag 0 ++ bs, by simp [bytes?, written]⟩
  | link l => exact ⟨_, rfl⟩

/-- A store has bytes when its entries have. -/
theorem Store.exists_bytes {s : Store} (h : ∀ e ∈ s.entries, ∃ bs, e.2.2.bytes? = some bs) :
    ∃ bs, s.bytes? = some bs := by
  refine Value.exists_writeParts _ _ fun account ha => ?_
  refine Value.exists_writeParts _ _ fun domain hd => ?_
  refine Value.exists_writeParts _ _ fun slot hs => ?_
  exact h _ (Store.mem_entries ha hd hs)

/-- **A store of storable values can be written down.** -/
theorem Store.Storable.exists_toBytes {s : Store} (storable : s.Storable) :
    ∃ bytes, s.toBytes = .ok bytes := by
  obtain ⟨bs, written⟩ := Store.exists_bytes fun e he => Entry.exists_bytes (storable e he)
  exact ⟨bs, by rw [toBytes, written]⟩

end Custody
