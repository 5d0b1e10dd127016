import Custody.Proofs.Codec.Store
import Custody.Proofs.Continuity
import Custody.Proofs.Transfers

/-!
# The census of a custodian

Resources are found in storage, in the locals of open frames, and in the
hands of the host. What the ledger should record of those in storage and in
locals is `State.standing`; what it should record of those in hands is
`afoot`. This module says how the census changes when an entry is stored or
removed and when a local is bound: by what stood there before and what stands
there afterwards.
-/

namespace Custody

open Ledger

/-! ## Storage -/

/-- The census of an entry at a place. -/
def Entry.standing (place : Place) : Entry → Census
  | .value v => v.standing place
  | .link _ => []

namespace Store

variable {s : Store} {address : Address} {path : Path} {e : Entry}

/-- The entries of a store as a table, by account and path. -/
def table (s : Store) : Table (Address × Path) Entry :=
  s.entries.map fun e => ((e.1, e.2.1), e.2.2)

/-- The census of what is stored. -/
def standing (s : Store) : Census := s.table.flatMap fun e => e.2.standing (.stored e.1.1 e.1.2)

/-- The entries of an account are what its slots hold, each under its path. -/
theorem mem_accountEntries {domains : SortedMap Domain Slots} :
    (path, e) ∈ accountEntries domains
      ↔ ∃ slots, domains.get? path.domain = some slots ∧ slots.get? path.identifier = some e := by
  unfold accountEntries
  rw [List.mem_flatMap]
  constructor
  · rintro ⟨⟨domain, slots⟩, hd, h⟩
    obtain ⟨⟨identifier, e'⟩, hs, same⟩ := List.mem_map.1 h
    obtain ⟨rfl, rfl⟩ := Prod.mk.inj same
    exact ⟨slots, SortedMap.mem_entries_iff.1 hd, SortedMap.mem_entries_iff.1 hs⟩
  · rintro ⟨slots, hd, hs⟩
    exact ⟨(path.domain, slots), SortedMap.mem_entries_iff.2 hd,
      List.mem_map.2 ⟨(path.identifier, e), SortedMap.mem_entries_iff.2 hs, rfl⟩⟩

/-- An entry is found through its account and its domain. -/
theorem get?_eq_some_iff : s.get? address path = some e ↔
    ∃ domains, s.accounts.get? address = some domains
      ∧ ∃ slots, domains.get? path.domain = some slots
        ∧ slots.get? path.identifier = some e := by
  unfold get? slots domains
  cases s.accounts.get? address with
  | none => simp
  | some domains =>
    cases h : domains.get? path.domain <;> simp [h]

/-- **The entries of a store** are what its paths look up. -/
theorem mem_entries_iff : (address, path, e) ∈ s.entries ↔ s.get? address path = some e := by
  rw [get?_eq_some_iff]
  unfold entries
  rw [List.mem_flatMap]
  constructor
  · rintro ⟨⟨address', domains⟩, ha, h⟩
    obtain ⟨⟨path', e'⟩, hp, same⟩ := List.mem_map.1 h
    simp only [Prod.mk.injEq] at same
    obtain ⟨rfl, rfl, rfl⟩ := same
    exact ⟨domains, SortedMap.mem_entries_iff.1 ha, mem_accountEntries.1 hp⟩
  · rintro ⟨domains, ha, h⟩
    exact ⟨(address, domains), SortedMap.mem_entries_iff.2 ha,
      List.mem_map.2 ⟨(path, e), mem_accountEntries.2 h, rfl⟩⟩

/-- The table of a store lists what its slots hold. -/
theorem mem_table_iff : ((address, path), e) ∈ s.table ↔ s.get? address path = some e := by
  rw [← mem_entries_iff]
  unfold table
  constructor
  · intro h
    obtain ⟨⟨address', path', e'⟩, mem, same⟩ := List.mem_map.1 h
    simp only [Prod.mk.injEq] at same
    obtain ⟨⟨rfl, rfl⟩, rfl⟩ := same
    exact mem
  · intro h
    exact List.mem_map.2 ⟨_, h, rfl⟩

/-- No path of an account is listed twice. -/
theorem nodup_paths (domains : SortedMap Domain Slots) :
    ((accountEntries domains).map Prod.fst).Nodup := by
  have : (accountEntries domains).map Prod.fst
      = domains.entries.flatMap fun domain => domain.2.keys.map (Path.mk domain.1) := by
    unfold accountEntries SortedMap.keys Table.keys
    rw [List.map_flatMap]
    exact List.flatMap_congr fun domain _ => by rw [List.map_map, List.map_map]; rfl
  rw [this]
  exact Table.nodup_flatMap domains.ascending.nodup_keys
    (fun domain _ => domain.2.ascending.nodup_keys) Path.mk.inj

/-- No path is listed twice. -/
theorem nodup_keys_table (s : Store) : (Table.keys s.table).Nodup := by
  have : Table.keys s.table = s.accounts.entries.flatMap fun account =>
      ((accountEntries account.2).map Prod.fst).map (Prod.mk account.1) := by
    unfold table entries Table.keys
    rw [List.map_map, List.map_flatMap]
    exact List.flatMap_congr fun account _ => by rw [List.map_map, List.map_map]; rfl
  rw [this]
  exact Table.nodup_flatMap (g := fun domains => (accountEntries domains).map Prod.fst)
    s.accounts.ascending.nodup_keys (fun account _ => nodup_paths account.2) Prod.mk.inj

/-- So look-up in the table is look-up in the store. -/
theorem get?_table (s : Store) (address : Address) (path : Path) :
    Table.get? s.table (address, path) = s.get? address path := by
  refine Option.ext fun e => ?_
  rw [← Table.mem_iff_get?_eq_some s.nodup_keys_table, mem_table_iff]

/-! ### What an update does to the look-ups -/

/-- An insertion changes the domains of its account only, -/
theorem domains_insert (s : Store) (address address' : Address) (path : Path) (e : Entry) :
    (s.insert address path e).domains address'
      = if address' = address then
          (s.domains address).insert path.domain
            ((s.slots address path.domain).insert path.identifier e)
        else s.domains address' := by
  show ((s.accounts.insert address _).get? address').getD _ = _
  rw [SortedMap.get?_insert]
  split <;> rfl

/-- and of these only the one of the path. -/
theorem slots_insert (s : Store) (address address' : Address) (path : Path) (domain : Domain)
    (e : Entry) :
    (s.insert address path e).slots address' domain
      = if address' = address ∧ domain = path.domain then
          (s.slots address path.domain).insert path.identifier e
        else s.slots address' domain := by
  unfold slots
  rw [domains_insert]
  by_cases ha : address' = address
  · subst ha
    rw [if_pos rfl, SortedMap.get?_insert]
    by_cases hd : domain = path.domain
    · rw [if_pos hd, if_pos ⟨rfl, hd⟩]
      rfl
    · rw [if_neg hd, if_neg fun h => hd h.2]
  · rw [if_neg ha, if_neg fun h => ha h.1]

/-- **Looking up after an insertion.** -/
theorem get?_insert (s : Store) (address address' : Address) (path path' : Path) (e : Entry) :
    (s.insert address path e).get? address' path'
      = if (address', path') = (address, path) then some e else s.get? address' path' := by
  obtain ⟨domain, identifier⟩ := path
  obtain ⟨domain', identifier'⟩ := path'
  unfold get?
  rw [slots_insert]
  by_cases same : address' = address ∧ domain' = domain
  · obtain ⟨rfl, rfl⟩ := same
    rw [if_pos ⟨rfl, rfl⟩, SortedMap.get?_insert]
    simp
  · rw [if_neg same, if_neg]
    rintro h
    simp only [Prod.mk.injEq, Path.mk.injEq] at h
    exact same ⟨h.1, h.2.1⟩

/-- A domain that is written with no slots is dropped, which makes no difference
to look-up. -/
theorem getD_get?_withSlots (domains : SortedMap Domain Slots) (domain domain' : Domain)
    (slots : Slots) :
    ((withSlots domains domain slots).get? domain').getD SortedMap.empty
      = if domain' = domain then slots else (domains.get? domain').getD SortedMap.empty := by
  unfold withSlots
  split
  next none =>
    rw [SortedMap.get?_erase]
    split
    · exact (SortedMap.eq_empty_of_isEmpty none).symm
    · rfl
  next =>
    rw [SortedMap.get?_insert]
    split <;> rfl

/-- So it is with an account that is written with no domains. -/
theorem domains_withDomains (s : Store) (address address' : Address)
    (domains : SortedMap Domain Slots) :
    (s.withDomains address domains).domains address'
      = if address' = address then domains else s.domains address' := by
  unfold withDomains
  split
  next none =>
    show ((s.accounts.erase address).get? address').getD _ = _
    rw [SortedMap.get?_erase]
    split
    · exact (SortedMap.eq_empty_of_isEmpty none).symm
    · rfl
  next =>
    show ((s.accounts.insert address domains).get? address').getD _ = _
    rw [SortedMap.get?_insert]
    split <;> rfl

/-- An erasure changes the slots of its path only. -/
theorem slots_erase (s : Store) (address address' : Address) (path : Path) (domain : Domain) :
    (s.erase address path).slots address' domain
      = if address' = address ∧ domain = path.domain then
          (s.slots address path.domain).erase path.identifier
        else s.slots address' domain := by
  show (((s.withDomains address _).domains address').get? domain).getD _ = _
  rw [domains_withDomains]
  by_cases ha : address' = address
  · subst ha
    rw [if_pos rfl, getD_get?_withSlots]
    by_cases hd : domain = path.domain
    · rw [if_pos hd, if_pos ⟨rfl, hd⟩]
    · rw [if_neg hd, if_neg fun h => hd h.2]
      rfl
  · rw [if_neg ha, if_neg fun h => ha h.1]
    rfl

/-- **Looking up after an erasure.** -/
theorem get?_erase (s : Store) (address address' : Address) (path path' : Path) :
    (s.erase address path).get? address' path'
      = if (address', path') = (address, path) then none else s.get? address' path' := by
  obtain ⟨domain, identifier⟩ := path
  obtain ⟨domain', identifier'⟩ := path'
  unfold get?
  rw [slots_erase]
  by_cases same : address' = address ∧ domain' = domain
  · obtain ⟨rfl, rfl⟩ := same
    rw [if_pos ⟨rfl, rfl⟩, SortedMap.get?_erase]
    simp
  · rw [if_neg same, if_neg]
    rintro h
    simp only [Prod.mk.injEq, Path.mk.injEq] at h
    exact same ⟨h.1, h.2.1⟩

/-! ### What an update does to the census -/

/-- The census of what is stored at a path. -/
def standingAt (s : Store) (address : Address) (path : Path) : Census :=
  ((s.get? address path).map fun e => e.standing (.stored address path)).getD []

/-- What stands at a path is the census of its entry in the table. -/
theorem flatMap_entryAt_table (s : Store) (address : Address) (path : Path) :
    ((Table.entryAt s.table (address, path)).flatMap fun e =>
        e.2.standing (.stored e.1.1 e.1.2)) = s.standingAt address path := by
  unfold Table.entryAt standingAt
  rw [get?_table]
  cases s.get? address path with
  | none => rfl
  | some e => exact List.append_nil _

/-- **Removing an entry** takes away what stood there. -/
theorem standing_erase_perm (s : Store) (address : Address) (path : Path) :
    s.standing.Perm (s.standingAt address path ++ (s.erase address path).standing) := by
  have left : (s.erase address path).table.Perm (Table.erase s.table (address, path)) := by
    refine (List.perm_ext_iff_of_nodup ?_ ?_).2 fun e => ?_
    · exact List.Nodup.of_map _ (nodup_keys_table _)
    · exact (List.Nodup.of_map _ (nodup_keys_table s)).filter _
    · obtain ⟨⟨address', path'⟩, e⟩ := e
      rw [mem_table_iff, get?_erase, Table.erase, List.mem_filter, mem_table_iff]
      by_cases same : (address', path') = (address, path) <;> simp [same]
  have split := (Table.perm_erase s.nodup_keys_table (address, path)).flatMap_right
    fun e => e.2.standing (.stored e.1.1 e.1.2)
  rw [List.flatMap_append, flatMap_entryAt_table] at split
  exact split.trans ((left.flatMap_right _).symm.append_left _)

/-- **Storing an entry** puts it in the place of what stood there. -/
theorem standing_insert_perm (s : Store) (address : Address) (path : Path) (e : Entry) :
    (s.insert address path e).standing.Perm
      (e.standing (.stored address path) ++ (s.erase address path).standing) := by
  have split := (s.insert address path e).standing_erase_perm address path
  have there : (s.insert address path e).standingAt address path
      = e.standing (.stored address path) := by
    unfold standingAt
    rw [get?_insert, if_pos rfl]
    rfl
  rw [there] at split
  refine split.trans (List.Perm.append_left _ (List.Perm.flatMap_right _ ?_))
  refine (List.perm_ext_iff_of_nodup (List.Nodup.of_map _ (nodup_keys_table _))
    (List.Nodup.of_map _ (nodup_keys_table _))).2 fun e' => ?_
  obtain ⟨⟨address', path'⟩, e'⟩ := e'
  rw [mem_table_iff, mem_table_iff, get?_erase, get?_erase, get?_insert]
  by_cases same : (address', path') = (address, path) <;> simp [same]

/-- What holds of every entry holds as far as every path goes. -/
theorem forall_entries_iff {s : Store} {P : Entry → Prop} :
    (∀ e ∈ s.entries, P e.2.2) ↔ ∀ address path e, s.get? address path = some e → P e := by
  constructor
  · intro h address path e found
    exact h _ (mem_entries_iff.2 found)
  · rintro h ⟨address, path, e⟩ mem
    exact h address path e (mem_entries_iff.1 mem)

/-- What holds of all entries and of the one that is inserted holds of all
entries afterwards. -/
theorem forall_entries_insert {s : Store} {P : Entry → Prop} (h : ∀ e ∈ s.entries, P e.2.2)
    (address : Address) (path : Path) {e : Entry} (he : P e) :
    ∀ e' ∈ (s.insert address path e).entries, P e'.2.2 := by
  refine forall_entries_iff.2 fun address' path' e' found => ?_
  rw [get?_insert] at found
  split at found
  · exact Option.some.inj found ▸ he
  · exact forall_entries_iff.1 h _ _ _ found

/-- What holds of all entries holds of those that an erasure leaves. -/
theorem forall_entries_erase {s : Store} {P : Entry → Prop} (h : ∀ e ∈ s.entries, P e.2.2)
    (address : Address) (path : Path) : ∀ e ∈ (s.erase address path).entries, P e.2.2 := by
  refine forall_entries_iff.2 fun address' path' e' found => ?_
  rw [get?_erase] at found
  split at found
  · cases found
  · exact forall_entries_iff.1 h _ _ _ found

/-- What is stored is regular as far as every path goes. -/
theorem regular_iff {s : Store} :
    s.Regular ↔ ∀ address path e, s.get? address path = some e → e.Regular :=
  forall_entries_iff

/-- A store of regular values stays one when a regular value is inserted, -/
theorem Regular.insert {s : Store} (regular : s.Regular) (address : Address) (path : Path)
    {e : Entry} (he : e.Regular) : (s.insert address path e).Regular :=
  forall_entries_insert regular address path he

/-- or anything erased. -/
theorem Regular.erase {s : Store} (regular : s.Regular) (address : Address) (path : Path) :
    (s.erase address path).Regular :=
  forall_entries_erase regular address path

end Store

/-! ## Locals -/

/-- The census of what a name is bound to. -/
def Binding.standing (place : Place) : Binding → Census
  | .live v => v.standing place
  | .moved => []

/-- The name is bound to a regular value, or to nothing any more. -/
def Binding.Regular : Binding → Prop
  | .live v => v.Regular
  | .moved => True

namespace Frame

/-- The census of the locals of a frame. -/
def standing (f : Frame) : Census :=
  f.locals.flatMap fun b => b.2.standing (.binding f.id b.1)

/-- The census of what a name of the frame is bound to. -/
def standingAt (f : Frame) (name : String) : Census :=
  ((Table.get? f.locals name).map fun b => b.standing (.binding f.id name)).getD []

/-- Writing a local takes away what stood there, and puts in its place what
stands there now. -/
theorem exists_perm_setLocal (f : Frame) (name : String) (b : Binding) :
    ∃ rest, f.standing.Perm (f.standingAt name ++ rest)
      ∧ (f.setLocal name b).standing.Perm (b.standing (.binding f.id name) ++ rest) := by
  obtain ⟨rest, before, after⟩ := Table.exists_perm_put f.locals name b
  refine ⟨rest.flatMap fun b : String × Binding => b.2.standing (.binding f.id b.1), ?_,
    after.flatMap_right _⟩
  refine (before.flatMap_right _).trans (List.Perm.of_eq ?_)
  rw [List.flatMap_append]
  refine congrArg₂ _ ?_ rfl
  unfold Table.entryAt standingAt
  cases Table.get? f.locals name with
  | none => rfl
  | some b => exact List.append_nil _

end Frame

namespace CallStack

variable {s : CallStack} {id : FrameId} {f : Frame}

/-- The census of the locals of open frames. -/
def standing (s : CallStack) : Census := s.frames.flatMap Frame.standing

/-- **What every name is bound to is regular.** -/
def Regular (s : CallStack) : Prop := ∀ f ∈ s.frames, ∀ b ∈ f.locals, b.2.Regular

/-- A frame that was found is the first open one of that identity. -/
theorem frame_eq_ok (h : s.frame id = .ok f) : s.frames.find? (·.id = id) = some f := by
  unfold frame at h
  split at h
  next f' found => rw [found, Except.ok.inj h]
  · cases h

theorem mem_of_frame_eq_ok (h : s.frame id = .ok f) : f ∈ s.frames :=
  List.mem_of_find?_eq_some (frame_eq_ok h)

/-- So it is in a stack, if the frame is open. -/
theorem exists_perm_setLocalIn {frames : List Frame}
    (found : frames.find? (·.id = id) = some f) (name : String) (b : Binding) :
    ∃ rest, (frames.flatMap Frame.standing).Perm (f.standingAt name ++ rest)
      ∧ ((setLocalIn id name b frames).flatMap Frame.standing).Perm
        (b.standing (.binding id name) ++ rest) := by
  induction frames with
  | nil => cases found
  | cons g frames ih =>
    unfold setLocalIn
    by_cases same : g.id = id
    · obtain rfl : g = f := by simpa [same] using found
      subst same
      obtain ⟨rest, before, after⟩ := g.exists_perm_setLocal name b
      refine ⟨rest ++ frames.flatMap Frame.standing, ?_, ?_⟩
      · rw [List.flatMap_cons, ← List.append_assoc]
        exact before.append_right _
      · rw [if_pos rfl, List.flatMap_cons, ← List.append_assoc]
        exact after.append_right _
    · obtain ⟨rest, before, after⟩ := ih (by simpa [same] using found)
      refine ⟨g.standing ++ rest, ?_, ?_⟩
      · rw [List.flatMap_cons]
        refine (before.append_left _).trans ?_
        rw [← List.append_assoc, ← List.append_assoc]
        exact List.perm_append_comm.append_right _
      · rw [if_neg same, List.flatMap_cons]
        refine (after.append_left _).trans ?_
        rw [← List.append_assoc, ← List.append_assoc]
        exact List.perm_append_comm.append_right _

/-- **Binding a local** puts it in the place of what the name was bound
to. -/
theorem exists_perm_setLocal (found : s.frame id = .ok f) (name : String) (b : Binding) :
    ∃ rest, s.standing.Perm (f.standingAt name ++ rest)
      ∧ (s.setLocal id name b).standing.Perm (b.standing (.binding id name) ++ rest) :=
  exists_perm_setLocalIn (frame_eq_ok found) name b

/-- What holds of everything that is bound holds after one more binding of
which it holds. -/
theorem forall_setLocal {P : Binding → Prop} (all : ∀ f ∈ s.frames, ∀ b ∈ f.locals, P b.2)
    (id : FrameId) (name : String) {b : Binding} (hb : P b) :
    ∀ f ∈ (s.setLocal id name b).frames, ∀ b ∈ f.locals, P b.2 := by
  obtain ⟨frames, next⟩ := s
  unfold CallStack.setLocal at *
  dsimp only at all ⊢
  induction frames with
  | nil => exact all
  | cons g frames ih =>
    have others := ih fun f hf => all f (List.mem_cons_of_mem _ hf)
    unfold setLocalIn
    split
    · intro f hf
      rcases List.mem_cons.1 hf with rfl | hf
      · intro c hc
        rcases Table.mem_put hc with rfl | hc
        · exact hb
        · exact all g List.mem_cons_self c hc
      · exact all f (List.mem_cons_of_mem _ hf)
    · intro f hf
      rcases List.mem_cons.1 hf with rfl | hf
      · exact all f List.mem_cons_self
      · exact others f hf

/-- A stack of regular locals stays one when a regular value is bound. -/
theorem Regular.setLocal (regular : s.Regular) (id : FrameId) (name : String) {b : Binding}
    (hb : b.Regular) : (s.setLocal id name b).Regular :=
  forall_setLocal regular id name hb

/-- The value of a local is that of a name of the frame. -/
theorem value_eq_ok {name : String} {v : Value} (h : s.value id name = .ok v) :
    ∃ f, s.frame id = .ok f ∧ Table.get? f.locals name = some (.live v) := by
  unfold value at h
  rcases hf : s.frame id with fault | f
  · rw [hf] at h; cases h
  rw [hf] at h
  have h : f.value name = .ok v := h
  refine ⟨f, rfl, ?_⟩
  unfold Frame.value at h
  split at h
  next w found => rw [found, Except.ok.inj h]
  · cases h
  · cases h

theorem standingAt_of_live {name : String} {v : Value} (hid : f.id = id)
    (h : Table.get? f.locals name = some (.live v)) :
    f.standingAt name = v.standing (.binding id name) := by
  unfold Frame.standingAt
  rw [h, hid]
  rfl

theorem id_of_frame_eq_ok (h : s.frame id = .ok f) : f.id = id := by
  simpa using List.find?_some (frame_eq_ok h)

/-- **The census seen from a live local**, before and after it is bound
anew. -/
theorem exists_perm_rebind {name : String} {v : Value} (h : s.value id name = .ok v)
    (b : Binding) :
    ∃ rest, s.standing.Perm (v.standing (.binding id name) ++ rest)
      ∧ (s.setLocal id name b).standing.Perm (b.standing (.binding id name) ++ rest) := by
  obtain ⟨f, found, live⟩ := value_eq_ok h
  rw [← standingAt_of_live (id_of_frame_eq_ok found) live]
  exact exists_perm_setLocal found name b

/-- What is bound in a stack of regular locals is regular. -/
theorem Regular.value (regular : s.Regular) {name : String} {v : Value}
    (h : s.value id name = .ok v) : v.Regular := by
  obtain ⟨f, found, live⟩ := value_eq_ok h
  exact regular f (mem_of_frame_eq_ok found) _ (Table.mem_of_get?_eq_some live)

end CallStack

/-! ## The whole -/

/-- **What the ledger should record of resources in storage and in
locals.** -/
def State.standing (s : State) : Census := s.store.standing ++ s.stack.standing

end Custody
