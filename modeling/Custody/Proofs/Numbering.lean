import Custody.Proofs.Inside

/-!
# What endures in the ledger

The entries of a call either record anew what is on record and still exists,
or mint. A property of ledgers that neither breaks is **stable**, and every
move inside a transaction keeps it, however it ends (`State.extends_inside`).

Ending a transaction does something else to the ledger. A commit forgets what
was destroyed, and a rollback brings old records back and leaves the next
number where it is. A property that withstands this too **endures**: if it
holds of the ledger, and of the records that a running transaction keeps, then
it does so in every state of every run (`State.Endures.after`).

The first such property is that identities are numbers that were handed out.
A new resource gets the next number, and that this was not in use before is no
check of the ledger but an invariant: every identity on record has a number
below the next one (`Ledger.Numbered`). It holds in every state that a host
can reach from a fresh custodian, whatever values it made up on the way
(`State.numbered_after`).
-/

namespace Custody

open CustodyM

/-! ## Ledgers -/

namespace Ledger

/-- **No entry breaks the property.** -/
structure Stable (Q : Ledger → Prop) : Prop where
  /-- What still exists may be recorded anew. -/
  record : ∀ {l : Ledger} {id : ResourceId} {known : Holding}, Q l →
    l.holding? id = some known → known.isLive = true → ∀ holding, Q (l.record id holding)
  mint : ∀ {l : Ledger}, Q l → Q l.mint.2

/-- **The property withstands the end of a transaction** as well. -/
structure Enduring (Q : Ledger → Prop) : Prop extends Stable Q where
  /-- Records of an earlier time have it at a later one. -/
  mono : ∀ {records : SortedMap ResourceId Holding} {next next' : Nat}, Q ⟨next, records⟩ →
    next ≤ next' → Q ⟨next', records⟩
  forgetDestroyed : ∀ {l : Ledger}, Q l → Q l.forgetDestroyed

/-- The later ledger hands out later numbers, and has the property if the
earlier one has it. -/
structure Extends (Q : Ledger → Prop) (l l' : Ledger) : Prop where
  grows : l.Grows l'
  holds : Q l → Q l'

variable {Q : Ledger → Prop} {l : Ledger} {id : ResourceId}

instance : IsPreorder Ledger (Extends Q) where
  refl _ := ⟨Nat.le_refl _, fun q => q⟩
  trans _ _ _ h h' := ⟨Nat.le_trans h.grows h'.grows, h'.holds ∘ h.holds⟩

namespace Stable

/-- An entry for what is recorded as live keeps a stable property of the ledger.
-/
theorem extends_record (stable : Stable Q) {known : Holding} (h : l.holding? id = some known)
    (live : known.isLive = true) (holding : Holding) : Extends Q l (l.record id holding) :=
  ⟨Nat.le_refl _, fun q => stable.record q h live holding⟩

/-- **Every action on the ledger keeps a stable property.** -/
theorem lawful (stable : Stable Q) : Lawful (Extends Q) where
  settle id place l := by
    refine Keeps.reads_bind keeps_expectInFlight fun _ checked => ?_
    exact stable.extends_record (returns_expectInFlight.1 checked).1 rfl _
  release id place _ l := by
    refine Keeps.get_bind (fun l => ?_) l
    split
    next known =>
      split
      · exact stable.extends_record known rfl _
      · exact Std.Refl.refl l
    all_goals exact Std.Refl.refl l
  destroy id place? _ l := by
    refine Keeps.reads_bind keeps_checkDestroy fun _ checked => ?_
    refine stable.extends_record (returns_checkDestroy.1 checked).1 ?_ _
    cases place? <;> rfl
  relocate l id place _ := by
    unfold relocate
    split
    next known => exact stable.extends_record known rfl _
    · exact Std.Refl.refl l
  mint l := ⟨Nat.le_succ _, stable.mint⟩

end Stable

/-! ### Numbers that were handed out -/

/-- **Every identity on record was handed out**: its number is below the next
one. -/
def Numbered (l : Ledger) : Prop := ∀ id h, l.holding? id = some h → id.number < l.next

namespace Numbered

/-- What is on record may be recorded anew. -/
theorem record (numbered : l.Numbered) {known : Holding} (h : l.holding? id = some known)
    (holding : Holding) : (l.record id holding).Numbered := by
  intro other holding' recorded
  rw [holding?_record] at recorded
  split at recorded
  next same => exact same ▸ numbered id known h
  · exact numbered other holding' recorded

/-- An identity that is minted is below the next number. -/
theorem mint (numbered : l.Numbered) : l.mint.2.Numbered := by
  intro id holding recorded
  rw [holding?_mint] at recorded
  split at recorded
  next same => exact same ▸ Nat.lt_succ_self _
  · exact Nat.lt_succ_of_lt (numbered id holding recorded)

/-- Records that are dropped leave numbers as they are. -/
theorem forgetDestroyed (h : l.Numbered) : l.forgetDestroyed.Numbered :=
  fun id holding recorded => h id holding (holding?_forgetDestroyed.1 recorded).1

/-- Records of an earlier time are numbered at a later one. -/
theorem mono {records : SortedMap ResourceId Holding} {next next' : Nat}
    (h : Numbered ⟨next, records⟩) (le : next ≤ next') : Numbered ⟨next', records⟩ :=
  fun id holding recorded => Nat.lt_of_lt_of_le (h id holding recorded) le

end Numbered

/-- **Numbers stay below the next one** under every entry. -/
theorem enduring_numbered : Enduring Numbered where
  record numbered h _ := numbered.record h
  mint := Numbered.mint
  mono := Numbered.mono
  forgetDestroyed := Numbered.forgetDestroyed

end Ledger

open Ledger (Stable Enduring)

variable {Q : Ledger → Prop} {s s' : State} {m : Move} {moves : List Move}

/-! ## States -/

/-- **The custodian has the property**: its ledger has it, and so do the
records that a running transaction keeps. -/
structure State.Endures (Q : Ledger → Prop) (s : State) : Prop where
  ledger : Q s.ledger
  kept : ∀ t, s.transaction = some t → Q ⟨s.ledger.next, t.records⟩

/-- **The custodian is numbered**: its ledger is, and so are the records that
a running transaction keeps. -/
structure State.Numbered (s : State) : Prop where
  ledger : s.ledger.Numbered
  kept : ∀ t, s.transaction = some t → Ledger.Numbered ⟨s.ledger.next, t.records⟩

namespace State

/-- Only the ledger changes, and it is extended. -/
def Extends (Q : Ledger → Prop) (s s' : State) : Prop := s.ledger.Extends Q s'.ledger

instance : IsPreorder State (Extends Q) where
  refl s := Std.Refl.refl s.ledger
  trans s u s' h h' := IsTrans.trans s.ledger u.ledger s'.ledger h h'

/-- Where the ledger stays every property of it does. -/
theorem extends_of_ledger (same : s'.ledger = s.ledger) : s.Extends Q s' := by
  rw [Extends, same]
  exact Std.Refl.refl _

/-- Noting a fault changes no ledger. -/
theorem extends_note (s : State) (fault : Fault) : s.Extends Q (s.note fault) := by
  refine extends_of_ledger ?_
  unfold note
  split <;> rfl

/-- **What holds of entries holds of everything that a call does.** -/
theorem footprint_extends (stable : Stable Q) : Footprint (Ledger.Extends Q) (Extends Q) where
  entries := stable.lawful
  ledger _ _ extended := extended
  locals s _ _ _ := Std.Refl.refl s.ledger
  opened s _ _ _ _ := Std.Refl.refl s.ledger
  closed s _ _ _ _ := Std.Refl.refl s.ledger
  written s _ _ _ _ := Std.Refl.refl s.ledger
  cleared s _ _ _ := Std.Refl.refl s.ledger
  rewrites r s old new _ _ _ _ := extends_of_ledger <| by
    obtain ⟨_, target, _, _, _⟩ := r
    cases target <;> rfl

end State

/-! ## Inside a transaction -/

/-- An inner move keeps a stable property, however it ends. -/
theorem Move.extends_next (stable : Stable Q) (inner : m.isInner = true) (s : State) :
    s.Extends Q (m.next s) := by
  cases m with
  | call o =>
    have composed := o.composed_perform (by simpa [isInner] using inner)
      (State.footprint_extends stable) fun _ s _ _ _ _ _ => Std.Refl.refl s.ledger
    exact composed.keeps State.extends_note s
  | unwind frame =>
    exact Keeps.ofUnit ((State.footprint_extends stable).keeps_unwind State.extends_note frame) s
  | declare types => exact Std.Refl.refl s.ledger

/-- **A run inside a transaction keeps every stable property of the ledger.** -/
theorem State.extends_inside (stable : Stable Q) (running : s.inTransaction = true)
    (inside : ∀ m ∈ moves, m.ends = false) : s.Extends Q (s.after moves) := by
  induction moves generalizing s with
  | nil => exact Std.Refl.refl s.ledger
  | cons m moves ih =>
    have first : s.Extends Q (m.next s) := by
      rcases Move.isInner_or_start (inside m List.mem_cons_self) with inner | ⟨signers, rfl⟩
      · exact Move.extends_next stable inner s
      · exact extends_of_ledger (congrArg State.ledger (Transactions.next_start running signers))
    have goes := Move.continues_next (inside m List.mem_cons_self) running
    exact IsTrans.trans s (m.next s) _ first
      (ih (goes.inTransaction running) fun m' mem => inside m' (List.mem_cons_of_mem _ mem))

namespace State.Endures

/-- A transaction that goes on keeps its records. -/
theorem continues (enduring : Enduring Q) (h : s.Endures Q) (goes : s.Continues s')
    (extended : s.Extends Q s') : s'.Endures Q := by
  refine ⟨extended.holds h.ledger, fun t' running' => ?_⟩
  rcases running : s.transaction with _ | t
  · rw [goes.idle running] at running'
    cases running'
  · obtain ⟨_, still, same⟩ := goes.running t running
    obtain rfl := Option.some.inj (still.symm.trans running')
    rw [same.records]
    exact enduring.mono (h.kept t running) goes.ledger

/-- Without a transaction nothing is kept. -/
theorem of_idle (h : Q s'.ledger) (idle : s'.transaction = none) : s'.Endures Q := by
  refine ⟨h, fun t running => ?_⟩
  rw [idle] at running
  cases running

end State.Endures

/-! ## Ending a transaction -/

namespace Transactions

/-- Settling up closes frames, which changes no record. -/
theorem endures_settleUp (enduring : Enduring Q) :
    Keeps (State.Preserves (State.Endures Q)) settleUp :=
  keeps_settleUp fun frame s h => h.continues enduring (Frames.continuing_unwind s)
    ((State.footprint_extends enduring.toStable).keeps_unwind State.extends_note frame s)

/-- An abort puts back records that the property held of, -/
theorem endures_abort : Keeps (State.Preserves (State.Endures Q)) abort := by
  refine fun s => Keeps.reads_bind keeps_requireTransaction fun t required h => ?_
  have running := (returns_requireTransaction.1 required).1
  rw [outcome_modify_bind]
  rcases Store.ofBytes t.snapshot with fault | store
  · exact .of_idle h.ledger rfl
  · exact .of_idle (h.kept t running) rfl

/-- and a commit does so or keeps those there are. -/
theorem endures_commit (enduring : Enduring Q) :
    Keeps (State.Preserves (State.Endures Q)) commit := by
  have refuses {reason : String} : Keeps (State.Preserves (State.Endures Q)) (refuse reason) :=
    endures_abort.bind fun _ => Keeps.throw
  refine keeps_requireTransaction.bind fun t => ?_
  split
  · exact refuses
  · refine (endures_settleUp enduring).observing.bind fun settled => ?_
    split
    · exact refuses
    · exact Keeps.modify fun s h => .of_idle (enduring.forgetDestroyed h.ledger) rfl

end Transactions

/-! ## Runs -/

/-- **No move breaks an enduring property**, whatever it is. -/
theorem Move.endures_next (enduring : Enduring Q) (m : Move) (h : s.Endures Q) :
    (m.next s).Endures Q := by
  have inner (h' : m.isInner = true) : (m.next s).Endures Q :=
    h.continues enduring (Move.continuing_perform h' s) (Move.extends_next enduring.toStable h' s)
  cases m with
  | call o =>
    cases o with
    | start signers =>
      rcases returns_or_fails (Transactions.start signers) s with ⟨_, u, began⟩ | ⟨fault, u, failed⟩
      · obtain ⟨-, bytes, -, rfl⟩ := Transactions.returns_start began
        rw [next_of_returns (m := .call (.start signers)) (Reply.returns_ofUnit.2 ⟨began, rfl⟩)]
        refine ⟨h.ledger, fun t running => ?_⟩
        obtain rfl := Option.some.inj running
        exact h.ledger
      · obtain rfl := Transactions.fails_start failed
        rwa [next_of_fails (m := .call (.start signers)) (Reply.fails_ofUnit.2 failed)]
    | commit => exact Keeps.bind (Transactions.endures_commit enduring) (fun _ => Keeps.pure) s h
    | abort => exact Keeps.bind Transactions.endures_abort (fun _ => Keeps.pure) s h
    | _ => exact inner rfl
  | _ => exact inner rfl

/-- **An enduring property holds in every state of a run** if it holds in the
first. -/
theorem State.Endures.after (h : s.Endures Q) (enduring : Enduring Q) (moves : List Move) :
    (s.after moves).Endures Q := by
  induction moves generalizing s with
  | nil => exact h
  | cons m moves ih => exact ih (m.endures_next enduring h)

/-! ### Numbers that were handed out -/

/-- That a state is numbered is a property of its ledger and of the records that
are kept. -/
theorem State.numbered_iff : s.Numbered ↔ s.Endures Ledger.Numbered :=
  ⟨fun h => ⟨h.ledger, h.kept⟩, fun h => ⟨h.ledger, h.kept⟩⟩

/-- **A move keeps the custodian numbered**, whatever it is. -/
theorem Move.numbered_next (m : Move) (numbered : s.Numbered) : (m.next s).Numbered :=
  State.numbered_iff.2 (m.endures_next Ledger.enduring_numbered (State.numbered_iff.1 numbered))

/-- **Every state of a run is numbered** if the first one is. -/
theorem State.numbered_after (numbered : s.Numbered) (moves : List Move) :
    (s.after moves).Numbered :=
  numbered_iff.2 ((numbered_iff.1 numbered).after Ledger.enduring_numbered moves)

/-- A resource that is adopted is numbered from then on. -/
theorem Ledger.Numbered.adopt {l : Ledger} (h : l.Numbered) (id : ResourceId) (place : Place) :
    (l.adopt id place).Numbered := by
  intro other holding recorded
  have lookup : (l.adopt id place).holding? other
      = if other = id then some (.owned place) else l.holding? other :=
    SortedMap.get?_insert l.records id other _
  rw [lookup] at recorded
  split at recorded
  next same => exact same ▸ Nat.lt_of_lt_of_le (Nat.lt_succ_self _) (Nat.le_max_right _ _)
  · exact Nat.lt_of_lt_of_le (h other holding recorded) (Nat.le_max_left _ _)

/-- New identities stay above those of a store. -/
theorem Ledger.numbered_ofStore (store : Store) : (Ledger.ofStore store).Numbered := by
  refine List.foldlRecOn store.entries _ (fun _ _ recorded => nomatch recorded)
    fun l numbered entry _ => ?_
  split
  · exact List.foldlRecOn _ _ numbered fun l numbered r _ => numbered.adopt r.1 r.2
  · exact numbered

/-- A custodian that resumes is numbered. -/
theorem State.numbered_ofStore (store : Store) (settings : Settings) (registry : Registry) :
    (State.ofStore store settings registry).Numbered :=
  numbered_iff.2 (.of_idle (Ledger.numbered_ofStore store) rfl)

/-- A fresh custodian has nothing on record. -/
theorem State.numbered_fresh (settings : Settings) (registry : Registry) :
    (State.fresh settings registry).Numbered := numbered_ofStore Store.empty settings registry

end Custody
