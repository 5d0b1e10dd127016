import Custody.Proofs.Contents
import Custody.Proofs.Handovers

/-!
# One place in storage

No resource should be in storage twice, at whatever depth. The ledger sees to
that for the roots of what is handed over, which have to be in flight, and
for nothing inside them. So a host can take a resource it has in hand, rebuild
it with one in a field that is stored elsewhere, and save it; the transaction
commits, and the other resource is stored twice (`stored_twice_forged`). A
struct hides its contents too. The constructors keep resources out of structs,
but one that was decoded can have them, and to save it with a resource that is
stored elsewhere does the same (`stored_twice_boxed`).

There is no third way. Let what a host hands over be regular, so that its
structs are as constructors make them, and let its contents be genuine, each
recorded where it stands, as far as its calls return. Then whatever its roots
are made of, and whatever else it tries, no commit leaves a resource in storage
twice (`stored_once`).

Such a host may lose resources on the way, and drop or forge what it holds, so
the ledger no longer says where everything is. What carries over from call to
call is less: the custodian is **backed** when what is stored and bound is on
record, each resource once.
-/

namespace Custody

open Ledger CustodyM

variable {s s' : State} {v : Value} {rs : List Resource} {rest : Census}

/-! ## Backed custodians -/

/-- **What is stored and bound is on record**, each resource once, whatever
else is. -/
def State.Backed (s : State) : Prop := ∃ rest, s.Accounted [] rest

namespace State

/-- What is in hand is on record besides. -/
theorem Accounted.backed (a : s.Accounted rs rest) : s.Backed := by
  refine ⟨afoot rs ++ rest, ?_, a.store, a.locals, fun _ hr => nomatch hr⟩
  rw [afoot_nil, List.append_nil, ← List.append_assoc]
  exact a.reflects

/-- A custodian in order is backed. -/
theorem InOrder.backed {hands : List Resource} (o : s.InOrder hands) : s.Backed :=
  (inOrder_append_iff.1 ((List.append_nil hands).symm ▸ o)).1.backed

/-- Being backed depends only on the store, the stack and the records. -/
theorem Backed.of_sameGoods (h : s.Backed) (same : s.SameGoods s') : s'.Backed := by
  obtain ⟨rest, a⟩ := h
  exact ⟨rest, (same.effect []).accounted rest a⟩

/-- Locals that go with a commit are on record besides. -/
theorem Backed.committed (h : s.Backed) : s.committed.Backed := by
  obtain ⟨rest, a⟩ := h
  refine ⟨s.stack.standing ++ rest, ?_, a.store, fun _ hf => (nomatch hf), a.hands⟩
  refine (a.reflects.perm (List.Perm.of_eq ?_)).forgetDestroyed
  show s.store.standing ++ s.stack.standing ++ afoot [] ++ rest
    = s.store.standing ++ [] ++ afoot [] ++ (s.stack.standing ++ rest)
  simp only [afoot_nil, List.append_nil, List.append_assoc]

/-- What rolling back gives stays backed while the ledger grows. -/
theorem Backed.rolledBack {store : Store} {records : SortedMap ResourceId Holding}
    (h : (s.rolledBack store records).Backed) (grown : s.ledger.Grows s'.ledger) :
    (s'.rolledBack store records).Backed := by
  obtain ⟨rest, a⟩ := h
  exact ⟨rest, a.reflects.of_records rfl grown, a.store, a.locals, a.hands⟩

/-- **A backed custodian has nothing in storage twice.** -/
theorem Backed.nodup (h : s.Backed) : s.store.identities.Nodup := by
  obtain ⟨rest, a⟩ := h
  refine (Store.identities_perm a.store).nodup_iff.2 ?_
  have distinct := a.reflects.distinct
  unfold State.standing at distinct
  simp only [List.map_append, List.append_assoc] at distinct
  exact (List.nodup_append.1 distinct).1

end State

/-! ## Calls -/

/-- **A new resource** is on record with its fields, and with what its fields
held before. -/
theorem Construction.accounted_createResource {typeName : String} {fields : List (String × Value)}
    (regular : ∀ f ∈ fields, f.2.Regular) (room : s.ledger.next < UInt64.size)
    (h : Returns (createResource typeName fields) s v s')
    (a : s.Accounted (fields.flatMap fun f => f.2.resources) rest) :
    ∃ rest', s'.Accounted v.resources rest' := by
  obtain ⟨id, l, entered, rfl, rfl⟩ := entered_of_createResource h
  obtain ⟨lost, reflects⟩ :=
    exists_reflects_enter typeName entered (a.reflects.perm (s.standing_perm _ _))
  rw [Value.resources_resource]
  refine ⟨lost ++ rest, reflects.perm ?_, a.store, a.locals, fun r hr => ?_⟩
  · refine List.Perm.trans ?_ (s.standing_perm _ _).symm
    refine List.Perm.append_left _ ?_
    rw [← List.append_assoc, ← List.append_assoc]
    exact List.perm_append_comm.append_right _
  · obtain ⟨rfl, -⟩ := returns_enter entered
    obtain rfl := List.mem_singleton.1 hr
    exact regular_ofAssignments room regular

namespace Operation

variable {o : Operation} {reply : Reply} {fault : Fault}

/-- **The arguments of a call are regular.** A host that builds its values with
the constructors hands over no others; one that decodes them may. -/
structure Regular (o : Operation) : Prop where
  /-- The values are regular. -/
  values : ∀ v ∈ o.arguments, v.Regular
  /-- The keys are in range. -/
  keys : ∀ key ∈ o.keys, key.InRange

/-- Permitted arguments are regular. -/
theorem Permitted.regular (permitted : o.Permitted) : o.Regular :=
  ⟨permitted.values, permitted.keys⟩

/-- The resources a call is offered are regular when its arguments are. -/
theorem Regular.offered (regular : o.Regular) : ∀ r ∈ o.offered, r.toValue.Regular := by
  intro r hr
  obtain ⟨v, hv, hr⟩ := List.mem_flatMap.1 hr
  exact (regular.values v hv).resources r hr

/-- **A call that returns** leaves on record what it was given, but for what it
destroyed. -/
theorem accounted_perform (inner : o.isBound = false) (regular : o.Regular)
    (room : s.ledger.next < UInt64.size) (h : Returns o.perform s reply s')
    (a : s.Accounted o.offered rest) : ∃ rest', s'.Accounted (o.received reply) rest' := by
  have plain (named : ∀ typeName fields, o = createResource typeName fields →
      (fields.map Prod.fst).Nodup) : ∃ rest', s'.Accounted (o.received reply) rest' :=
    ⟨rest, (effect_perform inner ⟨regular.values, regular.keys, named⟩ room a.store a.locals
      h).accounted rest a⟩
  cases o with
  | createResource typeName fields =>
    -- several values may be given for one field
    obtain ⟨v, made, rfl⟩ := Reply.returns_report h
    have given : (createResource typeName fields).offered = fields.flatMap fun f => f.2.resources :=
      List.flatMap_map _ _ _
    rw [given] at a
    have whole := Construction.accounted_createResource
      (fun f hf => regular.values f.2 (List.mem_map_of_mem hf)) room made a
    rwa [← Value.resourcesOf_some] at whole
  | _ => exact plain fun _ _ same => nomatch same

/-- **The roots that a call takes in** are in flight, each once. -/
theorem inFlight_offered (inner : o.isBound = false) (numbered : s.ledger.Numbered)
    (h : Returns o.perform s reply s') :
    (o.offered.map Resource.id).Nodup
      ∧ ∀ r ∈ o.offered, s.ledger.holding? r.id = some .inFlight := by
  have turns := turns_of_returns inner numbered h
  rw [handovers_of_returns h] at turns
  have plain (none : o.swallowed s = []) : (o.offered.map Resource.id).Nodup
      ∧ ∀ r ∈ o.offered, s.ledger.holding? r.id = some .inFlight := by
    rw [none] at turns
    obtain ⟨distinct, afloat⟩ := Turns.of_takeIn turns
    exact ⟨distinct, fun r hr => afloat r.id (List.mem_map_of_mem hr)⟩
  cases o with
  | pass | assign => exact ⟨List.nodup_nil, fun _ hr => nomatch hr⟩
  | _ => exact plain rfl

/-- **The contents of what a call is given are genuine.** -/
def Genuine (s : State) (o : Operation) : Prop := ∀ r ∈ o.offered, r.Genuine s.ledger

/-- Whether the contents handed to a call are genuine can be decided. -/
instance (s : State) (o : Operation) : Decidable (o.Genuine s) :=
  inferInstanceAs (Decidable (∀ r ∈ o.offered, r.Genuine s.ledger))

/-- **A call with genuine contents** that returns leaves a backed custodian
backed. -/
theorem backed_of_returns (inner : o.isBound = false) (regular : o.Regular)
    (room : s.ledger.next < UInt64.size) (genuine : o.Genuine s) (backed : s.Backed)
    (h : Returns o.perform s reply s') : s'.Backed := by
  obtain ⟨rest, a⟩ := backed
  obtain ⟨distinct, afloat⟩ := inFlight_offered inner a.reflects.bounded h
  obtain ⟨rest', offered⟩ := a.offer distinct afloat regular.offered genuine
  obtain ⟨rest'', received⟩ := accounted_perform inner regular room h offered
  exact received.backed

/-- **A call that fails** does so, too, unless it dooms the transaction. -/
theorem backed_of_fails (inner : o.isBound = false) (running : s.inTransaction = true)
    (clean : s'.isPoisoned = false) (backed : s.Backed) (h : Fails o.perform s fault s') :
    s'.Backed := by
  rcases drops_of_fails inner running h with doomed | dropped
  · rw [doomed] at clean
    cases clean
  · obtain ⟨rest, a⟩ := backed
    exact (dropped.effect.accounted rest a).backed

end Operation

/-! ## Moves -/

namespace Move

variable {m : Move}

/-- **A move fits**: at the beginning of a transaction the store can be written
down, and at a call the arguments are regular and there is another identity to
hand out. -/
def Fits (s : State) : Move → Prop
  | call (.start _) => s.store.Writable
  | call o => o.Regular ∧ s.ledger.next < UInt64.size
  | _ => True

/-- **The contents of what a move hands over are genuine**, if it returns. -/
def Genuine (s : State) : Move → Prop
  | call o => ∀ reply s', Returns o.perform s reply s' → o.Genuine s
  | _ => True

/-- **An inner move leaves a backed custodian backed**, unless it dooms the
transaction. -/
theorem backed_next (inner : m.isInner = true) (running : s.inTransaction = true)
    (clean : (m.next s).isPoisoned = false) (fits : m.Fits s) (genuine : m.Genuine s)
    (backed : s.Backed) : (m.next s).Backed := by
  cases m with
  | call o =>
    have inner : o.isBound = false := by simpa [isInner] using inner
    have fits : o.Regular ∧ s.ledger.next < UInt64.size := by
      cases o with
      | start => cases inner
      | _ => exact fits
    rcases returns_or_fails o.perform s with ⟨reply, t, returned⟩ | ⟨fault, t, failed⟩
    · rw [next_of_returns (m := .call o) returned]
      exact Operation.backed_of_returns inner fits.1 fits.2 (genuine reply t returned) backed
        returned
    · rw [next_of_fails (m := .call o) failed] at clean ⊢
      exact Operation.backed_of_fails inner running clean backed failed
  | unwind frame =>
    obtain ⟨rest, a⟩ := backed
    exact ((effect_unwind running clean).accounted rest a).backed
  | declare types => exact backed.of_sameGoods ⟨rfl, rfl, rfl⟩

/-- **Outside a transaction** an inner move changes no goods. -/
theorem idle_next (inner : m.isInner = true) (idle : s.Idle) :
    s.SameGoods (m.next s) ∧ (m.next s).Idle := by
  cases m with
  | call o =>
    have inner : o.isBound = false := by simpa [isInner] using inner
    rw [show (call o).next s = s from Operation.rests_perform inner s idle]
    exact ⟨Std.Refl.refl s, idle⟩
  | unwind frame =>
    rw [show (unwind frame).next s = s from (Frames.rests_unwind.report _) s idle]
    exact ⟨Std.Refl.refl s, idle⟩
  | declare types =>
    exact ⟨⟨rfl, rfl, rfl⟩, ⟨idle.transaction, idle.frames, idle.references⟩⟩

end Move

/-! ## Runs -/

/-- **What holds of every state of a run** with genuine contents. -/
structure Secure (s : State) : Prop where
  idle : s.transaction = none → s.Idle
  /-- What rolling back would give is backed, -/
  kept : s.Recoverable State.Backed
  /-- and so is what there is, unless the transaction is doomed. -/
  backed : s.isPoisoned = false → s.Backed

namespace Secure

/-- An idle and backed custodian is secure. -/
theorem of_idle (idle : s.Idle) (backed : s.Backed) : Secure s :=
  ⟨fun _ => idle, idle.recoverable, fun _ => backed⟩

/-- A fresh custodian is secure. -/
theorem fresh (settings : Settings) (registry : Registry) :
    Secure (State.fresh settings registry) :=
  of_idle ⟨rfl, rfl, rfl⟩ ((Sound.fresh settings registry).inOrder rfl).backed

/-- A move inside a transaction keeps the custodian secure. -/
theorem inner {m : Move} (secure : Secure s) (inner : m.isInner = true) (fits : m.Fits s)
    (genuine : m.Genuine s) : Secure (m.next s) := by
  rcases htx : s.transaction with _ | t
  · obtain ⟨same, idle⟩ := Move.idle_next inner (secure.idle htx)
    exact of_idle idle ((secure.backed (State.isPoisoned_of_free htx)).of_sameGoods same)
  · have goes := Move.continuing_perform inner s
    have running : s.inTransaction = true := Option.isSome_iff_exists.2 ⟨t, htx⟩
    refine ⟨fun none => ?_, ?_, fun clean => ?_⟩
    · obtain ⟨t', still, -⟩ := goes.running t htx
      rw [show (m.next s).transaction = some t' from still] at none
      cases none
    · exact secure.kept.continues goes fun _ _ back => back.rolledBack goes.ledger
    · exact Move.backed_next inner running clean fits genuine (secure.backed (goes.clean clean))

/-- Beginning a transaction keeps the custodian secure. -/
theorem start (secure : Secure s) (signers : List Address) (writable : s.store.Writable) :
    Secure ((Move.call (.start signers)).next s) := by
  rcases Transactions.next_starting s signers with next | ⟨free, bytes, begins⟩
  · rwa [next]
  · have idle := secure.idle free
    have backed := secure.backed (State.isPoisoned_of_free free)
    have readable : s.store.Readable := backed.choose_spec.store.readable
    refine ⟨fun none => ?_, begins.recoverable idle readable writable fun _ same =>
      backed.of_sameGoods same, fun _ => backed.of_sameGoods (begins.sameGoods idle)⟩
    rw [begins.transaction] at none
    cases none

/-- Ending a transaction either way keeps the custodian secure. -/
theorem finish (secure : Secure s) {o : Operation} (bound : o = .commit ∨ o = .abort) :
    Secure ((Move.call o).next s) := by
  rcases htx : s.transaction with _ | t
  · rwa [Transactions.next_of_idle bound htx]
  · obtain ⟨ordered, store, decodes, back⟩ := secure.kept t htx
    rcases Transactions.next_ending bound htx ordered decodes with
      ⟨clean, -, next⟩ | ⟨u, goes, next⟩
    · rw [next]
      exact of_idle ⟨rfl, rfl, rfl⟩ (secure.backed clean).committed
    · rw [next]
      exact of_idle ⟨rfl, rfl, rfl⟩ (back.rolledBack goes.ledger)

/-- **Every move keeps the custodian secure.** -/
theorem next {m : Move} (secure : Secure s) (fits : m.Fits s) (genuine : m.Genuine s) :
    Secure (m.next s) := by
  cases m with
  | call o =>
    cases o with
    | start signers => exact secure.start signers fits
    | commit => exact secure.finish (.inl rfl)
    | abort => exact secure.finish (.inr rfl)
    | _ => exact secure.inner rfl fits genuine
  | _ => exact secure.inner rfl fits genuine

end Secure

/-- A run of fitting moves with genuine contents keeps the custodian secure. -/
theorem Secure.after {moves : List Move} (secure : Secure s)
    (fits : s.Along (fun s m => m.Fits s) moves)
    (genuine : s.Along (fun s m => m.Genuine s) moves) : Secure (s.after moves) := by
  induction moves generalizing s with
  | nil => exact secure
  | cons m moves ih => exact ih (secure.next fits.1 genuine.1) fits.2 genuine.2

/-! ## Storage after a commit -/

/-- **Nothing is stored twice.** In a run from a fresh custodian in which the
contents of what is handed over are genuine, every resource that is in storage
after a commit, at any depth, is there once. -/
theorem stored_once {settings : Settings} {registry : Registry} {moves : List Move}
    (fits : (State.fresh settings registry).Along (fun s m => m.Fits s) moves)
    (genuine : (State.fresh settings registry).Along (fun s m => m.Genuine s) moves)
    (committed : Returns Transactions.commit ((State.fresh settings registry).after moves) () s') :
    s'.store.identities.Nodup := by
  have secure := (Secure.fresh settings registry).after fits genuine
  obtain ⟨t, _, required, -⟩ := returns_bind.1 committed
  obtain ⟨running, rfl⟩ := returns_requireTransaction.1 required
  obtain ⟨ordered, store, decodes, -⟩ := secure.kept t running
  obtain ⟨clean, -, -⟩ := Transactions.committed_of_commit running ordered decodes committed
  rw [Transactions.store_of_commit committed]
  exact (secure.backed clean).nodup

namespace Scenario

/-- The vault, rebuilt by the host with another label. -/
def relabelled : Resource :=
  ⟨⟨2⟩, "Vault", [("coins", some (.array [keptCoin.toValue])), ("label", some (.str "bob"))]⟩

/-- Saves it. -/
def saveRelabelled : Operation := .save alice vaultPath relabelled.toValue

/-- A vault is made around a coin, and the host saves a vault of its own
making in place of it. -/
def relabel : List Move :=
  [.call (.start [alice]), .call makeCoin, .call makeVault, .call saveRelabelled]

/-- The relabelled vault is a regular argument. -/
theorem regular_saveRelabelled : saveRelabelled.Regular where
  values _ hv := by
    obtain rfl := List.mem_singleton.1 hv
    refine Value.Regular.resource_iff.2 ⟨by decide, fun f hf v hv => ?_⟩
    rcases List.mem_cons.1 hf with rfl | hf
    · exact Option.some.inj hv ▸ regular_coins
    · obtain rfl := List.mem_singleton.1 hf
      exact Option.some.inj hv ▸ regular_str "bob"
  keys _ h := nomatch h

/-- Relabelling the vault fits a machine. -/
theorem fits_relabel :
    (State.fresh Settings.standard registry).Along (fun s m => m.Fits s) relabel :=
  ⟨writable_fresh, ⟨(permitted_coin (by decide)).regular, by decide⟩,
    ⟨permitted_makeVault.regular, by decide⟩, ⟨regular_saveRelabelled, by decide⟩, trivial⟩

/-- The relabelled vault has genuine contents. -/
theorem genuine_relabel :
    (State.fresh Settings.standard registry).Along (fun s m => m.Genuine s) relabel :=
  ⟨fun _ _ _ => by decide, fun _ _ _ => by decide, fun _ _ _ => by decide, fun _ _ _ => by decide,
    trivial⟩

end Scenario

/-- The relabelled vault is committed, and the coin in it is stored once. -/
theorem stored_once_relabel :
    ∃ s', Returns Transactions.commit
        ((State.fresh Settings.standard Scenario.registry).after Scenario.relabel) () s'
      ∧ s'.store.identities = [⟨2⟩, ⟨1⟩] ∧ s'.store.identities.Nodup :=
  ⟨_, rfl, rfl, stored_once Scenario.fits_relabel Scenario.genuine_relabel rfl⟩

namespace Scenario

/-- A vault, made up by the host around a coin that is stored elsewhere. -/
def forgedVault : Value := .resource ⟨2⟩ "Vault" [("coins", some (.array [keptCoin.toValue]))]

/-- A coin is saved. Then a vault is made with nothing in it, and the host
saves one with the coin in it instead. -/
def forgeContents : List Move :=
  [.call (.start [alice]), .call makeCoin, .call (.save alice spendingPath keptCoin.toValue),
    .call (.createResource "Vault" []), .call (.save alice vaultPath forgedVault)]

end Scenario

/-- **With forged contents** a commit may leave a coin in storage twice. -/
theorem stored_twice_forged :
    ∃ s', Returns Transactions.commit
        ((State.fresh Settings.standard Scenario.registry).after Scenario.forgeContents) () s'
      ∧ s'.store.identities = [⟨1⟩, ⟨2⟩, ⟨1⟩] ∧ ¬s'.store.identities.Nodup :=
  ⟨_, rfl, rfl, by decide⟩

/-- A coin is saved, and once more in a struct that the host has decoded. -/
def Scenario.boxContents : List Move :=
  [.call (.start [alice]), .call makeCoin, .call (.save alice spendingPath keptCoin.toValue),
    .call (.save alice vaultPath (.struct "Box" [("coin", keptCoin.toValue)]))]

/-- **With a resource in a struct** as well, although nothing is forged inside
of a resource. -/
theorem stored_twice_boxed :
    ∃ s', Returns Transactions.commit
        ((State.fresh Settings.standard Scenario.registry).after Scenario.boxContents) () s'
      ∧ s'.store.identities = [⟨1⟩, ⟨1⟩] ∧ ¬s'.store.identities.Nodup :=
  ⟨_, rfl, rfl, by decide⟩

end Custody
