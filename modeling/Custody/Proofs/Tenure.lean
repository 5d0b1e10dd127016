import Custody.Proofs.Layout

/-!
# How long a reference lives

A reference is issued to a frame: to the innermost one that is open, or to the
transaction itself when there is none. It lives as long as that frame: until the
frame is closed or the transaction ends, whatever else is opened and closed in
the meantime and however that goes (`reference_tenure`).

The table of loans does not say so. A frame that closes ends the loans that
belong to it and those onto its locals, and the latter might belong to a frame
that stays open. They never do: a local is lent only while its frame is open, so
to a frame further in, and frames close from the inside. That is the invariant
here (`State.Housed`), and what every move does to the table follows from it
(`State.Releases`).
-/

namespace Custody

open CustodyM

/-! ## The table of loans -/

namespace Loans

variable {l : Loans} {r r' : Reference}

/-- A reference is live when there is a loan for it. -/
theorem isLive_iff (distinct : (Table.keys l.outstanding).Nodup) :
    l.isLive r = true ↔ ∃ frame, (r.target, ⟨r.id, frame⟩) ∈ l.outstanding := by
  unfold isLive
  rw [Option.any_eq_true]
  constructor
  · rintro ⟨⟨id, frame⟩, found, same⟩
    obtain rfl : id = r.id := by simpa using same
    exact ⟨frame, Table.mem_of_get?_eq_some found⟩
  · rintro ⟨frame, mem⟩
    exact ⟨⟨r.id, frame⟩, (Table.mem_iff_get?_eq_some distinct).1 mem, by simp⟩

/-- **A target has one live reference.** -/
theorem eq_of_isLive (live : l.isLive r = true) (live' : l.isLive r' = true)
    (same : r'.target = r.target) : r'.id = r.id := by
  unfold isLive at live live'
  rw [Option.any_eq_true] at live live'
  obtain ⟨loan, found, id⟩ := live
  obtain ⟨loan', found', id'⟩ := live'
  rw [same, found] at found'
  obtain rfl := Option.some.inj found'
  simp only [decide_eq_true_eq] at id id'
  rw [← id, ← id']

end Loans

/-! ## Housed references -/

namespace State

variable {s t u : State} {frame : FrameId}

/-- **The frame can hold references**: a transaction is running, and the frame
is open in it or stands for the transaction itself. -/
structure Houses (s : State) (frame : FrameId) : Prop where
  running : s.inTransaction = true
  opened : frame = FrameId.transaction ∨ frame ∈ s.stack.ids

/-- **All references are housed**, and those onto locals further in than the
locals are. -/
structure Housed (s : State) : Prop where
  ordered : s.stack.Ordered
  /-- No frame, open or to come, is mistaken for the transaction. -/
  apart : FrameId.transaction.number < s.stack.next
    ∧ ∀ id ∈ s.stack.ids, FrameId.transaction.number < id.number
  distinct : (Table.keys s.loans.outstanding).Nodup
  numbered : ∀ e ∈ s.loans.outstanding, e.2.id.number < s.loans.next
  housed : ∀ e ∈ s.loans.outstanding, s.Houses e.2.frame
  further : ∀ owner name loan, (.binding owner name, loan) ∈ s.loans.outstanding →
    owner ∈ s.stack.ids ∧ owner.number ≤ loan.frame.number

/-- **What becomes of the references there were**: those whose frame can still
hold them stay, and all others end. -/
structure Releases (s t : State) : Prop where
  loans : s.loans.next ≤ t.loans.next
  ends : ∀ e, e.2.id.number < s.loans.next →
    (e ∈ t.loans.outstanding ↔ e ∈ s.loans.outstanding ∧ t.Houses e.2.frame)

/-- The same while a transaction goes on, or none is running: no frame that was
closed is open again. -/
structure Retains (s t : State) : Prop extends Releases s t where
  running : t.inTransaction = s.inTransaction
  stack : s.stack.next ≤ t.stack.next
  opened : ∀ id ∈ t.stack.ids, id.number < s.stack.next → id ∈ s.stack.ids

theorem Housed.releases_self (housed : s.Housed) : s.Releases s where
  loans := Nat.le_refl _
  ends e _ := ⟨fun mem => ⟨mem, housed.housed e mem⟩, And.left⟩

/-- A frame that holds a reference has been given its number. -/
theorem Housed.number_lt (housed : s.Housed) (h : s.Houses frame) :
    frame.number < s.stack.next := by
  rcases h.opened with rfl | opened
  · exact housed.apart.1
  · exact housed.ordered.older frame opened

theorem Retains.trans (h : s.Retains t) (h' : t.Retains u) (housed : s.Housed) :
    s.Retains u where
  loans := Nat.le_trans h.loans h'.loans
  running := h'.running.trans h.running
  stack := Nat.le_trans h.stack h'.stack
  opened id mem old := h.opened id (h'.opened id mem (Nat.lt_of_lt_of_le old h.stack)) old
  ends e old := by
    rw [h'.ends e (Nat.lt_of_lt_of_le old h.loans), h.ends e old]
    refine ⟨fun ⟨⟨mem, _⟩, holds⟩ => ⟨mem, holds⟩, fun ⟨mem, holds⟩ => ⟨⟨mem, ?_⟩, holds⟩⟩
    -- the frame is open in the end, so it was open in between
    refine ⟨h'.running ▸ holds.running, holds.opened.imp_right fun opened => ?_⟩
    exact h'.opened _ opened
      (Nat.lt_of_lt_of_le (housed.number_lt (housed.housed e mem)) h.stack)

/-- **From housed references to housed references**, with those there were
released as their frames close. -/
def Tends (s t : State) : Prop := s.Housed → t.Housed ∧ s.Retains t

instance : IsPreorder State Tends where
  refl s housed :=
    ⟨housed, housed.releases_self, rfl, Nat.le_refl _, fun _ mem _ => mem⟩
  trans s t u h h' housed := by
    obtain ⟨housed', retains⟩ := h housed
    obtain ⟨housed'', retains'⟩ := h' housed'
    exact ⟨housed'', retains.trans retains' housed⟩

/-! ## What deeds do to references -/

/-- What touches neither frames nor references leaves them alone. -/
theorem tends_of_same (running : t.inTransaction = s.inTransaction)
    (ids : t.stack.ids = s.stack.ids)
    (next : t.stack.next = s.stack.next) (loans : t.loans = s.loans) : s.Tends t := by
  intro housed
  have ordered : t.stack.Ordered :=
    ⟨ids ▸ housed.ordered.newer, ids ▸ next ▸ housed.ordered.older⟩
  have houses : ∀ frame, t.Houses frame ↔ s.Houses frame := fun frame =>
    ⟨fun h => ⟨running ▸ h.running, ids ▸ h.opened⟩, fun h => ⟨running ▸ h.running, ids ▸ h.opened⟩⟩
  refine ⟨⟨ordered, next ▸ ids ▸ housed.apart, loans ▸ housed.distinct, loans ▸ housed.numbered,
    fun e mem => (houses _).2 (housed.housed e (loans ▸ mem)), fun owner name loan mem => ?_⟩,
    ⟨Nat.le_of_eq (congrArg Loans.next loans.symm), fun e _ => ?_⟩, running,
    Nat.le_of_eq next.symm, fun id mem _ => ids ▸ mem⟩
  · rw [ids]
    exact housed.further owner name loan (loans ▸ mem)
  · rw [loans, houses]
    exact ⟨fun mem => ⟨mem, housed.housed e mem⟩, And.left⟩

/-- **Opening a frame** ends no reference. -/
theorem tends_push {limit : Nat} {id : FrameId} {stack : CallStack}
    (pushed : s.stack.push limit = .ok (id, stack)) : s.Tends { s with stack := stack } := by
  intro housed
  have ordered := housed.ordered.push pushed
  obtain ⟨rfl, rfl⟩ := CallStack.push_eq_ok pushed
  have ids : CallStack.ids ⟨⟨⟨s.stack.next⟩, []⟩ :: s.stack.frames, s.stack.next + 1⟩
      = ⟨s.stack.next⟩ :: s.stack.ids := rfl
  have apart : ∀ id ∈ (⟨s.stack.next⟩ : FrameId) :: s.stack.ids,
      FrameId.transaction.number < id.number :=
    List.forall_mem_cons.2 ⟨housed.apart.1, housed.apart.2⟩
  have houses : ∀ e ∈ s.loans.outstanding, State.Houses { s with stack :=
      ⟨⟨⟨s.stack.next⟩, []⟩ :: s.stack.frames, s.stack.next + 1⟩ } e.2.frame := fun e mem =>
    ⟨(housed.housed e mem).running,
      (housed.housed e mem).opened.imp_right fun opened => List.mem_cons_of_mem _ opened⟩
  refine ⟨⟨ordered, ⟨Nat.lt_succ_of_lt housed.apart.1, ids ▸ apart⟩, housed.distinct,
    housed.numbered, houses, fun owner name loan mem => ?_⟩,
    ⟨Nat.le_refl _, fun e _ => ⟨fun mem => ⟨mem, houses e mem⟩, And.left⟩⟩, rfl, Nat.le_succ _,
    fun id mem old => ?_⟩
  · obtain ⟨opened, le⟩ := housed.further owner name loan mem
    exact ⟨List.mem_cons_of_mem _ opened, le⟩
  · rcases List.mem_cons.1 (ids ▸ mem) with rfl | mem
    · exact absurd old (Nat.lt_irrefl _)
    · exact mem

/-- **A frame that closes ends its own references**, and no others. -/
theorem Housed.endsWith_iff (housed : s.Housed) {rest : List FrameId}
    (ids : s.stack.ids = frame :: rest) {e : Target × Loan} (mem : e ∈ s.loans.outstanding) :
    Loans.endsWith frame e.1 e.2 = true ↔ e.2.frame = frame := by
  obtain ⟨target, loan⟩ := e
  have newest := (List.pairwise_cons.1 (ids ▸ housed.ordered.newer)).1
  cases target with
  | stored address path => simp [Loans.endsWith]
  | binding owner name =>
    simp only [Loans.endsWith, Bool.or_eq_true, decide_eq_true_eq]
    refine ⟨fun ends => ?_, .inl⟩
    rcases ends with same | rfl
    · exact same
    · -- a reference onto a local of the innermost frame is held by that frame
      obtain ⟨-, le⟩ := housed.further owner name loan mem
      rcases (housed.housed _ mem).opened with same | opened
      · have := housed.apart.2 owner (ids ▸ List.mem_cons_self)
        rw [same] at le
        omega
      · rcases List.mem_cons.1 (ids ▸ opened) with same | outer
        · exact same
        · exact absurd (newest _ outer) (Nat.not_lt.2 le)

theorem tends_pop {f : Frame} {stack : CallStack} (popped : s.stack.pop frame = .ok (f, stack)) :
    s.Tends { s with stack := stack, loans := s.loans.releaseFrame frame } := by
  intro housed
  have ordered := housed.ordered.pop popped
  obtain ⟨rfl, frames, same⟩ := CallStack.pop_eq_ok popped
  have ids : s.stack.ids = f.id :: stack.ids := by rw [CallStack.ids, frames]; rfl
  have next : stack.next = s.stack.next := by rw [same]
  have newest := (List.pairwise_cons.1 (ids ▸ housed.ordered.newer)).1
  -- what stays is what another frame holds
  have stays (e : Target × Loan) : e ∈ (s.loans.releaseFrame f.id).outstanding
      ↔ e ∈ s.loans.outstanding ∧ e.2.frame ≠ f.id := by
    unfold Loans.releaseFrame
    rw [List.mem_filter, Bool.not_eq_true']
    refine and_congr_right fun mem => ?_
    rw [← Bool.not_eq_true, housed.endsWith_iff ids mem]
  have houses {e : Target × Loan} (mem : e ∈ s.loans.outstanding) :
      State.Houses { s with stack := stack, loans := s.loans.releaseFrame f.id } e.2.frame
        ↔ e.2.frame ≠ f.id := by
    refine ⟨fun h same => ?_, fun ne => ⟨(housed.housed e mem).running, ?_⟩⟩
    · rcases h.opened with tx | opened
      · have := housed.apart.2 f.id (ids ▸ List.mem_cons_self)
        rw [← same, tx] at this
        omega
      · have := newest _ (same ▸ opened)
        omega
    · exact (housed.housed e mem).opened.imp_right fun opened =>
        (List.mem_cons.1 (ids ▸ opened)).resolve_left ne
  refine ⟨⟨ordered, ⟨next ▸ housed.apart.1, fun id mem =>
    housed.apart.2 id (ids ▸ List.mem_cons_of_mem _ mem)⟩, ?_, fun e mem => ?_, fun e mem => ?_,
    fun owner name loan mem => ?_⟩, ⟨Nat.le_refl _, fun e _ => ?_⟩, rfl, Nat.le_of_eq next.symm,
    fun id mem _ => ids ▸ List.mem_cons_of_mem _ mem⟩
  · exact List.Nodup.sublist (List.filter_sublist.map _) housed.distinct
  · exact housed.numbered e ((stays e).1 mem).1
  · obtain ⟨mem, ne⟩ := (stays e).1 mem
    exact (houses mem).2 ne
  · obtain ⟨mem, ne⟩ := (stays _).1 mem
    obtain ⟨opened, le⟩ := housed.further owner name loan mem
    refine ⟨(List.mem_cons.1 (ids ▸ opened)).resolve_left fun same => ?_, le⟩
    exact ne ((housed.endsWith_iff ids mem).1 (by simp [Loans.endsWith, same]))
  · rw [stays]
    exact and_congr_right fun mem => (houses mem).symm

/-- A reference is issued to the transaction or to an open frame. -/
theorem borrower_opened (s : State) :
    s.borrower = FrameId.transaction ∨ s.borrower ∈ s.stack.ids := by
  unfold borrower CallStack.current? CallStack.ids
  cases s.stack.frames with
  | nil => exact .inl rfl
  | cons f frames => exact .inr List.mem_cons_self

/-- A local that may be lent is one of an open frame. -/
theorem MayLend.opened {owner : FrameId} {name : String} (may : s.MayLend (.binding owner name)) :
    owner ∈ s.stack.ids := by
  obtain ⟨v, found⟩ := may.bound owner name rfl
  obtain ⟨f, opened, -⟩ := CallStack.value_eq_ok found
  obtain rfl := CallStack.id_of_frame_eq_ok opened
  exact List.mem_map_of_mem (CallStack.mem_of_frame_eq_ok opened)

/-- The innermost frame is further in than all that are open. -/
theorem Housed.le_borrower (housed : s.Housed) {id : FrameId} (opened : id ∈ s.stack.ids) :
    id.number ≤ s.borrower.number := by
  have newer := housed.ordered.newer
  unfold borrower CallStack.current?
  unfold CallStack.ids at opened newer
  cases frames : s.stack.frames with
  | nil =>
    rw [frames] at opened
    cases opened
  | cons f rest =>
    rw [frames] at opened newer
    rcases List.mem_cons.1 opened with rfl | outer
    · exact Nat.le_refl _
    · exact Nat.le_of_lt ((List.pairwise_cons.1 newer).1 _ outer)

/-- **Lending** issues a new reference, which is housed. -/
theorem tends_acquire {target : Target} {id : RefId} {loans : Loans} (may : s.MayLend target)
    (acquired : s.loans.acquire target s.borrower = some (id, loans)) :
    s.Tends { s with loans := loans } := by
  intro housed
  obtain ⟨absent, rfl, rfl⟩ := Loans.acquire_eq_some acquired
  have among (e : Target × Loan) :
      e ∈ Table.put s.loans.outstanding target ⟨⟨s.loans.next⟩, s.borrower⟩
      ↔ e = (target, ⟨⟨s.loans.next⟩, s.borrower⟩) ∨ e ∈ s.loans.outstanding :=
    Table.mem_put_iff absent
  have houses : ∀ frame, State.Houses { s with loans :=
      ⟨s.loans.next + 1, Table.put s.loans.outstanding target ⟨⟨s.loans.next⟩, s.borrower⟩⟩ } frame
        ↔ s.Houses frame :=
    fun frame => ⟨fun h => ⟨h.running, h.opened⟩, fun h => ⟨h.running, h.opened⟩⟩
  refine ⟨⟨housed.ordered, housed.apart, Table.nodup_keys_put housed.distinct _ _, fun e mem => ?_,
    fun e mem => ?_, fun owner name loan mem => ?_⟩, ⟨Nat.le_succ _, fun e old => ?_⟩, rfl,
    Nat.le_refl _, fun _ mem _ => mem⟩
  · rcases (among e).1 mem with rfl | mem
    · exact Nat.lt_succ_self _
    · exact Nat.lt_succ_of_lt (housed.numbered e mem)
  · rw [houses]
    rcases (among e).1 mem with rfl | mem
    · exact ⟨may.running, s.borrower_opened⟩
    · exact housed.housed e mem
  · rcases (among _).1 mem with same | mem
    · obtain ⟨rfl, rfl⟩ := Prod.mk.inj same
      exact ⟨may.opened, housed.le_borrower may.opened⟩
    · exact housed.further owner name loan mem
  · rw [houses, among]
    refine ⟨fun mem => ?_, fun ⟨mem, _⟩ => .inr mem⟩
    rcases mem with rfl | mem
    · exact absurd old (Nat.lt_irrefl _)
    · exact ⟨mem, housed.housed e mem⟩

theorem footprint_tends : Footprint Ledger.Grows Tends where
  entries := Ledger.lawful_grows
  ledger s _ _ := tends_of_same rfl rfl rfl rfl
  locals s _ _ _ := tends_of_same rfl (CallStack.ids_setLocal _ _ _ _) rfl rfl
  opened s _ _ _ pushed := tends_push pushed
  closed s _ _ _ popped := tends_pop popped
  written s _ _ _ _ := tends_of_same rfl rfl rfl rfl
  cleared s _ _ _ := tends_of_same rfl rfl rfl rfl
  rewrites r s old new _ _ _ _ := by
    rw [Members.outcome_replace]
    obtain ⟨_, target, _, _, _⟩ := r
    cases target with
    | stored address path => exact tends_of_same rfl rfl rfl rfl
    | binding frame name => exact tends_of_same rfl (CallStack.ids_setLocal _ _ _ _) rfl rfl

end State

/-! ## Moves and runs -/

namespace State

variable {s t u : State} {m : Move} {moves : List Move}

/-- Between transactions no reference is housed. -/
theorem Housed.outstanding_eq_nil (housed : s.Housed) (free : s.transaction = none) :
    s.loans.outstanding = [] := by
  refine List.eq_nil_iff_forall_not_mem.2 fun e mem => ?_
  have running := (housed.housed e mem).running
  rw [inTransaction, free] at running
  cases running

/-- Where all frames are closed and all references ended, the references are
housed. -/
theorem Housed.of_ended (next : FrameId.transaction.number < t.stack.next) (ids : t.stack.ids = [])
    (outstanding : t.loans.outstanding = []) : t.Housed where
  ordered := ⟨ids ▸ List.Pairwise.nil, fun id mem => nomatch (ids ▸ mem : id ∈ [])⟩
  apart := ⟨next, fun id mem => nomatch (ids ▸ mem : id ∈ [])⟩
  distinct := outstanding ▸ List.nodup_nil
  numbered e mem := nomatch (outstanding ▸ mem : e ∈ [])
  housed e mem := nomatch (outstanding ▸ mem : e ∈ [])
  further owner name loan mem :=
    nomatch (outstanding ▸ mem : (Target.binding owner name, loan) ∈ [])

/-- A custodian that resumes from stored state has issued no reference. -/
theorem Housed.ofStore (store : Store) (settings : Settings) (registry : Registry) :
    (State.ofStore store settings registry).Housed :=
  of_ended Nat.zero_lt_one rfl rfl

/-- **An inner move** releases references as it closes their frames. -/
theorem tends_next (inner : m.isInner = true) (s : State) : s.Tends (m.next s) := by
  have does (o : Operation) (s t : State) (did : o.Does s t) : s.Tends t :=
    footprint_tends.of_does (fun _ _ _ _ _ may acquired => tends_acquire may acquired) did
  refine Move.keeps_perform inner (fun o _ => does o) (fun frame => does (.popFrame frame))
    (fun _ _ _ => tends_of_same rfl rfl rfl rfl) (fun s fault => ?_) s
  unfold note
  split
  · exact tends_of_same Option.isSome_map rfl rfl rfl
  · exact Std.Refl.refl s

/-- **A transaction that ends** ends all references. -/
theorem releases_of_ended (next : s.loans.next ≤ t.loans.next) (free : t.transaction = none)
    (outstanding : t.loans.outstanding = []) : s.Releases t where
  loans := next
  ends e _ := by
    rw [outstanding]
    refine iff_of_false (fun mem => nomatch mem) fun ⟨_, houses⟩ => ?_
    have running := houses.running
    rw [inTransaction, free] at running
    cases running

/-- **Every move** releases references as it closes their frames or ends the
transaction. -/
theorem Housed.next (housed : s.Housed) (lasting : s.Lasting Store.Readable) :
    (m.next s).Housed ∧ s.Releases (m.next s) := by
  have inner (h : m.isInner = true) : (m.next s).Housed ∧ s.Releases (m.next s) :=
    (tends_next h s housed).imp_right Retains.toReleases
  have ending {o : Operation} (bound : o = .commit ∨ o = .abort) :
      ((Move.call o).next s).Housed ∧ s.Releases ((Move.call o).next s) := by
    rcases running : s.transaction with _ | t
    · rw [Transactions.next_of_idle bound running]
      exact ⟨housed, housed.releases_self⟩
    · obtain ⟨ordered, store, decodes, -⟩ := lasting.kept t running
      rcases Transactions.next_ending bound running ordered decodes with
        ⟨-, -, next⟩ | ⟨u, goes, next⟩
      · rw [next]
        exact ⟨of_ended housed.apart.1 rfl rfl, releases_of_ended (Nat.le_refl _) rfl rfl⟩
      · rw [next]
        exact ⟨of_ended (Nat.lt_of_lt_of_le housed.apart.1 goes.stack) rfl rfl,
          releases_of_ended goes.loans rfl rfl⟩
  cases m with
  | call o =>
    cases o with
    | start signers =>
      rcases Transactions.next_starting s signers with next | ⟨free, bytes, begins⟩
      · rw [next]
        exact ⟨housed, housed.releases_self⟩
      · -- there was no reference before
        refine ⟨of_ended ?_ ?_ ?_, ?_, fun e _ => ?_⟩
        · rw [begins.stack]
          exact housed.apart.1
        · rw [begins.stack]
          rfl
        · rw [begins.loans]
          rfl
        · rw [begins.loans]
          exact Nat.le_refl _
        · rw [begins.loans, housed.outstanding_eq_nil free]
          exact iff_of_false (fun mem => nomatch mem) fun ⟨mem, _⟩ => nomatch mem
    | commit => exact ending (.inl rfl)
    | abort => exact ending (.inr rfl)
    | _ => exact inner rfl
  | _ => exact inner rfl

/-- **A run keeps the references whose frames can hold them all along.** -/
theorem Housed.after (housed : s.Housed) (lasting : s.Lasting Store.Readable)
    (feasible : s.Along (fun s m => m.Feasible s) moves) :
    (s.after moves).Housed ∧ s.loans.next ≤ (s.after moves).loans.next
      ∧ ∀ e, e.2.id.number < s.loans.next → (e ∈ (s.after moves).loans.outstanding
        ↔ e ∈ s.loans.outstanding ∧ ∀ earlier, earlier <+: moves →
          (s.after earlier).Houses e.2.frame) := by
  induction moves generalizing s with
  | nil =>
    refine ⟨housed, Nat.le_refl _, fun e _ => ⟨fun mem => ⟨mem, fun earlier h => ?_⟩, And.left⟩⟩
    obtain rfl := List.prefix_nil.1 h
    exact housed.housed e mem
  | cons m moves ih =>
    obtain ⟨housed', releases⟩ := housed.next lasting (m := m)
    have lasting' := lasting.next Store.upheld_readable feasible.1
    obtain ⟨last, next, ends⟩ := ih housed' lasting' feasible.2
    refine ⟨last, Nat.le_trans releases.loans next, fun e old => ?_⟩
    show e ∈ ((m.next s).after moves).loans.outstanding ↔ _
    rw [ends e (Nat.lt_of_lt_of_le old releases.loans), releases.ends e old]
    constructor
    · rintro ⟨⟨mem, _⟩, holds⟩
      refine ⟨mem, fun earlier h => ?_⟩
      rcases List.prefix_cons_iff.1 h with rfl | ⟨rest, rfl, inside⟩
      · exact housed.housed e mem
      · exact holds rest inside
    · rintro ⟨mem, holds⟩
      exact ⟨⟨mem, holds [m] (List.prefix_cons_iff.2 (.inr ⟨[], rfl, List.nil_prefix⟩))⟩,
        fun rest h => holds (m :: rest) (List.prefix_cons_iff.2 (.inr ⟨rest, rfl, h⟩))⟩

end State

/-! ## Issued references -/

namespace Operation

variable {s t : State} {o : Operation} {r : Reference}

/-- **A reference that a call gives** is a new loan of its target to the
innermost frame. -/
theorem acquired_of_returns (issued : Returns o.perform s (.reference r) t) :
    ∃ loans, s.MayLend r.target ∧ s.loans.acquire r.target s.borrower = some (r.id, loans)
      ∧ t = { s with loans := loans } := by
  cases asked : o.isBorrow with
  | true =>
    obtain ⟨action, same, lends⟩ := lends_of_isBorrow asked
    rw [same] at issued
    rcases lends.reply s with ⟨failure, returned⟩ | ⟨r', loans, may, acquired, returned⟩
    · cases (issued.unique returned).1
    · obtain ⟨same, rfl⟩ := issued.unique returned
      obtain rfl := Reply.reference.inj same
      exact ⟨loans, may, acquired, rfl⟩
  | false =>
    -- no other call replies with a reference
    cases o with
    | borrow | borrowStored | borrowLocal => cases asked
    | _ =>
      obtain ⟨_, _, -, replied⟩ := returns_bind.1 issued
      cases (returns_pure.1 replied).1

end Operation

/-- **A reference is live as long as its frame can hold it.** -/
theorem State.Housed.isLive_after {s t : State} {o : Operation} {r : Reference} {moves : List Move}
    (housed : s.Housed) (issued : Returns o.perform s (.reference r) t)
    (lasting : t.Lasting Store.Readable) (feasible : t.Along (fun s m => m.Feasible s) moves) :
    (t.after moves).loans.isLive r = true
      ↔ ∀ earlier, earlier <+: moves → (t.after earlier).Houses s.borrower := by
  obtain ⟨loans, may, acquired, rfl⟩ := Operation.acquired_of_returns issued
  obtain ⟨housed', -⟩ := tends_acquire may acquired housed
  obtain ⟨absent, id, rfl⟩ := Loans.acquire_eq_some acquired
  obtain ⟨last, -, ends⟩ := housed'.after lasting feasible
  have old : r.id.number < s.loans.next + 1 := by rw [id]; exact Nat.lt_succ_self _
  rw [Loans.isLive_iff last.distinct]
  constructor
  · rintro ⟨frame, mem⟩
    obtain ⟨mem, holds⟩ := (ends _ old).1 mem
    -- the number of the reference was new, so its loan is the one just made
    rcases (Table.mem_put_iff absent).1 mem with same | before
    · obtain rfl : frame = s.borrower := (Loan.mk.inj (Prod.mk.inj same).2).2
      exact holds
    · have := housed.numbered _ before
      rw [id] at this
      exact absurd this (Nat.lt_irrefl _)
  · intro holds
    refine ⟨s.borrower, (ends _ old).2 ⟨(Table.mem_put_iff absent).2 (.inl ?_), holds⟩⟩
    rw [id]

/-- **A reference lives as long as its frame.** Take any run from stored state,
and a reference that a call in it gave. It is live after further moves exactly
if a transaction was running all along and the frame to which it was issued,
the innermost one or else the transaction, was not closed. No later reference
has its identity, no other reference onto its target is live with it, and when
it is live it always was. -/
theorem reference_tenure {store : Store} {settings : Settings} {registry : Registry}
    {before moves : List Move} {o : Operation} {r : Reference} {s t : State}
    (readable : store.Readable)
    (feasible : (State.ofStore store settings registry).Along (fun s m => m.Feasible s)
      (before ++ .call o :: moves))
    (reached : s = (State.ofStore store settings registry).after before)
    (issued : Returns o.perform s (.reference r) t) :
    ((t.after moves).loans.isLive r = true
        ↔ ∀ earlier, earlier <+: moves → (t.after earlier).Houses s.borrower)
      ∧ (∀ o' r' t', Returns (Operation.perform o') (t.after moves) (.reference r') t' →
        r'.id ≠ r.id)
      ∧ (∀ r' : Reference, r'.target = r.target → r'.id ≠ r.id →
        ¬((t.after moves).loans.isLive r = true ∧ (t.after moves).loans.isLive r' = true))
      ∧ ∀ earlier, earlier <+: moves → (t.after moves).loans.isLive r = true →
        (t.after earlier).loans.isLive r = true := by
  obtain ⟨first, feasible, rest⟩ := State.along_append.1 feasible
  obtain rfl : (Move.call o).next s = t := Move.next_of_returns (m := .call o) issued
  rw [← reached] at feasible rest
  have start := State.Lasting.ofStore readable settings registry
  have housed : s.Housed := by
    obtain ⟨housed, -, -⟩ := (State.Housed.ofStore store settings registry).after start first
    exact reached ▸ housed
  have lasting : s.Lasting Store.Readable := reached ▸ start.after Store.upheld_readable first
  have lasting' := lasting.next Store.upheld_readable feasible
  have tenure := housed.isLive_after issued lasting' rest
  refine ⟨tenure, fun o' r' t' issued' => ?_, fun r' target ne ⟨live, live'⟩ =>
    ne (Loans.eq_of_isLive live live' target), fun earlier inside live => ?_⟩
  · -- the numbers of references only grow
    obtain ⟨loans, -, acquired, next⟩ := Operation.acquired_of_returns issued
    obtain ⟨loans', -, acquired', -⟩ := Operation.acquired_of_returns issued'
    obtain ⟨-, id, rfl⟩ := Loans.acquire_eq_some acquired
    obtain ⟨-, id', -⟩ := Loans.acquire_eq_some acquired'
    obtain ⟨-, grown, -⟩ := (housed.next lasting (m := .call o)).1.after lasting' rest
    intro same
    rw [id, id'] at same
    have := RefId.mk.inj same
    rw [next] at grown this
    exact absurd grown (by rw [this]; exact Nat.not_succ_le_self _)
  · obtain ⟨later, rfl⟩ := inside
    refine (housed.isLive_after issued lasting' (State.along_append.1 rest).1).2 fun p hp => ?_
    exact tenure.1 live p (hp.trans (List.prefix_append _ _))

namespace Scenario

/-- The coin as a borrower sees it. -/
def coinView : RefTy := ⟨false, .composite "Coin"⟩

/-- Alice saves a coin and opens a frame. -/
def framed : List Move :=
  [.call (.start [alice]), .call makeCoin, .call (.save alice spendingPath keptCoin.toValue),
    .call .pushFrame]

/-- She borrows the coin in the frame. -/
def peek : Operation := .borrowStored alice spendingPath coinView

/-- The reference she gets. -/
def peeked : Reference := ⟨⟨1⟩, .stored alice spendingPath, some ⟨1⟩, coinView, ⟨1⟩⟩

theorem feasible_framed {moves : List Move}
    (rest : ((State.fresh Settings.standard Scenario.registry).after framed).Along
      (fun s m => m.Feasible s) moves) :
    (State.fresh Settings.standard Scenario.registry).Along (fun s m => m.Feasible s)
      (framed ++ moves) := by
  have one {v w : Value} (h : v.Readable) (hw : w ∈ [v]) : w.Readable :=
    List.mem_singleton.1 hw ▸ h
  have kept : keptCoin.toValue.Readable := (regular_coin (by decide) (by decide)).readable
  exact State.along_append.2 ⟨⟨writable_fresh,
    ⟨fun _ => one (regular_uint (by decide)).readable, fun _ h => nomatch h⟩,
    ⟨fun _ => one kept, fun _ h => nomatch h⟩, ⟨fun _ h => (nomatch h), fun _ h => nomatch h⟩,
    trivial⟩, rest⟩

end Scenario

/-- Another frame inside the one the reference belongs to does not matter; both
close, and the reference ends. -/
theorem reference_tenure_peek :
    let t := (Move.call Scenario.peek).next
      ((State.fresh Settings.standard Scenario.registry).after Scenario.framed)
    (t.after [.call .pushFrame]).loans.isLive Scenario.peeked = true
      ∧ (t.after [.call .pushFrame, .unwind ⟨1⟩]).loans.isLive Scenario.peeked = false
      ∧ ((t.after [.call .pushFrame, .unwind ⟨1⟩]).loans.isLive Scenario.peeked = true
        ↔ ∀ earlier, earlier <+: [.call .pushFrame, .unwind ⟨1⟩] →
          (t.after earlier).Houses ⟨1⟩) :=
  ⟨rfl, rfl, (@reference_tenure Store.empty Settings.standard Scenario.registry Scenario.framed
    [.call .pushFrame, .unwind ⟨1⟩] Scenario.peek Scenario.peeked _ _ (fun _ mem => nomatch mem)
    (Scenario.feasible_framed ⟨⟨fun _ h => (nomatch h), fun _ h => nomatch h⟩,
      ⟨fun _ h => (nomatch h), fun _ h => nomatch h⟩, trivial, trivial⟩) rfl rfl).1⟩

end Custody
