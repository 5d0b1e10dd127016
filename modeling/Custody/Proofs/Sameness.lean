import Custody.Proofs.Layout

/-!
# What equal contents share

The fields of a composite have names, and whether two composites are the same
does not depend on the order in which they were given. Their bytes do. Of two
stores with the same contents, a root can therefore tell more than the
contents: it tells in which order the fields were given.

It tells nothing else. Accounts, domains, paths and keys have one order, and
no trace is left of what was removed; so two stores with the same contents
have the same bytes, and the same root, **exactly if the fields of what they
store are arranged in the same way** (`bytes_of_same`).
-/

namespace Custody

/-! ## Lists that agree -/

/-- A test of all pairs of two lists of one length. -/
theorem zip_all_iff {α β γ : Type} (f : α → γ) (test : γ → β → Bool) {l : List α} {l' : List β} :
    ((l.map f).length = l'.length && ((l.map f).zip l').all fun p => test p.1 p.2) = true
      ↔ List.Forall₂ (fun a b => test (f a) b = true) l l' := by
  induction l generalizing l' with
  | nil => cases l' <;> simp
  | cons a l ih =>
    cases l' with
    | nil => simp
    | cons b l' =>
      rw [List.forall₂_cons, ← ih]
      simp [and_left_comm]

/-- Lists are equal when their members are, one by one. -/
theorem eq_of_forall₂ {α : Type} {R : α → α → Prop} {l l' : List α}
    (related : List.Forall₂ R l l') (step : ∀ a ∈ l, ∀ b ∈ l', R a b → a = b) : l = l' := by
  induction related with
  | nil => rfl
  | cons here _ ih =>
    rw [step _ List.mem_cons_self _ List.mem_cons_self here,
      ih fun a ha b hb => step a (List.mem_cons_of_mem _ ha) b (List.mem_cons_of_mem _ hb)]

/-- The images of related members are equal, one by one, if the lists of the
images are. -/
theorem forall₂_and_map {α β : Type} {R : α → α → Prop} {f : α → β} {l l' : List α}
    (related : List.Forall₂ R l l') (image : l.map f = l'.map f) :
    List.Forall₂ (fun a b => R a b ∧ f a = f b) l l' := by
  induction related with
  | nil => exact .nil
  | cons here _ ih =>
    obtain ⟨first, rest⟩ := List.cons.inj image
    exact .cons ⟨here, first⟩ (ih rest)

/-- Entries that are found by their keys stand side by side, if the keys are
the same and distinct. -/
theorem Table.forall₂_of_keys {κ α β : Type} [DecidableEq κ] {R : α → β → Prop} {t : Table κ α}
    {t' : Table κ β} (names : keys t = keys t') (distinct : (keys t).Nodup)
    (found : ∀ e ∈ t, ∃ b, get? t' e.1 = some b ∧ R e.2 b) :
    List.Forall₂ (fun e e' => e.1 = e'.1 ∧ R e.2 e'.2) t t' := by
  induction t generalizing t' with
  | nil =>
    obtain rfl := List.map_eq_nil_iff.1 names.symm
    exact .nil
  | cons e t ih =>
    obtain _ | ⟨⟨name, b⟩, t'⟩ := t'
    · cases names
    obtain ⟨here, others⟩ := List.cons.inj names
    obtain ⟨apart, distinct⟩ := List.nodup_cons.1 distinct
    refine .cons ⟨here, ?_⟩ (ih others distinct fun e' mem => ?_)
    · obtain ⟨b', there, related⟩ := found e List.mem_cons_self
      rw [get?_cons, if_pos here] at there
      exact Option.some.inj there ▸ related
    · obtain ⟨b', there, related⟩ := found e' (List.mem_cons_of_mem _ mem)
      have other : e'.1 ≠ name := fun same =>
        apart (here ▸ same ▸ List.mem_map_of_mem mem)
      rw [get?_cons, if_neg other] at there
      exact ⟨b', there, related⟩

/-! ## Values -/

/-- **How the fields of a value are arranged**, at every depth: in a
composite the names of its fields in their order, and everywhere how the parts
are arranged. -/
inductive Arrangement where
  | node (names : List String) (parts : List Arrangement)

namespace Value

/-- The reading behind `arrangement`. -/
def arrangementReading : Reading Arrangement where
  scalar _ := .node [] []
  array parts := .node [] parts
  dict entries := .node [] (entries.map Prod.snd)
  struct _ fields := .node (fields.map Prod.fst) (fields.map Prod.snd)
  resource _ fields :=
    .node (fields.map Prod.fst) (fields.map fun f => f.2.getD (.node [] []))

/-- The arrangement of the fields of a value. -/
def arrangement : Value → Arrangement := fold arrangementReading

variable {elements : List Value} {entries : List (Key × Value)} {typeName : String}
  {fields : List (String × Value)} {slots : List (String × Option Value)} {id : ResourceId}
  {v w : Value}

/-- The arrangement of an array is that of its elements. -/
theorem arrangement_array :
    (Value.array elements).arrangement = .node [] (elements.map arrangement) :=
  fold_array _ _

/-- The arrangement of a dictionary is that of its values, whatever the keys. -/
theorem arrangement_dict :
    (Value.dict entries).arrangement = .node [] (entries.map fun e => e.2.arrangement) := by
  refine (fold_dict _ _).trans (congrArg (Arrangement.node []) ?_)
  exact List.map_map

/-- The arrangement of a struct names its fields in their order. -/
theorem arrangement_struct : (Value.struct typeName fields).arrangement
    = .node (fields.map Prod.fst) (fields.map fun f => f.2.arrangement) := by
  refine (fold_struct _ _ _).trans (congrArg₂ Arrangement.node ?_ ?_) <;> exact List.map_map

/-- The arrangement of a resource names its slots in their order, and an empty
slot is bare. -/
theorem arrangement_resource : (Value.resource id typeName slots).arrangement
    = .node (slots.map Prod.fst)
      (slots.map fun f => (f.2.map arrangement).getD (.node [] [])) := by
  refine (fold_resource _ _ _ _).trans (congrArg₂ Arrangement.node ?_ ?_) <;> exact List.map_map

/-! ### Sameness, one level at a time -/

/-- Scalars that are the same are equal. -/
theorem eq_of_sameScalar (h : sameScalar v w = true) : v = w := by
  unfold sameScalar at h
  split at h
  · rfl
  all_goals first
    | exact congrArg _ (of_decide_eq_true h)
    | cases h

/-- Only an array is the same as an array, and then element by element. -/
theorem same_array (h : (Value.array elements).same w = true) :
    ∃ others, w = .array others ∧ List.Forall₂ (fun a b => a.same b = true) elements others := by
  unfold same at h
  rw [fold_array] at h
  cases w with
  | array others => exact ⟨others, rfl, (zip_all_iff same fun test b => test b).1 h⟩
  | _ => cases h

/-- Only a dictionary is the same as a dictionary, and then entry by entry, in
order. -/
theorem same_dict (h : (Value.dict entries).same w = true) :
    ∃ others, w = .dict others
      ∧ List.Forall₂ (fun e e' => e.1 = e'.1 ∧ e.2.same e'.2 = true) entries others := by
  unfold same at h
  rw [fold_dict] at h
  cases w with
  | dict others =>
    have agree := (zip_all_iff (fun e : Key × Value => (e.1, e.2.same))
      fun test (e : Key × Value) => test.1 = e.1 && test.2 e.2).1 h
    exact ⟨others, rfl, agree.imp fun _ _ h => by simpa using h⟩
  | _ => cases h

/-- Only a struct of that type is the same as a struct, and then field by field,
in any order. -/
theorem same_struct (h : (Value.struct typeName fields).same w = true) :
    ∃ others, w = .struct typeName others
      ∧ ∀ f ∈ fields, ∃ b, Table.get? others f.1 = some b ∧ f.2.same b = true := by
  unfold same at h
  rw [fold_struct] at h
  cases w with
  | struct otherName others =>
    obtain ⟨header, found⟩ := Bool.and_eq_true_iff.1 h
    obtain rfl : typeName = otherName := of_decide_eq_true (Bool.and_eq_true_iff.1 header).1
    refine ⟨others, rfl, fun f hf => ?_⟩
    have here := List.all_eq_true.1 found _ (List.mem_map_of_mem hf)
    exact (Option.any_eq_true _ _).1 here
  | _ => cases h

/-- Whether two slots are both empty or hold the same. -/
def sameSlot : Option Value → Option Value → Prop
  | none, none => True
  | some v, some w => v.same w = true
  | _, _ => False

/-- Only the resource itself is the same as a resource, and then slot by slot,
in any order. -/
theorem same_resource (h : (Value.resource id typeName slots).same w = true) :
    ∃ others, w = .resource id typeName others
      ∧ ∀ f ∈ slots, ∃ b, Table.get? others f.1 = some b ∧ sameSlot f.2 b := by
  unfold same at h
  rw [fold_resource] at h
  cases w with
  | resource otherId otherName others =>
    obtain ⟨header, found⟩ := Bool.and_eq_true_iff.1 h
    obtain ⟨names, -⟩ := Bool.and_eq_true_iff.1 header
    obtain ⟨sameId, sameName⟩ := Bool.and_eq_true_iff.1 names
    obtain rfl : id = otherId := of_decide_eq_true sameId
    obtain rfl : typeName = otherName := of_decide_eq_true sameName
    refine ⟨others, rfl, fun f hf => ?_⟩
    have here := List.all_eq_true.1 found _ (List.mem_map_of_mem hf)
    obtain ⟨name, slot⟩ := f
    cases slot with
    | none =>
      cases there : Table.get? others name with
      | none => simp [there] at here
      | some b =>
        cases b with
        | none => exact ⟨none, rfl, trivial⟩
        | some w => simp [there] at here
    | some v =>
      cases there : Table.get? others name with
      | none => simp [there] at here
      | some b =>
        cases b with
        | none => simp [there] at here
        | some w => exact ⟨some w, rfl, by simpa [there, sameSlot, same] using here⟩
  | _ => cases h

/-- **Readable values that are the same, and arranged in the same way, are
equal.** -/
theorem eq_of_same (readable : v.Readable) (same : v.same w = true)
    (arranged : v.arrangement = w.arrangement) : v = w := by
  induction v using Value.induction generalizing w with
  | step v ih =>
  -- a part is readable like the whole
  have part (a : Value) (mem : a ∈ v.parts) (b : Value) (same : a.same b = true)
      (arranged : a.arrangement = b.arrangement) : a = b :=
    ih a mem (readable.inside a mem) same arranged
  cases v with
  | array elements =>
    obtain ⟨others, rfl, agree⟩ := same_array same
    rw [arrangement_array, arrangement_array] at arranged
    refine congrArg array (eq_of_forall₂
      (forall₂_and_map agree (Arrangement.node.inj arranged).2) ?_)
    exact fun a ha b _ both => part a ha b both.1 both.2
  | dict entries =>
    obtain ⟨others, rfl, agree⟩ := same_dict same
    rw [arrangement_dict, arrangement_dict] at arranged
    refine congrArg dict (eq_of_forall₂
      (forall₂_and_map agree (Arrangement.node.inj arranged).2) ?_)
    rintro e he e' - ⟨⟨keys, both⟩, inside⟩
    exact Prod.ext keys (part e.2 (List.mem_map_of_mem he) e'.2 both inside)
  | struct typeName fields =>
    obtain ⟨others, rfl, found⟩ := same_struct same
    rw [arrangement_struct, arrangement_struct] at arranged
    obtain ⟨names, inside⟩ := Arrangement.node.inj arranged
    have beside := Table.forall₂_of_keys (R := fun a b => a.same b = true) names readable.here found
    refine congrArg (struct typeName) (eq_of_forall₂ (forall₂_and_map beside inside) ?_)
    rintro f hf f' - ⟨⟨name, both⟩, inside⟩
    exact Prod.ext name (part f.2 (List.mem_map_of_mem hf) f'.2 both inside)
  | resource id typeName slots =>
    obtain ⟨others, rfl, found⟩ := same_resource same
    rw [arrangement_resource, arrangement_resource] at arranged
    obtain ⟨names, inside⟩ := Arrangement.node.inj arranged
    have beside := Table.forall₂_of_keys names readable.here.2 found
    refine congrArg (resource id typeName) (eq_of_forall₂ (forall₂_and_map beside inside) ?_)
    rintro ⟨name, slot⟩ hf ⟨_, slot'⟩ - ⟨⟨rfl, both⟩, inside⟩
    refine congrArg (Prod.mk name) ?_
    match slot, slot', both with
    | none, none, _ => rfl
    | some v, some w, both =>
      exact congrArg some (part v (List.mem_filterMap.2 ⟨_, hf, rfl⟩) w both inside)
  | _ => exact eq_of_sameScalar same

end Value

/-! ## Stores -/

/-- Whether two entries are the same. -/
def Entry.same : Entry → Entry → Bool
  | .value v, .value w => v.same w
  | .link l, .link l' => l = l'
  | _, _ => false

/-- Whether two maps have the same keys, and values that pass the test. -/
def SortedMap.same {κ α : Type} [Ord κ] [DecidableEq κ] (test : α → α → Bool)
    (m n : SortedMap κ α) : Bool :=
  m.entries.length = n.entries.length
    && (m.entries.zip n.entries).all fun p => p.1.1 = p.2.1 && test p.1.2 p.2.2

/-- **Whether two stores have the same contents**: the same accounts, domains
and paths, and at each path the same entry. -/
def Store.same (s t : Store) : Bool :=
  s.accounts.same (SortedMap.same (SortedMap.same Entry.same)) t.accounts

namespace SortedMap

variable {κ α : Type} [Ord κ] [Std.LawfulEqOrd κ] [Std.TransOrd κ] [DecidableEq κ]
  {test : α → α → Bool} {m n : SortedMap κ α}

/-- Maps that know the same keys have them in the same order. -/
theorem keys_eq (known : ∀ key, m.contains key = n.contains key) :
    Table.keys m.entries = Table.keys n.entries := by
  -- the set of the keys of a map
  have support (m : SortedMap κ α) : ∃ set : SortedSet κ, set.keys = Table.keys m.entries
      ∧ ∀ key, set.contains key = m.contains key := by
    have keys : Table.keys (m.entries.map fun e : κ × α => (e.1, ())) = Table.keys m.entries :=
      List.map_map
    have ascending : Table.Ascending (m.entries.map fun e : κ × α => (e.1, ())) :=
      List.Pairwise.map _ (fun _ _ less => less) m.ascending
    refine ⟨⟨_, ascending⟩, keys, fun key => ?_⟩
    show Table.contains _ key = Table.contains m.entries key
    rw [Bool.eq_iff_iff, Table.contains_iff_mem_keys, Table.contains_iff_mem_keys, keys]
  obtain ⟨set, keys, asked⟩ := support m
  obtain ⟨set', keys', asked'⟩ := support n
  have same : set = set' := ext fun key => by
    have here := (asked key).trans ((known key).trans (asked' key).symm)
    unfold contains at here
    cases left : set.get? key <;> cases right : set'.get? key <;> simp_all
  rw [← keys, ← keys', same]

/-- **Maps are the same** when each has an answer to what the other answers,
and the answers pass the test. -/
theorem same_iff : m.same test n = true
    ↔ (∀ key a, m.get? key = some a → ∃ b, n.get? key = some b ∧ test a b = true)
      ∧ ∀ key b, n.get? key = some b → ∃ a, m.get? key = some a ∧ test a b = true := by
  have beside : m.same test n = true ↔ List.Forall₂
      (fun e e' => (e.1 = e'.1 && test e.2 e'.2) = true) m.entries n.entries := by
    rw [← zip_all_iff (fun e : κ × α => e) fun e (e' : κ × α) => e.1 = e'.1 && test e.2 e'.2,
      List.map_id']
    rfl
  rw [beside]
  constructor
  · intro agree
    unfold get?
    generalize m.entries = t at agree ⊢
    generalize n.entries = t' at agree ⊢
    induction agree with
    | nil => exact ⟨fun _ _ none => (nomatch none), fun _ _ none => (nomatch none)⟩
    | @cons e e' t t' here _ ih =>
      obtain ⟨k, a⟩ := e
      obtain ⟨k', b⟩ := e'
      obtain ⟨same, tested⟩ := Bool.and_eq_true_iff.1 here
      obtain rfl : k = k' := of_decide_eq_true same
      simp only [Table.get?_cons]
      refine ⟨fun key a' found => ?_, fun key b' found => ?_⟩
      · split at found
        next first => exact ⟨b, if_pos first, Option.some.inj found ▸ tested⟩
        next later => simpa only [if_neg later] using ih.1 key a' found
      · split at found
        next first => exact ⟨a, if_pos first, Option.some.inj found ▸ tested⟩
        next later => simpa only [if_neg later] using ih.2 key b' found
  · rintro ⟨forth, back⟩
    have known (key : κ) : m.contains key = n.contains key := by
      rw [Bool.eq_iff_iff, contains, contains, Option.isSome_iff_exists, Option.isSome_iff_exists]
      constructor
      · rintro ⟨a, here⟩
        exact (forth key a here).imp fun _ => And.left
      · rintro ⟨b, there⟩
        exact (back key b there).imp fun _ => And.left
    have found : ∀ e ∈ m.entries, ∃ b, Table.get? n.entries e.1 = some b ∧ test e.2 b = true :=
      fun e he => forth e.1 e.2 (mem_entries_iff.1 he)
    have agree := Table.forall₂_of_keys (R := fun a b => test a b = true) (keys_eq known)
      m.ascending.nodup_keys found
    exact agree.imp fun _ _ both => Bool.and_eq_true_iff.2 ⟨decide_eq_true both.1, both.2⟩

/-- Maps that are the same are equal when entries that pass the test are. -/
theorem eq_of_same (same : m.same test n = true)
    (step : ∀ key a b, m.get? key = some a → n.get? key = some b → test a b = true → a = b) :
    m = n := by
  obtain ⟨forth, back⟩ := same_iff.1 same
  refine ext fun key => ?_
  cases here : m.get? key with
  | none =>
    refine (Option.eq_none_iff_forall_ne_some.2 fun b there => ?_).symm
    obtain ⟨a, here', -⟩ := back key b there
    rw [here] at here'
    cases here'
  | some a =>
    obtain ⟨b, there, tested⟩ := forth key a here
    rw [there, step key a b here there tested]

omit [Std.TransOrd κ] in
/-- A map that is not empty has an entry. -/
theorem exists_of_isEmpty_eq_false (filled : m.isEmpty = false) : ∃ key a, m.get? key = some a := by
  obtain ⟨entries, ascending⟩ := m
  obtain _ | ⟨e, t⟩ := entries
  · cases filled
  · exact ⟨e.1, e.2, mem_entries_iff.1 List.mem_cons_self⟩

end SortedMap

/-- **The stores agree path by path**: where one has an entry, the other has
the same. -/
structure Store.Agrees (s t : Store) : Prop where
  forth : ∀ address path e, s.get? address path = some e →
    ∃ e', t.get? address path = some e' ∧ e.same e' = true
  back : ∀ address path e', t.get? address path = some e' →
    ∃ e, s.get? address path = some e ∧ e.same e' = true

/-- **What both stores keep at one place is arranged in the same way.** -/
def Store.Arranged (s t : Store) : Prop :=
  ∀ address path v w, s.get? address path = some (.value v) →
    t.get? address path = some (.value w) → v.arrangement = w.arrangement

/-- Readable entries that are the same, and arranged in the same way, are equal.
-/
theorem Entry.eq_of_same {e e' : Entry} (readable : e.Readable) (same : e.same e' = true)
    (arranged : ∀ v w, e = .value v → e' = .value w → v.arrangement = w.arrangement) : e = e' := by
  match e, e', same with
  | .value v, .value w, same =>
    exact congrArg value (Value.eq_of_same readable same (arranged v w rfl rfl))
  | .link l, .link l', same => exact congrArg link (of_decide_eq_true same)

namespace Store

variable {s t : Store}

/-- **Readable stores with the same contents, arranged in the same way, are
equal.** -/
theorem eq_of_same (readable : s.Readable) (same : s.same t = true) (arranged : s.Arranged t) :
    s = t := by
  suffices s.accounts = t.accounts by
    cases s
    exact congrArg Store.mk this
  refine SortedMap.eq_of_same same fun address a a' ha ha' sameDomains => ?_
  refine SortedMap.eq_of_same sameDomains fun domain d d' hd hd' sameSlots => ?_
  refine SortedMap.eq_of_same sameSlots fun name e e' he he' sameEntry => ?_
  have here : s.get? address ⟨domain, name⟩ = some e := get?_eq_some_iff.2 ⟨a, ha, d, hd, he⟩
  have there : t.get? address ⟨domain, name⟩ = some e' :=
    get?_eq_some_iff.2 ⟨a', ha', d', hd', he'⟩
  refine Entry.eq_of_same (readable _ (mem_entries_iff.2 here)) sameEntry fun v w value value' => ?_
  exact arranged _ _ v w (value ▸ here) (value' ▸ there)

/-- Stores that are the same agree path by path. -/
theorem agrees_of_same (same : s.same t = true) : s.Agrees t := by
  obtain ⟨forth, back⟩ := SortedMap.same_iff.1 same
  refine ⟨fun address path e found => ?_, fun address path e found => ?_⟩
  · obtain ⟨a, ha, d, hd, he⟩ := get?_eq_some_iff.1 found
    obtain ⟨a', ha', sameDomains⟩ := forth address a ha
    obtain ⟨d', hd', sameSlots⟩ := (SortedMap.same_iff.1 sameDomains).1 _ d hd
    obtain ⟨e', he', sameEntry⟩ := (SortedMap.same_iff.1 sameSlots).1 _ e he
    exact ⟨e', get?_eq_some_iff.2 ⟨a', ha', d', hd', he'⟩, sameEntry⟩
  · obtain ⟨a, ha, d, hd, he⟩ := get?_eq_some_iff.1 found
    obtain ⟨a', ha', sameDomains⟩ := back address a ha
    obtain ⟨d', hd', sameSlots⟩ := (SortedMap.same_iff.1 sameDomains).2 _ d hd
    obtain ⟨e', he', sameEntry⟩ := (SortedMap.same_iff.1 sameSlots).2 _ e he
    exact ⟨e', get?_eq_some_iff.2 ⟨a', ha', d', hd', he'⟩, sameEntry⟩

variable {address : Address} {a : SortedMap Domain Slots} {domain : Domain} {d : Slots}

/-- An entry of an account is found through its domain. -/
theorem get?_of_account (ha : s.accounts.get? address = some a) {path : Path} {e : Entry} :
    s.get? address path = some e
      ↔ ∃ d, a.get? path.domain = some d ∧ d.get? path.identifier = some e := by
  rw [get?_eq_some_iff, ha]
  exact ⟨fun ⟨_, same, inside⟩ => Option.some.inj same ▸ inside, fun inside => ⟨a, rfl, inside⟩⟩

/-- An entry of a domain is found there. -/
theorem get?_of_domain (ha : s.accounts.get? address = some a) (hd : a.get? domain = some d)
    {name : String} : s.get? address ⟨domain, name⟩ = d.get? name := by
  refine Option.ext fun e => ?_
  rw [get?_of_account ha, hd]
  exact ⟨fun ⟨_, same, inside⟩ => Option.some.inj same ▸ inside, fun inside => ⟨d, rfl, inside⟩⟩

namespace Tidy

/-- In the layout a domain is there for the sake of an entry, -/
theorem exists_entry_of_domain (tidy : s.Tidy) (ha : s.accounts.get? address = some a)
    (hd : a.get? domain = some d) : ∃ name e, s.get? address ⟨domain, name⟩ = some e := by
  obtain ⟨name, e, he⟩ := SortedMap.exists_of_isEmpty_eq_false (tidy.domains _ _ _ _ ha hd)
  exact ⟨name, e, (get?_of_domain ha hd).trans he⟩

/-- and so is an account. -/
theorem exists_entry_of_account (tidy : s.Tidy) (ha : s.accounts.get? address = some a) :
    ∃ path e, s.get? address path = some e := by
  obtain ⟨domain, d, hd⟩ := SortedMap.exists_of_isEmpty_eq_false (tidy.accounts _ _ ha)
  obtain ⟨name, e, found⟩ := tidy.exists_entry_of_domain ha hd
  exact ⟨⟨domain, name⟩, e, found⟩

/-- **In the layout, stores are the same when they agree path by path.** -/
theorem same_iff (tidy : s.Tidy) (tidy' : t.Tidy) : s.same t = true ↔ s.Agrees t := by
  refine ⟨agrees_of_same, fun agrees => ?_⟩
  have sameSlots {address : Address} {domain : Domain} {a a' : SortedMap Domain Slots}
      {d d' : Slots} (ha : s.accounts.get? address = some a)
      (ha' : t.accounts.get? address = some a') (hd : a.get? domain = some d)
      (hd' : a'.get? domain = some d') : d.same Entry.same d' = true := by
    refine SortedMap.same_iff.2 ⟨fun name e he => ?_, fun name e he => ?_⟩
    · rw [← get?_of_domain ha' hd']
      exact agrees.forth _ _ e ((get?_of_domain ha hd).trans he)
    · rw [← get?_of_domain ha hd]
      exact agrees.back _ _ e ((get?_of_domain ha' hd').trans he)
  have sameDomains {address : Address} {a a' : SortedMap Domain Slots}
      (ha : s.accounts.get? address = some a) (ha' : t.accounts.get? address = some a') :
      a.same (SortedMap.same Entry.same) a' = true := by
    refine SortedMap.same_iff.2 ⟨fun domain d hd => ?_, fun domain d' hd' => ?_⟩
    · obtain ⟨name, e, found⟩ := tidy.exists_entry_of_domain ha hd
      obtain ⟨e', found', -⟩ := agrees.forth _ _ _ found
      obtain ⟨d', hd', -⟩ := (get?_of_account ha').1 found'
      exact ⟨d', hd', sameSlots ha ha' hd hd'⟩
    · obtain ⟨name, e, found⟩ := tidy'.exists_entry_of_domain ha' hd'
      obtain ⟨e', found', -⟩ := agrees.back _ _ _ found
      obtain ⟨d, hd, -⟩ := (get?_of_account ha).1 found'
      exact ⟨d, hd, sameSlots ha ha' hd hd'⟩
  refine SortedMap.same_iff.2 ⟨fun address a ha => ?_, fun address a' ha' => ?_⟩
  · obtain ⟨path, e, found⟩ := tidy.exists_entry_of_account ha
    obtain ⟨e', found', -⟩ := agrees.forth _ _ _ found
    obtain ⟨a', ha', -⟩ := get?_eq_some_iff.1 found'
    exact ⟨a', ha', sameDomains ha ha'⟩
  · obtain ⟨path, e, found⟩ := tidy'.exists_entry_of_account ha'
    obtain ⟨e', found', -⟩ := agrees.back _ _ _ found
    obtain ⟨a, ha, -⟩ := get?_eq_some_iff.1 found'
    exact ⟨a, ha, sameDomains ha ha'⟩

end Tidy

/-- A store is arranged like itself. -/
theorem arranged_self (s : Store) : s.Arranged s := by
  intro address path v w here there
  rw [here] at there
  obtain rfl := Entry.value.inj (Option.some.inj there)
  rfl

/-- **Stores with the same contents have the same bytes exactly if they are
arranged in the same way.** -/
theorem toBytes_eq_iff {bs cs : Bytes} (readable : s.Readable) (readable' : t.Readable)
    (same : s.same t = true) (written : s.toBytes = .ok bs) (whole : bs.Addressable)
    (written' : t.toBytes = .ok cs) : bs = cs ↔ s.Arranged t := by
  constructor
  · rintro rfl
    have read := readable.ofBytes_toBytes written whole
    rw [readable'.ofBytes_toBytes written' whole] at read
    obtain rfl := Except.ok.inj read
    exact arranged_self t
  · intro arranged
    obtain rfl := eq_of_same readable same arranged
    exact Except.ok.inj (written.symm.trans written')

end Store

/-! ## What is reached from a fresh custodian -/

/-- **The root tells the contents, and how they are arranged.** Two stores
that are reached from fresh custodians have the same contents exactly if they
agree path by path, whatever else was stored on the way. If they do, they have
the same bytes, and hence the same root, exactly if the fields of all that they
keep are arranged in the same way. -/
theorem bytes_eq_iff_arranged {settings settings' : Settings} {registry registry' : Registry}
    {moves moves' : List Move} {s t : Store}
    (feasible : (State.fresh settings registry).Along (fun s m => m.Feasible s) moves)
    (feasible' : (State.fresh settings' registry').Along (fun s m => m.Feasible s) moves')
    (reached : s = ((State.fresh settings registry).after moves).store)
    (reached' : t = ((State.fresh settings' registry').after moves').store)
    (writable : s.Writable) :
    (s.same t = true ↔ s.Agrees t)
      ∧ (s.same t = true → ∃ bs cs, s.toBytes = .ok bs ∧ t.toBytes = .ok cs
        ∧ (bs = cs ↔ s.Arranged t) ∧ (s.Arranged t → s.root = t.root)) := by
  have lasting : s.Durable := reached ▸ ((State.Lasting.ofStore Store.Durable.empty settings
    registry).after Store.upheld_durable feasible).here
  have lasting' : t.Durable := reached' ▸ ((State.Lasting.ofStore Store.Durable.empty settings'
    registry').after Store.upheld_durable feasible').here
  refine ⟨lasting.tidy.same_iff lasting'.tidy, fun same => ?_⟩
  obtain ⟨bs, written⟩ := lasting.tidy.storable.exists_toBytes
  obtain ⟨cs, written'⟩ := lasting'.tidy.storable.exists_toBytes
  refine ⟨bs, cs, written, written', Store.toBytes_eq_iff lasting.readable lasting'.readable same
    written (writable bs written) written', fun arranged => ?_⟩
  exact congrArg Store.root (Store.eq_of_same lasting.readable same arranged)

namespace Scenario

/-- A type of copyable points. -/
def plane : Registry :=
  Registry.empty.declareComposite "Point" ⟨.struct, [], SortedSet.ofList ["x", "y"]⟩

/-- Where Alice keeps a point. -/
def pointPath : Path := ⟨.storage, "point"⟩

/-- Alice makes a point of these fields, saves it and commits. -/
def plot (fields : List (String × Value)) : List Move :=
  [.call (.createStruct "Point" fields), .call (.save alice pointPath (.struct "Point" fields)),
    .call .commit]

/-- Alice plots a point. -/
def plotting : List Move := .call (.start [alice]) :: plot [("x", .uint 3), ("y", .uint 4)]

/-- She takes it out and plots it anew, with the other field first. -/
def replotting : List Move :=
  .call (.start [alice]) :: .call (.load alice pointPath (.composite "Point"))
    :: plot [("y", .uint 4), ("x", .uint 3)]

/-- The store with the point. -/
def plotted : Store := ((State.fresh Settings.standard plane).after plotting).store

/-- The store with the point made anew. -/
def replotted : Store :=
  ((State.fresh Settings.standard plane).after (plotting ++ replotting)).store

/-- Plotting readable fields of distinct names is feasible. -/
theorem feasible_plot {s : State} {fields : List (String × Value)}
    (distinct : (fields.map Prod.fst).Nodup) (readable : ∀ f ∈ fields, f.2.Readable) :
    s.Along (fun s m => m.Feasible s) (plot fields) := by
  refine ⟨⟨fun v hv => ?_, fun _ h => nomatch h⟩, ⟨fun v hv => ?_, fun _ h => nomatch h⟩,
    ⟨fun _ h => (nomatch h), fun _ h => nomatch h⟩, trivial⟩
  · obtain ⟨f, hf, rfl⟩ := List.mem_map.1 hv
    exact readable f hf
  · exact List.mem_singleton.1 hv ▸ Value.Everywhere.struct_iff.2 ⟨distinct, readable⟩

/-- The coordinates of a point can be read back from their bytes. -/
theorem readable_point {i j : String} {n m : Nat} (hn : n < UInt64.size) (hm : m < UInt64.size) :
    ∀ f ∈ [(i, Value.uint n), (j, .uint m)], f.2.Readable := by
  intro f hf
  rcases List.mem_cons.1 hf with rfl | hf
  · exact (regular_uint hn).readable
  · exact List.mem_singleton.1 hf ▸ (regular_uint hm).readable

/-- Plotting the point is feasible. -/
theorem feasible_plotting :
    (State.fresh Settings.standard plane).Along (fun s m => m.Feasible s) plotting :=
  ⟨writable_fresh, feasible_plot (by decide) (readable_point (by decide) (by decide))⟩

/-- The bytes of the store with the point can be addressed. -/
theorem writable_plotted : plotted.Writable :=
  Store.writable_of_length (n := 120) rfl (by decide)

/-- Taking the point out and plotting it anew is feasible. -/
theorem feasible_replotting : (State.fresh Settings.standard plane).Along
    (fun s m => m.Feasible s) (plotting ++ replotting) := by
  refine State.along_append.2 ⟨feasible_plotting, writable_plotted,
    ⟨fun _ h => (nomatch h), fun _ h => nomatch h⟩, feasible_plot (by decide) ?_⟩
  exact readable_point (by decide) (by decide)

end Scenario

/-- **The same contents, another root**: the point was made anew with its
fields the other way round. -/
theorem root_of_replotted :
    ((State.fresh Settings.standard Scenario.plane).Along (fun s m => m.Feasible s)
        Scenario.plotting
      ∧ (State.fresh Settings.standard Scenario.plane).Along (fun s m => m.Feasible s)
        (Scenario.plotting ++ Scenario.replotting))
      ∧ Scenario.plotted.same Scenario.replotted = true
      ∧ Scenario.plotted.toBytes ≠ Scenario.replotted.toBytes
      ∧ Scenario.plotted.root ≠ Scenario.replotted.root :=
  ⟨⟨Scenario.feasible_plotting, Scenario.feasible_replotting⟩, rfl, by decide, by decide +kernel⟩

/-- The two stores agree path by path, and yet are not arranged in the same way.
-/
theorem bytes_eq_iff_arranged_replotted :
    Scenario.plotted.same Scenario.replotted = true
      ∧ Scenario.plotted.Agrees Scenario.replotted
      ∧ ¬Scenario.plotted.Arranged Scenario.replotted := by
  have same : Scenario.plotted.same Scenario.replotted = true := rfl
  obtain ⟨agree, told⟩ := bytes_eq_iff_arranged Scenario.feasible_plotting
    Scenario.feasible_replotting rfl rfl Scenario.writable_plotted
  obtain ⟨bs, cs, written, written', arranged, -⟩ := told same
  have differ : Scenario.plotted.toBytes ≠ Scenario.replotted.toBytes := by decide
  refine ⟨same, agree.1 same, fun h => differ ?_⟩
  exact written.trans ((congrArg Except.ok (arranged.2 h)).trans written'.symm)

end Custody
