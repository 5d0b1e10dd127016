import Custody.Address
import Custody.Path
import Mathlib.Data.List.Forall2
import Mathlib.Data.Nat.Digits.Defs

/-!
# The written forms of addresses and paths

An address may be written in many ways: a marker and a sign may stand in front
or not, the digits are of either case and as many as one likes. What counts is
the number (`Address.Numeral`), which has to fit into 64 bits. A path is
written in one way only, and what may stand for its last part is an
identifier (`Identifier.Proper`).

The readers take a text apart from the front, so each has to be right about
where a part ends. A marker ends where it does because no digit is an `x`, a
sign because none is a plus, and the name of a domain because it has no slash
(`Path.split?_eq_some_iff`). Digits are read from the first to the last; that
the result is the number they stand for is an induction with the number of
those already read.

What is printed is read back, so an address is known by its written form. A
path is, too, even where its identifier is none and it cannot be read.
-/

namespace Custody

/-! ## Digits -/

namespace Hex

variable {c : Char} {cs : List Char} {d n value width : Nat}

/-- **The character denotes the number**: it has that place among the sixteen
digits, in lower or in upper case. -/
def Denotes (c : Char) (d : Nat) : Prop :=
  "0123456789abcdef".toList[d]? = some c ∨ "0123456789ABCDEF".toList[d]? = some c

instance : Decidable (Denotes c d) := inferInstanceAs (Decidable (_ ∨ _))

/-- A digit is read as the number it denotes. -/
theorem ofDigit?_of_denotes (h : Denotes c d) : ofDigit? c = some d := by
  have lower : ∀ e ∈ "0123456789abcdef".toList.zipIdx, ofDigit? e.1 = some e.2 := by decide
  have upper : ∀ e ∈ "0123456789ABCDEF".toList.zipIdx, ofDigit? e.1 = some e.2 := by decide
  rcases h with h | h
  · exact lower _ (List.mk_mem_zipIdx_iff_getElem?.2 h)
  · exact upper _ (List.mk_mem_zipIdx_iff_getElem?.2 h)

/-- Only what denotes a number is read as a digit. -/
theorem denotes_of_ofDigit? (h : ofDigit? c = some d) : Denotes c d := by
  have range {low high : Char} (between : low ≤ c ∧ c ≤ high) :
      low.toNat ≤ c.toNat ∧ c.toNat ≤ high.toNat :=
    ⟨UInt32.le_iff_toNat_le.1 between.1, UInt32.le_iff_toNat_le.1 between.2⟩
  have arabic : ∀ n < 58, 48 ≤ n → Denotes (Char.ofNat n) (n - 48) := by decide
  have lower : ∀ n < 103, 97 ≤ n → Denotes (Char.ofNat n) (n - 97 + 10) := by decide
  have upper : ∀ n < 71, 65 ≤ n → Denotes (Char.ofNat n) (n - 65 + 10) := by decide
  rw [← Char.ofNat_toNat c]
  unfold ofDigit? at h
  split at h
  next between =>
    obtain rfl := Option.some.inj h
    exact arabic _ (Nat.lt_succ_of_le (range between).2) (range between).1
  split at h
  next between =>
    obtain rfl := Option.some.inj h
    exact lower _ (Nat.lt_succ_of_le (range between).2) (range between).1
  split at h
  next between =>
    obtain rfl := Option.some.inj h
    exact upper _ (Nat.lt_succ_of_le (range between).2) (range between).1
  · cases h

/-- **A digit is read** as the number it denotes, and nothing else is. -/
theorem ofDigit?_eq_some_iff : ofDigit? c = some d ↔ Denotes c d :=
  ⟨denotes_of_ofDigit?, ofDigit?_of_denotes⟩

/-- Digits read after others stand for the number of all of them. -/
theorem readFrom?_eq_some_iff :
    readFrom? value cs = some n
      ↔ ∃ digits, List.Forall₂ Denotes cs digits
        ∧ n = value * 16 ^ cs.length + Nat.ofDigits 16 digits.reverse := by
  induction cs generalizing value with
  | nil => simp [readFrom?, eq_comm]
  | cons c cs ih =>
    have shift (d : Nat) {digits : List Nat} (spelt : List.Forall₂ Denotes cs digits) :
        (value * 16 + d) * 16 ^ cs.length + Nat.ofDigits 16 digits.reverse
          = value * 16 ^ (c :: cs).length + Nat.ofDigits 16 (d :: digits).reverse := by
      rw [List.reverse_cons, Nat.ofDigits_append, Nat.ofDigits_singleton, List.length_reverse,
        ← spelt.length_eq, List.length_cons, Nat.pow_succ]
      ring
    constructor
    · intro h
      unfold readFrom? at h
      split at h
      next d known =>
        obtain ⟨digits, spelt, rfl⟩ := ih.1 h
        exact ⟨d :: digits, .cons (ofDigit?_eq_some_iff.1 known) spelt, shift d spelt⟩
      · cases h
    · rintro ⟨_, spelt, rfl⟩
      cases spelt with
      | @cons _ d _ digits first spelt =>
        unfold readFrom?
        rw [ofDigit?_eq_some_iff.2 first]
        exact ih.2 ⟨digits, spelt, (shift d spelt).symm⟩

/-- A run of digits that is not empty is read from zero. -/
theorem read?_of_ne_nil (some : cs ≠ []) : read? cs = readFrom? 0 cs := by
  cases cs with
  | nil => exact (some rfl).elim
  | cons c cs => rfl

/-- **A numeral is read** as the number its digits stand for in base sixteen. -/
theorem read?_eq_some_iff :
    read? cs = some n
      ↔ cs ≠ [] ∧ ∃ digits, List.Forall₂ Denotes cs digits
        ∧ n = Nat.ofDigits 16 digits.reverse := by
  by_cases empty : cs = []
  · subst empty
    exact iff_of_false nofun fun h => h.1 rfl
  · rw [read?_of_ne_nil empty, readFrom?_eq_some_iff, and_iff_right empty, Nat.zero_mul]
    simp only [Nat.zero_add]

/-- As many digits are printed as there is room for, and they are read as the
remainder. -/
theorem readFrom?_fixed (rest : List Char) :
    readFrom? value (fixed width n ++ rest)
      = readFrom? (value * 16 ^ width + n % 16 ^ width) rest := by
  have digits : ∀ d < 16, ofDigit? (digit d) = some d := by decide
  induction width generalizing n rest with
  | zero => simp [fixed, Nat.mod_one]
  | succ width ih =>
    have last : (value * 16 ^ width + n / 16 % 16 ^ width) * 16 + n % 16
        = value * 16 ^ (width + 1) + n % 16 ^ (width + 1) := by
      rw [Nat.pow_succ', Nat.mod_mul]
      ring
    rw [fixed, List.append_assoc, ih, List.singleton_append, readFrom?,
      digits _ (Nat.mod_lt n (by decide)), ← last]

/-- **A number is read back** from its digits, if there are enough of them. -/
theorem read?_fixed (fits : n < 16 ^ (width + 1)) : read? (fixed (width + 1) n) = some n := by
  have printed : fixed (width + 1) n ≠ [] := List.append_ne_nil_of_right_ne_nil _ nofun
  have back : readFrom? 0 (fixed (width + 1) n ++ []) = _ := readFrom?_fixed []
  rw [List.append_nil, Nat.zero_mul, Nat.zero_add, Nat.mod_eq_of_lt fits] at back
  exact (read?_of_ne_nil printed).trans back

end Hex

/-! ## Addresses -/

namespace Address

variable {text : String} {a b : Address} {n : Nat} {cs : List Char}

/-- **A numeral**: an optional `0x`, an optional plus sign, and hexadecimal digits
of either case, at least one, that stand for the number in base sixteen. -/
def Numeral (text : String) (n : Nat) : Prop :=
  ∃ marker ∈ ["", "0x"], ∃ sign ∈ ["", "+"], ∃ cs digits, cs ≠ []
    ∧ text = marker ++ sign ++ String.ofList cs
    ∧ List.Forall₂ Hex.Denotes cs digits ∧ n = Nat.ofDigits 16 digits.reverse

/-- What is left after dropping the marker is the text up to an optional marker.
-/
theorem exists_marker (cs : List Char) :
    ∃ marker ∈ ["", "0x"], cs = marker.toList ++ dropMarker cs := by
  unfold dropMarker
  split
  · exact ⟨"0x", by simp, rfl⟩
  · exact ⟨"", by simp, rfl⟩

/-- What is left after dropping the sign is the text up to an optional sign. -/
theorem exists_sign (cs : List Char) : ∃ sign ∈ ["", "+"], cs = sign.toList ++ dropSign cs := by
  unfold dropSign
  split
  · exact ⟨"+", by simp, rfl⟩
  · exact ⟨"", by simp, rfl⟩

/-- **No digit looks like a sign or a marker**, so both are dropped and nothing
else. -/
theorem drop_prefixes {marker sign : String} (hm : marker ∈ ["", "0x"]) (hs : sign ∈ ["", "+"])
    {digits : List Nat} (spelt : List.Forall₂ Hex.Denotes cs digits) :
    dropSign (dropMarker (marker.toList ++ (sign.toList ++ cs))) = cs := by
  have plus (d : Nat) : ¬Hex.Denotes '+' d := fun h => nomatch Hex.ofDigit?_eq_some_iff.2 h
  have ex (d : Nat) : ¬Hex.Denotes 'x' d := fun h => nomatch Hex.ofDigit?_eq_some_iff.2 h
  have unsigned : dropSign cs = cs := by
    unfold dropSign
    split
    · cases spelt with | cons first _ => exact (plus _ first).elim
    · rfl
  have unmarked : dropMarker cs = cs := by
    unfold dropMarker
    split
    · obtain _ | ⟨-, spelt⟩ := spelt
      obtain _ | ⟨second, -⟩ := spelt
      exact (ex _ second).elim
    · rfl
  have stripped : dropSign (sign.toList ++ cs) = cs := by
    simp only [List.mem_cons, List.not_mem_nil, or_false] at hs
    rcases hs with rfl | rfl
    · exact unsigned
    · rfl
  have kept : dropMarker (sign.toList ++ cs) = sign.toList ++ cs := by
    simp only [List.mem_cons, List.not_mem_nil, or_false] at hs
    rcases hs with rfl | rfl
    · exact unmarked
    · rfl
  simp only [List.mem_cons, List.not_mem_nil, or_false] at hm
  rcases hm with rfl | rfl
  · exact (congrArg dropSign kept).trans stripped
  · exact stripped

/-- The reader reads numerals. -/
theorem read?_eq_some_iff :
    Hex.read? (dropSign (dropMarker text.toList)) = some n ↔ Numeral text n := by
  rw [Hex.read?_eq_some_iff]
  constructor
  · rintro ⟨some, digits, spelt, value⟩
    obtain ⟨marker, hm, first⟩ := exists_marker text.toList
    obtain ⟨sign, hs, second⟩ := exists_sign (dropMarker text.toList)
    refine ⟨marker, hm, sign, hs, _, digits, some, String.toList_injective ?_, spelt, value⟩
    rw [String.toList_append, String.toList_append, String.toList_ofList, List.append_assoc,
      ← second, ← first]
  · rintro ⟨marker, hm, sign, hs, cs, digits, some, rfl, spelt, value⟩
    rw [String.toList_append, String.toList_append, String.toList_ofList, List.append_assoc,
      drop_prefixes hm hs spelt]
    exact ⟨some, digits, spelt, value⟩

/-- **A text stands for an address** if it is a numeral that fits. -/
theorem ofText?_eq_some_iff : ofText? text = some a ↔ Numeral text a.raw.toNat := by
  unfold ofText?
  split
  next n read =>
    have unique {m : Nat} : Numeral text m ↔ n = m := by
      rw [← read?_eq_some_iff, read, Option.some.injEq]
    rw [unique]
    constructor
    · intro h
      split at h
      next fits =>
        obtain rfl := Option.some.inj h
        exact (UInt64.toNat_ofNat_of_lt' fits).symm
      · cases h
    · rintro rfl
      rw [if_pos a.raw.toNat_lt, UInt64.ofNat_toNat]
  next unread =>
    refine iff_of_false nofun fun numeral => ?_
    rw [read?_eq_some_iff.2 numeral] at unread
    cases unread

/-- A text parses to an address exactly when it is a numeral for its number. -/
theorem parse_eq_ok_iff : parse text = .ok a ↔ Numeral text a.raw.toNat := by
  rw [← ofText?_eq_some_iff]
  unfold parse
  cases ofText? text <;> simp

/-- **A text is accepted** if it is a numeral below the bound. -/
theorem exists_parse_iff : (∃ a, parse text = .ok a) ↔ ∃ n < 2 ^ 64, Numeral text n := by
  constructor
  · rintro ⟨a, read⟩
    exact ⟨a.raw.toNat, a.raw.toNat_lt, parse_eq_ok_iff.1 read⟩
  · rintro ⟨n, fits, numeral⟩
    refine ⟨⟨UInt64.ofNat n⟩, parse_eq_ok_iff.2 ?_⟩
    rwa [UInt64.toNat_ofNat_of_lt' fits]

/-- Where an address cannot be read, the complaint quotes the text. -/
theorem eq_of_parse_eq_error {fault : ValueFault} (h : parse text = .error fault) :
    fault = .invalidAddress text := by
  unfold parse at h
  split at h
  · cases h
  · exact (Except.error.inj h).symm

/-- **An address is read back** from its written form. -/
theorem parse_text (a : Address) : parse a.text = .ok a := by
  have fits : a.raw.toNat < 16 ^ 16 := a.raw.toNat_lt
  obtain ⟨some, digits, spelt, value⟩ := Hex.read?_eq_some_iff.1 (Hex.read?_fixed fits)
  exact parse_eq_ok_iff.2 ⟨"0x", by simp, "", by simp, _, digits, some,
    String.toList_injective (by simp [text]), spelt, value⟩

/-- **An address is known by its written form.** -/
theorem text_injective (h : a.text = b.text) : a = b := by
  have back := parse_text a
  rw [h, parse_text b] at back
  exact (Except.ok.inj back).symm

end Address

/-! ## Paths -/

namespace Identifier

/-- **A proper name**: an ASCII letter or an underscore, and then ASCII letters,
digits and underscores. -/
def Proper (name : String) : Prop :=
  ∃ first rest, name.toList = first :: rest ∧ (first.isAlpha = true ∨ first = '_')
    ∧ ∀ c ∈ rest, c.isAlphanum = true ∨ c = '_'

/-- An identifier starts with a letter or an underscore. -/
theorem isStart_iff {c : Char} : isStart c = true ↔ c.isAlpha = true ∨ c = '_' := by
  have upper : ('A' ≤ c && c ≤ 'Z') = c.isUpper := (Bool.decide_and _ _).symm
  have letters : isStart c = (c.isLower || ('A' ≤ c && c ≤ 'Z') || c == '_') := rfl
  have alpha : c.isAlpha = (c.isUpper || c.isLower) := rfl
  rw [letters, upper, alpha, Bool.or_comm c.isUpper, Bool.or_eq_true, beq_iff_eq]

/-- An identifier goes on with letters, digits and underscores. -/
theorem isRest_iff {c : Char} : isRest c = true ↔ c.isAlphanum = true ∨ c = '_' := by
  have rest : isRest c = (isStart c || c.isDigit) := rfl
  have alphanum : c.isAlphanum = (c.isAlpha || c.isDigit) := rfl
  rw [rest, alphanum, Bool.or_eq_true, Bool.or_eq_true, isStart_iff, or_right_comm]

/-- The check of identifiers accepts exactly the proper ones. -/
theorem isValid_iff {name : String} : isValid name = true ↔ Proper name := by
  unfold isValid Proper
  cases name.toList with
  | nil => simp
  | cons first rest => simp [isStart_iff, isRest_iff]

end Identifier

namespace Domain

variable {d : Domain} {name : String}

/-- A text names a domain exactly when it is the text of that domain. -/
theorem ofText?_eq_some_iff : ofText? name = some d ↔ name = d.text := by
  constructor
  · intro h
    unfold ofText? at h
    split at h <;> cases h <;> rfl
  · rintro rfl
    cases d <;> rfl

/-- The name of a domain has no separator in it. -/
theorem slash_not_mem_text (d : Domain) : '/' ∉ d.text.toList := by cases d <;> decide

end Domain

namespace Path

variable {text domain identifier : String} {p q : Path}

/-- **A text is split** at its second slash, if it starts with one. -/
theorem split?_eq_some_iff :
    split? text = some (domain, identifier)
      ↔ text = "/" ++ domain ++ "/" ++ identifier ∧ '/' ∉ domain.toList := by
  constructor
  · intro h
    unfold split? at h
    split at h
    next rest start =>
      split at h
      next c last behind =>
        obtain ⟨rfl, rfl⟩ := Prod.mk.inj (Option.some.inj h)
        have slash : c = '/' := by
          have first := List.head?_dropWhile_not (· != '/') rest
          simpa [behind] using first
        have parts : rest = rest.takeWhile (· != '/') ++ '/' :: last := by
          conv_lhs => rw [← List.takeWhile_append_dropWhile (p := (· != '/')) (l := rest), behind]
          rw [slash]
        refine ⟨String.toList_injective ?_, fun mem => ?_⟩
        · rw [start]
          conv_lhs => rw [parts]
          simp
        · rw [String.toList_ofList] at mem
          simpa using List.all_eq_true.1 List.all_takeWhile _ mem
      · cases h
    · cases h
  · rintro ⟨rfl, plain⟩
    have before : ∀ c ∈ domain.toList, (c != '/') = true := fun c hc =>
      bne_iff_ne.2 fun same => plain (same ▸ hc)
    have start : ("/" ++ domain ++ "/" ++ identifier).toList
        = '/' :: (domain.toList ++ '/' :: identifier.toList) := by simp
    unfold split?
    rw [start]
    simp [List.dropWhile_append_of_pos before, List.takeWhile_append_of_pos before]

/-- Splitting the text of a path gives back its domain and its identifier. -/
theorem split?_text (p : Path) : split? p.text = some (p.domain.text, p.identifier) :=
  split?_eq_some_iff.2 ⟨rfl, p.domain.slash_not_mem_text⟩

/-- A path is made exactly from a proper identifier. -/
theorem make_eq_ok_iff {d : Domain} :
    make d identifier = .ok p ↔ p = ⟨d, identifier⟩ ∧ Identifier.Proper identifier := by
  rw [← Identifier.isValid_iff]
  unfold make
  cases Identifier.isValid identifier <;> simp [eq_comm]

/-- **A text is read as a path** if it is how the path is written and the
identifier is one. -/
theorem parse_eq_ok_iff :
    parse text = .ok p ↔ p.text = text ∧ Identifier.Proper p.identifier := by
  constructor
  · intro h
    unfold parse at h
    split at h
    next parts =>
      split at h
      next d known =>
        obtain ⟨rfl, proper⟩ := make_eq_ok_iff.1 h
        obtain rfl := Domain.ofText?_eq_some_iff.1 known
        exact ⟨(split?_eq_some_iff.1 parts).1.symm, proper⟩
      · cases h
    · cases h
  · rintro ⟨rfl, proper⟩
    unfold parse
    rw [split?_text]
    dsimp only
    rw [Domain.ofText?_eq_some_iff.2 rfl]
    exact make_eq_ok_iff.2 ⟨rfl, proper⟩

/-- **A text is accepted** if it is the name of a domain between slashes, and
then an identifier. -/
theorem exists_parse_iff :
    (∃ p, parse text = .ok p)
      ↔ ∃ front ∈ ["/storage/", "/private/", "/public/"], ∃ name,
        Identifier.Proper name ∧ text = front ++ name := by
  have fronts (front : String) : front ∈ ["/storage/", "/private/", "/public/"]
      ↔ ∃ d : Domain, front = "/" ++ d.text ++ "/" := by
    constructor
    · simp only [List.mem_cons, List.not_mem_nil, or_false]
      rintro (rfl | rfl | rfl)
      · exact ⟨.storage, rfl⟩
      · exact ⟨.privateLinks, rfl⟩
      · exact ⟨.publicLinks, rfl⟩
    · rintro ⟨d, rfl⟩
      cases d <;> decide
  constructor
  · rintro ⟨p, read⟩
    obtain ⟨rfl, proper⟩ := parse_eq_ok_iff.1 read
    exact ⟨_, (fronts _).2 ⟨p.domain, rfl⟩, p.identifier, proper, rfl⟩
  · rintro ⟨front, among, name, proper, rfl⟩
    obtain ⟨d, rfl⟩ := (fronts front).1 among
    exact ⟨⟨d, name⟩, parse_eq_ok_iff.2 ⟨rfl, proper⟩⟩

/-- Where a path cannot be read, the complaint quotes the text. -/
theorem eq_of_parse_eq_error {fault : ValueFault} (h : parse text = .error fault) :
    fault = .invalidPath text := by
  unfold parse at h
  split at h
  next parts =>
    split at h
    next d known =>
      obtain rfl := Domain.ofText?_eq_some_iff.1 known
      obtain ⟨rfl, -⟩ := split?_eq_some_iff.1 parts
      unfold make at h
      split at h
      · cases h
      · exact (Except.error.inj h).symm
    · exact (Except.error.inj h).symm
  · exact (Except.error.inj h).symm

/-- **A path is known by its written form**, whatever its identifier is: the name
of its domain has no slash. -/
theorem text_injective (h : p.text = q.text) : p = q := by
  have parts := p.split?_text
  rw [h, q.split?_text] at parts
  obtain ⟨names, identifiers⟩ := Prod.mk.inj (Option.some.inj parts)
  have domains := Domain.ofText?_eq_some_iff.2 names.symm
  rw [Domain.ofText?_eq_some_iff.2 rfl] at domains
  obtain ⟨d, i⟩ := p
  obtain ⟨e, j⟩ := q
  exact congrArg₂ mk (Option.some.inj domains) identifiers.symm

end Path

/-! ## Both -/

/-- A reader with one complaint for a text refuses what it does not accept. -/
theorem eq_error_iff {ε α : Type} {result : Except ε α} {complaint : ε}
    (only : ∀ fault, result = .error fault → fault = complaint) :
    result = .error complaint ↔ ¬∃ a, result = .ok a := by
  cases result with
  | error fault => simp [only fault rfl]
  | ok a => simp

/-- **Texts are read and written consistently.** As an address every numeral
below the bound is accepted, for its number, and nothing else; and every address
is read back from how it is printed. As a path a text is accepted if it is one of
the three domains and an identifier, for the path that is printed that way. So
the paths that are read back are those with a proper identifier, but any two
paths are told apart by how they are printed. -/
theorem texts_consistent :
    ((∀ text a, Address.parse text = .ok a
          ↔ ∃ n < 2 ^ 64, Address.Numeral text n ∧ a.raw.toNat = n)
        ∧ (∀ text, Address.parse text = .error (.invalidAddress text)
          ↔ ¬∃ n < 2 ^ 64, Address.Numeral text n)
        ∧ ∀ a, Address.parse a.text = .ok a)
      ∧ (∀ text, (∃ p, Path.parse text = .ok p)
          ↔ ∃ front ∈ ["/storage/", "/private/", "/public/"], ∃ name,
            Identifier.Proper name ∧ text = front ++ name)
        ∧ (∀ text, Path.parse text = .error (.invalidPath text) ↔ ¬∃ p, Path.parse text = .ok p)
        ∧ (∀ text p, Path.parse text = .ok p ↔ p.text = text ∧ Identifier.Proper p.identifier)
        ∧ (∀ p : Path, Path.parse p.text = .ok p ↔ Identifier.Proper p.identifier)
        ∧ ∀ p q : Path, p.text = q.text ↔ p = q := by
  refine ⟨⟨fun text a => ?_, fun text => ?_, Address.parse_text⟩, fun _ => Path.exists_parse_iff,
    fun text => eq_error_iff fun _ => Path.eq_of_parse_eq_error, fun _ _ => Path.parse_eq_ok_iff,
    fun p => ?_, fun p q => ⟨Path.text_injective, congrArg _⟩⟩
  · rw [Address.parse_eq_ok_iff]
    constructor
    · exact fun numeral => ⟨_, a.raw.toNat_lt, numeral, rfl⟩
    · rintro ⟨_, -, numeral, rfl⟩
      exact numeral
  · rw [← Address.exists_parse_iff]
    exact eq_error_iff fun _ => Address.eq_of_parse_eq_error
  · rw [Path.parse_eq_ok_iff, and_iff_right rfl]

/-- A marker, a sign, a leading zero and both cases. -/
example : Address.parse "0x+0aF" = .ok ⟨175⟩ := rfl

/-- The sign does not stand in front of the marker. -/
example : Address.parse "+0x1" = .error (.invalidAddress "+0x1") := rfl

end Custody
