import Custody.Address
import Custody.SortedMap
import Custody.Ty

/-!
# Container keys

Keys address the elements of containers: any key a dictionary, positions an
array. They are ordered by sort first, in the order of the constructors, and
within a sort by value, text by code point.
-/

namespace Custody

/-- The texts of the two truth values. -/
def boolText (b : Bool) : String := if b then "true" else "false"

/-- **A key** of a container. -/
inductive Key where
  | bool (b : Bool)
  | int (i : Int)
  | uint (n : Nat)
  | str (s : String)
  | address (a : Address)
deriving DecidableEq, Inhabited

namespace Key

/-- The rank of a key's sort. -/
def rank : Key → Nat
  | bool _ => 0
  | int _ => 1
  | uint _ => 2
  | str _ => 3
  | address _ => 4

/-- The order of two keys: by sort, then by value. -/
def order : Key → Key → Ordering
  | bool a, bool b => compare a b
  | int a, int b => compare a b
  | uint a, uint b => compare a b
  | str a, str b => compare a b
  | address a, address b => compare a b
  | a, b => compare a.rank b.rank

instance : Ord Key := ⟨order⟩

/-- Keys compared the other way round give the opposite order. -/
theorem order_swap (a b : Key) : order a b = (order b a).swap := by
  cases a <;> cases b
  case bool.bool a b => exact (Std.OrientedCmp.eq_swap : compare a b = (compare b a).swap)
  case int.int a b => exact (Std.OrientedCmp.eq_swap : compare a b = (compare b a).swap)
  case uint.uint a b => exact (Std.OrientedCmp.eq_swap : compare a b = (compare b a).swap)
  case str.str a b => exact (Std.OrientedCmp.eq_swap : compare a b = (compare b a).swap)
  case address.address a b => exact (Std.OrientedCmp.eq_swap : compare a b = (compare b a).swap)
  all_goals rfl

/-- The order is transitive. -/
theorem isLE_order_trans (a b c : Key) (hab : (order a b).isLE) (hbc : (order b c).isLE) :
    (order a c).isLE := by
  cases a <;> cases b <;> cases c
  case bool.bool.bool => exact @Std.TransCmp.isLE_trans Bool compare _ _ _ _ hab hbc
  case int.int.int => exact @Std.TransCmp.isLE_trans Int compare _ _ _ _ hab hbc
  case uint.uint.uint => exact @Std.TransCmp.isLE_trans Nat compare _ _ _ _ hab hbc
  case str.str.str => exact @Std.TransCmp.isLE_trans String compare _ _ _ _ hab hbc
  case address.address.address => exact @Std.TransCmp.isLE_trans Address compare _ _ _ _ hab hbc
  all_goals
    first
    | rfl
    | exact (Bool.false_ne_true hab).elim
    | exact (Bool.false_ne_true hbc).elim

/-- Keys that neither precedes are equal. -/
theorem eq_of_order_eq (a b : Key) (h : order a b = .eq) : a = b := by
  cases a <;> cases b
  case bool.bool => exact congrArg _ (Std.LawfulEqOrd.eq_of_compare h)
  case int.int => exact congrArg _ (Std.LawfulEqOrd.eq_of_compare h)
  case uint.uint => exact congrArg _ (Std.LawfulEqOrd.eq_of_compare h)
  case str.str => exact congrArg _ (Std.LawfulEqOrd.eq_of_compare h)
  case address.address => exact congrArg _ (Std.LawfulEqOrd.eq_of_compare h)
  all_goals cases h

theorem order_self (a : Key) : order a a = .eq := by
  cases a
  case bool a => exact (Std.ReflCmp.compare_self : compare a a = .eq)
  case int a => exact (Std.ReflCmp.compare_self : compare a a = .eq)
  case uint a => exact (Std.ReflCmp.compare_self : compare a a = .eq)
  case str a => exact (Std.ReflCmp.compare_self : compare a a = .eq)
  case address a => exact (Std.ReflCmp.compare_self : compare a a = .eq)

instance : Std.TransOrd Key where
  eq_swap := order_swap _ _
  isLE_trans := isLE_order_trans _ _ _

instance : Std.LawfulEqOrd Key where
  compare_self := order_self _
  eq_of_compare := eq_of_order_eq _ _

/-- The name, for a text key. -/
def name? : Key → Option String
  | str s => some s
  | _ => none

/-- The type of the key as a value. -/
def ty : Key → Ty
  | bool _ => .bool
  | int _ => .int
  | uint _ => .uint
  | str _ => .string
  | address _ => .address

/-- The written form; text stands in quotes. -/
def text : Key → String
  | bool b => boolText b
  | int i => toString i
  | uint n => toString n
  | str s => "\"" ++ s ++ "\""
  | address a => a.text

/-- The array position a key stands for. -/
def position? : Key → Option Nat
  | uint n => some n
  | int (Int.ofNat n) => some n
  | _ => none

end Key

end Custody
