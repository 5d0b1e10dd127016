import Custody.Value

/-!
# The dynamic type of a value

A composite has the type it is named after. A container has the type of its
elements when they share one, `Any` as element type when they do not, and
`Never` when it is empty.
-/

namespace Custody

/-- The type shared by all of a list, `Any` when they differ, `Never` when
there are none. -/
def Ty.common : List Ty → Ty
  | [] => .never
  | t :: rest => if rest.all (· = t) then t else .any

namespace Value

/-- The type of a value without parts. -/
def scalarTy : Value → Ty
  | .bool _ => .bool
  | .int _ => .int
  | .uint _ => .uint
  | .str _ => .string
  | .address _ => .address
  | .path _ => .path
  | .capability c => Ty.ofPromise c.promise
  | .reference r => .reference r.granted.authorized r.granted.target
  | _ => .never

/-- The reading behind `ty`. -/
def tyReading : Reading Ty where
  scalar := scalarTy
  array types := .array (Ty.common types)
  dict entries :=
    .dict (Ty.common (entries.map fun e => e.1.ty)) (Ty.common (entries.map Prod.snd))
  struct typeName _ := .composite typeName
  resource r _ := .composite r.typeName

/-- **The dynamic type of a value.** -/
def ty : Value → Ty := fold tyReading

/-- The element type of an array is the common type of its elements. -/
theorem ty_array (elements : List Value) :
    (Value.array elements).ty = .array (Ty.common (elements.map ty)) := by
  simp only [ty, fold_array, tyReading]

/-- The types of a dictionary are the common ones of its keys and of its values.
-/
theorem ty_dict (entries : List (Key × Value)) :
    (Value.dict entries).ty
      = .dict (Ty.common (entries.map fun e => e.1.ty))
        (Ty.common (entries.map fun e => e.2.ty)) := by
  simp only [ty, fold_dict, tyReading, List.map_map, Function.comp_def]

@[simp] theorem ty_struct (typeName : String) (fields : List (String × Value)) :
    (Value.struct typeName fields).ty = .composite typeName := rfl

@[simp] theorem ty_resource (id : ResourceId) (typeName : String)
    (fields : List (String × Option Value)) :
    (Value.resource id typeName fields).ty = .composite typeName := rfl

end Value

end Custody
