import Mathlib

/-!
# Values of the network journal

`serde_json::Value`, without `null`: no adapter reads or plans it, and the text of a journal cannot
tell `Some(null)` from `None`.  Indexing a field that is missing gives `none` here and `null` in the
source.  Numbers are the integers the system tools print; an object lists its fields by name, as
the ordered map of the source does.
-/

namespace Ocvpn

/-- A JSON value. -/
inductive Value where
  | bool (b : Bool)
  | num (n : ℤ)
  | str (s : String)
  | arr (items : List Value)
  | obj (fields : List (String × Value))
  deriving Repr

namespace Value

/-! ### Equality -/

mutual

/-- Equality of values is decidable. -/
def decEq : (a b : Value) → Decidable (a = b)
  | .bool a, .bool b => decidable_of_iff (a = b) (by simp)
  | .num a, .num b => decidable_of_iff (a = b) (by simp)
  | .str a, .str b => decidable_of_iff (a = b) (by simp)
  | .arr a, .arr b =>
    haveI := decEqItems a b
    decidable_of_iff (a = b) (by simp)
  | .obj a, .obj b =>
    haveI := decEqFields a b
    decidable_of_iff (a = b) (by simp)
  | .bool _, .num _ | .bool _, .str _ | .bool _, .arr _ | .bool _, .obj _ | .num _, .bool _
  | .num _, .str _ | .num _, .arr _ | .num _, .obj _ | .str _, .bool _ | .str _, .num _
  | .str _, .arr _ | .str _, .obj _ | .arr _, .bool _ | .arr _, .num _ | .arr _, .str _
  | .arr _, .obj _ | .obj _, .bool _ | .obj _, .num _ | .obj _, .str _ | .obj _, .arr _ =>
    isFalse (by simp)

def decEqItems : (a b : List Value) → Decidable (a = b)
  | [], [] => isTrue rfl
  | [], _ :: _ | _ :: _, [] => isFalse (by simp)
  | a :: as, b :: bs =>
    haveI := decEq a b
    haveI := decEqItems as bs
    decidable_of_iff (a = b ∧ as = bs) (by simp)

def decEqFields : (a b : List (String × Value)) → Decidable (a = b)
  | [], [] => isTrue rfl
  | [], _ :: _ | _ :: _, [] => isFalse (by simp)
  | (k, a) :: as, (l, b) :: bs =>
    haveI := decEq a b
    haveI := decEqFields as bs
    decidable_of_iff (k = l ∧ a = b ∧ as = bs) (by simp [and_assoc])

end

instance : DecidableEq Value := decEq

/-! ### Access -/

/-- `value.get(name)` and `value[name]`. -/
def get : Value → String → Option Value
  | .obj fields, name => fields.lookup name
  | _, _ => none

/-- `value.as_array()`. -/
def asArray : Value → Option (List Value)
  | .arr items => some items
  | _ => none

/-- `value.as_str()`. -/
def asStr : Value → Option String
  | .str s => some s
  | _ => none

/-! ### Objects -/

/-- `map.insert(name, value)`. -/
def setField (name : String) (value : Value) : List (String × Value) → List (String × Value)
  | [] => [(name, value)]
  | (k, x) :: fields =>
    if k = name then (name, value) :: fields
    else if name < k then (name, value) :: (k, x) :: fields
    else (k, x) :: setField name value fields

theorem lookup_cons_eq (k name : String) (x : Value) (fields : List (String × Value)) :
    ((name, x) :: fields).lookup k = if k = name then some x else fields.lookup k := by
  rw [List.lookup_cons]
  by_cases h : k = name
  · simp [h]
  · rw [if_neg h, beq_eq_false_iff_ne.2 h]

theorem lookup_setField (name k : String) (value : Value) (fields : List (String × Value)) :
    (setField name value fields).lookup k = if k = name then some value else fields.lookup k := by
  induction fields with
  | nil => rw [setField, lookup_cons_eq]
  | cons field fields ih =>
    obtain ⟨k', x⟩ := field
    rw [setField]
    by_cases hname : k' = name
    · subst hname
      rw [if_pos rfl, lookup_cons_eq, lookup_cons_eq]
      split_ifs <;> rfl
    · by_cases hlt : name < k'
      · rw [if_neg hname, if_pos hlt, lookup_cons_eq]
      · rw [if_neg hname, if_neg hlt, lookup_cons_eq, lookup_cons_eq, ih]
        by_cases hk : k = k'
        · rw [if_pos hk, if_pos hk, if_neg (hk ▸ hname)]
        · rw [if_neg hk, if_neg hk]

/-- `value[name] = x`, on an object. -/
def set : Value → String → Value → Value
  | .obj fields, name, x => .obj (setField name x fields)
  | v, _, _ => v

/-- An object with the given fields. -/
def object (fields : List (String × Value)) : Value :=
  .obj (fields.foldl (fun l f => setField f.1 f.2 l) [])

end Value

end Ocvpn
