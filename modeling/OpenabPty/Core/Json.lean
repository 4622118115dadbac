import Mathlib.Data.List.Basic
import Mathlib.Data.String.Basic

/-!
# JSON values

Values as a program handles them after parsing: an object lists its fields in the order of
their keys, each key once. Reading and replacing one field of an object leaves the others alone.
-/

/-- A JSON value. Numbers that are no integers keep their bits. -/
inductive Json where
  | null
  | bool (b : Bool)
  | number (n : Int)
  | float (bits : UInt64)
  | string (s : String)
  | array (items : List Json)
  | object (fields : List (String × Json))

namespace Json

/-- The field of an object. -/
def get (value : Json) (key : String) : Option Json :=
  match value with
  | .object fields => fields.lookup key
  | _ => none

/-- The value as an unsigned integer of 64 bits. -/
def asU64 : Json → Option Nat
  | .number n => if 0 ≤ n ∧ n ≤ 18446744073709551615 then some n.toNat else none
  | _ => none

/-- The value as a string. -/
def asStr : Json → Option String
  | .string s => some s
  | _ => none

/-- The value as an array. -/
def asArray : Json → Option (List Json)
  | .array items => some items
  | _ => none

/-- Put a field among fields that are in the order of their keys. -/
def putField (key : String) (value : Json) : List (String × Json) → List (String × Json)
  | [] => [(key, value)]
  | (k, v) :: rest =>
    if k = key then (key, value) :: rest
    else if key < k then (key, value) :: (k, v) :: rest
    else (k, v) :: putField key value rest

/-- Set a field, if the value is an object. -/
def insert (value : Json) (key : String) (field : Json) : Json :=
  match value with
  | .object fields => .object (putField key field fields)
  | _ => value

/-- An object with these fields. -/
def obj (fields : List (String × Json)) : Json :=
  fields.foldl (fun value e => value.insert e.1 e.2) (.object [])

/-- A value that has these fields, and maybe others. -/
def Has (value : Json) (fields : List (String × Json)) : Prop :=
  ∀ e ∈ fields, value.get e.1 = some e.2

variable {value field : Json} {key other : String}

theorem lookup_putField_self (fields : List (String × Json)) :
    (putField key field fields).lookup key = some field := by
  induction fields with
  | nil => simp [putField]
  | cons e rest ih =>
    obtain ⟨k, v⟩ := e
    rw [putField]
    split_ifs with hk hlt
    · simp
    · simp
    · have hne : (key == k) = false := by simpa using Ne.symm hk
      simpa [List.lookup_cons, hne] using ih

theorem lookup_putField_of_ne (hne : other ≠ key) (fields : List (String × Json)) :
    (putField key field fields).lookup other = fields.lookup other := by
  have hbeq : (other == key) = false := by simpa using hne
  induction fields with
  | nil => simp [putField, List.lookup_cons, hbeq]
  | cons e rest ih =>
    obtain ⟨k, v⟩ := e
    rw [putField]
    split_ifs with hk hlt
    · subst hk
      simp [List.lookup_cons, hbeq]
    · simp [List.lookup_cons, hbeq]
    · simp [List.lookup_cons, ih]

/-- A field that was set is there. -/
theorem get_insert_self (h : ∃ k v, value.get k = some v) :
    (value.insert key field).get key = some field := by
  obtain ⟨k, v, h⟩ := h
  cases value with
  | object fields => exact lookup_putField_self fields
  | _ => cases h

/-- The other fields are as they were. -/
theorem get_insert_of_ne (hne : other ≠ key) :
    (value.insert key field).get other = value.get other := by
  cases value with
  | object fields => exact lookup_putField_of_ne hne fields
  | _ => rfl

theorem get_foldl_insert (fields acc : List (String × Json)) :
    (fields.foldl (fun (value : Json) e => value.insert e.1 e.2) (.object acc)).get key =
      (fields.reverse.lookup key).or (acc.lookup key) := by
  induction fields generalizing acc with
  | nil => rfl
  | cons e rest ih =>
    rw [List.foldl_cons, insert, ih, List.reverse_cons, List.lookup_append, Option.or_assoc]
    by_cases hkey : key = e.1
    · subst hkey
      rw [lookup_putField_self, List.lookup_cons, beq_self_eq_true]
      rfl
    · rw [lookup_putField_of_ne hkey, List.lookup_cons, beq_eq_false_iff_ne.mpr hkey]
      rfl

/-- A field of an object that is written out: of fields with one name, the last. -/
theorem get_obj (fields : List (String × Json)) :
    (obj fields).get key = fields.reverse.lookup key := by
  rw [obj, get_foldl_insert]
  simp

variable {s : String} {n : Nat}

theorem asU64_eq_some : value.asU64 = some n ↔ value = .number n ∧ n < 2 ^ 64 := by
  cases value with
  | number i =>
    rw [asU64]
    split_ifs with h
    · constructor
      · intro heq
        obtain rfl := Option.some.inj heq
        exact ⟨by rw [Int.toNat_of_nonneg h.1], by omega⟩
      · rintro ⟨heq, -⟩
        obtain rfl := Json.number.inj heq
        rfl
    · constructor
      · intro heq
        cases heq
      · rintro ⟨heq, hlt⟩
        obtain rfl := Json.number.inj heq
        exact absurd ⟨by omega, by omega⟩ h
  | _ => exact ⟨fun h => (by cases h), fun h => by cases h.1⟩

theorem asStr_eq_some : value.asStr = some s ↔ value = .string s := by
  cases value with
  | string t =>
    rw [asStr, Option.some_inj]
    exact ⟨fun h => h ▸ rfl, fun h => Json.string.inj h⟩
  | _ => exact ⟨fun h => (by cases h), fun h => by cases h⟩

/-- A field that reads as a number is that number. -/
theorem get_asU64 (hn : n < 2 ^ 64) :
    (value.get key).bind asU64 = some n ↔ value.get key = some (.number n) := by
  rw [Option.bind_eq_some_iff]
  constructor
  · rintro ⟨field, hget, hfield⟩
    rw [hget, (asU64_eq_some.mp hfield).1]
  · intro hget
    exact ⟨_, hget, asU64_eq_some.mpr ⟨rfl, hn⟩⟩

theorem get_asStr : (value.get key).bind asStr = some s ↔ value.get key = some (.string s) := by
  rw [Option.bind_eq_some_iff]
  constructor
  · rintro ⟨field, hget, hfield⟩
    rw [hget, asStr_eq_some.mp hfield]
  · intro hget
    exact ⟨_, hget, asStr_eq_some.mpr rfl⟩

/-- A value with a field is an object. -/
theorem exists_fields (hget : value.get key = some field) : ∃ fields, value = .object fields := by
  cases value with
  | object fields => exact ⟨fields, rfl⟩
  | _ => cases hget

end Json
