import Mathlib
import StdDaq.Lib.Throws

/-!
# JSON values and accessors that throw

A JSON value as a parser makes it, with three kinds of numbers: negative ones, natural ones and
those with a fraction or an exponent. The accessors are the usual ones of a C++ library: a value
can be asked for a member, and a member can be read as a text or as a number. What does not fit
throws, and here that is an `Except`.

A natural number can be read from every number. A signed one can also be read from a Boolean.

## Main results

* `value_isOk_iff` — when reading a member with a default does not throw
-/

/-- A JSON value. The members of an object have different keys. -/
inductive Json where
  | null
  | boolean (value : Bool)
  | integer (value : ℤ)
  | unsigned (value : ℕ)
  | float (value : ℚ)
  | string (value : String)
  | array (elements : List Json)
  | object (members : List (String × Json))

namespace Json

open Except (IsOk)

/-- What an accessor throws. -/
inductive Error where
  /-- `type_error` 302: the value has another type. -/
  | wrongType
  /-- `type_error` 304: `at` on something that is not an object. -/
  | atNonObject
  /-- `type_error` 306: `value` on something that is not an object. -/
  | valueOfNonObject
  /-- `out_of_range` 403: there is no such member. -/
  | noSuchKey
  deriving DecidableEq, Repr

/-- The value is an object. -/
def isObject : Json → Bool
  | .object _ => true
  | _ => false

/-- The value is a text. -/
def isString : Json → Bool
  | .string _ => true
  | _ => false

/-- The value is a number. -/
def isNumber : Json → Bool
  | .integer _ | .unsigned _ | .float _ => true
  | _ => false

/-- The value is a Boolean. -/
def isBoolean : Json → Bool
  | .boolean _ => true
  | _ => false

/-- The member with this key, if the value is an object that has it. -/
def member? : Json → String → Option Json
  | .object members, key => members.lookup key
  | _, _ => none

/-- `contains`. -/
def contains (j : Json) (key : String) : Bool := (j.member? key).isSome

/-- `at`. -/
def atKey : Json → String → Except Error Json
  | .object members, key =>
    match members.lookup key with
    | some member => .ok member
    | none => .error .noSuchKey
  | _, _ => .error .atNonObject

/-- A number with a fraction is cut off. -/
def truncate (x : ℚ) : ℤ := x.num.tdiv x.den

/-- `get<std::string>`. -/
def getString : Json → Except Error String
  | .string value => .ok value
  | _ => .error .wrongType

/-- `get` for an unsigned type of 64 bits. -/
def getUInt64 : Json → Except Error ℕ
  | .integer value => .ok (value % 2 ^ 64).toNat
  | .unsigned value => .ok (value % 2 ^ 64)
  | .float value => .ok (truncate value % 2 ^ 64).toNat
  | _ => .error .wrongType

/-- `get<int>`. -/
def getInt : Json → Except Error ℤ
  | .integer value => .ok (Int.bmod value (2 ^ 32))
  | .unsigned value => .ok (Int.bmod value (2 ^ 32))
  | .float value => .ok (Int.bmod (truncate value) (2 ^ 32))
  | .boolean value => .ok (if value then 1 else 0)
  | _ => .error .wrongType

/-- `value`: the member with this key read with `get`, or a default. -/
def value {α : Type} (get : Json → Except Error α) (j : Json) (key : String) (default : α) :
    Except Error α :=
  match j with
  | .object members =>
    match members.lookup key with
    | some member => get member
    | none => .ok default
  | _ => .error .valueOfNonObject

/-- If there is a member with this key, it is of a kind. -/
def MemberIs (j : Json) (key : String) (kind : Json → Bool) : Prop :=
  ∀ member, j.member? key = some member → kind member = true

section Lemmas

variable {α : Type} {j : Json} {key : String}

theorem isOk_getString : IsOk j.getString ↔ j.isString = true := by
  cases j <;> simp [getString, isString, IsOk]

theorem isOk_getUInt64 : IsOk j.getUInt64 ↔ j.isNumber = true := by
  cases j <;> simp [getUInt64, isNumber, IsOk]

theorem isOk_getInt : IsOk j.getInt ↔ (j.isNumber || j.isBoolean) = true := by
  cases j <;> simp [getInt, isNumber, isBoolean, IsOk]

theorem isObject_of_contains (h : j.contains key = true) : j.isObject = true := by
  cases j with
  | object members => rfl
  | _ => cases h

/-- A member that is there can be asked for. -/
theorem atKey_of_contains (h : j.contains key = true) :
    ∃ member, j.member? key = some member ∧ j.atKey key = .ok member := by
  obtain ⟨member, hmember⟩ := Option.isSome_iff_exists.mp h
  refine ⟨member, hmember, ?_⟩
  cases j with
  | object members =>
    rw [member?] at hmember
    rw [atKey, hmember]
  | _ => cases hmember

/-- Reading a member that is there. -/
theorem isOk_atKey_bind {get : Json → Except Error α} {kind : Json → Bool}
    (hget : ∀ member : Json, IsOk (get member) ↔ kind member = true)
    (h : j.contains key = true) : IsOk (j.atKey key >>= get) ↔ j.MemberIs key kind := by
  obtain ⟨member, hmember, hat⟩ := atKey_of_contains h
  have hbind : (j.atKey key >>= get) = get member := by
    rw [hat]
    rfl
  rw [hbind, hget, MemberIs, hmember]
  simp only [Option.some.injEq, forall_eq']

/-- **Reading a member with a default** throws unless the value is an object whose member, if there
is one, can be read. -/
theorem value_isOk_iff {get : Json → Except Error α} {kind : Json → Bool} {default : α}
    (hget : ∀ member : Json, IsOk (get member) ↔ kind member = true) :
    IsOk (j.value get key default) ↔ j.isObject = true ∧ j.MemberIs key kind := by
  cases j with
  | object members =>
    rw [value, MemberIs, member?]
    cases members.lookup key with
    | none => simp [Except.isOk_ok, isObject]
    | some member => simp [hget, isObject]
  | _ => simp [value, isObject, Except.not_isOk_error]

end Lemmas

end Json
