import Mathlib.Data.Rat.Floor
import OortAgent.Models

/-!
# Values of the JSON library

The values of `nlohmann::json`, and their conversions to numbers. The library keeps a number as an unsigned or a
negative integer or as a `double`, which is taken here as the rational it stands for. A conversion is a
`static_cast`: integers wrap, and a `double` is cut off at the point. A `double` whose integer part does not fit has
no defined conversion; a `JsonLib` says what comes out, and also what the library's parser and the rounding to
`float` do.

* `Json.toInt32_eq`, `Json.toUInt32_eq`: which elements keep their value.
-/

namespace OortAgent

open Lib

/-- A JSON value. Of the members of an object that have the same key only one is kept. -/
inductive Json
  | null
  | bool (b : Bool)
  | unsigned (n : Nat)
  | integer (i : Int)
  | float (x : ℚ)
  | string (s : Str)
  | array (elements : List Json)
  | object (members : List (Str × Json))

/-- The exceptions of the library that the agent meets. -/
inductive JsonError
  | parse_error
  | type_error
  | out_of_range
  deriving DecidableEq

/-- What is not fixed by the source: the parser, casts of numbers out of range, and `float`s of the type `F`. -/
structure JsonLib (F : Type) where
  parse : Bytes → Except JsonError Json
  undefinedCast : ℚ → Int
  toFloat : ℚ → F

/-- `j.at(key)`. -/
def Json.at (j : Json) (key : Str) : Except JsonError Json :=
  match j with
  | .object members => match members.lookup key with
    | some v => .ok v
    | none => .error .out_of_range
  | _ => .error .type_error

namespace Json

/-- What a loop over the value goes through. -/
def items : Json → List Json
  | .null => []
  | .array elements => elements
  | .object members => members.map Prod.snd
  | j => [j]

/-- The number that the value is. -/
def number? : Json → Option ℚ
  | .unsigned n => some n
  | .integer i => some i
  | .float x => some x
  | _ => none

/-- The value is a number or a boolean. -/
def converts : Json → Bool
  | .bool _ => true
  | .unsigned _ => true
  | .integer _ => true
  | .float _ => true
  | _ => false

/-- The integer part of a number. -/
def trunc (x : ℚ) : Int := x.num.tdiv x.den

/-- The conversion of a `double` to an integer type with the bounds given. -/
def cast (undefinedCast : ℚ → Int) (lo hi : Int) (x : ℚ) : Int :=
  if lo ≤ trunc x ∧ trunc x < hi then trunc x else undefinedCast x

variable {F : Type}

/-- `get_to` of an `int64_t`: a boolean is no number here. -/
def toInt64 (lib : JsonLib F) : Json → Except JsonError Int
  | .unsigned n => .ok (wrap64 n)
  | .integer i => .ok (wrap64 i)
  | .float x => .ok (wrap64 (cast lib.undefinedCast (-9223372036854775808) 9223372036854775808 x))
  | _ => .error .type_error

/-- The conversion to `int32_t`. -/
def toInt32 (lib : JsonLib F) : Json → Except JsonError Int
  | .unsigned n => .ok (wrap32 n)
  | .integer i => .ok (wrap32 i)
  | .float x => .ok (wrap32 (cast lib.undefinedCast (-2147483648) 2147483648 x))
  | .bool b => .ok b.toInt
  | _ => .error .type_error

/-- The conversion to `uint32_t`. -/
def toUInt32 (lib : JsonLib F) : Json → Except JsonError Nat
  | .unsigned n => .ok (n % 4294967296)
  | .integer i => .ok (i % 4294967296).toNat
  | .float x => .ok (cast lib.undefinedCast 0 4294967296 x % 4294967296).toNat
  | .bool b => .ok b.toNat
  | _ => .error .type_error

/-- The conversion to `float`. -/
def toFloat (lib : JsonLib F) : Json → Except JsonError F
  | .unsigned n => .ok (lib.toFloat n)
  | .integer i => .ok (lib.toFloat i)
  | .float x => .ok (lib.toFloat x)
  | .bool b => .ok (lib.toFloat b.toNat)
  | _ => .error .type_error

/-- The value is a number that an `int32_t` holds. -/
def IsInt32 (j : Json) : Prop := ∃ i : Int, j.number? = some (i : ℚ) ∧ -2147483648 ≤ i ∧ i < 2147483648

/-- The value is a number that a `uint32_t` holds. -/
def IsUInt32 (j : Json) : Prop := ∃ n : Nat, j.number? = some (n : ℚ) ∧ n < 4294967296

/-! ## Conversions -/

variable {lib : JsonLib F} {j : Json}

theorem toInt32_ok_iff : (∃ v, j.toInt32 lib = .ok v) ↔ j.converts = true := by
  cases j <;> simp [toInt32, converts]

theorem toUInt32_ok_iff : (∃ v, j.toUInt32 lib = .ok v) ↔ j.converts = true := by
  cases j <;> simp [toUInt32, converts]

theorem toFloat_ok_iff : (∃ v, j.toFloat lib = .ok v) ↔ j.converts = true := by
  cases j <;> simp [toFloat, converts]

/-- A number without a fraction is its integer part. -/
theorem trunc_int (i : Int) : trunc (i : ℚ) = i := by
  simp [trunc]

/-- A cast of a number without a fraction that fits gives it. -/
theorem cast_int {u : ℚ → Int} {lo hi i : Int} (h : lo ≤ i) (h' : i < hi) : cast u lo hi (i : ℚ) = i := by
  rw [cast, trunc_int, if_pos ⟨h, h'⟩]

theorem wrap32_bounds (x : Int) : -2147483648 ≤ wrap32 x ∧ wrap32 x < 2147483648 := by
  have hlo := Int.le_bmod (x := x) (m := 4294967296) (by decide)
  have hhi := Int.bmod_lt (x := x) (m := 4294967296) (by decide)
  unfold wrap32
  omega

/-- The conversion to `int32_t` keeps the value exactly if the value is one of the type. -/
theorem toInt32_eq {v : Int} (h : j.toInt32 lib = .ok v) : some (v : ℚ) = j.number? ↔ j.IsInt32 := by
  constructor
  · intro hv
    have hb : -2147483648 ≤ v ∧ v < 2147483648 := by
      cases j with
      | bool b => cases hv
      | unsigned n =>
        rw [← Except.ok.inj h]
        exact wrap32_bounds n
      | integer i =>
        rw [← Except.ok.inj h]
        exact wrap32_bounds i
      | float x =>
        rw [← Except.ok.inj h]
        exact wrap32_bounds _
      | null => cases h
      | string s => cases h
      | array xs => cases h
      | object ms => cases h
    exact ⟨v, hv.symm, hb⟩
  · rintro ⟨i, hi, hlo, hhi⟩
    rw [hi]
    cases j with
    | unsigned n =>
      have hn : ((n : Int) : ℚ) = (i : ℚ) := by simpa [number?] using hi
      rw [← Except.ok.inj h, Int.cast_inj.1 hn, wrap32_of_int hlo hhi]
    | integer n =>
      have hn : (n : ℚ) = (i : ℚ) := by simpa [number?] using hi
      rw [← Except.ok.inj h, Int.cast_inj.1 hn, wrap32_of_int hlo hhi]
    | float x =>
      have hx : x = (i : ℚ) := by simpa [number?] using hi
      rw [← Except.ok.inj h, hx, cast_int hlo hhi, wrap32_of_int hlo hhi]
    | bool b => cases hi
    | null => cases h
    | string s => cases h
    | array xs => cases h
    | object ms => cases h

/-- The conversion to `uint32_t` keeps the value exactly if the value is one of the type. -/
theorem toUInt32_eq {v : Nat} (h : j.toUInt32 lib = .ok v) : some (v : ℚ) = j.number? ↔ j.IsUInt32 := by
  constructor
  · intro hv
    have hb : v < 4294967296 := by
      cases j with
      | bool b => cases hv
      | unsigned n => cases h; omega
      | integer i => cases h; omega
      | float x => cases h; omega
      | null => cases h
      | string s => cases h
      | array xs => cases h
      | object ms => cases h
    exact ⟨v, hv.symm, hb⟩
  · rintro ⟨n, hn, hlt⟩
    rw [hn]
    cases j with
    | unsigned m =>
      cases h
      have hm : (m : ℚ) = (n : ℚ) := by simpa [number?] using hn
      rw [Nat.cast_inj.1 hm, Nat.mod_eq_of_lt hlt]
    | integer i =>
      cases h
      have hi : (i : ℚ) = ((n : Int) : ℚ) := by simpa [number?] using hn
      rw [Int.cast_inj.1 hi, Int.emod_eq_of_lt (by omega) (by omega), Int.toNat_natCast]
    | float x =>
      cases h
      have hx : x = ((n : Int) : ℚ) := by simpa [number?] using hn
      rw [hx, cast_int (by omega) (by omega), Int.emod_eq_of_lt (by omega) (by omega), Int.toNat_natCast]
    | bool b => cases hn
    | null => cases h
    | string s => cases h
    | array xs => cases h
    | object ms => cases h

end Json
end OortAgent
