import Mathlib.Data.Rat.Floor

/-! # Numbers

The values of the JavaScript number type and their conversions from and to the integers of
C++. A finite value is a rational, and the two zeros are one value. -/
namespace Numbers

inductive JSNumber where
  | nan
  | infinite (negative : Bool)
  | finite (x : ℚ)
  deriving DecidableEq, Repr

/-! ## From integers -/

/-- `static_cast<double>` of an integer: 53 significant bits, to nearest, ties to even. -/
def nearestDouble (n : ℤ) : ℤ :=
  let a := n.natAbs
  if a < 2 ^ 53 then n
  else
    let unit := 2 ^ (Nat.log2 a - 52)
    let q := a / unit
    let r := a % unit
    n.sign * ((if unit < 2 * r ∨ unit = 2 * r ∧ q % 2 = 1 then q + 1 else q) * unit : ℕ)

theorem nearestDouble_of_lt {n : ℤ} (h : n.natAbs < 2 ^ 53) : nearestDouble n = n := if_pos h

/-! ## To integers -/

def trunc (x : ℚ) : ℤ := if 0 ≤ x then ⌊x⌋ else ⌈x⌉

@[simp] theorem trunc_intCast (n : ℤ) : trunc n = n := by
  unfold trunc
  split <;> simp

/-- `napi_get_value_uint32` -/
def JSNumber.toUint32 : JSNumber → UInt32
  | .finite x => UInt32.ofNat (trunc x % 2 ^ 32).toNat
  | .nan | .infinite _ => 0

theorem JSNumber.toUint32_natCast {n : ℕ} (h : n < 2 ^ 32) :
    (JSNumber.finite n).toUint32.toNat = n := by
  have ht : trunc (n : ℚ) = n := by exact_mod_cast trunc_intCast n
  rw [toUint32, ht, UInt32.toNat_ofNat']
  omega

end Numbers
