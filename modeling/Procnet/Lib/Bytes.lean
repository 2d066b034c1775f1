import Mathlib.Data.Nat.Notation
import Mathlib.Algebra.Order.Ring.Nat
import Mathlib.Data.List.Basic
import Mathlib.Tactic.Ring

/-!
# Fixed-width integers as bytes

A number of `w` bytes, least significant byte first, and back. The two readings
are mutually inverse at a fixed width (`ofLeBytes_leBytes`,
`leBytes_ofLeBytes`), which is all a wire format of fixed-width integers needs.

A host stores the same number in one of two orders, so `Endian` is a parameter
of everything that looks at native memory; `Endian.value_bytes` and
`Endian.bytes_value` are the same two identities for either order.
-/

namespace Procnet

namespace Lib

/-! ### Little-endian bytes -/

/-- The `w` low-order bytes of `n`, least significant first. -/
def leBytes : ℕ → ℕ → List UInt8
  | 0, _ => []
  | w + 1, n => UInt8.ofNat n :: leBytes w (n / 256)

/-- The number a list of bytes spells, least significant first. -/
def ofLeBytes : List UInt8 → ℕ
  | [] => 0
  | b :: bs => b.toNat + 256 * ofLeBytes bs

@[simp] theorem length_leBytes (w n : ℕ) : (leBytes w n).length = w := by
  induction w generalizing n with
  | zero => rfl
  | succ w ih => simp [leBytes, ih]

theorem ofLeBytes_lt (bs : List UInt8) : ofLeBytes bs < 256 ^ bs.length := by
  induction bs with
  | nil => simp [ofLeBytes]
  | cons b bs ih =>
    have hb : b.toNat < 256 := b.toNat_lt
    have hpow : 256 ^ (bs.length + 1) = 256 * 256 ^ bs.length := by ring
    simp only [ofLeBytes, List.length_cons, hpow]
    omega

/-- Reading back what was written keeps the low-order bytes. -/
theorem ofLeBytes_leBytes (w n : ℕ) : ofLeBytes (leBytes w n) = n % 256 ^ w := by
  induction w generalizing n with
  | zero => simp [leBytes, ofLeBytes, Nat.mod_one]
  | succ w ih =>
    have hb : (UInt8.ofNat n).toNat = n % 256 := by simp
    have hpow : 256 ^ (w + 1) = 256 * 256 ^ w := by ring
    rw [leBytes, ofLeBytes, ih, hb, hpow, Nat.mod_mul]

/-- **Writing what was read gives the bytes back**: a byte string of the right
width is the only one spelling its number. -/
theorem leBytes_ofLeBytes (bs : List UInt8) : leBytes bs.length (ofLeBytes bs) = bs := by
  induction bs with
  | nil => rfl
  | cons b bs ih =>
    have hlow : UInt8.ofNat (b.toNat + 256 * ofLeBytes bs) = b := by
      apply UInt8.toNat_inj.mp
      have hb : b.toNat < 256 := b.toNat_lt
      rw [UInt8.toNat_ofNat']
      omega
    have hhigh : (b.toNat + 256 * ofLeBytes bs) / 256 = ofLeBytes bs := by
      have hb : b.toNat < 256 := b.toNat_lt
      omega
    rw [List.length_cons, ofLeBytes, leBytes, hlow, hhigh, ih]

/-! ### Host byte order -/

/-- The order in which a host keeps the bytes of an integer in memory. -/
inductive Endian where
  /-- Least significant byte first. -/
  | little : Endian
  /-- Most significant byte first. -/
  | big : Endian
  deriving DecidableEq, Repr

namespace Endian

/-- The `w` bytes a host keeps for `n`. -/
def bytes (e : Endian) (w n : ℕ) : List UInt8 :=
  match e with
  | little => leBytes w n
  | big => (leBytes w n).reverse

/-- The number a host reads in a list of bytes. -/
def value (e : Endian) (bs : List UInt8) : ℕ :=
  match e with
  | little => ofLeBytes bs
  | big => ofLeBytes bs.reverse

@[simp] theorem length_bytes (e : Endian) (w n : ℕ) : (e.bytes w n).length = w := by
  cases e <;> simp [bytes]

theorem value_lt (e : Endian) (bs : List UInt8) : e.value bs < 256 ^ bs.length := by
  cases e with
  | little => exact ofLeBytes_lt bs
  | big => simpa [value] using ofLeBytes_lt bs.reverse

theorem value_bytes (e : Endian) (w n : ℕ) : e.value (e.bytes w n) = n % 256 ^ w := by
  cases e <;> simp [value, bytes, ofLeBytes_leBytes]

theorem bytes_value (e : Endian) (bs : List UInt8) : e.bytes bs.length (e.value bs) = bs := by
  cases e with
  | little => exact leBytes_ofLeBytes bs
  | big =>
    have h := leBytes_ofLeBytes bs.reverse
    rw [List.length_reverse] at h
    rw [bytes, value, h, List.reverse_reverse]

/-- A number that fits the width is read back. -/
theorem value_bytes_of_lt (e : Endian) {w n : ℕ} (h : n < 256 ^ w) : e.value (e.bytes w n) = n := by
  rw [value_bytes, Nat.mod_eq_of_lt h]

theorem bytes_value_of_length (e : Endian) {w : ℕ} {bs : List UInt8} (h : bs.length = w) :
    e.bytes w (e.value bs) = bs := by
  rw [← h, bytes_value]

end Endian

end Lib

end Procnet
