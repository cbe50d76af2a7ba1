import Mathlib.Data.Nat.ModEq
import Mathlib.Tactic.Ring

namespace LittleEndian
set_option autoImplicit true

/-- The `n` low bytes of a number, least significant first. -/
def leBytes : Nat → Nat → List UInt8
  | 0, _ => []
  | n + 1, x => UInt8.ofNat (x % 256) :: leBytes n (x / 256)

/-- The number that a string of bytes, least significant first, stands for. -/
def leNat : List UInt8 → Nat
  | [] => 0
  | b :: bs => b.toNat + 256 * leNat bs

@[simp] theorem leBytes_length (n x : Nat) : (leBytes n x).length = n := by
  induction n generalizing x with
  | zero => rfl
  | succ n ih => simp only [leBytes, List.length_cons, ih]

theorem le_length_of_take_eq {bs : List UInt8} (h : bs.take k = leBytes k n) : k ≤ bs.length := by
  have hlen := congrArg List.length h
  rw [leBytes_length, List.length_take] at hlen
  exact hlen ▸ Nat.min_le_right _ _

theorem leNat_lt (bs : List UInt8) : leNat bs < 256 ^ bs.length := by
  induction bs with
  | nil => simp [leNat]
  | cons b bs ih =>
    have hb : b.toNat < 256 := b.toNat_lt
    simp only [leNat, List.length_cons, Nat.pow_succ]
    omega

theorem leNat_leBytes (n x : Nat) : leNat (leBytes n x) = x % 256 ^ n := by
  induction n generalizing x with
  | zero => simp [leBytes, leNat, Nat.mod_one]
  | succ n ih =>
    have hb : (UInt8.ofNat (x % 256)).toNat = x % 256 := by
      simp [UInt8.toNat_ofNat']
    simp only [leBytes, leNat, ih, hb]
    rw [Nat.pow_succ, Nat.mul_comm (256 ^ n) 256, Nat.mod_mul]

theorem leNat_leBytes_of_lt (h : x < 256 ^ n) : leNat (leBytes n x) = x := by
  rw [leNat_leBytes, Nat.mod_eq_of_lt h]

theorem leBytes_leNat (bs : List UInt8) : leBytes bs.length (leNat bs) = bs := by
  induction bs with
  | nil => rfl
  | cons b bs ih =>
    have hb : b.toNat < 256 := b.toNat_lt
    have hmod : (b.toNat + 256 * leNat bs) % 256 = b.toNat := by omega
    have hdiv : (b.toNat + 256 * leNat bs) / 256 = leNat bs := by omega
    simp only [List.length_cons, leBytes, leNat, hmod, hdiv, ih, UInt8.ofNat_toNat]

theorem leBytes_mod (n x : Nat) : leBytes n (x % 256 ^ n) = leBytes n x := by
  have h := leBytes_leNat (leBytes n x)
  rwa [leBytes_length, leNat_leBytes] at h

def byteSwap (n x : Nat) : Nat := leNat (leBytes n x).reverse

theorem leBytes_byteSwap (n x : Nat) : leBytes n (byteSwap n x) = (leBytes n x).reverse := by
  have h := leBytes_leNat (leBytes n x).reverse
  rwa [List.length_reverse, leBytes_length] at h

theorem pow_width (n : Nat) : 2 ^ (8 * n) = 256 ^ n := by
  rw [Nat.pow_mul]

end LittleEndian
