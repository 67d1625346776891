import LxmfChat.Base.Ladder
import LxmfChat.Reticulum.Curve.Signatures

/-! Two secrets agree on a key: the ladder of `x25519` multiplies points of the curve. -/

namespace LxmfChat

open Base Base.Edwards Base.Montgomery Ed25519

/-- The point that a secret makes of another party's. -/
def exchange (scalar : BytesN 32) (P : Point curve) : Point curve :=
  decodeScalar25519 (leNat scalar.val) • P

theorem exchange_comm (a b : BytesN 32) (P : Point curve) :
    exchange a (exchange b P) = exchange b (exchange a P) := by
  rw [exchange, exchange, exchange, exchange, smul_comm]

theorem pow_inverse (z : ZMod P25519) : z ^ (P25519 - 2) = z⁻¹ := by
  by_cases zero : z = 0
  · rw [zero, inv_zero, zero_pow (by decide)]
  · exact eq_inv_of_mul_eq_one_right (mul_pow_inverse zero)

theorem ladder_exchange {P : Point curve} (finite : P.y ^ 2 ≠ 1) (scalar : BytesN 32) :
    ladder 121665 255 (P25519 - 2) (decodeScalar25519 (leNat scalar.val)) (affine P)
      = affine (exchange scalar P) := by
  refine ladder_eq ?_ ?_ pow_inverse ?_ ?_
  · change (121665 + 1) * d = -121665
    linear_combination d_mul
  · rw [decodeScalar25519]
    omega
  · intro one
    exact finite (by rw [one, one_pow])
  · intro minus
    exact finite (by rw [minus, neg_one_sq])

theorem base_y_sq : base.y ^ 2 ≠ 1 := by decide +kernel

theorem affine_base : affine base = 9 := by
  have finite : 1 - base.y ≠ 0 := by decide +kernel
  rw [affine, div_eq_iff finite]
  linear_combination 2 * base_y.1

/-- A public key is neither zero nor of order two: a clamped scalar is eight times a positive number
below the order. -/
theorem exchange_base_y (scalar : BytesN 32) : (exchange scalar base).y ^ 2 ≠ 1 := by
  intro square
  -- Otherwise the order divides twice the scalar, and then an eighth of the scalar.
  have zero := double_eq_zero square
  rw [exchange, ← add_nsmul] at zero
  have divides := addOrderOf_dvd_of_nsmul_eq_zero zero
  have coprime : Nat.Coprime L25519 (2 ^ 4) := by decide
  have scalar_eq (j : Nat) : 2 ^ 254 + 2 ^ 3 * j + (2 ^ 254 + 2 ^ 3 * j) = 2 ^ 4 * (2 ^ 251 + j) := by
    ring
  rw [addOrderOf_base, decodeScalar25519, scalar_eq] at divides
  have le := Nat.le_of_dvd (by omega) (coprime.dvd_of_dvd_mul_left divides)
  rw [L25519] at le
  omega

theorem x25519Base_eq (scalar : BytesN 32) :
    x25519Base scalar = .ok (encodeElement (affine (exchange scalar base))) := by
  rw [x25519Base_ok, ← affine_base, ladder_exchange base_y_sq]

theorem x25519_eq {P : Point curve} (finite : P.y ^ 2 ≠ 1) (scalar : BytesN 32) :
    x25519 scalar (encodeElement (affine P)) = .ok (encodeElement (affine (exchange scalar P))) := by
  have read : ((leNat (encodeElement (affine P)).val % 2 ^ 255 : Nat) : ZMod P25519) = affine P := by
    have below : P25519 < 2 ^ 255 := by decide
    rw [leNat_encodeElement, Nat.mod_eq_of_lt ((ZMod.val_lt _).trans below), ZMod.natCast_zmod_val]
  rw [x25519, ← ladder_exchange finite, ← leNat_clamp]
  refine ((Gf.unpack25519_returns _).bind fun x isX => ?_).eq_ok
  rw [read] at isX
  exact ⟨_, Ladder.multiple_ok isX (clamp scalar), rfl⟩

/-- Any two secrets agree: each party makes the same key of its own secret and the other's public
key. -/
theorem x25519_agree (a b : BytesN 32) :
    ∃ A B shared, x25519Base a = .ok A ∧ x25519Base b = .ok B
      ∧ x25519 a B = .ok shared ∧ x25519 b A = .ok shared := by
  refine ⟨_, _, _, x25519Base_eq a, x25519Base_eq b, x25519_eq (exchange_base_y b) a, ?_⟩
  rw [x25519_eq (exchange_base_y a) b, exchange_comm]

/-- The key exchanges of the stack are the software's. -/
structure Exchanges (crypto : Crypto) : Prop where
  publicKey : ∀ scalar, x25519Base scalar = .ok (crypto.x25519Base scalar)
  multiple : ∀ scalar point, x25519 scalar point = .ok (crypto.x25519 scalar point)

theorem Exchanges.dhSymmetric {crypto : Crypto} (exchanges : Exchanges crypto) : crypto.DhSymmetric := by
  intro a b
  have key (scalar : BytesN 32) :
      encodeElement (affine (exchange scalar base)) = crypto.x25519Base scalar :=
    Except.ok.inj ((x25519Base_eq scalar).symm.trans (exchanges.publicKey scalar))
  have shared (own other : BytesN 32) :
      encodeElement (affine (exchange own (exchange other base)))
        = crypto.x25519 own (crypto.x25519Base other) := by
    rw [← key]
    exact Except.ok.inj
      ((x25519_eq (exchange_base_y other) own).symm.trans (exchanges.multiple own _))
  rw [← shared, ← shared, exchange_comm]

end LxmfChat
