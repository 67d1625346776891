import LxmfChat.Base.Edwards
import LxmfChat.Base.Montgomery

/-! The Montgomery ladder multiplies the points of the Edwards curve that goes with its curve. -/

namespace Base.Montgomery

open Edwards

variable {F : Type*} [Field F] {C : Curve F} {P Q : Point C} {a24 u : F} {s : Pair F}

/-- A fraction stands for a point by its second coordinate, which it shares with the negative. -/
structure Coordinate (x z : F) (P : Point C) : Prop where
  ne : x + z ≠ 0
  eq : x - z = P.y * (x + z)

def affine (P : Point C) : F := (1 + P.y) / (1 - P.y)

theorem one_add_ne (C : Curve F) (y : F) : 1 + C.d * y ^ 2 ≠ 0 := by
  intro zero
  have square : C.d * y ^ 2 = C.i ^ 2 := by linear_combination zero - C.root
  have nonzero : y ≠ 0 := by
    rintro rfl
    exact one_ne_zero (by linear_combination zero)
  refine C.nonsquare ⟨C.i / y, ?_⟩
  rw [← pow_two, div_pow, ← square, mul_div_cancel_right₀ _ (pow_ne_zero 2 nonzero)]

theorem double_eq_zero {P : Point C} (square : P.y ^ 2 = 1) : P + P = 0 := by
  have x : P.x = 0 := by
    refine pow_eq_zero_iff two_ne_zero |>.mp ((mul_eq_zero.mp ?_).resolve_right (one_add_ne C P.y))
    linear_combination square - P.on
  refine Point.ext ?_ ?_
  · rw [Point.add_x, x]
    simp
  · rw [Point.add_y, Point.cross, x]
    simpa [pow_two] using square

namespace Coordinate

theorem div_eq {x z : F} (coordinate : Coordinate x z P) : x / z = affine P := by
  have half : (x + z) / 2 ≠ 0 := div_ne_zero coordinate.ne C.odd
  have odd := C.odd
  have first : x = (x + z) / 2 * (1 + P.y) := by
    field_simp
    linear_combination coordinate.eq
  have second : z = (x + z) / 2 * (1 - P.y) := by
    field_simp
    linear_combination -coordinate.eq
  exact (congrArg₂ (· / ·) first second).trans (mul_div_mul_left _ _ half)

theorem of_affine (finite : P.y ≠ 1) : Coordinate (affine P) 1 P := by
  have denominator : 1 - P.y ≠ 0 := sub_ne_zero.mpr finite.symm
  have sum : affine P + 1 = 2 / (1 - P.y) := by
    rw [affine]
    field_simp
    ring
  refine ⟨sum ▸ div_ne_zero C.odd denominator, ?_⟩
  rw [affine]
  field_simp
  ring

theorem neg {x z : F} (coordinate : Coordinate x z P) : Coordinate x z (-P) := ⟨coordinate.1, coordinate.2⟩

/-- The first point is doubled. -/
theorem double (coefficient : (a24 + 1) * C.d = -a24) (first : Coordinate s.x₂ s.z₂ P) (u : F) :
    Coordinate (s.advance u a24).x₂ (s.advance u a24).z₂ (P + P) := by
  have minus := Point.minus_ne P P
  have scale : a24 + 1 ≠ 0 := by
    intro zero
    rw [zero, zero_mul] at coefficient
    exact one_ne_zero (by linear_combination zero - coefficient)
  -- Sum and difference have a factor in common, which is not zero.
  have sum : (s.advance u a24).x₂ + (s.advance u a24).z₂
      = (s.x₂ + s.z₂) ^ 4 * (a24 + 1) * (1 + C.d * P.y ^ 2) * (1 - Point.cross P P) := by
    simp only [Pair.advance, first.eq, Point.cross]
    linear_combination -(s.x₂ + s.z₂) ^ 4 * (P.y ^ 2 * (2 - P.y ^ 2) * coefficient
      + (a24 + 1) * C.d * P.y ^ 2 * P.on)
  have difference : (s.advance u a24).x₂ - (s.advance u a24).z₂
      = (s.x₂ + s.z₂) ^ 4 * (a24 + 1) * (1 + C.d * P.y ^ 2) * (P.y * P.y + P.x * P.x) := by
    simp only [Pair.advance, first.eq]
    linear_combination (s.x₂ + s.z₂) ^ 4 * ((a24 + 1) * P.on - P.y ^ 4 * coefficient)
  refine ⟨?_, ?_⟩
  · rw [sum]
    exact mul_ne_zero (mul_ne_zero (mul_ne_zero (pow_ne_zero 4 first.ne) scale) (one_add_ne C _)) minus
  · rw [sum, difference, Point.add_y]
    field_simp

/-- One plus and one minus the second coordinates of sum and difference, without denominators. -/
theorem numerators (P Q : Point C) {sign : F} (unit : sign ^ 2 = 1) :
    (1 + C.d * P.y ^ 2) * (1 + C.d * Q.y ^ 2)
        * ((1 - P.cross Q + sign * (P.y * Q.y + P.x * Q.x))
          * (1 + P.cross Q + sign * (P.y * Q.y - P.x * Q.x)))
      = (1 + C.d) * (1 + C.d * (P.y * Q.y) ^ 2) * (P.y + sign * Q.y) ^ 2 := by
  rw [Point.cross]
  linear_combination (1 - sign * C.d * P.y * Q.y) ^ 2
      * ((Q.y ^ 2 - 1) * P.on + P.x ^ 2 * (1 + C.d * P.y ^ 2) * Q.on)
    + ((1 + C.d * P.y ^ 2) * (1 + C.d * Q.y ^ 2) * (P.x * Q.x) ^ 2 * (C.d ^ 2 * (P.y * Q.y) ^ 2 - 1)
      + (1 + C.d) * ((P.y ^ 2 + Q.y ^ 2) * C.d * (P.y * Q.y) ^ 2
        - (1 + C.d * (P.y * Q.y) ^ 2) * Q.y ^ 2 + (P.y * Q.y) ^ 2 * (1 - C.d))) * unit

theorem fraction_eq {e p γ δ a b κ K W : F} (scale : 2 * κ * K * e * γ ≠ 0) (known : u * δ = γ)
    (high : K * ((e + p) * γ) = W * a ^ 2) (low : K * ((e - p) * δ) = W * b ^ 2) :
    κ * a ^ 2 + u * (κ * b ^ 2) ≠ 0
      ∧ κ * a ^ 2 - u * (κ * b ^ 2) = p / e * (κ * a ^ 2 + u * (κ * b ^ 2)) := by
  have sum : W * (κ * a ^ 2 + u * (κ * b ^ 2)) = 2 * κ * K * e * γ := by
    linear_combination κ * K * (e - p) * known - κ * high - κ * u * low
  have difference : W * (κ * a ^ 2 - u * (κ * b ^ 2)) = 2 * κ * K * p * γ := by
    linear_combination κ * u * low - κ * K * (e - p) * known - κ * high
  have nonzero : W * (κ * a ^ 2 + u * (κ * b ^ 2)) ≠ 0 := sum ▸ scale
  have e_ne : e ≠ 0 := right_ne_zero_of_mul (left_ne_zero_of_mul scale)
  refine ⟨right_ne_zero_of_mul nonzero, mul_left_cancel₀ (left_ne_zero_of_mul nonzero) ?_⟩
  rw [difference, mul_left_comm, sum]
  field_simp

/-- The second point becomes the sum, if the difference of the two is known and not of order two. -/
theorem add (first : Coordinate s.x₂ s.z₂ P) (second : Coordinate s.x₃ s.z₃ Q)
    (between : Coordinate u 1 (Q - P)) (nonzero : u ≠ 0) (a24 : F) :
    Coordinate (s.advance u a24).x₃ (s.advance u a24).z₃ (P + Q) := by
  have plus := Point.plus_ne P Q
  have opposite : Q.cross (-P) = -P.cross Q := by
    rw [Point.cross, Point.cross, Point.neg_x, Point.neg_y]
    ring
  have apart : (Q - P).y * (1 + P.cross Q) = P.y * Q.y - P.x * Q.x := by
    rw [sub_eq_add_neg, Point.add_y, opposite, Point.neg_x, Point.neg_y, sub_neg_eq_add,
      div_mul_cancel₀ _ plus]
    ring
  have known : u * (1 + P.cross Q - (P.y * Q.y - P.x * Q.x))
      = 1 + P.cross Q + (P.y * Q.y - P.x * Q.x) := by
    linear_combination (1 + P.cross Q) * between.eq + (u + 1) * apart
  have numerator : 1 + P.cross Q + (P.y * Q.y - P.x * Q.x) ≠ 0 := by
    intro zero
    have other := (mul_eq_zero.mp (known.trans zero)).resolve_left nonzero
    refine mul_ne_zero C.odd plus ?_
    linear_combination zero + other
  -- One equation for each sign ties the sum to the difference.
  have high := numerators P Q (one_pow 2)
  have low := numerators P Q (neg_one_sq (R := F))
  simp only [one_mul, neg_one_mul, ← sub_eq_add_neg] at high low
  have scale : 2 * ((s.x₂ + s.z₂) * (s.x₃ + s.z₃)) ^ 2
      * ((1 + C.d * P.y ^ 2) * (1 + C.d * Q.y ^ 2)) * (1 - P.cross Q)
      * (1 + P.cross Q + (P.y * Q.y - P.x * Q.x)) ≠ 0 := by
    have sums := pow_ne_zero 2 (mul_ne_zero first.ne second.ne)
    have factors := mul_ne_zero (one_add_ne C P.y) (one_add_ne C Q.y)
    exact mul_ne_zero (mul_ne_zero (mul_ne_zero (mul_ne_zero C.odd sums) factors)
      (Point.minus_ne P Q)) numerator
  obtain ⟨ne, eq⟩ := fraction_eq scale known high low
  have x₃ : (s.advance u a24).x₃ = ((s.x₂ + s.z₂) * (s.x₃ + s.z₃)) ^ 2 * (P.y + Q.y) ^ 2 := by
    simp only [Pair.advance, first.eq, second.eq]
    ring
  have z₃ : (s.advance u a24).z₃ = u * (((s.x₂ + s.z₂) * (s.x₃ + s.z₃)) ^ 2 * (P.y - Q.y) ^ 2) := by
    simp only [Pair.advance, first.eq, second.eq]
    ring
  exact ⟨by rwa [x₃, z₃], by rwa [x₃, z₃, Point.add_y]⟩

end Coordinate

/-- The points of the ladder: a multiple and the next one. -/
structure Rungs (P : Point C) (n : Nat) (s : Pair F) : Prop where
  first : Coordinate s.x₂ s.z₂ (n • P)
  second : Coordinate s.x₃ s.z₃ ((n + 1) • P)

theorem Rungs.round {n : Nat} (rungs : Rungs P n s) (coefficient : (a24 + 1) * C.d = -a24)
    (between : Coordinate u 1 P) (nonzero : u ≠ 0) (bit : Bool) :
    Rungs P (2 * n + bit.toNat) (((s.cswap bit).advance u a24).cswap bit) := by
  obtain ⟨first, second⟩ := rungs
  have apart : (n + 1) • P - n • P = P := by rw [succ_nsmul, add_sub_cancel_left]
  have middle : n • P + (n + 1) • P = (2 * n + 1) • P := by
    rw [← add_nsmul]
    congr 1
    omega
  cases bit with
  | false =>
    refine ⟨?_, middle ▸ first.add second (apart.symm ▸ between) nonzero a24⟩
    exact (two_mul n ▸ add_nsmul P n n) ▸ first.double coefficient u
  | true =>
    -- The two are exchanged, so the difference is the negative.
    have back : n • P - (n + 1) • P = -P := by rw [← neg_sub, apart]
    rw [add_comm] at middle
    refine ⟨?_, ?_⟩
    · exact middle ▸ Coordinate.add (s := s.cswap true) second first (back.symm ▸ between.neg) nonzero a24
    · have twice : (n + 1) • P + (n + 1) • P = (2 * n + true.toNat + 1) • P := by
        rw [← add_nsmul]
        congr 1
        simp
        omega
      exact twice ▸ Coordinate.double (s := s.cswap true) coefficient second u

theorem Rungs.run {k t : Nat} {r : State F} (rungs : Rungs P (k / 2 ^ t) r.settled)
    (coefficient : (a24 + 1) * C.d = -a24) (between : Coordinate u 1 P) (nonzero : u ≠ 0) :
    Rungs P k (Montgomery.run u a24 k t r).settled := by
  induction t generalizing r with
  | zero =>
    rw [Nat.pow_zero, Nat.div_one] at rungs
    exact rungs
  | succ t ih =>
    refine ih ?_
    rw [settled_step]
    have bit : k / 2 ^ t = 2 * (k / 2 ^ (t + 1)) + (k.testBit t).toNat := by
      rw [Nat.toNat_testBit, Nat.pow_succ, ← Nat.div_div_eq_div_mul]
      omega
    exact bit ▸ rungs.round coefficient between nonzero _

/-- The ladder multiplies a point that is neither zero nor of order two. -/
theorem ladder_eq (coefficient : (a24 + 1) * C.d = -a24) {bits exponent k : Nat}
    (fits : k < 2 ^ bits) (inverse : ∀ z : F, z ^ exponent = z⁻¹) (finite : P.y ≠ 1)
    (nonzero : P.y ≠ -1) : ladder a24 bits exponent k (affine P) = affine (k • P) := by
  have between := Coordinate.of_affine finite
  have unit : affine P ≠ 0 := by
    refine div_ne_zero (fun zero => nonzero ?_) (sub_ne_zero.mpr finite.symm)
    linear_combination zero
  have start : Rungs P (k / 2 ^ bits) (⟨⟨1, 0, affine P, 1⟩, false⟩ : State F).settled := by
    rw [Nat.div_eq_of_lt fits]
    have once : (0 + 1) • P = P := by rw [zero_add, one_nsmul]
    exact ⟨⟨by simp [State.settled, Pair.cswap], by simp [State.settled, Pair.cswap]⟩,
      once.symm ▸ between⟩
  rw [ladder, inverse, ← div_eq_mul_inv]
  exact (start.run coefficient between unit).first.div_eq

end Base.Montgomery
