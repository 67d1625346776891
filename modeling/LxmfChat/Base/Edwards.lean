import Mathlib.Algebra.Group.Even
import Mathlib.Algebra.Ring.Parity
import Mathlib.Tactic.FieldSimp
import Mathlib.Tactic.LinearCombination
import Mathlib.Tactic.Ring

/-! Twisted Edwards curves with a complete addition law, and their group. -/

namespace Base.Edwards

/-- A curve: minus one is a square, and the coefficient is none, so no sum has a denominator zero. -/
structure Curve (F : Type*) [Field F] where
  d : F
  i : F
  root : i ^ 2 = -1
  odd : (2 : F) ≠ 0
  nonsquare : ¬ IsSquare d

variable {F : Type*} [Field F] {C : Curve F}

@[ext] structure Point (C : Curve F) where
  x : F
  y : F
  on : -x ^ 2 + y ^ 2 = 1 + C.d * x ^ 2 * y ^ 2

namespace Point

def cross (P Q : Point C) : F := C.d * P.x * Q.x * P.y * Q.y

theorem slope_eq_zero {P Q : Point C} (bad : cross P Q ^ 2 = 1) {s : F} (sign : s ^ 2 = 1) :
    C.i * Q.x + s * Q.y = 0 := by
  have root := C.root
  by_contra slope
  have nonzero : P.x * P.y ≠ 0 := by
    intro zero
    have none : cross P Q = C.d * Q.x * Q.y * (P.x * P.y) := by
      rw [cross]
      ring
    rw [none, zero, mul_zero] at bad
    exact zero_ne_one (by rw [← bad]; ring)
  have square : (C.i * P.x + s * cross P Q * P.y) ^ 2
      = C.d * (P.x * P.y * (C.i * Q.x + s * Q.y)) ^ 2 := by
    have first := P.on
    have second := Q.on
    rw [cross] at bad ⊢
    linear_combination P.x ^ 2 * root
      + P.y ^ 2 * ((C.d * P.x * Q.x * P.y * Q.y) ^ 2 * sign + bad)
      - C.d * P.x ^ 2 * P.y ^ 2 * (Q.x ^ 2 * root + Q.y ^ 2 * sign)
      + first - C.d * P.x ^ 2 * P.y ^ 2 * second - bad
  refine C.nonsquare ⟨(C.i * P.x + s * cross P Q * P.y) / (P.x * P.y * (C.i * Q.x + s * Q.y)), ?_⟩
  have denominator : (P.x * P.y * (C.i * Q.x + s * Q.y)) ^ 2 ≠ 0 :=
    pow_ne_zero 2 (mul_ne_zero nonzero slope)
  rw [← pow_two, div_pow, square, mul_div_cancel_right₀ _ denominator]

theorem cross_sq_ne_one (P Q : Point C) : cross P Q ^ 2 ≠ 1 := by
  intro bad
  have up := slope_eq_zero bad (s := 1) (by ring)
  have down := slope_eq_zero bad (s := -1) (by ring)
  have zero : Q.y = 0 := by
    refine (mul_eq_zero.mp ?_).resolve_left C.odd
    linear_combination up - down
  rw [cross, zero, mul_zero] at bad
  exact zero_ne_one (by rw [← bad]; ring)

theorem plus_ne (P Q : Point C) : 1 + cross P Q ≠ 0 := by
  intro zero
  refine cross_sq_ne_one P Q ?_
  linear_combination (cross P Q - 1) * zero

theorem minus_ne (P Q : Point C) : 1 - cross P Q ≠ 0 := by
  intro zero
  refine cross_sq_ne_one P Q ?_
  linear_combination (-cross P Q - 1) * zero

theorem add_on (P Q : Point C) :
    -((P.x * Q.y + Q.x * P.y) / (1 + cross P Q)) ^ 2 + ((P.y * Q.y + P.x * Q.x) / (1 - cross P Q)) ^ 2
      = 1 + C.d * ((P.x * Q.y + Q.x * P.y) / (1 + cross P Q)) ^ 2
        * ((P.y * Q.y + P.x * Q.x) / (1 - cross P Q)) ^ 2 := by
  have first : C.d * P.x ^ 2 * P.y ^ 2 = -P.x ^ 2 + P.y ^ 2 - 1 := by linear_combination -P.on
  have second : C.d * Q.x ^ 2 * Q.y ^ 2 = -Q.x ^ 2 + Q.y ^ 2 - 1 := by linear_combination -Q.on
  have plus := plus_ne P Q
  have minus := minus_ne P Q
  -- Without denominators everything is said by the squares and by their products.
  have cleared : (P.y * Q.y + P.x * Q.x) ^ 2 * (1 + cross P Q) ^ 2
      - (P.x * Q.y + Q.x * P.y) ^ 2 * (1 - cross P Q) ^ 2
      - (1 + cross P Q) ^ 2 * (1 - cross P Q) ^ 2
      - C.d * (P.x * Q.y + Q.x * P.y) ^ 2 * (P.y * Q.y + P.x * Q.x) ^ 2 = 0 := by
    calc _ = (-P.x ^ 2 + P.y ^ 2) * (-Q.x ^ 2 + Q.y ^ 2)
            * (1 + C.d * P.x ^ 2 * P.y ^ 2 * (C.d * Q.x ^ 2 * Q.y ^ 2))
          - (1 - C.d * P.x ^ 2 * P.y ^ 2 * (C.d * Q.x ^ 2 * Q.y ^ 2)) ^ 2
          - C.d * P.x ^ 2 * P.y ^ 2 * (-Q.x ^ 2 + Q.y ^ 2) ^ 2
          - C.d * Q.x ^ 2 * Q.y ^ 2 * (-P.x ^ 2 + P.y ^ 2) ^ 2 := by
          rw [cross]
          ring
      _ = 0 := by
        rw [first, second]
        ring
  field_simp
  linear_combination cleared

instance : Add (Point C) where
  add P Q :=
    { x := (P.x * Q.y + Q.x * P.y) / (1 + cross P Q)
      y := (P.y * Q.y + P.x * Q.x) / (1 - cross P Q)
      on := add_on P Q }

instance : Zero (Point C) where
  zero := { x := 0, y := 1, on := by ring }

instance : Neg (Point C) where
  neg P := { x := -P.x, y := P.y, on := by linear_combination P.on }

theorem add_x (P Q : Point C) : (P + Q).x = (P.x * Q.y + Q.x * P.y) / (1 + cross P Q) := rfl

theorem add_y (P Q : Point C) : (P + Q).y = (P.y * Q.y + P.x * Q.x) / (1 - cross P Q) := rfl

@[simp] theorem zero_x : (0 : Point C).x = 0 := rfl

@[simp] theorem zero_y : (0 : Point C).y = 1 := rfl

@[simp] theorem neg_x (P : Point C) : (-P).x = -P.x := rfl

@[simp] theorem neg_y (P : Point C) : (-P).y = P.y := rfl

theorem cross_comm (P Q : Point C) : cross P Q = cross Q P := by
  rw [cross, cross]
  ring

protected theorem add_comm (P Q : Point C) : P + Q = Q + P := by
  refine Point.ext ?_ ?_
  · rw [add_x, add_x, cross_comm, add_comm (P.x * Q.y)]
  · rw [add_y, add_y, cross_comm, mul_comm P.y, mul_comm P.x]

protected theorem zero_add (P : Point C) : 0 + P = P := by
  refine Point.ext ?_ ?_
  · rw [add_x, cross, zero_x, zero_y]
    simp
  · rw [add_y, cross, zero_x, zero_y]
    simp

protected theorem neg_add_cancel (P : Point C) : -P + P = 0 := by
  refine Point.ext ?_ ?_
  · rw [add_x, neg_x, neg_y, zero_x]
    ring
  · rw [add_y, zero_y, div_eq_one_iff_eq (minus_ne _ _), cross, neg_x, neg_y]
    linear_combination P.on

theorem add_add_x (P Q R : Point C) :
    (P + Q + R).x = ((P.x * Q.y + Q.x * P.y) * (1 - cross P Q) * R.y
        + (P.y * Q.y + P.x * Q.x) * (1 + cross P Q) * R.x)
      / ((1 + cross P Q) * (1 - cross P Q)
        + C.d * (P.x * Q.y + Q.x * P.y) * (P.y * Q.y + P.x * Q.x) * R.x * R.y) ∧
    (1 + cross P Q) * (1 - cross P Q)
        + C.d * (P.x * Q.y + Q.x * P.y) * (P.y * Q.y + P.x * Q.x) * R.x * R.y ≠ 0 := by
  have plus := plus_ne P Q
  have minus := minus_ne P Q
  have last := plus_ne (P + Q) R
  have denominator : (1 + cross P Q) * (1 - cross P Q)
        + C.d * (P.x * Q.y + Q.x * P.y) * (P.y * Q.y + P.x * Q.x) * R.x * R.y
      = (1 + cross P Q) * (1 - cross P Q) * (1 + cross (P + Q) R) := by
    rw [show cross (P + Q) R = C.d * ((P.x * Q.y + Q.x * P.y) / (1 + cross P Q)) * R.x
      * ((P.y * Q.y + P.x * Q.x) / (1 - cross P Q)) * R.y from rfl]
    field_simp
  rw [denominator]
  refine ⟨?_, mul_ne_zero (mul_ne_zero plus minus) last⟩
  rw [add_x, add_x P Q, add_y P Q]
  field_simp

theorem add_assoc_x (P Q R : Point C) : (P + Q + R).x = (P + (Q + R)).x := by
  have first := P.on
  have second := Q.on
  have third := R.on
  rw [Point.add_comm P (Q + R), (add_add_x P Q R).1, (add_add_x Q R P).1,
    div_eq_div_iff (add_add_x P Q R).2 (add_add_x Q R P).2, cross, cross]
  generalize P.x = x₁ at *
  generalize P.y = y₁ at *
  generalize Q.x = x₂ at *
  generalize Q.y = y₂ at *
  generalize R.x = x₃ at *
  generalize R.y = y₃ at *
  generalize C.d = d at *
  linear_combination
    d * x₂ * y₂ * (y₁ * (-y₂ ^ 3 * x₃ ^ 2 * y₃ - x₂ * y₂ ^ 2 * x₃ - x₂ * y₂ ^ 2 * x₃ ^ 3
          - x₂ ^ 2 * y₂ * y₃ + x₂ ^ 2 * y₂ * y₃ ^ 3 + x₂ ^ 2 * y₂ ^ 3 * x₃ ^ 2 * y₃ * d
          + x₂ ^ 3 * x₃ * y₃ ^ 2 + x₂ ^ 3 * y₂ ^ 2 * x₃ * y₃ ^ 2 * d)
        + x₁ * (y₂ ^ 3 * x₃ * y₃ ^ 2 - x₂ * y₂ ^ 2 * y₃ + x₂ * y₂ ^ 2 * y₃ ^ 3
          - x₂ ^ 2 * y₂ * x₃ - x₂ ^ 2 * y₂ * x₃ ^ 3 - x₂ ^ 2 * y₂ ^ 3 * x₃ * y₃ ^ 2 * d
          - x₂ ^ 3 * x₃ ^ 2 * y₃ - x₂ ^ 3 * y₂ ^ 2 * x₃ ^ 2 * y₃ * d)) * first
    + d * x₂ * y₂ * ((y₁ ^ 3 - y₁) * x₃ * y₃ * (y₂ * x₃ + x₂ * y₃)
        + (x₁ ^ 3 + x₁) * x₃ * y₃ * (y₂ * y₃ + x₂ * x₃)
        + x₁ * y₁ ^ 2 * (-y₂ * x₃ - y₂ * x₃ ^ 3 + x₂ * y₃ - x₂ * y₃ ^ 3)
        + x₁ ^ 2 * y₁ * (y₂ * y₃ - y₂ * y₃ ^ 3 - x₂ * x₃ - x₂ * x₃ ^ 3)) * second
    + d * x₂ * y₂ * ((y₁ - y₁ ^ 3) * x₂ * y₂ * (y₂ * x₃ + x₂ * y₃)
        + (x₁ ^ 3 + x₁) * x₂ * y₂ * (y₂ * y₃ + x₂ * x₃)
        + x₁ * y₁ ^ 2 * (-y₂ ^ 3 * x₃ + x₂ ^ 2 * y₂ ^ 3 * x₃ * d - x₂ ^ 3 * y₃
          - x₂ ^ 3 * y₂ ^ 2 * y₃ * d)
        + x₁ ^ 2 * y₁ * (y₂ ^ 3 * y₃ - x₂ ^ 2 * y₂ ^ 3 * y₃ * d + x₂ ^ 3 * x₃
          + x₂ ^ 3 * y₂ ^ 2 * x₃ * d)) * third

/-- The point plus the point of order four with second coordinate zero. -/
def turn (P : Point C) : Point C where
  x := C.i * P.y
  y := C.i * P.x
  on := by
    have root := C.root
    have on := P.on
    linear_combination (P.x ^ 2 - P.y ^ 2 - C.d * P.x ^ 2 * P.y ^ 2 * (C.i ^ 2 - 1)) * root + on

@[simp] theorem turn_x (P : Point C) : (turn P).x = C.i * P.y := rfl

@[simp] theorem turn_y (P : Point C) : (turn P).y = C.i * P.x := rfl

theorem add_turn (P Q : Point C) : P + turn Q = turn (P + Q) := by
  have root := C.root
  have swapped : cross P (turn Q) = -cross P Q := by
    rw [cross, cross, turn_x, turn_y]
    linear_combination C.d * P.x * P.y * Q.x * Q.y * root
  refine Point.ext ?_ ?_
  · rw [add_x, swapped, turn_x, turn_x, turn_y, add_y]
    ring
  · rw [add_y, swapped, turn_x, turn_y, turn_y, add_x]
    ring

protected theorem add_assoc (P Q R : Point C) : P + Q + R = P + (Q + R) := by
  refine Point.ext (add_assoc_x P Q R) ?_
  -- The second coordinate is the first one of the sum with the last point turned.
  have turned := add_assoc_x P Q (turn R)
  rw [add_turn, add_turn, add_turn] at turned
  have nonzero : C.i ≠ 0 := by
    intro zero
    have root := C.root
    rw [zero] at root
    have trivial : (1 : F) = 0 := by linear_combination root
    exact one_ne_zero trivial
  exact mul_left_cancel₀ nonzero turned

instance : AddCommGroup (Point C) where
  add_assoc := Point.add_assoc
  zero_add := Point.zero_add
  add_zero P := by rw [Point.add_comm, Point.zero_add]
  neg_add_cancel := Point.neg_add_cancel
  add_comm := Point.add_comm
  nsmul := nsmulRec
  zsmul := zsmulRec

end Point

/-- Two fractions with one denominator, and their product. -/
structure Extended (F : Type*) where
  x : F
  y : F
  z : F
  t : F

namespace Extended

section Operations

variable {R : Type*} [CommRing R]

def zero : Extended R := { x := 0, y := 1, z := 1, t := 0 }

/-- The sum of two points; the constant is twice the curve's coefficient. -/
def add (d2 : R) (p q : Extended R) : Extended R :=
  let a := (p.y - p.x) * (q.y - q.x)
  let b := (p.x + p.y) * (q.x + q.y)
  let c := p.t * q.t * d2
  let d := p.z * q.z + p.z * q.z
  let e := b - a
  let f := d - c
  let g := d + c
  let h := b + a
  { x := e * f, y := h * g, z := g * f, t := e * h }

def multiple (d2 : R) (p : Extended R) : Nat → Nat → Extended R
  | 0, _ => zero
  | bits + 1, n =>
    let half := multiple d2 p bits (n / 2)
    if n % 2 = 0 then half.add d2 half else (half.add d2 half).add d2 p

end Operations

structure Represents (e : Extended F) (P : Point C) : Prop where
  z_ne : e.z ≠ 0
  x : e.x = P.x * e.z
  y : e.y = P.y * e.z
  t : e.t = P.x * P.y * e.z

variable {p q : Extended F} {P Q : Point C}

theorem represents_zero : (zero : Extended F).Represents (0 : Point C) where
  z_ne := one_ne_zero
  x := by simp [zero]
  y := by simp [zero]
  t := by simp [zero]

theorem Represents.add (first : p.Represents P) (second : q.Represents Q) {d2 : F}
    (double : d2 = 2 * C.d) : (p.add d2 q).Represents (P + Q) := by
  have plus := Point.plus_ne P Q
  have minus := Point.minus_ne P Q
  have denominator := mul_ne_zero first.z_ne second.z_ne
  have e : (p.x + p.y) * (q.x + q.y) - (p.y - p.x) * (q.y - q.x)
      = 2 * (p.z * q.z) * (P.x * Q.y + Q.x * P.y) := by
    rw [first.x, first.y, second.x, second.y]
    ring
  have h : (p.x + p.y) * (q.x + q.y) + (p.y - p.x) * (q.y - q.x)
      = 2 * (p.z * q.z) * (P.y * Q.y + P.x * Q.x) := by
    rw [first.x, first.y, second.x, second.y]
    ring
  have c : p.t * q.t * d2 = 2 * (p.z * q.z) * Point.cross P Q := by
    rw [first.t, second.t, double, Point.cross]
    ring
  have f : p.z * q.z + p.z * q.z - p.t * q.t * d2 = 2 * (p.z * q.z) * (1 - Point.cross P Q) := by
    rw [c]
    ring
  have g : p.z * q.z + p.z * q.z + p.t * q.t * d2 = 2 * (p.z * q.z) * (1 + Point.cross P Q) := by
    rw [c]
    ring
  have two := C.odd
  simp only [Extended.add, e, f, g, h]
  generalize p.z * q.z = z at *
  refine ⟨?_, ?_, ?_, ?_⟩
  · exact mul_ne_zero (mul_ne_zero (mul_ne_zero two denominator) plus)
      (mul_ne_zero (mul_ne_zero two denominator) minus)
  · rw [Point.add_x]
    field_simp
  · rw [Point.add_y]
    field_simp
  · rw [Point.add_x, Point.add_y]
    field_simp

theorem Represents.multiple (represents : p.Represents P) {d2 : F} (double : d2 = 2 * C.d)
    {bits n : Nat} (fits : n < 2 ^ bits) : (p.multiple d2 bits n).Represents (n • P) := by
  induction bits generalizing n with
  | zero =>
    obtain rfl : n = 0 := by simpa using fits
    rw [zero_nsmul]
    exact represents_zero
  | succ bits ih =>
    have half := ih (n := n / 2) (by omega)
    have twice := half.add half double
    rw [← add_nsmul] at twice
    rw [Extended.multiple]
    split_ifs with even
    · rwa [show n / 2 + n / 2 = n by omega] at twice
    · have odd := twice.add represents double
      rwa [← succ_nsmul, show n / 2 + n / 2 + 1 = n by omega] at odd

theorem Represents.eq_zero (represents : p.Represents P) (x : p.x = 0) (y : p.y = p.z) : P = 0 := by
  refine Point.ext ?_ ?_
  · have product := represents.x
    rw [x] at product
    exact (mul_eq_zero.mp product.symm).resolve_right represents.z_ne
  · have product := represents.y
    rw [y] at product
    exact mul_right_cancel₀ represents.z_ne (by rw [← product, Point.zero_y, one_mul])

end Extended

end Base.Edwards
