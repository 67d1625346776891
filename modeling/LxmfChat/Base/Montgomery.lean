import Mathlib.Algebra.Ring.Defs

/-! The Montgomery ladder of RFC 7748, section 5, over a commutative ring. -/

namespace Base.Montgomery

variable {R : Type*}

/-- Two points of the curve, each as a fraction. -/
structure Pair (R : Type*) where
  x₂ : R
  z₂ : R
  x₃ : R
  z₃ : R

def Pair.cswap (swap : Bool) (s : Pair R) : Pair R :=
  if swap then ⟨s.x₃, s.z₃, s.x₂, s.z₂⟩ else s

theorem Pair.cswap_cswap (first second : Bool) (s : Pair R) :
    (s.cswap first).cswap second = s.cswap (first ^^ second) := by
  cases first <;> cases second <;> rfl

variable [CommRing R]

def Pair.advance (x₁ a24 : R) (s : Pair R) : Pair R :=
  let A := s.x₂ + s.z₂
  let AA := A ^ 2
  let B := s.x₂ - s.z₂
  let BB := B ^ 2
  let E := AA - BB
  let C := s.x₃ + s.z₃
  let D := s.x₃ - s.z₃
  let DA := D * A
  let CB := C * B
  { x₃ := (DA + CB) ^ 2
    z₃ := x₁ * (DA - CB) ^ 2
    x₂ := AA * BB
    z₂ := E * (AA + a24 * E) }

/-- The points, and whether they still have to be exchanged. -/
structure State (R : Type*) where
  points : Pair R
  swap : Bool

def step (x₁ a24 : R) (bit : Bool) (s : State R) : State R :=
  { points := (s.points.cswap (s.swap ^^ bit)).advance x₁ a24
    swap := bit }

def run (x₁ a24 : R) (k : Nat) : Nat → State R → State R
  | 0, s => s
  | t + 1, s => run x₁ a24 k t (step x₁ a24 (k.testBit t) s)

def ladder (a24 : R) (bits exponent k : Nat) (u : R) : R :=
  let s := run u a24 k bits { points := ⟨1, 0, u, 1⟩, swap := false }
  let points := s.points.cswap s.swap
  points.x₂ * points.z₂ ^ exponent

def State.settled (s : State R) : Pair R := s.points.cswap s.swap

theorem settled_step (x₁ a24 : R) (bit : Bool) (s : State R) :
    (step x₁ a24 bit s).settled = ((s.settled.cswap bit).advance x₁ a24).cswap bit := by
  rw [State.settled, State.settled, Pair.cswap_cswap]
  rfl

end Base.Montgomery
