import LxmfChat.Base.Edwards
import LxmfChat.Base.Primality
import LxmfChat.Reticulum.Curve.Carry
import Mathlib.GroupTheory.OrderOfElement
import Mathlib.NumberTheory.LegendreSymbol.Basic
import Mathlib.Tactic.NormNum.Prime

/-! The curve of Ed25519: its field, its coefficient, its base point and the order of that. -/

namespace LxmfChat

open Base Base.Primality Base.Edwards

def L25519 : Nat := 2 ^ 252 + 27742317777372353535851937790883648493

def smallPrimes : List Nat :=
  [2, 3, 5, 7, 11, 13, 17, 19, 23, 31, 41, 43, 47, 73, 107, 127, 223, 269, 307, 353, 1361, 2437,
    2851, 4153, 5879, 30703, 57467, 65147, 75707, 82163, 132049, 132667, 137849, 430751, 531581,
    569003, 1224481, 1923133, 8574133, 58964693]

theorem smallPrimes_prime : ∀ q ∈ smallPrimes, q.Prime := by
  simp only [smallPrimes, List.forall_mem_cons, List.not_mem_nil, false_implies, implies_true, and_true]
  norm_num

def certificate : List Entry :=
  [⟨31757755568855353, 10, [2, 2, 2, 3, 31, 107, 223, 4153, 430751]⟩,
    ⟨2773320623, 5, [2, 2437, 569003]⟩,
    ⟨72106336199, 7, [2, 13, 2773320623]⟩,
    ⟨1919519569386763, 2, [2, 3, 7, 19, 47, 47, 127, 8574133]⟩,
    ⟨75445702479781427272750846543864801, 7,
      [2, 2, 2, 2, 2, 3, 3, 5, 5, 75707, 72106336199, 1919519569386763]⟩,
    ⟨74058212732561358302231226437062788676166966415465897661863160754340907, 2,
      [2, 3, 353, 57467, 132049, 1923133, 31757755568855353, 75445702479781427272750846543864801]⟩,
    ⟨P25519, 2,
      [2, 2, 3, 65147, 74058212732561358302231226437062788676166966415465897661863160754340907]⟩,
    ⟨3044861653679985063343, 5, [2, 3, 11, 30703, 82163, 132667, 137849]⟩,
    ⟨198211423230930754013084525763697, 5, [2, 2, 2, 2, 3, 23, 58964693, 3044861653679985063343]⟩,
    ⟨292386187, 2, [2, 3, 3, 3, 3, 307, 5879]⟩,
    ⟨213441916511, 13, [2, 5, 73, 292386187]⟩,
    ⟨1257559732178653, 2, [2, 2, 3, 7, 23, 531581, 1224481]⟩,
    ⟨4434155615661930479, 17, [2, 41, 43, 1257559732178653]⟩,
    ⟨172054593956031949258510691, 2, [2, 5, 1361, 2851, 4434155615661930479]⟩,
    ⟨19757330305831588566944191468367130476339, 2,
      [2, 269, 213441916511, 172054593956031949258510691]⟩,
    ⟨276602624281642239937218680557139826668747, 2,
      [2, 7, 19757330305831588566944191468367130476339]⟩,
    ⟨L25519, 2,
      [2, 2, 3, 11, 198211423230930754013084525763697,
        276602624281642239937218680557139826668747]⟩]

theorem certified : Certified smallPrimes certificate := by decide +kernel

theorem prime_of_certificate {p : Nat} (listed : p ∈ certificate.map Entry.p) : p.Prime := by
  obtain ⟨e, isEntry, rfl⟩ := List.mem_map.mp listed
  exact certified.prime smallPrimes_prime e isEntry

instance : Fact P25519.Prime := ⟨prime_of_certificate (by decide)⟩

instance : Fact L25519.Prime := ⟨prime_of_certificate (by decide)⟩

namespace Ed25519

def d : ZMod P25519 :=
  37095705934669439343138083508754565189542113879843219016388785533085940283555

def i : ZMod P25519 :=
  19681161376707505956807079304988542015446066515923890162744021073123829784752

theorem d_mul : d * 121666 = -121665 := by decide +kernel

theorem not_isSquare_d : ¬ IsSquare d := by
  have nonzero : d ≠ 0 := by decide +kernel
  have euler : power d 255 (P25519 / 2) ≠ 1 := by decide +kernel
  rw [power_eq d (by decide)] at euler
  exact mt (ZMod.euler_criterion P25519 nonzero).mp euler

def curve : Curve (ZMod P25519) where
  d := d
  i := i
  root := by decide +kernel
  odd := by decide +kernel
  nonsquare := not_isSquare_d

def base : Point curve where
  x := 15112221349535400772501151409588531511454012693041857206046113283949847762202
  y := 46316835694926478169428394003475163141307993866256225615783033603165251855960
  on := by decide +kernel

theorem base_y : base.y * 5 = 4 ∧ base.x.val % 2 = 0 := by decide +kernel

def extendedBase : Extended (ZMod P25519) := { x := base.x, y := base.y, z := 1, t := base.x * base.y }

theorem represents_base : extendedBase.Represents base where
  z_ne := one_ne_zero
  x := (mul_one _).symm
  y := (mul_one _).symm
  t := (mul_one _).symm

theorem L25519_nsmul_base : L25519 • base = 0 := by
  have represents : (extendedBase.multiple (2 * d) 253 L25519).Represents (L25519 • base) :=
    represents_base.multiple rfl (by decide)
  have x : (extendedBase.multiple (2 * d) 253 L25519).x = 0 := by decide +kernel
  have y : (extendedBase.multiple (2 * d) 253 L25519).y
      = (extendedBase.multiple (2 * d) 253 L25519).z := by decide +kernel
  exact represents.eq_zero x y

theorem addOrderOf_base : addOrderOf base = L25519 := by
  refine addOrderOf_eq_prime L25519_nsmul_base fun zero => ?_
  have x : base.x = 0 := congrArg Point.x zero
  exact absurd x (by decide +kernel)

theorem nsmul_base_eq_iff (m n : Nat) : m • base = n • base ↔ m % L25519 = n % L25519 := by
  rw [nsmul_eq_nsmul_iff_modEq, addOrderOf_base]
  rfl

end Ed25519

end LxmfChat
