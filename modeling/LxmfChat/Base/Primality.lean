import Mathlib.Data.List.Prime
import Mathlib.NumberTheory.LucasPrimality

/-! Certificates of primality: every prime comes with the factors of its predecessor. -/

namespace Base.Primality

def power {M : Type*} [Monoid M] (a : M) : Nat → Nat → M
  | 0, _ => 1
  | bits + 1, n =>
    let half := power a bits (n / 2)
    if n % 2 = 0 then half * half else half * half * a

theorem power_eq {M : Type*} [Monoid M] (a : M) {bits n : Nat} (fits : n < 2 ^ bits) :
    power a bits n = a ^ n := by
  induction bits generalizing n with
  | zero =>
    obtain rfl : n = 0 := by simpa using fits
    rw [power, pow_zero]
  | succ bits ih =>
    have half := ih (n := n / 2) (by omega)
    rw [power]
    simp only [half, ← pow_add, ← pow_succ]
    split_ifs with even
    · congr 1
      omega
    · congr 1
      omega

/-- A number, a generator of its units, and the prime factors of its predecessor. -/
structure Entry where
  p : Nat
  a : Nat
  factors : List Nat

def Entry.generated (e : Entry) (n : Nat) : ZMod e.p :=
  power (e.a : ZMod e.p) (e.p.log2 + 1) n

/-- The generator has the order that only a prime allows, if the factors are primes. -/
structure Entry.Passes (e : Entry) (proven : List Nat) : Prop where
  known : ∀ q ∈ e.factors, q ∈ proven
  product : e.factors.prod = e.p - 1
  whole : e.generated (e.p - 1) = 1
  parts : ∀ q ∈ e.factors, e.generated ((e.p - 1) / q) ≠ 1

instance (e : Entry) (proven : List Nat) : Decidable (e.Passes proven) :=
  decidable_of_iff ((∀ q ∈ e.factors, q ∈ proven) ∧ e.factors.prod = e.p - 1 ∧
      e.generated (e.p - 1) = 1 ∧ ∀ q ∈ e.factors, e.generated ((e.p - 1) / q) ≠ 1)
    ⟨fun checked => ⟨checked.1, checked.2.1, checked.2.2.1, checked.2.2.2⟩,
      fun passes => ⟨passes.known, passes.product, passes.whole, passes.parts⟩⟩

theorem Entry.generated_eq (e : Entry) {n : Nat} (fits : n ≤ e.p) : e.generated n = e.a ^ n :=
  power_eq _ (fits.trans_lt Nat.lt_log2_self)

theorem Entry.Passes.prime {e : Entry} {proven : List Nat} (passes : e.Passes proven)
    (primes : ∀ q ∈ proven, q.Prime) : e.p.Prime := by
  refine lucas_primality e.p e.a ?_ fun q prime divides => ?_
  · rw [← e.generated_eq (Nat.sub_le _ _)]
    exact passes.whole
  · -- A prime factor of the predecessor is one of those that are given.
    rw [← passes.product, Prime.dvd_prod_iff prime.prime] at divides
    obtain ⟨factor, isFactor, divides⟩ := divides
    obtain rfl := (Nat.prime_dvd_prime_iff_eq prime (primes _ (passes.known _ isFactor))).mp divides
    rw [← e.generated_eq ((Nat.div_le_self _ _).trans (Nat.sub_le _ _))]
    exact passes.parts _ isFactor

/-- Every number is certified by those before it. -/
def Certified : List Nat → List Entry → Prop
  | _, [] => True
  | proven, e :: rest => e.Passes proven ∧ Certified (e.p :: proven) rest

instance decidableCertified : (proven : List Nat) → (entries : List Entry) →
    Decidable (Certified proven entries)
  | _, [] => isTrue trivial
  | proven, e :: rest =>
    have := decidableCertified (e.p :: proven) rest
    inferInstanceAs (Decidable (e.Passes proven ∧ Certified (e.p :: proven) rest))

theorem Certified.prime {proven : List Nat} {entries : List Entry}
    (certified : Certified proven entries) (primes : ∀ q ∈ proven, q.Prime) :
    ∀ e ∈ entries, e.p.Prime := by
  induction entries generalizing proven with
  | nil => exact fun e absent => absurd absent List.not_mem_nil
  | cons first rest ih =>
    have prime := certified.1.prime primes
    have later := ih certified.2 (List.forall_mem_cons.mpr ⟨prime, primes⟩)
    exact List.forall_mem_cons.mpr ⟨prime, later⟩

end Base.Primality
