import LxmfChat.Reticulum.Curve.Ed25519

/-! Scalars are reduced to their least remainder by the order, and nothing overflows. -/

namespace LxmfChat.Ed25519

open Base Checked

variable {n : Nat} {state : Vector Int 64 × Int}

theorem L_value : value (2 ^ 8) L = L25519 := by decide +kernel

theorem digit_L_bounds (m : Nat) : 0 ≤ digit L m ∧ digit L m ≤ 255 := by
  have bounds : ∀ m : Fin 32, 0 ≤ digit L m ∧ digit L m ≤ 255 := by decide
  by_cases inside : m < 32
  · exact bounds ⟨m, inside⟩
  · rw [digit, dif_neg inside]
    decide

theorem digit_L_middle : ∀ m < 20, 16 ≤ m → digit L m = 0 := by decide

theorem abs_mul_digit_L {t T : Int} (size : |t| ≤ T) (m : Nat) : |t * digit L m| ≤ T * 255 := by
  have bounds := digit_L_bounds m
  rw [abs_mul, abs_of_nonneg bounds.1]
  exact mul_le_mul size bounds.2 bounds.1 ((abs_nonneg t).trans size)

/-- Half way through removing a limb: so many bytes of the multiple of the order are subtracted. -/
structure Clearing (x : Vector Int 64) (t T : Int) (start m : Nat) (state : Vector Int 64 × Int) :
    Prop where
  same : value (2 ^ 8) state.1 + state.2 * (2 ^ 8) ^ (start + m)
    = value (2 ^ 8) x - 16 * t * front (2 ^ 8) L m * (2 ^ 8) ^ start
  done : ∀ j, start ≤ j → j < start + m → -128 ≤ digit state.1 j ∧ digit state.1 j < 128
  other : ∀ j, j < start ∨ start + m ≤ j → digit state.1 j = digit x j
  carry : |state.2| ≤ 32 * T
  little : (∀ j, start + 16 ≤ j → j < start + 20 → -128 ≤ digit x j ∧ digit x j < 128) →
    16 ≤ m → |state.2| ≤ 2 ^ (8 * (20 - m))

variable {x : Vector Int 64} {t T : Int}

theorem carry_le {a c b : Int} (limb : |a| ≤ T) (carry : |c| ≤ 32 * T)
    (product : |b| ≤ 16 * T * 255) (_ : 1 ≤ T) : |(a + (c - b) + 128) / 2 ^ 8| ≤ 32 * T := by
  rw [abs_le] at *
  omega

theorem carry_shrinks {a c : Int} (limb : -128 ≤ a ∧ a < 128) (carry : |c| ≤ 2 ^ (8 * (n + 1))) :
    |(a + (c - 0) + 128) / 2 ^ 8| ≤ 2 ^ (8 * n) := by
  rw [Nat.mul_add, pow_add] at carry
  rw [abs_le] at *
  omega

theorem subtractByte_returns {i : Fin 64} {start : Nat} {room : start + 20 ≤ 64}
    (above : start + 20 ≤ i) (positive : 1 ≤ T) (limit : T ≤ 2 ^ 27) (size : ∀ j, |digit x j| ≤ T)
    (m : Fin 20) (clearing : Clearing x (digit x i) T start m state) :
    (subtractByte i start room state m).Returns (Clearing x (digit x i) T start (m + 1)) := by
  have limb := size (start + m)
  have multiple := size i
  have carry := clearing.carry
  have sixteen : |16 * digit x i| ≤ 16 * T := by
    rw [abs_mul]
    exact Int.mul_le_mul_of_nonneg_left multiple (by decide)
  have product := abs_mul_digit_L sixteen m
  have carried := carry_le limb carry product positive
  have little : (∀ j, start + 16 ≤ j → j < start + 20 → -128 ≤ digit x j ∧ digit x j < 128) →
      16 ≤ (m : Nat) + 1 →
      |(digit x (start + m) + (state.2 - 16 * digit x i * digit L m) + 128) / 2 ^ 8|
        ≤ 2 ^ (8 * (20 - ((m : Nat) + 1))) := by
    intro small late
    by_cases first : (m : Nat) + 1 = 16
    · rw [first]
      refine carried.trans ?_
      norm_num
      omega
    · rw [digit_L_middle m m.isLt (by omega), mul_zero]
      refine carry_shrinks (small _ (by omega) (by omega)) ?_
      rw [show 20 - ((m : Nat) + 1) + 1 = 20 - m by omega]
      exact clearing.little small (by omega)
  have here : digit state.1 (start + m) = digit x (start + m) := clearing.other _ (by omega)
  rw [subtractByte]
  simp only [get_eq_digit, clearing.other i (by omega), here]
  generalize hy : digit x (start + m) + (state.2 - 16 * digit x i * digit L m) = y at *
  have same := clearing.same
  rw [abs_le] at limb multiple carry sixteen product
  rw [I64.mul_ok ⟨by omega, by omega⟩, ok_bind, I64.mul_ok ⟨by omega, by omega⟩, ok_bind,
    I64.sub_ok ⟨by omega, by omega⟩, ok_bind, I64.add_ok ⟨by omega, by omega⟩, ok_bind, hy]
  have self : digit (put state.1 ⟨start + m, by omega⟩ y) (start + m) = y := digit_put_self _ _ _
  rw [self, I64.add_ok ⟨by omega, by omega⟩, ok_bind, I64.shr_eq, I64.shl_ok ⟨by omega, by omega⟩,
    ok_bind, I64.sub_ok ⟨by omega, by omega⟩, ok_bind]
  refine .ok ⟨?_, ?_, ?_, carried, little⟩
  · -- What leaves the limb is what is carried on.
    have place : (2 : Int) ^ 8 * (2 ^ 8) ^ (start + (m : Nat)) = (2 ^ 8) ^ (start + ((m : Nat) + 1)) := by
      rw [← Nat.add_assoc, pow_succ]
      ring
    rw [value_put, value_put, front_succ, ← place]
    dsimp only
    rw [self, here]
    have sum : y - digit x (start + m) = state.2 - 16 * digit x i * digit L m := by omega
    rw [pow_add] at same ⊢
    linear_combination same + (2 ^ 8) ^ start * (2 ^ 8) ^ (m : Nat) * sum
  · intro j after before
    rw [digit_put, digit_put]
    split_ifs with last
    · omega
    · exact clearing.done j after (by dsimp only at last; omega)
  · intro j outside
    rw [digit_put, digit_put]
    split_ifs with last
    · exact absurd last (by dsimp only; omega)
    · exact clearing.other j (by omega)

theorem subtractBytes_returns (k : Fin 32) (positive : 1 ≤ T) (limit : T ≤ 2 ^ 27)
    (size : ∀ j, |digit x j| ≤ T) :
    (each 20 (subtractByte ⟨k + 32, by omega⟩ k (by omega)) (x, 0)).Returns
      (Clearing x (digit x (k + 32)) T k 20) := by
  refine Returns.each (I := Clearing x (digit x (k + 32)) T k) ⟨?_, ?_, ?_, ?_, ?_⟩
    fun m state clearing => ?_
  · rw [front_zero]
    ring
  · intro j after before
    omega
  · exact fun j _ => rfl
  · rw [abs_zero]
    omega
  · intro _ late
    omega
  · exact subtractByte_returns (i := ⟨k + 32, by omega⟩) (by dsimp only; omega) positive limit size m
      clearing

/-- What is left when a high limb is removed. -/
structure Cleared (x : Vector Int 64) (k : Nat) (c : Int) (x' : Vector Int 64) : Prop where
  same : value (2 ^ 8) x' = value (2 ^ 8) x - 16 * digit x (k + 32) * (2 ^ 8) ^ k * L25519
  low : ∀ j, k ≤ j → j < k + 20 → -128 ≤ digit x' j ∧ digit x' j < 128
  next : digit x' (k + 20) = digit x (k + 20) + c
  gone : digit x' (k + 32) = 0
  other : ∀ j, j < k ∨ k + 20 < j ∧ j ≠ k + 32 → digit x' j = digit x j

theorem L25519_eq : front (2 ^ 8) L 20 + 16 * (2 ^ 8) ^ 31 = L25519 := by decide +kernel

theorem clearByte_returns (k : Fin 32) (positive : 1 ≤ T) (limit : T ≤ 2 ^ 27)
    (size : ∀ j, |digit x j| ≤ T) :
    (clearByte x k).Returns fun x' => ∃ c, Cleared x k c x' ∧ |c| ≤ 32 * T ∧
      ((∀ j, (k : Nat) + 16 ≤ j → j < k + 20 → -128 ≤ digit x j ∧ digit x j < 128) → |c| ≤ 1) := by
  rw [clearByte]
  refine (subtractBytes_returns k positive limit size).bind fun state clearing => ?_
  have carry := clearing.carry
  have next := size (k + 20)
  rw [abs_le] at carry next
  have above : digit state.1 (k + 32) = digit x (k + 32) := clearing.other _ (by omega)
  have here : digit state.1 (k + 20) = digit x (k + 20) := clearing.other _ (by omega)
  simp only [get_eq_digit, here]
  rw [I64.add_ok ⟨by omega, by omega⟩, ok_bind]
  refine .ok ⟨state.2, ⟨?_, ?_, ?_, ?_, ?_⟩, clearing.carry,
    fun small => clearing.little small (by decide)⟩
  · have same := clearing.same
    have order := L25519_eq
    rw [value_put, value_put, digit_put_of_ne (by dsimp only; omega)]
    dsimp only
    rw [above, here]
    rw [pow_add] at same ⊢
    rw [pow_add _ (k : Nat) 32]
    linear_combination same - 16 * digit x (k + 32) * (2 ^ 8) ^ (k : Nat) * order
  · intro j after before
    rw [digit_put_of_ne (by dsimp only; omega), digit_put_of_ne (by dsimp only; omega)]
    exact clearing.done j after before
  · rw [digit_put_of_ne (by dsimp only; omega)]
    exact digit_put_self _ _ _
  · exact digit_put_self _ _ _
  · intro j outside
    rw [digit_put_of_ne (by dsimp only; omega), digit_put_of_ne (by dsimp only; omega)]
    exact clearing.other j (by omega)

/--
So many high limbs are left.

The limbs that were just subtracted from are within a byte, those above them have got a carry, and
one limb may have got a large one from the first limb that was removed.
-/
structure Remaining (V : Int) (k : Nat) (x : Vector Int 64) : Prop where
  same : (L25519 : Int) ∣ value (2 ^ 8) x - V
  gone : ∀ j, k + 32 ≤ j → digit x j = 0
  size : ∀ j, |digit x j| ≤ if j = 51 ∧ k < 32 then 2 ^ 27 else 2 ^ 21
  low : k < 32 → ∀ j, k ≤ j → j < k + 20 → -128 ≤ digit x j ∧ digit x j < 128
  high : k < 32 → ∀ j, k + 20 ≤ j → j ≤ 50 → |digit x j| ≤ 129

variable {V : Int}

namespace Cleared

variable {k : Nat} {c : Int} {x' : Vector Int 64}

theorem dvd (cleared : Cleared x k c x') (same : (L25519 : Int) ∣ value (2 ^ 8) x - V) :
    (L25519 : Int) ∣ value (2 ^ 8) x' - V := by
  rw [cleared.same, sub_right_comm]
  exact dvd_sub same (dvd_mul_left _ _)

theorem gone' (cleared : Cleared x k c x') (gone : ∀ j, k + 1 + 32 ≤ j → digit x j = 0) :
    ∀ j, k + 32 ≤ j → digit x' j = 0 := by
  intro j above
  by_cases last : j = k + 32
  · rw [last, cleared.gone]
  · rw [cleared.other j (by omega), gone j (by omega)]

theorem abs_le' (cleared : Cleared x k c x') {j : Nat} {M : Int} (other : j ≠ k + 20)
    (size : |digit x j| ≤ M) (byte : 128 ≤ M) : |digit x' j| ≤ M := by
  by_cases low : k ≤ j ∧ j < k + 20
  · have bounds := cleared.low j low.1 low.2
    rw [abs_le]
    omega
  · by_cases last : j = k + 32
    · rw [last, cleared.gone, abs_zero]
      omega
    · rwa [cleared.other j (by omega)]

end Cleared

namespace Remaining

theorem first (remaining : Remaining V 32 x) : (clearByte x 31).Returns (Remaining V 31) := by
  have size : ∀ j, |digit x j| ≤ 2 ^ 21 := by
    intro j
    have bound := remaining.size j
    rwa [if_neg (by omega)] at bound
  refine (clearByte_returns 31 (by norm_num) (by norm_num) size).mono fun x' result => ?_
  obtain ⟨c, cleared, carry, -⟩ := result
  refine ⟨cleared.dvd remaining.same, cleared.gone' remaining.gone, ?_, fun _ => cleared.low, ?_⟩
  · intro j
    by_cases next : j = 51
    · have before := size 51
      have after : digit x' 51 = digit x 51 + c := cleared.next
      rw [if_pos ⟨next, by decide⟩, next, after]
      rw [abs_le] at *
      omega
    · rw [if_neg fun both => next both.1]
      exact cleared.abs_le' next (size j) (by norm_num)
  · intro _ j above below
    have : ((31 : Fin 32) : Nat) = 31 := rfl
    omega

theorem later {k : Fin 32} (late : (k : Nat) < 31) (remaining : Remaining V (k + 1) x) :
    (clearByte x k).Returns (Remaining V k) := by
  have size : ∀ j, |digit x j| ≤ 2 ^ 27 := by
    intro j
    have bound := remaining.size j
    split_ifs at bound <;> omega
  have low := remaining.low (by omega)
  refine (clearByte_returns k (by norm_num) (by norm_num) size).mono fun x' result => ?_
  obtain ⟨c, cleared, -, little⟩ := result
  have carry := little fun j after before => low j (by omega) (by omega)
  -- The limb that gets the carry was brought into range just before.
  have next : |digit x' (k + 20)| ≤ 129 := by
    have before := low (k + 20) (by omega) (by omega)
    rw [cleared.next]
    rw [abs_le] at *
    omega
  refine ⟨cleared.dvd remaining.same, cleared.gone' remaining.gone, ?_, fun _ => cleared.low, ?_⟩
  · intro j
    have bound : |digit x j| ≤ if j = 51 ∧ (k : Nat) < 32 then 2 ^ 27 else 2 ^ 21 := by
      have bound := remaining.size j
      split_ifs at bound ⊢ <;> omega
    by_cases here : j = k + 20
    · rw [here]
      refine next.trans ?_
      split_ifs <;> norm_num
    · refine cleared.abs_le' here bound ?_
      split_ifs <;> norm_num
  · intro _ j above below
    by_cases here : j = k + 20
    · rw [here]
      exact next
    · exact cleared.abs_le' here (remaining.high (by omega) j (by omega) below) (by norm_num)

theorem all (remaining : Remaining V 32 x) :
    (eachDown 32 clearByte x).Returns (Remaining V 0) := by
  refine Returns.eachDown (I := Remaining V) remaining fun k x remaining => ?_
  by_cases late : (k : Nat) < 31
  · exact remaining.later late
  · obtain rfl : k = 31 := Fin.ext (by rw [show ((31 : Fin 32) : Nat) = 31 from rfl]; omega)
    exact remaining.first

theorem small (remaining : Remaining V 0 x) {j : Nat} (inside : j < 32) : |digit x j| ≤ 129 := by
  by_cases low : j < 20
  · have bounds := remaining.low (by decide) j (Nat.zero_le j) (by omega)
    rw [abs_le]
    omega
  · exact remaining.high (by decide) j (by omega) (by omega)

theorem value_eq (remaining : Remaining V 0 x) : value (2 ^ 8) x = front (2 ^ 8) x 32 := by
  have rest := front_add (2 ^ 8) x 32 32
  have zero : ∑ j ∈ Finset.range 32, digit x (j + 32) * (2 ^ 8) ^ j = 0 :=
    Finset.sum_eq_zero fun j _ => by rw [remaining.gone (j + 32) (by omega), zero_mul]
  rw [zero, mul_zero, add_zero] at rest
  exact rest

end Remaining

structure Subtracting (x : Vector Int 64) (j : Nat) (state : Vector Int 64 × Int) : Prop where
  same : front (2 ^ 8) state.1 j + state.2 * (2 ^ 8) ^ j
    = front (2 ^ 8) x j - digit x 31 / 2 ^ 4 * front (2 ^ 8) L j
  done : ∀ i < j, 0 ≤ digit state.1 i ∧ digit state.1 i < 2 ^ 8
  other : ∀ i, j ≤ i → digit state.1 i = digit x i
  carry : |state.2| ≤ 16

theorem subtractOrder_step (small : ∀ j < 32, |digit x j| ≤ 129) (k : Fin 32)
    (subtracting : Subtracting x k state) :
    (subtractOrder state k).Returns (Subtracting x (k + 1)) := by
  have limb := small k k.isLt
  have carry := subtracting.carry
  have times : |digit x 31 / 2 ^ 4| ≤ 9 := by
    have top := small 31 (by decide)
    rw [abs_le] at *
    omega
  have product := abs_mul_digit_L times k
  have here : digit state.1 k = digit x k := subtracting.other k (Nat.le_refl _)
  have top : digit state.1 31 = digit x 31 := subtracting.other 31 (by omega)
  rw [subtractOrder]
  simp only [get_eq_digit, show ((31 : Fin 64) : Nat) = 31 from rfl, top, here, I64.shr_eq]
  generalize hy : digit x k + (state.2 - digit x 31 / 2 ^ 4 * digit L k) = y
  have self : digit (put state.1 ⟨k, by omega⟩ y) k = y := digit_put_self _ _ _
  have mask : Int.land y 255 = y % 2 ^ 8 := I64.land_mask y 8
  rw [abs_le] at limb carry product times
  rw [I64.mul_ok ⟨by omega, by omega⟩, ok_bind, I64.sub_ok ⟨by omega, by omega⟩, ok_bind,
    I64.add_ok ⟨by omega, by omega⟩, ok_bind, hy, self, mask]
  refine .ok ⟨?_, ?_, ?_, ?_⟩
  · have same := subtracting.same
    have parts : y % 2 ^ 8 = y - 2 ^ 8 * (y / 2 ^ 8) := by omega
    have byte : digit (put (put state.1 ⟨k, by omega⟩ y) ⟨k, by omega⟩ (y % 2 ^ 8)) k = y % 2 ^ 8 :=
      digit_put_self _ _ _
    rw [front_succ, byte, front_put, if_neg (Nat.lt_irrefl _), front_put, if_neg (Nat.lt_irrefl _),
      front_succ, front_succ, pow_succ (2 ^ 8 : Int), parts]
    linear_combination same - (2 ^ 8) ^ (k : Nat) * hy
  · intro i inside
    rw [digit_put, digit_put]
    split_ifs with last
    · omega
    · exact subtracting.done i (by dsimp only at last; omega)
  · intro i after
    rw [digit_put_of_ne (by dsimp only; omega), digit_put_of_ne (by dsimp only; omega)]
    exact subtracting.other i (by omega)
  · dsimp only
    rw [abs_le]
    omega

theorem cast_L25519 : (L25519 : Int) = 2 ^ 252 + 27742317777372353535851937790883648493 := by
  rw [L25519]
  norm_num

theorem quotient_bounds (small : ∀ j < 32, |digit x j| ≤ 129) :
    -(L25519 : Int) < front (2 ^ 8) x 32 - digit x 31 / 2 ^ 4 * L25519 ∧
      front (2 ^ 8) x 32 - digit x 31 / 2 ^ 4 * L25519 < L25519 := by
  have top : front (2 ^ 8) x 32 = front (2 ^ 8) x 31 + digit x 31 * (2 ^ 8) ^ 31 := front_succ _ _ 31
  have sum := sub_one_mul_abs_front_le (W := 2 ^ 8) (v := x) (k := 31) (by norm_num)
    fun j inside => small j (by omega)
  have low := neg_abs_le (front (2 ^ 8) x 31)
  have high := le_abs_self (front (2 ^ 8) x 31)
  have last := small 31 (by decide)
  rw [← pow_mul] at top sum
  rw [abs_le] at last
  rw [top, cast_L25519]
  -- The lower limbs are about half a unit of the highest one, and the order is sixteen units.
  omega

/-- Bytes are left, and what is borrowed from beyond them says whether the order is missing. -/
structure Subtracted (V : Int) (state : Vector Int 64 × Int) : Prop where
  done : ∀ i < 32, 0 ≤ digit state.1 i ∧ digit state.1 i < 2 ^ 8
  above : digit state.1 32 = 0
  carry : state.2 = 0 ∨ state.2 = -1
  same : (L25519 : Int) ∣ front (2 ^ 8) state.1 32 + state.2 * 2 ^ 256 - V
  range : 0 ≤ front (2 ^ 8) state.1 32 + state.2 * 2 ^ 256 - state.2 * L25519 ∧
    front (2 ^ 8) state.1 32 + state.2 * 2 ^ 256 - state.2 * L25519 < L25519

theorem subtractOrder_returns (remaining : Remaining V 0 x) :
    (each 32 subtractOrder (x, 0)).Returns (Subtracted V) := by
  have start : Subtracting x 0 (x, 0) := by
    refine ⟨?_, fun i inside => absurd inside (Nat.not_lt_zero i), fun i _ => rfl, by norm_num⟩
    simp only [front_zero]
    ring
  refine (Returns.each start fun k state => subtractOrder_step (fun j => remaining.small) k).mono
    fun state subtracting => ?_
  have same := subtracting.same
  have order : front (2 ^ 8) L 32 = L25519 := L_value
  rw [order, ← pow_mul] at same
  have bounds := quotient_bounds fun j => remaining.small (j := j)
  have low := front_nonneg (W := 2 ^ 8) (by norm_num) fun i inside => (subtracting.done i inside).1
  have high := front_lt (W := 2 ^ 8) (by norm_num) fun i inside => (subtracting.done i inside).2
  rw [← pow_mul] at high
  have carry : state.2 = 0 ∨ state.2 = -1 := by
    rw [cast_L25519] at same bounds
    omega
  refine ⟨subtracting.done, ?_, carry, ?_, ?_⟩
  · rw [subtracting.other 32 (Nat.le_refl _), remaining.gone 32 (by decide)]
  · rw [same, ← remaining.value_eq, sub_right_comm]
    exact dvd_sub remaining.same (dvd_mul_left _ _)
  · rcases carry with none | one
    · rw [none] at same ⊢
      omega
    · rw [one] at same ⊢
      omega

structure AddingBack (x : Vector Int 64) (c : Int) (j : Nat) (x' : Vector Int 64) : Prop where
  done : ∀ i < j, digit x' i = digit x i - c * digit L i
  other : ∀ i, j ≤ i → digit x' i = digit x i

theorem addBack_returns {c : Int} (bytes : ∀ i < 32, 0 ≤ digit x i ∧ digit x i < 2 ^ 8)
    (once : c = 0 ∨ c = -1) : (each 32 (addBack c) x).Returns (AddingBack x c 32) := by
  refine Returns.each (I := AddingBack x c)
    ⟨fun i inside => absurd inside (Nat.not_lt_zero i), fun i _ => rfl⟩ fun k x' before => ?_
  have limb := bytes k k.isLt
  have order := digit_L_bounds k
  have product : -255 ≤ c * digit L k ∧ c * digit L k ≤ 0 := by
    rcases once with rfl | rfl <;> omega
  rw [addBack]
  simp only [get_eq_digit, before.other k (Nat.le_refl _)]
  rw [I64.mul_ok ⟨by omega, by omega⟩, ok_bind, I64.sub_ok ⟨by omega, by omega⟩, ok_bind]
  refine .ok ⟨fun i inside => ?_, fun i after => ?_⟩
  · rw [digit_put]
    split_ifs with last
    · rw [last]
    · exact before.done i (by dsimp only at last; omega)
  · rw [digit_put_of_ne (by dsimp only; omega)]
    exact before.other i (by omega)

theorem AddingBack.front_eq {c : Int} {x' : Vector Int 64} (added : AddingBack x c 32 x') :
    front (2 ^ 8) x' 32 = front (2 ^ 8) x 32 - c * L25519 := by
  rw [← show front (2 ^ 8) L 32 = L25519 from L_value, front, front, front, Finset.mul_sum,
    ← Finset.sum_sub_distrib]
  refine Finset.sum_congr rfl fun i inside => ?_
  rw [added.done i (Finset.mem_range.mp inside)]
  ring

/-- Half way through the last carries: the bytes so far and the limb that has got the carry. -/
structure Settling (x : Vector Int 64) (j : Nat) (y : Vector Int 64) : Prop where
  same : ∑ i ∈ Finset.range j, digit y i % 2 ^ 8 * (2 ^ 8) ^ i + digit y j * (2 ^ 8) ^ j
    = front (2 ^ 8) x (j + 1)
  other : ∀ i, j < i → digit y i = digit x i
  small : |digit y j| ≤ 2 ^ 10

theorem carryByte_returns (small : ∀ i ≤ 32, |digit x i| ≤ 2 ^ 9) :
    (each 32 carryByte x).Returns (Settling x 32) := by
  refine Returns.each (I := Settling x) ⟨?_, fun i _ => rfl, ?_⟩ fun k y before => ?_
  · rw [Finset.sum_range_zero, front_succ, front_zero]
  · exact (small 0 (by decide)).trans (by norm_num)
  · have here := before.small
    have next := small (k + 1) (by omega)
    rw [abs_le] at here next
    rw [carryByte]
    simp only [get_eq_digit, I64.shr_eq, before.other (k + 1) (Nat.lt_succ_self _)]
    rw [I64.add_ok ⟨by omega, by omega⟩, ok_bind]
    have self : digit (put y ⟨k + 1, by omega⟩ (digit x (k + 1) + digit y k / 2 ^ 8)) (k + 1)
        = digit x (k + 1) + digit y k / 2 ^ 8 := digit_put_self _ _ _
    refine .ok ⟨?_, fun i after => ?_, ?_⟩
    · have parts : digit y k % 2 ^ 8 = digit y k - 2 ^ 8 * (digit y k / 2 ^ 8) := by omega
      have kept : ∑ i ∈ Finset.range (k + 1), digit (put y ⟨k + 1, by omega⟩
            (digit x (k + 1) + digit y k / 2 ^ 8)) i % 2 ^ 8 * (2 ^ 8) ^ i
          = ∑ i ∈ Finset.range (k + 1), digit y i % 2 ^ 8 * (2 ^ 8) ^ i := by
        refine Finset.sum_congr rfl fun i inside => ?_
        have below := Finset.mem_range.mp inside
        rw [digit_put_of_ne (by dsimp only; omega)]
      rw [kept, self, Finset.sum_range_succ, front_succ, ← before.same, parts, pow_succ (2 ^ 8 : Int)]
      ring
    · rw [digit_put_of_ne (by dsimp only; omega)]
      exact before.other i (by omega)
    · rw [self, abs_le]
      omega

theorem leNat_lowBytes (y : Vector Int 64) :
    (leNat (lowBytes y).val : Int) = ∑ i ∈ Finset.range 32, digit y i % 2 ^ 8 * (2 ^ 8) ^ i := by
  rw [lowBytes, leNat_map, Finset.sum_range]
  push_cast
  refine Finset.sum_congr rfl fun i _ => ?_
  have mask : Int.land (digit y i) 255 = digit y i % 2 ^ 8 := I64.land_mask _ 8
  rw [get_eq_digit, mask, toNat_ofInt (by omega) (by omega)]
  norm_num

def scalarBytes (n : Nat) : BytesN 32 := ⟨leBytes 32 n, leBytes_length _ _⟩

theorem leNat_scalarBytes (least : n < L25519) : leNat (scalarBytes n).val = n := by
  have below : L25519 < 256 ^ 32 := by decide
  exact (leNat_leBytes 32 n).trans (Nat.mod_eq_of_lt (least.trans below))

theorem Subtracted.small (subtracted : Subtracted V state) {x' : Vector Int 64}
    (added : AddingBack state.1 state.2 32 x') {i : Nat} (inside : i ≤ 32) :
    |digit x' i| ≤ 2 ^ 9 := by
  by_cases last : i = 32
  · rw [last, added.other 32 (Nat.le_refl _), subtracted.above]
    norm_num
  · have byte := subtracted.done i (by omega)
    have order := digit_L_bounds i
    rw [added.done i (by omega), abs_le]
    rcases subtracted.carry with none | one
    · rw [none]
      omega
    · rw [one]
      omega

theorem Subtracted.remainder (subtracted : Subtracted V state) {x' y : Vector Int 64}
    (added : AddingBack state.1 state.2 32 x') (settling : Settling x' 32 y) :
    (leNat (lowBytes y).val : Int) = V % L25519 := by
  have same := settling.same
  have above : digit x' 32 = 0 := by rw [added.other 32 (Nat.le_refl _), subtracted.above]
  rw [← leNat_lowBytes, front_succ, above, zero_mul, add_zero, added.front_eq, ← pow_mul] at same
  have range := subtracted.range
  have width : leNat (lowBytes y).val < 2 ^ 256 := by
    have width := leNat_lt (lowBytes y).val
    rwa [(lowBytes y).property] at width
  have total : (leNat (lowBytes y).val : Int)
      = front (2 ^ 8) state.1 32 + state.2 * 2 ^ 256 - state.2 * L25519 := by
    rw [cast_L25519] at *
    omega
  have congruent : (L25519 : Int) ∣ leNat (lowBytes y).val - V := by
    rw [total, sub_right_comm]
    exact dvd_sub subtracted.same (dvd_mul_left _ _)
  rw [← total] at range
  rw [← Int.emod_eq_of_lt range.1 range.2]
  exact Int.emod_eq_emod_iff_emod_sub_eq_zero.mpr (Int.emod_eq_zero_of_dvd congruent)

theorem modl_ok (size : ∀ j, |digit x j| ≤ 2 ^ 21) :
    modl x = .ok (scalarBytes (value (2 ^ 8) x % L25519).toNat) := by
  have start : Remaining (value (2 ^ 8) x) 32 x := by
    refine ⟨by rw [sub_self]; exact dvd_zero _, fun j above => ?_, fun j => ?_, ?_, ?_⟩
    · rw [digit, dif_neg (by omega)]
    · rw [if_neg (by omega)]
      exact size j
    · intro few
      omega
    · intro few
      omega
  rw [modl]
  refine Returns.eq_ok ?_
  refine start.all.bind fun x₁ remaining => ?_
  refine (subtractOrder_returns remaining).bind fun state subtracted => ?_
  refine (addBack_returns subtracted.done subtracted.carry).bind fun x₂ added => ?_
  refine (carryByte_returns fun i => subtracted.small added).bind fun y settling => .ok ?_
  have remainder := subtracted.remainder added settling
  have least : value (2 ^ 8) x % L25519 < L25519 := Int.emod_lt_of_pos _ (by decide)
  refine Subtype.ext (leNat_injective ?_ ?_)
  · rw [(lowBytes y).property, (scalarBytes _).property]
  · rw [leNat_scalarBytes (by omega)]
    omega

theorem digit_limbs {i : Nat} (inside : i < n) (b : Bytes) :
    digit (limbs n b) i = (b.getD i 0).toNat :=
  digit_ofFn _ ⟨i, inside⟩

theorem digit_limbs_bounds (n : Nat) (b : Bytes) (i : Nat) :
    0 ≤ digit (limbs n b) i ∧ digit (limbs n b) i ≤ 255 := by
  by_cases inside : i < n
  · have byte := (b.getD i 0).toNat_lt
    rw [digit_limbs inside]
    omega
  · rw [digit, dif_neg inside]
    decide

theorem value_limbs {b : Bytes} (fits : b.length ≤ n) : value (2 ^ 8) (limbs n b) = leNat b := by
  rw [leNat_eq_sum, value, front]
  push_cast
  symm
  refine (Finset.sum_subset (Finset.range_subset_range.mpr fits) fun i _ outside => ?_).trans ?_
  · rw [List.getD_eq_default _ _ (by simpa using outside)]
    simp
  · refine Finset.sum_congr rfl fun i inside => ?_
    rw [digit_limbs (Finset.mem_range.mp inside)]

theorem reduce_ok (h : BytesN 64) : reduce h = .ok (scalarBytes (leNat h.val % L25519)) := by
  rw [reduce, modl_ok fun j => ?_, value_limbs h.property.le]
  · rfl
  · have bounds := digit_limbs_bounds 64 h.val j
    rw [abs_le]
    omega

theorem accumulate_returns (r h a : BytesN 32) :
    (addProduct (limbs 32 h.val) (limbs 32 a.val) (by decide) (limbs 64 r.val)).Returns fun x =>
      (∀ j, |digit x j| ≤ 2 ^ 21) ∧
        value (2 ^ 8) x = ((leNat r.val + leNat h.val * leNat a.val : Nat) : Int) := by
  have products : ∀ i < 32, ∀ j < 32,
      |digit (limbs 32 h.val) i * digit (limbs 32 a.val) j| ≤ 255 * 255 := by
    intro i _ j _
    have first := digit_limbs_bounds 32 h.val i
    have second := digit_limbs_bounds 32 a.val j
    rw [abs_of_nonneg (mul_nonneg first.1 second.1)]
    exact mul_le_mul first.2 second.2 second.1 (by norm_num)
  have start : ∀ j, |digit (limbs 64 r.val) j| ≤ 255 := by
    intro j
    have bounds := digit_limbs_bounds 64 r.val j
    rw [abs_of_nonneg bounds.1]
    exact bounds.2
  refine (addProduct_returns (W := 2 ^ 8) products start (by norm_num) (by norm_num)).mono
    fun x sum => ⟨fun j => (sum.1 j).trans (by norm_num), ?_⟩
  rw [sum.2, value_limbs (by rw [r.property]; decide), value_limbs h.property.le,
    value_limbs a.property.le]
  push_cast
  rfl

theorem modl_accumulated {r h a : BytesN 32} {x : Vector Int 64} (size : ∀ j, |digit x j| ≤ 2 ^ 21)
    (sum : value (2 ^ 8) x = ((leNat r.val + leNat h.val * leNat a.val : Nat) : Int)) :
    modl x = .ok (scalarBytes ((leNat r.val + leNat h.val * leNat a.val) % L25519)) := by
  rw [modl_ok size, sum]
  rfl

theorem leastRemainder_modl {x : Vector Int 64} (size : ∀ j, |digit x j| ≤ 2 ^ 21) :
    ∃ s, modl x = .ok s ∧ LeastRemainder L25519 (value (2 ^ 8) x) s.val := by
  have bounds := Int.emod_nonneg (value (2 ^ 8) x) (show (L25519 : Int) ≠ 0 by decide)
  have below : value (2 ^ 8) x % L25519 < L25519 := Int.emod_lt_of_pos _ (by decide)
  refine ⟨_, modl_ok size, leastRemainder (by decide) ?_⟩
  rw [leNat_scalarBytes (by omega)]
  omega

/--
Scalars are reduced to the one number below the group order that they are congruent to.

This is so for every hash and for every sum that a signature is made of, and nothing overflows.
-/
theorem modl_canonical (hash : BytesN 64) (r h a : BytesN 32) :
    (∃ s, reduce hash = .ok s ∧ LeastRemainder L25519 (value (2 ^ 8) (limbs 64 hash.val)) s.val)
    ∧ ∃ x, addProduct (limbs 32 h.val) (limbs 32 a.val) (by decide) (limbs 64 r.val) = .ok x
      ∧ value (2 ^ 8) x = ((leNat r.val + leNat h.val * leNat a.val : Nat) : Int)
      ∧ ∃ s, modl x = .ok s ∧ LeastRemainder L25519 (value (2 ^ 8) x) s.val := by
  constructor
  · refine leastRemainder_modl fun j => ?_
    have bounds := digit_limbs_bounds 64 hash.val j
    rw [abs_le]
    omega
  · obtain ⟨x, summed, size, sum⟩ := accumulate_returns r h a
    exact ⟨x, summed, sum, leastRemainder_modl size⟩

end LxmfChat.Ed25519
