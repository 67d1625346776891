import LxmfChat.Base.Digits
import LxmfChat.Base.Int64

/-! Products of numbers in digits, added up place by place without carrying. -/

namespace Base

open Checked

variable {n m w : Nat}

def addRow (a : Vector Int n) (b : Vector Int m) (room : n + m ≤ w + 1) (t : Vector Int w)
    (i : Fin n) : Checked (Vector Int w) :=
  each m (fun t j => do
    let k : Fin w := ⟨i + j, by omega⟩
    return put t k (← I64.add (t.get k) (← I64.mul (a.get i) (b.get j)))) t

def addProduct (a : Vector Int n) (b : Vector Int m) (room : n + m ≤ w + 1) (t : Vector Int w) :
    Checked (Vector Int w) :=
  each n (addRow a b room) t

variable {a : Vector Int n} {b : Vector Int m} {t t' : Vector Int w} {room : n + m ≤ w + 1}
  {W M T : Int}

/-- Half way through a row: so many rows are complete, and so many digits of this one. -/
structure Row (W M T : Int) (a : Vector Int n) (b : Vector Int m) (t : Vector Int w) (i j : Nat)
    (t' : Vector Int w) : Prop where
  small : ∀ k, |digit t' k| ≤ T + i * M + if i ≤ k ∧ k < i + j then M else 0
  same : value W t' = value W t + front W a i * value W b + digit a i * W ^ i * front W b j

theorem addRow_row (products : ∀ i < n, ∀ j < m, |digit a i * digit b j| ≤ M)
    (limit : T + n * M ≤ 2 ^ 62) (positive : 0 ≤ M) {i : Fin n} {s : Vector Int w}
    (row : Row W M T a b t i 0 s) : (addRow a b room s i).Returns (Row W M T a b t i m) := by
  have rows : (i : Int) * M + M ≤ n * M := by
    have few : (i : Int) + 1 ≤ n := by omega
    have more := Int.mul_le_mul_of_nonneg_right few positive
    rwa [Int.add_mul, Int.one_mul] at more
  refine Returns.each row fun j s' before => ?_
  have product := products i i.isLt j j.isLt
  have sum := before.small (i + j)
  rw [if_neg (by omega), Int.add_zero] at sum
  rw [abs_le] at product sum
  simp only [get_eq_digit]
  rw [I64.mul_ok ⟨by omega, by omega⟩, ok_bind, I64.add_ok ⟨by omega, by omega⟩, ok_bind]
  refine .ok ⟨fun k => ?_, ?_⟩
  · -- A place is reached once in a row.
    rw [digit_put]
    have bound := before.small k
    split_ifs with same inside inside
    · rw [abs_le]
      omega
    · exact absurd same (by dsimp only; omega)
    · split_ifs at bound <;> omega
    · rwa [if_neg (by dsimp only at same; omega)] at bound
  · rw [value_put, before.same, front_succ]
    dsimp only
    rw [pow_add]
    ring

theorem Row.next (positive : 0 ≤ M) {i : Nat} (row : Row W M T a b t i m t') :
    Row W M T a b t (i + 1) 0 t' := by
  refine ⟨fun k => ?_, ?_⟩
  · have bound := row.small k
    push_cast
    rw [add_mul, one_mul]
    split_ifs at bound ⊢ <;> omega
  · rw [row.same, front_succ _ a i, front_zero, show front W b m = value W b from rfl]
    ring

theorem addProduct_returns (products : ∀ i < n, ∀ j < m, |digit a i * digit b j| ≤ M)
    (start : ∀ k, |digit t k| ≤ T) (limit : T + n * M ≤ 2 ^ 62) (positive : 0 ≤ M) :
    (addProduct a b room t).Returns fun t' =>
      (∀ k, |digit t' k| ≤ T + n * M) ∧ value W t' = value W t + value W a * value W b := by
  have rows : (addProduct a b room t).Returns (Row W M T a b t n 0) := by
    refine Returns.each (I := fun i => Row W M T a b t i 0) ⟨fun k => ?_, ?_⟩ fun i s before =>
      (addRow_row products limit positive before).mono fun t' row => row.next positive
    · rw [if_neg (by omega), Nat.cast_zero, zero_mul, add_zero, add_zero]
      exact start k
    · rw [front_zero, front_zero]
      ring
  refine rows.mono fun t' row => ⟨fun k => ?_, ?_⟩
  · have bound := row.small k
    rwa [if_neg (by omega), add_zero] at bound
  · rw [row.same, front_zero, mul_zero, add_zero]
    rfl

end Base
