import LxmfChat.Lxmf.ReadBack

/-! How deep the values are that the decoder builds: as deep as the input is long. -/

namespace LxmfChat

open Base

def Value.depth : Value → Nat
  | .array a => items a + 1
  | .map m => entries m + 1
  | .strMap m => strEntries m + 1
  | _ => 0
where
  items : List Value → Nat
    | [] => 0
    | v :: rest => max v.depth (items rest)
  entries : List (Int × Value) → Nat
    | [] => 0
    | (_, v) :: rest => max v.depth (entries rest)
  strEntries : List (Text × Value) → Nat
    | [] => 0
    | (_, v) :: rest => max v.depth (strEntries rest)

namespace Value

theorem depth_items_le {a : List Value} {n : Nat} (each : ∀ v ∈ a, v.depth ≤ n) :
    depth.items a ≤ n := by
  induction a with
  | nil => simp [depth.items]
  | cons v rest ih =>
    have first := each v List.mem_cons_self
    have later := ih fun w there => each w (List.mem_cons_of_mem v there)
    simp only [depth.items]
    omega

theorem depth_entries_le {m : Fields} {n : Nat} (each : ∀ e ∈ m, e.2.depth ≤ n) :
    depth.entries m ≤ n := by
  induction m with
  | nil => simp [depth.entries]
  | cons e rest ih =>
    have first := each e List.mem_cons_self
    have later := ih fun w there => each w (List.mem_cons_of_mem e there)
    simp only [depth.entries]
    omega

theorem depth_of_leaf {v : Value} (leaf : Msgpack.Leaf v) : v.depth = 0 := by
  cases v with
  | array | map | strMap => exact leaf.elim
  | nil | bool | int | f64 | str | bin => rfl

def nested : Nat → Value
  | 0 => .array []
  | n + 1 => .array [nested n]

theorem depth_nested (n : Nat) : (nested n).depth = n + 1 := by
  induction n with
  | zero => rfl
  | succ n ih => simp [nested, depth, depth.items, ih]

theorem plain_nested (n : Nat) : (nested n).Plain := by
  induction n with
  | zero =>
    apply Plain.array
    simp
  | succ n ih =>
    apply Plain.array
    simp [ih]

end Value

namespace Msgpack

theorem encode_nested_length (n : Nat) : (encode (Value.nested n)).length = n + 1 := by
  induction n with
  | zero => rfl
  | succ n ih =>
    rw [Value.nested, encode, items_eq_flatMap, List.length_append]
    simp [arrayHead, countHead, ih, Nat.add_comm]

theorem depth_le_of_decode {data : Bytes} {v : Value} (decoded : decode data = .ok v) :
    v.depth ≤ data.length := by
  have yields := yields_value_of (P := fun depth v => v.depth ≤ depth)
    (fun leaf => (Value.depth_of_leaf leaf).trans_le (Nat.zero_le _))
    (fun each => Nat.succ_le_succ (Value.depth_items_le each))
    (fun each => Nat.succ_le_succ (Value.depth_entries_le each)) data.length
  exact (yields_of_decode yields decoded).2

/-- On this input the decoder fails, or what it builds is nested no deeper than the bound. -/
def Shallow (bound : Nat) (data : Bytes) : Prop :=
  (∃ fault, decode data = .error fault) ∨ ∃ v, decode data = .ok v ∧ v.depth ≤ bound

theorem not_shallow_nested {bound : Nat} (fits : bound + 1 < wordSize) :
    ¬ Shallow bound (encode (Value.nested bound)) := by
  have length := encode_nested_length bound
  have decoded := decode_encode (Value.plain_nested bound) (by omega)
  rintro (⟨fault, failed⟩ | ⟨v, found, shallow⟩)
  · rw [decoded] at failed
    cases failed
  · rw [decoded] at found
    cases found
    rw [Value.depth_nested] at shallow
    omega

/--
No bound on the nesting is kept on inputs that are longer than the bound.

A message of 256 KiB is decoded to a value nested as deep, and every bound is passed by an input of
one byte more.
-/
theorem nesting_unbounded :
    ¬ Shallow (256 * 1024 - 1) (encode (Value.nested (256 * 1024 - 1))) ∧
    ¬ ∃ bound, bound + 1 < wordSize ∧
      ∀ data : Bytes, data.length ≤ bound + 1 → Shallow bound data := by
  refine ⟨not_shallow_nested (by decide), ?_⟩
  rintro ⟨bound, fits, shallow⟩
  exact not_shallow_nested fits (shallow _ (encode_nested_length bound).le)

/-- A bound on the nesting is kept on all inputs up to a length exactly if it is that large. -/
theorem nesting_bounded_iff {limit : Nat} (fits : limit < wordSize) (bound : Nat) :
    (∀ data : Bytes, data.length ≤ limit → Shallow bound data) ↔ limit ≤ bound := by
  constructor
  · intro shallow
    by_contra larger
    -- One array more than the bound still fits the limit.
    have length := encode_nested_length bound
    exact not_shallow_nested (by omega) (shallow _ (by omega))
  · intro enough data short
    cases decoded : decode data with
    | error fault => exact .inl ⟨fault, decoded⟩
    | ok v =>
      have depth := depth_le_of_decode decoded
      exact .inr ⟨v, decoded, by omega⟩

/-- Messages of up to 256 KiB are nested up to 262144 deep, and no deeper. -/
theorem nesting_bounded_iff_message :
    (∀ data : Bytes, data.length ≤ 256 * 1024 → Shallow (256 * 1024) data)
      ∧ ¬ ∀ data : Bytes, data.length ≤ 256 * 1024 → Shallow (256 * 1024 - 1) data := by
  have small : 256 * 1024 < wordSize := by decide
  constructor
  · exact (nesting_bounded_iff small _).mpr le_rfl
  · intro shallow
    have enough := (nesting_bounded_iff small _).mp shallow
    omega

end Msgpack

end LxmfChat
