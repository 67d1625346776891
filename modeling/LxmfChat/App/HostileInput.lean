import LxmfChat.Base.Script
import LxmfChat.Lxmf.Msgpack
import LxmfChat.Reticulum.Resource.Receiver

/-! What a hostile string can do to the three msgpack readers: wrap the end of a slice. -/

namespace LxmfChat

open Base

namespace Msgpack

instance scriptedTake (n : Nat) : Scripted (take n) := by
  unfold take
  infer_instance

instance scriptedU8 : Scripted u8 where
  script := .u8 unexpectedEnd .done
  run_script := by
    unfold u8 take Script.run
    apply bind_congr
    intro piece
    cases piece <;> rfl

instance scriptedU8AsUsize : Scripted u8AsUsize := by
  unfold u8AsUsize
  infer_instance

instance scriptedBe (n : Nat) : Scripted (be n) := by
  unfold be
  infer_instance

instance scriptedStrN (n : Nat) : Scripted (strN n) := by
  unfold strN
  infer_instance

instance scriptedBinN (n : Nat) : Scripted (binN n) := by
  unfold binN
  infer_instance

section Nested

variable (inner : Read Value) [Scripted inner]

instance scriptedArray (n : Nat) : Scripted (array inner n) := by
  unfold array
  infer_instance

instance scriptedMapEntries : (n : Nat) → (m : Fields) → Scripted (mapEntries inner n m)
  | 0, m => Scripted.pure m
  | n + 1, m => by
    -- Only an integer is followed by a value.
    have later := scriptedMapEntries n
    refine @Scripted.bind _ _ inner _ _ ?_
    intro key
    cases key with
    | int k => exact Scripted.bind inner fun v => mapEntries inner n (insertKey k v m)
    | nil | bool | f64 | str | bin | array | map | strMap => exact Scripted.fail _

instance scriptedMap (n : Nat) : Scripted (map inner n) := by
  unfold map
  infer_instance

end Nested

set_option synthInstance.maxSize 1000 in
instance scriptedValue : (depth : Nat) → Scripted (value depth)
  | 0 => Scripted.fail _
  | depth + 1 => by
    have inner := scriptedValue depth
    unfold value
    infer_instance

end Msgpack

namespace Reader

instance scriptedU8 : Scripted u8 := by
  unfold u8
  infer_instance

instance scriptedU8AsUsize : Scripted u8AsUsize := by
  unfold u8AsUsize
  infer_instance

instance scriptedTake (n : Nat) : Scripted (take n) := by
  unfold take
  infer_instance

instance scriptedBe (n : Nat) : Scripted (be n) := by
  unfold be
  infer_instance

instance scriptedMapLen : Scripted mapLen := by
  unfold mapLen
  infer_instance

instance scriptedArrayLen : Scripted arrayLen := by
  unfold arrayLen
  infer_instance

instance scriptedStrKey : Scripted strKey := by
  unfold strKey
  infer_instance

instance scriptedBin : Scripted bin := by
  unfold bin
  infer_instance

instance scriptedUint : Scripted uint := by
  unfold uint
  infer_instance

instance scriptedSkipValue : Scripted skipValue := by
  unfold skipValue
  infer_instance

end Reader

instance scriptedReadEntry (fields : AdvFields) : Scripted fields.readEntry := by
  unfold AdvFields.readEntry
  infer_instance

instance scriptedReadEntries : (n : Nat) → (fields : AdvFields) →
    Scripted (AdvFields.readEntries n fields)
  | 0, fields => Scripted.pure fields
  | n + 1, fields => by
    have later := scriptedReadEntries n
    unfold AdvFields.readEntries
    infer_instance

def readAdvertisement : Read AdvFields := do AdvFields.readEntries (← Reader.mapLen) {}

instance scriptedReadAdvertisement : Scripted readAdvertisement := by
  unfold readAdvertisement
  infer_instance

instance scriptedReadHashmapUpdate : Scripted readHashmapUpdate := by
  unfold readHashmapUpdate
  infer_instance

end LxmfChat
