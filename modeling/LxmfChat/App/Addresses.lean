import LxmfChat.Micron.Targets

/-! The two ways an address is read, and where they differ. -/

namespace LxmfChat

open Base Checked Micron

def parseAddr (s : Text) : Checked (Option (BytesN 16)) :=
  let s := trim s
  if byteLength s ≠ 16 * 2 then return none
  else do return (← hexPairs s 16 0).map (BytesN.ofBytes 16)

theorem parseAddr_hex (addr : BytesN 16) : parseAddr (hex addr.val) = .ok (some addr) := by
  have wide : byteLength (hex addr.val) = 32 := by
    rw [byteLength_plain fun c there => plain_of_digit (digit_of_mem_hex there), length_hex,
      addr.length_val]
  have read := hexPairs_hex addr.val
  rw [addr.length_val] at read
  rw [parseAddr, trim_hex, if_neg (by simp [wide]), read, ok_bind, Option.map_some,
    BytesN.ofBytes_self]
  rfl

theorem parseAddr_digits {run : Text} (long : run.length = 32)
    (digits : ∀ c ∈ run, isAsciiHexdigit c = true) :
    ∃ addr, parseAddr run = .ok (some addr) ∧ Encodes run addr := by
  simp only [isAsciiHexdigit_eq] at digits
  have plain : ∀ c ∈ run, Plain c := fun c there => plain_of_digit (digits c there)
  obtain ⟨found, read, iff⟩ := hexPairs_hash plain long
  obtain ⟨bytes, stands⟩ := exists_fromHex (n := 16) long digits
  have whole : bytes.length = 16 := by
    have := (digits_of_fromHex stands).1
    omega
  have same : found = some ⟨bytes, whole⟩ := (iff ⟨bytes, whole⟩).mpr stands
  refine ⟨⟨bytes, whole⟩, ?_, long, by simpa only [isAsciiHexdigit_eq] using digits, stands⟩
  rw [parseAddr, trim_eq fun c there => isWhitespace_of_digit (digits c there),
    if_neg (by simp [byteLength_plain plain, long]), read, same]

end LxmfChat
