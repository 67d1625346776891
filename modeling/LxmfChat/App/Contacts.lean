import LxmfChat.App.Addresses
import LxmfChat.App.Tickets
import LxmfChat.Reticulum.Announce

/-! Contacts as they are stored, under names that others chose. -/

namespace LxmfChat

open Base Checked

def unhex (s : Text) : Checked (Option Bytes) :=
  if byteLength s % 2 ≠ 0 then return none else hexPairs s (byteLength s / 2) 0

def contactText (name : Text) (pubkey : Option (BytesN 64)) (ratchet : Option KeyHalf) : Text :=
  name ++
    match pubkey with
    | none => []
    | some pk => '\x00' :: hex pk.val ++
      match ratchet with
      | none => []
      | some r => '\x00' :: hex r.val

def persistContact (dict : Table Text Bytes) (dest : TruncatedHash) (name : Text)
    (pubkey : Option (BytesN 64)) (ratchet : Option KeyHalf) : Table Text Bytes :=
  (dict.erase (hex dest.val)).insert (hex dest.val) (utf8Encode (contactText name pubkey ratchet))

def unhexPart : Option Text → Checked (Option Bytes)
  | none => return none
  | some part => unhex part

def loadContact (crypto : Crypto) (dict : Table Text Bytes)
    (state : Transport × Table TruncatedHash Text) (key : Text) :
    Checked (Transport × Table TruncatedHash Text) := do
  match ← parseAddr key with
  | none => return state
  | some dh =>
    match dict.lookup key with
    | none => return state
    | some buf =>
      let parts := (utf8Lossy buf).splitOn '\x00'
      let name := parts.headD []
      match (← unhexPart parts[1]?).filter (·.length = 64) with
      | some pubkey =>
        let ratchet := (← unhexPart parts[2]?).bind fun r =>
          if width : r.length = 32 then some (⟨r, width⟩ : KeyHalf) else none
        match PublicIdentity.fromPublicKey crypto pubkey with
        | .ok identity =>
          let info := ⟨identity, BytesN.ofBytes 10 [], ratchet, utf8Encode name⟩
          return (state.1.remember dh info, state.2.insert dh name)
        | .error _ => return state
      | none => return (state.1, state.2.insert dh name)

def loadContacts (crypto : Crypto) (dict : Table Text Bytes) (transport : Transport)
    (contacts : Table TruncatedHash Text) : Checked (Transport × Table TruncatedHash Text) :=
  dict.keys.foldlM (loadContact crypto dict) (transport, contacts)

theorem unhex_hex (bytes : Bytes) : unhex (hex bytes) = .ok (some bytes) := by
  have wide : byteLength (hex bytes) = 2 * bytes.length := by
    rw [byteLength_plain fun c there => plain_of_digit (digit_of_mem_hex there), length_hex]
  rw [unhex, wide, if_neg (by omega), Nat.mul_div_cancel_left _ (by decide), hexPairs_hex]

theorem nul_notMem_cleanName {raw name : Text} (clean : cleanName raw = some name) :
    '\x00' ∉ name := by
  intro there
  simp only [cleanName] at clean
  split at clean
  case isTrue => cases clean
  case isFalse =>
    cases clean
    have kept := mem_of_mem_trim there
    simp at kept

theorem nul_notMem_lxmfDisplayName {appData : Bytes} {name : Text}
    (named : lxmfDisplayName appData = .ok (some name)) : '\x00' ∉ name := by
  -- Whatever the announce looks like, its name was cleaned.
  suffices clean : ∃ raw, cleanName raw = some name from nul_notMem_cleanName clean.choose_spec
  rw [lxmfDisplayName.eq_def] at named
  split at named
  case h_1 => cases named
  case h_2 b0 rest =>
    split at named
    case isTrue =>
      split at named
      case h_1 b _ _ => exact ⟨_, Except.ok.inj named⟩
      case h_2 s _ _ => exact ⟨_, Except.ok.inj named⟩
      case h_3 => cases named
      case h_4 => cases named
    case isFalse => exact ⟨_, Except.ok.inj named⟩

def contactParts (name : Text) (key : Option (BytesN 64 × Option KeyHalf)) : List Text :=
  name :: (key.elim [] fun k => hex k.1.val :: k.2.elim [] fun r => [hex r.val])

theorem contactText_eq (name : Text) (key : Option (BytesN 64 × Option KeyHalf)) :
    contactText name (key.map (·.1)) (key.bind (·.2)) =
      ['\x00'].intercalate (contactParts name key) := by
  rcases key with _ | ⟨pk, _ | r⟩ <;> simp [contactText, contactParts, List.intercalate]

theorem nul_notMem_hex (bytes : Bytes) : '\x00' ∉ hex bytes := by
  intro there
  have digit := digit_of_mem_hex there
  revert digit
  decide

theorem splitOn_contactText {name : Text} (plain : '\x00' ∉ name)
    (key : Option (BytesN 64 × Option KeyHalf)) :
    (contactText name (key.map (·.1)) (key.bind (·.2))).splitOn '\x00' = contactParts name key := by
  rw [contactText_eq]
  refine List.splitOn_intercalate _ (fun part there => ?_) (List.cons_ne_nil _ _)
  rcases key with _ | ⟨pk, _ | r⟩ <;>
    simp only [contactParts, Option.elim_none, Option.elim_some, List.mem_cons, List.not_mem_nil,
      or_false] at there
  · rwa [there]
  · rcases there with rfl | rfl
    exacts [plain, nul_notMem_hex _]
  · rcases there with rfl | rfl | rfl
    exacts [plain, nul_notMem_hex _, nul_notMem_hex _]

def keptInfo (crypto : Crypto) (name : Text) (key : BytesN 64 × Option KeyHalf) : KnownDest where
  identity := ⟨BytesN.slice key.1.val 0 32 (by simp), BytesN.slice key.1.val 32 32 (by simp),
    truncatedHash crypto key.1.val⟩
  nameHash := BytesN.ofBytes 10 []
  ratchet := key.2
  appData := utf8Encode name

theorem fromPublicKey_eq (crypto : Crypto) (name : Text) (key : BytesN 64 × Option KeyHalf) :
    PublicIdentity.fromPublicKey crypto key.1.val = .ok (keptInfo crypto name key).identity := by
  rw [PublicIdentity.fromPublicKey, dif_neg (by simp)]
  rfl

theorem loadContact_persistContact (crypto : Crypto) {name : Text} (plain : '\x00' ∉ name)
    (dict : Table Text Bytes) (dest : TruncatedHash) (key : Option (BytesN 64 × Option KeyHalf))
    (t : Transport) (contacts : Table TruncatedHash Text) :
    loadContact crypto (persistContact dict dest name (key.map (·.1)) (key.bind (·.2)))
        (t, contacts) (hex dest.val) =
      .ok (key.elim t fun k => t.remember dest (keptInfo crypto name k), contacts.insert dest name) := by
  rw [loadContact, parseAddr_hex, ok_bind]
  dsimp only
  rw [persistContact, AList.lookup_insert]
  dsimp only
  rw [utf8Lossy_encode, splitOn_contactText plain]
  rcases key with _ | ⟨pk, ratchet⟩
  · rfl
  · have wide : (some pk.val).filter (·.length = 64) = some pk.val := by simp
    have identity := fromPublicKey_eq crypto name (pk, ratchet)
    rcases ratchet with _ | r
    · simp [contactParts, unhexPart, unhex_hex, wide, identity, keptInfo]
    · simp [contactParts, unhexPart, unhex_hex, wide, identity, keptInfo]

/--
A contact comes back as it was written, with the name that its announce gave it.

No name can be taken for a key, and none can hide one.
-/
theorem contact_comes_back (crypto : Crypto) {appData : Bytes} {name : Text}
    (named : lxmfDisplayName appData = .ok (some name)) (dest : TruncatedHash)
    (key : Option (BytesN 64 × Option KeyHalf)) (t : Transport)
    (contacts : Table TruncatedHash Text) :
    ∃ t' contacts',
      loadContacts crypto (persistContact ∅ dest name (key.map (·.1)) (key.bind (·.2))) t contacts =
        .ok (t', contacts')
      ∧ (∀ dict, loadContact crypto (persistContact dict dest name (key.map (·.1)) (key.bind (·.2)))
        (t, contacts) (hex dest.val) = .ok (t', contacts'))
      ∧ contacts'.lookup dest = some name
      ∧ match key with
        | none => t' = t
        | some (pk, ratchet) => ∃ info, t'.known.get dest = some info
          ∧ info.identity.publicKey = pk ∧ info.ratchet = ratchet := by
  have plain := nul_notMem_lxmfDisplayName named
  refine ⟨_, _, ?_, fun dict => loadContact_persistContact crypto plain dict dest key t contacts,
    AList.lookup_insert .., ?_⟩
  · rw [loadContacts, show (persistContact ∅ dest name _ _).keys = [hex dest.val] from ?_,
      List.foldlM_cons, loadContact_persistContact crypto plain]
    · rfl
    · rw [persistContact, AList.keys_insert]
      rfl
  · rcases key with _ | ⟨pk, ratchet⟩
    · rfl
    · have whole := PublicIdentity.fromPublicKey_ok (fromPublicKey_eq crypto name (pk, ratchet))
      exact ⟨_, Capped.get_insert_self .., Subtype.ext whole.1, rfl⟩

/-- A name with a zero byte in it comes back without it, and with its key. -/
theorem contact_comes_back_cleaned :
    lxmfDisplayName [0x41, 0x00, 0x42] = .ok (some ['A', 'B'])
    ∧ ∀ (crypto : Crypto) (dest : TruncatedHash) (pk : BytesN 64) (t : Transport),
      ∃ t' contacts', loadContacts crypto (persistContact ∅ dest ['A', 'B'] (some pk) none) t ∅ =
          .ok (t', contacts')
        ∧ contacts'.lookup dest = some ['A', 'B'] := by
  refine ⟨rfl, fun crypto dest pk t => ?_⟩
  obtain ⟨t', contacts', loaded, -, listed, -⟩ :=
    contact_comes_back crypto (show lxmfDisplayName [0x41, 0x00, 0x42] = .ok (some ['A', 'B']) from rfl)
      dest (some (pk, none)) t ∅
  exact ⟨t', contacts', loaded, listed⟩

end LxmfChat
