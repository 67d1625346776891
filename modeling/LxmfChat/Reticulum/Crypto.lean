import LxmfChat.Base.Bytes

/-! The cryptographic primitives the stack is built on, and the token cipher over them. -/

namespace LxmfChat

open Base

abbrev TruncatedHash := BytesN 16

abbrev FullHash := BytesN 32

abbrev KeyHalf := BytesN 32

abbrev SessionKey := BytesN 64

abbrev Signature := BytesN 64

abbrev Iv := BytesN 16

/--
The primitives supplied by other crates or by the vendored curve code.

Only their argument and result widths are fixed here.
What a theorem relies on beyond that is one of the named laws below.
-/
structure Crypto where
  sha256 : Bytes → FullHash
  hmacSha256 : KeyHalf → Bytes → BytesN 32
  hkdf : (length : Nat) → (deriveFrom salt context : Bytes) → BytesN length
  aesCbcEncrypt : KeyHalf → Iv → Bytes → Bytes
  aesCbcDecrypt : KeyHalf → Iv → Bytes → Option Bytes
  x25519 : (scalar point : KeyHalf) → KeyHalf
  x25519Base : (scalar : KeyHalf) → KeyHalf
  ed25519Public : (seed : KeyHalf) → KeyHalf
  ed25519Sign : (seed sigPub : KeyHalf) → Bytes → Signature
  ed25519Verify : (sigPub : KeyHalf) → Bytes → Signature → Bool

/-- Decrypting what was encrypted under the same key and vector gives the plaintext back. -/
def Crypto.CbcInverse (crypto : Crypto) : Prop :=
  ∀ key iv plaintext,
    crypto.aesCbcDecrypt key iv (crypto.aesCbcEncrypt key iv plaintext) = some plaintext

/-- The cipher fills the last block up, and adds a block to a plaintext of whole blocks. -/
def Crypto.CbcPads (crypto : Crypto) : Prop :=
  ∀ key iv plaintext,
    (crypto.aesCbcEncrypt key iv plaintext).length = 16 * (plaintext.length / 16 + 1)

/-- Both ends of a key exchange compute the same shared secret. -/
def Crypto.DhSymmetric (crypto : Crypto) : Prop :=
  ∀ a b, crypto.x25519 a (crypto.x25519Base b) = crypto.x25519 b (crypto.x25519Base a)

/-- A signature made with a seed verifies under the public key of that seed. -/
def Crypto.SignVerifies (crypto : Crypto) : Prop :=
  ∀ seed message, crypto.ed25519Verify (crypto.ed25519Public seed) message
    (crypto.ed25519Sign seed (crypto.ed25519Public seed) message) = true

section Hashes

variable (crypto : Crypto)

def fullHash (data : Bytes) : FullHash := crypto.sha256 data

def truncatedHash (data : Bytes) : TruncatedHash := BytesN.ofBytes 16 (fullHash crypto data).val

theorem FullHash.room (h : FullHash) : 0 + 16 ≤ h.val.length := by simp

end Hashes

/-- The two halves of a session key: one authenticates, the other encrypts. -/
structure Token where
  signingKey : KeyHalf
  encryptionKey : KeyHalf

def Token.new (key : Bytes) : Except String Token :=
  if key.length ≠ 64 then .error "Token requires a 64-byte key (AES-256 mode)"
  else .ok ⟨BytesN.ofBytes 32 key, BytesN.ofBytes 32 (key.drop 32)⟩

def Token.ofSessionKey (key : SessionKey) : Token :=
  ⟨BytesN.ofBytes 32 key.val, BytesN.ofBytes 32 (key.val.drop 32)⟩

theorem Token.new_sessionKey (key : SessionKey) :
    Token.new key.val = .ok (Token.ofSessionKey key) := by
  simp [Token.new, Token.ofSessionKey]

variable (crypto : Crypto)

/-- Encrypt under an explicit vector: the vector, the ciphertext, then the tag over both. -/
def Token.encryptWithIv (token : Token) (plaintext : Bytes) (iv : Iv) : Bytes :=
  let signed := iv.val ++ crypto.aesCbcEncrypt token.encryptionKey iv plaintext
  signed ++ (crypto.hmacSha256 token.signingKey signed).val

def Token.decrypt (token : Token) (data : Bytes) : Except String Bytes :=
  if data.length < 16 + 32 then .error "token too short"
  else
    let signed := data.take (data.length - 32)
    let recvMac := data.drop (data.length - 32)
    if (crypto.hmacSha256 token.signingKey signed).val ≠ recvMac then
      .error "token HMAC verification failed"
    else
      match crypto.aesCbcDecrypt token.encryptionKey (BytesN.ofBytes 16 signed)
          (signed.drop 16) with
      | some plaintext => .ok plaintext
      | none => .error "token padding error"

theorem Token.encryptWithIv_length (token : Token) (plaintext : Bytes) (iv : Iv) :
    48 ≤ (token.encryptWithIv crypto plaintext iv).length := by
  simp only [Token.encryptWithIv, List.length_append, BytesN.length_val]
  omega

theorem Token.encryptWithIv_length_eq (pads : crypto.CbcPads) (token : Token) (plaintext : Bytes)
    (iv : Iv) :
    (token.encryptWithIv crypto plaintext iv).length = 16 * (plaintext.length / 16 + 1) + 48 := by
  have blocks := pads token.encryptionKey iv plaintext
  simp only [Token.encryptWithIv, List.length_append, BytesN.length_val]
  omega

theorem Token.decrypt_encryptWithIv (inverse : crypto.CbcInverse) (token : Token)
    (plaintext : Bytes) (iv : Iv) :
    token.decrypt crypto (token.encryptWithIv crypto plaintext iv) = .ok plaintext := by
  have long := token.encryptWithIv_length crypto plaintext iv
  simp only [Token.decrypt, if_neg (Nat.not_lt.mpr long)]
  -- The last thirty-two bytes are the tag, and everything before them is what it signs.
  generalize body : iv.val ++ crypto.aesCbcEncrypt token.encryptionKey iv plaintext = signed
  have output : token.encryptWithIv crypto plaintext iv
      = signed ++ (crypto.hmacSha256 token.signingKey signed).val := by
    simp only [Token.encryptWithIv, body]
  have cut : (token.encryptWithIv crypto plaintext iv).length - 32 = signed.length := by
    simp [output]
  rw [cut, output, List.take_left, List.drop_left]
  simp only [ne_eq, not_true_eq_false, if_false, ← body, BytesN.ofBytes_append,
    BytesN.drop_append, inverse token.encryptionKey iv plaintext]

/--
Small executable primitives, to run the model on concrete inputs.

The digest is a polynomial over the bytes, the cipher hides nothing, and both keys of a pair
are the same.
-/
def Crypto.sample : Crypto where
  sha256 data := BytesN.ofBytes 32 (beBytes 32
    (data.foldl (fun value byte => (value * 257 + byte.toNat + 1) % 2 ^ 256) 0))
  hmacSha256 _ _ := BytesN.ofBytes 32 []
  hkdf length deriveFrom _ _ := BytesN.ofBytes length deriveFrom
  aesCbcEncrypt _ _ plaintext := plaintext
  aesCbcDecrypt _ _ data := some data
  x25519 scalar point := BytesN.ofBytes 32 (List.zipWith (· + ·) scalar.val point.val)
  x25519Base scalar := scalar
  ed25519Public seed := seed
  ed25519Sign seed _ message := BytesN.ofBytes 64 (seed.val ++ message)
  ed25519Verify sigPub message signature :=
    signature == BytesN.ofBytes 64 (sigPub.val ++ message)

theorem Crypto.sample_cbcInverse : Crypto.sample.CbcInverse := fun _ _ _ => rfl

theorem Crypto.sample_signVerifies : Crypto.sample.SignVerifies := fun _ _ => beq_self_eq_true _

theorem Crypto.sample_dhSymmetric : Crypto.sample.DhSymmetric := by
  intro a b
  simp only [Crypto.sample]
  rw [List.zipWith_comm_of_comm (f := (· + ·)) (fun x y => UInt8.add_comm x y)]

end LxmfChat
