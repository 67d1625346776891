import LxmfChat.Reticulum.Crypto
import LxmfChat.Reticulum.Curve.Compression
import LxmfChat.Reticulum.Curve.Scalars

/-! Signatures: what is signed verifies, and which signatures verify besides. -/

namespace LxmfChat.Ed25519

open Base Checked Sha512
open Edwards (Point)

theorem length_joined (R s : BytesN 32) : (R.val ++ s.val).length = 64 := by
  rw [List.length_append, R.property, s.property]

def joined (R s : BytesN 32) : BytesN 64 := ⟨R.val ++ s.val, length_joined R s⟩

def challenge (R public_key : BytesN 32) (message : Bytes) : Nat :=
  leNat (sha512 (R.val ++ public_key.val ++ message)).val % L25519

theorem challenge_lt (R public_key : BytesN 32) (message : Bytes) :
    challenge R public_key message < L25519 :=
  Nat.mod_lt _ (by decide)

theorem reduce_challenge (R public_key : BytesN 32) (message : Bytes) :
    reduce (sha512 (R.val ++ public_key.val ++ message))
      = .ok (scalarBytes (challenge R public_key message)) :=
  reduce_ok _

theorem verify_ok {public_key : BytesN 32} {q : ExtendedPoint} {Q : Point curve}
    (opened : unpackneg public_key = .ok (some q)) (isQ : IsPoint q Q) (message : Bytes)
    (R s : BytesN 32) :
    verify public_key message (joined R s) = .ok (decide (encodePoint
      (challenge R public_key message • Q + leNat s.val • base) = R)) := by
  have first : (joined R s).val.take 32 = R.val := List.take_left' R.property
  have second : (joined R s).val.drop 32 = s.val := List.drop_left' R.property
  rw [verify, opened, ok_bind]
  dsimp only
  rw [first, second, BytesN.ofBytes_self, reduce_challenge, ok_bind]
  refine Returns.eq_ok ?_
  refine (scalarmult_returns isQ _).bind fun p isP => ?_
  refine (scalarbase_returns s).bind fun sb isSb => ?_
  refine (pointAdd_returns isP isSb).bind fun sum isSum => ?_
  rw [leNat_scalarBytes (challenge_lt _ _ _)] at isSum
  rw [packPoint_ok isSum, ok_bind]
  exact .ok (decide_eq_decide.mpr Subtype.ext_iff.symm)

def publicPoint (seed : BytesN 32) : Point curve := leNat (secretScalar seed).val • base

theorem publicKey_ok (seed : BytesN 32) : publicKey seed = .ok (encodePoint (publicPoint seed)) := by
  rw [publicKey]
  refine Returns.eq_ok ((scalarbase_returns _).bind fun p isP => ?_)
  exact ⟨_, packPoint_ok isP, rfl⟩

def nonce (seed : BytesN 32) (message : Bytes) : Nat :=
  leNat (sha512 ((sha512 seed.val).val.drop 32 ++ message)).val % L25519

def commitment (seed : BytesN 32) (message : Bytes) : BytesN 32 :=
  encodePoint (nonce seed message • base)

def response (seed public_key : BytesN 32) (message : Bytes) : Nat :=
  (nonce seed message + challenge (commitment seed message) public_key message
    * leNat (secretScalar seed).val) % L25519

theorem response_lt (seed public_key : BytesN 32) (message : Bytes) :
    response seed public_key message < L25519 :=
  Nat.mod_lt _ (by decide)

theorem sign_ok (seed public_key : BytesN 32) (message : Bytes) :
    sign seed public_key message
      = .ok (joined (commitment seed message) (scalarBytes (response seed public_key message))) := by
  have least : nonce seed message < L25519 := Nat.mod_lt _ (by decide)
  rw [sign, reduce_ok, ok_bind]
  refine Returns.eq_ok ?_
  refine (scalarbase_returns _).bind fun R isR => ?_
  rw [← nonce, leNat_scalarBytes least] at isR
  rw [packPoint_ok isR, ok_bind, reduce_challenge, ok_bind]
  refine (accumulate_returns _ _ _).bind fun x sum => ?_
  rw [modl_accumulated sum.1 sum.2, ok_bind, ← nonce, leNat_scalarBytes least,
    leNat_scalarBytes (challenge_lt _ _ _)]
  exact .ok rfl

theorem mod_nsmul_base (n : Nat) : (n % L25519) • base = n • base := by
  rw [nsmul_base_eq_iff, Nat.mod_mod]

theorem equation_holds (r h a : Nat) :
    h • -(a • base) + ((r + h * a) % L25519) • base = r • base := by
  rw [mod_nsmul_base, add_nsmul, mul_nsmul', neg_nsmul]
  abel

theorem own_signature_accepted (seed : BytesN 32) (message : Bytes) :
    verify (encodePoint (publicPoint seed)) message (joined (commitment seed message)
      (scalarBytes (response seed (encodePoint (publicPoint seed)) message))) = .ok true := by
  -- The public key opens to the negative of the point that it encodes.
  obtain ⟨result, opened, unpacked⟩ := unpackneg_returns (encodePoint (publicPoint seed))
  obtain ⟨q, rfl, isQ⟩ := unpacked.complete (publicPoint seed) rfl
  rw [verify_ok opened isQ, leNat_scalarBytes (response_lt _ _ _), publicPoint, response,
    equation_holds, commitment, decide_eq_true rfl]

/--
Every signature that the software makes verifies.

The public key is that of the seed, and nothing panics on the way.
-/
theorem sign_verifies (seed : BytesN 32) (message : Bytes) :
    ∃ public_key signature, publicKey seed = .ok public_key ∧
      sign seed public_key message = .ok signature ∧
      verify public_key message signature = .ok true :=
  ⟨_, _, publicKey_ok seed, sign_ok seed _ message, own_signature_accepted seed message⟩

theorem opened_of_accepted {public_key R s : BytesN 32} {message : Bytes}
    (accepted : verify public_key message (joined R s) = .ok true) :
    ∃ q Q, unpackneg public_key = .ok (some q) ∧ IsPoint q Q := by
  obtain ⟨result, opened, unpacked⟩ := unpackneg_returns public_key
  cases result with
  | none =>
    rw [verify, opened] at accepted
    cases accepted
  | some q =>
    obtain ⟨Q, isQ⟩ := unpacked.sound q rfl
    exact ⟨q, Q, opened, isQ⟩

theorem accepted_iff {public_key R s : BytesN 32} {message : Bytes}
    (accepted : verify public_key message (joined R s) = .ok true) (s' : BytesN 32) :
    verify public_key message (joined R s') = .ok true
      ↔ leNat s'.val % L25519 = leNat s.val % L25519 := by
  obtain ⟨q, Q, opened, isQ⟩ := opened_of_accepted accepted
  rw [verify_ok opened isQ, Except.ok.injEq, decide_eq_true_eq] at accepted ⊢
  rw [← nsmul_base_eq_iff]
  constructor
  · intro accepted'
    exact add_left_cancel (encodePoint_injective (accepted'.trans accepted.symm))
  · intro same
    rw [same]
    exact accepted

theorem second_signature (seed : BytesN 32) (message : Bytes) :
    ∃ public_key R s s', publicKey seed = .ok public_key ∧
      sign seed public_key message = .ok (joined R s) ∧
      leNat s'.val = leNat s.val + L25519 ∧
      verify public_key message (joined R s') = .ok true := by
  have accepted := own_signature_accepted seed message
  have made := sign_ok seed (encodePoint (publicPoint seed)) message
  have least := response_lt seed (encodePoint (publicPoint seed)) message
  generalize response seed (encodePoint (publicPoint seed)) message = s at accepted made least
  -- Twice the order still fits into thirty-two bytes.
  have room : 2 * L25519 < 256 ^ 32 := by decide
  have written : leNat (scalarBytes (s + L25519)).val = s + L25519 :=
    (leNat_leBytes 32 _).trans (Nat.mod_eq_of_lt (by omega))
  refine ⟨_, _, _, scalarBytes (s + L25519), publicKey_ok seed, made, ?_,
    (accepted_iff accepted _).mpr ?_⟩
  · rw [written, leNat_scalarBytes least]
  · rw [written, leNat_scalarBytes least, Nat.add_mod_right]

/--
What is checked of a signature is the group equation of Ed25519, without the cofactor.

The key is the encoding of any point, also of one that is no multiple of the base.
-/
theorem verify_encoded (Q : Point curve) (message : Bytes) (R s : BytesN 32) :
    verify (encodePoint Q) message (joined R s) = .ok (decide (encodePoint
      (leNat s.val • base - challenge R (encodePoint Q) message • Q) = R)) := by
  obtain ⟨result, opened, unpacked⟩ := unpackneg_returns (encodePoint Q)
  obtain ⟨q, rfl, isQ⟩ := unpacked.complete Q rfl
  rw [verify_ok opened isQ, neg_nsmul, neg_add_eq_sub]

/-- The signatures of the stack are the software's. -/
structure Signs (crypto : Crypto) : Prop where
  publicKey : ∀ seed, publicKey seed = .ok (crypto.ed25519Public seed)
  sign : ∀ seed public_key message,
    sign seed public_key message = .ok (crypto.ed25519Sign seed public_key message)
  verify : ∀ public_key message signature,
    verify public_key message signature = .ok (crypto.ed25519Verify public_key message signature)

theorem Signs.signVerifies {crypto : Crypto} (signs : Signs crypto) : crypto.SignVerifies := by
  intro seed message
  have key : encodePoint (publicPoint seed) = crypto.ed25519Public seed :=
    Except.ok.inj ((publicKey_ok seed).symm.trans (signs.publicKey seed))
  have accepted := own_signature_accepted seed message
  have made := (sign_ok seed (encodePoint (publicPoint seed)) message).symm.trans (signs.sign seed _ message)
  rw [Except.ok.inj made, signs.verify, key] at accepted
  exact Except.ok.inj accepted

theorem exists_joined (signature : BytesN 64) : ∃ R s, signature = joined R s := by
  refine ⟨⟨signature.val.take 32, by simp⟩, ⟨signature.val.drop 32, by simp⟩, Subtype.ext ?_⟩
  exact (List.take_append_drop 32 signature.val).symm

theorem verify_returns (public_key : BytesN 32) (message : Bytes) (signature : BytesN 64) :
    ∃ answer, verify public_key message signature = .ok answer := by
  obtain ⟨R, s, rfl⟩ := exists_joined signature
  obtain ⟨result, opened, unpacked⟩ := unpackneg_returns public_key
  cases result with
  | none =>
    refine ⟨false, ?_⟩
    rw [verify, opened]
    rfl
  | some q =>
    obtain ⟨Q, isQ⟩ := unpacked.sound q rfl
    exact ⟨_, verify_ok opened isQ message R s⟩

def withSignatures (crypto : Crypto) : Crypto :=
  { crypto with
    ed25519Public := fun seed => encodePoint (publicPoint seed)
    ed25519Sign := fun seed public_key message =>
      joined (commitment seed message) (scalarBytes (response seed public_key message))
    ed25519Verify := fun public_key message signature =>
      decide (verify public_key message signature = .ok true) }

theorem signs_withSignatures (crypto : Crypto) : Signs (withSignatures crypto) where
  publicKey := publicKey_ok
  sign := sign_ok
  verify := by
    intro public_key message signature
    obtain ⟨answer, returned⟩ := verify_returns public_key message signature
    rw [returned, withSignatures]
    dsimp only
    rw [returned]
    cases answer <;> rfl

end LxmfChat.Ed25519
