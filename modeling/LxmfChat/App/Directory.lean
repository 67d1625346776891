import LxmfChat.App.Ending
import LxmfChat.Reticulum.Announce

/-! Peers are known under the hash of their own key, whoever taught us about them. -/

namespace LxmfChat

open Base
open Relation (ReflTransGen)

namespace Transport

variable {crypto : Crypto} {t : Transport}

/-- Every known peer owns the address it is known under. -/
def Directory (crypto : Crypto) (t : Transport) : Prop :=
  ∀ address info, t.known.get address = some info →
    Owns crypto info.identity info.nameHash address

theorem Directory.insertKnown (directory : t.Directory crypto) {address : TruncatedHash}
    {info : KnownDest} (owns : Owns crypto info.identity info.nameHash address) :
    (t.insertKnown address info).Directory crypto := by
  intro other found held
  by_cases same : other = address
  · subst same
    have inserted := (Capped.get_insert_self MAX_KNOWN other info t.known).symm.trans held
    cases inserted
    exact owns
  · exact directory other found (Capped.get_of_get_insert same held)

theorem Directory.handleFrame (directory : t.Directory crypto) (raw : Bytes) (ephemeral : KeyHalf)
    (iface : PathIface) : (t.handleFrame crypto raw ephemeral iface).1.Directory crypto := by
  rcases handleFrame_cases t raw ephemeral iface with ⟨p, -, effect⟩ | ⟨reason, result⟩
  · generalize t.handleFrame crypto raw ephemeral iface = handled at effect ⊢
    obtain ⟨u, event⟩ := handled
    cases effect with
    | learned kind valid =>
      obtain ⟨-, -, random, signature, -, vouched⟩ := parseAndValidate_some valid
      exact directory.insertKnown vouched.owns
    | _ => exact directory
  · rw [result]
    exact directory

theorem known_perform {op : Op} (contact : ∀ hash info, op ≠ .remember hash info)
    (frame : ∀ raw ephemeral iface, op ≠ .handleFrame raw ephemeral iface) :
    (t.perform crypto op).known = t.known := by
  cases op with
  | remember hash info => exact absurd rfl (contact hash info)
  | handleFrame raw ephemeral iface => exact absurd rfl (frame raw ephemeral iface)
  | expirePath hash =>
    rw [perform, expirePath]
    split <;> rfl
  | registerDestination hash =>
    rw [perform, registerDestination]
    split <;> rfl
  | outboundLinkFor target now =>
    rw [perform, outboundLinkFor, foldl_removeOutLink]
    split <;> rfl
  | pendingLinkTo target now => rw [perform, pendingLinkTo, foldl_forgetPendingLink]
  | makeLinkData linkId plaintext iv =>
    rw [perform, makeLinkData]
    split
    · rfl
    · rw [registerLinkData_eq]
      rfl
  | makeInLinkData linkId plaintext iv =>
    rw [perform, makeInLinkData]
    split
    · rfl
    · split
      · rfl
      · rw [registerLinkData_eq]
        rfl
  | makeLinkResource linkId data r streamPrefix iv advIv =>
    cases held : t.anyLinkKey linkId with
    | none => simp only [perform, makeLinkResource, held]
    | some key =>
      obtain ⟨tx, adv, -, result⟩ := makeLinkResource_eq crypto held data r streamPrefix iv advIv
      simp only [perform, result]
  | _ => rfl

end Transport

theorem validateIdentify_key {crypto : Crypto} {lid : TruncatedHash} {plaintext : Bytes}
    {identity : PublicIdentity}
    (signed : Link.validateIdentify crypto lid plaintext = some identity) :
    identity.hash = truncatedHash crypto identity.publicKey.val := by
  rw [Link.validateIdentify] at signed
  split at signed
  case isTrue => cases signed
  case isFalse =>
    cases keys : PublicIdentity.fromPublicKey crypto (plaintext.take 64) with
    | error reason => simp [keys] at signed
    | ok found =>
      obtain ⟨same, hash⟩ := PublicIdentity.fromPublicKey_ok keys
      simp only [keys] at signed
      split at signed
      case isFalse => cases signed
      case isTrue =>
        cases signed
        rw [same]
        exact hash

theorem owns_deliveryDestination (cfg : Config) {identity : PublicIdentity}
    (key : identity.hash = truncatedHash cfg.crypto identity.publicKey.val) :
    Owns cfg.crypto identity (lxmfDeliveryNameHash cfg) (deliveryDestination cfg identity) :=
  ⟨rfl, key⟩

theorem transport_announced (cfg : Config) (dest : TruncatedHash) (info : KnownDest) (s : Shared) :
    (announced cfg dest info s).transport = s.transport := by
  rw [announced]
  split
  · rfl
  split
  · rfl
  split
  · rfl
  split <;> rfl

namespace System

variable {cfg : Config} {s s' : System}

/-- Peers are known under their own addresses, and so are those whose events wait. -/
structure Addressed (cfg : Config) (s : System) : Prop where
  directory : s.shared.transport.Directory cfg.crypto
  reported : ∀ lid identity, .linkIdentified lid identity ∈ s.events →
    identity.hash = truncatedHash cfg.crypto identity.publicKey.val

/--
Frames arrive, events are handled, and the transport is called in any other way but one.

That way is `remember`, which the application uses at startup for the contacts it has stored.
-/
def Hears (_ : System) : Action → Prop
  | .frame _ _ _ | .handle _ | .tick _ => True
  | .other op => ∀ hash info, op ≠ .remember hash info
  | _ => False

theorem Addressed.frame (addressed : s.Addressed cfg) (raw : Bytes) (ephemeral : KeyHalf)
    (iface : PathIface) : (s.frame cfg raw ephemeral iface).Addressed cfg := by
  refine ⟨addressed.directory.handleFrame raw ephemeral iface, fun lid identity event => ?_⟩
  rcases List.mem_append.mp event with old | new
  · exact addressed.reported lid identity old
  · -- The event is the one of this frame.
    have same : Event.linkIdentified lid identity
        = (s.shared.transport.handleFrame cfg.crypto raw ephemeral iface).2 :=
      List.mem_singleton.mp new
    rcases Transport.handleFrame_cases s.shared.transport raw ephemeral iface with
      ⟨p, -, effect⟩ | ⟨reason, result⟩
    · rw [← same] at effect
      generalize (s.shared.transport.handleFrame cfg.crypto raw ephemeral iface).1 = u at effect
      cases effect with
      | identified kind context held decrypted signed => exact validateIdentify_key signed
      | quiet inert => cases inert
    · rw [result] at same
      cases same

theorem Addressed.handle (addressed : s.Addressed cfg) (index : Nat) :
    (s.handle cfg index).Addressed cfg := by
  rw [System.handle]
  cases found : s.events[index]? with
  | none => exact addressed
  | some event =>
    refine ⟨?_, fun lid identity there =>
      addressed.reported lid identity (List.mem_of_mem_eraseIdx there)⟩
    cases event with
    | linkIdentified lid identity =>
      have key := addressed.reported lid identity (List.mem_of_getElem? found)
      simp only [handleEvent, identified]
      split
      · exact addressed.directory.insertKnown (owns_deliveryDestination cfg key)
      · exact addressed.directory
    | announce dest info =>
      simp only [handleEvent, transport_announced]
      exact addressed.directory
    | delivered packetHash =>
      simp only [handleEvent, markDelivered]
      split <;> exact addressed.directory
    | _ => exact addressed.directory

theorem Addressed.step (addressed : s.Addressed cfg) (step : Step cfg Hears s s') :
    s'.Addressed cfg := by
  cases step with
  | act a enabled fine =>
    cases a with
    | frame raw ephemeral iface => exact addressed.frame raw ephemeral iface
    | handle index => exact addressed.handle index
    | tick time => exact ⟨addressed.directory, addressed.reported⟩
    | other op =>
      refine ⟨fun address info held => ?_, addressed.reported⟩
      rw [act, Transport.known_perform fine enabled] at held
      exact addressed.directory address info held
    | _ => exact absurd fine id
  | reorder t same =>
    refine ⟨fun address info held => ?_, addressed.reported⟩
    exact addressed.directory address info ((same.known.get address).trans held)

theorem addressed_start (identity : PrivateIdentity) : (start identity).Addressed cfg where
  directory _ _ held := nomatch held
  reported _ _ there := nomatch there

theorem addressed_run {identity : PrivateIdentity}
    (run : ReflTransGen (Step cfg Hears) (start identity) s) : s.Addressed cfg :=
  reachable_of_keeps (I := Addressed cfg) (fun _ _ before step => before.step step)
    (addressed_start identity) run

def material (info info' : KnownDest) : Set Bytes :=
  {info.nameHash.val ++ info.identity.hash.val, info'.nameHash.val ++ info'.identity.hash.val,
    info.identity.publicKey.val, info'.identity.publicKey.val}

theorem publicKey_eq_of_owns {crypto : Crypto} {address : TruncatedHash} {info info' : KnownDest}
    (owns : Owns crypto info.identity info.nameHash address)
    (owns' : Owns crypto info'.identity info'.nameHash address)
    (free : Set.InjOn (truncatedHash crypto) (material info info')) :
    info'.identity.publicKey = info.identity.publicKey := by
  -- The address gives the name and the hash of the key, and that gives the key.
  have names : info'.nameHash.val ++ info'.identity.hash.val
      = info.nameHash.val ++ info.identity.hash.val := by
    refine free (by simp [material]) (by simp [material]) (Subtype.ext ?_)
    rw [truncatedHash, truncatedHash, BytesN.ofBytes_val_take (by simp),
      BytesN.ofBytes_val_take (by simp), ← owns'.address, ← owns.address]
  have hashes : info'.identity.hash = info.identity.hash :=
    Subtype.ext (List.append_inj names (by simp)).2
  refine Subtype.ext (free (by simp [material]) (by simp [material]) ?_)
  rw [← owns'.key, ← owns.key, hashes]

/--
Every known peer owns the address it is known under, and its key is never replaced by another.

Two different keys under one address would give two strings with the same truncated hash.
-/
theorem peer_keys_bound {identity : PrivateIdentity}
    (run : ReflTransGen (Step cfg Hears) (start identity) s)
    (later : ReflTransGen (Step cfg Hears) s s') :
    (∀ address info, s.shared.transport.known.get address = some info →
      Owns cfg.crypto info.identity info.nameHash address)
    ∧ ∀ address info info', s.shared.transport.known.get address = some info →
      s'.shared.transport.known.get address = some info' →
      Set.InjOn (truncatedHash cfg.crypto) (material info info') →
      info'.identity.publicKey = info.identity.publicKey := by
  have before := (addressed_run run).directory
  have after := (addressed_run (run.trans later)).directory
  refine ⟨before, fun address info info' held held' free => ?_⟩
  exact publicKey_eq_of_owns (before address info held) (after address info' held') free

section Samples

open Transport (sampleSeed sampleIdentity)

def heard (cost : Option Nat) (s : System) : System :=
  s.act (sampleConfig none) (.frame (sampleAnnounce cost) (sampleSeed 0) .hub)

theorem step_heard (cost : Option Nat) (s : System) :
    Step (sampleConfig none) Hears s (s.heard cost) := .act s _ trivial trivial

def samplePeerInfo (appData : Bytes) : KnownDest where
  identity := (sampleIdentity 3).publicIdentity sampleCrypto
  nameHash := nameHash sampleCrypto "lxmf" ["delivery"]
  ratchet := none
  appData := appData

theorem injOn_samplePeer (appData appData' : Bytes) :
    Set.InjOn (truncatedHash sampleCrypto)
      (material (samplePeerInfo appData) (samplePeerInfo appData')) := by
  have differ : truncatedHash sampleCrypto ((samplePeerInfo []).nameHash.val
      ++ (samplePeerInfo []).identity.hash.val)
      ≠ truncatedHash sampleCrypto (samplePeerInfo []).identity.publicKey.val := by
    decide +kernel
  refine (Set.injOn_pair.mpr fun same => absurd same differ).mono ?_
  -- What the peer says about itself does not change the strings.
  rintro x (rfl | rfl | rfl | rfl)
  · exact .inl rfl
  · exact .inl rfl
  · exact .inr rfl
  · exact .inr rfl

/-- The peer announces itself twice and keeps its key. -/
theorem peer_keys_bound_announced :
    ((start (sampleIdentity 1)).heard none).shared.transport.known.get samplePeer
        = some (samplePeerInfo [])
      ∧ (samplePeerInfo (Msgpack.encode (.array [.nil, .int 8]))).identity.publicKey
        = (samplePeerInfo []).identity.publicKey := by
  have held : ((start (sampleIdentity 1)).heard none).shared.transport.known.get samplePeer
      = some (samplePeerInfo []) := by decide +kernel
  refine ⟨held, (peer_keys_bound (.single (step_heard none _)) (.single (step_heard (some 8) _))).2
    samplePeer _ _ held ?_ (injOn_samplePeer _ _)⟩
  decide +kernel

end Samples

end System

end LxmfChat
