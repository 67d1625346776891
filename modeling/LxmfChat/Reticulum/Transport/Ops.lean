import LxmfChat.Reticulum.Transport.Frame

/-! The operations the application calls on a transport. -/

namespace LxmfChat.Transport

open Base

variable (crypto : Crypto)

def makeAnnounceWith (t : Transport) (appName : String) (aspects : List String) (appData : Bytes)
    (random5 : BytesN 5) (unixTime : Nat) : Bytes :=
  (buildAnnounce crypto t.identity appName aspects appData (randomHash random5 unixTime)
    none).encode

def makePathResponseWith (t : Transport) (appName : String) (aspects : List String)
    (appData : Bytes) (random5 : BytesN 5) (unixTime : Nat) : Bytes :=
  let p := buildAnnounce crypto t.identity appName aspects appData (randomHash random5 unixTime) none
  { p with context := CONTEXT_PATH_RESPONSE }.encode

def makePathRequest (target tag : TruncatedHash) : Bytes :=
  (Packet.header1 .plain .data CONTEXT_NONE (pathRequestDestination crypto)
    (target.val ++ tag.val)).encode

def makeOpportunisticWith (t : Transport) (recipientHash : TruncatedHash)
    (recipient : PublicIdentity) (ratchet : Option KeyHalf) (plaintext : Bytes)
    (ephemeralSecret : KeyHalf) (iv : Iv) : Bytes :=
  let ciphertext := recipient.encrypt crypto plaintext ephemeralSecret iv ratchet
  t.applyTransport recipientHash
    (Packet.header1 .single .data CONTEXT_NONE recipientHash ciphertext).encode

def makeOpportunisticTracked (t : Transport) (recipientHash : TruncatedHash)
    (recipient : PublicIdentity) (ratchet : Option KeyHalf) (plaintext : Bytes)
    (ephemeralSecret : KeyHalf) (iv : Iv) : Transport × Bytes × FullHash :=
  let ciphertext := recipient.encrypt crypto plaintext ephemeralSecret iv ratchet
  let packet := Packet.header1 .single .data CONTEXT_NONE recipientHash ciphertext
  let full := packet.packetHash crypto
  let trunc : TruncatedHash := BytesN.slice full.val 0 16 (by simp)
  let t := t.insertOppReceipt trunc ⟨full, recipient⟩
  (t, t.applyTransport recipientHash packet.encode, full)

def pendingExpirySecs (t : Transport) (target : TruncatedHash) : Nat :=
  let hops := max ((t.pathHops target).getD 1).toNat 1
  max PENDING_LINK_EXPIRY_SECS (PER_HOP_TIMEOUT_SECS * (hops + 1))

def makeLinkRequest (t : Transport) (target : TruncatedHash) (peerIdentity : PublicIdentity)
    (ephX25519 ephEd25519 : KeyHalf) (now : Nat) : Transport × Bytes × TruncatedHash :=
  let (raw, linkId) := Link.initiateRequest crypto target ephX25519 ephEd25519
  let raw := t.applyTransport target raw
  let expirySecs := t.pendingExpirySecs target
  (t.insertPendingOut linkId {
    target := target
    ephSecret := ephX25519
    sigSeed := ephEd25519
    identity := peerIdentity
    created := now
    expirySecs := expirySecs }, raw, linkId)

def expiredOutLinks (t : Transport) (now : Nat) : List TruncatedHash :=
  (t.outLinks.table.entries.filter fun e =>
    saturatingAdd e.2.lastActivity OUT_LINK_INACTIVITY_SECS < now).map (·.1)

/-- An open outbound link to a destination, refreshed; links idle for too long are dropped. -/
def outboundLinkFor (t : Transport) (target : TruncatedHash) (now : Nat) :
    Transport × Option TruncatedHash :=
  let t := (t.expiredOutLinks now).foldl removeOutLink t
  match t.outLinks.table.entries.find? fun e => e.2.target = target with
  | some e =>
    ({ t with outLinks := t.outLinks.modify e.1 fun l => { l with lastActivity := now } },
      some e.1)
  | none => (t, none)

def expiredPending (t : Transport) (now : Nat) : List TruncatedHash :=
  (t.pendingOut.table.entries.filter fun e =>
    saturatingAdd e.2.created e.2.expirySecs < now).map (·.1)

def forgetPendingLink (t : Transport) (linkId : TruncatedHash) : Transport :=
  { t with pendingOut := t.pendingOut.forget linkId }

/-- Whether a link to a destination is pending; overdue requests are forgotten first. -/
def pendingLinkTo (t : Transport) (target : TruncatedHash) (now : Nat) : Transport × Bool :=
  let t := (t.expiredPending now).foldl forgetPendingLink t
  (t, t.pendingOut.table.entries.any fun e => e.2.target = target)

def dropOutLink (t : Transport) (linkId : TruncatedHash) : Transport := t.removeOutLink linkId

def connectionReset (t : Transport) : Transport :=
  { t with
    links := .empty
    pendingOut := .empty
    outLinks := .empty
    receipts := .empty
    oppReceipts := .empty
    outResources := ∅ }

/-- The round-trip time every link is activated with: 0.1 as a big-endian double. -/
def RTT_SECONDS : BytesN 8 := ⟨[0x3f, 0xb9, 0x99, 0x99, 0x99, 0x99, 0x99, 0x9a], rfl⟩

def makeLinkRtt (t : Transport) (linkId : TruncatedHash) (iv : Iv) : Option Bytes := do
  let link ← t.outLinks.get linkId
  (Link.makeRttPacket crypto linkId link.key RTT_SECONDS iv).toOption

def registerLinkData (t : Transport) (linkId : TruncatedHash) (key : SessionKey)
    (plaintext : Bytes) (iv : Iv) : Transport × Option (Bytes × FullHash) :=
  match Link.encryptData crypto key plaintext iv with
  | .error _ => (t, none)
  | .ok ciphertext =>
    let packet := Packet.header1 .link .data CONTEXT_NONE linkId ciphertext
    let packetHash := packet.packetHash crypto
    (t.insertReceipt packetHash linkId, some (packet.encode, packetHash))

def makeLinkData (t : Transport) (linkId : TruncatedHash) (plaintext : Bytes) (iv : Iv) :
    Transport × Option (Bytes × FullHash) :=
  match t.outLinks.get linkId with
  | none => (t, none)
  | some link => t.registerLinkData crypto linkId link.key plaintext iv

def makeInLinkData (t : Transport) (linkId : TruncatedHash) (plaintext : Bytes) (iv : Iv) :
    Transport × Option (Bytes × FullHash) :=
  match t.links.get linkId with
  | none => (t, none)
  | some st =>
    match st.peerIdentity with
    | none => (t, none)
    | some _ => t.registerLinkData crypto linkId st.key plaintext iv

def makeOutLinkIdentify (t : Transport) (linkId : TruncatedHash) (iv : Iv) : Option Bytes := do
  let link ← t.outLinks.get linkId
  (Link.makeIdentify crypto linkId link.key t.identity iv).toOption

def decryptOutLink (t : Transport) (linkId : TruncatedHash) (data : Bytes) : Option Bytes := do
  let link ← t.outLinks.get linkId
  (Link.decrypt crypto link.key data).toOption

def decryptInLink (t : Transport) (linkId : TruncatedHash) (data : Bytes) : Option Bytes := do
  let st ← t.links.get linkId
  (Link.decrypt crypto st.key data).toOption

def resourceProof (linkId : TruncatedHash) (proofData : Bytes) : Bytes :=
  (Packet.header1 .link .proof CONTEXT_RESOURCE_PRF linkId proofData).encode

def makeOutLinkResourceProof (t : Transport) (linkId : TruncatedHash) (proofData : Bytes) :
    Option Bytes :=
  if (t.outLinks.get linkId).isSome then some (resourceProof linkId proofData) else none

def makeInLinkResourceProof (t : Transport) (linkId : TruncatedHash) (proofData : Bytes) :
    Option Bytes :=
  if (t.links.get linkId).isSome then some (resourceProof linkId proofData) else none

def makeOutLinkContext (t : Transport) (linkId : TruncatedHash) (context : UInt8)
    (plaintext : Bytes) (iv : Iv) : Option Bytes := do
  let link ← t.outLinks.get linkId
  (Link.makeLinkContextPacket crypto linkId link.key context plaintext iv).toOption

def makeInLinkContext (t : Transport) (linkId : TruncatedHash) (context : UInt8)
    (plaintext : Bytes) (iv : Iv) : Option Bytes := do
  let st ← t.links.get linkId
  (Link.makeLinkContextPacket crypto linkId st.key context plaintext iv).toOption

/-- Start sending data as a resource on a link; it replaces the one being sent there. -/
def makeLinkResource (t : Transport) (linkId : TruncatedHash) (data : Bytes)
    (r streamPrefix : BytesN 4) (iv advIv : Iv) : Transport × Option (Bytes × FullHash) :=
  match t.anyLinkKey linkId with
  | none => (t, none)
  | some key =>
    let tx := ResourceSender.new crypto data key r streamPrefix iv
    match Link.makeLinkContextPacket crypto linkId key CONTEXT_RESOURCE_ADV tx.advertisement advIv with
    | .error _ => (t, none)
    | .ok adv =>
      ({ t with outResources := t.outResources.insert linkId tx }, some (adv, tx.hash))

def serveLinkResource (t : Transport) (linkId : TruncatedHash) (reqPlaintext : Bytes)
    (hmuIv : Iv) : List Bytes :=
  match t.outResources.lookup linkId, t.anyLinkKey linkId with
  | some tx, some key =>
    let (parts, hmu) := tx.handleRequest reqPlaintext
    let out := parts.map fun p => (Packet.header1 .link .data CONTEXT_RESOURCE linkId p).encode
    match hmu with
    | none => out
    | some hmu =>
      match Link.makeLinkContextPacket crypto linkId key CONTEXT_RESOURCE_HMU hmu hmuIv with
      | .ok raw => out ++ [raw]
      | .error _ => out
  | _, _ => []

def linkDataPacket (linkId : TruncatedHash) (key : SessionKey) (plaintext : Bytes) (iv : Iv) :
    Packet :=
  Packet.header1 .link .data CONTEXT_NONE linkId
    ((Token.ofSessionKey key).encryptWithIv crypto plaintext iv)

theorem registerLinkData_eq (t : Transport) (linkId : TruncatedHash) (key : SessionKey)
    (plaintext : Bytes) (iv : Iv) :
    t.registerLinkData crypto linkId key plaintext iv
      = (t.insertReceipt ((linkDataPacket crypto linkId key plaintext iv).packetHash crypto) linkId,
          some ((linkDataPacket crypto linkId key plaintext iv).encode,
            (linkDataPacket crypto linkId key plaintext iv).packetHash crypto)) := by
  rw [registerLinkData, Link.encryptData_eq]
  rfl

theorem makeLinkResource_eq {t : Transport} {linkId : TruncatedHash} {key : SessionKey}
    (held : t.anyLinkKey linkId = some key) (data : Bytes) (r streamPrefix : BytesN 4)
    (iv advIv : Iv) :
    ∃ tx adv, tx = ResourceSender.new crypto data key r streamPrefix iv
      ∧ t.makeLinkResource crypto linkId data r streamPrefix iv advIv
        = ({ t with outResources := t.outResources.insert linkId tx }, some (adv, tx.hash)) := by
  simp only [makeLinkResource, held, Link.makeLinkContextPacket_eq]
  exact ⟨_, _, rfl, rfl⟩

end LxmfChat.Transport
