import LxmfChat.Reticulum.Transport.State

/-! Handling one inbound frame: the dispatch, branch by branch, in the order it is tried. -/

namespace LxmfChat.Transport

open Base

variable (crypto : Crypto)

/-- What a branch that takes a packet does to the transport, and the event it reports. -/
abbrev Handled := Transport × Event

def addressedUnhandled (packet : Packet) : Event :=
  .addressedUnhandled packet.destinationHash packet.packetType packet.context

/-- A link proof that completes a link we initiated; the pending entry is consumed either way. -/
def handleLrProof (t : Transport) (packet : Packet) : Option Handled :=
  if packet.packetType = .proof ∧ packet.context = CONTEXT_LRPROOF then
    let lid := packet.destinationHash
    match t.pendingOut.get lid with
    | none => none
    | some pend =>
      let t := { t with pendingOut := t.pendingOut.remove lid }
      match Link.completeHandshake crypto lid pend.ephSecret packet.data pend.identity with
      | some key => some (t.insertOutLink lid (pend.opened key), .outboundLinkUp lid pend.target)
      | none => some (t, .dropped "invalid LRPROOF for initiated link")
  else none

def handleResourceProof (t : Transport) (packet : Packet) : Option Handled :=
  if packet.packetType = .proof ∧ packet.context = CONTEXT_RESOURCE_PRF then
    match t.outResources.lookup packet.destinationHash with
    | none => none
    | some tx =>
      if tx.proofIsValid packet.data then
        some ({ t with outResources := t.outResources.erase packet.destinationHash },
          .delivered tx.hash)
      else none
  else none

/-- The key that proofs on a link are checked with: the responder's, or the initiator's for it. -/
def proofKey (t : Transport) (lid : TruncatedHash) : Option KeyHalf :=
  match t.outLinks.get lid with
  | some link => some link.identity.sigPub
  | none => (t.links.get lid).map (·.peerSigPub)

def proofCandidates (t : Transport) (packet : Packet) : List FullHash :=
  if explicit : 32 + 64 ≤ packet.data.length then [BytesN.slice packet.data 0 32 (by omega)]
  else (t.receipts.table.entries.filter fun e => e.2 = packet.destinationHash).map (·.1)

/-- The first candidate that awaits a proof on this link and that this proof is valid for. -/
def provenReceipt (t : Transport) (packet : Packet) (sigPub : KeyHalf) : Option FullHash :=
  (t.proofCandidates packet).find? fun ph =>
    t.receipts.get ph = some packet.destinationHash
      && Link.validateProofSig crypto sigPub ph packet.data

def handleLinkProof (t : Transport) (packet : Packet) : Option Handled :=
  if packet.packetType = .proof ∧ packet.context = CONTEXT_NONE then
    match t.proofKey packet.destinationHash with
    | none => none
    | some sigPub =>
      match t.provenReceipt crypto packet sigPub with
      | some ph => some ({ t with receipts := t.receipts.remove ph }, .delivered ph)
      | none => some (t, addressedUnhandled packet)
  else none

/-- Data on a link we opened; parts of a resource stay as they are, the rest is decrypted. -/
def handleOutLinkData (t : Transport) (packet : Packet) : Option Handled :=
  if packet.packetType = .data then
    let lid := packet.destinationHash
    match t.outLinks.get lid with
    | none => none
    | some link =>
      if packet.context = CONTEXT_RESOURCE then
        some (t, .outLinkData lid packet.context packet.data)
      else
        match Link.decrypt crypto link.key packet.data with
        | .error reason => some (t, .dataUndecryptable lid reason)
        | .ok plaintext =>
          if packet.context = CONTEXT_LINKCLOSE ∧ plaintext = lid.val then
            some (t.removeOutLink lid, .outLinkClosed lid)
          else if packet.context = CONTEXT_NONE then
            some (t, .linkData lid plaintext
              (Link.provePacketEphemeral crypto link.sigSeed lid packet))
          else some (t, .outLinkData lid packet.context plaintext)
  else none

/-- A delivery proof for an opportunistic packet; one that is not valid falls through. -/
def handleOppProof (t : Transport) (packet : Packet) : Option Handled :=
  if packet.packetType = .proof then
    match t.oppReceipts.get packet.destinationHash with
    | none => none
    | some rec =>
      if Link.validateProof crypto rec.identity rec.fullHash packet.data then
        some ({ t with oppReceipts := t.oppReceipts.remove packet.destinationHash },
          .delivered rec.fullHash)
      else none
  else none

def handleInLinkContext (t : Transport) (ephemeral : KeyHalf) (packet : Packet)
    (plaintext : Bytes) (key : SessionKey) : Handled :=
  let lid := packet.destinationHash
  if packet.context = CONTEXT_NONE then
    (t, .linkData lid plaintext (Link.provePacket crypto t.identity lid packet))
  else if packet.context = CONTEXT_LINKIDENTIFY then
    match Link.validateIdentify crypto lid plaintext with
    | some identity =>
      ({ t with links := t.links.modify lid fun st => { st with peerIdentity := some identity } },
        .linkIdentified lid identity)
    | none => (t, .dropped "invalid link identify")
  else if packet.context = CONTEXT_KEEPALIVE then
    if plaintext = [0xFF] then
      let iv : Iv := BytesN.slice ephemeral.val 0 16 (by simp)
      match Link.makeLinkContextPacket crypto lid key CONTEXT_KEEPALIVE [0xFE] iv with
      | .ok reply => (t, .linkKeepalive lid reply)
      | .error _ => (t, .dropped "keepalive echo failed")
    else (t, addressedUnhandled packet)
  else if packet.context = CONTEXT_LINKCLOSE then
    if plaintext = lid.val then ({ t with links := t.links.forget lid }, .inLinkClosed lid)
    else (t, .dropped "malformed link close")
  else (t, .inLinkData lid packet.context plaintext)

def inLinkContexts : List UInt8 :=
  [CONTEXT_NONE, CONTEXT_LINKIDENTIFY, CONTEXT_KEEPALIVE, CONTEXT_LINKCLOSE,
    CONTEXT_RESOURCE_ADV, CONTEXT_RESOURCE_HMU, CONTEXT_RESOURCE_REQ]

def handleInLink (t : Transport) (ephemeral : KeyHalf) (packet : Packet) : Option Handled :=
  let lid := packet.destinationHash
  match t.links.get lid with
  | none => none
  | some st =>
    if packet.packetType = .data ∧ packet.context = CONTEXT_RESOURCE then
      some (t, .inLinkData lid packet.context packet.data)
    else if packet.packetType = .data ∧ packet.context ∈ inLinkContexts then
      match Link.decrypt crypto st.key packet.data with
      | .error reason => some (t, .dataUndecryptable lid reason)
      | .ok plaintext => some (t.handleInLinkContext crypto ephemeral packet plaintext st.key)
    else some (t, addressedUnhandled packet)

/-- A link request to one of our destinations; a repeated one gets the proof sent before. -/
def handleLinkRequest (t : Transport) (ephemeral : KeyHalf) (packet : Packet) : Handled :=
  let lid := Link.linkId crypto packet
  match t.links.get lid with
  | some state => (t, .linkEstablished lid state.proof)
  | none =>
    match Link.acceptRequest crypto packet t.identity ephemeral with
    | some est => (t.insertLink est.linkId est.opened, .linkEstablished est.linkId est.proofPacket)
    | none => (t, .dropped "invalid link request")

/-- An opportunistic packet to one of our destinations, with the proof of its delivery. -/
def handleOpportunistic (t : Transport) (packet : Packet) : Event :=
  match t.identity.decrypt crypto packet.data [] with
  | .ok plaintext =>
    let ph := packet.packetHash crypto
    let trunc : TruncatedHash := BytesN.slice ph.val 0 16 (FullHash.room ph)
    let proofData := ph.val ++ (t.identity.sign crypto ph.val).val
    let proof := (Packet.header1 .single .proof CONTEXT_NONE trunc proofData).encode
    .data packet.destinationHash plaintext proof
  | .error reason => .dataUndecryptable packet.destinationHash reason

def handleAnnounce (t : Transport) (iface : PathIface) (packet : Packet) : Handled :=
  match parseAndValidate crypto packet with
  | some parsed =>
    let path : PathEntry := {
      nextHop := packet.transportId
      hops := UInt8.ofNat (min (packet.hops.toNat + 1) 255)
      learnedOn := iface }
    ((t.insertKnown parsed.destinationHash parsed.info).insertPath parsed.destinationHash path,
      .announce parsed.destinationHash parsed.info)
  | none => (t, .dropped "invalid announce")

def pathRequestDestination : TruncatedHash :=
  plainDestinationHash crypto "rnstransport" ["path", "request"]

/-- A path request; only one for our own destinations can be answered. -/
def handlePathRequest (t : Transport) (packet : Packet) : Event :=
  if short : packet.data.length < 16 then .dropped "short path request"
  else
    let target : TruncatedHash := BytesN.slice packet.data 0 16 (by omega)
    if target ∈ t.ourDests then .pathRequest target
    else .unhandled packet.destinationHash packet.packetType packet.context

def handleAddressed (t : Transport) (ephemeral : KeyHalf) (iface : PathIface) (packet : Packet) :
    Handled :=
  if packet.packetType = .announce then t.handleAnnounce crypto iface packet
  else if packet.packetType = .data
      ∧ packet.destinationHash = pathRequestDestination crypto then
    (t, t.handlePathRequest packet)
  else if packet.destinationHash ∈ t.ourDests then
    match packet.packetType with
    | .linkRequest => t.handleLinkRequest crypto ephemeral packet
    | .data => (t, t.handleOpportunistic crypto packet)
    | _ => (t, addressedUnhandled packet)
  else (t, .unhandled packet.destinationHash packet.packetType packet.context)

def handlePacket (t : Transport) (ephemeral : KeyHalf) (iface : PathIface) (packet : Packet) :
    Handled :=
  (t.handleLrProof crypto packet
    <|> t.handleResourceProof packet
    <|> t.handleLinkProof crypto packet
    <|> t.handleOutLinkData crypto packet
    <|> t.handleOppProof crypto packet
    <|> t.handleInLink crypto ephemeral packet).getD
      (t.handleAddressed crypto ephemeral iface packet)

def handleFrame (t : Transport) (raw : Bytes) (ephemeral : KeyHalf) (iface : PathIface) :
    Handled :=
  match Packet.decode raw with
  | .error reason => (t, .dropped reason)
  | .ok packet => t.handlePacket crypto ephemeral iface packet

end LxmfChat.Transport
