import LxmfChat.Reticulum.Hdlc
import LxmfChat.Reticulum.Literal
import LxmfChat.Reticulum.Transport.Frame

/-! The receive path cannot be crashed: no frame makes its handler panic, in any state. -/

namespace LxmfChat.Literal

open Base Checked
open LxmfChat.Transport (Handled)

variable (crypto : Crypto)

def handleLrProof (t : Transport) (packet : Packet) : Checked (Option Handled) := do
  if packet.packetType = .proof ∧ packet.context = CONTEXT_LRPROOF
      ∧ (t.pendingOut.get packet.destinationHash).isSome then
    let lid := packet.destinationHash
    let pend ← unwrap "called `Option::unwrap()` on a `None` value" (t.pendingOut.get lid)
    let t := { t with pendingOut := t.pendingOut.remove lid }
    match ← Link.completeHandshake crypto lid pend.ephSecret packet.data pend.identity with
    | some key =>
      return some (t.insertOutLink lid (pend.opened key), .outboundLinkUp lid pend.target)
    | none => return some (t, .dropped "invalid LRPROOF for initiated link")
  else return none

def handleResourceProof (t : Transport) (packet : Packet) : Checked (Option Handled) := do
  if packet.packetType = .proof ∧ packet.context = CONTEXT_RESOURCE_PRF then
    match t.outResources.lookup packet.destinationHash with
    | none => return none
    | some tx =>
      if ← proofIsValid tx packet.data then
        return some ({ t with outResources := t.outResources.erase packet.destinationHash },
          .delivered tx.hash)
      else return none
  else return none

def proofCandidates (t : Transport) (packet : Packet) : Checked (List FullHash) := do
  if 32 + 64 ≤ packet.data.length then return [← copySlice 32 packet.data 0 32]
  else return (t.receipts.table.entries.filter fun e => e.2 = packet.destinationHash).map (·.1)

def provenReceipt (t : Transport) (packet : Packet) (sigPub : KeyHalf) :
    List FullHash → Checked (Option FullHash)
  | [] => return none
  | ph :: candidates => do
    if t.receipts.get ph = some packet.destinationHash then
      if ← Link.validateProofSig crypto sigPub ph packet.data then return some ph
      else provenReceipt t packet sigPub candidates
    else provenReceipt t packet sigPub candidates

def addressedUnhandled (packet : Packet) : Event :=
  .addressedUnhandled packet.destinationHash packet.packetType packet.context

def handleLinkProof (t : Transport) (packet : Packet) : Checked (Option Handled) := do
  if packet.packetType = .proof ∧ packet.context = CONTEXT_NONE then
    match t.proofKey packet.destinationHash with
    | none => return none
    | some sigPub =>
      match ← provenReceipt crypto t packet sigPub (← proofCandidates t packet) with
      | some ph => return some ({ t with receipts := t.receipts.remove ph }, .delivered ph)
      | none => return some (t, addressedUnhandled packet)
  else return none

def handleOppProof (t : Transport) (packet : Packet) : Checked (Option Handled) := do
  if packet.packetType = .proof ∧ (t.oppReceipts.get packet.destinationHash).isSome then
    let rec ← unwrap "no entry found for key" (t.oppReceipts.get packet.destinationHash)
    if ← Link.validateProofSig crypto rec.identity.sigPub rec.fullHash packet.data then
      return some ({ t with oppReceipts := t.oppReceipts.remove packet.destinationHash },
        .delivered rec.fullHash)
    else return none
  else return none

def handleOutLinkData (t : Transport) (packet : Packet) : Checked (Option Handled) := do
  if packet.packetType = .data ∧ (t.outLinks.get packet.destinationHash).isSome then
    let lid := packet.destinationHash
    if packet.context = CONTEXT_RESOURCE then
      return some (t, .outLinkData lid packet.context packet.data)
    let link ← unwrap "no entry found for key" (t.outLinks.get lid)
    match ← Link.decrypt crypto link.key packet.data with
    | .error reason => return some (t, .dataUndecryptable lid reason)
    | .ok plaintext =>
      if packet.context = CONTEXT_LINKCLOSE ∧ plaintext = lid.val then
        return some (t.removeOutLink lid, .outLinkClosed lid)
      else if packet.context = CONTEXT_NONE then
        let link ← unwrap "no entry found for key" (t.outLinks.get lid)
        let proof ← Link.provePacketEphemeral crypto link.sigSeed lid packet
        return some (t, .linkData lid plaintext proof)
      else return some (t, .outLinkData lid packet.context plaintext)
  else return none

def decrypted (t : Transport) (packet : Packet) (key : SessionKey)
    (handle : Bytes → Checked Handled) : Checked (Option Handled) := do
  match ← Link.decrypt crypto key packet.data with
  | .ok plaintext => return some (← handle plaintext)
  | .error reason => return some (t, .dataUndecryptable packet.destinationHash reason)

def handleIdentify (t : Transport) (lid : TruncatedHash) (plaintext : Bytes) : Checked Handled := do
  match ← Link.validateIdentify crypto lid plaintext with
  | some identity =>
    return ({ t with
      links := t.links.modify lid fun st => { st with peerIdentity := some identity } },
      .linkIdentified lid identity)
  | none => return (t, .dropped "invalid link identify")

def handleKeepalive (t : Transport) (ephemeral : KeyHalf) (packet : Packet) (key : SessionKey)
    (plaintext : Bytes) : Checked Handled := do
  if plaintext = [0xFF] then
    let iv ← copySlice 16 ephemeral.val 0 16
    match ← Link.makeLinkContextPacket crypto packet.destinationHash key CONTEXT_KEEPALIVE [0xFE]
        iv with
    | .ok reply => return (t, .linkKeepalive packet.destinationHash reply)
    | .error _ => return (t, .dropped "keepalive echo failed")
  else return (t, addressedUnhandled packet)

def handleInLink (t : Transport) (ephemeral : KeyHalf) (packet : Packet) :
    Checked (Option Handled) := do
  let lid := packet.destinationHash
  match t.links.get lid with
  | none => return none
  | some st =>
    if packet.packetType = .data ∧ packet.context = CONTEXT_NONE then
      decrypted crypto t packet st.key fun plaintext => do
        let proof ← Link.provePacket crypto t.identity lid packet
        return (t, .linkData lid plaintext proof)
    else if packet.packetType = .data ∧ packet.context = CONTEXT_LINKIDENTIFY then
      decrypted crypto t packet st.key fun plaintext => handleIdentify crypto t lid plaintext
    else if packet.packetType = .data ∧ packet.context = CONTEXT_KEEPALIVE then
      decrypted crypto t packet st.key fun plaintext =>
        handleKeepalive crypto t ephemeral packet st.key plaintext
    else if packet.packetType = .data ∧ packet.context = CONTEXT_LINKCLOSE then
      decrypted crypto t packet st.key fun plaintext => do
        if plaintext = lid.val then
          return ({ t with links := t.links.forget lid }, .inLinkClosed lid)
        else return (t, .dropped "malformed link close")
    else if packet.packetType = .data ∧ packet.context ∈ [CONTEXT_RESOURCE_ADV, CONTEXT_RESOURCE,
        CONTEXT_RESOURCE_HMU, CONTEXT_RESOURCE_REQ] then
      if packet.context = CONTEXT_RESOURCE then
        return some (t, .inLinkData lid packet.context packet.data)
      else
        decrypted crypto t packet st.key fun plaintext =>
          return (t, .inLinkData lid packet.context plaintext)
    else return some (t, addressedUnhandled packet)

def handleAnnounce (t : Transport) (iface : PathIface) (packet : Packet) : Checked Handled := do
  match ← parseAndValidate crypto packet with
  | some parsed =>
    let path : PathEntry := {
      nextHop := packet.transportId
      hops := UInt8.ofNat (min (packet.hops.toNat + 1) 255)
      learnedOn := iface }
    return ((t.insertKnown parsed.destinationHash parsed.info).insertPath parsed.destinationHash
      path, .announce parsed.destinationHash parsed.info)
  | none => return (t, .dropped "invalid announce")

def handlePathRequest (t : Transport) (packet : Packet) : Checked Event := do
  if packet.data.length < 16 then return .dropped "short path request"
  let target ← copySlice 16 packet.data 0 16
  if target ∈ t.ourDests then return .pathRequest target
  else return .unhandled packet.destinationHash packet.packetType packet.context

def handleLinkRequest (t : Transport) (ephemeral : KeyHalf) (packet : Packet) :
    Checked Handled := do
  let lid ← Link.linkId crypto packet
  match t.links.get lid with
  | some state => return (t, .linkEstablished lid state.proof)
  | none =>
    match ← Link.acceptRequest crypto packet t.identity ephemeral with
    | some est =>
      return (t.insertLink est.linkId est.opened, .linkEstablished est.linkId est.proofPacket)
    | none => return (t, .dropped "invalid link request")

def handleOpportunistic (t : Transport) (packet : Packet) : Checked Event := do
  match ← PrivateIdentity.decrypt crypto t.identity packet.data [] with
  | .ok plaintext =>
    let ph ← packet.packetHash crypto
    let trunc ← copySlice 16 ph.val 0 16
    let proofData := ph.val ++ (t.identity.sign crypto ph.val).val
    let proof ← (Packet.header1 .single .proof CONTEXT_NONE trunc proofData).encode
    return .data packet.destinationHash plaintext proof
  | .error reason => return .dataUndecryptable packet.destinationHash reason

def handleOurs (t : Transport) (ephemeral : KeyHalf) (packet : Packet) : Checked Handled := do
  if packet.destinationHash ∈ t.ourDests then
    match packet.packetType with
    | .linkRequest => handleLinkRequest crypto t ephemeral packet
    | .data => return (t, ← handleOpportunistic crypto t packet)
    | _ => return (t, addressedUnhandled packet)
  else return (t, .unhandled packet.destinationHash packet.packetType packet.context)

def handleAddressed (t : Transport) (ephemeral : KeyHalf) (iface : PathIface) (packet : Packet) :
    Checked Handled := do
  if packet.packetType = .announce then handleAnnounce crypto t iface packet
  else if packet.packetType = .data then
    if packet.destinationHash = (← plainDestinationHash crypto "rnstransport" ["path", "request"])
    then return (t, ← handlePathRequest t packet)
    else handleOurs crypto t ephemeral packet
  else handleOurs crypto t ephemeral packet

def handlePacket (t : Transport) (ephemeral : KeyHalf) (iface : PathIface) (packet : Packet) :
    Checked Handled :=
  attempt (handleLrProof crypto t packet) <|
  attempt (handleResourceProof t packet) <|
  attempt (handleLinkProof crypto t packet) <|
  attempt (handleOutLinkData crypto t packet) <|
  attempt (handleOppProof crypto t packet) <|
  attempt (handleInLink crypto t ephemeral packet) <|
  handleAddressed crypto t ephemeral iface packet

def handleFrame (t : Transport) (raw : Bytes) (ephemeral : KeyHalf) (iface : PathIface) :
    Checked Handled := do
  match ← Packet.decode raw with
  | .error reason => return (t, .dropped reason)
  | .ok packet => handlePacket crypto t ephemeral iface packet

section Branches

variable {crypto} (t : Transport) {p : LxmfChat.Packet}

theorem handleLrProof_eq (fits : p.data.length ≤ maxLength) :
    handleLrProof crypto t (.ofPacket p) = .ok (t.handleLrProof crypto p) := by
  rw [handleLrProof, Transport.handleLrProof]
  simp only [Packet.ofPacket_packetType, Packet.ofPacket_context, Packet.ofPacket_destinationHash,
    Packet.ofPacket_data]
  by_cases kind : p.packetType = .proof ∧ p.context = CONTEXT_LRPROOF
  · rw [if_pos kind]
    cases t.pendingOut.get p.destinationHash with
    | none => rw [if_neg (by simp)]; rfl
    | some pend =>
      -- The entry that is taken out has just been found.
      rw [if_pos ⟨kind.1, kind.2, rfl⟩, unwrap_some, ok_bind, Link.completeHandshake_eq crypto _ _ fits,
        ok_bind]
      dsimp only
      cases LxmfChat.Link.completeHandshake crypto _ _ _ _ with
      | none => rfl
      | some key => rfl
  · rw [if_neg kind, if_neg fun both => kind ⟨both.1, both.2.1⟩]
    rfl

theorem handleResourceProof_eq :
    handleResourceProof t (.ofPacket p) = .ok (t.handleResourceProof p) := by
  -- The key a dependent table is read with does not rewrite.
  have same : t.outResources.lookup (Packet.ofPacket p).destinationHash
      = t.outResources.lookup p.destinationHash := rfl
  rw [handleResourceProof, Transport.handleResourceProof, same]
  simp only [Packet.ofPacket_packetType, Packet.ofPacket_context, Packet.ofPacket_data]
  split
  · cases t.outResources.lookup p.destinationHash with
    | none => rfl
    | some tx =>
      dsimp only
      rw [proofIsValid_eq, ok_bind]
      cases tx.proofIsValid p.data with
      | false => rfl
      | true => rfl
  · rfl

theorem proofCandidates_eq : proofCandidates t (.ofPacket p) = .ok (t.proofCandidates p) := by
  rw [proofCandidates, Transport.proofCandidates]
  simp only [Packet.ofPacket_destinationHash, Packet.ofPacket_data]
  by_cases explicit : 32 + 64 ≤ p.data.length
  · rw [if_pos explicit, dif_pos explicit, copySlice_ok rfl (by omega)]
    rfl
  · rw [if_neg explicit, dif_neg explicit]
    rfl

theorem provenReceipt_eq (sigPub : KeyHalf) (candidates : List FullHash) :
    provenReceipt crypto t (.ofPacket p) sigPub candidates
      = .ok (candidates.find? fun ph => t.receipts.get ph = some p.destinationHash
          && LxmfChat.Link.validateProofSig crypto sigPub ph p.data) := by
  induction candidates with
  | nil => rfl
  | cons ph candidates ih =>
    rw [provenReceipt, List.find?_cons, Packet.ofPacket_destinationHash, Packet.ofPacket_data]
    by_cases awaited : t.receipts.get ph = some p.destinationHash
    · rw [if_pos awaited, Link.validateProofSig_eq, ok_bind, decide_eq_true awaited, Bool.true_and]
      cases LxmfChat.Link.validateProofSig crypto sigPub ph p.data with
      | false => exact ih
      | true => rfl
    · rw [if_neg awaited, decide_eq_false awaited, Bool.false_and]
      exact ih

theorem handleLinkProof_eq :
    handleLinkProof crypto t (.ofPacket p) = .ok (t.handleLinkProof crypto p) := by
  rw [handleLinkProof, Transport.handleLinkProof]
  simp only [Packet.ofPacket_packetType, Packet.ofPacket_context, Packet.ofPacket_destinationHash]
  split
  · cases t.proofKey p.destinationHash with
    | none => rfl
    | some sigPub =>
      dsimp only
      rw [proofCandidates_eq, ok_bind, provenReceipt_eq, ok_bind, Transport.provenReceipt]
      cases (t.proofCandidates p).find? _ with
      | none => rfl
      | some ph => rfl
  · rfl

theorem handleOppProof_eq :
    handleOppProof crypto t (.ofPacket p) = .ok (t.handleOppProof crypto p) := by
  rw [handleOppProof, Transport.handleOppProof]
  simp only [Packet.ofPacket_packetType, Packet.ofPacket_destinationHash, Packet.ofPacket_data]
  by_cases kind : p.packetType = .proof
  · rw [if_pos kind]
    cases t.oppReceipts.get p.destinationHash with
    | none => rw [if_neg (by simp)]; rfl
    | some receipt =>
      rw [if_pos ⟨kind, rfl⟩, unwrap_some, ok_bind, Link.validateProofSig_eq, ok_bind]
      dsimp only
      rw [LxmfChat.Link.validateProof]
      cases LxmfChat.Link.validateProofSig crypto _ _ _ with
      | false => rfl
      | true => rfl
  · rw [if_neg kind, if_neg fun both => kind both.1]
    rfl

theorem handleOutLinkData_eq (fits : p.data.length ≤ maxLength) :
    handleOutLinkData crypto t (.ofPacket p) = .ok (t.handleOutLinkData crypto p) := by
  rw [handleOutLinkData, Transport.handleOutLinkData]
  simp only [Packet.ofPacket_packetType, Packet.ofPacket_context, Packet.ofPacket_destinationHash,
    Packet.ofPacket_data]
  by_cases kind : p.packetType = .data
  · rw [if_pos kind]
    cases t.outLinks.get p.destinationHash with
    | none => rw [if_neg (by simp)]; rfl
    | some link =>
      rw [if_pos ⟨kind, rfl⟩, unwrap_some, ok_bind, Link.decrypt_eq, ok_bind]
      dsimp only
      split
      · rfl
      · cases LxmfChat.Link.decrypt crypto link.key p.data with
        | error reason => rfl
        | ok plaintext =>
          dsimp only
          rw [ok_bind, Link.provePacketEphemeral, Link.provePacketWith_eq crypto _ _ fits]
          split
          · rfl
          · split
            · rfl
            · rfl
  · rw [if_neg kind, if_neg fun both => kind both.1]
    rfl

variable (ephemeral : KeyHalf)

theorem decrypted_eq {st : LinkState} (found : t.links.get p.destinationHash = some st)
    (kind : p.packetType = .data) (listed : p.context ∈ Transport.inLinkContexts)
    {handle : Bytes → Checked Handled}
    (answered : ∀ plaintext,
      handle plaintext = .ok (t.handleInLinkContext crypto ephemeral p plaintext st.key)) :
    decrypted crypto t (.ofPacket p) st.key handle = .ok (t.handleInLink crypto ephemeral p) := by
  have whole : ¬ (p.packetType = .data ∧ p.context = CONTEXT_RESOURCE) := by
    rintro ⟨-, part⟩
    rw [part] at listed
    revert listed
    decide
  rw [decrypted, Packet.ofPacket_data, Packet.ofPacket_destinationHash, Link.decrypt_eq, ok_bind,
    Transport.handleInLink, found]
  dsimp only
  rw [if_neg whole, if_pos ⟨kind, listed⟩]
  cases LxmfChat.Link.decrypt crypto st.key p.data with
  | error reason => rfl
  | ok plaintext =>
    dsimp only
    rw [answered, ok_bind]
    rfl

theorem handleIdentify_eq (plaintext : Bytes) (key : SessionKey)
    (context : p.context = CONTEXT_LINKIDENTIFY) :
    handleIdentify crypto t p.destinationHash plaintext
      = .ok (t.handleInLinkContext crypto ephemeral p plaintext key) := by
  rw [handleIdentify, Link.validateIdentify_eq, ok_bind, Transport.handleInLinkContext,
    if_neg (by rw [context]; decide), if_pos context]
  cases LxmfChat.Link.validateIdentify crypto p.destinationHash plaintext with
  | none => rfl
  | some identity => rfl

theorem handleKeepalive_eq (pads : crypto.CbcPads) (plaintext : Bytes) (key : SessionKey)
    (context : p.context = CONTEXT_KEEPALIVE) :
    handleKeepalive crypto t ephemeral (.ofPacket p) key plaintext
      = .ok (t.handleInLinkContext crypto ephemeral p plaintext key) := by
  have plain : p.context ≠ CONTEXT_NONE := by rw [context]; decide
  have identify : p.context ≠ CONTEXT_LINKIDENTIFY := by rw [context]; decide
  rw [handleKeepalive, Transport.handleInLinkContext, if_neg plain, if_neg identify, if_pos context]
  split
  · rw [copySlice_ok rfl (by simp), ok_bind, Packet.ofPacket_destinationHash,
      Link.makeLinkContextPacket_eq crypto pads _ _ _ (by decide), ok_bind]
    dsimp only
    cases LxmfChat.Link.makeLinkContextPacket crypto _ _ _ _ _ with
    | error reason => rfl
    | ok reply => rfl
  · rfl

theorem handleInLink_eq (pads : crypto.CbcPads) (fits : p.data.length ≤ maxLength) :
    handleInLink crypto t ephemeral (.ofPacket p) = .ok (t.handleInLink crypto ephemeral p) := by
  rw [handleInLink]
  simp only [Packet.ofPacket_packetType, Packet.ofPacket_context, Packet.ofPacket_destinationHash,
    Packet.ofPacket_data]
  cases found : t.links.get p.destinationHash with
  | none =>
    rw [Transport.handleInLink, found]
    rfl
  | some st =>
    dsimp only
    by_cases kind : p.packetType = .data
    · simp only [kind, true_and]
      -- The contexts in the order they are tried.
      by_cases plain : p.context = CONTEXT_NONE
      · rw [if_pos plain]
        apply decrypted_eq t ephemeral found kind (by rw [plain]; decide)
        intro plaintext
        rw [Link.provePacket, Link.provePacketWith_eq crypto _ _ fits, ok_bind,
          Transport.handleInLinkContext, if_pos plain]
        rfl
      rw [if_neg plain]
      by_cases identify : p.context = CONTEXT_LINKIDENTIFY
      · rw [if_pos identify]
        apply decrypted_eq t ephemeral found kind (by rw [identify]; decide)
        intro plaintext
        exact handleIdentify_eq t ephemeral plaintext st.key identify
      rw [if_neg identify]
      by_cases keepalive : p.context = CONTEXT_KEEPALIVE
      · rw [if_pos keepalive]
        apply decrypted_eq t ephemeral found kind (by rw [keepalive]; decide)
        intro plaintext
        exact handleKeepalive_eq t ephemeral pads plaintext st.key keepalive
      rw [if_neg keepalive]
      by_cases close : p.context = CONTEXT_LINKCLOSE
      · rw [if_pos close]
        apply decrypted_eq t ephemeral found kind (by rw [close]; decide)
        intro plaintext
        rw [Transport.handleInLinkContext, if_neg plain, if_neg identify, if_neg keepalive,
          if_pos close]
        split
        · rfl
        · rfl
      rw [if_neg close]
      by_cases part : p.context = CONTEXT_RESOURCE
      · rw [if_pos (by rw [part]; decide), if_pos part, Transport.handleInLink, found]
        dsimp only
        rw [if_pos ⟨kind, part⟩]
        rfl
      by_cases resource : p.context ∈ [CONTEXT_RESOURCE_ADV, CONTEXT_RESOURCE,
          CONTEXT_RESOURCE_HMU, CONTEXT_RESOURCE_REQ]
      · rw [if_pos resource, if_neg part]
        have listed : p.context ∈ Transport.inLinkContexts := by
          simp only [List.mem_cons, List.not_mem_nil, or_false, part, false_or] at resource
          simp only [Transport.inLinkContexts, List.mem_cons, List.not_mem_nil, or_false]
          tauto
        apply decrypted_eq t ephemeral found kind listed
        intro plaintext
        rw [Transport.handleInLinkContext, if_neg plain, if_neg identify, if_neg keepalive,
          if_neg close]
        rfl
      · have unlisted : p.context ∉ Transport.inLinkContexts := by
          simp only [List.mem_cons, List.not_mem_nil, or_false, not_or] at resource
          simp only [Transport.inLinkContexts, List.mem_cons, List.not_mem_nil, or_false, not_or]
          tauto
        rw [if_neg resource, Transport.handleInLink, found]
        dsimp only
        rw [if_neg fun both => part both.2, if_neg fun both => unlisted both.2]
        rfl
    · simp only [kind, false_and, if_false]
      rw [Transport.handleInLink, found]
      dsimp only
      rw [if_neg fun both => kind both.1, if_neg fun both => kind both.1]
      rfl

theorem handleAnnounce_eq (iface : PathIface) :
    handleAnnounce crypto t iface (.ofPacket p) = .ok (t.handleAnnounce crypto iface p) := by
  rw [handleAnnounce, Transport.handleAnnounce, parseAndValidate_eq, ok_bind]
  cases LxmfChat.parseAndValidate crypto p with
  | none => rfl
  | some parsed => rfl

theorem handlePathRequest_eq :
    handlePathRequest t (.ofPacket p) = .ok (t.handlePathRequest p) := by
  rw [handlePathRequest, Transport.handlePathRequest, Packet.ofPacket_data]
  by_cases short : p.data.length < 16
  · rw [if_pos short, dif_pos short]
    rfl
  · rw [if_neg short, dif_neg short, copySlice_ok rfl (by omega), ok_bind]
    dsimp only
    split
    · rfl
    · rfl

theorem handleLinkRequest_eq (fits : p.data.length ≤ maxLength) :
    handleLinkRequest crypto t ephemeral (.ofPacket p)
      = .ok (t.handleLinkRequest crypto ephemeral p) := by
  rw [handleLinkRequest, Transport.handleLinkRequest, Link.linkId_eq crypto fits, ok_bind]
  cases t.links.get (LxmfChat.Link.linkId crypto p) with
  | some state => rfl
  | none =>
    dsimp only
    rw [Link.acceptRequest_eq crypto fits, ok_bind]
    cases LxmfChat.Link.acceptRequest crypto p t.identity ephemeral with
    | none => rfl
    | some est => rfl

theorem handleOpportunistic_eq (fits : p.data.length ≤ maxLength) :
    handleOpportunistic crypto t (.ofPacket p) = .ok (t.handleOpportunistic crypto p) := by
  rw [handleOpportunistic, Transport.handleOpportunistic, Packet.ofPacket_data,
    PrivateIdentity.decrypt_eq, ok_bind]
  cases LxmfChat.PrivateIdentity.decrypt crypto t.identity p.data [] with
  | error reason => rfl
  | ok plaintext =>
    dsimp only
    rw [Packet.packetHash_eq crypto fits, ok_bind, copySlice_ok rfl (by simp), ok_bind,
      Packet.encode_header1 _ _ _ _ (by simp [maxLength]), ok_bind]
    rfl

theorem handleOurs_eq (fits : p.data.length ≤ maxLength) (iface : PathIface)
    (other : p.packetType ≠ .announce)
    (elsewhere : ¬ (p.packetType = .data
      ∧ p.destinationHash = Transport.pathRequestDestination crypto)) :
    handleOurs crypto t ephemeral (.ofPacket p)
      = .ok (t.handleAddressed crypto ephemeral iface p) := by
  rw [handleOurs, Transport.handleAddressed, if_neg other, if_neg elsewhere]
  simp only [Packet.ofPacket_packetType, Packet.ofPacket_destinationHash]
  split
  · cases p.packetType with
    | linkRequest => exact handleLinkRequest_eq t ephemeral fits
    | data =>
      dsimp only
      rw [handleOpportunistic_eq t fits]
      rfl
    | announce => rfl
    | proof => rfl
  · rfl

theorem handleAddressed_eq (fits : p.data.length ≤ maxLength) (iface : PathIface) :
    handleAddressed crypto t ephemeral iface (.ofPacket p)
      = .ok (t.handleAddressed crypto ephemeral iface p) := by
  rw [handleAddressed, Packet.ofPacket_packetType, Packet.ofPacket_destinationHash]
  by_cases announce : p.packetType = .announce
  · rw [if_pos announce, Transport.handleAddressed, if_pos announce]
    exact handleAnnounce_eq t iface
  rw [if_neg announce]
  by_cases kind : p.packetType = .data
  · rw [if_pos kind, plainDestinationHash_eq, ok_bind]
    by_cases request : p.destinationHash = Transport.pathRequestDestination crypto
    · have here : p.destinationHash
          = LxmfChat.plainDestinationHash crypto "rnstransport" ["path", "request"] := request
      rw [if_pos here, Transport.handleAddressed, if_neg announce, if_pos ⟨kind, request⟩,
        handlePathRequest_eq]
      rfl
    · exact (if_neg request).trans
        (handleOurs_eq t ephemeral fits iface announce fun both => request both.2)
  · rw [if_neg kind]
    exact handleOurs_eq t ephemeral fits iface announce fun both => kind both.1

theorem handlePacket_eq (pads : crypto.CbcPads) (fits : p.data.length ≤ maxLength)
    (iface : PathIface) :
    handlePacket crypto t ephemeral iface (.ofPacket p)
      = .ok (t.handlePacket crypto ephemeral iface p) := by
  rw [handlePacket, attempt_ok (handleLrProof_eq t fits) <|
    attempt_ok (handleResourceProof_eq t) <| attempt_ok (handleLinkProof_eq t) <|
    attempt_ok (handleOutLinkData_eq t fits) <| attempt_ok (handleOppProof_eq t) <|
    attempt_ok (handleInLink_eq t ephemeral pads fits) (handleAddressed_eq t ephemeral fits iface),
    Transport.handlePacket]
  simp only [Option.orElse_eq_orElse, Option.orElse_eq_or, Option.getD_or]

end Branches

theorem decode_data_length {raw : Bytes} {p : LxmfChat.Packet}
    (read : LxmfChat.Packet.decode raw = .ok p) : p.data.length ≤ raw.length := by
  rw [LxmfChat.Packet.decode] at read
  split at read
  · cases read
  · dsimp only at read
    split at read
    · split at read
      · cases read
      · cases read
        simp [LxmfChat.Packet.ofFlags]
    · cases read
      simp [LxmfChat.Packet.ofFlags]

theorem handleFrame_eq {crypto : Crypto} (pads : crypto.CbcPads) (t : Transport) {raw : Bytes}
    (fits : raw.length ≤ maxLength) (ephemeral : KeyHalf) (iface : PathIface) :
    handleFrame crypto t raw ephemeral iface = .ok (t.handleFrame crypto raw ephemeral iface) := by
  rw [handleFrame, Packet.decode_eq, ok_bind, Transport.handleFrame]
  cases read : LxmfChat.Packet.decode raw with
  | error reason => rfl
  | ok p => exact handlePacket_eq t ephemeral pads ((decode_data_length read).trans fits) iface

/--
No frame that the deframer yields makes the receive path panic, whatever the state.

The literal handler indexes, slices, copies, unwraps and adds where the code does, and it always
returns what the total handler returns. A frame is a byte vector, so its length fits the machine.
-/
theorem receive_path_total {crypto : Crypto} (pads : crypto.CbcPads) (d : Hdlc.Deframer)
    (bytes : Bytes) (t : Transport) (ephemeral : KeyHalf) (iface : PathIface) :
    ∀ frame ∈ (d.push bytes).2, frame.length ≤ maxLength →
      handleFrame crypto t frame ephemeral iface
        = .ok (t.handleFrame crypto frame ephemeral iface) := by
  intro frame _ fits
  exact handleFrame_eq pads t fits ephemeral iface

section Samples

def blockSample : Crypto :=
  { Crypto.sample with
    aesCbcEncrypt := fun _ _ plaintext =>
      plaintext ++ List.replicate (16 - plaintext.length % 16) 0 }

theorem blockSample_cbcPads : blockSample.CbcPads := by
  intro key iv plaintext
  simp only [blockSample, List.length_append, List.length_replicate]
  omega

def soughtNode : Transport :=
  (Transport.new ⟨BytesN.ofBytes 32 [1], BytesN.ofBytes 32 [2]⟩).registerDestination
    (BytesN.ofBytes 16 [5])

def soughtFrame : Bytes :=
  (LxmfChat.Packet.header1 .plain .data CONTEXT_NONE (Transport.pathRequestDestination blockSample)
    (BytesN.ofBytes 16 [5] : TruncatedHash).val).encode

/-- A path request that is read off the stream reaches the node it asks for. -/
theorem receive_path_total_sought :
    soughtFrame ∈ (Hdlc.Deframer.push {} (Hdlc.frame soughtFrame)).2
      ∧ (handleFrame blockSample soughtNode soughtFrame (BytesN.ofBytes 32 []) .hub).map (·.2)
        = .ok (.pathRequest (BytesN.ofBytes 16 [5])) := by
  have yielded : soughtFrame ∈ (Hdlc.Deframer.push {} (Hdlc.frame soughtFrame)).2 := by
    have nonempty : soughtFrame ≠ [] := LxmfChat.Packet.encode_ne_nil _
    have framed := Hdlc.Deframer.push_frame {} soughtFrame []
    rw [List.append_nil] at framed
    simp [framed, nonempty]
  have answer : (soughtNode.handleFrame blockSample soughtFrame (BytesN.ofBytes 32 []) .hub).2
      = .pathRequest (BytesN.ofBytes 16 [5]) := by
    decide +kernel
  refine ⟨yielded, ?_⟩
  rw [receive_path_total blockSample_cbcPads {} _ soughtNode _ .hub _ yielded (by decide +kernel)]
  exact congrArg Except.ok answer

end Samples

end LxmfChat.Literal
