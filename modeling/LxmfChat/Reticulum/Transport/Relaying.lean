import LxmfChat.Reticulum.Transport.Ops

/-! What relaying cannot change: the hash of a packet and the id of the link a request opens. -/

namespace LxmfChat

open Base

namespace Packet

def readdressed (p : Packet) (headerType : HeaderType) (contextFlag : Bool)
    (transportType : TransportType) (hops : UInt8) : Packet :=
  { p with
    headerType := headerType
    contextFlag := contextFlag
    transportType := transportType
    hops := hops }

theorem relayed_readdressed (p : Packet) (headerType : HeaderType) (contextFlag : Bool)
    (transportType : TransportType) (hops : UInt8) :
    Relayed (p.readdressed headerType contextFlag transportType hops) p :=
  ⟨rfl, rfl, rfl, rfl, rfl⟩

theorem Relayed.packetHash (crypto : Crypto) {p q : Packet} (relayed : Relayed p q) :
    p.packetHash crypto = q.packetHash crypto := by
  rw [Packet.packetHash, Packet.packetHash, relayed.hashablePart]

/-- The packet as it is sent to a relay, or to the destination itself when there is none. -/
def forwarded (p : Packet) : Option TruncatedHash → Packet
  | none => p
  | some nextHop => p.readdressed (.two nextHop) false .transport p.hops

theorem relayed_forwarded (p : Packet) (relay : Option TruncatedHash) :
    Relayed (p.forwarded relay) p := by
  cases relay with
  | none => exact ⟨rfl, rfl, rfl, rfl, rfl⟩
  | some nextHop => exact relayed_readdressed p (.two nextHop) false .transport p.hops

theorem forwarded_headerType {p : Packet} (one : p.headerType = .one)
    (relay : Option TruncatedHash) (nextHop : TruncatedHash) :
    (p.forwarded relay).headerType = .two nextHop ↔ relay = some nextHop := by
  cases relay with
  | none => simp [forwarded, one]
  | some other => simp [forwarded, readdressed]

end Packet

namespace Link

theorem linkId_of_keys (crypto : Crypto) {p q : Packet}
    (destinationType : p.destinationType = q.destinationType)
    (packetType : p.packetType = q.packetType)
    (destination : p.destinationHash = q.destinationHash) (context : p.context = q.context)
    (keys : p.data.take ECPUBSIZE = q.data.take ECPUBSIZE) :
    linkId crypto p = linkId crypto q := by
  rw [linkId, linkId, linkMaterial_eq, linkMaterial_eq, destinationType, packetType, destination,
    context, keys]

end Link

namespace Transport

variable (crypto : Crypto)

/-- The relay a packet for a destination is sent to, when the destination is not a neighbour. -/
def relayFor (t : Transport) (dest : TruncatedHash) : Option TruncatedHash :=
  (t.paths.get dest).bind fun entry => if entry.hops ≤ 1 then none else entry.nextHop

theorem relayFor_eq_some (t : Transport) (dest nextHop : TruncatedHash) :
    t.relayFor dest = some nextHop ↔
      ∃ entry, t.paths.get dest = some entry ∧ 1 < entry.hops ∧ entry.nextHop = some nextHop := by
  simp [relayFor, Option.bind_eq_some_iff]

theorem forwarded_flags (p : Packet) (nextHop : TruncatedHash) :
    (HEADER_2 <<< 6) ||| (TransportType.transport.code <<< 4) ||| (p.packedFlags &&& 0b00001111)
      = (p.forwarded (some nextHop)).packedFlags := by
  -- Only the kind of destination and the kind of packet are kept.
  obtain ⟨-, -, -, -, -, low⟩ := Packet.flagBits_fields (Packet.header_code p.headerType)
    p.contextFlag p.transportType p.destinationType p.packetType
  rw [Packet.packedFlags, low]
  show _ = Packet.flagBits HEADER_2 false .transport p.destinationType p.packetType
  cases p.destinationType <;> cases p.packetType <;> decide

theorem applyTransport_encode (t : Transport) (dest : TruncatedHash) {p : Packet}
    (one : p.headerType = .one) :
    t.applyTransport dest p.encode = (p.forwarded (t.relayFor dest)).encode := by
  rw [applyTransport, relayFor]
  cases t.paths.get dest with
  | none => rfl
  | some entry =>
    simp only [Option.bind_some]
    by_cases near : entry.hops ≤ 1
    · rw [if_pos near, if_pos near]
      rfl
    · rw [if_neg near, if_neg near]
      cases entry.nextHop with
      | none => rfl
      | some nextHop =>
        -- The rewriting splices the relay's id in after the hop count.
        obtain ⟨layout, -⟩ := Packet.flagBits_fields (Packet.header_code p.headerType)
          p.contextFlag p.transportType p.destinationType p.packetType
        have first : ¬ (p.packedFlags &&& 0b01000000) >>> 6 ≠ HEADER_1 := by
          rw [Packet.packedFlags, layout, one]
          decide
        rw [Packet.encode, Packet.transportBytes, one]
        simp only [List.nil_append]
        rw [if_neg first, forwarded_flags p nextHop]
        rfl

theorem decode_applyTransport (t : Transport) (dest : TruncatedHash) {p : Packet}
    (one : p.headerType = .one) :
    Packet.decode (t.applyTransport dest p.encode) = .ok (p.forwarded (t.relayFor dest)) := by
  rw [applyTransport_encode t dest one, Packet.decode_encode]

theorem makeLinkRequest_sent (t : Transport) (target : TruncatedHash) (peer : PublicIdentity)
    (secret seed : KeyHalf) (now : Nat) :
    ∃ q, Packet.decode (t.makeLinkRequest crypto target peer secret seed now).2.1 = .ok q
      ∧ Link.linkId crypto q = (t.makeLinkRequest crypto target peer secret seed now).2.2 :=
  ⟨_, t.decode_applyTransport target rfl,
    Link.linkId_relayed crypto (Packet.relayed_forwarded _ (t.relayFor target))⟩

theorem makeOpportunisticTracked_sent (t : Transport) (recipientHash : TruncatedHash)
    (recipient : PublicIdentity) (ratchet : Option KeyHalf) (plaintext : Bytes) (secret : KeyHalf)
    (iv : Iv) :
    ∃ q, Packet.decode
        (t.makeOpportunisticTracked crypto recipientHash recipient ratchet plaintext secret iv).2.1
          = .ok q
      ∧ q.packetHash crypto
        = (t.makeOpportunisticTracked crypto recipientHash recipient ratchet plaintext secret
            iv).2.2 :=
  ⟨_, decode_applyTransport _ recipientHash rfl, (Packet.relayed_forwarded _ _).packetHash crypto⟩

/--
Identifiers survive relaying.

No header change alters the hash of a packet, nor does the rewriting for transport, which sends
the packet to a relay exactly when the route has several hops and a next one. The link a request
opens depends on nothing behind its two keys either, so the responder names the link its
initiator waits for, and a packet comes to be proven under the hash its sender registered.
-/
theorem identifiers_survive :
    (∀ (p : Packet) (headerType : HeaderType) (contextFlag : Bool) (transportType : TransportType)
        (hops : UInt8),
      (p.readdressed headerType contextFlag transportType hops).packetHash crypto
        = p.packetHash crypto)
    ∧ (∀ (t : Transport) (dest : TruncatedHash) (p : Packet), p.headerType = .one →
      ∃ q, Packet.decode (t.applyTransport dest p.encode) = .ok q
        ∧ q.packetHash crypto = p.packetHash crypto
        ∧ q.destinationHash = p.destinationHash ∧ q.context = p.context ∧ q.data = p.data
        ∧ ∀ nextHop, q.headerType = .two nextHop ↔ ∃ entry, t.paths.get dest = some entry
          ∧ 1 < entry.hops ∧ entry.nextHop = some nextHop)
    ∧ (∀ p : Packet, p.packetType = .linkRequest → ECPUBSIZE ≤ p.data.length →
      ∀ (headerType : HeaderType) (contextFlag : Bool) (transportType : TransportType)
        (hops : UInt8) (data : Bytes), data.take ECPUBSIZE = p.data.take ECPUBSIZE →
      Link.linkId crypto
          { p.readdressed headerType contextFlag transportType hops with data := data }
        = Link.linkId crypto p)
    ∧ (∀ (t : Transport) (target : TruncatedHash) (peer : PublicIdentity) (secret seed : KeyHalf)
        (now : Nat),
      ∃ q, Packet.decode (t.makeLinkRequest crypto target peer secret seed now).2.1 = .ok q
        ∧ ∀ (headerType : HeaderType) (contextFlag : Bool) (transportType : TransportType)
          (hops : UInt8) (identity : PrivateIdentity) (ephemeral : KeyHalf) (est : EstablishedLink),
        Link.acceptRequest crypto (q.readdressed headerType contextFlag transportType hops) identity
            ephemeral = some est →
          est.linkId = (t.makeLinkRequest crypto target peer secret seed now).2.2)
    ∧ ∀ (t : Transport) (recipientHash : TruncatedHash) (recipient : PublicIdentity)
        (ratchet : Option KeyHalf) (plaintext : Bytes) (secret : KeyHalf) (iv : Iv),
      ∃ q, Packet.decode (t.makeOpportunisticTracked crypto recipientHash recipient ratchet
          plaintext secret iv).2.1 = .ok q
        ∧ ∀ (headerType : HeaderType) (contextFlag : Bool) (transportType : TransportType)
          (hops : UInt8),
        (q.readdressed headerType contextFlag transportType hops).packetHash crypto
          = (t.makeOpportunisticTracked crypto recipientHash recipient ratchet plaintext secret
              iv).2.2 := by
  refine ⟨?hash, ?rewritten, ?link, ?responder, ?receipt⟩
  case hash =>
    intro p headerType contextFlag transportType hops
    exact (p.relayed_readdressed headerType contextFlag transportType hops).packetHash crypto
  case rewritten =>
    intro t dest p one
    have relayed := p.relayed_forwarded (t.relayFor dest)
    refine ⟨_, t.decode_applyTransport dest one, relayed.packetHash crypto,
      relayed.destinationHash, relayed.context, relayed.data, ?_⟩
    intro nextHop
    rw [Packet.forwarded_headerType one, relayFor_eq_some]
  case link =>
    -- The hashed part ends with the two keys, whatever the header says and whatever follows.
    intro p _ _ headerType contextFlag transportType hops data keys
    symm
    apply Link.linkId_of_keys
    case keys => exact keys.symm
    all_goals rfl
  case responder =>
    intro t target peer secret seed now
    obtain ⟨q, sent, opens⟩ := t.makeLinkRequest_sent crypto target peer secret seed now
    refine ⟨q, sent, ?_⟩
    intro headerType contextFlag transportType hops identity ephemeral est accepted
    rw [← Link.acceptRequest_linkId crypto accepted,
      Link.linkId_relayed crypto (q.relayed_readdressed headerType contextFlag transportType hops),
      opens]
  case receipt =>
    intro t recipientHash recipient ratchet plaintext secret iv
    obtain ⟨q, sent, registered⟩ :=
      t.makeOpportunisticTracked_sent crypto recipientHash recipient ratchet plaintext secret iv
    refine ⟨q, sent, ?_⟩
    intro headerType contextFlag transportType hops
    rw [(q.relayed_readdressed headerType contextFlag transportType hops).packetHash crypto,
      registered]

end Transport

end LxmfChat
