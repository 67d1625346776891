import LxmfChat.App.Inbox

/-! Tickets that peers hand us, and the one message a sender that waits to be verified. -/

namespace LxmfChat

open Base
open Relation (ReflTransGen)

def cleanName (raw : Text) : Option Text :=
  let trimmed := trim (raw.filter (· ≠ '\x00'))
  if trimmed.isEmpty then none else some trimmed

def lxmfDisplayName (appData : Bytes) : Except Fault (Option Text) :=
  match appData with
  | [] => .ok none
  | b0 :: _ =>
    if (0x90 ≤ b0 && b0 ≤ 0x9f) || b0 = 0xdc then
      match Msgpack.decode appData with
      | .ok (.array (.bin b :: _)) => .ok (cleanName (utf8Lossy b))
      | .ok (.array (.str s :: _)) => .ok (cleanName s)
      | .error (.panic message) => .error (.panic message)
      | _ => .ok none
    else .ok (cleanName (utf8Lossy appData))

namespace Inbox

/-- A saved contact takes the announced name if it has only a placeholder for one. -/
def refreshContact (dest : TruncatedHash) (name : Text) (inbox : Inbox) : Inbox :=
  match inbox.contacts.lookup dest with
  | none => inbox
  | some existing =>
    let addrHex := hex dest.val
    let isPlaceholder := existing = addrHex ∨ existing = addrHex.take 8 ++ ['…']
    let keep := if isPlaceholder then name else existing
    { inbox with contacts := inbox.contacts.insert dest keep }

def verifyAndStoreTicket (crypto : Crypto) (now : Nat) (src : TruncatedHash)
    (identity : PublicIdentity) (lxmfBytes : Bytes) (inbox : Inbox) : Inbox :=
  match Message.parse crypto lxmfBytes (some identity) with
  | .error _ => inbox
  | .ok m =>
    if m.signatureValidated then
      match extractTicket m.fields with
      | some t => inbox.storeTicket now src t
      | none => inbox
    else inbox

def noteName (dest : TruncatedHash) (name : Text) (inbox : Inbox) : Inbox :=
  { inbox with seen := inbox.seen.insert dest name }.refreshContact dest name

def recoverTicket (crypto : Crypto) (now : Nat) (dest : TruncatedHash) (identity : PublicIdentity)
    (inbox : Inbox) : Inbox :=
  match inbox.ticketPending.lookup dest with
  | none => inbox
  | some lxmfBytes =>
    { inbox with ticketPending := inbox.ticketPending.erase dest }.verifyAndStoreTicket crypto now
      dest identity lxmfBytes

/-- A peer announced itself: its name is noted, and the message kept for it is verified. -/
def announced (cfg : Config) (now : Nat) (dest : TruncatedHash) (info : KnownDest)
    (inbox : Inbox) : Inbox :=
  if dest = cfg.ourDh then inbox
  else if info.nameHash = nomadNodeNameHash cfg then inbox
  else if info.nameHash ≠ lxmfDeliveryNameHash cfg then inbox
  else
    -- The stamp cost is read from the same bytes as the name, so it can be read if the name can.
    match lxmfDisplayName info.appData with
    -- The thread that read the frame is gone.
    | .error _ => inbox
    | .ok name =>
      (inbox.noteName dest (name.getD (hex dest.val))).recoverTicket cfg.crypto now dest
        info.identity

def spendTicket (now : Nat) (peer : TruncatedHash) (inbox : Inbox) : Inbox :=
  match inbox.tickets.lookup peer with
  | none => inbox
  | some (expiry, _) =>
    if expiry ≤ now then { inbox with tickets := inbox.tickets.erase peer } else inbox

end Inbox

/-- The inbox, the transport that knows the peers' keys, and everything that was delivered. -/
structure Mail where
  transport : Transport
  inbox : Inbox := {}
  now : Nat := 0
  received : List Bytes := []

inductive MailAction
  | deliver (lxmfBytes : Bytes) (live : Bool)
  | announce (dest : TruncatedHash) (info : KnownDest)
  /-- The transport is called, which is also how frames reach it. -/
  | call (op : Transport.Op)
  | spend (peer : TruncatedHash)
  | tick (time : Nat)

namespace Mail

def act (cfg : Config) (m : Mail) : MailAction → Mail
  | .deliver lxmfBytes live =>
    { m with
      inbox := (m.inbox.deliverLxmf cfg.crypto m.transport m.now lxmfBytes live).1
      received := m.received ++ [lxmfBytes] }
  | .announce dest info => { m with inbox := m.inbox.announced cfg m.now dest info }
  | .call op => { m with transport := m.transport.perform cfg.crypto op }
  | .spend peer => { m with inbox := m.inbox.spendTicket m.now peer }
  | .tick time => { m with now := max m.now time }

/-- One action of those that are allowed. -/
def Step (cfg : Config) (allowed : Mail → MailAction → Prop) (m m' : Mail) : Prop :=
  ∃ a, allowed m a ∧ m' = m.act cfg a

end Mail

def genuineTicket (crypto : Crypto) (src : TruncatedHash) (identity : PublicIdentity)
    (lxmfBytes : Bytes) : Option InboundTicket :=
  match Message.parse crypto lxmfBytes (some identity) with
  | .error _ => none
  | .ok m => if m.sourceHash = src ∧ m.signatureValidated then extractTicket m.fields else none

def InboundTicket.entry (t : InboundTicket) : Nat × TruncatedHash := (t.expires, t.ticket)

namespace Message

theorem parse_other {crypto : Crypto} {lxmfBytes : Bytes} {identity : Option PublicIdentity}
    {m : ParsedMessage} (parsed : parse crypto lxmfBytes identity = .ok m)
    (other : Option PublicIdentity) :
    ∃ verdict, parse crypto lxmfBytes other = .ok { m with signatureValidated := verdict } := by
  obtain ⟨long, timestamp, title, content, fields, payload, seconds, covered, same⟩ :=
    parse_covered crypto parsed
  rw [parse, dif_neg (Nat.not_lt.mpr long)] at parsed ⊢
  simp only [covered, same] at parsed ⊢
  cases parsed
  exact ⟨_, rfl⟩

end Message

section Genuine

variable {crypto : Crypto} {src : TruncatedHash} {identity : PublicIdentity} {lxmfBytes : Bytes}
  {t : InboundTicket}

theorem fields_of_genuineTicket (genuine : genuineTicket crypto src identity lxmfBytes = some t)
    {known : Option PublicIdentity} {m : ParsedMessage}
    (parsed : Message.parse crypto lxmfBytes known = .ok m) :
    m.sourceHash = src ∧ extractTicket m.fields = some t := by
  obtain ⟨verdict, again⟩ := Message.parse_other parsed (some identity)
  rw [genuineTicket, again] at genuine
  dsimp only at genuine
  split at genuine
  case isTrue fine => exact ⟨fine.1, genuine⟩
  case isFalse => cases genuine

theorem genuineTicket_of_validated {m : ParsedMessage}
    (parsed : Message.parse crypto lxmfBytes (some identity) = .ok m) (source : m.sourceHash = src)
    (validated : m.signatureValidated = true) :
    genuineTicket crypto src identity lxmfBytes = extractTicket m.fields := by
  rw [genuineTicket, parsed]
  exact if_pos ⟨source, validated⟩

theorem genuineTicket_of_not_validated {m : ParsedMessage}
    (parsed : Message.parse crypto lxmfBytes (some identity) = .ok m)
    (validated : m.signatureValidated = false) :
    genuineTicket crypto src identity lxmfBytes = none := by
  rw [genuineTicket, parsed]
  exact if_neg (by simp [validated])

end Genuine

namespace Inbox

variable {inbox : Inbox} {now : Nat} {src peer : TruncatedHash} {t : InboundTicket}
  {entry : Nat × TruncatedHash}

theorem lookup_storeTicket_of_ne (other : peer ≠ src) :
    (inbox.storeTicket now src t).tickets.lookup peer = inbox.tickets.lookup peer := by
  rw [storeTicket]
  split
  · rfl
  split
  · split
    · exact AList.lookup_insert_ne other
    · rfl
  · exact AList.lookup_insert_ne other

theorem ticketPending_storeTicket :
    (inbox.storeTicket now src t).ticketPending = inbox.ticketPending := by
  rw [storeTicket]
  split
  · rfl
  split
  · split <;> rfl
  · rfl

theorem storeTicket_offers
    (held : (inbox.storeTicket now src t).tickets.lookup src = some entry) :
    inbox.tickets.lookup src = some entry ∨ t.entry = entry := by
  rw [storeTicket] at held
  split at held
  · exact .inl held
  split at held
  · split at held
    · rw [AList.lookup_insert] at held
      exact .inr (Option.some.inj held)
    · exact .inl held
  · rw [AList.lookup_insert] at held
    exact .inr (Option.some.inj held)

theorem storeTicket_keeps (held : inbox.tickets.lookup src = some entry) :
    ∃ entry', (inbox.storeTicket now src t).tickets.lookup src = some entry'
      ∧ entry.1 ≤ entry'.1 := by
  rw [storeTicket]
  split
  · exact ⟨entry, held, le_rfl⟩
  rw [held]
  dsimp only
  split
  case isTrue later => exact ⟨t.entry, AList.lookup_insert inbox.tickets, later⟩
  case isFalse => exact ⟨entry, held, le_rfl⟩

theorem storeTicket_takes (valid : now < t.expires) :
    ∃ entry, (inbox.storeTicket now src t).tickets.lookup src = some entry
      ∧ t.expires ≤ entry.1 := by
  rw [storeTicket, if_neg (Nat.not_le.mpr valid)]
  split
  case h_1 expires ticket held =>
    split
    case isTrue => exact ⟨t.entry, AList.lookup_insert inbox.tickets, le_rfl⟩
    case isFalse sooner => exact ⟨(expires, ticket), held, (Nat.lt_of_not_le sooner).le⟩
  case h_2 => exact ⟨t.entry, AList.lookup_insert inbox.tickets, le_rfl⟩

structure SameTickets (inbox inbox' : Inbox) : Prop where
  tickets : inbox'.tickets = inbox.tickets
  pending : inbox'.ticketPending = inbox.ticketPending

theorem SameTickets.storeTicket {inbox' : Inbox} (same : SameTickets inbox inbox') :
    SameTickets (inbox.storeTicket now src t) (inbox'.storeTicket now src t) := by
  constructor
  · rw [Inbox.storeTicket, Inbox.storeTicket, same.tickets]
    split
    · exact same.tickets
    split
    · split
      · rfl
      · exact same.tickets
    · rfl
  · rw [ticketPending_storeTicket, ticketPending_storeTicket, same.pending]

theorem SameTickets.takeTicket {inbox' : Inbox} (same : SameTickets inbox inbox') (now : Nat)
    (src : TruncatedHash) (m : ParsedMessage) (lxmfBytes : Bytes) :
    SameTickets (inbox.takeTicket now src m lxmfBytes)
      (inbox'.takeTicket now src m lxmfBytes) := by
  rw [Inbox.takeTicket, Inbox.takeTicket]
  split
  · exact same
  split
  · exact same.storeTicket
  · exact ⟨same.tickets, by rw [same.pending]⟩

theorem lookup_takeTicket_of_ne (inbox : Inbox) {src other : TruncatedHash}
    (different : src ≠ other) (now : Nat) (m : ParsedMessage) (lxmfBytes : Bytes) :
    (inbox.takeTicket now other m lxmfBytes).tickets.lookup src = inbox.tickets.lookup src
      ∧ (inbox.takeTicket now other m lxmfBytes).ticketPending.lookup src
        = inbox.ticketPending.lookup src := by
  rw [Inbox.takeTicket]
  split
  · exact ⟨rfl, rfl⟩
  split
  · exact ⟨lookup_storeTicket_of_ne different, by rw [ticketPending_storeTicket]⟩
  · exact ⟨rfl, AList.lookup_insert_ne different⟩

theorem deliverLxmf_takes (crypto : Crypto) (transport : Transport) (now : Nat) (lxmfBytes : Bytes)
    (live : Bool) (inbox : Inbox) :
    let after := (inbox.deliverLxmf crypto transport now lxmfBytes live).1
    (after = inbox ∧ ∀ identity m, Message.parse crypto lxmfBytes identity ≠ .ok m)
    ∨ ∃ m, Message.parse crypto lxmfBytes
          ((transport.known.get m.sourceHash).map (·.identity)) = .ok m
        ∧ ((after = inbox ∧ m.messageId ∈ inbox.recentMsgIds)
          ∨ SameTickets (inbox.takeTicket now m.sourceHash m lxmfBytes) after) := by
  rw [deliverLxmf]
  split
  case isTrue short =>
    refine .inl ⟨rfl, fun identity m parsed => ?_⟩
    have long := (Message.parse_covered crypto parsed).1
    rw [Message.headerLength, DEST_LEN, SIG_LENGTH] at long
    omega
  case isFalse long =>
    dsimp only
    split
    case h_1 why failed =>
      refine .inl ⟨rfl, fun identity m parsed => ?_⟩
      obtain ⟨verdict, again⟩ := Message.parse_other parsed
        ((transport.known.get (BytesN.slice lxmfBytes 16 16 (by omega))).map (·.identity))
      rw [again] at failed
      cases failed
    case h_2 m parsed =>
      -- The source of the message is where its identity was looked up.
      have source : BytesN.slice lxmfBytes 16 16 (by omega) = m.sourceHash :=
        Subtype.ext (Message.parse_ok crypto parsed).2.2.1.symm
      refine .inr ⟨m, source ▸ parsed, ?_⟩
      split
      case isTrue duplicate => exact .inl ⟨rfl, duplicate⟩
      case isFalse =>
        refine .inr ?_
        have remembered : SameTickets inbox { inbox.rememberId m.messageId with
            contacts := inbox.contacts.insert m.sourceHash (inbox.author m.sourceHash) } :=
          ⟨rfl, rfl⟩
        rw [source]
        have taken := remembered.takeTicket now m.sourceHash m lxmfBytes
        split <;> exact ⟨taken.tickets, taken.pending⟩

theorem ticketPending_verifyAndStoreTicket {crypto : Crypto} {identity : PublicIdentity}
    {lxmfBytes : Bytes} :
    (inbox.verifyAndStoreTicket crypto now src identity lxmfBytes).ticketPending
      = inbox.ticketPending := by
  rw [verifyAndStoreTicket]
  split
  · rfl
  split
  · split
    · exact ticketPending_storeTicket
    · rfl
  · rfl

theorem SameTickets.verifyAndStoreTicket {inbox' : Inbox} (same : SameTickets inbox inbox')
    (crypto : Crypto) (now : Nat) (src : TruncatedHash) (identity : PublicIdentity)
    (lxmfBytes : Bytes) :
    SameTickets (inbox.verifyAndStoreTicket crypto now src identity lxmfBytes)
      (inbox'.verifyAndStoreTicket crypto now src identity lxmfBytes) := by
  rw [Inbox.verifyAndStoreTicket, Inbox.verifyAndStoreTicket]
  split
  · exact same
  split
  · split
    · exact same.storeTicket
    · exact same
  · exact same

theorem sameTickets_noteName (dest : TruncatedHash) (name : Text) (inbox : Inbox) :
    SameTickets inbox (inbox.noteName dest name) := by
  rw [noteName, refreshContact]
  split <;> exact ⟨rfl, rfl⟩

theorem SameTickets.recoverTicket {inbox' : Inbox} (same : SameTickets inbox inbox')
    (crypto : Crypto) (now : Nat) (dest : TruncatedHash) (identity : PublicIdentity) :
    SameTickets (inbox.recoverTicket crypto now dest identity)
      (inbox'.recoverTicket crypto now dest identity) := by
  have erased : SameTickets { inbox with ticketPending := inbox.ticketPending.erase dest }
      { inbox' with ticketPending := inbox.ticketPending.erase dest } := ⟨same.tickets, rfl⟩
  rw [Inbox.recoverTicket, Inbox.recoverTicket, same.pending]
  split
  · exact same
  · exact erased.verifyAndStoreTicket _ _ _ _ _

/-- An announce is one that the message kept for its sender is verified at. -/
structure Replays (cfg : Config) (dest : TruncatedHash) (info : KnownDest) : Prop where
  other : dest ≠ cfg.ourDh
  delivery : info.nameHash = lxmfDeliveryNameHash cfg
  noNode : info.nameHash ≠ nomadNodeNameHash cfg
  readable : ∃ name, lxmfDisplayName info.appData = .ok name

theorem announced_takes (cfg : Config) (now : Nat) (dest : TruncatedHash) (info : KnownDest)
    (inbox : Inbox) :
    SameTickets inbox (inbox.announced cfg now dest info) ∧ ¬ Replays cfg dest info
    ∨ SameTickets (inbox.recoverTicket cfg.crypto now dest info.identity)
        (inbox.announced cfg now dest info) := by
  rw [announced]
  split
  case isTrue ours => exact .inl ⟨⟨rfl, rfl⟩, fun replays => replays.other ours⟩
  split
  case isTrue node => exact .inl ⟨⟨rfl, rfl⟩, fun replays => replays.noNode node⟩
  split
  case isTrue foreign => exact .inl ⟨⟨rfl, rfl⟩, fun replays => foreign replays.delivery⟩
  split
  case h_1 fault failed =>
    refine .inl ⟨⟨rfl, rfl⟩, fun replays => ?_⟩
    obtain ⟨name, read⟩ := replays.readable
    rw [failed] at read
    cases read
  case h_2 => exact .inr ((sameTickets_noteName dest _ inbox).recoverTicket _ _ _ _)

end Inbox

namespace Mail

variable (cfg : Config) (src : TruncatedHash) (identity : PublicIdentity)

def genuine (m : Mail) : List InboundTicket :=
  m.received.filterMap (genuineTicket cfg.crypto src identity)

/-- A message in the sender's name carries a ticket, and is read as this. -/
structure Bears (m : Mail) (lxmfBytes : Bytes) (read : ParsedMessage) : Prop where
  parsed : Message.parse cfg.crypto lxmfBytes ((m.transport.known.get src).map (·.identity))
    = .ok read
  source : read.sourceHash = src
  ticket : (extractTicket read.fields).isSome

structure Harmless (m : Mail) (lxmfBytes : Bytes) : Prop where
  /-- The key that is known for the sender is its own. -/
  bound : ∀ info, m.transport.known.get src = some info → info.identity = identity
  /-- A genuine message is taken for a duplicate only of itself. -/
  repeated : ∀ read, Bears cfg src m lxmfBytes read →
    (genuineTicket cfg.crypto src identity lxmfBytes).isSome →
    read.messageId ∈ m.inbox.recentMsgIds → lxmfBytes ∈ m.received
  /-- A genuine message waits, until one takes its place whose ticket expires no sooner. -/
  displaces : ∀ read, Bears cfg src m lxmfBytes read → read.signatureValidated = false →
    ∀ kept t, m.inbox.ticketPending.lookup src = some kept →
      genuineTicket cfg.crypto src identity kept = some t →
      ∃ t', genuineTicket cfg.crypto src identity lxmfBytes = some t' ∧ t.expires ≤ t'.expires

/-- Actions that cost the sender no ticket. -/
def Careful (m : Mail) : MailAction → Prop
  | .deliver lxmfBytes _ => Harmless cfg src identity m lxmfBytes
  | .announce dest info => dest = src → info.identity = identity
  | _ => True

/-- Every genuine ticket that is still valid is held, or waits, or one that expires no sooner. -/
structure Kept (m : Mail) : Prop where
  among : ∀ entry, m.inbox.tickets.lookup src = some entry →
    ∃ t ∈ m.genuine cfg src identity, t.entry = entry
  waiting : ∀ kept, m.inbox.ticketPending.lookup src = some kept →
    kept ∈ m.received ∧ ∀ known read, Message.parse cfg.crypto kept known = .ok read →
      read.sourceHash = src
  covered : ∀ t ∈ m.genuine cfg src identity, m.now < t.expires →
    (∃ entry, m.inbox.tickets.lookup src = some entry ∧ t.expires ≤ entry.1)
    ∨ ∃ kept t', m.inbox.ticketPending.lookup src = some kept
        ∧ genuineTicket cfg.crypto src identity kept = some t' ∧ t.expires ≤ t'.expires

variable {cfg src identity} {m m' : Mail}

theorem genuine_deliver (lxmfBytes : Bytes) (live : Bool) :
    (m.act cfg (.deliver lxmfBytes live)).genuine cfg src identity
      = m.genuine cfg src identity
        ++ (genuineTicket cfg.crypto src identity lxmfBytes).toList := by
  rw [genuine, act, List.filterMap_append, genuine]
  congr 1

/-- What the delivery of a message does to the sender's ticket and to the message that waits. -/
inductive Delivers (cfg : Config) (src : TruncatedHash) (identity : PublicIdentity) (m : Mail)
    (lxmfBytes : Bytes) (after : Inbox) : Prop
  /-- Nothing, and any ticket in it was received before. -/
  | ignored (tickets : after.tickets.lookup src = m.inbox.tickets.lookup src)
      (pending : after.ticketPending.lookup src = m.inbox.ticketPending.lookup src)
      (known : ∀ t, genuineTicket cfg.crypto src identity lxmfBytes = some t →
        t ∈ m.genuine cfg src identity)
  | offered (t : InboundTicket)
      (genuine : genuineTicket cfg.crypto src identity lxmfBytes = some t)
      (tickets : after.tickets.lookup src = (m.inbox.storeTicket m.now src t).tickets.lookup src)
      (pending : after.ticketPending.lookup src = m.inbox.ticketPending.lookup src)
  | waits (read : ParsedMessage) (bears : Bears cfg src m lxmfBytes read)
      (unverified : read.signatureValidated = false)
      (tickets : after.tickets.lookup src = m.inbox.tickets.lookup src)
      (pending : after.ticketPending.lookup src = some lxmfBytes)

theorem Bears.genuine {lxmfBytes : Bytes} {read : ParsedMessage}
    (bears : Bears cfg src m lxmfBytes read)
    (bound : ∀ info, m.transport.known.get src = some info → info.identity = identity)
    (validated : read.signatureValidated = true) :
    genuineTicket cfg.crypto src identity lxmfBytes = extractTicket read.fields := by
  have parsed := bears.parsed
  cases known : m.transport.known.get src with
  | none =>
    -- Nothing is verified without a key.
    rw [known] at parsed
    obtain ⟨-, -, -, _, _, -, -, verdict⟩ := Message.parse_ok cfg.crypto parsed
    obtain ⟨id, absent, -⟩ := verdict.mp validated
    cases absent
  | some info =>
    rw [known, Option.map_some, bound info known] at parsed
    exact genuineTicket_of_validated parsed bears.source validated

theorem Harmless.delivers {lxmfBytes : Bytes} (harmless : Harmless cfg src identity m lxmfBytes)
    (live : Bool) :
    Delivers cfg src identity m lxmfBytes
      (m.inbox.deliverLxmf cfg.crypto m.transport m.now lxmfBytes live).1 := by
  have cases := m.inbox.deliverLxmf_takes cfg.crypto m.transport m.now lxmfBytes live
  generalize (m.inbox.deliverLxmf cfg.crypto m.transport m.now lxmfBytes live).1 = after at cases ⊢
  rcases cases with ⟨rfl, unparsed⟩ | ⟨read, parsed, cases⟩
  · refine .ignored rfl rfl fun t genuine => ?_
    rw [genuineTicket] at genuine
    split at genuine
    · cases genuine
    case h_2 read parsed => exact absurd parsed (unparsed _ _)
  by_cases source : read.sourceHash = src
  case neg =>
    -- The message is in somebody else's name.
    have foreign : ∀ t, genuineTicket cfg.crypto src identity lxmfBytes = some t →
        t ∈ m.genuine cfg src identity :=
      fun t genuine => absurd (fields_of_genuineTicket genuine parsed).1 source
    rcases cases with ⟨rfl, -⟩ | taken
    · exact .ignored rfl rfl foreign
    · have alone := m.inbox.lookup_takeTicket_of_ne (Ne.symm source) m.now read lxmfBytes
      refine .ignored ?_ ?_ foreign
      · rw [taken.tickets]
        exact alone.1
      · rw [taken.pending]
        exact alone.2
  case pos =>
    rw [source] at parsed cases
    cases ticket : extractTicket read.fields with
    | none =>
      have bare : ∀ t, genuineTicket cfg.crypto src identity lxmfBytes = some t →
          t ∈ m.genuine cfg src identity := fun t genuine => by
        have carried := (fields_of_genuineTicket genuine parsed).2
        rw [ticket] at carried
        cases carried
      rcases cases with ⟨rfl, -⟩ | taken
      · exact .ignored rfl rfl bare
      · rw [Inbox.takeTicket, ticket] at taken
        exact .ignored (by rw [taken.tickets]) (by rw [taken.pending]) bare
    | some t =>
      have bears : Bears cfg src m lxmfBytes read := ⟨parsed, source, by rw [ticket]; rfl⟩
      rcases cases with ⟨rfl, duplicate⟩ | taken
      · refine .ignored rfl rfl fun t genuine => ?_
        exact List.mem_filterMap.mpr
          ⟨lxmfBytes, harmless.repeated read bears (by rw [genuine]; rfl) duplicate, genuine⟩
      rw [Inbox.takeTicket, ticket] at taken
      cases validated : read.signatureValidated with
      | false =>
        simp only [validated] at taken
        refine .waits read bears validated (by rw [taken.tickets]; rfl) ?_
        rw [taken.pending]
        exact AList.lookup_insert m.inbox.ticketPending
      | true =>
        simp only [validated, if_true] at taken
        refine .offered t ?_ (by rw [taken.tickets])
          (by rw [taken.pending, Inbox.ticketPending_storeTicket])
        rw [bears.genuine harmless.bound validated, ticket]

theorem Kept.deliver (kept : m.Kept cfg src identity) {lxmfBytes : Bytes}
    (harmless : Harmless cfg src identity m lxmfBytes) (live : Bool) :
    (m.act cfg (.deliver lxmfBytes live)).Kept cfg src identity := by
  have stays : ∀ t ∈ m.genuine cfg src identity,
      t ∈ (m.act cfg (.deliver lxmfBytes live)).genuine cfg src identity := fun t there => by
    rw [genuine_deliver]
    exact List.mem_append_left _ there
  have waited : ∀ b, m.inbox.ticketPending.lookup src = some b →
      b ∈ (m.act cfg (.deliver lxmfBytes live)).received
        ∧ ∀ known read, Message.parse cfg.crypto b known = .ok read → read.sourceHash = src :=
    fun b waits => ⟨List.mem_append_left _ (kept.waiting b waits).1, (kept.waiting b waits).2⟩
  cases harmless.delivers live with
  | ignored tickets pending known =>
    refine ⟨fun entry held => ?_, fun b waits => waited b (pending.symm.trans waits),
      fun t there valid => ?_⟩
    · obtain ⟨t, there, same⟩ := kept.among entry (tickets.symm.trans held)
      exact ⟨t, stays t there, same⟩
    · have old : t ∈ m.genuine cfg src identity := by
        rw [genuine_deliver] at there
        rcases List.mem_append.mp there with old | new
        · exact old
        · exact known t (Option.mem_toList.mp new)
      rcases kept.covered t old valid with ⟨entry, held, later⟩ | ⟨b, t', waits, rest⟩
      · exact .inl ⟨entry, tickets.trans held, later⟩
      · exact .inr ⟨b, t', pending.trans waits, rest⟩
  | offered t fresh tickets pending =>
    have new : t ∈ (m.act cfg (.deliver lxmfBytes live)).genuine cfg src identity := by
      rw [genuine_deliver, fresh]
      exact List.mem_append_right _ List.mem_cons_self
    refine ⟨fun entry held => ?_, fun b waits => waited b (pending.symm.trans waits),
      fun t' there valid => ?_⟩
    · -- What is held now was held before or is the ticket that was offered.
      rcases Inbox.storeTicket_offers (tickets.symm.trans held) with old | offered
      · obtain ⟨t', there, same⟩ := kept.among entry old
        exact ⟨t', stays t' there, same⟩
      · exact ⟨t, new, offered⟩
    · rw [genuine_deliver, fresh] at there
      rcases List.mem_append.mp there with old | this
      · rcases kept.covered t' old valid with ⟨entry, held, later⟩ | ⟨b, t'', waits, rest⟩
        · obtain ⟨entry', held', later'⟩ := Inbox.storeTicket_keeps held
          exact .inl ⟨entry', tickets.trans held', later.trans later'⟩
        · exact .inr ⟨b, t'', pending.trans waits, rest⟩
      · cases List.mem_singleton.mp this
        obtain ⟨entry, held, later⟩ := Inbox.storeTicket_takes valid
        exact .inl ⟨entry, tickets.trans held, later⟩
  | waits read bears unverified tickets pending =>
    refine ⟨fun entry held => ?_, fun b waits => ?_, fun t there valid => ?_⟩
    · obtain ⟨t, there, same⟩ := kept.among entry (tickets.symm.trans held)
      exact ⟨t, stays t there, same⟩
    · -- The message that waits is the one that has just come.
      cases pending.symm.trans waits
      refine ⟨List.mem_append_right _ List.mem_cons_self, fun known read' parsed => ?_⟩
      obtain ⟨verdict, again⟩ := Message.parse_other bears.parsed known
      rw [parsed] at again
      cases again
      exact bears.source
    · rw [genuine_deliver] at there
      rcases List.mem_append.mp there with old | new
      · rcases kept.covered t old valid with ⟨entry, held, later⟩ | ⟨b, t', waits, genuine, later⟩
        · exact .inl ⟨entry, tickets.trans held, later⟩
        · obtain ⟨t'', fresh, later'⟩ :=
            harmless.displaces read bears unverified b t' waits genuine
          exact .inr ⟨lxmfBytes, t'', pending, fresh, later.trans later'⟩
      · exact .inr ⟨lxmfBytes, t, pending, Option.mem_toList.mp new, le_rfl⟩

theorem lookup_recoverTicket_of_ne (inbox : Inbox) (crypto : Crypto) (now : Nat)
    {dest : TruncatedHash} (known : PublicIdentity) (other : dest ≠ src) :
    (inbox.recoverTicket crypto now dest known).tickets.lookup src = inbox.tickets.lookup src
    ∧ (inbox.recoverTicket crypto now dest known).ticketPending.lookup src
      = inbox.ticketPending.lookup src := by
  rw [Inbox.recoverTicket]
  split
  · exact ⟨rfl, rfl⟩
  · rw [Inbox.ticketPending_verifyAndStoreTicket]
    refine ⟨?_, AList.lookup_erase_ne other.symm⟩
    rw [Inbox.verifyAndStoreTicket]
    split
    · rfl
    split
    · split
      · exact Inbox.lookup_storeTicket_of_ne other.symm
      · rfl
    · rfl

theorem lookup_ticketPending_recoverTicket {inbox : Inbox} {crypto : Crypto} {now : Nat}
    {known : PublicIdentity} :
    (inbox.recoverTicket crypto now src known).ticketPending.lookup src = none := by
  rw [Inbox.recoverTicket]
  split
  case h_1 none => exact none
  case h_2 =>
    rw [Inbox.ticketPending_verifyAndStoreTicket]
    exact AList.lookup_erase src inbox.ticketPending

theorem Kept.replace (kept : m.Kept cfg src identity) {inbox : Inbox}
    (tickets : ∀ entry, inbox.tickets.lookup src = some entry →
      m.inbox.tickets.lookup src = some entry ∨ ∃ t ∈ m.genuine cfg src identity, t.entry = entry)
    (pending : ∀ b, inbox.ticketPending.lookup src = some b →
      m.inbox.ticketPending.lookup src = some b)
    (held : ∀ entry, m.inbox.tickets.lookup src = some entry → m.now < entry.1 →
      ∃ entry', inbox.tickets.lookup src = some entry' ∧ entry.1 ≤ entry'.1)
    (waiting : ∀ b t, m.inbox.ticketPending.lookup src = some b →
      genuineTicket cfg.crypto src identity b = some t → m.now < t.expires →
      inbox.ticketPending.lookup src = some b
        ∨ ∃ entry, inbox.tickets.lookup src = some entry ∧ t.expires ≤ entry.1) :
    { m with inbox }.Kept cfg src identity := by
  refine ⟨fun entry now => ?_, fun b waits => kept.waiting b (pending b waits),
    fun t there valid => ?_⟩
  · rcases tickets entry now with old | new
    · exact kept.among entry old
    · exact new
  · rcases kept.covered t there valid with ⟨entry, old, later⟩ | ⟨b, t', waits, genuine, later⟩
    · obtain ⟨entry', now, later'⟩ := held entry old (lt_of_lt_of_le valid later)
      exact .inl ⟨entry', now, later.trans later'⟩
    · rcases waiting b t' waits genuine (lt_of_lt_of_le valid later) with same | ⟨entry, now, later'⟩
      · exact .inr ⟨b, t', same, genuine, later⟩
      · exact .inl ⟨entry, now, later.trans later'⟩

theorem verifyAndStoreTicket_eq {inbox : Inbox} {crypto : Crypto} {now : Nat} {b : Bytes}
    (source : ∀ known read, Message.parse crypto b known = .ok read → read.sourceHash = src) :
    inbox.verifyAndStoreTicket crypto now src identity b
      = match genuineTicket crypto src identity b with
        | some t => inbox.storeTicket now src t
        | none => inbox := by
  rw [Inbox.verifyAndStoreTicket]
  split
  case h_1 failed =>
    rw [genuineTicket, failed]
  case h_2 read parsed =>
    cases validated : read.signatureValidated with
    | false => simp [genuineTicket_of_not_validated parsed validated]
    | true =>
      rw [genuineTicket_of_validated parsed (source _ _ parsed) validated]
      simp only [if_true]

theorem Kept.recover (kept : m.Kept cfg src identity) :
    { m with inbox := m.inbox.recoverTicket cfg.crypto m.now src identity }.Kept cfg src
      identity := by
  have cleared : (m.inbox.recoverTicket cfg.crypto m.now src identity).ticketPending.lookup src
      = none := lookup_ticketPending_recoverTicket
  cases waits : m.inbox.ticketPending.lookup src with
  | none =>
    rw [Inbox.recoverTicket, waits]
    exact kept
  | some b =>
    obtain ⟨there, source⟩ := kept.waiting b waits
    have result : m.inbox.recoverTicket cfg.crypto m.now src identity
        = match genuineTicket cfg.crypto src identity b with
          | some t => { m.inbox with
              ticketPending := m.inbox.ticketPending.erase src }.storeTicket m.now src t
          | none => { m.inbox with ticketPending := m.inbox.ticketPending.erase src } := by
      rw [Inbox.recoverTicket, waits]
      exact verifyAndStoreTicket_eq source
    have pending : ∀ b', (m.inbox.recoverTicket cfg.crypto m.now src
        identity).ticketPending.lookup src = some b' →
        m.inbox.ticketPending.lookup src = some b' := fun b' now => by
      rw [cleared] at now
      cases now
    cases genuine : genuineTicket cfg.crypto src identity b with
    | none =>
      -- The message was not genuine, so nothing is lost with it.
      rw [genuine] at result
      refine kept.replace (fun entry held => .inl (by rwa [result] at held)) pending
        (fun entry held _ => ⟨entry, by rwa [result], le_rfl⟩) fun b' t waits' genuine' _ => ?_
      cases waits.symm.trans waits'
      cases genuine.symm.trans genuine'
    | some t =>
      rw [genuine] at result
      have offered : t ∈ m.genuine cfg src identity := List.mem_filterMap.mpr ⟨b, there, genuine⟩
      refine kept.replace (fun entry held => ?_) pending (fun entry held _ => ?_)
        fun b' t' waits' genuine' valid => ?_
      · rw [result] at held
        exact (Inbox.storeTicket_offers held).imp id fun same => ⟨t, offered, same⟩
      · rw [result]
        exact Inbox.storeTicket_keeps held
      · cases waits.symm.trans waits'
        cases genuine.symm.trans genuine'
        rw [result]
        exact .inr (Inbox.storeTicket_takes valid)

theorem Kept.announce (kept : m.Kept cfg src identity) {dest : TruncatedHash} {info : KnownDest}
    (bound : dest = src → info.identity = identity) :
    (m.act cfg (.announce dest info)).Kept cfg src identity := by
  rcases Inbox.announced_takes cfg m.now dest info m.inbox with ⟨same, -⟩ | same
  · exact kept.replace (fun entry held => .inl (by rwa [same.tickets] at held))
      (fun b waits => by rwa [same.pending] at waits)
      (fun entry held _ => ⟨entry, by rwa [same.tickets], le_rfl⟩)
      fun b t waits _ _ => .inl (by rwa [same.pending])
  by_cases ours : dest = src
  · subst ours
    rw [bound rfl] at same
    have recovered := kept.recover
    exact ⟨fun entry held => recovered.among entry (by rwa [act, same.tickets] at held),
      fun b waits => recovered.waiting b (by rwa [act, same.pending] at waits),
      fun t there valid => by
        rw [act, same.tickets, same.pending]
        exact recovered.covered t there valid⟩
  · obtain ⟨tickets, pending⟩ := lookup_recoverTicket_of_ne m.inbox cfg.crypto m.now info.identity
      ours
    rw [← same.tickets] at tickets
    rw [← same.pending] at pending
    exact kept.replace (fun entry held => .inl (tickets.symm.trans held))
      (fun b waits => pending.symm.trans waits)
      (fun entry held _ => ⟨entry, tickets.trans held, le_rfl⟩)
      fun b t waits _ _ => .inl (pending.trans waits)

theorem Kept.spend (kept : m.Kept cfg src identity) (peer : TruncatedHash) :
    (m.act cfg (.spend peer)).Kept cfg src identity := by
  have pending : (m.inbox.spendTicket m.now peer).ticketPending = m.inbox.ticketPending := by
    rw [Inbox.spendTicket]
    split
    · rfl
    · split <;> rfl
  refine kept.replace (fun entry held => .inl ?_) (fun b waits => by rwa [pending] at waits)
    (fun entry held valid => ⟨entry, ?_, le_rfl⟩) fun b t waits _ _ => .inl (by rwa [pending])
  · rw [Inbox.spendTicket] at held
    split at held
    · exact held
    split at held
    · -- What is left after an entry is dropped was there before.
      by_cases same : src = peer
      · subst same
        rw [AList.lookup_erase] at held
        cases held
      · rwa [AList.lookup_erase_ne same] at held
    · exact held
  · rw [Inbox.spendTicket]
    split
    · exact held
    case h_2 expiry ticket found =>
      split
      case isTrue expired =>
        by_cases same : src = peer
        · subst same
          cases found.symm.trans held
          exact absurd expired (Nat.not_le.mpr valid)
        · rwa [AList.lookup_erase_ne same]
      case isFalse => exact held

theorem Kept.act (kept : m.Kept cfg src identity) {a : MailAction}
    (careful : Careful cfg src identity m a) : (m.act cfg a).Kept cfg src identity := by
  cases a with
  | deliver lxmfBytes live => exact kept.deliver careful live
  | announce dest info => exact kept.announce careful
  | call op => exact ⟨kept.among, kept.waiting, kept.covered⟩
  | spend peer => exact kept.spend peer
  | tick time =>
    refine ⟨kept.among, kept.waiting, fun t there valid => kept.covered t there ?_⟩
    exact lt_of_le_of_lt (le_max_left _ _) valid

/-- No genuine message of the sender waits. -/
def Verified (cfg : Config) (src : TruncatedHash) (identity : PublicIdentity) (m : Mail) : Prop :=
  ∀ b, m.inbox.ticketPending.lookup src = some b → genuineTicket cfg.crypto src identity b = none

theorem Verified.act (verified : m.Verified cfg src identity) {a : MailAction}
    (careful : Careful cfg src identity m a) (known : (m.transport.known.get src).isSome) :
    (m.act cfg a).Verified cfg src identity := by
  cases a with
  | deliver lxmfBytes live =>
    intro b waits
    cases Harmless.delivers careful live with
    | ignored tickets pending _ => exact verified b (pending.symm.trans waits)
    | offered t _ tickets pending => exact verified b (pending.symm.trans waits)
    | waits read bears unverified tickets pending =>
      -- With the key known, a message is put aside only because its signature fails.
      cases pending.symm.trans waits
      obtain ⟨info, found⟩ := Option.isSome_iff_exists.mp known
      have parsed := bears.parsed
      rw [found, Option.map_some, careful.bound info found] at parsed
      exact genuineTicket_of_not_validated parsed unverified
  | announce dest info =>
    intro b waits
    rw [Mail.act] at waits
    rcases Inbox.announced_takes cfg m.now dest info m.inbox with ⟨same, -⟩ | same
    · rw [same.pending] at waits
      exact verified b waits
    · -- An announce takes the announced peer's message out and leaves the others.
      rw [same.pending] at waits
      by_cases ours : dest = src
      · subst ours
        rw [lookup_ticketPending_recoverTicket] at waits
        cases waits
      · rw [(lookup_recoverTicket_of_ne m.inbox cfg.crypto m.now info.identity ours).2] at waits
        exact verified b waits
  | spend peer =>
    intro b waits
    rw [Mail.act, Inbox.spendTicket] at waits
    split at waits
    · exact verified b waits
    · split at waits <;> exact verified b waits
  | call op | tick time => exact verified

end Mail

namespace Mail

open Transport (sampleSeed sampleIdentity)
open LxmfChat.System (sampleCrypto sampleConfig samplePeer sampleAnnounce)

def ticketFields (ticket : TruncatedHash) : Fields :=
  [(FIELD_TICKET, .array [.int 100, .bin ticket.val])]

def trusting : Bytes :=
  (Message.pack sampleCrypto (sampleIdentity 3) (sampleConfig none).ourDh samplePeer
    (Double.ofNat 0) [] [] (ticketFields (BytesN.ofBytes 16 [5])) none).packed

def peerInfo : KnownDest where
  identity := (sampleIdentity 3).publicIdentity sampleCrypto
  nameHash := nameHash sampleCrypto "lxmf" ["delivery"]
  ratchet := none
  appData := []

def blank : Mail := { transport := Transport.new (sampleIdentity 1) }

def recovered : Mail :=
  (blank.act (sampleConfig none) (.deliver trusting true)).act (sampleConfig none)
    (.announce samplePeer peerInfo)

end Mail

end LxmfChat
