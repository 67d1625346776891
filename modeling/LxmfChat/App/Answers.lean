import LxmfChat.App.Responses

/-! Responses end up with the request that they answer: the sync's lists and the pages shown. -/

namespace LxmfChat

open Base Relation

namespace Client

variable {cfg : ClientConfig} {c : Client}

/-- A response that is whole: a packet, or a resource whose last part arrived. -/
def wholeResponse (cfg : ClientConfig) (c : Client) (lid : TruncatedHash) (context : UInt8)
    (plaintext : Bytes) (receiver : Option ResourceReceiver) : Option Bytes :=
  if context = CONTEXT_RESPONSE then some plaintext
  else
    match arrive cfg.crypto cfg.bz2Read (c.transport.decryptOutLink cfg.crypto lid) context
        plaintext receiver with
    | .complete payload => some payload
    | _ => none

/-- The client that takes data on a link for the whole response to its request. -/
def answer? (cfg : ClientConfig) (c : Client) (lid : TruncatedHash) (context : UInt8)
    (plaintext : Bytes) : Option (Purpose × Bytes) :=
  if c.sync.linkId = some lid then
    if c.sync.phase = .idle then none
    else (c.wholeResponse cfg lid context plaintext c.sync.receiver).map (.sync, ·)
  else if c.browser.linkId = some lid ∧ c.browser.phase = .fetching then
    (c.wholeResponse cfg lid context plaintext c.browser.receiver).map (.browser, ·)
  else none

/-- In an action, a client takes a whole response that arrived over a link. -/
def Takes (cfg : ClientConfig) (c : Client) (a : ClientAction) (who : Purpose)
    (lid : TruncatedHash) (payload : Bytes) : Prop :=
  ∃ index d context plaintext, a = .handle index d
    ∧ c.events[index]? = some (.outLinkData lid context plaintext)
    ∧ c.answer? cfg lid context plaintext = some (who, payload)

/-- A response names a request by the truncated hash of its packet. -/
def AnswerTo (crypto : Crypto) (raw payload : Bytes) : Prop :=
  ∃ id, requestId crypto raw = some id ∧ responseId payload = some id.val

/-- What a client waits for at its stage. -/
def Outstanding (c : Client) : Purpose → Asked → Prop
  | .sync, asked =>
    (c.sync.phase = .listRequested ∧ asked = .list)
      ∨ c.sync.phase = .getRequested ∧ ∃ ids, asked = .download ids
  | .browser, asked =>
    c.browser.phase = .fetching
      ∧ ∃ node, c.browser.node = some node ∧ asked = .page ⟨node, c.browser.path, c.browser.vars⟩
  | .outbox, _ => False

/-- What keeps responses with their requests. -/
structure Genuine (cfg : ClientConfig) (c : Client) (a : ClientAction) : Prop
    extends Separate cfg c a where
  /-- A response that a client takes answers the last request over its link. -/
  answers : ∀ {who lid payload}, c.Takes cfg a who lid payload →
    ∃ asker asked raw, lastRequest c.log lid = some (asker, asked, some raw)
      ∧ AnswerTo cfg.crypto raw payload

theorem Matched.outstanding (matched : c.Matched) {a : ClientAction} {who : Purpose}
    {lid : TruncatedHash} {payload : Bytes} (takes : c.Takes cfg a who lid payload) :
    ∃ asked packet, c.Outstanding who asked ∧ lastRequest c.log lid = some (who, asked, packet) := by
  obtain ⟨index, d, context, plaintext, -, -, answers⟩ := takes
  rw [answer?] at answers
  split at answers
  case isTrue link =>
    split at answers
    case isTrue => cases answers
    case isFalse busy =>
      obtain ⟨payload', -, same⟩ := Option.map_eq_some_iff.mp answers
      cases same
      -- The sync's stage says what it waits for.
      cases phase : c.sync.phase with
      | idle => exact absurd phase busy
      | linking => cases (matched.sync.linking phase).symm.trans link
      | listRequested =>
        obtain ⟨lid', packet, held, last⟩ := matched.sync.listing phase
        cases held.symm.trans link
        exact ⟨.list, packet, .inl ⟨phase, rfl⟩, last⟩
      | getRequested =>
        obtain ⟨lid', ids, packet, held, last⟩ := matched.sync.getting phase
        cases held.symm.trans link
        exact ⟨.download ids, packet, .inr ⟨phase, ids, rfl⟩, last⟩
  case isFalse =>
    split at answers
    case isFalse => cases answers
    case isTrue ours =>
      obtain ⟨payload', -, same⟩ := Option.map_eq_some_iff.mp answers
      cases same
      obtain ⟨lid', node, packet, held, fetched, last⟩ := matched.browser.fetching ours.2
      cases held.symm.trans ours.1
      exact ⟨_, packet, ⟨ours.2, node, fetched, rfl⟩, last⟩

open Transport LxmfChat.System

end Client

end LxmfChat
