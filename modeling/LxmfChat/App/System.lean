import LxmfChat.App.Outbox
import LxmfChat.Reticulum.Transport.Runs

/-! The application's delivery state, and everything its threads do to it. -/

namespace LxmfChat

open Base

def MAX_DELIVERY_STAMP_COST : Nat := 20

structure Config where
  crypto : Crypto
  /-- The store-and-forward node, if one is configured. -/
  propagationNode : Option TruncatedHash
  propagationCost : Nat
  ourDh : TruncatedHash

inductive Status
  | delivered
  | queued
  | failed
deriving DecidableEq, Repr

def Status.code : Status → UInt8
  | .delivered => 1
  | .queued => 2
  | .failed => 3

/-- What the status line says about a message that has left the outbox. -/
inductive Note
  /-- It was "delivered to" its peer. -/
  | delivered
  /-- It is "stored at propagation node for" its peer. -/
  | stored
  | unsent (why : PumpFailure)
  /-- The stamp cost "is too high". -/
  | stampTooCostly (cost : Nat)
  /-- The status line says "could not stamp message". -/
  | couldNotStamp
deriving DecidableEq, Repr

structure Mark where
  peer : TruncatedHash
  displayTs : Nat
  text : Text
  status : Status
  note : Note
deriving DecidableEq

def Mark.key (mark : Mark) : TruncatedHash × Nat := (mark.peer, mark.displayTs)

def OutboundMsg.mark (m : OutboundMsg) (status : Status) (note : Note) : Mark :=
  ⟨m.peer, m.displayTs, m.text, status, note⟩

/-- The state the application's threads share, as far as delivery reads or writes it. -/
structure Shared where
  transport : Transport
  backchannels : Backchannels
  /-- The delivery stamp costs that peers have announced. -/
  stampCosts : Table TruncatedHash Nat
  /-- Tickets that peers handed us, with their expiry. -/
  tickets : Table TruncatedHash (Nat × TruncatedHash)
  /-- The link a sync with the propagation node is using. -/
  syncLink : Option TruncatedHash
  outbox : List OutboundMsg

section Calls

variable (cfg : Config)

def lxmfDeliveryNameHash : NameHash := nameHash cfg.crypto "lxmf" ["delivery"]

def nomadNodeNameHash : NameHash := nameHash cfg.crypto "nomadnetwork" ["node"]

def deliveryDestination (identity : PublicIdentity) : TruncatedHash :=
  singleDestinationHash cfg.crypto "lxmf" ["delivery"] identity.hash

/-- The stamp cost an announce demands, if it is a positive integer. -/
def lxmfStampCost (appData : Bytes) : Except Fault (Option Nat) :=
  match appData with
  | [] => .ok none
  | b0 :: _ =>
    if !((0x90 ≤ b0 && b0 ≤ 0x9f) || b0 = 0xdc) then .ok none
    else
      match Msgpack.decode appData with
      | .ok (.array (_ :: .int c :: _)) =>
        .ok (if 0 < c then some (Msgpack.wrap 32 c) else none)
      | .error (.panic message) => .error (.panic message)
      | _ => .ok none

def takeTicket (now : Nat) (peer : TruncatedHash) (s : Shared) : Shared × Option TruncatedHash :=
  match s.tickets.lookup peer with
  | none => (s, none)
  | some (expiry, ticket) =>
    if expiry ≤ now then ({ s with tickets := s.tickets.erase peer }, none) else (s, some ticket)

def enqueueOutbound (now : Nat) (peer : TruncatedHash) (displayTs : Nat) (text : Text)
    (packed : Bytes) (needsStamp : Option Nat) (stamped : Bool) (s : Shared) : Shared :=
  let m : OutboundMsg := {
    peer, displayTs, text, packed, needsStamp, stamped
    viaPn := false, triedPn := false, inFlight := none
    attempts := 0, routeTries := 0, linkTries := 0, directRounds := 0
    awaitingKey := false, pnBlob := none
    nextAction := 0, created := now, deadline := now + DIRECT_DEADLINE }
  { s with outbox := s.outbox ++ [m] }

/-- Send a text: stamp it with a ticket if there is one, sign it, and queue it. -/
def post (now displayTs : Nat) (peer : TruncatedHash) (text : Text) (s : Shared) : Shared :=
  let (s, ticket) := takeTicket now peer s
  let needsStamp := if ticket.isSome then none else s.stampCosts.lookup peer
  let packed := (Message.pack cfg.crypto s.transport.identity peer cfg.ourDh (Double.ofNat now)
    [] (utf8Encode text) [] ticket).packed
  enqueueOutbound now peer displayTs text packed needsStamp ticket.isSome s

/-- A message that waits for its peer acts at once, and pays the cost just announced. -/
def OutboundMsg.heard (dest : TruncatedHash) (cost : Option Nat) (m : OutboundMsg) : OutboundMsg :=
  if m.peer = dest ∧ m.attempts = 0 ∧ m.inFlight = none then
    { m with
      needsStamp := if !m.stamped && m.needsStamp.isNone then cost else m.needsStamp
      nextAction := 0 }
  else m

def announced (dest : TruncatedHash) (info : KnownDest) (s : Shared) : Shared :=
  if dest = cfg.ourDh then s
  else if info.nameHash = nomadNodeNameHash cfg then s
  else if info.nameHash ≠ lxmfDeliveryNameHash cfg then s
  else
    match lxmfStampCost info.appData with
    -- The thread that read the frame is gone.
    | .error _ => s
    | .ok cost =>
      let stampCosts :=
        match cost with
        | some c => s.stampCosts.insert dest c
        | none => s.stampCosts.erase dest
      { s with stampCosts, outbox := s.outbox.map (OutboundMsg.heard dest cost) }

def identified (now : Nat) (lid : TruncatedHash) (identity : PublicIdentity) (s : Shared) :
    Shared :=
  let dest := deliveryDestination cfg identity
  let transport :=
    if (s.transport.known.get dest).isNone then
      s.transport.remember dest ⟨identity, lxmfDeliveryNameHash cfg, none, []⟩
    else s.transport
  { s with transport, backchannels := s.backchannels.insert dest (lid, now) }

def refreshed (now : Nat) (lid : TruncatedHash) (s : Shared) : Shared :=
  { s with
    backchannels := s.backchannels.mapValues fun e => if e.1 = lid then (e.1, now) else e }

def markDelivered (packetHash : FullHash) (s : Shared) : Shared × List Mark :=
  let sentAs := fun m : OutboundMsg => m.inFlight = some packetHash
  match s.outbox.find? fun m => sentAs m with
  | none => (s, [])
  | some m =>
    let mark := if m.viaPn then m.mark .queued .stored
      else m.mark .delivered .delivered
    ({ s with outbox := s.outbox.eraseP fun m => sentAs m }, [mark])

def handleEvent (now : Nat) (event : Event) (s : Shared) : Shared × List Mark :=
  match event with
  | .announce dest info => (announced cfg dest info s, [])
  | .linkIdentified lid identity => (identified cfg now lid identity s, [])
  | .linkData lid _ _ => (refreshed now lid s, [])
  | .linkKeepalive lid _ => (refreshed now lid s, [])
  | .inLinkClosed lid => ({ s with backchannels := s.backchannels.retain fun e => e.1 ≠ lid }, [])
  | .delivered packetHash => markDelivered packetHash s
  | _ => (s, [])

end Calls

/-- What the miner of delivery stamps works on while the outbox is unlocked. -/
structure StampJob where
  peer : TruncatedHash
  displayTs : Nat
  text : Text
  packed : Bytes
  cost : Nat

/-- What the copy for the propagation node is computed from while the outbox is unlocked. -/
structure BlobJob where
  peer : TruncatedHash
  displayTs : Nat
  packed : Bytes
  known : KnownDest

def StampJob.key (job : StampJob) : TruncatedHash × Nat := (job.peer, job.displayTs)

def BlobJob.key (job : BlobJob) : TruncatedHash × Nat := (job.peer, job.displayTs)

/-- The message of the job, ready to be sent with its mined stamp; its time starts now. -/
def StampJob.stampOn (job : StampJob) (stamped : Bytes) (now : Nat) (m : OutboundMsg) :
    Option OutboundMsg :=
  if m.key = job.key then
    some { m with
      packed := stamped, needsStamp := none
      created := now, deadline := now + DIRECT_DEADLINE }
  else none

def BlobJob.copyOn (job : BlobJob) (blob : Bytes) (m : OutboundMsg) : Option OutboundMsg :=
  if m.key = job.key then some { m with pnBlob := some blob } else none

def BlobJob.blob (cfg : Config) (job : BlobJob) (eph : KeyHalf) (iv : Iv) (now : Nat)
    (stamp : BytesN 32) : Bytes :=
  Message.packPropagation cfg.crypto job.known.identity job.peer (job.packed.drop DEST_LEN)
    job.known.ratchet eph iv (Double.ofNat now) cfg.propagationCost stamp

/-- What has happened so far, for statements about whole runs; nothing reads it. -/
structure History where
  posted : List (TruncatedHash × Nat) := []
  mined : List (TruncatedHash × Nat) := []
  /-- The links that came up or whose initiator identified itself, with their far end. -/
  ends : List (TruncatedHash × TruncatedHash) := []
  /-- What was sent, and for which message. -/
  sends : List ((TruncatedHash × Nat) × Transmission) := []

/-- The shared state together with what its threads are in the middle of. -/
structure System where
  shared : Shared
  clock : Nat := 0
  /-- Events that the transport reported and that are not handled yet. -/
  events : List Event := []
  stampJob : Option StampJob := none
  blobJob : Option BlobJob := none
  /-- Marks that are decided; the messages have left the outbox. -/
  decided : List Mark := []
  marks : List Mark := []
  history : History := {}

/-- One thing a thread does while it holds the locks it needs. -/
inductive Action
  | tick (time : Nat)
  | post (displayTs : Nat) (peer : TruncatedHash) (text : Text)
  /-- A frame arrives; the event it leads to is handled later. -/
  | frame (raw : Bytes) (ephemeral : KeyHalf) (iface : PathIface)
  | handle (index : Nat)
  /-- A message's turn in a pass that started at the given time. -/
  | turn (index : Nat) (now : Nat) (d : Draw)
  | beginStamp
  | endStamp (stamp : BytesN 32)
  | beginBlob
  | endBlob (eph : KeyHalf) (iv : Iv) (stamp : BytesN 32)
  | mark (index : Nat)
  /-- A sync, the page browser, the connection manager or startup calls the transport. -/
  | other (op : Transport.Op)
  | reconnect
  | setSyncLink (link : Option TruncatedHash)
  | storeTicket (peer : TruncatedHash) (expiry : Nat) (ticket : TruncatedHash)
  | clearHistory (peer : TruncatedHash)

namespace System

variable (cfg : Config)

def start (identity : PrivateIdentity) : System where
  shared := {
    transport := Transport.new identity
    backchannels := ∅
    stampCosts := ∅
    tickets := ∅
    syncLink := none
    outbox := [] }

def farEnd : Event → Option (TruncatedHash × TruncatedHash)
  | .outboundLinkUp lid target => some (lid, target)
  | .linkIdentified lid identity => some (lid, deliveryDestination cfg identity)
  | _ => none

def frame (s : System) (raw : Bytes) (ephemeral : KeyHalf) (iface : PathIface) : System :=
  let (transport, event) := s.shared.transport.handleFrame cfg.crypto raw ephemeral iface
  { s with
    shared := { s.shared with transport }
    events := s.events ++ [event]
    history := { s.history with ends := s.history.ends ++ (farEnd cfg event).toList } }

def handle (s : System) (index : Nat) : System :=
  match s.events[index]? with
  | none => s
  | some event =>
    let (shared, marks) := handleEvent cfg s.clock event s.shared
    { s with
      shared
      events := s.events.eraseIdx index
      decided := s.decided ++ marks }

def turnOf (s : System) (m : OutboundMsg) (now : Nat) (d : Draw) : Outcome :=
  pumpMessage cfg.crypto cfg.propagationNode now s.shared.syncLink s.shared.transport
    s.shared.backchannels m d

def afterTurn (s : System) (index : Nat) (m : OutboundMsg) (o : Outcome) : System :=
  let s := { s with
    shared := { s.shared with transport := o.transport, backchannels := o.backchannels }
    history := { s.history with
      sends := s.history.sends ++ (o.sent.map fun x => (m.key, x)).toList } }
  match o.turn with
  | .kept m' | .again m' =>
    { s with shared := { s.shared with outbox := s.shared.outbox.set index m' } }
  | .failed why =>
    { s with
      shared := { s.shared with outbox := s.shared.outbox.eraseIdx index }
      decided := s.decided ++ [m.mark .failed (.unsent why)] }
  -- The thread that ran the pass is gone.
  | .crashed => s

def turn (s : System) (index now : Nat) (d : Draw) : System :=
  match s.shared.outbox[index]? with
  | none => s
  | some m => s.afterTurn index m (s.turnOf cfg m now d)

def beginStamp (s : System) : System :=
  match s.stampJob, s.shared.outbox.find? (·.needsStamp.isSome) with
  | none, some m =>
    { s with stampJob := some ⟨m.peer, m.displayTs, m.text, m.packed, m.needsStamp.getD 0⟩ }
  | _, _ => s

def stampFailed (s : System) (job : StampJob) (why : Note) : System :=
  { s with
    shared := { s.shared with outbox := s.shared.outbox.filter fun m => m.key ≠ job.key }
    stampJob := none
    decided := s.decided ++ [⟨job.peer, job.displayTs, job.text, .failed, why⟩] }

def endStamp (s : System) (stamp : BytesN 32) : System :=
  match s.stampJob with
  | none => s
  | some job =>
    if MAX_DELIVERY_STAMP_COST < job.cost then s.stampFailed job (.stampTooCostly job.cost)
    else
      match Message.appendStamp job.packed stamp.val with
      -- The mining thread is gone.
      | .error _ => s
      | .ok none => s.stampFailed job .couldNotStamp
      | .ok (some stamped) =>
        { s with
          shared := { s.shared with
            outbox := s.shared.outbox.replaceF (job.stampOn stamped s.clock) }
          stampJob := none
          history := { s.history with mined := s.history.mined ++ [job.key] } }

def beginBlob (s : System) : System :=
  match s.blobJob, s.shared.outbox.find? fun m => m.viaPn && m.pnBlob.isNone with
  | none, some m =>
    match s.shared.transport.known.get m.peer with
    | some known => { s with blobJob := some ⟨m.peer, m.displayTs, m.packed, known⟩ }
    | none => s
  | _, _ => s

def endBlob (s : System) (eph : KeyHalf) (iv : Iv) (stamp : BytesN 32) : System :=
  match s.blobJob with
  | none => s
  | some job =>
    let blob := job.blob cfg eph iv s.clock stamp
    { s with
      shared := { s.shared with outbox := s.shared.outbox.replaceF (job.copyOn blob) }
      blobJob := none }

def mark (s : System) (index : Nat) : System :=
  match s.decided[index]? with
  | none => s
  | some mark => { s with decided := s.decided.eraseIdx index, marks := s.marks ++ [mark] }

def act (s : System) : Action → System
  | .tick time => { s with clock := time }
  | .post displayTs peer text =>
    { s with
      shared := LxmfChat.post cfg s.clock displayTs peer text s.shared
      history := { s.history with posted := s.history.posted ++ [(peer, displayTs)] } }
  | .frame raw ephemeral iface => s.frame cfg raw ephemeral iface
  | .handle index => s.handle cfg index
  | .turn index now d => s.turn cfg index now d
  | .beginStamp => s.beginStamp
  | .endStamp stamp => s.endStamp stamp
  | .beginBlob => s.beginBlob
  | .endBlob eph iv stamp => s.endBlob cfg eph iv stamp
  | .mark index => s.mark index
  | .other op =>
    { s with shared := { s.shared with transport := s.shared.transport.perform cfg.crypto op } }
  | .reconnect =>
    { s with shared := { s.shared with
      transport := s.shared.transport.connectionReset, backchannels := ∅ } }
  | .setSyncLink link => { s with shared := { s.shared with syncLink := link } }
  | .storeTicket peer expiry ticket =>
    { s with shared := { s.shared with tickets := s.shared.tickets.insert peer (expiry, ticket) } }
  | .clearHistory peer =>
    { s with shared := { s.shared with outbox := s.shared.outbox.filter fun m => m.peer ≠ peer } }

/--
What an action needs.

A post gets a display time of its own, and no text is longer than a Rust string can be.
-/
def Enabled (s : System) : Action → Prop
  | .post displayTs peer text =>
    (peer, displayTs) ∉ s.history.posted ∧ (utf8Encode text).length < 2 ^ 31
  -- One thread mines both kinds of stamp, one job after the other.
  | .beginStamp => s.blobJob = none
  | .beginBlob => s.stampJob = none
  -- Frames are handled where their events are kept.
  | .other op => ∀ raw ephemeral iface, op ≠ .handleFrame raw ephemeral iface
  | _ => True

/--
One step of the system under a condition on its actions.

A hash map may also change the order it is iterated in.
-/
inductive Step (allowed : System → Action → Prop) : System → System → Prop
  | act (s : System) (a : Action) (enabled : s.Enabled a) (fine : allowed s a) :
      Step allowed s (s.act cfg a)
  | reorder (s : System) (t : Transport) (same : s.shared.transport.Same t) :
      Step allowed s { s with shared := { s.shared with transport := t } }

def actAll (s : System) (actions : List Action) : System := actions.foldl (act cfg) s

/-- Every action has what it needs when it is its turn, and is allowed. -/
def Permits (allowed : System → Action → Prop) : System → List Action → Prop
  | _, [] => True
  | s, a :: rest => s.Enabled a ∧ allowed s a ∧ Permits allowed (s.act cfg a) rest

theorem run_actAll {cfg : Config} {allowed : System → Action → Prop} {s : System}
    {actions : List Action} (permitted : Permits cfg allowed s actions) :
    Relation.ReflTransGen (Step cfg allowed) s (s.actAll cfg actions) := by
  induction actions generalizing s with
  | nil => exact .refl
  | cons a rest ih =>
    obtain ⟨enabled, fine, later⟩ := permitted
    exact .head (.act s a enabled fine) (ih later)

end System

end LxmfChat
