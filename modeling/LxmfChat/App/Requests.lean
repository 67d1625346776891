import LxmfChat.App.Inbox

/-! Requests over a link: what they ask for, the packets they make, and how answers arrive. -/

namespace LxmfChat

open Base

def CONTEXT_REQUEST : UInt8 := 0x09
def CONTEXT_RESPONSE : UInt8 := 0x0A

def SYNC_GET_PATH : Text := "/get".toList

def SYNC_DELIVERY_LIMIT : Int := 128

/-- A page: its node, its path there, and the variables it is requested with. -/
structure PageAddr where
  node : TruncatedHash
  path : Text
  vars : List (Text × Text)
deriving DecidableEq

/-- On whose behalf something is sent. -/
inductive Purpose
  | sync
  | browser
  | outbox
deriving DecidableEq, Repr

/-- What a request asks for. -/
inductive Asked
  | list
  /-- The listed messages, whatever the node called them. -/
  | download (ids : List Value)
  /-- That the node delete what we have. -/
  | confirm (haves : List FullHash)
  | page (addr : PageAddr)

namespace Asked

def path : Asked → Text
  | .page addr => addr.path
  | _ => SYNC_GET_PATH

def data : Asked → Value
  | .list => .array [.nil, .nil]
  | .download ids => .array [.array ids, .array [], .int SYNC_DELIVERY_LIMIT]
  | .confirm haves => .array [.nil, .array (haves.map fun id => .bin id.val)]
  -- A page without variables is asked for without an argument.
  | .page addr =>
    if addr.vars.isEmpty then .nil
    else .strMap (addr.vars.map fun e => ("var_".toList ++ e.1, .str e.2))

/-- A request as the plaintext of a link packet: its time, the hash of its path, its argument. -/
def payload (crypto : Crypto) (now : Nat) (asked : Asked) : Bytes :=
  Msgpack.encode (.array [.f64 (Double.ofNat now),
    .bin (truncatedHash crypto (utf8Encode asked.path)).val, asked.data])

end Asked

def makeRequest (crypto : Crypto) (t : Transport) (lid : TruncatedHash) (now : Nat) (asked : Asked)
    (iv : Iv) : Option Bytes :=
  t.makeOutLinkContext crypto lid CONTEXT_REQUEST (asked.payload crypto now) iv

def requestId (crypto : Crypto) (raw : Bytes) : Option TruncatedHash :=
  match Packet.decode raw with
  | .ok p => some (p.truncatedHash crypto)
  | .error _ => none

def parseRnsResponse (payload : Bytes) : Except Fault (Option Value) :=
  match Msgpack.decode payload with
  | .ok (.array (_ :: response :: _)) => .ok (some response)
  | .ok _ | .error (.err _) => .ok none
  | .error (.panic message) => .error (.panic message)

def responseId (payload : Bytes) : Option Bytes :=
  match Msgpack.decode payload with
  | .ok (.array (.bin id :: _ :: _)) => some id
  | _ => none

/-- What a packet does to the transfer of a resource. -/
inductive Arrival
  /-- The transfer goes on, or there is none. -/
  | waiting (receiver : Option ResourceReceiver)
  | complete (payload : Bytes)
  | refused
  /-- All parts are there and do not make the resource. -/
  | spoiled
  /-- The receiver panicked, and the thread that fed it is gone. -/
  | crashed

def Arrival.next (rx : ResourceReceiver) : Arrival :=
  match rx.nextRequest with
  | .ok (_, rx) => .waiting (some rx)
  | .error _ => .crashed

def Arrival.assemble (crypto : Crypto) (bz2Read : Nat → Bytes → Option Bytes)
    (decrypt : Bytes → Option Bytes) (rx : ResourceReceiver) : Arrival :=
  match (if rx.encrypted then decrypt rx.concat else some rx.concat) with
  | none => .spoiled
  | some plain =>
    match rx.finish crypto bz2Read plain with
    | .ok (payload, _) => .complete payload
    | .error _ => .spoiled

/--
A packet of a resource transfer arrives on a link.

The four places that receive resources treat it alike, each with the cipher of its own link.
-/
def arrive (crypto : Crypto) (bz2Read : Nat → Bytes → Option Bytes)
    (decrypt : Bytes → Option Bytes) (context : UInt8) (plaintext : Bytes)
    (receiver : Option ResourceReceiver) : Arrival :=
  if context = CONTEXT_RESOURCE_ADV then
    match ResourceReceiver.accept plaintext with
    | .ok rx => .next rx
    | .error (.err _) => .refused
    | .error (.panic _) => .crashed
  else
    match receiver with
    | none => .waiting none
    | some rx =>
      if context = CONTEXT_RESOURCE_HMU then
        match rx.receiveHashmapUpdate plaintext with
        | .ok rx => .next rx
        | .error (.err _) => .waiting (some rx)
        | .error (.panic _) => .crashed
      else if context = CONTEXT_RESOURCE then
        let (windowDone, rx) := rx.receivePart crypto plaintext
        if rx.isComplete then .assemble crypto bz2Read decrypt rx
        else if windowDone then .next rx
        else .waiting (some rx)
      else .waiting (some rx)

def Inbox.deliverSyncedMessage (crypto : Crypto) (t : Transport) (now : Nat) (blob : Bytes)
    (inbox : Inbox) : Inbox × Option Reception :=
  if blob.length ≤ 16 then (inbox, none)
  else
    match t.identity.decrypt crypto (blob.drop 16) [] with
    | .error _ => (inbox, none)
    | .ok plaintext =>
      let (inbox, reception) := inbox.deliverLxmf crypto t now (blob.take 16 ++ plaintext) false
      (inbox, some reception)

/--
Deliver downloaded messages one after another, with what became of each.

Nothing is left to say if the decoder panics on one of them.
-/
def Inbox.deliverSynced (crypto : Crypto) (t : Transport) (now : Nat) :
    List Bytes → Inbox → Inbox × Option (List (Bytes × Option Reception))
  | [], inbox => (inbox, some [])
  | blob :: rest, inbox =>
    match inbox.deliverSyncedMessage crypto t now blob with
    | (inbox, some (.unparsed (.panic _))) => (inbox, none)
    | (inbox, reception) =>
      let (inbox, outcomes) := deliverSynced crypto t now rest inbox
      (inbox, outcomes.map ((blob, reception) :: ·))

end LxmfChat
