import LxmfChat.Reticulum.Resource.Receiver

/-! The sending half of a resource transfer: advertisement, served parts and hashmap pages. -/

namespace LxmfChat

open Base

/--
A blob being served to a remote receiver.

Parts and map-hashes are two columns of one table, so they have the same length.
-/
structure ResourceSender where
  hash : FullHash
  expectedProof : FullHash
  randomHash : BytesN 4
  parts : List Bytes
  mapHashes : List MapHash
  dataSize : Nat
  transferSize : Nat
  sized : mapHashes.length = parts.length

namespace ResourceSender

/-- The link-encrypted stream a resource is cut from: the random prefix, then the data. -/
def ciphertext (crypto : Crypto) (data : Bytes) (key : SessionKey) (streamPrefix : BytesN 4)
    (iv : Iv) : Bytes :=
  (Token.ofSessionKey key).encryptWithIv crypto (streamPrefix.val ++ data) iv

/-- Build the resource: encrypt the stream, cut it into parts, and hash data and parts. -/
def new (crypto : Crypto) (data : Bytes) (key : SessionKey) (r streamPrefix : BytesN 4)
    (iv : Iv) : ResourceSender :=
  let stream := ciphertext crypto data key streamPrefix iv
  let parts := chunks RESOURCE_SDU stream
  let hash := fullHash crypto (data ++ r.val)
  { hash := hash
    expectedProof := fullHash crypto (data ++ hash.val)
    randomHash := r
    parts := parts
    mapHashes := parts.map (partMapHash crypto r.val)
    dataSize := data.length
    transferSize := stream.length
    sized := List.length_map _ }

def pageBytes (tx : ResourceSender) (page : Nat) : Bytes :=
  ((tx.mapHashes.drop (page * HASHMAP_MAX_LEN)).take HASHMAP_MAX_LEN).flatMap (·.val)

def advertisement (tx : ResourceSender) : Bytes :=
  0x8b :: (
    advKey 0x74 ++ advUint tx.transferSize ++
    advKey 0x64 ++ advUint tx.dataSize ++
    advKey 0x6e ++ advUint tx.parts.length ++
    advKey 0x68 ++ advBin tx.hash.val ++
    advKey 0x72 ++ advBin tx.randomHash.val ++
    advKey 0x6f ++ advBin tx.hash.val ++
    advKey 0x69 ++ advUint 1 ++
    advKey 0x6c ++ advUint 1 ++
    advKey 0x71 ++ [0xc0] ++
    advKey 0x66 ++ advUint 0x01 ++
    advKey 0x6d ++ advBin ((tx.mapHashes.take HASHMAP_MAX_LEN).flatMap (·.val)))

def hmuPage (page : Nat) : Bytes :=
  if page < 128 then [UInt8.ofNat page] else 0xcd :: beBytes 2 page

def hashmapUpdate (tx : ResourceSender) (page : Nat) : Bytes :=
  tx.hash.val ++ 0x92 :: (hmuPage page ++ advBin (tx.pageBytes page))

def nextPage (tx : ResourceSender) (last : MapHash) : Option Bytes := do
  let idx ← tx.mapHashes.idxOf? last
  if (idx + 1) % HASHMAP_MAX_LEN ≠ 0 then none
  else some (tx.hashmapUpdate ((idx + 1) / HASHMAP_MAX_LEN))

def partFor (tx : ResourceSender) (wanted : MapHash) : Option Bytes := do
  tx.parts[← tx.mapHashes.idxOf? wanted]?

def serve (tx : ResourceSender) (lastHash : Option MapHash) (body : Bytes) :
    List Bytes × Option Bytes :=
  if body.take 32 ≠ tx.hash.val then ([], none)
  else ((quads (body.drop 32)).filterMap tx.partFor, lastHash.bind tx.nextPage)

/-- Serve a receiver's request: the parts to transmit and, if asked for, a hashmap update. -/
def handleRequest (tx : ResourceSender) : Bytes → List Bytes × Option Bytes
  | [] => ([], none)
  | flag :: body =>
    if flag = HASHMAP_EXHAUSTED then
      if body.length < MAPHASH_LEN + 32 then ([], none)
      else tx.serve (some (BytesN.ofBytes 4 body)) (body.drop MAPHASH_LEN)
    else
      if body.length < 32 then ([], none)
      else tx.serve none body

def proofIsValid (tx : ResourceSender) (proofData : Bytes) : Bool :=
  proofData.length == 64 && proofData.take 32 == tx.hash.val
    && proofData.drop 32 == tx.expectedProof.val

end ResourceSender

end LxmfChat
