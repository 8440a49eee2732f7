import RedisCluster.Lib.Bytes
import RedisCluster.Util.Sds

/-!
# `cluster.c`: packets from the byte stream of a link

`clusterReadHandler` on one link of the cluster bus. `clusterProcessPacket` is a parameter: it works on
the rest of the server and says whether the link is still valid. `inbox` is what the peer has sent and
`read` has not returned yet; `handed` is history, the packets that `clusterProcessPacket` got.
-/

namespace RedisCluster.Framing

open RedisCluster.Lib RedisCluster.Util

/-- `sizeof(clusterMsg)`, the size of `buf`. -/
def sizeofClusterMsg : Nat := 4304

/-- The part before the data, of 2096 bytes. -/
def CLUSTERMSG_MIN_LEN : Nat := sizeofClusterMsg - 2096

def totlen (hdr : Bytes) : Nat := leNat ((hdr.drop 4).take 4).reverse

def sig (hdr : Bytes) : Bytes := hdr.take 4

/-- Why a link is not read any more. -/
inductive Ending where
  /-- "Bad message length or signature received from Cluster bus." -/
  | badHeader
  | ioError
  /-- `clusterProcessPacket` has freed the link. -/
  | freed
  /-- More bytes than `buf` holds, or `8-rcvbuflen` out of the range of `int`. -/
  | undefined
  deriving DecidableEq, Repr

variable {σ : Type}

structure Link (σ : Type) where
  rcvbuf : Bytes
  inbox : Bytes
  ended : Option Ending
  server : σ
  handed : List Bytes

/-- A link on which the peer sends `stream`. -/
def connect (server : σ) (stream : Bytes) : Link σ :=
  { rcvbuf := [], inbox := stream, ended := none, server := server, handed := [] }

/-- What `read` meets: nothing that has arrived, an error or the end of the stream, or at least one and
at most `n + 1` bytes. -/
inductive Arrival where
  | again
  | failed
  | data (n : Nat)
  deriving DecidableEq, Repr

/-- The link with the bytes of `buf` added to `rcvbuf`. -/
def addBytes (link : Link σ) (buf : Bytes) : Link σ :=
  { link with rcvbuf := sdscatlen link.rcvbuf buf, inbox := link.inbox.drop buf.length }

/-- The packet in `rcvbuf` goes to `clusterProcessPacket`; true to go on. -/
def handOver (clusterProcessPacket : σ → Bytes → Bool × σ) (link : Link σ) : Bool × Link σ :=
  let r := clusterProcessPacket link.server link.rcvbuf
  let link := { link with server := r.2, handed := link.handed ++ [link.rcvbuf] }
  if r.1 then (true, { link with rcvbuf := [] }) else (false, { link with ended := some .freed })

/-- The rest of a round, with what `read` has put into `buf`; `rcvbuflen` is an `int`. -/
def receive (clusterProcessPacket : σ → Bytes → Bool × σ) (link : Link σ) (buf : Bytes) : Bool × Link σ :=
  if narrowInt (narrowInt link.rcvbuf.length + buf.length) ≥ 8 ∧
      narrowInt (narrowInt link.rcvbuf.length + buf.length) = totlen (addBytes link buf).rcvbuf then
    handOver clusterProcessPacket (addBytes link buf)
  else (true, addBytes link buf)

/-- `read` of up to `readlen` bytes, and what follows. -/
def readSome (clusterProcessPacket : σ → Bytes → Bool × σ) (link : Link σ) (readlen : Nat) (r : Arrival) :
    Bool × Link σ :=
  match r with
  | .again => (false, link)
  | .failed => (false, { link with ended := some .ioError })
  | .data n =>
    let buf := link.inbox.take (min (n + 1) readlen)
    if link.inbox = [] then (false, link)
    else if readlen = 0 then (false, { link with ended := some .ioError })
    else if buf.length > sizeofClusterMsg then (false, { link with ended := some .undefined })
    else receive clusterProcessPacket link buf

/-- `readlen` once the header is there: the difference is converted to `int`, and compared with the size
as a `size_t`. -/
def bodyLen (totlen rcvbuflen : Int) : Nat :=
  let readlen := narrowInt (totlen - rcvbuflen)
  if readlen < 0 ∨ readlen > sizeofClusterMsg then sizeofClusterMsg else readlen.toNat

def readRound (clusterProcessPacket : σ → Bytes → Bool × σ) (link : Link σ) (r : Arrival) : Bool × Link σ :=
  let rcvbuflen := narrowInt link.rcvbuf.length
  if rcvbuflen < 8 then
    if 8 - rcvbuflen ≥ 2 ^ 31 then (false, { link with ended := some .undefined })
    else readSome clusterProcessPacket link (8 - rcvbuflen).toNat r
  else if rcvbuflen = 8 ∧ (sig link.rcvbuf ≠ ascii "RCmb" ∨ totlen link.rcvbuf < CLUSTERMSG_MIN_LEN) then
    (false, { link with ended := some .badHeader })
  else readSome clusterProcessPacket link (bodyLen (totlen link.rcvbuf) rcvbuflen) r

/-- One call, with what its `read`s meet; after these nothing has arrived. -/
def clusterReadHandler (clusterProcessPacket : σ → Bytes → Bool × σ) (link : Link σ) : List Arrival → Link σ
  | [] => link
  | r :: rs =>
    let next := readRound clusterProcessPacket link r
    if next.1 then clusterReadHandler clusterProcessPacket next.2 rs else next.2

/-- The calls for one link, as long as it is there. -/
def readCalls (clusterProcessPacket : σ → Bytes → Bool × σ) (link : Link σ) (calls : List (List Arrival)) : Link σ :=
  calls.foldl (fun link rs =>
    if link.ended.isNone then clusterReadHandler clusterProcessPacket link rs else link) link

/-! ## Packets -/

/-- A packet as a peer sends it: the signature, and a length field that gives its length. -/
structure WellFormed (packet : Bytes) : Prop where
  sig : sig packet = ascii "RCmb"
  totlen : totlen packet = packet.length
  length : CLUSTERMSG_MIN_LEN ≤ packet.length

/-- The first `k` packets are handed over and `rcvbuf` holds the part of the next one that has come. -/
structure Partial (packets : List Bytes) (link : Link σ) (k : Nat) : Prop where
  handed : link.handed = packets.take k
  stream : link.rcvbuf ++ link.inbox = (packets.drop k).flatten
  unfinished : ∀ p, packets[k]? = some p → link.rcvbuf.length < p.length

/-- How a link stands after calls that met `calls`: it holds an unfinished packet, or it is gone because
of an error of `read` or of the last packet. -/
def Framed (clusterProcessPacket : σ → Bytes → Bool × σ) (packets : List Bytes) (calls : List (List Arrival))
    (link : Link σ) : Prop :=
  (link.ended = none ∧ ∃ k, Partial packets link k) ∨
    (link.ended = some .ioError ∧ (∃ rs ∈ calls, .failed ∈ rs) ∧ ∃ k, link.handed = packets.take k) ∨
    (link.ended = some .freed ∧ (∃ s p, p ∈ packets ∧ (clusterProcessPacket s p).1 = false) ∧
      ∃ k, link.handed = packets.take k)

end RedisCluster.Framing
