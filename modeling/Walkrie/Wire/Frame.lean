import Walkrie.Wire.PgOutput

/-!
# CopyData frames

What `drain_available_messages` does with one frame of the replication stream:
a keepalive may ask for a reply, an XLogData frame carries a message for the
decoder, and its start position is stored afterwards.
-/

namespace Walkrie
namespace Wire

/-- Header of an XLogData frame, with the message it carries. -/
structure XLogDataHeader where
  walStart : Nat
  walEnd : Nat
  sendTime : Nat
  payload : List UInt8

/-- A primary keepalive. -/
structure KeepaliveMessage where
  walEnd : Nat
  sendTime : Nat
  replyRequested : Bool

/-- The three numbers of an XLogData header. -/
def readXlogdataNumbers : Reader (Nat × Nat × Nat) := do
  let walStart ← readU64
  let walEnd ← readU64
  let sendTime ← readU64
  return (walStart, walEnd, sendTime)

/-- `parse_xlogdata_header`: type, three numbers of eight bytes, payload. -/
def parseXlogdataHeader (buf : List UInt8) :
    Except Reader.Fault (Option XLogDataHeader) :=
  if buf.length < 1 + 8 + 8 + 8 then .ok none
  else
    (readXlogdataNumbers.run (buf.drop 1)).map
      fun ((walStart, walEnd, sendTime), payload) =>
        some { walStart, walEnd, sendTime, payload }

/-- The fields of a keepalive. -/
def readKeepalive : Reader KeepaliveMessage := do
  let walEnd ← readU64
  let sendTime ← readU64
  let flag ← readU8
  return { walEnd, sendTime, replyRequested := decide (flag ≠ 0) }

/-- `parse_keepalive_message`: type, two numbers of eight bytes, a flag. -/
def parseKeepaliveMessage (buf : List UInt8) :
    Except Reader.Fault (Option KeepaliveMessage) :=
  if buf.length < 1 + 8 + 8 + 1 then .ok none
  else (readKeepalive.run (buf.drop 1)).map fun (message, _) => some message

/-- The members of the source that frames act on. -/
structure ReplicationState where
  parser : PgOutputParser := {}
  lastReadLsn : Nat := 0

/-- What handling one frame comes to. -/
inductive FrameEffect
  | ignored
  | truncatedKeepalive
  | keepalive (replyRequested : Bool)
  | decoded (events : Option (List ChangeEvent))
  | decodeError (lsn : Nat) (message : String)
  deriving DecidableEq

/-- Undefined behaviour while handling a frame: a read outside of it, or the
use of a header that was not parsed. -/
inductive FrameFault
  | outOfRange
  | absentHeader
  deriving DecidableEq

/-- One turn of the loop of `drain_available_messages`. -/
def handleFrame (memory : Memory) (state : ReplicationState)
    (buf : List UInt8) :
    Except FrameFault (ReplicationState × FrameEffect) :=
  match buf.head? with
  | none => .error .outOfRange
  | some kind =>
      if kind = tag 'k' then
        match parseKeepaliveMessage buf with
        | .error _ => .error .outOfRange
        | .ok none => .ok (state, .truncatedKeepalive)
        | .ok (some keepalive) =>
            .ok (state, .keepalive keepalive.replyRequested)
      else if kind = tag 'w' then
        match parseXlogdataHeader buf with
        | .error _ => .error .outOfRange
        -- The truncated header is logged, and its start position is read.
        | .ok none => .error .absentHeader
        | .ok (some header) =>
            match state.parser.parse memory header.payload with
            | .error .outOfRange => .error .outOfRange
            | .error (.thrown message) =>
                .ok ({ state with lastReadLsn := header.walStart },
                  .decodeError header.walStart message)
            | .ok (parser, events) =>
                .ok ({ parser, lastReadLsn := header.walStart },
                  .decoded (events.map fun events =>
                    events.map fun event =>
                      { event with commitLsn := header.walStart }))
      else .ok (state, .ignored)

/-- The loop of `drain_available_messages` over the frames it gets. -/
def drainAvailableMessages (memory : Memory) (state : ReplicationState) :
    List (List UInt8) →
      Except FrameFault (ReplicationState × List FrameEffect)
  | [] => .ok (state, [])
  | buf :: bufs =>
      match handleFrame memory state buf with
      | .error fault => .error fault
      | .ok (state, effect) =>
          match drainAvailableMessages memory state bufs with
          | .error fault => .error fault
          | .ok (state, effects) => .ok (state, effect :: effects)

end Wire
end Walkrie
