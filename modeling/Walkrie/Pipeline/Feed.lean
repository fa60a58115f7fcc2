import Walkrie.Dispatcher.Confirm
import Walkrie.Wire.Decode

/-!
# What the server sends on a connection

A slot stands at a position of the log.  A connection that starts there gets
the transactions that commit behind it, in commit order, as XLogData frames,
with keepalives and descriptions of relations wherever the server puts them.
The frames of two connections differ even where they carry the same
transactions.
-/

namespace Walkrie
namespace Dispatcher

/-! ## Positions of a stream -/

namespace Stream

variable (stream : Stream) (lsn : Nat)

/-- The transactions a slot at the position has behind it. -/
def upTo : List Transaction :=
  stream.transactions.filter fun transaction => transaction.commitLsn ≤ lsn

/-- What is still to be streamed from the position. -/
def after : Stream where
  transactions :=
    stream.transactions.filter fun transaction => lsn < transaction.commitLsn
  increasing := stream.increasing.filter _

/-- How many events come before those that are still to be streamed. -/
def passed : Nat :=
  ((stream.upTo lsn).flatMap Transaction.events).length

end Stream

/-- In commit order, what commits by a position comes before what does not. -/
theorem filter_append_filter
    {transactions : List Transaction}
    (increasing : transactions.Pairwise fun earlier later =>
      earlier.commitLsn < later.commitLsn)
    (lsn : Nat) :
    (transactions.filter fun transaction => transaction.commitLsn ≤ lsn) ++
        (transactions.filter fun transaction =>
          lsn < transaction.commitLsn) = transactions := by
  induction transactions with
  | nil => rfl
  | cons first rest inductionHypothesis =>
      obtain ⟨before, increasing⟩ := List.pairwise_cons.mp increasing
      have tail := inductionHypothesis increasing
      by_cases early : first.commitLsn ≤ lsn
      · simp [early, tail]
      · -- Everything that follows commits later still.
        have unpassed : (rest.filter fun transaction =>
            transaction.commitLsn ≤ lsn) = [] := by
          rw [List.filter_eq_nil_iff]
          intro transaction member
          have later := before transaction member
          simp only [decide_eq_true_eq]
          omega
        rw [unpassed, List.nil_append] at tail
        rw [List.filter_cons_of_neg (by simpa using early), unpassed,
          List.nil_append, List.filter_cons_of_pos (by simpa using early),
          tail]

theorem Stream.events_eq (stream : Stream) (lsn : Nat) :
    stream.events =
      (stream.upTo lsn).flatMap Transaction.events ++
        (stream.after lsn).events := by
  simp only [Stream.events, Stream.upTo, Stream.after, ← List.flatMap_append]
  rw [filter_append_filter stream.increasing]

/-- The remaining events are those of the stream behind the passed ones. -/
theorem Stream.drop_passed (stream : Stream) (lsn : Nat) :
    stream.events.drop (stream.passed lsn) = (stream.after lsn).events := by
  rw [stream.events_eq lsn]
  exact List.drop_left

theorem exists_owner?_append
    {transactions : List Transaction}
    (later : List Transaction)
    {index : Nat}
    (inside : index < (transactions.flatMap Transaction.events).length) :
    ∃ transaction ∈ transactions,
      owner? (transactions ++ later) index = some transaction := by
  induction transactions generalizing index with
  | nil => simp at inside
  | cons first rest inductionHypothesis =>
      simp only [List.cons_append, owner?]
      split <;> rename_i here
      · exact ⟨first, List.mem_cons_self, rfl⟩
      · simp only [List.flatMap_cons, List.length_append] at inside
        obtain ⟨transaction, member, owned⟩ := inductionHypothesis
          (show index - first.events.length < _ by omega)
        exact ⟨transaction, List.mem_cons_of_mem first member, owned⟩

/-- If the events of every transaction that is streamed from `start` and
commits by `lsn` are among the first `bound` ones, so many are passed at
most. -/
theorem Stream.passed_le
    (stream : Stream)
    {start lsn bound : Nat}
    (covers : ∀ index transaction,
      owner? (stream.after start).transactions index = some transaction →
      transaction.commitLsn ≤ lsn → index < bound) :
    stream.passed lsn ≤ stream.passed start + bound := by
  let near := (stream.after start).transactions.filter fun transaction =>
    transaction.commitLsn ≤ lsn
  let far := (stream.after start).transactions.filter fun transaction =>
    lsn < transaction.commitLsn
  have whole : near ++ far = (stream.after start).transactions :=
    filter_append_filter (stream.after start).increasing lsn
  have split : stream.upTo lsn =
      (stream.upTo start).filter (fun transaction =>
        transaction.commitLsn ≤ lsn) ++ near := by
    rw [← List.filter_append]
    exact congrArg _ (filter_append_filter stream.increasing start).symm
  have early : (((stream.upTo start).filter fun transaction =>
      transaction.commitLsn ≤ lsn).flatMap Transaction.events).length ≤
        stream.passed start :=
    (List.filter_sublist.flatMap Transaction.events).length_le
  have few : (near.flatMap Transaction.events).length ≤ bound := by
    by_contra many
    obtain ⟨transaction, member, owned⟩ := exists_owner?_append far
      (show bound < (near.flatMap Transaction.events).length by omega)
    rw [whole] at owned
    have committed := (List.mem_filter.mp member).2
    exact Nat.lt_irrefl _
      (covers bound transaction owned (of_decide_eq_true committed))
  simp only [Stream.passed] at early ⊢
  rw [split, List.flatMap_append, List.length_append]
  omega

end Dispatcher

namespace Pipeline

open Dispatcher Wire BigEndian

/-! ## Packets -/

/-- What comes over the connection: a frame with a message, or a keepalive. -/
inductive Packet
  | xlogData (frame : Frame)
  | keepalive (walEnd sendTime : Nat) (reply : UInt8)

namespace Packet

def encode : Packet → List UInt8
  | .xlogData frame => frame.encode
  | .keepalive walEnd sendTime reply =>
      tag 'k' :: (toBytes 8 walEnd ++ (toBytes 8 sendTime ++ [reply]))

def Valid : Packet → Prop
  | .xlogData frame => frame.Valid
  | .keepalive walEnd sendTime _ => walEnd < 2 ^ 64 ∧ sendTime < 2 ^ 64

/-- The messages received once the packet is. -/
def extend (history : List Message) : Packet → List Message
  | .xlogData frame => frame.message :: history
  | .keepalive .. => history

/-- The effect of the packet after a history of messages. -/
def denotes (history : List Message) : Packet → FrameEffect
  | .xlogData frame => frame.denotes history
  | .keepalive _ _ reply => .keepalive (decide (reply ≠ 0))

end Packet

/-- The events a frame hands over. -/
def events : FrameEffect → List ChangeEvent
  | .decoded (some events) => events
  | _ => []

/-- The events a list of packets carries. -/
def served (history : List Message) : List Packet → List ChangeEvent
  | [] => []
  | packet :: packets =>
      events (packet.denotes history) ++
        served (packet.extend history) packets

theorem handleFrame_keepalive
    (state : ReplicationState)
    {walEnd sendTime : Nat}
    (reply : UInt8)
    (endBound : walEnd < 2 ^ 64)
    (timeBound : sendTime < 2 ^ 64) :
    handleFrame .unlimited state (Packet.keepalive walEnd sendTime reply).encode =
      .ok (state, .keepalive (decide (reply ≠ 0))) := by
  have fields : readKeepalive.run (toBytes 8 walEnd ++ (toBytes 8 sendTime ++
      [reply])) = .ok (⟨walEnd, sendTime, decide (reply ≠ 0)⟩, []) := by
    rw [readKeepalive, Reader.bind_of_ok (readU64_encode endBound _),
      Reader.bind_of_ok (readU64_encode timeBound _),
      Reader.bind_of_ok (readU8_cons reply [])]
    rfl
  have parsed : parseKeepaliveMessage
      (Packet.keepalive walEnd sendTime reply).encode =
        .ok (some ⟨walEnd, sendTime, decide (reply ≠ 0)⟩) := by
    rw [parseKeepaliveMessage, if_neg (by simp [Packet.encode]),
      Packet.encode, List.drop_succ_cons, List.drop_zero, fields]
    rfl
  have kind : (Packet.keepalive walEnd sendTime reply).encode.head? =
      some (tag 'k') := rfl
  simp only [handleFrame, kind, if_true, parsed]

/-- A packet has the effect it denotes and leaves the decoder in agreement
with the messages received. -/
theorem handleFrame_packet
    {state : ReplicationState}
    {history : List Message}
    {packet : Packet}
    (agrees : Agrees state.parser history)
    (valid : packet.Valid) :
    ∃ next,
      handleFrame .unlimited state packet.encode =
        .ok (next, packet.denotes history) ∧
      Agrees next.parser (packet.extend history) := by
  cases packet with
  | xlogData frame =>
      exact handleFrame_encode agrees valid (Memory.meets_unlimited _)
  | keepalive walEnd sendTime reply =>
      exact ⟨state, handleFrame_keepalive state reply valid.1 valid.2, agrees⟩

end Pipeline
end Walkrie
