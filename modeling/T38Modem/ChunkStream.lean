import Mathlib.Logic.Function.Basic
import T38Modem.DataStream

namespace T38Modem

def chunkSize : Nat := 256

/-- A `ChunkStream`: of its array the octets that are written, up to `last`. -/
structure ChunkStream where
  data : List Byte := []
  first : Nat := 0
  first_le : first ≤ data.length := by decide
  last_le : data.length ≤ chunkSize := by decide

namespace ChunkStream

def last (c : ChunkStream) : Nat := c.data.length

/-- The octets that are not read. -/
def rest (c : ChunkStream) : List Byte := c.data.drop c.first

/-- The number of octets written, or `none` for the result -1. -/
def write (c : ChunkStream) (bs : List Byte) : Option (Nat × ChunkStream) :=
  if h : chunkSize - c.last = 0 then none
  else
    let part := bs.take (chunkSize - c.last)
    some (part.length,
      { data := c.data ++ part
        first := c.first
        first_le := by
          have := c.first_le
          simp only [List.length_append]
          omega
        last_le := by
          have := c.last_le
          simp only [List.length_append, part, List.length_take, last]
          omega })

/-- The octets read, or `none` for the result -1. -/
def read (c : ChunkStream) (count : Nat) : Option (List Byte × ChunkStream) :=
  if c.first = chunkSize then none
  else
    let part := c.rest.take count
    some (part,
      { data := c.data
        first := c.first + part.length
        first_le := by
          have := c.first_le
          simp only [part, rest, List.length_take, List.length_drop]
          omega
        last_le := c.last_le })

end ChunkStream

/-- The address of a `ChunkStream`. -/
abbrev ChunkId := Nat

/-- A `DataStream` as the code keeps it: pointers to chunks on the heap, of which `next` is the first that
has not been given out. -/
structure ChunkedStream where
  heap : ChunkId → Option ChunkStream := fun _ => none
  next : ChunkId := 0
  firstBuf : Option ChunkId := none
  bufQ : List ChunkId := []
  lastBuf : Option ChunkId := none
  busy : Nat := 0
  threshold : Nat := 0
  eof : Bool := false
  diag : Diag := 0

namespace ChunkedStream

/-- Write what a pointer points to. -/
def store (s : ChunkedStream) (p : ChunkId) (c : Option ChunkStream) : ChunkedStream :=
  { s with heap := Function.update s.heap p c }

/-- `lastBuf = new ChunkStream(); bufQ.Enqueue(lastBuf);` -/
def newChunk (s : ChunkedStream) : ChunkedStream :=
  { s.store s.next (some {}) with next := s.next + 1, bufQ := s.bufQ ++ [s.next], lastBuf := some s.next }

/-- `delete`. There is nothing to delete twice. -/
def delete (s : ChunkedStream) (p : ChunkId) : Option ChunkedStream :=
  match s.heap p with
  | none => none
  | some _ => some (s.store p none)

/-- The loop of `PutData` with `n` rounds left. There is no result where a chunk is used that is not there. -/
def putLoop : Nat → ChunkedStream → List Byte → Nat → Option (Nat × ChunkedStream)
  | _, s, [], done => some (done, s)
  | 0, _, _ :: _, _ => none
  | n + 1, s, b :: bs, done =>
    let s := if s.lastBuf = none then s.newChunk else s
    match s.lastBuf with
    | none => none
    | some p =>
      match s.heap p with
      | none => none
      | some c =>
        match c.write (b :: bs) with
        | none => putLoop n { s with lastBuf := none } (b :: bs) done
        | some (len, c) => putLoop n (s.store p (some c)) ((b :: bs).drop len) (done + len)

/-- The number of octets taken, or `none` for the result -1. -/
def putData (s : ChunkedStream) (bs : List Byte) : Option (Option Nat × ChunkedStream) :=
  if s.eof then some (none, s)
  else (putLoop (2 * bs.length + 1) s bs 0).map fun r => (some r.1, { r.2 with busy := r.2.busy + r.1 })

/-- The loop of `GetData` with `n` rounds left. -/
def getLoop : Nat → ChunkedStream → Nat → List Byte → Option (List Byte × ChunkedStream)
  | _, s, 0, done => some (done, s)
  | 0, _, _ + 1, _ => none
  | n + 1, s, count + 1, done =>
    let s := if s.firstBuf = none then { s with firstBuf := s.bufQ.head?, bufQ := s.bufQ.tail } else s
    match s.firstBuf with
    | none => some (done, { s with lastBuf := none })
    | some p =>
      match s.heap p with
      | none => none
      | some c =>
        match c.read (count + 1) with
        | none => (s.delete p).bind fun s => getLoop n { s with firstBuf := none } (count + 1) done
        | some ([], c) => some (done, s.store p (some c))
        | some (part, c) => getLoop n (s.store p (some c)) (count + 1 - part.length) (done ++ part)

/-- The octets put into the caller's buffer, or `none` for the result -1. -/
def getData (s : ChunkedStream) (count : Nat) : Option (Option (List Byte) × ChunkedStream) :=
  if s.busy = 0 then some (if s.eof then none else some [], s)
  else
    (getLoop (count + s.bufQ.length + 2) s count []).map fun r =>
      (some r.1, { r.2 with busy := r.2.busy - r.1.length })

def putEof (s : ChunkedStream) : ChunkedStream := { s with eof := true }

def setDiag (s : ChunkedStream) (diag : Diag) : ChunkedStream := { s with diag }

def clean (s : ChunkedStream) : Option ChunkedStream :=
  (s.bufQ.foldlM delete s).bind fun s =>
    (s.firstBuf.toList.foldlM delete s).map fun s =>
      { s with firstBuf := none, bufQ := [], lastBuf := none, busy := 0, eof := false, diag := 0 }

end ChunkedStream

/-- The calls of a stream. -/
inductive StreamCall where
  | putData (bs : List Byte)
  | putEof
  | getData (count : Nat)
  | setDiag (diag : Diag)
  | clean

inductive StreamResult where
  | put (count : Option Nat)
  | got (bs : Option (List Byte))
  | done
  deriving DecidableEq, Repr

def ChunkedStream.call (s : ChunkedStream) : StreamCall → Option (StreamResult × ChunkedStream)
  | .putData bs => (s.putData bs).map fun r => (.put r.1, r.2)
  | .putEof => some (.done, s.putEof)
  | .getData count => (s.getData count).map fun r => (.got r.1, r.2)
  | .setDiag diag => some (.done, s.setDiag diag)
  | .clean => s.clean.map fun s => (.done, s)

def DataStream.call (s : DataStream) : StreamCall → StreamResult × DataStream
  | .putData bs => (.put (s.putData bs).1, (s.putData bs).2)
  | .putEof => (.done, s.putEof)
  | .getData count => (.got (s.getData count).1, (s.getData count).2)
  | .setDiag diag => (.done, s.setDiag diag)
  | .clean => (.done, s.clean)

/-- Calls one behind the other. -/
def ChunkedStream.calls (s : ChunkedStream) : List StreamCall → Option (List StreamResult × ChunkedStream)
  | [] => some ([], s)
  | c :: cs => (s.call c).bind fun r => (r.2.calls cs).map fun rs => (r.1 :: rs.1, rs.2)

def DataStream.calls (s : DataStream) : List StreamCall → List StreamResult × DataStream
  | [] => ([], s)
  | c :: cs => ((s.call c).1 :: ((s.call c).2.calls cs).1, ((s.call c).2.calls cs).2)

end T38Modem
