import RustExample.Foundation.BigEndian
import RustExample.OpenraftCluster.StateMachine.Batches

/-!
# The log store

The raft log is kept in a column family whose keys are the indices of the entries, as eight
big-endian bytes. Reads, truncations and purges scan it from an encoded start key and stop at the
first key out of their range. The purge mark, the vote and the committed log id are kept apart.

Source: `src/rocksstore_crud/log_store.rs`.

* Entries and metadata are kept as values, not as their JSON text.
* A batch of the database is written as a whole, and an iterator lists the keys in byte order.
-/

namespace RustExample.OpenraftCluster

/-! ### Ranges -/

/-- A bound of a range. -/
inductive IndexBound where
  | included (x : UInt64)
  | excluded (x : UInt64)
  | unbounded
  deriving DecidableEq, Repr

/-- A range of indices, which may be empty or inverted. -/
structure IndexRange where
  startBound : IndexBound
  endBound : IndexBound
  deriving DecidableEq, Repr

namespace IndexRange

/-- The index is not before the start. -/
def afterStart (range : IndexRange) (i : UInt64) : Bool :=
  match range.startBound with
  | .included x => x ≤ i
  | .excluded x => x < i
  | .unbounded => true

/-- The index is not behind the end. -/
def beforeEnd (range : IndexRange) (i : UInt64) : Bool :=
  match range.endBound with
  | .included x => i ≤ x
  | .excluded x => i < x
  | .unbounded => true

/-- The index is in the range. -/
def contains (range : IndexRange) (i : UInt64) : Bool := range.afterStart i && range.beforeEnd i

/-- All indices from `start` on. -/
def fromIndex (start : UInt64) : IndexRange := ⟨.included start, .unbounded⟩

/-- The indices from `start` to `last`, both included. -/
def closed (start last : UInt64) : IndexRange := ⟨.included start, .included last⟩

end IndexRange

/-- The sum, if it fits. -/
def checkedAdd (a b : UInt64) : Option UInt64 :=
  if a.toNat + b.toNat < UInt64.size then some (a + b) else none

/-- The first index of the range. -/
def rangeStart (range : IndexRange) : Option UInt64 :=
  match range.startBound with
  | .included x => some x
  | .excluded x => checkedAdd x 1
  | .unbounded => some 0

/-! ### Keys -/

/-- The key of an index. -/
def idToBin (id : UInt64) : List UInt8 := BigEndian.encode 8 id.toNat

/-- The index of a key. -/
def binToId (buf : List UInt8) : Except String UInt64 :=
  if buf.length ≠ 8 then .error s!"log key length {buf.length} is not 8 bytes"
  else .ok (UInt64.ofNat (BigEndian.decode buf))

/-! ### The store -/

variable {M V : Type}

/-- The index of an entry. -/
def Entry.index (entry : Entry M) : UInt64 := entry.logId.index

/-- The column families `logs` and `meta`. -/
structure RocksLogStore (M V : Type) where
  logs : KeyStore (List UInt8) (Entry M)
  lastPurged : Option LogId
  vote : Option V
  committed : Option LogId

/-- The ends of the log. -/
structure LogState where
  lastPurgedLogId : Option LogId
  lastLogId : Option LogId
  deriving DecidableEq

/-- An entry of the column family `logs` with the index that its key says. -/
structure LogItem (M : Type) where
  key : List UInt8
  id : UInt64
  entry : Entry M

namespace RocksLogStore

/-- A store without entries. -/
def empty : RocksLogStore M V := ⟨∅, none, none, none⟩

/-- Walk an iterator up to the first key out of the range. -/
def takeRange (range : IndexRange) : List (List UInt8 × Entry M) → Except String (List (LogItem M))
  | [] => .ok []
  | (key, entry) :: rest => do
    let id ← binToId key
    if range.contains id then
      let items ← takeRange range rest
      .ok (⟨key, id, entry⟩ :: items)
    else
      .ok []

/-- The items of a range, from the encoded start on. -/
def scan (store : RocksLogStore M V) (range : IndexRange) : Except String (List (LogItem M)) :=
  match rangeStart range with
  | none => .ok []
  | some start => takeRange range (store.logs.iterFrom (idToBin start))

/-- The entry, if its index is the key's. -/
def decode (item : LogItem M) : Except String (Entry M) :=
  if item.id ≠ item.entry.index then
    .error s!"log key index {item.id} does not match entry index {item.entry.index}"
  else
    .ok item.entry

/-- The entries of a range. -/
def tryGetLogEntries (store : RocksLogStore M V) (range : IndexRange) :
    Except String (List (Entry M)) := do
  let raw ← store.scan range
  raw.mapM decode

/-- The ends of the log. -/
def getLogState (store : RocksLogStore M V) : Except String LogState := do
  let lastLogId ←
    match store.logs.lastEntry with
    | none => .ok none
    | some (key, entry) => do
      let keyIndex ← binToId key
      if keyIndex ≠ entry.index then
        .error s!"last log key index {keyIndex} does not match entry index {entry.index}"
      else
        .ok (some entry.logId)
  .ok ⟨store.lastPurged, lastLogId.or store.lastPurged⟩

/-- The keys of a range. -/
def appendLogDeletes (store : RocksLogStore M V) (range : IndexRange) :
    Except String (List (KeyStore.Write (List UInt8) (Entry M))) := do
  let items ← store.scan range
  .ok (items.map fun item => ⟨item.key, none⟩)

/-- Removes all entries from an index on. -/
def removeLogsFrom (store : RocksLogStore M V) (startIndex : UInt64) :
    Except String (RocksLogStore M V) := do
  let batch ← store.appendLogDeletes (.fromIndex startIndex)
  if batch.isEmpty then .ok store
  else .ok { store with logs := store.logs.writeAll batch }

/-- Removes all entries up to one, and marks it. -/
def purgeLogsThrough (store : RocksLogStore M V) (logId : LogId) :
    Except String (RocksLogStore M V) := do
  let batch ← store.appendLogDeletes (.closed 0 logId.index)
  .ok { store with lastPurged := some logId, logs := store.logs.writeAll batch }

/-- Adds entries. -/
def append (store : RocksLogStore M V) (entries : List (Entry M)) : RocksLogStore M V :=
  if entries.isEmpty then store
  else { store with logs := store.logs.writeAll (entries.map fun e => ⟨idToBin e.index, some e⟩) }

/-- Without a log id all entries are removed. After the greatest index there are none. -/
def truncateAfter (store : RocksLogStore M V) (lastLogId : Option LogId) :
    Except String (RocksLogStore M V) :=
  match (lastLogId.map fun logId => checkedAdd logId.index 1).getD (some 0) with
  | none => .ok store
  | some startIndex => store.removeLogsFrom startIndex

/-- Removes all entries up to a purge mark. -/
def purge (store : RocksLogStore M V) (logId : LogId) : Except String (RocksLogStore M V) :=
  store.purgeLogsThrough logId

/-- Keeps a vote. -/
def saveVote (store : RocksLogStore M V) (vote : V) : RocksLogStore M V :=
  { store with vote := some vote }

/-- Keeps the committed id. -/
def saveCommitted (store : RocksLogStore M V) (committed : Option LogId) : RocksLogStore M V :=
  { store with committed }

/-- The vote that was kept. -/
def readVote (store : RocksLogStore M V) : Option V := store.vote

/-- The committed id that was kept. -/
def readCommitted (store : RocksLogStore M V) : Option LogId := store.committed

end RocksLogStore

/-- The calls that change the store. -/
inductive LogStoreOp (M V : Type) where
  | append (entries : List (Entry M))
  | truncateAfter (lastLogId : Option LogId)
  | purge (logId : LogId)
  | saveVote (vote : V)
  | saveCommitted (committed : Option LogId)

/-- Performs an operation. -/
def RocksLogStore.exec (store : RocksLogStore M V) :
    LogStoreOp M V → Except String (RocksLogStore M V)
  | .append entries => .ok (store.append entries)
  | .truncateAfter lastLogId => store.truncateAfter lastLogId
  | .purge logId => store.purge logId
  | .saveVote vote => .ok (store.saveVote vote)
  | .saveCommitted committed => .ok (store.saveCommitted committed)

end RustExample.OpenraftCluster
