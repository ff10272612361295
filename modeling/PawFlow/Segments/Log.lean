import PawFlow.Segments.Directory

/-!
# The segmented log

`SegmentedJsonl` (`core/segmented_jsonl.py`, `core/_segmented_jsonl_io.py`): one logical stream of
rows in bounded segment files, an `index.json` that lists the segments with their counts, a
process-wide cache of that index, and per-segment `msg_ids` sidecars.

Each public method is a function on the state `Log`. The clock is read once per call (`now`).
-/

namespace PawFlow.Segments

open PawFlow.Lib

/-- One item of `index["segments"]`. `role_rows` is missing from old indexes. -/
structure Entry where
  file : Nat
  rows : Nat
  roleRows : Option Int
  bytes : Nat
deriving DecidableEq

structure Index where
  segments : List Entry
  totalRows : Nat
deriving DecidableEq

def Index.empty : Index := ⟨[], 0⟩

/-- `index.json` on disk; a file that is cut short or holds no JSON object is malformed. -/
inductive IndexFile
  | missing
  | malformed
  | valid (index : Index)
deriving DecidableEq

namespace IndexFile

def isMissing : IndexFile → Bool
  | missing => true
  | _ => false

/-- What `_load_index` makes of the file: nothing is rebuilt from the segments. -/
def load : IndexFile → Index
  | valid index => index
  | _ => .empty

end IndexFile

/-- One state of `_INDEX_CACHE`. -/
structure CacheEntry where
  index : Index
  dirty : Bool := false
  lastRows : Nat := 0
  lastFlush : Int := 0
  verified : Bool := false
deriving DecidableEq

/-- A `msg_ids` sidecar: the inode and size of the segment it was built from, then the ids. -/
structure Sidecar where
  inode : Nat
  size : Nat
  data : List Char

/-- The settings of a log and of the system it runs on. -/
structure Config where
  maxRows : Nat
  maxBytes : Nat
  maxRows_pos : 1 ≤ maxRows
  maxBytes_pos : 1 ≤ maxBytes
  /-- `_INDEX_FLUSH_ROWS` and `_INDEX_FLUSH_SECONDS`. -/
  indexFlushRows : Nat
  indexFlushSeconds : Int
  /-- `_defer_hot_index_writes()`. -/
  deferHotIndexWrites : Bool
  /-- The inode of the `n`-th file created; inodes are reused. -/
  inode : Nat → Nat

structure Log where
  /-- `segment_dir.is_dir()`. -/
  isDir : Bool
  directory : Directory
  indexFile : IndexFile
  sidecars : Nat → Option Sidecar
  cache : Option CacheEntry

/-! ## Index entries -/

namespace Entry

/-- The item `_current_segment` opens. -/
def opened (file : Nat) : Entry := ⟨file, 0, some 0, 0⟩

def count (e : Entry) (row : Row) : Entry :=
  { e with
    rows := e.rows + 1
    roleRows := e.roleRows.map (· + if row.hasRole then 1 else 0)
    bytes := e.bytes + row.lineSize }

/-- The exact counts of a segment that holds `rows`. -/
def exact (file : Nat) (rows : List Row) : Entry :=
  ⟨file, rows.length, some (roleCount rows), textSize rows⟩

def fits (cfg : Config) (e : Entry) (nextBytes : Nat) : Bool :=
  decide (e.rows < cfg.maxRows) && (e.bytes == 0 || decide (e.bytes + nextBytes ≤ cfg.maxBytes))

end Entry

/-- `_current_segment`: the sealed entries and the one the next row goes to. A new segment is
named after the number of entries. -/
def currentSegment (cfg : Config) (segments : List Entry) (nextBytes : Nat) :
    List Entry × Entry :=
  match segments.getLast? with
  | some e =>
    if e.fits cfg nextBytes then (segments.dropLast, e)
    else (segments, .opened segments.length)
  | none => (segments, .opened segments.length)

/-- One turn of the loops of `append_lines` and `replace_lines`. -/
def appendRow (cfg : Config) (p : Index × Directory) (row : Row) : Index × Directory :=
  let current := currentSegment cfg p.1.segments row.lineSize
  (⟨current.1 ++ [current.2.count row], p.1.totalRows + 1⟩, p.2.append current.2.file [row])

def appendRows (cfg : Config) (index : Index) (d : Directory) (rows : List Row) :
    Index × Directory :=
  rows.foldl (appendRow cfg) (index, d)

/-- Change the first item of a segment, if the index lists it. -/
def updateEntry (n : Nat) (f : Entry → Entry) : List Entry → List Entry
  | [] => []
  | e :: rest => if e.file = n then f e :: rest else e :: updateEntry n f rest

def sumRows (segments : List Entry) : Nat := (segments.map Entry.rows).sum

/-- The transform drops the row or returns one that is not equal to it. -/
def Row.changedBy (transform : Row → Option Row) (row : Row) : Bool :=
  match transform row with
  | none => true
  | some newRow => !newRow.pyEq row

/-! ## A small setting -/

/-- One row to a segment. -/
def oneRowConfig : Config where
  maxRows := 1
  maxBytes := 1000
  maxRows_pos := le_refl 1
  maxBytes_pos := by decide
  indexFlushRows := 64
  indexFlushSeconds := 60
  deferHotIndexWrites := false
  inode := id

def message (msgId : String) : Row := [("role", .str "user"), ("msg_id", .str msgId)]

namespace Log

variable (log : Log)

/-- A log before its first write. -/
def initial : Log := ⟨false, .empty 0, .missing, fun _ => none, none⟩

/-- `is_segmented()`. -/
def isSegmented : Bool := !log.indexFile.isMissing || log.isDir

/-! ## The index cache -/

/-- The index the next call will see. -/
def currentIndex : Index :=
  match log.cache with
  | some c => c.index
  | none => log.indexFile.load

def rememberIndex (index : Index) (flushed : Bool) (now : Int) : Log :=
  let c := log.cache.getD { index }
  { log with
    cache := some { c with
      index
      lastFlush := if flushed then now else c.lastFlush
      lastRows := if flushed then index.totalRows else c.lastRows } }

/-- `_write_index` and `_write_index_hot`. -/
def writeIndex (index : Index) : Log := { log with isDir := true, indexFile := .valid index }

def loadIndex (now : Int) : Index × Log :=
  match log.cache with
  | some c => (c.index, log)
  | none =>
    match log.indexFile with
    | .valid index => (index, log.rememberIndex index true now)
    | _ => (.empty, log.rememberIndex .empty false now)

/-- `flush_dirty_indexes` for this log. -/
def flushDirtyIndexes (cfg : Config) (now : Int) : Log :=
  match log.cache with
  | none => log
  | some c =>
    if !c.dirty || ((c.index.totalRows : Int) - c.lastRows < max 1 cfg.indexFlushRows &&
        now - c.lastFlush < max 0 cfg.indexFlushSeconds) then log
    else
      { log with
        cache := some { c with lastFlush := now, lastRows := c.index.totalRows, dirty := false }
        }.writeIndex c.index

def maybeWriteIndexHot (cfg : Config) (index : Index) (force : Bool) (now : Int) : Log :=
  let c := { log.cache.getD { index } with index }
  let rowsDue := (index.totalRows : Int) - c.lastRows ≥ max 1 cfg.indexFlushRows
  if cfg.deferHotIndexWrites then { log with cache := some { c with dirty := true } }
  else if force || rowsDue then
    { log with
      cache := some { c with lastFlush := now, lastRows := index.totalRows, dirty := false }
      }.writeIndex index
  else { log with cache := some { c with dirty := true } }

/-- `invalidate_index_cache`, and what `_trim_index_cache_locked` does to a victim. -/
def evict : Log := { log with cache := none }

/-! ## Reading -/

/-- `_segment_paths`: the listed segments that exist, a directory listing when there is none. -/
def segmentPaths (now : Int) : List Nat × Log :=
  let (index, log) := log.loadIndex now
  let existing := (index.segments.map Entry.file).filter log.directory.has
  (if !existing.isEmpty then existing else if log.isDir then log.directory.glob else [], log)

/-- The rows of the paths in turn; a sealed segment without a secret key in its text is read as
it is (`_rows_may_hold_secrets`). -/
def readPaths (d : Directory) : List Nat → List Row
  | [] => []
  | [n] => (d.rows n).map Row.strip
  | n :: m :: rest =>
    (if mentions secretRuntimeKeyNeedles (text (d.rows n)) then (d.rows n).map Row.strip
      else d.rows n) ++ readPaths d (m :: rest)

def iterRows (cfg : Config) (now : Int) : List Row × Log :=
  let (paths, log) := (log.flushDirtyIndexes cfg now).segmentPaths now
  (readPaths log.directory paths, log)

/-! ## Appending and replacing -/

/-- `append_dicts` with `append_lines`. -/
def appendDicts (cfg : Config) (rows : List Row) (now : Int) : Log :=
  if rows.isEmpty then log
  else
    let indexMissing := log.cache.isNone && log.indexFile.isMissing
    let ready := { log with isDir := true }
    let (index, log) :=
      match log.cache with
      | some c => (c.index, ready)
      | none =>
        if indexMissing && !log.isDir then (.empty, ready.rememberIndex .empty false now)
        else ready.loadIndex now
    let (index', directory) := appendRows cfg index log.directory (rows.map Row.strip)
    -- a new segment forces the index write
    let createdSegment := decide (index.segments.length < index'.segments.length)
    ({ log with directory }.rememberIndex index' false now).maybeWriteIndexHot cfg index'
      (indexMissing || createdSegment) now

/-- `replace_dicts` with `replace_lines`: a fresh directory takes the place of the old one, its
sidecars included. -/
def replaceDicts (cfg : Config) (rows : List Row) (now : Int) : Log :=
  let (index, directory) :=
    appendRows cfg .empty (.empty log.directory.created) (rows.map Row.strip)
  { log with
    isDir := true, directory, indexFile := .valid index, sidecars := fun _ => none
    }.rememberIndex index true now

/-- `rewrite`: how many rows the transform changed or dropped, and the log after it. -/
def rewrite (cfg : Config) (transform : Row → Option Row) (now : Int) : Nat × Log :=
  let (rows, log) := log.iterRows cfg now
  let changed := rows.countP (Row.changedBy transform)
  (changed, if changed = 0 then log else log.replaceDicts cfg (rows.filterMap transform) now)

/-- `prewarm_append`: open the segment the next row goes to. The index is written only when there
is no index file. -/
def prewarmAppend (cfg : Config) (now : Int) : Log :=
  let (index, log) := { log with isDir := true }.loadIndex now
  let current := currentSegment cfg index.segments 0
  let index := { index with segments := current.1 ++ [current.2] }
  let log := log.rememberIndex index true now
  let log := if log.indexFile.isMissing then log.writeIndex index else log
  { log with directory := log.directory.append current.2.file [] }

/-! ## Rewriting one segment -/

/-- The index part shared by `_replace_rows_in_path` and `_splice_line_in_path`. -/
def updateIndex (f : Index → Index) (now : Int) : Log :=
  let (index, log) := log.loadIndex now
  (log.rememberIndex (f index) true now).writeIndex (f index)

def replaceRowsInPath (n : Nat) (rows : List Row) (now : Int) : Log :=
  let log := { log with directory := log.directory.create n rows }
  if log.isSegmented then
    log.updateIndex (fun index =>
      let segments := updateEntry n (fun _ => .exact n rows) index.segments
      ⟨segments, sumRows segments⟩) now
  else log

/-- `_splice_line_in_path`: `rows` is the segment with one line exchanged. The size is taken from
the file, the display count only moved by `roleDelta`. -/
def spliceLineInPath (n : Nat) (rows : List Row) (roleDelta : Int) (now : Int) : Log :=
  let log := { log with directory := log.directory.create n rows }
  if log.isSegmented then
    log.updateIndex (fun index =>
      { index with
        segments := updateEntry n (fun e =>
          { e with
            bytes := textSize rows
            roleRows := if roleDelta = 0 then e.roleRows
              else some (e.roleRows.getD 0 + roleDelta) }) index.segments }) now
  else log

/-! ## Truncating and deleting -/

/-- The last path with a row of that id, the paths before it and those after it. -/
def findBoundary (d : Directory) (msgId : String) : List Nat → Option (List Nat × Nat × List Nat)
  | [] => none
  | n :: rest =>
    match findBoundary d msgId rest with
    | some (before, target, after) => some (n :: before, target, after)
    | none => if (d.rows n).any (Row.hasMsgId msgId) then some ([], n, rest) else none

def keepThrough (msgId : String) (rows : List Row) : List Row :=
  rows.rdropWhile fun row => !row.hasMsgId msgId

structure Truncation where
  found : Bool
  keptRows : Nat
  boundary : Option Row

def Truncation.notFound : Truncation := ⟨false, 0, none⟩

/-- The entry `truncate_after_msg_id` keeps for a segment before the boundary. -/
def keptEntry (index : Index) (d : Directory) (n : Nat) : Entry :=
  (index.segments.reverse.find? fun e => e.file = n).getD ⟨n, (d.rows n).length, none, d.size n⟩

def truncateAfterMsgId (cfg : Config) (msgId : String) (now : Int) : Truncation × Log :=
  let msgId := strip msgId
  if msgId = "" || !log.isSegmented then (.notFound, log)
  else
    let log := log.flushDirtyIndexes cfg now
    let paths := if log.isDir then log.directory.glob else []
    if paths.isEmpty then (.notFound, log)
    else
      let (index, log) := log.loadIndex now
      match findBoundary log.directory msgId paths with
      | none => (.notFound, log)
      | some (before, target, after) =>
        let kept := (keepThrough msgId (log.directory.rows target)).map Row.strip
        let log := log.replaceRowsInPath target kept now
        let log := { log with directory := after.foldl Directory.unlink log.directory }
        let segments := before.map (keptEntry index log.directory) ++ [.exact target kept]
        let index : Index := ⟨segments, sumRows segments⟩
        (⟨true, index.totalRows, kept.getLast?⟩,
          (log.rememberIndex index true now).writeIndex index)

/-- The rows of one segment that `delete_by_msg_ids` keeps; `none` when a row raises. -/
def keepRows (targets : List String) : List Row → Option (List Row)
  | [] => some []
  | row :: rest =>
    match row.matchesIds targets with
    | none => none
    | some hit => (keepRows targets rest).map fun kept => if hit then kept else row :: kept

def deletePaths (targets : List String) (now : Int) : List Nat → Log → Nat → Option Nat × Log
  | [], log, deleted => (some deleted, log)
  | n :: rest, log, deleted =>
    match keepRows targets (log.directory.rows n) with
    | none => (none, log)
    | some kept =>
      if kept.length = (log.directory.rows n).length then deletePaths targets now rest log deleted
      else
        deletePaths targets now rest (log.replaceRowsInPath n kept now)
          (deleted + ((log.directory.rows n).length - kept.length))

/-- `delete_by_msg_ids`; no count when a row raises (the segments done so far stay rewritten). -/
def deleteByMsgIds (msgIds : List String) (now : Int) : Option Nat × Log :=
  let targets := msgIds.filter (· ≠ "")
  if targets.isEmpty || !log.isSegmented then (some 0, log)
  else
    let (paths, log) := log.segmentPaths now
    deletePaths targets now paths log 0

/-! ## Patching -/

def msgIdRecentSegments : Nat := 2

/-- `_segment_bytes_mentioning(path, needles) is not None`. -/
def segmentMentions (d : Directory) (needles : List (List Char)) (n : Nat) : Bool :=
  d.has n && mentions needles (text (d.rows n))

/-- `_sidecar_mentions_msg_id`: the sidecar's text when it still belongs to the segment, else
the segment's own text. -/
def sidecarMentions (cfg : Config) (needles : List (List Char)) (n : Nat) : Bool :=
  match log.sidecars n, log.directory.file n with
  | some sidecar, some f =>
    if sidecar.inode = cfg.inode f.created && sidecar.size = log.directory.size n then
      mentions needles sidecar.data
    else segmentMentions log.directory needles n
  | _, _ => segmentMentions log.directory needles n

/-- The segment `find_segment_for_msg_id` picks from the listed ones: the newest two are read, the
older ones looked up in their sidecars, newest first. -/
def ownerOf (cfg : Config) (needles : List (List Char)) (paths : List Nat) : Option Nat :=
  let recent := paths.reverse.take msgIdRecentSegments
  let older := paths.take (paths.length - recent.length)
  (recent.find? (segmentMentions log.directory needles)).or
    (older.reverse.find? (log.sidecarMentions cfg needles))

def findSegmentForMsgId (cfg : Config) (msgId : String) (now : Int) : Option Nat × Log :=
  let (paths, log) := log.segmentPaths now
  if paths.isEmpty then (none, log)
  else
    let log := log.flushDirtyIndexes cfg now
    (log.ownerOf cfg (msgIdNeedles msgId) paths, log)

def startsInLine (needles : List (List Char)) (row : Row) (rest : List Row) : Bool :=
  (List.range row.line.length).any fun i =>
    needles.any fun needle => needle.isPrefixOf ((row.line ++ text rest).drop i)

/-- `_locate_msg_id_line`: the first line a needle occurs in whose row has the id, with the rows
before and after it. -/
def locateMsgIdLine (needles : List (List Char)) (msgId : String) :
    List Row → Option (List Row × Row × List Row)
  | [] => none
  | row :: rest =>
    if startsInLine needles row rest && row.hasMsgId msgId then some ([], row, rest)
    else (locateMsgIdLine needles msgId rest).map fun (before, r, after) => (row :: before, r, after)

def roleInt (row : Row) : Int := if row.hasRole then 1 else 0

def patchFirstByMsgId (cfg : Config) (msgId : String) (fields : Row) (now : Int) :
    Option Row × Log :=
  if msgId = "" || fields.isEmpty || !log.isSegmented then (none, log)
  else
    let fields := fields.strip
    let (owner, log) := log.findSegmentForMsgId cfg msgId now
    match owner with
    | none => (none, log)
    | some n =>
      if !segmentMentions log.directory (msgIdNeedles msgId) n then (none, log)
      else
        match locateMsgIdLine (msgIdNeedles msgId) msgId (log.directory.rows n) with
        | none => (none, log)
        | some (before, row, after) =>
          let updated := row.strip.update fields
          if row.strip.holds fields then (some updated, log)
          else
            (some updated, log.spliceLineInPath n (before ++ updated :: after)
              (roleInt updated - roleInt row) now)

/-! ## Display counts -/

/-- One turn of the loop of `role_rows_by_path`: the entry afterwards, and whether it changed. -/
def verifyEntry (d : Directory) (verify : Bool) (e : Entry) : Entry × Bool :=
  let counted := countRows (d.rows e.file)
  let stale := verify && e.bytes != d.size e.file
  let e := if stale then ⟨e.file, counted.1, some counted.2, d.size e.file⟩ else e
  match e.roleRows with
  | some _ => (e, stale)
  | none => ({ e with roleRows := some counted.2 }, true)

def indexVerified : Bool := log.cache.any CacheEntry.verified

def roleRowsByPath (cfg : Config) (now : Int) : List (Nat × Int) × Log :=
  let (index, log) := (log.flushDirtyIndexes cfg now).loadIndex now
  let verify := !log.indexVerified
  let checked := index.segments.map (verifyEntry log.directory verify)
  let segments := checked.map Prod.fst
  let counts := segments.map fun e => (e.file, e.roleRows.getD 0)
  let log :=
    if checked.any Prod.snd then
      let index : Index := ⟨segments, sumRows segments⟩
      (log.rememberIndex index true now).writeIndex index
    else log
  (counts, if verify then { log with cache := log.cache.map ({ · with verified := true }) } else log)

end Log

end PawFlow.Segments
