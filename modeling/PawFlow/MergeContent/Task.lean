import PawFlow.Core.FlowFile
import PawFlow.Lib.PyString

/-!
# Merging FlowFiles

`MergeContentTask` of `tasks/control/merge_content.py`: its four dicts, keyed by the correlation
key of a bin, and the snapshot that a checkpoint keeps of them.
-/

namespace PawFlow.MergeContent

open PawFlow.Lib PawFlow.Core

abbrev Time := Int

/-- What `__init__` reads of the configuration. -/
structure Config where
  separator : List UInt8 := [10]
  minEntries : Int := 2
  correlationAttribute : String := "fragment.identifier"
  maxBinAge : Time := 0
  expectedCountAttribute : String := ""
  maxBinFlowfiles : Int := 0
  maxBinBytes : Int := 0
  header : List UInt8 := []
  footer : List UInt8 := []

structure State where
  bins : PyDict String (List FlowFile) := []
  binCreated : PyDict String Time := []
  binExpected : PyDict String Int := []
  binBytes : PyDict String Nat := []

/-- What one call reads of the clock, and the id and the time its clone is given. -/
structure Reads where
  expiry : Time
  created : Time
  cloneId : String
  clonedAt : Int

/-- `pop(key, None)` on all four dicts. -/
def State.pop (s : State) (key : String) : State where
  bins := s.bins.erase key
  binCreated := s.binCreated.erase key
  binExpected := s.binExpected.erase key
  binBytes := s.binBytes.erase key

/-- `_ordered`: by index where every FlowFile of the bin carries one. -/
def ordered (buf : List FlowFile) : List FlowFile :=
  match buf.mapM fun f => (f.getAttribute "fragment.index").bind fun raw =>
      (int? raw).map fun index => (index, f) with
  | some indexed => (indexed.insertionSort fun p q => p.1 ≤ q.1).map Prod.snd
  | none => buf

/-- `separator.join(contents)`. -/
def join (separator : List UInt8) (contents : List (List UInt8)) : List UInt8 :=
  separator.intercalate contents

section

variable (cfg : Config) (r : Reads)

def mergedContent (buf : List FlowFile) : List UInt8 :=
  let merged := join cfg.separator (buf.map FlowFile.content)
  let merged := if cfg.header = [] then merged else cfg.header ++ cfg.separator ++ merged
  if cfg.footer = [] then merged else merged ++ cfg.separator ++ cfg.footer

def flushBin (key : String) (s : State) : List FlowFile × State :=
  match ordered ((s.bins.get? key).getD []) with
  | [] => ([], s.pop key)
  | first :: rest =>
    let merged := mergedContent cfg (first :: rest)
    let clone := first.clone r.cloneId r.clonedAt
    ([({ clone with content := merged }.setAttribute "merge.count"
        (toString (first :: rest).length)).setAttribute "merge.correlation" key
        |>.setAttribute "fileSize" (toString merged.length)], s.pop key)

theorem flushBin_snd (key : String) (s : State) : (flushBin cfg r key s).2 = s.pop key := by
  unfold flushBin
  split <;> rfl

def expireStaleBins (s : State) : State :=
  if cfg.maxBinAge ≤ 0 then s
  else ((s.binCreated.filter fun i => cfg.maxBinAge < r.expiry - i.2).map Prod.fst).foldl
    State.pop s

def binKey (f : FlowFile) : String :=
  if cfg.correlationAttribute = "" then "_default"
  else if f.attr cfg.correlationAttribute = "" then "_default"
  else f.attr cfg.correlationAttribute

/-- The number of FlowFiles the bin waits for. -/
def expectedCount (f : FlowFile) : Except String Int :=
  if cfg.expectedCountAttribute = "" then .ok cfg.minEntries
  else
    match int? (f.attr cfg.expectedCountAttribute) with
    | none => .error ("Invalid expected count attribute '" ++ cfg.expectedCountAttribute ++ "'")
    | some expected =>
      if expected < 1 then .error "Expected merge count must be >= 1" else .ok expected

/-- A new bin. -/
def State.openBin (s : State) (key : String) : State :=
  if s.bins.get? key = none then
    { s with
      bins := s.bins.set key []
      binCreated := s.binCreated.set key r.created
      binBytes := s.binBytes.set key 0 }
  else s

/-- `execute` on the bins left by the expiry: the FlowFiles emitted or the text of the `TaskError`,
and the state then. -/
def addToBin (f : FlowFile) (s : State) : Except String (List FlowFile) × State :=
  let key := binKey cfg f
  let s := s.openBin r key
  match expectedCount cfg f with
  | .error e => (.error e, s)
  | .ok expected =>
    if 0 < cfg.maxBinFlowfiles ∧ cfg.maxBinFlowfiles < expected then
      (.error ("Expected merge count " ++ toString expected ++ " exceeds max_bin_flowfiles " ++
        toString cfg.maxBinFlowfiles), s)
    else
      let previous := (s.binExpected.get? key).getD expected
      -- `setdefault`, before the limits are looked at
      let s := { s with binExpected := s.binExpected.set key previous }
      let bin := (s.bins.get? key).getD []
      let nextCount : Nat := bin.length + 1
      let nextBytes : Nat := (s.binBytes.get? key).getD 0 + f.size
      if previous ≠ expected then
        (.error ("Inconsistent expected merge count for bin '" ++ key ++ "': " ++
          toString previous ++ " != " ++ toString expected), s)
      else if 0 < cfg.maxBinFlowfiles ∧ cfg.maxBinFlowfiles < nextCount then
        (.error ("Merge bin '" ++ key ++ "' exceeds max_bin_flowfiles " ++
          toString cfg.maxBinFlowfiles), s)
      else if 0 < cfg.maxBinBytes ∧ cfg.maxBinBytes < nextBytes then
        (.error ("Merge bin '" ++ key ++ "' exceeds max_bin_bytes " ++
          toString cfg.maxBinBytes), s)
      else
        let s := { s with
          bins := s.bins.set key (bin ++ [f])
          binBytes := s.binBytes.set key nextBytes }
        if expected ≤ nextCount then
          let (out, s) := flushBin cfg r key s
          (.ok out, s)
        else (.ok [], s)

def execute (f : FlowFile) (s : State) : Except String (List FlowFile) × State :=
  addToBin cfg r f (expireStaleBins cfg r s)

end

/-! ## Checkpoints -/

/-- A snapshot, with the serialized FlowFiles. -/
structure Checkpoint (ρ : Type) where
  schemaVersion : Int
  bins : PyDict String (List ρ)
  binCreated : PyDict String Time
  binExpected : PyDict String Int

section

variable {ρ : Type}

def checkpointState (serialize : FlowFile → ρ) (s : State) : Checkpoint ρ where
  schemaVersion := 1
  bins := PyDict.mapValues (List.map serialize) s.bins
  binCreated := s.binCreated
  binExpected := s.binExpected

variable (cfg : Config) (deserialize : ρ → Option FlowFile) (c : Checkpoint ρ)

/-- The rows of one bin. -/
def restoreRows (rows : List ρ) : Except String (List FlowFile) :=
  match rows.mapM deserialize with
  | some restored => .ok restored
  | none => .error "mergeContent checkpoint FlowFile is invalid"

/-- One bin is added to the four dicts. -/
def restoreBin (s : State) (i : String × List FlowFile) : Except String State :=
  let (key, files) := i
  match c.binCreated.get? key with
  | none => .error "mergeContent checkpoint timestamp is invalid"
  | some created =>
    let expected := (c.binExpected.get? key).getD cfg.minEntries
    let size := (files.map FlowFile.size).sum
    if expected < 1 ∨ (0 < cfg.maxBinFlowfiles ∧ cfg.maxBinFlowfiles < expected) then
      .error "mergeContent checkpoint expected count is invalid"
    else if 0 < cfg.maxBinBytes ∧ cfg.maxBinBytes < size then
      .error "mergeContent checkpoint bin exceeds max_bin_bytes"
    else .ok { s with
      binCreated := s.binCreated.set key created
      binExpected := s.binExpected.set key expected
      binBytes := s.binBytes.set key size }

def restoreCheckpointState : Except String State :=
  if c.schemaVersion ≠ 1 then .error "mergeContent checkpoint schema_version must be 1"
  else
    (c.bins.mapM fun i => (restoreRows deserialize i.2).map fun files => (i.1, files)).bind
      fun bins => bins.foldlM (restoreBin cfg c) { bins }

end

end PawFlow.MergeContent
