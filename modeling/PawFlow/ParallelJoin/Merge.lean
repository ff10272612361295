import PawFlow.Core.FlowFile
import PawFlow.Lib.Runs

/-!
# A parallel block and its join

`_lower_parallel` and `_lower_join` of `core/declarative_flow/macros/control.py`, with the tasks they
are lowered to: the fan-out of the executor's `_commit` behind the input port, and
`MergeContentTask` of `tasks/control/merge_content.py`. The two blocks may stand anywhere in a flow:
FlowFiles come to the parallel block with any attributes, and what lies on a branch may do anything
to a copy on its way.

Copies carry the number of the FlowFile they were made of and the name of their branch; the code
does not see these.
-/

namespace PawFlow.ParallelJoin

open PawFlow.Lib PawFlow.Core

abbrev Time := Int

/-- The declared pair, with the checks of `_branch_names`, and the limits of the join. -/
structure Block where
  branches : List String
  two_le : 2 ≤ branches.length
  nodup : branches.Nodup
  separator : List UInt8 := [10]
  maxBinAge : Int := 300
  maxBinFlowfiles : Nat
  maxBinBytes : Nat := 64 * 1024 * 1024

/-- A copy of an input on a branch. -/
structure Token where
  input : Nat
  branch : String
  file : FlowFile
deriving DecidableEq

/-! ## Fan-out -/

/-- The connections a result takes: those of its relationship, or else all. -/
def matching (outgoing : List (String × String)) (f : FlowFile) : List (String × String) :=
  let rel := if f.attr "route.relationship" = "" then "success"
    else f.attr "route.relationship"
  let found := outgoing.filter fun c => c.2 = rel
  if found = [] then outgoing else found

/-- All copies of a fan-out get one identifier, unless the FlowFile has one. -/
def tag (f : FlowFile) (uuid : String) : FlowFile :=
  if f.attr "fragment.identifier" = "" then f.setAttribute "fragment.identifier" uuid else f

/-- `_commit` of one result: the target tasks with what they are sent. `uuid` and `clones` are what
`uuid4` and the clock answer. -/
def commitResult (outgoing : List (String × String)) (f : FlowFile) (uuid : String)
    (clones : Nat → String × Time) : List (String × FlowFile) :=
  let found := matching outgoing f
  let f := if 1 < found.length then tag f uuid else f
  found.zipIdx.map fun c =>
    (c.1.1, if c.2 = 0 then f else f.clone (clones c.2).1 (clones c.2).2)

/-- `InputPortTask.execute` and `OutputPortTask.execute`. -/
def port (name : String) (f : FlowFile) : FlowFile := f.setAttribute "port.name" name

/-- A FlowFile enters the parallel block and leaves its output ports. -/
def Block.enter (b : Block) (input : Nat) (f : FlowFile) (uuid : String)
    (clones : Nat → String × Time) : List Token :=
  (commitResult (b.branches.map fun branch => (branch, "success")) (port "input" f) uuid clones).map
    fun c => { input, branch := c.1, file := port c.1 c.2 }

/-! ## Merging -/

structure Bin where
  files : List Token := []
  created : Time
  expected : Option Nat := none
  bytes : Nat := 0
deriving DecidableEq

abbrev Bins := PyDict String Bin

structure Emission where
  members : List Token
  file : FlowFile
deriving DecidableEq

/-- The bin a copy belongs to. -/
def Token.key (t : Token) : String :=
  if t.file.attr "fragment.identifier" = "" then "_default"
  else t.file.attr "fragment.identifier"

/-- `_ordered`: by `fragment.index`, if all have one. `parseInt` is `int(str)`. -/
def ordered (parseInt : String → Option Int) (buf : List Token) : List Token :=
  let indexed := buf.mapM fun t =>
    let raw := t.file.attr "fragment.index"
    if raw = "" then none else (parseInt raw).map fun i => (i, t)
  match indexed with
  | none => buf
  | some indexed => (indexed.mergeSort fun a b => a.1 ≤ b.1).map Prod.snd

/-- `_flush_bin`, for a bin that is taken out. -/
def Block.flush (b : Block) (parseInt : String → Option Int) (key : String) (files : List Token)
    (clone : String × Time) : Option Emission :=
  match ordered parseInt files with
  | [] => none
  | first :: rest =>
    let buf := first :: rest
    let merged := b.separator.intercalate (buf.map fun t => t.file.content)
    let result := { first.file.clone clone.1 clone.2 with content := merged }
    some
      { members := buf
        file := ((result.setAttribute "merge.count" (toString buf.length)).setAttribute
          "merge.correlation" key).setAttribute "fileSize" (toString merged.length) }

/-- `_expire_stale_bins`. -/
def Block.expire (b : Block) (bins : Bins) (now : Time) : Bins :=
  if b.maxBinAge ≤ 0 then bins else bins.filter fun p => now - p.2.created ≤ b.maxBinAge

/-- `MergeContentTask.execute` as the join configures it. -/
def Block.execute (b : Block) (parseInt : String → Option Int) (bins : Bins) (t : Token)
    (now : Time) (clone : String × Time) : Bins × Except String (Option Emission) :=
  let bins := b.expire bins now
  let bin := (bins.get? t.key).getD { created := now }
  let expected := b.branches.length
  if 0 < b.maxBinFlowfiles ∧ b.maxBinFlowfiles < expected then
    (bins.set t.key bin,
      .error s!"Expected merge count {expected} exceeds max_bin_flowfiles {b.maxBinFlowfiles}")
  else
    let previous := bin.expected.getD expected
    let bin := { bin with expected := some previous }
    if previous ≠ expected then
      (bins.set t.key bin,
        .error s!"Inconsistent expected merge count for bin '{t.key}': {previous} != {expected}")
    else
      let count := bin.files.length + 1
      let bytes := bin.bytes + t.file.size
      if 0 < b.maxBinFlowfiles ∧ b.maxBinFlowfiles < count then
        (bins.set t.key bin,
          .error s!"Merge bin '{t.key}' exceeds max_bin_flowfiles {b.maxBinFlowfiles}")
      else if 0 < b.maxBinBytes ∧ b.maxBinBytes < bytes then
        (bins.set t.key bin,
          .error s!"Merge bin '{t.key}' exceeds max_bin_bytes {b.maxBinBytes}")
      else
        let bin := { bin with files := bin.files ++ [t], bytes }
        if expected ≤ bin.files.length then
          (bins.erase t.key, .ok (b.flush parseInt t.key bin.files clone))
        else (bins.set t.key bin, .ok none)

/-! ## Runs -/

structure State where
  /-- How many FlowFiles entered the parallel block. -/
  inputs : Nat := 0
  /-- The copies on the branches. -/
  travelling : List Token := []
  bins : Bins := []
  emitted : List Emission := []

inductive Act where
  | enter (f : FlowFile) (uuid : String) (clones : Nat → String × Time)
  /-- A task on the branch leaves the copy as `f`. -/
  | work (k : Nat) (f : FlowFile)
  | arrive (k : Nat) (now : Time) (clone : String × Time)

/-- The copy passes the input port of the join. -/
def Token.arrived (t : Token) : Token := { t with file := port t.branch t.file }

def step (b : Block) (parseInt : String → Option Int) (s : State) : Act → Option State
  | .enter f uuid clones =>
    some { s with
      inputs := s.inputs + 1
      travelling := s.travelling ++ b.enter s.inputs f uuid clones }
  | .work k f => s.travelling[k]?.map fun t =>
    { s with travelling := s.travelling.set k { t with file := f } }
  | .arrive k now clone => s.travelling[k]?.map fun t =>
    let (bins, answer) := b.execute parseInt s.bins t.arrived now clone
    { s with
      travelling := s.travelling.eraseIdx k
      bins
      emitted := match answer with
        | .ok (some e) => s.emitted ++ [e]
        | _ => s.emitted }

/-- No bin is too old and no limit of the join is reached. -/
def WithinLimits (b : Block) (s : State) : Act → Prop
  | .arrive k now _ => ∀ t ∈ s.travelling[k]?,
      (0 < b.maxBinAge → ∀ p ∈ s.bins, now - p.2.created ≤ b.maxBinAge) ∧
      (0 < b.maxBinFlowfiles → b.branches.length ≤ b.maxBinFlowfiles) ∧
      (0 < b.maxBinBytes →
        ((s.bins.get? t.key).elim 0 Bin.bytes) + t.file.size ≤ b.maxBinBytes)
  | _ => True

/-- The copies that wait in the join. -/
def State.waiting (s : State) : List Token := s.bins.flatMap fun p => p.2.files

/-- A copy that arrives has the identifier of the waiting copies of its own input, and of these
only. -/
def TellsApart (s : State) : Act → Prop
  | .arrive k _ _ => ∀ t ∈ s.travelling[k]?, ∀ d ∈ s.waiting, d.key = t.key ↔ d.input = t.input
  | _ => True

def Token.origin (t : Token) : Nat × String := (t.input, t.branch)

/-- The join emits one FlowFile for each input, made of the copies of this input. -/
def Joined (b : Block) (s : State) : Prop :=
  ∃ inputs : List Nat, inputs.Perm (List.range s.inputs) ∧
    List.Forall₂ (fun i e => (e.members.map Token.origin).Perm (b.branches.map fun br => (i, br)) ∧
      e.file.content = b.separator.intercalate (e.members.map fun t => t.file.content))
      inputs s.emitted

end PawFlow.ParallelJoin
