import PawFlow.Segments.Log

/-!
# What the calls do

Most of a log's state is bookkeeping: the cache flags decide *when* the index file is written,
never what a call reads next. `Effect` says what a call does to the rest: the index the next call
sees, the files, whether the index still counts as verified, and what `index.json` may hold
afterwards. There is one effect lemma per operation, and the later modules use only these.
-/

namespace PawFlow.Segments

open PawFlow.Lib

namespace Log

/-- `log'` follows `log` with index `index` and files `d`. Unless the call saved its index, the
index file may also be the old one, or the old index written by a flush. -/
structure Effect (saved : Prop) (log log' : Log) (index : Index) (d : Directory) : Prop where
  currentIndex : log'.currentIndex = index
  directory : log'.directory = d
  isDir : log.isDir → log'.isDir
  indexVerified : log'.indexVerified = log.indexVerified
  indexFile : log'.indexFile = .valid index ∨
    ¬ saved ∧ (log'.indexFile = log.indexFile ∨ log'.indexFile = .valid log.currentIndex)

/-- A call that leaves the index and the files as they are. -/
abbrev Reads (log log' : Log) : Prop := Effect False log log' log.currentIndex log.directory

variable {log log' log'' : Log} {cfg : Config} {now : Int} {index : Index} {d : Directory}
  {saved : Prop}

theorem Reads.refl (log : Log) : Reads log log :=
  ⟨rfl, rfl, id, rfl, .inr ⟨id, .inl rfl⟩⟩

theorem Reads.trans (h : Reads log log') (h' : Effect saved log' log'' index d) :
    Effect saved log log'' index d where
  currentIndex := h'.currentIndex
  directory := h'.directory
  isDir hdir := h'.isDir (h.isDir hdir)
  indexVerified := h'.indexVerified.trans h.indexVerified
  indexFile := by
    rcases h'.indexFile with hnew | ⟨hsaved, hold | hcurrent⟩
    · exact .inl hnew
    · refine .inr ⟨hsaved, ?_⟩
      rcases h.indexFile with hflush | ⟨-, hsame | hflush⟩
      · exact .inr (hold.trans hflush)
      · exact .inl (hold.trans hsame)
      · exact .inr (hold.trans hflush)
    · exact .inr ⟨hsaved, .inr (by rw [hcurrent, h.currentIndex])⟩

theorem Reads.trans_reads (h : Reads log log') (h' : Reads log' log'') : Reads log log'' := by
  have := h.trans h'
  rwa [h.currentIndex, h.directory] at this

theorem Effect.then_saved {index' : Index} {d' : Directory} (h : Effect saved log log' index d)
    (h' : Effect True log' log'' index' d') : Effect True log log'' index' d' where
  currentIndex := h'.currentIndex
  directory := h'.directory
  isDir hdir := h'.isDir (h.isDir hdir)
  indexVerified := h'.indexVerified.trans h.indexVerified
  indexFile := .inl (h'.indexFile.resolve_right fun hnot => hnot.1 trivial)

theorem Effect.of_ready (h : Effect saved { log with isDir := true } log' index d) :
    Effect saved log log' index d ∧ log'.isDir :=
  ⟨⟨h.currentIndex, h.directory, fun _ => h.isDir rfl, h.indexVerified, h.indexFile⟩,
    h.isDir rfl⟩

/-! ## The index cache -/

variable {file : IndexFile} {sidecars : Nat → Option Sidecar} {msgId : String} {paths : List Nat}

@[simp] theorem currentIndex_some {isDir : Bool} {d : Directory}
    {c : CacheEntry} :
    (Log.mk isDir d file sidecars (some c)).currentIndex = c.index := rfl

@[simp] theorem currentIndex_none {isDir : Bool} {d : Directory}
    :
    (Log.mk isDir d file sidecars none).currentIndex = file.load := rfl

theorem rememberIndex_verified {flushed : Bool} :
    (log.rememberIndex index flushed now).indexVerified = log.indexVerified := by
  unfold rememberIndex indexVerified
  cases log.cache <;> rfl

theorem reads_loadIndex (log : Log) (now : Int) :
    (log.loadIndex now).1 = log.currentIndex ∧ Reads log (log.loadIndex now).2 := by
  rcases log with ⟨isDir, d, file, sidecars, cache⟩
  cases cache with
  | some c => exact ⟨rfl, Reads.refl _⟩
  | none =>
    cases file <;>
      exact ⟨rfl, rfl, rfl, id, rfl, .inr ⟨id, .inl rfl⟩⟩

@[simp] theorem loadIndex_fst : (log.loadIndex now).1 = log.currentIndex :=
  (reads_loadIndex log now).1

@[simp] theorem loadIndex_currentIndex : (log.loadIndex now).2.currentIndex = log.currentIndex :=
  (reads_loadIndex log now).2.currentIndex

@[simp] theorem loadIndex_directory : (log.loadIndex now).2.directory = log.directory :=
  (reads_loadIndex log now).2.directory

theorem loadIndex_cache (log : Log) (now : Int) :
    ∃ c, (log.loadIndex now).2 = { log with cache := some c } := by
  rcases log with ⟨isDir, d, file, sidecars, cache⟩
  cases cache with
  | some c => exact ⟨c, rfl⟩
  | none => cases file <;> exact ⟨_, rfl⟩

@[simp] theorem loadIndex_isDir : (log.loadIndex now).2.isDir = log.isDir := by
  obtain ⟨c, hc⟩ := loadIndex_cache log now
  rw [hc]

theorem reads_flushDirtyIndexes (log : Log) (cfg : Config) (now : Int) :
    Reads log (log.flushDirtyIndexes cfg now) := by
  rcases log with ⟨isDir, d, file, sidecars, cache⟩
  cases cache with
  | none => exact Reads.refl _
  | some c =>
    unfold flushDirtyIndexes
    dsimp only
    split
    · exact Reads.refl _
    · exact ⟨rfl, rfl, fun _ => rfl, rfl, .inl rfl⟩

@[simp] theorem flushDirtyIndexes_currentIndex :
    (log.flushDirtyIndexes cfg now).currentIndex = log.currentIndex :=
  (reads_flushDirtyIndexes log cfg now).currentIndex

@[simp] theorem flushDirtyIndexes_directory :
    (log.flushDirtyIndexes cfg now).directory = log.directory :=
  (reads_flushDirtyIndexes log cfg now).directory

theorem effect_saveIndex (log : Log) (index : Index) (d : Directory) (now : Int) :
    Effect True log (({ log with directory := d }.rememberIndex index true now).writeIndex index)
      index d :=
  ⟨rfl, rfl, fun _ => rfl, rememberIndex_verified, .inl rfl⟩

theorem effect_rememberHot (log : Log) (cfg : Config) (index : Index) (d : Directory)
    (force : Bool) (now : Int) :
    Effect False log (({ log with directory := d }.rememberIndex index false now).maybeWriteIndexHot
      cfg index force now) index d := by
  have hverified : ({ log with directory := d }.rememberIndex index false now).indexVerified =
      log.indexVerified := rememberIndex_verified
  unfold maybeWriteIndexHot
  dsimp only
  split
  · exact ⟨rfl, rfl, id, hverified, .inr ⟨id, .inl rfl⟩⟩
  · split
    · exact ⟨rfl, rfl, fun _ => rfl, hverified, .inl rfl⟩
    · exact ⟨rfl, rfl, id, hverified, .inr ⟨id, .inl rfl⟩⟩

/-! ## Reading -/

/-- The segments a reader goes through. -/
def listedPaths (log : Log) : List Nat :=
  let existing := (log.currentIndex.segments.map Entry.file).filter log.directory.has
  if !existing.isEmpty then existing else if log.isDir then log.directory.glob else []

@[simp] theorem segmentPaths_fst : (log.segmentPaths now).1 = log.listedPaths := by
  simp [segmentPaths, listedPaths]

@[simp] theorem segmentPaths_snd : (log.segmentPaths now).2 = (log.loadIndex now).2 := rfl

/-- Files lie in the segment directory. -/
def Rooted (log : Log) : Prop := ∀ n, log.directory.has n → log.isDir

theorem listedPaths_of_reads (hroot : Rooted log) (h : Reads log log') :
    log'.listedPaths = log.listedPaths := by
  unfold listedPaths
  rw [h.currentIndex, h.directory]
  cases hdir : log.isDir with
  | true => rw [h.isDir hdir]
  | false =>
    -- without a directory there is nothing to list
    have hglob : log.directory.glob = [] := by
      refine List.eq_nil_iff_forall_not_mem.mpr fun n hn => ?_
      have := hroot n (Directory.mem_glob.mp hn)
      simp [hdir] at this
    simp [hglob]

theorem reads_iterRows (log : Log) (cfg : Config) (now : Int) :
    Reads log (log.iterRows cfg now).2 :=
  (reads_flushDirtyIndexes log cfg now).trans_reads (reads_loadIndex _ now).2

theorem readPaths_eq (d : Directory) (paths : List Nat) :
    readPaths d paths = (paths.flatMap d.rows).map Row.strip := by
  induction paths with
  | nil => rfl
  | cons n rest ih =>
    cases rest with
    | nil => simp [readPaths]
    | cons m rest =>
      rw [readPaths, ih]
      simp only [List.flatMap_cons, List.map_append]
      congr 1
      split
      · rfl
      · next h =>
        calc d.rows n = (d.rows n).map id := (List.map_id _).symm
          _ = (d.rows n).map Row.strip := List.map_congr_left fun row hrow =>
              (strip_eq_self_of_not_mentions hrow (by simpa using h)).symm

theorem iterRows_fst (hroot : Rooted log) :
    (log.iterRows cfg now).1 = (log.listedPaths.flatMap log.directory.rows).map Row.strip := by
  rw [← listedPaths_of_reads hroot (reads_flushDirtyIndexes log cfg now), ← readPaths_eq]
  simp [iterRows]

/-! ## Appending and replacing -/

/-- `append_dicts` extends the index it finds and the files. -/
theorem effect_appendDicts (log : Log) (cfg : Config) (now : Int) {rows : List Row}
    (h : rows ≠ []) :
    Effect False log (log.appendDicts cfg rows now)
        (appendRows cfg log.currentIndex log.directory (rows.map Row.strip)).1
        (appendRows cfg log.currentIndex log.directory (rows.map Row.strip)).2 ∧
      (log.appendDicts cfg rows now).isDir := by
  obtain ⟨row, rest, rfl⟩ := List.exists_cons_of_ne_nil h
  -- the index the call starts from, with the directory in place
  obtain ⟨ready, hready, force, heq⟩ : ∃ ready : Log,
      (Reads { log with isDir := true } ready) ∧ ∃ force,
      log.appendDicts cfg (row :: rest) now =
        ({ ready with directory :=
            (appendRows cfg log.currentIndex log.directory ((row :: rest).map Row.strip)).2
          }.rememberIndex
            (appendRows cfg log.currentIndex log.directory ((row :: rest).map Row.strip)).1
            false now).maybeWriteIndexHot cfg
            (appendRows cfg log.currentIndex log.directory ((row :: rest).map Row.strip)).1
            force now := by
    rcases log with ⟨isDir, d, file, sidecars, cache⟩
    cases cache with
    | some c => exact ⟨_, Reads.refl _, _, rfl⟩
    | none =>
      cases file with
      | missing =>
        cases isDir with
        | false => exact ⟨_, (reads_loadIndex _ now).2, _, rfl⟩
        | true => exact ⟨_, (reads_loadIndex _ now).2, _, rfl⟩
      | malformed => exact ⟨_, (reads_loadIndex _ now).2, _, rfl⟩
      | valid index => exact ⟨_, (reads_loadIndex _ now).2, _, rfl⟩
  rw [heq]
  exact (hready.trans (effect_rememberHot ready cfg _ _ force now)).of_ready

theorem effect_replaceDicts (log : Log) (cfg : Config) (rows : List Row) (now : Int) :
    Effect True log (log.replaceDicts cfg rows now)
        (appendRows cfg .empty (.empty log.directory.created) (rows.map Row.strip)).1
        (appendRows cfg .empty (.empty log.directory.created) (rows.map Row.strip)).2 ∧
      (log.replaceDicts cfg rows now).isDir :=
  ⟨⟨rfl, rfl, fun _ => rfl, rememberIndex_verified, .inl rfl⟩, rfl⟩

theorem effect_prewarmAppend (log : Log) (cfg : Config) (now : Int) :
    Effect False log (log.prewarmAppend cfg now)
        { log.currentIndex with
          segments := (currentSegment cfg log.currentIndex.segments 0).1 ++
            [(currentSegment cfg log.currentIndex.segments 0).2] }
        (log.directory.append (currentSegment cfg log.currentIndex.segments 0).2.file []) ∧
      (log.prewarmAppend cfg now).isDir := by
  rcases log with ⟨isDir, d, file, sidecars, cache⟩
  cases cache with
  | some c =>
    cases file with
    | missing => exact ⟨⟨rfl, rfl, fun _ => rfl, rfl, .inl rfl⟩, rfl⟩
    | malformed => exact ⟨⟨rfl, rfl, fun _ => rfl, rfl, .inr ⟨id, .inl rfl⟩⟩, rfl⟩
    | valid index => exact ⟨⟨rfl, rfl, fun _ => rfl, rfl, .inr ⟨id, .inl rfl⟩⟩, rfl⟩
  | none =>
    cases file with
    | missing => exact ⟨⟨rfl, rfl, fun _ => rfl, rfl, .inl rfl⟩, rfl⟩
    | malformed => exact ⟨⟨rfl, rfl, fun _ => rfl, rfl, .inr ⟨id, .inl rfl⟩⟩, rfl⟩
    | valid index => exact ⟨⟨rfl, rfl, fun _ => rfl, rfl, .inr ⟨id, .inl rfl⟩⟩, rfl⟩

/-! ## Rewriting one segment -/

theorem isSegmented_of_isDir (h : log.isDir) : log.isSegmented := by
  simp [isSegmented, h]

theorem effect_updateIndex (log : Log) (d : Directory) (f : Index → Index) (now : Int) :
    Effect True log ({ log with directory := d }.updateIndex f now) (f log.currentIndex) d := by
  rcases log with ⟨isDir, d', file, sidecars, cache⟩
  cases cache with
  | some c => exact ⟨rfl, rfl, fun _ => rfl, rfl, .inl rfl⟩
  | none => cases file <;> exact ⟨rfl, rfl, fun _ => rfl, rfl, .inl rfl⟩

theorem effect_replaceRowsInPath (n : Nat) (rows : List Row) (now : Int) (h : log.isDir) :
    Effect True log (log.replaceRowsInPath n rows now)
      ⟨updateEntry n (fun _ => .exact n rows) log.currentIndex.segments,
        sumRows (updateEntry n (fun _ => .exact n rows) log.currentIndex.segments)⟩
      (log.directory.create n rows) := by
  have hseg : ({ log with directory := log.directory.create n rows } : Log).isSegmented :=
    isSegmented_of_isDir h
  unfold replaceRowsInPath
  rw [if_pos hseg]
  exact effect_updateIndex log _ _ now

theorem effect_spliceLineInPath (n : Nat) (rows : List Row) (delta now : Int) (h : log.isDir) :
    Effect True log (log.spliceLineInPath n rows delta now)
      { log.currentIndex with
        segments := updateEntry n (fun e =>
          { e with
            bytes := textSize rows
            roleRows := if delta = 0 then e.roleRows else some (e.roleRows.getD 0 + delta) })
          log.currentIndex.segments }
      (log.directory.create n rows) := by
  have hseg : ({ log with directory := log.directory.create n rows } : Log).isSegmented :=
    isSegmented_of_isDir h
  unfold spliceLineInPath
  rw [if_pos hseg]
  exact effect_updateIndex log _ _ now

/-! ## Truncating -/

theorem findBoundary_none
    (h : findBoundary d msgId paths = none) :
    ∀ n ∈ paths, ∀ row ∈ d.rows n, row.hasMsgId msgId = false := by
  induction paths with
  | nil => simp
  | cons n rest ih =>
    unfold findBoundary at h
    split at h
    · exact absurd h (by simp)
    · next hrest =>
      split at h
      · exact absurd h (by simp)
      · next hany =>
        intro m hm row hrow
        rcases List.mem_cons.mp hm with rfl | hm
        · simpa using (List.any_eq_false.mp (by simpa using hany)) row hrow
        · exact ih hrest m hm row hrow

theorem findBoundary_some {before after : List Nat} {target : Nat}
    (h : findBoundary d msgId paths = some (before, target, after)) :
    paths = before ++ target :: after ∧ (∃ row ∈ d.rows target, row.hasMsgId msgId) ∧
      ∀ n ∈ after, ∀ row ∈ d.rows n, row.hasMsgId msgId = false := by
  induction paths generalizing before with
  | nil => simp [findBoundary] at h
  | cons n rest ih =>
    unfold findBoundary at h
    split at h
    · next before' target' after' hrest =>
      obtain ⟨rfl, rfl, rfl⟩ : n :: before' = before ∧ target' = target ∧ after' = after := by
        simpa using h
      obtain ⟨hpaths, hhit⟩ := ih hrest
      exact ⟨by rw [hpaths, List.cons_append], hhit⟩
    · next hrest =>
      split at h
      · next hany =>
        obtain ⟨rfl, rfl, rfl⟩ : [] = before ∧ n = target ∧ rest = after := by
          simpa using h
        exact ⟨rfl, List.any_eq_true.mp hany, findBoundary_none hrest⟩
      · exact absurd h (by simp)

def boundaryRows (d : Directory) (msgId : String) (target : Nat) : List Row :=
  (keepThrough msgId (d.rows target)).map Row.strip

/-- The files after a truncation: the boundary segment rewritten, the later ones gone. -/
def cutFiles (d : Directory) (msgId : String) (target : Nat) (after : List Nat) : Directory :=
  after.foldl Directory.unlink (d.create target (boundaryRows d msgId target))

def cutEntries (index : Index) (d : Directory) (msgId : String) (before : List Nat)
    (target : Nat) (after : List Nat) : List Entry :=
  before.map (keptEntry index (cutFiles d msgId target after)) ++
    [.exact target (boundaryRows d msgId target)]

def NoRowWith (d : Directory) (msgId : String) : Prop :=
  ∀ n, ∀ row ∈ d.rows n, row.hasMsgId msgId = false

/-- A truncation reads the log and finds nothing, or cuts it at the last segment, in listing
order, that has the id. -/
theorem truncateAfterMsgId_cases (log : Log) (cfg : Config) (msgId : String) (now : Int)
    (hroot : Rooted log) :
    ((log.truncateAfterMsgId cfg msgId now).1 = .notFound ∧
        Reads log (log.truncateAfterMsgId cfg msgId now).2 ∧
        (strip msgId = "" ∨ NoRowWith log.directory (strip msgId))) ∨
      ∃ before target after, strip msgId ≠ "" ∧ log.isDir ∧
        log.directory.glob = before ++ target :: after ∧
        (∃ row ∈ log.directory.rows target, row.hasMsgId (strip msgId)) ∧
        (∀ n ∈ after, ∀ row ∈ log.directory.rows n, row.hasMsgId (strip msgId) = false) ∧
        (log.truncateAfterMsgId cfg msgId now).1 =
          ⟨true, sumRows (cutEntries log.currentIndex log.directory (strip msgId) before target after),
            (boundaryRows log.directory (strip msgId) target).getLast?⟩ ∧
        Effect True log (log.truncateAfterMsgId cfg msgId now).2
          ⟨cutEntries log.currentIndex log.directory (strip msgId) before target after,
            sumRows (cutEntries log.currentIndex log.directory (strip msgId) before target after)⟩
          (cutFiles log.directory (strip msgId) target after) := by
  have hglob : (∀ n ∈ log.directory.glob, ∀ row ∈ log.directory.rows n,
      row.hasMsgId (strip msgId) = false) → NoRowWith log.directory (strip msgId) :=
    fun h n row hrow => h n (Directory.mem_glob.mpr (Directory.has_of_mem_rows hrow)) row hrow
  have hpaths : (if (log.flushDirtyIndexes cfg now).isDir then log.directory.glob else []) =
      log.directory.glob := by
    split
    · rfl
    · next hdir =>
      refine (List.eq_nil_iff_forall_not_mem.mpr fun n hn => hdir ?_).symm
      exact (reads_flushDirtyIndexes log cfg now).isDir (hroot n (Directory.mem_glob.mp hn))
  have hload := (reads_flushDirtyIndexes log cfg now).trans_reads (reads_loadIndex _ now).2
  unfold truncateAfterMsgId
  simp only [flushDirtyIndexes_directory, hpaths, loadIndex_directory, loadIndex_fst,
    flushDirtyIndexes_currentIndex]
  split
  · next hearly =>
    refine .inl ⟨rfl, Reads.refl _, ?_⟩
    simp only [isSegmented, Bool.or_eq_true, decide_eq_true_eq, Bool.not_eq_true',
      Bool.or_eq_false_iff] at hearly
    refine hearly.imp id fun hdir n row hrow => ?_
    have := hroot n (Directory.has_of_mem_rows hrow)
    simp [hdir.2] at this
  · next hearly =>
    have hid : strip msgId ≠ "" := by
      intro hid
      simp [hid] at hearly
    split
    · next hempty =>
      refine .inl ⟨rfl, reads_flushDirtyIndexes log cfg now, .inr (hglob ?_)⟩
      rw [List.isEmpty_iff.mp hempty]
      simp
    · split
      · next hnone => exact .inl ⟨rfl, hload, .inr (hglob (findBoundary_none hnone))⟩
      · next before target after hsome =>
        obtain ⟨hsplit, hhit, hlater⟩ := findBoundary_some hsome
        have hdir : log.isDir :=
          hroot target (Directory.mem_glob.mp (by simp [hsplit]))
        have hreplace := effect_replaceRowsInPath target
          (boundaryRows log.directory (strip msgId) target) now (hload.isDir hdir)
        have hfiles : after.foldl Directory.unlink
            (((log.flushDirtyIndexes cfg now).loadIndex now).2.replaceRowsInPath target
              (boundaryRows log.directory (strip msgId) target) now).directory =
            cutFiles log.directory (strip msgId) target after := by
          rw [hreplace.directory, hload.directory, cutFiles]
        refine .inr ⟨before, target, after, hid, hdir, hsplit, hhit, hlater, ?_, ?_⟩
        · show Truncation.mk _ _ _ = _
          rw [show (keepThrough (strip msgId) (log.directory.rows target)).map Row.strip =
            boundaryRows log.directory (strip msgId) target from rfl, hfiles]
          rfl
        · refine (hload.then_saved hreplace).then_saved ?_
          show Effect True _ (Log.writeIndex (Log.rememberIndex _ _ _ _) _) _ _
          rw [show (keepThrough (strip msgId) (log.directory.rows target)).map Row.strip =
            boundaryRows log.directory (strip msgId) target from rfl, hfiles]
          exact effect_saveIndex _ _ _ now

end Log

end PawFlow.Segments
