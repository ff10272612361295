import PawFlow.Lib.Refinement
import PawFlow.Segments.Tracking

/-!
# The segmented log refines a list

The abstract log is the list of its (stripped) rows. `Call` is what one process does with a log,
cache evictions included; `perform` runs a call on the model of the code, `specify` on the list.
The two agree along every list of calls in which the cache is dropped only while `index.json` is
up to date (`CallOk`).
-/

namespace PawFlow.Segments

open PawFlow.Lib

/-! ## Deleting -/

namespace Row

/-- The row's `msg_id` or `trace_id` is one of the ids. -/
def namedIn (targets : List String) (row : Row) : Bool :=
  targets.any fun t =>
    (row.get? "msg_id").any (Json.isStr t) || (row.get? "trace_id").any (Json.isStr t)

variable {targets : List String}

theorem fieldIn_eq {key : String} {row : Row} {hit : Bool}
    (h : row.fieldIn targets key = some hit) :
    hit = targets.any fun t => (row.get? key).any (Json.isStr t) := by
  unfold fieldIn at h
  cases hget : row.get? key with
  | none =>
    have : hit = false := by simpa [hget] using h.symm
    simp [this]
  | some v =>
    simp only [hget] at h
    split at h
    · simpa using h.symm
    · exact absurd h (by simp)

theorem matchesIds_eq {row : Row} {hit : Bool}
    (h : row.matchesIds targets = some hit) : hit = row.namedIn targets := by
  have hor : row.namedIn targets =
      ((targets.any fun t => (row.get? "msg_id").any (Json.isStr t)) ||
        targets.any fun t => (row.get? "trace_id").any (Json.isStr t)) := by
    rw [Bool.eq_iff_iff, Bool.or_eq_true]
    simp only [namedIn, List.any_eq_true, Bool.or_eq_true]
    constructor
    · rintro ⟨t, ht, hmsg | htrace⟩
      · exact .inl ⟨t, ht, hmsg⟩
      · exact .inr ⟨t, ht, htrace⟩
    · rintro (⟨t, ht, hmsg⟩ | ⟨t, ht, htrace⟩)
      · exact ⟨t, ht, .inl hmsg⟩
      · exact ⟨t, ht, .inr htrace⟩
  unfold matchesIds at h
  split at h
  · next hmsg => rw [hor, ← fieldIn_eq hmsg, fieldIn_eq h, Bool.false_or]
  · next r hmsg =>
    obtain rfl : hit = true := by
      cases hit with
      | true => rfl
      | false => exact absurd h hmsg
    rw [hor, ← fieldIn_eq h, Bool.true_or]

end Row

/-- The rows that none of the ids names. -/
def unnamed (targets : List String) (rows : List Row) : List Row :=
  rows.filter fun row => !row.namedIn targets

theorem length_unnamed (targets : List String) (rows : List Row) :
    (unnamed targets rows).length + rows.countP (Row.namedIn targets) = rows.length := by
  rw [unnamed, ← List.countP_eq_length_filter, Nat.add_comm]
  have hsum := List.length_eq_countP_add_countP (Row.namedIn targets) (l := rows)
  rw [hsum]
  congr 1
  exact List.countP_congr fun row _ => by simp

theorem unnamed_eq_self {targets : List String} {rows : List Row}
    (h : (unnamed targets rows).length = rows.length) : unnamed targets rows = rows :=
  List.filter_eq_self.mpr (List.length_filter_eq_length_iff.mp h)

namespace Log

theorem keepRows_eq {targets : List String} {rows : List Row}
    (h : ∀ row ∈ rows, (row.matchesIds targets).isSome) :
    keepRows targets rows = some (unnamed targets rows) := by
  induction rows with
  | nil => rfl
  | cons row rest ih =>
    obtain ⟨hit, hhit⟩ := Option.isSome_iff_exists.mp (h row (by simp))
    rw [keepRows, hhit, ih fun r hr => h r (by simp [hr])]
    have := Row.matchesIds_eq hhit
    subst this
    cases hnamed : row.namedIn targets <;> simp [unnamed, hnamed]

theorem replaceRowsInPath_tracks {log : Log} {n : Nat} (rows : List Row) (now : Int)
    (h : Tracks log.currentIndex log.directory) (hdir : log.isDir)
    (hn : n < log.currentIndex.segments.length) :
    Tracks (log.replaceRowsInPath n rows now).currentIndex
        (log.replaceRowsInPath n rows now).directory ∧
      (log.replaceRowsInPath n rows now).isDir ∧
      (log.replaceRowsInPath n rows now).directory.rows =
        Function.update log.directory.rows n rows := by
  have heffect := effect_replaceRowsInPath n rows now hdir
  rw [heffect.currentIndex, heffect.directory]
  exact ⟨h.replaceRows counting_rows hn rows, heffect.isDir hdir, Directory.rows_create rows⟩

/-- What the loop of `delete_by_msg_ids` does to a log with an index that is up to date. -/
theorem deletePaths_effect (targets : List String) (now : Int) (paths : List Nat) (log : Log)
    (deleted : Nat) (h : Tracks log.currentIndex log.directory) (hdir : log.isDir)
    (hnodup : paths.Nodup)
    (hok : ∀ n ∈ paths, ∀ row ∈ log.directory.rows n, (row.matchesIds targets).isSome) :
    (deletePaths targets now paths log deleted).1 =
        some (deleted + (paths.flatMap log.directory.rows).countP (Row.namedIn targets)) ∧
      Tracks (deletePaths targets now paths log deleted).2.currentIndex
        (deletePaths targets now paths log deleted).2.directory ∧
      (deletePaths targets now paths log deleted).2.isDir ∧
      ∀ n, (deletePaths targets now paths log deleted).2.directory.rows n =
        if n ∈ paths then unnamed targets (log.directory.rows n) else log.directory.rows n := by
  induction paths generalizing log deleted with
  | nil => exact ⟨rfl, h, hdir, fun n => by simp [deletePaths]⟩
  | cons n rest ih =>
    obtain ⟨hnot, hnodup⟩ := List.nodup_cons.mp hnodup
    have hlength := length_unnamed targets (log.directory.rows n)
    unfold deletePaths
    simp only [keepRows_eq (hok n (by simp))]
    split
    · next hsame =>
      obtain ⟨hcount, htracks, hdir', hrows⟩ := ih log deleted h hdir hnodup
        fun m hm => hok m (by simp [hm])
      refine ⟨?_, htracks, hdir', fun m => ?_⟩
      · rw [hcount, List.flatMap_cons, List.countP_append]
        congr 1
        omega
      · rw [hrows]
        by_cases hm : m = n
        · subst hm
          simp [hnot, unnamed_eq_self hsame]
        · simp [hm]
    · next hchanged =>
      -- a segment that loses rows has some, so the index lists it
      have hn : n < log.currentIndex.segments.length := by
        by_contra hge
        simp [h.rows_eq_nil (not_lt.mp hge), unnamed] at hchanged
      obtain ⟨hnext, hdirNext, hrowsNext⟩ := replaceRowsInPath_tracks
        (unnamed targets (log.directory.rows n)) now h hdir hn
      have hother : ∀ m ∈ rest, (log.replaceRowsInPath n
          (unnamed targets (log.directory.rows n)) now).directory.rows m =
            log.directory.rows m := by
        intro m hm
        have hne : m ≠ n := fun heq => hnot (heq ▸ hm)
        rw [hrowsNext, Function.update_of_ne hne]
      obtain ⟨hcount, htracks, hdir', hrows⟩ := ih _ (deleted +
          ((log.directory.rows n).length - (unnamed targets (log.directory.rows n)).length))
        hnext hdirNext hnodup fun m hm => by
          rw [hother m hm]
          exact hok m (by simp [hm])
      refine ⟨?_, htracks, hdir', fun m => ?_⟩
      · rw [hcount, List.flatMap_cons, List.countP_append, List.flatMap_congr hother]
        congr 1
        omega
      · rw [hrows, hrowsNext]
        by_cases hm : m = n
        · subst hm
          simp [hnot]
        · simp [hm]

theorem deleteByMsgIds_effect {log : Log} (msgIds : List String) (now : Int)
    (h : Tracks log.currentIndex log.directory) (hroot : Rooted log)
    (hok : ∀ row ∈ log.directory.content,
      (row.matchesIds (msgIds.filter (· ≠ ""))).isSome) :
    (log.deleteByMsgIds msgIds now).1 =
        some (log.directory.content.countP (Row.namedIn (msgIds.filter (· ≠ "")))) ∧
      Tracks (log.deleteByMsgIds msgIds now).2.currentIndex
        (log.deleteByMsgIds msgIds now).2.directory ∧
      Rooted (log.deleteByMsgIds msgIds now).2 ∧
      (log.deleteByMsgIds msgIds now).2.directory.content =
        unnamed (msgIds.filter (· ≠ "")) log.directory.content := by
  generalize htargets : msgIds.filter (· ≠ "") = targets at hok
  have hreads := (reads_loadIndex log now).2
  have htracks : Tracks (log.loadIndex now).2.currentIndex (log.loadIndex now).2.directory := by
    simpa using h
  obtain ⟨hunlisted, hlisted⟩ := listedPaths_of_follows h
  unfold deleteByMsgIds
  simp only [htargets, segmentPaths_fst, segmentPaths_snd]
  by_cases hdir : log.isDir
  · split
    · next hearly =>
      -- no id is given
      obtain rfl : targets = [] := by simpa [isSegmented_of_isDir hdir] using hearly
      have hnone : ∀ row, Row.namedIn [] row = false := fun _ => rfl
      refine ⟨?_, h, hroot, by simp [unnamed, hnone]⟩
      rw [List.countP_eq_zero.mpr fun row _ => by simp [hnone row]]
    · have hmem : ∀ n, ∀ row ∈ log.directory.rows n, row ∈ log.directory.content := by
        intro n row hrow
        exact Chunks.mem_join.mpr
          ⟨n, Directory.lt_span_of_has (Directory.has_of_mem_rows hrow), hrow⟩
      obtain ⟨hcount, htracks', hdir', hrows⟩ := deletePaths_effect targets now
        log.listedPaths (log.loadIndex now).2 0 htracks (hreads.isDir hdir)
        (listedPaths_nodup h) (by
          intro n _ row hrow
          exact hok row (hmem n row (by simpa using hrow)))
      refine ⟨?_, htracks', fun _ _ => hdir', ?_⟩
      · simpa [hlisted] using hcount
      · have hall : ∀ n, (deletePaths targets now log.listedPaths (log.loadIndex now).2
            0).2.directory.rows n = unnamed targets (log.directory.rows n) := by
          intro n
          rw [hrows, loadIndex_directory]
          split
          · rfl
          · next hn => simp [hunlisted n hn, unnamed]
        have hnil : ∀ n, log.currentIndex.segments.length ≤ n →
            unnamed targets (log.directory.rows n) = [] := by
          intro n hn
          simp [h.rows_eq_nil hn, unnamed]
        rw [Directory.content_eq_join fun n hn => (hall n).trans (hnil n hn), h.content_eq,
          unnamed, Chunks.filter_join]
        exact Chunks.join_congr fun n _ => hall n
  · -- without a directory there are no rows
    have hhas : ∀ n, log.directory.has n = false := by
      intro n
      by_contra hn
      exact hdir (hroot n (by simpa using hn))
    have hcontent : log.directory.content = [] := Chunks.join_eq_nil fun n _ => by
      simp [Directory.rows, Option.not_isSome_iff_eq_none.mp (by simpa [Directory.has] using hhas n)]
    have hpaths : log.listedPaths = [] := by simp [listedPaths, hhas, hdir]
    rw [hcontent, hpaths]
    split
    · exact ⟨rfl, h, hroot, hcontent⟩
    · refine ⟨rfl, htracks, fun n hn => ?_, ?_⟩
      · simp [deletePaths, hhas] at hn
      · simpa [deletePaths, unnamed] using hcontent

end Log

/-! ## Calls -/

inductive Call
  | appendDicts (rows : List Row)
  | replaceDicts (rows : List Row)
  | rewrite (transform : Row → Option Row)
  | deleteByMsgIds (msgIds : List String)
  | truncateAfterMsgId (msgId : String)
  | prewarmAppend
  | iterRows
  /-- The cache entry is dropped, by `invalidate_index_cache` or to make room. -/
  | evict

inductive Reply
  | done
  | rows (rows : List Row)
  | truncated (result : Log.Truncation)
  | deleted (count : Option Nat)
  | changed (count : Nat)

/-- A call at a time, on the code. -/
def perform (cfg : Config) (log : Log) (call : Call × Int) : Reply × Log :=
  match call.1 with
  | .appendDicts rows => (.done, log.appendDicts cfg rows call.2)
  | .replaceDicts rows => (.done, log.replaceDicts cfg rows call.2)
  | .rewrite transform =>
    let r := log.rewrite cfg transform call.2
    (.changed r.1, r.2)
  | .deleteByMsgIds msgIds =>
    let r := log.deleteByMsgIds msgIds call.2
    (.deleted r.1, r.2)
  | .truncateAfterMsgId msgId =>
    let r := log.truncateAfterMsgId cfg msgId call.2
    (.truncated r.1, r.2)
  | .prewarmAppend => (.done, log.prewarmAppend cfg call.2)
  | .iterRows =>
    let r := log.iterRows cfg call.2
    (.rows r.1, r.2)
  | .evict => (.done, log.evict)

/-- The list operation of `rewrite`: map and filter, except that a list whose rows all come back
equal stays as it is. -/
def rewriteRows (transform : Row → Option Row) (rows : List Row) : List Row :=
  if rows.countP (Row.changedBy transform) = 0 then rows
  else (rows.filterMap transform).map Row.strip

/-- The same call on the list of rows. The id of a truncation is taken without surrounding blanks,
empty ids are no ids. -/
def specify (rows : List Row) (call : Call × Int) : Reply × List Row :=
  match call.1 with
  | .appendDicts added => (.done, rows ++ added.map Row.strip)
  | .replaceDicts added => (.done, added.map Row.strip)
  | .rewrite transform =>
    (.changed (rows.countP (Row.changedBy transform)), rewriteRows transform rows)
  | .deleteByMsgIds msgIds =>
    let targets := msgIds.filter (· ≠ "")
    (.deleted (some (rows.countP (Row.namedIn targets))), unnamed targets rows)
  | .truncateAfterMsgId msgId =>
    let kept := Log.keepThrough (strip msgId) rows
    if strip msgId = "" || kept.isEmpty then (.truncated .notFound, rows)
    else (.truncated ⟨true, kept.length, kept.getLast?⟩, kept)
  | .prewarmAppend => (.done, rows)
  | .iterRows => (.rows rows, rows)
  | .evict => (.done, rows)

/-- When a call does what its list operation does: the cache is dropped only while `index.json` is
up to date, segments are cut only while their names sort like their numbers, and no row makes
`delete_by_msg_ids` raise. -/
def CallOk (log : Log) (call : Call × Int) : Prop :=
  match call.1 with
  | .evict => Tracks log.indexFile.load log.directory
  | .truncateAfterMsgId _ => ∀ n < log.directory.span, log.directory.has n → n < 10 ^ 6
  | .deleteByMsgIds msgIds =>
    ∀ row ∈ log.directory.content, (row.matchesIds (msgIds.filter (· ≠ ""))).isSome
  | _ => True

/-- The log holds the rows, and the index it will use is up to date. -/
structure Models (log : Log) (rows : List Row) : Prop where
  tracks : Tracks log.currentIndex log.directory
  rooted : log.Rooted
  content : log.directory.content = rows
  clean : ∀ row ∈ rows, row.strip = row

namespace Models

variable {log log' : Log} {cfg : Config} {rows : List Row} {now : Int}

theorem initial : Models .initial [] where
  tracks := .empty 0
  rooted := by simp [Log.Rooted, Log.initial]
  content := rfl
  clean := by simp

theorem reads (h : Models log rows) (hreads : Log.Reads log log') : Models log' rows where
  tracks := by
    rw [hreads.currentIndex, hreads.directory]
    exact h.tracks
  rooted n hn := hreads.isDir (h.rooted n (by rwa [hreads.directory] at hn))
  content := by rw [hreads.directory, h.content]
  clean := h.clean

theorem iterRows (h : Models log rows) : (log.iterRows cfg now).1 = rows := by
  rw [Log.iterRows_fst h.rooted, (Log.listedPaths_of_follows h.tracks).2, h.content]
  exact (List.map_congr_left h.clean).trans (List.map_id rows)

theorem clean_map_strip (added : List Row) :
    ∀ row ∈ added.map Row.strip, row.strip = row := by
  intro row hrow
  obtain ⟨row, -, rfl⟩ := List.mem_map.mp hrow
  exact row.strip_strip

theorem appendDicts (h : Models log rows) (added : List Row) :
    Models (log.appendDicts cfg added now) (rows ++ added.map Row.strip) := by
  by_cases hadded : added = []
  · subst hadded
    simpa [Log.appendDicts] using h
  · obtain ⟨heffect, hdir⟩ := Log.effect_appendDicts log cfg now hadded
    obtain ⟨htracks, hcontent⟩ := h.tracks.appendRows counting_rows cfg (added.map Row.strip)
    refine ⟨?_, fun _ _ => hdir, ?_, ?_⟩
    · rw [heffect.currentIndex, heffect.directory]
      exact htracks
    · rw [heffect.directory, hcontent, h.content]
    · exact List.forall_mem_append.mpr ⟨h.clean, clean_map_strip added⟩

theorem replaceDicts (added : List Row) :
    Models (log.replaceDicts cfg added now) (added.map Row.strip) := by
  obtain ⟨heffect, hdir⟩ := Log.effect_replaceDicts log cfg added now
  obtain ⟨htracks, hcontent⟩ :=
    (Follows.empty log.directory.created).appendRows counting_rows cfg (added.map Row.strip)
  refine ⟨?_, fun _ _ => hdir, ?_, clean_map_strip added⟩
  · rw [heffect.currentIndex, heffect.directory]
    exact htracks
  · rw [heffect.directory, hcontent]
    rfl

theorem rewrite (h : Models log rows) (cfg : Config) (transform : Row → Option Row) (now : Int) :
    (log.rewrite cfg transform now).1 = rows.countP (Row.changedBy transform) ∧
      Models (log.rewrite cfg transform now).2 (rewriteRows transform rows) := by
  have hread := h.reads (Log.reads_iterRows log cfg now)
  unfold Log.rewrite rewriteRows
  simp only [h.iterRows]
  refine ⟨trivial, ?_⟩
  split
  · exact hread
  · exact replaceDicts _

theorem deleteByMsgIds (h : Models log rows) (msgIds : List String) (now : Int)
    (hok : ∀ row ∈ log.directory.content, (row.matchesIds (msgIds.filter (· ≠ ""))).isSome) :
    (log.deleteByMsgIds msgIds now).1 =
        some (rows.countP (Row.namedIn (msgIds.filter (· ≠ "")))) ∧
      Models (log.deleteByMsgIds msgIds now).2 (unnamed (msgIds.filter (· ≠ "")) rows) := by
  obtain ⟨hcount, htracks, hroot, hcontent⟩ :=
    Log.deleteByMsgIds_effect msgIds now h.tracks h.rooted hok
  rw [h.content] at hcount hcontent
  exact ⟨hcount, htracks, hroot, hcontent,
    fun row hrow => h.clean row (List.mem_filter.mp hrow).1⟩

/-- The rows a truncation keeps, when the names sort like the numbers. -/
theorem truncateAfterMsgId (h : Models log rows) (msgId : String)
    (hnames : ∀ n < log.directory.span, log.directory.has n → n < 10 ^ 6) :
    (.truncated (log.truncateAfterMsgId cfg msgId now).1 : Reply) =
        (specify rows (.truncateAfterMsgId msgId, now)).1 ∧
      Models (log.truncateAfterMsgId cfg msgId now).2
        (specify rows (.truncateAfterMsgId msgId, now)).2 := by
  have hnames : ∀ n, log.directory.has n → n < 10 ^ 6 :=
    fun n hn => hnames n (Directory.lt_span_of_has hn) hn
  unfold specify
  dsimp only
  rcases Log.truncateAfterMsgId_cases log cfg msgId now h.rooted with
    ⟨hresult, hreads, hnone⟩ | ⟨before, target, after, hid, hdir, hsplit, hhit, hnoHit, hresult,
      heffect⟩
  · have hempty : (strip msgId = "" || (Log.keepThrough (strip msgId) rows).isEmpty) = true := by
      rcases hnone with hid | hnone
      · simp [hid]
      · have : Log.keepThrough (strip msgId) rows = [] := by
          rw [← h.content]
          exact Chunks.rdropWhile_join_eq_nil fun n _ row hrow => by simp [hnone n row hrow]
        simp [this]
    rw [if_pos hempty, hresult]
    exact ⟨rfl, h.reads hreads⟩
  · obtain ⟨rfl, hboundary⟩ := h.tracks.boundary hnames hsplit hhit hnoHit
    have hclean : ∀ row ∈ log.directory.content, row.strip = row := h.content ▸ h.clean
    have htracks := hboundary.follows h.tracks counting_rows
      (sumRows (Log.cutEntries log.currentIndex log.directory (strip msgId) (List.range target)
        target after))
    have hcontent := hboundary.content h.tracks hclean
    have hkept : Log.keepThrough (strip msgId) rows ≠ [] := by
      rw [← h.content, hboundary.keepThrough_content h.tracks]
      simp [hboundary.keepThrough_ne_nil]
    have hlast : (Log.boundaryRows log.directory (strip msgId) target).getLast? =
        (Log.keepThrough (strip msgId) rows).getLast? := by
      rw [← h.content, hboundary.keepThrough_content h.tracks,
        List.getLast?_append_of_ne_nil _ hboundary.keepThrough_ne_nil,
        hboundary.boundaryRows_eq h.tracks hclean]
    have hsum := htracks.sumRows_eq
    rw [hcontent, h.content] at hsum
    rw [if_neg (by simp [hid, hkept]), hresult, hlast, hsum]
    refine ⟨rfl, ?_, fun _ _ => heffect.isDir hdir, ?_, fun row hrow => ?_⟩
    · rw [heffect.currentIndex, heffect.directory]
      exact htracks
    · rw [heffect.directory, hcontent, h.content]
    · exact h.clean row ((List.rdropWhile_prefix _ _).subset hrow)

theorem prewarmAppend (h : Models log rows) : Models (log.prewarmAppend cfg now) rows := by
  obtain ⟨heffect, hdir⟩ := Log.effect_prewarmAppend log cfg now
  obtain ⟨htracks, hcontent⟩ := (h.tracks.current counting_rows cfg 0).grow []
    log.currentIndex.totalRows rfl (by
      rw [List.append_nil]
      exact (h.tracks.current counting_rows cfg 0).count)
  refine ⟨?_, fun _ _ => hdir, ?_, h.clean⟩
  · rw [heffect.currentIndex, heffect.directory]
    exact htracks
  · rw [heffect.directory, hcontent, h.content, List.append_nil]

theorem evict (h : Models log rows) (hfile : Tracks log.indexFile.load log.directory) :
    Models log.evict rows :=
  ⟨hfile, h.rooted, h.content, h.clean⟩

theorem perform (h : Models log rows) {call : Call × Int} (hok : CallOk log call) :
    (Segments.perform cfg log call).1 = (specify rows call).1 ∧
      Models (Segments.perform cfg log call).2 (specify rows call).2 := by
  obtain ⟨call, now⟩ := call
  cases call with
  | appendDicts added => exact ⟨rfl, h.appendDicts added⟩
  | replaceDicts added => exact ⟨rfl, replaceDicts added⟩
  | rewrite transform =>
    obtain ⟨hcount, hmodels⟩ := h.rewrite cfg transform now
    refine ⟨?_, hmodels⟩
    show Reply.changed _ = _
    rw [hcount]
    rfl
  | deleteByMsgIds msgIds =>
    obtain ⟨hcount, hmodels⟩ := h.deleteByMsgIds msgIds now hok
    refine ⟨?_, hmodels⟩
    show Reply.deleted _ = _
    rw [hcount]
    rfl
  | truncateAfterMsgId msgId => exact h.truncateAfterMsgId msgId hok
  | prewarmAppend => exact ⟨rfl, h.prewarmAppend⟩
  | iterRows =>
    refine ⟨?_, h.reads (Log.reads_iterRows log cfg now)⟩
    show Reply.rows _ = _
    rw [h.iterRows]
    rfl
  | evict => exact ⟨rfl, h.evict hok⟩

end Models

/-- **The log refines a list.** Along every list of calls that all meet `CallOk`, the code answers
as the list does, and `iter_rows` yields exactly the rows of the list. -/
theorem refines_list (cfg : Config) (calls : List (Call × Int))
    (hok : GuardedCalls (perform cfg) CallOk .initial calls) :
    (runCalls (perform cfg) .initial calls).1 = (runCalls specify [] calls).1 ∧
      ∀ now, ((runCalls (perform cfg) .initial calls).2.iterRows cfg now).1 =
        (runCalls specify [] calls).2 := by
  have hsim : ∀ log rows call, Models log rows → CallOk log call →
      (perform cfg log call).1 = (specify rows call).1 ∧
        Models (perform cfg log call).2 (specify rows call).2 :=
    fun _ _ _ h hcall => h.perform hcall
  obtain ⟨hreplies, hmodels⟩ := refines_of_simulation Models hsim .initial hok
  exact ⟨hreplies, fun now => hmodels.iterRows⟩

instance : ∀ (log : Log) (call : Call × Int), Decidable (CallOk log call)
  | log, (.evict, _) => inferInstanceAs (Decidable (Tracks log.indexFile.load log.directory))
  | log, (.truncateAfterMsgId _, _) => inferInstanceAs
      (Decidable (∀ n < log.directory.span, log.directory.has n → n < 10 ^ 6))
  | log, (.deleteByMsgIds msgIds, _) => inferInstanceAs (Decidable
      (∀ row ∈ log.directory.content, (row.matchesIds (msgIds.filter (· ≠ ""))).isSome))
  | _, (.appendDicts _, _) => inferInstanceAs (Decidable True)
  | _, (.replaceDicts _, _) => inferInstanceAs (Decidable True)
  | _, (.rewrite _, _) => inferInstanceAs (Decidable True)
  | _, (.prewarmAppend, _) => inferInstanceAs (Decidable True)
  | _, (.iterRows, _) => inferInstanceAs (Decidable True)

/-- A history that touches every kind of call and drops the cache while the index is current. -/
def mixedCalls : List (Call × Int) :=
  [(.appendDicts [message "m0", message "m1"], 0), (.prewarmAppend, 1), (.evict, 2),
    (.appendDicts [message "m2"], 3), (.deleteByMsgIds ["m1"], 4),
    (.truncateAfterMsgId " m2 ", 5), (.iterRows, 6)]

theorem refines_list_mixed : GuardedCalls (perform oneRowConfig) CallOk .initial mixedCalls ∧
    ∀ now, ((runCalls (perform oneRowConfig) .initial mixedCalls).2.iterRows oneRowConfig now).1 =
      [message "m0", message "m2"] := by
  have hok : GuardedCalls (perform oneRowConfig) CallOk .initial mixedCalls := by decide
  exact ⟨hok, (refines_list oneRowConfig mixedCalls hok).2⟩

def evictAfterPrewarm : List (Call × Int) :=
  [(.appendDicts [message "m0"], 0), (.prewarmAppend, 1), (.appendDicts [message "m1"], 2),
    (.evict, 3)]

/-- A prewarmed segment is not in `index.json`: dropping the cache hides the rows written to it. -/
theorem evicted_rows_hidden :
    ((runCalls (perform oneRowConfig) .initial evictAfterPrewarm).2.iterRows oneRowConfig 4).1 ≠
      (runCalls specify [] evictAfterPrewarm).2 := by
  have hcode : ((runCalls (perform oneRowConfig) .initial evictAfterPrewarm).2.iterRows
      oneRowConfig 4).1 = [message "m0"] := rfl
  have hlist : (runCalls specify [] evictAfterPrewarm).2 = [message "m0", message "m1"] := rfl
  rw [hcode, hlist]
  simp

end PawFlow.Segments
