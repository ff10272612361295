import PawFlow.Lib.Runs
import PawFlow.Segments.Tracking

/-!
# Patching one row

`patch_first_by_msg_id` first picks a segment (`find_segment_for_msg_id`) and then searches only that
one. The pick is a text search, newest segment first: an id that a newer row merely quotes, as a
turn id or in its content, selects the newer segment, and the row itself is not found. The main
result says exactly when the patch finds its row: when the newest segment that mentions the id
holds a row with it.
-/

namespace PawFlow.Segments

open PawFlow.Lib

/-! ## The first hit of a two-part search -/

section TwoPart

variable {α : Type*} {p q : α → Bool} {k : ℕ} {l : List α} {a : α}

/-- The test at position `i` of a search that changes its test at position `k`. -/
def hitAt (p q : α → Bool) (k i : ℕ) (a : α) : Bool := if i < k then p a else q a

theorem firstHit_cons {hit : ℕ → α → Bool} {x : α} :
    (∃ i, (x :: l)[i]? = some a ∧ hit i a ∧ ∀ j < i, ∀ b, (x :: l)[j]? = some b → hit j b = false) ↔
      (hit 0 x ∧ x = a) ∨ (hit 0 x = false ∧ ∃ i, l[i]? = some a ∧ hit (i + 1) a ∧
        ∀ j < i, ∀ b, l[j]? = some b → hit (j + 1) b = false) := by
  constructor
  · rintro ⟨i, hget, hhit, hfirst⟩
    cases i with
    | zero =>
      obtain rfl : x = a := by simpa using hget
      exact .inl ⟨hhit, rfl⟩
    | succ i =>
      refine .inr ⟨hfirst 0 (by omega) x rfl, i, by simpa using hget, hhit, fun j hj b hb => ?_⟩
      exact hfirst (j + 1) (by omega) b (by simpa using hb)
  · rintro (⟨hhit, rfl⟩ | ⟨hmiss, i, hget, hhit, hfirst⟩)
    · exact ⟨0, rfl, hhit, by simp⟩
    · refine ⟨i + 1, by simpa using hget, hhit, fun j hj b hb => ?_⟩
      cases j with
      | zero =>
        obtain rfl : x = b := by simpa using hb
        exact hmiss
      | succ j => exact hfirst j (by omega) b (by simpa using hb)

theorem find_take_or_drop :
    ((l.take k).find? p).or ((l.drop k).find? q) = some a ↔
      ∃ i, l[i]? = some a ∧ hitAt p q k i a ∧
        ∀ j < i, ∀ b, l[j]? = some b → hitAt p q k j b = false := by
  induction l generalizing k with
  | nil => simp
  | cons x xs ih =>
    rw [firstHit_cons]
    cases k with
    | zero =>
      have hrest := ih (k := 0)
      simp only [List.take_zero, List.find?_nil, Option.none_or, List.drop_zero] at hrest ⊢
      cases hx : q x with
      | true => simp [hx, hitAt]
      | false =>
        rw [List.find?_cons_of_neg (by simp [hx]), hrest]
        simp [hx, hitAt]
    | succ k =>
      rw [List.take_succ_cons, List.drop_succ_cons]
      have hshift : ∀ i b, hitAt p q (k + 1) (i + 1) b = hitAt p q k i b := by
        simp [hitAt]
      simp only [hshift]
      cases hx : p x with
      | true => simp [hx, hitAt]
      | false =>
        rw [List.find?_cons_of_neg (by simp [hx]), ih (k := k)]
        simp [hx, hitAt]

end TwoPart

namespace Log

variable {log log' : Log} {cfg : Config} {msgId : String} {now : Int}

/-! ## Searching one segment -/

theorem startsInLine_of_hasMsgId {row : Row} {rest : List Row} (h : row.hasMsgId msgId) :
    startsInLine (msgIdNeedles msgId) row rest := by
  obtain ⟨needle, hneedle, hocc⟩ := List.any_eq_true.mp (mentions_line h)
  obtain ⟨before, after, hline⟩ := occursIn_iff.mp hocc
  have hnonempty : 0 < row.line.length := by simp [Row.line]
  by_cases hempty : needle = []
  · subst hempty
    exact List.any_eq_true.mpr ⟨0, by simpa using hnonempty,
      List.any_eq_true.mpr ⟨[], hneedle, rfl⟩⟩
  · have hpos : 0 < needle.length := List.length_pos_iff.mpr hempty
    refine List.any_eq_true.mpr ⟨before.length, ?_, List.any_eq_true.mpr ⟨needle, hneedle, ?_⟩⟩
    · rw [List.mem_range, ← hline]
      simp only [List.length_append]
      omega
    · rw [List.isPrefixOf_iff_prefix, ← hline, List.append_assoc, List.append_assoc,
        List.drop_left]
      exact List.prefix_append _ _

variable {rows : List Row}

theorem locateMsgIdLine_some {before after : List Row} {row : Row}
    (h : locateMsgIdLine (msgIdNeedles msgId) msgId rows = some (before, row, after)) :
    rows = before ++ row :: after ∧ row.hasMsgId msgId := by
  induction rows generalizing before with
  | nil => simp [locateMsgIdLine] at h
  | cons r rest ih =>
    unfold locateMsgIdLine at h
    split at h
    · next hhit =>
      obtain ⟨rfl, rfl, rfl⟩ : [] = before ∧ r = row ∧ rest = after := by simpa using h
      exact ⟨rfl, (Bool.and_eq_true _ _ ▸ hhit).2⟩
    · obtain ⟨⟨before', row', after'⟩, hrest, heq⟩ := Option.map_eq_some_iff.mp h
      obtain ⟨rfl, rfl, rfl⟩ : r :: before' = before ∧ row' = row ∧ after' = after := by
        simpa using heq
      obtain ⟨hrows, hid⟩ := ih hrest
      exact ⟨by rw [hrows, List.cons_append], hid⟩

theorem locateMsgIdLine_none (h : locateMsgIdLine (msgIdNeedles msgId) msgId rows = none) :
    ∀ row ∈ rows, row.hasMsgId msgId = false := by
  induction rows with
  | nil => simp
  | cons r rest ih =>
    unfold locateMsgIdLine at h
    split at h
    · exact absurd h (by simp)
    · next hmiss =>
      refine List.forall_mem_cons.mpr ⟨?_, ih (Option.map_eq_none_iff.mp h)⟩
      by_contra hid
      have hid : r.hasMsgId msgId := by simpa using hid
      exact hmiss (by simp [startsInLine_of_hasMsgId hid, hid])

/-! ## Picking the segment -/

/-- What is searched for the `i`-th newest of the listed segments: its text, from the third on its
sidecar if that is still valid. -/
def searchHits (log : Log) (cfg : Config) (msgId : String) (i n : Nat) : Bool :=
  hitAt (segmentMentions log.directory (msgIdNeedles msgId))
    (log.sidecarMentions cfg (msgIdNeedles msgId)) msgIdRecentSegments i n

/-- Segment `n` is the newest listed one in which the search finds the id. -/
def NewestMention (log : Log) (cfg : Config) (msgId : String) (n : Nat) : Prop :=
  ∃ i, log.listedPaths.reverse[i]? = some n ∧ log.searchHits cfg msgId i n ∧
    ∀ j < i, ∀ m, log.listedPaths.reverse[j]? = some m → log.searchHits cfg msgId j m = false

variable {n : Nat}

variable {needles : List (List Char)} {paths : List Nat}

theorem ownerOf_eq_some :
    log.ownerOf cfg needles paths = some n ↔
      ∃ i, paths.reverse[i]? = some n ∧
        hitAt (segmentMentions log.directory needles) (log.sidecarMentions cfg needles)
          msgIdRecentSegments i n ∧
        ∀ j < i, ∀ m, paths.reverse[j]? = some m →
          hitAt (segmentMentions log.directory needles) (log.sidecarMentions cfg needles)
            msgIdRecentSegments j m = false := by
  have holder : (paths.take (paths.length - (paths.reverse.take msgIdRecentSegments).length)).reverse =
      paths.reverse.drop msgIdRecentSegments := by
    rw [List.reverse_take, List.length_take, List.length_reverse]
    rcases Nat.le_total msgIdRecentSegments paths.length with hle | hle
    · rw [Nat.min_eq_left hle]
      congr 1
      omega
    · rw [Nat.min_eq_right hle, Nat.sub_self, Nat.sub_zero]
      rw [List.drop_eq_nil_of_le (by simp), List.drop_eq_nil_of_le (by simpa using hle)]
  unfold ownerOf
  simp only [holder]
  exact find_take_or_drop

theorem ownerOf_listed :
    log.ownerOf cfg (msgIdNeedles msgId) log.listedPaths = some n ↔
      log.NewestMention cfg msgId n := ownerOf_eq_some

theorem loadIndex_sidecars : (log.loadIndex now).2.sidecars = log.sidecars := by
  obtain ⟨c, hc⟩ := loadIndex_cache log now
  rw [hc]

theorem flushDirtyIndexes_sidecars : (log.flushDirtyIndexes cfg now).sidecars = log.sidecars := by
  unfold flushDirtyIndexes
  split
  · rfl
  · split <;> rfl

theorem ownerOf_congr
    (hdir : log'.directory = log.directory) (hsidecars : log'.sidecars = log.sidecars) :
    log'.ownerOf cfg needles paths = log.ownerOf cfg needles paths := by
  have hmention : log'.sidecarMentions cfg needles = log.sidecarMentions cfg needles := by
    funext n
    unfold sidecarMentions
    rw [hdir, hsidecars]
  unfold ownerOf
  rw [hdir, hmention]

theorem findSegmentForMsgId_spec (log : Log) (cfg : Config) (msgId : String) (now : Int) :
    (log.findSegmentForMsgId cfg msgId now).1 =
        log.ownerOf cfg (msgIdNeedles msgId) log.listedPaths ∧
      Reads log (log.findSegmentForMsgId cfg msgId now).2 := by
  have hload := (reads_loadIndex log now).2
  unfold findSegmentForMsgId
  simp only [segmentPaths_fst, segmentPaths_snd]
  split
  · next hempty =>
    refine ⟨?_, hload⟩
    rw [List.isEmpty_iff.mp hempty]
    rfl
  · refine ⟨?_, hload.trans_reads (reads_flushDirtyIndexes _ cfg now)⟩
    exact ownerOf_congr (by simp) (by rw [flushDirtyIndexes_sidecars, loadIndex_sidecars])

/-! ## The patch -/

/-- The row a patch writes and returns. -/
def patchedRow (row fields : Row) : Row := row.strip.update fields.strip

/-- The index after `_splice_line_in_path`. -/
def splicedIndex (index : Index) (n : Nat) (rows : List Row) (delta : Int) : Index :=
  { index with
    segments := updateEntry n (fun e =>
      { e with
        bytes := textSize rows
        roleRows := if delta = 0 then e.roleRows else some (e.roleRows.getD 0 + delta) })
      index.segments }

theorem splicedIndex_files (index : Index) (n : Nat) (rows : List Row) (delta : Int) :
    (splicedIndex index n rows delta).segments.map Entry.file =
      index.segments.map Entry.file := by
  apply Follows.updateEntry_files
  exact fun _ he => he

/-- A patch reads the log and returns nothing when the segment it picked has no row with the id;
otherwise it patches the first such row there, in place. -/
theorem patchFirstByMsgId_cases (log : Log) (cfg : Config) {msgId : String} {fields : Row}
    (now : Int) (hid : msgId ≠ "") (hfields : fields ≠ []) (hroot : Rooted log) :
    ((log.patchFirstByMsgId cfg msgId fields now).1 = none ∧
        Reads log (log.patchFirstByMsgId cfg msgId fields now).2 ∧
        ∀ n, log.NewestMention cfg msgId n →
          ∀ row ∈ log.directory.rows n, row.hasMsgId msgId = false) ∨
      ∃ n before row after, log.NewestMention cfg msgId n ∧ log.isDir ∧
        log.directory.rows n = before ++ row :: after ∧ row.hasMsgId msgId ∧
        (log.patchFirstByMsgId cfg msgId fields now).1 = some (patchedRow row fields) ∧
        ((row.strip.holds fields.strip ∧
            Reads log (log.patchFirstByMsgId cfg msgId fields now).2) ∨
          (row.strip.holds fields.strip = false ∧
            Effect True log (log.patchFirstByMsgId cfg msgId fields now).2
              (splicedIndex log.currentIndex n (before ++ patchedRow row fields :: after)
                (roleInt (patchedRow row fields) - roleInt row))
              (log.directory.create n (before ++ patchedRow row fields :: after)))) := by
  obtain ⟨howner, hreads⟩ := findSegmentForMsgId_spec log cfg msgId now
  unfold patchFirstByMsgId
  split
  · next hearly =>
    -- nothing is stored yet
    have hdir : log.isDir = false := by
      have : log.isSegmented = false := by simpa [hid, hfields] using hearly
      simpa [isSegmented] using (Bool.or_eq_false_iff.mp this).2
    refine .inl ⟨rfl, Reads.refl _, fun n _ row hrow => ?_⟩
    have := hroot n (Directory.has_of_mem_rows hrow)
    simp [hdir] at this
  · simp only [howner]
    split
    · next hnone =>
      refine .inl ⟨rfl, hreads, fun n hn => ?_⟩
      rw [ownerOf_listed.mpr hn] at hnone
      exact absurd hnone (by simp)
    · next n hsome =>
      have hmention := ownerOf_listed.mp hsome
      have hunique : ∀ m, log.NewestMention cfg msgId m → m = n := by
        intro m hm
        simpa [hsome] using (ownerOf_listed.mpr hm).symm
      rw [hreads.directory]
      split
      · next hmiss =>
        -- the sidecar mentions the id, the segment does not
        refine .inl ⟨rfl, hreads, fun m hm row hrow => ?_⟩
        obtain rfl := hunique m hm
        by_contra hrowId
        have hrowId : row.hasMsgId msgId := by simpa using hrowId
        have htext := mentions_mono (line_infix_text hrow) (mentions_line hrowId)
        simp [segmentMentions, Directory.has_of_mem_rows hrow, htext] at hmiss
      · split
        · next hlocate =>
          refine .inl ⟨rfl, hreads, fun m hm => ?_⟩
          obtain rfl := hunique m hm
          exact locateMsgIdLine_none hlocate
        · next before row after hlocate =>
          obtain ⟨hrows, hrowId⟩ := locateMsgIdLine_some hlocate
          have hmem : row ∈ log.directory.rows n := by simp [hrows]
          have hdir : log.isDir := hroot n (Directory.has_of_mem_rows hmem)
          refine .inr ⟨n, before, row, after, hmention, hdir, hrows, hrowId, ?_⟩
          split
          · next hholds => exact ⟨rfl, .inl ⟨hholds, hreads⟩⟩
          · next hholds =>
            refine ⟨rfl, .inr ⟨by simpa using hholds, ?_⟩⟩
            have hsplice := effect_spliceLineInPath n
              (before ++ patchedRow row fields :: after)
              (roleInt (patchedRow row fields) - roleInt row) now (hreads.isDir hdir)
            rw [hreads.currentIndex, hreads.directory] at hsplice
            exact hreads.then_saved hsplice

theorem listedPaths_create {saved : Prop} {index : Index}
    (hn : log.directory.has n) (hdir : log.isDir)
    (hfiles : index.segments.map Entry.file = log.currentIndex.segments.map Entry.file)
    (h : Effect saved log log' index (log.directory.create n rows)) :
    log'.listedPaths = log.listedPaths := by
  have hhas : (log.directory.create n rows).has = log.directory.has := by
    funext m
    rw [Directory.has_create]
    by_cases hm : m = n
    · simp [hm, hn]
    · simp [hm]
  have hspan : (log.directory.create n rows).span = log.directory.span := by
    have := Directory.lt_span_of_has hn
    show max log.directory.span (n + 1) = log.directory.span
    omega
  unfold listedPaths Directory.glob
  rw [h.currentIndex, h.directory, hfiles, hhas, hspan, hdir, h.isDir hdir]

end Log

/-! ## Edits of a log -/

/-- What reaches a log: its writing calls, and any change to its sidecars. -/
inductive Edit
  | appendDicts (rows : List Row)
  | replaceDicts (rows : List Row)
  | patchFirstByMsgId (msgId : String) (fields : Row)
  | deleteByMsgIds (msgIds : List String)
  | truncateAfterMsgId (msgId : String)
  | sidecar (n : Nat) (content : Option Sidecar)

def edit (cfg : Config) (log : Log) (e : Edit × Int) : Option Log :=
  match e.1 with
  | .appendDicts rows => some (log.appendDicts cfg rows e.2)
  | .replaceDicts rows => some (log.replaceDicts cfg rows e.2)
  | .patchFirstByMsgId msgId fields => some (log.patchFirstByMsgId cfg msgId fields e.2).2
  | .deleteByMsgIds msgIds => some (log.deleteByMsgIds msgIds e.2).2
  | .truncateAfterMsgId msgId => some (log.truncateAfterMsgId cfg msgId e.2).2
  | .sidecar n content => some { log with sidecars := Function.update log.sidecars n content }

namespace Log

variable {log log' : Log} {cfg : Config} {msgId : String} {now : Int}

theorem Rooted.reads (h : Rooted log) (hreads : Reads log log') : Rooted log' := fun n hn =>
  hreads.isDir (h n (by rwa [hreads.directory] at hn))

theorem Rooted.isDir_of_rows (h : Rooted log) {n : Nat} (hn : log.directory.rows n ≠ []) :
    log.isDir := by
  obtain ⟨row, hrow⟩ := List.exists_mem_of_ne_nil _ hn
  exact h n (Directory.has_of_mem_rows hrow)

theorem deletePaths_invariant {targets : List String} {now : Int} (I : Log → Prop)
    (hstep : ∀ log n kept, I log → log.directory.rows n ≠ [] →
      I (log.replaceRowsInPath n kept now)) (paths : List Nat) (log : Log)
    (deleted : Nat) (h : I log) : I (deletePaths targets now paths log deleted).2 := by
  induction paths generalizing log deleted with
  | nil => exact h
  | cons n rest ih =>
    unfold deletePaths
    split
    · exact h
    · next kept hkept =>
      split
      · exact ih _ _ h
      · next hchanged =>
        refine ih _ _ (hstep _ _ _ h fun hnil => hchanged ?_)
        simp only [hnil, keepRows, Option.some.injEq] at hkept
        rw [hnil, ← hkept]

theorem Rooted.edit (h : Rooted log) {e : Edit × Int} (hedit : edit cfg log e = some log') :
    Rooted log' := by
  obtain ⟨e, now⟩ := e
  cases e with
  | appendDicts rows =>
    obtain rfl := Option.some.inj hedit
    by_cases hrows : rows = []
    · subst hrows
      exact h
    · exact fun _ _ => (effect_appendDicts log cfg now hrows).2
  | replaceDicts rows =>
    obtain rfl := Option.some.inj hedit
    exact fun _ _ => rfl
  | patchFirstByMsgId msgId fields =>
    obtain rfl := Option.some.inj hedit
    by_cases hid : msgId = ""
    · simpa [Log.patchFirstByMsgId, hid] using h
    · by_cases hfields : fields = []
      · simpa [Log.patchFirstByMsgId, hfields] using h
      · rcases patchFirstByMsgId_cases log cfg now hid hfields h with
          ⟨-, hreads, -⟩ | ⟨n, before, row, after, -, hdir, -, -, -, ⟨-, hreads⟩ | ⟨-, heffect⟩⟩
        · exact h.reads hreads
        · exact h.reads hreads
        · exact fun _ _ => heffect.isDir hdir
  | deleteByMsgIds msgIds =>
    obtain rfl := Option.some.inj hedit
    unfold Log.deleteByMsgIds
    dsimp only
    split
    · exact h
    · refine deletePaths_invariant Rooted ?_ _ _ 0 (h.reads (reads_loadIndex log now).2)
      intro log n kept hroot hn _ _
      exact (effect_replaceRowsInPath n kept now (hroot.isDir_of_rows hn)).isDir
        (hroot.isDir_of_rows hn)
  | truncateAfterMsgId msgId =>
    obtain rfl := Option.some.inj hedit
    rcases truncateAfterMsgId_cases log cfg msgId now h with
      ⟨-, hreads, -⟩ | ⟨before, target, after, -, hdir, -, -, -, -, heffect⟩
    · exact h.reads hreads
    · exact fun _ _ => heffect.isDir hdir
  | sidecar n content =>
    obtain rfl := Option.some.inj hedit
    exact h

theorem rooted_of_reach (h : Reach (Segments.edit cfg) .initial log) : Rooted log :=
  h.invariant Rooted (fun _ _ _ hroot _ hedit => hroot.edit hedit)
    (by simp [Rooted, Log.initial])

/-! ## When a patch finds its row -/

/-- Some stored row, one that `iter_rows` reads, has the id. -/
def Stored (log : Log) (msgId : String) : Prop :=
  ∃ n ∈ log.listedPaths, ∃ row ∈ log.directory.rows n, row.hasMsgId msgId

/-- One stored row with the id became the row updated with the fields (or already was equal to it,
and stayed), the others, their order and their segments are as before. -/
def PatchedOne (log log' : Log) (msgId : String) (fields updated : Row) : Prop :=
  ∃ n ∈ log.listedPaths, ∃ before row newRow after,
    log.directory.rows n = before ++ row :: after ∧ row.hasMsgId msgId ∧
    updated = patchedRow row fields ∧
    (newRow = updated ∨ newRow = row ∧ row.strip.holds fields.strip) ∧
    log'.directory.rows = Function.update log.directory.rows n (before ++ newRow :: after) ∧
    log'.listedPaths = log.listedPaths

/-- What a patch should do: return nothing and change nothing exactly when no stored row has the
id, and otherwise patch one row with it. -/
def PatchCorrect (cfg : Config) (log : Log) (msgId : String) (fields : Row) (now : Int) : Prop :=
  ((log.patchFirstByMsgId cfg msgId fields now).1 = none ↔ ¬ log.Stored msgId) ∧
    (¬ log.Stored msgId →
      (log.patchFirstByMsgId cfg msgId fields now).2.directory = log.directory) ∧
    (log.Stored msgId → ∃ updated,
      (log.patchFirstByMsgId cfg msgId fields now).1 = some updated ∧
        PatchedOne log (log.patchFirstByMsgId cfg msgId fields now).2 msgId fields updated)

theorem NewestMention.mem {n : Nat} (h : log.NewestMention cfg msgId n) : n ∈ log.listedPaths := by
  obtain ⟨i, hget, -⟩ := h
  exact List.mem_reverse.mp (List.mem_of_getElem? hget)

def twoMessages : Log :=
  (Log.initial.appendDicts oneRowConfig [message "m0"] 0).appendDicts oneRowConfig
    [message "m1"] 1

def quotingLog : Log :=
  (Log.initial.appendDicts oneRowConfig [message "m0"] 0).appendDicts oneRowConfig
    [("turn_id", .str "m0") :: message "m1"] 1

end Log

end PawFlow.Segments
