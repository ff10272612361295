import PawFlow.Segments.Patch

/-!
# Display counts across restarts

`role_rows_by_path` trusts an index entry whose recorded size is the size of its file, and recounts
the others, once per loaded index. This works as long as an entry that lags behind its file has
lost whole rows: it then counts some of the rows, and the same size means all of them (`Lagging`).
A patch of a segment with a lagging entry breaks this: it records the new size and leaves the
display count, and the loss can never be seen again.
-/

namespace PawFlow.Segments

open PawFlow.Lib

/-! ## Two ways of counting -/

def Lagging (e : Entry) (rows : List Row) : Prop :=
  ∃ counted, counted.Sublist rows ∧ e.bytes = textSize counted ∧
    e.roleRows = some (roleCount counted : Int)

def Exact (e : Entry) (rows : List Row) : Prop :=
  e.bytes = textSize rows ∧ e.roleRows = some (roleCount rows : Int)

variable {rows : List Row}

variable {e : Entry} {rows' : List Row}

theorem Exact.lagging (h : Exact e rows) : Lagging e rows :=
  ⟨rows, List.Sublist.refl rows, h.1, h.2⟩

theorem textSize_le_of_sublist (h : rows.Sublist rows') : textSize rows ≤ textSize rows' :=
  List.Sublist.sum_le_sum (h.map _) fun _ _ => Nat.zero_le _

theorem eq_of_textSize_eq (h : rows.Sublist rows')
    (hsize : textSize rows = textSize rows') : rows = rows' := by
  induction h with
  | slnil => rfl
  | cons row hsub ih =>
    have hle := textSize_le_of_sublist hsub
    have hpos := row.lineSize_pos
    simp only [textSize, List.map_cons, List.sum_cons] at hsize hle
    omega
  | cons_cons row hsub ih =>
    rw [ih (by simpa [textSize] using hsize)]

theorem Lagging.exact (h : Lagging e rows) (hsize : e.bytes = textSize rows) : Exact e rows := by
  obtain ⟨counted, hsub, hbytes, hroles⟩ := h
  obtain rfl := eq_of_textSize_eq hsub (hbytes.symm.trans hsize)
  exact ⟨hbytes, hroles⟩

theorem Lagging.mono (h : Lagging e rows) (hsub : rows.Sublist rows') : Lagging e rows' := by
  obtain ⟨counted, hcounted, hrest⟩ := h
  exact ⟨counted, hcounted.trans hsub, hrest⟩

theorem Exact.count (h : Exact e rows) (row : Row) : Exact (e.count row) (rows ++ [row]) := by
  refine ⟨?_, ?_⟩
  · simp [Entry.count, h.1, textSize]
  · simp only [Entry.count, h.2, Option.map_some, roleCount_append, Nat.cast_add]
    cases hrole : row.hasRole <;> simp [roleCount, hrole]

theorem counting_exact : Counting Exact where
  opened _ := ⟨rfl, rfl⟩
  count _ _ row h := h.count row
  exact _ _ := ⟨rfl, rfl⟩

theorem counting_lagging : Counting Lagging where
  opened n := Exact.lagging ⟨rfl, rfl⟩
  count e rows row h := by
    obtain ⟨counted, hsub, hbytes, hroles⟩ := h
    have hexact : Exact e counted := ⟨hbytes, hroles⟩
    obtain ⟨hbytes', hroles'⟩ := hexact.count row
    exact ⟨counted ++ [row], hsub.append (List.Sublist.refl _), hbytes', hroles'⟩
  exact n rows := Exact.lagging ⟨rfl, rfl⟩

/-! ## Files and the index on disk -/

/-- Rows were only appended. -/
structure Extends (d d' : Directory) : Prop where
  rows : ∀ n, d.rows n <+: d'.rows n
  has : ∀ n, d.has n → d'.has n

namespace Extends

theorem refl (d : Directory) : Extends d d := ⟨fun _ => List.prefix_refl _, fun _ h => h⟩

theorem trans {d d' d'' : Directory} (h : Extends d d') (h' : Extends d' d'') : Extends d d'' :=
  ⟨fun n => (h.rows n).trans (h'.rows n), fun n hn => h'.has n (h.has n hn)⟩

theorem append (d : Directory) (n : Nat) (rows : List Row) : Extends d (d.append n rows) where
  rows m := by
    rw [Directory.rows_append]
    by_cases hm : m = n
    · subst hm
      rw [Function.update_self]
      exact List.prefix_append _ _
    · rw [Function.update_of_ne hm]
  has m hm := by simp [hm]

theorem appendRows (cfg : Config) (index : Index) (d : Directory) (rows : List Row) :
    Extends d (appendRows cfg index d rows).2 := by
  induction rows generalizing index d with
  | nil => exact refl d
  | cons row rest ih => exact (append d _ [row]).trans (ih _ _)

end Extends

/-- Every segment file is listed. -/
def Complete (index : Index) (d : Directory) : Prop :=
  ∀ n, d.has n → n < index.segments.length

/-- The index lists exactly the segment files, and its entries count in the sense of `P`. -/
structure Lists (P : Entry → List Row → Prop) (index : Index) (d : Directory) : Prop where
  follows : Follows P index d
  complete : Complete index d

namespace Lists

variable {P : Entry → List Row → Prop} {index : Index} {d : Directory}

theorem appendRow (h : Lists P index d) (hP : Counting P) (cfg : Config) (row : Row) :
    Lists P (Segments.appendRow cfg (index, d) row).1 (Segments.appendRow cfg (index, d) row).2 := by
  refine ⟨(h.follows.appendRow hP cfg row).1, fun n hn => ?_⟩
  have hcurrent := h.follows.current hP cfg row.lineSize
  have hlength : index.segments.length ≤
      (currentSegment cfg index.segments row.lineSize).1.length + 1 := by
    rcases Follows.currentSegment_cases cfg index.segments row.lineSize with hseg | hnew
    · have := congrArg List.length hseg
      simp only [List.length_append, List.length_singleton] at this
      omega
    · rw [hnew]
      exact Nat.le_succ _
  have hn : n = (currentSegment cfg index.segments row.lineSize).2.file ∨ d.has n := by
    simpa [Segments.appendRow] using hn
  show n < ((currentSegment cfg index.segments row.lineSize).1 ++ [_]).length
  rw [List.length_append, List.length_singleton]
  rcases hn with rfl | hn
  · rw [hcurrent.file]
    omega
  · have := h.complete n hn
    omega

theorem appendRows (h : Lists P index d) (hP : Counting P) (cfg : Config) (rows : List Row) :
    Lists P (Segments.appendRows cfg index d rows).1 (Segments.appendRows cfg index d rows).2 := by
  induction rows generalizing index d with
  | nil => exact h
  | cons row rest ih => exact ih (h.appendRow hP cfg row)

theorem updateSegment (h : Lists P index d) {n total : Nat} {f : Entry → Entry}
    (hn : n < index.segments.length) (rows : List Row) (hfile : ∀ e, e.file = n → (f e).file = n)
    (hcount : ∀ e ∈ index.segments, e.file = n → P (f e) rows) :
    Lists P ⟨updateEntry n f index.segments, total⟩ (d.create n rows) := by
  refine ⟨h.follows.updateSegment hn rows hfile hcount, fun m hm => ?_⟩
  show m < (updateEntry n f index.segments).length
  rw [Follows.updateEntry_length hfile]
  have hm : m = n ∨ d.has m := by simpa using hm
  rcases hm with rfl | hm
  · exact hn
  · exact h.complete m hm

theorem replaceRows (h : Lists P index d) (hP : Counting P) {n total : Nat}
    (hn : n < index.segments.length) (rows : List Row) :
    Lists P ⟨updateEntry n (fun _ => .exact n rows) index.segments, total⟩ (d.create n rows) :=
  h.updateSegment hn rows (fun _ _ => rfl) fun _ _ _ => hP.exact n rows

theorem lagging (h : Lists Exact index d) : Lists Lagging index d :=
  ⟨⟨h.follows.files, h.follows.listed, fun e he => (h.follows.counts e he).lagging,
    h.follows.others⟩, h.complete⟩

theorem cut (h : Lists P index d) (hP : Counting P) {msgId : String} {before after : List Nat}
    {target : Nat} (total : Nat) (hnames : ∀ n, d.has n → n < 10 ^ 6)
    (hsplit : d.glob = before ++ target :: after) (hhit : ∃ row ∈ d.rows target, row.hasMsgId msgId)
    (hnoHit : ∀ n ∈ after, ∀ row ∈ d.rows n, row.hasMsgId msgId = false) :
    Lists P ⟨Log.cutEntries index d msgId before target after, total⟩
      (Log.cutFiles d msgId target after) := by
  obtain ⟨rfl, hboundary⟩ := h.follows.boundary hnames hsplit hhit hnoHit
  refine ⟨hboundary.follows h.follows hP total, fun n hn => ?_⟩
  have hlength :
      (Log.cutEntries index d msgId (List.range target) target after).length = target + 1 := by
    simp [Log.cutEntries]
  show n < (Log.cutEntries index d msgId (List.range target) target after).length
  rw [hlength]
  -- the files behind the boundary are gone
  rw [Log.cutFiles, Follows.has_foldl_unlink, Directory.has_create] at hn
  simp only [Bool.and_eq_true, Bool.or_eq_true, decide_eq_true_eq] at hn
  obtain ⟨hafter, rfl | hhas⟩ := hn
  · omega
  · have hmem : n ∈ d.glob := Directory.mem_glob.mpr hhas
    rw [hsplit] at hmem
    simp only [List.mem_append, List.mem_range, List.mem_cons] at hmem
    rcases hmem with hlt | rfl | hmem
    · omega
    · omega
    · exact absurd hmem hafter

end Lists

/-- What an index file on disk may say: each of its entries has counted some of the rows its
segment has now. -/
structure Behind (index : Index) (d : Directory) : Prop where
  files : index.segments.map Entry.file = List.range index.segments.length
  counts : ∀ e ∈ index.segments, Lagging e (d.rows e.file)

theorem Behind.extends {index : Index} {d d' : Directory} (h : Behind index d)
    (hrows : ∀ n, d.rows n <+: d'.rows n) : Behind index d' :=
  ⟨h.files, fun e he => (h.counts e he).mono (hrows e.file).sublist⟩

theorem Lists.behind {index : Index} {d : Directory} (h : Lists Lagging index d) :
    Behind index d := ⟨h.follows.files, h.follows.counts⟩

theorem Behind.lists {index : Index} {d : Directory} (h : Behind index d)
    (hlisted : ∀ n, d.has n ↔ n < index.segments.length) : Lists Lagging index d := by
  refine ⟨⟨h.files, fun e he => (hlisted _).mpr ?_, h.counts, fun n _ hn => ?_⟩,
    fun n hn => (hlisted n).mp hn⟩
  · have : e.file ∈ index.segments.map Entry.file := List.mem_map_of_mem he
    rwa [h.files, List.mem_range] at this
  · by_contra hne
    obtain ⟨row, hrow⟩ := List.exists_mem_of_ne_nil _ hne
    have := (hlisted n).mp (Directory.has_of_mem_rows hrow)
    omega

/-! ## The invariant -/

/-- No patch changes a row of a segment whose entry records another size than its file has. -/
def PatchOk (cfg : Config) (log : Log) (msgId : String) (fields : Row) : Prop :=
  ∀ n, log.NewestMention cfg msgId n →
    (∃ row ∈ log.directory.rows n, row.hasMsgId msgId ∧ row.strip.holds fields.strip = false) →
      ∀ e ∈ log.currentIndex.segments, e.file = n → e.bytes = log.directory.size n

/-- The index in use lists the segment files with entries that may lag, exactly once it is verified;
the index file may lag further. -/
structure Sound (log : Log) : Prop where
  rooted : log.Rooted
  lists : Lists Lagging log.currentIndex log.directory
  verified : log.indexVerified → Lists Exact log.currentIndex log.directory
  disk : ∀ index, log.indexFile = .valid index → Behind index log.directory

namespace Sound

variable {log log' : Log} {cfg : Config} {now : Int}

theorem initial : Sound .initial where
  rooted := by simp [Log.Rooted, Log.initial]
  lists := ⟨.empty 0, by simp [Complete, Log.initial]⟩
  verified := by simp [Log.indexVerified, Log.initial]
  disk := by simp [Log.initial]

theorem of_effect {saved : Prop} {index : Index} {d : Directory} (h : Sound log)
    (heffect : Log.Effect saved log log' index d) (hdir : log'.Rooted)
    (hlists : Lists Lagging index d) (hexact : log.indexVerified → Lists Exact index d)
    (hextends : ¬ saved → ∀ n, log.directory.rows n <+: d.rows n) : Sound log' where
  rooted := hdir
  lists := by
    rw [heffect.currentIndex, heffect.directory]
    exact hlists
  verified hverified := by
    rw [heffect.currentIndex, heffect.directory]
    exact hexact (heffect.indexVerified ▸ hverified)
  disk file hfile := by
    rw [heffect.directory]
    rcases heffect.indexFile with hnew | ⟨hsaved, hold | hcurrent⟩
    · obtain rfl : index = file := by simpa [hnew] using hfile
      exact hlists.behind
    · exact (h.disk file (hold ▸ hfile)).extends (hextends hsaved)
    · obtain rfl : log.currentIndex = file := by simpa [hcurrent] using hfile
      exact h.lists.behind.extends (hextends hsaved)

theorem reads (h : Sound log) (hreads : Log.Reads log log') : Sound log' :=
  h.of_effect hreads (h.rooted.reads hreads) h.lists h.verified
    fun _ _ => List.prefix_refl _

theorem appendDicts (h : Sound log) (rows : List Row) : Sound (log.appendDicts cfg rows now) := by
  by_cases hrows : rows = []
  · subst hrows
    exact h
  · obtain ⟨heffect, hdir⟩ := Log.effect_appendDicts log cfg now hrows
    exact h.of_effect heffect (fun _ _ => hdir)
      (h.lists.appendRows counting_lagging cfg _)
      (fun hverified => (h.verified hverified).appendRows counting_exact cfg _)
      fun _ => (Extends.appendRows cfg _ _ _).rows

theorem replaceRowsInPath (h : Sound log) {n : Nat} {rows : List Row}
    (hn : log.directory.rows n ≠ []) : Sound (log.replaceRowsInPath n rows now) := by
  have hdir := h.rooted.isDir_of_rows hn
  have hlisted : n < log.currentIndex.segments.length := by
    by_contra hge
    exact hn (h.lists.follows.rows_eq_nil (not_lt.mp hge))
  have heffect := Log.effect_replaceRowsInPath n rows now hdir
  exact h.of_effect heffect (fun _ _ => heffect.isDir hdir)
    (h.lists.replaceRows counting_lagging hlisted rows)
    (fun hverified => (h.verified hverified).replaceRows counting_exact hlisted rows)
    fun hnot => absurd trivial hnot

theorem deleteByMsgIds (h : Sound log) (msgIds : List String) :
    Sound (log.deleteByMsgIds msgIds now).2 := by
  unfold Log.deleteByMsgIds
  dsimp only
  split
  · exact h
  · exact Log.deletePaths_invariant Sound (fun _ _ _ hsound hn => hsound.replaceRowsInPath hn) _ _ 0
      (h.reads (Log.reads_loadIndex log now).2)

theorem truncateAfterMsgId (h : Sound log) (msgId : String)
    (hnames : ∀ n, log.directory.has n → n < 10 ^ 6) :
    Sound (log.truncateAfterMsgId cfg msgId now).2 := by
  rcases Log.truncateAfterMsgId_cases log cfg msgId now h.rooted with
    ⟨-, hreads, -⟩ | ⟨before, target, after, -, hdir, hsplit, hhit, hnoHit, -, heffect⟩
  · exact h.reads hreads
  · exact h.of_effect heffect (fun _ _ => heffect.isDir hdir)
      (h.lists.cut counting_lagging _ hnames hsplit hhit hnoHit)
      (fun hverified => (h.verified hverified).cut counting_exact _ hnames hsplit hhit hnoHit)
      fun hnot => absurd trivial hnot

/-! ## Patching -/

theorem exact_splice {e : Entry} {before after : List Row} {row newRow : Row}
    (h : Exact e (before ++ row :: after)) :
    Exact
      { e with
        bytes := textSize (before ++ newRow :: after)
        roleRows := if Log.roleInt newRow - Log.roleInt row = 0 then e.roleRows
          else some (e.roleRows.getD 0 + (Log.roleInt newRow - Log.roleInt row)) }
      (before ++ newRow :: after) := by
  have hcount : ∀ r : Row, (roleCount (before ++ r :: after) : Int) =
      roleCount before + roleCount after + Log.roleInt r := by
    intro r
    cases hrole : r.hasRole with
    | false => simp [roleCount, Log.roleInt, hrole]
    | true =>
      simp only [roleCount, Log.roleInt, hrole, List.countP_append, List.countP_cons, if_true]
      push_cast
      ring
  refine ⟨rfl, ?_⟩
  have hroles := h.2
  rw [hcount] at hroles ⊢
  show (if _ then _ else _) = _
  rw [hroles]
  split
  · congr 1
    omega
  · simp only [Option.getD_some, Option.some.injEq]
    ring

theorem patchFirstByMsgId (h : Sound log) {msgId : String} {fields : Row}
    (hok : PatchOk cfg log msgId fields) :
    Sound (log.patchFirstByMsgId cfg msgId fields now).2 := by
  by_cases hid : msgId = ""
  · simpa [Log.patchFirstByMsgId, hid] using h
  · by_cases hfields : fields = []
    · simpa [Log.patchFirstByMsgId, hfields] using h
    · rcases Log.patchFirstByMsgId_cases log cfg now hid hfields h.rooted with
        ⟨-, hreads, -⟩ | ⟨n, before, row, after, hmention, hdir, hrows, hrowId, -,
          ⟨-, hreads⟩ | ⟨hchanged, heffect⟩⟩
      · exact h.reads hreads
      · exact h.reads hreads
      · have hmem : row ∈ log.directory.rows n := by simp [hrows]
        have hlisted := h.lists.complete n (Directory.has_of_mem_rows hmem)
        have hsize := hok n hmention ⟨row, hmem, hrowId, hchanged⟩
        -- the entry of the patched segment is exact, so it stays exact
        have hexact : ∀ e ∈ log.currentIndex.segments, e.file = n →
            Exact e (before ++ row :: after) := by
          intro e he hfile
          rw [← hrows]
          have hlag := h.lists.follows.counts e he
          rw [hfile] at hlag
          exact hlag.exact (hsize e he hfile)
        refine h.of_effect heffect (fun _ _ => heffect.isDir hdir) ?_ (fun hverified => ?_)
          fun hnot => absurd trivial hnot
        · exact h.lists.updateSegment hlisted _ (fun _ hfile => hfile)
            fun e he hfile => (exact_splice (hexact e he hfile)).lagging
        · exact (h.verified hverified).updateSegment hlisted _ (fun _ hfile => hfile)
            fun e he hfile => exact_splice (hexact e he hfile)

/-! ## Reading the counts -/

/-- One turn of the loop: an entry that may lag is recounted when its size is wrong, and is exact
afterwards either way. -/
theorem exact_verifyEntry {d : Directory} {verify : Bool} {e : Entry}
    (h : Lagging e (d.rows e.file)) (hverify : verify = false → Exact e (d.rows e.file)) :
    (Log.verifyEntry d verify e).1.file = e.file ∧
      Exact (Log.verifyEntry d verify e).1 (d.rows e.file) ∧
      ((Log.verifyEntry d verify e).2 = false → (Log.verifyEntry d verify e).1 = e) := by
  obtain ⟨counted, -, -, hroles⟩ := id h
  cases hstale : (verify && e.bytes != d.size e.file) with
  | true =>
    have hrecount : Log.verifyEntry d verify e =
        (⟨e.file, (d.rows e.file).length, some (roleCount (d.rows e.file)), d.size e.file⟩, true) := by
      simp [Log.verifyEntry, hstale, countRows_eq]
    rw [hrecount]
    exact ⟨rfl, ⟨rfl, rfl⟩, by simp⟩
  | false =>
    have hsame : Log.verifyEntry d verify e = (e, false) := by
      simp [Log.verifyEntry, hstale, hroles]
    rw [hsame]
    refine ⟨rfl, ?_, fun _ => rfl⟩
    cases hv : verify with
    | false => exact hverify hv
    | true =>
      refine h.exact ?_
      simpa [hv, Directory.size] using hstale

/-- The entries after the loop of `role_rows_by_path`. -/
def verifiedEntries (log : Log) : List Entry :=
  log.currentIndex.segments.map fun e =>
    (Log.verifyEntry log.directory (!log.indexVerified) e).1

section Verified

variable (h : Sound log)
include h

theorem exact_entry {e : Entry} (he : e ∈ log.currentIndex.segments) :
    (Log.verifyEntry log.directory (!log.indexVerified) e).1.file = e.file ∧
      Exact (Log.verifyEntry log.directory (!log.indexVerified) e).1
        (log.directory.rows e.file) ∧
      ((Log.verifyEntry log.directory (!log.indexVerified) e).2 = false →
        (Log.verifyEntry log.directory (!log.indexVerified) e).1 = e) := by
  refine exact_verifyEntry (h.lists.follows.counts e he) fun hverify => ?_
  exact (h.verified (by simpa using hverify)).follows.counts e he

theorem counts_verifiedEntries :
    (verifiedEntries log).map (fun e => (e.file, e.roleRows.getD 0)) =
      (List.range log.currentIndex.segments.length).map fun n =>
        (n, (roleCount (log.directory.rows n) : Int)) := by
  rw [← h.lists.follows.files, verifiedEntries, List.map_map, List.map_map]
  refine List.map_congr_left fun e he => ?_
  obtain ⟨hfile, hexact, -⟩ := h.exact_entry he
  simp [hfile, hexact.2]

theorem lists_verifiedEntries (total : Nat) :
    Lists Exact ⟨verifiedEntries log, total⟩ log.directory := by
  have hlength : (verifiedEntries log).length = log.currentIndex.segments.length :=
    List.length_map _
  refine ⟨⟨?_, ?_, ?_, ?_⟩, ?_⟩
  · show (verifiedEntries log).map Entry.file = List.range (verifiedEntries log).length
    rw [hlength, ← h.lists.follows.files, verifiedEntries, List.map_map]
    exact List.map_congr_left fun e he => (h.exact_entry he).1
  · intro e' he'
    obtain ⟨e, he, rfl⟩ := List.mem_map.mp he'
    rw [(h.exact_entry he).1]
    exact h.lists.follows.listed e he
  · intro e' he'
    obtain ⟨e, he, rfl⟩ := List.mem_map.mp he'
    rw [(h.exact_entry he).1]
    exact (h.exact_entry he).2.1
  · intro n hn hk
    exact h.lists.follows.others n hn (by simpa [hlength] using hk)
  · intro n hn
    simpa [hlength] using h.lists.complete n hn

theorem verifiedEntries_eq (hsame : ∀ e ∈ log.currentIndex.segments,
      (Log.verifyEntry log.directory (!log.indexVerified) e).2 = false) :
    verifiedEntries log = log.currentIndex.segments :=
  (List.map_congr_left fun e he => (h.exact_entry he).2.2 (hsame e he)).trans (List.map_id _)

end Verified

theorem markVerified (h : Sound log) (hexact : Lists Exact log.currentIndex log.directory)
    (verify : Bool) :
    Sound (if verify then { log with cache := log.cache.map ({ · with verified := true }) }
      else log) := by
  rcases log with ⟨isDir, d, file, sidecars, cache⟩
  cases verify with
  | false => exact h
  | true =>
    cases cache with
    | none => exact h
    | some c => exact ⟨h.rooted, h.lists, fun _ => hexact, h.disk⟩

/-- **Reading the counts.** They are exact, and stay so for as long as the index is cached. -/
theorem roleRowsByPath (h : Sound log) (cfg : Config) (now : Int) :
    (log.roleRowsByPath cfg now).1 =
        (List.range log.currentIndex.segments.length).map (fun n =>
          (n, (roleCount (log.directory.rows n) : Int))) ∧
      Sound (log.roleRowsByPath cfg now).2 := by
  have hreads : Log.Reads log ((log.flushDirtyIndexes cfg now).loadIndex now).2 :=
    (Log.reads_flushDirtyIndexes log cfg now).trans_reads (Log.reads_loadIndex _ now).2
  unfold Log.roleRowsByPath
  simp only [Log.loadIndex_fst, Log.flushDirtyIndexes_currentIndex]
  generalize ((log.flushDirtyIndexes cfg now).loadIndex now).2 = loaded at hreads
  have hsegments : (log.currentIndex.segments.map
      (Log.verifyEntry loaded.directory (!loaded.indexVerified))).map Prod.fst =
        verifiedEntries log := by
    rw [hreads.directory, hreads.indexVerified, List.map_map]
    rfl
  rw [hsegments]
  refine ⟨h.counts_verifiedEntries, ?_⟩
  have hlists : Lists Exact ⟨verifiedEntries log, sumRows (verifiedEntries log)⟩
      loaded.directory := hreads.directory ▸ h.lists_verifiedEntries _
  by_cases hany : (log.currentIndex.segments.map
      (Log.verifyEntry loaded.directory (!loaded.indexVerified))).any Prod.snd
  · have hsave : Log.Effect True log ((loaded.rememberIndex
        ⟨verifiedEntries log, sumRows (verifiedEntries log)⟩ true now).writeIndex
          ⟨verifiedEntries log, sumRows (verifiedEntries log)⟩) _ loaded.directory :=
      hreads.then_saved (Log.effect_saveIndex loaded _ loaded.directory now)
    have hsound := h.of_effect hsave
      (fun n hn => hsave.isDir (h.rooted n (by rwa [hsave.directory, hreads.directory] at hn)))
      hlists.lagging (fun _ => hlists) fun hnot => absurd trivial hnot
    rw [if_pos hany]
    refine hsound.markVerified ?_ _
    rw [hsave.currentIndex, hsave.directory]
    exact hlists
  · -- nothing was recounted, so the entries were exact already
    have hsame : verifiedEntries log = log.currentIndex.segments := by
      refine h.verifiedEntries_eq fun e he => ?_
      rw [Bool.not_eq_true, List.any_eq_false] at hany
      have := hany _ (List.mem_map_of_mem he)
      simpa [hreads.directory, hreads.indexVerified] using this
    rw [if_neg hany]
    refine (h.reads hreads).markVerified ?_ _
    rw [hreads.currentIndex, hreads.directory]
    have hexact := h.lists_verifiedEntries log.currentIndex.totalRows
    rwa [hsame] at hexact

end Sound

/-! ## Histories with restarts -/

/-- A log and the states it went through, newest first. -/
structure History where
  now : Log
  past : List Log

inductive Event
  | appendDicts (rows : List Row)
  | patchFirstByMsgId (msgId : String) (fields : Row)
  | deleteByMsgIds (msgIds : List String)
  | truncateAfterMsgId (msgId : String)
  | roleRowsByPath
  /-- The process restarts, with the `index.json` of the `i`-th last moment. -/
  | restart (i : Nat)

namespace History

def start : History := ⟨.initial, []⟩

def moments (h : History) : List Log := h.now :: h.past

/-- One event. A restart needs an index file that was written. -/
def advance (cfg : Config) (h : History) (e : Event × Int) : Option History :=
  match e.1 with
  | .appendDicts rows => some ⟨h.now.appendDicts cfg rows e.2, h.moments⟩
  | .patchFirstByMsgId msgId fields =>
    some ⟨(h.now.patchFirstByMsgId cfg msgId fields e.2).2, h.moments⟩
  | .deleteByMsgIds msgIds => some ⟨(h.now.deleteByMsgIds msgIds e.2).2, h.moments⟩
  | .truncateAfterMsgId msgId => some ⟨(h.now.truncateAfterMsgId cfg msgId e.2).2, h.moments⟩
  | .roleRowsByPath => some ⟨(h.now.roleRowsByPath cfg e.2).2, h.moments⟩
  | .restart i =>
    match (h.moments[i]?).map Log.indexFile with
    | some (.valid index) =>
      some ⟨{ h.now with cache := none, indexFile := .valid index }, h.moments⟩
    | _ => none

/-- When an event keeps the counts recoverable: a restart reloads an index that lists every segment
file and was written when the segments held the first of their present rows; a patch changes no
row of a segment whose entry lags; the names sort like the numbers at a truncation. -/
def EventOk (cfg : Config) (h : History) (e : Event × Int) : Prop :=
  match e.1 with
  | .restart i => ∀ old index, h.moments[i]? = some old → old.indexFile = .valid index →
      (∀ n, old.directory.rows n <+: h.now.directory.rows n) ∧
        ∀ n, h.now.directory.has n ↔ n < index.segments.length
  | .patchFirstByMsgId msgId fields => PatchOk cfg h.now msgId fields
  | .truncateAfterMsgId _ => ∀ n, h.now.directory.has n → n < 10 ^ 6
  | _ => True

/-- The state is sound, and every index file ever written counted rows of its moment. -/
structure Good (h : History) : Prop where
  now : Sound h.now
  moments : ∀ old ∈ h.moments, ∀ index, old.indexFile = .valid index → Behind index old.directory

theorem Good.next {h : History} (hgood : Good h) {log : Log} (hlog : Sound log) :
    Good ⟨log, h.moments⟩ where
  now := hlog
  moments old hold index hindex := by
    rcases List.mem_cons.mp hold with rfl | hold
    · exact hlog.disk index hindex
    · exact hgood.moments old hold index hindex

theorem Good.advance {cfg : Config} {h h' : History} {e : Event × Int} (hgood : Good h)
    (hok : EventOk cfg h e) (hstep : History.advance cfg h e = some h') : Good h' := by
  obtain ⟨e, now⟩ := e
  cases e with
  | appendDicts rows =>
    obtain rfl := Option.some.inj hstep
    exact hgood.next (hgood.now.appendDicts rows)
  | patchFirstByMsgId msgId fields =>
    obtain rfl := Option.some.inj hstep
    exact hgood.next (hgood.now.patchFirstByMsgId hok)
  | deleteByMsgIds msgIds =>
    obtain rfl := Option.some.inj hstep
    exact hgood.next (hgood.now.deleteByMsgIds msgIds)
  | truncateAfterMsgId msgId =>
    obtain rfl := Option.some.inj hstep
    exact hgood.next (hgood.now.truncateAfterMsgId msgId hok)
  | roleRowsByPath =>
    obtain rfl := Option.some.inj hstep
    exact hgood.next (hgood.now.roleRowsByPath cfg now).2
  | restart i =>
    unfold History.advance at hstep
    dsimp only at hstep
    split at hstep
    · next index hfile =>
      obtain rfl := Option.some.inj hstep
      obtain ⟨old, hold, hindex⟩ := Option.map_eq_some_iff.mp hfile
      obtain ⟨hrows, hlisted⟩ := hok old index hold hindex
      have hbehind : Behind index h.now.directory :=
        (hgood.moments old (List.mem_of_getElem? hold) index hindex).extends hrows
      refine hgood.next ⟨hgood.now.rooted, hbehind.lists hlisted, ?_, ?_⟩
      · simp [Log.indexVerified]
      · intro file hfile
        obtain rfl : index = file := by simpa using hfile
        exact hbehind
    · exact absurd hstep (by simp)

/-- **Exact display counts.** In every history whose events all meet `EventOk`, `role_rows_by_path`
lists every segment file, and each with the number of its rows whose role is truthy. -/
theorem display_counts_exact (cfg : Config) {h : History}
    (hrun : Runs (advance cfg) (EventOk cfg) start h) (now : Int) :
    (∀ n, h.now.directory.has n →
        (n, (roleCount (h.now.directory.rows n) : Int)) ∈ (h.now.roleRowsByPath cfg now).1) ∧
      ∀ p ∈ (h.now.roleRowsByPath cfg now).1, p.2 = roleCount (h.now.directory.rows p.1) := by
  have hgood : Good h := hrun.invariant Good (fun _ _ _ hgood hok hstep => hgood.advance hok hstep)
    ⟨.initial, by simp [start, moments, Log.initial]⟩
  rw [(hgood.now.roleRowsByPath cfg now).1]
  refine ⟨fun n hn => ?_, fun p hp => ?_⟩
  · exact List.mem_map.mpr ⟨n, List.mem_range.mpr (hgood.now.lists.complete n hn), rfl⟩
  · obtain ⟨n, -, rfl⟩ := List.mem_map.mp hp
    rfl

def tenRowConfig : Config := { oneRowConfig with maxRows := 10, maxRows_pos := by decide }

/-- A restart with the index of the moment, and a row after it. -/
theorem display_counts_exact_restarted : ∃ h,
    Runs (advance tenRowConfig) (EventOk tenRowConfig) start h ∧
      (h.now.roleRowsByPath tenRowConfig 3).1 = [(0, 2)] ∧
      ∀ p ∈ (h.now.roleRowsByPath tenRowConfig 3).1,
        p.2 = roleCount (h.now.directory.rows p.1) := by
  have hrun : Runs (advance tenRowConfig) (EventOk tenRowConfig) start _ :=
    .snoc (a := (.appendDicts [message "m1"], 2)) (.snoc (a := (.restart 0, 1))
      (.snoc (a := (.appendDicts [message "m0"], 0)) (.refl _) trivial rfl) (by
        intro old index hold hindex
        obtain rfl := Option.some.inj hold
        obtain rfl : _ = index := IndexFile.valid.inj hindex
        refine ⟨fun n => List.prefix_refl _, fun n => ?_⟩
        cases n with
        | zero => decide
        | succ n =>
          show false = true ↔ n + 1 < 1
          simp) rfl) trivial rfl
  exact ⟨_, hrun, rfl, (display_counts_exact tenRowConfig hrun 3).2⟩

/-- A patch hides that the index had lost a row. -/
theorem patched_count_stale : ∃ h, Reach (advance tenRowConfig) start h ∧
    (h.now.roleRowsByPath tenRowConfig 4).1 = [(0, 1)] ∧
      roleCount (h.now.directory.rows 0) = 2 :=
  ⟨_, .snoc (a := (.patchFirstByMsgId "m1" [("content", .str "hi")], 3))
    (.snoc (a := (.restart 0, 2)) (.snoc (a := (.appendDicts [message "m1"], 1))
      (.snoc (a := (.appendDicts [message "m0"], 0)) (.refl _) trivial rfl) trivial rfl) trivial rfl)
    trivial rfl, rfl, rfl⟩

end History

end PawFlow.Segments
