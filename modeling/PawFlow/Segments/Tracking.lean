import PawFlow.Segments.Effects

/-!
# An index that follows the files

`Follows P index d`: the index lists the segments `0, 1, …` in order, each entry counts its
segment's rows in the sense of `P`, and every segment that is not listed is without rows. Such an
index leads a reader through all rows in the order of the files. Every operation keeps it, for any
`P` that the three ways of writing an entry respect (`Counting`): the next segment's name is
the number of entries, which is the first free number.

The results use it for three ways of counting: none at all, the row counts, and the byte and display
counts.
-/

namespace PawFlow.Segments

open PawFlow.Lib

structure Follows (P : Entry → List Row → Prop) (index : Index) (d : Directory) : Prop where
  files : index.segments.map Entry.file = List.range index.segments.length
  listed : ∀ e ∈ index.segments, d.has e.file
  counts : ∀ e ∈ index.segments, P e (d.rows e.file)
  others : ∀ n < d.span, index.segments.length ≤ n → d.rows n = []

instance (P : Entry → List Row → Prop) [∀ e rows, Decidable (P e rows)] (index : Index)
    (d : Directory) : Decidable (Follows P index d) :=
  decidable_of_iff
    (index.segments.map Entry.file = List.range index.segments.length ∧
      (∀ e ∈ index.segments, d.has e.file) ∧
      (∀ e ∈ index.segments, P e (d.rows e.file)) ∧
      ∀ n < d.span, index.segments.length ≤ n → (d.rows n).isEmpty)
    ⟨fun ⟨h₁, h₂, h₃, h₄⟩ => ⟨h₁, h₂, h₃, fun n hn hk => List.isEmpty_iff.mp (h₄ n hn hk)⟩,
      fun h => ⟨h.files, h.listed, h.counts, fun n hn hk => List.isEmpty_iff.mpr (h.others n hn hk)⟩⟩

/-- A way of counting that opening a segment, appending a row and writing a segment keep. -/
structure Counting (P : Entry → List Row → Prop) : Prop where
  opened : ∀ n, P (.opened n) []
  count : ∀ e rows row, P e rows → P (e.count row) (rows ++ [row])
  exact : ∀ n rows, P (.exact n rows) rows

/-- The entries have the right row counts. -/
abbrev Tracks : Index → Directory → Prop := Follows fun e rows => e.rows = rows.length

theorem counting_rows : Counting fun e rows => e.rows = rows.length where
  opened _ := rfl
  count e rows row h := by simp [Entry.count, h]
  exact _ _ := rfl

namespace Follows

variable {P : Entry → List Row → Prop} {index : Index} {d : Directory}

theorem empty (created : Nat) : Follows P .empty (.empty created) where
  files := rfl
  listed := by simp [Index.empty]
  counts := by simp [Index.empty]
  others := by simp

variable {n : Nat} {f : Entry → Entry}

theorem rows_eq_nil (h : Follows P index d) (hn : index.segments.length ≤ n) : d.rows n = [] := by
  by_cases hspan : n < d.span
  · exact h.others n hspan hn
  · exact Directory.rows_eq_nil_of_span (by omega)

theorem content_eq (h : Follows P index d) : d.content = Chunks.join d.rows index.segments.length :=
  Directory.content_eq_join fun _ hn => h.rows_eq_nil hn

theorem exists_entry (h : Follows P index d) (hn : n < index.segments.length) :
    ∃ e ∈ index.segments, e.file = n := by
  have : n ∈ index.segments.map Entry.file := by rwa [h.files, List.mem_range]
  exact List.mem_map.mp this

theorem has_of_lt (h : Follows P index d) (hn : n < index.segments.length) : d.has n := by
  obtain ⟨e, he, rfl⟩ := h.exists_entry hn
  exact h.listed e he

theorem sumRows_eq (h : Tracks index d) : sumRows index.segments = d.content.length := by
  have hcounts : index.segments.map Entry.rows =
      (List.range index.segments.length).map fun n => (d.rows n).length := by
    rw [← h.files, List.map_map]
    exact List.map_congr_left h.counts
  rw [sumRows, hcounts, h.content_eq, Chunks.join_length]

/-! ## Growing -/

theorem currentSegment_cases (cfg : Config) (segments : List Entry) (nextBytes : Nat) :
    (segments = (currentSegment cfg segments nextBytes).1 ++
        [(currentSegment cfg segments nextBytes).2]) ∨
      currentSegment cfg segments nextBytes = (segments, .opened segments.length) := by
  unfold currentSegment
  split
  · next e he =>
    split
    · exact .inl (List.dropLast_append_getLast? e he).symm
    · exact .inr rfl
  · exact .inr rfl

/-- What the entries before the current one and the current one say about the files. -/
structure Current (P : Entry → List Row → Prop) (before : List Entry) (current : Entry)
    (d : Directory) : Prop where
  files : before.map Entry.file = List.range before.length
  file : current.file = before.length
  listed : ∀ e ∈ before, d.has e.file
  counts : ∀ e ∈ before, P e (d.rows e.file)
  count : P current (d.rows before.length)
  others : ∀ n, before.length < n → d.rows n = []

theorem current (h : Follows P index d) (hP : Counting P) (cfg : Config) (nextBytes : Nat) :
    Current P (currentSegment cfg index.segments nextBytes).1
      (currentSegment cfg index.segments nextBytes).2 d := by
  rcases currentSegment_cases cfg index.segments nextBytes with hseg | hnew
  · generalize (currentSegment cfg index.segments nextBytes).1 = before at hseg
    generalize (currentSegment cfg index.segments nextBytes).2 = cur at hseg
    have hfiles := h.files
    simp only [hseg, List.map_append, List.length_append, List.map_cons, List.map_nil,
      List.length_singleton, List.range_succ] at hfiles
    obtain ⟨hbefore, hcur⟩ := List.append_inj' hfiles rfl
    have hfile : cur.file = before.length := by simpa using hcur
    refine ⟨hbefore, hfile, fun e he => h.listed e ?_, fun e he => h.counts e ?_, ?_, ?_⟩
    · simp [hseg, he]
    · simp [hseg, he]
    · rw [← hfile]
      exact h.counts cur (by simp [hseg])
    · intro n hn
      exact h.rows_eq_nil (by simpa [hseg] using hn)
  · rw [hnew]
    refine ⟨h.files, rfl, h.listed, h.counts, ?_, fun n hn => h.rows_eq_nil (le_of_lt hn)⟩
    rw [h.rows_eq_nil (le_refl _)]
    exact hP.opened _

/-- **Growing the log.** Rows written to the current segment end up behind all others. -/
theorem Current.grow {before : List Entry} {cur e : Entry} (h : Current P before cur d)
    (rows : List Row) (total : Nat) (hfile : e.file = cur.file)
    (hrows : P e (d.rows before.length ++ rows)) :
    Follows P ⟨before ++ [e], total⟩ (d.append cur.file rows) ∧
      (d.append cur.file rows).content = d.content ++ rows := by
  have hlt : ∀ e ∈ before, e.file < before.length := by
    intro e he
    have : e.file ∈ before.map Entry.file := List.mem_map_of_mem he
    rwa [h.files, List.mem_range] at this
  have hothers : ∀ n, before.length + 1 ≤ n → (d.append cur.file rows).rows n = [] := by
    intro n hn
    rw [Directory.rows_append, h.file, Function.update_of_ne (by omega), h.others n (by omega)]
  have hfollows : Follows P ⟨before ++ [e], total⟩ (d.append cur.file rows) := by
    constructor
    · simp [h.files, hfile, h.file, List.range_succ]
    · intro e' he'
      rcases List.mem_append.mp he' with he' | he'
      · simp [h.listed e' he']
      · simp [List.mem_singleton.mp he', hfile]
    · intro e' he'
      rcases List.mem_append.mp he' with he' | he'
      · have := hlt e' he'
        rw [Directory.rows_append, h.file, Function.update_of_ne (by omega)]
        exact h.counts e' he'
      · rw [List.mem_singleton.mp he', hfile, Directory.rows_append, Function.update_self, h.file]
        exact hrows
    · intro n _ hn
      exact hothers n (by simpa using hn)
  refine ⟨hfollows, ?_⟩
  calc (d.append cur.file rows).content
      = Chunks.join (d.append cur.file rows).rows (before.length + 1) :=
        Directory.content_eq_join hothers
    _ = Chunks.join d.rows before.length ++ (d.rows before.length ++ rows) := by
        rw [Directory.rows_append, h.file, Chunks.join_update_last]
    _ = Chunks.join d.rows (before.length + 1) ++ rows := by
        rw [Chunks.join_succ, List.append_assoc]
    _ = d.content ++ rows := by
        rw [Directory.content_eq_join (k := before.length + 1) fun n hn => h.others n (by omega)]

theorem appendRow (h : Follows P index d) (hP : Counting P) (cfg : Config) (row : Row) :
    Follows P (Segments.appendRow cfg (index, d) row).1
        (Segments.appendRow cfg (index, d) row).2 ∧
      (Segments.appendRow cfg (index, d) row).2.content = d.content ++ [row] := by
  have hcurrent := h.current hP cfg row.lineSize
  exact hcurrent.grow [row] _ rfl (hP.count _ _ row hcurrent.count)

theorem appendRows (h : Follows P index d) (hP : Counting P) (cfg : Config) (rows : List Row) :
    Follows P (Segments.appendRows cfg index d rows).1
        (Segments.appendRows cfg index d rows).2 ∧
      (Segments.appendRows cfg index d rows).2.content = d.content ++ rows := by
  induction rows generalizing index d with
  | nil => exact ⟨h, (List.append_nil _).symm⟩
  | cons row rest ih =>
    obtain ⟨hrow, hcontent⟩ := h.appendRow hP cfg row
    obtain ⟨hrest, hall⟩ := ih hrow
    refine ⟨hrest, ?_⟩
    rw [Segments.appendRows] at hall ⊢
    rw [List.foldl_cons, hall, hcontent, List.append_assoc, List.singleton_append]

/-! ## Rewriting one segment -/

theorem updateEntry_files (hf : ∀ e, e.file = n → (f e).file = n) (segments : List Entry) :
    (updateEntry n f segments).map Entry.file = segments.map Entry.file := by
  induction segments with
  | nil => rfl
  | cons e rest ih =>
    unfold updateEntry
    split
    · next he => rw [List.map_cons, List.map_cons, hf e he, he]
    · rw [List.map_cons, List.map_cons, ih]

theorem mem_updateEntry {segments : List Entry} {e : Entry}
    (hnodup : (segments.map Entry.file).Nodup) (h : e ∈ updateEntry n f segments) :
    (e ∈ segments ∧ e.file ≠ n) ∨ ∃ e₀ ∈ segments, e₀.file = n ∧ e = f e₀ := by
  induction segments with
  | nil => simp [updateEntry] at h
  | cons e₁ rest ih =>
    rw [List.map_cons, List.nodup_cons] at hnodup
    unfold updateEntry at h
    split at h
    · next he₁ =>
      rcases List.mem_cons.mp h with rfl | h
      · exact .inr ⟨e₁, by simp, he₁, rfl⟩
      · refine .inl ⟨by simp [h], fun hfile => hnodup.1 ?_⟩
        rw [he₁, ← hfile]
        exact List.mem_map_of_mem h
    · next he₁ =>
      rcases List.mem_cons.mp h with rfl | h
      · exact .inl ⟨by simp, he₁⟩
      · rcases ih hnodup.2 h with ⟨hmem, hne⟩ | ⟨e₀, hmem, hfile, heq⟩
        · exact .inl ⟨by simp [hmem], hne⟩
        · exact .inr ⟨e₀, by simp [hmem], hfile, heq⟩

theorem updateEntry_length (hf : ∀ e, e.file = n → (f e).file = n) (segments : List Entry) :
    (updateEntry n f segments).length = segments.length := by
  have := congrArg List.length (updateEntry_files hf segments)
  simpa using this

theorem updateSegment (h : Follows P index d) {total : Nat}
    (hn : n < index.segments.length) (rows : List Row) (hfile : ∀ e, e.file = n → (f e).file = n)
    (hcount : ∀ e ∈ index.segments, e.file = n → P (f e) rows) :
    Follows P ⟨updateEntry n f index.segments, total⟩ (d.create n rows) := by
  have hlength := updateEntry_length hfile index.segments
  have hnodup : (index.segments.map Entry.file).Nodup := by
    rw [h.files]
    exact List.nodup_range
  constructor
  · rw [updateEntry_files hfile, h.files, hlength]
  · intro e he
    rcases mem_updateEntry hnodup he with ⟨hmem, -⟩ | ⟨e₀, -, he₀, rfl⟩
    · simp [h.listed e hmem]
    · simp [hfile e₀ he₀]
  · intro e he
    rcases mem_updateEntry hnodup he with ⟨hmem, hne⟩ | ⟨e₀, hmem, he₀, rfl⟩
    · rw [Directory.rows_create, Function.update_of_ne hne]
      exact h.counts e hmem
    · rw [Directory.rows_create, hfile e₀ he₀, Function.update_self]
      exact hcount e₀ hmem he₀
  · intro m _ hm
    have hm : index.segments.length ≤ m := by simpa [hlength] using hm
    rw [Directory.rows_create, Function.update_of_ne (by omega), h.rows_eq_nil hm]

theorem replaceRows (h : Follows P index d) (hP : Counting P) {total : Nat}
    (hn : n < index.segments.length) (rows : List Row) :
    Follows P ⟨updateEntry n (fun _ => .exact n rows) index.segments, total⟩ (d.create n rows) :=
  h.updateSegment hn rows (fun _ _ => rfl) fun _ _ _ => hP.exact n rows

/-! ## Truncating -/

theorem rows_foldl_unlink (after : List Nat) (d : Directory) (n : Nat) :
    (after.foldl Directory.unlink d).rows n = if n ∈ after then [] else d.rows n := by
  induction after generalizing d with
  | nil => simp
  | cons m rest ih =>
    rw [List.foldl_cons, ih, Directory.rows_unlink]
    by_cases hrest : n ∈ rest
    · simp [hrest]
    · by_cases hm : n = m
      · simp [hm]
      · simp [hrest, hm]

theorem has_foldl_unlink (after : List Nat) (d : Directory) (n : Nat) :
    (after.foldl Directory.unlink d).has n = (decide (n ∉ after) && d.has n) := by
  induction after generalizing d with
  | nil => simp
  | cons m rest ih =>
    rw [List.foldl_cons, ih, Directory.has_unlink]
    by_cases hrest : n ∈ rest <;> by_cases hm : n = m <;> simp [hrest, hm]

theorem keptEntry_of_lt (h : Follows P index d) (d' : Directory) (hn : n < index.segments.length) :
    Log.keptEntry index d' n ∈ index.segments ∧ (Log.keptEntry index d' n).file = n := by
  obtain ⟨e, he, hfile⟩ := h.exists_entry hn
  unfold Log.keptEntry
  cases hfind : index.segments.reverse.find? fun e => e.file = n with
  | none =>
    have := List.find?_eq_none.mp hfind e (by simpa using he)
    simp [hfile] at this
  | some e' =>
    have hmem := List.mem_of_find?_eq_some hfind
    have hpred := List.find?_some hfind
    exact ⟨by simpa using hmem, by simpa using hpred⟩

/-- Where a truncation cuts the log: at segment `target`, with the listed later ones `after`. -/
structure Boundary (index : Index) (d : Directory) (msgId : String) (target : Nat)
    (after : List Nat) : Prop where
  target_lt : target < index.segments.length
  later : ∀ n ∈ after, target < n
  beyond : ∀ n, target < n → n ∉ after → d.rows n = []
  hit : ∃ row ∈ d.rows target, row.hasMsgId msgId
  noHit : ∀ n ∈ after, ∀ row ∈ d.rows n, row.hasMsgId msgId = false

theorem boundary (h : Follows P index d) {msgId : String} {before after : List Nat} {target : Nat}
    (hnames : ∀ n, d.has n → n < 10 ^ 6) (hsplit : d.glob = before ++ target :: after)
    (hhit : ∃ row ∈ d.rows target, row.hasMsgId msgId)
    (hnoHit : ∀ n ∈ after, ∀ row ∈ d.rows n, row.hasMsgId msgId = false) :
    before = List.range target ∧ Boundary index d msgId target after := by
  have htarget : target < index.segments.length := by
    by_contra hge
    obtain ⟨row, hrow, -⟩ := hhit
    simp [h.rows_eq_nil (not_lt.mp hge)] at hrow
  obtain ⟨hbefore, hafter⟩ := Directory.glob_before hnames hsplit
    fun n hn => h.has_of_lt (lt_trans hn htarget)
  refine ⟨hbefore, htarget, hafter, fun n hn hnot => ?_, hhit, hnoHit⟩
  by_contra hne
  obtain ⟨row, hrow⟩ := List.exists_mem_of_ne_nil _ hne
  have hmem := Directory.mem_glob.mpr (Directory.has_of_mem_rows hrow)
  rw [hsplit, hbefore] at hmem
  rcases List.mem_append.mp hmem with hmem | hmem
  · exact absurd (List.mem_range.mp hmem) (by omega)
  · rcases List.mem_cons.mp hmem with rfl | hmem
    · exact absurd hn (lt_irrefl _)
    · exact hnot hmem

namespace Boundary

variable {msgId : String} {target : Nat} {after : List Nat}

theorem keepThrough_ne_nil (b : Boundary index d msgId target after) :
    Log.keepThrough msgId (d.rows target) ≠ [] := by
  obtain ⟨row, hrow, hid⟩ := b.hit
  intro hnil
  have := List.rdropWhile_eq_nil_iff.mp hnil row hrow
  simp [hid] at this

theorem rows_cutFiles (b : Boundary index d msgId target after) (n : Nat) :
    (Log.cutFiles d msgId target after).rows n =
      if n < target then d.rows n
      else if n = target then Log.boundaryRows d msgId target else [] := by
  rw [Log.cutFiles, rows_foldl_unlink, Directory.rows_create]
  rcases Nat.lt_trichotomy n target with hlt | rfl | hgt
  · have hnot : n ∉ after := fun hmem => absurd (b.later n hmem) (by omega)
    simp [hlt, hnot, hlt.ne]
  · have hnot : n ∉ after := fun hmem => absurd (b.later n hmem) (lt_irrefl _)
    simp [hnot]
  · by_cases hmem : n ∈ after
    · simp [hmem, hgt.ne', not_lt.mpr hgt.le]
    · simp [hmem, hgt.ne', not_lt.mpr hgt.le, b.beyond n hgt hmem]

theorem has_cutFiles (b : Boundary index d msgId target after) {n : Nat}
    (h : n = target ∨ n < target ∧ d.has n) : (Log.cutFiles d msgId target after).has n := by
  have hnot : n ∉ after := by
    intro hmem
    have := b.later n hmem
    rcases h with rfl | ⟨hlt, -⟩ <;> omega
  rw [Log.cutFiles, has_foldl_unlink, Directory.has_create]
  rcases h with rfl | ⟨-, hhas⟩
  · simp [hnot]
  · simp [hnot, hhas]

/-- The rows through the last one with the id are those before the boundary segment and what
is kept of it. -/
theorem keepThrough_content (h : Follows P index d) (b : Boundary index d msgId target after) :
    Log.keepThrough msgId d.content =
      Chunks.join d.rows target ++ Log.keepThrough msgId (d.rows target) := by
  rw [h.content_eq]
  refine Chunks.rdropWhile_join b.target_lt b.keepThrough_ne_nil fun n hn _ row hrow => ?_
  by_cases hmem : n ∈ after
  · simp [b.noHit n hmem row hrow]
  · simp [b.beyond n hn hmem] at hrow

theorem boundaryRows_eq (h : Follows P index d) (b : Boundary index d msgId target after)
    (hclean : ∀ row ∈ d.content, row.strip = row) :
    Log.boundaryRows d msgId target = Log.keepThrough msgId (d.rows target) := by
  refine (List.map_congr_left fun row hrow => ?_).trans (List.map_id _)
  refine hclean row ?_
  rw [h.content_eq, Chunks.mem_join]
  exact ⟨target, b.target_lt, (List.rdropWhile_prefix _ _).subset hrow⟩

theorem follows (h : Follows P index d) (hP : Counting P)
    (b : Boundary index d msgId target after) (total : Nat) :
    Follows P ⟨Log.cutEntries index d msgId (List.range target) target after, total⟩
      (Log.cutFiles d msgId target after) := by
  have hentry : ∀ n ∈ List.range target,
      Log.keptEntry index (Log.cutFiles d msgId target after) n ∈ index.segments ∧
        (Log.keptEntry index (Log.cutFiles d msgId target after) n).file = n :=
    fun n hn => h.keptEntry_of_lt _ (lt_trans (List.mem_range.mp hn) b.target_lt)
  have hlength :
      (Log.cutEntries index d msgId (List.range target) target after).length = target + 1 := by
    simp [Log.cutEntries]
  constructor
  · rw [hlength, List.range_succ, Log.cutEntries, List.map_append, List.map_map]
    congr 1
    refine (List.map_congr_left fun n hn => ?_).trans (List.map_id _)
    exact (hentry n hn).2
  · intro e he
    rcases List.mem_append.mp he with he | he
    · obtain ⟨n, hn, rfl⟩ := List.mem_map.mp he
      obtain ⟨hmem, hfile⟩ := hentry n hn
      refine b.has_cutFiles (.inr ⟨?_, h.listed _ hmem⟩)
      rw [hfile]
      exact List.mem_range.mp hn
    · rw [List.mem_singleton.mp he]
      exact b.has_cutFiles (.inl rfl)
  · intro e he
    rcases List.mem_append.mp he with he | he
    · obtain ⟨n, hn, rfl⟩ := List.mem_map.mp he
      obtain ⟨hmem, hfile⟩ := hentry n hn
      rw [hfile, b.rows_cutFiles, if_pos (List.mem_range.mp hn)]
      simpa only [hfile] using h.counts _ hmem
    · rw [List.mem_singleton.mp he, b.rows_cutFiles]
      simpa [Entry.exact] using hP.exact target (Log.boundaryRows d msgId target)
  · intro n _ hn
    have hn : target + 1 ≤ n := by simpa [hlength] using hn
    rw [b.rows_cutFiles, if_neg (by omega), if_neg (by omega)]

theorem content (h : Follows P index d) (b : Boundary index d msgId target after)
    (hclean : ∀ row ∈ d.content, row.strip = row) :
    (Log.cutFiles d msgId target after).content = Log.keepThrough msgId d.content := by
  have hbeyond : ∀ n, target + 1 ≤ n → (Log.cutFiles d msgId target after).rows n = [] := by
    intro n hn
    rw [b.rows_cutFiles, if_neg (by omega), if_neg (by omega)]
  rw [Directory.content_eq_join hbeyond, Chunks.join_succ, b.keepThrough_content h,
    ← b.boundaryRows_eq h hclean]
  congr 1
  · exact Chunks.join_congr fun n hn => by rw [b.rows_cutFiles, if_pos hn]
  · simp [b.rows_cutFiles]

end Boundary

end Follows

namespace Log

/-! ## Reading -/

theorem listedPaths_nodup {P : Entry → List Row → Prop} {log : Log}
    (h : Follows P log.currentIndex log.directory) : log.listedPaths.Nodup := by
  unfold listedPaths
  dsimp only
  split
  · rw [h.files]
    exact List.nodup_range.filter _
  · split
    · exact Directory.glob_nodup
    · exact List.nodup_nil

theorem listedPaths_of_follows {P : Entry → List Row → Prop} {log : Log}
    (h : Follows P log.currentIndex log.directory) :
    (∀ n, n ∉ log.listedPaths → log.directory.rows n = []) ∧
      log.listedPaths.flatMap log.directory.rows = log.directory.content := by
  have hexisting : (log.currentIndex.segments.map Entry.file).filter log.directory.has =
      List.range log.currentIndex.segments.length := by
    rw [h.files, List.filter_eq_self]
    exact fun n hn => h.has_of_lt (List.mem_range.mp hn)
  unfold listedPaths
  simp only [hexisting]
  split
  · refine ⟨fun n hn => h.rows_eq_nil ?_, h.content_eq.symm⟩
    simpa using hn
  · next hempty =>
    -- an index without entries: no segment has rows
    have hzero : log.currentIndex.segments.length = 0 := by simpa using hempty
    have hrows : ∀ n, log.directory.rows n = [] := fun n => h.rows_eq_nil (by omega)
    refine ⟨fun n _ => hrows n, ?_⟩
    rw [h.content_eq, hzero, Chunks.join_zero]
    simp [hrows]

end Log

end PawFlow.Segments
