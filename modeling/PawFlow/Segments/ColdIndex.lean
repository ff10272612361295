import PawFlow.Segments.Tracking

/-!
# A lost index

`index.json` is documented as a cache: "`_load_index()` already rebuilds it from segment files if it
is missing or malformed". It does not: a lost index is replaced by an empty one. A reader then still
finds the rows through a directory listing, but the first append opens entry `000000.jsonl` and
from there on the index hides every segment that holds older rows. What survives a lost index
is exactly a log whose rows all lie in the first segment.
-/

namespace PawFlow.Segments

open PawFlow.Lib

/-- Segment files `000000.jsonl, 000001.jsonl, …` with the given rows. -/
def Directory.ofSegments (segments : List (List Row)) : Directory where
  file n := segments[n]?.map fun rows => ⟨rows, n⟩
  span := segments.length
  absent n hn := by simp [List.getElem?_eq_none hn]
  created := segments.length

/-- A log after a restart whose `index.json` is missing, or cut short or otherwise no JSON object. -/
def coldLog (segments : List (List Row)) (malformed : Bool)
    (sidecars : Nat → Option Sidecar) : Log where
  isDir := true
  directory := .ofSegments segments
  indexFile := if malformed then .malformed else .missing
  sidecars := sidecars
  cache := none

/-- The index is only a cache: the rows are all there, and an append goes behind them. Rows are
compared as readers see them. -/
def IndexIsCache (cfg : Config) (log : Log) (rows : List Row) : Prop :=
  (∀ now, (log.iterRows cfg now).1 = rows.map Row.strip) ∧
    ∀ added now now', ((log.appendDicts cfg added now).iterRows cfg now').1 =
      (rows ++ added).map Row.strip

namespace ColdLog

variable {segments : List (List Row)} {malformed : Bool} {sidecars : Nat → Option Sidecar}
  {cfg : Config} {now : Int}

theorem rows_ofSegments (n : Nat) :
    (Directory.ofSegments segments).rows n = segments[n]?.getD [] := by
  cases h : segments[n]? <;> simp [Directory.ofSegments, Directory.rows, h]

theorem content_ofSegments : (Directory.ofSegments segments).content = segments.flatten := by
  have hrange : segments = (List.range segments.length).map fun n => segments[n]?.getD [] := by
    refine List.ext_getElem? fun n => ?_
    by_cases h : n < segments.length <;> simp [h]
  show (List.range segments.length).flatMap (Directory.ofSegments segments).rows = _
  rw [List.flatMap_congr fun n _ => rows_ofSegments n, List.flatMap_def, ← hrange]

theorem currentIndex : (coldLog segments malformed sidecars).currentIndex = .empty := by
  cases malformed <;> rfl

theorem rooted : (coldLog segments malformed sidecars).Rooted := fun _ _ => rfl

theorem iterRows : ((coldLog segments malformed sidecars).iterRows cfg now).1 =
    ((Directory.ofSegments segments).glob.flatMap (Directory.ofSegments segments).rows).map
      Row.strip := by
  rw [Log.iterRows_fst rooted]
  unfold Log.listedPaths
  rw [currentIndex]
  rfl

def FirstOnly (segments : List (List Row)) : Prop := ∀ rows ∈ segments.tail, rows = []

theorem rows_eq_nil (h : FirstOnly segments) {n : Nat} (hn : 0 < n) :
    (Directory.ofSegments segments).rows n = [] := by
  rw [rows_ofSegments]
  cases hget : segments[n]? with
  | none => rfl
  | some rows =>
    obtain ⟨m, rfl⟩ : ∃ m, n = m + 1 := ⟨n - 1, by omega⟩
    have htail : segments.tail[m]? = some rows := by simpa using hget
    exact h rows (List.mem_of_getElem? htail)

theorem flatMap_eq_first {f : Nat → List Row} {l : List Nat} (hnodup : l.Nodup)
    (hzero : 0 ∉ l → f 0 = []) (h : ∀ n, 0 < n → f n = []) : l.flatMap f = f 0 := by
  induction l with
  | nil => simpa using (hzero (by simp)).symm
  | cons n rest ih =>
    obtain ⟨hnot, hrest⟩ := List.nodup_cons.mp hnodup
    rw [List.flatMap_cons]
    by_cases hn : n = 0
    · subst hn
      have hempty : rest.flatMap f = [] := by
        refine List.flatMap_eq_nil_iff.mpr fun m hm => h m (Nat.pos_of_ne_zero fun h0 => ?_)
        exact hnot (h0 ▸ hm)
      rw [hempty, List.append_nil]
    · rw [h n (Nat.pos_of_ne_zero hn), List.nil_append]
      refine ih hrest fun hmem => hzero fun hmem' => ?_
      rcases List.mem_cons.mp hmem' with h0 | hmem'
      · exact hn h0.symm
      · exact hmem hmem'

theorem flatten_eq (h : FirstOnly segments) :
    segments.flatten = (Directory.ofSegments segments).rows 0 := by
  rw [← content_ofSegments, Directory.content_eq_join (k := 1) fun n hn => rows_eq_nil h hn,
    Chunks.join_succ, Chunks.join_zero, List.nil_append]

theorem iterRows_of_firstOnly (h : FirstOnly segments) :
    ((coldLog segments malformed sidecars).iterRows cfg now).1 =
      segments.flatten.map Row.strip := by
  rw [iterRows, flatten_eq h]
  congr 1
  refine flatMap_eq_first Directory.glob_nodup (fun hnot => ?_) fun n hn => rows_eq_nil h hn
  by_contra hne
  obtain ⟨row, hrow⟩ := List.exists_mem_of_ne_nil _ hne
  exact hnot (Directory.mem_glob.mpr (Directory.has_of_mem_rows hrow))

/-! ## The first append -/

theorem appendRow_empty (cfg : Config) (d : Directory) (row : Row) :
    appendRow cfg (.empty, d) row =
      (⟨[(Entry.opened 0).count row], 1⟩, d.append 0 [row]) := rfl

variable {added : List Row}

theorem appendRows_of_firstOnly (cfg : Config) (h : FirstOnly segments)
    (hadded : added ≠ []) :
    Follows (fun _ _ => True) (appendRows cfg .empty (.ofSegments segments) added).1
        (appendRows cfg .empty (.ofSegments segments) added).2 ∧
      (appendRows cfg .empty (.ofSegments segments) added).2.content =
        segments.flatten ++ added := by
  obtain ⟨row, rest, rfl⟩ := List.exists_cons_of_ne_nil hadded
  have hcounting : Counting fun _ _ => True :=
    ⟨fun _ => trivial, fun _ _ _ _ => trivial, fun _ _ => trivial⟩
  -- the new entry stands before segment 1, and from there on there are no rows
  have hcurrent : Follows.Current (fun _ _ => True) [] (.opened 0) (.ofSegments segments) :=
    ⟨rfl, rfl, by simp, by simp, trivial, fun n hn => rows_eq_nil h hn⟩
  obtain ⟨hfirst, hcontent⟩ := hcurrent.grow (e := (Entry.opened 0).count row) [row] 1 rfl trivial
  obtain ⟨hrest, hall⟩ := hfirst.appendRows hcounting cfg rest
  refine ⟨hrest, ?_⟩
  calc (appendRows cfg .empty (.ofSegments segments) (row :: rest)).2.content
      = (appendRows cfg ⟨[(Entry.opened 0).count row], 1⟩
          ((Directory.ofSegments segments).append 0 [row]) rest).2.content := rfl
    _ = (segments.flatten ++ [row]) ++ rest := by
        rw [← content_ofSegments]
        exact hall.trans (by rw [← hcontent])
    _ = segments.flatten ++ row :: rest := by simp

theorem iterRows_appendDicts (h : FirstOnly segments) {now now' : Int} :
    (((coldLog segments malformed sidecars).appendDicts cfg added now).iterRows cfg now').1 =
      (segments.flatten ++ added).map Row.strip := by
  by_cases hadded : added = []
  · subst hadded
    rw [List.append_nil]
    exact iterRows_of_firstOnly h
  · obtain ⟨heffect, hdir⟩ :=
      Log.effect_appendDicts (coldLog segments malformed sidecars) cfg now hadded
    rw [currentIndex] at heffect
    have hstripped : added.map Row.strip ≠ [] := by simpa using hadded
    obtain ⟨hfollows, hcontent⟩ := appendRows_of_firstOnly cfg h hstripped
    have hfollows : Follows (fun _ _ => True)
        ((coldLog segments malformed sidecars).appendDicts cfg added now).currentIndex
        ((coldLog segments malformed sidecars).appendDicts cfg added now).directory := by
      rw [heffect.currentIndex, heffect.directory]
      exact hfollows
    rw [Log.iterRows_fst fun _ _ => hdir, (Log.listedPaths_of_follows hfollows).2,
      heffect.directory]
    have hidem : (added.map Row.strip).map Row.strip = added.map Row.strip := by simp
    calc _ = (segments.flatten ++ added.map Row.strip).map Row.strip := congrArg _ hcontent
      _ = (segments.flatten ++ added).map Row.strip := by
          rw [List.map_append, List.map_append, hidem]

theorem iterRows_append_one (row : Row) {now now' : Int} :
    (((coldLog segments malformed sidecars).appendDicts cfg [row] now).iterRows cfg now').1 =
      ((Directory.ofSegments segments).rows 0 ++ [row]).map Row.strip := by
  obtain ⟨heffect, hdir⟩ :=
    Log.effect_appendDicts (coldLog segments malformed sidecars) cfg now (List.cons_ne_nil row [])
  rw [currentIndex] at heffect
  have hpaths :
      ((coldLog segments malformed sidecars).appendDicts cfg [row] now).listedPaths = [0] := by
    unfold Log.listedPaths
    rw [heffect.currentIndex, heffect.directory]
    simp [appendRows, appendRow_empty, Entry.count, Entry.opened]
  rw [Log.iterRows_fst fun _ _ => hdir, hpaths, heffect.directory]
  simp [appendRows, appendRow_empty, coldLog]

end ColdLog

/-- **When a lost index is only a lost cache.** Exactly when no segment after the first holds a row. -/
theorem index_is_cache_iff (cfg : Config) (segments : List (List Row)) (malformed : Bool)
    (sidecars : Nat → Option Sidecar) :
    IndexIsCache cfg (coldLog segments malformed sidecars) segments.flatten ↔
      ∀ rows ∈ segments.tail, rows = [] := by
  constructor
  · rintro ⟨-, happend⟩
    -- one more row, and the segments after the first are gone
    have hone := happend [[]] 0 0
    rw [ColdLog.iterRows_append_one] at hone
    have hlength := congrArg List.length hone
    simp only [List.length_map, List.length_append, List.length_singleton,
      Nat.add_right_cancel_iff, ColdLog.rows_ofSegments] at hlength
    cases segments with
    | nil => simp
    | cons first rest =>
      have hrest : rest.flatten = [] := by
        refine List.length_eq_zero_iff.mp ?_
        simpa using hlength
      simpa using hrest
  · intro h
    exact ⟨fun now => ColdLog.iterRows_of_firstOnly h,
      fun added now now' => ColdLog.iterRows_appendDicts h⟩

/-- Two segments, a missing index, one append: the second segment's row is gone. -/
theorem lost_index_hides_rows :
    ¬ IndexIsCache oneRowConfig (coldLog [[message "m0"], [message "m1"]] false fun _ => none)
      [message "m0", message "m1"] := by
  rintro ⟨-, happend⟩
  have hread := happend [message "m2"] 0 1
  rw [ColdLog.iterRows_append_one] at hread
  have hlength := congrArg List.length hread
  exact absurd hlength (by decide)

end PawFlow.Segments
