import PawFlow.Lib.Bytes
import PawFlow.Lib.JsonLines
import PawFlow.Lib.Newlines

/-!
# Reading a segment file backwards

`_iter_file` reads a segment line by line, `_iter_file_reverse` in chunks from its end
(`core/_segmented_jsonl_io.py`). Wherever the chunks are cut, the second gives the rows of the first
in reverse, as long as both strip a line alike: `str.strip` knows blanks that `bytes.strip` leaves.
-/

namespace PawFlow.Segments

open PawFlow.Lib
open PawFlow.Lib.Json (Layout OneLine loads)

/-! ## The readers -/

section

variable (readFloat : List Char → Option (FloatText × Int × Nat))

/-- The row on a line, after `strip` with the blanks `blank`. -/
def record (blank : Char → Bool) (line : List Char) : Option Json :=
  let raw := trim blank line
  if raw = [] then none else loads readFloat raw

/-- `_iter_file`, none if the file is no UTF-8. -/
def iterFile (data : Bytes) : Option (List Json) :=
  (decodeUtf8 data).map fun text =>
    ((translateNewlines text.toList).splitOn '\n').filterMap (record readFloat isSpace)

/-- The blanks of `bytes.strip`. -/
def asciiBlank (n : Nat) : Bool := n = 32 || (9 ≤ n && n ≤ 13)

-- What `errors="replace"` makes of bytes that are no UTF-8.
variable (replace : Bytes → List Char)

def recordBytes (line : Bytes) : Option Json :=
  let raw := trim (fun b => asciiBlank b.toNat) line
  if raw = [] then none
  else loads readFloat (((decodeUtf8 raw).map String.toList).getD (replace raw))

/-- The loop of `_iter_file_reverse`; `buf` is the start of a line that began before `pos`. -/
def readBack (data : Bytes) (chunkSize : { n : Nat // 1 ≤ n }) (pos : Nat) (buf : Bytes) :
    List Json :=
  if pos = 0 then (recordBytes readFloat replace buf).toList
  else
    let n := min chunkSize.val pos
    let lines := ((data.drop (pos - n)).take n ++ buf).splitOn 10
    lines.tail.reverse.filterMap (recordBytes readFloat replace) ++
      readBack data chunkSize (pos - n) (lines.headD [])
termination_by pos
decreasing_by
  have := chunkSize.property
  omega

def iterFileReverse (data : Bytes) (chunkSize : { n : Nat // 1 ≤ n }) : List Json :=
  readBack readFloat replace data chunkSize data.length []

/-! ## Segment files -/

/-- A line of a file: a dumped dict, blanks, or a text that is no JSON. -/
inductive FileLine where
  | dumped (L : { L : Layout // L.InLine }) (items : List (String × Json))
  | blank (text : { cs : List Char // OneLine cs ∧ ∀ c ∈ cs, isSpace c })
  | malformed (text : { cs : List Char //
      OneLine cs ∧ (∀ c ∈ cs, c.toNat < 128) ∧ loads readFloat cs = none })

variable {readFloat}

def FileLine.text : FileLine readFloat → List Char
  | dumped L items => L.val.write (.obj items)
  | blank text => text.val
  | malformed text => text.val

/-- The text of a file; a newline at its end leaves an empty line behind it. -/
def fileText (lines : List (FileLine readFloat)) (finalNewline : Bool) : List Char :=
  ['\n'].intercalate (lines.map FileLine.text ++ if finalNewline then [[]] else [])

variable (readFloat)

/-- A JSON text with a blank at its start or its end that `bytes.strip` does not know. -/
def Hidden (line : List Char) : Prop :=
  (loads readFloat (trim isSpace line)).isSome ∧
    trim isSpace line ≠ trim (fun c => asciiBlank c.toNat) line

end

/-! ## Chunks -/

section

variable {readFloat : List Char → Option (FloatText × Int × Nat)}
  {replace : Bytes → List Char}

theorem readBack_eq (data : Bytes) (chunkSize : { n : Nat // 1 ≤ n }) (pos : Nat) {buf : Bytes}
    (hbuf : 10 ∉ buf) :
    readBack readFloat replace data chunkSize pos buf =
      (((data.take pos ++ buf).splitOn 10).filterMap (recordBytes readFloat replace)).reverse := by
  induction pos using Nat.strongRecOn generalizing buf with
  | _ pos ih =>
    rw [readBack]
    split_ifs with hpos
    · rw [hpos, List.take_zero, List.nil_append, List.splitOn_eq_singleton hbuf]
      cases h : recordBytes readFloat replace buf <;> simp [h]
    · have hchunk := chunkSize.property
      set n := min chunkSize.val pos with hn
      obtain ⟨first, others, hlines⟩ := List.exists_cons_of_ne_nil
        (List.splitOn_ne_nil 10 ((data.drop (pos - n)).take n ++ buf))
      have hfirst := (mem_splitOn (hlines ▸ List.mem_cons_self :
        first ∈ ((data.drop (pos - n)).take n ++ buf).splitOn 10)).1
      have htake : data.take pos = data.take (pos - n) ++ (data.drop (pos - n)).take n := by
        rw [← List.take_add]
        congr 1
        omega
      dsimp only
      rw [hlines, List.tail_cons, List.headD_cons, ih (pos - n) (by omega) hfirst, htake,
        List.append_assoc, splitOn_append hlines, List.filterMap_append, List.reverse_append,
        List.filterMap_reverse]

theorem iterFileReverse_eq (data : Bytes) (chunkSize : { n : Nat // 1 ≤ n }) :
    iterFileReverse readFloat replace data chunkSize =
      ((data.splitOn 10).filterMap (recordBytes readFloat replace)).reverse := by
  rw [iterFileReverse, readBack_eq _ _ _ List.not_mem_nil, List.take_length, List.append_nil]

/-! ## Bytes and characters -/

variable {c : Char}

theorem toNat_of_mem_utf8EncodeChar {b : UInt8} (h : b ∈ String.utf8EncodeChar c) :
    b.toNat = c.toNat ∨ 128 ≤ b.toNat ∧ 128 ≤ c.toNat := by
  have hval : c.toNat = c.val.toNat := rfl
  unfold String.utf8EncodeChar at h
  dsimp only at h
  split_ifs at h
  all_goals
    simp only [List.mem_cons, List.not_mem_nil, or_false] at h
  · subst h
    rw [UInt8.toNat_ofNat']
    omega
  · rcases h with rfl | rfl <;> simp only [UInt8.toNat_ofNat'] <;> omega
  · rcases h with rfl | rfl | rfl <;> simp only [UInt8.toNat_ofNat'] <;> omega
  · rcases h with rfl | rfl | rfl | rfl <;> simp only [UInt8.toNat_ofNat'] <;> omega

theorem asciiBlank_of_mem {b : UInt8} (h : b ∈ String.utf8EncodeChar c) :
    asciiBlank b.toNat = asciiBlank c.toNat := by
  rcases toNat_of_mem_utf8EncodeChar h with heq | ⟨hb, hc⟩
  · rw [heq]
  · have hfalse : ∀ n, 128 ≤ n → asciiBlank n = false := by
      intro n hn
      simp only [asciiBlank, Bool.or_eq_false_iff, Bool.and_eq_false_iff, decide_eq_false_iff_not]
      omega
    rw [hfalse _ hb, hfalse _ hc]

theorem dropWhile_flatMap {α β : Type} {p : β → Bool} {q : α → Bool} {g : α → List β}
    (hne : ∀ c, g c ≠ []) (hpq : ∀ c, ∀ b ∈ g c, p b = q c) (l : List α) :
    (l.flatMap g).dropWhile p = (l.dropWhile q).flatMap g := by
  induction l with
  | nil => rfl
  | cons c l ih =>
    rw [List.flatMap_cons]
    by_cases hc : q c
    · rw [List.dropWhile_append_of_pos fun b hb => (hpq c b hb).trans hc, ih,
        List.dropWhile_cons_of_pos hc]
    · obtain ⟨b, bs, hbs⟩ := List.exists_cons_of_ne_nil (hne c)
      have hb : ¬ p b := fun hb => hc ((hpq c b (hbs ▸ List.mem_cons_self)).symm.trans hb)
      rw [List.dropWhile_cons_of_neg hc, List.flatMap_cons, hbs, List.cons_append,
        List.dropWhile_cons_of_neg hb]

theorem trim_flatMap {α β : Type} {p : β → Bool} {q : α → Bool} {g : α → List β}
    (hne : ∀ c, g c ≠ []) (hpq : ∀ c, ∀ b ∈ g c, p b = q c) (l : List α) :
    trim p (l.flatMap g) = (trim q l).flatMap g := by
  have hreverse := @dropWhile_flatMap α β p q (fun c => (g c).reverse)
    (fun c => by simpa using hne c) fun c b hb => hpq c b (List.mem_reverse.mp hb)
  rw [trim, dropWhile_flatMap hne hpq, List.rdropWhile, List.reverse_flatMap, Function.comp_def,
    hreverse, List.reverse_flatMap, trim, List.rdropWhile]
  simp [Function.comp_def]

theorem recordBytes_encode (cs : List Char) :
    recordBytes readFloat replace (cs.flatMap String.utf8EncodeChar) =
      record readFloat (fun c => asciiBlank c.toNat) cs := by
  have htrim : trim (fun b => asciiBlank b.toNat) (cs.flatMap String.utf8EncodeChar) =
      (trim (fun c => asciiBlank c.toNat) cs).flatMap String.utf8EncodeChar :=
    trim_flatMap (fun _ => String.utf8EncodeChar_ne_nil) (fun _ _ hb => asciiBlank_of_mem hb) cs
  have hdecode : ∀ ds : List Char,
      decodeUtf8 (ds.flatMap String.utf8EncodeChar) = some (.ofList ds) := by
    intro ds
    have h := decodeUtf8_encodeUtf8 (.ofList ds)
    rwa [encodeUtf8, String.toList_ofList] at h
  rw [recordBytes, htrim, record, hdecode, Option.map_some, Option.getD_some, String.toList_ofList]
  cases trim (fun c => asciiBlank c.toNat) cs with
  | nil => rfl
  | cons d ds =>
    rw [if_neg, if_neg (List.cons_ne_nil d ds)]
    rw [List.flatMap_cons]
    exact List.append_ne_nil_of_left_ne_nil String.utf8EncodeChar_ne_nil _

/-! ## Lines -/

theorem FileLine.oneLine (line : FileLine readFloat) : OneLine line.text := by
  cases line with
  | dumped L items => exact Layout.oneLine_write L.property _
  | blank text => exact text.property.1
  | malformed text => exact text.property.1

variable {lines : List (List Char)} {cs : List Char}

theorem mem_intercalate {a : Char}
    (h : c ∈ [a].intercalate lines) : c = a ∨ ∃ line ∈ lines, c ∈ line := by
  induction lines with
  | nil => exact absurd h List.not_mem_nil
  | cons line lines ih =>
    cases lines with
    | nil => exact .inr ⟨line, by simp, by simpa using h⟩
    | cons next lines =>
      rw [List.intercalate_cons_of_ne_nil (List.cons_ne_nil next lines)] at h
      rcases List.mem_append.mp h with h | h
      · rcases List.mem_append.mp h with h | h
        · exact .inr ⟨line, by simp, h⟩
        · exact .inl (List.mem_singleton.mp h)
      · refine (ih h).imp_right ?_
        rintro ⟨other, hother, hc⟩
        exact ⟨other, List.mem_cons_of_mem line hother, hc⟩

theorem intercalate_flatMap (lines : List (List Char)) :
    (['\n'].intercalate lines).flatMap String.utf8EncodeChar =
      [10].intercalate (lines.map (List.flatMap String.utf8EncodeChar)) := by
  induction lines with
  | nil => rfl
  | cons line lines ih =>
    cases lines with
    | nil => simp
    | cons next lines =>
      have hne : next :: lines ≠ [] := List.cons_ne_nil next lines
      rw [List.intercalate_cons_of_ne_nil hne, List.map_cons,
        List.intercalate_cons_of_ne_nil (List.map_eq_nil_iff.not.mpr hne), List.flatMap_append, List.flatMap_append, ih]
      rfl

theorem iterFile_lines (hne : lines ≠ []) (hlines : ∀ line ∈ lines, OneLine line) :
    iterFile readFloat (encodeUtf8 (.ofList (['\n'].intercalate lines))) =
      some (lines.filterMap (record readFloat isSpace)) := by
  have hreturn : '\r' ∉ ['\n'].intercalate lines := by
    intro hmem
    rcases mem_intercalate hmem with hnewline | ⟨line, hline, hmem⟩
    · exact absurd hnewline (by decide)
    · exact (hlines line hline _ hmem).2 rfl
  rw [iterFile, decodeUtf8_encodeUtf8, Option.map_some, String.toList_ofList,
    translateNewlines_of_not_mem hreturn,
    List.splitOn_intercalate _ (fun line hline hmem => (hlines line hline _ hmem).1 rfl) hne]

theorem iterFileReverse_lines (hne : lines ≠ [])
    (hlines : ∀ line ∈ lines, OneLine line) (chunkSize : { n : Nat // 1 ≤ n }) :
    iterFileReverse readFloat replace (encodeUtf8 (.ofList (['\n'].intercalate lines)))
        chunkSize =
      (lines.filterMap (record readFloat fun c => asciiBlank c.toNat)).reverse := by
  have hbytes : ∀ bytes ∈ lines.map (List.flatMap String.utf8EncodeChar), (10 : UInt8) ∉ bytes := by
    intro bytes hbytes hmem
    obtain ⟨line, hline, rfl⟩ := List.mem_map.mp hbytes
    obtain ⟨c, hc, hbyte⟩ := List.mem_flatMap.mp hmem
    rcases toNat_of_mem_utf8EncodeChar hbyte with heq | ⟨hlarge, -⟩
    · exact (hlines line hline c hc).1 (Char.toNat_inj.mp heq.symm)
    · exact absurd hlarge (by decide)
  rw [iterFileReverse_eq, encodeUtf8, String.toList_ofList, intercalate_flatMap,
    List.splitOn_intercalate _ hbytes (by simpa using hne), List.filterMap_map]
  exact congrArg _ (List.filterMap_congr fun line _ => recordBytes_encode line)

theorem record_of_isSome {v : Json}
    (h : record readFloat (fun c => asciiBlank c.toNat) cs = some v) :
    trim isSpace cs = trim (fun c => asciiBlank c.toNat) cs := by
  rw [record] at h
  split_ifs at h
  have hblank : ∀ c : Char, Json.isBlank c → asciiBlank c.toNat := by
    intro c hc
    have hblanks : [' ', '\t', '\n', '\r'].all fun c => asciiBlank c.toNat := by decide
    exact List.all_eq_true.mp hblanks c (by simpa [Json.isBlank] using hc)
  have hspace : ∀ c : Char, asciiBlank c.toNat → isSpace c := by
    intro c hc
    simp only [asciiBlank, Bool.or_eq_true, Bool.and_eq_true, decide_eq_true_eq] at hc
    simp only [isSpace, Bool.or_eq_true, Bool.and_eq_true, decide_eq_true_eq]
    omega
  have hsolid := Json.solid_of_loads hblank (solid_trim _ cs) h
  rw [← trim_trim hspace, hsolid.trim]

theorem record_eq_iff :
    record readFloat (fun c => asciiBlank c.toNat) cs = record readFloat isSpace cs ↔
      ¬ Hidden readFloat cs := by
  constructor
  · rintro heq ⟨hsome, hne⟩
    obtain ⟨v, hv⟩ := Option.isSome_iff_exists.mp hsome
    have hrecord : record readFloat isSpace cs = some v := by
      rw [record, if_neg, hv]
      intro hnil
      rw [hnil] at hv
      exact absurd hv (by simp [loads, Json.skipBlanks, Json.readValue, Json.readNumber,
        Json.afterInteger])
    exact hne (record_of_isSome (heq.trans hrecord))
  · intro h
    by_cases heq : trim isSpace cs = trim (fun c => asciiBlank c.toNat) cs
    · rw [record, record, heq]
    · have hnone : loads readFloat (trim isSpace cs) = none := by
        by_contra hsome
        exact h ⟨Option.isSome_iff_ne_none.mpr hsome, heq⟩
      have hleft : record readFloat (fun c => asciiBlank c.toNat) cs = none := by
        by_contra hsome
        obtain ⟨v, hv⟩ := Option.ne_none_iff_exists'.mp hsome
        exact heq (record_of_isSome hv)
      rw [hleft, record, hnone, ite_self]

theorem not_hidden_of_isSpace (h : ∀ c ∈ cs, isSpace c) : ¬ Hidden readFloat cs := by
  rintro ⟨hsome, -⟩
  rw [trim_eq_nil h] at hsome
  exact absurd hsome (by simp [loads, Json.skipBlanks, Json.readValue, Json.readNumber,
    Json.afterInteger])

theorem not_hidden_dumped (L : { L : Layout // L.InLine }) (items : List (String × Json)) :
    ¬ Hidden readFloat (.dumped L items : FileLine readFloat).text := by
  rintro ⟨-, hne⟩
  refine hne ?_
  show trim _ ('{' :: (L.val.writeFields items ++ ['}'])) = trim _ ('{' :: (_ ++ ['}']))
  rw [(solid_between (by decide) (by decide) _).trim, (solid_between (by decide) (by decide) _).trim]

/-- If one reader only ever misses what the other finds, they find the same on every line or not the
same in all. -/
theorem filterMap_eq_iff {α β : Type} {f g : α → Option β} (hfg : ∀ a, f a = none ∨ f a = g a)
    (l : List α) : l.filterMap f = l.filterMap g ↔ ∀ a ∈ l, f a = g a := by
  refine ⟨fun h => ?_, List.filterMap_congr⟩
  have hle : ∀ l : List α, (l.filterMap f).length ≤ (l.filterMap g).length := by
    intro l
    induction l with
    | nil => exact le_rfl
    | cons a l ih =>
      rcases hfg a with hnone | heq
      · rw [List.filterMap_cons_none hnone]
        cases hg : g a with
        | none => rwa [List.filterMap_cons_none hg]
        | some b =>
          rw [List.filterMap_cons_some hg, List.length_cons]
          omega
      · rw [List.filterMap_cons, List.filterMap_cons, heq]
        cases g a with
        | none => exact ih
        | some b => simpa using ih
  induction l with
  | nil => simp
  | cons a l ih =>
    have hhead : f a = g a := by
      by_contra hne
      have hnone := (hfg a).resolve_right hne
      obtain ⟨b, hb⟩ := Option.ne_none_iff_exists'.mp fun hg => hne (hnone.trans hg.symm)
      have hlength := congrArg List.length h
      rw [List.filterMap_cons_none hnone, List.filterMap_cons_some hb, List.length_cons] at hlength
      have := hle l
      omega
    rw [List.forall_mem_cons]
    refine ⟨hhead, ih ?_⟩
    rw [List.filterMap_cons, List.filterMap_cons, hhead] at h
    cases hg : g a with
    | none => simpa [hg] using h
    | some b => simpa [hg] using h

theorem readers_fileText (lines : List (FileLine readFloat)) (finalNewline : Bool)
    (chunkSize : { n : Nat // 1 ≤ n }) :
    let data := encodeUtf8 (.ofList (fileText lines finalNewline))
    iterFile readFloat data =
        some ((lines.map FileLine.text).filterMap (record readFloat isSpace)) ∧
      iterFileReverse readFloat replace data chunkSize =
        ((lines.map FileLine.text).filterMap
          (record readFloat fun c => asciiBlank c.toNat)).reverse := by
  have hlines : ∀ cs ∈ lines.map FileLine.text, OneLine cs := by
    intro cs hcs
    obtain ⟨line, -, rfl⟩ := List.mem_map.mp hcs
    exact line.oneLine
  have hempty : ∀ blank, record readFloat blank [] = none := fun _ => rfl
  have hall : ∀ cs ∈ lines.map FileLine.text ++ [[]], OneLine cs := by
    intro cs hcs
    rcases List.mem_append.mp hcs with hcs | hcs
    · exact hlines cs hcs
    · rw [List.mem_singleton.mp hcs]
      exact fun c hc => absurd hc List.not_mem_nil
  -- an empty line at the end of a file holds no row
  have hdrop : ∀ blank, (lines.map FileLine.text ++ [[]]).filterMap (record readFloat blank) =
      (lines.map FileLine.text).filterMap (record readFloat blank) := by
    intro blank
    rw [List.filterMap_append, List.filterMap_cons_none (hempty blank), List.filterMap_nil,
      List.append_nil]
  dsimp only
  by_cases hfinal : finalNewline = false ∧ lines ≠ []
  · have htext : fileText lines finalNewline = ['\n'].intercalate (lines.map FileLine.text) := by
      simp [fileText, hfinal.1]
    have hne : lines.map FileLine.text ≠ [] := List.map_eq_nil_iff.not.mpr hfinal.2
    rw [htext]
    exact ⟨iterFile_lines hne hlines, iterFileReverse_lines hne hlines chunkSize⟩
  · have htext : fileText lines finalNewline =
        ['\n'].intercalate (lines.map FileLine.text ++ [[]]) := by
      cases finalNewline with
      | true => rfl
      | false =>
        obtain rfl : lines = [] := by simpa using hfinal
        rfl
    rw [htext, iterFile_lines (by simp) hall, iterFileReverse_lines (by simp) hall, hdrop, hdrop]
    exact ⟨rfl, rfl⟩

theorem malformed_separated : OneLine ['\x1c', '{', '}'] ∧
    (∀ c ∈ ['\x1c', '{', '}'], c.toNat < 128) ∧ loads (fun _ => none) ['\x1c', '{', '}'] = none :=
  ⟨Json.oneLine_of_all rfl, by simp, by simp [loads, Json.skipBlanks, Json.isBlank, Json.readValue,
    Json.readNumber, Json.isNumberChar, Json.afterInteger]⟩

/-- `\x1c{}`, a dict behind a file separator. -/
def separated : FileLine fun _ => none := .malformed ⟨_, malformed_separated⟩

end

end PawFlow.Segments
