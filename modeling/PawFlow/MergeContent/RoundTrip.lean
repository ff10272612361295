import PawFlow.MergeContent.Split
import PawFlow.MergeContent.Task
import PawFlow.Lib.IntText
import Mathlib.Data.List.Sort

/-!
# Splitting and merging a document

The fragments of several documents reach a merge task in any order. A document is emitted once it
has as many fragments as their count says, which counts the empty pieces that are not emitted.
-/

namespace PawFlow.MergeContent

open PawFlow.Lib PawFlow.Core

/-! ## Merging a stream -/

/-- A task that waits for the count on the fragments. -/
def mergeConfig (separator : String) (minEntries : Int) : Config where
  separator := encodeUtf8 separator
  minEntries := minEntries
  expectedCountAttribute := "fragment.count"

/-- The FlowFiles of one bin among those that came. -/
def pending (l : List FlowFile) (key : String) : List FlowFile :=
  l.filter fun f => f.attr "fragment.identifier" = key

theorem pending_concat_self (l : List FlowFile) (f : FlowFile) :
    pending (l ++ [f]) (f.attr "fragment.identifier") =
      pending l (f.attr "fragment.identifier") ++ [f] := by
  simp [pending]

theorem pending_concat_of_ne (l : List FlowFile) {f : FlowFile} {key : String}
    (h : f.attr "fragment.identifier" ≠ key) : pending (l ++ [f]) key = pending l key := by
  simp [pending, h]

/-- The bins after these FlowFiles, where a bin waits for `n key` of them. -/
structure Waiting (n : String → Nat) (l : List FlowFile) (s : State) : Prop where
  bins : ∀ key, s.bins.get? key =
    if pending l key = [] ∨ (pending l key).length = n key then none else some (pending l key)
  expected : ∀ key, s.binExpected.get? key =
    if pending l key = [] ∨ (pending l key).length = n key then none else some (n key : Int)

section

variable {separator : String} {minEntries : Int} {n : String → Nat} {l : List FlowFile} {s : State}

variable {buf : List FlowFile}

theorem map_snd_of_mapM {g : FlowFile → Option Int} {indexed : List (Int × FlowFile)}
    (h : (buf.mapM fun f => (g f).map fun index => (index, f)) = some indexed) :
    indexed.map Prod.snd = buf := by
  induction buf generalizing indexed with
  | nil =>
    obtain rfl : [] = indexed := by simpa using h
    rfl
  | cons f rest ih =>
    rw [List.mapM_cons] at h
    obtain ⟨p, hp, h⟩ := Option.bind_eq_some_iff.mp h
    obtain ⟨ps, hps, h⟩ := Option.bind_eq_some_iff.mp h
    obtain ⟨index, -, rfl⟩ := Option.map_eq_some_iff.mp hp
    obtain rfl := Option.some.inj h
    rw [List.map_cons, ih hps]

theorem ordered_perm (buf : List FlowFile) : (ordered buf).Perm buf := by
  unfold ordered
  split
  · next indexed hindexed =>
    have hmap : indexed.map Prod.snd = buf := by
      refine map_snd_of_mapM
        (g := fun f => (f.getAttribute "fragment.index").bind fun raw => int? raw) ?_
      simpa [Option.map_bind, Function.comp_def] using hindexed
    have hperm := (List.perm_insertionSort (fun p q : Int × FlowFile => p.1 ≤ q.1) indexed).map
      Prod.snd
    rwa [hmap] at hperm
  · exact List.Perm.refl _

theorem flushBin_fst (cfg : Config) (r : Reads) {key : String}
    (hheader : cfg.header = []) (hfooter : cfg.footer = []) (hbuf : buf ≠ [])
    (h : s.bins.get? key = some buf) :
    ∃ g, (flushBin cfg r key s).1 = [g] ∧
      g.content = join cfg.separator ((ordered buf).map FlowFile.content) := by
  have hordered : ordered buf ≠ [] := fun hnil =>
    hbuf (List.Perm.nil_eq (hnil ▸ ordered_perm buf)).symm
  obtain ⟨first, rest, hcons⟩ := List.exists_cons_of_ne_nil hordered
  unfold flushBin
  simp only [h, Option.getD_some, hcons]
  refine ⟨_, rfl, ?_⟩
  simp [FlowFile.setAttribute, mergedContent, hheader, hfooter]

def State.withBin (s : State) (key : String) (files : List FlowFile) (count : Int) (bytes : Nat) :
    State where
  bins := s.bins.set key files
  binCreated := s.binCreated
  binExpected := s.binExpected.set key count
  binBytes := s.binBytes.set key bytes

variable (separator minEntries) in
theorem execute_mergeConfig (r : Reads) {f : FlowFile} {count : Nat}
    (hkey : f.attr "fragment.identifier" ≠ "") (hpos : 0 < count)
    (hcount : int? (f.attr "fragment.count") = some (count : Int))
    (hbins : (s.openBin r (f.attr "fragment.identifier")).bins.get?
      (f.attr "fragment.identifier") = some buf)
    (hexpected : (s.binExpected.get? (f.attr "fragment.identifier")).getD (count : Int) = count) :
    let key := f.attr "fragment.identifier"
    let opened := s.openBin r key
    let added := opened.withBin key (buf ++ [f]) count ((opened.binBytes.get? key).getD 0 + f.size)
    execute (mergeConfig separator minEntries) r f s =
      if count ≤ buf.length + 1 then
        (.ok (flushBin (mergeConfig separator minEntries) r key added).1, added.pop key)
      else (.ok [], added) := by
  have hbinKey : binKey (mergeConfig separator minEntries) f = f.attr "fragment.identifier" := by
    simp [binKey, mergeConfig, hkey]
  have hok : expectedCount (mergeConfig separator minEntries) f = .ok (count : Int) := by
    simp only [expectedCount, mergeConfig, hcount]
    rw [if_neg (by simp), if_neg (by omega)]
  have hsame : (s.openBin r (f.attr "fragment.identifier")).binExpected = s.binExpected := by
    unfold State.openBin
    split <;> rfl
  have hexpire : expireStaleBins (mergeConfig separator minEntries) r s = s := if_pos (le_refl _)
  rw [execute, hexpire, addToBin, hbinKey, hok]
  simp only [hbins, Option.getD_some, hsame, hexpected, State.withBin]
  rw [if_neg (by simp [mergeConfig]), if_neg (by simp), if_neg (by simp [mergeConfig]),
    if_neg (by simp [mergeConfig])]
  by_cases hle : count ≤ buf.length + 1
  · rw [if_pos (by exact_mod_cast hle), if_pos hle, flushBin_snd]
  · rw [if_neg (by exact_mod_cast hle), if_neg hle]

variable (separator minEntries) in
/-- One more FlowFile: its bin is flushed with it, or goes on waiting. -/
theorem Waiting.step (hs : Waiting n l s) (r : Reads) {f : FlowFile}
    (hkey : f.attr "fragment.identifier" ≠ "")
    (hcount : int? (f.attr "fragment.count") = some (n (f.attr "fragment.identifier") : Int))
    (hroom : (pending l (f.attr "fragment.identifier")).length <
      n (f.attr "fragment.identifier")) :
    let answer := execute (mergeConfig separator minEntries) r f s
    Waiting n (l ++ [f]) answer.2 ∧
    if (pending (l ++ [f]) (f.attr "fragment.identifier")).length =
        n (f.attr "fragment.identifier")
    then ∃ g, answer.1 = .ok [g] ∧ g.content = join (encodeUtf8 separator)
      ((ordered (pending (l ++ [f]) (f.attr "fragment.identifier"))).map FlowFile.content)
    else answer.1 = .ok [] := by
  intro answer
  obtain ⟨key, hk⟩ : ∃ key, f.attr "fragment.identifier" = key := ⟨_, rfl⟩
  have hbuf := hs.bins key
  have hold := hs.expected key
  rw [hk] at hkey hcount hroom
  -- the bin is there exactly if something is pending
  have hopened : (s.openBin r key).bins.get? key = some (pending l key) ∧
      (∀ key', key' ≠ key → (s.openBin r key).bins.get? key' = s.bins.get? key') ∧
      (s.openBin r key).binExpected = s.binExpected ∧
      (s.binExpected.get? key).getD (n key : Int) = n key := by
    by_cases hempty : pending l key = []
    · rw [if_pos (Or.inl hempty)] at hbuf hold
      rw [State.openBin, if_pos hbuf, hold, hempty]
      exact ⟨PyDict.get?_set_self _ _ _, fun _ hne => PyDict.get?_set_of_ne _ _ hne, rfl, rfl⟩
    · rw [if_neg (not_or.mpr ⟨hempty, by omega⟩)] at hbuf hold
      rw [State.openBin, if_neg (by simp [hbuf]), hold]
      exact ⟨hbuf, fun _ _ => rfl, rfl, rfl⟩
  obtain ⟨hbins, hothers, hsame, hdefault⟩ := hopened
  subst hk
  have hanswer := execute_mergeConfig separator minEntries r hkey (by omega) hcount hbins hdefault
  simp only at hanswer
  have hother : ∀ key', key' ≠ f.attr "fragment.identifier" →
      pending (l ++ [f]) key' = pending l key' := fun key' hne =>
    pending_concat_of_ne l fun heq => hne heq.symm
  rw [pending_concat_self, List.length_append, List.length_singleton]
  by_cases hfull : n (f.attr "fragment.identifier") ≤
      (pending l (f.attr "fragment.identifier")).length + 1
  · rw [if_pos hfull] at hanswer
    rw [if_pos (by omega)]
    have hgone : pending (l ++ [f]) (f.attr "fragment.identifier") = [] ∨
        (pending (l ++ [f]) (f.attr "fragment.identifier")).length =
          n (f.attr "fragment.identifier") := by
      right
      rw [pending_concat_self, List.length_append, List.length_singleton]
      omega
    refine ⟨⟨fun key' => ?_, fun key' => ?_⟩, ?_⟩
    · show (execute _ r f s).2.bins.get? key' = _
      rw [hanswer, State.pop, State.withBin, PyDict.get?_erase]
      by_cases heq : key' = f.attr "fragment.identifier"
      · rw [if_pos heq, heq, if_pos hgone]
      · rw [if_neg heq, hother key' heq, PyDict.get?_set_of_ne _ _ heq, hothers key' heq]
        exact hs.bins key'
    · show (execute _ r f s).2.binExpected.get? key' = _
      rw [hanswer, State.pop, State.withBin, PyDict.get?_erase]
      by_cases heq : key' = f.attr "fragment.identifier"
      · rw [if_pos heq, heq, if_pos hgone]
      · rw [if_neg heq, hother key' heq, PyDict.get?_set_of_ne _ _ heq, hsame]
        exact hs.expected key'
    · show ∃ g, (execute _ r f s).1 = .ok [g] ∧ _
      rw [hanswer]
      obtain ⟨g, hg, hcontent⟩ := flushBin_fst (s := (s.openBin r _).withBin _ _ _ _)
        (mergeConfig separator minEntries) r rfl rfl
        (List.append_ne_nil_of_right_ne_nil (pending l _) (List.cons_ne_nil f []))
        (PyDict.get?_set_self _ _ _)
      exact ⟨g, congrArg Except.ok hg, hcontent⟩
  · rw [if_neg hfull] at hanswer
    rw [if_neg (by omega)]
    have hwaiting : ¬ (pending l (f.attr "fragment.identifier") ++ [f] = [] ∨
        (pending l (f.attr "fragment.identifier") ++ [f]).length =
          n (f.attr "fragment.identifier")) := by
      rw [List.length_append, List.length_singleton]
      simp only [List.append_eq_nil_iff, List.cons_ne_self, and_false, false_or]
      omega
    refine ⟨⟨fun key' => ?_, fun key' => ?_⟩, ?_⟩
    · show (execute _ r f s).2.bins.get? key' = _
      rw [hanswer, State.withBin]
      by_cases heq : key' = f.attr "fragment.identifier"
      · rw [heq, pending_concat_self, if_neg hwaiting, PyDict.get?_set_self]
      · rw [hother key' heq, PyDict.get?_set_of_ne _ _ heq, hothers key' heq]
        exact hs.bins key'
    · show (execute _ r f s).2.binExpected.get? key' = _
      rw [hanswer, State.withBin]
      by_cases heq : key' = f.attr "fragment.identifier"
      · rw [heq, pending_concat_self, if_neg hwaiting, PyDict.get?_set_self]
      · rw [hother key' heq, PyDict.get?_set_of_ne _ _ heq, hsame]
        exact hs.expected key'
    · show (execute _ r f s).1 = _
      rw [hanswer]

end

/-! ## The order of the fragments -/

theorem mapM_index {index : FlowFile → Int} {buf : List FlowFile}
    (h : ∀ f ∈ buf, (f.getAttribute "fragment.index").bind int? = some (index f)) :
    (buf.mapM fun f => (f.getAttribute "fragment.index").bind fun raw =>
      (int? raw).map fun index => (index, f)) = some (buf.map fun f => (index f, f)) := by
  induction buf with
  | nil => rfl
  | cons f rest ih =>
    have hf : ((f.getAttribute "fragment.index").bind fun raw =>
        (int? raw).map fun index => (index, f)) = some (index f, f) := by
      have hmap := congrArg (Option.map fun i => (i, f)) (h f (by simp))
      rwa [Option.map_bind] at hmap
    rw [List.mapM_cons, hf, ih fun g hg => h g (by simp [hg])]
    rfl

instance : Std.Total fun p q : Int × FlowFile => p.1 ≤ q.1 := ⟨fun p q => le_total p.1 q.1⟩

instance : IsTrans (Int × FlowFile) fun p q => p.1 ≤ q.1 := ⟨fun _ _ _ => le_trans⟩

theorem ordered_eq {buf files : List FlowFile} (index : FlowFile → Int)
    (hindex : ∀ f ∈ files, (f.getAttribute "fragment.index").bind int? = some (index f))
    (hsorted : files.Pairwise fun f g => index f < index g) (hperm : buf.Perm files) :
    ordered buf = files := by
  have hinj : ∀ f ∈ files, ∀ g ∈ files, index f = index g → f = g := by
    have hnodup : (files.map index).Nodup :=
      List.pairwise_map.mpr (hsorted.imp fun h => ne_of_lt h)
    exact fun f hf g hg heq => List.inj_on_of_nodup_map hnodup hf hg heq
  have hsort : ((buf.map fun f => (index f, f)).insertionSort fun p q => p.1 ≤ q.1) =
      files.map fun f => (index f, f) := by
    have hall := (List.perm_insertionSort (fun p q : Int × FlowFile => p.1 ≤ q.1)
      (buf.map fun f => (index f, f))).trans (hperm.map _)
    have hanti : ∀ p q : Int × FlowFile,
        p ∈ (buf.map fun f => (index f, f)).insertionSort (fun p q => p.1 ≤ q.1) →
        q ∈ files.map (fun f => (index f, f)) → p.1 ≤ q.1 → q.1 ≤ p.1 → p = q := by
      intro p q hp hq hpq hqp
      obtain ⟨f, hf, rfl⟩ := List.mem_map.mp (hall.mem_iff.mp hp)
      obtain ⟨g, hg, rfl⟩ := List.mem_map.mp hq
      rw [hinj f hf g hg (le_antisymm hpq hqp)]
    exact List.Perm.eq_of_pairwise hanti (List.pairwise_insertionSort _ _)
      (List.pairwise_map.mpr (hsorted.imp fun h => le_of_lt h)) hall
  rw [ordered, mapM_index fun f hf => hindex f (hperm.mem_iff.mp hf)]
  simp only [hsort, List.map_map]
  exact List.map_id' files

/-! ## The fragments of a document -/

section

variable (f : FlowFile) (count : Nat) (clone : String × Int) (part : List Char) (i : Nat)

@[simp] theorem fragment_content :
    (fragment f count clone part i).content = encodeUtf8 (.ofList part) := rfl

@[simp] theorem fragment_identifier :
    (fragment f count clone part i).attr "fragment.identifier" = f.processId := by
  unfold fragment
  simp only
  rw [FlowFile.attr_setAttribute_of_ne _ _ (by decide), FlowFile.attr_setAttribute_of_ne _ _
    (by decide), FlowFile.attr_setAttribute_of_ne _ _ (by decide), FlowFile.attr_setAttribute_self]

@[simp] theorem fragment_index :
    (fragment f count clone part i).getAttribute "fragment.index" = some (toString i) := by
  unfold fragment
  simp only
  rw [FlowFile.getAttribute_setAttribute_of_ne _ _ (by decide),
    FlowFile.getAttribute_setAttribute_of_ne _ _ (by decide)]
  exact PyDict.get?_set_self _ _ _

@[simp] theorem fragment_count :
    (fragment f count clone part i).attr "fragment.count" = toString count := by
  unfold fragment
  simp only
  rw [FlowFile.attr_setAttribute_of_ne _ _ (by decide), FlowFile.attr_setAttribute_self]

end

/-- The pieces of a document. -/
def pieces (separator : String) (d : FlowFile) : List (List Char) :=
  match decodeUtf8 d.content with
  | some text => splitText separator.toList none text.toList
  | none => []

/-- The fragments of a document. -/
def fragments (separator : String) (clones : Nat → String × Int) (d : FlowFile) : List FlowFile :=
  (keptParts { separator } (pieces separator d)).map fun p =>
    fragment d (pieces separator d).length (clones p.2) p.1 p.2

section

variable {separator : String} {clones : Nat → String × Int} {d : FlowFile} {out : List FlowFile}

theorem splitContent_eq_ok (h : splitContent { separator } clones d = .ok out) :
    out = if fragments separator clones d = [] then [d] else fragments separator clones d := by
  unfold splitContent at h
  split at h
  · exact absurd h (by simp)
  · next text htext =>
    split at h
    · exact absurd h (by simp)
    · have hparts : splitParts { separator } text.toList = pieces separator d := by
        simp [splitParts, pieces, htext]
      rw [hparts] at h
      exact (Except.ok.inj h).symm

theorem pieces_ne_nil (h : splitContent { separator } clones d = .ok out) :
    pieces separator d ≠ [] := by
  unfold splitContent at h
  split at h
  · exact absurd h (by simp)
  · next text htext =>
    rw [pieces, htext]
    exact splitFrom_ne_nil _ _ _ _ _

theorem length_keptParts (parts : List (List Char)) :
    (keptParts { separator } parts).length = (parts.filter fun p => p ≠ []).length := by
  have hmap : ((keptParts { separator } parts).map Prod.fst) = parts.filter fun p => p ≠ [] := by
    rw [keptParts]
    conv_rhs => rw [← List.zipIdx_map_fst 0 parts, List.filter_map]
    simp [Function.comp_def]
  rw [← hmap, List.length_map]

theorem length_fragments (separator : String) (clones : Nat → String × Int) (d : FlowFile) :
    (fragments separator clones d).length =
      ((pieces separator d).filter fun p => p ≠ []).length := by
  rw [fragments, List.length_map, length_keptParts]

theorem length_fragments_le (separator : String) (clones : Nat → String × Int) (d : FlowFile) :
    (fragments separator clones d).length ≤ (pieces separator d).length := by
  rw [length_fragments]
  exact List.length_filter_le _ _

theorem length_fragments_eq_iff :
    (fragments separator clones d).length = (pieces separator d).length ↔
      [] ∉ pieces separator d := by
  rw [length_fragments, List.length_filter_eq_length_iff]
  constructor
  · intro h hmem
    exact absurd (h [] hmem) (by simp)
  · intro h p hp
    have hne : p ≠ [] := fun heq => h (heq ▸ hp)
    simpa using hne

theorem fragments_eq_nil_iff :
    fragments separator clones d = [] ↔ ∀ p ∈ pieces separator d, p = [] := by
  rw [← List.length_eq_zero_iff, length_fragments, List.length_eq_zero_iff,
    List.filter_eq_nil_iff]
  simp

theorem fragments_content (h : [] ∉ pieces separator d) :
    (fragments separator clones d).map FlowFile.content =
      (pieces separator d).map fun p => encodeUtf8 (.ofList p) := by
  have hkept : keptParts { separator } (pieces separator d) = (pieces separator d).zipIdx := by
    refine List.filter_eq_self.mpr fun p hp => ?_
    have hmem : p.1 ∈ pieces separator d := (List.mem_zipIdx' hp).2 ▸ List.getElem_mem _
    have hne : p.1 ≠ [] := fun heq => h (heq ▸ hmem)
    simpa using hne
  rw [fragments, hkept, List.map_map]
  conv_rhs => rw [← List.zipIdx_map_fst 0 (pieces separator d), List.map_map]
  rfl

theorem length_toDigits_mono {m k : Nat} (h : m ≤ k) :
    (Nat.toDigits 10 m).length ≤ (Nat.toDigits 10 k).length := by
  have hpos : 0 < (Nat.toDigits 10 k).length := Nat.length_toDigits_pos
  rw [Nat.length_toDigits_le_iff (by decide) hpos]
  exact lt_of_le_of_lt h ((Nat.length_toDigits_le_iff (by decide) hpos).mp (le_refl _))

theorem ordered_fragments {buf : List FlowFile}
    (hshort : (Nat.toDigits 10 (pieces separator d).length).length ≤ 4300)
    (hperm : buf.Perm (fragments separator clones d)) :
    ordered buf = fragments separator clones d := by
  let index : FlowFile → Int := fun f =>
    ((f.getAttribute "fragment.index").bind int?).getD 0
  have hread : ∀ p ∈ keptParts { separator } (pieces separator d),
      int? (toString p.2) = some (p.2 : Int) := by
    intro p hp
    have hlt : p.2 < (pieces separator d).length := by
      simpa using (List.mem_zipIdx (List.mem_of_mem_filter hp)).2.1
    exact int?_toString ((length_toDigits_mono hlt.le).trans hshort)
  have hindex : ∀ p ∈ keptParts { separator } (pieces separator d),
      index (fragment d (pieces separator d).length (clones p.2) p.1 p.2) = p.2 := by
    intro p hp
    simp only [index, fragment_index, Option.bind_some, hread p hp, Option.getD_some]
  refine ordered_eq index ?_ ?_ hperm
  · intro f hf
    obtain ⟨p, hp, rfl⟩ := List.mem_map.mp hf
    rw [hindex p hp, fragment_index, Option.bind_some, hread p hp]
  · have hsorted : (keptParts { separator } (pieces separator d)).Pairwise
        fun p q => p.2 < q.2 := by
      refine List.Pairwise.sublist List.filter_sublist ?_
      have hrange := List.pairwise_lt_range' (s := 0) (n := (pieces separator d).length)
      rw [← List.zipIdx_map_snd, List.pairwise_map] at hrange
      exact hrange
    refine List.pairwise_map.mpr (hsorted.imp_of_mem fun {p q} hp hq hlt => ?_)
    rw [hindex p hp, hindex q hq]
    exact_mod_cast hlt

end

theorem join_encodeUtf8 (separator : String) (parts : List (List Char)) :
    join (encodeUtf8 separator) (parts.map fun p => encodeUtf8 (.ofList p)) =
      encodeUtf8 (.ofList (separator.toList.intercalate parts)) := by
  have hencode : ∀ cs : List Char, encodeUtf8 (.ofList cs) = cs.flatMap String.utf8EncodeChar := by
    intro cs
    rw [encodeUtf8, String.toList_ofList]
  unfold join
  rw [hencode]
  induction parts with
  | nil => rfl
  | cons p rest ih =>
    cases rest with
    | nil => simp [hencode]
    | cons q rest =>
      have hjoin : separator.toList.intercalate (p :: q :: rest) =
          p ++ separator.toList ++ separator.toList.intercalate (q :: rest) :=
        List.intercalate_cons_of_ne_nil (by simp)
      rw [List.map_cons, List.intercalate_cons_of_ne_nil (by simp), ih, hjoin,
        List.flatMap_append, List.flatMap_append, hencode]
      rfl

/-! ## Runs -/

/-- A FlowFile that reaches the merge task, with the document it was split from. The code does not
see the document. -/
structure Arrival where
  reads : Reads
  doc : FlowFile
  file : FlowFile

def feed (cfg : Config) (arrivals : List Arrival) : State :=
  arrivals.foldl (fun s a => (execute cfg a.reads a.file s).2) {}

/-- What the task answers to an arrival after others. -/
def answer (cfg : Config) (before : List Arrival) (a : Arrival) :
    Except String (List FlowFile) := (execute cfg a.reads a.file (feed cfg before)).1

/-- Each document is emitted once, with its last FlowFile, as its non-empty pieces with the
separator between them. -/
def Restored (separator : String) (cfg : Config) (arrivals : List Arrival) : Prop :=
  ∀ before a after, arrivals = before ++ a :: after →
    if ∃ b ∈ after, b.doc = a.doc then answer cfg before a = .ok []
    else ∃ g, answer cfg before a = .ok [g] ∧ g.content = encodeUtf8 (.ofList
      (separator.toList.intercalate ((pieces separator a.doc).filter fun p => p ≠ [])))

/-- What is split from some documents arrives in any order. Process ids are fresh, and a list has
fewer than `10 ^ 4300` items. -/
structure Arrives (separator : String) (docs : List FlowFile)
    (clones : FlowFile → Nat → String × Int) (arrivals : List Arrival) : Prop where
  distinct : (docs.map FlowFile.processId).Nodup
  named : ∀ d ∈ docs, d.processId ≠ ""
  short : ∀ d ∈ docs, (Nat.toDigits 10 (pieces separator d).length).length ≤ 4300
  emitted : ∃ out : FlowFile → List FlowFile,
    (∀ d ∈ docs, splitContent { separator } (clones d) d = .ok (out d)) ∧
    (arrivals.map fun a => (a.doc, a.file)).Perm (docs.flatMap fun d => (out d).map fun f => (d, f))

section

variable {separator : String} {docs : List FlowFile} {clones : FlowFile → Nat → String × Int}
  {arrivals : List Arrival}

/-- The FlowFiles that came of one document. -/
def filesOf (arrivals : List Arrival) (d : FlowFile) : List FlowFile :=
  (arrivals.filter fun a => a.doc = d).map Arrival.file

theorem filesOf_append (as bs : List Arrival) (d : FlowFile) :
    filesOf (as ++ bs) d = filesOf as d ++ filesOf bs d := by
  simp [filesOf]

theorem flatMap_filter_eq {out : FlowFile → List FlowFile} {d : FlowFile} (hnodup : docs.Nodup)
    (hd : d ∈ docs) :
    ((docs.flatMap fun e => (out e).map fun f => (e, f)).filter fun p => p.1 = d).map Prod.snd =
      out d := by
  have hsame : ∀ e, e = d → (((out e).map fun f => (e, f)).filter fun p => p.1 = d).map Prod.snd =
      out d := by
    rintro e rfl
    rw [List.filter_eq_self.mpr (by simp), List.map_map]
    exact List.map_id' _
  have hother : ∀ e, e ≠ d → ((out e).map fun f => (e, f)).filter (fun p => p.1 = d) = [] := by
    intro e he
    rw [List.filter_eq_nil_iff]
    rintro ⟨x, y⟩ hxy
    obtain ⟨f, -, hf⟩ := List.mem_map.mp hxy
    obtain ⟨rfl, rfl⟩ := Prod.mk.inj hf
    simpa using he
  induction docs with
  | nil => exact absurd hd (by simp)
  | cons e rest ih =>
    obtain ⟨hnot, hrest⟩ := List.nodup_cons.mp hnodup
    rw [List.flatMap_cons, List.filter_append, List.map_append]
    by_cases he : e = d
    · have hnone : (rest.flatMap fun e => (out e).map fun f => (e, f)).filter
          (fun p => p.1 = d) = [] := by
        rw [List.filter_eq_nil_iff]
        intro p hp
        obtain ⟨e', he', hp⟩ := List.mem_flatMap.mp hp
        obtain ⟨f, -, rfl⟩ := List.mem_map.mp hp
        simp only [decide_eq_true_eq]
        rintro rfl
        exact hnot (he ▸ he')
      rw [hnone, hsame e he]
      simp
    · rw [hother e he, List.map_nil, List.nil_append]
      exact ih hrest ((List.mem_cons.mp hd).resolve_left fun heq => he heq.symm)

theorem Arrives.perm (h : Arrives separator docs clones arrivals) {d : FlowFile} (hd : d ∈ docs) :
    (filesOf arrivals d).Perm (if fragments separator (clones d) d = [] then [d]
      else fragments separator (clones d) d) := by
  obtain ⟨out, hout, hperm⟩ := h.emitted
  have hfiles : filesOf arrivals d =
      ((arrivals.map fun a => (a.doc, a.file)).filter fun p => p.1 = d).map Prod.snd := by
    rw [List.filter_map, List.map_map]
    rfl
  have hfilter : ((docs.flatMap fun e => (out e).map fun f => (e, f)).filter
      fun p => p.1 = d).map Prod.snd = out d := flatMap_filter_eq h.distinct.of_map hd
  rw [← splitContent_eq_ok (hout d hd), ← hfilter, hfiles]
  exact (hperm.filter _).map _

variable {a : Arrival} {before : List Arrival}

theorem Arrives.doc_mem (h : Arrives separator docs clones arrivals)
    (ha : a ∈ arrivals) : a.doc ∈ docs := by
  obtain ⟨out, -, hperm⟩ := h.emitted
  have hmem := hperm.mem_iff.mp (List.mem_map_of_mem (f := fun a => (a.doc, a.file)) ha)
  obtain ⟨d, hd, hp⟩ := List.mem_flatMap.mp hmem
  obtain ⟨f, -, hf⟩ := List.mem_map.mp hp
  rw [← (Prod.mk.inj hf).1]
  exact hd

/-- How many fragments a document announces, by its process id. -/
def announced (separator : String) (docs : List FlowFile) (processId : String) : Nat :=
  ((docs.find? fun d => d.processId = processId).map fun d => (pieces separator d).length).getD 0

theorem Arrives.announced (h : Arrives separator docs clones arrivals) {d : FlowFile}
    (hd : d ∈ docs) : announced separator docs d.processId = (pieces separator d).length := by
  have hfind : docs.find? (fun e => e.processId = d.processId) = some d := by
    cases hfound : docs.find? (fun e => e.processId = d.processId) with
    | none => exact absurd (List.find?_eq_none.mp hfound d hd) (by simp)
    | some e =>
      have heq : e.processId = d.processId := by simpa using List.find?_some hfound
      rw [List.inj_on_of_nodup_map h.distinct (List.mem_of_find?_eq_some hfound) hd heq]
  rw [MergeContent.announced, hfind]
  rfl

theorem Arrives.fragment (h : Arrives separator docs clones arrivals)
    (hsome : ∀ d ∈ docs, fragments separator (clones d) d ≠ []) (ha : a ∈ arrivals) :
    a.file.attr "fragment.identifier" = a.doc.processId ∧
      int? (a.file.attr "fragment.count") = some ((pieces separator a.doc).length : Int) := by
  have hd := h.doc_mem ha
  have hperm := h.perm hd
  rw [if_neg (hsome a.doc hd)] at hperm
  have hmem : a.file ∈ filesOf arrivals a.doc :=
    List.mem_map.mpr ⟨a, List.mem_filter.mpr ⟨ha, by simp⟩, rfl⟩
  obtain ⟨p, -, hp⟩ := List.mem_map.mp (hperm.mem_iff.mp hmem)
  rw [← hp, fragment_identifier, fragment_count]
  exact ⟨rfl, int?_toString (h.short a.doc hd)⟩

theorem Arrives.pending_eq (h : Arrives separator docs clones arrivals)
    (hsome : ∀ d ∈ docs, fragments separator (clones d) d ≠ [])
    (hbefore : ∀ a ∈ before, a ∈ arrivals) {d : FlowFile} (hd : d ∈ docs) :
    pending (before.map Arrival.file) d.processId = filesOf before d := by
  rw [pending, filesOf, List.filter_map]
  congr 1
  refine List.filter_congr fun a ha => ?_
  have hid := (h.fragment hsome (hbefore a ha)).1
  simp only [Function.comp_apply, hid, decide_eq_decide]
  constructor
  · intro heq
    exact List.inj_on_of_nodup_map h.distinct (h.doc_mem (hbefore a ha)) hd heq
  · intro heq
    rw [heq]

variable {after : List Arrival}

theorem Arrives.room (h : Arrives separator docs clones arrivals)
    (hsome : ∀ d ∈ docs, fragments separator (clones d) d ≠ [])
    (heq : arrivals = before ++ a :: after) :
    (filesOf before a.doc).length + 1 + (filesOf after a.doc).length =
      (fragments separator (clones a.doc) a.doc).length := by
  have hd := h.doc_mem (a := a) (by simp [heq])
  have hperm := h.perm hd
  rw [if_neg (hsome a.doc hd)] at hperm
  rw [← hperm.length_eq, heq]
  simp [filesOf]
  omega

theorem Arrives.step (h : Arrives separator docs clones arrivals) (minEntries : Int)
    (hsome : ∀ d ∈ docs, fragments separator (clones d) d ≠ []) {before after : List Arrival}
    {a : Arrival} (heq : arrivals = before ++ a :: after)
    (hwaiting : Waiting (MergeContent.announced separator docs) (before.map Arrival.file)
      (feed (mergeConfig separator minEntries) before)) :
    Waiting (MergeContent.announced separator docs) ((before ++ [a]).map Arrival.file)
      (feed (mergeConfig separator minEntries) (before ++ [a])) ∧
    if (filesOf before a.doc).length + 1 = (pieces separator a.doc).length
    then ∃ g, answer (mergeConfig separator minEntries) before a = .ok [g] ∧
      g.content = join (encodeUtf8 separator)
        ((ordered (filesOf (before ++ [a]) a.doc)).map FlowFile.content)
    else answer (mergeConfig separator minEntries) before a = .ok [] := by
  have ha : a ∈ arrivals := by simp [heq]
  have hbefore : ∀ b ∈ before, b ∈ arrivals := fun b hb => by simp [heq, hb]
  have hd := h.doc_mem ha
  obtain ⟨hid, hcount⟩ := h.fragment hsome ha
  have hpending := h.pending_eq hsome hbefore hd
  have hpending' : pending ((before ++ [a]).map Arrival.file) a.doc.processId =
      filesOf (before ++ [a]) a.doc := by
    refine h.pending_eq hsome (fun b hb => ?_) hd
    rcases List.mem_append.mp hb with hb | hb
    · exact hbefore b hb
    · exact List.mem_singleton.mp hb ▸ ha
  have hroom := h.room hsome heq
  have hle := length_fragments_le separator (clones a.doc) a.doc
  have hstep := hwaiting.step separator minEntries a.reads
    (f := a.file) (by rw [hid]; exact h.named a.doc hd) (by rw [hid, h.announced hd, hcount])
    (by rw [hid, hpending, h.announced hd]; omega)
  rw [hid, h.announced hd, ← List.map_singleton, ← List.map_append, hpending'] at hstep
  obtain ⟨hnext, hanswer⟩ := hstep
  refine ⟨?_, ?_⟩
  · rw [feed, List.foldl_append]
    exact hnext
  · have hlength : (filesOf (before ++ [a]) a.doc).length = (filesOf before a.doc).length + 1 := by
      simp [filesOf]
    rw [hlength] at hanswer
    exact hanswer

theorem Arrives.waiting (h : Arrives separator docs clones arrivals) (minEntries : Int)
    (hsome : ∀ d ∈ docs, fragments separator (clones d) d ≠ [])
    (heq : arrivals = before ++ after) :
    Waiting (MergeContent.announced separator docs) (before.map Arrival.file)
      (feed (mergeConfig separator minEntries) before) := by
  induction before using List.reverseRecOn generalizing after with
  | nil => exact ⟨fun _ => rfl, fun _ => rfl⟩
  | append_singleton before a ih =>
    have heq' : arrivals = before ++ a :: after := by simpa using heq
    exact (h.step minEntries hsome heq' (ih heq')).1

theorem exists_last {p : Arrival → Prop} (h : ∃ a ∈ arrivals, p a) :
    ∃ before a after, arrivals = before ++ a :: after ∧ p a ∧ ∀ b ∈ after, ¬ p b := by
  induction arrivals with
  | nil => exact absurd h (by simp)
  | cons x rest ih =>
    by_cases hrest : ∃ a ∈ rest, p a
    · obtain ⟨before, a, after, rfl, ha, hafter⟩ := ih hrest
      exact ⟨x :: before, a, after, rfl, ha, hafter⟩
    · obtain ⟨a, ha, hp⟩ := h
      rcases List.mem_cons.mp ha with rfl | ha
      · exact ⟨[], a, rest, rfl, hp, fun b hb hpb => hrest ⟨b, hb, hpb⟩⟩
      · exact absurd ⟨a, ha, hp⟩ hrest

theorem answer_of_no_count (separator : String) (minEntries : Int) (before : List Arrival)
    (h : int? (a.file.attr "fragment.count") = none) :
    ∃ message, answer (mergeConfig separator minEntries) before a = .error message := by
  have hcount : ∃ message, expectedCount (mergeConfig separator minEntries) a.file =
      .error message := by
    simp only [expectedCount, mergeConfig, h]
    exact ⟨_, if_neg (by simp)⟩
  obtain ⟨message, hmessage⟩ := hcount
  refine ⟨message, ?_⟩
  rw [answer, execute, addToBin, hmessage]

end

/-! ## Documents that are split and merged -/

theorem pieces_eq {separator : String} (text : String) {d : FlowFile} (h : d.content = encodeUtf8 text) :
    pieces separator d = splitText separator.toList none text.toList := by
  rw [pieces, h, decodeUtf8_encodeUtf8]

theorem splitContent_eq {separator text : String} {d : FlowFile} (clones : Nat → String × Int)
    (hsep : separator ≠ "") (h : d.content = encodeUtf8 text)
    (hsome : fragments separator clones d ≠ []) :
    splitContent { separator } clones d = .ok (fragments separator clones d) := by
  have hparts : splitParts { separator } text.toList = pieces separator d := by
    rw [pieces_eq text h]
    simp [splitParts]
  rw [splitContent, h, decodeUtf8_encodeUtf8]
  simp only [if_neg hsep, hparts]
  exact congrArg Except.ok (if_neg hsome)

theorem arrives_singleton {separator text : String} {d : FlowFile}
    {clones : FlowFile → Nat → String × Int} {arrivals : List Arrival} (hsep : separator ≠ "")
    (h : d.content = encodeUtf8 text) (hid : d.processId ≠ "")
    (hshort : (Nat.toDigits 10 (pieces separator d).length).length ≤ 4300)
    (hsome : fragments separator (clones d) d ≠ [])
    (hperm : (arrivals.map fun a => (a.doc, a.file)).Perm
      ((fragments separator (clones d) d).map fun f => (d, f))) :
    Arrives separator [d] clones arrivals where
  distinct := List.nodup_singleton _
  named := by simpa using hid
  short := by simpa using hshort
  emitted := by
    refine ⟨fun d => fragments separator (clones d) d, ?_, by simpa using hperm⟩
    intro d' hd'
    obtain rfl := List.mem_singleton.mp hd'
    exact splitContent_eq (clones d') hsep h hsome

def letters : FlowFile := { processId := "p", content := encodeUtf8 "a\nb" }

def line : FlowFile := { processId := "p", content := encodeUtf8 "a\n" }

def arrivalOf (d : FlowFile) (part : List Char) (i : Nat) : Arrival where
  reads := ⟨0, 0, "m", 0⟩
  doc := d
  file := fragment d 2 ("c", 0) part i

theorem pieces_letters : pieces "\n" letters = [['a'], ['b']] := by
  rw [pieces_eq "a\nb" rfl]
  decide +kernel

theorem pieces_line : pieces "\n" line = [['a'], []] := by
  rw [pieces_eq "a\n" rfl]
  decide +kernel

/-- Documents without an empty piece are restored. Documents with one are not, unless a FlowFile
that consists of empty pieces, which is emitted as it came, has a count of its own. -/
theorem split_then_merge {separator : String} (minEntries : Int) {docs : List FlowFile}
    {clones : FlowFile → Nat → String × Int} {arrivals : List Arrival}
    (h : Arrives separator docs clones arrivals) :
    ((∀ d ∈ docs, [] ∉ pieces separator d) →
      Restored separator (mergeConfig separator minEntries) arrivals) ∧
    ((∀ d ∈ docs, (∀ p ∈ pieces separator d, p = []) →
        int? (d.attr "fragment.count") = none) →
      Restored separator (mergeConfig separator minEntries) arrivals →
      ∀ d ∈ docs, [] ∉ pieces separator d) := by
  constructor
  · intro hnone before a after heq
    have hd := h.doc_mem (a := a) (by simp [heq])
    have hcount : ∀ d ∈ docs, (fragments separator (clones d) d).length =
        (pieces separator d).length := fun d hd => length_fragments_eq_iff.mpr (hnone d hd)
    have hsome : ∀ d ∈ docs, fragments separator (clones d) d ≠ [] := by
      intro d hd hnil
      obtain ⟨out, hout, -⟩ := h.emitted
      have hlength := hcount d hd
      rw [hnil, List.length_nil] at hlength
      exact pieces_ne_nil (hout d hd) (List.length_eq_zero_iff.mp hlength.symm)
    have hroom := h.room hsome heq
    rw [hcount a.doc hd] at hroom
    have hanswer := (h.step minEntries hsome heq (h.waiting minEntries hsome heq)).2
    by_cases hlater : ∃ b ∈ after, b.doc = a.doc
    · rw [if_pos hlater]
      obtain ⟨b, hb, hdoc⟩ := hlater
      have hpos : 0 < (filesOf after a.doc).length :=
        List.length_pos_of_mem (List.mem_map_of_mem (List.mem_filter.mpr ⟨hb, by simpa using hdoc⟩))
      rwa [if_neg (by omega)] at hanswer
    · rw [if_neg hlater]
      have hafter : filesOf after a.doc = [] := by
        rw [filesOf, List.map_eq_nil_iff, List.filter_eq_nil_iff]
        intro b hb
        simpa using fun hdoc => hlater ⟨b, hb, hdoc⟩
      rw [hafter, List.length_nil] at hroom
      rw [if_pos (by omega)] at hanswer
      obtain ⟨g, hg, hcontent⟩ := hanswer
      refine ⟨g, hg, hcontent.trans ?_⟩
      have hperm := h.perm hd
      rw [if_neg (hsome a.doc hd), heq, ← List.singleton_append, ← List.append_assoc,
        filesOf_append, hafter, List.append_nil] at hperm
      have hfilter : (pieces separator a.doc).filter (fun p => p ≠ []) =
          pieces separator a.doc := by
        refine List.filter_eq_self.mpr fun p hp => ?_
        have hne : p ≠ [] := fun hempty => hnone a.doc hd (hempty ▸ hp)
        simpa using hne
      rw [ordered_fragments (h.short a.doc hd) hperm, fragments_content (hnone a.doc hd),
        join_encodeUtf8, hfilter]
  · intro huncounted hrestored
    by_contra hempty
    have hsome : ∀ d ∈ docs, fragments separator (clones d) d ≠ [] := by
      -- a document of empty pieces is rejected
      intro d hd hnil
      have hperm := h.perm hd
      rw [if_pos hnil] at hperm
      have hmem : d ∈ filesOf arrivals d := hperm.mem_iff.mpr (by simp)
      obtain ⟨a, ha, hfile⟩ := List.mem_map.mp hmem
      obtain ⟨ha, hdoc⟩ := List.mem_filter.mp ha
      obtain ⟨before, after, heq⟩ := List.append_of_mem ha
      obtain ⟨message, hmessage⟩ := answer_of_no_count separator minEntries before (a := a)
        (by rw [hfile]; exact huncounted d hd (fragments_eq_nil_iff.mp hnil))
      have hgot := hrestored before a after heq
      rw [hmessage] at hgot
      split at hgot
      · exact absurd hgot (by simp)
      · obtain ⟨g, hg, -⟩ := hgot
        exact absurd hg (by simp)
    push Not at hempty
    obtain ⟨d, hd, hpiece⟩ := hempty
    -- the last fragment does not complete the bin
    have hperm := h.perm hd
    rw [if_neg (hsome d hd)] at hperm
    obtain ⟨f, hf⟩ := List.exists_mem_of_ne_nil _ (hsome d hd)
    obtain ⟨a, ha, -⟩ := List.mem_map.mp (hperm.mem_iff.mpr hf)
    obtain ⟨ha, hdoc⟩ := List.mem_filter.mp ha
    obtain ⟨before, a, after, heq, rfl, hafter⟩ :=
      exists_last (p := fun a => a.doc = d) ⟨a, ha, by simpa using hdoc⟩
    have hgot := hrestored before a after heq
    rw [if_neg (by simpa using hafter)] at hgot
    obtain ⟨g, hg, -⟩ := hgot
    have hroom := h.room hsome heq
    have hlt : (fragments separator (clones a.doc) a.doc).length <
        (pieces separator a.doc).length :=
      lt_of_le_of_ne (length_fragments_le _ _ _)
        fun hsame => length_fragments_eq_iff.mp hsame hpiece
    have hanswer := (h.step minEntries hsome heq (h.waiting minEntries hsome heq)).2
    rw [if_neg (by omega), hg] at hanswer
    exact absurd hanswer (by simp)

theorem split_then_merge_letters :
    Restored "\n" (mergeConfig "\n" 2) [arrivalOf letters ['b'] 1, arrivalOf letters ['a'] 0] := by
  have hfragments : fragments "\n" (fun _ => ("c", 0)) letters =
      [fragment letters 2 ("c", 0) ['a'] 0, fragment letters 2 ("c", 0) ['b'] 1] := by
    rw [fragments, pieces_letters]
    rfl
  have harrives : Arrives "\n" [letters] (fun _ _ => ("c", 0))
      [arrivalOf letters ['b'] 1, arrivalOf letters ['a'] 0] := by
    refine arrives_singleton (by decide) rfl (by decide) ?_ ?_ ?_
    · rw [pieces_letters]
      decide
    · rw [hfragments]
      exact List.cons_ne_nil _ _
    · rw [hfragments]
      exact List.Perm.swap _ _ _
  refine (split_then_merge 2 harrives).1 ?_
  intro d hd
  rw [List.mem_singleton.mp hd, pieces_letters]
  decide

/-- A text that ends with the separator is never emitted again. -/
theorem not_restored_line :
    Arrives "\n" [line] (fun _ _ => ("c", 0)) [arrivalOf line ['a'] 0] ∧
    ¬ Restored "\n" (mergeConfig "\n" 2) [arrivalOf line ['a'] 0] := by
  have hfragments : fragments "\n" (fun _ => ("c", 0)) line =
      [fragment line 2 ("c", 0) ['a'] 0] := by
    rw [fragments, pieces_line]
    rfl
  constructor
  · refine arrives_singleton (by decide) rfl (by decide) ?_ ?_ ?_
    · rw [pieces_line]
      decide
    · rw [hfragments]
      exact List.cons_ne_nil _ _
    · rw [hfragments]
      exact List.Perm.refl _
  · intro h
    obtain ⟨g, hg, -⟩ := (if_neg (by simp)).mp (h [] (arrivalOf line ['a'] 0) [] rfl)
    have hnothing : answer (mergeConfig "\n" 2) [] (arrivalOf line ['a'] 0) = .ok [] := by
      decide +kernel
    rw [hnothing] at hg
    exact absurd hg (by simp)

end PawFlow.MergeContent
