import PawFlow.EditTool.Edit
import PawFlow.Lib.Newlines

/-!
# What an edit touches

An edit by text replaces windows of a file: occurrences of the old text, or runs of whole lines that
are like its lines. Matches are found in the text as it is read, with its newlines translated, and
that text is written back; so the rest of the file stays as it is only where no carriage return is
left in it.
-/

namespace PawFlow.EditTool

open PawFlow.Lib

/-! ## Windows of a file -/

def endsWithBreak (text : List Char) : Bool := text.getLast?.any isLineBreak

def chomp (line : Line) : Line :=
  match line.reverse with
  | '\n' :: '\r' :: rest => rest.reverse
  | c :: rest => if isLineBreak c then rest.reverse else line
  | [] => []

/-- Lines without the end of the last one. -/
def chompRun (run : List Line) : List Char := run.dropLast.flatten ++ chomp (run.getLastD [])

section

variable (text old : List Char)

def OccurrenceWindow (w : Nat × Nat) : Prop :=
  (text.drop w.1).take old.length = old ∧ w.2 = w.1 + old.length

/-- A run of whole lines like those of the old text; the end of the last line belongs to it if the
old text ends with one. -/
def LinesWindow (w : Nat × Nat) : Prop :=
  ∃ i, let run := ((splitLines text).drop i).take (splitLines old).length
    run.map keyOf = (splitLines old).map keyOf ∧ w.1 = windowStart (splitLines text) i ∧
      w.2 = w.1 + (if endsWithBreak old then run.flatten else chompRun run).length

/-- A file is another one with separate windows replaced. -/
structure Touches (new result : List Char) (ws : List (Nat × Nat)) : Prop where
  window : ∀ w ∈ ws, OccurrenceWindow text old w ∨ LinesWindow text old w
  separate : ws.Pairwise fun w w' => w.2 ≤ w'.1
  replaced : result = splice text new 0 ws

end

/-- The windows of a file that these matches were read from. -/
def matchedWindows (original : List Char) (ms : List Match) : List (Nat × Nat) :=
  ms.map fun m => (offset (units original) m.start, offset (units original) m.stop)

/-! ## Lines of a file and lines that are read -/

section

variable {text old : List Char}

theorem chomp_concat (x : List Char) (c : Char) :
    chomp (x ++ [c]) = if c = '\n' ∧ x.getLast? = some '\r' then x.dropLast
      else if isLineBreak c then x else x ++ [c] := by
  rw [chomp, List.reverse_append, List.reverse_singleton, List.singleton_append]
  split
  · next rest heq =>
    obtain ⟨rfl, hrev⟩ := List.cons.inj heq
    have hx : x = rest.reverse ++ ['\r'] := by
      rw [← List.reverse_reverse x, hrev, List.reverse_cons]
    rw [hx, if_pos (by simp), List.dropLast_concat]
  · next c' rest hpair heq =>
    obtain ⟨rfl, rfl⟩ := List.cons.inj heq
    have hno : ¬ (c = '\n' ∧ x.getLast? = some '\r') := by
      rintro ⟨rfl, hlast⟩
      obtain ⟨y, rfl⟩ := List.getLast?_eq_some_iff.mp hlast
      exact hpair y.reverse rfl (by simp)
    rw [if_neg hno, List.reverse_reverse]
  · next heq => exact absurd heq (by simp)

/-- A line of units without its end. -/
def chompUnits (line : List (List Char)) : List (List Char) :=
  if (line.getLast?.map unitChar).any isLineBreak then line.dropLast else line

/-- Units as a file has them. -/
def AreUnits (us : List (List Char)) : Prop := ∀ u ∈ us, u = ['\r', '\n'] ∨ ∃ c, u = [c]

theorem areUnits_units (text : List Char) : AreUnits (units text) := fun _ => eq_of_mem_units

variable {us line : List (List Char)} {original : List Char}

theorem AreUnits.ne_nil (h : AreUnits us) : ∀ u ∈ us, u ≠ [] := by
  intro u hu
  rcases h u hu with rfl | ⟨c, rfl⟩ <;> simp

theorem AreUnits.of_subset {vs : List (List Char)} (h : AreUnits us) (hsub : vs ⊆ us) :
    AreUnits vs := fun u hu => h u (hsub hu)

theorem body_flatten {body : List (List Char)} (hunits : AreUnits body)
    (hbody : ∀ u ∈ body, isLineBreak (unitChar u) = false) :
    body.flatten = body.map unitChar ∧ ∀ c ∈ body.flatten, isLineBreak c = false := by
  have hnone : '\r' ∉ body.flatten := by
    intro hmem
    obtain ⟨u, hu, hr⟩ := List.mem_flatten.mp hmem
    have hbreak := hbody u hu
    rcases hunits u hu with rfl | ⟨c, rfl⟩
    · exact absurd hbreak (by decide)
    · obtain rfl := List.mem_singleton.mp hr
      exact absurd hbreak (by decide)
  have heq := flatten_eq_map hunits hnone
  refine ⟨heq, fun c hc => ?_⟩
  rw [heq] at hc
  obtain ⟨u, hu, rfl⟩ := List.mem_map.mp hc
  exact hbody u hu

theorem chomp_flatten (hunits : AreUnits line)
    (hline : IsUnitLine line) : chomp line.flatten = (chompUnits line).flatten := by
  obtain ⟨body, u, rfl⟩ : ∃ body u, line = body ++ [u] :=
    ⟨line.dropLast, line.getLast hline.ne_nil, (List.dropLast_concat_getLast _).symm⟩
  have hbodyUnits : AreUnits body := hunits.of_subset (by simp)
  obtain ⟨-, hnone⟩ := body_flatten hbodyUnits (by simpa using hline.body)
  have hlast : body.flatten.getLast? ≠ some '\r' := by
    intro h
    exact absurd (hnone _ (List.mem_of_getLast? h)) (by decide)
  rw [chompUnits, List.getLast?_concat, List.dropLast_concat, List.flatten_append,
    List.flatten_singleton]
  rcases hunits u (by simp) with rfl | ⟨c, rfl⟩
  · have hsplit : body.flatten ++ ['\r', '\n'] = (body.flatten ++ ['\r']) ++ ['\n'] := by simp
    rw [hsplit, chomp_concat, if_pos (by simp), List.dropLast_concat, if_pos (by decide)]
  · rw [chomp_concat, if_neg fun h => hlast h.2, Option.map_some, Option.any_some,
      isLineBreak_unitChar]
    split <;> simp

theorem chomp_map (hunits : AreUnits line) (hline : IsUnitLine line) :
    chomp (line.map unitChar) = (chompUnits line).map unitChar := by
  obtain ⟨body, u, rfl⟩ : ∃ body u, line = body ++ [u] :=
    ⟨line.dropLast, line.getLast hline.ne_nil, (List.dropLast_concat_getLast _).symm⟩
  have hbodyUnits : AreUnits body := hunits.of_subset (by simp)
  obtain ⟨heq, hnone⟩ := body_flatten hbodyUnits (by simpa using hline.body)
  have hlast : (body.map unitChar).getLast? ≠ some '\r' := by
    rw [← heq]
    intro h
    exact absurd (hnone _ (List.mem_of_getLast? h)) (by decide)
  rw [chompUnits, List.getLast?_concat, List.dropLast_concat, List.map_append,
    List.map_singleton, chomp_concat, if_neg fun h => hlast h.2, Option.map_some, Option.any_some]
  split <;> simp

/-- The units of a run of lines that a window of them takes. -/
def pieceOf (whole : Bool) (run : List (List (List Char))) : List (List Char) :=
  if whole then run.flatten else run.dropLast.flatten ++ chompUnits (run.getLastD [])

theorem chompUnits_isPrefix (line : List (List Char)) : chompUnits line <+: line := by
  unfold chompUnits
  split
  · exact List.dropLast_prefix line
  · exact List.prefix_rfl

theorem flatten_dropLast_getLastD {α : Type*} (run : List (List α)) :
    run.dropLast.flatten ++ run.getLastD [] = run.flatten := by
  cases run using List.reverseRecOn with
  | nil => rfl
  | append_singleton run line => simp

theorem pieceOf_isPrefix (whole : Bool) (run : List (List (List Char))) :
    pieceOf whole run <+: run.flatten := by
  unfold pieceOf
  split
  · exact List.prefix_rfl
  · conv_rhs => rw [← flatten_dropLast_getLastD run]
    exact (List.prefix_append_right_inj _).mpr (chompUnits_isPrefix _)

theorem chompRun_units {run : List (List (List Char))}
    (hunits : ∀ line ∈ run, AreUnits line) (hlines : ∀ line ∈ run, IsUnitLine line) (whole : Bool) :
    (if whole then (run.map List.flatten).flatten else chompRun (run.map List.flatten)) =
        (pieceOf whole run).flatten ∧
      (if whole then (run.map fun line => line.map unitChar).flatten
        else chompRun (run.map fun line => line.map unitChar)) =
        (pieceOf whole run).map unitChar := by
  cases whole with
  | true =>
    simp only [pieceOf, if_true]
    exact ⟨List.flatten_flatten.symm, List.map_flatten.symm⟩
  | false =>
    simp only [pieceOf, chompRun, Bool.false_eq_true, if_false]
    cases run using List.reverseRecOn with
    | nil => exact ⟨rfl, rfl⟩
    | append_singleton run line =>
      have hline := hlines line (by simp)
      have hlineUnits := hunits line (by simp)
      simp only [List.map_append, List.map_singleton, List.dropLast_concat,
        List.getLastD_concat, List.flatten_append]
      rw [chomp_flatten hlineUnits hline, chomp_map hlineUnits hline, List.map_flatten,
        List.flatten_flatten]
      exact ⟨rfl, rfl⟩

theorem splitLines_translate (original : List Char) :
    splitLines (translateNewlines original) =
      (unitLines (units original)).map fun line => line.map unitChar := by
  rw [← map_units]
  refine splitLines_map ?_
  rw [map_units]
  exact not_mem_translateNewlines original

theorem mem_unitLines
    (h : line ∈ unitLines (units original)) : AreUnits line ∧ IsUnitLine line := by
  refine ⟨(areUnits_units original).of_subset fun u hu => ?_, isUnitLine_of_mem (by simp) h⟩
  rw [← flatten_unitLines (units original)]
  exact List.mem_flatten.mpr ⟨line, h, hu⟩

theorem keyOf_unitLine (hunits : AreUnits line)
    (hline : IsUnitLine line) : keyOf line.flatten = keyOf (line.map unitChar) := by
  rw [keyOf, keyOf, rstripNewline_flatten hunits hline]

theorem windowStart_eq (lines : List Line) (i : Nat) :
    windowStart lines i = (lines.take i).flatten.length := by
  rw [windowStart, List.length_flatten]

theorem windowStart_translate (original : List Char) (i : Nat) :
    windowStart (splitLines (translateNewlines original)) i =
      offset (unitLines (units original)) i := by
  rw [windowStart_eq, splitLines_translate, ← List.map_take, ← List.map_flatten, List.length_map,
    offset]

theorem windowStart_le (original : List Char) (i : Nat) :
    windowStart (splitLines (translateNewlines original)) i ≤ (units original).length := by
  have hle := offset_le_length (unitLines (units original)) i
  rwa [flatten_unitLines, ← windowStart_translate] at hle

theorem windowStart_units (original : List Char) (i : Nat) :
    windowStart (splitLines original) i =
      offset (units original) (windowStart (splitLines (translateNewlines original)) i) := by
  have hprefix := take_offset (unitLines (units original)) i
  rw [flatten_unitLines] at hprefix
  rw [windowStart_translate, offset, hprefix, windowStart_eq, splitLines_eq_flatten,
    ← List.map_take, List.flatten_flatten]

/-- A window of lines of what is read is one of the file. -/
theorem linesWindow_offset {s e : Nat} (hs : s ≤ (units original).length)
    (he : e ≤ (units original).length) :
    LinesWindow original old (offset (units original) s, offset (units original) e) ↔
      LinesWindow (translateNewlines original) old (s, e) := by
  have hne := (areUnits_units original).ne_nil
  unfold LinesWindow
  refine exists_congr fun i => ?_
  obtain ⟨run, hrun⟩ : ∃ run, ((unitLines (units original)).drop i).take (splitLines old).length =
    run := ⟨_, rfl⟩
  have hmem : ∀ line ∈ run, AreUnits line ∧ IsUnitLine line := by
    intro line hline
    rw [← hrun] at hline
    exact mem_unitLines (List.mem_of_mem_drop (List.mem_of_mem_take hline))
  have hfile : ((splitLines original).drop i).take (splitLines old).length =
      run.map List.flatten := by
    rw [splitLines_eq_flatten original, ← List.map_drop, ← List.map_take, hrun]
  have hread : ((splitLines (translateNewlines original)).drop i).take (splitLines old).length =
      run.map fun line => line.map unitChar := by
    rw [splitLines_translate, ← List.map_drop, ← List.map_take, hrun]
  have hkeys : (run.map List.flatten).map keyOf =
      (run.map fun line => line.map unitChar).map keyOf := by
    rw [List.map_map, List.map_map]
    exact List.map_congr_left fun line hline =>
      keyOf_unitLine (hmem line hline).1 (hmem line hline).2
  obtain ⟨hpieceFile, hpieceRead⟩ := chompRun_units (fun line hline => (hmem line hline).1)
    (fun line hline => (hmem line hline).2) (endsWithBreak old)
  obtain ⟨k, hk⟩ : ∃ k, windowStart (splitLines (translateNewlines original)) i = k := ⟨_, rfl⟩
  have hstart : windowStart (splitLines original) i = offset (units original) k := by
    rw [windowStart_units, hk]
  simp only [hfile, hread, hkeys, hpieceFile, hpieceRead, List.length_map, hstart, hk]
  refine and_congr_right fun _ => ?_
  -- the piece is what follows in the file
  have hprefix : pieceOf (endsWithBreak old) run <+: (units original).drop k := by
    have hdrop := drop_offset (unitLines (units original)) i
    rw [flatten_unitLines, ← windowStart_translate, hk] at hdrop
    rw [hdrop]
    refine (pieceOf_isPrefix _ _).trans ?_
    rw [← hrun, ← List.take_append_drop (splitLines old).length
      ((unitLines (units original)).drop i), List.flatten_append]
    simp
  have htake : ((units original).drop k).take (pieceOf (endsWithBreak old) run).length =
      pieceOf (endsWithBreak old) run := (List.prefix_iff_eq_take.mp hprefix).symm
  have hstop : offset (units original) (k + (pieceOf (endsWithBreak old) run).length) =
      offset (units original) k + (pieceOf (endsWithBreak old) run).flatten.length := by
    rw [offset_add, htake]
  have hkle : k ≤ (units original).length := hk ▸ windowStart_le original i
  have hlength := hprefix.length_le
  rw [List.length_drop] at hlength
  constructor
  · rintro ⟨hs', he'⟩
    obtain rfl := offset_inj hne hs hkle hs'
    refine ⟨rfl, offset_inj hne he (by omega) ?_⟩
    rw [he', hstop]
  · rintro ⟨rfl, rfl⟩
    exact ⟨rfl, hstop⟩

/-! ## What matches are -/

variable {pos : Nat}

variable {p : Nat}

variable {cs : List Char} {ms : List Match} {threshold : Rat}

theorem le_of_mem_occurrences {skip : Nat}
    (h : p ∈ occurrences old skip pos cs) : pos + skip ≤ p := by
  fun_induction occurrences old skip pos cs with
  | case1 => exact absurd h (by simp)
  | case2 skip pos _ _ ih =>
    have hle := ih h
    omega
  | case3 pos c cs _ ih =>
    rcases List.mem_cons.mp h with rfl | h
    · exact le_refl _
    · have hle := ih h
      omega
  | case4 pos c cs _ ih =>
    have hle := ih h
    omega

theorem drop_cons_sub (c : Char) (cs : List Char) (h : pos + 1 ≤ p) :
    (c :: cs).drop (p - pos) = cs.drop (p - (pos + 1)) := by
  have hstep : p - pos = (p - (pos + 1)) + 1 := by omega
  rw [hstep, List.drop_succ_cons]

theorem prefix_of_mem_occurrences {skip : Nat}
    (h : p ∈ occurrences old skip pos cs) : old <+: cs.drop (p - pos) := by
  fun_induction occurrences old skip pos cs with
  | case1 => exact absurd h (by simp)
  | case2 skip pos c cs ih =>
    have hle := le_of_mem_occurrences h
    rw [drop_cons_sub c cs (by omega)]
    exact ih h
  | case3 pos c cs hprefix ih =>
    rcases List.mem_cons.mp h with rfl | h
    · rw [Nat.sub_self]
      exact List.isPrefixOf_iff_prefix.mp hprefix
    · have hle := le_of_mem_occurrences h
      rw [drop_cons_sub c cs (by omega)]
      exact ih h
  | case4 pos c cs _ ih =>
    have hle := le_of_mem_occurrences h
    rw [drop_cons_sub c cs (by omega)]
    exact ih h

theorem pairwise_occurrences (old : List Char) (skip pos : Nat) (cs : List Char) :
    (occurrences old skip pos cs).Pairwise (· ≤ ·) := by
  fun_induction occurrences old skip pos cs with
  | case1 => exact List.Pairwise.nil
  | case2 _ _ _ _ ih => exact ih
  | case3 pos c cs _ ih =>
    refine List.pairwise_cons.mpr ⟨fun p hp => ?_, ih⟩
    have hle := le_of_mem_occurrences hp
    omega
  | case4 _ _ _ _ ih => exact ih

variable {m : Match}

theorem mem_exactMatches (hold : old ≠ []) (h : m ∈ exactMatches text old) :
    m.kind = .exact ∧ m.stop = m.start + old.length ∧
      (text.drop m.start).take old.length = old ∧ m.stop ≤ text.length := by
  obtain ⟨p, hp, rfl⟩ := List.mem_map.mp h
  have hprefix : old <+: text.drop p := by simpa using prefix_of_mem_occurrences hp
  have hlength := hprefix.length_le
  have hpos := List.length_pos_iff.mpr hold
  rw [List.length_drop] at hlength
  refine ⟨rfl, rfl, (List.prefix_iff_eq_take.mp hprefix).symm, ?_⟩
  show p + old.length ≤ text.length
  omega

theorem mem_whitespaceMatches (h : m ∈ whitespaceMatches text old) :
    ∃ i, i + (splitLines old).length ≤ (splitLines text).length ∧
      (((splitLines text).drop i).take (splitLines old).length).map keyOf =
        (splitLines old).map keyOf ∧
      m = windowAt text .whitespace 1 (splitLines old).length i := by
  obtain ⟨i, hi, hm⟩ := List.mem_filterMap.mp h
  rw [List.length_map] at hi hm
  split at hm
  · next hkeys =>
    refine ⟨i, ?_, hkeys, (Option.some.inj hm).symm⟩
    have hlt := List.mem_range.mp hi
    omega
  · exact absurd hm (by simp)

theorem windowStart_mono (lines : List Line) {i j : Nat} (h : i ≤ j) :
    windowStart lines i ≤ windowStart lines j := by
  rw [windowStart_eq, windowStart_eq]
  exact offset_mono lines h

theorem pairwise_findWindowMatches (text old : List Char) (ratio : List Char → List Char → Rat)
    (threshold : Rat) :
    (findWindowMatches text old ratio false threshold).Pairwise fun m m' => m.start ≤ m'.start := by
  unfold findWindowMatches
  split
  · exact List.pairwise_map.mpr (pairwise_occurrences old 0 0 text)
  · split
    · exact List.Pairwise.nil
    · rw [if_pos (Or.inr rfl)]
      refine List.Pairwise.filterMap _ ?_ List.pairwise_lt_range
      intro i j hij m hm m' hm'
      split at hm
      · split at hm'
        · rw [← Option.some.inj hm, ← Option.some.inj hm']
          exact windowStart_mono _ hij.le
        · exact absurd hm' (by simp)
      · exact absurd hm (by simp)

theorem selected_subset (ms : List Match) (replaceAll : Bool) : selected ms replaceAll ⊆ ms := by
  unfold selected
  split
  · exact List.Subset.refl _
  · exact List.take_subset 1 ms

def places (ms : List Match) : List (Nat × Nat) := ms.map fun m => (m.start, m.stop)

theorem applyReplacements_eq (h : ms.Pairwise fun m m' => m.start ≤ m'.start)
    (text new : List Char) (replaceAll : Bool) :
    applyReplacements text ms new replaceAll =
      splice text new 0 (places (selected ms replaceAll)) := by
  have hsorted : (selected ms replaceAll).Pairwise fun m m' => m.start ≤ m'.start := by
    unfold selected
    split
    · exact h
    · exact h.sublist (List.take_sublist 1 ms)
  rw [applyReplacements, hsorted.insertionSort_eq, places]

/-! ## Carriage returns -/

theorem count_splice (text new : List Char) (pos : Nat) (ws : List (Nat × Nat)) :
    (splice text new pos ws).count '\r' =
      (splice text [] pos ws).count '\r' + ws.length * new.count '\r' := by
  induction ws generalizing pos with
  | nil => simp [splice]
  | cons w rest ih =>
    simp only [splice, List.count_append, ih w.2, List.count_nil, List.length_cons]
    ring

theorem splice_nil_subset {text : List Char} (pos : Nat) (ws : List (Nat × Nat)) :
    splice text [] pos ws ⊆ text := by
  induction ws generalizing pos with
  | nil => exact List.drop_subset _ _
  | cons w rest ih =>
    rw [splice, List.append_nil]
    refine List.append_subset.mpr ⟨?_, ih w.2⟩
    exact List.Subset.trans (List.drop_subset _ _) (List.take_subset _ _)

def fileWindows (us : List (List Char)) (ws : List (Nat × Nat)) : List (Nat × Nat) :=
  ws.map fun w => (offset us w.1, offset us w.2)

theorem splice_fileWindows (hunits : AreUnits us) (new : List Char)
    (pos : Nat) (ws : List (Nat × Nat))
    (h : '\r' ∉ splice us.flatten [] (offset us pos) (fileWindows us ws)) :
    splice us.flatten new (offset us pos) (fileWindows us ws) =
      splice (us.map unitChar) new pos ws := by
  induction ws generalizing pos with
  | nil =>
    have hnone : '\r' ∉ (us.drop pos).flatten := by
      rw [← drop_offset]
      exact h
    have hsub : AreUnits (us.drop pos) := hunits.of_subset (List.drop_subset _ _)
    show us.flatten.drop (offset us pos) = (us.map unitChar).drop pos
    rw [drop_offset, flatten_eq_map hsub hnone, List.map_drop]
  | cons w rest ih =>
    have hcons : fileWindows us (w :: rest) =
        (offset us w.1, offset us w.2) :: fileWindows us rest := rfl
    rw [hcons, splice, List.append_nil, List.mem_append, not_or, slice_offset] at h
    have hsub : AreUnits ((us.take w.1).drop pos) :=
      hunits.of_subset (List.Subset.trans (List.drop_subset _ _) (List.take_subset _ _))
    rw [hcons, splice, splice, slice_offset, ih w.2 h.2, flatten_eq_map hsub h.1, List.map_drop,
      List.map_take]

/-- Replacing in what is read gives the file with the windows replaced exactly if no carriage
return is left outside them. -/
theorem splice_translate_eq_iff (original new : List Char) (ws : List (Nat × Nat)) :
    splice (translateNewlines original) new 0 ws =
        splice original new 0 (fileWindows (units original) ws) ↔
      '\r' ∉ splice original [] 0 (fileWindows (units original) ws) := by
  constructor
  · intro h
    have hcount := congrArg (List.count '\r') h
    rw [count_splice _ new, count_splice original new] at hcount
    have hnone : '\r' ∉ splice (translateNewlines original) [] 0 ws := fun hmem =>
      not_mem_translateNewlines original (splice_nil_subset _ _ hmem)
    rw [List.count_eq_zero_of_not_mem hnone, fileWindows, List.length_map] at hcount
    refine List.count_eq_zero.mp ?_
    rw [fileWindows]
    omega
  · intro h
    have hsplice := splice_fileWindows (areUnits_units original) new 0 ws
    rw [flatten_units, map_units] at hsplice
    exact (hsplice h).symm

/-! ## The windows of an edit -/

theorem flatten_splitLines (text : List Char) : (splitLines text).flatten = text := by
  rw [splitLines_eq_flatten, ← List.flatten_flatten, flatten_unitLines, flatten_units]

theorem splitLines_ne_nil (h : text ≠ []) : splitLines text ≠ [] := fun hnil =>
  h (by rw [← flatten_splitLines text, hnil]; rfl)

theorem endsWithBreak_concat (x : List Char) (c : Char) :
    endsWithBreak (x ++ [c]) = isLineBreak c := by
  rw [endsWithBreak, List.getLast?_concat, Option.any_some]

theorem chomp_cases (line : Line) :
    endsWithBreak line = false ∧ chomp line = line ∨
      endsWithBreak line = true ∧ (chomp line).length < line.length := by
  cases line using List.reverseRecOn with
  | nil => exact Or.inl ⟨rfl, rfl⟩
  | append_singleton x c =>
    rw [endsWithBreak_concat, chomp_concat, List.length_append, List.length_singleton]
    cases hc : isLineBreak c with
    | false =>
      have hno : ¬ (c = '\n' ∧ x.getLast? = some '\r') := by
        rintro ⟨rfl, -⟩
        exact absurd hc (by decide)
      rw [if_neg hno]
      exact Or.inl ⟨rfl, if_neg (by simp)⟩
    | true =>
      refine Or.inr ⟨rfl, ?_⟩
      split
      · rw [List.length_dropLast]
        omega
      · simp

theorem endsWithBreak_append (x : List Char) {y : List Char} (h : y ≠ []) :
    endsWithBreak (x ++ y) = endsWithBreak y := by
  obtain ⟨z, c, rfl⟩ := (List.eq_nil_or_concat' y).resolve_left h
  rw [← List.append_assoc, endsWithBreak_concat, endsWithBreak_concat]

theorem chompRun_cases {run : List Line} (hne : ∀ line ∈ run, line ≠ []) :
    endsWithBreak run.flatten = false ∧ chompRun run = run.flatten ∨
      endsWithBreak run.flatten = true ∧ (chompRun run).length < run.flatten.length := by
  cases run using List.reverseRecOn with
  | nil => exact Or.inl ⟨rfl, rfl⟩
  | append_singleton run line =>
    have hends : endsWithBreak (run ++ [line]).flatten = endsWithBreak line := by
      rw [List.flatten_append, List.flatten_singleton,
        endsWithBreak_append _ (hne line (by simp))]
    have hchomp : chompRun (run ++ [line]) = run.flatten ++ chomp line := by
      rw [chompRun, List.dropLast_concat, List.getLastD_concat]
    rw [hends, hchomp, List.flatten_append, List.flatten_singleton]
    rcases chomp_cases line with ⟨hno, hsame⟩ | ⟨hyes, hlt⟩
    · exact Or.inl ⟨hno, by rw [hsame]⟩
    · refine Or.inr ⟨hyes, ?_⟩
      rw [List.length_append, List.length_append]
      omega

theorem ne_nil_of_mem_splitLines {line : Line} (h : line ∈ splitLines text) : line ≠ [] := by
  rw [splitLines_eq_flatten] at h
  obtain ⟨units, hunits, rfl⟩ := List.mem_map.mp h
  obtain ⟨hare, hline⟩ := mem_unitLines hunits
  obtain ⟨u, rest, rfl⟩ := List.exists_cons_of_ne_nil hline.ne_nil
  intro hnil
  rw [List.flatten_cons, List.append_eq_nil_iff] at hnil
  exact hare.ne_nil u (by simp) hnil.1

theorem window_units (original : List Char) (s n : Nat) :
    ∃ us, AreUnits us ∧ us.flatten = (original.drop (offset (units original) s)).take
          (offset (units original) (s + n) - offset (units original) s) ∧
      us.map unitChar = ((translateNewlines original).drop s).take n ∧
      offset (units original) (s + n) = offset (units original) s + us.flatten.length := by
  refine ⟨((units original).drop s).take n, ?_, ?_, ?_, offset_add _ _ _⟩
  · exact (areUnits_units original).of_subset
      (List.Subset.trans (List.take_subset _ _) (List.drop_subset _ _))
  · have hdrop := drop_offset (units original) s
    have htake := take_offset ((units original).drop s) n
    rw [flatten_units] at hdrop
    rw [hdrop, offset_add, Nat.add_sub_cancel_left]
    exact htake.symm
  · rw [List.map_take, List.map_drop, map_units]

theorem occurrenceWindow_iff {s : Nat}
    (h : ((translateNewlines original).drop s).take old.length = old) :
    OccurrenceWindow original old
        (offset (units original) s, offset (units original) (s + old.length)) ↔
      '\r' ∉ (original.drop (offset (units original) s)).take
        (offset (units original) (s + old.length) - offset (units original) s) := by
  obtain ⟨us, hunits, hfile, hread, hlength⟩ := window_units original s old.length
  rw [h] at hread
  have hold : '\r' ∉ old := by
    intro hmem
    rw [← h] at hmem
    exact not_mem_translateNewlines original (List.mem_of_mem_drop (List.mem_of_mem_take hmem))
  unfold OccurrenceWindow
  constructor
  · rintro ⟨htake, hstop⟩
    simp only at htake hstop
    rw [hstop, Nat.add_sub_cancel_left, htake]
    exact hold
  · intro hnone
    rw [← hfile] at hnone
    have hsame : us.flatten = old := (flatten_eq_map hunits hnone).trans hread
    rw [hsame] at hlength hfile
    refine ⟨?_, hlength⟩
    rw [hlength, Nat.add_sub_cancel_left] at hfile
    exact hfile.symm

theorem endsWithBreak_flatten (hunits : AreUnits us) :
    endsWithBreak us.flatten = endsWithBreak (us.map unitChar) := by
  cases us using List.reverseRecOn with
  | nil => rfl
  | append_singleton us u =>
    rw [List.flatten_append, List.flatten_singleton, List.map_append, List.map_singleton,
      endsWithBreak_concat, endsWithBreak_append _ (hunits.ne_nil u (by simp))]
    rcases hunits u (by simp) with rfl | ⟨c, rfl⟩
    · rfl
    · rw [isLineBreak_unitChar]
      exact endsWithBreak_concat [] c

/-- The window of a match of lines is one unless it takes in a line end that the old text has
not. -/
theorem whitespaceWindow_iff (hold : old ≠ [])
    (h : m ∈ whitespaceMatches (translateNewlines original) old) :
    m.stop ≤ (units original).length ∧
    ((OccurrenceWindow original old
          (offset (units original) m.start, offset (units original) m.stop) ∨
        LinesWindow original old
          (offset (units original) m.start, offset (units original) m.stop)) ↔
      endsWithBreak old = true ∨ endsWithBreak m.actual = false) := by
  obtain ⟨i, hi, hkeys, rfl⟩ := mem_whitespaceMatches h
  obtain ⟨lines, hlines⟩ : ∃ lines, splitLines (translateNewlines original) = lines := ⟨_, rfl⟩
  obtain ⟨run, hrun⟩ : ∃ run, (lines.drop i).take (splitLines old).length = run := ⟨_, rfl⟩
  obtain ⟨k, hk⟩ : ∃ k, windowStart lines i = k := ⟨_, rfl⟩
  have hne : ∀ line ∈ lines, line ≠ [] := by
    rw [← hlines]
    exact fun line => ne_nil_of_mem_splitLines
  have hrunNe : ∀ line ∈ run, line ≠ [] := by
    rw [← hrun]
    exact fun line hline => hne line (List.mem_of_mem_drop (List.mem_of_mem_take hline))
  have hstart : (windowAt (translateNewlines original) .whitespace 1
      (splitLines old).length i).start = k := by
    simp only [windowAt, hlines, hk]
  have hactual : (windowAt (translateNewlines original) .whitespace 1
      (splitLines old).length i).actual = run.flatten := by
    simp only [windowAt, hlines, hrun]
  have hstop : (windowAt (translateNewlines original) .whitespace 1
      (splitLines old).length i).stop = k + run.flatten.length := by
    simp only [windowAt, hlines, hk, hrun]
  rw [hlines] at hi hkeys
  rw [hrun] at hkeys
  rw [hstart, hactual, hstop]
  have hend : k + run.flatten.length = windowStart lines (i + (splitLines old).length) := by
    rw [← hk, windowStart_eq, windowStart_eq, ← hrun]
    exact (offset_add lines i _).symm
  have hle : k + run.flatten.length ≤ (units original).length := by
    rw [hend, ← hlines]
    exact windowStart_le original _
  refine ⟨hle, ?_⟩
  rw [linesWindow_offset (by omega) hle]
  constructor
  · intro hwindow
    by_contra hnot
    rw [not_or, Bool.not_eq_true, Bool.not_eq_false] at hnot
    obtain ⟨hnoBreak, hbreak⟩ := hnot
    rcases hwindow with ⟨htake, hlast⟩ | ⟨j, hkeys', hplace, hlast⟩
    · -- the old text stands in the file, so it ends as what was read does
      obtain ⟨us, hunits, hfile, hread, hlength⟩ := window_units original k run.flatten.length
      simp only at htake hlast
      rw [hlast, Nat.add_sub_cancel_left, htake] at hfile
      have htext : ((translateNewlines original).drop k).take run.flatten.length = run.flatten := by
        have hdrop := drop_offset lines i
        have hpiece := take_offset (lines.drop i) (splitLines old).length
        rw [← hlines, flatten_splitLines, hlines, offset, ← windowStart_eq, hk] at hdrop
        rw [hdrop, ← hrun]
        exact hpiece
      have hsame := endsWithBreak_flatten hunits
      rw [hfile, hread, htext, hnoBreak, hbreak] at hsame
      exact absurd hsame (by simp)
    · -- the lines are those of the match, without the end of the last one
      simp only [hlines] at hkeys' hplace hlast
      have hpos : 0 < (splitLines old).length :=
        List.length_pos_iff.mpr (splitLines_ne_nil hold)
      have hj : j ≤ lines.length := by
        have hcount := congrArg List.length hkeys'
        simp only [List.length_map, List.length_take, List.length_drop] at hcount
        omega
      have hsame : offset lines j = offset lines i := by
        rw [offset, offset, ← windowStart_eq, ← windowStart_eq, hk, hplace]
      obtain rfl := offset_inj hne hj (by omega) hsame
      rw [hrun, if_neg (by simp [hnoBreak])] at hlast
      rcases chompRun_cases hrunNe with ⟨hno, -⟩ | ⟨-, hlt⟩
      · exact absurd (hbreak.symm.trans hno) (by simp)
      · omega
  · intro hends
    refine Or.inr ⟨i, ?_⟩
    simp only [hlines, hrun, hk]
    refine ⟨hkeys, trivial, ?_⟩
    rcases hends with hends | hends
    · rw [if_pos hends]
    · split
      · rfl
      · rcases chompRun_cases hrunNe with ⟨-, hsame⟩ | ⟨hyes, -⟩
        · rw [hsame]
        · exact absurd (hends.symm.trans hyes) (by simp)

/-! ## Edits by text -/

/-- Where the matches that are replaced keep to windows of the file: they are separate; a match of
lines does not take in a line end that the old text has not; an occurrence across a carriage return
is a run of whole lines; and no carriage return stands outside the matches. -/
structure Contained (original old : List Char) (ms : List Match) : Prop where
  separate : ms.Pairwise fun m m' => m.stop ≤ m'.start
  lineEnd : ∀ m ∈ ms, m.kind = .whitespace →
    endsWithBreak old = true ∨ endsWithBreak m.actual = false
  occurrence : ∀ m ∈ ms, m.kind = .exact →
    '\r' ∉ (original.drop (offset (units original) m.start)).take
        (offset (units original) m.stop - offset (units original) m.start) ∨
      LinesWindow (translateNewlines original) old (m.start, m.stop)
  outside : '\r' ∉ splice original [] 0 (matchedWindows original ms)

theorem fileWindows_places (original : List Char) (ms : List Match) :
    fileWindows (units original) (places ms) = matchedWindows original ms := by
  rw [fileWindows, places, List.map_map]
  rfl

theorem mem_findWindowMatches {ratio : List Char → List Char → Rat}
    (hold : old ≠ [])
    (h : m ∈ findWindowMatches (translateNewlines original) old ratio false threshold) :
    (m.kind = .exact ∧ m ∈ exactMatches (translateNewlines original) old) ∨
      (m.kind = .whitespace ∧ m ∈ whitespaceMatches (translateNewlines original) old) := by
  unfold findWindowMatches at h
  split at h
  · exact Or.inl ⟨(mem_exactMatches hold h).1, h⟩
  · split at h
    · exact absurd h (by simp)
    · rw [if_pos (Or.inr rfl)] at h
      obtain ⟨i, -, -, rfl⟩ := mem_whitespaceMatches h
      exact Or.inr ⟨rfl, h⟩

theorem length_units (original : List Char) :
    (units original).length = (translateNewlines original).length := by
  rw [← map_units, List.length_map]

/-- What is written is the file with the windows of the matches replaced exactly if the matches
keep to them. -/
theorem touches_iff (new : List Char) {ratio : List Char → List Char → Rat}
    (hold : old ≠ [])
    (hms : ms ⊆ findWindowMatches (translateNewlines original) old ratio false threshold) :
    Touches original old new (splice (translateNewlines original) new 0 (places ms))
        (matchedWindows original ms) ↔ Contained original old ms := by
  have hstop : ∀ m ∈ ms, m.stop ≤ (units original).length := by
    intro m hm
    rcases mem_findWindowMatches hold (hms hm) with ⟨-, hexact⟩ | ⟨-, hlines⟩
    · rw [length_units]
      exact (mem_exactMatches hold hexact).2.2.2
    · exact (whitespaceWindow_iff hold hlines).1
  have hseparate : (matchedWindows original ms).Pairwise (fun w w' => w.2 ≤ w'.1) ↔
      ms.Pairwise fun m m' => m.stop ≤ m'.start := by
    rw [matchedWindows, List.pairwise_map]
    refine List.Pairwise.iff_of_mem fun {m m'} hm _ => ?_
    exact offset_le_iff (areUnits_units original).ne_nil (hstop m hm)
  have hreplaced := splice_translate_eq_iff original new (places ms)
  rw [fileWindows_places] at hreplaced
  have hexact : ∀ m ∈ ms, m.kind = .exact →
      ((OccurrenceWindow original old
            (offset (units original) m.start, offset (units original) m.stop) ∨
          LinesWindow original old
            (offset (units original) m.start, offset (units original) m.stop)) ↔
        '\r' ∉ (original.drop (offset (units original) m.start)).take
            (offset (units original) m.stop - offset (units original) m.start) ∨
          LinesWindow (translateNewlines original) old (m.start, m.stop)) := by
    intro m hm hkind
    rcases mem_findWindowMatches hold (hms hm) with ⟨-, hmem⟩ | ⟨hlines, -⟩
    · obtain ⟨-, hlast, htake, -⟩ := mem_exactMatches hold hmem
      have hle := hstop m hm
      rw [linesWindow_offset (by omega) hle, hlast, occurrenceWindow_iff htake]
    · exact absurd (hkind.symm.trans hlines) (by simp)
  constructor
  · intro h
    refine ⟨hseparate.mp h.separate, fun m hm hkind => ?_, fun m hm hkind => ?_,
      hreplaced.mp h.replaced⟩
    · rcases mem_findWindowMatches hold (hms hm) with ⟨hkind', -⟩ | ⟨-, hlines⟩
      · exact absurd (hkind.symm.trans hkind') (by simp)
      · exact (whitespaceWindow_iff hold hlines).2.mp (h.window _ (List.mem_map_of_mem hm))
    · exact (hexact m hm hkind).mp (h.window _ (List.mem_map_of_mem hm))
  · intro h
    refine ⟨fun w hw => ?_, hseparate.mpr h.separate, hreplaced.mpr h.outside⟩
    obtain ⟨m, hm, rfl⟩ := List.mem_map.mp hw
    rcases mem_findWindowMatches hold (hms hm) with ⟨hkind, -⟩ | ⟨hkind, hlines⟩
    · exact (hexact m hm hkind).mpr (h.occurrence m hm hkind)
    · exact (whitespaceWindow_iff hold hlines).2.mpr (h.lineEnd m hm hkind)

end

def Edit.oldText (req : Edit) : List Char := ((req.oldString.or req.old).or req.oldStr).getD []

/-- The text an edit puts in its place. -/
def Edit.newText (req : Edit) : List Char := ((req.newString.or req.new).or req.newStr).getD []

section

variable (ratio : List Char → List Char → Rat) (fault : Option Bytes) (req : Edit) (bytes : Bytes)

def Edit.matchesIn (text : List Char) : Except EditError (List Match) :=
  acceptedMatches ratio (req.replaceAll.getD false) (req.fuzzy.getD false)
    (thresholdOf req.fuzzyThreshold) text req.oldText

/-- An edit that raises leaves the file as it was, and one that does not replaces the windows it
has matched and nothing else. -/
def EditsOnly : Prop :=
  match actionEdit ratio fault req bytes with
  | (.error _, bytes') => bytes' = bytes
  | (.ok _, bytes') => ∃ original ms result, decodeUtf8 bytes = some original ∧
      req.matchesIn ratio (translateNewlines original.toList) = .ok ms ∧
      bytes' = writeText result ∧
      Touches original.toList req.oldText req.newText result
        (matchedWindows original.toList (selected ms (req.replaceAll.getD false)))

variable {ratio fault req bytes}

theorem writeText_injective {text text' : List Char} (h : writeText text = writeText text') :
    text = text' := by
  have hdecode := congrArg decodeUtf8 h
  rw [writeText, writeText, decodeUtf8_encodeUtf8, decodeUtf8_encodeUtf8] at hdecode
  exact String.ofList_injective (Option.some.inj hdecode)

variable (ratio fault bytes) in
/-- `action_edit` with an old text. -/
theorem actionEdit_eq (hmode : ¬ (0 < req.startLine ∧ 0 < req.endLine)) (hold : req.oldText ≠ []) :
    (∃ e, actionEdit ratio fault req bytes = (.error e, bytes) ∧
      ∀ original ms, decodeUtf8 bytes = some original →
        req.matchesIn ratio (translateNewlines original.toList) ≠ .ok ms) ∨
    ∃ original ms, decodeUtf8 bytes = some original ∧
      req.matchesIn ratio (translateNewlines original.toList) = .ok ms ∧
      ((∃ reply, fault = none ∧ actionEdit ratio fault req bytes =
          (.ok reply, writeText (applyReplacements (translateNewlines original.toList) ms
            req.newText (req.replaceAll.getD false)))) ∨
        ∃ left, fault = some left ∧
          actionEdit ratio fault req bytes = (.error .writeFailed, left)) := by
  have hold' : ¬ ((req.oldString.or req.old).or req.oldStr).getD [] = [] := hold
  cases hdecode : decodeUtf8 bytes with
  | none =>
    have hread : readText bytes = none := by rw [readText, hdecode]; rfl
    refine Or.inl ⟨.unreadable, ?_, fun original ms h => absurd h (by simp)⟩
    unfold actionEdit
    simp only [if_neg hmode, if_neg hold', hread]
  | some original =>
    have hread : readText bytes = some (translateNewlines original.toList) := by
      rw [readText, hdecode]
      rfl
    cases hms : req.matchesIn ratio (translateNewlines original.toList) with
    | error e =>
      have hedit := hms
      unfold Edit.matchesIn Edit.oldText at hedit
      refine Or.inl ⟨e, ?_, fun original' ms h h' => ?_⟩
      · unfold actionEdit
        simp only [if_neg hmode, if_neg hold', hread, editString, hedit]
      · obtain rfl := Option.some.inj h
        rw [hms] at h'
        exact absurd h' (by simp)
    | ok ms =>
      have hedit := hms
      unfold Edit.matchesIn Edit.oldText at hedit
      refine Or.inr ⟨original, ms, rfl, hms, ?_⟩
      unfold actionEdit
      simp only [if_neg hmode, if_neg hold', hread, editString, hedit]
      cases fault with
      | none => exact Or.inl ⟨_, rfl, rfl⟩
      | some left => exact Or.inr ⟨left, rfl, rfl⟩

theorem matchesIn_spec {text : List Char} {ms : List Match} (hfuzzy : req.fuzzy.getD false = false)
    (h : req.matchesIn ratio text = .ok ms) :
    ms.Pairwise (fun m m' => m.start ≤ m'.start) ∧
      ms ⊆ findWindowMatches text req.oldText ratio false (thresholdOf req.fuzzyThreshold) := by
  unfold Edit.matchesIn acceptedMatches at h
  rw [hfuzzy] at h
  simp only at h
  split at h
  · exact absurd h (by simp)
  · split at h
    · exact absurd h (by simp)
    · split at h
      · exact absurd h (by simp)
      · rw [← Except.ok.inj h]
        exact ⟨pairwise_findWindowMatches _ _ _ _, List.Subset.refl _⟩

/-- An edit by text keeps to the windows it has matched exactly if they are windows of the file, no
carriage return stands outside them and its write does not fail half way. -/
theorem edit_touches (ratio : List Char → List Char → Rat) (fault : Option Bytes) (bytes : Bytes)
    (hmode : ¬ (0 < req.startLine ∧ 0 < req.endLine)) (hold : req.oldText ≠ [])
    (hfuzzy : req.fuzzy.getD false = false) :
    EditsOnly ratio fault req bytes ↔
      ∀ original ms, decodeUtf8 bytes = some original →
        req.matchesIn ratio (translateNewlines original.toList) = .ok ms →
        match fault with
        | none => Contained original.toList req.oldText
            (selected ms (req.replaceAll.getD false))
        | some left => left = bytes := by
  unfold EditsOnly
  rcases actionEdit_eq ratio fault bytes hmode hold with
    ⟨e, hedit, hnone⟩ |
      ⟨original, ms, hdecode, hms, ⟨reply, rfl, hedit⟩ | ⟨left, rfl, hedit⟩⟩
  · rw [hedit]
    exact iff_of_true rfl fun original ms h h' => absurd h' (hnone original ms h)
  · rw [hedit]
    obtain ⟨hsorted, hsubset⟩ := matchesIn_spec hfuzzy hms
    have htouches := touches_iff req.newText hold
      (List.Subset.trans (selected_subset ms (req.replaceAll.getD false)) hsubset)
    rw [applyReplacements_eq hsorted]
    constructor
    · rintro ⟨original₁, ms₁, result, hdecode₁, hms₁, hwrite, htouched⟩
        original₂ ms₂ hdecode₂ hms₂
      obtain rfl := Option.some.inj (hdecode.symm.trans hdecode₁)
      obtain rfl := Option.some.inj (hdecode.symm.trans hdecode₂)
      obtain rfl := Except.ok.inj (hms.symm.trans hms₁)
      obtain rfl := Except.ok.inj (hms.symm.trans hms₂)
      obtain rfl := writeText_injective hwrite
      exact htouches.mp htouched
    · intro h
      exact ⟨original, ms, _, hdecode, hms, rfl, htouches.mpr (h original ms hdecode hms)⟩
  · rw [hedit]
    constructor
    · intro h _ _ _ _
      exact h
    · intro h
      exact h original ms hdecode hms

end

/-- An edit of one character. -/
def oneEdit : Edit := { oldString := some ['b'], newString := some ['c'] }

theorem edit_touches_newline :
    EditsOnly (fun _ _ => 0) none oneEdit (encodeUtf8 "a\nb\n") := by
  refine (edit_touches _ none _ (by decide) (by decide) rfl).mpr ?_
  intro original ms hdecode hms
  obtain rfl : "a\nb\n" = original :=
    Option.some.inj ((decodeUtf8_encodeUtf8 _).symm.trans hdecode)
  have hone : oneEdit.matchesIn (fun _ _ => 0) (translateNewlines "a\nb\n".toList) =
      .ok [⟨.exact, 2, 3, ['b'], 1⟩] := by
    decide +kernel
  obtain rfl := Except.ok.inj (hone.symm.trans hms)
  refine ⟨List.pairwise_singleton _ _, ?_, ?_, by decide⟩
  · intro m hm hkind
    obtain rfl := List.mem_singleton.mp hm
    exact absurd hkind (by decide)
  · intro m hm _
    obtain rfl := List.mem_singleton.mp hm
    exact Or.inl (by decide)

/-- The line end of a line that was not matched is written anew, so no windows of the file explain
what is written. -/
theorem not_touches_crlf :
    decodeUtf8 [97, 13, 10, 98] = some "a\r\nb" ∧
    actionEdit (fun _ _ => 0) none oneEdit [97, 13, 10, 98] =
      (.ok (.string 1 2 .exact 1), writeText ['a', '\n', 'c']) ∧
    ∀ ws, ¬ Touches "a\r\nb".toList ['b'] ['c'] ['a', '\n', 'c'] ws := by
  refine ⟨by decide +kernel, by decide +kernel, ?_⟩
  rintro ws ⟨hwindow, -, hreplaced⟩
  have hlines : splitLines "a\r\nb".toList = [['a', '\r', '\n'], ['b']] := by decide
  have hplace : ∀ w ∈ ws, w.1 = 3 := by
    rintro ⟨s, e⟩ hw
    rcases hwindow _ hw with ⟨htake, -⟩ | ⟨i, hkeys, hstart, -⟩
    · simp only at htake
      match s, htake with
      | 0, h => exact absurd h (by decide)
      | 1, h => exact absurd h (by decide)
      | 2, h => exact absurd h (by decide)
      | 3, _ => rfl
      | n + 4, h => exact absurd h (by simp)
    · rw [hlines] at hkeys hstart
      match i, hkeys, hstart with
      | 0, h, _ => exact absurd h (by decide)
      | 1, _, h => exact h
      | n + 2, h, _ => exact absurd h (by simp [splitLines, splitLinesFrom])
  cases ws with
  | nil => exact absurd hreplaced (by decide)
  | cons w rest =>
    have hkept : '\r' ∈ splice "a\r\nb".toList ['c'] 0 (w :: rest) := by
      obtain ⟨s, e⟩ := w
      obtain rfl : s = 3 := hplace (s, e) List.mem_cons_self
      rw [splice]
      simp
    rw [← hreplaced] at hkept
    exact absurd hkept (by decide)

end PawFlow.EditTool
