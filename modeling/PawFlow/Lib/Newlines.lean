import PawFlow.Lib.Lines
import Mathlib.Tactic

/-!
# Texts read with their newlines translated

A text file is read unit by unit: a carriage return with the newline after it is one unit, and so is
every other character. What is read has one character for each unit, so a position in it stands for
a position in the file.
-/

namespace PawFlow.Lib

/-- The units of a text file. -/
def units : List Char → List (List Char)
  | [] => []
  | '\r' :: '\n' :: rest => ['\r', '\n'] :: units rest
  | c :: rest => [c] :: units rest

/-- What a unit is read as. -/
def unitChar : List Char → Char
  | '\r' :: _ => '\n'
  | c :: _ => c
  | [] => '\n'

theorem unitChar_singleton {c : Char} (h : c ≠ '\r') : unitChar [c] = c := by
  unfold unitChar
  split
  · next heq => exact absurd (List.cons.inj heq).1 h
  · next heq => exact (List.cons.inj heq).1.symm
  · next heq => exact absurd heq (by simp)

theorem flatten_units (text : List Char) : (units text).flatten = text := by
  fun_induction units text with
  | case1 => rfl
  | case2 rest ih => simp [ih]
  | case3 c rest _ ih => simp [ih]

theorem map_units (text : List Char) : (units text).map unitChar = translateNewlines text := by
  fun_induction units text with
  | case1 => rfl
  | case2 rest ih => rw [translateNewlines, List.map_cons, ih]; rfl
  | case3 c rest hpair ih =>
    by_cases hc : c = '\r'
    · subst hc
      rw [translateNewlines.eq_3 _ (by simpa using hpair), List.map_cons, ih]
      rfl
    · rw [List.map_cons, ih, translateNewlines.eq_4 _ _ (by simpa using hpair) hc]
      simp [unitChar_singleton hc]

theorem not_mem_translateNewlines (text : List Char) : '\r' ∉ translateNewlines text := by
  fun_induction translateNewlines text with
  | case1 => simp
  | case2 rest ih => simpa using ih
  | case3 rest _ ih => simpa using ih
  | case4 c rest hpair hcr ih =>
    have hne : c ≠ '\r' := fun h => hcr h
    rw [List.mem_cons, not_or]
    exact ⟨hne.symm, ih⟩

theorem translateNewlines_of_not_mem {text : List Char} (h : '\r' ∉ text) :
    translateNewlines text = text := by
  fun_induction translateNewlines text with
  | case1 => rfl
  | case2 => exact absurd h (by simp)
  | case3 => exact absurd h (by simp)
  | case4 c rest _ _ ih => rw [ih fun hmem => h (List.mem_cons_of_mem _ hmem)]

theorem eq_of_mem_units {text u : List Char} (h : u ∈ units text) :
    u = ['\r', '\n'] ∨ ∃ c, u = [c] := by
  fun_induction units text with
  | case1 => exact absurd h (by simp)
  | case2 rest ih =>
    rcases List.mem_cons.mp h with rfl | h
    · exact Or.inl rfl
    · exact ih h
  | case3 c rest _ ih =>
    rcases List.mem_cons.mp h with rfl | h
    · exact Or.inr ⟨c, rfl⟩
    · exact ih h

/-! ## Positions -/

section

variable {α : Type*} {us : List (List α)}

/-- Where the unit at a position begins. -/
def offset (us : List (List α)) (k : Nat) : Nat := (us.take k).flatten.length

@[simp] theorem offset_zero (us : List (List α)) : offset us 0 = 0 := rfl

theorem take_offset (us : List (List α)) (k : Nat) :
    us.flatten.take (offset us k) = (us.take k).flatten := by
  have hsplit : us.flatten = (us.take k).flatten ++ (us.drop k).flatten := by
    rw [← List.flatten_append, List.take_append_drop]
  rw [hsplit, offset, List.take_left]

theorem drop_offset (us : List (List α)) (k : Nat) :
    us.flatten.drop (offset us k) = (us.drop k).flatten := by
  have hsplit : us.flatten = (us.take k).flatten ++ (us.drop k).flatten := by
    rw [← List.flatten_append, List.take_append_drop]
  rw [hsplit, offset, List.drop_left]

theorem offset_add (us : List (List α)) (s n : Nat) :
    offset us (s + n) = offset us s + ((us.drop s).take n).flatten.length := by
  rw [offset, List.take_add, List.flatten_append, List.length_append, offset]

theorem offset_le_length (us : List (List α)) (k : Nat) : offset us k ≤ us.flatten.length := by
  conv_rhs => rw [← List.take_append_drop k us, List.flatten_append, List.length_append]
  exact Nat.le_add_right _ _

variable {a b : Nat}

theorem offset_mono (us : List (List α)) (h : a ≤ b) : offset us a ≤ offset us b := by
  obtain ⟨n, rfl⟩ := Nat.exists_eq_add_of_le h
  rw [offset_add]
  omega

theorem slice_offset (us : List (List α)) (s e : Nat) :
    (us.flatten.take (offset us e)).drop (offset us s) = ((us.take e).drop s).flatten := by
  rw [take_offset]
  rcases le_total s e with hle | hle
  · have hsame : offset us s = offset (us.take e) s := by
      rw [offset, offset, List.take_take, min_eq_left hle]
    rw [hsame, drop_offset]
  · have hlength : (us.take e).flatten.length ≤ offset us s := offset_mono us hle
    rw [List.drop_eq_nil_of_le hlength, List.drop_eq_nil_of_le (by simp; omega)]
    rfl

theorem offset_lt (hne : ∀ u ∈ us, u ≠ []) (hab : a < b) (ha : a < us.length) :
    offset us a < offset us b := by
  have hstep : offset us a < offset us (a + 1) := by
    rw [offset_add]
    have hmem : us[a] ∈ us := List.getElem_mem ha
    have htake : (us.drop a).take 1 = [us[a]] := by
      rw [List.drop_eq_getElem_cons ha]
      rfl
    have hpos := List.length_pos_iff.mpr (hne _ hmem)
    rw [htake]
    simpa using hpos
  exact lt_of_lt_of_le hstep (offset_mono us hab)

theorem offset_le_iff (hne : ∀ u ∈ us, u ≠ []) (ha : a ≤ us.length) :
    offset us a ≤ offset us b ↔ a ≤ b := by
  constructor
  · intro h
    by_contra hlt
    have hbelow := offset_lt hne (not_le.mp hlt) (lt_of_lt_of_le (not_le.mp hlt) ha)
    omega
  · exact fun h => offset_mono us h

theorem offset_inj (hne : ∀ u ∈ us, u ≠ []) (ha : a ≤ us.length)
    (hb : b ≤ us.length) (h : offset us a = offset us b) : a = b :=
  le_antisymm ((offset_le_iff hne ha).mp h.le) ((offset_le_iff hne hb).mp h.ge)

end

/-! ## Lines -/

/-- The lines of a list of units whose first line so far is `acc`, reversed. -/
def unitLinesFrom (acc : List (List Char)) : List (List Char) → List (List (List Char))
  | [] => if acc.isEmpty then [] else [acc.reverse]
  | u :: us =>
    if isLineBreak (unitChar u) then (acc.reverse ++ [u]) :: unitLinesFrom [] us
    else unitLinesFrom (u :: acc) us

def unitLines (us : List (List Char)) : List (List (List Char)) := unitLinesFrom [] us

/-- A line without its end, and its end. -/
structure IsUnitLine (line : List (List Char)) : Prop where
  ne_nil : line ≠ []
  body : ∀ u ∈ line.dropLast, isLineBreak (unitChar u) = false

section

variable {text : List Char}

theorem flatten_unitLinesFrom (acc us : List (List Char)) :
    (unitLinesFrom acc us).flatten = acc.reverse ++ us := by
  fun_induction unitLinesFrom acc us with
  | case1 acc h => simp_all
  | case2 acc h => simp
  | case3 acc u us _ ih => simp [ih]
  | case4 acc u us _ ih => simp [ih]

theorem flatten_unitLines (us : List (List Char)) : (unitLines us).flatten = us :=
  flatten_unitLinesFrom [] us

variable {line : List (List Char)}

theorem isUnitLine_of_mem {acc us : List (List Char)}
    (hacc : ∀ u ∈ acc, isLineBreak (unitChar u) = false)
    (h : line ∈ unitLinesFrom acc us) : IsUnitLine line := by
  fun_induction unitLinesFrom acc us with
  | case1 => exact absurd h (by simp)
  | case2 acc hne =>
    obtain rfl := List.mem_singleton.mp h
    refine ⟨by simpa using hne, fun u hu => hacc u ?_⟩
    exact List.mem_reverse.mp (List.dropLast_subset _ hu)
  | case3 acc u us hbreak ih =>
    rcases List.mem_cons.mp h with rfl | h
    · refine ⟨by simp, fun v hv => hacc v ?_⟩
      rw [List.dropLast_concat] at hv
      exact List.mem_reverse.mp hv
    · exact ih (by simp) h
  | case4 acc u us hbreak ih =>
    refine ih (fun v hv => ?_) h
    rcases List.mem_cons.mp hv with rfl | hv
    · simpa using hbreak
    · exact hacc v hv

theorem isLineBreak_unitChar (c : Char) : isLineBreak (unitChar [c]) = isLineBreak c := by
  by_cases hc : c = '\r'
  · subst hc
    rfl
  · rw [unitChar_singleton hc]

theorem splitLinesFrom_cons {c : Char} {rest : List Char} (acc : Line)
    (h : ∀ rest', c = '\r' → rest = '\n' :: rest' → False) :
    splitLinesFrom acc (c :: rest) =
      if isLineBreak c then (acc.reverse ++ [c]) :: splitLinesFrom [] rest
      else splitLinesFrom (c :: acc) rest := by
  rw [splitLinesFrom.eq_3 _ _ _ h]

theorem splitLines_eq_flatten (text : List Char) :
    splitLines text = (unitLines (units text)).map List.flatten := by
  have hfrom : ∀ (text : List Char) (acc : List (List Char)), (∀ u ∈ acc, u ≠ []) →
      splitLinesFrom acc.reverse.flatten.reverse text =
        (unitLinesFrom acc (units text)).map List.flatten := by
    intro text
    fun_induction units text with
    | case1 =>
      intro acc hacc
      cases acc with
      | nil => rfl
      | cons u acc =>
        have hne : (u :: acc).reverse.flatten.reverse ≠ [] := by
          intro h
          have hu := hacc u (by simp)
          rw [List.reverse_eq_nil_iff, List.flatten_eq_nil_iff] at h
          exact hu (h u (by simp))
        rw [splitLinesFrom, if_neg (by rwa [List.isEmpty_iff]), List.reverse_reverse]
        rfl
    | case2 rest ih =>
      intro acc hacc
      have hbreak : isLineBreak (unitChar ['\r', '\n']) = true := by decide
      have hrest := ih [] (by simp)
      rw [splitLinesFrom, unitLinesFrom, if_pos hbreak, List.map_cons, ← hrest,
        List.reverse_reverse]
      simp
    | case3 c rest hpair ih =>
      intro acc hacc
      rw [splitLinesFrom_cons _ hpair, unitLinesFrom, isLineBreak_unitChar]
      split
      · have hrest := ih [] (by simp)
        rw [List.map_cons, ← hrest, List.reverse_reverse]
        simp
      · have hrest := ih ([c] :: acc) (by simpa using hacc)
        rw [← hrest]
        simp
  exact hfrom text [] (by simp)

theorem splitLines_map {us : List (List Char)} (h : '\r' ∉ us.map unitChar) :
    splitLines (us.map unitChar) = (unitLines us).map fun line => line.map unitChar := by
  have hfrom : ∀ (us acc : List (List Char)), '\r' ∉ us.map unitChar →
      splitLinesFrom (acc.map unitChar) (us.map unitChar) =
        (unitLinesFrom acc us).map fun line => line.map unitChar := by
    intro us
    induction us with
    | nil =>
      intro acc _
      cases acc with
      | nil => rfl
      | cons u acc => simp [splitLinesFrom, unitLinesFrom]
    | cons u us ih =>
      intro acc h
      rw [List.map_cons, List.mem_cons, not_or] at h
      have hpair : ∀ rest', unitChar u = '\r' → us.map unitChar = '\n' :: rest' → False :=
        fun _ hu _ => h.1 hu.symm
      rw [List.map_cons, splitLinesFrom_cons _ hpair, unitLinesFrom]
      split
      · have hrest := ih [] h.2
        rw [List.map_cons, ← hrest]
        simp
      · have hrest := ih (u :: acc) h.2
        rw [← hrest, List.map_cons]
  exact hfrom us [] h

theorem flatten_eq_map {us : List (List Char)}
    (hunits : ∀ u ∈ us, u = ['\r', '\n'] ∨ ∃ c, u = [c]) (h : '\r' ∉ us.flatten) :
    us.flatten = us.map unitChar := by
  induction us with
  | nil => rfl
  | cons u us ih =>
    rw [List.flatten_cons, List.mem_append, not_or] at h
    have hrest := ih (fun v hv => hunits v (List.mem_cons_of_mem _ hv)) h.2
    rw [List.flatten_cons, List.map_cons, hrest]
    rcases hunits u (by simp) with rfl | ⟨c, rfl⟩
    · exact absurd h.1 (by simp)
    · have hc : c ≠ '\r' := fun hc => h.1 (by simp [hc])
      simp [unitChar_singleton hc]

theorem rstripNewline_append {x v : List Char} (hx : ∀ c ∈ x, c ≠ '\r' ∧ c ≠ '\n')
    (hv : ∀ c ∈ v, c = '\r' ∨ c = '\n') : rstripNewline (x ++ v) = x := by
  have hdrop : ∀ y : List Char, (∀ c ∈ y, c = '\r' ∨ c = '\n') →
      (y ++ x.reverse).dropWhile (fun c => c = '\r' || c = '\n') =
        x.reverse.dropWhile fun c => c = '\r' || c = '\n' := by
    intro y hy
    refine List.dropWhile_append_of_pos fun c hc => ?_
    simpa using hy c hc
  have hkeep : x.reverse.dropWhile (fun c => c = '\r' || c = '\n') = x.reverse := by
    cases hrev : x.reverse with
    | nil => rfl
    | cons c rest =>
      have hc := hx c (List.mem_reverse.mp (by simp [hrev]))
      rw [List.dropWhile_cons_of_neg (by simpa using hc)]
  rw [rstripNewline, List.reverse_append, hdrop _ (by simpa using hv), hkeep, List.reverse_reverse]

/-- A line is the same without its end, whether it is read or not. -/
theorem rstripNewline_flatten
    (hunits : ∀ u ∈ line, u = ['\r', '\n'] ∨ ∃ c, u = [c]) (hline : IsUnitLine line) :
    rstripNewline line.flatten = rstripNewline (line.map unitChar) := by
  obtain ⟨body, u, rfl⟩ : ∃ body u, line = body ++ [u] :=
    ⟨line.dropLast, line.getLast hline.ne_nil, (List.dropLast_concat_getLast _).symm⟩
  have hnone : ∀ v ∈ body, unitChar v ≠ '\r' ∧ unitChar v ≠ '\n' := by
    intro v hv
    have hbreak := hline.body v (by rwa [List.dropLast_concat])
    constructor
    · intro h
      rw [h] at hbreak
      exact absurd hbreak (by decide)
    · intro h
      rw [h] at hbreak
      exact absurd hbreak (by decide)
  have hbody : body.flatten = body.map unitChar := by
    refine flatten_eq_map (fun v hv => hunits v (by simp [hv])) fun hmem => ?_
    obtain ⟨v, hv, hr⟩ := List.mem_flatten.mp hmem
    rcases hunits v (by simp [hv]) with rfl | ⟨c, rfl⟩
    · exact (hnone _ hv).2 rfl
    · obtain rfl := List.mem_singleton.mp hr
      exact (hnone _ hv).2 rfl
  have hplain : ∀ c ∈ body.map unitChar, c ≠ '\r' ∧ c ≠ '\n' := by
    intro c hc
    obtain ⟨v, hv, rfl⟩ := List.mem_map.mp hc
    exact hnone v hv
  rw [List.flatten_append, List.map_append, hbody]
  rcases hunits u (by simp) with rfl | ⟨c, rfl⟩
  · rw [rstripNewline_append hplain (by simp), rstripNewline_append hplain (by simp [unitChar])]
  · by_cases hc : c = '\r'
    · subst hc
      rw [rstripNewline_append hplain (by simp), rstripNewline_append hplain (by simp [unitChar])]
    · simp [unitChar_singleton hc]

end

end PawFlow.Lib
