import PawFlow.Lib.JsonLex
import PawFlow.ToolJson.Arguments

/-!
# Repairing escapes

The repair of escapes leaves closed text as it is, and what it has repaired it does not touch again.
-/

namespace PawFlow.ToolJson

open PawFlow.Lib

variable {cs rest body : List Char}

variable {c : Char}

theorem repairChars_outside (h : c ≠ '"') (rest : List Char) :
    repairChars false (c :: rest) =
      (c :: (repairChars false rest).1, (repairChars false rest).2) := by
  rw [repairChars.eq_def]
  simp [h]

example : repairChars true ['"'] = (['"'], false) := by
  rw [repairChars.eq_def]
  simp [repairChars]

theorem repairChars_open (rest : List Char) :
    repairChars false ('"' :: rest) =
      ('"' :: (repairChars true rest).1, (repairChars true rest).2) := by
  rw [repairChars.eq_def]
  simp

theorem repairChars_close (rest : List Char) :
    repairChars true ('"' :: rest) =
      ('"' :: (repairChars false rest).1, (repairChars false rest).2) := by
  rw [repairChars.eq_def]
  simp

theorem repairChars_plain (hquote : c ≠ '"') (hslash : c ≠ '\\')
    (hprint : 32 ≤ c.toNat) (rest : List Char) :
    repairChars true (c :: rest) =
      (c :: (repairChars true rest).1, (repairChars true rest).2) := by
  have hcontrol : ¬ c.toNat < 32 := by omega
  rw [repairChars.eq_def]
  simp [hquote, hslash, hcontrol]

theorem repairChars_escape {e : Char} (he : e ∈ jsonValidEscapes) (rest : List Char) :
    repairChars true ('\\' :: e :: rest) =
      ('\\' :: e :: (repairChars true rest).1, (repairChars true rest).2) := by
  rw [repairChars.eq_def]
  simp [he]

theorem repairChars_body (h : Json.StringBody body) (rest : List Char) :
    repairChars true (body ++ rest) =
      (body ++ (repairChars true rest).1, (repairChars true rest).2) := by
  induction h with
  | nil => rfl
  | plain hquote hslash hprint _ ih =>
    rw [List.cons_append, repairChars_plain hquote hslash hprint, ih]
    rfl
  | escape he _ ih =>
    rw [List.cons_append, List.cons_append, repairChars_escape he, ih]
    rfl

theorem repairChars_closed (h : Json.Closed cs) (rest : List Char) :
    repairChars false (cs ++ rest) =
      (cs ++ (repairChars false rest).1, (repairChars false rest).2) := by
  induction h generalizing rest with
  | nil => rfl
  | @plain c _ hc _ ih =>
    have hquote : c ≠ '"' := fun heq => hc (by simp [heq])
    rw [List.cons_append, repairChars_outside hquote, ih]
    rfl
  | string hbody _ ih =>
    rw [List.cons_append, List.append_assoc, List.cons_append, repairChars_open,
      repairChars_body hbody, repairChars_close, ih]
    simp
  | list _ _ ihInner ih =>
    rw [List.cons_append, List.append_assoc, List.cons_append,
      repairChars_outside (by decide), ihInner, repairChars_outside (by decide), ih]
    simp
  | dict _ _ ihInner ih =>
    rw [List.cons_append, List.append_assoc, List.cons_append,
      repairChars_outside (by decide), ihInner, repairChars_outside (by decide), ih]
    simp

theorem repairChars_unchanged (inString : Bool) (cs : List Char)
    (h : (repairChars inString cs).2 = false) : (repairChars inString cs).1 = cs := by
  fun_induction repairChars inString cs with
  | case1 => rfl
  | case2 c rest out changed heq ih =>
    rw [heq] at ih
    exact congrArg (List.cons _) (ih h)
  | case3 _ rest _ out changed heq ih =>
    rw [heq] at ih
    exact congrArg (List.cons _) (ih h)
  | case4 => exact absurd h (by simp)
  | case5 _ _ e rest _ out changed heq _ ih =>
    rw [heq] at ih
    exact congrArg (fun cs => '\\' :: e :: cs) (ih h)
  | case6 => exact absurd h (by simp)
  | case7 => exact absurd h (by simp)
  | case8 => exact absurd h (by simp)
  | case9 _ c rest _ _ _ _ out changed heq ih =>
    rw [heq] at ih
    exact congrArg (List.cons _) (ih h)

theorem repairInvalidJsonEscapes_eq (s : List Char) :
    repairInvalidJsonEscapes s = (repairChars false s).1 := by
  unfold repairInvalidJsonEscapes
  cases hchanged : (repairChars false s).2 with
  | true => simp [hchanged]
  | false => simp [hchanged, repairChars_unchanged false s hchanged]

theorem repair_of_closed (h : Json.Closed cs) : repairInvalidJsonEscapes cs = cs := by
  have hrepair := repairChars_closed h []
  rw [List.append_nil] at hrepair
  rw [repairInvalidJsonEscapes_eq, hrepair]
  simp [repairChars]

theorem stringBody_unicodeEscape {n : Nat} (hn : n < 0x10000) :
    Json.StringBody (Json.unicodeEscape n) :=
  .escape (by decide) (Json.stringBody_of_hex4? (Json.hex4?_digits hn))

theorem stringBody_controlEscape (hc : c.toNat < 32) : Json.StringBody (controlEscape c) := by
  unfold controlEscape
  split
  · exact .escape (by decide) .nil
  · split
    · exact .escape (by decide) .nil
    · split
      · exact .escape (by decide) .nil
      · split
        · exact .escape (by decide) .nil
        · split
          · exact .escape (by decide) .nil
          · exact stringBody_unicodeEscape (by omega)

/-- What the loop writes it passes unchanged. -/
theorem repairChars_repaired (inString : Bool) (cs : List Char) :
    repairChars inString (repairChars inString cs).1 = ((repairChars inString cs).1, false) := by
  fun_induction repairChars inString cs with
  | case1 => rw [repairChars]
  | case2 c rest out changed heq ih =>
    rw [heq] at ih
    by_cases hc : c = '"'
    · subst hc
      rw [decide_eq_true rfl] at ih
      rw [repairChars_open, ih]
    · rw [decide_eq_false hc] at ih
      rw [repairChars_outside hc, ih]
  | case3 inString rest hstring out changed heq ih =>
    obtain rfl : inString = true := by simpa using hstring
    rw [heq] at ih
    rw [repairChars_close, ih]
  | case4 => rw [repairChars]
  | case5 inString hstring e rest he out changed heq _ ih =>
    obtain rfl : inString = true := by simpa using hstring
    rw [heq] at ih
    rw [repairChars_escape he, ih]
  | case6 inString hstring rest _ _ ih =>
    obtain rfl : inString = true := by simpa using hstring
    rw [repairChars_plain (by decide) (by decide) (by decide), ih]
  | case7 inString hstring e rest _ _ _ ih =>
    obtain rfl : inString = true := by simpa using hstring
    rw [repairChars_escape (by decide), ih]
  | case8 inString c rest hstring _ _ hcontrol ih =>
    obtain rfl : inString = true := by simpa using hstring
    rw [repairChars_body (stringBody_controlEscape hcontrol), ih]
  | case9 inString c rest hstring hquote hslash hprint out changed heq ih =>
    obtain rfl : inString = true := by simpa using hstring
    rw [heq] at ih
    rw [repairChars_plain hquote hslash (by omega), ih]

theorem repair_idempotent (s : List Char) :
    repairInvalidJsonEscapes (repairInvalidJsonEscapes s) = repairInvalidJsonEscapes s := by
  rw [repairInvalidJsonEscapes_eq s]
  unfold repairInvalidJsonEscapes
  rw [repairChars_repaired]
  rfl

end PawFlow.ToolJson
