import PawFlow.Lib.PyString

/-!
# Integers are read back

`int(str(n))` for the readers and writers of `Lib.PyString`.
-/

namespace PawFlow.Lib

theorem decimal?_digitChar : ∀ d < 10, decimal? (Nat.digitChar d) = some d := by decide

theorem isSpace_digitChar : ∀ d < 10, isSpace (Nat.digitChar d) = false := by decide

theorem digitChar_ne_sign : ∀ d < 10, Nat.digitChar d ≠ '-' ∧ Nat.digitChar d ≠ '+' := by decide

theorem digits_induction {P : List Char → Nat → Prop} (hdigit : ∀ d < 10, P [Nat.digitChar d] d)
    (hstep : ∀ cs n, ∀ d < 10, P cs n → P (cs ++ [Nat.digitChar d]) (n * 10 + d)) (n : Nat) :
    P (Nat.toDigits 10 n) n := by
  induction n using Nat.strongRecOn with
  | _ n ih =>
    rw [Nat.toDigits_eq_if (by decide)]
    split
    · next h => exact hdigit n h
    · next h =>
      have hlt : n / 10 < n := Nat.div_lt_self (by omega) (by decide)
      have := hstep _ _ (n % 10) (Nat.mod_lt _ (by decide)) (ih _ hlt)
      rwa [Nat.div_add_mod' n 10] at this

theorem digit_of_mem_toDigits {n : Nat} {c : Char} (h : c ∈ Nat.toDigits 10 n) :
    ∃ d < 10, c = Nat.digitChar d := by
  revert c
  refine digits_induction (P := fun cs _ => ∀ {c}, c ∈ cs → ∃ d < 10, c = Nat.digitChar d)
    (fun d hd c hc => ⟨d, hd, List.mem_singleton.mp hc⟩) (fun cs m d hd ih c hc => ?_) n
  rcases List.mem_append.mp hc with hc | hc
  · exact ih hc
  · exact ⟨d, hd, List.mem_singleton.mp hc⟩

theorem readDigits_concat {cs : List Char} {c : Char} {d : Nat} (value : Nat) (after : Bool)
    (hcs : ∀ x ∈ cs, ∃ e < 10, x = Nat.digitChar e) (hc : decimal? c = some d) :
    readDigits value after (cs ++ [c]) =
      (readDigits value true cs).map fun n => n * 10 + d := by
  induction cs generalizing value after with
  | nil => simp [readDigits, hc]
  | cons x xs ih =>
    obtain ⟨e, he, rfl⟩ := hcs x (by simp)
    rw [List.cons_append, readDigits, readDigits, decimal?_digitChar e he]
    exact ih _ _ fun y hy => hcs y (by simp [hy])

theorem readDigits_toDigits (n : Nat) (after : Bool) :
    readDigits 0 after (Nat.toDigits 10 n) = some n := by
  have hboth : (∀ c ∈ Nat.toDigits 10 n, ∃ d < 10, c = Nat.digitChar d) ∧
      ∀ after, readDigits 0 after (Nat.toDigits 10 n) = some n := by
    refine digits_induction (P := fun cs m => (∀ c ∈ cs, ∃ d < 10, c = Nat.digitChar d) ∧
      ∀ after, readDigits 0 after cs = some m) (fun d hd => ?_) (fun cs m d hd ih => ?_) n
    · refine ⟨fun c hc => ⟨d, hd, List.mem_singleton.mp hc⟩, fun after => ?_⟩
      simp [readDigits, decimal?_digitChar d hd]
    · refine ⟨fun c hc => ?_, fun after => ?_⟩
      · rcases List.mem_append.mp hc with hc | hc
        · exact ih.1 c hc
        · exact ⟨d, hd, List.mem_singleton.mp hc⟩
      · rw [readDigits_concat 0 after ih.1 (decimal?_digitChar d hd), ih.2]
        rfl
  exact hboth.2 after

/-- `int(str(n))`, up to the limit on digits. -/
theorem int?_toString {n : Nat} (hn : (Nat.toDigits 10 n).length ≤ 4300) : int? (toString n) = some (n : Int) := by
  have hlist : (toString n).toList = Nat.toDigits 10 n := Nat.toList_repr
  have hblank : ∀ cs : List Char, (∀ c ∈ cs, ∃ d < 10, c = Nat.digitChar d) →
      cs.dropWhile (fun c => isSpace c && !(28 ≤ c.toNat && c.toNat ≤ 31)) = cs := by
    intro cs hcs
    cases cs with
    | nil => rfl
    | cons c cs =>
      obtain ⟨d, hd, rfl⟩ := hcs c (by simp)
      rw [List.dropWhile_cons_of_neg]
      simp [isSpace_digitChar d hd]
  have hdigits : ∀ c ∈ Nat.toDigits 10 n, ∃ d < 10, c = Nat.digitChar d :=
    fun c => digit_of_mem_toDigits
  have hall : (Nat.toDigits 10 n).filter (fun c => (decimal? c).isSome) = Nat.toDigits 10 n := by
    refine List.filter_eq_self.mpr fun c hc => ?_
    obtain ⟨d, hd, rfl⟩ := hdigits c hc
    rw [decimal?_digitChar d hd]
    rfl
  unfold int?
  simp only [hlist, hblank _ hdigits]
  rw [hblank _ (fun c hc => hdigits c (List.mem_reverse.mp hc)), List.reverse_reverse, hall,
    if_neg (not_lt.mpr hn)]
  cases hcs : Nat.toDigits 10 n with
  | nil => exact absurd hcs Nat.toDigits_ne_nil
  | cons c cs =>
    obtain ⟨d, hd, rfl⟩ := hdigits c (by simp [hcs])
    obtain ⟨hminus, hplus⟩ := digitChar_ne_sign d hd
    rw [← hcs]
    split
    · next heq => exact absurd (List.cons.inj (hcs.symm.trans heq)).1 hminus
    · next heq => exact absurd (List.cons.inj (hcs.symm.trans heq)).1 hplus
    · rw [readDigits_toDigits]
      rfl

end PawFlow.Lib
