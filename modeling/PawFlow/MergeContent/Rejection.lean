import PawFlow.MergeContent.Task

/-!
# Rejected FlowFiles and restored checkpoints

The four dicts of the task are one table of open bins (`State.of`) as long as no FlowFile is
rejected that opens a bin. Then a rejection changes nothing and a checkpoint is restored exactly.
-/

namespace PawFlow.MergeContent

open PawFlow.Lib PawFlow.Core

/-! ## Open bins -/

def totalSize (files : List FlowFile) : Nat := (files.map FlowFile.size).sum

/-- A bin that still waits for FlowFiles. -/
structure OpenBin (cfg : Config) where
  files : List FlowFile
  created : Time
  expected : Int
  nonempty : files ≠ []
  waiting : (files.length : Int) < expected
  fits : cfg.maxBinFlowfiles ≤ 0 ∨ expected ≤ cfg.maxBinFlowfiles
  bounded : cfg.maxBinBytes ≤ 0 ∨ (totalSize files : Int) ≤ cfg.maxBinBytes

/-- The four dicts of a table of bins. -/
def State.of {cfg : Config} (t : PyDict String (OpenBin cfg)) : State where
  bins := PyDict.mapValues OpenBin.files t
  binCreated := PyDict.mapValues OpenBin.created t
  binExpected := PyDict.mapValues OpenBin.expected t
  binBytes := PyDict.mapValues (fun b => totalSize b.files) t

section

variable {cfg : Config} {r : Reads} {t : PyDict String (OpenBin cfg)} {key : String}

theorem pop_of (t : PyDict String (OpenBin cfg)) (key : String) :
    (State.of t).pop key = State.of (t.erase key) := by
  simp only [State.pop, State.of, PyDict.erase_mapValues]

theorem foldl_pop_of (t : PyDict String (OpenBin cfg)) (keys : List String) :
    keys.foldl State.pop (State.of t) = State.of (t.filter fun i => i.1 ∉ keys) := by
  induction keys generalizing t with
  | nil => simp
  | cons key rest ih =>
    rw [List.foldl_cons, pop_of, ih, PyDict.erase, List.filter_filter]
    congr 1
    refine List.filter_congr fun i _ => ?_
    simp [Bool.and_comm]

/-- The bin is older than allowed. -/
def Stale (cfg : Config) (r : Reads) (b : OpenBin cfg) : Prop :=
  0 < cfg.maxBinAge ∧ cfg.maxBinAge < r.expiry - b.created

instance (r : Reads) (b : OpenBin cfg) : Decidable (Stale cfg r b) :=
  inferInstanceAs (Decidable (_ ∧ _))

theorem expireStaleBins_of (r : Reads) (hnodup : (t.map Prod.fst).Nodup) :
    expireStaleBins cfg r (State.of t) = State.of (t.filter fun i => ¬ Stale cfg r i.2) := by
  unfold expireStaleBins
  split
  · next hage =>
    have hkeep : t.filter (fun i => ¬ Stale cfg r i.2) = t := by
      rw [List.filter_eq_self]
      intro i _
      simp [Stale, hage]
    rw [hkeep]
  · next hage =>
    rw [foldl_pop_of]
    congr 1
    refine List.filter_congr fun i hi => ?_
    have hiff : i.1 ∈ (((State.of t).binCreated.filter fun j =>
        cfg.maxBinAge < r.expiry - j.2).map Prod.fst) ↔ Stale cfg r i.2 := by
      simp only [State.of, PyDict.mapValues, List.mem_map, List.mem_filter, Stale,
        decide_eq_true_eq]
      constructor
      · rintro ⟨_, ⟨⟨j, hj, rfl⟩, hstale⟩, hkey⟩
        obtain rfl : j = i := List.inj_on_of_nodup_map hnodup hj hi hkey
        exact ⟨not_le.mp hage, hstale⟩
      · rintro ⟨-, hstale⟩
        exact ⟨(i.1, i.2.created), ⟨⟨i, hi, rfl⟩, hstale⟩, rfl⟩
    simp only [hiff]

theorem expireStaleBins_expireStaleBins {r' : Reads} (hnodup : (t.map Prod.fst).Nodup)
    (hle : r.expiry ≤ r'.expiry) :
    expireStaleBins cfg r' (expireStaleBins cfg r (State.of t)) =
      expireStaleBins cfg r' (State.of t) := by
  rw [expireStaleBins_of r hnodup, expireStaleBins_of r' hnodup,
    expireStaleBins_of r' (hnodup.sublist (List.filter_sublist.map Prod.fst)), List.filter_filter]
  congr 1
  refine List.filter_congr fun i _ => ?_
  have hstale : Stale cfg r i.2 → Stale cfg r' i.2 := fun h =>
    ⟨h.1, lt_of_lt_of_le h.2 (sub_le_sub_right hle _)⟩
  by_cases h : Stale cfg r i.2
  · simp [h, hstale h]
  · simp [h]

theorem get?_bins_of (t : PyDict String (OpenBin cfg)) (key : String) :
    (State.of t).bins.get? key = (t.get? key).map OpenBin.files :=
  PyDict.get?_mapValues _ t key

theorem set_of_get? {κ ν : Type} [DecidableEq κ] {d : PyDict κ ν} {k : κ} {v : ν}
    (h : d.get? k = some v) : d.set k v = d := by
  induction d with
  | nil => exact absurd h (by simp [PyDict.get?])
  | cons i rest ih =>
    obtain ⟨k', v'⟩ := i
    by_cases hk : k' = k
    · obtain rfl : v' = v := by simpa [PyDict.get?, hk] using h
      simp [PyDict.set, hk]
    · have hrest : PyDict.get? rest k = some v := by simpa [PyDict.get?, hk] using h
      simp [PyDict.set, hk, ih hrest]

theorem of_set (t : PyDict String (OpenBin cfg)) (key : String) (b : OpenBin cfg) :
    State.of (t.set key b) = {
      bins := (State.of t).bins.set key b.files
      binCreated := (State.of t).binCreated.set key b.created
      binExpected := (State.of t).binExpected.set key b.expected
      binBytes := (State.of t).binBytes.set key (totalSize b.files) } := by
  simp only [State.of, ← PyDict.set_mapValues]

/-! ## One FlowFile -/

def CanOpen (cfg : Config) (f : FlowFile) : Prop :=
  ∃ expected, expectedCount cfg f = .ok expected ∧
    (cfg.maxBinFlowfiles ≤ 0 ∨ expected ≤ cfg.maxBinFlowfiles) ∧
    (cfg.maxBinBytes ≤ 0 ∨ (f.size : Int) ≤ cfg.maxBinBytes)

theorem totalSize_append (files : List FlowFile) (f : FlowFile) :
    totalSize (files ++ [f]) = totalSize files + f.size := by
  simp [totalSize]

variable {b : OpenBin cfg}

theorem get?_of {t : PyDict String (OpenBin cfg)} (hb : t.get? key = some b) :
    (State.of t).bins.get? key = some b.files ∧
    (State.of t).binCreated.get? key = some b.created ∧
    (State.of t).binExpected.get? key = some b.expected ∧
    (State.of t).binBytes.get? key = some (totalSize b.files) := by
  simp only [State.of, PyDict.get?_mapValues, hb, Option.map_some, and_self]

def State.add (s : State) (key : String) (files : List FlowFile) : State :=
  { s with bins := s.bins.set key files, binBytes := s.binBytes.set key (totalSize files) }

variable {f : FlowFile}

theorem add_of (files : List FlowFile) (created : Time) {expected : Int}
    {s : State} (hs : s.add key (files ++ [f]) = {
      bins := (State.of t).bins.set key (files ++ [f])
      binCreated := (State.of t).binCreated.set key created
      binExpected := (State.of t).binExpected.set key expected
      binBytes := (State.of t).binBytes.set key (totalSize (files ++ [f])) })
    (hfits : cfg.maxBinFlowfiles ≤ 0 ∨ expected ≤ cfg.maxBinFlowfiles)
    (hbounded : cfg.maxBinBytes ≤ 0 ∨ (totalSize (files ++ [f]) : Int) ≤ cfg.maxBinBytes) :
    ∃ t', (if expected ≤ ((files.length + 1 : Nat) : Int) then
        (s.add key (files ++ [f])).pop key else s.add key (files ++ [f])) = State.of t' ∧
      (t' = t.erase key ∨ ∃ b, t' = t.set key b) := by
  split
  · refine ⟨t.erase key, ?_, Or.inl rfl⟩
    rw [hs]
    simp only [State.pop, PyDict.erase_set]
    exact pop_of t key
  · next hwaiting =>
    let b : OpenBin cfg := {
      files := files ++ [f], created, expected
      nonempty := by simp
      waiting := by rw [List.length_append]; exact not_le.mp hwaiting
      fits := hfits, bounded := hbounded }
    exact ⟨t.set key b, hs.trans (of_set t key b).symm, Or.inr ⟨b, rfl⟩⟩

theorem accepted_eq (s : State) (key : String) (files : List FlowFile) (expected : Int)
    (count : Nat) :
    (if expected ≤ (count : Int) then
      (.ok (flushBin cfg r key (s.add key files)).1, (flushBin cfg r key (s.add key files)).2)
    else ((.ok [], s.add key files) : Except String (List FlowFile) × State)) =
    (.ok (if expected ≤ (count : Int) then (flushBin cfg r key (s.add key files)).1 else []),
      if expected ≤ (count : Int) then (s.add key files).pop key else s.add key files) := by
  split
  · rw [flushBin_snd cfg r key]
  · rfl

theorem addToBin_of_some (r : Reads) (hb : t.get? (binKey cfg f) = some b) :
    (∃ message, addToBin cfg r f (State.of t) = (.error message, State.of t)) ∨
    ∃ out t', addToBin cfg r f (State.of t) = (.ok out, State.of t') ∧
      (t' = t.erase (binKey cfg f) ∨ ∃ b', t' = t.set (binKey cfg f) b') := by
  obtain ⟨hbins, hcreated, hexpected, hbytes⟩ := get?_of hb
  have hopenBin : (State.of t).openBin r (binKey cfg f) = State.of t :=
    if_neg (by simp [hbins])
  have hset : (State.of t).binExpected.set (binKey cfg f) b.expected =
      (State.of t).binExpected := set_of_get? hexpected
  unfold addToBin
  simp only [hopenBin, hbins, hexpected, hbytes, Option.getD_some, hset]
  split
  · exact Or.inl ⟨_, rfl⟩
  · next expected _ =>
    split
    · exact Or.inl ⟨_, rfl⟩
    · split
      · exact Or.inl ⟨_, rfl⟩
      · next hsame =>
        obtain rfl : b.expected = expected := not_not.mp hsame
        split
        · exact Or.inl ⟨_, rfl⟩
        · split
          · exact Or.inl ⟨_, rfl⟩
          · next hsize =>
            refine Or.inr ?_
            have hadd : ({ State.of t with
                bins := (State.of t).bins.set (binKey cfg f) (b.files ++ [f])
                binBytes := (State.of t).binBytes.set (binKey cfg f)
                  (totalSize b.files + f.size) } : State) =
                (State.of t).add (binKey cfg f) (b.files ++ [f]) := by
              rw [State.add, totalSize_append]
            rw [hadd, accepted_eq]
            obtain ⟨t', ht', hcases⟩ := add_of (t := t) (s := State.of t) (f := f)
              b.files b.created (by rw [State.add, set_of_get? hcreated, hset]) b.fits (by
                rw [totalSize_append]
                push_cast
                omega)
            exact ⟨_, t', by rw [ht'], hcases⟩

theorem set_set {κ ν : Type} [DecidableEq κ] (d : PyDict κ ν) (k : κ) (v w : ν) :
    (d.set k v).set k w = d.set k w := by
  induction d with
  | nil => simp [PyDict.set]
  | cons i rest ih =>
    obtain ⟨k', v'⟩ := i
    by_cases hk : k' = k
    · simp [PyDict.set, hk]
    · simp [PyDict.set, hk, ih]

theorem openBin_of_none (r : Reads) (hb : t.get? key = none) :
    (State.of t).openBin r key = {
      bins := (State.of t).bins.set key []
      binCreated := (State.of t).binCreated.set key r.created
      binExpected := (State.of t).binExpected
      binBytes := (State.of t).binBytes.set key 0 } := by
  rw [State.openBin, if_pos]
  rw [get?_bins_of, hb]
  rfl

theorem addToBin_of_none (r : Reads) (hb : t.get? (binKey cfg f) = none) (hopen : CanOpen cfg f) :
    ∃ out t', addToBin cfg r f (State.of t) = (.ok out, State.of t') ∧
      (t' = t.erase (binKey cfg f) ∨ ∃ b', t' = t.set (binKey cfg f) b') := by
  obtain ⟨expected, hcount, hfits, hsize⟩ := hopen
  have hnone : (State.of t).binExpected.get? (binKey cfg f) = none := by
    rw [State.of, PyDict.get?_mapValues, hb, Option.map_none]
  unfold addToBin
  simp only [openBin_of_none r hb, hcount, hnone, PyDict.get?_set_self, Option.getD_some,
    Option.getD_none, List.length_nil, List.nil_append, ne_eq, not_true_eq_false, if_false,
    Nat.zero_add, set_set]
  rw [if_neg (by omega), if_neg (by omega), if_neg (by omega)]
  have hadd : ({
      bins := (State.of t).bins.set (binKey cfg f) [f]
      binCreated := (State.of t).binCreated.set (binKey cfg f) r.created
      binExpected := (State.of t).binExpected.set (binKey cfg f) expected
      binBytes := (State.of t).binBytes.set (binKey cfg f) f.size } : State) =
      State.add {
        bins := (State.of t).bins
        binCreated := (State.of t).binCreated.set (binKey cfg f) r.created
        binExpected := (State.of t).binExpected.set (binKey cfg f) expected
        binBytes := (State.of t).binBytes } (binKey cfg f) [f] := by
    simp [State.add, totalSize]
  rw [hadd, accepted_eq]
  obtain ⟨t', ht', hcases⟩ := add_of (t := t) (f := f) (s := {
      bins := (State.of t).bins
      binCreated := (State.of t).binCreated.set (binKey cfg f) r.created
      binExpected := (State.of t).binExpected.set (binKey cfg f) expected
      binBytes := (State.of t).binBytes }) [] r.created rfl hfits (by simpa [totalSize] using hsize)
  exact ⟨_, t', by rw [← ht']; rfl, hcases⟩

theorem addToBin_not_canOpen (r : Reads) (hb : t.get? (binKey cfg f) = none)
    (hopen : ¬ CanOpen cfg f) :
    ∃ message s', addToBin cfg r f (State.of t) = (.error message, s') ∧
      s'.bins.get? (binKey cfg f) = some [] := by
  have hnone : (State.of t).binExpected.get? (binKey cfg f) = none := by
    rw [State.of, PyDict.get?_mapValues, hb, Option.map_none]
  unfold addToBin
  simp only [openBin_of_none r hb]
  cases hcount : expectedCount cfg f with
  | error message => exact ⟨message, _, rfl, PyDict.get?_set_self _ _ _⟩
  | ok expected =>
    simp only [hnone, PyDict.get?_set_self, Option.getD_some, Option.getD_none,
      List.length_nil, List.nil_append, ne_eq, not_true_eq_false, if_false, Nat.zero_add]
    split
    · exact ⟨_, _, rfl, PyDict.get?_set_self _ _ _⟩
    · next hfits =>
      split
      · exact ⟨_, _, rfl, PyDict.get?_set_self _ _ _⟩
      · split
        · exact ⟨_, _, rfl, PyDict.get?_set_self _ _ _⟩
        · next hsize => exact absurd ⟨expected, hcount, by omega, by omega⟩ hopen

/-! ## Checkpoints -/

section

variable {ρ : Type} {serialize : FlowFile → ρ} {deserialize : ρ → Option FlowFile}

theorem restoreRows_map (hround : ∀ f, deserialize (serialize f) = some f)
    (files : List FlowFile) : restoreRows deserialize (files.map serialize) = .ok files := by
  have hmap : (files.map serialize).mapM deserialize = some files := by
    induction files with
    | nil => rfl
    | cons f rest ih => simp [hround, ih]
  rw [restoreRows, hmap]

theorem restoreBins_of (hround : ∀ f, deserialize (serialize f) = some f)
    (t : PyDict String (OpenBin cfg)) :
    ((checkpointState serialize (State.of t)).bins.mapM fun i =>
      (restoreRows deserialize i.2).map fun files => (i.1, files)) = .ok (State.of t).bins := by
  show ((PyDict.mapValues (List.map serialize) (PyDict.mapValues OpenBin.files t)).mapM _) = _
  induction t with
  | nil => rfl
  | cons i rest ih =>
    have hhead : ((restoreRows deserialize (i.2.files.map serialize)).map fun files =>
        (i.1, files)) = .ok (i.1, i.2.files) := by
      rw [restoreRows_map hround]
      rfl
    simp only [PyDict.mapValues, List.map_cons, List.mapM_cons] at ih ⊢
    rw [hhead]
    show (Except.ok (i.1, i.2.files)).bind _ = _
    simp only [Except.bind]
    rw [ih]
    rfl

/-- The bins are restored one after another. -/
theorem foldlM_restoreBin {bins : PyDict String (List FlowFile)}
    (hnodup : (t.map Prod.fst).Nodup) {p rest : PyDict String (OpenBin cfg)} (ht : t = p ++ rest) :
    (State.of rest).bins.foldlM (restoreBin cfg (checkpointState serialize (State.of t)))
      { State.of p with bins } = .ok { State.of t with bins } := by
  induction rest generalizing p with
  | nil =>
    rw [ht, List.append_nil]
    rfl
  | cons i rest ih =>
    have hget : t.get? i.1 = some i.2 := PyDict.get?_of_mem hnodup (by simp [ht])
    obtain ⟨-, hcreated, hexpected, -⟩ := get?_of hget
    have hnew : ∀ {ν : Type} (g : OpenBin cfg → ν),
        i.1 ∉ (PyDict.mapValues g p).map Prod.fst := by
      intro ν g hmem
      rw [PyDict.keys_mapValues] at hmem
      rw [ht, List.map_append, List.map_cons] at hnodup
      exact (List.nodup_append.mp hnodup).2.2 _ hmem _ (by simp) rfl
    have hstep : restoreBin cfg (checkpointState serialize (State.of t))
        { State.of p with bins } (i.1, i.2.files) =
        .ok { State.of (p ++ [i]) with bins } := by
      have hwaiting := i.2.waiting
      have hfits := i.2.fits
      have hbounded := i.2.bounded
      unfold totalSize at hbounded
      simp only [restoreBin, checkpointState, hcreated, hexpected, Option.getD_some]
      rw [if_neg (by omega), if_neg (by omega)]
      simp only [State.of, PyDict.set_of_not_mem _ (hnew _)]
      simp [PyDict.mapValues, totalSize]
    show (((i.1, i.2.files) :: (State.of rest).bins).foldlM _ _) = _
    rw [List.foldlM_cons]
    show (restoreBin cfg _ _ _).bind _ = _
    rw [hstep]
    exact ih (p := p ++ [i]) (by simp [ht])

theorem restoreCheckpointState_of (hround : ∀ f, deserialize (serialize f) = some f)
    (hnodup : (t.map Prod.fst).Nodup) :
    restoreCheckpointState cfg deserialize (checkpointState serialize (State.of t)) =
      .ok (State.of t) := by
  rw [restoreCheckpointState, if_neg (by simp [checkpointState]), restoreBins_of hround]
  exact foldlM_restoreBin hnodup (p := []) rfl

end

/-! ## Every run -/

end

def Openable (cfg : Config) (r : Reads) (f : FlowFile) (s : State) : Prop :=
  (expireStaleBins cfg r s).bins.get? (binKey cfg f) = none → CanOpen cfg f

/-- The states of all runs whose FlowFiles find their bin or can open one. -/
inductive Reachable (cfg : Config) {ρ : Type} (serialize : FlowFile → ρ)
    (deserialize : ρ → Option FlowFile) : State → Prop
  | init : Reachable cfg serialize deserialize {}
  | execute {s : State} (r : Reads) (f : FlowFile) : Reachable cfg serialize deserialize s →
      Openable cfg r f s → Reachable cfg serialize deserialize (execute cfg r f s).2
  | reset {s : State} : Reachable cfg serialize deserialize s →
      Reachable cfg serialize deserialize {}
  | restore {s s' : State} : Reachable cfg serialize deserialize s →
      restoreCheckpointState cfg deserialize (checkpointState serialize s) = .ok s' →
      Reachable cfg serialize deserialize s'

section

variable {cfg : Config} {ρ : Type} {serialize : FlowFile → ρ} {deserialize : ρ → Option FlowFile}

theorem execute_of {t : PyDict String (OpenBin cfg)} (hnodup : (t.map Prod.fst).Nodup)
    {r : Reads} {f : FlowFile} (hopen : Openable cfg r f (State.of t)) :
    (∃ message, execute cfg r f (State.of t) =
      (.error message, expireStaleBins cfg r (State.of t))) ∨
    ∃ (out : List FlowFile) (t' : PyDict String (OpenBin cfg)),
      execute cfg r f (State.of t) = (.ok out, State.of t') ∧ (t'.map Prod.fst).Nodup := by
  rw [Openable, expireStaleBins_of r hnodup] at hopen
  rw [execute, expireStaleBins_of r hnodup]
  have hnodup' : ((t.filter fun i => ¬ Stale cfg r i.2).map Prod.fst).Nodup :=
    hnodup.sublist (List.filter_sublist.map Prod.fst)
  generalize t.filter (fun i => ¬ Stale cfg r i.2) = t₁
    at hnodup' hopen ⊢
  have hadded : (∃ out t', addToBin cfg r f (State.of t₁) = (.ok out, State.of t') ∧
      (t' = PyDict.erase t₁ (binKey cfg f) ∨ ∃ b', t' = PyDict.set t₁ (binKey cfg f) b')) →
      ∃ (out : List FlowFile) (t' : PyDict String (OpenBin cfg)),
        addToBin cfg r f (State.of t₁) = (.ok out, State.of t') ∧
          (t'.map Prod.fst).Nodup := by
    rintro ⟨out, t', hout, rfl | ⟨b', rfl⟩⟩
    · exact ⟨out, _, hout, hnodup'.sublist (List.filter_sublist.map Prod.fst)⟩
    · exact ⟨out, _, hout, PyDict.nodup_keys_set b' hnodup'⟩
  cases hb : PyDict.get? t₁ (binKey cfg f) with
  | none =>
    refine Or.inr (hadded (addToBin_of_none r hb (hopen ?_)))
    rw [get?_bins_of, hb, Option.map_none]
  | some b =>
    rcases addToBin_of_some r hb with hrejected | hadd
    · exact Or.inl hrejected
    · exact Or.inr (hadded hadd)

theorem Reachable.table (hround : ∀ f, deserialize (serialize f) = some f) {s : State}
    (h : Reachable cfg serialize deserialize s) :
    ∃ t : PyDict String (OpenBin cfg), (t.map Prod.fst).Nodup ∧ s = State.of t := by
  induction h with
  | init => exact ⟨[], List.nodup_nil, rfl⟩
  | execute r f _ hopen ih =>
    obtain ⟨t, hnodup, rfl⟩ := ih
    rcases execute_of hnodup hopen with ⟨message, hrejected⟩ | ⟨out, t', hout, hnodup'⟩
    · rw [hrejected, expireStaleBins_of r hnodup]
      exact ⟨_, hnodup.sublist (List.filter_sublist.map Prod.fst), rfl⟩
    · rw [hout]
      exact ⟨t', hnodup', rfl⟩
  | reset => exact ⟨[], List.nodup_nil, rfl⟩
  | restore _ hrestored ih =>
    obtain ⟨t, hnodup, rfl⟩ := ih
    rw [restoreCheckpointState_of hround hnodup] at hrestored
    exact ⟨t, hnodup, (Except.ok.inj hrestored).symm⟩

/-- In every run whose FlowFiles find their bin or can open one: a rejection leaves what the
expiry left, so that later calls go as without it, exactly if the FlowFile finds its bin or can
open one; and a checkpoint is restored to the state it was taken of. -/
theorem rejection_traceless (hround : ∀ f, deserialize (serialize f) = some f) {s : State}
    (h : Reachable cfg serialize deserialize s) :
    (∀ r f, (∀ message s', execute cfg r f s = (.error message, s') →
        s' = expireStaleBins cfg r s ∧
        ∀ r' f', r.expiry ≤ r'.expiry → execute cfg r' f' s' = execute cfg r' f' s) ↔
      Openable cfg r f s) ∧
    restoreCheckpointState cfg deserialize (checkpointState serialize s) = .ok s := by
  obtain ⟨t, hnodup, rfl⟩ := h.table hround
  refine ⟨fun r f => ⟨fun htraceless hnone => ?_, fun hopen message s' hrejected => ?_⟩,
    restoreCheckpointState_of hround hnodup⟩
  · -- otherwise the rejected FlowFile leaves an empty bin
    by_contra hnot
    rw [expireStaleBins_of r hnodup, get?_bins_of, Option.map_eq_none_iff] at hnone
    obtain ⟨message, s', hrejected, hleft⟩ := addToBin_not_canOpen r hnone hnot
    have hexecute : execute cfg r f (State.of t) = (.error message, s') := by
      rw [execute, expireStaleBins_of r hnodup, hrejected]
    have hsame := (htraceless message s' hexecute).1
    rw [hsame, expireStaleBins_of r hnodup, get?_bins_of, hnone] at hleft
    exact absurd hleft (by simp)
  · rcases execute_of hnodup hopen with ⟨message', hkept⟩ | ⟨out, t', hout, -⟩
    · obtain ⟨-, rfl⟩ := Prod.mk.inj (hkept.symm.trans hrejected)
      refine ⟨rfl, fun r' f' hle => ?_⟩
      rw [execute, execute, expireStaleBins_expireStaleBins hnodup hle]
    · exact absurd (Prod.mk.inj (hout.symm.trans hrejected)).1 (by simp)

end

/-- A first FlowFile of a bin of two. -/
theorem rejection_traceless_first :
    let f : FlowFile := { processId := "f", content := [1] }
    let r : Reads := ⟨0, 0, "c", 0⟩
    let s := (execute {} r f {}).2
    Openable {} r f s ∧ restoreCheckpointState {} some (checkpointState id s) = .ok s := by
  intro f r s
  have hs : Reachable {} id some s :=
    .execute r f .init fun _ => ⟨2, rfl, Or.inl (le_refl _), Or.inl (le_refl _)⟩
  obtain ⟨hrejected, hrestored⟩ := rejection_traceless (fun _ => rfl) hs
  refine ⟨(hrejected r f).mp fun message s' herror => ?_, hrestored⟩
  have hok : ((execute {} r f s).1).isOk = true := by decide +kernel
  rw [herror] at hok
  exact absurd hok (by simp [Except.isOk, Except.toBool])

/-- A FlowFile of two bytes that waits for two others is rejected by a task with bins of one byte:
the empty bin keeps its count and the next one, of a bin of one, is rejected as inconsistent. -/
theorem rejected_fixes_count :
    let cfg : Config := { expectedCountAttribute := "n", maxBinBytes := 1 }
    let f : FlowFile := { processId := "f", content := [1, 2], attributes := [("n", "3")] }
    ¬ ∀ r message s', execute cfg r f {} = (.error message, s') →
      s' = expireStaleBins cfg r {} ∧
      ∀ r' g, r.expiry ≤ r'.expiry → execute cfg r' g s' = execute cfg r' g {} := by
  intro cfg f hall
  let r : Reads := ⟨0, 0, "c", 0⟩
  let g : FlowFile := { processId := "g", content := [1], attributes := [("n", "1")] }
  have hrejected : ((execute cfg r f {}).1).isOk = false := by decide +kernel
  cases hf : execute cfg r f {} with
  | mk result s' =>
    cases result with
    | ok out =>
      rw [hf] at hrejected
      exact absurd hrejected (by simp [Except.isOk, Except.toBool])
    | error message =>
      have hsame := (hall r message s' hf).2 r g (le_refl _)
      have hafter : ((execute cfg r g (execute cfg r f {}).2).1).isOk = false := by
        decide +kernel
      have hfresh : ((execute cfg r g {}).1).isOk = true := by decide +kernel
      rw [hf, hsame] at hafter
      exact absurd (hfresh.symm.trans hafter) (by simp)

end PawFlow.MergeContent
