import PawFlow.ParallelJoin.Merge

/-!
# What a join puts together

The join keeps a bin for each fragment identifier and empties it as soon as it holds as many copies
as there are branches. Copies are conserved: each is on its branch, in one bin or in one emitted
FlowFile. So the emitted FlowFiles are right exactly if bins never hold copies of two inputs, and
never two bins copies of the same one.
-/

namespace PawFlow.ParallelJoin

open PawFlow.Lib PawFlow.Core
open scoped List

/-! ## Entering -/

theorem matching_of_same {outgoing : List (String × String)}
    (h : ∀ c ∈ outgoing, c.2 = "success") (f : FlowFile) : matching outgoing f = outgoing := by
  unfold matching
  generalize (if f.attr "route.relationship" = "" then "success"
    else f.attr "route.relationship") = rel
  dsimp only
  by_cases hrel : rel = "success"
  · subst hrel
    rw [List.filter_eq_self.mpr fun c hc => decide_eq_true (h c hc), ite_self]
  · have hnone : outgoing.filter (fun c => c.2 = rel) = [] := by
      refine List.filter_eq_nil_iff.mpr fun c hc => ?_
      rw [h c hc, decide_eq_true_eq]
      exact fun heq => hrel heq.symm
    rw [if_pos hnone]

theorem Block.enter_origins (b : Block) (i : Nat) (f : FlowFile) (uuid : String)
    (clones : Nat → String × Time) :
    (b.enter i f uuid clones).map Token.origin = b.branches.map fun br => (i, br) := by
  have hfound : matching (b.branches.map fun branch => (branch, "success")) (port "input" f) =
      b.branches.map fun branch => (branch, "success") :=
    matching_of_same (by simp) _
  rw [Block.enter, commitResult, hfound]
  simp only [List.map_map]
  have hfst : ∀ l : List String, ∀ k,
      ((l.map fun branch => (branch, "success")).zipIdx k).map (fun c => (i, c.1.1)) =
        l.map fun br => (i, br) := by
    intro l
    induction l with
    | nil => intro k; rfl
    | cons br l ih => intro k; simp [List.zipIdx_cons, ih (k + 1)]
  exact hfst b.branches 0

/-! ## Merging -/

theorem mapM_some_snd {α : Type*} {g : α → Option (Int × α)} (hg : ∀ a p, g a = some p → p.2 = a) :
    ∀ {l : List α} {l' : List (Int × α)}, l.mapM g = some l' → l'.map Prod.snd = l
  | [], l', h => by
    simp only [List.mapM_nil, Option.pure_def, Option.some.injEq] at h
    subst h
    rfl
  | a :: l, l', h => by
    simp only [List.mapM_cons, Option.pure_def, Option.bind_eq_bind,
      Option.bind_eq_some_iff] at h
    obtain ⟨p, hp, rest, hrest, heq⟩ := h
    obtain rfl := Option.some.inj heq
    rw [List.map_cons, hg a p hp, mapM_some_snd hg hrest]

theorem ordered_perm (parseInt : String → Option Int) (buf : List Token) :
    (ordered parseInt buf).Perm buf := by
  unfold ordered
  dsimp only
  split
  · exact .refl _
  · next indexed h =>
    have hsnd := mapM_some_snd (fun t p hp => ?_) h
    · rw [← hsnd]
      exact (List.mergeSort_perm _ _).map _
    · split at hp
      · cases hp
      · obtain ⟨_, -, rfl⟩ := Option.map_eq_some_iff.mp hp
        rfl

variable {files g : List Token} {o o' : Nat × String}

theorem Block.flush_eq (b : Block) (parseInt : String → Option Int) (key : String)
    (clone : String × Time) (h : files ≠ []) :
    ∃ e, b.flush parseInt key files clone = some e ∧ e.members.Perm files ∧
      e.file.content = b.separator.intercalate (e.members.map fun t => t.file.content) := by
  unfold Block.flush
  have hperm := ordered_perm parseInt files
  cases hbuf : ordered parseInt files with
  | nil =>
    rw [hbuf] at hperm
    exact absurd hperm.nil_eq.symm h
  | cons first rest =>
    rw [hbuf] at hperm
    exact ⟨_, rfl, hperm, rfl⟩

/-- The copies that wait under a key. -/
def filesAt (bins : Bins) (key : String) : List Token := (bins.get? key).elim [] Bin.files

/-- The bins as they are between two arrivals: never full, and each copy under its key. -/
structure Sorted (b : Block) (bins : Bins) : Prop where
  keys : (bins.map Prod.fst).Nodup
  short : ∀ p ∈ bins, p.2.files.length < b.branches.length
  expected : ∀ p ∈ bins, p.2.expected = some b.branches.length
  filed : ∀ p ∈ bins, ∀ t ∈ p.2.files, t.key = p.1

theorem Token.key_arrived (t : Token) : t.arrived.key = t.key := by
  have : t.arrived.file.attr "fragment.identifier" = t.file.attr "fragment.identifier" :=
    FlowFile.attr_setAttribute_of_ne t.file t.branch (by decide)
  rw [Token.key, Token.key, this]

variable {bins : Bins}

/-- What an arrival does within the limits: the copy joins the bin of its key, and the bin is
emptied when it is full. -/
theorem Block.execute_eq {b : Block} (parseInt : String → Option Int) {t : Token}
    {now : Time} (clone : String × Time) (h : Sorted b bins)
    (hage : 0 < b.maxBinAge → ∀ p ∈ bins, now - p.2.created ≤ b.maxBinAge)
    (hcount : 0 < b.maxBinFlowfiles → b.branches.length ≤ b.maxBinFlowfiles)
    (hbytes : 0 < b.maxBinBytes →
      ((bins.get? t.key).elim 0 Bin.bytes) + t.file.size ≤ b.maxBinBytes) :
    (∃ bin : Bin, bin.files = filesAt bins t.key ++ [t] ∧ bin.expected = some b.branches.length ∧
      bin.files.length < b.branches.length ∧
      b.execute parseInt bins t now clone = (bins.set t.key bin, .ok none)) ∨
    (∃ e : Emission, e.members.Perm (filesAt bins t.key ++ [t]) ∧
      e.members.length = b.branches.length ∧
      e.file.content = b.separator.intercalate (e.members.map fun t => t.file.content) ∧
      b.execute parseInt bins t now clone = (bins.erase t.key, .ok (some e))) := by
  have hexpire : b.expire bins now = bins := by
    unfold Block.expire
    split
    · rfl
    · next hpos =>
      exact List.filter_eq_self.mpr fun p hp => decide_eq_true (hage (by omega) p hp)
  -- The bin as it is found or made.
  obtain ⟨bin, hbin, hfiles, hexpected, hshort, hbytes'⟩ : ∃ bin : Bin,
      (bins.get? t.key).getD { created := now } = bin ∧ bin.files = filesAt bins t.key ∧
      bin.expected.getD b.branches.length = b.branches.length ∧
      bin.files.length < b.branches.length ∧
      bin.bytes = (bins.get? t.key).elim 0 Bin.bytes := by
    have htwo := b.two_le
    cases hget : bins.get? t.key with
    | none => exact ⟨_, rfl, by simp [filesAt, hget], rfl, Nat.lt_of_lt_of_le Nat.two_pos htwo, rfl⟩
    | some bin =>
      have hmem := PyDict.mem_of_get? hget
      have hexpected : bin.expected = some b.branches.length := h.expected _ hmem
      exact ⟨bin, rfl, by simp [filesAt, hget], by rw [hexpected]; rfl, h.short _ hmem, rfl⟩
  have hexec : b.execute parseInt bins t now clone =
      if b.branches.length ≤ (bin.files ++ [t]).length then
        (bins.erase t.key, .ok (b.flush parseInt t.key (bin.files ++ [t]) clone))
      else (bins.set t.key { bin with
        files := bin.files ++ [t], bytes := bin.bytes + t.file.size,
        expected := some b.branches.length }, .ok none) := by
    have h1 : ¬ (0 < b.maxBinFlowfiles ∧ b.maxBinFlowfiles < b.branches.length) := by
      rintro ⟨hpos, hlt⟩
      have := hcount hpos
      omega
    have h2 : ¬ (0 < b.maxBinFlowfiles ∧ b.maxBinFlowfiles < bin.files.length + 1) := by
      rintro ⟨hpos, hlt⟩
      have := hcount hpos
      omega
    have h3 : ¬ (0 < b.maxBinBytes ∧ b.maxBinBytes < bin.bytes + t.file.size) := by
      rintro ⟨hpos, hlt⟩
      have := hbytes hpos
      omega
    simp only [Block.execute, hexpire, hbin, hexpected, h1, h2, h3, if_false, ne_eq,
      not_true_eq_false]
  rw [hexec]
  by_cases hfull : b.branches.length ≤ (bin.files ++ [t]).length
  · obtain ⟨e, he, hperm, hcontent⟩ := b.flush_eq parseInt t.key clone
      (List.append_ne_nil_of_right_ne_nil bin.files (List.cons_ne_nil t []))
    refine .inr ⟨e, hfiles ▸ hperm, ?_, hcontent, ?_⟩
    · have hlen := hperm.length_eq
      rw [List.length_append, List.length_singleton] at hlen hfull
      omega
    · rw [if_pos hfull, he]
  · refine .inl ⟨_, ?_, ?_, ?_, if_neg hfull⟩
    · rw [hfiles]
    · rfl
    · exact Nat.lt_of_not_le hfull

/-! ## Conservation -/

def binFiles (bins : Bins) : List Token := bins.flatMap fun p => p.2.files

theorem binFiles_perm {b : Block} (h : Sorted b bins) (key : String) :
    (binFiles bins).Perm (filesAt bins key ++ binFiles (bins.erase key)) := by
  cases hget : bins.get? key with
  | none => simp [filesAt, hget, PyDict.erase_of_get?_none hget]
  | some bin =>
    have := (PyDict.perm_cons_erase h.keys hget).flatMap_right fun p : String × Bin => p.2.files
    simpa [filesAt, hget, binFiles] using this

theorem Sorted.erase {b : Block} (h : Sorted b bins) (key : String) :
    Sorted b (bins.erase key) where
  keys := h.keys.sublist (List.filter_sublist.map _)
  short p hp := h.short p (PyDict.mem_erase.mp hp).1
  expected p hp := h.expected p (PyDict.mem_erase.mp hp).1
  filed p hp := h.filed p (PyDict.mem_erase.mp hp).1

theorem filed_filesAt {b : Block} (h : Sorted b bins) {key : String} {t : Token}
    (ht : t ∈ filesAt bins key) : t.key = key := by
  cases hget : bins.get? key with
  | none => simp [filesAt, hget] at ht
  | some bin =>
    exact h.filed _ (PyDict.mem_of_get? hget) t (by simpa [filesAt, hget] using ht)

/-- Where every copy is. -/
def State.origins (s : State) : List (Nat × String) :=
  (s.travelling ++ (binFiles s.bins ++ s.emitted.flatMap Emission.members)).map Token.origin

structure Inv (b : Block) (s : State) : Prop where
  sorted : Sorted b s.bins
  nonempty : ∀ p ∈ s.bins, p.2.files ≠ []
  emitted : ∀ e ∈ s.emitted, e.members.length = b.branches.length ∧
    e.file.content = b.separator.intercalate (e.members.map fun t => t.file.content)
  conserved : s.origins.Perm
    ((List.range s.inputs).flatMap fun i => b.branches.map fun br => (i, br))

/-- The effect of an arrival: the bin of the copy grows, or is emptied into an emitted FlowFile. -/
inductive Arrival (b : Block) (s : State) (t : Token) : State → Prop
  | joins {s' : State} (bin : Bin) (hbins : s'.bins = s.bins.set t.key bin)
      (hfiles : bin.files = filesAt s.bins t.key ++ [t.arrived])
      (hexpected : bin.expected = some b.branches.length)
      (hshort : bin.files.length < b.branches.length)
      (hemitted : s'.emitted = s.emitted) : Arrival b s t s'
  | completes {s' : State} (e : Emission) (hbins : s'.bins = s.bins.erase t.key)
      (hmembers : e.members.Perm (filesAt s.bins t.key ++ [t.arrived]))
      (hlength : e.members.length = b.branches.length)
      (hcontent : e.file.content =
        b.separator.intercalate (e.members.map fun t => t.file.content))
      (hemitted : s'.emitted = s.emitted ++ [e]) : Arrival b s t s'

variable {k : Nat}

theorem arrival_of_step {b : Block} {parseInt : String → Option Int} {s s' : State}
    {now : Time} {clone : String × Time} (h : Sorted b s.bins)
    (hlim : WithinLimits b s (.arrive k now clone))
    (hstep : step b parseInt s (.arrive k now clone) = some s') :
    ∃ t ∈ s.travelling[k]?, Arrival b s t s' ∧ s'.inputs = s.inputs ∧
      s'.travelling = s.travelling.eraseIdx k := by
  obtain ⟨t, ht, rfl⟩ := Option.map_eq_some_iff.mp hstep
  refine ⟨t, ht, ?_, rfl, rfl⟩
  obtain ⟨hage, hcount, hbytes⟩ := hlim t ht
  have hexec := Block.execute_eq parseInt clone (t := t.arrived) h hage hcount
    (by rw [Token.key_arrived]; exact hbytes)
  rw [Token.key_arrived] at hexec
  rcases hexec with ⟨bin, hfiles, hexpected, hshort, heq⟩ | ⟨e, hmembers, hlength, hcontent, heq⟩
  · exact .joins bin (by rw [heq]) hfiles hexpected hshort (by rw [heq])
  · exact .completes e (by rw [heq]) hmembers hlength hcontent (by rw [heq])

section Arrival

variable {b : Block} {s s' : State} {t : Token}

theorem Arrival.files_perm (h : Arrival b s t s') (hs : Sorted b s.bins) :
    (binFiles s'.bins ++ s'.emitted.flatMap Emission.members).Perm
      (t.arrived :: (binFiles s.bins ++ s.emitted.flatMap Emission.members)) := by
  have hold := binFiles_perm hs t.key
  cases h with
  | joins bin hbins hfiles _ _ hemitted =>
    have hnew : (binFiles s'.bins).Perm
        (filesAt s.bins t.key ++ [t.arrived] ++ binFiles (s.bins.erase t.key)) := by
      rw [hbins, ← hfiles]
      exact (PyDict.set_perm bin hs.keys).flatMap_right fun p : String × Bin => p.2.files
    have hmiddle : (binFiles s'.bins).Perm (t.arrived :: binFiles s.bins) := by
      rw [List.append_assoc] at hnew
      exact hnew.trans (List.perm_middle.trans (hold.symm.cons _))
    rw [hemitted]
    exact hmiddle.append_right _
  | completes e hbins hmembers _ _ hemitted =>
    rw [hbins, hemitted, List.flatMap_append, List.flatMap_singleton]
    calc binFiles (s.bins.erase t.key) ++ (s.emitted.flatMap Emission.members ++ e.members)
      _ ~ binFiles (s.bins.erase t.key) ++ (s.emitted.flatMap Emission.members ++
            (filesAt s.bins t.key ++ [t.arrived])) := (hmembers.append_left _).append_left _
      _ = (binFiles (s.bins.erase t.key) ++ s.emitted.flatMap Emission.members ++
            filesAt s.bins t.key) ++ [t.arrived] := by simp only [List.append_assoc]
      _ ~ t.arrived :: (binFiles (s.bins.erase t.key) ++ s.emitted.flatMap Emission.members ++
            filesAt s.bins t.key) := List.perm_append_singleton _ _
      _ ~ t.arrived :: (filesAt s.bins t.key ++ (binFiles (s.bins.erase t.key) ++
            s.emitted.flatMap Emission.members)) := List.perm_append_comm.cons _
      _ = t.arrived :: ((filesAt s.bins t.key ++ binFiles (s.bins.erase t.key)) ++
            s.emitted.flatMap Emission.members) := by rw [List.append_assoc]
      _ ~ t.arrived :: (binFiles s.bins ++ s.emitted.flatMap Emission.members) :=
          (hold.symm.append_right _).cons _

theorem Arrival.sorted (h : Arrival b s t s') (hs : Sorted b s.bins) : Sorted b s'.bins := by
  cases h with
  | joins bin hbins hfiles hexpected hshort hemitted =>
    have hcases : ∀ p ∈ s'.bins, p ∈ s.bins ∨ p = (t.key, bin) := by
      rw [hbins]
      exact fun p hp => PyDict.mem_of_mem_set hp
    refine ⟨hbins ▸ PyDict.nodup_keys_set bin hs.keys, ?_, ?_, ?_⟩
    · intro p hp
      rcases hcases p hp with hp | rfl
      · exact hs.short p hp
      · exact hshort
    · intro p hp
      rcases hcases p hp with hp | rfl
      · exact hs.expected p hp
      · exact hexpected
    · intro p hp u hu
      rcases hcases p hp with hp | rfl
      · exact hs.filed p hp u hu
      · rw [hfiles] at hu
        rcases List.mem_append.mp hu with hu | hu
        · exact filed_filesAt hs hu
        · rw [List.mem_singleton.mp hu, Token.key_arrived]
  | completes e hbins => exact hbins ▸ hs.erase t.key

theorem Arrival.inv (h : Arrival b s t s') (hs : Inv b s) {k : Nat} (ht : t ∈ s.travelling[k]?)
    (hinputs : s'.inputs = s.inputs) (htravelling : s'.travelling = s.travelling.eraseIdx k) :
    Inv b s' where
  sorted := h.sorted hs.sorted
  nonempty := by
    cases h with
    | joins bin hbins hfiles =>
      rw [hbins]
      intro p hp
      rcases PyDict.mem_of_mem_set hp with hp | rfl
      · exact hs.nonempty p hp
      · simp [hfiles]
    | completes e hbins =>
      rw [hbins]
      exact fun p hp => hs.nonempty p (PyDict.mem_erase.mp hp).1
  emitted := by
    cases h with
    | joins bin _ _ _ _ hemitted => exact hemitted ▸ hs.emitted
    | completes e _ _ hlength hcontent hemitted =>
      rw [hemitted]
      intro e' he'
      rcases List.mem_append.mp he' with he' | he'
      · exact hs.emitted e' he'
      · obtain rfl := List.mem_singleton.mp he'
        exact ⟨hlength, hcontent⟩
  conserved := by
    rw [hinputs]
    refine List.Perm.trans ?_ hs.conserved
    obtain ⟨hk, rfl⟩ := List.getElem?_eq_some_iff.mp ht
    have hmoved := ((h.files_perm hs.sorted).append_left (s.travelling.eraseIdx k)).map Token.origin
    unfold State.origins
    rw [htravelling]
    refine hmoved.trans ?_
    have hback : (s.travelling[k] :: s.travelling.eraseIdx k).Perm s.travelling :=
      List.getElem_cons_eraseIdx_perm hk
    calc (s.travelling.eraseIdx k ++ s.travelling[k].arrived ::
          (binFiles s.bins ++ s.emitted.flatMap Emission.members)).map Token.origin
      _ ~ (s.travelling[k].arrived :: (s.travelling.eraseIdx k ++
          (binFiles s.bins ++ s.emitted.flatMap Emission.members))).map Token.origin :=
        List.perm_middle.map _
      _ = (s.travelling[k] :: s.travelling.eraseIdx k ++
          (binFiles s.bins ++ s.emitted.flatMap Emission.members)).map Token.origin := rfl
      _ ~ (s.travelling ++
          (binFiles s.bins ++ s.emitted.flatMap Emission.members)).map Token.origin :=
        (hback.append_right _).map _

end Arrival

theorem Inv.enter {b : Block} {s : State} (h : Inv b s) (f : FlowFile) (uuid : String)
    (clones : Nat → String × Time) :
    Inv b { s with
      inputs := s.inputs + 1, travelling := s.travelling ++ b.enter s.inputs f uuid clones } where
  sorted := h.sorted
  nonempty := h.nonempty
  emitted := h.emitted
  conserved := by
    have hnew := b.enter_origins s.inputs f uuid clones
    have hold := h.conserved
    unfold State.origins at hold ⊢
    rw [List.range_succ, List.flatMap_append, List.flatMap_singleton]
    simp only [List.map_append] at hold ⊢
    rw [hnew, List.append_assoc]
    exact (List.perm_append_comm.append_left _).trans
      (by simpa only [List.append_assoc] using hold.append_right _)

theorem origin_set {l : List Token} {t : Token} (ht : t ∈ l[k]?) (f : FlowFile) :
    (l.set k { t with file := f }).map Token.origin = l.map Token.origin := by
  obtain ⟨hk, rfl⟩ := List.getElem?_eq_some_iff.mp ht
  rw [List.map_set]
  refine List.ext_getElem (by simp) fun j hj hj' => ?_
  by_cases hjk : k = j
  · subst hjk
    simp [Token.origin]
  · simp [List.getElem_set_ne hjk]

theorem Inv.work {b : Block} {s : State} (h : Inv b s) {t : Token}
    (ht : t ∈ s.travelling[k]?) (f : FlowFile) :
    Inv b { s with travelling := s.travelling.set k { t with file := f } } where
  sorted := h.sorted
  nonempty := h.nonempty
  emitted := h.emitted
  conserved := by
    have hold := h.conserved
    unfold State.origins at hold ⊢
    rw [List.map_append, origin_set ht, ← List.map_append]
    exact hold

variable {a : Act}

theorem Inv.of_step {b : Block} {parseInt : String → Option Int} {s s' : State}
    (h : Inv b s) (hlim : WithinLimits b s a) (hstep : step b parseInt s a = some s') :
    Inv b s' := by
  cases a with
  | enter f uuid clones =>
    obtain rfl := Option.some.inj hstep
    exact h.enter f uuid clones
  | work k f =>
    obtain ⟨t, ht, rfl⟩ := Option.map_eq_some_iff.mp hstep
    exact h.work ht f
  | arrive k now clone =>
    obtain ⟨t, ht, harrival, hinputs, htravelling⟩ := arrival_of_step h.sorted hlim hstep
    exact harrival.inv h ht hinputs htravelling

theorem Inv.init (b : Block) : Inv b {} where
  sorted := ⟨.nil, by simp, by simp, by simp⟩
  nonempty := by simp
  emitted := by simp
  conserved := .refl _

/-! ## Copies told apart -/

/-- A bin has copies of one input, and one bin has all copies of an input that wait. -/
structure Apart (s : State) : Prop where
  same : ∀ p ∈ s.bins, ∀ t ∈ p.2.files, ∀ u ∈ p.2.files, t.input = u.input
  one_bin : ∀ p ∈ s.bins, ∀ q ∈ s.bins, ∀ t ∈ p.2.files, ∀ u ∈ q.2.files,
    t.input = u.input → p.1 = q.1
  emitted : ∀ e ∈ s.emitted, ∀ t ∈ e.members, ∀ u ∈ e.members, t.input = u.input

theorem mem_filesAt {key : String} {t : Token} (ht : t ∈ filesAt bins key) :
    ∃ p ∈ bins, p.1 = key ∧ t ∈ p.2.files := by
  cases hget : bins.get? key with
  | none => simp [filesAt, hget] at ht
  | some bin =>
    exact ⟨(key, bin), PyDict.mem_of_get? hget, rfl, by simpa [filesAt, hget] using ht⟩

theorem mem_binFiles {t : Token} : t ∈ binFiles bins ↔ ∃ p ∈ bins, t ∈ p.2.files := List.mem_flatMap

section Arrival

variable {b : Block} {s s' : State} {t : Token}

theorem input_of_mem_joined (hs : Sorted b s.bins)
    (hok : ∀ d ∈ s.waiting, d.key = t.key ↔ d.input = t.input) {u : Token}
    (hu : u ∈ filesAt s.bins t.key ++ [t.arrived]) : u.input = t.input := by
  rcases List.mem_append.mp hu with hu | hu
  · obtain ⟨p, hp, -, hmem⟩ := mem_filesAt hu
    exact (hok u (mem_binFiles.mpr ⟨p, hp, hmem⟩)).mp (filed_filesAt hs hu)
  · rw [List.mem_singleton.mp hu]
    rfl

theorem Arrival.apart (h : Arrival b s t s') (hs : Sorted b s.bins) (ha : Apart s)
    (hok : ∀ d ∈ s.waiting, d.key = t.key ↔ d.input = t.input) : Apart s' := by
  have hinput : ∀ u ∈ filesAt s.bins t.key ++ [t.arrived], u.input = t.input := fun u hu =>
    input_of_mem_joined hs hok hu
  cases h with
  | joins bin hbins hfiles hexpected hshort hemitted =>
    have hcases : ∀ p ∈ s'.bins, p = (t.key, bin) ∨ p ∈ s.bins ∧ p.1 ≠ t.key := by
      rw [hbins]
      intro p hp
      refine (List.mem_cons.mp ((PyDict.set_perm bin hs.keys).mem_iff.mp hp)).imp_right ?_
      exact PyDict.mem_erase.mp
    rw [← hfiles] at hinput
    -- A copy in another bin has another key, so it is of another input.
    have hother : ∀ q ∈ s.bins, q.1 ≠ t.key → ∀ u ∈ q.2.files, u.input ≠ t.input := by
      intro q hq hne u hu heq
      have := (hok u (mem_binFiles.mpr ⟨q, hq, hu⟩)).mpr heq
      exact hne ((hs.filed q hq u hu).symm.trans this)
    refine ⟨?_, ?_, hemitted ▸ ha.emitted⟩
    · intro p hp u hu v hv
      rcases hcases p hp with rfl | ⟨hp, -⟩
      · rw [hinput u hu, hinput v hv]
      · exact ha.same p hp u hu v hv
    · intro p hp q hq u hu v hv heq
      rcases hcases p hp with rfl | ⟨hp, hpne⟩
      · rcases hcases q hq with rfl | ⟨hq, hqne⟩
        · rfl
        · exact absurd (heq ▸ hinput u hu) (hother q hq hqne v hv)
      · rcases hcases q hq with rfl | ⟨hq, hqne⟩
        · exact absurd (heq ▸ hinput v hv) (hother p hp hpne u hu)
        · exact ha.one_bin p hp q hq u hu v hv heq
  | completes e hbins hmembers _ _ hemitted =>
    refine ⟨?_, ?_, ?_⟩
    · rw [hbins]
      exact fun p hp => ha.same p (PyDict.mem_erase.mp hp).1
    · rw [hbins]
      exact fun p hp q hq => ha.one_bin p (PyDict.mem_erase.mp hp).1 q (PyDict.mem_erase.mp hq).1
    · rw [hemitted]
      intro e' he' u hu v hv
      rcases List.mem_append.mp he' with he' | he'
      · exact ha.emitted e' he' u hu v hv
      · obtain rfl := List.mem_singleton.mp he'
        rw [hinput u (hmembers.mem_iff.mp hu), hinput v (hmembers.mem_iff.mp hv)]

end Arrival

theorem Apart.of_step {b : Block} {parseInt : String → Option Int} {s s' : State}
    (h : Apart s) (hs : Inv b s) (hlim : WithinLimits b s a) (hok : TellsApart s a)
    (hstep : step b parseInt s a = some s') : Apart s' := by
  cases a with
  | enter f uuid clones =>
    obtain rfl := Option.some.inj hstep
    exact ⟨h.same, h.one_bin, h.emitted⟩
  | work k f =>
    obtain ⟨t, ht, rfl⟩ := Option.map_eq_some_iff.mp hstep
    exact ⟨h.same, h.one_bin, h.emitted⟩
  | arrive k now clone =>
    obtain ⟨t, ht, harrival, -, -⟩ := arrival_of_step hs.sorted hlim hstep
    exact harrival.apart hs.sorted h (hok t ht)

/-! ### At the end -/

theorem Inv.nodup {b : Block} {s : State} (h : Inv b s) : s.origins.Nodup := by
  refine h.conserved.nodup_iff.mpr (List.nodup_flatMap.mpr ⟨?_, ?_⟩)
  · intro i _
    exact b.nodup.map fun _ _ heq => (Prod.mk.inj heq).2
  · refine List.nodup_range.imp fun {i j} hij => ?_
    rw [Function.onFun, List.disjoint_left]
    rintro o ho ho'
    obtain ⟨br, -, rfl⟩ := List.mem_map.mp ho
    obtain ⟨br', -, heq⟩ := List.mem_map.mp ho'
    exact hij (Prod.mk.inj heq).1.symm

theorem Inv.mem_origins {b : Block} {s : State} (h : Inv b s) {i : Nat} {br : String} :
    (i, br) ∈ s.origins ↔ i < s.inputs ∧ br ∈ b.branches := by
  rw [h.conserved.mem_iff]
  simp

theorem Inv.perm_branches {b : Block} {s : State} (h : Inv b s)
    (hnodup : (files.map Token.origin).Nodup) (hmem : ∀ t ∈ files, t.origin ∈ s.origins)
    {i : Nat} (hinput : ∀ t ∈ files, t.input = i) (hlen : b.branches.length ≤ files.length) :
    (files.map Token.origin).Perm (b.branches.map fun br => (i, br)) := by
  refine (List.subperm_of_subset hnodup ?_).perm_of_length_le (by simpa using hlen)
  intro o ho
  obtain ⟨t, ht, rfl⟩ := List.mem_map.mp ho
  have hbranch := (h.mem_origins.mp (hmem t ht)).2
  exact List.mem_map.mpr ⟨t.branch, hbranch, by rw [Token.origin, hinput t ht]⟩

section Complete

variable {b : Block} {s : State}

theorem State.origins_of_complete (hcomplete : s.travelling = []) :
    s.origins = (s.bins.flatMap fun p => p.2.files.map Token.origin) ++
      s.emitted.flatMap fun e => e.members.map Token.origin := by
  rw [State.origins, hcomplete, List.nil_append, List.map_append, binFiles, List.map_flatMap,
    List.map_flatMap]

variable {e : Emission}

theorem Inv.nodup_members (h : Inv b s) (he : e ∈ s.emitted) :
    (e.members.map Token.origin).Nodup := by
  refine h.nodup.sublist ?_
  rw [State.origins, List.map_append, List.map_append, List.map_flatMap]
  refine List.Sublist.trans ?_ ((List.sublist_append_right _ _).trans
    (List.sublist_append_right _ _))
  exact List.sublist_flatten_of_mem (List.mem_map_of_mem he)

theorem State.mem_origins_of_members (he : e ∈ s.emitted) {t : Token}
    (ht : t ∈ e.members) : t.origin ∈ s.origins :=
  List.mem_map_of_mem (List.mem_append_right _ (List.mem_append_right _
    (List.mem_flatMap.mpr ⟨e, he, ht⟩)))

variable {p : String × Bin}

theorem State.mem_origins_of_files (hp : p ∈ s.bins) {t : Token}
    (ht : t ∈ p.2.files) : t.origin ∈ s.origins :=
  List.mem_map_of_mem (List.mem_append_right _ (List.mem_append_left _
    (mem_binFiles.mpr ⟨p, hp, ht⟩)))

theorem Inv.waiting_not_emitted (h : Inv b s) (hp : p ∈ s.bins) {t : Token}
    (ht : t ∈ p.2.files) (he : e ∈ s.emitted) {u : Token} (hu : u ∈ e.members) :
    t.origin ≠ u.origin := by
  have hnodup := h.nodup
  unfold State.origins at hnodup
  rw [List.map_append, List.map_append] at hnodup
  have hrest := (List.nodup_append.mp hnodup).2.1
  exact (List.nodup_append.mp hrest).2.2 _ (List.mem_map_of_mem (mem_binFiles.mpr ⟨p, hp, ht⟩)) _
    (List.mem_map_of_mem (List.mem_flatMap.mpr ⟨e, he, hu⟩))

/-- The input of the copies in an emitted FlowFile. -/
def Emission.input (e : Emission) : Nat := e.members.head?.elim 0 Token.input

theorem Inv.emission_perm (h : Inv b s) (ha : Apart s) (he : e ∈ s.emitted) :
    (e.members.map Token.origin).Perm (b.branches.map fun br => (e.input, br)) := by
  have hlen := (h.emitted e he).1
  refine h.perm_branches (h.nodup_members he) (fun t ht => State.mem_origins_of_members he ht) ?_
    hlen.ge
  intro t ht
  cases hm : e.members with
  | nil => simp [hm] at ht
  | cons first rest =>
    have hfirst : first ∈ e.members := by simp [hm]
    rw [ha.emitted e he t ht first hfirst]
    simp [Emission.input, hm]

/-- When every copy has arrived, nothing waits. -/
theorem Inv.bins_eq_nil (h : Inv b s) (ha : Apart s) (hcomplete : s.travelling = []) :
    s.bins = [] := by
  by_contra hne
  obtain ⟨p, hp⟩ := List.exists_mem_of_ne_nil _ hne
  obtain ⟨t, ht⟩ := List.exists_mem_of_ne_nil _ (h.nonempty p hp)
  have hinput := (h.mem_origins.mp (State.mem_origins_of_files hp ht)).1
  -- All copies of this input are in this bin, which is too short for them.
  have hall : ∀ br ∈ b.branches, (t.input, br) ∈ p.2.files.map Token.origin := by
    intro br hbr
    have hmem := h.mem_origins.mpr ⟨hinput, hbr⟩
    rw [State.origins_of_complete hcomplete] at hmem
    rcases List.mem_append.mp hmem with hmem | hmem
    · obtain ⟨q, hq, hmem⟩ := List.mem_flatMap.mp hmem
      obtain ⟨u, hu, huo⟩ := List.mem_map.mp hmem
      have hkey : p.1 = q.1 := ha.one_bin p hp q hq t ht u hu (Prod.mk.inj huo).1.symm
      obtain rfl : p = q := List.inj_on_of_nodup_map h.sorted.keys hp hq hkey
      exact hmem
    · obtain ⟨e, he, hmem⟩ := List.mem_flatMap.mp hmem
      have hperm := h.emission_perm ha he
      obtain ⟨br', -, heq⟩ := List.mem_map.mp (hperm.mem_iff.mp hmem)
      have hsame : e.input = t.input := (Prod.mk.inj heq).1
      have hbranch := (h.mem_origins.mp (State.mem_origins_of_files hp ht)).2
      have : t.origin ∈ e.members.map Token.origin := by
        rw [hperm.mem_iff, hsame]
        exact List.mem_map.mpr ⟨t.branch, hbranch, rfl⟩
      obtain ⟨u, hu, huo⟩ := List.mem_map.mp this
      exact absurd huo.symm (h.waiting_not_emitted hp ht he hu)
  have hsub : (b.branches.map fun br => (t.input, br)).Subperm (p.2.files.map Token.origin) := by
    refine List.subperm_of_subset (b.nodup.map fun _ _ heq => (Prod.mk.inj heq).2) ?_
    intro o ho
    obtain ⟨br, hbr, rfl⟩ := List.mem_map.mp ho
    exact hall br hbr
  have hle := hsub.length_le
  have hshort := h.sorted.short p hp
  rw [List.length_map, List.length_map] at hle
  omega

theorem Inv.joined (h : Inv b s) (ha : Apart s) (hcomplete : s.travelling = []) : Joined b s := by
  have hbins := h.bins_eq_nil ha hcomplete
  have horigins := State.origins_of_complete hcomplete
  rw [hbins, List.flatMap_nil, List.nil_append] at horigins
  have hnodup := h.nodup
  rw [horigins, List.nodup_flatMap] at hnodup
  have htwo := b.two_le
  have hbranch : ∃ br, br ∈ b.branches :=
    List.exists_mem_of_ne_nil _ fun hnil => by simp [hnil] at htwo
  obtain ⟨br, hbr⟩ := hbranch
  have hmem : ∀ e ∈ s.emitted, (e.input, br) ∈ e.members.map Token.origin := fun e he =>
    (h.emission_perm ha he).mem_iff.mpr (List.mem_map.mpr ⟨br, hbr, rfl⟩)
  refine ⟨s.emitted.map Emission.input, ?_, ?_⟩
  · refine (List.perm_ext_iff_of_nodup ?_ List.nodup_range).mpr fun i => ?_
    · refine List.pairwise_map.mpr (hnodup.2.imp_of_mem fun {e e'} he he' hdisjoint heq => ?_)
      exact hdisjoint (hmem e he) (heq ▸ hmem e' he')
    · rw [List.mem_map, List.mem_range]
      constructor
      · rintro ⟨e, he, rfl⟩
        obtain ⟨t, ht, hto⟩ := List.mem_map.mp (hmem e he)
        have := State.mem_origins_of_members he ht
        rw [hto] at this
        exact (h.mem_origins.mp this).1
      · intro hi
        have hmem' := h.mem_origins.mpr ⟨hi, hbr⟩
        rw [horigins] at hmem'
        obtain ⟨e, he, hmem'⟩ := List.mem_flatMap.mp hmem'
        obtain ⟨br', -, heq⟩ := List.mem_map.mp ((h.emission_perm ha he).mem_iff.mp hmem')
        exact ⟨e, he, (Prod.mk.inj heq).1⟩
  · rw [List.forall₂_map_left_iff]
    refine List.forall₂_same.mpr fun e he => ?_
    exact ⟨h.emission_perm ha he, (h.emitted e he).2⟩

end Complete

/-! ## Copies not told apart -/

/-- Copies that are put together: those in a bin, and those in an emitted FlowFile. -/
def State.groups (s : State) : List (List Token) :=
  s.bins.map (fun p => p.2.files) ++ s.emitted.map Emission.members

def Together (s : State) (o o' : Nat × String) : Prop :=
  ∃ g ∈ s.groups, o ∈ g.map Token.origin ∧ o' ∈ g.map Token.origin

/-- Both copies have arrived, and apart from each other. -/
structure Parted (s : State) (o o' : Nat × String) : Prop where
  left : o.1 < s.inputs ∧ o ∉ s.travelling.map Token.origin
  right : o'.1 < s.inputs ∧ o' ∉ s.travelling.map Token.origin
  apart : ¬ Together s o o'

section Arrival

variable {b : Block} {s s' : State} {t : Token}

theorem Arrival.joined_group (h : Arrival b s t s') (hs : Sorted b s.bins) :
    ∃ g ∈ s'.groups, g.Perm (filesAt s.bins t.key ++ [t.arrived]) := by
  cases h with
  | joins bin hbins hfiles =>
    refine ⟨bin.files, List.mem_append_left _ ?_, by rw [hfiles]⟩
    refine List.mem_map.mpr ⟨(t.key, bin), ?_, rfl⟩
    rw [hbins]
    exact (PyDict.set_perm bin hs.keys).mem_iff.mpr List.mem_cons_self
  | completes e _ hmembers _ _ hemitted =>
    refine ⟨e.members, List.mem_append_right _ (List.mem_map_of_mem ?_), hmembers⟩
    rw [hemitted]
    exact List.mem_append_right _ (List.mem_singleton_self e)

variable {g : List Token}

theorem Arrival.groups_new (h : Arrival b s t s') (hg : g ∈ s'.groups) :
    g ∈ s.groups ∨ g.Perm (filesAt s.bins t.key ++ [t.arrived]) := by
  cases h with
  | joins bin hbins hfiles _ _ hemitted =>
    rcases List.mem_append.mp hg with hg | hg
    · obtain ⟨p, hp, rfl⟩ := List.mem_map.mp hg
      rw [hbins] at hp
      rcases PyDict.mem_of_mem_set hp with hp | rfl
      · exact .inl (List.mem_append_left _ (List.mem_map.mpr ⟨p, hp, rfl⟩))
      · exact .inr (by rw [hfiles])
    · exact .inl (List.mem_append_right _ (hemitted ▸ hg))
  | completes e hbins hmembers _ _ hemitted =>
    rcases List.mem_append.mp hg with hg | hg
    · obtain ⟨p, hp, rfl⟩ := List.mem_map.mp hg
      rw [hbins] at hp
      exact .inl (List.mem_append_left _
        (List.mem_map.mpr ⟨p, (PyDict.mem_erase.mp hp).1, rfl⟩))
    · obtain ⟨e', he', rfl⟩ := List.mem_map.mp hg
      rw [hemitted] at he'
      rcases List.mem_append.mp he' with he' | he'
      · exact .inl (List.mem_append_right _ (List.mem_map_of_mem he'))
      · rw [List.mem_singleton.mp he']
        exact .inr hmembers

theorem Arrival.groups_old (h : Arrival b s t s') (hs : Sorted b s.bins)
    (hg : g ∈ s.groups) : g ∈ s'.groups ∨ g = filesAt s.bins t.key := by
  rcases List.mem_append.mp hg with hg | hg
  · obtain ⟨p, hp, rfl⟩ := List.mem_map.mp hg
    by_cases hkey : p.1 = t.key
    · have hget : s.bins.get? t.key = some p.2 := hkey ▸ PyDict.get?_of_mem hs.keys hp
      exact .inr (by simp [filesAt, hget])
    · refine .inl (List.mem_append_left _ (List.mem_map.mpr ⟨p, ?_, rfl⟩))
      have hrest := PyDict.mem_erase.mpr ⟨hp, hkey⟩
      cases h with
      | joins bin hbins =>
        rw [hbins]
        exact (PyDict.set_perm bin hs.keys).mem_iff.mpr (List.mem_cons_of_mem _ hrest)
      | completes e hbins => exact hbins ▸ hrest
  · refine .inl (List.mem_append_right _ ?_)
    obtain ⟨e, he, rfl⟩ := List.mem_map.mp hg
    refine List.mem_map_of_mem ?_
    cases h with
    | joins _ _ _ _ _ hemitted => exact hemitted ▸ he
    | completes _ _ _ _ _ hemitted => exact hemitted ▸ List.mem_append_left _ he

theorem Arrival.together (h : Arrival b s t s') (hs : Sorted b s.bins) {o o' : Nat × String}
    (ho : Together s o o') : Together s' o o' := by
  obtain ⟨g, hg, hmem, hmem'⟩ := ho
  rcases h.groups_old hs hg with hg' | rfl
  · exact ⟨g, hg', hmem, hmem'⟩
  · obtain ⟨g', hg', hperm⟩ := h.joined_group hs
    have hsub : ∀ o, o ∈ (filesAt s.bins t.key).map Token.origin → o ∈ g'.map Token.origin := by
      intro o ho
      refine (hperm.map _).mem_iff.mpr ?_
      rw [List.map_append]
      exact List.mem_append_left _ ho
    exact ⟨g', hg', hsub o hmem, hsub o' hmem'⟩

theorem Arrival.together_of_key (h : Arrival b s t s') (hs : Sorted b s.bins) {d : Token}
    (hd : d ∈ s.waiting) (hkey : d.key = t.key) : Together s' t.origin d.origin := by
  obtain ⟨g, hg, hperm⟩ := h.joined_group hs
  obtain ⟨p, hp, hmem⟩ := mem_binFiles.mp hd
  have hget : s.bins.get? t.key = some p.2 :=
    hkey ▸ hs.filed p hp d hmem ▸ PyDict.get?_of_mem hs.keys hp
  have hfile : d ∈ filesAt s.bins t.key := by simpa [filesAt, hget] using hmem
  refine ⟨g, hg, List.mem_map.mpr ⟨t.arrived, ?_, rfl⟩, List.mem_map_of_mem ?_⟩
  · exact hperm.mem_iff.mpr (List.mem_append_right _ (List.mem_singleton_self _))
  · exact hperm.mem_iff.mpr (List.mem_append_left _ hfile)

end Arrival

theorem State.mem_origins_of_groups {s : State} (hg : g ∈ s.groups) {t : Token}
    (ht : t ∈ g) : t.origin ∈ (binFiles s.bins ++ s.emitted.flatMap Emission.members).map
      Token.origin := by
  refine List.mem_map_of_mem ?_
  rcases List.mem_append.mp hg with hg | hg
  · obtain ⟨p, hp, rfl⟩ := List.mem_map.mp hg
    exact List.mem_append_left _ (mem_binFiles.mpr ⟨p, hp, ht⟩)
  · obtain ⟨e, he, rfl⟩ := List.mem_map.mp hg
    exact List.mem_append_right _ (List.mem_flatMap.mpr ⟨e, he, ht⟩)

theorem Inv.not_grouped {b : Block} {s : State} (h : Inv b s) {t : Token}
    (ht : t ∈ s.travelling) (hg : g ∈ s.groups) :
    t.origin ∉ g.map Token.origin := by
  intro hmem
  obtain ⟨u, hu, huo⟩ := List.mem_map.mp hmem
  have hnodup := h.nodup
  unfold State.origins at hnodup
  rw [List.map_append] at hnodup
  exact (List.nodup_append.mp hnodup).2.2 _ (List.mem_map_of_mem ht) _
    (State.mem_origins_of_groups hg hu) huo.symm

section Arrival

variable {b : Block} {s s' : State} {t : Token}

theorem Arrival.parted (h : Arrival b s t s') (hs : Inv b s) (ht : t ∈ s.travelling)
    (hinputs : s'.inputs = s.inputs)
    (htravelling : s'.travelling.Sublist s.travelling) {o o' : Nat × String}
    (ho : Parted s o o') : Parted s' o o' := by
  have hsub : ∀ o, o ∉ s.travelling.map Token.origin → o ∉ s'.travelling.map Token.origin :=
    fun o hno hmem => hno ((htravelling.map Token.origin).subset hmem)
  refine ⟨⟨hinputs ▸ ho.left.1, hsub o ho.left.2⟩, ⟨hinputs ▸ ho.right.1, hsub o' ho.right.2⟩, ?_⟩
  rintro ⟨g, hg, hmem, hmem'⟩
  rcases h.groups_new hg with hold | hperm
  · exact ho.apart ⟨g, hold, hmem, hmem'⟩
  · -- Neither of them is the arriving copy, so both were in the bin before.
    have hin : ∀ o, o ∉ s.travelling.map Token.origin → o ∈ g.map Token.origin →
        o ∈ (filesAt s.bins t.key).map Token.origin := by
      intro o hno hmem
      rw [(hperm.map _).mem_iff, List.map_append] at hmem
      refine (List.mem_append.mp hmem).resolve_right fun hnew => hno ?_
      rw [List.mem_singleton.mp hnew]
      exact List.mem_map.mpr ⟨t, ht, rfl⟩
    have hfile := hin o ho.left.2 hmem
    obtain ⟨u, hu, -⟩ := List.mem_map.mp hfile
    obtain ⟨p, hp, hkey, -⟩ := mem_filesAt hu
    have hget : s.bins.get? t.key = some p.2 := hkey ▸ PyDict.get?_of_mem hs.sorted.keys hp
    refine ho.apart ⟨filesAt s.bins t.key, List.mem_append_left _ ?_, hfile,
      hin o' ho.right.2 hmem'⟩
    exact List.mem_map.mpr ⟨p, hp, by simp [filesAt, hget]⟩

/-- A copy that meets another one under a different key arrives apart from it. -/
theorem Arrival.parted_of_key (h : Arrival b s t s') (hs : Inv b s) {k : Nat}
    (ht : t ∈ s.travelling[k]?) (hinputs : s'.inputs = s.inputs)
    (htravelling : s'.travelling = s.travelling.eraseIdx k) {d : Token} (hd : d ∈ s.waiting)
    (hkey : d.key ≠ t.key) : Parted s' t.origin d.origin := by
  obtain ⟨hk, rfl⟩ := List.getElem?_eq_some_iff.mp ht
  have htmem : s.travelling[k] ∈ s.travelling := List.getElem_mem hk
  have hnodup := hs.nodup
  unfold State.origins at hnodup
  rw [List.map_append, List.nodup_append] at hnodup
  obtain ⟨hbranch, harrived, hdisjoint⟩ := hnodup
  have hdmem : d.origin ∈ (binFiles s.bins ++ s.emitted.flatMap Emission.members).map
      Token.origin := List.mem_map_of_mem (List.mem_append_left _ hd)
  have hlt : ∀ o ∈ s.origins, o.1 < s.inputs := fun o ho => (hs.mem_origins.mp ho).1
  have hback : (s.travelling[k] :: s.travelling.eraseIdx k).Perm s.travelling :=
    List.getElem_cons_eraseIdx_perm hk
  refine ⟨⟨?_, ?_⟩, ⟨?_, ?_⟩, ?_⟩
  · rw [hinputs]
    exact hlt _ (List.mem_map_of_mem (List.mem_append_left _ htmem))
  · rw [htravelling]
    exact (List.nodup_cons.mp ((hback.map Token.origin).nodup_iff.mpr hbranch)).1
  · rw [hinputs]
    exact hlt _ (List.mem_map_of_mem (List.mem_append_right _ (List.mem_append_left _ hd)))
  · rw [htravelling]
    intro hmem
    exact hdisjoint _ (((List.eraseIdx_sublist ..).map Token.origin).subset hmem) _ hdmem rfl
  · rintro ⟨g, hg, hmem, hmem'⟩
    rcases h.groups_new hg with hold | hperm
    · exact hs.not_grouped htmem hold hmem
    · rw [(hperm.map _).mem_iff, List.map_append] at hmem'
      rcases List.mem_append.mp hmem' with hfile | hnew
      · obtain ⟨u, hu, huo⟩ := List.mem_map.mp hfile
        obtain ⟨p, hp, -, hup⟩ := mem_filesAt hu
        rw [List.map_append, List.nodup_append] at harrived
        have heq : u = d := List.inj_on_of_nodup_map harrived.1
          (mem_binFiles.mpr ⟨p, hp, hup⟩) hd huo
        exact hkey (heq ▸ filed_filesAt hs.sorted hu)
      · exact hdisjoint _ (List.mem_map_of_mem htmem) _ hdmem (List.mem_singleton.mp hnew).symm

end Arrival

/-! ## Runs -/

theorem Together.of_step {b : Block} {parseInt : String → Option Int} {s s' : State}
    (h : Together s o o') (hs : Inv b s) (hlim : WithinLimits b s a)
    (hstep : step b parseInt s a = some s') : Together s' o o' := by
  cases a with
  | enter f uuid clones =>
    obtain rfl := Option.some.inj hstep
    exact h
  | work k f =>
    obtain ⟨t, ht, rfl⟩ := Option.map_eq_some_iff.mp hstep
    exact h
  | arrive k now clone =>
    obtain ⟨t, ht, harrival, -, -⟩ := arrival_of_step hs.sorted hlim hstep
    exact harrival.together hs.sorted h

theorem Parted.of_step {b : Block} {parseInt : String → Option Int} {s s' : State}
    (h : Parted s o o') (hs : Inv b s) (hlim : WithinLimits b s a)
    (hstep : step b parseInt s a = some s') : Parted s' o o' := by
  cases a with
  | enter f uuid clones =>
    obtain rfl := Option.some.inj hstep
    -- The new copies are of a new input.
    have hnew : ∀ o : Nat × String, o.1 < s.inputs → o ∉ s.travelling.map Token.origin →
        o ∉ (s.travelling ++ b.enter s.inputs f uuid clones).map Token.origin := by
      intro o hlt hno hmem
      rw [List.map_append, b.enter_origins] at hmem
      refine hno ((List.mem_append.mp hmem).resolve_right fun hmem => ?_)
      obtain ⟨br, -, rfl⟩ := List.mem_map.mp hmem
      exact lt_irrefl _ hlt
    exact ⟨⟨Nat.lt_succ_of_lt h.left.1, hnew o h.left.1 h.left.2⟩,
      ⟨Nat.lt_succ_of_lt h.right.1, hnew o' h.right.1 h.right.2⟩, h.apart⟩
  | work k f =>
    obtain ⟨t, ht, rfl⟩ := Option.map_eq_some_iff.mp hstep
    refine ⟨⟨h.left.1, ?_⟩, ⟨h.right.1, ?_⟩, h.apart⟩
    · rw [origin_set ht]
      exact h.left.2
    · rw [origin_set ht]
      exact h.right.2
  | arrive k now clone =>
    obtain ⟨t, ht, harrival, hinputs, htravelling⟩ := arrival_of_step hs.sorted hlim hstep
    have hmem := List.mem_of_getElem? ht
    exact harrival.parted hs hmem hinputs (htravelling ▸ List.eraseIdx_sublist ..) h

section Run

variable {b : Block} {parseInt : String → Option Int} {s t : State} {acts : List Act}

theorem run_keeps {P : State → Prop}
    (hkeep : ∀ s a s', Inv b s → WithinLimits b s a → step b parseInt s a = some s' → P s → P s') :
    ∀ {acts : List Act} {s : State}, Inv b s → AllSteps (step b parseInt) (WithinLimits b) s acts →
      acts.foldlM (step b parseInt) s = some t → P s → Inv b t ∧ P t
  | [], s, hs, _, ht, hp => by
    obtain rfl := Option.some.inj ht
    exact ⟨hs, hp⟩
  | a :: acts, s, hs, hlim, ht, hp => by
    obtain ⟨u, hu, hrest⟩ := Option.bind_eq_some_iff.mp ht
    obtain ⟨hlim, hlims⟩ := hlim u hu
    exact run_keeps hkeep (hs.of_step hlim hu) hlims hrest (hkeep s a u hs hlim hu hp)

theorem Joined.exists_emission (h : Joined b t) {i : Nat} (hi : i < t.inputs) :
    ∃ e ∈ t.emitted, (e.members.map Token.origin).Perm (b.branches.map fun br => (i, br)) := by
  obtain ⟨inputs, hperm, hall⟩ := h
  have hmem : i ∈ inputs := hperm.mem_iff.mpr (List.mem_range.mpr hi)
  obtain ⟨k, hk, rfl⟩ := List.mem_iff_getElem.mp hmem
  have hk' : k < t.emitted.length := hall.length_eq ▸ hk
  exact ⟨t.emitted[k], List.getElem_mem hk', (hall.get hk hk').1⟩

theorem Joined.exists_input (h : Joined b t) {e : Emission} (he : e ∈ t.emitted) :
    ∃ i < t.inputs, (e.members.map Token.origin).Perm (b.branches.map fun br => (i, br)) := by
  obtain ⟨inputs, hperm, hall⟩ := h
  obtain ⟨k, hk, rfl⟩ := List.mem_iff_getElem.mp he
  have hk' : k < inputs.length := hall.length_eq ▸ hk
  refine ⟨inputs[k], ?_, (hall.get hk' hk).1⟩
  exact List.mem_range.mp (hperm.mem_iff.mp (List.getElem_mem hk'))

theorem Joined.input_of_together (h : Joined b t) (ht : Inv b t) {o o' : Nat × String}
    (ho : Together t o o') : o.1 = o'.1 := by
  obtain ⟨g, hg, hmem, hmem'⟩ := ho
  rcases List.mem_append.mp hg with hg | hg
  · -- A copy that still waits has been emitted as well.
    obtain ⟨p, hp, rfl⟩ := List.mem_map.mp hg
    obtain ⟨u, hu, rfl⟩ := List.mem_map.mp hmem
    obtain ⟨hlt, hbranch⟩ := ht.mem_origins.mp (State.mem_origins_of_files hp hu)
    obtain ⟨e, he, hperm⟩ := h.exists_emission hlt
    obtain ⟨v, hv, hvo⟩ := List.mem_map.mp (hperm.mem_iff.mpr
      (List.mem_map.mpr ⟨u.branch, hbranch, rfl⟩))
    exact absurd hvo.symm (ht.waiting_not_emitted hp hu he hv)
  · obtain ⟨e, he, rfl⟩ := List.mem_map.mp hg
    obtain ⟨i, -, hperm⟩ := h.exists_input he
    obtain ⟨_, -, rfl⟩ := List.mem_map.mp (hperm.mem_iff.mp hmem)
    obtain ⟨_, -, rfl⟩ := List.mem_map.mp (hperm.mem_iff.mp hmem')
    rfl

theorem Joined.together (h : Joined b t) {i : Nat} (hi : i < t.inputs) {br br' : String}
    (hbr : br ∈ b.branches) (hbr' : br' ∈ b.branches) : Together t (i, br) (i, br') := by
  obtain ⟨e, he, hperm⟩ := h.exists_emission hi
  refine ⟨e.members, List.mem_append_right _ (List.mem_map_of_mem he), ?_, ?_⟩
  · exact hperm.mem_iff.mpr (List.mem_map.mpr ⟨br, hbr, rfl⟩)
  · exact hperm.mem_iff.mpr (List.mem_map.mpr ⟨br', hbr', rfl⟩)

/-- An arrival that is not told apart shows in the result. -/
theorem tellsApart_of_joined {a : Act} {u : State} (hs : Inv b s) (hlim : WithinLimits b s a)
    (hu : step b parseInt s a = some u) (hlims : AllSteps (step b parseInt) (WithinLimits b) u acts)
    (hrest : acts.foldlM (step b parseInt) u = some t) (hj : Joined b t) : TellsApart s a := by
  have hinv := hs.of_step hlim hu
  cases a with
  | enter => trivial
  | work => trivial
  | arrive k now clone =>
    intro c hc d hd
    obtain ⟨c', hc', harrival, hinputs, htravelling⟩ := arrival_of_step hs.sorted hlim hu
    obtain rfl := Option.mem_unique hc hc'
    constructor
    · intro hkey
      have htogether := harrival.together_of_key hs.sorted hd hkey
      obtain ⟨ht, hend⟩ := run_keeps (fun _ _ _ hi hl hst hp => Together.of_step hp hi hl hst)
        hinv hlims hrest htogether
      exact (hj.input_of_together ht hend).symm
    · intro hinput
      by_contra hkey
      have hparted := harrival.parted_of_key hs hc hinputs htravelling hd hkey
      obtain ⟨ht, hend⟩ := run_keeps (fun _ _ _ hi hl hst hp => Parted.of_step hp hi hl hst) hinv
        hlims hrest hparted
      have hlt : d.input < t.inputs := hend.right.1
      have hbranch : ∀ u ∈ s.travelling ++ (binFiles s.bins ++ s.emitted.flatMap
          Emission.members), u.branch ∈ b.branches := fun u hu =>
        (hs.mem_origins.mp (List.mem_map_of_mem hu)).2
      have htogether := hj.together hlt
        (hbranch c (List.mem_append_left _ (List.mem_of_getElem? hc)))
        (hbranch d (List.mem_append_right _ (List.mem_append_left _ hd)))
      refine hend.apart ?_
      show Together t (c.input, c.branch) (d.input, d.branch)
      rw [← hinput]
      exact htogether

theorem tellsApart_run : ∀ {acts : List Act} {s : State}, Inv b s →
    AllSteps (step b parseInt) (WithinLimits b) s acts →
    acts.foldlM (step b parseInt) s = some t → Joined b t →
      AllSteps (step b parseInt) TellsApart s acts
  | [], _, _, _, _, _ => trivial
  | a :: acts, s, hs, hlim, ht, hj => by
    intro u hu
    obtain ⟨v, hv, hrest⟩ := Option.bind_eq_some_iff.mp ht
    obtain rfl := Option.mem_unique hu hv
    obtain ⟨hlim, hlims⟩ := hlim u hu
    exact ⟨tellsApart_of_joined hs hlim hu hlims hrest hj,
      tellsApart_run (hs.of_step hlim hu) hlims hrest hj⟩

theorem apart_run : ∀ {acts : List Act} {s : State}, Inv b s → Apart s →
    AllSteps (step b parseInt) (WithinLimits b) s acts →
    AllSteps (step b parseInt) TellsApart s acts →
    acts.foldlM (step b parseInt) s = some t → Inv b t ∧ Apart t
  | [], s, hs, ha, _, _, ht => by
    obtain rfl := Option.some.inj ht
    exact ⟨hs, ha⟩
  | a :: acts, s, hs, ha, hlim, hok, ht => by
    obtain ⟨u, hu, hrest⟩ := Option.bind_eq_some_iff.mp ht
    obtain ⟨hlim, hlims⟩ := hlim u hu
    obtain ⟨hok, hoks⟩ := hok u hu
    exact apart_run (hs.of_step hlim hu) (ha.of_step hs hlim hok hu) hlims hoks hrest

end Run

/-- **Joins.** When every copy has arrived and no limit was reached, the join has emitted one
FlowFile for each input, made of its copies, exactly if each copy arrived with the identifier of the
waiting copies of its own input and of no others. -/
theorem joined_iff_tellsApart (b : Block) (parseInt : String → Option Int) (acts : List Act)
    (t : State) (hlim : AllSteps (step b parseInt) (WithinLimits b) {} acts)
    (ht : acts.foldlM (step b parseInt) {} = some t) (hcomplete : t.travelling = []) :
    Joined b t ↔ AllSteps (step b parseInt) TellsApart {} acts := by
  constructor
  · exact tellsApart_run (Inv.init b) hlim ht
  · intro hok
    have hempty : Apart {} := ⟨by simp, by simp, by simp⟩
    obtain ⟨hinv, hapart⟩ := apart_run (Inv.init b) hempty hlim hok ht
    exact hinv.joined hapart hcomplete

def twoBranches : Block where
  branches := ["a", "b"]
  two_le := by decide
  nodup := by decide
  maxBinFlowfiles := 2

instance (b : Block) (s : State) : ∀ a, Decidable (WithinLimits b s a)
  | .arrive k now _ => inferInstanceAs (Decidable (∀ t ∈ s.travelling[k]?,
      (0 < b.maxBinAge → ∀ p ∈ s.bins, now - p.2.created ≤ b.maxBinAge) ∧
      (0 < b.maxBinFlowfiles → b.branches.length ≤ b.maxBinFlowfiles) ∧
      (0 < b.maxBinBytes →
        ((s.bins.get? t.key).elim 0 Bin.bytes) + t.file.size ≤ b.maxBinBytes)))
  | .enter .. | .work .. => .isTrue trivial

def inTurn (first second : FlowFile) : List Act :=
  [.enter first "u1" fun k => (toString k, 0), .enter second "u2" fun k => (toString k, 0),
    .arrive 0 1 ("m1", 1), .arrive 1 1 ("m2", 1), .arrive 0 1 ("m3", 1), .arrive 0 1 ("m4", 1)]

/-- FlowFiles without an identifier. -/
def plain (content : List UInt8) : FlowFile := { processId := "p", content }

theorem joined_iff_tellsApart_plain :
    ∃ t, (inTurn (plain [1]) (plain [2])).foldlM (step twoBranches fun _ => none) {} = some t ∧
      (Joined twoBranches t ↔
        AllSteps (step twoBranches fun _ => none) TellsApart {} (inTurn (plain [1]) (plain [2]))) := by
  have hend : ((inTurn (plain [1]) (plain [2])).foldlM (step twoBranches fun _ => none) {}).map
      State.travelling = some [] := by decide +kernel
  obtain ⟨t, ht, hcomplete⟩ := Option.map_eq_some_iff.mp hend
  exact ⟨t, ht, joined_iff_tellsApart twoBranches _ _ t (by decide +kernel) ht hcomplete⟩

/-- A part of a split FlowFile, as `SplitContentTask` tags it. -/
def fragment (index : String) (content : List UInt8) : FlowFile :=
  { processId := "p", content, attributes := [("fragment.identifier", "f"),
      ("fragment.index", index), ("fragment.count", "2")] }

/-- Two parts of one split enter the parallel block: the join puts the first copies of both
together. -/
theorem not_joined_fragments : ¬ ∀ (b : Block) (parseInt : String → Option Int) (acts : List Act)
    (t : State), AllSteps (step b parseInt) (WithinLimits b) {} acts →
      acts.foldlM (step b parseInt) {} = some t → t.travelling = [] → Joined b t := by
  intro h
  have hend : ((inTurn (fragment "0" [1]) (fragment "1" [2])).foldlM
      (step twoBranches fun _ => none) {}).map (fun t => (t.travelling, t.emitted.map fun e =>
        e.members.map Token.origin)) =
      some ([], [[(0, "a"), (1, "a")], [(0, "b"), (1, "b")]]) := by decide +kernel
  obtain ⟨t, ht, hend⟩ := Option.map_eq_some_iff.mp hend
  obtain ⟨hcomplete, hmembers⟩ := Prod.mk.inj hend
  have hj := h twoBranches _ _ t (by decide +kernel) ht hcomplete
  have hmem : [(0, "a"), (1, "a")] ∈ t.emitted.map fun e => e.members.map Token.origin :=
    hmembers ▸ List.mem_cons_self
  obtain ⟨e, he, horigins⟩ := List.mem_map.mp hmem
  obtain ⟨i, -, hperm⟩ := hj.exists_input he
  rw [horigins] at hperm
  obtain ⟨_, -, h0⟩ := List.mem_map.mp (hperm.mem_iff.mp List.mem_cons_self)
  obtain ⟨_, -, h1⟩ := List.mem_map.mp
    (hperm.mem_iff.mp (List.mem_cons_of_mem _ List.mem_cons_self))
  have hinputs : 0 = 1 := (Prod.mk.inj h0).1.symm.trans (Prod.mk.inj h1).1
  exact absurd hinputs (by decide)

end PawFlow.ParallelJoin
