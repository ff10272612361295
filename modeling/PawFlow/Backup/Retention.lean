import PawFlow.Backup.Restoring
import PawFlow.Lib.Runs
import Mathlib.Data.Char
import Mathlib.Data.List.Lex

/-!
# Kept backups

Over a whole sequence of runs, what every manifest at the destination restores is compared with the
source of the run that wrote it, and what is pruned with the order in which it was written.
-/

namespace PawFlow.Backup

open PawFlow.Lib

/-- The destination with what has been written there so far. -/
structure Watched (E : Type) where
  dest : Dest E := {}
  /-- The source of the run that published last. -/
  published : Option Snapshot := none
  /-- The numbered manifests that were written, the newest first, with the source of their run. -/
  history : List (List Char × Snapshot) := []

namespace Crypto

variable {E : Type} (c : Crypto E)

/-- After its loop the run has this many writes to the destination left. -/
def reaches (d : Dest E) (r : Run) (n : Nat) : Bool :=
  !(c.backupFiles d r).aborted && (c.backupFiles d r).writes.all fun left => n ≤ left

def follow (w : Watched E) (r : Run) : Watched E where
  dest := c.run w.dest r
  published := if c.reaches w.dest r 1 then some r.snapshot else w.published
  history :=
    if c.reaches w.dest r 2 then
      (manifestName (c.nextCounter w.dest r), r.snapshot) :: w.history
    else w.history

def step (w : Watched E) (r : Run) : Option (Watched E) := some (c.follow w r)

/-- Every manifest restores the source of the run that wrote it first, and no other run writes it
again. -/
structure Good (w : Watched E) : Prop where
  pointer : ∀ e, w.dest.pointer = some e → ∃ snap, w.published = some snap ∧
    c.restore w.dest e = some { files := snap, failed := [] }
  numbered : ∀ name e, w.dest.manifests.get? name = some e →
    ∃ snap, PyDict.get? w.history.reverse name = some snap ∧
      c.restore w.dest e = some { files := snap, failed := [] }
  once : (w.history.map Prod.fst).Nodup

/-- The manifests written after this one that are still there. -/
def newer (w : Watched E) (name : List Char) : List (List Char) :=
  ((w.history.map Prod.fst).takeWhile (· ≠ name)).filter fun other =>
    (w.dest.manifests.get? other).isSome

/-- Where the run prunes a manifest, it keeps that many newer ones. -/
def PrunesOld (w : Watched E) (r : Run) : Prop :=
  ∀ name, ((c.publish w.dest r).dest.manifests.get? name).isSome →
    (c.follow w r).dest.manifests.get? name = none →
      r.keep ≤ (newer (c.follow w r) name).length

/-- A run that publishes could read the manifest published before, unless nothing has been numbered
yet, and its number has twelve digits. -/
def Guarded (w : Watched E) (r : Run) : Prop :=
  c.reaches w.dest r 1 → (r.readFails = false ∨ w.history = []) ∧
    ∀ m ∈ w.dest.pointer.bind c.decryptManifest, m.counter + 1 < 10 ^ 12

instance (w : Watched E) (r : Run) : Decidable (Guarded c w r) :=
  inferInstanceAs (Decidable (_ → (_ ∨ _) ∧ ∀ m ∈ w.dest.pointer.bind c.decryptManifest, _))

variable {c} {known : Bytes → Prop} {w : Watched E} {d : Dest E} {r : Run}

/-! ## Names -/

theorem manifestName_lt {m n : Nat} (h : m < n) (hn : n < 10 ^ 12) :
    manifestName m < manifestName n := by
  refine lt_append_of_length_eq _ _ ?_ (formatDecimal_lt (by decide) h hn)
  rw [length_formatDecimal (by decide) hn, length_formatDecimal (by decide) (h.trans hn)]

variable {name : List Char}

theorem mem_takeWhile_of_lt {other : List Char} : ∀ {names : List (List Char)},
    names.Pairwise (fun a b => b < a) → other ∈ names → name < other →
      other ∈ names.takeWhile (· ≠ name)
  | first :: names, hfalling, hother, hlt => by
    obtain ⟨hfirst, hrest⟩ := List.pairwise_cons.mp hfalling
    have hne : first ≠ name := by
      rintro rfl
      rcases List.mem_cons.mp hother with rfl | hmem
      · exact lt_irrefl _ hlt
      · exact lt_asymm hlt (hfirst other hmem)
    rw [List.takeWhile_cons_of_pos (by simpa using hne)]
    rcases List.mem_cons.mp hother with rfl | hmem
    · exact List.mem_cons_self
    · exact List.mem_cons_of_mem _ (mem_takeWhile_of_lt hrest hmem hlt)

/-! ## Pruning -/

variable {fails : List Char → Bool}

theorem get?_foldl_erase {E : Type} :
    ∀ {stale : List (List Char)} {manifests : PyDict (List Char) E},
      (stale.foldl (fun manifests stale =>
        if fails stale then manifests else manifests.erase stale) manifests).get? name =
      if name ∈ stale.filter (fun stale => !fails stale) then none else manifests.get? name
  | [], _ => rfl
  | first :: stale, manifests => by
    rw [List.foldl_cons, get?_foldl_erase]
    by_cases hfails : fails first
    · rw [if_pos hfails, List.filter_cons_of_neg (by simpa using hfails)]
    · rw [if_neg hfails, List.filter_cons_of_pos (by simpa using hfails), PyDict.get?_erase]
      by_cases hfirst : name = first
      · rw [if_pos hfirst, if_pos (List.mem_cons.mpr (.inl hfirst)), ite_self]
      · rw [if_neg hfirst]
        simp only [List.mem_cons, hfirst, false_or]

theorem keys_foldl_erase {E : Type} :
    ∀ {stale : List (List Char)} {manifests : PyDict (List Char) E},
      ((stale.foldl (fun manifests stale =>
        if fails stale then manifests else manifests.erase stale) manifests).map Prod.fst).Sublist
      (manifests.map Prod.fst)
  | [], _ => List.Sublist.refl _
  | first :: stale, manifests => by
    rw [List.foldl_cons]
    refine keys_foldl_erase.trans ?_
    split_ifs
    · exact List.Sublist.refl _
    · exact List.filter_sublist.map _

theorem prune_spec (d : Dest E) (r : Run) : ∃ gone ⊆ staleNames r.keep (sortedNames d),
    (∀ name, (pruneOldManifests d r).manifests.get? name =
      if name ∈ gone then none else d.manifests.get? name) ∧
    ((pruneOldManifests d r).manifests.map Prod.fst).Sublist (d.manifests.map Prod.fst) ∧
    (pruneOldManifests d r).pointer = d.pointer ∧ (pruneOldManifests d r).blobs = d.blobs := by
  unfold pruneOldManifests
  split_ifs
  · exact ⟨[], List.nil_subset _, fun _ => rfl, List.Sublist.refl _, rfl, rfl⟩
  · exact ⟨_, List.filter_sublist.subset, fun _ => get?_foldl_erase, keys_foldl_erase, rfl, rfl⟩

theorem mem_sortedNames : name ∈ sortedNames d ↔
    (d.manifests.get? name).isSome ∧ ".json.enc".toList.isSuffixOf name := by
  rw [sortedNames, List.mem_insertionSort, List.mem_filter, ← not_iff_not, Option.isSome_iff_ne_none]
  rw [Ne, PyDict.get?_eq_none_iff, not_not]

theorem sortedNames_pairwise (h : (d.manifests.map Prod.fst).Nodup) :
    (sortedNames d).Pairwise (· < ·) := by
  have : Std.Total fun a b : List Char => ¬ b < a := ⟨fun a b => by
    rw [not_lt, not_lt]
    exact le_total a b⟩
  have : IsTrans (List Char) fun a b => ¬ b < a := ⟨fun a b c hab hbc =>
    not_lt.mpr ((not_lt.mp hab).trans (not_lt.mp hbc))⟩
  have hsorted : (sortedNames d).Pairwise fun a b => ¬ b < a := List.pairwise_insertionSort _ _
  have hnodup : (sortedNames d).Nodup :=
    (List.perm_insertionSort _ _).nodup_iff.mpr (h.filter _)
  exact (hsorted.and hnodup).imp fun hab => lt_of_le_of_ne (not_lt.mp hab.1) hab.2

theorem above_of_stale {keep : Int} {names : List (List Char)}
    (hsorted : names.Pairwise (· < ·)) (h : name ∈ staleNames keep names) :
    ∃ above : List (List Char), keep ≤ above.length ∧ above.Nodup ∧
      ∀ other ∈ above, other ∈ names ∧ name < other ∧ other ∉ staleNames keep names := by
  unfold staleNames at h ⊢
  split_ifs at h ⊢ with hkeep
  · refine ⟨names.drop (names.length - keep.toNat), ?_,
      (hsorted.imp fun hlt => ne_of_lt hlt).sublist (List.drop_sublist _ _), fun other hother => ?_⟩
    · have hpos := List.length_pos_of_mem h
      rw [List.length_take] at hpos
      rw [List.length_drop]
      omega
    · have hparts := hsorted
      rw [← List.take_append_drop (names.length - keep.toNat) names, List.pairwise_append] at hparts
      refine ⟨List.mem_of_mem_drop hother, hparts.2.2 name h other hother, fun hstale => ?_⟩
      exact lt_irrefl _ (hparts.2.2 other hstale other hother)
  · cases h

/-! ## How far a run comes -/

variable (c) in
def encManifest (d : Dest E) (r : Run) : E :=
  c.encryptManifest (r.salt (c.backupFiles d r).uploaded)
    { counter := c.nextCounter d r, createdAt := r.createdAt,
      files := (c.backupFiles d r).currentFiles }

theorem publish_cases (c : Crypto E) (d : Dest E) (r : Run) :
    (c.reaches d r 1 = false ∧ c.reaches d r 2 = false ∧
      (c.publish d r).dest = (c.backupFiles d r).dest ∧ c.run d r = (c.publish d r).dest) ∨
    (c.backupFiles d r).aborted = false ∧ c.reaches d r 1 = true ∧ (
      (c.reaches d r 2 = false ∧
        (c.publish d r).dest = (c.backupFiles d r).dest.put .pointer (c.encManifest d r) ∧
        c.run d r = (c.publish d r).dest) ∨
      (c.reaches d r 2 = true ∧
        (c.publish d r).dest = ((c.backupFiles d r).dest.put .pointer (c.encManifest d r)).put
          (.manifest (manifestName (c.nextCounter d r))) (c.encManifest d r) ∧
        c.run d r = pruneOldManifests (c.publish d r).dest r)) := by
  unfold run publish reaches encManifest
  cases haborted : (c.backupFiles d r).aborted with
  | true =>
    refine .inl ⟨rfl, rfl, ?_⟩
    simp [haborted]
  | false =>
    rcases hwrites : (c.backupFiles d r).writes with _ | _ | _ | left
    · refine .inr ⟨rfl, rfl, .inr ⟨rfl, ?_⟩⟩
      simp [Progress.destWrite, hwrites, haborted]
    · refine .inl ⟨rfl, rfl, ?_⟩
      simp [Progress.destWrite, hwrites, haborted]
    · refine .inr ⟨rfl, rfl, .inl ⟨rfl, ?_⟩⟩
      simp [Progress.destWrite, hwrites, haborted]
    · refine .inr ⟨rfl, by simp, .inr ⟨by simp, ?_⟩⟩
      simp [Progress.destWrite, hwrites, haborted]

/-! ## The invariant -/

structure Inv (c : Crypto E) (known : Bytes → Prop) (w : Watched E) : Prop where
  sound : Sound c known w.dest.blobs
  keys : (w.dest.manifests.map Prod.fst).Nodup
  unpublished : w.dest.pointer = none → w.history = []
  pointer : ∀ e, w.dest.pointer = some e → ∃ m snap, c.decryptManifest e = some m ∧
    w.published = some snap ∧ Describes c known w.dest.blobs m snap ∧
    ∀ name ∈ w.history.map Prod.fst, ∃ n ≤ m.counter, name = manifestName n
  manifests : ∀ name e, w.dest.manifests.get? name = some e → ∃ m snap,
    c.decryptManifest e = some m ∧ (name, snap) ∈ w.history ∧
    Describes c known w.dest.blobs m snap
  falling : (w.history.map Prod.fst).Pairwise fun a b => b < a

theorem inv_empty (c : Crypto E) (known : Bytes → Prop) : Inv c known ({} : Watched E) where
  sound _ _ he := nomatch he
  keys := List.nodup_nil
  unpublished _ := rfl
  pointer _ he := nomatch he
  manifests _ _ he := nomatch he
  falling := .nil

theorem Inv.good (h : Inv c known w) (hfree : CollisionFree c known) : Good c w := by
  have hnodup : (w.history.map Prod.fst).Nodup := h.falling.imp fun hlt => ne_of_gt hlt
  refine ⟨fun e he => ?_, fun name e he => ?_, hnodup⟩
  · obtain ⟨m, snap, hm, hpublished, hdescribes, -⟩ := h.pointer e he
    exact ⟨snap, hpublished, hdescribes.restore h.sound hfree hm⟩
  · obtain ⟨m, snap, hm, hmem, hdescribes⟩ := h.manifests name e he
    refine ⟨snap, PyDict.get?_of_mem ?_ (List.mem_reverse.mpr hmem),
      hdescribes.restore h.sound hfree hm⟩
    rw [List.map_reverse]
    exact List.nodup_reverse.mpr hnodup

/-! ## One run -/

theorem Inv.loop (h : Inv c known w)
    (hknown : ∀ f ∈ r.source.files, ∀ content, f.content = some content → known content) :
    Loop c known w.dest (walkSource r.source r.excluded) (c.backupFiles w.dest r) := by
  refine loop_backupFiles h.sound (fun m hm => ?_) hknown
  unfold lastManifest at hm
  split_ifs at hm
  obtain ⟨e, he, hm⟩ := Option.bind_eq_some_iff.mp hm
  obtain ⟨m', snap, hm', -, hdescribes, -⟩ := h.pointer e he
  obtain rfl := Option.some.inj (hm.symm.trans hm')
  exact ⟨snap, hdescribes⟩

theorem Inv.number (h : Inv c known w) (hguarded : Guarded c w r)
    (hreaches : c.reaches w.dest r 1 = true) : ∀ name ∈ w.history.map Prod.fst,
      (∃ n ≤ c.nextCounter w.dest r, name = manifestName n) ∧
      name < manifestName (c.nextCounter w.dest r) := by
  obtain ⟨hreads, hsmall⟩ := hguarded hreaches
  intro name hname
  rcases hreads with hreads | hnone
  · cases hpointer : w.dest.pointer with
    | none =>
      rw [h.unpublished hpointer] at hname
      cases hname
    | some e =>
      obtain ⟨m, -, hm, -, -, hnames⟩ := h.pointer e hpointer
      obtain ⟨n, hn, rfl⟩ := hnames name hname
      have hlast : w.dest.pointer.bind c.decryptManifest = some m := by
        rw [hpointer, Option.bind_some, hm]
      have hnext : c.nextCounter w.dest r = m.counter + 1 := by
        rw [nextCounter, lastManifest, hreads, if_neg Bool.false_ne_true, hlast]
        rfl
      rw [hnext]
      exact ⟨⟨n, hn.trans (Nat.le_succ _), rfl⟩,
        manifestName_lt (Nat.lt_succ_of_le hn) (hsmall m hlast)⟩
  · rw [hnone] at hname
    cases hname

theorem Inv.kept (h : Inv c known w)
    (hknown : ∀ f ∈ r.source.files, ∀ content, f.content = some content → known content) :
    Inv c known { w with dest := (c.backupFiles w.dest r).dest } := by
  have hloop := h.loop hknown
  refine ⟨hloop.sound, hloop.manifests ▸ h.keys, hloop.pointer ▸ h.unpublished, fun e he => ?_,
    fun name e he => ?_, h.falling⟩
  · obtain ⟨m, snap, hm, hpublished, hdescribes, hnames⟩ := h.pointer e (hloop.pointer ▸ he)
    exact ⟨m, snap, hm, hpublished, hdescribes.mono hloop.grows, hnames⟩
  · obtain ⟨m, snap, hm, hmem, hdescribes⟩ := h.manifests name e (hloop.manifests ▸ he)
    exact ⟨m, snap, hm, hmem, hdescribes.mono hloop.grows⟩

theorem Inv.published (h : Inv c known w) (hguarded : Guarded c w r)
    (hknown : ∀ f ∈ r.source.files, ∀ content, f.content = some content → known content)
    (hgoing : (c.backupFiles w.dest r).aborted = false) (hreaches : c.reaches w.dest r 1 = true) :
    Inv c known {
      dest := (c.backupFiles w.dest r).dest.put .pointer (c.encManifest w.dest r)
      published := some r.snapshot
      history := w.history } := by
  have hkept := h.kept hknown
  refine ⟨hkept.sound, hkept.keys, nofun, fun e he => ?_, hkept.manifests, h.falling⟩
  obtain rfl := Option.some.inj he
  exact ⟨_, r.snapshot, c.decryptManifest_encryptManifest _ _, rfl,
    (h.loop hknown).describes hgoing rfl,
    fun name hname => (h.number hguarded hreaches name hname).1⟩

theorem Inv.numbered (h : Inv c known w) (hguarded : Guarded c w r)
    (hknown : ∀ f ∈ r.source.files, ∀ content, f.content = some content → known content)
    (hgoing : (c.backupFiles w.dest r).aborted = false) (hreaches : c.reaches w.dest r 1 = true) :
    Inv c known {
      dest := ((c.backupFiles w.dest r).dest.put .pointer (c.encManifest w.dest r)).put
        (.manifest (manifestName (c.nextCounter w.dest r))) (c.encManifest w.dest r)
      published := some r.snapshot
      history := (manifestName (c.nextCounter w.dest r), r.snapshot) :: w.history } := by
  have hpublished := h.published hguarded hknown hgoing hreaches
  have hnumber := h.number hguarded hreaches
  refine ⟨hpublished.sound, PyDict.nodup_keys_set _ hpublished.keys, nofun, fun e he => ?_,
    fun name e he => ?_, ?_⟩
  · obtain rfl := Option.some.inj he
    refine ⟨_, r.snapshot, c.decryptManifest_encryptManifest _ _, rfl,
      (h.loop hknown).describes hgoing rfl, fun name hname => ?_⟩
    rcases List.mem_cons.mp hname with rfl | hname
    · exact ⟨_, le_rfl, rfl⟩
    · exact (hnumber name hname).1
  · by_cases hname : name = manifestName (c.nextCounter w.dest r)
    · subst hname
      obtain rfl := Option.some.inj ((PyDict.get?_set_self _ _ _).symm.trans he)
      exact ⟨_, r.snapshot, c.decryptManifest_encryptManifest _ _, List.mem_cons_self,
        (h.loop hknown).describes hgoing rfl⟩
    · obtain ⟨m, snap, hm, hmem, hdescribes⟩ :=
        hpublished.manifests name e ((PyDict.get?_set_of_ne _ _ hname).symm.trans he)
      exact ⟨m, snap, hm, List.mem_cons_of_mem _ hmem, hdescribes⟩
  · exact List.pairwise_cons.mpr ⟨fun name hname => (hnumber name hname).2, h.falling⟩

theorem Inv.pruned (h : Inv c known w) :
    Inv c known { w with dest := pruneOldManifests w.dest r } := by
  obtain ⟨gone, -, hget, hkeys, hpointer, hblobs⟩ := prune_spec w.dest r
  refine ⟨hblobs ▸ h.sound, h.keys.sublist hkeys, fun hnone => h.unpublished (hpointer ▸ hnone),
    fun e he => ?_, fun name e he => ?_, h.falling⟩
  · dsimp only
    rw [hblobs]
    exact h.pointer e (hpointer ▸ he)
  · dsimp only at he ⊢
    rw [hget] at he
    split_ifs at he
    rw [hblobs]
    exact h.manifests name e he

theorem Inv.prunesOld (h : Inv c known w) (hhere : (w.dest.manifests.get? name).isSome)
    (hgone : (pruneOldManifests w.dest r).manifests.get? name = none) :
    r.keep ≤ (newer { w with dest := pruneOldManifests w.dest r } name).length := by
  obtain ⟨gone, hstale, hget, -⟩ := prune_spec w.dest r
  have hname : name ∈ gone := by
    by_contra hnot
    rw [hget, if_neg hnot] at hgone
    rw [hgone] at hhere
    cases hhere
  obtain ⟨above, hlength, hnodup, habove⟩ :=
    above_of_stale (sortedNames_pairwise h.keys) (hstale hname)
  refine hlength.trans (Int.ofNat_le.mpr (hnodup.subperm fun other hother => ?_).length_le)
  obtain ⟨hmem, hlt, hfresh⟩ := habove other hother
  obtain ⟨e, he⟩ := Option.isSome_iff_exists.mp (mem_sortedNames.mp hmem).1
  obtain ⟨-, snap, -, hwritten, -⟩ := h.manifests other e he
  refine List.mem_filter.mpr ⟨mem_takeWhile_of_lt h.falling (List.mem_map_of_mem hwritten) hlt, ?_⟩
  dsimp only
  rw [hget, if_neg fun hmem => hfresh (hstale hmem), he]
  rfl

theorem Inv.step (h : Inv c known w) (hguarded : Guarded c w r)
    (hknown : ∀ f ∈ r.source.files, ∀ content, f.content = some content → known content) :
    Inv c known (c.follow w r) ∧ PrunesOld c w r := by
  unfold PrunesOld follow
  have hstays : ∀ {present : Option E} {keep n : Int}, present.isSome → present = none →
      keep ≤ n := by
    intro present keep n hhere hgone
    rw [hgone] at hhere
    cases hhere
  rcases publish_cases c w.dest r with ⟨hone, htwo, hdest, hrun⟩ | ⟨hgoing, hone, hrest⟩
  · rw [hone, htwo, hrun, hdest]
    exact ⟨h.kept hknown, fun name => hstays⟩
  · rcases hrest with ⟨htwo, hdest, hrun⟩ | ⟨htwo, hdest, hrun⟩
    · rw [hone, htwo, hrun, hdest]
      exact ⟨h.published hguarded hknown hgoing hone, fun name => hstays⟩
    · have hnumbered := h.numbered hguarded hknown hgoing hone
      rw [hone, htwo, hrun, hdest]
      exact ⟨hnumbered.pruned, fun name => hnumbered.prunesOld⟩

/-! ## Every sequence of runs -/

def BackedUp (runs : List Run) (content : Bytes) : Prop :=
  ∃ r ∈ runs, ∃ f ∈ r.source.files, f.content = some content

/-- **Kept backups.** If no two files backed up have one digest, and every run that publishes could
read the manifest before it, then at all times every manifest restores the source of its run, no
numbered manifest is written twice, and pruning keeps the newest ones. -/
theorem backups_restore (c : Crypto E) (runs : List Run) (hfree : CollisionFree c (BackedUp runs))
    (hguarded : AllSteps c.step (Guarded c) {} runs) :
    AllStates c.step (Good c) {} runs ∧ AllSteps c.step (PrunesOld c) {} runs := by
  have hsteps := hguarded.and_mem (q := fun r => ∀ f ∈ r.source.files, ∀ content,
    f.content = some content → BackedUp runs content)
    fun r hr f hf content hcontent => ⟨r, hr, f, hf, hcontent⟩
  have hkeep : ∀ w r w', Inv c (BackedUp runs) w → (Guarded c w r ∧ ∀ f ∈ r.source.files,
      ∀ content, f.content = some content → BackedUp runs content) → c.step w r = some w' →
        Inv c (BackedUp runs) w' ∧ PrunesOld c w r := by
    intro w r w' h hok hstep
    obtain rfl := Option.some.inj hstep
    exact h.step hok.1 hok.2
  constructor
  · exact hsteps.allStates _ (fun w h => h.good hfree)
      (fun w r w' h hok hstep => (hkeep w r w' h hok hstep).1) (inv_empty c _)
  · exact hsteps.of_inv _ hkeep (inv_empty c _)

/-- Envelopes in the clear. -/
def plain : Crypto (Bytes ⊕ Manifest) where
  sha256 content := String.ofList ('#' :: content.map fun byte => Char.ofNat byte.toNat)
  encrypt _ := .inl
  decrypt := Sum.getLeft?
  encryptManifest _ := .inr
  decryptManifest := Sum.getRight?
  sha256_ne content h := by
    have hempty := congrArg String.toList h
    rw [String.toList_ofList] at hempty
    cases hempty
  decrypt_encrypt _ _ := rfl
  decryptManifest_encryptManifest _ _ := rfl

def oneFile (byte : UInt8) : Source where
  files := [{ path := ["a"], mtime := 0, content := some [byte] }]
  nodup := List.nodup_singleton _

theorem backups_restore_prunedRuns :
    AllStates plain.step (Good plain) {}
      [{ source := oneFile 1, keepManifests := 1 }, { source := oneFile 2, keepManifests := 1 }] ∧
    AllSteps plain.step (PrunesOld plain) {}
      [{ source := oneFile 1, keepManifests := 1 }, { source := oneFile 2, keepManifests := 1 }] := by
  refine backups_restore plain _ ?_ (by decide +kernel)
  intro content content' hcontent hcontent' hsame
  have hone : ∀ content, BackedUp [{ source := oneFile 1, keepManifests := 1 },
      { source := oneFile 2, keepManifests := 1 }] content → content = [1] ∨ content = [2] := by
    rintro content ⟨r, hr, f, hf, hcontent⟩
    rcases List.mem_pair.mp hr with rfl | rfl
    · rw [List.mem_singleton.mp hf] at hcontent
      exact .inl (Option.some.inj hcontent).symm
    · rw [List.mem_singleton.mp hf] at hcontent
      exact .inr (Option.some.inj hcontent).symm
  rcases hone content hcontent with rfl | rfl <;> rcases hone content' hcontent' with rfl | rfl
  · rfl
  · exact absurd hsame (by decide +kernel)
  · exact absurd hsame (by decide +kernel)
  · rfl

/-- The second run could not read the manifest of the first. -/
def unreadRuns : List Run :=
  [{ source := oneFile 1 }, { source := oneFile 2, readFails := true }]

theorem not_backups_restore_unreadRuns :
    ¬ (AllStates plain.step (Good plain) {} unreadRuns ∧
      AllSteps plain.step (PrunesOld plain) {} unreadRuns) := by
  rintro ⟨hgood, -⟩
  have hrun : (unreadRuns.foldlM plain.step {}).any fun w =>
      ¬ (w.history.map Prod.fst).Nodup := by decide +kernel
  obtain ⟨w, hw, htwice⟩ := (Option.any_eq_true _ _).mp hrun
  exact of_decide_eq_true htwice (hgood.last hw).once

end Crypto

end PawFlow.Backup
