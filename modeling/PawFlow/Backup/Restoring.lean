import PawFlow.Backup.Incremental

/-!
# What a manifest restores

A manifest describes the source of its run as long as the blobs it names are there. A run adds
blobs and removes none, and it skips a file only when the manifest before names its blob.
-/

namespace PawFlow.Backup

open PawFlow.Lib

/-- The files of a source that a backup is about. -/
abbrev Snapshot := PyDict RelPath Bytes

/-- The files that are not excluded and can be read. -/
def snapshotOf (files : List SourceFile) : Snapshot :=
  files.filterMap fun f => f.content.map fun content => (f.path, content)

def Run.snapshot (r : Run) : Snapshot := snapshotOf (walkSource r.source r.excluded)

theorem snapshotOf_sublist (files : List SourceFile) :
    ((snapshotOf files).map Prod.fst).Sublist (files.map SourceFile.path) := by
  induction files with
  | nil => exact .slnil
  | cons f files ih =>
    rw [snapshotOf, List.filterMap_cons]
    cases f.content with
    | none => exact ih.cons _
    | some content => exact ih.cons_cons _

theorem Run.snapshot_nodup (r : Run) : (r.snapshot.map Prod.fst).Nodup :=
  r.source.nodup.sublist ((snapshotOf_sublist _).trans (List.filter_sublist.map _))

namespace Crypto

variable {E : Type} {c : Crypto E} {known : Bytes → Prop} {d d' : Dest E} {r : Run}
  {blobs blobs' : PyDict String E} {m : Manifest} {snap : Snapshot}

def Sound (c : Crypto E) (known : Bytes → Prop) (blobs : PyDict String E) : Prop :=
  ∀ digest e, blobs.get? digest = some e →
    ∃ content, c.decrypt e = some content ∧ c.sha256 content = digest ∧ known content

/-- No blob of the one is missing in the other. -/
def Grows (blobs blobs' : PyDict String E) : Prop :=
  ∀ digest, (blobs.get? digest).isSome → (blobs'.get? digest).isSome

/-- The manifest names the files of the snapshot and their blobs. -/
structure Describes (c : Crypto E) (known : Bytes → Prop) (blobs : PyDict String E) (m : Manifest)
    (snap : Snapshot) : Prop where
  names : m.files.map (fun i => (i.1, i.2.sha256)) = snap.map fun i => (i.1, c.sha256 i.2)
  nodup : (snap.map Prod.fst).Nodup
  blobs : ∀ i ∈ snap, known i.2 ∧ (blobs.get? (c.sha256 i.2)).isSome

theorem Grows.refl (blobs : PyDict String E) : Grows blobs blobs := fun _ h => h

theorem Grows.trans {blobs'' : PyDict String E} (h : Grows blobs blobs')
    (h' : Grows blobs' blobs'') : Grows blobs blobs'' := fun digest hd => h' digest (h digest hd)

theorem grows_set (blobs : PyDict String E) (digest : String) (e : E) :
    Grows blobs (blobs.set digest e) := by
  intro k hk
  by_cases heq : k = digest
  · rw [heq, PyDict.get?_set_self]
    rfl
  · rwa [PyDict.get?_set_of_ne _ _ heq]

variable {content : Bytes} {done : List SourceFile} {f : SourceFile}

theorem Sound.set (h : Sound c known blobs) (hknown : known content)
    (salt : Nat) : Sound c known (blobs.set (c.sha256 content) (c.encrypt salt content)) := by
  intro digest e he
  by_cases heq : digest = c.sha256 content
  · subst heq
    rw [PyDict.get?_set_self] at he
    rw [← Option.some.inj he]
    exact ⟨content, c.decrypt_encrypt salt content, rfl, hknown⟩
  · exact h digest e ((PyDict.get?_set_of_ne _ _ heq).symm.trans he)

theorem Describes.mono (h : Describes c known blobs m snap) (hgrows : Grows blobs blobs') :
    Describes c known blobs' m snap where
  names := h.names
  nodup := h.nodup
  blobs i hi := ⟨(h.blobs i hi).1, hgrows _ (h.blobs i hi).2⟩

theorem Describes.blob_of_get? (h : Describes c known blobs m snap) {path : RelPath}
    {file : FileMeta} (hfile : m.files.get? path = some file) :
    (blobs.get? file.sha256).isSome := by
  have hmem : (path, file.sha256) ∈ m.files.map fun i => (i.1, i.2.sha256) :=
    List.mem_map.mpr ⟨(path, file), PyDict.mem_of_get? hfile, rfl⟩
  rw [h.names] at hmem
  obtain ⟨i, hi, heq⟩ := List.mem_map.mp hmem
  have hblob := (h.blobs i hi).2
  rwa [(Prod.mk.inj heq).2] at hblob

/-! ## Restore -/

/-- No two of the contents have one digest. -/
def CollisionFree (c : Crypto E) (known : Bytes → Prop) : Prop :=
  ∀ content content', known content → known content' →
    c.sha256 content = c.sha256 content' → content = content'

theorem restoreFile_eq (hsound : Sound c known blobs) (hfree : CollisionFree c known)
    (hknown : known content) (hblob : (blobs.get? (c.sha256 content)).isSome)
    (t : Restored) {file : RelPath × FileMeta} (hfile : file.2.sha256 = c.sha256 content) :
    c.restoreFile blobs t file = { t with files := t.files.set file.1 content } := by
  obtain ⟨e, he⟩ := Option.isSome_iff_exists.mp hblob
  obtain ⟨content', hdecrypt, hdigest, hknown'⟩ := hsound _ e he
  have hsame : content' = content := hfree content' content hknown' hknown hdigest
  rw [restoreFile, hfile, if_neg (c.sha256_ne content), he, Option.bind_some, hdecrypt, hsame]

theorem foldl_restoreFile (hsound : Sound c known blobs) (hfree : CollisionFree c known) :
    ∀ {files : PyDict RelPath FileMeta} {snap : Snapshot} (t : Restored),
      files.map (fun i => (i.1, i.2.sha256)) = snap.map (fun i => (i.1, c.sha256 i.2)) →
      (∀ i ∈ snap, known i.2 ∧ (blobs.get? (c.sha256 i.2)).isSome) →
      files.foldl (c.restoreFile blobs) t = { t with files := t.files.update snap }
  | [], [], _, _, _ => rfl
  | file :: files, i :: snap, t, hnames, hblobs => by
    obtain ⟨hhead, hrest⟩ := List.cons.inj hnames
    obtain ⟨hpath, hdigest⟩ := Prod.mk.inj hhead
    obtain ⟨hknown, hblob⟩ := hblobs i List.mem_cons_self
    rw [List.foldl_cons, restoreFile_eq hsound hfree hknown hblob t hdigest,
      foldl_restoreFile hsound hfree _ hrest fun j hj => hblobs j (List.mem_cons_of_mem _ hj),
      hpath]
    rfl

theorem Describes.restore (h : Describes c known d.blobs m snap) (hsound : Sound c known d.blobs)
    (hfree : CollisionFree c known) {e : E} (he : c.decryptManifest e = some m) :
    c.restore d e = some { files := snap, failed := [] } := by
  have hfiles : PyDict.update [] snap = snap := PyDict.update_nil_of_nodup h.nodup
  rw [Crypto.restore, he, Option.map_some, foldl_restoreFile hsound hfree {} h.names h.blobs, hfiles]

/-! ## The loop over the source -/

/-- What the loop has done after these files. -/
structure Loop (c : Crypto E) (known : Bytes → Prop) (d : Dest E) (done : List SourceFile)
    (p : Progress E) : Prop where
  pointer : p.dest.pointer = d.pointer
  manifests : p.dest.manifests = d.manifests
  sound : Sound c known p.dest.blobs
  grows : Grows d.blobs p.dest.blobs
  names : p.aborted = false → p.currentFiles.map (fun i => (i.1, i.2.sha256)) =
    (snapshotOf done).map fun i => (i.1, c.sha256 i.2)
  blobs : p.aborted = false → ∀ i ∈ snapshotOf done,
    known i.2 ∧ (p.dest.blobs.get? (c.sha256 i.2)).isSome

theorem snapshotOf_concat_some (h : f.content = some content) :
    snapshotOf (done ++ [f]) = snapshotOf done ++ [(f.path, content)] := by
  rw [snapshotOf, List.filterMap_append, List.filterMap_cons, h]
  rfl

theorem snapshotOf_concat_none
    (h : f.content = none) : snapshotOf (done ++ [f]) = snapshotOf done := by
  rw [snapshotOf, List.filterMap_append, List.filterMap_cons, h]
  exact List.append_nil _

variable {lastFiles : PyDict RelPath FileMeta} {p : Progress E} {salt : Nat → Nat}

theorem Loop.snoc
    (h : Loop c known d done p)
    (hfresh : f.path ∉ done.map SourceFile.path)
    (hknown : ∀ content, f.content = some content → known content)
    (hlast : ∀ path file, lastFiles.get? path = some file → (d.blobs.get? file.sha256).isSome) :
    Loop c known d (done ++ [f]) (c.backupFile lastFiles salt p f) := by
  unfold backupFile
  by_cases haborted : p.aborted = true
  · rw [if_pos haborted]
    have hnot : p.aborted ≠ false := ne_of_eq_of_ne haborted Bool.true_eq_false.mp
    exact ⟨h.pointer, h.manifests, h.sound, h.grows, fun hgoing => absurd hgoing hnot,
      fun hgoing => absurd hgoing hnot⟩
  · have hgoing : p.aborted = false := Bool.not_eq_true _ ▸ haborted
    rw [if_neg haborted]
    split
    · next hnone =>
      have hsame : snapshotOf (done ++ [f]) = snapshotOf done := snapshotOf_concat_none hnone
      refine ⟨h.pointer, h.manifests, h.sound, h.grows, ?_, ?_⟩
      · rw [hsame]
        exact h.names
      · rw [hsame]
        exact h.blobs
    · next content hcontent =>
      have hnames : ∀ file : FileMeta, file.sha256 = c.sha256 content →
          (p.currentFiles.set f.path file).map (fun i => (i.1, i.2.sha256)) =
            (snapshotOf (done ++ [f])).map fun i => (i.1, c.sha256 i.2) := by
        intro file hfile
        have hkeys : p.currentFiles.map Prod.fst = (snapshotOf done).map Prod.fst := by
          have := congrArg (List.map Prod.fst) (h.names hgoing)
          rwa [List.map_map, List.map_map] at this
        rw [PyDict.set_of_not_mem _ fun hmem => hfresh ((snapshotOf_sublist done).subset (hkeys ▸ hmem)),
          List.map_append, h.names hgoing, snapshotOf_concat_some hcontent, List.map_append,
          List.map_singleton, List.map_singleton, hfile]
      have hblobs : ∀ blobs : PyDict String E, Grows p.dest.blobs blobs →
          (blobs.get? (c.sha256 content)).isSome → ∀ i ∈ snapshotOf (done ++ [f]),
            known i.2 ∧ (blobs.get? (c.sha256 i.2)).isSome := by
        intro blobs hgrows hhere i hi
        rw [snapshotOf_concat_some hcontent] at hi
        rcases List.mem_append.mp hi with hi | hi
        · exact ⟨(h.blobs hgoing i hi).1, hgrows _ (h.blobs hgoing i hi).2⟩
        · rw [List.mem_singleton.mp hi]
          exact ⟨hknown content hcontent, hhere⟩
      dsimp only
      split_ifs with hskip
      · -- the manifest before names the blob
        obtain ⟨prior, hprior, hsame⟩ := (Option.any_eq_true _ _).mp hskip
        have hhere := h.grows _ (hlast f.path prior hprior)
        rw [of_decide_eq_true hsame] at hhere
        exact ⟨h.pointer, h.manifests, h.sound, h.grows, fun _ => hnames _ rfl,
          fun _ => hblobs _ (Grows.refl _) hhere⟩
      · unfold Progress.destWrite
        dsimp only
        split_ifs
        · have hnot : true ≠ false := Bool.true_eq_false.mp
          exact ⟨h.pointer, h.manifests, h.sound, h.grows, fun hgoing => absurd hgoing hnot,
            fun hgoing => absurd hgoing hnot⟩
        · have hgrows := grows_set p.dest.blobs (c.sha256 content)
            (c.encrypt (salt p.uploaded) content)
          refine ⟨h.pointer, h.manifests, h.sound.set (hknown content hcontent) _,
            h.grows.trans hgrows, fun _ => hnames _ rfl, fun _ => hblobs _ hgrows ?_⟩
          exact Option.isSome_of_eq_some (PyDict.get?_set_self _ _ _)

theorem foldl_backupFile
    (hlast : ∀ path file, lastFiles.get? path = some file → (d.blobs.get? file.sha256).isSome) :
    ∀ {files done : List SourceFile} {p : Progress E}, Loop c known d done p →
      ((done ++ files).map SourceFile.path).Nodup →
      (∀ f ∈ files, ∀ content, f.content = some content → known content) →
      Loop c known d (done ++ files) (files.foldl (c.backupFile lastFiles salt) p)
  | [], done, p, h, _, _ => by rwa [List.append_nil]
  | f :: files, done, p, h, hnodup, hknown => by
    rw [List.append_cons] at hnodup ⊢
    have hfresh : f.path ∉ done.map SourceFile.path := by
      rw [List.map_append, List.map_append, List.append_assoc, List.nodup_append] at hnodup
      exact fun hmem => hnodup.2.2 _ hmem _ (List.mem_append_left _ (List.mem_singleton_self _)) rfl
    exact foldl_backupFile hlast (h.snoc hfresh (hknown f List.mem_cons_self) hlast) hnodup
      fun g hg => hknown g (List.mem_cons_of_mem _ hg)

theorem loop_backupFiles (hsound : Sound c known d.blobs)
    (hlast : ∀ m, c.lastManifest d r = some m → ∃ snap, Describes c known d.blobs m snap)
    (hknown : ∀ f ∈ r.source.files, ∀ content, f.content = some content → known content) :
    Loop c known d (walkSource r.source r.excluded) (c.backupFiles d r) := by
  have hfiles : ∀ path file,
      (((c.lastManifest d r).map Manifest.files).getD []).get? path = some file →
        (d.blobs.get? file.sha256).isSome := by
    intro path file hfile
    cases hm : c.lastManifest d r with
    | none =>
      rw [hm] at hfile
      cases hfile
    | some m =>
      rw [hm] at hfile
      obtain ⟨snap, hsnap⟩ := hlast m hm
      exact hsnap.blob_of_get? hfile
  have hstart : Loop c known d [] ({ dest := d, writes := r.writes } : Progress E) :=
    ⟨rfl, rfl, hsound, Grows.refl _, fun _ => rfl, fun _ _ hi => nomatch hi⟩
  exact foldl_backupFile hfiles hstart (r.source.nodup.sublist (List.filter_sublist.map _))
    fun f hf => hknown f (List.mem_filter.mp hf).1

theorem Loop.describes
    (h : Loop c known d (walkSource r.source r.excluded) p) (hgoing : p.aborted = false)
    (hfiles : m.files = p.currentFiles) : Describes c known p.dest.blobs m r.snapshot where
  names := hfiles ▸ h.names hgoing
  nodup := r.snapshot_nodup
  blobs := h.blobs hgoing

end Crypto

end PawFlow.Backup
