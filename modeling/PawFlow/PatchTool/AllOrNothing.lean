import PawFlow.PatchTool.OpenAi

/-!
# Patches are applied whole or not at all

The sections of a patch, applied one after the other to the files of a tree, are what a patch means
here: a section sees the files as the sections before it have left them. A patch that is accepted
leaves the tree its sections make in turn, and one that is refused leaves the tree as it was.
-/

namespace PawFlow.PatchTool

open PawFlow.Lib

/-! ## Sections in turn -/

/-- What a file holds: its bytes on disk, or a text a section has made. -/
inductive Content
  | stored (bytes : Bytes)
  | text (content : String)

namespace Content

def bytes : Content → Bytes
  | stored bytes => bytes
  | text content => encodeUtf8 content

/-- The text a section sees. -/
def read : Content → Except PatchError String
  | stored bytes => readText bytes
  | text content => .ok content

end Content

abbrev Files := Path → Option Content

def filesOf (t : FileTree) : Files := fun p => (t.bytesAt p).map .stored

/-- A patch section, applied to the files: add creates, delete removes, update rewrites and moves. -/
def applySection (resolve : Resolve) (files : Files) : Section → Except PatchError Files
  | .add path body =>
    match patchTarget resolve path with
    | .error e => .error e
    | .ok (target, rel) =>
      if (files target).isSome then .error (.alreadyExists rel)
      else .ok (Function.update files target (some (.text (.ofList body.flatten))))
  | .delete path =>
    match patchTarget resolve path with
    | .error e => .error e
    | .ok (target, rel) =>
      if (files target).isSome then .ok (Function.update files target none)
      else .error (.doesNotExist rel)
  | .update path hunks moveTo =>
    match patchTarget resolve path with
    | .error e => .error e
    | .ok (target, rel) =>
      match files target with
      | none => .error (.doesNotExist rel)
      | some content =>
        match content.read with
        | .error e => .error e
        | .ok text =>
          match applyPatchHunks text hunks rel with
          | .error e => .error e
          | .ok (new, applied) =>
            match moveTo.filter fun name => name ≠ "" with
            | none =>
              if applied = 0 then .error (.noHunks rel)
              else .ok (Function.update files target (some (.text new)))
            | some name =>
              match patchTarget resolve name with
              | .error e => .error e
              | .ok (dest, _) =>
                .ok (Function.update (Function.update files target none) dest
                  (some (.text new)))

/-- All sections, one after the other. -/
def applyInTurn (resolve : Resolve) (files : Files) (sections : List Section) :
    Except PatchError Files :=
  sections.foldlM (applySection resolve) files

def Section.names (resolve : Resolve) : Section → List Path
  | .add path _ | .delete path => (patchTarget resolve path).toOption.toList.map Prod.fst
  | .update path _ moveTo =>
    (patchTarget resolve path).toOption.toList.map Prod.fst ++
      ((moveTo.filter fun name => name ≠ "").bind fun name =>
        (patchTarget resolve name).toOption).toList.map Prod.fst

/-! ## Staging -/

/-- The files as the staged texts leave them. -/
def view (t : FileTree) (pending : Pending) : Files := fun p =>
  match pending.get? p with
  | some content => content.map .text
  | none => filesOf t p

section

variable {t : FileTree} {resolve : Resolve} {s s' : Staged} {p : Path}

theorem view_set (pending : Pending) (p : Path) (content : Option String) :
    view t (pending.set p content) = Function.update (view t pending) p (content.map .text) := by
  funext q
  by_cases hq : q = p
  · subst hq
    simp [view, PyDict.get?_set_self]
  · simp [view, PyDict.get?_set_of_ne _ _ hq, hq]

theorem targetExists_iff (hdir : t.isDir p = false) :
    s.targetExists t p = (view t s.pending p).isSome := by
  unfold Staged.targetExists view
  cases s.pending.get? p with
  | some content => simp
  | none =>
    simp only [FileTree.exists?, filesOf, FileTree.bytesAt, Option.isSome_map]
    cases hp : t.get? p with
    | none => rfl
    | some entry =>
      cases entry with
      | file bytes => rfl
      | dir => simp [FileTree.isDir, hp] at hdir

theorem targetText_eq_ok {text : String} (h : s.targetText t p = .ok text) :
    ∃ content, view t s.pending p = some content ∧ content.read = .ok text := by
  unfold Staged.targetText at h
  unfold view
  split at h
  · next staged hstaged =>
    rw [hstaged]
    exact ⟨.text staged, rfl, h⟩
  · contradiction
  · next hnone =>
    rw [hnone]
    split at h
    · next bytes hbytes =>
      exact ⟨.stored bytes, by simp [filesOf, FileTree.bytesAt, hbytes], h⟩
    · contradiction

/-- What a section stages: entries for the paths it names, with which the files are as the section
alone leaves them. -/
structure Stages (t : FileTree) (resolve : Resolve) (sec : Section) (s s' : Staged) : Prop where
  keeps : ∀ q ∈ s.pending.map Prod.fst, q ∈ s'.pending.map Prod.fst
  named : ∀ q ∈ s'.pending.map Prod.fst, q ∈ s.pending.map Prod.fst ∨ q ∈ sec.names resolve
  nodup : (s.pending.map Prod.fst).Nodup → (s'.pending.map Prod.fst).Nodup
  applies : (∀ q ∈ s'.pending.map Prod.fst, t.isDir q = false) →
    applySection resolve (view t s.pending) sec = .ok (view t s'.pending)

variable {sec : Section}

variable {files : List String}

theorem Stages.ofSet {content : Option String} {n : Nat}
    (hnamed : p ∈ sec.names resolve)
    (happly : t.isDir p = false → applySection resolve (view t s.pending) sec =
      .ok (Function.update (view t s.pending) p (content.map .text))) :
    Stages t resolve sec s ⟨s.pending.set p content, files, n⟩ where
  keeps := fun q hq => PyDict.mem_keys_set.2 (.inl hq)
  named := by
    intro q hq
    rcases PyDict.mem_keys_set.1 hq with hq | rfl
    · exact .inl hq
    · exact .inr hnamed
  nodup := PyDict.nodup_keys_set content
  applies := by
    intro hdir
    rw [happly (hdir p (PyDict.mem_keys_set.2 (.inr rfl))), view_set]

theorem Stages.ofMove {p q : Path} {new : String} {n : Nat}
    (hp : p ∈ sec.names resolve) (hq : q ∈ sec.names resolve)
    (happly : applySection resolve (view t s.pending) sec =
      .ok (Function.update (Function.update (view t s.pending) p none) q (some (.text new)))) :
    Stages t resolve sec s ⟨(s.pending.set p none).set q (some new), files, n⟩ where
  keeps := fun r hr => PyDict.mem_keys_set.2 (.inl (PyDict.mem_keys_set.2 (.inl hr)))
  named := by
    intro r hr
    rcases PyDict.mem_keys_set.1 hr with hr | rfl
    · rcases PyDict.mem_keys_set.1 hr with hr | rfl
      · exact .inl hr
      · exact .inr hp
    · exact .inr hq
  nodup := fun h => PyDict.nodup_keys_set _ (PyDict.nodup_keys_set _ h)
  applies := by
    intro _
    rw [happly, view_set, view_set]
    rfl

theorem stage_eq_ok (h : s.stage t resolve sec = .ok s') : Stages t resolve sec s s' := by
  cases sec with
  | add path body =>
    simp only [Staged.stage] at h
    split at h
    · contradiction
    next target rel htarget =>
    split at h
    · contradiction
    next hexists =>
    obtain rfl := Except.ok.inj h
    refine .ofSet (by simp [Section.names, htarget, Except.toOption]) fun hdir => ?_
    rw [targetExists_iff hdir] at hexists
    simp only [applySection, htarget, if_neg hexists]
    rfl
  | delete path =>
    simp only [Staged.stage] at h
    split at h
    · contradiction
    next target rel htarget =>
    split at h
    · next hexists =>
      obtain rfl := Except.ok.inj h
      refine .ofSet (by simp [Section.names, htarget, Except.toOption]) fun hdir => ?_
      rw [targetExists_iff hdir] at hexists
      simp only [applySection, htarget, if_pos hexists]
      rfl
    · contradiction
  | update path hunks moveTo =>
    simp only [Staged.stage] at h
    split at h
    · contradiction
    next target rel htarget =>
    split at h
    · contradiction
    split at h
    · contradiction
    next text htext =>
    obtain ⟨content, hcontent, hread⟩ := targetText_eq_ok htext
    split at h
    · contradiction
    next new applied happlied =>
    split at h
    · next hmove =>
      split at h
      · contradiction
      next hzero =>
      obtain rfl := Except.ok.inj h
      refine .ofSet (by simp [Section.names, htarget, Except.toOption]) fun _ => ?_
      simp only [applySection, htarget, hcontent, hread, happlied, hmove, if_neg hzero]
      rfl
    · next name hmove =>
      split at h
      · contradiction
      next dest destRel hdest =>
      obtain rfl := Except.ok.inj h
      have hnamed : target ∈ (Section.update path hunks moveTo).names resolve := by
        simp [Section.names, htarget, Except.toOption]
      have hnamed' : dest ∈ (Section.update path hunks moveTo).names resolve := by
        rw [Section.names, hmove, Option.bind_some, hdest]
        exact List.mem_append_right _ (List.mem_singleton_self _)
      have happly : applySection resolve (view t s.pending) (.update path hunks moveTo) =
          .ok (Function.update (Function.update (view t s.pending) target none) dest
            (some (.text new))) := by
        simp only [applySection, htarget, hcontent, hread, happlied, hmove, hdest]
      by_cases hsame : dest = target
      · subst hsame
        simp only [ne_eq, not_true_eq_false, if_false]
        refine .ofSet hnamed' fun _ => ?_
        rw [happly, Function.update_idem]
        rfl
      · simp only [ne_eq, hsame, not_false_eq_true, if_true]
        exact .ofMove hnamed hnamed' happly

theorem foldlM_stage_eq_ok {sections : List Section}
    (h : sections.foldlM (fun s => s.stage t resolve) s = .ok s') :
    (∀ q ∈ s.pending.map Prod.fst, q ∈ s'.pending.map Prod.fst) ∧
      (∀ q ∈ s'.pending.map Prod.fst, q ∈ s.pending.map Prod.fst ∨
        ∃ sec ∈ sections, q ∈ sec.names resolve) ∧
      ((s.pending.map Prod.fst).Nodup → (s'.pending.map Prod.fst).Nodup) ∧
      ((∀ q ∈ s'.pending.map Prod.fst, t.isDir q = false) →
        applyInTurn resolve (view t s.pending) sections = .ok (view t s'.pending)) := by
  induction sections generalizing s with
  | nil =>
    obtain rfl : s = s' := Except.ok.inj h
    exact ⟨fun _ hq => hq, fun _ hq => .inl hq, id, fun _ => rfl⟩
  | cons sec sections ih =>
    rw [List.foldlM_cons] at h
    cases hstage : s.stage t resolve sec with
    | error e => simp [hstage, bind, Except.bind] at h
    | ok mid =>
      rw [hstage] at h
      have hfirst := stage_eq_ok hstage
      obtain ⟨hkeeps, hnamed, hnodup, happlies⟩ := ih h
      refine ⟨fun q hq => hkeeps q (hfirst.keeps q hq), fun q hq => ?_,
        fun hs => hnodup (hfirst.nodup hs), fun hdir => ?_⟩
      · rcases hnamed q hq with hq | ⟨sec', hmem, hq⟩
        · rcases hfirst.named q hq with hq | hq
          · exact .inl hq
          · exact .inr ⟨sec, by simp, hq⟩
        · exact .inr ⟨sec', by simp [hmem], hq⟩
      · rw [applyInTurn, List.foldlM_cons,
          hfirst.applies fun q hq => hdir q (hkeeps q hq)]
        exact happlies hdir

end

/-! ## Writing -/

section

variable {faults : Path → Option Fault} {c c' : Commit} {fault : Option Fault} {p q : Path}
  {content : Option String} {ok : Bool}

theorem get?_makeDirs_of_not_missing {tree : FileTree} {dirs : List Path}
    (hdirs : ∀ d ∈ dirs, d ∈ tree.missing p) (hq : q ∉ tree.missing p) :
    (tree.makeDirs dirs).get? q = tree.get? q := by
  rw [FileTree.get?_makeDirs, if_neg fun h => hq (hdirs q h.1)]

/-- A step of the writing, whether it raises or not, changes its target and makes directories; it
records those. -/
theorem writeOne_changes (h : c.writeOne fault p content = (c', ok)) :
    (∀ q, q ≠ p → q ∉ c'.createdDirs → c'.tree.get? q = c.tree.get? q) ∧
      (∀ q ∈ c.createdDirs, q ∈ c'.createdDirs) ∧
      ∀ q ∈ c'.createdDirs, q ∈ c.createdDirs ∨ c.tree.get? q = none := by
  have hsame : (∀ q, q ≠ p → q ∉ c.createdDirs → c.tree.get? q = c.tree.get? q) ∧
      (∀ q ∈ c.createdDirs, q ∈ c.createdDirs) ∧
      ∀ q ∈ c.createdDirs, q ∈ c.createdDirs ∨ c.tree.get? q = none :=
    ⟨fun _ _ _ => rfl, fun _ hq => hq, fun _ hq => .inl hq⟩
  -- What holds of every tree in which only missing directories and the target are new.
  have hnew : ∀ tree, (∀ q, q ≠ p → q ∉ c.tree.missing p → tree.get? q = c.tree.get? q) →
      c' = ⟨tree, c.createdDirs ++ (c.tree.missing p).filter fun d => d ∉ c.createdDirs⟩ →
      (∀ q, q ≠ p → q ∉ c'.createdDirs → c'.tree.get? q = c.tree.get? q) ∧
      (∀ q ∈ c.createdDirs, q ∈ c'.createdDirs) ∧
      ∀ q ∈ c'.createdDirs, q ∈ c.createdDirs ∨ c.tree.get? q = none := by
    rintro tree htree rfl
    refine ⟨fun q hqp hq => htree q hqp fun hmissing => hq ?_, fun q hq => ?_, fun q hq => ?_⟩
    · by_cases hold : q ∈ c.createdDirs
      · exact List.mem_append_left _ hold
      · exact List.mem_append_right _ (List.mem_filter.2 ⟨hmissing, by simpa using hold⟩)
    · exact List.mem_append_left _ hq
    · rcases List.mem_append.1 hq with hq | hq
      · exact .inl hq
      · exact .inr (FileTree.mem_missing (List.mem_filter.1 hq).1).2
  have hmade : ∀ {tree}, c.tree.mkdirAbove p = some tree → ∀ q, q ∉ c.tree.missing p →
      tree.get? q = c.tree.get? q := by
    intro tree htree q hq
    rw [FileTree.mkdirAbove_eq_some htree]
    exact get?_makeDirs_of_not_missing (fun d hd => List.mem_reverse.1 hd) hq
  have hwritten : ∀ {tree tree' bytes}, c.tree.mkdirAbove p = some tree →
      tree.write p bytes = some tree' → ∀ q, q ≠ p → q ∉ c.tree.missing p →
      tree'.get? q = c.tree.get? q := by
    intro tree tree' bytes htree hwrite q hqp hq
    rw [(FileTree.write_eq_some hwrite).2, PyDict.get?_set_of_ne _ _ hqp, hmade htree q hq]
  cases content with
  | none =>
    simp only [Commit.writeOne] at h
    split at h
    · next tree _ hunlink =>
      obtain ⟨rfl, -⟩ := Prod.mk.inj h
      refine ⟨fun q hqp _ => ?_, fun _ hq => hq, fun _ hq => .inl hq⟩
      rw [(FileTree.unlink_eq_some hunlink).2 q, if_neg hqp]
    · obtain ⟨rfl, -⟩ := Prod.mk.inj h
      exact hsame
  | some text =>
    simp only [Commit.writeOne] at h
    split at h
    · obtain ⟨rfl, -⟩ := Prod.mk.inj h
      exact hsame
    split at h
    · obtain ⟨rfl, -⟩ := Prod.mk.inj h
      exact hnew _ (fun _ _ _ => rfl) rfl
    · next made tree _ _ =>
      obtain ⟨rfl, -⟩ := Prod.mk.inj h
      refine hnew _ (fun q _ hq => get?_makeDirs_of_not_missing (fun d hd => ?_) hq) rfl
      exact List.mem_reverse.1 (List.mem_of_mem_take hd)
    · next left tree _ _ =>
      have htree : c.tree.mkdirAbove p = some tree := by assumption
      obtain ⟨rfl, -⟩ := Prod.mk.inj h
      refine hnew _ (fun q hqp hq => ?_) rfl
      cases hwrite : tree.write p left with
      | none => exact hmade htree q hq
      | some tree' => exact hwritten htree hwrite q hqp hq
    · next tree _ _ _ _ =>
      have htree : c.tree.mkdirAbove p = some tree := by assumption
      obtain ⟨rfl, -⟩ := Prod.mk.inj h
      exact hnew _ (fun q _ hq => hmade htree q hq) rfl
    · next tree htree _ =>
      split at h
      · next tree' hwrite =>
        obtain ⟨rfl, -⟩ := Prod.mk.inj h
        exact hnew _ (fun q hqp hq => hwritten htree hwrite q hqp hq) rfl
      · obtain ⟨rfl, -⟩ := Prod.mk.inj h
        exact hnew _ (fun q _ hq => hmade htree q hq) rfl

/-- What the writing has changed so far, of the tree it started from. -/
structure Touched (t : FileTree) (targets : List Path) (c : Commit) : Prop where
  same : ∀ q, q ∉ targets → q ∉ c.createdDirs → c.tree.get? q = t.get? q
  created : ∀ q ∈ c.createdDirs, q ∉ targets → t.get? q = none

variable {targets : List Path}

theorem Touched.writeOne {t : FileTree} (ht : Touched t targets c)
    (hp : p ∈ targets) (h : c.writeOne fault p content = (c', ok)) : Touched t targets c' := by
  obtain ⟨hsame, hkeeps, hcreated⟩ := writeOne_changes h
  constructor
  · intro q hq hcreated'
    rw [hsame q (fun heq => hq (heq ▸ hp)) hcreated']
    exact ht.same q hq fun hold => hcreated' (hkeeps q hold)
  · intro q hq htarget
    by_cases hold : q ∈ c.createdDirs
    · exact ht.created q hold htarget
    · rw [← ht.same q htarget hold]
      exact (hcreated q hq).resolve_left hold

theorem Touched.writeAll {t : FileTree} {pending : Pending}
    (ht : Touched t targets c) (hsub : pending.map Prod.fst ⊆ targets)
    (h : c.writeAll faults pending = (c', ok)) : Touched t targets c' := by
  induction pending generalizing c with
  | nil =>
    obtain ⟨rfl, -⟩ := Prod.mk.inj h
    exact ht
  | cons i pending ih =>
    obtain ⟨target, content⟩ := i
    rw [List.map_cons, List.cons_subset] at hsub
    cases hone : c.writeOne (faults target) target content with
    | mk mid ok' =>
      have hmid := ht.writeOne hsub.1 hone
      rw [Commit.writeAll, hone] at h
      cases ok' with
      | true => exact ih hmid hsub.2 h
      | false =>
        obtain ⟨rfl, -⟩ := Prod.mk.inj h
        exact hmid

end

/-! ## Putting back -/

section

variable {t tree : FileTree} {r r' : Rollback} {p q : Path}

theorem attempt_errors {o : Option FileTree} (h : (r.attempt o).errors = 0) :
    r.errors = 0 ∧ ∃ tree, o = some tree ∧ (r.attempt o).tree = tree := by
  cases o with
  | none => simp [Rollback.attempt] at h
  | some tree => exact ⟨h, tree, rfl, rfl⟩

/-- A file that is put back is as it was, and what was as before stays so. -/
theorem restore_agrees (hwf : t.WellFormed) (hdir : t.isDir p = false)
    (h : (r.restore p (t.bytesAt p)).errors = 0) :
    r.errors = 0 ∧ (r.restore p (t.bytesAt p)).tree.get? p = t.get? p ∧
      ∀ q, r.tree.get? q = t.get? q → (r.restore p (t.bytesAt p)).tree.get? q = t.get? q := by
  cases hbytes : t.bytesAt p with
  | none =>
    have hnone : t.get? p = none := by
      cases hget : t.get? p with
      | none => rfl
      | some entry =>
        cases entry with
        | dir => simp [FileTree.isDir, hget] at hdir
        | file bytes => simp [FileTree.bytesAt, hget] at hbytes
    rw [hbytes] at h
    obtain ⟨herrors, tree, hunlink, htree⟩ := attempt_errors h
    have hget := (FileTree.unlink_eq_some hunlink).2
    rw [Rollback.restore, htree]
    refine ⟨herrors, by rw [hget, if_pos rfl, hnone], fun q hq => ?_⟩
    rw [hget]
    split
    · next heq => rw [heq, hnone]
    · exact hq
  | some bytes =>
    have hfile : t.get? p = some (.file bytes) := by
      cases hget : t.get? p with
      | none => simp [FileTree.bytesAt, hget] at hbytes
      | some entry =>
        cases entry with
        | dir => simp [FileTree.bytesAt, hget] at hbytes
        | file bytes' => simpa [FileTree.bytesAt, hget] using hbytes
    rw [hbytes] at h
    simp only [Rollback.restore] at h ⊢
    cases hmkdir : r.tree.mkdirAbove p with
    | none =>
      rw [hmkdir] at h
      simp [Rollback.attempt] at h
    | some made =>
      rw [hmkdir] at h
      obtain ⟨herrors, tree, hwrite, htree⟩ := attempt_errors h
      simp only [htree, (FileTree.write_eq_some hwrite).2, FileTree.get?_set_ite]
      refine ⟨herrors, by rw [if_pos trivial, hfile], fun q hq => ?_⟩
      split
      · next heq => rw [heq, hfile]
      · rw [FileTree.mkdirAbove_eq_some hmkdir, FileTree.get?_makeDirs]
        split
        · next hmissing =>
          -- A directory made here was one before: the file was below it.
          have habove := (FileTree.mem_missing (List.mem_reverse.1 hmissing.1)).1
          have hwas := hwf p (by simp [FileTree.isFile, hbytes]) q habove
          rw [FileTree.isDir, decide_eq_true_eq] at hwas
          exact hwas.symm
        · exact hq

theorem foldl_restore_agrees (hwf : t.WellFormed) {targets : List Path}
    (hdir : ∀ p ∈ targets, t.isDir p = false)
    (h : (targets.foldl (fun r p => r.restore p (t.bytesAt p)) r).errors = 0) :
    r.errors = 0 ∧ ∀ q, q ∈ targets ∨ r.tree.get? q = t.get? q →
      (targets.foldl (fun r p => r.restore p (t.bytesAt p)) r).tree.get? q = t.get? q := by
  induction targets generalizing r with
  | nil => exact ⟨h, fun q hq => hq.resolve_left (by simp)⟩
  | cons p targets ih =>
    obtain ⟨herrors, hrest⟩ := ih (fun q hq => hdir q (List.mem_cons_of_mem _ hq)) h
    obtain ⟨herrors, hself, hother⟩ := restore_agrees hwf (hdir p (by simp)) herrors
    refine ⟨herrors, fun q hq => hrest q ?_⟩
    rcases hq with hq | hq
    · rcases List.mem_cons.1 hq with rfl | hq
      · exact .inr hself
      · exact .inl hq
    · exact .inr (hother q hq)

theorem foldl_rmdir {dirs : List Path}
    (h : (dirs.foldl (fun r d => r.attempt (r.tree.rmdir d)) r).errors = 0) :
    r.errors = 0 ∧ (∀ q ∈ dirs, r.tree.isFile q = false) ∧
      ∀ q, (dirs.foldl (fun r d => r.attempt (r.tree.rmdir d)) r).tree.get? q =
        if q ∈ dirs then none else r.tree.get? q := by
  induction dirs generalizing r with
  | nil => exact ⟨h, by simp, by simp⟩
  | cons d dirs ih =>
    obtain ⟨herrors, hfiles, hget⟩ := ih h
    obtain ⟨herrors, tree, hrmdir, htree⟩ := attempt_errors herrors
    obtain ⟨hnot, hself⟩ := FileTree.rmdir_eq_some hrmdir
    refine ⟨herrors, fun q hq => ?_, fun q => ?_⟩
    · rcases List.mem_cons.1 hq with rfl | hq
      · exact hnot
      · by_cases heq : q = d
        · exact heq ▸ hnot
        · have hq := hfiles q hq
          rwa [htree, FileTree.isFile, FileTree.bytesAt, hself q, if_neg heq] at hq
    · rw [List.foldl_cons, hget q, htree, hself q]
      by_cases heq : q = d
      · simp [heq]
      · simp [heq]

variable {before : PyDict Path (Option Bytes)} {pending : Pending}

theorem originals_eq_some
    (h : originals t pending = some before) :
    (∀ p ∈ pending.map Prod.fst, t.isDir p = false) ∧
      before = pending.map fun i => (i.1, t.bytesAt i.1) := by
  unfold originals at h
  split at h
  · contradiction
  · next hdir =>
    refine ⟨fun p hp => ?_, (Option.some.inj h).symm⟩
    obtain ⟨i, hi, rfl⟩ := List.mem_map.1 hp
    by_contra hnot
    exact hdir (List.any_eq_true.2 ⟨i, hi, by simpa using hnot⟩)

/-- A writing that failed leaves nothing, if the steps of the rollback do not fail. -/
theorem rollback_restores {setOrder : List Path → List Path} {faults : Path → Option Fault}
    {c : Commit} {ok : Bool}
    (hwf : t.WellFormed) (hset : ∀ dirs, (setOrder dirs).Perm dirs)
    (hbefore : originals t pending = some before)
    (hwrite : Commit.writeAll faults ⟨t, []⟩ pending = (c, ok))
    (h : (Rollback.run c.tree before (setOrder c.createdDirs)).errors = 0) :
    (Rollback.run c.tree before (setOrder c.createdDirs)).tree.Same t := by
  obtain ⟨hdir, rfl⟩ := originals_eq_some hbefore
  have htouched : Touched t (pending.map Prod.fst) c :=
    Touched.writeAll ⟨fun _ _ _ => rfl, by simp⟩ (List.Subset.refl _) hwrite
  have hfold : (pending.map fun i => (i.1, t.bytesAt i.1)).foldl
      (fun r i => r.restore i.1 i.2) (⟨c.tree, 0⟩ : Rollback) =
        (pending.map Prod.fst).foldl (fun r p => r.restore p (t.bytesAt p)) ⟨c.tree, 0⟩ := by
    rw [List.foldl_map, List.foldl_map]
  unfold Rollback.run at h ⊢
  simp only [hfold] at h ⊢
  obtain ⟨herrors, hfiles, hgone⟩ := foldl_rmdir h
  obtain ⟨-, hagrees⟩ := foldl_restore_agrees hwf hdir herrors
  have hmem : ∀ q, q ∈ (setOrder c.createdDirs).insertionSort (fun a b => b.length ≤ a.length) ↔
      q ∈ c.createdDirs := fun q =>
    ((List.perm_insertionSort _ _).trans (hset _)).mem_iff
  intro q
  rw [hgone q]
  split
  · next hq =>
    have hcreated := (hmem q).1 hq
    by_cases htarget : q ∈ pending.map Prod.fst
    · -- A made directory at a target: nothing was there, or its `rmdir` would have failed.
      have hfile := hfiles q hq
      rw [FileTree.isFile, FileTree.bytesAt, hagrees q (.inl htarget)] at hfile
      have hnotDir := hdir q htarget
      cases hget : t.get? q with
      | none => rfl
      | some entry =>
        cases entry with
        | dir => simp [FileTree.isDir, hget] at hnotDir
        | file bytes => simp [hget] at hfile
    · exact (htouched.created q hcreated htarget).symm
  · next hq =>
    have hcreated : q ∉ c.createdDirs := fun hcreated => hq ((hmem q).2 hcreated)
    refine hagrees q ?_
    by_cases htarget : q ∈ pending.map Prod.fst
    · exact .inl htarget
    · exact .inr (htouched.same q htarget hcreated)

end

/-! ## Written out -/

section

variable {faults : Path → Option Fault} {c c' : Commit} {fault : Option Fault} {p q : Path}
  {content : Option String}

/-- A step that does not raise has written or removed its target, and made directories above it. -/
theorem writeOne_eq_ok (h : c.writeOne fault p content = (c', true)) :
    (∀ q, c'.tree.bytesAt q = if q = p then content.map encodeUtf8 else c.tree.bytesAt q) ∧
      (∀ q, c.tree.isDir q → c'.tree.isDir q) ∧
      ∀ q, c'.tree.isDir q → c.tree.isDir q ∨ (content.isSome ∧ q ∈ FileTree.above p) := by
  cases content with
  | none =>
    simp only [Commit.writeOne] at h
    split at h
    · next tree _ hunlink =>
      obtain ⟨rfl, -⟩ := Prod.mk.inj h
      obtain ⟨hnot, hget⟩ := FileTree.unlink_eq_some hunlink
      refine ⟨fun q => ?_, fun q hq => ?_, fun q hq => .inl ?_⟩
      · simp only [FileTree.bytesAt, hget q]
        by_cases heq : q = p
        · simp [heq]
        · simp [heq]
      · have hne : q ≠ p := by
          rintro rfl
          rw [hnot] at hq
          contradiction
        rw [FileTree.isDir] at hq ⊢
        rw [hget q, if_neg hne]
        exact hq
      · rw [FileTree.isDir, hget q] at hq
        by_cases heq : q = p
        · simp [heq] at hq
        · rw [if_neg heq] at hq
          exact hq
    · exact absurd (Prod.mk.inj h).2 (by simp)
  | some text =>
    simp only [Commit.writeOne] at h
    split at h
    · exact absurd (Prod.mk.inj h).2 (by simp)
    split at h
    · exact absurd (Prod.mk.inj h).2 (by simp)
    · exact absurd (Prod.mk.inj h).2 (by simp)
    · exact absurd (Prod.mk.inj h).2 (by simp)
    · exact absurd (Prod.mk.inj h).2 (by simp)
    · next tree htree _ =>
      split at h
      · next tree' hwrite =>
        obtain ⟨rfl, -⟩ := Prod.mk.inj h
        obtain ⟨hnot, rfl⟩ := FileTree.write_eq_some hwrite
        obtain rfl := FileTree.mkdirAbove_eq_some htree
        refine ⟨fun q => ?_, fun q hq => ?_, fun q hq => ?_⟩
        · rw [FileTree.bytesAt_set, FileTree.bytesAt_makeDirs]
          rfl
        · have hdir : (c.tree.makeDirs (c.tree.missing p).reverse).isDir q := by
            rw [FileTree.isDir, decide_eq_true_eq] at hq ⊢
            simp [FileTree.get?_makeDirs, hq]
          have hne : q ≠ p := by
            rintro rfl
            rw [hnot] at hdir
            contradiction
          rw [FileTree.isDir] at hdir ⊢
          rw [PyDict.get?_set_of_ne _ _ hne]
          exact hdir
        · rw [FileTree.isDir, decide_eq_true_eq, FileTree.get?_set_ite] at hq
          by_cases heq : q = p
          · simp [heq] at hq
          · rw [if_neg heq, FileTree.get?_makeDirs] at hq
            split at hq
            · next hmissing =>
              exact .inr ⟨rfl, (FileTree.mem_missing (List.mem_reverse.1 hmissing.1)).1⟩
            · left
              rw [FileTree.isDir, decide_eq_true_eq]
              exact hq
      · exact absurd (Prod.mk.inj h).2 (by simp)

theorem writeAll_eq_ok {pending : Pending} (hnodup : (pending.map Prod.fst).Nodup)
    (h : c.writeAll faults pending = (c', true)) :
    (∀ q, c'.tree.bytesAt q = match pending.get? q with
      | some content => content.map encodeUtf8
      | none => c.tree.bytesAt q) ∧
      (∀ q, c.tree.isDir q → c'.tree.isDir q) ∧
      ∀ q, c'.tree.isDir q → c.tree.isDir q ∨
        ∃ i ∈ pending, i.2.isSome ∧ q ∈ FileTree.above i.1 := by
  induction pending generalizing c with
  | nil =>
    obtain ⟨rfl, -⟩ := Prod.mk.inj h
    exact ⟨fun _ => rfl, fun _ hq => hq, fun _ hq => .inl hq⟩
  | cons i pending ih =>
    obtain ⟨target, content⟩ := i
    obtain ⟨hnew, hnodup⟩ := List.nodup_cons.1 hnodup
    cases hone : c.writeOne (faults target) target content with
    | mk mid ok =>
      rw [Commit.writeAll, hone] at h
      cases ok with
      | false => exact absurd (Prod.mk.inj h).2 (by simp)
      | true =>
        obtain ⟨hbytes, hkeeps, hmade⟩ := writeOne_eq_ok hone
        obtain ⟨hbytes', hkeeps', hmade'⟩ := ih hnodup h
        refine ⟨fun q => ?_, fun q hq => hkeeps' q (hkeeps q hq), fun q hq => ?_⟩
        · rw [hbytes' q, hbytes q]
          by_cases heq : target = q
          · subst heq
            have hnone : PyDict.get? pending target = none :=
              PyDict.get?_eq_none_iff.2 hnew
            have hhead : PyDict.get? ((target, content) :: pending) target =
                some content := by simp [PyDict.get?]
            rw [hhead, hnone, if_pos rfl]
          · have htail : PyDict.get? ((target, content) :: pending) q =
                PyDict.get? pending q := by simp [PyDict.get?, heq]
            rw [htail, if_neg (Ne.symm heq)]
        · rcases hmade' q hq with hq | ⟨i, hi, hsome, hq⟩
          · rcases hmade q hq with hq | ⟨hsome, hq⟩
            · exact .inl hq
            · exact .inr ⟨(target, content), by simp, hsome, hq⟩
          · exact .inr ⟨i, by simp [hi], hsome, hq⟩

end

/-! ## Whole or not at all -/

def PatchError.rollbackErrors : PatchError → Nat
  | .failed n => n
  | _ => 0

/-- A tree after a patch that was accepted: the files are those the sections make in turn, files that
no section names are as they were, directories are kept and new ones are above written files. -/
structure Applied (resolve : Resolve) (sections : List Section) (t t' : FileTree) : Prop where
  files : ∃ files, applyInTurn resolve (filesOf t) sections = .ok files ∧
    ∀ p, t'.bytesAt p = (files p).map Content.bytes
  unnamed : ∀ p, (∀ sec ∈ sections, p ∉ sec.names resolve) → t'.bytesAt p = t.bytesAt p
  dirs : ∀ p, t.isDir p → t'.isDir p
  newDirs : ∀ p, t'.isDir p → t.isDir p ∨ ∃ q, t'.isFile q ∧ p ∈ FileTree.above q

theorem bytes_view (t : FileTree) (pending : Pending) (p : Path) :
    (view t pending p).map Content.bytes = match pending.get? p with
      | some content => content.map encodeUtf8
      | none => t.bytesAt p := by
  unfold view
  cases pending.get? p with
  | some content => cases content <;> rfl
  | none => cases h : t.bytesAt p <;> simp [filesOf, h, Content.bytes]

variable {setOrder : List Path → List Path}

theorem writeOut_eq_ok {resolve : Resolve}
    {faults : Path → Option Fault} {t t' : FileTree} {sections : List Section} {s : Staged}
    {summary : Summary} (hstage : stageAll resolve t sections = .ok s)
    (h : writeOut setOrder faults t s = (.ok summary, t')) : Applied resolve sections t t' := by
  unfold writeOut at h
  split at h
  · exact absurd (Prod.mk.inj h).1 (by simp)
  next before hbefore =>
  split at h
  · next c hwrite =>
    obtain ⟨-, rfl⟩ := Prod.mk.inj h
    obtain ⟨hdir, -⟩ := originals_eq_some hbefore
    obtain ⟨-, hnamed, hnodup, happlies⟩ := foldlM_stage_eq_ok hstage
    have hnodup := hnodup List.nodup_nil
    obtain ⟨hbytes, hkeeps, hmade⟩ := writeAll_eq_ok hnodup hwrite
    constructor
    · exact ⟨view t s.pending, happlies hdir, fun p => by rw [hbytes p, bytes_view]⟩
    · intro p hp
      have hnone : s.pending.get? p = none := by
        refine PyDict.get?_eq_none_iff.2 fun hkey => ?_
        rcases hnamed p hkey with hmem | ⟨sec, hsec, hmem⟩
        · simp at hmem
        · exact hp sec hsec hmem
      rw [hbytes p, hnone]
    · exact hkeeps
    · intro p hp
      rcases hmade p hp with hp | ⟨⟨target, content⟩, hi, hsome, hp⟩
      · exact .inl hp
      · refine .inr ⟨target, ?_, hp⟩
        obtain ⟨text, rfl⟩ := Option.isSome_iff_exists.1 hsome
        rw [FileTree.isFile, hbytes target, PyDict.get?_of_mem hnodup hi]
        rfl
  · exact absurd (Prod.mk.inj h).1 (by simp)

theorem writeOut_eq_error {faults : Path → Option Fault}
    {t t' : FileTree} {s : Staged} {e : PatchError} (hwf : t.WellFormed)
    (hset : ∀ dirs, (setOrder dirs).Perm dirs) (h : writeOut setOrder faults t s = (.error e, t'))
    (herrors : e.rollbackErrors = 0) : t'.Same t := by
  unfold writeOut at h
  split at h
  · obtain ⟨-, rfl⟩ := Prod.mk.inj h
    exact fun _ => rfl
  next before hbefore =>
  split at h
  · exact absurd (Prod.mk.inj h).1 (by simp)
  · next c hwrite =>
    obtain ⟨he, rfl⟩ := Prod.mk.inj h
    obtain rfl := Except.error.inj he
    exact rollback_restores hwf hset hbefore hwrite herrors

/-- For every tree and every patch, whatever the file system refuses: a call that raises leaves every
file and every directory as it was, if the steps of its rollback do not fail; a call that returns
leaves the files its sections make one after the other, each section reading what the sections
before it have staged. -/
theorem openai_patch_whole_or_not (resolve : Resolve) (setOrder : List Path → List Path)
    (hset : ∀ dirs, (setOrder dirs).Perm dirs) (faults : Path → Option Fault) (t : FileTree)
    (hwf : t.WellFormed) (patch : String) :
    (∀ e, (applyOpenAiPatch resolve setOrder faults t patch).1 = .error e → e.rollbackErrors = 0 →
      (applyOpenAiPatch resolve setOrder faults t patch).2.Same t) ∧
    ∀ summary, (applyOpenAiPatch resolve setOrder faults t patch).1 = .ok summary →
      ∃ sections, parseSections patch = .ok sections ∧
        Applied resolve sections t (applyOpenAiPatch resolve setOrder faults t patch).2 := by
  unfold applyOpenAiPatch
  cases hparse : parseSections patch with
  | error e => exact ⟨fun _ _ _ _ => rfl, fun _ h => absurd h (by simp)⟩
  | ok sections =>
    simp only [applySections]
    split
    · exact ⟨fun _ _ _ _ => rfl, fun _ h => absurd h (by simp)⟩
    cases hstage : stageAll resolve t sections with
    | error e => exact ⟨fun _ _ _ _ => rfl, fun _ h => absurd h (by simp)⟩
    | ok s =>
      simp only
      split
      · exact ⟨fun _ _ _ _ => rfl, fun _ h => absurd h (by simp)⟩
      constructor
      · exact fun e he herrors => writeOut_eq_error hwf hset (Prod.ext he rfl) herrors
      · intro summary hsummary
        exact ⟨sections, rfl, writeOut_eq_ok hstage (Prod.ext hsummary rfl)⟩

/-! ## Sections on disk -/

/-- The components of a path. -/
def components (part : List Char) : List Char → List String
  | [] => [.ofList part.reverse]
  | c :: rest =>
    if c = '/' then .ofList part.reverse :: components [] rest else components (c :: part) rest

def sampleResolve : Resolve := fun name => .ok (components [] name.toList, name)

def sampleTree : FileTree := [([], .dir), (["f"], .file (encodeUtf8 "one\n"))]

def samplePatch : String :=
  "*** Begin Patch\r\n*** Add File: n\r\n+x\r\n*** Update File: n\r\n@@\r\n-x\r\n+y\r\n" ++
    "*** End Patch\r\n"

def onDisk (t : FileTree) (sections : List Section) : Except PatchError FileTree :=
  sections.foldlM (fun t sec =>
    match applySections sampleResolve id (fun _ => none) t [sec] with
    | (.ok _, t') => .ok t'
    | (.error e, _) => .error e) t

theorem sampleTree_wellFormed : sampleTree.WellFormed := by
  intro p hp q hq
  have hpath : p = ["f"] := by
    by_contra hne
    by_cases hroot : p = []
    · subst hroot
      exact absurd hp (by decide)
    · simp [FileTree.isFile, FileTree.bytesAt, sampleTree, PyDict.get?, Ne.symm hne,
        Ne.symm hroot] at hp
  subst hpath
  obtain rfl : q = [] := by simpa [FileTree.above] using hq
  decide

def sampleUpdate : String :=
  "*** Begin Patch\n*** Update File: f\n@@\n-one\n+two\n*** Add File: d/x\n+new\n*** End Patch\n"

/-- The new file cannot be written. -/
def sampleFaults : Path → Option Fault := fun p =>
  if p = ["d", "x"] then some (.write (some [])) else none

theorem openai_patch_whole_or_not_sampleUpdate :
    (applyOpenAiPatch sampleResolve id (fun _ => none) sampleTree sampleUpdate).2.bytesAt ["f"] =
      some (encodeUtf8 "two\n") ∧
    (∃ sections, parseSections sampleUpdate = .ok sections ∧ Applied sampleResolve sections sampleTree
      (applyOpenAiPatch sampleResolve id (fun _ => none) sampleTree sampleUpdate).2) ∧
    (applyOpenAiPatch sampleResolve id sampleFaults sampleTree sampleUpdate).1 =
      .error (.failed 0) ∧
    (applyOpenAiPatch sampleResolve id sampleFaults sampleTree sampleUpdate).2.Same sampleTree := by
  have htext : sampleUpdate.toList = _ := String.toList_ofList
  have hsections : parseSections sampleUpdate = .ok
      [.update "f" [["-one\n".toList, "+two\n".toList]] none, .add "d/x" ["new\n".toList]] := by
    rw [parseSections, htext]
    decide +kernel
  have hfailed : (applyOpenAiPatch sampleResolve id sampleFaults sampleTree sampleUpdate).1 =
      .error (.failed 0) := by
    rw [applyOpenAiPatch, hsections]
    decide +kernel
  have hdone : (applyOpenAiPatch sampleResolve id (fun _ => none) sampleTree sampleUpdate).1 =
      .ok ⟨["f", "d/x"], 2⟩ := by
    rw [applyOpenAiPatch, hsections]
    decide +kernel
  refine ⟨?_, ?_, hfailed, ?_⟩
  · rw [applyOpenAiPatch, hsections]
    decide +kernel
  · exact (openai_patch_whole_or_not sampleResolve id (fun _ => .refl _) (fun _ => none) sampleTree
      sampleTree_wellFormed sampleUpdate).2 ⟨["f", "d/x"], 2⟩ hdone
  · exact (openai_patch_whole_or_not sampleResolve id (fun _ => .refl _) sampleFaults sampleTree
      sampleTree_wellFormed sampleUpdate).1 _ hfailed rfl

/-- A patch with `\r\n` lines that adds a file and updates it is accepted, although its update alone
does not find its context in the file on disk, where the newlines are translated. And a directory
that only an added and deleted file needs is not made at all. -/
theorem sections_differ_on_disk :
    ((applyOpenAiPatch sampleResolve id (fun _ => none) sampleTree samplePatch).1.toOption =
        some ⟨["n"], 2⟩ ∧
      (applyOpenAiPatch sampleResolve id (fun _ => none) sampleTree samplePatch).2.bytesAt ["n"] =
        some (encodeUtf8 "y\r\n") ∧
      ((parseSections samplePatch).toOption.map fun sections =>
        (onDisk sampleTree sections).toOption) = some none) ∧
    ((applySections sampleResolve id (fun _ => none) sampleTree
        [.add "d/x" [], .delete "d/x"]).2.isDir ["d"] = false ∧
      (onDisk sampleTree [.add "d/x" [], .delete "d/x"]).toOption.map (fun t => t.isDir ["d"]) =
        some true) := by
  have htext : samplePatch.toList = _ := (String.toList_append ..).trans
    (congrArg₂ (· ++ ·) String.toList_ofList String.toList_ofList)
  have hsections : parseSections samplePatch = .ok [.add "n" ["x\r\n".toList],
      .update "n" [["-x\r\n".toList, "+y\r\n".toList]] none] := by
    rw [parseSections, htext]
    decide +kernel
  rw [applyOpenAiPatch, hsections]
  decide +kernel

end PawFlow.PatchTool
