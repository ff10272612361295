import PawFlow.FileStore.Transfers
import PawFlow.Ownership.Compensation

/-!
# Transfers of ownership are all or nothing

A transfer that does not go through leaves everything under the old owner, and one that does
leaves everything under the new one, with an exception: the files handed back are all that the new
owner has in the conversation, also those that were the new owner's before.
-/

namespace PawFlow.Ownership

open PawFlow.Lib PawFlow.Conversation PawFlow.FileStore.State

namespace Store

/-- The owner of the conversation, as `resolve_owner` tells. -/
def owner (U : Unicode) (s : Store) : String := strip (s.resolveOwner U).1

/-- A conversation the store has loaded: it lies in the directory of its owner. -/
structure Kept (U : Unicode) (cid : String) (s : Store) : Prop where
  cid_ne : cid ≠ ""
  cid_strip : strip cid = cid
  uid : ∃ uid, s.cidUser = some uid ∧ uid ≠ "" ∧ dirOf U uid = dirOf U (s.owner U)
  dir : (s.dirs (dirOf U (s.owner U))).isSome
  owner_ne : s.owner U ≠ ""
  rtypes : s.rtypes.Nodup
  files : s.files.Shelved

/-! ## Before and after -/

structure AsBefore (s t : Store) : Prop where
  cidUser : t.cidUser = s.cidUser
  dirs : t.dirs = s.dirs
  resources : t.resources = s.resources
  files : SameFiles s.files t.files

/-- What was under the one owner is under the other. The files are those with bytes. -/
structure MovedTo (U : Unicode) (cid : String) (s : Store) (owner new : String) (t : Store) :
    Prop where
  cidUser : t.cidUser = some new
  dir : ∃ dir, s.dirs (dirOf U owner) = some dir ∧ t.dirs (dirOf U new) =
    some (dir.withExtras { dir.extras.read with metaUserId := some new })
  left : dirOf U owner ≠ dirOf U new → t.dirs (dirOf U owner) = none
  resources : ∀ r ∈ s.owned owner, t.resources r new = s.resources r owner
  files : ∀ i ∈ s.files.planned cid owner, ∃ e, t.files.entries.get? i.1 = some e ∧
    e.userId = new ∧ e.conversationId = cid ∧ t.files.bytesOf i.1 = s.files.bytesOf i.1
  gone : owner ≠ new → t.owned owner = [] ∧ t.files.planned cid owner = []

/-- At whatever step a call fails. -/
def Atomic (U : Unicode) (cid : String) (s : Store) (newUserId : String)
    (expectedCurrentOwner : Option String) : Prop :=
  ∀ faults,
    let x := s.reassignOwner U cid newUserId expectedCurrentOwner faults
    (x.1 ≠ .returned true → AsBefore s x.2) ∧
      (x.1 = .returned true → MovedTo U cid s (s.owner U) (strip newUserId) x.2) ∧
      ((expectedCurrentOwner.any fun expected => s.owner U ≠ strip expected) → AsBefore s x.2)

/-- Everything is under this owner already. -/
def Settled (U : Unicode) (cid : String) (s : Store) (new : String) : Prop :=
  s.cidUser = some new ∧
    (∃ dir extras, s.dirs (dirOf U new) = some dir ∧ dir.extras = .dict extras ∧
      extras.metaUserId = some new) ∧
    (s.owner U ≠ new → s.owned (s.owner U) = [] ∧ s.files.planned cid (s.owner U) = [])

/-- What a transfer changes can be put back. -/
def Reversible (U : Unicode) (cid : String) (s : Store) (new : String) : Prop :=
  s.cidUser = some (s.owner U) ∧
    (∃ dir extras, s.dirs (dirOf U (s.owner U)) = some dir ∧ dir.extras = .dict extras) ∧
    (s.blocked (s.owner U) new ∨ s.files.planned cid new = [] ∧
      ∀ i ∈ s.files.planned cid (s.owner U), numbered i.2.path)

/-- The call is refused at once, finds everything in place, or can be undone. -/
def Transferable (U : Unicode) (cid : String) (s : Store) (new : String)
    (expectedCurrentOwner : Option String) : Prop :=
  new = "" ∨ (expectedCurrentOwner.any fun expected => s.owner U ≠ strip expected) ∨
    (dirOf U (s.owner U) = dirOf U new ∧ Settled U cid s new) ∨
    (dirOf U (s.owner U) ≠ dirOf U new ∧
      ((s.dirs (dirOf U new)).isSome ∨ Reversible U cid s new))

variable {U : Unicode} {cid : String} {s t : Store} {newUserId : String}
  {expected : Option String} {faults : Faults}

theorem resolveOwner_eq (h : Kept U cid s) :
    ∃ o c, s.resolveOwner U = (o, { s with cachedUser := c }) ∧ strip o = s.owner U := by
  obtain ⟨uid, huid, hne, -⟩ := h.uid
  have hdir : ∀ c, convDir U { s with cachedUser := c } =
      some (dirOf U uid, { s with cachedUser := c }) := by
    intro c
    unfold convDir
    rw [huid, Option.filter_some_pos (by simpa using hne)]
  have hload : ∃ o c, s.loadCache U = (o, { s with cachedUser := c }) := by
    unfold loadCache
    split
    · next o ho => exact ⟨o, s.cachedUser, rfl⟩
    · rw [hdir s.cachedUser]
      exact ⟨_, _, rfl⟩
  obtain ⟨o, c, hload⟩ := hload
  have hsnd : ∃ c, (s.resolveOwner U).2 = { s with cachedUser := c } := by
    unfold resolveOwner
    rw [hload]
    dsimp only
    rw [hdir]
    split_ifs
    · exact ⟨c, rfl⟩
    · exact ⟨c, rfl⟩
    · exact ⟨s.cachedUser, rfl⟩
  obtain ⟨c, hc⟩ := hsnd
  exact ⟨_, c, Prod.ext rfl hc, rfl⟩

theorem strip_owner : strip (s.owner U) = s.owner U := strip_strip _

theorem asBefore_cached (c : Option String) : AsBefore s { s with cachedUser := c } :=
  ⟨rfl, rfl, rfl, fun _ => rfl, fun _ => rfl⟩

/-- A call by what it answers; the rest of the store is the same up to the cached owner. -/
theorem reassignOwner_eq (h : Kept U cid s) {dir : ConvDir}
    (hdir : s.dirs (dirOf U (s.owner U)) = some dir) : ∃ c, ∀ newUserId expected faults,
      let t := { s with cachedUser := c }
      let new := strip newUserId
      s.reassignOwner U cid newUserId expected faults =
        if new = "" then (.returned false, s)
        else if expected.any fun expected => s.owner U ≠ strip expected then (.returned false, t)
        else if dirOf U (s.owner U) = dirOf U new then (.returned true, t)
        else if (s.dirs (dirOf U new)).isSome then (.returned false, t)
        else if faults.opening then (.raised, t)
        else
          let x := t.transfer U cid (dirOf U (s.owner U)) (dirOf U new) (s.owner U) new
            dir.extras.read faults
          if x.1 then (.returned true, x.2.2)
          else (.returned false, x.2.2.rollBack U cid (dirOf U (s.owner U)) (dirOf U new)
            (s.owner U) new dir.extras.read x.2.1) := by
  obtain ⟨o, c, hresolve, ho⟩ := resolveOwner_eq h
  obtain ⟨uid, huid, hne, hsame⟩ := h.uid
  have hconv : s.convDir U = some (dirOf U (s.owner U), s) := by
    unfold convDir
    rw [huid, Option.filter_some_pos (by simpa using hne), ← hsame]
  refine ⟨c, fun newUserId expected faults => ?_⟩
  unfold reassignOwner
  dsimp only
  rw [hconv]
  dsimp only
  rw [hdir]
  dsimp only
  rw [hresolve]
  dsimp only
  rw [ho]
  generalize transfer U cid { s with cachedUser := c } (dirOf U (s.owner U))
    (dirOf U (strip newUserId)) (s.owner U) (strip newUserId) dir.extras.read faults = x
  by_cases hnew : strip newUserId = ""
  · rw [if_pos (.inr hnew), if_pos hnew]
  · rw [if_neg (not_or.mpr ⟨h.cid_ne, hnew⟩), if_neg hnew]
    obtain ⟨_ | _, undo, t⟩ := x <;> rfl

/-! ## The files -/

theorem exists_reassign (h : Kept U cid s) {new : String} (hstrip : strip new = new)
    (hnew : new ≠ "") (hne : s.owner U ≠ new) :
    ∃ mid back, s.files.reassign cid (s.owner U) new = some mid ∧
      mid.reassign cid new (s.owner U) = some back ∧ mid.Shelved ∧ back.Shelved ∧
      Reshelves s.files mid (s.files.passed cid (s.owner U) new) ∧
      Reshelves mid back (mid.passed cid new (s.owner U)) := by
  have hthere : handsOff (strip cid) (strip (s.owner U)) (strip new) := by
    rw [h.cid_strip, strip_owner, hstrip]
    simp [handsOff, h.cid_ne, h.owner_ne, hnew, hne]
  have hback : handsOff (strip cid) (strip new) (strip (s.owner U)) := by
    rw [h.cid_strip, strip_owner, hstrip]
    simp [handsOff, h.cid_ne, h.owner_ne, hnew, Ne.symm hne]
  obtain ⟨mid, hmid, hshelved, hreshelves⟩ := h.files.reassign hthere
  obtain ⟨back, hmidback, hshelved', hreshelves'⟩ := hshelved.reassign hback
  rw [h.cid_strip, strip_owner, hstrip] at hreshelves hreshelves'
  exact ⟨mid, back, hmid, hmidback, hshelved, hshelved', hreshelves, hreshelves'⟩

theorem returned_iff (h : Kept U cid s) {new : String} (hstrip : strip new = new) (hnew : new ≠ "")
    (hne : s.owner U ≠ new) {files : FileStore.State}
    (hfiles : Returned cid s (s.owner U) new files) :
    SameFiles s.files files ↔ s.files.planned cid new = [] ∧
      ∀ i ∈ s.files.planned cid (s.owner U), numbered i.2.path := by
  obtain ⟨mid, back, hmid, hback, -, hshelved, hthere, hagain⟩ := exists_reassign h hstrip hnew hne
  obtain ⟨mid', hmid', rfl⟩ := hfiles
  obtain rfl := Option.some.inj (hmid.symm.trans hmid')
  rw [hback, Option.getD_some]
  exact sameFiles_iff h.files hshelved hne hthere hagain

theorem Transferred.movedTo (h : Kept U cid s) {new : String} (hstrip : strip new = new)
    (hnew : new ≠ "") (hapart : dirOf U (s.owner U) ≠ dirOf U new) {dir : ConvDir}
    (hdir : s.dirs (dirOf U (s.owner U)) = some dir)
    (ht : Transferred cid s dir (dirOf U (s.owner U)) (dirOf U new) (s.owner U) new t) :
    MovedTo U cid s (s.owner U) new t := by
  have hne : s.owner U ≠ new := fun heq => hapart (congrArg _ heq)
  obtain ⟨mid, back, hmid, -, hshelved, -, hthere, -⟩ := exists_reassign h hstrip hnew hne
  obtain rfl := Option.some.inj (hmid.symm.trans ht.files)
  refine ⟨ht.cidUser, ⟨dir, hdir, ?_⟩, fun _ => ?_, fun r hr => ?_, fun i hi => ?_, fun _ =>
    ⟨?_, planned_of_reshelves hshelved hne hthere⟩⟩
  · rw [ht.dirs, Function.update_self]
  · rw [ht.dirs, Function.update_of_ne hapart, rename_apply, if_neg hapart, if_pos rfl]
  · rw [ht.resources, if_pos hr, rename_apply, if_pos rfl]
  · obtain ⟨he, hdeparts, hbytes⟩ := h.files.mem_planned.mp hi
    refine ⟨{ i.2 with userId := new, path := FileStore.State.destOf cid new i.2.path },
      ?_, rfl, ?_, hthere.bytes i.1⟩
    · rw [hthere.entries, he, Option.map_some, passed, if_pos hbytes, handedOver, if_pos hdeparts]
    · rw [departs, Bool.and_eq_true, decide_eq_true_eq] at hdeparts
      exact hdeparts.1
  · unfold owned
    rw [ht.rtypes, List.filter_eq_nil_iff]
    intro r hr
    rw [ht.resources]
    split_ifs with howned
    · rw [rename_apply, if_neg hne, if_pos rfl]
      simp
    · simpa [owned, hr] using howned

/-! ## All or nothing -/

theorem withExtras_read {dir : ConvDir} {extras : Extras} :
    dir.withExtras extras = dir ↔ dir.extras = .dict extras := by
  obtain ⟨file, content⟩ := dir
  constructor
  · intro heq
    exact (congrArg ConvDir.extras heq).symm
  · rintro rfl
    rfl

theorem settled_iff (h : Kept U cid s) {new : String}
    (hsame : dirOf U (s.owner U) = dirOf U new) (c : Option String) :
    MovedTo U cid s (s.owner U) new { s with cachedUser := c } ↔ Settled U cid s new := by
  obtain ⟨dir, hdir⟩ := Option.isSome_iff_exists.mp h.dir
  have hdir' : s.dirs (dirOf U new) = some dir := by rw [← hsame, hdir]
  constructor
  · intro hmoved
    obtain ⟨dir', hget, hextras⟩ := hmoved.dir
    obtain rfl := Option.some.inj (hdir.symm.trans hget)
    have hself := Option.some.inj (hextras.symm.trans hdir')
    exact ⟨hmoved.cidUser, ⟨dir, _, hdir', withExtras_read.mp hself, rfl⟩, hmoved.gone⟩
  · rintro ⟨huser, ⟨dir', extras, hget, hextras, hmeta⟩, hgone⟩
    obtain rfl := Option.some.inj (hdir'.symm.trans hget)
    have hself : dir.withExtras { dir.extras.read with metaUserId := some new } = dir := by
      refine withExtras_read.mpr ?_
      rw [hextras, ExtrasFile.read, ← hmeta]
    refine ⟨huser, ⟨dir, hdir, ?_⟩, fun hne => absurd hsame hne, fun r hr => ?_, fun i hi => ?_,
      hgone⟩
    · rw [hself]
      exact hdir'
    · by_cases hne : s.owner U = new
      · rw [← hne]
      · rw [(hgone hne).1] at hr
        cases hr
    · by_cases hne : s.owner U = new
      · obtain ⟨he, hdeparts, -⟩ := h.files.mem_planned.mp hi
        rw [departs, Bool.and_eq_true, decide_eq_true_eq, decide_eq_true_eq] at hdeparts
        exact ⟨i.2, he, hdeparts.2.trans hne, hdeparts.1, rfl⟩
      · rw [(hgone hne).2] at hi
        cases hi

section

variable {new src dest : String} {dir : ConvDir} {c : Option String}

theorem Restored.uncached (h : Restored cid { s with cachedUser := c } dir src (s.owner U) new t) :
    Restored cid s dir src (s.owner U) new t :=
  ⟨h.cidUser, h.resources, h.dirs, h.files⟩

theorem Transferred.uncached
    (h : Transferred cid { s with cachedUser := c } dir src dest (s.owner U) new t) :
    Transferred cid s dir src dest (s.owner U) new t :=
  ⟨h.cidUser, h.free, h.resources, h.dirs, h.files, h.rtypes⟩

theorem Restored.asBefore (h : Kept U cid s) (hstrip : strip new = new) (hnew : new ≠ "")
    (hne : s.owner U ≠ new) (hdir : s.dirs (dirOf U (s.owner U)) = some dir)
    (hreversible : Reversible U cid s new)
    (hrestored : Restored cid s dir (dirOf U (s.owner U)) (s.owner U) new t) : AsBefore s t := by
  obtain ⟨huser, ⟨dir', extras, hdir', hextras⟩, hfiles⟩ := hreversible
  obtain rfl := Option.some.inj (hdir.symm.trans hdir')
  refine ⟨hrestored.cidUser.trans huser.symm, ?_, hrestored.resources, ?_⟩
  · rw [hrestored.dirs, withExtras_read.mpr (by rw [hextras]; rfl), ← hdir,
      Function.update_eq_self]
  · rcases hrestored.files with hsame | ⟨hblocked, hreturned⟩
    · rw [hsame]
      exact ⟨fun _ => rfl, fun _ => rfl⟩
    · refine (returned_iff h hstrip hnew hne hreturned).mpr (hfiles.resolve_left ?_)
      rw [hblocked]
      exact Bool.false_ne_true

/-- A failing file store shows what has to be there, and a failing move of the directory what has
to be so of the files. -/
theorem reversible_of_atomic (h : Kept U cid s) {newUserId : String} (hnew : strip newUserId ≠ "")
    (hexpected : ¬ expected.any fun expected => s.owner U ≠ strip expected)
    (hapart : dirOf U (s.owner U) ≠ dirOf U (strip newUserId))
    (hfree : s.dirs (dirOf U (strip newUserId)) = none)
    (hdir : s.dirs (dirOf U (s.owner U)) = some dir)
    (hatomic : Atomic U cid s newUserId expected) : Reversible U cid s (strip newUserId) := by
  have hstrip : strip (strip newUserId) = strip newUserId := strip_strip _
  generalize hn : strip newUserId = new at *
  have hne : s.owner U ≠ new := fun heq => hapart (congrArg _ heq)
  obtain ⟨c, heq⟩ := reassignOwner_eq h hdir
  have hcall : ∀ faults : Faults, faults.opening = false →
      let x := transfer U cid { s with cachedUser := c } (dirOf U (s.owner U)) (dirOf U new)
        (s.owner U) new dir.extras.read faults
      x.1 = false → AsBefore s (x.2.2.rollBack U cid (dirOf U (s.owner U)) (dirOf U new)
        (s.owner U) new dir.extras.read x.2.1) := by
    intro faults hopening x hx
    have hfails := (hatomic faults).1
    have hfree' : ¬ (s.dirs (dirOf U new)).isSome := by rw [hfree]; simp
    have hopen : ¬ faults.opening := by rw [hopening]; simp
    rw [heq, hn, if_neg hnew, if_neg hexpected, if_neg hapart, if_neg hfree', if_neg hopen,
      if_neg (Bool.eq_false_iff.mp hx)] at hfails
    exact hfails (by simp)
  obtain ⟨mid, -, hmid, -⟩ := exists_reassign h hstrip hnew hne
  have hcases : ∀ faults, _ := fun faults => @transfer_cases U cid { s with cachedUser := c }
    (s.owner U) new dir (dirOf U (s.owner U)) (dirOf U new) faults rfl rfl hdir hfree h.owner_ne
    h.cid_ne hnew hne h.rtypes
  -- The file store fails: the owner and the extras are written all the same.
  have hfault := @transfer_of_files_fault U cid { s with cachedUser := c } (s.owner U) new
    (dirOf U (s.owner U)) (dirOf U new) { files := true } rfl dir.extras.read
  have hbefore := hcall { files := true } rfl hfault
  obtain ⟨-, hrestored⟩ := (hcases { files := true }).resolve_right fun hright => by
    rw [hfault] at hright
    exact absurd hright.1 (by simp)
  refine ⟨hbefore.cidUser.symm.trans hrestored.cidUser, ⟨dir, dir.extras.read, hdir, ?_⟩, ?_⟩
  · have hsame := congrFun (hbefore.dirs.symm.trans hrestored.dirs) (dirOf U (s.owner U))
    rw [Function.update_self, hdir, Option.some.injEq] at hsame
    exact withExtras_read.mp hsame.symm
  · -- The move of the directory fails: the files are handed back.
    by_cases hblocked : s.blocked (s.owner U) new
    · exact .inl hblocked
    · obtain ⟨hfault, hfiles⟩ := @transfer_of_rename_fault U cid { s with cachedUser := c }
        (s.owner U) new (dirOf U (s.owner U)) (dirOf U new) rfl h.owner_ne h.cid_ne hnew hne
        h.rtypes (Bool.eq_false_iff.mpr hblocked) mid hmid dir.extras.read
      have hbefore := hcall { rename := true } rfl hfault
      have hsame := hbefore.files
      rw [hfiles] at hsame
      exact .inr ((returned_iff h hstrip hnew hne ⟨mid, hmid, rfl⟩).mp hsame)

end

def uploaded (i : FileStore.FileId) (user : String) : FileStore.Entry where
  filename := "notes.txt"
  path := ⟨⟨user, "c1", "0000"⟩, i, "notes.txt"⟩
  contentType := "text/plain"
  size := 0
  createdAt := 0
  conversationId := "c1"
  userId := user
  ttl := 0
  agentName := ""
  category := ""

/-- A conversation of alice to which these users uploaded a file each. -/
def sharedWith (users : List String) : Store where
  userDirs := ["alice"]
  dirs name := if name = "alice" then some { extras := .dict { metaUserId := some "alice" } }
    else none
  cidUser := some "alice"
  files := {
    entries := users.zipIdx.map fun u => (u.2, uploaded u.2 u.1)
    files := users.zipIdx.map fun u => ((uploaded u.2 u.1).path, []) }

theorem shelved_sharedWith (users : List String) : (sharedWith users).files.Shelved := by
  have hentry : ∀ i e, (sharedWith users).files.entries.get? i = some e →
      ∃ user, users[i]? = some user ∧ e = uploaded i user := by
    intro i e he
    obtain ⟨⟨user, j⟩, hmem, heq⟩ := List.mem_map.mp (PyDict.mem_of_get? he)
    obtain ⟨rfl, rfl⟩ := Prod.mk.inj heq
    exact ⟨user, List.mk_mem_zipIdx_iff_getElem?.mp hmem, rfl⟩
  refine ⟨?_, fun i e he => ?_, fun p bytes e hp he => ?_⟩
  · have hkeys : (sharedWith users).files.entries.map Prod.fst = users.zipIdx.map Prod.snd := by
      simp [sharedWith, Function.comp_def]
    rw [hkeys, List.zipIdx_map_snd]
    exact List.nodup_range'
  · obtain ⟨user, -, rfl⟩ := hentry i e he
    exact ⟨rfl, rfl, rfl⟩
  · obtain ⟨⟨user, j⟩, hmem, heq⟩ := List.mem_map.mp (PyDict.mem_of_get? hp)
    obtain ⟨rfl, -⟩ := Prod.mk.inj heq
    obtain ⟨user', huser', rfl⟩ := hentry _ e he
    obtain rfl := Option.some.inj
      ((List.mk_mem_zipIdx_iff_getElem?.mp hmem).symm.trans huser')
    rfl

theorem kept_sharedWith {users : List String} (howner : (sharedWith users).owner ascii = "alice") :
    Kept ascii "c1" (sharedWith users) where
  cid_ne := by decide
  cid_strip := by decide +kernel
  uid := ⟨"alice", rfl, by decide, by rw [howner]⟩
  dir := by
    have hdir : dirOf ascii "alice" = "alice" := by decide +kernel
    rw [howner, hdir]
    rfl
  owner_ne := by
    rw [howner]
    decide
  rtypes := List.nodup_nil
  files := shelved_sharedWith users

end Store

end PawFlow.Ownership
