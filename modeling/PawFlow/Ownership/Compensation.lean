import PawFlow.Ownership.Reassign

/-!
# What the rollback puts back

What the steps of `reassign_owner` do, and what their compensations leave: the directory with the
extras that were read, the resources where they were, and the files handed back.
-/

namespace PawFlow.Ownership

open PawFlow.Lib PawFlow.Conversation

/-! ## Renaming -/

section

variable {κ ν : Type} [DecidableEq κ] {m : κ → Option ν} {src dest k : κ}

theorem rename_apply (m : κ → Option ν) (src dest k : κ) :
    rename m src dest k = if k = dest then m src else if k = src then none else m k := by
  unfold rename
  rw [Function.update_apply, Function.update_apply]

theorem rename_rename (hdest : m dest = none) : rename (rename m src dest) dest src = m := by
  ext1 k
  rw [rename_apply]
  split_ifs with hsrc hdest'
  · rw [rename_apply, if_pos rfl, hsrc]
  · rw [hdest', hdest]
  · rw [rename_apply, if_neg hdest', if_neg hsrc]

end

section

variable {src dest rtype : String} {m : String → String → Option FileTree}

theorem moveResource_apply (m : String → String → Option FileTree) (src dest rtype r o : String) :
    moveResource src dest rtype m r o =
      if r = rtype then rename (m rtype) src dest o else m r o := by
  unfold moveResource
  rw [Function.update_apply]
  split_ifs <;> rfl

theorem moveResource_moveResource (hdest : m rtype dest = none) :
    moveResource dest src rtype (moveResource src dest rtype m) = m := by
  ext1 r
  ext1 o
  rw [moveResource_apply]
  split_ifs with hr
  · have hinner : moveResource src dest rtype m rtype = rename (m rtype) src dest := by
      ext1 o
      rw [moveResource_apply, if_pos rfl]
    rw [hinner, rename_rename hdest, hr]
  · rw [moveResource_apply, if_neg hr]

theorem foldl_moveResource {rtypes : List String} (hnodup : rtypes.Nodup) (r o : String) :
    rtypes.foldl (fun m rtype => moveResource src dest rtype m) m r o =
      if r ∈ rtypes then rename (m r) src dest o else m r o := by
  induction rtypes generalizing m with
  | nil => rw [List.foldl_nil, if_neg List.not_mem_nil]
  | cons rtype rtypes ih =>
    obtain ⟨hnot, hnodup⟩ := List.nodup_cons.mp hnodup
    rw [List.foldl_cons, ih hnodup]
    by_cases hr : r = rtype
    · subst hr
      rw [if_neg hnot, if_pos List.mem_cons_self, moveResource_apply, if_pos rfl]
    · have hrow : moveResource src dest rtype m r = m r := by
        ext1 o
        rw [moveResource_apply, if_neg hr]
      rw [hrow]
      simp [hr]

end

/-! ## The resources -/

namespace Store

variable {U : Unicode} {cid : String} {s : Store} {owner new : String} {fails : String → Bool}

/-- The types of which the owner has resources of the conversation. -/
def owned (s : Store) (owner : String) : List String :=
  s.rtypes.filter fun rtype => (s.resources rtype owner).isSome

def blocked (s : Store) (owner new : String) : Bool :=
  (s.owned owner).any fun rtype => (s.resources rtype new).isSome

theorem compensate_moves (hnodup : s.rtypes.Nodup) (hfree : s.blocked owner new = false)
    (fails : String → Bool) :
    compensate (moveResource new owner)
      (perform (moveResource owner new) fails [] (s.owned owner) s.resources).2.1
      (perform (moveResource owner new) fails [] (s.owned owner) s.resources).2.2 =
        s.resources := by
  refine @compensate_perform _ _ (moveResource owner new) (moveResource new owner) fails
    (fun rtype m => m rtype new = none) (fun _ _ hdest => moveResource_moveResource hdest)
    (fun a b m hne hdest => ?_) _ _ _ (hnodup.filter _) fun rtype hrtype => ?_
  · rw [moveResource_apply, if_neg hne, hdest]
  · have hsome := List.any_eq_false.mp hfree rtype hrtype
    rwa [Bool.not_eq_true, Option.isSome_eq_false_iff, Option.isNone_iff_eq_none] at hsome

/-- The moves of the resources: all of them, to be taken back, or none. -/
theorem moveResources_cases (hcid : cid ≠ "") (howner : owner ≠ "") (hnew : new ≠ "")
    (hne : owner ≠ new) (hnodup : s.rtypes.Nodup) :
    (s.moveResources cid owner new fails = (none, s) ∧
      (s.blocked owner new = false → ∃ rtype ∈ s.owned owner, fails rtype)) ∨
    ∃ moved resources, s.moveResources cid owner new fails = (some moved, { s with resources }) ∧
      compensate (moveResource new owner) moved resources = s.resources ∧
      s.blocked owner new = false ∧ ∀ r o, resources r o =
        if r ∈ s.owned owner then rename (s.resources r) owner new o else s.resources r o := by
  unfold moveResources
  rw [if_neg (by simp [hcid, howner, hnew, hne])]
  change (if s.blocked owner new then _ else _) = _ ∧ _ ∨ ∃ moved resources,
    (if s.blocked owner new then _ else _) = _ ∧ _
  cases hblocked : s.blocked owner new with
  | true => exact .inl ⟨rfl, fun h => absurd h (by simp)⟩
  | false =>
    rw [if_neg Bool.false_ne_true]
    have hback := compensate_moves hnodup hblocked fails
    have hlist : (s.rtypes.filter fun rtype => (s.resources rtype owner).isSome) =
        s.owned owner := rfl
    rw [hlist]
    cases hperform :
        perform (moveResource owner new) fails [] (s.owned owner) s.resources with
    | mk taken rest =>
    obtain ⟨moved, resources⟩ := rest
    rw [hperform] at hback
    cases taken with
    | true =>
      have hdone : (perform (moveResource owner new) fails [] (s.owned owner)
        s.resources).1 = true := by rw [hperform]
      rw [perform_eq (perform_done hdone), Prod.mk.injEq, Prod.mk.injEq] at hperform
      obtain ⟨-, -, hresources⟩ := hperform
      refine .inr ⟨moved, resources, rfl, hback, rfl, fun r o => ?_⟩
      rw [← hresources]
      exact foldl_moveResource (hnodup.filter _) r o
    | false =>
      refine .inl ⟨?_, fun _ => ?_⟩
      · dsimp only at hback ⊢
        rw [hback]
      · by_contra hnone
        rw [perform_eq fun rtype hrtype => Bool.eq_false_iff.mpr fun h =>
          hnone ⟨rtype, hrtype, h⟩] at hperform
        cases hperform

/-! ## The transfer and its compensation -/

theorem writeExtras_eq {uid : String} (huid : s.cidUser = some uid) (hne : uid ≠ "")
    (extras : Extras) :
    s.writeExtras U extras = { s with
      dirs := Function.update s.dirs (dirOf U uid)
        (some (((s.dirs (dirOf U uid)).getD {}).withExtras extras)) } := by
  have hdir : s.convDir U = some (dirOf U uid, s) := by
    unfold convDir
    rw [huid, Option.filter_some_pos (by simpa using hne)]
  unfold writeExtras
  rw [hdir]

/-- The files before a transfer, or those it leaves when they are handed back. -/
def Returned (cid : String) (s : Store) (owner new : String) (files : FileStore.State) : Prop :=
  ∃ mid, s.files.reassign cid owner new = some mid ∧
    files = (mid.reassign cid new owner).getD mid

/-- What the rollback leaves. -/
structure Restored (cid : String) (s : Store) (dir : ConvDir) (src owner new : String) (t : Store) :
    Prop where
  cidUser : t.cidUser = some owner
  resources : t.resources = s.resources
  dirs : t.dirs = Function.update s.dirs src (some (dir.withExtras dir.extras.read))
  files : t.files = s.files ∨ (s.blocked owner new = false ∧ Returned cid s owner new t.files)

/-- What a transfer that goes through leaves. -/
structure Transferred (cid : String) (s : Store) (dir : ConvDir) (src dest owner new : String)
    (t : Store) : Prop where
  cidUser : t.cidUser = some new
  free : s.blocked owner new = false
  resources : ∀ r o, t.resources r o =
    if r ∈ s.owned owner then rename (s.resources r) owner new o else s.resources r o
  dirs : t.dirs = Function.update (rename s.dirs src dest) dest
    (some (dir.withExtras { dir.extras.read with metaUserId := some new }))
  files : s.files.reassign cid owner new = some t.files
  rtypes : t.rtypes = s.rtypes

section

variable {dir : ConvDir} {src dest : String} {faults : Faults}

theorem rename_update_rename {m : String → Option ConvDir} (hdest : m dest = none)
    (v w : Option ConvDir) :
    Function.update (rename (Function.update (rename m src dest) dest w) dest src) src v =
      Function.update m src v := by
  ext1 k
  rw [Function.update_apply, Function.update_apply]
  split_ifs with hsrc
  · rfl
  · rw [rename_apply, if_neg hsrc]
    split_ifs with hk
    · rw [hk, hdest]
    · rw [Function.update_of_ne hk, rename_apply, if_neg hk, if_neg hsrc]

variable (hsrc : dirOf U owner = src) (hdest : dirOf U new = dest) (hdir : s.dirs src = some dir)
  (hfree : s.dirs dest = none) (howner : owner ≠ "")

include hsrc howner in
theorem rollBack_eq (t : Store) (extras : Extras) (undo : Undo) :
    let dirs := if undo.conversation then Ownership.rename t.dirs dest src else t.dirs
    t.rollBack U cid src dest owner new extras undo = { t with
      cidUser := some owner
      dirs := Function.update dirs src (some (((dirs src).getD {}).withExtras extras))
      files :=
        if undo.files then (t.files.reassign cid new owner).getD t.files else t.files
      resources := compensate (moveResource new owner) undo.resources t.resources
      cachedUser := none } := by
  intro dirs
  unfold rollBack
  dsimp only
  rw [writeExtras_eq rfl howner, hsrc]

include hsrc hdest hdir hfree howner in
theorem transfer_cases (hcid : cid ≠ "") (hnew : new ≠ "")
    (hne : owner ≠ new) (hnodup : s.rtypes.Nodup) :
    let x := s.transfer U cid src dest owner new dir.extras.read faults
    (x.1 = false ∧ Restored cid s dir src owner new
      (x.2.2.rollBack U cid src dest owner new dir.extras.read x.2.1)) ∨
    (x.1 = true ∧ Transferred cid s dir src dest owner new x.2.2) := by
  intro x
  have hx : x = s.transfer U cid src dest owner new dir.extras.read faults := rfl
  clear_value x
  unfold transfer at hx
  rcases @moveResources_cases cid s owner new faults.resource hcid howner hnew hne hnodup with
    ⟨hmoves, -⟩ | ⟨moved, resources, hmoves, hback, hblocked, hresources⟩
  · rw [hmoves] at hx
    subst hx
    refine .inl ⟨rfl, ?_⟩
    rw [rollBack_eq hsrc howner]
    exact ⟨rfl, rfl, by simp [hdir], .inl rfl⟩
  rw [hmoves] at hx
  dsimp only at hx
  split at hx
  · subst hx
    refine .inl ⟨rfl, ?_⟩
    rw [rollBack_eq hsrc howner]
    exact ⟨rfl, hback, by simp [hdir], .inl rfl⟩
  next files hfiles =>
  have hreassign : s.files.reassign cid owner new = some files := by
    split_ifs at hfiles
    exact hfiles
  have hreturned : Returned cid s owner new ((files.reassign cid new owner).getD files) :=
    ⟨files, hreassign, rfl⟩
  split_ifs at hx with hrename hextras hcache
  · subst hx
    refine .inl ⟨rfl, ?_⟩
    rw [rollBack_eq hsrc howner]
    exact ⟨rfl, hback, by simp [hdir], .inr ⟨hblocked, hreturned⟩⟩
  · subst hx
    refine .inl ⟨rfl, ?_⟩
    rw [rollBack_eq hsrc howner]
    refine ⟨rfl, hback, ?_, .inr ⟨hblocked, hreturned⟩⟩
    dsimp only
    rw [if_pos rfl, rename_rename hfree, hdir, Option.getD_some]
  · subst hx
    refine .inl ⟨rfl, ?_⟩
    rw [writeExtras_eq rfl hnew, hdest, rollBack_eq hsrc howner]
    refine ⟨rfl, hback, ?_, .inr ⟨hblocked, hreturned⟩⟩
    dsimp only
    rw [if_pos rfl, rename_update_rename hfree, rename_apply, if_pos rfl,
      Function.update_self, Option.getD_some, rename_apply, if_pos rfl, hdir, Option.getD_some]
    rfl
  · subst hx
    refine .inr ⟨rfl, ?_⟩
    rw [writeExtras_eq rfl hnew, hdest]
    refine ⟨rfl, hblocked, hresources, ?_, hreassign, rfl⟩
    dsimp only
    rw [rename_apply, if_pos rfl, hdir, Option.getD_some]

theorem transfer_of_files_fault (hfault : faults.files) (extras : Extras) :
    (s.transfer U cid src dest owner new extras faults).1 = false := by
  unfold transfer
  split
  · rfl
  · rw [if_pos hfault]

include hsrc howner in
theorem transfer_of_rename_fault (hcid : cid ≠ "") (hnew : new ≠ "") (hne : owner ≠ new)
    (hnodup : s.rtypes.Nodup) (hblocked : s.blocked owner new = false) {mid : FileStore.State}
    (hmid : s.files.reassign cid owner new = some mid) (extras : Extras) :
    let x := s.transfer U cid src dest owner new extras { rename := true }
    x.1 = false ∧ (x.2.2.rollBack U cid src dest owner new extras x.2.1).files =
      (mid.reassign cid new owner).getD mid := by
  intro x
  have hx : x = s.transfer U cid src dest owner new extras { rename := true } := rfl
  clear_value x
  unfold transfer at hx
  rcases @moveResources_cases cid s owner new (fun _ => false) hcid howner hnew hne hnodup with
    ⟨-, hfails⟩ | ⟨moved, resources, hmoves, -, -, -⟩
  · obtain ⟨rtype, -, hrtype⟩ := hfails hblocked
    cases hrtype
  · rw [hmoves] at hx
    dsimp only at hx
    rw [if_neg Bool.false_ne_true, hmid] at hx
    subst hx
    refine ⟨rfl, ?_⟩
    dsimp only
    rw [rollBack_eq hsrc howner]
    rfl

end

end Store

end PawFlow.Ownership
