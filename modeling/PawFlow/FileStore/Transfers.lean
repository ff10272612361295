import PawFlow.FileStore.Filing

/-!
# What a handoff of files does

A handoff gives every file of the conversation that the departing owner has to the new one, with
the bytes it had. An entry whose bytes are gone is left behind. Handed back, everything that the
new owner has moves, whoever it was from.
-/

namespace PawFlow.FileStore.State

open PawFlow.Lib

/-- Entries lie in the scope of their user, and a file that is indexed lies there only. -/
structure Shelved (s : State) : Prop where
  keys : (s.entries.map Prod.fst).Nodup
  entry : ∀ i e, s.entries.get? i = some e → e.path.fileId = i ∧ e.path.dir.owner = e.userId ∧
    e.path.dir.conversation = e.conversationId
  only : ∀ p bytes e, s.files.get? p = some bytes → s.entries.get? p.fileId = some e → p = e.path

def bytesOf (s : State) (i : FileId) : Option Bytes :=
  (s.entries.get? i).bind fun e => s.files.get? e.path

/-- The entry after a handoff that leaves entries without bytes behind. -/
def passed (s : State) (conversationId oldUserId newUserId : String) (e : Entry) : Entry :=
  if (s.files.get? e.path).isSome then handedOver conversationId oldUserId newUserId e else e

/-- The same entries, with the same files on disk. -/
structure SameFiles (s t : State) : Prop where
  entries : ∀ i, t.entries.get? i = s.entries.get? i
  files : ∀ p, t.files.get? p = s.files.get? p

/-- Every entry changes as `f` says and keeps its bytes. -/
structure Reshelves (s t : State) (f : Entry → Entry) : Prop where
  entries : ∀ i, t.entries.get? i = (s.entries.get? i).map f
  bytes : ∀ i, t.bytesOf i = s.bytesOf i
  rest : ∀ p, s.entries.get? p.fileId = none → t.files.get? p = s.files.get? p

variable {s t : State} {i k : FileId} {e : Entry} {bytes : Bytes} {f g : Entry → Entry}
  {conversationId oldUserId newUserId : String}

theorem Filed.shelved (h : Filed s) : Shelved s where
  keys := h.keys
  entry i e he := by
    obtain ⟨hid, howner, hconv, -⟩ := h.entry i e he
    exact ⟨hid, howner, hconv⟩
  only p bytes e hp he := h.only_entry he rfl hp

theorem Shelved.unlink (h : Shelved s) (p : FilePath) :
    Shelved { s with files := s.files.erase p } where
  keys := h.keys
  entry := h.entry
  only q bytes e hq he := by
    dsimp only at hq
    rw [PyDict.get?_erase] at hq
    split_ifs at hq
    exact h.only q bytes e hq he

theorem bytesOf_of_get? (he : s.entries.get? i = some e) : s.bytesOf i = s.files.get? e.path := by
  rw [bytesOf, he, Option.bind_some]

/-- One file of the plan is moved. -/
theorem Shelved.moveFile (h : Shelved s) (he : s.entries.get? i = some e)
    (hconv : e.conversationId = conversationId) (hbytes : s.files.get? e.path = some bytes)
    (newUserId : String) :
    let t := s.moveFile conversationId newUserId (i, e)
    Shelved t ∧
      t.entries.get? i =
        some { e with userId := newUserId, path := destOf conversationId newUserId e.path } ∧
      (∀ k, k ≠ i → t.entries.get? k = s.entries.get? k) ∧ (∀ k, t.bytesOf k = s.bytesOf k) ∧
      ∀ p : FilePath, p.fileId ≠ i → t.files.get? p = s.files.get? p := by
  obtain ⟨hid, -, -⟩ := h.entry i e he
  obtain ⟨files, hreplace, hfiles⟩ := replace_relocates
    (destOf conversationId newUserId e.path) hbytes rfl fun p bytes hp hget =>
      h.only p bytes e hget (by rw [hp]; exact hid ▸ he)
  unfold State.moveFile
  dsimp only
  rw [hreplace]
  have hdest : (destOf conversationId newUserId e.path).fileId = i := hid
  have hself : (s.entries.set i { e with
      userId := newUserId, path := destOf conversationId newUserId e.path }).get? i =
        some { e with userId := newUserId, path := destOf conversationId newUserId e.path } :=
    PyDict.get?_set_self _ _ _
  have hother : ∀ k, k ≠ i → (s.entries.set i { e with
      userId := newUserId, path := destOf conversationId newUserId e.path }).get? k =
        s.entries.get? k := fun k hk => PyDict.get?_set_of_ne _ _ hk
  have hrest : ∀ p : FilePath, p.fileId ≠ i → files.get? p = s.files.get? p := fun p hp =>
    hfiles.others p (hdest.symm ▸ hp)
  refine ⟨⟨PyDict.nodup_keys_set _ h.keys, fun k e' he' => ?_, fun p bytes e' hp he' => ?_⟩,
    hself, hother, fun k => ?_, hrest⟩
  · by_cases hk : k = i
    · subst hk
      obtain rfl := Option.some.inj (hself.symm.trans he')
      exact ⟨hid, rfl, hconv.symm⟩
    · exact h.entry k e' ((hother k hk).symm.trans he')
  · by_cases hp' : p.fileId = i
    · obtain rfl := Option.some.inj (hself.symm.trans (hp' ▸ he'))
      exact hfiles.only p bytes (hp'.trans hdest.symm) hp
    · exact h.only p bytes e' ((hrest p hp').symm.trans hp) ((hother _ hp').symm.trans he')
  · by_cases hk : k = i
    · subst hk
      rw [bytesOf_of_get? he, hbytes]
      unfold bytesOf
      dsimp only
      rw [hself]
      exact hfiles.here
    · unfold bytesOf
      dsimp only
      rw [hother k hk]
      cases hget : s.entries.get? k with
      | none => rfl
      | some e' =>
        rw [Option.bind_some, Option.bind_some]
        exact hrest _ (by rw [(h.entry k e' hget).1]; exact hk)

/-- The files of the plan are moved one by one. -/
theorem Shelved.foldl_moveFile (newUserId : String) :
    ∀ {items : List (FileId × Entry)} {s : State}, Shelved s → (items.map Prod.fst).Nodup →
    (∀ i ∈ items, s.entries.get? i.1 = some i.2 ∧ i.2.conversationId = conversationId ∧
      (s.files.get? i.2.path).isSome) →
    let t := items.foldl (State.moveFile conversationId newUserId) s
    Shelved t ∧
      (∀ i ∈ items, t.entries.get? i.1 = some { i.2 with
        userId := newUserId, path := destOf conversationId newUserId i.2.path }) ∧
      (∀ k, k ∉ items.map Prod.fst → t.entries.get? k = s.entries.get? k) ∧
      (∀ k, t.bytesOf k = s.bytesOf k) ∧
      ∀ p, s.entries.get? p.fileId = none → t.files.get? p = s.files.get? p
  | [], s, h, _, _ => ⟨h, fun _ hi => absurd hi List.not_mem_nil, fun _ _ => rfl, fun _ => rfl,
      fun _ _ => rfl⟩
  | (k, e) :: items, s, h, hnodup, hitems => by
    obtain ⟨hk, hrest⟩ := List.nodup_cons.mp hnodup
    obtain ⟨he, hconv, hbytes⟩ := hitems (k, e) List.mem_cons_self
    obtain ⟨bytes, hbytes⟩ := Option.isSome_iff_exists.mp hbytes
    obtain ⟨hstep, hself, hother, hsame, hfiles⟩ :=
      h.moveFile he hconv hbytes newUserId
    obtain ⟨hshelved, hmoved, hstays, hsame', hfiles'⟩ :=
      foldl_moveFile newUserId hstep hrest fun i hi => by
        obtain ⟨hget, hconv', hbytes'⟩ := hitems i (List.mem_cons_of_mem _ hi)
        have hne : i.1 ≠ k := fun heq => hk (List.mem_map.mpr ⟨i, hi, heq⟩)
        have hget' := (hother i.1 hne).trans hget
        refine ⟨hget', hconv', ?_⟩
        rw [← bytesOf_of_get? hget', hsame, bytesOf_of_get? hget]
        exact hbytes'
    refine ⟨hshelved, fun i hi => ?_, fun j hj => ?_, fun j => (hsame' j).trans (hsame j),
      fun p hp => ?_⟩
    · rcases List.mem_cons.mp hi with rfl | hi
      · exact (hstays k hk).trans hself
      · exact hmoved i hi
    · rw [List.map_cons, List.mem_cons, not_or] at hj
      exact (hstays j hj.2).trans (hother j hj.1)
    · have hne : p.fileId ≠ k := by
        rintro heq
        rw [heq, he] at hp
        cases hp
      exact (hfiles' p ((hother _ hne).trans hp)).trans (hfiles p hne)

theorem Shelved.mem_planned (h : Shelved s) {i : FileId × Entry} :
    i ∈ s.planned conversationId oldUserId ↔ s.entries.get? i.1 = some i.2 ∧
      departs conversationId oldUserId i.2 ∧ (s.files.get? i.2.path).isSome := by
  rw [planned, List.mem_filter, Bool.and_eq_true]
  constructor
  · rintro ⟨hi, hrest⟩
    exact ⟨PyDict.get?_of_mem h.keys hi, hrest⟩
  · rintro ⟨hi, hrest⟩
    exact ⟨PyDict.mem_of_get? hi, hrest⟩

/-- A handoff never fails, and moves the files of the departing owner. -/
theorem Shelved.reassign (h : Shelved s)
    (hands : handsOff (strip conversationId) (strip oldUserId) (strip newUserId)) :
    ∃ t, s.reassign conversationId oldUserId newUserId = some t ∧ Shelved t ∧
      Reshelves s t
        (s.passed (strip conversationId) (strip oldUserId) (strip newUserId)) := by
  set conv := strip conversationId
  set old := strip oldUserId
  set new := strip newUserId
  have hnew : old ≠ new := by
    rintro heq
    simp [handsOff, heq] at hands
  have hfree : ¬ (s.planned conv old).any fun i =>
      (s.files.get? (destOf conv new i.2.path)).isSome := by
    intro hany
    obtain ⟨⟨k, e⟩, hi, hdest⟩ := List.any_eq_true.mp hany
    obtain ⟨he, hdeparts, -⟩ := h.mem_planned.mp hi
    rw [departs, Bool.and_eq_true, decide_eq_true_eq, decide_eq_true_eq] at hdeparts
    obtain ⟨bytes, hbytes⟩ := Option.isSome_iff_exists.mp hdest
    obtain ⟨hid, howner, -⟩ := h.entry k e he
    have hpath := h.only _ bytes e hbytes (by rw [← he]; exact congrArg _ hid)
    have hsame : new = e.path.dir.owner := congrArg (fun p => p.dir.owner) hpath
    exact hnew (by rw [hsame, howner, hdeparts.2])
  have hnodup : ((s.planned conv old).map Prod.fst).Nodup :=
    h.keys.sublist (List.filter_sublist.map _)
  obtain ⟨hshelved, hmoved, hstays, hsame, hfiles⟩ :=
    @Shelved.foldl_moveFile conv new _ _ h hnodup fun i hi => by
      obtain ⟨hget, hdeparts, hbytes⟩ := h.mem_planned.mp hi
      rw [departs, Bool.and_eq_true, decide_eq_true_eq] at hdeparts
      exact ⟨hget, hdeparts.1, hbytes⟩
  refine ⟨{ (s.planned conv old).foldl (State.moveFile conv new) s with
      conversationOwners := ((s.planned conv old).foldl (State.moveFile conv new)
        s).conversationOwners.set conv new }, ?_, ?_, ⟨fun i => ?_, hsame, hfiles⟩⟩
  · unfold State.reassign
    dsimp only
    rw [if_pos hands, if_neg hfree]
  · exact ⟨hshelved.keys, hshelved.entry, hshelved.only⟩
  · dsimp only
    have hkeys : ∀ e, s.entries.get? i = some e →
        ¬ (departs conv old e ∧ (s.files.get? e.path).isSome) →
        i ∉ (s.planned conv old).map Prod.fst := by
      rintro e he hnot hi
      obtain ⟨j, hj, rfl⟩ := List.mem_map.mp hi
      obtain ⟨hget, hdeparts⟩ := h.mem_planned.mp hj
      rw [Option.some.inj (he.symm.trans hget)] at hnot
      exact hnot hdeparts
    cases he : s.entries.get? i with
    | none =>
      refine (hstays i fun hi => ?_).trans he
      obtain ⟨j, hj, rfl⟩ := List.mem_map.mp hi
      rw [(h.mem_planned.mp hj).1] at he
      cases he
    | some e =>
      rw [Option.map_some, passed, handedOver]
      by_cases hbytes : (s.files.get? e.path).isSome
      · rw [if_pos hbytes]
        by_cases hdeparts : departs conv old e
        · rw [if_pos hdeparts]
          exact hmoved (i, e) (h.mem_planned.mpr ⟨he, hdeparts, hbytes⟩)
        · rw [if_neg hdeparts]
          exact (hstays i (hkeys e he fun hand => hdeparts hand.1)).trans he
      · rw [if_neg hbytes]
        exact (hstays i (hkeys e he fun hand => hbytes hand.2)).trans he

/-! ## There and back -/

def numbered (p : FilePath) : Bool := !p.dir.bucket.isEmpty && p.dir.bucket.all Char.isDigit

theorem destOf_destOf (p : FilePath) :
    destOf conversationId oldUserId (destOf conversationId newUserId p) =
      destOf conversationId oldUserId p := by
  unfold destOf
  dsimp only
  split_ifs <;> rfl

theorem destOf_eq_self_iff {p : FilePath} (howner : p.dir.owner = oldUserId)
    (hconv : p.dir.conversation = conversationId) :
    destOf conversationId oldUserId p = p ↔ numbered p := by
  subst howner hconv
  unfold destOf numbered
  constructor
  · intro heq
    have hbucket := congrArg (fun p => p.dir.bucket) heq
    dsimp only at hbucket
    split_ifs at hbucket with hnumbered
    · exact hnumbered
    · rw [← hbucket, String.all_bool_eq]
      decide
  · intro hnumbered
    rw [if_pos hnumbered]

/-- An entry is the same there and back unless it was the other user's, or lay in an odd bucket. -/
theorem handedOver_handedOver (hne : oldUserId ≠ newUserId) (howner : e.path.dir.owner = e.userId)
    (hconv : e.path.dir.conversation = e.conversationId) :
    handedOver conversationId newUserId oldUserId
        (handedOver conversationId oldUserId newUserId e) = e ↔
      ¬ departs conversationId newUserId e ∧
        (departs conversationId oldUserId e → numbered e.path) := by
  by_cases hold : departs conversationId oldUserId e
  · have hdeparts := hold
    rw [departs, Bool.and_eq_true, decide_eq_true_eq, decide_eq_true_eq] at hdeparts
    obtain ⟨rfl, rfl⟩ := hdeparts
    have hback : departs e.conversationId newUserId { e with
        userId := newUserId, path := destOf e.conversationId newUserId e.path } := by
      simp [departs]
    have hnew : ¬ departs e.conversationId newUserId e := by
      simp [departs, hne]
    rw [handedOver, handedOver, if_pos hold, if_pos hback]
    dsimp only
    rw [destOf_destOf]
    constructor
    · intro heq
      exact ⟨hnew, fun _ => (destOf_eq_self_iff howner hconv).mp (congrArg Entry.path heq)⟩
    · rintro ⟨-, hnumbered⟩
      rw [(destOf_eq_self_iff howner hconv).mpr (hnumbered hold)]
  · have hsame : handedOver conversationId oldUserId newUserId e = e := if_neg hold
    rw [hsame, handedOver]
    split_ifs with hnew
    · constructor
      · intro heq
        have huser : e.userId = newUserId := by
          rw [departs, Bool.and_eq_true, decide_eq_true_eq, decide_eq_true_eq] at hnew
          exact hnew.2
        exact absurd ((congrArg Entry.userId heq).trans huser) hne
      · rintro ⟨hnot, -⟩
        exact absurd hnew hnot
    · exact ⟨fun _ => ⟨hnew, fun h => absurd h hold⟩, fun _ => rfl⟩

theorem Shelved.get?_files (h : Shelved s) {p : FilePath} (he : s.entries.get? p.fileId = some e) :
    s.files.get? p = if p = e.path then s.bytesOf p.fileId else none := by
  split_ifs with hp
  · rw [bytesOf_of_get? he, ← hp]
  · cases hget : s.files.get? p with
    | none => rfl
    | some bytes => exact absurd (h.only p bytes e hget he) hp

theorem Reshelves.bytes_path (h : Reshelves s t f) (he : s.entries.get? i = some e) :
    t.files.get? (f e).path = s.files.get? e.path := by
  have hget : t.entries.get? i = some (f e) := by rw [h.entries, he, Option.map_some]
  rw [← bytesOf_of_get? hget, h.bytes, bytesOf_of_get? he]

theorem Reshelves.sameFiles {u : State} (hs : Shelved s) (hu : Shelved u)
    (hthere : Reshelves s t f) (hback : Reshelves t u g)
    (hsame : ∀ i e, s.entries.get? i = some e → g (f e) = e) : SameFiles s u := by
  have hentries : ∀ i, u.entries.get? i = s.entries.get? i := by
    intro i
    rw [hback.entries, hthere.entries]
    cases he : s.entries.get? i with
    | none => rfl
    | some e => rw [Option.map_some, Option.map_some, hsame i e he]
  refine ⟨hentries, fun p => ?_⟩
  cases he : s.entries.get? p.fileId with
  | none =>
    have hnone : t.entries.get? p.fileId = none := by rw [hthere.entries, he, Option.map_none]
    rw [hback.rest p hnone, hthere.rest p he]
  | some e =>
    rw [hs.get?_files he, hu.get?_files ((hentries _).trans he), hback.bytes, hthere.bytes]

/-- The files are as before a handoff and the handoff back exactly when the new owner had none of
the conversation and those of the old one lay in numbered buckets. -/
theorem sameFiles_iff {u : State} (hs : Shelved s) (hu : Shelved u) (hne : oldUserId ≠ newUserId)
    (hthere : Reshelves s t (s.passed conversationId oldUserId newUserId))
    (hback : Reshelves t u (t.passed conversationId newUserId oldUserId)) :
    SameFiles s u ↔ s.planned conversationId newUserId = [] ∧
      ∀ i ∈ s.planned conversationId oldUserId, numbered i.2.path := by
  -- An entry with bytes goes there and back.
  have hround : ∀ i e, s.entries.get? i = some e →
      t.passed conversationId newUserId oldUserId (s.passed conversationId oldUserId newUserId e) =
        if (s.files.get? e.path).isSome then handedOver conversationId newUserId oldUserId
          (handedOver conversationId oldUserId newUserId e) else e := by
    intro i e he
    rw [passed, hthere.bytes_path he]
    unfold passed
    split_ifs <;> rfl
  constructor
  · intro hsame
    have hfix : ∀ i e, s.entries.get? i = some e → (s.files.get? e.path).isSome →
        ¬ departs conversationId newUserId e ∧
          (departs conversationId oldUserId e → numbered e.path) := by
      intro i e he hbytes
      obtain ⟨-, howner, hconv⟩ := hs.entry i e he
      have hget := hsame.entries i
      rw [hback.entries, hthere.entries, he, Option.map_some, Option.map_some, Option.some.injEq,
        hround i e he, if_pos hbytes] at hget
      exact (handedOver_handedOver hne howner hconv).mp hget
    constructor
    · refine List.eq_nil_iff_forall_not_mem.mpr fun i hi => ?_
      obtain ⟨he, hdeparts, hbytes⟩ := hs.mem_planned.mp hi
      exact (hfix i.1 i.2 he hbytes).1 hdeparts
    · intro i hi
      obtain ⟨he, hdeparts, hbytes⟩ := hs.mem_planned.mp hi
      exact (hfix i.1 i.2 he hbytes).2 hdeparts
  · rintro ⟨hnone, hnumbered⟩
    refine hthere.sameFiles hs hu hback fun i e he => ?_
    rw [hround i e he]
    split_ifs with hbytes
    · obtain ⟨-, howner, hconv⟩ := hs.entry i e he
      refine (handedOver_handedOver hne howner hconv).mpr ⟨fun hdeparts => ?_, fun hdeparts => ?_⟩
      · have hmem : (i, e) ∈ s.planned conversationId newUserId :=
          hs.mem_planned.mpr ⟨he, hdeparts, hbytes⟩
        rw [hnone] at hmem
        cases hmem
      · exact hnumbered (i, e) (hs.mem_planned.mpr ⟨he, hdeparts, hbytes⟩)
    · rfl

theorem planned_of_reshelves (ht : Shelved t) (hne : oldUserId ≠ newUserId)
    (h : Reshelves s t (s.passed conversationId oldUserId newUserId)) :
    t.planned conversationId oldUserId = [] := by
  refine List.eq_nil_iff_forall_not_mem.mpr fun i hi => ?_
  obtain ⟨hget, hdeparts, hbytes⟩ := ht.mem_planned.mp hi
  rw [h.entries] at hget
  obtain ⟨e, he, hpassed⟩ := Option.map_eq_some_iff.mp hget
  rw [← hpassed, h.bytes_path he] at hbytes
  rw [← hpassed, passed, if_pos hbytes, handedOver] at hdeparts
  split_ifs at hdeparts with hleft
  · simp [departs, Ne.symm hne] at hdeparts
  · exact hleft hdeparts

end PawFlow.FileStore.State
