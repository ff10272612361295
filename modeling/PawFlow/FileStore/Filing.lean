import PawFlow.FileStore.Store
import PawFlow.Lib.Runs

/-!
# Entries and bytes

Between two steps every entry has its bytes at its path, and every file on disk is that of an entry
or of a call that is about to register it.
-/

namespace PawFlow.FileStore

open PawFlow.Lib

namespace State

/-- What is on disk and in the index fits together. -/
structure Filed (s : State) : Prop where
  keys : (s.entries.map Prod.fst).Nodup
  entry : ∀ i e, s.entries.get? i = some e → e.path.fileId = i ∧ e.path.dir.owner = e.userId ∧
    e.path.dir.conversation = e.conversationId ∧ ∃ c : Call, s.calls[i]? = some c ∧
      c.phase = .stored ∧ e.conversationId = c.upload.conversationId ∧ s.files.get? e.path = some c.upload.content
  reserved : ∀ (i : FileId) (c : Call) (dir : Dir), s.calls[i]? = some c → c.phase = .reserved dir →
    dir.conversation = c.upload.conversationId
  written : ∀ (i : FileId) (c : Call) (dir : Dir), s.calls[i]? = some c → c.phase = .written dir →
    dir.conversation = c.upload.conversationId ∧
      s.files.get? (c.path i dir) = some c.upload.content
  files : ∀ p bytes, s.files.get? p = some bytes →
    (∃ e, s.entries.get? p.fileId = some e ∧ e.path = p) ∨
      ∃ (c : Call) (dir : Dir), s.calls[p.fileId]? = some c ∧ c.phase = .written dir ∧
        p = c.path p.fileId dir
  dirs : ∀ p bytes, s.files.get? p = some bytes → p.dir ∈ s.dirs

variable {s t : State} {i k : FileId} {c c' : Call}

theorem getElem?_setPhase {phase : Phase} : (s.setPhase i phase)[k]? = some c' ↔
    ∃ c, s.calls[k]? = some c ∧ c' = if k = i then { c with phase } else c := by
  unfold setPhase
  rw [List.getElem?_modify]
  constructor
  · intro h
    obtain ⟨c, hc, rfl⟩ := Option.map_eq_some_iff.mp h
    refine ⟨c, hc, ?_⟩
    by_cases hk : k = i
    · rw [if_pos hk, if_pos hk.symm]
    · rw [if_neg hk, if_neg (Ne.symm hk)]
  · rintro ⟨c, hc, rfl⟩
    rw [hc]
    by_cases hk : k = i
    · rw [if_pos hk]
      simp [hk]
    · rw [if_neg hk]
      simp [Ne.symm hk]

variable {dir : Dir}

theorem mem_mkdir {d : Dir} : d ∈ s.mkdir dir ↔ d ∈ s.dirs ∨ d = dir := by
  unfold mkdir
  split_ifs with h
  · refine ⟨.inl, fun hd => hd.elim id fun heq => heq ▸ h⟩
  · rw [List.mem_append, List.mem_singleton]

/-! ## The steps of `store` -/

variable {calls : List Call} {safeName : String} {upload : Upload} {bytes : Bytes} {dirs : List Dir}
  {files : PyDict FilePath Bytes}

theorem getElem?_concat {k : Nat} :
    (calls ++ [c'])[k]? = some c ↔ calls[k]? = some c ∨ k = calls.length ∧ c = c' := by
  rw [List.getElem?_append]
  split_ifs with hk
  · exact (or_iff_left fun h => absurd h.1 hk.ne).symm
  · rw [List.getElem?_eq_none (not_lt.mp hk), List.getElem?_singleton]
    by_cases hlen : k = calls.length
    · simp [hlen, eq_comm]
    · obtain ⟨n, hn⟩ : ∃ n, k - calls.length = n + 1 := ⟨k - calls.length - 1, by omega⟩
      simp [hn, hlen]

theorem start_eq (hs : s.start safeName upload = some t) :
    ∃ c : Call, c.upload = upload ∧ c.wipes = s.wipeCount upload.conversationId ∧
      c.phase = .counted ∧ t = { s with calls := s.calls ++ [c] } := by
  unfold State.start at hs
  split_ifs at hs
  exact ⟨_, rfl, rfl, rfl, (Option.some.inj hs).symm⟩

theorem Filed.start (h : Filed s)
    (hs : s.start safeName upload = some t) : Filed t := by
  obtain ⟨c₀, -, -, hcounted, rfl⟩ := start_eq hs
  refine ⟨h.keys, fun i e he => ?_, fun i c dir hc hphase => ?_, fun i c dir hc hphase => ?_,
    fun p bytes hp => ?_, h.dirs⟩
  · obtain ⟨hid, howner, hconv, c, hc, hrest⟩ := h.entry i e he
    exact ⟨hid, howner, hconv, c, getElem?_concat.mpr (.inl hc), hrest⟩
  · rcases getElem?_concat.mp hc with hc | ⟨-, rfl⟩
    · exact h.reserved i c dir hc hphase
    · rw [hcounted] at hphase
      cases hphase
  · rcases getElem?_concat.mp hc with hc | ⟨-, rfl⟩
    · exact h.written i c dir hc hphase
    · rw [hcounted] at hphase
      cases hphase
  · rcases h.files p bytes hp with hentry | ⟨c, dir, hc, hrest⟩
    · exact .inl hentry
    · exact .inr ⟨c, dir, getElem?_concat.mpr (.inl hc), hrest⟩

theorem ne_of_phase (hc : s.calls[i]? = some c) (hk : s.calls[k]? = some c')
    (hne : c'.phase ≠ c.phase) : k ≠ i := by
  rintro rfl
  obtain rfl := Option.some.inj (hc.symm.trans hk)
  exact hne rfl

theorem getElem?_setPhase_of_ne {phase : Phase} (hne : k ≠ i) (hk : s.calls[k]? = some c) :
    (s.setPhase i phase)[k]? = some c :=
  getElem?_setPhase.mpr ⟨c, hk, by rw [if_neg hne]⟩

theorem getElem?_setPhase_self {phase : Phase} (hc : s.calls[i]? = some c) :
    (s.setPhase i phase)[i]? = some { c with phase } :=
  getElem?_setPhase.mpr ⟨c, hc, by rw [if_pos rfl]⟩

variable {e : Entry}

theorem Filed.path_ne (h : Filed s) (hc : s.calls[i]? = some c) (hphase : c.phase ≠ .stored)
    (he : s.entries.get? k = some e) : k ≠ i ∧ e.path.fileId ≠ i := by
  obtain ⟨hid, -, -, c', hc', hstored, -⟩ := h.entry k e he
  have hne : k ≠ i := ne_of_phase hc hc' (by rw [hstored]; exact Ne.symm hphase)
  exact ⟨hne, hid ▸ hne⟩

variable {p : FilePath}

theorem path_ne_of_id (h : p.fileId ≠ i) : p ≠ c.path i dir := by
  rintro rfl
  exact h rfl

theorem Filed.own_file (h : Filed s) (hc : s.calls[i]? = some c) (hstored : c.phase ≠ .stored)
    (hid : p.fileId = i) (hp : s.files.get? p = some bytes) :
    ∃ dir, c.phase = .written dir ∧ p = c.path i dir := by
  subst hid
  rcases h.files p bytes hp with ⟨e, he, -⟩ | ⟨c', dir, hc', hrest⟩
  · exact absurd rfl (h.path_ne hc hstored he).1
  · obtain rfl := Option.some.inj (hc.symm.trans hc')
    exact ⟨dir, hrest⟩

/-- A call goes on and changes no file but its own. -/
theorem Filed.change (h : Filed s) (hc : s.calls[i]? = some c) (hstored : c.phase ≠ .stored)
    {phase : Phase}
    (hget : ∀ p, p.fileId ≠ i → files.get? p = s.files.get? p)
    (hreserved : ∀ dir, phase = .reserved dir → dir.conversation = c.upload.conversationId)
    (hwritten : ∀ dir, phase = .written dir → dir.conversation = c.upload.conversationId ∧
      files.get? (c.path i dir) = some c.upload.content)
    (hself : ∀ p bytes, p.fileId = i → files.get? p = some bytes →
      ∃ dir, phase = .written dir ∧ p = c.path i dir)
    (hdirs : ∀ p bytes, files.get? p = some bytes → p.dir ∈ dirs) :
    Filed { s with files, dirs, calls := s.setPhase i phase } := by
  refine ⟨h.keys, fun k e he => ?_, fun k c' dir hc' hphase => ?_, fun k c' dir hc' hphase => ?_,
    fun p bytes hp => ?_, hdirs⟩
  · obtain ⟨hne, hpath⟩ := h.path_ne hc hstored he
    obtain ⟨hid, howner, hconv, c', hc', hphase', hconv', hbytes⟩ := h.entry k e he
    exact ⟨hid, howner, hconv, c', getElem?_setPhase_of_ne hne hc', hphase', hconv',
      (hget _ hpath).trans hbytes⟩
  · obtain ⟨c₀, hc₀, rfl⟩ := getElem?_setPhase.mp hc'
    split_ifs at hphase ⊢ with hk
    · subst hk
      obtain rfl := Option.some.inj (hc.symm.trans hc₀)
      exact hreserved dir hphase
    · exact h.reserved k c₀ dir hc₀ hphase
  · obtain ⟨c₀, hc₀, rfl⟩ := getElem?_setPhase.mp hc'
    split_ifs at hphase ⊢ with hk
    · subst hk
      obtain rfl := Option.some.inj (hc.symm.trans hc₀)
      exact hwritten dir hphase
    · obtain ⟨hconv, hbytes⟩ := h.written k c₀ dir hc₀ hphase
      exact ⟨hconv, (hget _ hk).trans hbytes⟩
  · by_cases hid : p.fileId = i
    · obtain ⟨dir, hphase, hpath⟩ := hself p bytes hid hp
      subst hid
      exact .inr ⟨_, dir, getElem?_setPhase_self hc, hphase, hpath⟩
    · rcases h.files p bytes ((hget p hid).symm.trans hp) with hentry | ⟨c', dir, hc', hrest⟩
      · exact .inl hentry
      · exact .inr ⟨c', dir, getElem?_setPhase_of_ne hid hc', hrest⟩

/-- A call goes on, and neither its file nor its entry are concerned. -/
theorem Filed.phase (h : Filed s) (hc : s.calls[i]? = some c) {phase : Phase}
    (hstored : c.phase ≠ .stored) (hwritten : ∀ dir, c.phase ≠ .written dir)
    (hreserved : ∀ dir, phase = .reserved dir → dir.conversation = c.upload.conversationId)
    (hnot : ∀ dir, phase ≠ .written dir) (hdirs : ∀ d ∈ s.dirs, d ∈ dirs) :
    Filed { s with calls := s.setPhase i phase, dirs } := by
  refine h.change hc hstored (fun _ _ => rfl) hreserved (fun dir heq => absurd heq (hnot dir))
    (fun p bytes hid hp => ?_) fun p bytes hp => hdirs _ (h.dirs p bytes hp)
  obtain ⟨dir, hphase, -⟩ := h.own_file hc hstored hid hp
  exact absurd hphase (hwritten dir)

theorem Filed.reserve (h : Filed s) (hs : s.reserve i = some t) : Filed t := by
  unfold State.reserve at hs
  split at hs
  · cases hs
  · next c hc =>
    split_ifs at hs with hphase
    obtain rfl := Option.some.inj hs
    refine h.phase hc (by rw [hphase]; exact Phase.noConfusion) (fun dir => by rw [hphase]; exact Phase.noConfusion) ?_
      (fun dir => Phase.noConfusion) (fun d hd => mem_mkdir.mpr (.inl hd))
    intro dir hdir
    rw [← Phase.reserved.inj hdir]

theorem Filed.wrote (h : Filed s) (hc : s.calls[i]? = some c)
    (hphase : c.phase = .reserved dir) (hdir : dir ∈ s.dirs) :
    Filed { s with
      files := s.files.set (c.path i dir) c.upload.content
      calls := s.setPhase i (.written dir) } := by
  have hstored : c.phase ≠ .stored := by rw [hphase]; exact Phase.noConfusion
  refine h.change hc hstored (fun p hp => PyDict.get?_set_of_ne _ _ (path_ne_of_id hp))
    (fun dir' => Phase.noConfusion) (fun dir' heq => ?_) (fun p bytes hid hp => ?_)
    fun p bytes hp => ?_
  · obtain rfl := Phase.written.inj heq
    exact ⟨h.reserved i c dir hc hphase, PyDict.get?_set_self _ _ _⟩
  · refine ⟨dir, rfl, by_contra fun hpath => ?_⟩
    rw [PyDict.get?_set_of_ne _ _ hpath] at hp
    obtain ⟨dir', hwritten, -⟩ := h.own_file hc hstored hid hp
    exact Phase.noConfusion (hphase.symm.trans hwritten)
  · by_cases hpath : p = c.path i dir
    · rw [hpath]
      exact hdir
    · exact h.dirs p bytes ((PyDict.get?_set_of_ne _ _ hpath).symm.trans hp)

theorem Filed.write (h : Filed s) (hs : s.write i = some t) : Filed t := by
  unfold State.write at hs
  split at hs
  · cases hs
  · next c hc =>
    split at hs
    · next dir hphase =>
      have hfails : ∀ phase : Phase, (∀ dir, phase ≠ .reserved dir) → (∀ dir, phase ≠ .written dir) →
          Filed { s with calls := s.setPhase i phase } := fun phase hreserved hwritten =>
        h.phase hc (by rw [hphase]; exact Phase.noConfusion)
          (fun dir => by rw [hphase]; exact Phase.noConfusion)
          (fun dir heq => absurd heq (hreserved dir)) hwritten fun d hd => hd
      split_ifs at hs with hdir hwipes
      · exact Option.some.inj hs ▸ h.wrote hc hphase hdir
      · exact Option.some.inj hs ▸ hfails _ (fun _ => Phase.noConfusion) fun _ => Phase.noConfusion
      · exact Option.some.inj hs ▸ hfails _ (fun _ => Phase.noConfusion) fun _ => Phase.noConfusion
    · cases hs

theorem Filed.abandon (h : Filed s) (hc : s.calls[i]? = some c) (hphase : c.phase = .written dir) :
    Filed { s with files := s.files.erase (c.path i dir), calls := s.setPhase i .discarded } := by
  have hstored : c.phase ≠ .stored := by rw [hphase]; exact Phase.noConfusion
  have hback : ∀ {p bytes}, (s.files.erase (c.path i dir)).get? p = some bytes →
      p ≠ c.path i dir ∧ s.files.get? p = some bytes := by
    intro p bytes hp
    rw [PyDict.get?_erase] at hp
    split_ifs at hp with hne
    exact ⟨hne, hp⟩
  refine h.change hc hstored (fun p hp => ?_) (fun dir' => Phase.noConfusion)
    (fun dir' => Phase.noConfusion) (fun p bytes hid hp => ?_) fun p bytes hp =>
      h.dirs p bytes (hback hp).2
  · rw [PyDict.get?_erase, if_neg (path_ne_of_id hp)]
  · obtain ⟨hne, hp⟩ := hback hp
    obtain ⟨dir', hphase', hpath⟩ := h.own_file hc hstored hid hp
    obtain rfl := Phase.written.inj (hphase.symm.trans hphase')
    exact absurd hpath hne

/-- The file of call `i` is at `dest` now, and nowhere else. -/
structure Relocates (files files' : PyDict FilePath Bytes) (dest : FilePath) (content : Bytes) :
    Prop where
  others : ∀ p, p.fileId ≠ dest.fileId → files'.get? p = files.get? p
  here : files'.get? dest = some content
  only : ∀ p bytes, p.fileId = dest.fileId → files'.get? p = some bytes → p = dest

theorem replace_relocates {src : FilePath} {content : Bytes}
    (dest : FilePath) (hsrc : files.get? src = some content) (hid : src.fileId = dest.fileId)
    (honly : ∀ p bytes, p.fileId = dest.fileId → files.get? p = some bytes → p = src) :
    ∃ files', replace files src dest = some files' ∧ Relocates files files' dest content := by
  refine ⟨(files.erase src).set dest content, ?_, fun p hp => ?_, PyDict.get?_set_self _ _ _,
    fun p bytes hp hget => ?_⟩
  · rw [replace, hsrc]
    rfl
  · have hsrc : p ≠ src := fun heq => hp (heq ▸ hid)
    rw [PyDict.get?_set_of_ne _ _ fun heq => hp (congrArg FilePath.fileId heq), PyDict.get?_erase,
      if_neg hsrc]
  · by_contra hne
    rw [PyDict.get?_set_of_ne _ _ hne, PyDict.get?_erase] at hget
    split_ifs at hget with heq
    exact heq (honly p bytes hp hget)

/-- The call is registered, or stays so, with its file at `c.path i dir`. -/
theorem Filed.place (h : Filed s)
    (hothers : ∀ k c', k ≠ i → (calls[k]? = some c' ↔ s.calls[k]? = some c'))
    (hself : calls[i]? = some { c with phase := .stored })
    (hpath : e.path.fileId = i) (hdir : e.path.dir = dir) (howner : dir.owner = e.userId)
    (hconv : dir.conversation = c.upload.conversationId)
    (hconv' : e.conversationId = c.upload.conversationId)
    (hfiles : Relocates s.files files e.path c.upload.content)
    (hdirs : ∀ d ∈ s.dirs, d ∈ dirs) (hdest : dir ∈ dirs) :
    Filed { s with entries := s.entries.set i e, files, dirs, calls } := by
  have hcalls : ∀ k c', calls[k]? = some c' → c'.phase ≠ .stored → k ≠ i := by
    rintro k c' hc' hne rfl
    rw [hself] at hc'
    exact hne (Option.some.inj hc' ▸ rfl)
  refine ⟨PyDict.nodup_keys_set _ h.keys, fun k e' he' => ?_, fun k c' dir' hc' hphase' => ?_,
    fun k c' dir' hc' hphase' => ?_, fun p bytes hp => ?_, fun p bytes hp => ?_⟩
  · by_cases hk : k = i
    · subst hk
      obtain rfl := Option.some.inj ((PyDict.get?_set_self _ _ _).symm.trans he')
      exact ⟨hpath, hdir ▸ howner, by rw [hdir, hconv, hconv'], _, hself, rfl, hconv', hfiles.here⟩
    · have he' : s.entries.get? k = some e' := (PyDict.get?_set_of_ne _ _ hk).symm.trans he'
      obtain ⟨hid, howner', hsame, c', hc', hrest, hconv'', hbytes⟩ := h.entry k e' he'
      refine ⟨hid, howner', hsame, c', (hothers k c' hk).mpr hc', hrest, hconv'', ?_⟩
      rw [hfiles.others _ (by rw [hid, hpath]; exact hk)]
      exact hbytes
  · have hk := hcalls k c' hc' (by rw [hphase']; exact Phase.noConfusion)
    exact h.reserved k c' dir' ((hothers k c' hk).mp hc') hphase'
  · have hk := hcalls k c' hc' (by rw [hphase']; exact Phase.noConfusion)
    obtain ⟨hsame, hbytes⟩ := h.written k c' dir' ((hothers k c' hk).mp hc') hphase'
    refine ⟨hsame, ?_⟩
    rw [hfiles.others _ (by rw [hpath]; exact hk)]
    exact hbytes
  · by_cases hid : p.fileId = e.path.fileId
    · obtain rfl := hfiles.only p bytes hid hp
      refine .inl ⟨e, ?_, rfl⟩
      rw [hpath]
      exact PyDict.get?_set_self _ _ _
    · have hk : p.fileId ≠ i := hpath ▸ hid
      rcases h.files p bytes ((hfiles.others p hid).symm.trans hp) with ⟨e', he', hp'⟩ | hcall
      · exact .inl ⟨e', (PyDict.get?_set_of_ne _ _ hk).trans he', hp'⟩
      · obtain ⟨c', dir', hc', hrest⟩ := hcall
        exact .inr ⟨c', dir', (hothers _ c' hk).mpr hc', hrest⟩
  · by_cases hid : p.fileId = e.path.fileId
    · obtain rfl := hfiles.only p bytes hid hp
      rw [hdir]
      exact hdest
    · exact hdirs _ (h.dirs p bytes ((hfiles.others p hid).symm.trans hp))

theorem Filed.only_written (h : Filed s) (hc : s.calls[i]? = some c)
    (hphase : c.phase = .written dir) (hp : p.fileId = i)
    (hget : s.files.get? p = some bytes) : p = c.path i dir := by
  subst hp
  rcases h.files p bytes hget with ⟨e, he, -⟩ | ⟨c', dir', hc', hphase', hp'⟩
  · exact absurd rfl (h.path_ne hc (by rw [hphase]; exact Phase.noConfusion) he).1
  · obtain rfl := Option.some.inj (hc.symm.trans hc')
    obtain rfl := Phase.written.inj (hphase.symm.trans hphase')
    exact hp'

theorem Filed.only_entry (h : Filed s) (he : s.entries.get? i = some e)
    (hp : p.fileId = i) (hget : s.files.get? p = some bytes) : p = e.path := by
  subst hp
  rcases h.files p bytes hget with ⟨e', he', hp'⟩ | ⟨c', dir', hc', hphase', -⟩
  · obtain rfl := Option.some.inj (he.symm.trans he')
    exact hp'.symm
  · exact absurd rfl (h.path_ne hc' (by rw [hphase']; exact Phase.noConfusion) he).1

theorem setPhase_others {phase : Phase} (k : FileId) (c' : Call) (hk : k ≠ i) :
    (s.setPhase i phase)[k]? = some c' ↔ s.calls[k]? = some c' := by
  rw [getElem?_setPhase]
  constructor
  · rintro ⟨c₀, hc₀, rfl⟩
    rwa [if_neg hk]
  · exact fun hc' => ⟨c', hc', by rw [if_neg hk]⟩

theorem Filed.register (h : Filed s) {now : Int} (hs : s.register i now = some t) : Filed t := by
  unfold State.register at hs
  split at hs
  · cases hs
  · next c hc =>
    split at hs
    · next dir hphase =>
      obtain ⟨hconv, hbytes⟩ := h.written i c dir hc hphase
      dsimp only at hs
      split_ifs at hs with hwiped hsame
      · exact Option.some.inj hs ▸ h.abandon hc hphase
      · obtain rfl := Option.some.inj hs
        have hfiles : Relocates s.files s.files (c.path i dir) c.upload.content :=
          ⟨fun _ _ => rfl, hbytes, fun p bytes hp hget => h.only_written hc hphase hp hget⟩
        exact h.place setPhase_others (getElem?_setPhase_self hc) rfl rfl hsame.symm hconv rfl
          hfiles (fun d hd => hd) (h.dirs _ _ hbytes)
      · obtain ⟨files, hreplace, hfiles⟩ := replace_relocates
          (c.path i ⟨s.ownerOf c.upload.conversationId dir.owner, c.upload.conversationId,
            dir.bucket⟩) hbytes rfl fun p bytes hp hget => h.only_written hc hphase hp hget
        rw [hreplace] at hs
        obtain rfl := Option.some.inj hs
        exact h.place setPhase_others (getElem?_setPhase_self hc) rfl rfl rfl rfl rfl hfiles
          (fun d hd => mem_mkdir.mpr (.inl hd)) (mem_mkdir.mpr (.inr rfl))
    · cases hs

/-! ## Deleting and moving entries -/

theorem Filed.deleteEntry (h : Filed s) (fileId : FileId) : Filed (s.deleteEntry fileId) := by
  unfold State.deleteEntry
  split
  · exact h
  · next e he =>
    obtain ⟨hid, -, -, c, hc, hstored, -⟩ := h.entry fileId e he
    have hfile : ∀ {p bytes}, (s.files.erase e.path).get? p = some bytes →
        p ≠ e.path ∧ s.files.get? p = some bytes := by
      intro p bytes hp
      rw [PyDict.get?_erase] at hp
      split_ifs at hp with hne
      exact ⟨hne, hp⟩
    have hkeep : ∀ {p : FilePath}, p.fileId ≠ fileId →
        (s.files.erase e.path).get? p = s.files.get? p := by
      intro p hp
      rw [PyDict.get?_erase, if_neg]
      rintro rfl
      exact hp hid
    refine ⟨?_, fun k e' he' => ?_, h.reserved, fun k c' dir hc' hphase => ?_,
      fun p bytes hp => ?_, fun p bytes hp => ?_⟩
    · exact h.keys.sublist (List.filter_sublist.map _)
    · rw [PyDict.get?_erase] at he'
      split_ifs at he' with hk
      obtain ⟨hid', howner, hconv, c', hc', hrest, hconv', hbytes⟩ := h.entry k e' he'
      exact ⟨hid', howner, hconv, c', hc', hrest, hconv', (hkeep (hid' ▸ hk)).trans hbytes⟩
    · obtain ⟨hconv, hbytes⟩ := h.written k c' dir hc' hphase
      have hk : k ≠ fileId := ne_of_phase hc hc' (by rw [hphase, hstored]; exact Phase.noConfusion)
      exact ⟨hconv, (hkeep hk).trans hbytes⟩
    · obtain ⟨hne, hp⟩ := hfile hp
      rcases h.files p bytes hp with ⟨e', he', hp'⟩ | hcall
      · refine .inl ⟨e', ?_, hp'⟩
        rw [PyDict.get?_erase, if_neg]
        · exact he'
        · intro heq
          rw [heq] at he'
          obtain rfl := Option.some.inj (he.symm.trans he')
          exact hne hp'.symm
      · exact .inr hcall
    · obtain ⟨-, hold⟩ := hfile hp
      dsimp only
      split_ifs with hany
      · exact h.dirs p bytes hold
      · rw [List.mem_filter, decide_eq_true_eq]
        refine ⟨h.dirs p bytes hold, fun heq => hany ?_⟩
        exact List.any_eq_true.mpr ⟨(p, bytes), PyDict.mem_of_get? hp, decide_eq_true heq⟩

theorem Filed.deletion (h : Filed s) {j : Nat} (hs : s.deletion j = some t) : Filed t := by
  unfold State.deletion at hs
  split at hs
  · cases hs
  · next d hd =>
    split at hs
    · cases hs
    · next fileId rest hrest =>
      obtain rfl := Option.some.inj hs
      have hdeleted := h.deleteEntry fileId
      exact ⟨hdeleted.keys, hdeleted.entry, hdeleted.reserved, hdeleted.written,
        hdeleted.files, hdeleted.dirs⟩

def handedOver (conversationId oldUserId newUserId : String) (e : Entry) : Entry :=
  if departs conversationId oldUserId e then
    { e with userId := newUserId, path := destOf conversationId newUserId e.path }
  else e

variable {conversationId oldUserId newUserId : String}

theorem Filed.moveFile (h : Filed s) (he : s.entries.get? i = some e)
    (hconv : e.conversationId = conversationId) :
    Filed (s.moveFile conversationId newUserId (i, e)) := by
  obtain ⟨hid, -, -, c, hc, hstored, hconv', hbytes⟩ := h.entry i e he
  obtain ⟨files, hreplace, hfiles⟩ := replace_relocates
    (destOf conversationId newUserId e.path) hbytes rfl fun p bytes hp hget =>
      h.only_entry he (hp.trans hid) hget
  have hself : s.calls[i]? = some { c with phase := .stored } := by
    rw [hc, ← hstored]
  have hplaced := h.place (fun _ _ _ => Iff.rfl) hself
    (e := { e with userId := newUserId, path := destOf conversationId newUserId e.path })
    hid rfl rfl (hconv.symm.trans hconv') hconv' hfiles
    (fun d hd => mem_mkdir.mpr (.inl hd)) (mem_mkdir.mpr (.inr rfl))
  unfold State.moveFile
  dsimp only
  rw [hreplace]
  exact hplaced

theorem Filed.foldl_moveFile (newUserId : String) : ∀ {items : List (FileId × Entry)} {s : State}, Filed s →
    (items.map Prod.fst).Nodup →
    (∀ i ∈ items, s.entries.get? i.1 = some i.2 ∧ departs conversationId oldUserId i.2) →
    let t := items.foldl (State.moveFile conversationId newUserId) s
    Filed t ∧ (∃ entries files dirs, t = { s with entries, files, dirs }) ∧
      (∀ i ∈ items, t.entries.get? i.1 =
        some (handedOver conversationId oldUserId newUserId i.2)) ∧
      ∀ k, k ∉ items.map Prod.fst → t.entries.get? k = s.entries.get? k
  | [], s, h, _, _ => ⟨h, ⟨_, _, _, rfl⟩, fun _ hi => absurd hi List.not_mem_nil, fun _ _ => rfl⟩
  | (k, e) :: items, s, h, hnodup, hitems => by
    obtain ⟨hk, hrest⟩ := List.nodup_cons.mp hnodup
    obtain ⟨he, hdeparts⟩ := hitems (k, e) List.mem_cons_self
    have hdeparts' := hdeparts
    rw [departs, Bool.and_eq_true, decide_eq_true_eq] at hdeparts'
    have hother : ∀ i, i ≠ k → (s.moveFile conversationId newUserId (k, e)).entries.get? i =
        s.entries.get? i := fun i hi => PyDict.get?_set_of_ne _ _ hi
    obtain ⟨hfiled, ⟨entries, files, dirs, heq⟩, hmoved, hsame⟩ := foldl_moveFile newUserId
      (h.moveFile he hdeparts'.1) hrest fun i hi => by
        obtain ⟨hget, hdep⟩ := hitems i (List.mem_cons_of_mem _ hi)
        exact ⟨(hother _ fun heq => hk (List.mem_map.mpr ⟨i, hi, heq⟩)).trans hget, hdep⟩
    refine ⟨hfiled, ⟨entries, files, dirs, heq⟩, fun i hi => ?_, fun i hi => ?_⟩
    · rcases List.mem_cons.mp hi with rfl | hi
      · refine (hsame k hk).trans ((PyDict.get?_set_self _ _ _).trans ?_)
        rw [handedOver, if_pos hdeparts]
      · exact hmoved i hi
    · rw [List.map_cons, List.mem_cons, not_or] at hi
      exact (hsame i hi.2).trans (hother i hi.1)

theorem Filed.mem_planned (h : Filed s) {i : FileId × Entry} :
    i ∈ s.planned conversationId oldUserId ↔
      s.entries.get? i.1 = some i.2 ∧ departs conversationId oldUserId i.2 := by
  rw [planned, List.mem_filter, Bool.and_eq_true]
  constructor
  · rintro ⟨hi, hdeparts, -⟩
    exact ⟨PyDict.get?_of_mem h.keys hi, hdeparts⟩
  · rintro ⟨hi, hdeparts⟩
    obtain ⟨-, -, -, c, -, -, -, hbytes⟩ := h.entry _ _ hi
    exact ⟨PyDict.mem_of_get? hi, hdeparts, Option.isSome_of_eq_some hbytes⟩

/-- A handoff never fails: no file lies where it moves one. -/
theorem Filed.reassign_eq (h : Filed s)
    (hands : handsOff (strip conversationId) (strip oldUserId) (strip newUserId)) :
    ∃ entries files dirs owners,
      s.reassign conversationId oldUserId newUserId =
        some { s with entries, files, dirs, conversationOwners := owners } ∧
      owners = s.conversationOwners.set (strip conversationId) (strip newUserId) ∧
      Filed { s with entries, files, dirs, conversationOwners := owners } ∧
      ∀ k, entries.get? k = (s.entries.get? k).map
        (handedOver (strip conversationId) (strip oldUserId) (strip newUserId)) := by
  have hfree : ¬ (s.planned (strip conversationId) (strip oldUserId)).any fun i =>
      (s.files.get? (destOf (strip conversationId) (strip newUserId) i.2.path)).isSome := by
    intro hany
    obtain ⟨⟨k, e⟩, hi, hdest⟩ := List.any_eq_true.mp hany
    obtain ⟨he, hdeparts⟩ := h.mem_planned.mp hi
    rw [departs, Bool.and_eq_true, decide_eq_true_eq, decide_eq_true_eq] at hdeparts
    obtain ⟨bytes, hbytes⟩ := Option.isSome_iff_exists.mp hdest
    obtain ⟨hid, howner, -⟩ := h.entry k e he
    have hpath := h.only_entry he (p := destOf _ _ e.path) hid hbytes
    have : strip newUserId = e.path.dir.owner := congrArg (fun p => p.dir.owner) hpath
    rw [howner, hdeparts.2] at this
    simp [handsOff, this] at hands
  have hnodup : ((s.planned (strip conversationId) (strip oldUserId)).map Prod.fst).Nodup :=
    h.keys.sublist (List.filter_sublist.map _)
  obtain ⟨hfiled, ⟨entries, files, dirs, heq⟩, hmoved, hsame⟩ :=
    h.foldl_moveFile (strip newUserId) hnodup fun i hi => h.mem_planned.mp hi
  rw [heq] at hfiled hmoved hsame
  refine ⟨entries, files, dirs, _, ?_, rfl, ?_, fun k => ?_⟩
  · unfold State.reassign
    dsimp only
    rw [if_pos hands, if_neg hfree, heq]
  · exact ⟨hfiled.keys, hfiled.entry, hfiled.reserved, hfiled.written, hfiled.files, hfiled.dirs⟩
  · cases he : s.entries.get? k with
    | none =>
      refine (hsame k fun hk => ?_).trans he
      obtain ⟨i, hi, rfl⟩ := List.mem_map.mp hk
      rw [(h.mem_planned.mp hi).1] at he
      cases he
    | some e =>
      by_cases hdeparts : departs (strip conversationId) (strip oldUserId) e
      · exact hmoved (k, e) (h.mem_planned.mpr ⟨he, hdeparts⟩)
      · rw [Option.map_some, handedOver, if_neg hdeparts]
        refine (hsame k fun hk => ?_).trans he
        obtain ⟨i, hi, rfl⟩ := List.mem_map.mp hk
        obtain ⟨hget, hdep⟩ := h.mem_planned.mp hi
        rw [Option.some.inj (he.symm.trans hget)] at hdeparts
        exact hdeparts hdep

/-! ## Every step -/

theorem Filed.of_eq (h : Filed s) (hentries : t.entries = s.entries) (hcalls : t.calls = s.calls)
    (hfiles : t.files = s.files) (hdirs : t.dirs = s.dirs) : Filed t := by
  cases t
  dsimp only at hentries hcalls hfiles hdirs
  subst hentries hcalls hfiles hdirs
  exact ⟨h.keys, h.entry, h.reserved, h.written, h.files, h.dirs⟩

theorem Filed.finish (h : Filed s) {j : Nat} (hs : s.finish j = some t) : Filed t := by
  unfold State.finish at hs
  split at hs
  · cases hs
  · next d hd =>
    split_ifs at hs
    split at hs
    · exact Option.some.inj hs ▸ h.of_eq rfl rfl rfl rfl
    · exact Option.some.inj hs ▸ h.of_eq rfl rfl rfl rfl

theorem Filed.step (h : Filed s) {a : Act} (hs : s.step a = some t) : Filed t := by
  cases a with
  | store upload => exact h.start hs
  | storeFile sourceName upload => exact h.start hs
  | reserve i => exact h.reserve hs
  | write i => exact h.write hs
  | register i now => exact h.register hs
  | delete fileId userId =>
    obtain rfl := Option.some.inj hs
    unfold State.delete
    split
    · exact h
    · split_ifs
      · exact h
      · exact h.of_eq rfl rfl rfl rfl
  | deleteBy category conversationId agentName =>
    obtain rfl := Option.some.inj hs
    unfold State.deleteBy
    dsimp only
    split_ifs
    · exact h.of_eq rfl rfl rfl rfl
    · exact h.of_eq rfl rfl rfl rfl
  | deletion j => exact h.deletion hs
  | finish j => exact h.finish hs
  | reassign conversationId oldUserId newUserId =>
    obtain rfl := Option.some.inj hs
    by_cases hands : handsOff (strip conversationId) (strip oldUserId) (strip newUserId)
    · obtain ⟨entries, files, dirs, owners, heq, -, hfiled, -⟩ := h.reassign_eq hands
      rw [heq]
      exact hfiled
    · unfold State.reassign
      dsimp only
      rw [if_neg hands]
      exact h

theorem filed_empty : Filed {} where
  keys := List.nodup_nil
  entry _ _ he := nomatch he
  reserved _ _ _ hc _ := nomatch hc
  written _ _ _ hc _ := nomatch hc
  files _ _ hp := nomatch hp
  dirs _ _ hp := nomatch hp

/-- In every interleaving the file of an entry is there with the bytes of its upload, under the
owner and the conversation of the entry, and a file whose call does not stand between the write and
the entry is that of its entry. -/
theorem index_agrees_with_disk (h : Reach State.step {} s) :
    (∀ i e, s.entries.get? i = some e → e.path.fileId = i ∧ e.path.dir.owner = e.userId ∧
      e.path.dir.conversation = e.conversationId ∧ ∃ c, s.calls[i]? = some c ∧
        e.conversationId = c.upload.conversationId ∧
        s.files.get? e.path = some c.upload.content) ∧
    ∀ p bytes, s.files.get? p = some bytes → p.dir ∈ s.dirs ∧
      ((∀ c, s.calls[p.fileId]? = some c → ∀ dir, c.phase ≠ .written dir) →
        ∃ e, s.entries.get? p.fileId = some e ∧ e.path = p) := by
  have hfiled : Filed s :=
    h.invariant Filed (fun t a u ht _ hstep => ht.step hstep) filed_empty
  refine ⟨fun i e he => ?_, fun p bytes hp => ⟨hfiled.dirs p bytes hp, fun hnot => ?_⟩⟩
  · obtain ⟨hid, howner, hconv, c, hc, -, hsame, hbytes⟩ := hfiled.entry i e he
    exact ⟨hid, howner, hconv, c, hc, hsame, hbytes⟩
  · rcases hfiled.files p bytes hp with hentry | ⟨c, dir, hc, hphase, -⟩
    · exact hentry
    · exact absurd hphase (hnot c hc dir)

/-- The first file is filed and handed over, the bytes of the second are written. -/
def handedOverRun : List Act :=
  let upload : Upload := {
    filename := "a.txt", content := [1], conversationId := "c", userId := "alice" }
  [.store upload, .reserve 0, .write 0, .register 0 0, .store upload, .reserve 1, .write 1,
    .reassign "c" "alice" "bob"]

theorem index_agrees_with_disk_handedOverRun :
    ∃ s : State, (s.entries.get? 0).map Entry.userId = some "bob" ∧ s.files.length = 2 ∧
      ∀ p bytes, s.files.get? p = some bytes → p.dir ∈ s.dirs := by
  obtain ⟨s, hs, howner, hlength⟩ : ∃ s, follow State.step (fun _ _ => True) {} handedOverRun =
      some s ∧
      (s.entries.get? 0).map Entry.userId = some "bob" ∧ s.files.length = 2 :=
    ⟨_, rfl, by decide +kernel, by decide +kernel⟩
  exact ⟨s, howner, hlength, fun p bytes hp =>
    ((index_agrees_with_disk (runs_of_follow hs)).2 p bytes hp).1⟩

end State

end PawFlow.FileStore
