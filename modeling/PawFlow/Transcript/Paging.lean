import PawFlow.Transcript.PageRows

/-!
# A transcript page by page

A reader asks for the last page, and then for the page before the first message it got, until it is
told that there are no more. Where the number of messages in the metadata is that of the display
rows, it gets every message once. Where that number lags behind, it is told too early that there are
no more.
-/

namespace PawFlow.Transcript

open PawFlow.Lib

/-! ## One page -/

theorem collected_page {before later newer : List Row} {pending : List String} {msgs : List Row}
    {need limit : Nat} (hfollow : UpdatesFollow (before ++ later))
    (hmsgs : displayed (before ++ later) = some msgs)
    (hnewer : ∀ row ∈ newer, Row.isTraceUpdate row)
    (hown : ∀ trace, ownUpdates trace newer = ownUpdates trace later)
    (hsettled : Settled pending newer) (hneed : 0 < need) (hlimit : 0 < limit)
    (total offset : Nat) :
    ∃ start ≤ displayCount before, (0 < displayCount before → start < displayCount before) ∧
      ((composeDisplayTraces ((collect need 0 pending before.reverse).reverse ++ newer)).bind
          fun msgs => cutPage msgs total limit offset msgs.length) =
        some ⟨(msgs.take (displayCount before)).drop start, total, offset, limit,
          decide (offset + (displayCount before - start) < total)⟩ := by
  obtain ⟨read, unread, hrows, hcollect, hstop⟩ :=
    @collect_eq need _ before.reverse 0 _ hsettled
  obtain rfl : before = unread.reverse ++ read.reverse := by
    rw [← List.reverse_append, ← hrows, List.reverse_reverse]
  have hstop' : unread.reverse = [] ∨ ∀ trace, Covered trace (read.reverse ++ newer) :=
    hstop.imp (fun h => by simp [h]) And.right
  have hchunk := compose_chunk hfollow hnewer hown hstop'
  rw [displayed_append, displayedBefore_append] at hmsgs
  obtain ⟨front, hfront, hmsgs⟩ := Option.bind_eq_some_iff.mp hmsgs
  obtain ⟨back, hback, hmsgs⟩ := Option.bind_eq_some_iff.mp hmsgs
  obtain ⟨older, holder, hfront⟩ := Option.bind_eq_some_iff.mp hfront
  obtain ⟨chunk, hchunk', hfront⟩ := Option.bind_eq_some_iff.mp hfront
  obtain rfl : older ++ chunk = front := Option.some.inj hfront
  obtain rfl : older ++ chunk ++ back = msgs := Option.some.inj hmsgs
  have holderLen := length_displayedBefore holder
  have hchunkLen := length_displayedBefore hchunk'
  rw [displayCount_reverse] at holderLen hchunkLen
  obtain ⟨start, hle, hlt, hpage⟩ := cutPage_eq chunk total offset hlimit
  refine ⟨older.length + start, ?_, ?_, ?_⟩
  · simp
    omega
  · intro hpos
    -- Where nothing is in the chunk, nothing is before it.
    have hchunkPos : 0 < chunk.length := by
      rcases hstop with rfl | ⟨henough, -⟩
      · simpa [hchunkLen] using hpos
      · omega
    have := hlt hchunkPos
    simp
    omega
  · rw [hcollect, ← List.filter_reverse, hchunk, hchunk', Option.bind_some, hpage]
    have htake : (older ++ chunk ++ back).take (displayCount (unread.reverse ++ read.reverse)) =
        older ++ chunk := by
      rw [List.take_left']
      simp [holderLen, hchunkLen]
    have hcount : displayCount (unread.reverse ++ read.reverse) = older.length + chunk.length := by
      simp [holderLen, hchunkLen]
    rw [htake, hcount, List.drop_append, Nat.add_sub_add_left]
    simp

variable {msgs : List Row}

variable {rows : List Row}

theorem readTail_eq {limit : Nat} (hfollow : UpdatesFollow rows)
    (hmsgs : displayed rows = some msgs) (hlimit : 0 < limit) (total : Nat) :
    ∃ start ≤ msgs.length, (0 < msgs.length → start < msgs.length) ∧
      readTail rows.reverse total limit 0 =
        some ⟨msgs.drop start, total, 0, limit, decide (msgs.length - start < total)⟩ := by
  have hlength := length_displayedBefore hmsgs
  have hsettled : Settled [] [] := fun _ _ before row after h => by simp at h
  obtain ⟨start, hle, hlt, hpage⟩ := @collected_page rows [] [] [] msgs (0 + limit + margin) limit
    (by simpa using hfollow) (by simpa using hmsgs) (by simp) (fun _ => rfl) hsettled
    (by unfold margin; omega) hlimit total 0
  rw [← hlength] at hle hlt hpage
  refine ⟨start, hle, hlt, ?_⟩
  simpa [readTail] using hpage

theorem readTailBeforeMsgId_eq {before after : List Row} {cursor : Row} {limit : Nat}
    {msgId : String} (hfollow : UpdatesFollow (before ++ cursor :: after))
    (hmsgs : displayed (before ++ cursor :: after) = some msgs)
    (hcursor : Row.isDisplay cursor) (hid : Segments.Row.hasMsgId msgId cursor)
    (hafter : ∀ row ∈ after, Row.isDisplay row → Segments.Row.hasMsgId msgId row = false)
    (hlimit : 0 < limit) (total : Nat) :
    ∃ start ≤ displayCount before, (0 < displayCount before → start < displayCount before) ∧
      readTailBeforeMsgId (before ++ cursor :: after).reverse total limit msgId =
        some (some ⟨(msgs.take (displayCount before)).drop start, total,
          displayCount after + 1, limit,
          decide (displayCount after + 1 + (displayCount before - start) < total)⟩) := by
  obtain ⟨newer, hseek, hkept⟩ := @seek_eq msgId cursor before.reverse hcursor hid after.reverse
    [] [] 0 Kept.nil (by simpa using hafter)
  rw [List.reverse_reverse, List.append_nil] at hkept
  have hneed : 0 < limit + margin := by omega
  obtain ⟨start, hle, hlt, hpage⟩ := collected_page hfollow hmsgs
    (fun row hrow => hkept.isTraceUpdate hrow) hkept.ownUpdates_newerRows hkept.settled hneed hlimit
    total (displayCount after + 1)
  refine ⟨start, hle, hlt, ?_⟩
  have hrows : (before ++ cursor :: after).reverse = after.reverse ++ cursor :: before.reverse := by
    simp
  rw [readTailBeforeMsgId, hrows, hseek]
  simp only [newerRows, ← List.reverse_append] at hpage
  simp only [displayCount_reverse, Nat.zero_add, Option.bind_eq_bind]
  rw [← Option.bind_assoc, hpage, Option.bind_some]

/-! ## Messages by their ids -/

/-- `row["msg_id"]`. -/
def Row.msgId (row : Row) : String :=
  match row.get? "msg_id" with
  | some (.str id) => id
  | _ => ""

def displayIds (rows : List Row) : List String := (rows.filter Row.isDisplay).map Row.msgId

theorem displayIds_append (rows rows' : List Row) :
    displayIds (rows ++ rows') = displayIds rows ++ displayIds rows' := by
  simp [displayIds]

theorem length_displayIds (rows : List Row) : (displayIds rows).length = displayCount rows := by
  rw [displayIds, List.length_map, displayCount, List.countP_eq_length_filter]

theorem msgId_set {row : Row} {key : String} (v : Json) (h : key ≠ "msg_id") :
    Row.msgId (row.set key v) = Row.msgId row := by
  rw [Row.msgId, PyDict.get?_set_of_ne _ _ (Ne.symm h), Row.msgId]

theorem msgId_applyTraceUpdate {anchor update msg : Row}
    (h : applyTraceUpdate anchor update = some msg) : Row.msgId msg = Row.msgId anchor := by
  obtain ⟨traced, htraced, h⟩ := Option.bind_eq_some_iff.mp h
  have hfirst : Row.msgId traced = Row.msgId anchor := by
    unfold addEntry at htraced
    split at htraced
    · obtain ⟨trace, -, rfl⟩ := Option.map_eq_some_iff.mp htraced
      exact msgId_set _ (by decide)
    · obtain rfl := Option.some.inj htraced
      rfl
  unfold addContent at h
  split at h
  · obtain ⟨content, -, rfl⟩ := Option.map_eq_some_iff.mp h
    rw [msgId_set _ (by decide), hfirst]
  · obtain rfl := Option.some.inj h
    exact hfirst

theorem msgId_applyAll {updates : List Row} {anchor msg : Row}
    (h : applyAll anchor updates = some msg) : Row.msgId msg = Row.msgId anchor := by
  induction updates generalizing anchor with
  | nil =>
    obtain rfl := Option.some.inj h
    rfl
  | cons update updates ih =>
    rw [applyAll, List.foldlM_cons] at h
    obtain ⟨next, hnext, h⟩ := Option.bind_eq_some_iff.mp h
    rw [ih h, msgId_applyTraceUpdate hnext]

theorem map_msgId_displayedBefore {later : List Row}
    (h : displayedBefore later rows = some msgs) : msgs.map Row.msgId = displayIds rows := by
  induction rows generalizing msgs with
  | nil =>
    obtain rfl : [] = msgs := Option.some.inj h
    rfl
  | cons row rows ih =>
    rw [displayedBefore] at h
    split at h
    · next hrow =>
      obtain ⟨msg, hmsg, h⟩ := Option.bind_eq_some_iff.mp h
      obtain ⟨rest, hrest, h⟩ := Option.bind_eq_some_iff.mp h
      obtain rfl : msg :: rest = msgs := Option.some.inj h
      have hid : Row.msgId msg = Row.msgId row := by
        unfold message at hmsg
        split at hmsg
        · exact msgId_applyAll hmsg
        · exact congrArg Row.msgId (Option.some.inj hmsg).symm
      have hcons : displayIds (row :: rows) = Row.msgId row :: displayIds rows := by
        simp [displayIds, hrow]
      rw [List.map_cons, ih hrest, hid, hcons]
    · next hrow =>
      have hskip : displayIds (row :: rows) = displayIds rows := by simp [displayIds, hrow]
      rw [ih h, hskip]

/-! ## One call -/

/-- A transcript whose messages have distinct ids and whose updates come after their anchors, so
that its traces can be composed. -/
structure Proper (rows : List Row) : Prop where
  named : ∀ row ∈ rows, Row.isDisplay row → Row.msgId row ≠ ""
  distinct : (displayIds rows).Nodup
  follow : UpdatesFollow rows
  composes : ∃ msgs, composeDisplayTraces rows = some msgs

/-- The caller may read the conversation. -/
structure Store.Readable (s : Store) (userId : String) : Prop where
  created : s.created
  owner : userId = "" ∨ s.userId = "" ∨ s.userId = userId

theorem hasMsgId_iff {row : Row} {msgId : String} (h : msgId ≠ "") :
    Segments.Row.hasMsgId msgId row ↔ Row.msgId row = msgId := by
  unfold Segments.Row.hasMsgId Row.msgId
  cases hget : row.get? "msg_id" with
  | none => simp [Ne.symm h]
  | some v => cases v <;> simp [Json.isStr, Ne.symm h]

theorem exists_split {place : Nat} {id : String}
    (h : (displayIds rows)[place]? = some id) : ∃ before cursor after,
      rows = before ++ cursor :: after ∧ Row.isDisplay cursor ∧ Row.msgId cursor = id ∧
        displayCount before = place := by
  induction rows generalizing place with
  | nil => simp [displayIds] at h
  | cons row rows ih =>
    by_cases hrow : Row.isDisplay row
    · have hcons : displayIds (row :: rows) = Row.msgId row :: displayIds rows := by
        simp [displayIds, hrow]
      rw [hcons] at h
      cases place with
      | zero => exact ⟨[], row, rows, rfl, hrow, by simpa using h, rfl⟩
      | succ place =>
        obtain ⟨before, cursor, after, rfl, hcursor, hid, hplace⟩ := ih (by simpa using h)
        refine ⟨row :: before, cursor, after, rfl, hcursor, hid, ?_⟩
        rw [displayCount_cons, if_pos hrow, hplace]
    · have hskip : displayIds (row :: rows) = displayIds rows := by simp [displayIds, hrow]
      rw [hskip] at h
      obtain ⟨before, cursor, after, rfl, hcursor, hid, hplace⟩ := ih h
      refine ⟨row :: before, cursor, after, rfl, hcursor, hid, ?_⟩
      rw [displayCount_cons, if_neg hrow, hplace, Nat.add_zero]

theorem iterRowsReverse_eq (segments : List (List Row)) :
    iterRowsReverse segments = segments.flatten.reverse := by
  rw [iterRowsReverse, List.reverse_flatten, List.flatMap_def, List.map_reverse]

/-- The place a page is asked for: the end of the transcript, or a message of it. -/
def Reaches (rows : List Row) (before : String) (place : Nat) : Prop :=
  before = "" ∧ place = displayCount rows ∨ (displayIds rows)[place]? = some before

variable {before : String}

/-- A call returns the messages before its place, one at least where there is one, and tells
whether there are more of them. -/
theorem loadPage_eq {s : Store} {userId : String} {limit place : Nat}
    (hreadable : s.Readable userId) (hproper : Proper s.rows)
    (hmsgs : composeDisplayTraces s.rows = some msgs) (hcount : s.msgCount = displayCount s.rows)
    (hlimit : 0 < limit) (hplace : Reaches s.rows before place) :
    ∃ start ≤ place, (0 < place → start < place) ∧ ∃ page,
      (loadPage s limit 0 userId before).1 = some page ∧
        page.messages = (msgs.take place).drop start ∧ page.hasMore = decide (0 < start) := by
  have hdisplayed : displayed s.rows = some msgs := by
    rw [← composeDisplayTraces_eq hproper.follow, hmsgs]
  have hlength : msgs.length = displayCount s.rows := length_displayedBefore hdisplayed
  have howner : ¬ (userId ≠ "" ∧ s.userId ≠ "" ∧ s.userId ≠ userId) := by
    rintro ⟨huser, hnamed, hother⟩
    rcases hreadable.owner with h | h | h
    · exact huser h
    · exact hnamed h
    · exact hother h
  unfold loadPage
  rw [if_neg (by simp [hreadable.created]), if_neg howner]
  cases hlog : s.log with
  | none =>
    -- Without a transcript there is nothing to show.
    have hrows : s.rows = [] := by simp [Store.rows, hlog]
    rw [hrows] at hplace hlength
    have hzero : place = 0 := by
      rcases hplace with ⟨-, hplace⟩ | hplace
      · simpa [displayCount] using hplace
      · simp [displayIds] at hplace
    subst hzero
    exact ⟨0, le_rfl, by simp, _, rfl, by simp, by simp⟩
  | some segments =>
    have hrows : s.rows = segments.flatten := by simp [Store.rows, hlog]
    rw [hrows] at hplace hlength hcount hdisplayed
    have hfollow := hproper.follow
    rw [hrows] at hfollow
    dsimp only
    rw [iterRowsReverse_eq]
    rcases hplace with ⟨rfl, rfl⟩ | hplace
    · obtain ⟨start, hle, hlt, hpage⟩ := readTail_eq hfollow hdisplayed hlimit s.msgCount
      rw [hlength] at hle hlt hpage
      have hmore : decide (displayCount segments.flatten - start < s.msgCount) =
          decide (0 < start) := by
        rw [hcount, decide_eq_decide]
        omega
      refine ⟨start, hle, hlt, ⟨msgs.drop start, s.msgCount, 0, limit, decide (0 < start)⟩, ?_⟩
      rw [if_pos rfl, hpage, hmore]
      -- Where messages are counted, the page has one.
      have hnotempty : ¬ (0 = 0 ∧ 0 < s.msgCount ∧ (msgs.drop start).isEmpty) := by
        rintro ⟨-, hpos, hempty⟩
        have := hlt (hcount ▸ hpos)
        rw [List.isEmpty_iff, List.drop_eq_nil_iff] at hempty
        omega
      dsimp only
      rw [if_neg hnotempty]
      refine ⟨rfl, ?_, rfl⟩
      rw [← hlength, List.take_length]
    · obtain ⟨earlier, cursor, after, hsplit, hcursor, hid, hearlier⟩ := exists_split hplace
      subst hearlier
      have hnamed : before ≠ "" := by
        rw [← hid]
        exact hproper.named cursor (by simp [hrows, hsplit]) hcursor
      have hdistinct := hproper.distinct
      rw [hrows, hsplit, displayIds_append, List.nodup_append] at hdistinct
      have hcons : displayIds (cursor :: after) = before :: displayIds after := by
        simp [displayIds, hcursor, hid]
      have hafter : ∀ row ∈ after, Row.isDisplay row →
          Segments.Row.hasMsgId before row = false := by
        intro row hrow hdisplay
        have hmem : Row.msgId row ∈ displayIds after :=
          List.mem_map_of_mem (List.mem_filter.mpr ⟨hrow, hdisplay⟩)
        have hnot := (List.nodup_cons.mp (hcons ▸ hdistinct.2.1)).1
        cases hhas : Segments.Row.hasMsgId before row with
        | false => rfl
        | true => exact absurd (((hasMsgId_iff hnamed).mp hhas) ▸ hmem) hnot
      rw [hsplit] at hfollow hdisplayed
      obtain ⟨start, hle, hlt, hpage⟩ := readTailBeforeMsgId_eq hfollow hdisplayed hcursor
        ((hasMsgId_iff hnamed).mpr hid) hafter hlimit s.msgCount
      have hmore : decide (displayCount after + 1 + (displayCount earlier - start) <
          s.msgCount) = decide (0 < start) := by
        rw [hcount, hsplit, decide_eq_decide]
        simp only [displayCount_append, displayCount_cons, hcursor, if_true]
        omega
      rw [if_neg hnamed, hsplit, hpage, hmore]
      exact ⟨start, hle, hlt, _, rfl, rfl, rfl⟩

/-! ## Page after page -/

/-- The reader asks for a page, and for the one before its first message as long as there are more;
`stores` is what the store is at each call. -/
inductive Browse (stores : Nat → Store) (limit : Nat) (userId : String) :
    Nat → String → List Page → Prop
  | last {call : Nat} {before : String} {page : Page}
      (hpage : (loadPage (stores call) limit 0 userId before).1 = some page)
      (hmore : page.hasMore = false) : Browse stores limit userId call before [page]
  | more {call : Nat} {before : String} {page : Page} {first : Row} {pages : List Page}
      (hpage : (loadPage (stores call) limit 0 userId before).1 = some page)
      (hmore : page.hasMore) (hfirst : page.messages.head? = some first)
      (hrest : Browse stores limit userId (call + 1) (Row.msgId first) pages) :
      Browse stores limit userId call before (page :: pages)

theorem Browse.unique {stores : Nat → Store} {limit call : Nat} {userId : String}
    {pages pages' : List Page} (h : Browse stores limit userId call before pages)
    (h' : Browse stores limit userId call before pages') : pages = pages' := by
  induction h generalizing pages' with
  | last hpage hmore =>
    cases h' with
    | last hpage' _ =>
      rw [hpage] at hpage'
      rw [Option.some.inj hpage']
    | more hpage' hmore' _ _ =>
      rw [hpage] at hpage'
      rw [Option.some.inj hpage'] at hmore
      simp [hmore'] at hmore
  | more hpage hmore hfirst _ ih =>
    cases h' with
    | last hpage' hmore' =>
      rw [hpage] at hpage'
      rw [Option.some.inj hpage'] at hmore
      simp [hmore'] at hmore
    | more hpage' _ hfirst' hrest' =>
      rw [hpage] at hpage'
      obtain rfl := Option.some.inj hpage'
      rw [hfirst] at hfirst'
      obtain rfl := Option.some.inj hfirst'
      rw [ih hrest']

/-- The ids of the pages from the last one to the first. -/
def pageIds (pages : List Page) : List String :=
  pages.reverse.flatMap fun page => page.messages.map Row.msgId

theorem pageIds_cons (page : Page) (pages : List Page) :
    pageIds (page :: pages) = pageIds pages ++ page.messages.map Row.msgId := by
  simp [pageIds]

section

variable {stores : Nat → Store} {limit : Nat} {userId : String}

/-- The pages from a place on. -/
theorem browse_from (hlimit : 0 < limit) (hreadable : ∀ call, (stores call).Readable userId)
    (hgrows : ∀ call, (stores 0).rows <+: (stores call).rows)
    (hproper : ∀ call, Proper (stores call).rows)
    (hcount : ∀ call, (stores call).msgCount = displayCount (stores call).rows)
    (place : Nat) : ∀ (call : Nat) (before : String), Reaches (stores call).rows before place →
      place ≤ displayCount (stores 0).rows → ∃ pages,
        Browse stores limit userId call before pages ∧
          pageIds pages = (displayIds (stores 0).rows).take place ∧
            ∀ i page, pages[i]? = some page → ∃ msgs,
              composeDisplayTraces (stores (call + i)).rows = some msgs ∧
                page.messages <:+: msgs := by
  induction place using Nat.strong_induction_on with
  | _ place ih =>
    intro call before hreaches hplace
    obtain ⟨msgs, hmsgs⟩ := (hproper call).composes
    obtain ⟨start, hle, hlt, page, hpage, hmessages, hmore⟩ :=
      loadPage_eq (hreadable call) (hproper call) hmsgs (hcount call) hlimit hreaches
    have hdisplayed : displayed (stores call).rows = some msgs := by
      rw [← composeDisplayTraces_eq (hproper call).follow, hmsgs]
    obtain ⟨added, hadded⟩ := hgrows call
    -- The messages of the first call are the first ones of this call.
    have hids : (msgs.map Row.msgId).take place = (displayIds (stores 0).rows).take place := by
      rw [map_msgId_displayedBefore hdisplayed, ← hadded, displayIds_append,
        List.take_append_of_le_length (by rwa [length_displayIds])]
    have hpageIds : page.messages.map Row.msgId =
        ((displayIds (stores 0).rows).take place).drop start := by
      rw [hmessages, List.map_drop, List.map_take, hids]
    have hwithin : page.messages <:+: msgs := by
      rw [hmessages]
      exact (List.drop_suffix _ _).isInfix.trans (List.take_prefix _ _).isInfix
    by_cases hstart : 0 < start
    · have hfirstLt : start < place := hlt (by omega)
      have hlength : start < page.messages.length + start := by
        have := congrArg List.length hpageIds
        simp only [List.length_map, List.length_drop, List.length_take, length_displayIds] at this
        omega
      obtain ⟨first, hfirst⟩ : ∃ first, page.messages.head? = some first := by
        cases hp : page.messages with
        | nil => simp [hp] at hlength
        | cons first rest => exact ⟨first, rfl⟩
      have hfirstId : (displayIds (stores 0).rows)[start]? = some (Row.msgId first) := by
        have hhead := congrArg List.head? hpageIds
        rw [List.head?_map, hfirst, List.head?_drop,
          List.getElem?_take_of_lt hfirstLt] at hhead
        exact hhead.symm
      have hnext : Reaches (stores (call + 1)).rows (Row.msgId first) start := by
        obtain ⟨added', hadded'⟩ := hgrows (call + 1)
        refine .inr ?_
        rw [← hadded', displayIds_append, List.getElem?_append_left, hfirstId]
        exact (List.getElem?_eq_some_iff.mp hfirstId).1
      obtain ⟨pages, hbrowse, hflat, hfrom⟩ :=
        ih start hfirstLt (call + 1) _ hnext (by omega)
      refine ⟨page :: pages, .more hpage (by simpa [hmore] using hstart) hfirst hbrowse, ?_, ?_⟩
      · rw [pageIds_cons, hflat, hpageIds]
        have htake : (displayIds (stores 0).rows).take start =
            ((displayIds (stores 0).rows).take place).take start := by
          rw [List.take_take, Nat.min_eq_left hle]
        rw [htake, List.take_append_drop]
      · intro i p hp
        cases i with
        | zero =>
          obtain rfl : page = p := by simpa using hp
          exact ⟨msgs, hmsgs, hwithin⟩
        | succ i =>
          have := hfrom i p (by simpa using hp)
          rwa [Nat.add_right_comm, Nat.add_assoc] at this
    · obtain rfl : start = 0 := by omega
      refine ⟨[page], .last hpage (by simpa using hmore), ?_, ?_⟩
      · rw [pageIds_cons, hpageIds]
        simp [pageIds]
      · intro i p hp
        cases i with
        | zero =>
          obtain rfl : page = p := by simpa using hp
          exact ⟨msgs, hmsgs, hwithin⟩
        | succ i => simp at hp

/-- Where the number of messages is right at every call, the pages are those of a partition: put
together from the last to the first they have the messages of the first call, each once and in file
order, and each is one that the whole transcript composes to. -/
theorem pages_partition (hlimit : 0 < limit) (hreadable : ∀ call, (stores call).Readable userId)
    (hgrows : ∀ call, (stores call).rows <+: (stores (call + 1)).rows)
    (hproper : ∀ call, Proper (stores call).rows)
    (hcount : ∀ call, (stores call).msgCount = displayCount (stores call).rows) :
    ∃ pages, Browse stores limit userId 0 "" pages ∧
      pageIds pages = displayIds (stores 0).rows ∧
        ∀ call page, pages[call]? = some page → ∃ msgs,
          composeDisplayTraces (stores call).rows = some msgs ∧ page.messages <:+: msgs := by
  have hgrown : ∀ call, (stores 0).rows <+: (stores call).rows := by
    intro call
    induction call with
    | zero => exact List.prefix_refl _
    | succ call ih => exact ih.trans (hgrows call)
  obtain ⟨pages, hbrowse, hids, hfrom⟩ := browse_from hlimit hreadable hgrown hproper hcount
    (displayCount (stores 0).rows) 0 "" (.inl ⟨rfl, rfl⟩) le_rfl
  refine ⟨pages, hbrowse, ?_, ?_⟩
  · rw [hids, ← length_displayIds, List.take_length]
  · intro call page hpage
    simpa using hfrom call page hpage

end

/-- Two messages that `append_message` has written. -/
def twoMessages : Store :=
  (Store.appendMessage ⟨true, "u1", none, 0⟩ true
    [("role", .str "user"), ("msg_id", .str "m1"), ("content", .str "hello")]).appendMessage false
    [("role", .str "assistant"), ("msg_id", .str "m2"), ("content", .str "hi")]

theorem pages_partition_two : ∃ pages : List Page,
    Browse (fun _ => twoMessages) 1 "u1" 0 "" pages ∧ pageIds pages = ["m1", "m2"] ∧
    ∀ (call : Nat) (page : Page), pages[call]? = some page → ∃ msgs,
      composeDisplayTraces twoMessages.rows = some msgs ∧ page.messages <:+: msgs := by
  have hproper : Proper twoMessages.rows := by
    refine ⟨by decide +kernel, by decide +kernel, ?_, ?_⟩
    · intro before row after trace hrows hupdate _
      have hnone : ∀ row ∈ twoMessages.rows, Row.updated? row = none := by decide +kernel
      rw [hnone row (by simp [hrows])] at hupdate
      cases hupdate
    · exact Option.isSome_iff_exists.mp (by decide +kernel)
  exact @pages_partition (fun _ => twoMessages) 1 "u1" (by decide)
    (fun _ => ⟨rfl, .inr (.inr rfl)⟩) (fun _ => List.prefix_refl _) (fun _ => hproper)
    (fun _ => by decide +kernel)

def traced : Store :=
  (Store.appendMessage ⟨true, "u1", none, 0⟩ true
    [("role", .str "user"), ("msg_id", .str "m1"), ("content", .str "hello")]).createDisplayTrace
    false "t1" (.obj []) [("msg_id", .str "m2")]

/-- The trace is not counted, so the page that has it says that there are no more. -/
theorem trace_ends_pages : Proper traced.rows ∧ traced.Readable "u1" ∧
    ¬ ∃ pages, Browse (fun _ => traced) 1 "u1" 0 "" pages ∧
      pageIds pages = displayIds traced.rows := by
  refine ⟨⟨by decide +kernel, by decide +kernel, ?_, ?_⟩, ⟨rfl, .inr (.inr rfl)⟩, ?_⟩
  · intro before row after trace hrows hupdate _
    have hnone : ∀ row ∈ traced.rows, Row.updated? row = none := by decide +kernel
    rw [hnone row (by simp [hrows])] at hupdate
    cases hupdate
  · exact Option.isSome_iff_exists.mp (by decide +kernel)
  · rintro ⟨pages, hbrowse, hids⟩
    obtain ⟨page, hpage⟩ : ∃ page, (loadPage traced 1 0 "u1" "").1 = some page :=
      Option.isSome_iff_exists.mp (by decide +kernel)
    have hfacts : (loadPage traced 1 0 "u1" "").1.map
        (fun page : Page => (page.hasMore, page.messages.map Row.msgId)) =
          some (false, ["m2"]) := by decide +kernel
    rw [hpage] at hfacts
    obtain ⟨hmore, hmsgs⟩ := Prod.mk.inj (Option.some.inj hfacts)
    obtain rfl := hbrowse.unique (.last hpage hmore)
    rw [pageIds_cons, hmsgs] at hids
    exact absurd hids (by decide +kernel)

end PawFlow.Transcript
