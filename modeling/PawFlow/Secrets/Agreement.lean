import PawFlow.Secrets.Resolver

/-!
# One lookup and all lookups

The first scope that defines a name decides it: where the policy keeps that entry back,
nothing is found, whatever the scopes below hold. The lookup of all names finds for each name
what the lookup of that name finds.
-/

namespace PawFlow.Secrets

open PawFlow.Lib

section

variable {ρ : Type} (w : World ρ) (ctx : Context)

/-- A scope that is asked holds an entry under the name. -/
def Defines (name : String) (scope : SourceScope) (scopeId : String) (raw : Json) : Prop :=
  ∃ entries, (scope, scopeId, entries) ∈ sources w ctx ∧ entries.get? name = some raw

/-- The entry of the first scope that defines the name. -/
structure Wins (name : String) (scope : SourceScope) (scopeId : String) (raw : Json) : Prop where
  defines : Defines w ctx name scope scopeId raw
  first : ∀ scope' scopeId' raw', Defines w ctx name scope' scopeId' raw' →
    rank scope ≤ rank scope'

/-- Every stored value is that of a secret and materializes. -/
def Materializes : Prop :=
  ∀ scope scopeId entries, (scope, scopeId, entries) ∈ sources w ctx →
    ∀ name raw, (name, raw) ∈ entries → ∃ identity value,
      SecretIdentity.of name scope scopeId = .ok identity ∧
        w.materialize ctx identity raw = .ok value

variable {name : String} {policy : Policy}

theorem SecretIdentity.of_eq_ok (h : name ≠ "") (scope : SourceScope)
    (scopeId : String) : SecretIdentity.of name scope scopeId = .ok ⟨name, scope, scopeId, h⟩ := by
  rw [SecretIdentity.of, dif_pos h]

/-! ## The winning entry -/

theorem sources_pairwise : (sources w ctx).Pairwise fun a b => rank a.1 < rank b.1 := by
  unfold sources
  dsimp only
  split
  · split <;> simp [rank]
  · cases entries? (if (w.convSecrets (rootConversationId ctx.conversationId)).truthy then
      w.convSecrets (rootConversationId ctx.conversationId) else .obj []) with
    | none => split <;> simp [rank]
    | some raw => split <;> simp [rank]

def answer (name : String) (source : SourceScope × String × PyDict String Json) :
    Option (SourceScope × String × Json) :=
  (source.2.2.get? name).map fun raw => (source.1, source.2.1, raw)

theorem select_none_eq (name : String) :
    select w ctx name none = (sources w ctx).findSome? (answer name) := by
  simp only [select, Option.map_none, Option.getD_none, ne_eq, not_true_eq_false, false_and,
    if_false]
  rfl

variable {scope : SourceScope} {scopeId : String}

variable {raw : Json}

theorem select_eq_some_iff :
    select w ctx name none = some (scope, scopeId, raw) ↔ Wins w ctx name scope scopeId raw := by
  rw [select_none_eq, findSome?_eq_some_iff_of_rank (sources_pairwise w ctx)]
  constructor
  · rintro ⟨⟨s, i, entries⟩, hmem, hanswer, hfirst⟩
    obtain ⟨r, hget, heq⟩ := Option.map_eq_some_iff.mp hanswer
    cases heq
    refine ⟨⟨entries, hmem, hget⟩, ?_⟩
    rintro s' i' r' ⟨entries', hmem', hget'⟩
    exact hfirst _ hmem' (by simp [answer, hget'])
  · rintro ⟨⟨entries, hmem, hget⟩, hfirst⟩
    refine ⟨_, hmem, by simp [answer, hget], ?_⟩
    rintro ⟨s', i', entries'⟩ hmem' hsome
    obtain ⟨r', hget'⟩ : ∃ r', entries'.get? name = some r' := by
      simpa [answer, Option.isSome_iff_exists] using hsome
    exact hfirst s' i' r' ⟨entries', hmem', hget'⟩

/-- A source with its entries under what `resolve_all` keeps of it. -/
def tagged (source : SourceScope × String × PyDict String Json) :
    PyDict String (SourceScope × String × Json) :=
  PyDict.mapValues (fun raw => (source.1, source.2.1, raw)) source.2.2

theorem winners_eq : winners w ctx = ((sources w ctx).map tagged).foldl PyDict.underlay [] := by
  unfold winners PyDict.underlay tagged PyDict.mapValues
  rw [List.foldl_map]
  congr 1
  funext d source
  rw [List.foldl_map]

theorem get?_winners (name : String) : (winners w ctx).get? name = select w ctx name none := by
  rw [winners_eq, PyDict.get?_foldl_underlay, select_none_eq, List.findSome?_map]
  have hlayer : (fun l => PyDict.get? l name) ∘ tagged = answer name := by
    funext source
    exact PyDict.get?_mapValues _ _ _
  rw [hlayer]
  rfl

theorem nodup_keys_winners : ((winners w ctx).map Prod.fst).Nodup := by
  rw [winners_eq]
  exact PyDict.nodup_keys_foldl_underlay _ List.nodup_nil

variable {w ctx}

theorem materializes_select (hall : Materializes w ctx)
    (h : select w ctx name none = some (scope, scopeId, raw)) :
    ∃ identity value, SecretIdentity.of name scope scopeId = .ok identity ∧
      w.materialize ctx identity raw = .ok value := by
  obtain ⟨entries, hmem, hget⟩ := ((select_eq_some_iff w ctx).mp h).defines
  exact hall scope scopeId entries hmem name raw (PyDict.mem_of_get? hget)

/-! ## The two lookups -/

/-- What a winning entry is worth under the policy. -/
def worth (w : World ρ) (ctx : Context) (policy : Policy) (name : String) :
    SourceScope × String × Json → Option ρ
  | (scope, scopeId, raw) => do
    let identity ← (SecretIdentity.of name scope scopeId).toOption
    guard (policy.allows identity)
    (w.materialize ctx identity raw).toOption

variable {identity : SecretIdentity}

theorem worth_eq {value : ρ}
    (hof : SecretIdentity.of name scope scopeId = .ok identity)
    (hvalue : w.materialize ctx identity raw = .ok value) :
    worth w ctx policy name (scope, scopeId, raw) =
      if policy.allows identity then some value else none := by
  simp only [worth, hof, Except.toOption, Option.bind_eq_bind, Option.bind_some, hvalue]
  cases policy.allows identity <;> rfl

theorem resolveRecord_eq (hpolicy : Policy.load w ctx = .ok policy)
    (hall : Materializes w ctx) (hname : name ≠ "") :
    resolveRecord w ctx name none =
      .ok ((select w ctx name none).bind (worth w ctx policy name)) := by
  unfold resolveRecord
  rw [if_neg hname]
  cases hselect : select w ctx name none with
  | none => rfl
  | some winner =>
    obtain ⟨scope, scopeId, raw⟩ := winner
    obtain ⟨identity, value, hof, hvalue⟩ := materializes_select hall hselect
    rw [Option.bind_some, worth_eq hof hvalue]
    simp only [hof, hpolicy, hvalue, bind, Except.bind]
    split <;> rfl

theorem resolveWinners_eq {ws : PyDict String (SourceScope × String × Json)}
    (h : ∀ name scope scopeId raw, (name, scope, scopeId, raw) ∈ ws → ∃ identity value,
      SecretIdentity.of name scope scopeId = .ok identity ∧
        w.materialize ctx identity raw = .ok value) :
    resolveWinners w ctx policy ws = .ok (PyDict.filterMapValues (worth w ctx policy) ws) := by
  induction ws with
  | nil => rfl
  | cons winner ws ih =>
    obtain ⟨name, scope, scopeId, raw⟩ := winner
    obtain ⟨identity, value, hof, hvalue⟩ := h name scope scopeId raw (List.mem_cons_self ..)
    have hrest := ih fun n s i r hmem => h n s i r (List.mem_cons_of_mem _ hmem)
    unfold PyDict.filterMapValues at hrest ⊢
    simp only [resolveWinners, hof, hrest, hvalue, List.filterMap_cons,
      worth_eq hof hvalue, bind, Except.bind]
    split <;> rfl

theorem resolveAll_eq (hpolicy : Policy.load w ctx = .ok policy) (hall : Materializes w ctx) :
    resolveAll w ctx =
      .ok (PyDict.filterMapValues (worth w ctx policy) (winners w ctx)) := by
  unfold resolveAll
  rw [hpolicy]
  refine resolveWinners_eq fun name scope scopeId raw hmem => ?_
  refine materializes_select hall ?_
  rw [← get?_winners]
  exact PyDict.get?_of_mem (nodup_keys_winners w ctx) hmem

theorem allows_iff :
    policy.allows identity ↔ Permits policy.conversation identity.name identity.sourceScope ∧
      Permits policy.agent identity.name identity.sourceScope := by
  simp [Policy.allows]

theorem bind_worth_eq_some_iff (hname : name ≠ "") {value : ρ} :
    (select w ctx name none).bind (worth w ctx policy name) = some value ↔
      ∃ scope scopeId raw, Wins w ctx name scope scopeId raw ∧
        Permits policy.conversation name scope ∧ Permits policy.agent name scope ∧
          w.materialize ctx ⟨name, scope, scopeId, hname⟩ raw = .ok value := by
  have hworth : ∀ scope scopeId raw, worth w ctx policy name (scope, scopeId, raw) = some value ↔
      policy.allows ⟨name, scope, scopeId, hname⟩ ∧
        w.materialize ctx ⟨name, scope, scopeId, hname⟩ raw = .ok value := by
    intro scope scopeId raw
    simp only [worth, SecretIdentity.of_eq_ok hname, Except.toOption, Option.bind_eq_bind,
      Option.bind_some]
    cases policy.allows ⟨name, scope, scopeId, hname⟩ with
    | false => simp [guard]
    | true =>
      cases w.materialize ctx ⟨name, scope, scopeId, hname⟩ raw <;> simp [guard]
  rw [Option.bind_eq_some_iff]
  constructor
  · rintro ⟨⟨scope, scopeId, raw⟩, hselect, hvalue⟩
    obtain ⟨hallows, hmat⟩ := (hworth scope scopeId raw).mp hvalue
    obtain ⟨hconv, hagent⟩ := allows_iff.mp hallows
    exact ⟨scope, scopeId, raw, (select_eq_some_iff w ctx).mp hselect, hconv, hagent, hmat⟩
  · rintro ⟨scope, scopeId, raw, hwins, hconv, hagent, hmat⟩
    refine ⟨_, (select_eq_some_iff w ctx).mpr hwins, (hworth scope scopeId raw).mpr ⟨?_, hmat⟩⟩
    exact allows_iff.mpr ⟨hconv, hagent⟩

theorem get?_resolved (name : String) :
    (PyDict.filterMapValues (worth w ctx policy) (winners w ctx)).get? name =
      (select w ctx name none).bind (worth w ctx policy name) := by
  rw [PyDict.get?_filterMapValues _ (nodup_keys_winners w ctx), get?_winners]

theorem bind_worth_empty (policy : Policy) :
    (select w ctx "" none).bind (worth w ctx policy "") = none := by
  cases select w ctx "" none with
  | none => rfl
  | some winner => rfl

/-- The policy is never bypassed: the winning entry is returned where both policies let it
through and nothing else ever is, by the single lookup and by the lookup of all names. -/
theorem lookups_agree {policy : Policy} (hpolicy : Policy.load w ctx = .ok policy)
    (hall : Materializes w ctx) :
    (∀ name (hname : name ≠ ""), ∃ found, resolveRecord w ctx name none = .ok found ∧
      ∀ value, found = some value ↔ ∃ scope scopeId raw, Wins w ctx name scope scopeId raw ∧
        Permits policy.conversation name scope ∧ Permits policy.agent name scope ∧
          w.materialize ctx ⟨name, scope, scopeId, hname⟩ raw = .ok value) ∧
    ∃ all, resolveAll w ctx = .ok all ∧ (all.map Prod.fst).Nodup ∧
      ∀ name value, all.get? name = some value ↔
        resolveRecord w ctx name none = .ok (some value) := by
  constructor
  · intro name hname
    exact ⟨_, resolveRecord_eq hpolicy hall hname, fun value => bind_worth_eq_some_iff hname⟩
  · refine ⟨_, resolveAll_eq hpolicy hall, ?_, fun name value => ?_⟩
    · exact (nodup_keys_winners w ctx).sublist (PyDict.keys_filterMapValues_sublist _ _)
    · rw [get?_resolved]
      by_cases hname : name = ""
      · subst hname
        rw [bind_worth_empty]
        simp [resolveRecord]
      · rw [resolveRecord_eq hpolicy hall hname]
        simp

end

/-- A conversation that may use the global `token` only and has a `token` of its own. -/
def guarded : World String where
  convSecrets _ := .obj [("token", .str "mine"), ("seed", .str "s")]
  userSecrets _ := .obj []
  globalSecrets := .obj [("token", .str "shared"), ("key", .str "k")]
  convAccess _ := .obj [("allow", .arr [
    .obj [("name", .str "token"), ("source_scope", .str "global")],
    .obj [("name", .str "seed"), ("source_scope", .str "Conversation")]])]
  agentEntry _ _ := .ok ("", [])
  lower text := .ofList (text.toList.map Char.toLower)
  str
    | .str s => s
    | _ => ""
  materialize _ _
    | .str s => .ok s
    | _ => .error "conversation local secret must be an encrypted string"

def inTalk : Context where
  ownerUserId := "u1"
  conversationId := "c1"

/-- The policy of `guarded`. -/
def guardedPolicy : Policy := ⟨some [⟨"token", .global⟩, ⟨"seed", .conv⟩], none⟩

theorem lookups_agree_guarded :
    ∃ all, resolveAll guarded inTalk = .ok all ∧ (all.map Prod.fst).Nodup ∧
      ∀ name value, all.get? name = some value ↔
        resolveRecord guarded inTalk name none = .ok (some value) := by
  have hsources : sources guarded inTalk =
      [(.conv, "c1", [("token", .str "mine"), ("seed", .str "s")]), (.user, "u1", []),
        (.global, "", [("token", .str "shared"), ("key", .str "k")])] := by
    rfl
  have hpolicy : Policy.load guarded inTalk = .ok guardedPolicy := by
    rfl
  refine (lookups_agree hpolicy ?_).2
  intro scope scopeId entries hmem name raw hentry
  rw [hsources] at hmem
  simp only [List.mem_cons, Prod.mk.injEq, List.not_mem_nil, or_false] at hmem
  obtain ⟨rfl, rfl, rfl⟩ | ⟨rfl, rfl, rfl⟩ | ⟨rfl, rfl, rfl⟩ := hmem
  · simp only [List.mem_cons, Prod.mk.injEq, List.not_mem_nil, or_false] at hentry
    obtain ⟨rfl, rfl⟩ | ⟨rfl, rfl⟩ := hentry
    · exact ⟨_, "mine", SecretIdentity.of_eq_ok (by decide) .conv "c1", rfl⟩
    · exact ⟨_, "s", SecretIdentity.of_eq_ok (by decide) .conv "c1", rfl⟩
  · simp at hentry
  · simp only [List.mem_cons, Prod.mk.injEq, List.not_mem_nil, or_false] at hentry
    obtain ⟨rfl, rfl⟩ | ⟨rfl, rfl⟩ := hentry
    · exact ⟨_, "shared", SecretIdentity.of_eq_ok (by decide) .global "", rfl⟩
    · exact ⟨_, "k", SecretIdentity.of_eq_ok (by decide) .global "", rfl⟩

end PawFlow.Secrets
