import Mathlib.Data.List.Dedup
import IncusCloud.Identity.Proofs.Links

/-!
# Memberships added by hand and by mappings

A group and a user have one row, which names one provider: what several providers or identities give
shares it. `memberships_exact`: members are exactly those added by hand and those some provider
gives, along the runs in which every sync speaks for all of the user's identities at its provider
and drops nothing another provider gives.
-/

namespace IncusCloud.Identity

open Lib Acl Api List Option

namespace Accounts

variable {g p u userId : Uuid} {claimed : List String} {provider : IdentityProvider}
  {c : UpstreamClaims} {email : String} {created : Bool}

variable (s : Accounts)

def Gives (providerId groupId userId : Uuid) : Prop :=
  ∃ i ∈ s.identities, i.providerId = providerId ∧ i.userId = userId ∧
    groupId ∈ s.want providerId i.groups

def IsMember (groupId userId : Uuid) : Prop :=
  ∃ m ∈ s.members, m.groupId = groupId ∧ m.userId = userId

def Exact : Prop :=
  ∀ g u, s.IsMember g u ↔ s.hand g u = true ∨ ∃ p, s.Gives p g u ∧ s.removed p g u = false

/-- What the user's identities at the provider bring, `claimed` brings too. -/
def SpeaksForAll (providerId userId : Uuid) (claimed : List String) : Prop :=
  ∀ i ∈ s.identities, i.providerId = providerId → i.userId = userId →
    s.want providerId i.groups ⊆ s.want providerId claimed

def OtherGives (providerId groupId userId : Uuid) : Prop :=
  ∃ i ∈ s.identities, i.providerId ≠ providerId ∧ i.userId = userId ∧
    groupId ∈ s.want i.providerId i.groups ∧ s.removed i.providerId groupId userId = false

instance (s : Accounts) (providerId groupId userId : Uuid) :
    Decidable (s.OtherGives providerId groupId userId) :=
  inferInstanceAs (Decidable (∃ i ∈ _, _))

/-- What keeps a sync from disturbing others: what other identities of the user at the provider
bring, this one brings too; and what is dropped no other provider gives. -/
def SyncKeeps (providerId userId : Uuid) (claimed : List String) : Prop :=
  s.SpeaksForAll providerId userId claimed ∧
    ∀ m ∈ s.members, m.userId = userId ∧ m.providerId = some providerId ∧
      m.groupId ∉ s.want providerId claimed → ¬ s.OtherGives providerId m.groupId userId

instance (s : Accounts) (providerId userId : Uuid) (claimed : List String) :
    Decidable (s.SpeaksForAll providerId userId claimed) :=
  inferInstanceAs (Decidable (∀ i ∈ _, _))

instance (s : Accounts) (providerId userId : Uuid) (claimed : List String) :
    Decidable (s.SyncKeeps providerId userId claimed) :=
  inferInstanceAs (Decidable (_ ∧ ∀ m ∈ _, _))

/-- What keeps a sign-in from disturbing others, once its user is found: its sync does; and where it
is refused, a new identity brings no mapped group. -/
def SignInKeeps (provider : IdentityProvider) (c : UpstreamClaims) :
    Except String (Accounts × Uuid × Bool) → Prop
  | .error _ => True
  | .ok (t, userId, _) =>
    if t.barred userId then s.linked provider c = none → t.want provider.id c.groups = []
    else (t.setGroups provider c).SyncKeeps provider.id userId c.groups

instance (s : Accounts) (provider : IdentityProvider) (c : UpstreamClaims) :
    ∀ found, Decidable (s.SignInKeeps provider c found)
  | .error _ => inferInstanceAs (Decidable True)
  | .ok (t, userId, _) => inferInstanceAs (Decidable
      (if t.barred userId then s.linked provider c = none → t.want provider.id c.groups = []
      else (t.setGroups provider c).SyncKeeps provider.id userId c.groups))

def GroupsKept : AccountsAction → Prop
  | .userForUpstream provider c id => s.SignInKeeps provider c (s.linkUpstream provider c id)
  | .putMappings providerId rules => ∀ i ∈ s.identities, i.providerId = providerId →
      (s.setMappings providerId rules).SyncKeeps providerId i.userId i.groups
  | _ => True

instance (s : Accounts) : ∀ a : AccountsAction, Decidable (s.GroupsKept a)
  | .userForUpstream provider c id =>
    inferInstanceAs (Decidable (s.SignInKeeps provider c (s.linkUpstream provider c id)))
  | .putMappings providerId rules =>
    inferInstanceAs (Decidable (∀ i ∈ s.identities, i.providerId = providerId →
      (s.setMappings providerId rules).SyncKeeps providerId i.userId i.groups))
  | .createUser _ _ | .setDisabled _ _ | .putMember _ _ | .deleteMember _ _ =>
    inferInstanceAs (Decidable True)

/-- Every membership has its reason, and every reason its membership, for the providers and users of
`C`. -/
structure TidyOn (C : Uuid → Uuid → Prop) (s : Accounts) : Prop where
  hand : ∀ g u, s.hand g u = true ↔ ⟨g, u, none⟩ ∈ s.members
  given : ∀ g u p, C p u → ⟨g, u, some p⟩ ∈ s.members → s.Gives p g u ∧ s.removed p g u = false
  covers : ∀ g u p, C p u → s.Gives p g u → s.removed p g u = false → s.IsMember g u
  unique : ∀ i ∈ s.identities, ∀ j ∈ s.identities, i.providerId = j.providerId →
    i.subject = j.subject → i.userId = j.userId

def Tidy : Accounts → Prop := TidyOn fun _ _ => True

variable {s : Accounts}

theorem Tidy.exact (h : s.Tidy) : s.Exact := by
  intro g u
  constructor
  · rintro ⟨⟨g, u, p⟩, hm, rfl, rfl⟩
    cases p with
    | none => exact .inl ((h.hand g u).mpr hm)
    | some p => exact .inr ⟨p, h.given g u p trivial hm⟩
  · rintro (hhand | ⟨p, hgives, hremoved⟩)
    · exact ⟨_, (h.hand g u).mp hhand, rfl, rfl⟩
    · exact h.covers g u p trivial hgives hremoved

theorem TidyOn.mono {C C' : Uuid → Uuid → Prop} (h : s.TidyOn C)
    (hC : ∀ p u, C' p u → C p u) : s.TidyOn C' :=
  ⟨h.hand, fun g u p hc => h.given g u p (hC p u hc), fun g u p hc => h.covers g u p (hC p u hc),
    h.unique⟩

/-! ### A sync -/

variable {providerId : Uuid}

theorem mem_want :
    g ∈ s.want providerId claimed ↔
      ∃ m ∈ s.mappings, m.providerId = providerId ∧ m.claim ∈ claimed ∧ m.groupId = g := by
  simp only [want, mem_dedup, List.mem_map, mem_filter, Bool.and_eq_true, decide_eq_true_eq,
    contains_iff_mem, and_assoc]

variable {m : GroupMember}

theorem mem_syncMappedGroups :
    m ∈ (s.syncMappedGroups providerId userId claimed).1.members ↔
      (m ∈ s.members ∧ ¬ (m.userId = userId ∧ m.providerId = some providerId ∧
        m.groupId ∉ s.want providerId claimed)) ∨
      (m.userId = userId ∧ m.providerId = some providerId ∧ m.groupId ∈ s.want providerId claimed ∧
        ¬ s.IsMember m.groupId userId) := by
  unfold syncMappedGroups
  rw [mem_append, mem_filter, List.mem_map]
  refine or_congr (and_congr_right fun hm => ?_) ?_
  · rw [Bool.not_eq_true', ← Bool.not_eq_true, not_iff_not, Bool.and_eq_true, Bool.and_eq_true,
      decide_eq_true_eq, decide_eq_true_eq, contains_iff_mem, mem_filter, decide_eq_true_eq,
      and_assoc]
    refine and_congr_right fun huser => and_congr_right fun hprovider => ?_
    -- A row of the user's from this provider is among those it dropped from.
    refine and_iff_right (List.mem_map.mpr ⟨m, mem_filter.mpr ⟨mem_filter.mpr ⟨hm, ?_⟩, ?_⟩, rfl⟩)
    · exact decide_eq_true huser
    · exact decide_eq_true hprovider
  · have hany : ∀ g, g ∈ (s.members.filter fun m => m.userId = userId).map (·.groupId) ↔
        s.IsMember g userId := by
      intro g
      simp only [List.mem_map, mem_filter, decide_eq_true_eq, IsMember]
      constructor
      · rintro ⟨m, ⟨hm, huser⟩, hgroup⟩
        exact ⟨m, hm, hgroup, huser⟩
      · rintro ⟨m, hm, hgroup, huser⟩
        exact ⟨m, ⟨hm, huser⟩, hgroup⟩
    constructor
    · rintro ⟨g, hg, rfl⟩
      obtain ⟨hwant, hnot⟩ := mem_filter.mp hg
      exact ⟨rfl, rfl, hwant, fun h => of_decide_eq_true hnot ((hany g).mpr h)⟩
    · rintro ⟨huser, hprovider, hwant, hnot⟩
      refine ⟨m.groupId, mem_filter.mpr ⟨hwant, ?_⟩, ?_⟩
      · exact decide_eq_true fun h => hnot ((hany m.groupId).mp h)
      · rw [← huser, ← hprovider]

theorem removed_syncMappedGroups (h : ¬ (p = providerId ∧ u = userId)) :
    (s.syncMappedGroups providerId userId claimed).1.removed p g u = s.removed p g u := if_neg h

theorem isMember_syncMappedGroups (hm : m ∈ s.members)
    (hkept : ¬ (m.userId = userId ∧ m.providerId = some providerId ∧
      m.groupId ∉ s.want providerId claimed)) :
    (s.syncMappedGroups providerId userId claimed).1.IsMember m.groupId m.userId :=
  ⟨m, mem_syncMappedGroups.mpr (.inl ⟨hm, hkept⟩), rfl, rfl⟩

theorem isMember_of_want
    (hg : g ∈ s.want providerId claimed) :
    (s.syncMappedGroups providerId userId claimed).1.IsMember g userId := by
  by_cases hmember : s.IsMember g userId
  · obtain ⟨m, hm, rfl, rfl⟩ := hmember
    exact isMember_syncMappedGroups hm fun h => h.2.2 hg
  · exact ⟨⟨g, userId, some providerId⟩, mem_syncMappedGroups.mpr (.inr ⟨rfl, rfl, hg, hmember⟩),
      rfl, rfl⟩

variable {C : Uuid → Uuid → Prop}

theorem TidyOn.sync {i : UserIdentity} (h : s.TidyOn C)
    (hi : i ∈ s.identities) (hkeeps : s.SyncKeeps i.providerId i.userId i.groups) :
    (s.syncMappedGroups i.providerId i.userId i.groups).1.TidyOn fun p u =>
      C p u ∨ (p = i.providerId ∧ u = i.userId) := by
  refine ⟨?_, ?_, ?_, h.unique⟩
  · intro g u
    -- A row added by hand names no provider: the sync neither drops nor adds one.
    show s.hand g u = true ↔ _
    rw [h.hand g u, mem_syncMappedGroups]
    constructor
    · exact fun hm => .inl ⟨hm, fun hdropped => nomatch hdropped.2.1⟩
    · rintro (⟨hm, -⟩ | ⟨-, hprovider, -⟩)
      · exact hm
      · cases hprovider
  · intro g u p hc hm
    by_cases hhere : p = i.providerId ∧ u = i.userId
    · obtain ⟨rfl, rfl⟩ := hhere
      have hwant : g ∈ s.want i.providerId i.groups := by
        rcases mem_syncMappedGroups.mp hm with ⟨-, hkept⟩ | ⟨-, -, hwant, -⟩
        · by_contra hnot
          exact hkept ⟨rfl, rfl, hnot⟩
        · exact hwant
      exact ⟨⟨i, hi, rfl, rfl, hwant⟩, if_pos ⟨rfl, rfl⟩⟩
    · have hc := hc.resolve_right hhere
      rw [removed_syncMappedGroups hhere]
      rcases mem_syncMappedGroups.mp hm with ⟨hm, -⟩ | ⟨huser, hprovider, -⟩
      · exact h.given g u p hc hm
      · exact absurd ⟨some.inj hprovider, huser⟩ hhere
  · intro g u p hc hgives hremoved
    by_cases hhere : p = i.providerId ∧ u = i.userId
    · obtain ⟨rfl, rfl⟩ := hhere
      obtain ⟨j, hj, hprovider, huser, hwant⟩ := hgives
      -- What the user's other identities there bring, this one brings too.
      exact isMember_of_want (hkeeps.1 j hj hprovider huser hwant)
    · have hc := hc.resolve_right hhere
      rw [removed_syncMappedGroups hhere] at hremoved
      obtain ⟨m, hm, rfl, rfl⟩ := h.covers g u p hc hgives hremoved
      refine isMember_syncMappedGroups hm ?_
      rintro ⟨huser, hprovider, hwant⟩
      -- The row it drops is the only one, but another provider gives the group.
      obtain ⟨j, hj, rfl, hjuser, hgroup⟩ := hgives
      refine hkeeps.2 m hm ⟨huser, hprovider, hwant⟩ ⟨j, hj, ?_, hjuser.trans huser, hgroup, ?_⟩
      · exact fun hsame => hhere ⟨hsame, huser⟩
      · rw [← huser]
        exact hremoved

/-! ### A sign-in -/

theorem TidyOn.of_gives {s t : Accounts} (h : s.TidyOn C)
    (hmembers : t.members = s.members) (hhand : t.hand = s.hand) (hremoved : t.removed = s.removed)
    (hgives : ∀ g u p, C p u → (t.Gives p g u ↔ s.Gives p g u))
    (hunique : ∀ i ∈ t.identities, ∀ j ∈ t.identities, i.providerId = j.providerId →
      i.subject = j.subject → i.userId = j.userId) : t.TidyOn C := by
  refine ⟨?_, ?_, ?_, hunique⟩
  · rw [hmembers, hhand]
    exact h.hand
  · intro g u p hc hm
    rw [hmembers] at hm
    rw [hgives g u p hc, hremoved]
    exact h.given g u p hc hm
  · intro g u p hc hg hnot
    rw [hgives g u p hc] at hg
    rw [hremoved] at hnot
    unfold IsMember
    rw [hmembers]
    exact h.covers g u p hc hg hnot

theorem setGroups_gives
    (huser : ∀ i ∈ s.identities, i.providerId = provider.id → i.subject = c.sub → i.userId = u)
    {v : Uuid} (h : ¬ (p = provider.id ∧ v = u)) :
    (s.setGroups provider c).Gives p g v ↔ s.Gives p g v := by
  have hother : ∀ i ∈ s.identities, i.providerId = p → i.userId = v →
      (if i.providerId = provider.id ∧ i.subject = c.sub then { i with groups := c.groups } else i) = i := by
    intro i hi hprovider hv
    refine if_neg fun hkey => h ⟨hprovider.symm.trans hkey.1, ?_⟩
    exact hv.symm.trans (huser i hi hkey.1 hkey.2)
  constructor
  · rintro ⟨j, hj, hprovider, hv, hwant⟩
    obtain ⟨i, hi, rfl⟩ := List.mem_map.mp hj
    have hkeep := hother i hi (by split_ifs at hprovider <;> exact hprovider)
      (by split_ifs at hv <;> exact hv)
    rw [hkeep] at hprovider hv hwant
    exact ⟨i, hi, hprovider, hv, hwant⟩
  · rintro ⟨i, hi, hprovider, hv, hwant⟩
    exact ⟨i, List.mem_map.mpr ⟨i, hi, hother i hi hprovider hv⟩, hprovider, hv, hwant⟩

theorem setGroups_unique
    (h : ∀ i ∈ s.identities, ∀ j ∈ s.identities, i.providerId = j.providerId →
      i.subject = j.subject → i.userId = j.userId) :
    ∀ i ∈ (s.setGroups provider c).identities, ∀ j ∈ (s.setGroups provider c).identities,
      i.providerId = j.providerId → i.subject = j.subject → i.userId = j.userId := by
  intro i hi j hj hprovider hsubject
  obtain ⟨i', hi', hii'⟩ := (sameLinks_setGroups s provider c).ofNew i hi
  obtain ⟨j', hj', hjj'⟩ := (sameLinks_setGroups s provider c).ofNew j hj
  rw [← hii', ← hjj'] at hprovider hsubject ⊢
  exact h i' hi' j' hj' hprovider hsubject

theorem link_gives {v : Uuid}
    (h : ¬ (p = provider.id ∧ v = u ∧ g ∈ s.want provider.id c.groups)) :
    (s.link provider c email u created).Gives p g v ↔ s.Gives p g v := by
  constructor
  · rintro ⟨i, hi, hprovider, hv, hwant⟩
    rcases mem_append.mp hi with hi | hi
    · exact ⟨i, hi, hprovider, hv, hwant⟩
    · obtain rfl := mem_singleton.mp hi
      obtain rfl := hprovider
      exact absurd ⟨rfl, hv.symm, hwant⟩ h
  · rintro ⟨i, hi, hprovider, hv, hwant⟩
    exact ⟨i, mem_append_left _ hi, hprovider, hv, hwant⟩

theorem link_unique (hlinked : s.linked provider c = none)
    (h : ∀ i ∈ s.identities, ∀ j ∈ s.identities, i.providerId = j.providerId →
      i.subject = j.subject → i.userId = j.userId) :
    ∀ i ∈ (s.link provider c email u created).identities,
      ∀ j ∈ (s.link provider c email u created).identities,
      i.providerId = j.providerId → i.subject = j.subject → i.userId = j.userId := by
  intro i hi j hj hprovider hsubject
  rcases mem_append.mp hi with hi | hi
  · rcases mem_append.mp hj with hj | hj
    · exact h i hi j hj hprovider hsubject
    · obtain rfl := mem_singleton.mp hj
      exact absurd hsubject (linked_none hlinked i hi hprovider)
  · obtain rfl := mem_singleton.mp hi
    rcases mem_append.mp hj with hj | hj
    · exact absurd hsubject.symm (linked_none hlinked j hj hprovider.symm)
    · obtain rfl := mem_singleton.mp hj
      rfl

theorem linked_spec {i : UserIdentity}
    (h : s.linked provider c = some i) :
    i ∈ s.identities ∧ i.providerId = provider.id ∧ i.subject = c.sub := by
  have hkey := List.find?_some h
  rw [Bool.and_eq_true] at hkey
  exact ⟨mem_of_find?_eq_some h, of_decide_eq_true hkey.1, of_decide_eq_true hkey.2⟩

theorem TidyOn.link (h : s.TidyOn C)
    (hlinked : s.linked provider c = none)
    (hC : ∀ g p v, C p v → ¬ (p = provider.id ∧ v = u ∧ g ∈ s.want provider.id c.groups)) :
    (s.link provider c email u created).TidyOn C :=
  h.of_gives rfl rfl rfl (fun g v p hc => link_gives (hC g p v hc)) (link_unique hlinked h.unique)

theorem tidy_linkUpstream {s t : Accounts}
    {id : Uuid} (h : s.Tidy)
    (hlink : s.linkUpstream provider c id = .ok (t, u, created)) :
    t.TidyOn (fun p v => ¬ (p = provider.id ∧ v = u)) ∧
      (∀ i ∈ t.identities, i.providerId = provider.id → i.subject = c.sub → i.userId = u) ∧
      ∃ i ∈ t.identities, i.providerId = provider.id ∧ i.subject = c.sub := by
  have hnew : ∀ (s : Accounts) (email : String) (u : Uuid) (created : Bool), s.Tidy →
      s.linked provider c = none →
      (s.link provider c email u created).TidyOn (fun p v => ¬ (p = provider.id ∧ v = u)) ∧
      (∀ i ∈ (s.link provider c email u created).identities, i.providerId = provider.id →
        i.subject = c.sub → i.userId = u) ∧
      ∃ i ∈ (s.link provider c email u created).identities,
        i.providerId = provider.id ∧ i.subject = c.sub := by
    intro s email u created h hlinked
    refine ⟨(h.mono fun _ _ _ => trivial).link hlinked fun g p v hc hsame => hc ⟨hsame.1, hsame.2.1⟩,
      ?_, _, mem_append_right _ (mem_singleton_self _), rfl, rfl⟩
    intro i hi hprovider hsubject
    rcases mem_append.mp hi with hi | hi
    · exact absurd hsubject (linked_none hlinked i hi hprovider)
    · obtain rfl := mem_singleton.mp hi
      rfl
  obtain ⟨i, hlinked, rfl, rfl⟩ | ⟨email, user, hlinked, -, -, -, rfl, rfl⟩ |
    ⟨email, hlinked, -, rfl, rfl⟩ := linkUpstream_cases hlink
  · obtain ⟨hi, hprovider, hsubject⟩ := linked_spec hlinked
    refine ⟨h.mono fun _ _ _ => trivial, ?_, i, hi, hprovider, hsubject⟩
    intro j hj hjprovider hjsubject
    exact h.unique j hj i hi (hjprovider.trans hprovider.symm) (hjsubject.trans hsubject.symm)
  · exact hnew s email user.id false h hlinked
  · exact hnew _ email u true ⟨h.hand, h.given, h.covers, h.unique⟩ hlinked

theorem Tidy.userForUpstream
    {id : Uuid} (h : s.Tidy) (hok : s.GroupsKept (.userForUpstream provider c id)) :
    (s.userForUpstream provider c id).1.Tidy := by
  obtain ⟨-, heq⟩ | ⟨t, u, created, hlink, hres⟩ := userForUpstream_cases s provider c id
  · rw [heq]
    exact h
  change s.SignInKeeps provider c (s.linkUpstream provider c id) at hok
  rw [hlink] at hok
  dsimp only [SignInKeeps] at hok
  rcases hres with ⟨hbarred, heq⟩ | ⟨hbarred, heq⟩
  · -- Refused: an identity that was there has not changed, and a new one gives nothing.
    rw [heq]
    rw [if_pos hbarred] at hok
    have hnothing : ∀ (s : Accounts) (g p v u : Uuid), s.want provider.id c.groups = [] → True →
        ¬ (p = provider.id ∧ v = u ∧ g ∈ s.want provider.id c.groups) := by
      intro s g p v u hnone _ hg
      rw [hnone] at hg
      exact not_mem_nil hg.2.2
    obtain ⟨i, hlinked, rfl, -⟩ | ⟨email, user, hlinked, -, -, -, -, rfl⟩ |
      ⟨email, hlinked, -, -, rfl⟩ := linkUpstream_cases hlink
    · exact h
    · exact TidyOn.link h hlinked fun g p v => hnothing _ g p v _ (hok hlinked)
    · have husers : Tidy { s with users := s.users ++ [⟨id, email, false⟩] } :=
        ⟨h.hand, h.given, h.covers, h.unique⟩
      exact TidyOn.link husers hlinked fun g p v => hnothing _ g p v _ (hok hlinked)
  · rw [heq]
    rw [if_neg (Bool.eq_false_iff.mp hbarred)] at hok
    obtain ⟨htidy, huser, i, hi, hprovider, hsubject⟩ := tidy_linkUpstream h hlink
    have hset : (t.setGroups provider c).TidyOn fun p v => ¬ (p = provider.id ∧ v = u) :=
      htidy.of_gives rfl rfl rfl (fun g v p hc => setGroups_gives huser hc)
        (setGroups_unique htidy.unique)
    have hmem : { i with groups := c.groups } ∈ (t.setGroups provider c).identities :=
      List.mem_map.mpr ⟨i, hi, if_pos ⟨hprovider, hsubject⟩⟩
    obtain rfl := huser i hi hprovider hsubject
    rw [← hprovider] at hok ⊢
    refine (hset.sync hmem hok).mono fun p v _ => ?_
    by_cases hhere : p = i.providerId ∧ v = i.userId
    · exact .inr hhere
    · rw [hprovider] at hhere
      exact .inl hhere

/-! ### New mappings -/

variable {rules : List (String × Uuid)}

theorem want_setMappings
    (h : p ≠ providerId) (claimed : List String) :
    ∀ g, g ∈ (s.setMappings providerId rules).want p claimed ↔ g ∈ s.want p claimed := by
  intro g
  rw [mem_want, mem_want]
  constructor
  · rintro ⟨m, hm, hprovider, hclaim⟩
    rcases mem_append.mp hm with hm | hm
    · exact ⟨m, (mem_filter.mp hm).1, hprovider, hclaim⟩
    · obtain ⟨rule, -, rfl⟩ := List.mem_map.mp hm
      exact absurd hprovider.symm h
  · rintro ⟨m, hm, hprovider, hclaim⟩
    refine ⟨m, mem_append_left _ (mem_filter.mpr ⟨hm, decide_eq_true ?_⟩), hprovider, hclaim⟩
    rw [hprovider]
    exact h

def Unsigned (providerId userId : Uuid) : Prop :=
  ∀ i ∈ s.identities, i.providerId = providerId → i.userId ≠ userId

theorem Tidy.setMappings
    (h : s.Tidy) : (s.setMappings providerId rules).TidyOn fun p u =>
      p = providerId → s.Unsigned providerId u := by
  have hbefore : s.TidyOn fun p u => p = providerId → s.Unsigned providerId u :=
    h.mono fun _ _ _ => trivial
  refine hbefore.of_gives rfl rfl rfl ?_ h.unique
  intro g u p hc
  by_cases hp : p = providerId
  · -- Neither gives anything to someone the provider does not know.
    constructor
    · rintro ⟨i, hi, hprovider, hu, -⟩
      exact absurd hu (hc hp i hi (hprovider.trans hp))
    · rintro ⟨i, hi, hprovider, hu, -⟩
      exact absurd hu (hc hp i hi (hprovider.trans hp))
  · unfold Gives
    simp only [want_setMappings hp]
    exact Iff.rfl

/-- What a sync needs does not change while others are synced. -/
structure Resyncing (providerId : Uuid) (s : Accounts) (done : List UserIdentity) (t : Accounts) :
    Prop where
  identities : t.identities = s.identities
  mappings : t.mappings = s.mappings
  removed : ∀ p g u, p ≠ providerId → t.removed p g u = s.removed p g u
  rows : ∀ m ∈ t.members, m.providerId = some providerId →
    m ∈ s.members ∨ s.Gives providerId m.groupId m.userId
  tidy : t.TidyOn fun p u => (p = providerId → s.Unsigned providerId u) ∨
    (p = providerId ∧ ∃ i ∈ done, i.userId = u)

namespace Resyncing

variable {providerId : Uuid} {s t : Accounts} {done : List UserIdentity} {i : UserIdentity}

theorem want (h : Resyncing providerId s done t) (p : Uuid) (claimed : List String) :
    t.want p claimed = s.want p claimed := by
  unfold Accounts.want
  rw [h.mappings]

theorem syncKeeps (h : Resyncing providerId s done t)
    (hkeeps : s.SyncKeeps providerId i.userId i.groups) :
    t.SyncKeeps providerId i.userId i.groups := by
  have hall : t.SpeaksForAll providerId i.userId i.groups := by
    unfold SpeaksForAll
    simp only [h.identities, h.want]
    exact hkeeps.1
  refine ⟨hall, ?_⟩
  rintro m hm ⟨huser, hprovider, hnot⟩ ⟨j, hj, hjprovider, hjuser, hwant, hremoved⟩
  rw [h.want] at hnot hwant
  rw [h.identities] at hj
  rw [h.removed _ _ _ hjprovider] at hremoved
  -- A row of the provider's that has come since is one that some identity brings.
  rcases h.rows m hm hprovider with hm | ⟨k, hk, hkprovider, hkuser, hkwant⟩
  · exact hkeeps.2 m hm ⟨huser, hprovider, hnot⟩ ⟨j, hj, hjprovider, hjuser, hwant, hremoved⟩
  · exact hnot (hkeeps.1 k hk hkprovider (hkuser.trans huser) hkwant)

theorem sync (h : Resyncing providerId s done t) (hi : i ∈ s.identities)
    (hprovider : i.providerId = providerId) (hkeeps : s.SyncKeeps providerId i.userId i.groups) :
    Resyncing providerId s (i :: done) (t.syncMappedGroups providerId i.userId i.groups).1 := by
  refine ⟨h.identities, h.mappings, ?_, ?_, ?_⟩
  · intro p g u hp
    rw [removed_syncMappedGroups fun hsame => hp hsame.1]
    exact h.removed p g u hp
  · intro m hm hmprovider
    rcases mem_syncMappedGroups.mp hm with ⟨hm, -⟩ | ⟨huser, -, hwant, -⟩
    · exact h.rows m hm hmprovider
    · rw [h.want] at hwant
      exact .inr ⟨i, hi, hprovider, huser.symm, hwant⟩
  · subst hprovider
    have hsynced := h.tidy.sync (h.identities ▸ hi) (h.syncKeeps hkeeps)
    refine hsynced.mono fun p u => ?_
    rintro (hc | ⟨hp, j, hj, rfl⟩)
    · exact .inl (.inl hc)
    · rcases mem_cons.mp hj with rfl | hj
      · exact .inr ⟨hp, rfl⟩
      · exact .inl (.inr ⟨hp, j, hj, rfl⟩)

end Resyncing

theorem Tidy.putMappings
    (h : s.Tidy) (hok : s.GroupsKept (.putMappings providerId rules)) :
    ((s.setMappings providerId rules).resyncProvider providerId).1.Tidy := by
  let t := s.setMappings providerId rules
  have hstart : Resyncing providerId t [] t :=
    ⟨rfl, rfl, fun _ _ _ _ => rfl, fun m hm _ => .inl hm, h.setMappings.mono fun p u hc =>
      hc.resolve_right fun hdone => nomatch hdone.2⟩
  obtain ⟨done, hdone, hres⟩ := resyncProvider_induct (P := Resyncing providerId t) t providerId hstart
    fun done u i hi hprovider hu => hu.sync hi hprovider (hok i hi hprovider)
  refine hres.tidy.mono fun p u _ => ?_
  -- Everyone the provider signed in has been synced; to the others the mappings give nothing.
  by_cases hp : p = providerId ∧ ∃ i ∈ t.identities, i.providerId = providerId ∧ i.userId = u
  · obtain ⟨rfl, i, hi, hprovider, huser⟩ := hp
    exact .inr ⟨rfl, i, hdone i hi hprovider, huser⟩
  · left
    intro hsame i hi hprovider huser
    exact hp ⟨hsame, i, hi, hprovider, huser⟩

/-! ### By hand -/

theorem mem_putMember :
    m ∈ (s.putMember g u).members ↔
      m = ⟨g, u, none⟩ ∨ (m ∈ s.members ∧ ¬ (m.groupId = g ∧ m.userId = u)) := by
  unfold putMember
  split_ifs with hany
  · rw [List.mem_map]
    constructor
    · rintro ⟨r, hr, rfl⟩
      split_ifs with hkey
      · obtain ⟨rfl, rfl⟩ := hkey
        exact .inl rfl
      · exact .inr ⟨hr, hkey⟩
    · rintro (rfl | ⟨hm, hkey⟩)
      · obtain ⟨r, hr, hkey⟩ := any_eq_true.mp hany
        rw [Bool.and_eq_true] at hkey
        obtain ⟨rfl, rfl⟩ : r.groupId = g ∧ r.userId = u :=
          ⟨of_decide_eq_true hkey.1, of_decide_eq_true hkey.2⟩
        exact ⟨r, hr, if_pos ⟨rfl, rfl⟩⟩
      · exact ⟨m, hm, if_neg hkey⟩
  · rw [mem_append, mem_singleton]
    constructor
    · rintro (hm | rfl)
      · refine .inr ⟨hm, fun hkey => hany (any_eq_true.mpr ⟨m, hm, ?_⟩)⟩
        rw [Bool.and_eq_true]
        exact ⟨decide_eq_true hkey.1, decide_eq_true hkey.2⟩
      · exact .inl rfl
    · rintro (rfl | ⟨hm, -⟩)
      · exact .inr rfl
      · exact .inl hm

theorem mem_deleteMember :
    m ∈ (s.deleteMember g u).members ↔ m ∈ s.members ∧ ¬ (m.groupId = g ∧ m.userId = u) := by
  unfold deleteMember
  rw [mem_filter, Bool.not_eq_true', ← Bool.not_eq_true, Bool.and_eq_true, decide_eq_true_eq,
    decide_eq_true_eq]

theorem Tidy.putMember (h : s.Tidy) (groupId userId : Uuid) :
    (s.putMember groupId userId).Tidy := by
  refine ⟨?_, ?_, ?_, h.unique⟩
  · intro g u
    rw [mem_putMember]
    show (if g = groupId ∧ u = userId then true else s.hand g u) = true ↔ _
    split_ifs with hkey
    · obtain ⟨rfl, rfl⟩ := hkey
      exact ⟨fun _ => .inl rfl, fun _ => rfl⟩
    · rw [h.hand g u]
      constructor
      · exact fun hm => .inr ⟨hm, hkey⟩
      · rintro (heq | ⟨hm, -⟩)
        · cases heq
          exact absurd ⟨rfl, rfl⟩ hkey
        · exact hm
  · intro g u p _ hm
    rcases mem_putMember.mp hm with heq | ⟨hm, -⟩
    · cases heq
    · exact h.given g u p trivial hm
  · intro g u p _ hgives hremoved
    by_cases hkey : g = groupId ∧ u = userId
    · obtain ⟨rfl, rfl⟩ := hkey
      exact ⟨_, mem_putMember.mpr (.inl rfl), rfl, rfl⟩
    · obtain ⟨m, hm, rfl, rfl⟩ := h.covers g u p trivial hgives hremoved
      exact ⟨m, mem_putMember.mpr (.inr ⟨hm, hkey⟩), rfl, rfl⟩

theorem Tidy.deleteMember (h : s.Tidy) (groupId userId : Uuid) :
    (s.deleteMember groupId userId).Tidy := by
  refine ⟨?_, ?_, ?_, h.unique⟩
  · intro g u
    rw [mem_deleteMember]
    show (if g = groupId ∧ u = userId then false else s.hand g u) = true ↔ _
    split_ifs with hkey
    · exact ⟨nofun, fun hm => absurd hkey hm.2⟩
    · rw [h.hand g u]
      exact (and_iff_left hkey).symm
  · intro g u p _ hm
    obtain ⟨hm, hkey⟩ := mem_deleteMember.mp hm
    show _ ∧ (if g = groupId ∧ u = userId then true else s.removed p g u) = false
    rw [if_neg hkey]
    exact h.given g u p trivial hm
  · intro g u p _ hgives hremoved
    change (if g = groupId ∧ u = userId then true else s.removed p g u) = false at hremoved
    split_ifs at hremoved with hkey
    obtain ⟨m, hm, rfl, rfl⟩ := h.covers g u p trivial hgives hremoved
    exact ⟨m, mem_deleteMember.mpr ⟨hm, hkey⟩, rfl, rfl⟩

/-! ### Every run -/

theorem Tidy.step {s t : Accounts} {a : AccountsAction} (h : s.Tidy) (hok : s.GroupsKept a)
    (hs : s.step a = some t) : t.Tidy := by
  cases a with
  | userForUpstream provider c id =>
    dsimp only [Accounts.step] at hs
    split_ifs at hs
    obtain rfl := some.inj hs
    exact h.userForUpstream hok
  | createUser email id =>
    dsimp only [Accounts.step] at hs
    split_ifs at hs
    obtain rfl := some.inj hs
    exact ⟨h.hand, h.given, h.covers, h.unique⟩
  | setDisabled userId disabled =>
    obtain rfl := some.inj hs
    exact ⟨h.hand, h.given, h.covers, h.unique⟩
  | putMappings providerId rules =>
    obtain rfl := some.inj hs
    exact h.putMappings hok
  | putMember groupId userId =>
    dsimp only [Accounts.step] at hs
    split_ifs at hs
    obtain rfl := some.inj hs
    exact h.putMember groupId userId
  | deleteMember groupId userId =>
    obtain rfl := some.inj hs
    exact h.deleteMember groupId userId

/-- Along the runs whose syncs speak for all of a user's identities at the provider and drop nothing
another provider gives, members are exactly those added by hand and those the mappings give. -/
theorem memberships_exact (users : List UserRow) (mappings : List GroupMapping) (t : Accounts)
    (h : Run Accounts.step GroupsKept (start users mappings) t) : t.Exact := by
  have hstart : (start users mappings).Tidy :=
    ⟨fun _ _ => ⟨fun h => absurd h Bool.false_ne_true, fun h => absurd h not_mem_nil⟩,
      fun _ _ _ _ h => absurd h not_mem_nil, fun _ _ _ _ hgives => (nomatch hgives),
      fun _ h => absurd h not_mem_nil⟩
  exact (h.invariant hstart fun _ _ _ h hok hs => h.step hok hs).exact

def groupG : Uuid := idD1

def bothMap : List GroupMapping := [⟨providerP.id, "dev", groupG⟩, ⟨providerQ.id, "dev", groupG⟩]

/-- Someone is mapped into the group, added to it by hand as well, and loses the claim. -/
theorem memberships_exact_byHand : ∃ t : Accounts,
    Run Accounts.step GroupsKept (start [] bothMap) t ∧
      t.members = [⟨groupG, userU, none⟩] ∧ t.Exact := by
  have hexec : ((Run.exec Accounts.step GroupsKept (start [] bothMap)
      [.userForUpstream providerP (claimsOf true ["dev"]) userU, .putMember groupG userU,
        .userForUpstream providerP (claimsOf true []) clusterC.id,
        .putMappings providerP.id [("ops", groupG)]]).map (·.members)) =
      some [⟨groupG, userU, none⟩] := by
    decide
  obtain ⟨t, ht, hshown⟩ := map_eq_some_iff.mp hexec
  have hrun := Run.of_exec .refl ht
  exact ⟨t, hrun, hshown, memberships_exact [] bothMap t hrun⟩

/-- Two providers give someone the group; the one whose row it is no longer does, and drops it. -/
theorem dropped_though_given : ¬ ∀ t : Accounts,
    Run Accounts.step (fun _ _ => True) (start [] bothMap) t → t.Exact := by
  intro h
  have hexec : ((Run.exec Accounts.step (fun _ _ => True) (start [] bothMap)
      [.userForUpstream providerP (claimsOf true ["dev"]) userU,
        .userForUpstream providerQ (claimsOf true ["dev"]) clusterC.id,
        .userForUpstream providerP (claimsOf true []) clusterC.id]).map fun t =>
      (t.members, decide (t.OtherGives providerP.id groupG userU))) = some ([], true) := by
    decide +kernel
  obtain ⟨t, ht, hshown⟩ := map_eq_some_iff.mp hexec
  obtain ⟨hnone, hgives⟩ := Prod.mk.inj hshown
  obtain ⟨i, hi, -, huser, hwant, hremoved⟩ := of_decide_eq_true hgives
  obtain ⟨m, hm, -⟩ := (h t (Run.of_exec .refl ht) groupG userU).mpr
    (.inr ⟨i.providerId, ⟨i, hi, rfl, huser, hwant⟩, hremoved⟩)
  rw [hnone] at hm
  exact not_mem_nil hm

end Accounts

end IncusCloud.Identity
