import IncusCloud.Identity.Federation

/-!
# Which upstream accounts share a user

Linking by email asks for a verified address; creating a user does not, and what is created can be
linked to later. `linked_accounts_verified`: two upstream accounts of one user both presented its
address as verified, along the runs in which none is linked to a user that a sign-in with an
unverified address created; and the first that is breaks it.
-/

namespace IncusCloud.Identity

open Lib Acl Api List Option

variable {s t : Accounts} {provider : IdentityProvider} {id : Uuid}

def UserIdentity.SameLink (i j : UserIdentity) : Prop := { i with groups := j.groups } = j

namespace Accounts

def PresentedVerified (s : Accounts) (i : UserIdentity) : Prop :=
  i.verified = true ∧ ∃ u ∈ s.users, u.id = i.userId ∧ sameEmail u.email i.email = true

def VerifiedPairs (s : Accounts) : Prop :=
  ∀ i ∈ s.identities, ∀ j ∈ s.identities, (i.providerId, i.subject) ≠ (j.providerId, j.subject) →
    i.userId = j.userId → s.PresentedVerified i ∧ s.PresentedVerified j

def CreatedUnverified (s : Accounts) (userId : Uuid) : Prop :=
  ∃ i ∈ s.identities, i.userId = userId ∧ i.created = true ∧ i.verified = false

instance (s : Accounts) (userId : Uuid) : Decidable (s.CreatedUnverified userId) :=
  inferInstanceAs (Decidable (∃ i ∈ _, _))

def linksTo (s : Accounts) (provider : IdentityProvider) (c : UpstreamClaims) : Option UserRow :=
  if s.linked provider c = none ∧ c.emailVerified = true then
    (c.email.filter (· ≠ "")).bind s.byEmail
  else none

def CreatorVerified (s : Accounts) : AccountsAction → Prop
  | .userForUpstream provider c _ => ∀ u ∈ s.linksTo provider c, ¬ s.CreatedUnverified u.id
  | _ => True

instance (s : Accounts) : ∀ a : AccountsAction, Decidable (s.CreatorVerified a)
  | .userForUpstream provider c _ =>
    inferInstanceAs (Decidable (∀ u ∈ s.linksTo provider c, ¬ s.CreatedUnverified u.id))
  | .createUser _ _ | .setDisabled _ _ | .putMappings _ _ | .putMember _ _ | .deleteMember _ _ =>
    inferInstanceAs (Decidable True)

/-- Each identity has its user, and each pair was verified. -/
structure Sound (s : Accounts) : Prop where
  user : ∀ i ∈ s.identities, ∃ u ∈ s.users, u.id = i.userId ∧ sameEmail u.email i.email = true
  /-- One that was linked with an unverified address created its user. -/
  creator : ∀ i ∈ s.identities, i.verified = false → i.created = true
  pairs : s.VerifiedPairs

structure SameLinks (s t : Accounts) : Prop where
  users : ∀ u ∈ s.users, ∃ v ∈ t.users, v.id = u.id ∧ v.email = u.email
  ofNew : ∀ j ∈ t.identities, ∃ i ∈ s.identities, i.SameLink j
  ofOld : ∀ i ∈ s.identities, ∃ j ∈ t.identities, i.SameLink j

theorem SameLinks.refl (s : Accounts) : SameLinks s s :=
  ⟨fun u hu => ⟨u, hu, rfl, rfl⟩, fun i hi => ⟨i, hi, rfl⟩, fun i hi => ⟨i, hi, rfl⟩⟩

theorem SameLinks.presented (h : SameLinks s t) {i j : UserIdentity}
    (hij : i.SameLink j) (hi : s.PresentedVerified i) : t.PresentedVerified j := by
  obtain ⟨hverified, u, hu, hid, hemail⟩ := hi
  obtain ⟨v, hv, hvid, hvemail⟩ := h.users u hu
  rw [← hij]
  exact ⟨hverified, v, hv, hvid.trans hid, hvemail ▸ hemail⟩

theorem SameLinks.pairs (h : SameLinks s t) (hs : s.VerifiedPairs) : t.VerifiedPairs := by
  intro j hj j' hj' hne hsame
  obtain ⟨i, hi, hij⟩ := h.ofNew j hj
  obtain ⟨i', hi', hij'⟩ := h.ofNew j' hj'
  have hpair : s.PresentedVerified i ∧ s.PresentedVerified i' := by
    apply hs i hi i' hi'
    · rw [← hij, ← hij'] at hne
      exact hne
    · rw [← hij, ← hij'] at hsame
      exact hsame
  exact ⟨h.presented hij hpair.1, h.presented hij' hpair.2⟩

theorem SameLinks.sound (h : SameLinks s t) (hs : s.Sound) : t.Sound := by
  refine ⟨?_, ?_, h.pairs hs.pairs⟩
  · intro j hj
    obtain ⟨i, hi, hij⟩ := h.ofNew j hj
    obtain ⟨u, hu, hid, hemail⟩ := hs.user i hi
    obtain ⟨v, hv, hvid, hvemail⟩ := h.users u hu
    rw [← hij]
    exact ⟨v, hv, hvid.trans hid, hvemail ▸ hemail⟩
  · intro j hj hverified
    obtain ⟨i, hi, hij⟩ := h.ofNew j hj
    rw [← hij] at hverified ⊢
    exact hs.creator i hi hverified

/-! ### What does not touch the links -/

/-- What holds before, and is kept by each of its syncs, holds after `resyncProvider`, with everyone
whom the provider signed in synced. -/
theorem resyncProvider_induct {P : List UserIdentity → Accounts → Prop} (s : Accounts)
    (providerId : Uuid) (h : P [] s)
    (hsync : ∀ done t, ∀ i ∈ s.identities, i.providerId = providerId → P done t →
      P (i :: done) (t.syncMappedGroups providerId i.userId i.groups).1) :
    ∃ done, (∀ i ∈ s.identities, i.providerId = providerId → i ∈ done) ∧
      P done (s.resyncProvider providerId).1 := by
  have hall : ∀ f : Accounts × Bool → UserIdentity → Accounts × Bool,
      (∀ t i, (f t i).1 = (t.1.syncMappedGroups providerId i.userId i.groups).1) →
      ∀ (is done : List UserIdentity) (t : Accounts × Bool),
        (∀ i ∈ is, i ∈ s.identities ∧ i.providerId = providerId) → P done t.1 →
        ∃ done', (∀ i ∈ is, i ∈ done') ∧ done ⊆ done' ∧ P done' (is.foldl f t).1 := by
    intro f hf is
    induction is with
    | nil => exact fun done t _ ht => ⟨done, (by simp), List.Subset.refl done, ht⟩
    | cons i is ih =>
      intro done t his ht
      obtain ⟨hi, hprovider⟩ := his i mem_cons_self
      obtain ⟨done', hall, hsub, hP⟩ := ih (i :: done) (f t i)
        (fun j hj => his j (mem_cons_of_mem i hj)) (hf t i ▸ hsync done t.1 i hi hprovider ht)
      refine ⟨done', ?_, ?_, hP⟩
      · intro j hj
        rcases mem_cons.mp hj with rfl | hj
        · exact hsub mem_cons_self
        · exact hall j hj
      · exact fun j hj => hsub (mem_cons_of_mem i hj)
  have hmine : ∀ i ∈ s.identities.filter fun i => i.providerId = providerId,
      i ∈ s.identities ∧ i.providerId = providerId :=
    fun i hi => ⟨(mem_filter.mp hi).1, of_decide_eq_true (mem_filter.mp hi).2⟩
  obtain ⟨done, hdone, -, hP⟩ : ∃ done, (∀ i ∈ s.identities.filter fun i => i.providerId = providerId, i ∈ done) ∧
      [] ⊆ done ∧ P done (s.resyncProvider providerId).1 := by
    refine hall _ ?_ _ [] (s, false) hmine h
    exact fun _ _ => rfl
  exact ⟨done, fun i hi hprovider => hdone i (mem_filter.mpr ⟨hi, decide_eq_true hprovider⟩), hP⟩

theorem SameLinks.of_eq (husers : t.users = s.users)
    (hidentities : t.identities = s.identities) : SameLinks s t := by
  refine ⟨?_, ?_, ?_⟩
  · rw [husers]
    exact fun u hu => ⟨u, hu, rfl, rfl⟩
  · rw [hidentities]
    exact fun i hi => ⟨i, hi, rfl⟩
  · rw [hidentities]
    exact fun i hi => ⟨i, hi, rfl⟩

theorem resyncProvider_same (s : Accounts) (providerId : Uuid) :
    (s.resyncProvider providerId).1.users = s.users ∧
      (s.resyncProvider providerId).1.identities = s.identities ∧
      (s.resyncProvider providerId).1.mappings = s.mappings ∧
      (s.resyncProvider providerId).1.hand = s.hand := by
  obtain ⟨-, -, h⟩ := resyncProvider_induct
    (P := fun _ t => t.users = s.users ∧ t.identities = s.identities ∧ t.mappings = s.mappings ∧
      t.hand = s.hand) s providerId ⟨rfl, rfl, rfl, rfl⟩ fun _ t _ _ _ ht => ht
  exact h

theorem sameLinks_setGroups (s : Accounts) (provider : IdentityProvider) (c : UpstreamClaims) :
    SameLinks s (s.setGroups provider c) := by
  have hsame : ∀ i : UserIdentity, i.SameLink
      (if i.providerId = provider.id ∧ i.subject = c.sub then { i with groups := c.groups } else i) := by
    intro i
    split_ifs
    · rfl
    · rfl
  refine ⟨fun u hu => ⟨u, hu, rfl, rfl⟩, ?_, ?_⟩
  · intro j hj
    obtain ⟨i, hi, rfl⟩ := List.mem_map.mp hj
    exact ⟨i, hi, hsame i⟩
  · intro i hi
    exact ⟨_, mem_map_of_mem hi, hsame i⟩

/-! ### A sign-in -/

variable {c : UpstreamClaims}

theorem linkUpstream_cases
    {userId : Uuid} {created : Bool}
    (h : s.linkUpstream provider c id = .ok (t, userId, created)) :
    (∃ i, s.linked provider c = some i ∧ t = s ∧ userId = i.userId) ∨
    (∃ email u, s.linked provider c = none ∧ c.email.filter (· ≠ "") = some email ∧
      s.byEmail email = some u ∧ c.emailVerified = true ∧ userId = u.id ∧
      t = s.link provider c email u.id false) ∨
    (∃ email, s.linked provider c = none ∧ s.byEmail email = none ∧ userId = id ∧
      t = link { s with users := s.users ++ [⟨id, email, false⟩] } provider c email id true) := by
  unfold linkUpstream at h
  split at h
  · rename_i i hlinked
    cases h
    exact .inl ⟨i, hlinked, rfl, rfl⟩
  · rename_i hlinked
    split at h
    · cases h
    · rename_i email hemail
      split at h
      · rename_i u hu
        split_ifs at h with hverified
        cases h
        exact .inr (.inl ⟨email, u, hlinked, hemail, hu, hverified, rfl, rfl⟩)
      · rename_i hu
        split_ifs at h
        cases h
        exact .inr (.inr ⟨email, hlinked, hu, rfl, rfl⟩)

theorem userForUpstream_cases (s : Accounts) (provider : IdentityProvider) (c : UpstreamClaims)
    (id : Uuid) :
    ((∃ reason, s.linkUpstream provider c id = .error reason) ∧
      (s.userForUpstream provider c id).1 = s) ∨
    ∃ t userId created, s.linkUpstream provider c id = .ok (t, userId, created) ∧
      ((t.barred userId = true ∧ (s.userForUpstream provider c id).1 = t) ∨
        (t.barred userId = false ∧ (s.userForUpstream provider c id).1 =
          ((t.setGroups provider c).syncMappedGroups provider.id userId c.groups).1)) := by
  unfold userForUpstream
  split
  · rename_i reason hreason
    exact .inl ⟨⟨reason, hreason⟩, rfl⟩
  · rename_i t userId created hlink
    refine .inr ⟨t, userId, created, hlink, ?_⟩
    by_cases hbarred : t.barred userId = true
    · rw [if_pos hbarred]
      exact .inl ⟨hbarred, rfl⟩
    · rw [if_neg hbarred]
      exact .inr ⟨Bool.eq_false_iff.mpr hbarred, rfl⟩

theorem sameLinks_userForUpstream
    {userId : Uuid} {created : Bool}
    (h : s.linkUpstream provider c id = .ok (t, userId, created)) :
    SameLinks t (s.userForUpstream provider c id).1 := by
  obtain ⟨⟨reason, herror⟩, -⟩ | ⟨t', userId', created', hok, hres⟩ :=
    userForUpstream_cases s provider c id
  · rw [h] at herror
    cases herror
  · rw [h] at hok
    cases hok
    rcases hres with ⟨-, heq⟩ | ⟨-, heq⟩
    · rw [heq]
      exact SameLinks.refl t
    · rw [heq]
      have hset := sameLinks_setGroups t provider c
      exact ⟨hset.users, hset.ofNew, hset.ofOld⟩

theorem sameEmail_refl (email : String) : sameEmail email email = true := decide_eq_true rfl

theorem byEmail_spec {email : String} {u : UserRow} (h : s.byEmail email = some u) :
    u ∈ s.users ∧ sameEmail u.email email = true :=
  ⟨mem_of_find?_eq_some h, by simpa using List.find?_some h⟩

theorem Sound.link {email : String}
    {u : UserRow} (h : s.Sound) (hu : u ∈ s.users) (hemail : sameEmail u.email email = true)
    (created : Bool) (hnew : c.emailVerified = false → created = true)
    (hothers : ∀ i ∈ s.identities, i.userId = u.id → i.verified = true ∧ c.emailVerified = true) :
    (s.link provider c email u.id created).Sound := by
  have hpresented : c.emailVerified = true → (s.link provider c email u.id created).PresentedVerified
      ⟨provider.id, c.sub, u.id, c.groups, email, c.emailVerified, created⟩ :=
    fun hverified => ⟨hverified, u, hu, rfl, hemail⟩
  refine ⟨?_, ?_, ?_⟩
  · intro i hi
    rcases mem_append.mp hi with hi | hi
    · exact h.user i hi
    · obtain rfl := mem_singleton.mp hi
      exact ⟨u, hu, rfl, hemail⟩
  · intro i hi hverified
    rcases mem_append.mp hi with hi | hi
    · exact h.creator i hi hverified
    · obtain rfl := mem_singleton.mp hi
      exact hnew hverified
  · intro i hi j hj hne hsame
    rcases mem_append.mp hi with hi | hi
    · rcases mem_append.mp hj with hj | hj
      · exact h.pairs i hi j hj hne hsame
      · obtain rfl := mem_singleton.mp hj
        obtain ⟨hverified, hc⟩ := hothers i hi hsame
        exact ⟨⟨hverified, h.user i hi⟩, hpresented hc⟩
    · obtain rfl := mem_singleton.mp hi
      rcases mem_append.mp hj with hj | hj
      · obtain ⟨hverified, hc⟩ := hothers j hj hsame.symm
        exact ⟨hpresented hc, hverified, h.user j hj⟩
      · obtain rfl := mem_singleton.mp hj
        exact absurd rfl hne

theorem Sound.newUser (h : s.Sound) (u : UserRow) :
    ({ s with users := s.users ++ [u] } : Accounts).Sound := by
  have husers : SameLinks s { s with users := s.users ++ [u] } :=
    ⟨fun v hv => ⟨v, mem_append_left _ hv, rfl, rfl⟩, fun i hi => ⟨i, hi, rfl⟩,
      fun i hi => ⟨i, hi, rfl⟩⟩
  exact husers.sound h

theorem Sound.userForUpstream (h : s.Sound)
    (hok : s.CreatorVerified (.userForUpstream provider c id))
    (hfresh : ∀ u ∈ s.users, u.id ≠ id) : (s.userForUpstream provider c id).1.Sound := by
  obtain ⟨-, heq⟩ | ⟨t, userId, created, hlink, -⟩ := userForUpstream_cases s provider c id
  · rw [heq]
    exact h
  refine (sameLinks_userForUpstream hlink).sound ?_
  obtain ⟨i, -, rfl, -⟩ | ⟨email, u, hlinked, hemail, hu, hverified, -, rfl⟩ |
    ⟨email, -, -, -, rfl⟩ := linkUpstream_cases hlink
  · exact h
  · obtain ⟨hmem, hsame⟩ := byEmail_spec hu
    refine h.link hmem hsame false ?_ ?_
    · intro hnot
      rw [hverified] at hnot
      cases hnot
    · intro i hi huser
      refine ⟨?_, hverified⟩
      -- An identity that was not verified created the user, which the condition rules out.
      by_contra hunverified
      have hfalse := Bool.eq_false_iff.mpr hunverified
      refine hok u ?_ ⟨i, hi, huser, h.creator i hi hfalse, hfalse⟩
      unfold linksTo
      rw [if_pos ⟨hlinked, hverified⟩, hemail]
      exact hu
  · -- A new user has no other identity.
    refine (h.newUser ⟨id, email, false⟩).link (u := ⟨id, email, false⟩) ?_ (sameEmail_refl email) true
      (fun _ => rfl) ?_
    · exact mem_append_right _ (mem_singleton_self _)
    · intro i hi huser
      obtain ⟨u, hu, hid, -⟩ := h.user i hi
      exact absurd (hid.trans huser) (hfresh u hu)

theorem Sound.step {a : AccountsAction} (h : s.Sound) (hok : s.CreatorVerified a)
    (hs : s.step a = some t) : t.Sound := by
  cases a with
  | userForUpstream provider c id =>
    dsimp only [Accounts.step] at hs
    split_ifs at hs with hused
    obtain rfl := some.inj hs
    refine h.userForUpstream hok ?_
    intro u hu hid
    exact hused (any_eq_true.mpr ⟨u, hu, decide_eq_true hid⟩)
  | createUser email id =>
    dsimp only [Accounts.step] at hs
    split_ifs at hs
    obtain rfl := some.inj hs
    exact h.newUser ⟨id, email, false⟩
  | setDisabled userId disabled =>
    obtain rfl := some.inj hs
    let new : UserRow → UserRow := fun u =>
      if u.id = userId then { u with disabled := disabled } else u
    have hnew : ∀ u, (new u).id = u.id ∧ (new u).email = u.email := by
      intro u
      unfold new
      split_ifs
      · exact ⟨rfl, rfl⟩
      · exact ⟨rfl, rfl⟩
    have hsame : SameLinks s { s with users := s.users.map new } :=
      ⟨fun u hu => ⟨new u, mem_map_of_mem hu, hnew u⟩, fun i hi => ⟨i, hi, rfl⟩,
        fun i hi => ⟨i, hi, rfl⟩⟩
    exact hsame.sound h
  | putMappings providerId rules =>
    obtain rfl := some.inj hs
    obtain ⟨husers, hidentities, -, -⟩ := resyncProvider_same (s.setMappings providerId rules) providerId
    exact (SameLinks.of_eq (s := s) husers hidentities).sound h
  | putMember groupId userId =>
    dsimp only [Accounts.step] at hs
    split_ifs at hs
    obtain rfl := some.inj hs
    have hsame : SameLinks s (s.putMember groupId userId) := SameLinks.of_eq rfl rfl
    exact hsame.sound h
  | deleteMember groupId userId =>
    obtain rfl := some.inj hs
    have hsame : SameLinks s (s.deleteMember groupId userId) := SameLinks.of_eq rfl rfl
    exact hsame.sound h

theorem linked_none
    (h : s.linked provider c = none) :
    ∀ i ∈ s.identities, i.providerId = provider.id → i.subject ≠ c.sub := by
  intro i hi hprovider hsubject
  have hnone := List.find?_eq_none.mp h i hi
  apply hnone
  rw [Bool.and_eq_true]
  exact ⟨decide_eq_true hprovider, decide_eq_true hsubject⟩

theorem not_verifiedPairs_of_linked (h : ¬ s.CreatorVerified (.userForUpstream provider c id)) :
    ¬ (s.userForUpstream provider c id).1.VerifiedPairs := by
  unfold CreatorVerified at h
  push Not at h
  obtain ⟨u, hu, i, hi, huser, -, hverified⟩ := h
  unfold linksTo at hu
  split_ifs at hu with hcond
  · obtain ⟨hlinked, hc⟩ := hcond
    obtain ⟨email, hemail, hby⟩ := bind_eq_some_iff.mp hu
    have hlink : s.linkUpstream provider c id = .ok (s.link provider c email u.id false, u.id, false) := by
      unfold linkUpstream
      simp only [hlinked, hemail, hby, hc, if_true]
    have hsame := sameLinks_userForUpstream hlink
    obtain ⟨i', hi', hii'⟩ := hsame.ofOld i (mem_append_left _ hi)
    obtain ⟨j', hj', hjj'⟩ := hsame.ofOld
      ⟨provider.id, c.sub, u.id, c.groups, email, c.emailVerified, false⟩
      (mem_append_right _ (mem_singleton_self _))
    intro hpairs
    have hpair := (hpairs i' hi' j' hj' ?_ ?_).1.1
    · rw [← hii'] at hpair
      rw [show i.verified = true from hpair] at hverified
      cases hverified
    · -- No identity had the new one's provider and subject.
      rw [← hii', ← hjj']
      intro heq
      obtain ⟨hprovider, hsubject⟩ := Prod.mk.inj heq
      exact linked_none hlinked i hi hprovider hsubject
    · rw [← hii', ← hjj']
      exact huser
  · cases hu

def start (users : List UserRow) (mappings : List GroupMapping) : Accounts :=
  ⟨users, [], mappings, [], fun _ _ => false, fun _ _ _ => false⟩

/-- Along the runs in which no sign-in is linked to a user that one with an unverified address
created, two upstream accounts of one user both presented its address as verified; the first sign-in
that is so linked breaks this. -/
theorem linked_accounts_verified (users : List UserRow) (mappings : List GroupMapping) :
    (∀ t, Run Accounts.step CreatorVerified (start users mappings) t → t.VerifiedPairs) ∧
      ∀ (t : Accounts) (a : AccountsAction) (u : Accounts),
        t.step a = some u → ¬ t.CreatorVerified a → ¬ u.VerifiedPairs := by
  constructor
  · intro t ht
    have hstart : (start users mappings).Sound :=
      ⟨fun _ h => absurd h not_mem_nil, fun _ h => absurd h not_mem_nil,
        fun _ h => absurd h not_mem_nil⟩
    exact (ht.invariant hstart fun _ _ _ h hok hs => h.step hok hs).pairs
  · intro t a u hs hok
    cases a with
    | userForUpstream provider c id =>
      dsimp only [Accounts.step] at hs
      split_ifs at hs
      obtain rfl := some.inj hs
      exact not_verifiedPairs_of_linked hok
    | _ => exact absurd trivial hok

def providerP : IdentityProvider := ⟨idB1, "P", true⟩

def providerQ : IdentityProvider := ⟨idB2, "Q", true⟩

def claimsOf (verified : Bool) (groups : List String) : UpstreamClaims :=
  ⟨"s", some "v@x", verified, groups⟩

/-- Someone whose address both providers have verified. -/
theorem linked_accounts_verified_twice : ∃ t : Accounts,
    Run Accounts.step CreatorVerified (start [] []) t ∧
      t.identities.map (fun i => (i.userId, i.verified)) = [(userU, true), (userU, true)] ∧
      t.VerifiedPairs := by
  have hexec : ((Run.exec Accounts.step CreatorVerified (start [] [])
      [.userForUpstream providerP (claimsOf true []) userU,
        .userForUpstream providerQ (claimsOf true []) clusterC.id]).map fun t =>
      t.identities.map fun i => (i.userId, i.verified)) = some [(userU, true), (userU, true)] := by
    decide +kernel
  obtain ⟨t, ht, hshown⟩ := map_eq_some_iff.mp hexec
  have hrun := Run.of_exec .refl ht
  exact ⟨t, hrun, hshown, (linked_accounts_verified [] []).1 t hrun⟩

/-- A provider that has not verified the address creates the user; the owner of the address, whom
another provider has verified, is let into it. -/
theorem unverified_creator_shares : ¬ ∀ t : Accounts,
    Run Accounts.step (fun _ _ => True) (start [] []) t → t.VerifiedPairs := by
  intro h
  have hexec : ((Run.exec Accounts.step (fun _ _ => True) (start [] [])
      [.userForUpstream providerP (claimsOf false []) userU]).map fun t =>
      decide (t.CreatorVerified (.userForUpstream providerQ (claimsOf true []) clusterC.id)) ||
        t.users.any fun u => u.id = clusterC.id) = some false := by
    decide +kernel
  obtain ⟨t, ht, hshown⟩ := map_eq_some_iff.mp hexec
  obtain ⟨hbad, hfresh⟩ := Bool.or_eq_false_iff.mp hshown
  have hs : t.step (.userForUpstream providerQ (claimsOf true []) clusterC.id) =
      some (t.userForUpstream providerQ (claimsOf true []) clusterC.id).1 := by
    dsimp only [Accounts.step]
    rw [hfresh]
    rfl
  have hrun := Run.tail _ (Run.of_exec .refl ht) trivial hs
  exact not_verifiedPairs_of_linked (of_decide_eq_false hbad) (h _ hrun)

end Accounts

end IncusCloud.Identity
