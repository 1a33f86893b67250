import IncusCloud.Firecloud.Proofs.TrustSession
import Mathlib.Data.Fintype.Basic

/-!
# Where a join intent goes

`Stop` receives from the channel of intents, to see whether it is closed, and then closes it. Under
the handler's write lock no post is in its transaction then. session/stop calls it under the read
lock: what it receives there is an intent whose post returns success, and a post that comes to its
send after the close panics. Where no post is about at these two steps, each intent whose post
returned success came to a handler (`intents_delivered`).
-/

namespace IncusCloud.Firecloud.Trust

open Option

open Lib (RwLock Run)

namespace World

variable {ι : Type} [DecidableEq ι] {w w' : World ι} {i : ι} {o : Outcome ι}

/-- No post has sent on a closed channel, and what posts that returned success had to say was
received by a handler, and not by `Stop`. -/
def Delivered (requests : ι → Request) (w : World ι) : Prop :=
  (∀ j, w.tasks j ≠ .panicked) ∧
    ∀ j post, requests j = .join post → w.tasks j = .done true →
      (∃ k, (j, .handler k) ∈ w.received) ∧ ∀ k, (j, .stop k) ∉ w.received

/-- When session/stop comes to the channel of a session no post waits on it, and when it closes it
no post is in its transaction on the session. -/
def StopsAlone (w : World ι) : Action ι → Prop
  | .go i _ =>
    match w.tasks i with
    | .stopping .put s .probing => ∀ j, (w.tasks j).sendsOn s = false
    | .stopping .put s .closing => ∀ j, (w.tasks j).posts s = false
    | _ => True
  | .hangUp _ => True

/-- What holds in every state of every run that meets `StopsAlone`. -/
structure Open (requests : ι → Request) (w : World ι) : Prop where
  guarded : Guarded w
  cleared : Cleared w
  /-- Nobody is left in a transaction on a session whose channel is closed. -/
  closed : ∀ (s : ℕ) (x : Session ι), w.sessions[s]? = some x → x.intentsClosed = true →
    x.passphrase = "" ∧ ∀ j, (w.tasks j).posts s = false
  received : ∀ r ∈ w.received, ∃ k, r.2 = .handler k
  panicked : ∀ j, w.tasks j ≠ .panicked
  joins : ∀ j post, requests j = .join post → (w.tasks j).joins = true ∨ ∃ r, (j, r) ∈ w.received

/-! ### What a step of the mover does -/

theorem Effect.posts (h : Effect w i o w') {s : ℕ} {j : ι} (hj : (w'.tasks j).posts s = true) :
    (w.tasks j).posts s = true ∨ ∃ x, w.sessions[s]? = some x ∧ x.passphrase ≠ "" := by
  by_cases hji : j = i
  · subst hji
    have htask : ∀ (v : World ι) (t : Task), (v.setTask j t).tasks j = t := by
      intro v t
      rw [tasks_setTask, if_pos rfl]
    have hnot : ∀ t : Task, w'.tasks j = t → t.posts s = false →
        (w.tasks j).posts s = true ∨ ∃ x, w.sessions[s]? = some x ∧ x.passphrase ≠ "" := by
      intro t ht hposts
      rw [ht, hposts] at hj
      cases hj
    cases h with
    | enter post s' x l hfrom hl hx hpass =>
      rw [htask] at hj
      exact .inr ⟨x, of_decide_eq_true hj ▸ hx, hpass⟩
    | register post s' fingerprint hfrom =>
      rw [htask] at hj
      rw [hfrom]
      exact .inl hj
    | send post s' hfrom hopen =>
      rw [htask] at hj
      rw [hfrom]
      exact .inl hj
    | idle t hfrom hto hjoins => exact hnot t (htask w t) ((Task.of_idle hto).2.2.2 s)
    | handler role phase t hfrom hto =>
      refine hnot t (htask w t) ?_
      rcases hto with rfl | ⟨phase', rfl, -⟩ <;> rfl
    | discovery role s' t hfrom hs hto =>
      refine hnot t (htask _ t) ?_
      rcases hto with rfl | rfl <;> rfl
    | abandon by_ s' phase hfrom hphase ho =>
      obtain ⟨b, hb, -⟩ := tasks_stopped w j by_ s' false
      exact hnot _ hb rfl
    | exit by_ s' closes hfrom =>
      have hend := tasks_stopped (w.modify s' fun x => { x with exitClosed := closes || x.exitClosed }) j by_ s' true
      obtain ⟨b, hb, -⟩ := hend
      exact hnot _ hb rfl
    | close by_ s' hfrom => exact hnot (.stopping by_ s' .exiting) (by simp [closeIntents]) rfl
    | leave s' hfrom => exact hnot (.done false) (by rw [tasks_leave, if_pos rfl]) rfl
    | _ => exact hnot _ (htask _ _) rfl
  · rcases h.others hji with hsame | ⟨t, -, ⟨hend, -⟩ | ⟨hend, -⟩⟩
    · exact .inl (hsame ▸ hj)
    · rw [hend] at hj
      cases hj
    · rw [hend] at hj
      cases hj

theorem Effect.panics (h : Effect w i o w') (hto : w'.tasks i = .panicked) :
    ∃ s x, w.sessions[s]? = some x ∧ x.intentsClosed = true ∧ (w.tasks i).posts s = true := by
  have htask : ∀ (v : World ι) (t : Task), (v.setTask i t).tasks i = t := by
    intro v t
    rw [tasks_setTask, if_pos rfl]
  have hnot : ∀ t : Task, w'.tasks i = t → t ≠ .panicked →
      ∃ s x, w.sessions[s]? = some x ∧ x.intentsClosed = true ∧ (w.tasks i).posts s = true :=
    fun t ht hne => absurd (ht.symm.trans hto) hne
  cases h with
  | panic post s hfrom hclosed =>
    obtain ⟨x, hx, hxclosed⟩ := (Option.any_eq_true _ _).mp hclosed
    refine ⟨s, x, hx, hxclosed, ?_⟩
    rw [hfrom]
    exact decide_eq_true rfl
  | idle t hfrom hidle hjoins =>
    refine hnot t (htask w t) fun ht => ?_
    rw [ht] at hidle
    cases hidle
  | handler role phase t hfrom hgoes =>
    refine hnot t (htask w t) fun ht => ?_
    rcases hgoes with rfl | ⟨phase', rfl, -⟩ <;> cases ht
  | discovery role s t hfrom hs hgoes =>
    refine hnot t (htask _ t) fun ht => ?_
    rcases hgoes with rfl | rfl <;> cases ht
  | abandon by_ s phase hfrom hphase ho =>
    obtain ⟨b, hb, -⟩ := tasks_stopped w i by_ s false
    exact hnot _ hb fun ht => by cases ht
  | exit by_ s closes hfrom =>
    have hend := tasks_stopped (w.modify s fun x => { x with exitClosed := closes || x.exitClosed }) i by_ s true
    obtain ⟨b, hb, -⟩ := hend
    exact hnot _ hb fun ht => by cases ht
  | close by_ s hfrom => exact hnot (.stopping by_ s .exiting) (by simp [closeIntents]) fun ht => by cases ht
  | leave s hfrom => exact hnot (.done false) (by rw [tasks_leave, if_pos rfl]) fun ht => by cases ht
  | _ => exact hnot _ (htask _ _) fun ht => by cases ht

theorem Effect.joins (h : Effect w i o w') (hfrom : (w.tasks i).joins = true) : (w'.tasks i).joins = true := by
  have htask : ∀ (v : World ι) (t : Task), (v.setTask i t).tasks i = t := by
    intro v t
    rw [tasks_setTask, if_pos rfl]
  -- The other requests are no posts.
  have hother : ∀ t, w.tasks i = t → t.joins = false → (w'.tasks i).joins = true := by
    intro t ht hnot
    rw [ht, hnot] at hfrom
    exact nomatch hfrom
  have hpost : ∀ t, w'.tasks i = t → t.joins = true → (w'.tasks i).joins = true := by
    intro t ht hjoins
    rw [ht]
    exact hjoins
  -- A post that stops its session returns an error.
  have hstop : ∀ by_ s phase, w.tasks i = .stopping by_ s phase → (w'.tasks i).joins = true := by
    intro by_ s phase hat
    have hlimit : by_ = .limit := by
      rw [hat] at hfrom
      cases by_ with
      | limit => rfl
      | _ => exact nomatch hfrom
    subst hlimit
    rcases h.of_stopping hat with ⟨phase', hto, -⟩ | ⟨⟨b, hend, hb⟩, -⟩
    · exact hpost _ hto rfl
    · rw [hb rfl] at hend
      exact hpost _ hend rfl
  cases h with
  | idle t hidle hto hjoins => exact hpost t (htask w t) (hjoins hfrom)
  | start role given passphrase phase ho hat hphase hpass hl => exact hother _ hat rfl
  | handler role phase t hat hto => exact hother _ hat rfl
  | discovery role s t hat hs hto => exact hother _ hat rfl
  | allow role phase phase' s intent hat hs hto => exact hother _ hat rfl
  | receive role s j post hat hj => exact hother _ hat rfl
  | stopSession s l hat hs hl => exact hother _ hat rfl
  | noSession hat hs => exact hother _ hat rfl
  | put s l hat hl => exact hother _ hat rfl
  | lockSession by_ s phase hat hto => exact hstop by_ s _ hat
  | stop by_ s phase phase' hat hto => exact hstop by_ s _ hat
  | probe by_ s hat => exact hstop by_ s _ hat
  | abandon by_ s phase hat hphase ho => exact hstop by_ s _ hat
  | clear by_ s x hat hx => exact hstop by_ s _ hat
  | take by_ s j hat hj => exact hstop by_ s _ hat
  | close by_ s hat => exact hstop by_ s _ hat
  | exit by_ s closes hat => exact hstop by_ s _ hat
  | leave s hat => exact hpost (.done false) (by rw [tasks_leave, if_pos rfl]) rfl
  | lets post s x hat hl hx hpass => exact hpost _ (htask w _) rfl
  | wrong post s x hat hl hx hpass hmore => exact hpost _ (htask _ _) rfl
  | exceeds post s x l hat hl hx => exact hpost _ (htask w _) rfl
  | enter post s x l hat hl hx hpass => exact hpost _ (htask w _) rfl
  | register post s fingerprint hat => exact hpost _ (htask _ _) rfl
  | send post s hat hopen => exact hpost _ (htask w _) rfl
  | panic post s hat hclosed => exact hpost _ (htask _ _) rfl

theorem Effect.received (h : Effect w i o w') :
    (∃ rs, w'.received = rs ++ w.received ∧ ∀ r ∈ rs, r.2 = .handler i) ∨
      ∃ by_ s j, w'.received = (j, .stop i) :: w.received ∧ w.tasks i = .stopping by_ s .probing ∧
        (w.tasks j).sendsOn s = true := by
  have hkeep : w'.received = w.received →
      (∃ rs, w'.received = rs ++ w.received ∧ ∀ r ∈ rs, r.2 = .handler i) ∨
        ∃ by_ s j, w'.received = (j, .stop i) :: w.received ∧ w.tasks i = .stopping by_ s .probing ∧
          (w.tasks j).sendsOn s = true :=
    fun hsame => .inl ⟨[], hsame, fun r hr => nomatch hr⟩
  cases h with
  | receive role s j post hfrom hj =>
    refine .inl ⟨[(j, .handler i)], rfl, fun r hr => ?_⟩
    rw [List.mem_singleton.mp hr]
  | take by_ s j hfrom hj => exact .inr ⟨by_, s, j, rfl, hfrom, hj⟩
  | abandon by_ s phase hfrom hphase ho => cases by_ <;> exact hkeep rfl
  | exit by_ s closes hfrom => cases by_ <;> exact hkeep rfl
  | _ => exact hkeep rfl

/-! ### Every run -/

variable {requests : ι → Request}

omit [DecidableEq ι] in
theorem Open.alone (hi : Open requests w) (hok : StopsAlone w (.go i o)) {by_ : StopBy}
    {s : ℕ} :
    (w.tasks i = .stopping by_ s .closing → ∀ j, (w.tasks j).posts s = false) ∧
      (w.tasks i = .stopping by_ s .probing → ∀ j, (w.tasks j).sendsOn s = false) := by
  -- Under the write lock nobody is in a transaction.
  have hlocked : (w.tasks i).writes = true → ∀ j, (w.tasks j).posts s = false := by
    intro hwrites j
    by_contra hposts
    have hreads := Task.reads_of_posts (by simpa using hposts)
    exact RwLock.Guards.not_reads hi.guarded hwrites hreads
  have hsends : (∀ j, (w.tasks j).posts s = false) → ∀ j, (w.tasks j).sendsOn s = false := by
    intro hposts j
    by_contra hj
    have hin := Task.posts_of_sendsOn (by simpa using hj)
    rw [hposts j] at hin
    exact nomatch hin
  constructor
  · intro hat
    cases by_ with
    | put =>
      simp only [StopsAlone, hat] at hok
      exact hok
    | limit | deferred => exact hlocked (by rw [hat]; rfl)
  · intro hat
    cases by_ with
    | put =>
      simp only [StopsAlone, hat] at hok
      exact hok
    | limit | deferred => exact hsends (hlocked (by rw [hat]; rfl))

theorem Effect.open (h : Effect w i o w') (hi : Open requests w)
    (hok : StopsAlone w (.go i o)) : Open requests w' := by
  have hreceived : ∀ r ∈ w.received, r ∈ w'.received := by
    intro r hr
    rcases h.received with ⟨rs, hrs, -⟩ | ⟨by_, s, j, hj, -⟩
    · rw [hrs]
      exact List.mem_append_right rs hr
    · rw [hj]
      exact List.mem_cons_of_mem _ hr
  refine ⟨h.guarded hi.guarded, h.cleared hi.cleared, ?_, ?_, ?_, ?_⟩
  · intro s y hy hyclosed
    rcases h.new hy with ⟨x, hx⟩ | ⟨-, -, role, passphrase, rfl⟩
    · obtain ⟨y', hy', hafter⟩ := h.session hx
      obtain rfl := some.inj (hy.symm.trans hy')
      -- It was closed before, or it is closed here; in both cases nobody is in it and nobody comes.
      have hbefore : x.passphrase = "" ∧ ∀ j, (w.tasks j).posts s = false := by
        rcases hafter.intentsClosed hyclosed with hclosed | ⟨by_, hclosing⟩
        · exact hi.closed s x hx hclosed
        · obtain ⟨z, hz, hnone⟩ := hi.cleared i by_ s .closing hclosing rfl
          rw [some.inj (hz.symm.trans hx)] at hnone
          exact ⟨hnone, (hi.alone hok).1 hclosing⟩
      constructor
      · rcases hafter.passphrase with hpass | hpass
        · rw [hpass]
          exact hbefore.1
        · exact hpass
      · intro j
        by_contra hj
        rcases h.posts (by simpa using hj) with hposts | ⟨z, hz, hpass⟩
        · rw [hbefore.2 j] at hposts
          exact nomatch hposts
        · rw [some.inj (hz.symm.trans hx)] at hpass
          exact hpass hbefore.1
    · exact nomatch hyclosed
  · intro r hr
    rcases h.received with ⟨rs, hrs, hhandler⟩ | ⟨by_, s, j, -, hprobing, hsends⟩
    · rw [hrs] at hr
      rcases List.mem_append.mp hr with hr | hr
      · exact ⟨i, hhandler r hr⟩
      · exact hi.received r hr
    · rw [(hi.alone hok).2 hprobing j] at hsends
      exact nomatch hsends
  · intro j hj
    by_cases hji : j = i
    · subst hji
      obtain ⟨s, x, hx, hclosed, hposts⟩ := h.panics hj
      rw [(hi.closed s x hx hclosed).2 j] at hposts
      exact nomatch hposts
    · rcases h.others hji with hsame | ⟨s, hsends, ⟨hend, -⟩ | ⟨-, by_, hclosing⟩⟩
      · exact hi.panicked j (hsame ▸ hj)
      · exact nomatch hend.symm.trans hj
      · have hposts := Task.posts_of_sendsOn hsends
        rw [(hi.alone hok).1 hclosing j] at hposts
        exact nomatch hposts
  · intro j post hpost
    rcases hi.joins j post hpost with hjoins | ⟨r, hr⟩
    · by_cases hji : j = i
      · subst hji
        exact .inl (h.joins hjoins)
      · rcases h.others hji with hsame | ⟨s, -, ⟨-, hr⟩ | ⟨hend, -⟩⟩
        · exact .inl (hsame ▸ hjoins)
        · exact .inr hr
        · rw [hend]
          exact .inl rfl
    · exact .inr ⟨r, hreceived _ hr⟩

omit [DecidableEq ι] in
theorem open_start (requests : ι → Request) : Open requests (start requests) := by
  refine ⟨guarded_start requests, fun _ _ _ _ h => (nomatch h), fun _ _ h => (nomatch h),
    fun _ h => (nomatch h), fun _ h => (nomatch h), ?_⟩
  intro j post hpost
  left
  show (Task.fresh (requests j)).joins = true
  rw [hpost]
  rfl

theorem open_of_run (h : Run step StopsAlone (start requests) w) : Open requests w := by
  refine h.invariant (open_start requests) fun v a u hi hok hs => ?_
  cases a with
  | go i o => exact (go_effect hs).open hi hok
  | hangUp i =>
    rw [← some.inj hs]
    exact ⟨hi.guarded, hi.cleared, hi.closed, hi.received, hi.panicked, hi.joins⟩

/-- **Accepted join intents reach a handler**: in every run in which session/stop comes to the
channel of a session and closes it while no post is about, no post sends on a closed channel, and
what a post that returned success had to say was received by a handler. -/
theorem intents_delivered {requests : ι → Request} (h : Run step StopsAlone (start requests) w) :
    Delivered requests w := by
  have hi := open_of_run h
  refine ⟨hi.panicked, fun j post hpost hdone => ⟨?_, fun k hk => ?_⟩⟩
  · rcases hi.joins j post hpost with hjoins | ⟨r, hr⟩
    · rw [hdone] at hjoins
      exact nomatch hjoins
    · obtain ⟨k, hk⟩ := hi.received _ hr
      exact ⟨k, hk ▸ hr⟩
  · obtain ⟨k', hk'⟩ := hi.received _ hk
    exact nomatch hk'

instance [Fintype ι] (w : World ι) (a : Action ι) : Decidable (StopsAlone w a) := by
  unfold StopsAlone
  split
  · split <;> infer_instance
  · infer_instance

end World

/-! ### A session that is stopped -/

/-- What the request has come to: it has returned success, or it has panicked. -/
def Task.ended : Task → Bool
  | .done ok => ok
  | _ => false

def Task.hasPanicked : Task → Bool
  | .panicked => true
  | _ => false

theorem Task.eq_done {t : Task} (h : t.ended = true) : t = .done true := by
  cases t with
  | done ok => exact congrArg Task.done h
  | _ => exact nomatch h

theorem Task.eq_panicked {t : Task} (h : t.hasPanicked = true) : t = .panicked := by
  cases t with
  | panicked => rfl
  | _ => exact nomatch h

def peerPost : JoinPost :=
  { hmac := fun p => p = "able", intent := ⟨"peer", "certificate"⟩, fingerprint := some "fingerprint" }

def postAndStop : Fin 3 → Request
  | 0 => .session .initiating
  | 1 => .join peerPost
  | 2 => .stop

def postComes : List (Action (Fin 3)) :=
  [.go 0 .ok, .go 0 (.passphrase "able"), .go 0 (.passphrase ""), .go 1 .ok, .go 1 .ok, .go 1 .ok]

def stopComes : List (Action (Fin 3)) :=
  [.go 2 .ok, .go 2 .ok, .go 2 .ok, .hangUp 0, .go 2 .ok, .go 2 .ok, .go 2 .ok]

theorem intents_delivered_handler :
    ∃ w : World (Fin 3), w.received = [(1, .handler 0)] ∧ w.Delivered postAndStop := by
  obtain ⟨w, hrun, hreceived⟩ : ∃ w : World (Fin 3),
      Run World.step World.StopsAlone (World.start postAndStop) w ∧ w.received = [(1, .handler 0)] :=
    Run.exists_of_exec
      (postComes ++ [.go 0 .ok, .go 0 .ok, .go 0 .ok, .go 1 .ok, .go 0 (.takes 1)] ++ stopComes ++
        [.go 2 .ok, .go 2 .ok, .go 2 .ok]) (by decide)
  exact ⟨w, hreceived, World.intents_delivered hrun⟩

/-- The post waits as session/stop comes to the channel, or it comes to its send after the close:
then its intent is lost with success, or it panics. -/
theorem intent_lost_to_stop :
    (¬ ∀ w : World (Fin 3), Run World.step (fun _ _ => True) (World.start postAndStop) w → w.Delivered postAndStop) ∧
      ∃ w : World (Fin 3), Run World.step (fun _ _ => True) (World.start postAndStop) w ∧ w.tasks 1 = .panicked := by
  constructor
  · intro h
    obtain ⟨w, hrun, hreceived, hended⟩ : ∃ w : World (Fin 3),
        Run World.step (fun _ _ => True) (World.start postAndStop) w ∧
          (w.received = [(1, .stop 2)] ∧ (w.tasks 1).ended = true) :=
      Run.exists_of_exec (postComes ++ [.go 1 .ok] ++ stopComes ++ [.go 2 (.takes 1)]) (by decide)
    have hnot := ((h w hrun).2 1 peerPost rfl (Task.eq_done hended)).2 2
    rw [hreceived] at hnot
    exact hnot List.mem_cons_self
  · obtain ⟨w, hrun, hpanicked⟩ : ∃ w : World (Fin 3),
        Run World.step (fun _ _ => True) (World.start postAndStop) w ∧ (w.tasks 1).hasPanicked = true :=
      Run.exists_of_exec (postComes ++ stopComes ++ [.go 2 .ok, .go 2 .ok, .go 1 .ok]) (by decide)
    exact ⟨w, hrun, Task.eq_panicked hpanicked⟩

end IncusCloud.Firecloud.Trust
