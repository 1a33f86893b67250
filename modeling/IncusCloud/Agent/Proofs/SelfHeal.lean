import IncusCloud.Agent.SelfHeal

/-!
# The watchdog restarts sparingly

A tick reads its guards and restarts the controllers some calls later. As long as no other restart
begins in between, the guards still hold then: an automatic restart begins a cooldown after every
other restart and while none is rolling out, and each attempt is one restart, of which there are few
between two calm ticks.

What a tick has read it knows of the time when that many restarts had begun: the others count up.
-/

namespace IncusCloud.Agent

open Lib Handler List Option

variable {ι : Type} [DecidableEq ι] {parse : String → Option ℤ} {i : ι} {w w' : Watch ι}

/-! ### Sparing -/

def HealEvent.apart : HealEvent → HealEvent → Prop
  | .restart later true _, .restart earlier _ _ => earlier + cooldownMs ≤ later
  | _, _ => True

def HealEvent.alone : HealEvent → Prop
  | .restart _ true rollingOut => rollingOut = 0
  | _ => True

def HealEvent.isAutomatic : HealEvent → Bool
  | .restart _ automatic _ => automatic
  | .calm => false

/-- What happened since a tick last saw no stale machine. -/
def sinceCalm (history : List HealEvent) : List HealEvent := history.takeWhile (· ≠ .calm)

/-- The restarts so far are apart, alone, and few since the last calm. -/
structure Sparing (w : Watch ι) : Prop where
  apart : w.history.Pairwise HealEvent.apart
  alone : ∀ e ∈ w.history, e.alone
  few : ∀ past, past <:+ w.history → (sinceCalm past).countP HealEvent.isAutomatic ≤ maxAttempts
  counted : w.attempts = (sinceCalm w.history).countP HealEvent.isAutomatic

def guardsCurrent (i : ι) (c : HealCall) (w : Watch ι) : Prop :=
  match c with
  | .restart _ => w.begun = w.seen i
  | _ => True

instance (i : ι) (c : HealCall) (w : Watch ι) : Decidable (guardsCurrent i c w) := by
  unfold guardsCurrent
  split <;> infer_instance

/-! ### What holds -/

structure HealInv (w : Watch ι) : Prop where
  sparing : Sparing w
  last : ∀ began automatic n, .restart began automatic n ∈ w.history →
    ∃ l, w.last = some l ∧ began ≤ l.began
  past : ∀ l, w.last = some l → l.began ≤ w.now
  idle : w.restarting = false → w.rollingOut = 0
  one : w.rollingOut ≤ 1
  seen : ∀ j, w.seen j ≤ w.begun

/-- What a tick leaves room for: while no restart begins, nothing that it has read gets worse. -/
structure HealRely (i : ι) (w w' : Watch ι) : Prop where
  seen : w'.seen i = w.seen i
  begun : w.begun ≤ w'.begun
  restarting : w'.begun = w.begun → w.restarting = false → w'.restarting = false
  last : w'.begun = w.begun → w'.last.map (·.began) = w.last.map (·.began)
  now : w.now ≤ w'.now
  attempts : w'.begun = w.begun → w'.attempts ≤ w.attempts

def healing (ι : Type) : Protocol ι HealCall (Watch ι) HealAct where
  ok := guardsCurrent
  okOutside _ _ := True
  inv := HealInv
  rely := HealRely
  guar i w w' := ∀ j, j ≠ i → HealRely j w w'

/-- The tick has passed its checks, if none has begun a restart since. -/
structure Passed (i : ι) (w : Watch ι) : Prop where
  seen : w.seen i ≤ w.begun
  restarting : w.begun = w.seen i → w.restarting = false
  cooled : w.begun = w.seen i → ∀ l, w.last = some l → l.began + cooldownMs ≤ w.now

structure Judged (i : ι) (w : Watch ι) : Prop extends Passed i w where
  attempts : w.begun = w.seen i → w.attempts < maxAttempts

omit [DecidableEq ι] in
theorem HealRely.same (hw : HealRely i w w') (h : w.seen i ≤ w.begun)
    (hsame : w'.begun = w'.seen i) : w'.begun = w.begun ∧ w.begun = w.seen i := by
  have hseen := hw.seen
  have hbegun := hw.begun
  omega

omit [DecidableEq ι] in
theorem Passed.kept (hw : HealRely i w w') (h : Passed i w) : Passed i w' := by
  refine ⟨?_, fun hsame => ?_, fun hsame l hl => ?_⟩
  · rw [hw.seen]
    exact h.seen.trans hw.begun
  · obtain ⟨hbegun, hread⟩ := hw.same h.seen hsame
    exact hw.restarting hbegun (h.restarting hread)
  · obtain ⟨hbegun, hread⟩ := hw.same h.seen hsame
    have hlast : w.last.map (·.began) = some l.began := by
      rw [← hw.last hbegun, hl]
      rfl
    obtain ⟨l₀, hl₀, hbegan⟩ := map_eq_some_iff.mp hlast
    have hcooled := h.cooled hread l₀ hl₀
    rw [hbegan] at hcooled
    exact hcooled.trans hw.now

omit [DecidableEq ι] in
theorem Judged.kept (hw : HealRely i w w') (h : Judged i w) : Judged i w' := by
  refine ⟨h.toPassed.kept hw, fun hsame => ?_⟩
  obtain ⟨hbegun, hread⟩ := hw.same h.seen hsame
  exact (hw.attempts hbegun).trans_lt (h.attempts hread)

/-! ### Restarts -/

omit [DecidableEq ι] in
theorem HealRely.refl : HealRely i w w :=
  ⟨rfl, le_refl _, fun _ h => h, fun _ => rfl, le_refl _, fun _ => le_refl _⟩

variable {automatic : Bool}

omit [DecidableEq ι] in
theorem restartControllers_eq {reason : String}
    (h : w.restartControllers reason automatic = some w') :
    w.restarting = false ∧ w' =
      { w with
        restarting := true
        last := some ⟨w.now, reason, automatic, none, none⟩
        rollingOut := w.rollingOut + 1
        history := .restart w.now automatic w.rollingOut :: w.history } := by
  unfold Watch.restartControllers at h
  split_ifs at h with hbusy
  exact ⟨Bool.eq_false_iff.mpr hbusy, (some.inj h).symm⟩

omit [DecidableEq ι] in
theorem begun_restart {w : Watch ι} {began n : ℕ} {history : List HealEvent}
    (h : w.history = .restart began automatic n :: history) :
    w.begun = history.countP HealEvent.isRestart + 1 := by
  unfold Watch.begun
  rw [h, countP_cons]
  rfl

omit [DecidableEq ι] in
theorem inv_restart {reason : String} {attempts : ℕ} (hinv : HealInv w)
    (h : { w with attempts := attempts }.restartControllers reason automatic = some w')
    (hauto : automatic = true → (∀ l, w.last = some l → l.began + cooldownMs ≤ w.now) ∧
      w.attempts < maxAttempts)
    (hattempts : attempts = w.attempts + if automatic then 1 else 0) :
    HealInv w' ∧ w'.begun = w.begun + 1 ∧ w'.seen = w.seen ∧ w'.now = w.now := by
  obtain ⟨hidle, rfl⟩ := restartControllers_eq h
  have hrolling := hinv.idle hidle
  have hcount : (sinceCalm (.restart w.now automatic w.rollingOut :: w.history)).countP
      HealEvent.isAutomatic = w.attempts + if automatic then 1 else 0 := by
    show ((_ :: sinceCalm w.history).countP _) = _
    rw [countP_cons, ← hinv.sparing.counted]
    rfl
  refine ⟨⟨⟨?_, ?_, ?_, ?_⟩, ?_, ?_, ?_, ?_, ?_⟩, begun_restart rfl, rfl, rfl⟩
  · refine pairwise_cons.mpr ⟨fun e he => ?_, hinv.sparing.apart⟩
    cases automatic with
    | false => trivial
    | true =>
      cases e with
      | calm => trivial
      | restart began automatic' n =>
        obtain ⟨l, hl, hle⟩ := hinv.last began automatic' n he
        have hcooled := (hauto rfl).1 l hl
        show began + cooldownMs ≤ w.now
        omega
  · intro e he
    rcases mem_cons.mp he with rfl | he
    · cases automatic with
      | false => trivial
      | true => exact hrolling
    · exact hinv.sparing.alone e he
  · intro past hpast
    rcases suffix_cons_iff.mp hpast with rfl | hpast
    · rw [hcount]
      cases automatic with
      | false =>
        have hfew := hinv.sparing.few w.history suffix_rfl
        rw [← hinv.sparing.counted] at hfew
        exact hfew
      | true => exact (hauto rfl).2
    · exact hinv.sparing.few past hpast
  · exact hattempts.trans hcount.symm
  · intro began automatic' n he
    refine ⟨_, rfl, ?_⟩
    rcases mem_cons.mp he with heq | he
    · obtain ⟨rfl, -, -⟩ := HealEvent.restart.inj heq
      exact le_refl _
    · obtain ⟨l, hl, hle⟩ := hinv.last began automatic' n he
      exact hle.trans (hinv.past l hl)
  · intro l hl
    rw [← some.inj hl]
  · exact fun h => (nomatch h)
  · show w.rollingOut + 1 ≤ 1
    omega
  · intro j
    rw [begun_restart rfl]
    exact (hinv.seen j).trans (Nat.le_succ _)

omit [DecidableEq ι] in
theorem rely_restart {j : ι} (hbegun : w'.begun = w.begun + 1) (hseen : w'.seen = w.seen)
    (hnow : w'.now = w.now) : HealRely j w w' := by
  refine ⟨congrFun hseen j, by omega, fun h => ?_, fun h => ?_, hnow.ge, fun h => ?_⟩
  all_goals omega

theorem compatible_healing : Team.Compatible (watchdog parse) (healing ι) := by
  constructor
  · exact fun i j w w' hij _ _ hguar => hguar j (Ne.symm hij)
  · intro a w w' hinv _ hw'
    replace hinv : HealInv w := hinv
    cases a with
    | request reason =>
      have hrestart : { w with attempts := w.attempts }.restartControllers reason false = some w' := hw'
      obtain ⟨hinv', hbegun, hseen, hnow⟩ := inv_restart hinv hrestart (fun h => (nomatch h)) rfl
      exact ⟨hinv', fun j => rely_restart hbegun hseen hnow⟩
    | rolledOut error =>
      replace hw' : w.rolledOut error = some w' := hw'
      unfold Watch.rolledOut at hw'
      split_ifs at hw' with hnone
      obtain rfl := some.inj hw'
      have hone := hinv.one
      have hlast : (w.last.map fun l => { l with ok := some error.isNone, error := error }).map (·.began) =
          w.last.map (·.began) := by
        rw [Option.map_map]
        rfl
      refine ⟨⟨⟨hinv.sparing.apart, hinv.sparing.alone, hinv.sparing.few, hinv.sparing.counted⟩,
        fun began automatic n he => ?_, fun l hl => ?_, fun _ => ?_, ?_, hinv.seen⟩,
        fun j => ⟨rfl, le_refl _, fun _ _ => rfl, fun _ => hlast, le_refl _, fun _ => le_refl _⟩⟩
      · obtain ⟨l, hl, hle⟩ := hinv.last began automatic n he
        refine ⟨{ l with ok := some error.isNone, error := error }, ?_, hle⟩
        show w.last.map _ = some _
        rw [hl]
        rfl
      · obtain ⟨l₀, hl₀, rfl⟩ := map_eq_some_iff.mp hl
        exact hinv.past l₀ hl₀
      · show w.rollingOut - 1 = 0
        omega
      · show w.rollingOut - 1 ≤ 1
        omega
    | delay ms =>
      obtain rfl := some.inj hw'
      have hnow : w.now ≤ w.now + ms := Nat.le_add_right _ _
      exact ⟨⟨⟨hinv.sparing.apart, hinv.sparing.alone, hinv.sparing.few, hinv.sparing.counted⟩, hinv.last,
        fun l hl => (hinv.past l hl).trans hnow, hinv.idle, hinv.one, hinv.seen⟩,
        fun j => ⟨rfl, le_refl _, fun _ h => h, fun _ => rfl, hnow, fun _ => le_refl _⟩⟩

/-! ### A tick -/

section Programs

variable {J : Watch ι → Prop} {Q : Unit → Unit → Watch ι → Prop} {l : Unit}

theorem maintains_look (hJ : ∀ w w', HealRely i w w' → J w → J w') {c : HealCall}
    (hc : ∀ w o, (healAnswer parse i c w o).2 = w) :
    Maintains (watchdog parse) (healing ι) i J (Handler.call c : Tick c.Answer) := by
  refine .call hJ fun w o r hw hinv _ hr => ?_
  obtain rfl := some.inj hr
  rw [hc]
  exact ⟨hinv, fun j _ => .refl, hw⟩

omit [DecidableEq ι] in
theorem guardsHold_iff : w.guardsHold = true ↔
    w.restarting = false ∧ ∀ l, w.last = some l → l.began + cooldownMs ≤ w.now := by
  have hpos : 0 < cooldownMs := by decide
  unfold Watch.guardsHold
  cases hlast : w.last with
  | none => simp
  | some l =>
    simp only [Bool.and_eq_true, Bool.not_eq_true', any_some, decide_eq_false_iff_not, not_lt,
      some.injEq, forall_eq']
    refine and_congr_right fun _ => ?_
    omega

theorem safe_readGuards :
    safe (watchdog parse) (healing ι) i (fun go _ w' => go = true → Passed i w')
      (fun _ _ _ => True) Tick.readGuards l w := by
  refine safe_call (J := fun _ => True) (c := HealCall.readGuards) (fun _ _ _ _ => trivial)
    (fun w o r _ hinv _ hr => ?_) trivial
  replace hinv : HealInv w := hinv
  obtain rfl := some.inj hr
  have hown : Function.update w.seen i w.begun i = w.begun := Function.update_self _ _ _
  refine ⟨fun j hj => ⟨Function.update_of_ne hj _ _, le_refl _, fun _ h => h, fun _ => rfl, le_refl _,
    fun _ => le_refl _⟩, ⟨⟨hinv.sparing.apart, hinv.sparing.alone, hinv.sparing.few, hinv.sparing.counted⟩,
    hinv.last, hinv.past, hinv.idle, hinv.one, fun j => ?_⟩, fun hgo => ⟨hown.le, fun _ => ?_, fun _ l hl => ?_⟩⟩
  · by_cases hj : j = i
    · rw [hj]
      exact hown.le
    · have hother : Function.update w.seen i w.begun j = w.seen j := Function.update_of_ne hj _ _
      exact hother.le.trans (hinv.seen j)
  · exact (guardsHold_iff.mp hgo).1
  · exact (guardsHold_iff.mp hgo).2 l hl

theorem safe_judge {machines : List MachineObject} (hw : Passed i w) :
    safe (watchdog parse) (healing ι) i (fun stale _ w' => stale.isSome = true → Judged i w')
      (fun _ _ _ => True) (Tick.judge machines) l w := by
  refine safe_call (c := HealCall.judge machines) (fun _ _ hw h => Passed.kept hw h)
    (fun w o r hw hinv _ hr => ?_) hw
  replace hinv : HealInv w := hinv
  obtain rfl := some.inj hr
  show (healing ι).guar i w (if _ then _ else if _ then _ else _ : Except Unit _ × _).2 ∧
    Handler.Met _ _ _ (if _ then _ else if _ then _ else _)
  split_ifs with hcalm hmany
  · -- From here on attempts are counted anew.
    refine ⟨fun j hj => ⟨rfl, le_refl _, fun _ h => h, fun _ => rfl, le_refl _, fun _ => Nat.zero_le _⟩,
      ⟨⟨pairwise_cons.mpr ⟨fun _ _ => trivial, hinv.sparing.apart⟩, fun e he => ?_, fun past hpast => ?_,
        rfl⟩, fun began automatic n he => ?_, hinv.past, hinv.idle, hinv.one, hinv.seen⟩, fun h => (nomatch h)⟩
    · rcases mem_cons.mp he with rfl | he
      · trivial
      · exact hinv.sparing.alone e he
    · rcases suffix_cons_iff.mp hpast with rfl | hpast
      · exact Nat.zero_le _
      · exact hinv.sparing.few past hpast
    · exact hinv.last began automatic n ((mem_cons.mp he).resolve_left fun heq => (nomatch heq))
  · exact ⟨fun j _ => .refl, hinv, fun h => (nomatch h)⟩
  · exact ⟨fun j _ => .refl, hinv, fun _ => ⟨hw, fun _ => Nat.lt_of_not_le hmany⟩⟩

theorem safe_restart {m : StaleMachine} (hw : Judged i w) :
    safe (watchdog parse) (healing ι) i (fun _ _ _ => True) (fun _ _ _ => True) (Tick.restart m) l w := by
  refine safe_call (c := HealCall.restart m) (fun _ _ hw h => Judged.kept hw h)
    (fun w o r hw hinv hok hr => ?_) hw
  replace hinv : HealInv w := hinv
  replace hok : w.begun = w.seen i := hok
  obtain rfl := some.inj hr
  -- No restart is rolling out, so one begins.
  have hgo : ∃ w', { w with attempts := w.attempts + 1 }.restartControllers
      (restartReason parse w.now m) true = some w' := by
    unfold Watch.restartControllers
    rw [if_neg (Bool.eq_false_iff.mp (hw.restarting hok))]
    exact ⟨_, rfl⟩
  obtain ⟨w', hw'⟩ := hgo
  have hanswer : healAnswer parse i (.restart m) w o = (.ok (), w') := by
    unfold healAnswer
    dsimp only
    rw [hw']
  obtain ⟨hinv', hbegun, hseen, hnow⟩ := inv_restart hinv hw'
    (fun _ => ⟨hw.cooled hok, hw.attempts hok⟩) rfl
  rw [hanswer]
  exact ⟨fun j _ => rely_restart hbegun hseen hnow, hinv', trivial⟩

theorem safe_heal {stale : List StaleMachine} {clusters : List String} (hw : Judged i w) :
    safe (watchdog parse) (healing ι) i (fun _ _ _ => True) (fun _ _ _ => True)
      (heal stale clusters) l w := by
  induction clusters generalizing l w with
  | nil => trivial
  | cons cluster clusters ih =>
    unfold heal
    rw [safe_bind]
    have hlook : Maintains (watchdog parse) (healing ι) i (Judged i) (Tick.workloadAnswers cluster) :=
      maintains_look (fun _ _ hw h => h.kept hw) (c := .workloadAnswers cluster) fun _ _ => rfl
    refine hlook.safe hw (fun answers l w hw => ?_) fun _ _ _ _ => trivial
    split_ifs
    · cases stale.find? fun s => s.cluster = cluster with
      | none => trivial
      | some m => exact safe_restart hw
    · exact ih hw

theorem safe_tick :
    safe (watchdog parse) (healing ι) i (fun _ _ _ => True) (fun _ _ _ => True) tick l w := by
  refine safe_seq safe_readGuards fun go l w hgo => ?_
  rw [safe_when]
  split_ifs with hgo'
  · rw [safe_bind]
    have hready : Maintains (watchdog parse) (healing ι) i (Passed i) Tick.capnReady :=
      maintains_look (fun _ _ hw h => h.kept hw) (c := .capnReady) fun _ _ => rfl
    refine hready.safe (hgo hgo') (fun ready l w hw => ?_) fun _ _ _ _ => trivial
    rw [safe_when]
    split_ifs
    · rw [safe_bind]
      have hlist : Maintains (watchdog parse) (healing ι) i (Passed i) Tick.listMachines :=
        maintains_look (fun _ _ hw h => h.kept hw) (c := .listMachines) fun _ _ => rfl
      refine hlist.safe hw (fun machines l w hw => ?_) fun _ _ _ _ => trivial
      refine safe_seq (safe_judge hw) fun stale l w hstale => ?_
      cases stale with
      | none => trivial
      | some stale => exact safe_heal (hstale rfl)

end Programs

theorem sound_allTicks (now : ℕ) :
    Team.Sound (watchdog parse) (healing ι) (fun _ _ _ => True) (allTicks ι now) := by
  refine ⟨⟨⟨.nil, fun _ he => (nomatch he), fun past hpast => ?_, rfl⟩, fun _ _ _ he => (nomatch he),
    fun _ hl => (nomatch hl), fun _ => rfl, Nat.zero_le _, fun _ => le_refl _⟩, fun i => ?_⟩
  · rw [suffix_nil.mp hpast]
    exact Nat.zero_le _
  · exact Prog.safe_mono (fun _ _ _ => trivial) safe_tick

/-- However ticks overlap with each other, with requested restarts and with roll-outs that end: if
no other restart begins between a tick's look at its guards and its own restart, automatic restarts
are sparing. -/
theorem watchdog_is_sparing {now : ℕ} {s : Procs ι HealCall HealCall.Answer Unit (Watch ι) (Except Unit Unit × Unit)}
    (hs : Run (watchdog parse).step (okStep guardsCurrent fun _ _ => True) (allTicks ι now) s) :
    Sparing s.world := by
  have hsound : Team.Sound (watchdog parse) (healing ι) (fun _ _ _ => True) s :=
    Team.run_safe (P := healing ι) compatible_healing (fun _ _ _ _ _ _ => trivial) (sound_allTicks now) hs
  have hinv : HealInv s.world := hsound.inv
  exact hinv.sparing

/-! ### A tick and a requested restart -/

/-- A control-plane machine that cannot be inspected since the time 0. -/
def unreachable : MachineObject :=
  ⟨some "lab-cp-0", [(clusterLabel, "lab")], none, some "Running",
    [⟨some "APIServerPodHealthy", some "Unknown", some "InspectionFailed", some "Node is Unreachable", some "0"⟩]⟩

def parseMs (text : String) : Option ℤ := if text = "0" then some 0 else none

/-- One tick restarts the controllers; the next begins within the cooldown and ends at once. -/
theorem one_tick_restarts : ∃ s,
    Run (watchdog parseMs).step (okStep guardsCurrent fun _ _ => True) (allTicks Bool 3600000) s ∧
      s.world.begun = 1 ∧ Sparing s.world := by
  have hrun : ∃ s, Run (watchdog parseMs).step (okStep guardsCurrent fun _ _ => True)
      (allTicks Bool 3600000) s ∧ s.world.begun = 1 := by
    apply Run.exists_of_exec (List.replicate 6 (.call false { machines := [unreachable] }) ++
      [.outside (.delay 60000), .outside (.rolledOut none), .call true {}])
    decide
  obtain ⟨s, hs, hbegun⟩ := hrun
  exact ⟨s, hs, hbegun, watchdog_is_sparing hs⟩

/-- While a tick waits for `listMachines`, a requested restart begins and fails: two restarts at one
time. -/
theorem restart_after_requested_restart : ∃ s,
    Run (watchdog parseMs).step (okStep (fun _ _ _ => True) fun _ _ => True)
      (allTicks Bool 3600000) s ∧ ¬ Sparing s.world := by
  have hrun : ∃ s, Run (watchdog parseMs).step (okStep (fun _ _ _ => True) fun _ _ => True)
      (allTicks Bool 3600000) s ∧ s.world.history = [.restart 3600000 true 0, .restart 3600000 false 0] := by
    apply Run.exists_of_exec (List.replicate 2 (.call false { machines := [unreachable] }) ++
      [.outside (.request "requested"), .outside (.rolledOut (some "kubectl rollout restart"))] ++
      List.replicate 4 (.call false { machines := [unreachable] }))
    decide
  obtain ⟨s, hs, hhistory⟩ := hrun
  refine ⟨s, hs, fun h => ?_⟩
  have hapart := h.apart
  rw [hhistory] at hapart
  have hlater : 3600000 + cooldownMs ≤ 3600000 := (pairwise_cons.mp hapart).1 _ (mem_singleton_self _)
  exact absurd hlater (by decide)

end IncusCloud.Agent
