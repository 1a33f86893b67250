import IncusCloud.Mobility.Transfer

/-!
# What a transfer leaves behind

Read off the trace of a run: which operations it learnt of, which of them it was told are over,
which it asked to cancel, and which sockets it opened and closed. `Settled` and `Sockets` are kept
up by every call; a transfer cleans up exactly where no pair of websockets was opened by half
(`cleansUp_iff`).
-/

namespace IncusCloud.Mobility.Transfer

open Lib Handler List Option

/-! ### What an event says -/

def isOver (status : String) : Bool := status = "Success" || status = "Failure" || status =
    "Cancelled"

namespace Event

def learns : Event → Option (Side × String)
  | ⟨.startSource _ _ _, .ok r⟩ => some (.src, (opOf r).path)
  | ⟨.startTarget _ _, .ok r⟩ => some (.dst, (opOf r).path)
  | _ => none

def ends : Event → Option (Side × String)
  | ⟨.status path, .ok s⟩ => if isOver s.status then some (.src, path) else none
  | ⟨.wait path _, .ok s⟩ => if isOver s.status then some (.dst, path) else none
  | _ => none

def asks : Event → Option (Side × String)
  | ⟨.cancel side path, _⟩ => some (side, path)
  | _ => none

def target (e : Event) : Option String := (e.learns.filter (·.1 = .dst)).map (·.2)

def succeeds : Event → Option String
  | ⟨.wait path _, .ok s⟩ => if s.status = "Success" then some path else none
  | _ => none

def pair : Event → Option (Option ℕ × Option ℕ)
  | ⟨.websockets _ _ _ _, .ok r⟩ => some r
  | _ => none

def closes : Event → Option ℕ
  | ⟨.close socket, _⟩ => some socket
  | _ => none

end Event

section

variable (trace : List Event) (op : Side × String)

def Learnt : Prop := ∃ e ∈ trace, e.learns = some op
def Over : Prop := ∃ e ∈ trace, e.ends = some op
def Asked : Prop := ∃ e ∈ trace, e.asks = some op
def Succeeded (path : String) : Prop := ∃ e ∈ trace, e.succeeds = some path
def Opened (socket : ℕ) : Prop := ∃ e ∈ trace, ∃ p, e.pair = some p ∧
    (p.1 = some socket ∨ p.2 = some socket)
def Closed (socket : ℕ) : Prop := ∃ e ∈ trace, e.closes = some socket

def HalfOpen : Prop := ∃ e ∈ trace, ∃ p, e.pair = some p ∧ p.1.isSome ≠ p.2.isSome

def lastTarget : Option String := trace.reverse.findSome? Event.target

/-- What a transfer that has ended with `r` leaves. -/
structure CleansUp (r : Except Failure Transport) : Prop where
  succeeds : ∀ transport, r = .ok transport → ∃ path, lastTarget trace = some path ∧
    Succeeded trace path
  cancels : ∀ e, r = .error e → ∀ op, Learnt trace op → Over trace op ∨ Asked trace op
  closes : ∀ socket, Opened trace socket → Closed trace socket

/-- Every operation but those of `ops` is over or has been asked to cancel. -/
def Settled (ops : List (Side × String)) : Prop :=
  ∀ op, Learnt trace op → op ∈ ops ∨ Over trace op ∨ Asked trace op

/-- Every socket but those of `sockets` is closed; where a pair is half open, one of it is neither. -/
structure Sockets (sockets : List ℕ) : Prop where
  rest : ¬ HalfOpen trace → ∀ s, Opened trace s → s ∈ sockets ∨ Closed trace s
  lost : HalfOpen trace → ∃ s, Opened trace s ∧ ¬ Closed trace s ∧ s ∉ sockets
  known : ∀ s ∈ sockets, s < 2 * trace.length
  opened : ∀ s, Opened trace s → s < 2 * trace.length
  closed : ∀ s, Closed trace s → s < 2 * trace.length

end

variable {trace : List Event} {e : Event} {ops ops' : List (Side × String)}
    {sockets sockets' : List ℕ}

/-! ### One more event -/

theorem exists_concat {p : Event → Prop} : (∃ e' ∈ trace ++ [e], p e') ↔ (∃ e' ∈ trace, p e') ∨
    p e := by
  constructor
  · rintro ⟨e', he', hp⟩
    rcases mem_append.mp he' with he' | he'
    · exact .inl ⟨e', he', hp⟩
    · exact .inr (mem_singleton.mp he' ▸ hp)
  · rintro (⟨e', he', hp⟩ | hp)
    · exact ⟨e', mem_append_left _ he', hp⟩
    · exact ⟨e, by simp, hp⟩

theorem lastTarget_concat : lastTarget (trace ++ [e]) = e.target.or (lastTarget trace) := by
  rw [lastTarget, reverse_append, reverse_singleton, singleton_append, List.findSome?_cons]
  cases e.target <;> rfl

theorem Settled.concat (h : Settled trace ops) (hlearns : ∀ op, e.learns = some op → op ∈ ops')
    (hops : ∀ op ∈ ops, op ∈ ops' ∨ e.ends = some op ∨ e.asks = some op) :
      Settled (trace ++ [e]) ops' := by
  intro op hop
  simp only [Over, Asked, exists_concat]
  rcases exists_concat.mp hop with hop | hop
  · rcases h op hop with hop | hop | hop
    · rcases hops op hop with hop | hop | hop
      · exact .inl hop
      · exact .inr (.inl (.inr hop))
      · exact .inr (.inr (.inr hop))
    · exact .inr (.inl (.inl hop))
    · exact .inr (.inr (.inl hop))
  · exact .inl (hlearns op hop)

theorem Settled.drop {op : Side × String} (h : Settled trace (op :: ops))
    (hgone : Over trace op ∨ Asked trace op) :
    Settled trace ops := by
  intro op' hop
  rcases h op' hop with hmem | hrest
  · rcases mem_cons.mp hmem with rfl | hmem
    · exact .inr hgone
    · exact .inl hmem
  · exact .inr hrest

def Fresh (trace : List Event) (s : ℕ) : Prop := 2 * trace.length ≤ s ∧ s < 2 * (trace.length + 1)

theorem Sockets.grow (h : Sockets trace sockets)
    (hrest : ¬ HalfOpen (trace ++ [e]) → ∀ s, Opened (trace ++ [e]) s → s ∈ sockets' ∨
      Closed (trace ++ [e]) s)
    (hlost : HalfOpen (trace ++ [e]) → ∃ s, Opened (trace ++ [e]) s ∧ ¬ Closed (trace ++ [e]) s ∧
      s ∉ sockets')
    (hknown : ∀ s ∈ sockets', s ∈ sockets ∨ Fresh trace s)
    (hopened : ∀ s, Opened (trace ++ [e]) s → Opened trace s ∨ Fresh trace s)
    (hclosed : ∀ s, Closed (trace ++ [e]) s → Closed trace s ∨ s ∈ sockets) :
      Sockets (trace ++ [e]) sockets' := by
  refine ⟨hrest, hlost, fun s hs => ?_, fun s hs => ?_, fun s hs => ?_⟩ <;>
    rw [length_append, length_singleton]
  · rcases hknown s hs with hs | hs
    · have := h.known s hs
      omega
    · exact hs.2
  · rcases hopened s hs with hs | hs
    · have := h.opened s hs
      omega
    · exact hs.2
  · rcases hclosed s hs with hs | hs
    · have := h.closed s hs
      omega
    · have := h.known s hs
      omega

variable {p : Option ℕ × Option ℕ}

theorem opened_concat {s : ℕ} (hpair : e.pair = some p) :
    Opened (trace ++ [e]) s ↔ Opened trace s ∨ p.1 = some s ∨ p.2 = some s := by
  rw [Opened, exists_concat, hpair]
  simp [Opened]

theorem closed_concat {s : ℕ} (hcloses : e.closes = none) : Closed (trace ++ [e]) s ↔
    Closed trace s := by
  rw [Closed, exists_concat, hcloses]
  simp [Closed]

theorem Sockets.concat (h : Sockets trace sockets) (hpair : e.pair = none)
    (hsub : ∀ s ∈ sockets', s ∈ sockets) (hcloses : ∀ s, e.closes = some s → s ∈ sockets)
    (hrest : ∀ s ∈ sockets, s ∈ sockets' ∨ e.closes = some s) :
      Sockets (trace ++ [e]) sockets' := by
  have hopened : ∀ s, Opened (trace ++ [e]) s ↔ Opened trace s := by
    intro s
    rw [Opened, exists_concat, hpair]
    simp [Opened]
  have hhalf : HalfOpen (trace ++ [e]) ↔ HalfOpen trace := by
    rw [HalfOpen, exists_concat, hpair]
    simp [HalfOpen]
  have hclosed : ∀ s, Closed (trace ++ [e]) s ↔ Closed trace s ∨ e.closes = some s := fun s =>
    exists_concat
  refine h.grow (fun hno s hs => ?_) (fun hyes => ?_) (fun s hs => .inl (hsub s hs))
    (fun s hs => .inl ((hopened s).mp hs)) (fun s hs => ((hclosed s).mp hs).imp_right (hcloses s))
  · rw [hclosed]
    rcases h.rest (fun hyes => hno (hhalf.mpr hyes)) s ((hopened s).mp hs) with hmem | hc
    · exact (hrest s hmem).imp_right .inr
    · exact .inr (.inl hc)
  · obtain ⟨s, hs, hc, hno⟩ := h.lost (hhalf.mp hyes)
    refine ⟨s, (hopened s).mpr hs, fun hc' => ?_, fun hmem => hno (hsub s hmem)⟩
    rcases (hclosed s).mp hc' with hc' | hc'
    · exact hc hc'
    · exact hno (hcloses s hc')

theorem Sockets.other (h : Sockets trace sockets) (hpair : e.pair = none)
    (hcloses : e.closes = none) :
    Sockets (trace ++ [e]) sockets :=
  h.concat hpair (fun _ hs => hs) (by simp [hcloses]) (fun _ hs => .inl hs)

theorem Sockets.pair (h : Sockets trace sockets) (hpair : e.pair = some p)
    (hcloses : e.closes = none) (hboth : p.1.isSome = p.2.isSome)
    (hnew : ∀ s, p.1 = some s ∨ p.2 = some s → Fresh trace s) :
    Sockets (trace ++ [e]) (sockets ++ (p.1.toList ++ p.2.toList)) := by
  have hhalf : HalfOpen (trace ++ [e]) ↔ HalfOpen trace := by
    rw [HalfOpen, exists_concat, hpair]
    simp [HalfOpen, hboth]
  have hmem : ∀ s, s ∈ p.1.toList ++ p.2.toList ↔ p.1 = some s ∨
    p.2 = some s := by simp [mem_toList]
  refine h.grow (fun hno s hs => ?_) (fun hyes => ?_) (fun s hs => ?_)
    (fun s hs => ((opened_concat hpair).mp hs).imp_right (hnew s))
    (fun s hs => .inl ((closed_concat hcloses).mp hs))
  · rw [closed_concat hcloses, mem_append, hmem]
    rcases (opened_concat hpair).mp hs with hs | hs
    · exact (h.rest (fun hyes => hno (hhalf.mpr hyes)) s hs).imp_left .inl
    · exact .inl (.inr hs)
  · obtain ⟨s, hs, hc, hno⟩ := h.lost (hhalf.mp hyes)
    refine ⟨s, (opened_concat hpair).mpr (.inl hs), fun hc' => hc ((closed_concat hcloses).mp hc'),
      ?_⟩
    rw [mem_append, hmem]
    rintro (hs' | hs')
    · exact hno hs'
    · have hlt := h.opened s hs
      have hge := (hnew s hs').1
      omega
  · exact (mem_append.mp hs).imp_right fun hs => hnew s ((hmem s).mp hs)

theorem Sockets.half (h : Sockets trace sockets) (hpair : e.pair = some p)
    (hcloses : e.closes = none) (hhalf : p.1.isSome ≠ p.2.isSome)
    (hnew : ∀ s, p.1 = some s ∨ p.2 = some s → Fresh trace s) : Sockets (trace ++ [e]) sockets := by
  have hyes : HalfOpen (trace ++ [e]) := exists_concat.mpr (.inr ⟨p, hpair, hhalf⟩)
  refine h.grow (fun hno => absurd hyes hno) (fun _ => ?_) (fun s hs => .inl hs)
    (fun s hs => ((opened_concat hpair).mp hs).imp_right (hnew s))
    (fun s hs => .inl ((closed_concat hcloses).mp hs))
  obtain ⟨s, hs⟩ : ∃ s, p.1 = some s ∨ p.2 = some s := by
    rcases h1 : p.1 with _ | s
    · rcases h2 : p.2 with _ | s
      · rw [h1, h2] at hhalf
        exact absurd rfl hhalf
      · exact ⟨s, .inr rfl⟩
    · exact ⟨s, .inl rfl⟩
  have hge := (hnew s hs).1
  refine ⟨s, (opened_concat hpair).mpr (.inr hs), fun hc => ?_, fun hmem => ?_⟩
  · have := h.closed s ((closed_concat hcloses).mp hc)
    omega
  · have := h.known s hmem
    omega

/-! ### The calls -/

abbrev Sure {α : Type} (Q : α → Locals → List Event → Prop)
    (E : Failure → Locals → List Event → Prop)
    (m : Transferring α) (l : Locals) (trace : List Event) : Prop :=
  wp world (fun _ => True) Q E m l trace

variable {l : Locals} {α β : Type} {Q : α → Locals → List Event → Prop}
    {E : Failure → Locals → List Event → Prop}

theorem answer_cases (call : Call) (trace : List Event) (o : Outcome) :
    (∃ a, answer call trace o = .ok a) ∨ ∃ message,
      answer call trace o = .error (.other message) := by
  cases call with
  | websockets srcId srcSecret dstId dstSecret => exact .inl ⟨_, rfl⟩
  | aborted => exact .inl ⟨_, rfl⟩
  | close socket => exact .inl ⟨(), rfl⟩
  | pipes => exact .inl ⟨(), rfl⟩
  | _ =>
    simp only [answer]
    cases o.fails with
    | none => exact .inl ⟨_, rfl⟩
    | some message => exact .inr ⟨message, rfl⟩

theorem sure_await (call : Call) {Q : call.Answer → Locals → List Event → Prop}
    (hok : ∀ a, Q a l (trace ++ [⟨call, .ok a⟩]))
    (herr : ∀ message, E (.other message) l (trace ++ [⟨call, .error (.other message)⟩])) :
    Sure Q E (await call) l trace := by
  refine (wp_call call l trace).mpr fun o => ?_
  have hworld :
    world.answer call trace o = (answer call trace o, trace ++ [⟨call, answer call trace o⟩]) := rfl
  rw [hworld]
  rcases answer_cases call trace o with ⟨a, ha⟩ | ⟨message, hm⟩
  · rw [ha]
    exact ⟨trivial, hok a⟩
  · rw [hm]
    exact ⟨trivial, herr message⟩

/-- `trace'` goes on from `trace` without another operation. -/
structure Goes (trace trace' : List Event) : Prop where
  settled : ∀ ops, Settled trace ops → Settled trace' ops
  target : lastTarget trace' = lastTarget trace
  ended : ∀ op, Over trace op → Over trace' op
  asked : ∀ op, Asked trace op → Asked trace' op
  succeeded : ∀ path, Succeeded trace path → Succeeded trace' path

theorem Goes.refl (trace : List Event) : Goes trace trace :=
  ⟨fun _ h => h, rfl, fun _ h => h, fun _ h => h, fun _ h => h⟩

theorem Goes.trans {t t' t'' : List Event} (h : Goes t t') (h' : Goes t' t'') : Goes t t'' :=
  ⟨fun ops hs => h'.settled ops (h.settled ops hs), h'.target.trans h.target, fun op ho =>
    h'.ended op (h.ended op ho),
    fun op ha => h'.asked op (h.asked op ha), fun path hs =>
      h'.succeeded path (h.succeeded path hs)⟩

theorem Goes.concat (trace : List Event) (hlearns : e.learns = none) :
    Goes trace (trace ++ [e]) := by
  constructor
  · intro ops h
    exact h.concat (by simp [hlearns]) fun op hop => .inl hop
  · rw [lastTarget_concat, Event.target, hlearns]
    rfl
  · exact fun op h => exists_concat.mpr (.inl h)
  · exact fun op h => exists_concat.mpr (.inl h)
  · exact fun path h => exists_concat.mpr (.inl h)

structure Stays (trace trace' : List Event) : Prop where
  goes : Goes trace trace'
  sockets : ∀ sockets, Sockets trace sockets → Sockets trace' sockets

theorem Stays.refl (trace : List Event) : Stays trace trace := ⟨Goes.refl trace, fun _ h => h⟩

theorem Stays.trans {t t' t'' : List Event} (h : Stays t t') (h' : Stays t' t'') : Stays t t'' :=
  ⟨h.goes.trans h'.goes, fun sockets hs => h'.sockets sockets (h.sockets sockets hs)⟩

theorem Stays.concat (trace : List Event) (hlearns : e.learns = none) (hpair : e.pair = none)
    (hcloses : e.closes = none) : Stays trace (trace ++ [e]) :=
  ⟨Goes.concat trace hlearns, fun _ h => h.other hpair hcloses⟩

theorem sure_startSource {o : TransferOptions} {target : Option TargetAddress}
    {Q : Op → Locals → List Event → Prop}
    (hs : Settled trace ops) (hk : Sockets trace sockets)
    (hok : ∀ op trace', Settled trace' ((.src, op.path) :: ops) → Sockets trace' sockets →
      lastTarget trace' = lastTarget trace → Q op l trace')
    (herr : ∀ reason trace', Stays trace trace' → E (.sourceFailed reason) l trace') :
    Sure Q E (startSource o target) l trace := by
  unfold Sure startSource
  rw [wp_tryCatch, wp_bind]
  refine sure_await (.startSource _ _ _) (fun r => ?_) fun message => ?_
  · apply hok (opOf r)
    · apply hs.concat
      · intro op hop
        exact mem_cons.mpr (.inl (some.inj hop).symm)
      · intro op hop
        exact .inl (mem_cons_of_mem _ hop)
    · exact hk.other rfl rfl
    · rw [lastTarget_concat]
      rfl
  · exact herr _ _ (Stays.concat trace rfl rfl rfl)

theorem sure_startTarget {o : TransferOptions} {Q : Op → Locals → List Event → Prop}
    (hs : Settled trace ops) (hk : Sockets trace sockets)
    (hok : ∀ op trace', Settled trace' ((.dst, op.path) :: ops) → Sockets trace' sockets →
      lastTarget trace' = some op.path → Q op l trace')
    (herr : ∀ reason trace', Stays trace trace' → E (.targetFailed reason) l trace') :
    Sure Q E (startTarget o) l trace := by
  unfold Sure startTarget
  rw [wp_tryCatch, wp_bind]
  refine sure_await (.startTarget _ _) (fun r => ?_) fun message => ?_
  · apply hok (opOf r)
    · apply hs.concat
      · intro op hop
        exact mem_cons.mpr (.inl (some.inj hop).symm)
      · intro op hop
        exact .inl (mem_cons_of_mem _ hop)
    · exact hk.other rfl rfl
    · rw [lastTarget_concat]
      rfl
  · exact herr _ _ (Stays.concat trace rfl rfl rfl)

variable {Q : Unit → Locals → List Event → Prop}

theorem sure_cancel {side : Side} {path : String}
    (h : ∀ trace', Stays trace trace' → Asked trace' (side, path) → Q () l trace') :
    Sure Q E (cancel side path) l trace := by
  unfold Sure cancel
  rw [wp_tryCatch]
  refine sure_await (.cancel side path) (fun r => ?_) fun message => ?_
  · exact h _ (Stays.concat trace rfl rfl rfl) (exists_concat.mpr (.inr rfl))
  · exact h _ (Stays.concat trace rfl rfl rfl) (exists_concat.mpr (.inr rfl))

/-! ### Waiting -/

/-- How `waitTarget` fails: with an error of the source only where its operation is over, and so for
the target. -/
structure FailsOver (trace : List Event) (dst : Op) (src : Option Op) (e : Failure)
    (trace' : List Event) : Prop where
  stays : Stays trace trace'
  source : e.isSourceFailed = true → ∃ op, src = some op ∧ Over trace' (.src, op.path)
  target : e.isTargetFailed = true → Over trace' (.dst, dst.path)

theorem FailsOver.other {dst : Op} {src : Option Op} {trace' : List Event} (h : Stays trace trace')
    (message : String) : FailsOver trace dst src (.other message) trace' :=
  ⟨h, (fun h => by cases h), (fun h => by cases h)⟩

theorem FailsOver.after {dst : Op} {src : Option Op} {t t' : List Event} (h : Stays t t')
    {e : Failure} {t'' : List Event} (hf : FailsOver t' dst src e t'') :
      FailsOver t dst src e t'' :=
  ⟨h.trans hf.stays, hf.source, hf.target⟩

theorem isOver_of_failed {s : OpState} (h : s.failed = true) : isOver s.status = true := by
  simp only [OpState.failed, Bool.or_eq_true, decide_eq_true_eq] at h
  rcases h with h | h <;> simp [isOver, h]

theorem sure_throwIfAborted (dst : Op) (src : Option Op) :
    Sure (fun _ l' trace' => l' = l ∧ Stays trace trace')
      (fun e l' trace' => l' = l ∧ FailsOver trace dst src e trace')
      throwIfAborted l trace := by
  unfold Sure throwIfAborted
  rw [wp_bind]
  refine sure_await .aborted (fun aborted => ?_) fun message => ?_
  · cases aborted with
    | none => exact ⟨rfl, Stays.concat trace rfl rfl rfl⟩
    | some reason => exact ⟨rfl, .other (Stays.concat trace rfl rfl rfl) reason⟩
  · exact ⟨rfl, .other (Stays.concat trace rfl rfl rfl) message⟩

theorem sure_checkSource (dst : Op) (src : Option Op) :
    Sure (fun _ l' trace' => l' = l ∧ Stays trace trace')
      (fun e l' trace' => l' = l ∧ FailsOver trace dst src e trace')
      (checkSource src) l trace := by
  cases src with
  | none => exact ⟨rfl, Stays.refl trace⟩
  | some op =>
    show wp _ _ _ _ (await _ >>= _) l trace
    rw [wp_bind]
    refine sure_await (.status op.path) (fun s => ?_) fun message => ?_
    · have hstays : Stays trace (trace ++ [⟨.status op.path, .ok s⟩]) :=
        Stays.concat trace rfl rfl rfl
      by_cases hs : s.failed = true
      · rw [if_pos hs]
        refine ⟨rfl, hstays, fun _ => ⟨op, rfl, exists_concat.mpr (.inr ?_)⟩, (fun h => by cases h)⟩
        exact if_pos (isOver_of_failed hs)
      · rw [if_neg hs]
        exact ⟨rfl, hstays⟩
    · exact ⟨rfl, .other (Stays.concat trace rfl rfl rfl) message⟩

theorem sure_reportProgress (dst : Op) (src : Option Op) (metadata : Json) :
    Sure (fun _ l' trace' => l' = l ∧ Stays trace trace')
      (fun e l' trace' => l' = l ∧ FailsOver trace dst src e trace')
      (reportProgress metadata) l trace := by
  unfold Sure reportProgress
  cases progressText metadata with
  | none => exact ⟨rfl, Stays.refl trace⟩
  | some text =>
    show wp _ _ _ _ (Handler.when _ _) l trace
    rw [wp_when]
    split
    · refine sure_await (.onProgress text) (fun _ => ?_) fun message => ?_
      · exact ⟨rfl, Stays.concat trace rfl rfl rfl⟩
      · exact ⟨rfl, .other (Stays.concat trace rfl rfl rfl) message⟩
    · exact ⟨rfl, Stays.refl trace⟩

theorem sure_waitTarget (dst : Op) (src : Option Op) (rounds : ℕ) :
    Sure (fun _ l' trace' => l' = l ∧ Stays trace trace' ∧ Succeeded trace' dst.path)
      (fun e l' trace' => l' = l ∧ FailsOver trace dst src e trace')
        (waitTarget dst src rounds) l trace := by
  induction rounds generalizing trace with
  | zero => exact ⟨rfl, Stays.refl trace, (fun h => by cases h), (fun h => by cases h)⟩
  | succ rounds ih =>
    unfold Sure waitTarget
    rw [wp_bind]
    refine wp_mono ?_ (fun _ _ _ h => h) (sure_throwIfAborted dst src)
    rintro _ _ t₁ ⟨rfl, h₁⟩
    rw [wp_bind]
    refine wp_mono ?_ (fun e l' t h => ⟨h.1, h.2.after h₁⟩) (sure_checkSource dst src)
    rintro _ _ t₂ ⟨rfl, h₂⟩
    rw [wp_bind]
    refine sure_await (.wait dst.path pollS) (fun r => ?_) fun message => ?_
    · have h₃ : Stays trace (t₂ ++ [⟨.wait dst.path pollS, .ok r⟩]) :=
        (h₁.trans h₂).trans (Stays.concat t₂ rfl rfl rfl)
      by_cases hsuccess : r.status = "Success"
      · rw [if_pos hsuccess]
        exact ⟨rfl, h₃, exists_concat.mpr (.inr (if_pos hsuccess))⟩
      · rw [if_neg hsuccess]
        by_cases hfailed : r.failed = true
        · rw [if_pos hfailed]
          refine ⟨rfl, h₃, (fun h => by cases h), fun _ => exists_concat.mpr (.inr ?_)⟩
          exact if_pos (isOver_of_failed hfailed)
        · rw [if_neg hfailed, wp_bind]
          refine wp_mono ?_ (fun e l' t h => ⟨h.1, h.2.after h₃⟩)
            (sure_reportProgress dst src r.metadata)
          rintro _ _ t₄ ⟨rfl, h₄⟩
          refine wp_mono ?_ ?_ ih
          · rintro _ _ t₅ ⟨rfl, h₅, hdone⟩
            exact ⟨rfl, (h₃.trans h₄).trans h₅, hdone⟩
          · rintro e _ t₅ ⟨rfl, h₅⟩
            exact ⟨rfl, h₅.after (h₃.trans h₄)⟩
    · exact ⟨rfl, .other ((h₁.trans h₂).trans (Stays.concat t₂ rfl rfl rfl)) message⟩

/-! ### Cancelling -/

theorem sure_cancelSource (e : Failure) (src : Option Op)
    (h : ∀ trace', Stays trace trace' →
      (∀ op, src = some op → e.isSourceFailed = false → Asked trace' (.src, op.path)) →
        Q () l trace') :
    Sure Q E (cancelSource e src) l trace := by
  cases src with
  | none => exact h trace (Stays.refl trace) fun op hop => by cases hop
  | some op =>
    show wp _ _ _ _ (Handler.when _ _) l trace
    rw [wp_when]
    split
    · refine sure_cancel fun trace' hstays hasked => h trace' hstays ?_
      rintro _ ⟨⟩ _
      exact hasked
    · next hfailed =>
      refine h trace (Stays.refl trace) fun _ _ hno => ?_
      rw [hno] at hfailed
      exact absurd rfl hfailed

theorem sure_cancelTarget (e : Failure) (dst : Op)
    (h : ∀ trace', Stays trace trace' → (e.isTargetFailed = false → Asked trace' (.dst, dst.path)) →
      Q () l trace') :
    Sure Q E (cancelTarget e dst) l trace := by
  unfold Sure cancelTarget
  rw [wp_when]
  split
  · exact sure_cancel fun trace' hstays hasked => h trace' hstays fun _ => hasked
  · next hfailed =>
    refine h trace (Stays.refl trace) fun hno => ?_
    rw [hno] at hfailed
    exact absurd rfl hfailed

/-! ### The two attempts -/

def Returned (trace : List Event) : Prop :=
  Sockets trace [] ∧ ∃ path, lastTarget trace = some path ∧ Succeeded trace path

def Thrown (trace : List Event) : Prop := Settled trace [] ∧ Sockets trace []

variable (o : TransferOptions)

theorem sure_direct (rounds : ℕ) (hs : Settled trace []) (hk : Sockets trace [])
    (hl : l.src = none) :
    Sure (fun _ _ trace' => Returned trace') (fun _ _ trace' => Thrown trace')
      (direct o rounds) l trace := by
  unfold Sure direct
  rw [wp_bind]
  refine sure_startTarget hs hk (fun dst t₁ hs₁ hk₁ hlast => ?_) fun reason t₁ h₁ => ?_
  · rw [wp_tryCatch, wp_bind]
    refine sure_startSource hs₁ hk₁ (fun src t₂ hs₂ hk₂ hsame => ?_) fun reason t₂ h₂ => ?_
    · rw [wp_bind, wp_assign]
      refine wp_mono ?_ ?_ (sure_waitTarget dst (some src) rounds)
      · rintro _ _ t₃ ⟨-, h₃, hdone⟩
        exact ⟨h₃.sockets _ hk₂, dst.path, h₃.goes.target.trans (hsame.trans hlast), hdone⟩
      · rintro e _ t₃ ⟨rfl, h₃⟩
        rw [wp_bind, wp_locals, wp_bind]
        refine sure_cancelSource e _ fun t₄ h₄ hsrc => ?_
        rw [wp_bind]
        refine sure_cancelTarget e dst fun t₅ h₅ hdst => ?_
        have hs₅ := h₅.goes.settled _ (h₄.goes.settled _ (h₃.stays.goes.settled _ hs₂))
        refine ⟨?_, h₅.sockets _ (h₄.sockets _ (h₃.stays.sockets _ hk₂))⟩
        have hs₆ : Settled t₅ [(.dst, dst.path)] := by
          cases he : e.isSourceFailed with
          | true =>
            obtain ⟨op, hop, hover⟩ := h₃.source he
            cases hop
            exact hs₅.drop (.inl (h₅.goes.ended _ (h₄.goes.ended _ hover)))
          | false => exact hs₅.drop (.inr (h₅.goes.asked _ (hsrc src rfl he)))
        cases he : e.isTargetFailed with
        | true => exact hs₆.drop (.inl (h₅.goes.ended _ (h₄.goes.ended _ (h₃.target he))))
        | false => exact hs₆.drop (.inr (hdst he))
    · -- the source was not started, so there is nothing to cancel there
      rw [wp_bind, wp_locals, wp_bind, hl]
      refine sure_cancelSource _ none fun t₃ h₃ _ => ?_
      rw [wp_bind]
      refine sure_cancelTarget _ dst fun t₄ h₄ hdst => ?_
      have hs₄ := h₄.goes.settled _ (h₃.goes.settled _ (h₂.goes.settled _ hs₁))
      exact ⟨hs₄.drop (.inr (hdst rfl)), h₄.sockets _ (h₃.sockets _ (h₂.sockets _ hk₁))⟩
  · exact ⟨h₁.goes.settled _ hs, h₁.sockets _ hk⟩

def socketsOf (trace : List Event) (opens : Bool × Bool) : Option ℕ × Option ℕ :=
  (if opens.1 then some (2 * trace.length) else none,
    if opens.2 then some (2 * trace.length + 1) else none)

theorem socketsOf_new {opens : Bool × Bool} {s : ℕ}
    (h : (socketsOf trace opens).1 = some s ∨ (socketsOf trace opens).2 = some s) :
      Fresh trace s := by
  unfold Fresh
  rcases h with h | h
  · simp only [socketsOf, ite_none_right_eq_some, some.injEq] at h
    omega
  · simp only [socketsOf, ite_none_right_eq_some, some.injEq] at h
    omega

theorem sure_websockets (a b c d : String) {Q : Option ℕ × Option ℕ → Locals → List Event → Prop}
    (h : ∀ opens,
      Q (socketsOf trace opens) l (trace ++ [⟨.websockets a b c d, .ok (socketsOf trace opens)⟩])) :
    Sure Q E (await (.websockets a b c d)) l trace := by
  refine (wp_call (Call.websockets a b c d) l trace).mpr fun o => ?_
  exact ⟨trivial, h o.opens⟩

theorem sure_close (s : ℕ) (h : Q () l (trace ++ [⟨.close s, .ok ()⟩])) :
    Sure Q E (await (.close s)) l trace := by
  refine (wp_call (Call.close s) l trace).mpr fun o => ?_
  exact ⟨trivial, h⟩

theorem sure_pipes (h : Q () l (trace ++ [⟨.pipes, .ok ()⟩])) :
    Sure Q E (await .pipes) l trace := by
  refine (wp_call Call.pipes l trace).mpr fun o => ?_
  exact ⟨trivial, h⟩

theorem sure_openPair (src dst : Op) (n : String) (hk : Sockets trace l.sockets) :
    Sure (fun _ l' trace' => Goes trace trace' ∧ Sockets trace' l'.sockets)
      (fun e l' trace' => (Goes trace trace' ∧ Sockets trace' l'.sockets) ∧
        e.isTargetFailed = false)
      (openPair src dst n) l trace := by
  unfold Sure openPair
  rw [wp_bind]
  refine sure_websockets _ _ _ _ fun opens => ?_
  generalize he :
    (⟨.websockets src.id ((src.secrets.get n).getD "") dst.id ((dst.secrets.get n).getD ""),
    .ok (socketsOf trace opens)⟩ : Event) = e
  have hgoes : Goes trace (trace ++ [e]) := Goes.concat trace (by rw [← he]; rfl)
  have hpair : e.pair = some (socketsOf trace opens) := by rw [← he]; rfl
  have hcloses : e.closes = none := by rw [← he]; rfl
  have hnew : ∀ s, (socketsOf trace opens).1 = some s ∨ (socketsOf trace opens).2 = some s →
    Fresh trace s :=
    fun s => socketsOf_new
  obtain ⟨first, second⟩ := opens
  cases first with
  | true =>
    cases second with
    | true => exact ⟨hgoes, hk.pair hpair hcloses rfl hnew⟩
    | false => exact ⟨⟨hgoes, hk.half hpair hcloses (by simp [socketsOf]) hnew⟩, rfl⟩
  | false =>
    cases second with
    | true => exact ⟨⟨hgoes, hk.half hpair hcloses (by simp [socketsOf]) hnew⟩, rfl⟩
    | false =>
      have hnone := hk.pair hpair hcloses rfl hnew
      have hsame : l.sockets ++
        ((socketsOf trace (false, false)).1.toList ++ (socketsOf trace (false, false)).2.toList)
          = l.sockets := append_nil l.sockets
      rw [hsame] at hnone
      exact ⟨⟨hgoes, hnone⟩, rfl⟩

theorem sure_openAll (src dst : Op) (names : List String) (hk : Sockets trace l.sockets) :
    Sure (fun _ l' trace' => Goes trace trace' ∧ Sockets trace' l'.sockets)
      (fun e l' trace' => (Goes trace trace' ∧ Sockets trace' l'.sockets) ∧
        e.isTargetFailed = false)
      (openAll src dst names) l trace := by
  induction names generalizing trace l with
  | nil => exact ⟨Goes.refl trace, hk⟩
  | cons n names ih =>
    unfold Sure openAll
    rw [wp_bind]
    refine wp_mono ?_ (fun _ _ _ h => h) (sure_openPair src dst n hk)
    rintro _ l₁ t₁ ⟨h₁, hk₁⟩
    refine wp_mono ?_ ?_ (ih hk₁)
    · rintro _ l₂ t₂ ⟨h₂, hk₂⟩
      exact ⟨h₁.trans h₂, hk₂⟩
    · rintro e l₂ t₂ ⟨⟨h₂, hk₂⟩, he⟩
      exact ⟨⟨h₁.trans h₂, hk₂⟩, he⟩

theorem sure_closeAll (sockets : List ℕ) (hk : Sockets trace sockets) :
    Sure (fun _ _ trace' => Goes trace trace' ∧ Sockets trace' []) (fun _ _ _ => False)
      (closeAll sockets) l
      trace := by
  induction sockets generalizing trace with
  | nil => exact ⟨Goes.refl trace, hk⟩
  | cons s sockets ih =>
    unfold Sure closeAll
    rw [wp_bind]
    refine sure_close s ?_
    have hclosed : Sockets (trace ++ [⟨.close s, .ok ()⟩]) sockets := by
      apply hk.concat rfl (fun s' hs' => mem_cons_of_mem s hs')
      · rintro _ ⟨⟩
        exact mem_cons_self
      · intro s' hs'
        rcases mem_cons.mp hs' with rfl | hs'
        · exact .inr rfl
        · exact .inl hs'
    refine wp_mono ?_ (fun _ _ _ h => h) (ih hclosed)
    rintro _ _ t ⟨h, hk'⟩
    exact ⟨(Goes.concat trace rfl).trans h, hk'⟩

theorem sure_closeSockets (hk : Sockets trace l.sockets)
    (h : ∀ l' trace', Goes trace trace' → Sockets trace' [] → Q () l' trace') :
    Sure Q E closeSockets l trace := by
  unfold Sure closeSockets
  rw [wp_bind, wp_locals, wp_bind]
  refine wp_mono ?_ (fun _ _ _ h => h.elim) (sure_closeAll l.sockets hk)
  rintro _ l' t ⟨hgoes, hnone⟩
  have hpipes : Goes t (t ++ [⟨.pipes, .ok ()⟩]) := Goes.concat t rfl
  exact sure_pipes (h l' _ (hgoes.trans hpipes) (hnone.other rfl rfl))

theorem sure_cancelRelay {e : Failure} {src dst : Op}
    (hs : Settled trace [(.dst, dst.path), (.src, src.path)])
    (hover : e.isTargetFailed = true → Over trace (.dst, dst.path))
    (h : ∀ trace', Stays trace trace' → Settled trace' [] → E e l trace') :
    Sure Q E (cancelRelay e src dst) l trace := by
  unfold Sure cancelRelay
  rw [wp_bind]
  refine sure_cancel fun t₁ h₁ hsrc => ?_
  rw [wp_bind]
  refine sure_cancelTarget e dst fun t₂ h₂ hdst => ?_
  have hs₂ := h₂.goes.settled _ (h₁.goes.settled _ hs)
  have hs₃ : Settled t₂ [(.src, src.path)] := by
    cases he : e.isTargetFailed with
    | true => exact hs₂.drop (.inl (h₂.goes.ended _ (h₁.goes.ended _ (hover he))))
    | false => exact hs₂.drop (.inr (hdst he))
  exact h t₂ (h₁.trans h₂) (hs₃.drop (.inr (h₂.goes.asked _ hsrc)))

theorem sure_relay (rounds : ℕ) (hs : Settled trace []) (hk : Sockets trace []) :
    Sure (fun _ _ trace' => Returned trace') (fun _ _ trace' => Thrown trace')
      (relay o rounds) l trace := by
  unfold Sure relay
  rw [wp_bind]
  refine sure_startSource hs hk (fun src t₁ hs₁ hk₁ _ => ?_) fun reason t₁ h₁ => ?_
  · rw [wp_bind, wp_tryCatch]
    refine sure_startTarget hs₁ hk₁ (fun dst t₂ hs₂ hk₂ hlast => ?_) fun reason t₂ h₂ => ?_
    · rw [wp_bind, wp_assign, wp_andFinally, wp_tryCatch, wp_bind]
      refine wp_mono ?_ ?_ (sure_openAll src dst (socketNames src dst) hk₂)
      · rintro _ l₃ t₃ ⟨h₃, hk₃⟩
        refine wp_mono ?_ ?_ (sure_waitTarget dst none rounds)
        · rintro _ _ t₄ ⟨rfl, h₄, hdone⟩
          refine sure_closeSockets (h₄.sockets _ hk₃) fun l₅ t₅ h₅ hnone =>
            ⟨hnone, dst.path, ?_, h₅.succeeded _ hdone⟩
          exact h₅.target.trans (h₄.goes.target.trans (h₃.target.trans hlast))
        · rintro e _ t₄ ⟨rfl, h₄⟩
          have hs₄ := h₄.stays.goes.settled _ (h₃.settled _ hs₂)
          refine sure_cancelRelay hs₄ h₄.target fun t₅ h₅ hs₅ => ?_
          have hk₅ := h₅.sockets _ (h₄.stays.sockets _ hk₃)
          exact sure_closeSockets hk₅ fun l₆ t₆ h₆ hnone => ⟨h₆.settled _ hs₅, hnone⟩
      · rintro e l₃ t₃ ⟨⟨h₃, hk₃⟩, he⟩
        refine sure_cancelRelay (h₃.settled _ hs₂) (fun hyes => ?_) fun t₄ h₄ hs₄ => ?_
        · rw [he] at hyes
          cases hyes
        · exact sure_closeSockets (h₄.sockets _ hk₃) fun l₅ t₅ h₅ hnone => ⟨h₅.settled _ hs₄, hnone⟩
    · rw [wp_bind]
      refine sure_cancel fun t₃ h₃ hasked => ?_
      exact ⟨(h₃.goes.settled _ (h₂.goes.settled _ hs₁)).drop (.inr hasked),
        h₃.sockets _ (h₂.sockets _ hk₁)⟩
  · exact ⟨h₁.goes.settled _ hs, h₁.sockets _ hk⟩

theorem sure_fallsBack (e : Failure)
    {Q : Bool → Locals → List Event → Prop}
    (hQ : ∀ again trace', Stays trace trace' → Q again l trace')
    (hE : ∀ e trace', Stays trace trace' → E e l trace') : Sure Q E (fallsBack o e) l trace := by
  unfold Sure fallsBack
  split
  · rw [wp_bind]
    refine sure_await .aborted (fun aborted => ?_) fun message => ?_
    · exact hQ _ _ (Stays.concat trace rfl rfl rfl)
    · exact hE _ _ (Stays.concat trace rfl rfl rfl)
  · exact hQ false trace (Stays.refl trace)

theorem sockets_nil : Sockets [] [] := by
  constructor
  · rintro - s ⟨e, he, -⟩
    cases he
  · rintro ⟨e, he, -⟩
    cases he
  · intro s hs
    cases hs
  · rintro s ⟨e, he, -⟩
    cases he
  · rintro s ⟨e, he, -⟩
    cases he

theorem sure_transfer (rounds : ℕ) :
    Sure (fun _ _ trace' => Returned trace') (fun _ _ trace' => Thrown trace')
      (transfer o rounds) ⟨none, []⟩ [] := by
  have hs : Settled [] [] := by
    rintro op ⟨e, he, -⟩
    cases he
  unfold Sure transfer
  split
  · rw [wp_bind]
    exact sure_relay o rounds hs sockets_nil
  · rw [wp_tryCatch, wp_bind]
    refine wp_mono (fun _ _ _ h => h) ?_ (sure_direct o rounds hs sockets_nil rfl)
    rintro e l₁ t₁ ⟨hs₁, hk₁⟩
    rw [wp_bind]
    refine sure_fallsBack o e (fun again t₂ h₂ => ?_) fun e' t₂ h₂ => ?_
    · have hs₂ := h₂.goes.settled _ hs₁
      have hk₂ := h₂.sockets _ hk₁
      split
      · rw [wp_bind]
        refine sure_await (.onProgress _) (fun _ => ?_) fun message => ?_
        · rw [wp_bind]
          exact sure_relay o rounds ((Goes.concat t₂ rfl).settled _ hs₂) (hk₂.other rfl rfl)
        · exact ⟨(Goes.concat t₂ rfl).settled _ hs₂, hk₂.other rfl rfl⟩
      · exact ⟨hs₂, hk₂⟩
    · exact ⟨h₂.goes.settled _ hs₁, h₂.sockets _ hk₁⟩

/-- A transfer that has ended cleans up after itself exactly where no pair of websockets was opened
by half. -/
theorem cleansUp_iff (o : TransferOptions) (rounds : ℕ) {os : List Outcome}
    {r : Except Failure Transport}
    {l : Locals} {trace : List Event}
    (h : (transfer o rounds ⟨none, []⟩).result world [] os = some ((r, l), trace)) :
    CleansUp trace r ↔ ¬ HalfOpen trace := by
  have hend := (wp_iff_result _ _ _).mp (sure_transfer o rounds) os r l trace h
  have hsockets : Sockets trace [] := by
    cases r with
    | ok transport => exact hend.1
    | error e => exact hend.2
  constructor
  · intro hclean hhalf
    obtain ⟨s, hs, hc, -⟩ := hsockets.lost hhalf
    exact hc (hclean.closes s hs)
  · intro hno
    constructor
    · rintro transport rfl
      exact hend.2
    · rintro e rfl op hop
      rcases hend.1 op hop with hop | hop
      · cases hop
      · exact hop
    · intro s hs
      rcases hsockets.rest hno s hs with hs | hs
      · cases hs
      · exact hs

def moveWeb (transport : Transport) : TransferOptions :=
  { dstUrl := "https://b:8443", srcProject := "p", dstProject := "q", name := "web",
    request := ⟨"web", .container, "aarch64", [], [], ["default"]⟩, refresh := false, live := false,
    instanceOnly := false, targetCert := "PEM", transport }

/-- A call that goes well; of a pair `opens` says which opens. -/
def goesWell (opens : Bool × Bool) : Outcome where
  fails := none
  answers
    | .startSource .. => ⟨none, "s1", some [("control", "c")]⟩
    | .startTarget .. => ⟨none, "t1", some [("control", "c")]⟩
    | .status _ => ⟨"Running", "", .null⟩
    | .wait .. => ⟨"Success", "", .null⟩
    | .websockets .. => (none, none)
    | .aborted => none
    | .cancel .. | .close _ | .onProgress _ | .pipes => ()
  opens

/-- Relayed, with both control sockets open. -/
theorem cleansUp_iff_relayed : ∃ r l trace,
    (transfer (moveWeb .relay) 1 ⟨none, []⟩).result world []
    (List.replicate 8 (goesWell (true, true))) =
        some ((r, l), trace) ∧ Opened trace 4 ∧ CleansUp trace r := by
  have hrun : ((transfer (moveWeb .relay) 1 ⟨none, []⟩).result world []
      (List.replicate 8 (goesWell (true, true)))).map (fun x => x.2.filterMap Event.pair) =
        some [(some 4, some 5)] := rfl
  obtain ⟨⟨⟨r, l⟩, trace⟩, h, hpairs⟩ := map_eq_some_iff.mp hrun
  refine ⟨r, l, trace, h, ?_, (cleansUp_iff (moveWeb .relay) 1 h).mpr ?_⟩
  · have hmem : (some 4, some 5) ∈
      trace.filterMap Event.pair := by rw [hpairs]; exact mem_singleton_self _
    obtain ⟨e, he, hp⟩ := List.mem_filterMap.mp hmem
    exact ⟨e, he, _, hp, .inl rfl⟩
  · rintro ⟨e, he, p, hp, hhalf⟩
    have hmem : p ∈ trace.filterMap Event.pair := List.mem_filterMap.mpr ⟨e, he, hp⟩
    rw [hpairs, mem_singleton] at hmem
    subst hmem
    exact hhalf rfl

/-- Of the control sockets only the source's opens: it is left open. -/
theorem transfer_leaves_websocket : ∃ r l trace,
    (transfer (moveWeb .relay) 1 ⟨none, []⟩).result world []
    (List.replicate 6 (goesWell (true, false))) = some ((r, l), trace) ∧ ¬ CleansUp trace r := by
  have hrun : ((transfer (moveWeb .relay) 1 ⟨none, []⟩).result world []
      (List.replicate 6 (goesWell (true, false)))).map
        (fun x => (x.2.filterMap Event.pair, x.2.filterMap Event.closes)) =
          some ([(some 4, none)], []) := rfl
  obtain ⟨⟨⟨r, l⟩, trace⟩, h, heq⟩ := map_eq_some_iff.mp hrun
  obtain ⟨hpairs, hcloses⟩ := Prod.mk.inj heq
  refine ⟨r, l, trace, h, fun hclean => ?_⟩
  have hmem : (some 4, none) ∈
    trace.filterMap Event.pair := by rw [hpairs]; exact mem_singleton_self _
  obtain ⟨e, he, hp⟩ := List.mem_filterMap.mp hmem
  obtain ⟨e', he', hc⟩ := hclean.closes 4 ⟨e, he, _, hp, .inl rfl⟩
  have hclosed : 4 ∈ trace.filterMap Event.closes := List.mem_filterMap.mpr ⟨e', he', hc⟩
  rw [hcloses] at hclosed
  cases hclosed

end IncusCloud.Mobility.Transfer
