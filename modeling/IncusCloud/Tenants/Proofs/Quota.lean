import IncusCloud.Lib.Run
import IncusCloud.Lib.Slots
import IncusCloud.Tenants.Creates

/-!
# Creates stay within the quota

What a tenant's instances are given and its creates ask for is at most the quota, in every run in
which a create ends only once a usage with its instance is recorded, and no usage read later is
replaced.

The check compares the quota with the recorded usages and what the pending creates ask for. What it
misses is nothing, as long as every instance that a recorded usage does not have is one of a pending
create.
-/

namespace IncusCloud.Tenants

open Lib List
open Option (map_eq_some_iff some.inj)

variable {place : ℕ} {payload : CreatePayload}

/-! ### Sums over jobs -/

def asked (jobs : List CreateJob) (p : CreateJob → Bool) (k : QuotaKey) : ℕ :=
  ((jobs.filter p).map fun j => j.payload.usage k).sum

section

variable {jobs l : List CreateJob} {p s r : CreateJob → Bool} {k : QuotaKey}

theorem asked_cons (job : CreateJob) :
    asked (job :: jobs) p k = (if p job then job.payload.usage k else 0) + asked jobs p k := by
  unfold asked
  rw [filter_cons]
  split_ifs
  · rw [map_cons, sum_cons]
  · rw [Nat.zero_add]

theorem asked_append (jobs' : List CreateJob) :
    asked (jobs ++ jobs') p k = asked jobs p k + asked jobs' p k := by
  unfold asked
  rw [filter_append, map_append, sum_append]

theorem asked_set {i : ℕ} {job : CreateJob} (hi : jobs[i]? = some job) (job' : CreateJob) :
    asked (jobs.set i job') p k + (if p job then job.payload.usage k else 0) =
      asked jobs p k + if p job' then job'.payload.usage k else 0 := by
  induction jobs generalizing i with
  | nil => cases hi
  | cons x jobs ih =>
    cases i with
    | zero =>
      obtain rfl := some.inj hi
      rw [set_cons_zero, asked_cons, asked_cons]
      omega
    | succ i =>
      have hrest := ih (i := i) hi
      rw [set_cons_succ, asked_cons, asked_cons]
      omega

theorem asked_add_le (hdisjoint : ∀ j, p j = true → s j = false) (hp : ∀ j, p j = true → r j = true)
    (hs : ∀ j, s j = true → r j = true) : asked l p k + asked l s k ≤ asked l r k := by
  induction l with
  | nil => exact Nat.le_refl _
  | cons job l ih =>
    rw [asked_cons, asked_cons, asked_cons]
    cases h : p job with
    | true =>
      rw [hdisjoint job h, hp job h]
      simp only [if_true, Bool.false_eq_true, if_false]
      omega
    | false =>
      cases h' : s job with
      | true =>
        rw [hs job h']
        simp only [if_true, Bool.false_eq_true, if_false]
        omega
      | false =>
        simp only [Bool.false_eq_true, if_false]
        omega

theorem asked_mono (h : ∀ j, p j = true → r j = true) : asked l p k ≤ asked l r k := by
  have hle := asked_add_le (l := l) (k := k) (s := fun _ => false) (fun _ _ => rfl) h nofun
  omega

end

/-! ### What a usage has -/

theorem usageOf_append (given : List CreatePayload) (x : CreatePayload) (k : QuotaKey) :
    usageOf (given ++ [x]) k = usageOf given k + x.usage k := by
  unfold usageOf
  rw [map_append, sum_append, map_singleton, sum_singleton]

def Reads (given : List CreatePayload) (usage : Option Usage) (n : ℕ) : Prop :=
  n ≤ given.length ∧ ∀ k, usage.elim 0 (· k) = usageOf (given.take n) k

theorem Reads.append {given : List CreatePayload} {usage : Option Usage} {n : ℕ}
    (h : Reads given usage n) (x : CreatePayload) : Reads (given ++ [x]) usage n := by
  refine ⟨?_, fun k => ?_⟩
  · rw [length_append]
    exact Nat.le_add_right_of_le h.1
  · rw [take_append_of_le_length h.1]
    exact h.2 k

/-- The job's instance is the `n`-th or a later one. -/
def CreateJob.madeFrom (n : ℕ) (j : CreateJob) : Bool :=
  match j.incus with
  | .made index => n ≤ index
  | _ => false

/-- A pending create in this placement whose instance is the `n`-th or a later one. -/
def covers (i n : ℕ) (j : CreateJob) : Bool := j.active && decide (j.place = i) && j.madeFrom n

theorem covers_of_ne {i : ℕ} (job : CreateJob) (h : job.place ≠ i) (n : ℕ) :
    covers i n job = false := by
  unfold covers
  rw [decide_eq_false h, Bool.and_false, Bool.false_and]

/-- Every instance from `n` on is one of a pending create; and so for later ones. -/
def Covered (jobs : List CreateJob) (i : ℕ) (given : List CreatePayload) (n : ℕ) : Prop :=
  ∀ m, n ≤ m → ∀ k, usageOf given k ≤ usageOf (given.take m) k + asked jobs (covers i m) k

namespace Covered

variable {jobs : List CreateJob} {i j n : ℕ} {given : List CreatePayload} {job job' : CreateJob}

theorem mono (h : Covered jobs i given n) {m : ℕ} (hm : n ≤ m) : Covered jobs i given m :=
  fun l hl => h l (Nat.le_trans hm hl)

theorem append (h : Covered jobs i given n) (jobs' : List CreateJob) :
    Covered (jobs ++ jobs') i given n := by
  intro m hm k
  rw [asked_append]
  have hle := h m hm k
  omega

theorem set (h : Covered jobs i given n) (hj : jobs[j]? = some job)
    (hpayload : job'.payload = job.payload) (hcovers : ∀ m, n ≤ m → covers i m job' = covers i m job) :
    Covered (jobs.set j job') i given n := by
  intro m hm k
  have hset := asked_set (p := covers i m) (k := k) hj job'
  rw [hcovers m hm, hpayload] at hset
  have hle := h m hm k
  omega

theorem make (h : Covered jobs i given n) (hj : jobs[j]? = some job) (hplace : job.place = i)
    (hactive : job.active = true) (hincus : job.incus = .accepted) :
    Covered (jobs.set j { job with incus := .made given.length }) i (given ++ [job.payload]) n := by
  intro m hm k
  -- A usage read before the instance leaves it to the job; one read later has it.
  by_cases hlen : m ≤ given.length
  · have hset := asked_set (p := covers i m) (k := k) hj { job with incus := .made given.length }
    have hbefore : covers i m job = false := by
      unfold covers CreateJob.madeFrom
      rw [hincus, Bool.and_false]
    have hafter : covers i m { job with incus := .made given.length } = true := by
      unfold covers CreateJob.madeFrom
      rw [Bool.and_eq_true, Bool.and_eq_true]
      exact ⟨⟨hactive, decide_eq_true hplace⟩, decide_eq_true hlen⟩
    rw [hbefore, hafter] at hset
    simp only [Bool.false_eq_true, if_false, if_true] at hset
    have hle := h m hm k
    rw [usageOf_append, take_append_of_le_length hlen]
    omega
  · have hall : (given ++ [job.payload]).take m = given ++ [job.payload] := by
      refine take_of_length_le ?_
      rw [length_append, length_singleton]
      omega
    rw [hall]
    exact Nat.le_add_right _ _

end Covered

theorem covered_length (jobs : List CreateJob) (i : ℕ) (given : List CreatePayload) :
    Covered jobs i given given.length := by
  intro m hm k
  rw [take_of_length_le hm]
  exact Nat.le_add_right _ _

theorem sum_given_le {l : List CreateJob} {k : QuotaKey} :
    ∀ (places : List Place) (usages : List (Option Usage)) (first : ℕ),
      usages.length = places.length →
      (∀ i p u, places[i]? = some p → usages[i]? = some u →
        usageOf p.given k ≤ u.elim 0 (· k) +
          asked l (fun j => j.active && decide (j.place = first + i) && j.incus.isMade) k) →
      (places.map fun p => usageOf p.given k).sum ≤ sumUsage usages k +
        asked l (fun j => j.active && decide (first ≤ j.place) && j.incus.isMade) k
  | [], _, _, _, _ => Nat.zero_le _
  | p :: places, [], _, hlen, _ => by cases hlen
  | p :: places, u :: usages, first, hlen, h => by
    -- On the placements: the jobs of the first one are none of the others'.
    have hhead := h 0 p u rfl rfl
    have htail := sum_given_le places usages (first + 1) (Nat.succ.inj hlen) fun i p' u' hp hu => by
      have hi := h (i + 1) p' u' hp hu
      rwa [show first + (i + 1) = first + 1 + i by omega] at hi
    have hjobs := asked_add_le (l := l) (k := k)
      (p := fun j => j.active && decide (j.place = first + 0) && j.incus.isMade)
      (s := fun j => j.active && decide (first + 1 ≤ j.place) && j.incus.isMade)
      (r := fun j => j.active && decide (first ≤ j.place) && j.incus.isMade)
      (fun j hj => by
        simp only [Bool.and_eq_true, decide_eq_true_eq] at hj
        have hlt : ¬ first + 1 ≤ j.place := by omega
        simp [hlt])
      (fun j hj => by
        simp only [Bool.and_eq_true, decide_eq_true_eq] at hj ⊢
        exact ⟨⟨hj.1.1, by omega⟩, hj.2⟩)
      (fun j hj => by
        simp only [Bool.and_eq_true, decide_eq_true_eq] at hj ⊢
        exact ⟨⟨hj.1.1, by omega⟩, hj.2⟩)
    rw [map_cons, sum_cons]
    have hsum : sumUsage (u :: usages) k = u.elim 0 (· k) + sumUsage usages k := rfl
    omega

/-! ### Runs -/

namespace Tenant

def asks (j : CreateJob) : Bool := j.active && !j.incus.isMade

/-- A create that has made its instance ends only once a usage with the instance is recorded, and
read by the request that has still to read the pending creates; one whose request Incus may still
act on does not end. A usage is stored only over one that was read when there were no more
instances. -/
def recorded (t : Tenant) : TenantAction → Bool
  | .finish j _ =>
    match t.jobs[j]? with
    | some job =>
      match job.incus with
      | .made index =>
        decide (∀ p ∈ t.places[job.place]?, index < p.seen) &&
          match t.check with
          | .summed _ _ _ seen => decide (∀ n ∈ seen[job.place]?, index < n)
          | _ => true
      | .accepted => false
      | _ => true
    | none => true
  | .storeUsage j =>
    match t.jobs[j]? with
    | some job =>
      match job.read with
      | some (_, n) => decide (∀ p ∈ t.places[job.place]?, p.seen ≤ n)
      | none => true
    | none => true
  | .passStore p =>
    match t.passes[p]? with
    | some ⟨i, .read _ n⟩ => decide (∀ p ∈ t.places[i]?, p.seen ≤ n)
    | _ => true
  | _ => true

def CheckOk (t : Tenant) : Check → Prop
  | .free => True
  | .locked place _ => place < t.places.length
  | .summed place _ usages seen =>
    place < t.places.length ∧ usages.length = t.places.length ∧ seen.length = t.places.length ∧
      ∀ (i : ℕ) p u n, t.places[i]? = some p → usages[i]? = some u → seen[i]? = some n →
        Reads p.given u n ∧ Covered t.jobs i p.given n
  | .within place payload =>
    place < t.places.length ∧
      ∀ k n, quotaBytes t.quotas k = some n → t.total k + payload.usage k ≤ n

/-- What Incus made on a place is counted there, or by a job that is not over. -/
structure Sound (t : Tenant) : Prop where
  places : ∀ (i : ℕ) p, t.places[i]? = some p →
    Reads p.given p.usage p.seen ∧ Covered t.jobs i p.given p.seen ∧ (p.limits = none → p.given = [])
  jobs : ∀ (j : ℕ) job, t.jobs[j]? = some job → job.place < t.places.length ∧
    (∀ u n p, job.read = some (u, n) → t.places[job.place]? = some p → Reads p.given (some u) n) ∧
    (job.active = false → job.incus ≠ .accepted)
  passes : ∀ (p : ℕ) pass, t.passes[p]? = some pass →
    ∀ u n p, pass.phase = .read u n → t.places[pass.place]? = some p → Reads p.given u n
  check : t.CheckOk t.check
  total : ∀ k n, quotaBytes t.quotas k = some n → t.total k ≤ n

theorem total_eq (t : Tenant) (k : QuotaKey) :
    t.total k = (t.places.map fun p => usageOf p.given k).sum + asked t.jobs asks k := rfl

theorem pendingOf_eq (t : Tenant) (k : QuotaKey) : t.pendingOf k = asked t.jobs (·.active) k := by
  unfold pendingOf sumUsage asked
  rw [map_map]
  rfl

variable {t t' : Tenant} {i j n : ℕ} {job job' : CreateJob}

theorem total_le_used {usages : List (Option Usage)} (hlen : usages.length = t.places.length)
    (h : ∀ i p u, t.places[i]? = some p → usages[i]? = some u →
      ∃ n, Reads p.given u n ∧ Covered t.jobs i p.given n) (k : QuotaKey) :
    t.total k ≤ sumUsage (usages ++ [some t.pendingOf]) k := by
  have hgiven := sum_given_le (l := t.jobs) (k := k) t.places usages 0 hlen fun i p u hp hu => by
    obtain ⟨n, hreads, hcovered⟩ := h i p u hp hu
    have hle := hcovered n (Nat.le_refl n) k
    rw [← hreads.2 k] at hle
    have hmono := asked_mono (l := t.jobs) (k := k) (p := covers i n)
      (r := fun j => j.active && decide (j.place = 0 + i) && j.incus.isMade) fun j hj => by
        unfold covers CreateJob.madeFrom at hj
        rw [Bool.and_eq_true, Bool.and_eq_true, decide_eq_true_eq] at hj
        rw [Bool.and_eq_true, Bool.and_eq_true, decide_eq_true_eq, Nat.zero_add]
        refine ⟨hj.1, ?_⟩
        cases hincus : j.incus with
        | made index => rfl
        | unsent => rw [hincus] at hj; exact absurd hj.2 Bool.false_ne_true
        | accepted => rw [hincus] at hj; exact absurd hj.2 Bool.false_ne_true
        | refused => rw [hincus] at hj; exact absurd hj.2 Bool.false_ne_true
    omega
  -- A pending create either has made its instance or still asks for it.
  have hjobs := asked_add_le (l := t.jobs) (k := k)
    (p := fun j => j.active && decide (0 ≤ j.place) && j.incus.isMade) (s := asks)
    (r := fun j => j.active)
    (fun j hj => by
      rw [Bool.and_eq_true] at hj
      unfold asks
      rw [hj.2, Bool.not_true, Bool.and_false])
    (fun j hj => by
      rw [Bool.and_eq_true, Bool.and_eq_true] at hj
      exact hj.1.1)
    (fun j hj => (Bool.and_eq_true_iff.mp hj).1)
  have hsum : sumUsage (usages ++ [some t.pendingOf]) k = sumUsage usages k + t.pendingOf k := by
    unfold sumUsage
    rw [map_append, sum_append, map_singleton, sum_singleton]
    rfl
  rw [hsum, total_eq, pendingOf_eq]
  omega

theorem CheckOk.of_le {c : Check} (h : t.CheckOk c) (hquotas : t'.quotas = t.quotas)
    (hlen : t'.places.length = t.places.length) (htotal : ∀ k, t'.total k ≤ t.total k)
    (hcovered : ∀ place payload usages seen, c = .summed place payload usages seen →
      ∀ (i : ℕ) p' n, t'.places[i]? = some p' → seen[i]? = some n →
      ∃ p, t.places[i]? = some p ∧ ∀ u, Reads p.given u n → Covered t.jobs i p.given n →
        Reads p'.given u n ∧ Covered t'.jobs i p'.given n) :
    t'.CheckOk c := by
  cases c with
  | free => trivial
  | locked place payload =>
    show place < t'.places.length
    rw [hlen]
    exact h
  | summed place payload usages seen =>
    obtain ⟨hplace, husages, hseen, hreads⟩ := h
    refine ⟨by rw [hlen]; exact hplace, by rw [hlen]; exact husages, by rw [hlen]; exact hseen, ?_⟩
    intro i p' u n hp' hu hn
    obtain ⟨p, hp, hkeeps⟩ := hcovered place payload usages seen rfl i p' n hp' hn
    obtain ⟨hr, hc⟩ := hreads i p u n hp hu hn
    exact hkeeps u hr hc
  | within place payload =>
    refine ⟨by rw [hlen]; exact h.1, fun k n hk => ?_⟩
    rw [hquotas] at hk
    have hle := h.2 k n hk
    have hle' := htotal k
    omega

theorem total_setJob (hj : t.jobs[j]? = some job) (job' : CreateJob) (k : QuotaKey) :
    (t.setJob j job').total k + (if asks job then job.payload.usage k else 0) =
      t.total k + if asks job' then job'.payload.usage k else 0 := by
  have hset := asked_set (p := asks) (k := k) hj job'
  have hplaces : (t.setJob j job').places = t.places := rfl
  have hjobs : (t.setJob j job').jobs = t.jobs.set j job' := rfl
  rw [total_eq, total_eq, hplaces, hjobs]
  omega

theorem Sound.setJob (h : t.Sound) (hj : t.jobs[j]? = some job) (hplace : job'.place = job.place)
    (hpayload : job'.payload = job.payload) (hactive : job'.active = job.active)
    (hmade : job'.incus = job.incus ∨ job'.incus.isMade = false ∧ job.incus.isMade = false)
    (hread : ∀ u n p, job'.read = some (u, n) → t.places[job.place]? = some p →
      Reads p.given (some u) n)
    (haccepted : job'.active = false → job'.incus ≠ .accepted) : (t.setJob j job').Sound := by
  have hcovers : ∀ i m, covers i m job' = covers i m job := by
    intro i m
    have hfrom : job'.madeFrom m = job.madeFrom m := by
      unfold CreateJob.madeFrom
      rcases hmade with heq | ⟨hnot', hnot⟩
      · rw [heq]
      · cases h1 : job'.incus <;> cases h2 : job.incus <;> simp_all [Incus.isMade]
    unfold covers
    rw [hactive, hplace, hfrom]
  have hasks : asks job' = asks job := by
    unfold asks
    rw [hactive]
    rcases hmade with heq | ⟨hnot', hnot⟩
    · rw [heq]
    · rw [hnot', hnot]
  have htotal : ∀ k, (t.setJob j job').total k = t.total k := by
    intro k
    have hset := total_setJob hj job' k
    rw [hasks, hpayload] at hset
    omega
  refine ⟨fun i p hp => ?_, fun l x hx => ?_, h.passes, ?_, fun k n hk => ?_⟩
  · obtain ⟨hr, hc, hl⟩ := h.places i p hp
    exact ⟨hr, hc.set hj hpayload fun m _ => hcovers i m, hl⟩
  · rcases getElem?_set_cases hx with ⟨-, rfl⟩ | ⟨-, hx⟩
    · rw [hplace]
      exact ⟨(h.jobs j job hj).1, hread, haccepted⟩
    · exact h.jobs l x hx
  · refine h.check.of_le rfl rfl (fun k => Nat.le_of_eq (htotal k)) ?_
    intro _ _ _ _ _ i p n hp _
    exact ⟨p, hp, fun u hr hc => ⟨hr, hc.set hj hpayload fun m _ => hcovers i m⟩⟩
  · rw [htotal]
    exact h.total k n hk

/-- The job's instance, if it has one, is among the first `n`. -/
def Among (job : CreateJob) (n : ℕ) : Prop := ∀ index, job.incus = .made index → index < n

theorem Among.not_covers (h : Among job n) {m : ℕ} (hm : n ≤ m) (i : ℕ) : covers i m job = false := by
  unfold covers CreateJob.madeFrom
  cases hincus : job.incus with
  | made index =>
    have hlt := h index hincus
    have hnot : decide (m ≤ index) = false := decide_eq_false (by omega)
    dsimp only
    rw [hnot, Bool.and_false]
  | unsent => exact Bool.and_false _
  | accepted => exact Bool.and_false _
  | refused => exact Bool.and_false _

theorem Sound.finish (h : t.Sound) (hj : t.jobs[j]? = some job) {state : JobState}
    (hended : state = .succeeded ∨ state = .failed)
    (hseen : ∀ p, t.places[job.place]? = some p → Among job p.seen)
    (hcheck : ∀ place payload usages seen n, t.check = .summed place payload usages seen →
      seen[job.place]? = some n → Among job n)
    (haccepted : job.incus ≠ .accepted) : (t.setJob j { job with state := state }).Sound := by
  have hactive : CreateJob.active { job with state := state } = false := by
    rcases hended with rfl | rfl <;> rfl
  have hcovered : ∀ (i : ℕ) (given : List CreatePayload) (n : ℕ), (job.place = i → Among job n) →
      Covered t.jobs i given n →
      Covered (t.jobs.set j { job with state := state }) i given n := by
    intro i given n hamong hc
    refine hc.set hj rfl fun m hm => ?_
    have hafter : covers i m { job with state := state } = false := by
      unfold covers
      rw [hactive, Bool.false_and, Bool.false_and]
    rw [hafter]
    by_cases hplace : job.place = i
    · exact ((hamong hplace).not_covers hm i).symm
    · exact (covers_of_ne job hplace m).symm
  have htotal : ∀ k, (t.setJob j { job with state := state }).total k ≤ t.total k := by
    intro k
    have hset := total_setJob hj { job with state := state } k
    have hafter : asks { job with state := state } = false := by
      unfold asks
      rw [hactive, Bool.false_and]
    rw [hafter, if_neg Bool.false_ne_true] at hset
    omega
  refine ⟨fun i p hp => ?_, fun l x hx => ?_, h.passes, ?_, fun k n hk => ?_⟩
  · obtain ⟨hr, hc, hl⟩ := h.places i p hp
    exact ⟨hr, hcovered i p.given p.seen (fun hplace => hseen p (hplace ▸ hp)) hc, hl⟩
  · rcases getElem?_set_cases hx with ⟨-, rfl⟩ | ⟨-, hx⟩
    · obtain ⟨hplace, hread, -⟩ := h.jobs j job hj
      exact ⟨hplace, hread, fun _ => haccepted⟩
    · exact h.jobs l x hx
  · refine h.check.of_le rfl rfl htotal fun place payload usages seen hc i p n hp hn => ⟨p, hp, ?_⟩
    intro u hr hcov
    refine ⟨hr, hcovered i p.given n (fun hplace => ?_) hcov⟩
    exact hcheck place payload usages seen n hc (hplace ▸ hn)
  · exact Nat.le_trans (htotal k) (h.total k n hk)

theorem Sound.modify (h : t.Sound) {f : Place → Place} (hgiven : ∀ p, (f p).given = p.given)
    (hf : ∀ p, t.places[i]? = some p → Reads p.given (f p).usage (f p).seen ∧ p.seen ≤ (f p).seen ∧
      ((f p).limits = none → p.given = [])) :
    Sound { t with places := t.places.modify i f } := by
  have hget : ∀ (l : ℕ) p', (t.places.modify i f)[l]? = some p' →
      ∃ p, t.places[l]? = some p ∧ p'.given = p.given := by
    intro l p' hp'
    rcases getElem?_modify_cases hp' with ⟨-, p, hp, rfl⟩ | ⟨-, hp⟩
    · exact ⟨p, hp, hgiven p⟩
    · exact ⟨p', hp, rfl⟩
  have htotal : ∀ k, Tenant.total { t with places := t.places.modify i f } k = t.total k := by
    intro k
    have hmap : (t.places.modify i f).map (fun p => usageOf p.given k) =
        t.places.map fun p => usageOf p.given k := map_modify_eq fun p => by rw [hgiven]
    rw [total_eq, total_eq]
    rw [hmap]
  refine ⟨fun l p' hp' => ?_, fun l job hjob => ?_, fun l pass hpass u n p' hphase hp' => ?_, ?_,
    fun k n hk => ?_⟩
  · rcases getElem?_modify_cases hp' with ⟨rfl, p, hp, rfl⟩ | ⟨-, hp⟩
    · obtain ⟨hr, hle, hl⟩ := hf p hp
      rw [hgiven]
      exact ⟨hr, (h.places l p hp).2.1.mono hle, hl⟩
    · exact h.places l p' hp
  · obtain ⟨hplace, hread, haccepted⟩ := h.jobs l job hjob
    refine ⟨by rw [length_modify]; exact hplace, fun u n p' hu hp' => ?_, haccepted⟩
    obtain ⟨p, hp, heq⟩ := hget job.place p' hp'
    rw [heq]
    exact hread u n p hu hp
  · obtain ⟨p, hp, heq⟩ := hget pass.place p' hp'
    rw [heq]
    exact h.passes l pass hpass u n p hphase hp
  · refine h.check.of_le rfl (length_modify ..) (fun k => Nat.le_of_eq (htotal k)) ?_
    intro _ _ _ _ _ l p' n hp' _
    obtain ⟨p, hp, heq⟩ := hget l p' hp'
    rw [heq]
    exact ⟨p, hp, fun u hr hc => ⟨hr, hc⟩⟩
  · rw [htotal]
    exact h.total k n hk

/-- The project of a placement has one more instance. -/
def give (t : Tenant) (i : ℕ) (payload : CreatePayload) : Tenant :=
  { t with places := t.places.modify i fun p => { p with given := p.given ++ [payload] } }

variable {p : Place}

theorem total_give (hp : t.places[i]? = some p) (payload : CreatePayload) (k : QuotaKey) :
    (t.give i payload).total k = t.total k + payload.usage k := by
  have hsum := sum_map_modify (f := fun p : Place => { p with given := p.given ++ [payload] })
    (fun p => usageOf p.given k) hp
  rw [usageOf_append] at hsum
  rw [total_eq, total_eq]
  show ((t.places.modify i fun p => { p with given := p.given ++ [payload] }).map
    fun p => usageOf p.given k).sum + asked t.jobs asks k = _
  omega

theorem length_give (payload : CreatePayload) : (t.give i payload).places.length = t.places.length :=
  length_modify ..

theorem total_make (hj : t.jobs[j]? = some job) (hactive : job.active = true)
    (hincus : job.incus = .accepted) (hp : t.places[job.place]? = some p) (n : ℕ)
    (k : QuotaKey) :
    ((t.give job.place job.payload).setJob j { job with incus := .made n }).total k = t.total k := by
  have hjob : (t.give job.place job.payload).jobs[j]? = some job := hj
  have hset := total_setJob hjob { job with incus := .made n } k
  have hgive := total_give hp job.payload k
  have hbefore : asks job = true := by
    unfold asks
    rw [hactive, hincus]
    rfl
  have hafter : asks { job with incus := .made n } = false := by
    unfold asks
    rw [Incus.isMade, Bool.not_true, Bool.and_false]
  rw [hbefore, hafter, if_pos rfl, if_neg Bool.false_ne_true] at hset
  omega

/-- What is known of the placements when Incus makes a job's instance: the job covers its own; in
other placements it covers as little as before. -/
theorem Sound.place_make (h : t.Sound) (hj : t.jobs[j]? = some job) (hactive : job.active = true)
    (hincus : job.incus = .accepted) (hp : t.places[job.place]? = some p)
    (hlimits : p.limits ≠ none) {l : ℕ} {p' : Place}
    (hp' : (t.give job.place job.payload).places[l]? = some p') :
    ∃ q, t.places[l]? = some q ∧ p'.usage = q.usage ∧ p'.seen = q.seen ∧
      (p'.limits = none → p'.given = []) ∧
      ∀ n, (∀ u, Reads q.given u n → Reads p'.given u n) ∧ (Covered t.jobs l q.given n →
        Covered (t.jobs.set j { job with incus := .made p.given.length }) l p'.given n) := by
  rcases getElem?_modify_cases hp' with ⟨rfl, q, hq, rfl⟩ | ⟨hne, hq⟩
  · rw [hp] at hq
    obtain rfl := some.inj hq
    refine ⟨p, hp, rfl, rfl, fun hnone => absurd hnone hlimits, fun n => ⟨fun u hr => hr.append _, ?_⟩⟩
    exact fun hc => hc.make hj rfl hactive hincus
  · have hplace : job.place ≠ l := fun heq => hne heq.symm
    refine ⟨p', hq, rfl, rfl, (h.places l p' hq).2.2, fun n => ⟨fun u hr => hr, fun hc => ?_⟩⟩
    refine hc.set hj rfl fun m _ => ?_
    rw [covers_of_ne job hplace]
    exact covers_of_ne { job with incus := .made p.given.length } hplace m

theorem Sound.make (h : t.Sound) (hj : t.jobs[j]? = some job) (hincus : job.incus = .accepted) (hp : t.places[job.place]? = some p) (hlimits : p.limits ≠ none) :
    Sound ((t.give job.place job.payload).setJob j { job with incus := .made p.given.length }) := by
  have hactive : job.active = true := by
    by_contra hnot
    exact (h.jobs j job hj).2.2 (Bool.not_eq_true _ ▸ hnot) hincus
  have htotal := total_make hj hactive hincus hp p.given.length
  refine ⟨fun l p' hp' => ?_, fun l x hx => ?_, fun l pass hpass u n p' hphase hp' => ?_, ?_,
    fun k n hk => ?_⟩
  · obtain ⟨q, hq, husage, hseen, hl, hkeeps⟩ := h.place_make hj hactive hincus hp hlimits hp'
    obtain ⟨hr, hc, -⟩ := h.places l q hq
    rw [husage, hseen]
    exact ⟨(hkeeps q.seen).1 _ hr, (hkeeps q.seen).2 hc, hl⟩
  · have hold : ∃ y : CreateJob, (∃ l : ℕ, t.jobs[l]? = some y) ∧ x.place = y.place ∧
        x.read = y.read ∧ (x.active = false → x.incus ≠ .accepted) := by
      rcases getElem?_set_cases hx with ⟨-, rfl⟩ | ⟨-, hx⟩
      · exact ⟨job, ⟨j, hj⟩, rfl, rfl, fun _ => nofun⟩
      · exact ⟨x, ⟨l, hx⟩, rfl, rfl, (h.jobs l x hx).2.2⟩
    obtain ⟨y, ⟨l', hy⟩, hplace, hread, haccepted⟩ := hold
    refine ⟨?_, fun u n p' hu hp' => ?_, haccepted⟩
    · rw [hplace]
      exact lt_of_lt_of_eq (h.jobs l' y hy).1 (length_give _).symm
    · obtain ⟨q, hq, -, -, -, hkeeps⟩ := h.place_make hj hactive hincus hp hlimits hp'
      rw [hplace] at hq
      rw [hread] at hu
      exact (hkeeps n).1 _ ((h.jobs l' y hy).2.1 u n q hu hq)
  · obtain ⟨q, hq, -, -, -, hkeeps⟩ := h.place_make hj hactive hincus hp hlimits hp'
    exact (hkeeps n).1 _ (h.passes l pass hpass u n q hphase hq)
  · refine h.check.of_le rfl (length_give _) (fun k => Nat.le_of_eq (htotal k)) ?_
    intro _ _ _ _ _ l p' n hp' _
    obtain ⟨q, hq, -, -, -, hkeeps⟩ := h.place_make hj hactive hincus hp hlimits hp'
    exact ⟨q, hq, fun u hr hc => ⟨(hkeeps n).1 u hr, (hkeeps n).2 hc⟩⟩
  · rw [htotal]
    exact h.total k n hk

theorem Sound.setPass (h : t.Sound) {p : ℕ} {phase : PassPhase}
    (hphase : ∀ u n q, phase = .read u n → t.places[place]? = some q → Reads q.given u n) :
    (t.setPass p place phase).Sound := by
  refine ⟨h.places, h.jobs, fun l pass hpass => ?_, h.check, h.total⟩
  rcases getElem?_set_cases hpass with ⟨-, rfl⟩ | ⟨-, hpass⟩
  · exact hphase
  · exact h.passes l pass hpass

theorem Sound.reads_projectUsage (h : t.Sound) (hp : t.places[i]? = some p) :
    Reads p.given p.projectUsage p.given.length := by
  refine ⟨Nat.le_refl _, fun k => ?_⟩
  unfold Place.projectUsage
  cases hlimits : p.limits with
  | none =>
    rw [(h.places i p hp).2.2 hlimits]
    rfl
  | some l =>
    rw [take_length]
    rfl

theorem Sound.within (h : t.Sound)
    {usages : List (Option Usage)} {seen : List ℕ} (hc : t.check = .summed place payload usages seen)
    (hexceeds : exceeds t.quotas (sumUsage (usages ++ [some t.pendingOf])) payload.usage = []) :
    t.CheckOk (.within place payload) := by
  have hcheck := h.check
  rw [hc] at hcheck
  obtain ⟨hplace, husages, hseen, hreads⟩ := hcheck
  refine ⟨hplace, fun k n hk => ?_⟩
  have hused := total_le_used husages (fun i p u hp hu => by
    have hlt : i < seen.length := by
      rw [hseen]
      exact (List.getElem?_eq_some_iff.mp hp).1
    exact ⟨seen[i], hreads i p u _ hp hu (List.getElem?_eq_getElem hlt)⟩) k
  have hkeys : k ∈ quotaKeys := by cases k <;> decide
  have hnone := filterMap_eq_nil_iff.mp hexceeds k hkeys
  have hle := h.total k n hk
  obtain ⟨given, hgiven, -⟩ := map_eq_some_iff.mp hk
  rw [hk, hgiven] at hnone
  dsimp only at hnone
  split_ifs at hnone with hzero hover
  · omega
  · omega

theorem Sound.refuse (h : t.Sound) (hj : t.jobs[j]? = some job) (hincus : job.incus = .accepted) :
    (t.setJob j { job with incus := .refused }).Sound :=
  h.setJob hj rfl rfl rfl (.inr ⟨rfl, by rw [hincus]; rfl⟩) (h.jobs j job hj).2.1 fun _ => nofun

theorem Sound.finish_of_recorded (h : t.Sound) (hj : t.jobs[j]? = some job)
    (hok : (match job.incus with
      | .made index =>
        decide (∀ p ∈ t.places[job.place]?, index < p.seen) &&
          match t.check with
          | .summed _ _ _ seen => decide (∀ n ∈ seen[job.place]?, index < n)
          | _ => true
      | .accepted => false
      | _ => true) = true) (state : JobState) (hended : state = .succeeded ∨ state = .failed) :
    (t.setJob j { job with state := state }).Sound := by
  refine h.finish hj hended (fun p hp index hincus => ?_) (fun _ _ _ seen n hc hn index hincus => ?_) ?_
  · rw [hincus] at hok
    exact of_decide_eq_true (Bool.and_eq_true_iff.mp hok).1 p hp
  · rw [hincus, hc] at hok
    exact of_decide_eq_true (Bool.and_eq_true_iff.mp hok).2 n hn
  · intro hincus
    rw [hincus] at hok
    cases hok

theorem Sound.readUsages (h : t.Sound)
    (hc : t.check = .locked place payload) :
    Sound { t with
      check := .summed place payload (t.places.map (·.usage)) (t.places.map (·.seen)) } := by
  have hplace : place < t.places.length := by
    have hcheck := h.check
    rwa [hc] at hcheck
  refine ⟨h.places, h.jobs, h.passes, ⟨hplace, length_map _, length_map _, ?_⟩, h.total⟩
  intro i p u n hp hu hn
  rw [List.getElem?_map, hp] at hu hn
  obtain rfl := some.inj hu
  obtain rfl := some.inj hn
  obtain ⟨hr, hcov, -⟩ := h.places i p hp
  exact ⟨hr, hcov⟩

theorem Sound.enqueue (h : t.Sound)
    (hc : t.check = .within place payload) :
    Sound { t with jobs := t.jobs ++ [⟨place, payload, .queued, .unsent, none⟩], check := .free } := by
  have hcheck := h.check
  rw [hc] at hcheck
  refine ⟨fun i p hp => ?_, fun l x hx => ?_, h.passes, trivial, fun k n hk => ?_⟩
  · obtain ⟨hr, hcov, hl⟩ := h.places i p hp
    exact ⟨hr, hcov.append _, hl⟩
  · rcases getElem?_append_cases hx with ⟨-, rfl⟩ | hx
    · exact ⟨hcheck.1, nofun, nofun⟩
    · exact h.jobs l x hx
  · have hle := hcheck.2 k n hk
    rw [total_eq] at hle ⊢
    dsimp only
    rw [asked_append]
    have hone : asked [⟨place, payload, .queued, .unsent, none⟩] asks k = payload.usage k := rfl
    omega

theorem Sound.storeAt (h : t.Sound) {usage : Option Usage} {seen : ℕ}
    (hlater : ∀ p ∈ t.places[i]?, p.seen ≤ seen)
    (hreads : ∀ p, t.places[i]? = some p → Reads p.given usage seen) :
    (t.storeAt i usage seen).Sound :=
  h.modify (fun _ => rfl) fun p hp => ⟨hreads p hp, hlater p hp, (h.places i p hp).2.2⟩

theorem Sound.startJob (h : t.Sound) (hs : t.step (.start j) = some t') : t'.Sound := by
  unfold Tenant.step at hs
  dsimp only at hs
  split at hs
  case h_2 => cases hs
  case h_1 job hj =>
  split_ifs at hs with hqueued
  obtain rfl := some.inj hs
  obtain ⟨-, hread, -⟩ := h.jobs j job hj
  refine h.setJob hj rfl rfl ?_ (.inl rfl) hread (by simp [CreateJob.active])
  unfold CreateJob.active
  rw [hqueued]
  rfl

theorem Sound.postJob (h : t.Sound) (hs : t.step (.post j) = some t') : t'.Sound := by
  unfold Tenant.step at hs
  dsimp only at hs
  split at hs
  case h_2 => cases hs
  case h_1 job hj =>
  split_ifs at hs with hrunning
  obtain rfl := some.inj hs
  obtain ⟨-, hread, -⟩ := h.jobs j job hj
  refine h.setJob hj rfl rfl rfl (.inr ⟨rfl, by rw [hrunning.2]; rfl⟩) hread fun hnot => ?_
  unfold CreateJob.active at hnot
  rw [hrunning.1] at hnot
  cases hnot

theorem Sound.readUsage (h : t.Sound) (hs : t.step (.readUsage j) = some t') : t'.Sound := by
  unfold Tenant.step at hs
  dsimp only at hs
  split at hs
  case h_2 => cases hs
  case h_1 job hj =>
  split at hs
  case h_2 => cases hs
  case h_1 index p hincus hp =>
  split_ifs at hs with hrunning
  obtain rfl := some.inj hs
  refine h.setJob hj rfl rfl rfl (.inl rfl) (fun u n q hu hq => ?_) (h.jobs j job hj).2.2
  rw [hp] at hq
  obtain rfl := some.inj hq
  obtain ⟨u', hu', heq⟩ := map_eq_some_iff.mp hu
  obtain ⟨rfl, rfl⟩ := Prod.mk.inj heq
  rw [← hu']
  exact h.reads_projectUsage hp

theorem Sound.storeUsage (h : t.Sound) (hok : t.recorded (.storeUsage j) = true)
    (hs : t.step (.storeUsage j) = some t') : t'.Sound := by
  unfold Tenant.step at hs
  dsimp only at hs
  simp only [recorded] at hok
  split at hs
  case h_2 => cases hs
  case h_1 job hj =>
  rw [hj] at hok
  split at hs
  case h_2 => cases hs
  case h_1 usage seen hread =>
  dsimp only at hok
  rw [hread] at hok
  have hlater : ∀ p ∈ t.places[job.place]?, p.seen ≤ seen := of_decide_eq_true hok
  split_ifs at hs with hrunning
  obtain rfl := some.inj hs
  have hstored : (t.storeAt job.place (some usage) seen).Sound :=
    h.storeAt hlater fun p hp => (h.jobs j job hj).2.1 usage seen p hread hp
  exact hstored.setJob hj rfl rfl rfl (.inl rfl) (by simp) (h.jobs j job hj).2.2

theorem Sound.finishJob {succeeds : Bool} (h : t.Sound) (hok : t.recorded (.finish j succeeds) = true)
    (hs : t.step (.finish j succeeds) = some t') : t'.Sound := by
  unfold Tenant.step at hs
  dsimp only at hs
  simp only [recorded] at hok
  split at hs
  case h_2 => cases hs
  case h_1 job hj =>
  rw [hj] at hok
  have hsettled := h.finish_of_recorded hj hok
  split at hs
  · split_ifs at hs
    obtain rfl := some.inj hs
    exact hsettled _ (.inl rfl)
  · cases hs
  · split_ifs at hs
    obtain rfl := some.inj hs
    exact hsettled _ (.inr rfl)

theorem Sound.makes (h : t.Sound) (hs : t.step (.make j) = some t') : t'.Sound := by
  unfold Tenant.step at hs
  dsimp only at hs
  split at hs
  case h_2 => cases hs
  case h_1 job hj =>
  split at hs
  case h_2 => cases hs
  case h_1 p hincus hp =>
  split_ifs at hs with hadmits
  · obtain rfl := some.inj hs
    refine h.make hj hincus hp fun hnone => ?_
    unfold Place.admits at hadmits
    rw [hnone] at hadmits
    cases hadmits
  · obtain rfl := some.inj hs
    exact h.refuse hj hincus

theorem Sound.passRead (h : t.Sound) (hs : t.step (.passRead i) = some t') : t'.Sound := by
  unfold Tenant.step at hs
  dsimp only at hs
  split at hs
  case h_2 => cases hs
  case h_1 p hp =>
  obtain rfl := some.inj hs
  refine ⟨h.places, h.jobs, fun l pass hpass => ?_, h.check, h.total⟩
  rcases getElem?_append_cases hpass with ⟨-, rfl⟩ | hpass
  · intro u n q hphase hq
    rw [hp] at hq
    obtain rfl := some.inj hq
    obtain ⟨rfl, rfl⟩ := PassPhase.read.inj hphase
    exact h.reads_projectUsage hp
  · exact h.passes l pass hpass

theorem Sound.passStore {p : ℕ} (h : t.Sound) (hok : t.recorded (.passStore p) = true)
    (hs : t.step (.passStore p) = some t') : t'.Sound := by
  unfold Tenant.step at hs
  dsimp only at hs
  simp only [recorded] at hok
  split at hs
  case h_2 => cases hs
  case h_1 i usage seen hp =>
  rw [hp] at hok
  have hlater : ∀ p ∈ t.places[i]?, p.seen ≤ seen := of_decide_eq_true hok
  obtain rfl := some.inj hs
  have hstored : (t.storeAt i usage seen).Sound :=
    h.storeAt hlater fun q hq => h.passes p _ hp usage seen q rfl hq
  exact hstored.setPass (by simp)

theorem Sound.step {a : TenantAction} (h : t.Sound) (hok : t.recorded a = true)
    (hs : t.step a = some t') : t'.Sound := by
  cases a with
  | lock place payload =>
    unfold Tenant.step at hs
    dsimp only at hs
    split at hs
    case h_2 => cases hs
    case h_1 hc =>
    split_ifs at hs with hlt
    obtain rfl := some.inj hs
    exact ⟨h.places, h.jobs, h.passes, hlt, h.total⟩
  | readUsages =>
    unfold Tenant.step at hs
    dsimp only at hs
    split at hs
    case h_2 => cases hs
    case h_1 place payload hc =>
    obtain rfl := some.inj hs
    exact h.readUsages hc
  | readPending =>
    unfold Tenant.step at hs
    dsimp only at hs
    split at hs
    case h_2 => cases hs
    case h_1 place payload usages seen hc =>
    split_ifs at hs with hexceeds
    · obtain rfl := some.inj hs
      exact ⟨h.places, h.jobs, h.passes, h.within hc hexceeds, h.total⟩
    · obtain rfl := some.inj hs
      exact ⟨h.places, h.jobs, h.passes, trivial, h.total⟩
  | enqueue =>
    unfold Tenant.step at hs
    dsimp only at hs
    split at hs
    case h_2 => cases hs
    case h_1 place payload hc =>
    obtain rfl := some.inj hs
    exact h.enqueue hc
  | abandon =>
    obtain rfl := some.inj hs
    exact ⟨h.places, h.jobs, h.passes, trivial, h.total⟩
  | start j => exact h.startJob hs
  | post j => exact h.postJob hs
  | readUsage j => exact h.readUsage hs
  | storeUsage j => exact h.storeUsage hok hs
  | finish j succeeds => exact h.finishJob hok hs
  | make j => exact h.makes hs
  | refuse j =>
    unfold Tenant.step at hs
    dsimp only at hs
    split at hs
    case h_2 => cases hs
    case h_1 job hj =>
    split_ifs at hs with hincus
    obtain rfl := some.inj hs
    exact h.refuse hj hincus
  | passRead i => exact h.passRead hs
  | passStore p => exact h.passStore hok hs
  | passSplit p =>
    unfold Tenant.step at hs
    dsimp only at hs
    split at hs
    case h_2 => cases hs
    case h_1 i hp =>
    obtain ⟨l, -, rfl⟩ := map_eq_some_iff.mp hs
    exact h.setPass (by simp)
  | passLimit p =>
    unfold Tenant.step at hs
    dsimp only at hs
    split at hs
    case h_2 => cases hs
    case h_1 i l hp =>
    obtain rfl := some.inj hs
    have hlimited : Sound { t with places := t.places.modify i fun p => { p with limits := some l } } :=
      h.modify (fun _ => rfl) fun q hq => ⟨(h.places _ q hq).1, Nat.le_refl _, (by simp)⟩
    exact hlimited.setPass (by simp)
  | passStop p =>
    unfold Tenant.step at hs
    dsimp only at hs
    split at hs
    case h_2 => cases hs
    case h_1 i phase hp =>
    obtain rfl := some.inj hs
    exact h.setPass (by simp)

/-- Nothing is under way, and each place is read as it is. -/
structure Settled (t : Tenant) : Prop where
  jobs : t.jobs = []
  passes : t.passes = []
  check : t.check = .free
  recorded : ∀ p ∈ t.places, p.seen = p.given.length ∧
    (∀ k, p.usage.elim 0 (· k) = usageOf p.given k) ∧ (p.limits = none → p.given = [])
  within : ∀ k n, quotaBytes t.quotas k = some n → t.total k ≤ n

theorem Settled.sound (h : t.Settled) : t.Sound := by
  refine ⟨fun i p hp => ?_, fun j job hj => ?_, fun p pass hp => ?_, ?_, h.within⟩
  · obtain ⟨hseen, husage, hlimits⟩ := h.recorded p (mem_of_getElem? hp)
    refine ⟨⟨Nat.le_of_eq hseen, fun k => ?_⟩, ?_, hlimits⟩
    · rw [hseen, take_length]
      exact husage k
    · rw [hseen]
      exact covered_length t.jobs i p.given
  · rw [h.jobs] at hj
    cases hj
  · rw [h.passes] at hp
    cases hp
  · rw [h.check]
    trivial

/-- What a tenant's instances are given, and what its creates ask for, is at most its quota. -/
theorem creates_within_quota {t₀ : Tenant} (h₀ : t₀.Settled)
    (h : Run Tenant.step (fun t a => t.recorded a = true) t₀ t) (k : QuotaKey) (n : ℕ)
    (hk : quotaBytes t.quotas k = some n) : t.total k ≤ n := by
  have hsound := h.invariant h₀.sound fun _ _ _ hs hok hstep => hs.step hok hstep
  exact hsound.total k n hk

end Tenant

/-! ### A quota of one instance -/

def small : CreatePayload := ⟨1, gib, gib⟩

def oneAllowed : Tenant where
  quotas k := if k = .instances then some 1 else none
  places := [⟨none, 0, [], none⟩, ⟨none, 0, [], none⟩]
  jobs := []
  passes := []
  check := .free

theorem oneAllowed_settled : oneAllowed.Settled := by
  refine ⟨rfl, rfl, rfl, fun p hp => ?_, fun k n _ => ?_⟩
  · have heq : p = ⟨none, 0, [], none⟩ := by simpa [oneAllowed] using hp
    rw [heq]
    exact ⟨rfl, fun _ => rfl, fun _ => rfl⟩
  · exact Nat.zero_le n

def bothPlaced : List TenantAction :=
  [.passRead 0, .passStore 0, .passSplit 0, .passLimit 0,
    .passRead 1, .passStore 1, .passSplit 1, .passLimit 1]

/-- The steps of a request that is let through, and of its job up to the instance. -/
def createIn (place j : ℕ) : List TenantAction :=
  [.lock place small, .readUsages, .readPending, .enqueue, .start j, .post j, .make j]

/-- A create in one placement, whose usage is recorded before it ends. -/
theorem creates_within_quota_one :
    ∃ t, Run Tenant.step (fun t a => t.recorded a = true) oneAllowed t ∧
      t.total .instances = 1 ∧ quotaBytes t.quotas .instances = some 1 ∧ t.total .instances ≤ 1 := by
  have hexec : ((Run.exec Tenant.step (fun t a => t.recorded a = true) oneAllowed
      (bothPlaced ++ createIn 0 0 ++ [.readUsage 0, .storeUsage 0, .finish 0 true])).map fun t =>
        (t.total .instances, quotaBytes t.quotas .instances)) = some (1, some 1) := by
    decide
  obtain ⟨t, ht, hshown⟩ := map_eq_some_iff.mp hexec
  obtain ⟨htotal, hquota⟩ := Prod.mk.inj hshown
  have hrun := Run.of_exec .refl ht
  exact ⟨t, hrun, htotal, hquota, Tenant.creates_within_quota oneAllowed_settled hrun _ _ hquota⟩

/-- The job cannot read its project's usage and ends without it; the next request, for the other
placement, finds neither the instance nor the job. -/
theorem unrecorded_create_exceeds :
    ¬ ∀ t₀ t : Tenant, t₀.Settled → Run Tenant.step (fun _ _ => True) t₀ t →
      ∀ k n, quotaBytes t.quotas k = some n → t.total k ≤ n := by
  intro h
  have hexec : ((Run.exec Tenant.step (fun _ _ => True) oneAllowed
      (bothPlaced ++ createIn 0 0 ++ [.finish 0 true] ++ createIn 1 1 ++ [.finish 1 true])).map fun t =>
        (t.total .instances, quotaBytes t.quotas .instances)) = some (2, some 1) := by
    decide
  obtain ⟨t, ht, hshown⟩ := map_eq_some_iff.mp hexec
  obtain ⟨htotal, hquota⟩ := Prod.mk.inj hshown
  have hle := h oneAllowed t oneAllowed_settled (Run.of_exec .refl ht) _ _ hquota
  rw [htotal] at hle
  exact absurd hle (by decide)

end IncusCloud.Tenants
