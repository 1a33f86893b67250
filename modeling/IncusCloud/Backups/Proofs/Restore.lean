import IncusCloud.Backups.Restore
import Mathlib.Data.Fintype.Basic

/-!
# A restore touches only what it made

Any number of restores and other clients, in any interleaving and with any pattern of failures. As
long as nobody creates an instance under a name that another restore is about to clean up or to
write, a restore writes and deletes only instances it made itself. Where no cleanup call fails,
nothing of its own that it staged or left half-made stays.
-/

namespace IncusCloud.Backups

open Lib Handler Option
open Mobility (Place Instance TargetRequest JobError BootState tagJob preflight)
open Restoring (orIgnore orNone)

variable {ι : Type} [DecidableEq ι] {site : RestoreSite} {jobs : ι → RestoreJob} {i : ι}
  {w w' : RestoreWorld ι} {o : RestoreOutcome} {q : Place}
variable {cluster key : String}

/-! ### What is asked of those who create instances -/

/-- What `a` creates (none: another client) is not under the staged name of another restore that
will remove what is there, does not pass for that restore's copy of the target, and is not where
another restore is about to write or delete. -/
def apart (jobs : ι → RestoreJob) (a : Option ι) (q : Place) (tag : Option String)
    (w : RestoreWorld ι) :
    Prop :=
  ∀ j, a ≠ some j →
    ((w.notes j).staging = true →
      q ≠ (jobs j).staged ∧ (q = (jobs j).target → tag ≠ some (jobs j).id)) ∧
    (w.notes j).aim ≠ some q

/-- Nothing is under the staged name of a restore that begins to stage, and nothing under its
target's name passes for its own. -/
def stagesAlone (jobs : ι → RestoreJob) (i : ι) (w : RestoreWorld ι) : Prop :=
  w.get (jobs i).staged = none ∧
    ∀ x ∈ w.get (jobs i).target, RestoreWorld.isOwn jobs i x.inst = false

def callApart (site : RestoreSite) (jobs : ι → RestoreJob) (i : ι) (c : RestoreCall)
    (w : RestoreWorld ι) : Prop :=
  match c with
  | .getStaging _ => stagesAlone jobs i w
  | .createStaging _ => stagesAlone jobs i w
  | .upload q key _ => apart jobs (some i) q ((site.content key).tag tagJob) w
  | .transfer _ q request => apart jobs (some i) q (request.config.get tagJob) w
  | _ => True

def actApart (jobs : ι → RestoreJob) (a : ClientAct) (w : RestoreWorld ι) : Prop :=
  match a with
  | .create q x => apart jobs none q (x.tag tagJob) w
  | .delete _ => True

section Decide

variable [Fintype ι]

instance (a : Option ι) (q : Place) (tag : Option String) (w : RestoreWorld ι) :
    Decidable (apart jobs a q tag w) := by
  unfold apart
  infer_instance

instance (i : ι) (w : RestoreWorld ι) : Decidable (stagesAlone jobs i w) := by
  unfold stagesAlone
  infer_instance

instance (i : ι) (c : RestoreCall) (w : RestoreWorld ι) :
    Decidable (callApart site jobs i c w) := by
  unfold callApart
  split <;> infer_instance

instance (a : ClientAct) (w : RestoreWorld ι) : Decidable (actApart jobs a w) := by
  unfold actApart
  split <;> infer_instance

end Decide

/-! ### What holds -/

/-- What a restore wrote or deleted was its own, and so is what it is about to. -/
structure RestoreInv (jobs : ι → RestoreJob) (w : RestoreWorld ι) : Prop where
  touched : ∀ t ∈ w.touched, t.maker = some t.run
  staged : ∀ j x, (w.notes j).staging = true → w.get (jobs j).staged = some x → x.maker = some j
  aim : ∀ j q x, (w.notes j).aim = some q → w.get q = some x → x.maker = some j
  target : ∀ j x, (w.notes j).staging = true → w.get (jobs j).target = some x →
    RestoreWorld.isOwn jobs j x.inst = true → x.maker = some j

/-- What a restore leaves room for: of what it made nothing is changed but that it may be deleted. -/
structure RestoreRely (i : ι) (w w' : RestoreWorld ι) : Prop where
  notes : w'.notes i = w.notes i
  own : ∀ q x, w'.get q = some x → x.maker = some i →
    ∃ y, w.get q = some y ∧ y.maker = some i ∧ y.inst.tag tagJob = x.inst.tag tagJob

def restoring (site : RestoreSite) (jobs : ι → RestoreJob) :
    Protocol ι RestoreCall (RestoreWorld ι) ClientAct where
  ok := callApart site jobs
  okOutside := actApart jobs
  inv := RestoreInv jobs
  rely := RestoreRely
  guar i w w' := ∀ j, j ≠ i → RestoreRely j w w'

/-! ### What one call does -/

omit [DecidableEq ι] in
theorem get_put (w : RestoreWorld ι) (q q' : Place) (x : Owned ι) :
    (w.put q x).get q' = if q' = q then some x else w.get q' :=
  OrdMap.get_set w.instances q x q'

omit [DecidableEq ι] in
theorem get_remove (w : RestoreWorld ι) (q q' : Place) :
    (w.remove q).get q' = if q' = q then none else w.get q' :=
  OrdMap.get_erase w.instances q q'

theorem notes_note (w : RestoreWorld ι) (i j : ι) (f : RestoreNotes → RestoreNotes) :
    (w.note i f).notes j = if j = i then f (w.notes i) else w.notes j := by
  by_cases h : j = i
  · rw [if_pos h, h]
    exact Function.update_self _ _ _
  · rw [if_neg h]
    exact Function.update_of_ne h _ _

theorem note_note (w : RestoreWorld ι) (i : ι) (f g : RestoreNotes → RestoreNotes) :
    (w.note i f).note i g = w.note i fun n => g (f n) := by
  unfold RestoreWorld.note
  dsimp only
  rw [Function.update_idem, Function.update_self]

omit [DecidableEq ι] in
theorem notes_remove (w : RestoreWorld ι) (q : Place) : (w.remove q).notes = w.notes := rfl

omit [DecidableEq ι] in
theorem notes_touch (w : RestoreWorld ι) (i : ι) (q : Place) (x : Owned ι) :
    (w.touch i q x).notes = w.notes := rfl

/-- Instances may have gone, or been written; nothing was created. -/
structure Fewer (i : ι) (w w' : RestoreWorld ι) : Prop where
  notes : ∀ j, j ≠ i → w'.notes j = w.notes j
  get : ∀ q x, w'.get q = some x →
    ∃ y, w.get q = some y ∧ y.maker = x.maker ∧ y.inst.tag tagJob = x.inst.tag tagJob
  staging : (w'.notes i).staging = true → (w.notes i).staging = true
  aim : ∀ q x, (w'.notes i).aim = some q → w.get q = some x → x.maker = some i
  touched : ∀ t ∈ w'.touched, t ∈ w.touched ∨ t.maker = some t.run

omit [DecidableEq ι] in
theorem Fewer.guar (h : Fewer i w w') : (restoring site jobs).guar i w w' := by
  intro j hj
  refine ⟨h.notes j hj, fun q x hx hmaker => ?_⟩
  obtain ⟨y, hy, hsame, htag⟩ := h.get q x hx
  exact ⟨y, hy, hsame.trans hmaker, htag⟩

theorem Fewer.inv (h : Fewer i w w') (hinv : RestoreInv jobs w) : RestoreInv jobs w' := by
  have hstaging : ∀ j, (w'.notes j).staging = true → (w.notes j).staging = true := by
    intro j hj
    by_cases hji : j = i
    · rw [hji] at hj ⊢
      exact h.staging hj
    · rw [h.notes j hji] at hj
      exact hj
  refine ⟨fun t ht => ?_, fun j x hj hx => ?_, fun j q x hj hx => ?_, fun j x hj hx hown => ?_⟩
  · exact (h.touched t ht).elim (hinv.touched t) fun hown => hown
  · obtain ⟨y, hy, hsame, -⟩ := h.get _ x hx
    exact hsame.symm.trans (hinv.staged j y (hstaging j hj) hy)
  · obtain ⟨y, hy, hsame, -⟩ := h.get q x hx
    refine hsame.symm.trans ?_
    by_cases hji : j = i
    · rw [hji] at hj ⊢
      exact h.aim q y hj hy
    · rw [h.notes j hji] at hj
      exact hinv.aim j q y hj hy
  · obtain ⟨y, hy, hsame, htag⟩ := h.get _ x hx
    refine hsame.symm.trans (hinv.target j y (hstaging j hj) hy ?_)
    unfold RestoreWorld.isOwn
    rw [htag]
    exact hown

omit [DecidableEq ι] in
theorem Fewer.refl (hinv : RestoreInv jobs w) : Fewer i w w :=
  ⟨fun _ _ => rfl, fun _ x hx => ⟨x, hx, rfl, rfl⟩, fun h => h, fun q x => hinv.aim i q x,
    fun _ ht => .inl ht⟩

theorem fewer_note {f : RestoreNotes → RestoreNotes}
    (hstaging : (f (w.notes i)).staging = true → (w.notes i).staging = true)
    (haim : ∀ q x, (f (w.notes i)).aim = some q → w.get q = some x → x.maker = some i) :
    Fewer i w (w.note i f) := by
  refine ⟨fun j hj => ?_, fun _ x hx => ⟨x, hx, rfl, rfl⟩, fun h => ?_, fun q x h => ?_, fun _ ht =>
    .inl ht⟩
  · rw [notes_note, if_neg hj]
  · rw [notes_note, if_pos rfl] at h
    exact hstaging h
  · rw [notes_note, if_pos rfl] at h
    exact haim q x h

omit [DecidableEq ι] in
theorem inv_put {a : Option ι} {x : Owned ι} (hinv : RestoreInv jobs w) (hmaker : x.maker = a)
    (hapart : apart jobs a q (x.inst.tag tagJob) w) : RestoreInv jobs (w.put q x) := by
  refine ⟨hinv.touched, fun j y hj hy => ?_, fun j q' y hj hy => ?_, fun j y hj hy hown' => ?_⟩
  · rw [get_put] at hy
    split_ifs at hy with hq
    · obtain rfl := some.inj hy
      by_contra hne
      exact ((hapart j fun heq => hne (hmaker.trans heq)).1 hj).1 hq.symm
    · exact hinv.staged j y hj hy
  · rw [get_put] at hy
    split_ifs at hy with hq
    · obtain rfl := some.inj hy
      by_contra hne
      exact (hapart j fun heq => hne (hmaker.trans heq)).2 (hq ▸ hj)
    · exact hinv.aim j q' y hj hy
  · rw [get_put] at hy
    split_ifs at hy with hq
    · obtain rfl := some.inj hy
      by_contra hne
      refine ((hapart j fun heq => hne (hmaker.trans heq)).1 hj).2 hq.symm ?_
      simpa [RestoreWorld.isOwn] using hown'
    · exact hinv.target j y hj hy hown'

omit [DecidableEq ι] in
theorem rely_put {j : ι} {x : Owned ι} (hmaker : x.maker ≠ some j) :
    RestoreRely j w (w.put q x) := by
  refine ⟨rfl, fun q' y hy hown => ?_⟩
  rw [get_put] at hy
  split_ifs at hy with hq
  · obtain rfl := some.inj hy
    exact absurd hown hmaker
  · exact ⟨y, hy, hown, rfl⟩

theorem compatible_restoring : Team.Compatible (restores site jobs) (restoring site jobs) := by
  constructor
  · exact fun i j w w' hij _ _ hguar => hguar j (Ne.symm hij)
  · intro a w w' hinv hok hw'
    replace hinv : RestoreInv jobs w := hinv
    cases a with
    | delete q =>
      obtain rfl := some.inj hw'
      have hkept : ∀ q' x, (w.remove q).get q' = some x → w.get q' = some x := by
        intro q' x hx
        rw [get_remove] at hx
        split_ifs at hx
        exact hx
      refine ⟨⟨hinv.touched, fun j x hj hx => hinv.staged j x hj (hkept _ x hx),
        fun j q' x hj hx => hinv.aim j q' x hj (hkept _ x hx),
        fun j x hj hx => hinv.target j x hj (hkept _ x hx)⟩, fun j => ⟨rfl, fun q' x hx hown => ?_⟩⟩
      exact ⟨x, hkept q' x hx, hown, rfl⟩
    | create q x =>
      replace hw' : (if w.get q = none then some (w.put q ⟨x, none⟩) else none) = some w' := hw'
      split_ifs at hw' with hfree
      obtain rfl := some.inj hw'
      exact ⟨inv_put hinv rfl hok, fun j => rely_put fun heq => (nomatch heq)⟩

/-! ### What a restore knows -/

structure Outside (i : ι) (w : RestoreWorld ι) : Prop where
  staging : (w.notes i).staging = false
  staged : (w.notes i).staged = false
  failed : (w.notes i).failed = false

def Nothing (i : ι) (w : RestoreWorld ι) : Prop := ∀ q x, w.get q = some x → x.maker ≠ some i

/-- It is in `restoreViaStaging`: what is left of what it made is the staged copy, or a copy in the
target that carries its tag. -/
structure Inside (jobs : ι → RestoreJob) (i : ι) (w : RestoreWorld ι) : Prop where
  staging : (w.notes i).staging = true
  own : ∀ q x, w.get q = some x → x.maker = some i →
    q = (jobs i).staged ∨ q = (jobs i).target ∧ RestoreWorld.isOwn jobs i x.inst = true

def Going (jobs : ι → RestoreJob) (i : ι) (w : RestoreWorld ι) : Prop :=
  Inside jobs i w ∧ (w.notes i).failed = false

/-- What was half-made is gone, unless its cleanup failed. -/
structure Undone (jobs : ι → RestoreJob) (i : ι) (w : RestoreWorld ι) : Prop where
  staging : (w.notes i).staging = true
  own : (w.notes i).spoiled = true ∨
    ∀ q x, w.get q = some x → x.maker = some i → q = (jobs i).staged

/-- Nothing that it staged is left, nor what it left half-made, unless its cleanup failed. -/
def CleanedUp (jobs : ι → RestoreJob) (i : ι) (w : RestoreWorld ι) : Prop :=
  (w.notes i).spoiled = false →
    ((w.notes i).staged = true → ∀ x, w.get (jobs i).staged = some x → x.maker ≠ some i) ∧
    ((w.notes i).failed = true → ∀ x, w.get (jobs i).target = some x → x.maker ≠ some i)

section Stable

variable (hw : RestoreRely i w w')
include hw

omit [DecidableEq ι]

theorem RestoreRely.mem {q : Place} {x : Owned ι} (hx : w'.get q = some x)
    (hown : x.maker = some i) :
    ∃ y, w.get q = some y ∧ y.maker = some i :=
  (hw.own q x hx hown).imp fun _ h => ⟨h.1, h.2.1⟩

theorem Outside.kept (h : Outside i w) : Outside i w' := by
  refine ⟨?_, ?_, ?_⟩
  · rw [hw.notes]
    exact h.staging
  · rw [hw.notes]
    exact h.staged
  · rw [hw.notes]
    exact h.failed

theorem Nothing.kept (h : Nothing i w) : Nothing i w' := by
  intro q x hx hown
  obtain ⟨y, hy, hmine⟩ := hw.mem hx hown
  exact h q y hy hmine

theorem Inside.kept (h : Inside jobs i w) : Inside jobs i w' := by
  refine ⟨?_, fun q x hx hown => ?_⟩
  · rw [hw.notes]
    exact h.staging
  · obtain ⟨y, hy, hmine, htag⟩ := hw.own q x hx hown
    refine (h.own q y hy hmine).imp_right fun htarget => ⟨htarget.1, ?_⟩
    unfold RestoreWorld.isOwn
    rw [← htag]
    exact htarget.2

theorem Going.kept (h : Going jobs i w) : Going jobs i w' := by
  refine ⟨h.1.kept hw, ?_⟩
  rw [hw.notes]
  exact h.2

theorem Undone.kept (h : Undone jobs i w) : Undone jobs i w' := by
  refine ⟨?_, ?_⟩
  · rw [hw.notes]
    exact h.staging
  · rw [hw.notes]
    refine h.own.imp_right fun hall q x hx hown => ?_
    obtain ⟨y, hy, hmine⟩ := hw.mem hx hown
    exact hall q y hy hmine

theorem CleanedUp.kept (h : CleanedUp jobs i w) : CleanedUp jobs i w' := by
  unfold CleanedUp
  rw [hw.notes]
  intro hclean
  obtain ⟨hstaged, htarget⟩ := h hclean
  refine ⟨fun hs x hx hown => ?_, fun hf x hx hown => ?_⟩
  · obtain ⟨y, hy, hmine⟩ := hw.mem hx hown
    exact hstaged hs y hy hmine
  · obtain ⟨y, hy, hmine⟩ := hw.mem hx hown
    exact htarget hf y hy hmine

end Stable

omit [DecidableEq ι] in
theorem Outside.cleanedUp (h : Outside i w) : CleanedUp jobs i w := by
  intro _
  refine ⟨fun hs => ?_, fun hf => ?_⟩
  · rw [h.staged] at hs
    cases hs
  · rw [h.failed] at hf
    cases hf

/-! ### Calls that change nothing -/

/-- Calls that change no instance, and of which nothing is noted. -/
def RestoreCall.isQuiet : RestoreCall → Bool
  | selectBackup _ | clientFor _ | progress _ | getProject _ _ | throwIfAborted | getObject _
  | targetFacts _ _ | sourceFacts _ | recordOwner _ _ | refreshInventory _ => true
  | _ => false

theorem restoreAnswer_quiet {c : RestoreCall} (hc : c.isQuiet) :
    (restoreAnswer site jobs i c w o).2 = w := by
  have hsilent {α : Type} (a : α) : (w.silent o a).2 = w := by
    unfold RestoreWorld.silent
    split_ifs <;> rfl
  cases c with
  | sourceFacts q =>
    show (w.reply o ((w.clusters.sourceFacts site.site q).map fun s => (s, w))).2 = w
    unfold RestoreWorld.reply
    cases w.clusters.sourceFacts site.site q with
    | none => rfl
    | some s =>
      dsimp only [Option.map]
      split_ifs <;> rfl
  | _ =>
    first
    | exact hsilent _
    | cases hc

section Programs

variable {J : RestoreWorld ι → Prop} {l : Unit} {job : RestoreJob}
    {parse : String → Option BootState}

theorem maintains_quiet (hJ : ∀ w w', RestoreRely i w w' → J w → J w') {c : RestoreCall}
    (hc : c.isQuiet) :
    Maintains (restores site jobs) (restoring site jobs) i J
      (Handler.call c : Restoring c.Answer) := by
  refine .call hJ fun w o r hw hinv _ hr => ?_
  obtain rfl := some.inj hr
  rw [restoreAnswer_quiet hc]
  exact ⟨hinv, (Fewer.refl hinv).guar, hw⟩

/-! ### Calls that create -/

theorem safe_upload {pool : Option String} {Q E : RestoreWorld ι → Prop}
    (hJ : ∀ w w', RestoreRely i w w' → J w → J w') (hE : ∀ w, J w → E w)
    (hmade : ∀ w, J w → E (w.put q ⟨site.content key, some i⟩))
    (hdone : ∀ w, J w → Q (if q = (jobs i).target then
      (w.put q ⟨site.content key, some i⟩).setAim i (some q)
        else w.put q ⟨site.content key, some i⟩))
    (hw : J w) :
    safe (restores site jobs) (restoring site jobs) i (fun _ _ => Q) (fun _ _ => E)
      (Restoring.upload q key pool) l w := by
  refine safe_call (c := RestoreCall.upload q key pool) hJ (fun w o r hw hinv hok hr => ?_) hw
  replace hinv : RestoreInv jobs w := hinv
  obtain rfl := some.inj hr
  have hsame : (restoring site jobs).guar i w w := (Fewer.refl hinv).guar
  show (restoring site jobs).guar i w (w.reply o _).2 ∧ Handler.Met _ _ _ (w.reply o _)
  unfold RestoreWorld.reply
  cases hget : w.get q with
  | some x => exact ⟨hsame, hinv, hE w hw⟩
  | none =>
    have hput : RestoreInv jobs (w.put q ⟨site.content key, some i⟩) := inv_put hinv rfl hok
    have hguar : (restoring site jobs).guar i w (w.put q ⟨site.content key, some i⟩) := by
      refine fun j hj => rely_put fun heq => hj ?_
      exact (some.inj heq).symm
    dsimp only
    by_cases hfails : o.fails = true
    · rw [if_pos hfails, hfails]
      simp only [Bool.true_eq_false, and_false, if_false]
      split_ifs
      · exact ⟨hguar, hput, hmade w hw⟩
      · exact ⟨hsame, hinv, hE w hw⟩
    · rw [if_neg hfails, Bool.eq_false_iff.mpr hfails]
      simp only [and_true]
      have hQ := hdone w hw
      split_ifs at hQ ⊢ with htarget
      · -- What is written next is what was just made.
        have haim : Fewer i (w.put q ⟨site.content key, some i⟩)
            ((w.put q ⟨site.content key, some i⟩).setAim i (some q)) := by
          refine fewer_note (fun h => h) fun q' x hq' hx => ?_
          rw [get_put, if_pos (some.inj hq').symm] at hx
          rw [← some.inj hx]
        refine ⟨fun j hj => ?_, haim.inv hput, hQ⟩
        obtain ⟨hnotes, hown⟩ := hguar j hj
        exact ⟨(haim.notes j hj).trans hnotes, hown⟩
      · exact ⟨hguar, hput, hQ⟩

omit [DecidableEq ι] in
theorem tag_received {request : TargetRequest} {left : Mobility.Left} {id : String}
    (htag : request.config.get tagJob = some id) :
    (⟨left.type, left.status, false, request.config ++ left.config⟩ : Instance).tag tagJob =
      some id := by
  unfold Instance.tag
  rw [OrdMap.get_append, htag]
  rfl

theorem maintains_restoreTransfer {request : TargetRequest}
    (htag : request.config.get tagJob = some (jobs i).id) :
    Maintains (restores site jobs) (restoring site jobs) i (Going jobs i)
      (Restoring.transfer (jobs i).staged (jobs i).target request) := by
  refine .call (c := RestoreCall.transfer (jobs i).staged (jobs i).target request)
    (fun _ _ hw h => h.kept hw) fun w o r hw hinv hok hr => ?_
  replace hinv : RestoreInv jobs w := hinv
  obtain rfl := some.inj hr
  have hsame : (restoring site jobs).guar i w w := (Fewer.refl hinv).guar
  -- A copy that was made, whether or not the transfer says so, carries the tag.
  have hput : RestoreInv jobs (w.receive i (jobs i).target request o.left) := by
    refine inv_put hinv rfl ?_
    show apart jobs (some i) (jobs i).target (Instance.tag _ tagJob) w
    rw [tag_received htag, ← htag]
    exact hok
  have hguar : (restoring site jobs).guar i w (w.receive i (jobs i).target request o.left) := by
    refine fun j hj => rely_put fun heq => hj ?_
    exact (some.inj heq).symm
  have hgoing : Going jobs i (w.receive i (jobs i).target request o.left) := by
    refine ⟨⟨hw.1.staging, fun q x hx hown => ?_⟩, hw.2⟩
    unfold RestoreWorld.receive at hx
    rw [get_put] at hx
    split_ifs at hx with hq
    · rw [← some.inj hx]
      refine .inr ⟨hq, ?_⟩
      unfold RestoreWorld.isOwn
      rw [tag_received htag]
      exact decide_eq_true rfl
    · exact hw.1.own q x hx hown
  show (restoring site jobs).inv (w.reply o _).2 ∧ (restoring site jobs).guar i w (w.reply o _).2 ∧
    Going jobs i (w.reply o _).2
  unfold RestoreWorld.reply
  split_ifs with hfree hfails htook
  · exact ⟨hput, hguar, hgoing⟩
  · exact ⟨hinv, hsame, hw⟩
  · exact ⟨hput, hguar, hgoing⟩
  · exact ⟨hinv, hsame, hw⟩
  · exact ⟨hinv, hsame, hw⟩
  · exact ⟨hinv, hsame, hw⟩

/-! ### Calls that write and delete -/

/-- What a `DELETE` leaves behind. -/
structure Deleted (jobs : ι → RestoreJob) (i : ι) (q : Place) (w w' : RestoreWorld ι) : Prop where
  others : ∀ j, j ≠ i → w'.notes j = w.notes j
  notes : ∃ b, (w.notes i).spoiled ≤ b ∧ (b = true ∨ w'.get q = none) ∧ w'.notes i =
    { w.notes i with
      aim := none
      staging := (w.notes i).staging && (q ≠ (jobs i).staged || (w.notes i).aim = some q)
      spoiled := b }
  get : ∀ q' x, w'.get q' = some x → w.get q' = some x
  touched : ∀ t ∈ w'.touched, t ∈ w.touched ∨ ∃ x, w.get q = some x ∧ t = ⟨i, q, x.maker⟩

theorem deleted_delete : Deleted jobs i q w (w.delete jobs i q o).2 := by
  have hremove : ∀ q' x, (w.remove q).get q' = some x → w.get q' = some x := by
    intro q' x hx
    rw [get_remove] at hx
    split_ifs at hx
    exact hx
  have hgone : (w.remove q).get q = none := by
    rw [get_remove, if_pos rfl]
  unfold RestoreWorld.delete
  cases hget : w.get q with
  | none =>
    refine ⟨fun j hj => ?_, ⟨_, le_refl _, .inr hget, ?_⟩, fun _ _ hx => hx, fun _ ht => .inl ht⟩
    · rw [notes_note, if_neg hj]
    · rw [notes_note, if_pos rfl]
  | some x =>
    have htouch : ∀ t ∈ (w.touch i q x).touched,
        t ∈ w.touched ∨ ∃ x', w.get q = some x' ∧ t = ⟨i, q, x'.maker⟩ := by
      intro t ht
      exact (List.mem_cons.mp ht).symm.imp_right fun heq => ⟨x, hget, heq⟩
    dsimp only
    split_ifs
    · refine ⟨fun j hj => ?_, ⟨true, Bool.le_true _, .inl rfl, ?_⟩, fun _ _ hx => hx, fun _ ht =>
        .inl ht⟩
      · rw [RestoreWorld.spoil, notes_note, if_neg hj, notes_note, if_neg hj]
      · rw [RestoreWorld.spoil, notes_note, if_pos rfl, notes_note, if_pos rfl]
    · refine ⟨fun j hj => ?_, ⟨true, Bool.le_true _, .inl rfl, ?_⟩, hremove, htouch⟩
      · rw [RestoreWorld.spoil, notes_note, if_neg hj, notes_touch, notes_remove, notes_note,
          if_neg hj]
      · rw [RestoreWorld.spoil, notes_note, if_pos rfl, notes_touch, notes_remove, notes_note,
          if_pos rfl]
    · refine ⟨fun j hj => ?_, ⟨true, Bool.le_true _, .inl rfl, ?_⟩, fun _ _ hx => hx, fun _ ht =>
        .inl ht⟩
      · rw [RestoreWorld.spoil, notes_note, if_neg hj, notes_note, if_neg hj]
      · rw [RestoreWorld.spoil, notes_note, if_pos rfl, notes_note, if_pos rfl]
    · refine ⟨fun j hj => ?_, ⟨_, le_refl _, .inr hgone, ?_⟩, hremove, htouch⟩
      · rw [notes_touch, notes_remove, notes_note, if_neg hj]
      · rw [notes_touch, notes_remove, notes_note, if_pos rfl]

omit [DecidableEq ι] in
theorem Deleted.fewer (h : Deleted jobs i q w w')
    (hmine : ∀ x, w.get q = some x → x.maker = some i) :
    Fewer i w w' := by
  obtain ⟨b, -, -, hnotes⟩ := h.notes
  refine ⟨h.others, fun q' x hx => ⟨x, h.get q' x hx, rfl, rfl⟩, fun hs => ?_, fun q' x haim => ?_,
    fun t ht => ?_⟩
  · rw [hnotes] at hs
    exact (Bool.and_eq_true_iff.mp hs).1
  · rw [hnotes] at haim
    cases haim
  · refine (h.touched t ht).imp_right fun ⟨x, hx, heq⟩ => ?_
    rw [heq]
    exact hmine x hx

variable {E : JobError → Unit → RestoreWorld ι → Prop}

theorem safe_delete {Q : RestoreWorld ι → Prop}
    (hJ : ∀ w w', RestoreRely i w w' → J w → J w')
    (hmine : ∀ w, J w → RestoreInv jobs w → ∀ x, w.get q = some x → x.maker = some i)
    (hdone : ∀ w w', J w → Deleted jobs i q w w' → Q w') (hw : J w) :
    safe (restores site jobs) (restoring site jobs) i (fun _ _ => Q) E
      (orIgnore (Restoring.delete q)) l w := by
  unfold orIgnore
  rw [safe_tryCatch]
  refine safe_call (c := RestoreCall.delete q) hJ (fun w o r hw hinv _ hr => ?_) hw
  replace hinv : RestoreInv jobs w := hinv
  obtain rfl := some.inj hr
  have hdeleted : Deleted jobs i q w (w.delete jobs i q o).2 := deleted_delete
  have hfewer := hdeleted.fewer (hmine w hw hinv)
  have hQ := hdone w _ hw hdeleted
  exact ⟨hfewer.guar, .of_forall (hfewer.inv hinv) (fun _ => hQ) fun _ => hQ⟩

theorem maintains_read (hq : ∀ w, J w → Outside i w) (hJ : ∀ w w', RestoreRely i w w' → J w → J w')
    (hspoil : ∀ w, J w → J (w.spoil i)) :
    Maintains (restores site jobs) (restoring site jobs) i J (Restoring.readInstance q) := by
  refine .call (c := RestoreCall.readInstance q) hJ fun w o r hw hinv _ hr => ?_
  replace hinv : RestoreInv jobs w := hinv
  obtain rfl := some.inj hr
  show (restoring site jobs).inv (w.read jobs i q o).2 ∧
    (restoring site jobs).guar i w (w.read jobs i q o).2 ∧ J (w.read jobs i q o).2
  unfold RestoreWorld.read
  rw [(hq w hw).staging]
  simp only [Bool.false_eq_true, if_false]
  split_ifs
  · have hfewer : Fewer i w (w.spoil i) := fewer_note (fun h => h) fun q' x => hinv.aim i q' x
    exact ⟨hfewer.inv hinv, hfewer.guar, hspoil w hw⟩
  · exact ⟨hinv, (Fewer.refl hinv).guar, hw⟩

/-- What it reads as its own copy of the target it is about to delete. -/
structure Aimed (jobs : ι → RestoreJob) (i : ι) (w : RestoreWorld ι) : Prop where
  inside : Inside jobs i w
  aim : (w.notes i).aim = some (jobs i).target

omit [DecidableEq ι] in
theorem Aimed.kept (hw : RestoreRely i w w') (h : Aimed jobs i w) : Aimed jobs i w' := by
  refine ⟨h.inside.kept hw, ?_⟩
  rw [hw.notes]
  exact h.aim

omit [DecidableEq ι] in
theorem Aimed.undone (h : Aimed jobs i w) (hdel : Deleted jobs i (jobs i).target w w') :
    Undone jobs i w' := by
  obtain ⟨b, -, hgone, hnotes⟩ := hdel.notes
  constructor
  · -- Under its staged name it deletes once more.
    rw [hnotes]
    simp [h.inside.staging, h.aim]
  · rw [hnotes]
    refine hgone.imp_right fun hnone q x hx hown => ?_
    refine (h.inside.own q x (hdel.get q x hx) hown).resolve_right fun ⟨hq, _⟩ => ?_
    rw [hq, hnone] at hx
    cases hx

theorem safe_readHalfMade (hw : Going jobs i w) :
    safe (restores site jobs) (restoring site jobs) i
      (fun copy _ w' =>
        if copy.any (RestoreWorld.isOwn jobs i) then Aimed jobs i w' else Undone jobs i w')
      E (orNone (Restoring.readInstance (jobs i).target)) l w := by
  unfold orNone
  rw [safe_tryCatch]
  refine safe_call (c := RestoreCall.readInstance (jobs i).target)
    (fun _ _ hw h => Going.kept hw h) (fun w o r hw hinv _ hr => ?_) hw
  replace hinv : RestoreInv jobs w := hinv
  obtain rfl := some.inj hr
  show (restoring site jobs).guar i w (w.read jobs i (jobs i).target o).2 ∧
    Handler.Met _ _ _ (w.read jobs i (jobs i).target o)
  unfold RestoreWorld.read RestoreWorld.spoil
  dsimp only
  rw [if_pos hw.1.staging]
  by_cases hfails : o.fails = true
  · rw [if_pos hfails, note_note, hfails]
    have hfewer : Fewer i w (w.note i fun n => { n with failed := true, aim := none, spoiled := true }) :=
      fewer_note (fun h => h) fun _ _ haim => (nomatch haim)
    refine ⟨hfewer.guar, hfewer.inv hinv, ?_, .inl ?_⟩
    · rw [notes_note, if_pos rfl]
      exact hw.1.staging
    · rw [notes_note, if_pos rfl]
  · rw [if_neg hfails, Bool.eq_false_iff.mpr hfails, Bool.not_false, Bool.true_and]
    have hcopy : ((w.get (jobs i).target).map (·.inst)).any (RestoreWorld.isOwn jobs i) =
        (w.get (jobs i).target).any fun x => RestoreWorld.isOwn jobs i x.inst := Option.any_map
    cases hown : (w.get (jobs i).target).any fun x => RestoreWorld.isOwn jobs i x.inst with
    | true =>
      have hfewer : Fewer i w
          (w.note i fun n => { n with failed := true, aim := some (jobs i).target }) := by
        refine fewer_note (fun h => h) fun q x haim hx => ?_
        obtain rfl := some.inj haim
        rw [hx] at hown
        exact hinv.target i x hw.1.staging hx hown
      refine ⟨hfewer.guar, hfewer.inv hinv, ?_⟩
      show if ((w.get (jobs i).target).map (·.inst)).any (RestoreWorld.isOwn jobs i) then
        Aimed jobs i _ else Undone jobs i _
      rw [if_pos (hcopy.trans hown)]
      refine ⟨⟨?_, hw.1.own⟩, ?_⟩
      · rw [notes_note, if_pos rfl]
        exact hw.1.staging
      · rw [notes_note, if_pos rfl]
        rfl
    | false =>
      have hfewer : Fewer i w (w.note i fun n => { n with failed := true, aim := none }) :=
        fewer_note (fun h => h) fun _ _ haim => (nomatch haim)
      refine ⟨hfewer.guar, hfewer.inv hinv, ?_⟩
      show if ((w.get (jobs i).target).map (·.inst)).any (RestoreWorld.isOwn jobs i) then
        Aimed jobs i _ else Undone jobs i _
      rw [hcopy, hown, if_neg Bool.false_ne_true]
      refine ⟨?_, .inr fun q x hx hmine => ?_⟩
      · rw [notes_note, if_pos rfl]
        exact hw.1.staging
      · -- A copy in the target would carry its tag.
        refine (hw.1.own q x hx hmine).resolve_right fun ⟨hq, htag⟩ => ?_
        have hget : w.get (jobs i).target = some x := hq ▸ hx
        rw [hget, any_some, htag] at hown
        cases hown

theorem safe_removeHalfMade (hw : Going jobs i w) :
    safe (restores site jobs) (restoring site jobs) i (fun _ _ => Undone jobs i) E
      (removeHalfMade (jobs i)) l w := by
  refine safe_seq (safe_readHalfMade hw) fun copy l w hread => ?_
  rw [safe_when]
  split_ifs at hread ⊢ with hown
  · exact safe_delete (fun _ _ hw h => Aimed.kept hw h)
      (fun w h hinv x hx => hinv.aim i (jobs i).target x h.aim hx)
        (fun w w' h hdel => h.undone hdel) hread
  · exact absurd hown ‹_›
  · exact absurd ‹_› hown
  · exact hread

omit [DecidableEq ι] in
theorem get_written {x y z : Owned ι} {q' : Place} (hx : w.get q = some x)
    (hz : (w.put q y).get q' = some z) (hmaker : y.maker = x.maker)
    (htag : y.inst.tag tagJob = x.inst.tag tagJob) :
    ∃ z', w.get q' = some z' ∧ z'.maker = z.maker ∧ z'.inst.tag tagJob = z.inst.tag tagJob := by
  rw [get_put] at hz
  split_ifs at hz with hq
  · rw [hq, ← some.inj hz]
    exact ⟨x, hx, hmaker.symm, htag.symm⟩
  · exact ⟨z, hz, rfl, rfl⟩

theorem safe_patchRestored {backup : String} (hw : Outside i w ∧ (w.notes i).aim = some q) :
    safe (restores site jobs) (restoring site jobs) i (fun _ _ => Outside i) (fun _ _ => Outside i)
      (Restoring.patchRestored q backup) l w := by
  have hJ : ∀ w w', RestoreRely i w w' → Outside i w ∧ (w.notes i).aim = some q →
      Outside i w' ∧ (w'.notes i).aim = some q := by
    intro w w' hw h
    refine ⟨h.1.kept hw, ?_⟩
    rw [hw.notes]
    exact h.2
  refine safe_call (c := RestoreCall.patchRestored q backup) hJ (fun w o r hw hinv _ hr => ?_) hw
  replace hinv : RestoreInv jobs w := hinv
  obtain rfl := some.inj hr
  have hcleared : (w.setAim i none).notes i = { w.notes i with aim := none } := by
    unfold RestoreWorld.setAim
    rw [notes_note, if_pos rfl]
  have houtside : Outside i (w.setAim i none) := by
    refine ⟨?_, ?_, ?_⟩
    all_goals rw [hcleared]
    · exact hw.1.staging
    · exact hw.1.staged
    · exact hw.1.failed
  have haim : Fewer i w (w.setAim i none) := fewer_note (fun h => h) fun _ _ h => (nomatch h)
  show (restoring site jobs).guar i w ((w.setAim i none).reply o _).2 ∧
    Handler.Met _ _ _ ((w.setAim i none).reply o _)
  unfold RestoreWorld.reply
  cases hget : w.get q with
  | none => exact ⟨haim.guar, haim.inv hinv, houtside⟩
  | some x =>
    have htag : ({ x.inst with config := x.inst.config.set tagRestoredFrom backup } : Instance).tag
        tagJob = x.inst.tag tagJob := by
      unfold Instance.tag
      rw [OrdMap.get_set, if_neg (by decide)]
    have hwritten : Fewer i w (((w.setAim i none).put q
        ⟨{ x.inst with config := x.inst.config.set tagRestoredFrom backup }, x.maker⟩).touch i q
          x) := by
      refine ⟨haim.notes, fun q' z hz => ?_, haim.staging, haim.aim, fun t ht => ?_⟩
      · exact get_written (w := w.setAim i none) hget hz rfl htag
      · refine (List.mem_cons.mp ht).symm.imp_right fun heq => ?_
        rw [heq]
        exact hinv.aim i q x hw.2 hget
    have houtside' : Outside i (((w.setAim i none).put q
        ⟨{ x.inst with config := x.inst.config.set tagRestoredFrom backup }, x.maker⟩).touch i q
          x) :=
      ⟨houtside.staging, houtside.staged, houtside.failed⟩
    dsimp only [Option.map]
    split_ifs
    · exact ⟨hwritten.guar, hwritten.inv hinv, houtside'⟩
    · exact ⟨haim.guar, haim.inv hinv, houtside⟩
    · exact ⟨hwritten.guar, hwritten.inv hinv, houtside'⟩

theorem maintains_start :
    Maintains (restores site jobs) (restoring site jobs) i (CleanedUp jobs i)
      (Restoring.start q) := by
  refine .call (c := RestoreCall.start q) (fun _ _ hw h => h.kept hw) fun w o r hw hinv _ hr => ?_
  replace hinv : RestoreInv jobs w := hinv
  obtain rfl := some.inj hr
  have hsame : (restoring site jobs).guar i w w := (Fewer.refl hinv).guar
  show (restoring site jobs).inv (w.reply o _).2 ∧ (restoring site jobs).guar i w (w.reply o _).2 ∧
    CleanedUp jobs i (w.reply o _).2
  unfold RestoreWorld.reply
  cases hget : w.get q with
  | none => exact ⟨hinv, hsame, hw⟩
  | some x =>
    have hmade : ∀ q' z, (w.put q ⟨x.inst.started, x.maker⟩).get q' = some z →
        ∃ z', w.get q' = some z' ∧ z'.maker = z.maker ∧ z'.inst.tag tagJob = z.inst.tag tagJob :=
      fun q' z hz => get_written hget hz rfl rfl
    have hwritten : Fewer i w (w.put q ⟨x.inst.started, x.maker⟩) :=
      ⟨fun _ _ => rfl, hmade, fun h => h, fun q' z => hinv.aim i q' z, fun _ ht => .inl ht⟩
    have hrely : RestoreRely i w (w.put q ⟨x.inst.started, x.maker⟩) := by
      refine ⟨rfl, fun q' z hz hown => ?_⟩
      obtain ⟨z', hz', hmaker, htag⟩ := hmade q' z hz
      exact ⟨z', hz', hmaker.trans hown, htag⟩
    have hclean := hw.kept hrely
    dsimp only [Option.map]
    split_ifs
    · exact ⟨hwritten.inv hinv, hwritten.guar, hclean⟩
    · exact ⟨hinv, hsame, hw⟩
    · exact ⟨hwritten.inv hinv, hwritten.guar, hclean⟩

/-! ### Into staging -/

omit [DecidableEq ι] in
theorem untouched_kept (w w' : RestoreWorld ι) (hw : RestoreRely i w w')
    (h : Outside i w ∧ Nothing i w) :
    Outside i w' ∧ Nothing i w' := ⟨h.1.kept hw, h.2.kept hw⟩

theorem enter_spec (hinv : RestoreInv jobs w) (hw : Outside i w ∧ Nothing i w)
    (hok : stagesAlone jobs i w) :
    RestoreInv jobs (w.enter i) ∧ (∀ j, j ≠ i → RestoreRely j w (w.enter i)) ∧
      Going jobs i (w.enter i) := by
  have hother : ∀ j, j ≠ i → (w.enter i).notes j = w.notes j := by
    intro j hj
    unfold RestoreWorld.enter
    rw [notes_note, if_neg hj]
  have hown : (w.enter i).notes i = { w.notes i with staging := true, staged := true } := by
    unfold RestoreWorld.enter
    rw [notes_note, if_pos rfl]
  refine ⟨⟨hinv.touched, fun j x hj hx => ?_, fun j q x hj hx => ?_, fun j x hj hx hmine => ?_⟩,
    fun j hj => ⟨hother j hj, fun q x hx hmaker => ⟨x, hx, hmaker, rfl⟩⟩,
      ⟨?_, fun q x hx hmine => ?_⟩, ?_⟩
  · by_cases hji : j = i
    · rw [hji] at hx
      exact absurd (hok.1.symm.trans hx) (by simp)
    · rw [hother j hji] at hj
      exact hinv.staged j x hj hx
  · by_cases hji : j = i
    · rw [hji, hown] at hj
      rw [hji]
      exact hinv.aim i q x hj hx
    · rw [hother j hji] at hj
      exact hinv.aim j q x hj hx
  · by_cases hji : j = i
    · rw [hji] at hx hmine
      rw [hok.2 x hx] at hmine
      cases hmine
    · rw [hother j hji] at hj
      exact hinv.target j x hj hx hmine
  · rw [hown]
  · exact absurd hmine (hw.2 q x hx)
  · rw [hown]
    exact hw.1.failed

theorem safe_getStaging (hw : Outside i w ∧ Nothing i w) :
    safe (restores site jobs) (restoring site jobs) i
      (fun there _ w' => if there then Going jobs i w' else Outside i w' ∧ Nothing i w')
      (fun _ _ => CleanedUp jobs i) (Restoring.getStaging cluster) l w := by
  refine safe_call (c := RestoreCall.getStaging cluster) untouched_kept
    (fun w o r hw hinv hok hr => ?_) hw
  replace hinv : RestoreInv jobs w := hinv
  obtain rfl := some.inj hr
  have hsame : (restoring site jobs).guar i w w := (Fewer.refl hinv).guar
  obtain ⟨hinv', hguar, hgoing⟩ := enter_spec hinv hw hok
  have hclean : CleanedUp jobs i w := hw.1.cleanedUp
  show (restoring site jobs).guar i w (if o.fails then _ else if _ then _ else _ : _ × _).2 ∧
    Handler.Met _ _ _ (if o.fails then _ else if _ then _ else _)
  split_ifs
  · exact ⟨hsame, hinv, hclean⟩
  · exact ⟨hguar, hinv', hgoing⟩
  · exact ⟨hsame, hinv, hw⟩

theorem safe_createStaging (hw : Outside i w ∧ Nothing i w) :
    safe (restores site jobs) (restoring site jobs) i (fun _ _ => Going jobs i)
      (fun _ _ => CleanedUp jobs i) (Restoring.createStaging cluster) l w := by
  refine safe_call (c := RestoreCall.createStaging cluster) untouched_kept
    (fun w o r hw hinv hok hr => ?_) hw
  replace hinv : RestoreInv jobs w := hinv
  obtain rfl := some.inj hr
  have hsame : (restoring site jobs).guar i w w := (Fewer.refl hinv).guar
  have hadded : RestoreInv jobs { w with stagingProjects := cluster :: w.stagingProjects } :=
    ⟨hinv.touched, hinv.staged, hinv.aim, hinv.target⟩
  obtain ⟨hinv', hguar, hgoing⟩ := enter_spec hadded
    ⟨⟨hw.1.staging, hw.1.staged, hw.1.failed⟩, hw.2⟩ hok
  have hclean : CleanedUp jobs i w := hw.1.cleanedUp
  show (restoring site jobs).guar i w (if o.fails then _ else _ : _ × _).2 ∧
    Handler.Met _ _ _ (if o.fails then _ else _)
  split_ifs
  · exact ⟨fun j hj => ⟨(hsame j hj).notes, (hsame j hj).own⟩, hadded, hclean⟩
  · exact ⟨hsame, hinv, hclean⟩
  · exact ⟨fun j hj => ⟨(hguar j hj).notes, (hguar j hj).own⟩, hinv', hgoing⟩

theorem safe_ensureStaging (hw : Outside i w ∧ Nothing i w) :
    safe (restores site jobs) (restoring site jobs) i (fun _ _ => Going jobs i)
      (fun _ _ => CleanedUp jobs i) (ensureStaging cluster) l w := by
  refine safe_seq (safe_getStaging hw) fun there l w hthere => ?_
  rw [safe_when]
  cases there with
  | true => exact hthere
  | false => exact safe_createStaging hthere

/-! ### The handler -/

theorem maintains_stageAndMove {target : Mobility.TargetFacts} :
    Maintains (restores site jobs) (restoring site jobs) i (Going jobs i)
      (stageAndMove parse (jobs i) key target) := by
  have hJ : ∀ w w', RestoreRely i w w' → Going jobs i w → Going jobs i w' := fun _ _ hw h =>
    h.kept hw
  have hprogress (stage : String) : Maintains (restores site jobs) (restoring site jobs) i
      (Going jobs i) (Restoring.progress stage) := maintains_quiet hJ (c := .progress stage) rfl
  have hstaged : ∀ w, Going jobs i w →
    Going jobs i (w.put (jobs i).staged ⟨site.content key, some i⟩) := by
    refine fun w h => ⟨⟨h.1.staging, fun q x hx hown => ?_⟩, h.2⟩
    rw [get_put] at hx
    split_ifs at hx with hq
    · exact .inl hq
    · exact h.1.own q x hx hown
  refine .bind (hprogress _) fun _ => .bind (fun l w hw => ?_) fun _ =>
    .bind (maintains_quiet hJ (c := .sourceFacts (jobs i).staged) rfl) fun source =>
    .bind (.when _ (.throw _)) fun _ => .bind (hprogress _) fun _ => ?_
  · refine safe_upload hJ (fun _ h => h) hstaged (fun w h => ?_) hw
    have hmade := hstaged w h
    split_ifs
    · refine ⟨⟨?_, hmade.1.own⟩, ?_⟩
      · rw [RestoreWorld.setAim, notes_note, if_pos rfl]
        exact hmade.1.staging
      · rw [RestoreWorld.setAim, notes_note, if_pos rfl]
        exact hmade.2
    · exact hmade
  · refine maintains_restoreTransfer ?_
    unfold restoreRequest
    rw [OrdMap.get_set, if_pos rfl]

theorem safe_cleanUp (hw : Going jobs i w ∨ Undone jobs i w) :
    safe (restores site jobs) (restoring site jobs) i (fun _ _ => CleanedUp jobs i) E
      (orIgnore (Restoring.delete (jobs i).staged)) l w := by
  have hstaging : ∀ w, Going jobs i w ∨ Undone jobs i w → (w.notes i).staging = true := by
    intro w h
    exact h.elim (fun h => h.1.staging) fun h => h.staging
  refine safe_delete (fun w w' hw h => h.imp (fun h => h.kept hw) fun h => h.kept hw)
    (fun w h hinv x hx => hinv.staged i x (hstaging w h) hx) (fun w w' h hdel => ?_) hw
  obtain ⟨b, hb, hgone, hnotes⟩ := hdel.notes
  unfold CleanedUp
  rw [hnotes]
  intro hclean
  replace hclean : b = false := hclean
  have hnone : w'.get (jobs i).staged = none := hgone.resolve_left (by simp [hclean])
  refine ⟨fun _ x hx => ?_, fun hfailed x hx hown => ?_⟩
  · exact absurd (hnone.symm.trans hx) (by simp)
  · -- What was half-made is gone by now.
    cases h with
    | inl h => exact absurd (h.2.symm.trans hfailed) (by simp)
    | inr h =>
      have hall := h.own.resolve_left fun hspoiled => by
        rw [hspoiled, hclean] at hb
        exact absurd hb (by decide)
      have hq := hall _ x (hdel.get _ x hx) hown
      rw [hq, hnone] at hx
      cases hx

theorem safe_restoreViaStaging (hw : Outside i w ∧ Nothing i w) :
    safe (restores site jobs) (restoring site jobs) i (fun _ _ => CleanedUp jobs i)
      (fun _ _ => CleanedUp jobs i) (restoreViaStaging parse (jobs i) key) l w := by
  unfold restoreViaStaging
  rw [safe_bind]
  have hfacts : Maintains (restores site jobs) (restoring site jobs) i
      (fun w => Outside i w ∧ Nothing i w)
      (Restoring.targetFacts (jobs i).payload.targetClusterId (jobs i).payload.targetProject) :=
    maintains_quiet untouched_kept (c := .targetFacts _ _) rfl
  refine hfacts.safe hw (fun target l w hw => ?_) fun _ _ w h => h.1.cleanedUp
  refine safe_seq (safe_ensureStaging hw) fun _ l w hgoing => ?_
  rw [safe_andFinally, safe_tryCatch]
  refine maintains_stageAndMove.safe hgoing (fun _ l w h => safe_cleanUp (.inl h)) fun e l w h => ?_
  refine safe_seq (safe_removeHalfMade h) fun _ l w hundone => ?_
  exact safe_cleanUp (.inr hundone)

theorem safe_restoreDirectly (hw : Outside i w ∧ Nothing i w) :
    safe (restores site jobs) (restoring site jobs) i (fun _ _ => CleanedUp jobs i)
      (fun _ _ => CleanedUp jobs i) (restoreDirectly (jobs i) key) l w := by
  unfold restoreDirectly
  rw [safe_bind]
  have hprogress : Maintains (restores site jobs) (restoring site jobs) i
      (fun w => Outside i w ∧ Nothing i w) (Restoring.progress "restoring") :=
    maintains_quiet untouched_kept (c := .progress "restoring") rfl
  refine hprogress.safe hw (fun _ l w hw => ?_) fun _ _ w h => h.1.cleanedUp
  rw [safe_bind]
  have hput : ∀ w, Outside i w ∧ Nothing i w →
      Outside i (w.put (jobs i).target ⟨site.content key, some i⟩) :=
    fun w h => ⟨h.1.staging, h.1.staged, h.1.failed⟩
  refine safe_mono (fun _ l w h => ?_) (fun _ _ _ h => h)
    (safe_upload (Q := fun w => Outside i w ∧ (w.notes i).aim = some (jobs i).target) untouched_kept
      (fun w h => h.1.cleanedUp) (fun w h => (hput w h).cleanedUp) (fun w h => ?_) hw)
  · exact safe_mono (fun _ _ _ h => h.cleanedUp) (fun _ _ _ h => h.cleanedUp) (safe_patchRestored h)
  · rw [if_pos rfl]
    unfold RestoreWorld.setAim
    have hout := hput w h
    refine ⟨⟨?_, ?_, ?_⟩, ?_⟩
    all_goals rw [notes_note, if_pos rfl]
    · exact hout.staging
    · exact hout.staged
    · exact hout.failed

theorem safe_checkRestore (hw : Outside i w ∧ Nothing i w) :
    safe (restores site jobs) (restoring site jobs) i (fun _ _ w => Outside i w ∧ Nothing i w)
      (fun _ _ => CleanedUp jobs i) (checkRestore (jobs i)) l w := by
  have hquiet {c : RestoreCall} (hc : c.isQuiet) : Maintains (restores site jobs)
      (restoring site jobs) i (fun w => Outside i w ∧ Nothing i w)
      (Handler.call c : Restoring c.Answer) := maintains_quiet untouched_kept hc
  have hspoil : ∀ w, Outside i w ∧ Nothing i w → Outside i (w.spoil i) ∧ Nothing i (w.spoil i) := by
    refine fun w h => ⟨⟨?_, ?_, ?_⟩, h.2⟩
    all_goals rw [RestoreWorld.spoil, notes_note, if_pos rfl]
    · exact h.1.staging
    · exact h.1.staged
    · exact h.1.failed
  have hcheck : Maintains (restores site jobs) (restoring site jobs) i
      (fun w => Outside i w ∧ Nothing i w) (checkRestore (jobs i)) := by
    refine .bind (hquiet (c := .selectBackup _) rfl) fun row => ?_
    cases row with
    | none => exact .throw _
    | some row =>
      refine .bind (.when _ (.throw _)) fun _ => .bind (hquiet (c := .clientFor _) rfl) fun _ =>
        .bind (hquiet (c := .progress _) rfl) fun _ =>
          .bind (hquiet (c := .getProject _ _) rfl) fun config => ?_
      cases config with
      | none => exact .throw _
      | some config =>
        exact .bind (maintains_read (fun _ h => h.1) untouched_kept hspoil) fun there =>
          .bind (.when _ (.throw _)) fun _ => .bind (hquiet (c := .throwIfAborted) rfl) fun _ =>
          .bind (hquiet (c := .getObject _) rfl) fun found => .bind (.when _ (.throw _)) fun _ =>
            .pure _
  exact hcheck.safe hw (fun _ _ _ h => h) fun _ _ _ h => h.1.cleanedUp

theorem safe_restore {config : Mobility.Config} (hw : Outside i w ∧ Nothing i w) :
    safe (restores site jobs) (restoring site jobs) i (fun _ _ => CleanedUp jobs i)
      (fun _ _ => CleanedUp jobs i) (restore parse (jobs i) key config) l w := by
  have hquiet {c : RestoreCall} (hc : c.isQuiet) : Maintains (restores site jobs)
      (restoring site jobs) i (CleanedUp jobs i) (Handler.call c : Restoring c.Answer) :=
    maintains_quiet (fun _ _ hw h => h.kept hw) hc
  have hrest : Maintains (restores site jobs) (restoring site jobs) i (CleanedUp jobs i)
      (do
        (jobs i).actor.elim (pure ()) (Restoring.recordOwner (jobs i).target)
        Handler.when (jobs i).payload.start (startRestored (jobs i))) := by
    refine .bind ?_ fun _ =>
      .when _ (.bind (hquiet (c := .progress "starting") rfl) fun _ => maintains_start)
    cases (jobs i).actor with
    | none => exact .pure ()
    | some subject => exact hquiet (c := .recordOwner (jobs i).target subject) rfl
  unfold restore
  split_ifs
  · rw [safe_bind]
    exact safe_mono (fun _ l w h => hrest l w h) (fun _ _ _ h => h) (safe_restoreDirectly hw)
  · rw [safe_bind]
    exact safe_mono (fun _ l w h => hrest l w h) (fun _ _ _ h => h) (safe_restoreViaStaging hw)

theorem safe_restoreHandler (hw : Outside i w ∧ Nothing i w) :
    safe (restores site jobs) (restoring site jobs) i (fun _ _ => CleanedUp jobs i)
      (fun _ _ => CleanedUp jobs i) (restoreHandler parse (jobs i)) l w := by
  have hrefresh : Maintains (restores site jobs) (restoring site jobs) i (CleanedUp jobs i)
      (Restoring.refreshInventory [(jobs i).payload.targetClusterId]) :=
    maintains_quiet (fun _ _ hw h => h.kept hw) (c := .refreshInventory _) rfl
  refine safe_seq (safe_checkRestore hw) fun (row, config) l w hw => ?_
  rw [safe_bind, safe_andFinally]
  refine safe_mono (fun _ l w h => ?_) (fun _ l w h => ?_) (safe_restore hw)
  · exact hrefresh l w h
  · exact hrefresh l w h

end Programs

theorem sound_allRestores {parse : String → Option BootState} :
    Team.Sound (restores site jobs) (restoring site jobs) (fun i _ => CleanedUp jobs i)
      (allRestores parse jobs) := by
  refine ⟨⟨fun _ ht => (nomatch ht), fun _ _ h => (nomatch h), fun _ _ _ h => (nomatch h),
    fun _ _ h => (nomatch h)⟩, fun i => ?_⟩
  have hstart : safe (restores site jobs) (restoring site jobs) i (fun _ _ => CleanedUp jobs i)
      (fun _ _ => CleanedUp jobs i) (restoreHandler parse (jobs i)) ()
        (allRestores parse jobs).world :=
    safe_restoreHandler ⟨⟨rfl, rfl, rfl⟩, fun _ _ hx => (nomatch hx)⟩
  refine Prog.safe_mono ?_ hstart
  rintro ⟨r, l⟩ w hr
  cases r with
  | ok _ => exact hr
  | error _ => exact hr

/-- Whatever the restores and other clients do, and whatever fails: a restore writes and deletes
only what it made, and where no cleanup call of its own fails it leaves no staged copy, and no copy
in the target if `restoreViaStaging` failed. -/
theorem restores_touch_their_own {parse : String → Option BootState}
    {s : Procs ι RestoreCall RestoreCall.Answer JobError (RestoreWorld ι)
      (Except JobError RestorePayload × Unit)}
    (hs : Run (restores site jobs).step (okStep (callApart site jobs) (actApart jobs))
      (allRestores parse jobs) s) :
    (∀ t ∈ s.world.touched, t.maker = some t.run) ∧
      ∀ i, (s.progs i).returned.isSome → (s.world.notes i).spoiled = false →
        ((s.world.notes i).staged = true →
          ∀ x, s.world.get (jobs i).staged = some x → x.maker ≠ some i) ∧
        ((s.world.notes i).failed = true →
          ∀ x, s.world.get (jobs i).target = some x → x.maker ≠ some i) := by
  have hsound : Team.Sound (restores site jobs) (restoring site jobs)
    (fun i _ => CleanedUp jobs i) s :=
    Team.run_safe (P := restoring site jobs)
      compatible_restoring (fun _ _ _ _ hw h => CleanedUp.kept hw h)
      sound_allRestores hs
  have hinv : RestoreInv jobs s.world := hsound.inv
  refine ⟨hinv.touched, fun i hover => ?_⟩
  obtain ⟨b, hb⟩ := isSome_iff_exists.mp hover
  exact (hsound.safe i).returned hb

/-! ### Two restores of one backup -/

def oneCluster : RestoreSite where
  site :=
    { details := fun _ => ⟨"x86_64", none, [], [], [], 0⟩, server := fun _ =>
      ⟨["x86_64"], ["default"], []⟩
      project := fun _ _ => some ⟨[], [], [], false⟩, lease := fun _ => none }
  content _ := ⟨.container, .stopped, false, []⟩

/-- The second's id is told from the first's by its ninth character. -/
def sameStart (second : Bool) : RestoreJob :=
  if second then ⟨"7b1e52c4-6a0d", none, ⟨"nightly", "lab", "acme", "web-2", none, false⟩⟩
  else ⟨"7b1e52c4-11f3", none, ⟨"nightly", "lab", "acme", "web-1", none, false⟩⟩

def restricted : RestoreOutcome := { projectConfig := some [("restricted", "true")] }

/-- The second's id begins otherwise. -/
def ownStarts (second : Bool) : RestoreJob :=
  if second then { sameStart true with id := "52d98f03-6a0d" } else sameStart false

/-- Two restores, call by call, each to its end. -/
theorem staged_copies_are_removed :
    ∃ s, Run (restores oneCluster ownStarts).step (okStep (callApart oneCluster ownStarts)
      (actApart ownStarts)) (allRestores (fun _ => none) ownStarts) s ∧
      (∀ i, (s.progs i).returned.isSome ∧ (s.world.notes i).spoiled = false ∧
        (s.world.notes i).staged = true ∧ (s.world.get (ownStarts i).target).isSome) ∧
      (∀ t ∈ s.world.touched, t.maker = some t.run) ∧
      ∀ i, ∀ x, s.world.get (ownStarts i).staged = some x → x.maker ≠ some i := by
  have hrun : ∃ s, Run (restores oneCluster ownStarts).step
        (okStep (callApart oneCluster ownStarts) (actApart ownStarts))
        (allRestores (fun _ => none) ownStarts) s ∧
      ∀ i, (s.progs i).returned.isSome ∧ (s.world.notes i).spoiled = false ∧
        (s.world.notes i).staged = true ∧ (s.world.get (ownStarts i).target).isSome := by
    apply Run.exists_of_exec
      (List.replicate 17 [.call false restricted, .call true restricted]).flatten
    decide
  obtain ⟨s, hs, hend⟩ := hrun
  obtain ⟨htouched, hclean⟩ := restores_touch_their_own hs
  exact ⟨s, hs, hend, htouched, fun i => (hclean i (hend i).1 (hend i).2.1).1 (hend i).2.2.1⟩
/-- The second's import is refused, since the first's staged copy has the name; it deletes that
copy. -/
theorem staged_copy_of_another_is_deleted :
    (sameStart false).id ≠ (sameStart true).id ∧
    ∃ s, Run (restores oneCluster sameStart).step (okStep (fun _ _ _ => True) fun _ _ => True)
        (allRestores (fun _ => none) sameStart) s ∧
      ¬ ∀ t ∈ s.world.touched, t.maker = some t.run := by
  refine ⟨by decide, ?_⟩
  apply Run.exists_of_exec
    (List.replicate 12 (.call false restricted) ++ List.replicate 13 (.call true restricted))
  decide

end IncusCloud.Backups
