import IncusCloud.Fleet.Lifecycle
import IncusCloud.Lib.Grouping

/-!
# The best-sourced owner wins

Jobs, events and the backfill record an instance's owner in any order and number. What is recorded
in the end is `decisive`: the last of the calls of the highest-ranked source, and of the backfill's
alone the first; so only the order of the calls of one source matters.
-/

namespace IncusCloud.Fleet

open Lib

structure OwnerCall where
  subject : Bool × Uuid
  source : OwnerSource

def OwnerCall.owner (c : OwnerCall) : Owner := ⟨some c.subject, c.source⟩

def OwnerCall.rank (c : OwnerCall) : ℕ := sourceRank c.source

def recordOwners (t : InstanceKey → Option Owner) (k : InstanceKey) (calls : List OwnerCall) :
    InstanceKey → Option Owner :=
  calls.foldl (fun t c => recordOwner t k c.subject c.source) t

def decisive (calls : List OwnerCall) : Option OwnerCall :=
  if ∀ c ∈ calls, c.source = .backfill then calls.head? else lastHighest OwnerCall.rank calls

variable {t : InstanceKey → Option Owner} {k : InstanceKey} {calls calls' : List OwnerCall}

theorem sourceRank_eq_zero {s : OwnerSource} : sourceRank s = 0 ↔ s = .backfill := by
  cases s <;> simp [sourceRank]

theorem source_eq_of_rank {s s' : OwnerSource} (h : sourceRank s = sourceRank s') : s = s' := by
  cases s <;> cases s' <;> simp [sourceRank] at h ⊢

theorem recordOwner_none (h : t k = none) (c : OwnerCall) : recordOwner t k c.subject c.source k =
    some c.owner := by
  simp [recordOwner, h, OwnerCall.owner]

theorem recordOwner_some {d : OwnerCall} (h : t k = some d.owner) (c : OwnerCall) :
    recordOwner t k c.subject c.source k =
      if c.source ≠ .backfill ∧ d.rank ≤ c.rank then some c.owner else some d.owner := by
  unfold recordOwner
  rw [h]
  show (if c.source ≠ .backfill ∧ d.rank ≤ c.rank then Function.update t k (some c.owner) else t) k = _
  split_ifs
  · exact Function.update_self k _ t
  · exact h

theorem decisive_concat (calls : List OwnerCall) (c : OwnerCall) :
    decisive (calls ++ [c]) =
      match decisive calls with
      | none => some c
      | some d => if c.source ≠ .backfill ∧ d.rank ≤ c.rank then some c else some d := by
  by_cases hnil : calls = []
  · subst hnil
    simp [decisive, lastHighest]
  by_cases hall : ∀ d ∈ calls, d.source = .backfill
  · -- So far only the backfill has called: the first call stands until another source's comes.
    obtain ⟨d, rest, rfl⟩ := List.exists_cons_of_ne_nil hnil
    have hd : d.rank = 0 := sourceRank_eq_zero.mpr (hall d List.mem_cons_self)
    have hdecisive : decisive (d :: rest) = some d := if_pos hall
    rw [hdecisive]
    by_cases hc : c.source = .backfill
    · have hall' : ∀ x ∈ d :: rest ++ [c], x.source = .backfill := by
        intro x hx
        rcases List.mem_append.mp hx with hx | hx
        · exact hall x hx
        · rw [List.mem_singleton.mp hx, hc]
      simp only [hc, ne_eq, not_true_eq_false, false_and, if_false]
      exact if_pos hall'
    · have hnot : ¬ ∀ x ∈ d :: rest ++ [c], x.source = .backfill := fun h => hc (h c (by simp))
      have hlow : ∀ x ∈ d :: rest, x.rank ≤ c.rank := by
        intro x hx
        have hx0 : x.rank = 0 := sourceRank_eq_zero.mpr (hall x hx)
        omega
      have hle : d.rank ≤ c.rank := by omega
      simp only [ne_eq, hc, not_false_eq_true, hle, and_self, if_true]
      unfold decisive
      rw [if_neg hnot, lastHighest_concat, if_pos hlow]
  · -- Another source has called: the last call of the best one stands until one as good comes.
    have hnot : ¬ ∀ x ∈ calls ++ [c], x.source = .backfill := fun h => hall fun x hx =>
      h x (List.mem_append_left _ hx)
    obtain ⟨d, hd⟩ := @lastHighest_isSome _ _ _ OwnerCall.rank _ hnil
    obtain ⟨hmem, hmax⟩ := lastHighest_spec hd
    have hdecisive : decisive calls = some d := (if_neg hall).trans hd
    have hiff : (∀ b ∈ calls, b.rank ≤ c.rank) ↔ c.source ≠ .backfill ∧ d.rank ≤ c.rank := by
      constructor
      · intro h
        refine ⟨fun hc => hall fun x hx => ?_, h d hmem⟩
        have hx := h x hx
        have hc0 : c.rank = 0 := sourceRank_eq_zero.mpr hc
        exact sourceRank_eq_zero.mp (show x.rank = 0 by omega)
      · rintro ⟨-, hdc⟩ b hb
        exact le_trans (hmax b hb) hdc
    rw [hdecisive]
    unfold decisive
    rw [if_neg hnot, lastHighest_concat, hd]
    simp only [hiff]

theorem recordOwners_concat (t : InstanceKey → Option Owner) (k : InstanceKey)
    (calls : List OwnerCall) (c : OwnerCall) :
    recordOwners t k (calls ++ [c]) = recordOwner (recordOwners t k calls) k c.subject c.source := by
  simp [recordOwners]

theorem recordOwners_eq (hnew : t k = none) (calls : List OwnerCall) :
    recordOwners t k calls k = (decisive calls).map OwnerCall.owner := by
  induction calls using List.reverseRecOn with
  | nil => exact hnew
  | append_singleton calls c ih =>
    rw [recordOwners_concat, decisive_concat]
    cases hd : decisive calls with
    | none =>
      rw [hd] at ih
      exact recordOwner_none ih c
    | some d =>
      rw [hd] at ih
      rw [recordOwner_some ih c, apply_ite (Option.map OwnerCall.owner)]
      rfl

theorem decisive_congr
    (h : ∀ source, (calls.filter fun c => c.source = source) = calls'.filter fun c => c.source = source) :
    decisive calls = decisive calls' := by
  have hmem : ∀ c, c ∈ calls ↔ c ∈ calls' := by
    intro c
    have hc : c ∈ (calls.filter fun x => x.source = c.source) ↔ c ∈ calls'.filter fun x =>
      x.source = c.source := by
      rw [h]
    simpa using hc
  have hrank : ∀ r, (calls.filter fun c => c.rank = r) = calls'.filter fun c => c.rank = r := by
    intro r
    by_cases hr : ∃ source, sourceRank source = r
    · obtain ⟨source, rfl⟩ := hr
      have hpick : ∀ c : OwnerCall, decide (c.rank = sourceRank source) = decide (c.source = source) := by
        intro c
        rw [decide_eq_decide]
        exact ⟨source_eq_of_rank, congrArg sourceRank⟩
      simp only [hpick, h]
    · have hnone : ∀ c : OwnerCall, decide (c.rank = r) = false :=
        fun c => decide_eq_false fun hc => hr ⟨c.source, hc⟩
      simp [hnone]
  unfold decisive
  simp only [hmem]
  split_ifs with hall
  · -- All are the backfill's: the two lists are the same.
    have hself : ∀ l : List OwnerCall, (∀ c ∈ l, c.source = .backfill) →
      (l.filter fun c => c.source = .backfill) = l :=
      fun l hl => List.filter_eq_self.mpr fun c hc => decide_eq_true (hl c hc)
    rw [← hself calls fun c hc => hall c ((hmem c).mp hc), ← hself calls' hall, h]
  · exact lastHighest_congr hrank

/-- Whatever the order of the calls for an instance that has no row, the owner recorded is the one
of the last call of the highest-ranked source, or of the first call where all are the backfill's;
and calls of different sources may be permuted. -/
theorem best_sourced_owner_wins (hnew : t k = none) (calls : List OwnerCall) :
    recordOwners t k calls k = (decisive calls).map OwnerCall.owner ∧
      ∀ calls' : List OwnerCall,
        (∀ source, (calls'.filter fun c => c.source = source) = calls.filter fun c => c.source = source) →
          recordOwners t k calls' k = recordOwners t k calls k := by
  refine ⟨recordOwners_eq hnew calls, fun calls' h => ?_⟩
  rw [recordOwners_eq hnew, recordOwners_eq hnew, decisive_congr h]

/-- A backfill, two events and two jobs, in no order: the second job's owner is recorded. -/
theorem best_sourced_owner_wins_secondJob :
    recordOwners (fun _ => none) ⟨⟨"a", by decide⟩, ⟨"web", by decide⟩⟩
        [⟨(false, userU), .event⟩, ⟨(false, userU), .incuscloud⟩, ⟨(false, userU), .backfill⟩,
          ⟨(true, userU), .incuscloud⟩, ⟨(false, userU), .event⟩] ⟨⟨"a", by decide⟩, ⟨"web", by decide⟩⟩ =
      some ⟨some (true, userU), .incuscloud⟩ :=
  (best_sourced_owner_wins (t := fun _ => none) rfl _).1

end IncusCloud.Fleet
