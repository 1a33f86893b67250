import Mathlib.Data.List.Permutation
import IncusCloud.Leases.Leases

/-!
# Lease changes one at a time

The number of extensions guards an extension's update against other extensions: it rises by one with
each of them and stays within the policy whatever else happens. It says nothing of the end, which
`setLease` changes alone; `lease_changes_serialisable` holds along the runs in which no end was
changed under an extension.
-/

namespace IncusCloud.Leases

open Lib Acl Fleet List Option

variable {policy : LeasePolicy} {read : LeaseRead}

/-- How often the lease was extended; a lease that is not there has not been. -/
def extensionsOf (row : Option InstanceLease) : ℕ := row.elim 0 (·.extensions)

/-- The end an extension read is the row's, or counts for as little: both lie in the past. -/
def EndAsRead (read : LeaseRead) (now : Int) (row : InstanceLease) : Prop :=
  ∃ expiresAt, row.expiresAt = some expiresAt ∧
    (expiresAt = read.expiresAt ∨ expiresAt ≤ now ∧ read.expiresAt ≤ now)

instance (read : LeaseRead) (now : Int) (row : InstanceLease) : Decidable (EndAsRead read now row) :=
  inferInstanceAs (Decidable (∃ _, _ ∧ _))

def EndKept (s : LeaseCalls) : LeaseStep → Prop
  | .update i now => ∀ read ∈ s.reads[i]?, ∀ row ∈ s.row,
      row.extensions = read.extensions → EndAsRead read now row
  | _ => True

instance (s : LeaseCalls) : ∀ a : LeaseStep, Decidable (EndKept s a)
  | .update i now => inferInstanceAs (Decidable (∀ read ∈ s.reads[i]?, ∀ row ∈ s.row,
      row.extensions = read.extensions → EndAsRead read now row))
  | .leaseOf | .setLease _ _ => inferInstanceAs (Decidable True)

/-! ### The two statements of an extension -/

variable {row : Option InstanceLease}

theorem readLease_spec
    (h : readLease policy row = .ok read) :
    ∃ lease, row = some lease ∧ lease.expiresAt = some read.expiresAt ∧
      lease.extensions = read.extensions ∧ read.extensions < policy.maxExtensions := by
  unfold readLease at h
  split at h
  · cases h
  · rename_i lease
    split at h
    · cases h
    · rename_i expiresAt hexpires
      split_ifs at h with hmax
      obtain rfl := Except.ok.inj h
      exact ⟨lease, rfl, hexpires, rfl, Nat.lt_of_not_le hmax⟩

theorem readLease_eq {lease : InstanceLease} {expiresAt : Int}
    (hend : lease.expiresAt = some expiresAt) (hmax : lease.extensions < policy.maxExtensions) :
    readLease policy (some lease) = .ok ⟨lease.extensions, expiresAt⟩ := by
  unfold readLease
  simp only [hend]
  rw [if_neg (Nat.not_le_of_lt hmax)]

theorem updateLease_spec {now : Int} {new : InstanceLease} (h : updateLease policy read now row = .ok new) :
    ∃ lease, row = some lease ∧ lease.extensions = read.extensions ∧
      new = extended policy read now lease := by
  unfold updateLease at h
  split at h
  · rename_i lease
    split_ifs at h with hext
    exact ⟨lease, rfl, hext, (Except.ok.inj h).symm⟩
  · cases h

theorem extendLease_iff {now : Int} {lease : InstanceLease}
    (hext : lease.extensions = read.extensions) (hmax : read.extensions < policy.maxExtensions) :
    extendLease policy now (some lease) = .ok (extended policy read now lease) ↔
      EndAsRead read now lease := by
  constructor
  · intro h
    obtain ⟨r, hr, hup⟩ := bind_eq_ok.mp h
    obtain ⟨l, hl, hend, -, -⟩ := readLease_spec hr
    obtain rfl := some.inj hl
    obtain ⟨l, hl, -, hnew⟩ := updateLease_spec hup
    obtain rfl := some.inj hl
    -- The whole call extends from the row's own end, the update from the one that was read.
    have hends := some.inj (congrArg InstanceLease.expiresAt hnew)
    exact ⟨r.expiresAt, hend, by omega⟩
  · rintro ⟨expiresAt, hend, hread⟩
    have hmaxes : max now expiresAt = max now read.expiresAt := by omega
    have hr := readLease_eq hend (hext ▸ hmax)
    refine bind_eq_ok.mpr ⟨_, hr, ?_⟩
    unfold updateLease extended
    simp only [hmaxes, hext, if_true]

theorem extensionsOf_setLease (tenantId : Uuid) (expiresAt : Option Int) (row : Option InstanceLease) :
    extensionsOf (some (setLease tenantId expiresAt row)) = extensionsOf row := by
  cases row with
  | none => rfl
  | some row => rfl

/-! ### One step -/

namespace LeaseCalls

variable {s t : LeaseCalls}

theorem step_cases {a : LeaseStep}
    (h : s.step policy a = some t) :
    (∃ read, readLease policy s.row = .ok read ∧ t = { s with reads := s.reads ++ [read] }) ∨
    (∃ i now read row, a = .update i now ∧ s.reads[i]? = some read ∧ s.row = some row ∧
      row.extensions = read.extensions ∧
      t = ⟨some (extended policy read now row), s.reads.eraseIdx i, s.done ++ [.extend now]⟩) ∨
    (∃ tenantId expiresAt, t = { s with
      row := some (Leases.setLease tenantId expiresAt s.row)
      done := s.done ++ [.set tenantId expiresAt] }) ∨
    (∃ i, t = { s with reads := s.reads.eraseIdx i }) ∨ t = s := by
  cases a with
  | leaseOf =>
    unfold step at h
    dsimp only at h
    split at h
    · rename_i read hread
      exact .inl ⟨read, hread, (some.inj h).symm⟩
    · exact .inr (.inr (.inr (.inr (some.inj h).symm)))
  | update i now =>
    unfold step at h
    dsimp only at h
    split at h
    · cases h
    · rename_i read hread
      split at h
      · rename_i new hnew
        obtain ⟨row, hrow, hext, rfl⟩ := updateLease_spec hnew
        exact .inr (.inl ⟨i, now, read, row, rfl, hread, hrow, hext, (some.inj h).symm⟩)
      · exact .inr (.inr (.inr (.inl ⟨i, (some.inj h).symm⟩)))
  | setLease tenantId expiresAt =>
    exact .inr (.inr (.inl ⟨tenantId, expiresAt, (some.inj h).symm⟩))

/-- What holds of the number of extensions, started with `n` of them. -/
structure Counted (policy : LeasePolicy) (n : ℕ) (s : LeaseCalls) : Prop where
  /-- It has risen by the number of extensions that succeeded. -/
  count : extensionsOf s.row = n + s.done.countP LeaseChange.isExtend
  within : s.done.any LeaseChange.isExtend → extensionsOf s.row ≤ policy.maxExtensions
  left : ∀ read ∈ s.reads, read.extensions < policy.maxExtensions

theorem Counted.step {n : ℕ} {a : LeaseStep}
    (h : s.Counted policy n) (hs : s.step policy a = some t) : t.Counted policy n := by
  obtain ⟨read, hread, rfl⟩ | ⟨i, now, read, row, -, hread, hrow, hext, rfl⟩ |
    ⟨tenantId, expiresAt, rfl⟩ | ⟨i, rfl⟩ | rfl := step_cases hs
  · refine ⟨h.count, h.within, ?_⟩
    intro r hr
    rcases mem_append.mp hr with hr | hr
    · exact h.left r hr
    · obtain rfl := mem_singleton.mp hr
      obtain ⟨_, -, -, -, hmax⟩ := readLease_spec hread
      exact hmax
  · -- The update found the number it read, so it writes one more.
    have hmax := h.left read (mem_of_getElem? hread)
    have hcount : row.extensions = n + s.done.countP LeaseChange.isExtend := by
      have hc := h.count
      rw [hrow] at hc
      exact hc
    refine ⟨?_, ?_, ?_⟩
    · show read.extensions + 1 = _
      rw [countP_append, ← hext, hcount]
      rfl
    · intro _
      exact hmax
    · exact fun r hr => h.left r (mem_of_mem_eraseIdx hr)
  · refine ⟨?_, ?_, h.left⟩
    · show extensionsOf (some _) = _
      rw [extensionsOf_setLease, countP_append, h.count]
      rfl
    · intro hany
      show extensionsOf (some _) ≤ _
      rw [extensionsOf_setLease]
      apply h.within
      rw [any_append] at hany
      simpa [LeaseChange.isExtend] using hany
  · exact ⟨h.count, h.within, fun r hr => h.left r (mem_of_mem_eraseIdx hr)⟩
  · exact h

def Serialisable (policy : LeasePolicy) (row : Option InstanceLease) (s : LeaseCalls) : Prop :=
  ∃ order : List LeaseChange, order.Perm s.done ∧ serial policy row order = .ok s.row

theorem serial_concat {row row' : Option InstanceLease}
    {changes : List LeaseChange} {change : LeaseChange} {new : InstanceLease}
    (h : serial policy row changes = .ok row') (hcall : change.call policy row' = .ok new) :
    serial policy row (changes ++ [change]) = .ok (some new) := by
  unfold serial at h ⊢
  rw [foldlM_append, h]
  show (some <$> change.call policy row') >>= _ = _
  rw [hcall]
  rfl

theorem serial_step {n : ℕ}
    {a : LeaseStep} (hcounted : s.Counted policy n) (h : serial policy row s.done = .ok s.row)
    (hok : EndKept s a) (hs : s.step policy a = some t) : serial policy row t.done = .ok t.row := by
  obtain ⟨read, hread, rfl⟩ | ⟨i, now, read, lease, rfl, hread, hrow, hext, rfl⟩ |
    ⟨tenantId, expiresAt, rfl⟩ | ⟨i, rfl⟩ | rfl := step_cases hs
  · exact h
  · -- Where it is written, the extension is the whole call.
    have hmax := hcounted.left read (mem_of_getElem? hread)
    have hend : EndAsRead read now lease := hok read hread lease hrow hext
    rw [hrow] at h
    exact serial_concat h ((extendLease_iff hext hmax).mpr hend)
  · exact serial_concat h rfl
  · exact h
  · exact h

def start (row : Option InstanceLease) : LeaseCalls := ⟨row, [], []⟩

theorem start_counted (policy : LeasePolicy) (row : Option InstanceLease) :
    (start row).Counted policy (extensionsOf row) :=
  ⟨rfl, nofun, nofun⟩

/-- In every run the number of extensions rises by exactly those that succeeded, none of which takes
it over the limit; and where no end is changed between an extension's read and its update, the row
is what the calls give one at a time. -/
theorem lease_changes_serialisable (policy : LeasePolicy) (row : Option InstanceLease) :
    (∀ t, Run (LeaseCalls.step policy) (fun _ _ => True) (start row) t →
      extensionsOf t.row = extensionsOf row + t.done.countP LeaseChange.isExtend ∧
      (t.done.any LeaseChange.isExtend → extensionsOf t.row ≤ policy.maxExtensions)) ∧
    ∀ t, Run (LeaseCalls.step policy) EndKept (start row) t → t.Serialisable policy row := by
  constructor
  · intro t ht
    have h : t.Counted policy (extensionsOf row) :=
      ht.invariant (start_counted policy row) fun _ _ _ h _ hs => h.step hs
    exact ⟨h.count, h.within⟩
  · intro t ht
    have h : t.Counted policy (extensionsOf row) ∧ serial policy row t.done = .ok t.row := by
      refine ht.invariant (I := fun t => t.Counted policy (extensionsOf row) ∧
        serial policy row t.done = .ok t.row) ⟨start_counted policy row, rfl⟩ ?_
      intro t a u h hok hs
      exact ⟨h.1.step hs, serial_step h.1 h.2 hok hs⟩
    exact ⟨t.done, List.Perm.refl _, h.2⟩

def weekly : LeasePolicy := ⟨30, .stop, 7, 2⟩

def ending : InstanceLease := ⟨userU, some 1000, 0, none⟩

/-- Two extensions read the same row: one of them succeeds, and a set follows. -/
theorem lease_changes_serialisable_twice : ∃ t : LeaseCalls,
    Run (LeaseCalls.step weekly) EndKept (start (some ending)) t ∧
      t.row.map (fun r => (r.expiresAt, r.extensions)) = some (none, 1) ∧
      t.Serialisable weekly (some ending) := by
  have hexec : ((Run.exec (LeaseCalls.step weekly) EndKept (start (some ending))
      [.leaseOf, .leaseOf, .update 1 500, .update 0 501, .setLease userU none]).map fun t =>
      t.row.map fun r => (r.expiresAt, r.extensions)) = some (some (none, 1)) := by
    decide
  obtain ⟨t, ht, hrow⟩ := map_eq_some_iff.mp hexec
  have hrun := Run.of_exec .refl ht
  exact ⟨t, hrun, hrow, (lease_changes_serialisable weekly _).2 t hrun⟩

/-- An extension reads the end, a set exempts the instance, and the extension gives it an end again:
neither order of the two does. -/
theorem exempted_lease_ends : ¬ ∀ t : LeaseCalls,
    Run (LeaseCalls.step weekly) (fun _ _ => True) (start (some ending)) t →
      t.Serialisable weekly (some ending) := by
  intro h
  have hexec : Run.exec (LeaseCalls.step weekly) (fun _ _ => True) (start (some ending))
      [.leaseOf, .setLease userU none, .update 0 500] =
      some ⟨some ⟨userU, some (1000 + 7 * dayMs), 1, none⟩, [], [.set userU none, .extend 500]⟩ :=
    rfl
  obtain ⟨order, hperm, hserial⟩ := h _ (Run.of_exec .refl hexec)
  have horder : order = [.set userU none, .extend 500] ∨ order = [.extend 500, .set userU none] := by
    have hmem := mem_permutations'.mpr hperm
    have hall : [LeaseChange.set userU none, .extend 500].permutations' =
        [[.set userU none, .extend 500], [.extend 500, .set userU none]] := rfl
    rw [hall] at hmem
    simpa only [mem_cons, not_mem_nil, or_false] using hmem
  -- A set before the extension leaves it no end to extend; one after it leaves none.
  rcases horder with rfl | rfl
  · cases hserial
  · cases hserial

end LeaseCalls

end IncusCloud.Leases
