import Mathlib.Data.List.Basic

/-!
# Readers and a writer

A lock that one writer or any number of readers hold; a call that has to wait has no result.
`Guards` says that whoever is where only holders are does hold it: each operation keeps it, for the
places it leads from and to.
-/

namespace IncusCloud.Lib

variable {ι : Type*}

structure RwLock (ι : Type*) where
  writer : Option ι
  readers : List ι
  excl : writer = none ∨ readers = []

namespace RwLock

def free : RwLock ι := ⟨none, [], .inl rfl⟩

/-- Held by `i` alone. -/
def lock (l : RwLock ι) (i : ι) : Option (RwLock ι) :=
  if l.writer.isNone && l.readers.isEmpty then some ⟨some i, [], .inr rfl⟩ else none

def unlock (l : RwLock ι) : RwLock ι := ⟨none, l.readers, .inl rfl⟩

/-- Held by `i` too, beside other readers. -/
def rlock (l : RwLock ι) (i : ι) : Option (RwLock ι) :=
  if l.writer.isNone then some ⟨none, i :: l.readers, .inl rfl⟩ else none

def runlock (l : RwLock ι) (p : ι → Bool) : RwLock ι :=
  ⟨l.writer, l.readers.filter fun j => !p j, by
    rcases l.excl with h | h
    · exact .inl h
    · exact .inr (by rw [h, List.filter_nil])⟩

theorem lock_eq_some {l l' : RwLock ι} {i : ι} :
    l.lock i = some l' ↔ (l.writer = none ∧ l.readers = []) ∧ l' = ⟨some i, [], .inr rfl⟩ := by
  unfold lock
  split_ifs with h
  · have hfree : l.writer = none ∧ l.readers = [] := by simpa using h
    simp [hfree, eq_comm]
  · have hheld : ¬ (l.writer = none ∧ l.readers = []) := by simpa using h
    simp [hheld]

theorem rlock_eq_some {l l' : RwLock ι} {i : ι} :
    l.rlock i = some l' ↔ l.writer = none ∧ l' = ⟨none, i :: l.readers, .inl rfl⟩ := by
  unfold rlock
  split_ifs with h
  · have hfree : l.writer = none := by simpa using h
    simp [hfree, eq_comm]
  · have hheld : l.writer ≠ none := by simpa using h
    simp [hheld]

structure Guards (l : RwLock ι) (writes reads : ι → Prop) : Prop where
  writes : ∀ i, writes i → l.writer = some i
  reads : ∀ i, reads i → i ∈ l.readers

namespace Guards

variable {l l' : RwLock ι} {W W' R R' : ι → Prop} {i : ι}

theorem writes_unique (h : Guards l W R) {i j : ι} (hi : W i) (hj : W j) : i = j :=
  Option.some.inj ((h.writes i hi).symm.trans (h.writes j hj))

theorem not_reads (h : Guards l W R) {i j : ι} (hi : W i) : ¬ R j := by
  intro hj
  rcases l.excl with hw | hr
  · rw [h.writes i hi] at hw
    exact nomatch hw
  · have hmem := h.reads j hj
    rw [hr] at hmem
    exact nomatch hmem

theorem not_writes (h : Guards l W R) (hw : l.writer = none) (j : ι) : ¬ W j := by
  intro hj
  rw [h.writes j hj] at hw
  exact nomatch hw

theorem not_reads_of_nil (h : Guards l W R) (hr : l.readers = []) (j : ι) : ¬ R j := by
  intro hj
  have hmem := h.reads j hj
  rw [hr] at hmem
  exact nomatch hmem

theorem mono (h : Guards l W R) (hw : ∀ j, W' j → W j) (hr : ∀ j, R' j → R j) : Guards l W' R' :=
  ⟨fun j hj => h.writes j (hw j hj), fun j hj => h.reads j (hr j hj)⟩

theorem lock (h : Guards l W R) (hl : l.lock i = some l') (hw : ∀ j, W' j → W j ∨ j = i)
    (hr : ∀ j, R' j → R j) : Guards l' W' R' := by
  obtain ⟨⟨hwriter, hreaders⟩, rfl⟩ := lock_eq_some.mp hl
  constructor
  · intro j hj
    rcases hw j hj with hj | rfl
    · exact absurd hj (h.not_writes hwriter j)
    · rfl
  · exact fun j hj => absurd (hr j hj) (h.not_reads_of_nil hreaders j)

theorem unlock (h : Guards l W R) (hi : W i) (hw : ∀ j, W' j → W j ∧ j ≠ i) (hr : ∀ j, R' j → R j) :
    Guards l.unlock W' R' := by
  constructor
  · intro j hj
    obtain ⟨hj, hne⟩ := hw j hj
    exact absurd (h.writes_unique hj hi) hne
  · exact fun j hj => h.reads j (hr j hj)

theorem rlock (h : Guards l W R) (hl : l.rlock i = some l') (hw : ∀ j, W' j → W j)
    (hr : ∀ j, R' j → R j ∨ j = i) : Guards l' W' R' := by
  obtain ⟨hwriter, rfl⟩ := rlock_eq_some.mp hl
  constructor
  · exact fun j hj => absurd (hw j hj) (h.not_writes hwriter j)
  · intro j hj
    rcases hr j hj with hj | rfl
    · exact List.mem_cons_of_mem _ (h.reads j hj)
    · exact List.mem_cons_self

theorem runlock (h : Guards l W R) {p : ι → Bool} (hw : ∀ j, W' j → W j)
    (hr : ∀ j, R' j → R j ∧ p j = false) : Guards (l.runlock p) W' R' := by
  constructor
  · exact fun j hj => h.writes j (hw j hj)
  · intro j hj
    obtain ⟨hj, hp⟩ := hr j hj
    exact List.mem_filter.mpr ⟨h.reads j hj, by simp [hp]⟩

end Guards

end RwLock

end IncusCloud.Lib
