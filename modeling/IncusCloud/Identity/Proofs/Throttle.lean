import IncusCloud.Identity.Throttle
import IncusCloud.Lib.Grouping
import Mathlib.Data.List.Dedup
import Mathlib.Data.List.Perm.Subperm

/-!
# The throttle is a sliding window

The map drops times as it reads them. What it keeps of a key agrees with the key's whole history at
every bound the clock can still ask for, so that the counts and the wait are those of the history.
-/

namespace IncusCloud.Identity

open Lib Option
open List (foldl_cons foldl_append append_nil)

variable {k : KeyAt} {names : List String} {key : String} {s : ℤ × Hits} {rest times : List ℤ} {n : ℤ}

/-! ### Histories -/

def ThrottleCall.readings : ThrottleCall → List ℤ
  | .retryAfterS keys => keys.flatMap fun k => [k.first, k.second]
  | .fail keys => keys.flatMap fun k => [k.first, k.second]
  | .clear _ => []

def ThrottleCall.failed : ThrottleCall → List String
  | .fail keys => keys.map (·.key)
  | _ => []

def NeverBack (calls : List ThrottleCall) : Prop := (calls.flatMap (·.readings)).Pairwise (· ≤ ·)

instance (calls : List ThrottleCall) : Decidable (NeverBack calls) :=
  inferInstanceAs (Decidable (List.Pairwise _ _))

def failuresStep (key : String) (times : List ℤ) : ThrottleCall → List ℤ
  | .retryAfterS _ => times
  | .fail keys => times ++ (keys.filter fun k => k.key = key).map (·.second)
  | .clear keys => if key ∈ keys then [] else times

def failures (calls : List ThrottleCall) (key : String) : List ℤ := calls.foldl (failuresStep key) []

/-! ### What a call does to the times of a key -/

section

variable (o : ThrottleOptions)

theorem timesOf_set (hits : Hits) (key : String) (times : List ℤ) (k : String) :
    timesOf (hits.set key times) k = if k = key then times else timesOf hits k := by
  unfold timesOf
  rw [OrdMap.get_set]
  split_ifs <;> rfl

theorem timesOf_erase (hits : Hits) (key k : String) :
    timesOf (hits.erase key) k = if k = key then [] else timesOf hits k := by
  unfold timesOf
  rw [OrdMap.get_erase]
  split_ifs <;> rfl

theorem timesOf_recent (hits : Hits) (key : String) (now : ℤ) (k : String) :
    timesOf (recent o hits key now).2 k =
      if k = key then after (now - o.windowMs) (timesOf hits key) else timesOf hits k := by
  unfold recent
  dsimp only
  by_cases hkept : after (now - o.windowMs) (timesOf hits key) = []
  · rw [if_pos hkept, timesOf_erase, hkept]
  · rw [if_neg hkept, timesOf_set]

theorem retryOne_snd (s : ℤ × Hits) (k : KeyAt) : (retryOne o s k).2 = (recent o s.2 k.key k.first).2 := by
  unfold retryOne
  dsimp only
  split_ifs <;> rfl

variable {hits : Hits}

theorem timesOf_failOne (hroom : makeRoom o hits k.key = hits) (key : String) :
    timesOf (failOne o hits k) key =
      if key = k.key then after (k.first - o.windowMs)
        (timesOf hits k.key) ++ [k.second] else timesOf hits key := by
  unfold failOne
  rw [hroom, timesOf_set, timesOf_recent]
  split_ifs
  · rfl
  · rfl

theorem timesOf_clear (hits : Hits) (keys : List String) (key : String) :
    timesOf (clear hits keys) key = if key ∈ keys then [] else timesOf hits key := by
  unfold clear
  induction keys generalizing hits with
  | nil => simp
  | cons k keys ih =>
    rw [foldl_cons, ih, timesOf_erase]
    by_cases hmem : key ∈ keys
    · simp [hmem]
    · simp [hmem]

/-! ### Room -/

def Within (hits : Hits) (names : List String) : Prop :=
  (hits.map (·.1)).Nodup ∧ hits.map (·.1) ⊆ names

variable {o}

theorem Within.set (h : Within hits names) (hkey : key ∈ names)
    (times : List ℤ) : Within (hits.set key times) names := by
  refine ⟨OrdMap.nodup_keys_set h.1 key times, ?_⟩
  intro k hk
  rcases (OrdMap.mem_keys_set hits key k times).mp hk with rfl | hk
  · exact hkey
  · exact h.2 hk

theorem Within.erase (h : Within hits names) (key : String) : Within (hits.erase key) names := by
  refine ⟨OrdMap.nodup_keys_erase h.1 key, ?_⟩
  intro k hk
  exact h.2 ((OrdMap.mem_keys_erase hits key k).mp hk).2

theorem mem_keys_of_kept {x : ℤ} (h : after x (timesOf hits key) ≠ []) : key ∈ hits.map (·.1) := by
  rw [← OrdMap.isSome_get]
  by_contra hnone
  rw [not_isSome_iff_eq_none] at hnone
  simp [timesOf, hnone] at h

theorem Within.recent (h : Within hits names) (key : String) (now : ℤ) :
    Within (recent o hits key now).2 names := by
  unfold Identity.recent
  dsimp only
  split_ifs with hkept
  · exact h.erase key
  · exact h.set (h.2 (mem_keys_of_kept hkept)) _

theorem makeRoom_of_within (h : Within hits names)
    (hkey : key ∈ names) (hfit : names.dedup.length ≤ o.maxKeys) : makeRoom o hits key = hits := by
  apply if_neg
  rintro ⟨hnone, hfull⟩
  have hnew : key ∉ hits.map (·.1) := by
    rw [← OrdMap.isSome_get]
    simpa using hnone
  have hnodup : (key :: hits.map (·.1)).Nodup := List.nodup_cons.mpr ⟨hnew, h.1⟩
  have hsub : key :: hits.map (·.1) ⊆ names.dedup := by
    intro k hk
    rw [List.mem_dedup]
    rcases List.mem_cons.mp hk with rfl | hk
    · exact hkey
    · exact h.2 hk
  have hlen := (List.subperm_of_subset hnodup hsub).length_le
  rw [List.length_cons, List.length_map] at hlen
  omega

theorem Within.retryOne (h : Within s.2 names) (k : KeyAt) : Within (retryOne o s k).2 names := by
  rw [retryOne_snd]
  exact h.recent k.key k.first

theorem Within.failOne (h : Within hits names) (hkey : k.key ∈ names)
    (hfit : names.dedup.length ≤ o.maxKeys) : Within (failOne o hits k) names := by
  unfold Identity.failOne
  rw [makeRoom_of_within h hkey hfit]
  exact (h.recent k.key k.first).set hkey _

theorem Within.clear (h : Within hits names) (keys : List String) :
    Within (clear hits keys) names := by
  induction keys generalizing hits with
  | nil => exact h
  | cons key keys ih => exact ih (h.erase key)

/-! ### At most `maxKeys` keys -/

variable (o)

theorem length_recent_le (hits : Hits) (key : String) (now : ℤ) :
    (recent o hits key now).2.length ≤ hits.length := by
  unfold recent
  dsimp only
  split_ifs with hkept
  · exact List.filter_sublist.length_le
  · exact (OrdMap.length_set_of_mem (mem_keys_of_kept hkept) _).le

theorem length_set_recent_le (h : key ∈ hits.map (·.1)) (now : ℤ) (times : List ℤ) :
    ((recent o hits key now).2.set key times).length ≤ hits.length := by
  unfold recent
  dsimp only
  split_ifs with hkept
  · have hset := OrdMap.length_set_le (hits.erase key) key times
    have herase := OrdMap.length_erase_lt h
    omega
  · have hmem : key ∈ (hits.set key (after (now - o.windowMs) (timesOf hits key))).map (·.1) :=
      (OrdMap.mem_keys_set ..).mpr (.inl rfl)
    rw [OrdMap.length_set_of_mem hmem, OrdMap.length_set_of_mem h]

theorem makeRoom_spec (h : hits.length ≤ o.maxKeys) (key : String) :
    key ∈ (makeRoom o hits key).map (·.1) ∧ (makeRoom o hits key).length ≤ o.maxKeys ∨
      (makeRoom o hits key).length < o.maxKeys := by
  unfold makeRoom
  split_ifs with hfull
  · -- Dropping the oldest key.
    right
    have hpos := o.maxKeys_pos
    cases hits with
    | nil => exact hpos
    | cons e rest =>
      have hlt : (OrdMap.erase (e :: rest) e.1).length < (e :: rest).length :=
        OrdMap.length_erase_lt (by simp)
      exact lt_of_lt_of_le hlt h
  · by_cases hmem : key ∈ hits.map (·.1)
    · exact .inl ⟨hmem, h⟩
    · right
      rw [← OrdMap.isSome_get, Bool.not_eq_true, isSome_eq_false_iff] at hmem
      by_contra hle
      exact hfull ⟨hmem, not_lt.mp hle⟩

theorem length_failOne_le (h : hits.length ≤ o.maxKeys) (k : KeyAt) :
    (failOne o hits k).length ≤ o.maxKeys := by
  unfold failOne
  dsimp only
  rcases makeRoom_spec o h k.key with ⟨hmem, hle⟩ | hlt
  · exact le_trans (length_set_recent_le o hmem k.first _) hle
  · have hset := OrdMap.length_set_le (recent o (makeRoom o hits k.key) k.key k.first).2 k.key
      ((recent o (makeRoom o hits k.key) k.key k.first).1 ++ [k.second])
    have hrecent := length_recent_le o (makeRoom o hits k.key) k.key k.first
    omega

theorem length_foldl_retryOne_le (keys : List KeyAt) (s : ℤ × Hits) :
    (keys.foldl (retryOne o) s).2.length ≤ s.2.length := by
  induction keys generalizing s with
  | nil => exact Nat.le_refl _
  | cons k keys ih =>
    rw [foldl_cons]
    apply le_trans (ih (retryOne o s k))
    rw [retryOne_snd]
    exact length_recent_le o s.2 k.key k.first

theorem length_clear_le (hits : Hits) (keys : List String) : (clear hits keys).length ≤ hits.length := by
  induction keys generalizing hits with
  | nil => exact Nat.le_refl _
  | cons key keys ih => exact le_trans (ih (hits.erase key)) List.filter_sublist.length_le

theorem length_fail_le (h : hits.length ≤ o.maxKeys) (keys : List KeyAt) :
    (fail o hits keys).length ≤ o.maxKeys := by
  induction keys generalizing hits with
  | nil => exact h
  | cons k keys ih => exact ih (length_failOne_le o h k)

theorem length_throttleStep_le (h : hits.length ≤ o.maxKeys) (call : ThrottleCall) :
    (throttleStep o hits call).length ≤ o.maxKeys := by
  cases call with
  | retryAfterS keys => exact le_trans (length_foldl_retryOne_le o keys (0, hits)) h
  | fail keys => exact length_fail_le o h keys
  | clear keys => exact le_trans (length_clear_le hits keys) h

theorem length_throttleRun_le (calls : List ThrottleCall) : (throttleRun o calls).length ≤ o.maxKeys := by
  unfold throttleRun
  induction calls using List.reverseRecOn with
  | nil => exact Nat.zero_le _
  | append_singleton calls call ih =>
    rw [foldl_append]
    exact length_throttleStep_le o ih call

/-! ### What is kept of a history -/

structure Keeps (now : ℤ) (hits : Hits) (history : String → List ℤ) : Prop where
  kept : ∀ key n, now ≤ n →
    after (n - o.windowMs) (timesOf hits key) = after (n - o.windowMs) (history key)
  sorted : ∀ key, (history key).Pairwise (· ≤ ·)
  past : ∀ key, ∀ t ∈ history key, t ≤ now

theorem clock_cons {now first second : ℤ}
    (h : (now :: first :: second :: rest).Pairwise (· ≤ ·)) :
    now ≤ first ∧ first ≤ second ∧ (second :: rest).Pairwise (· ≤ ·) := by
  obtain ⟨hnow, h⟩ := List.pairwise_cons.mp h
  obtain ⟨hfirst, h⟩ := List.pairwise_cons.mp h
  exact ⟨hnow first List.mem_cons_self, hfirst second List.mem_cons_self, h⟩

variable {o} {now : ℤ} {hits : Hits} {history : String → List ℤ}

theorem Keeps.retryOne (h : Keeps o now s.2 history) (hfirst : now ≤ k.first)
    (hsecond : k.first ≤ k.second) : Keeps o k.second (retryOne o s k).2 history := by
  refine ⟨?_, h.sorted, ?_⟩
  · intro key n hn
    rw [retryOne_snd, timesOf_recent]
    split_ifs with hkey
    · rw [after_after (by omega), hkey]
      exact h.kept k.key n (by omega)
    · exact h.kept key n (by omega)
  · intro key t ht
    have hpast := h.past key t ht
    omega

theorem Keeps.failOne (h : Keeps o now hits history) (hroom : makeRoom o hits k.key = hits)
    (hfirst : now ≤ k.first) (hsecond : k.first ≤ k.second) :
    Keeps o k.second (failOne o hits k)
      fun key => history key ++ if k.key = key then [k.second] else [] := by
  refine ⟨?_, ?_, ?_⟩
  · intro key n hn
    rw [timesOf_failOne o hroom, after_append]
    split_ifs with hkey hkey' hkey'
    · rw [after_append, after_after (by omega), hkey, h.kept k.key n (by omega)]
    · exact absurd hkey.symm hkey'
    · exact absurd hkey'.symm hkey
    · rw [h.kept key n (by omega), after_nil, append_nil]
  · intro key
    rw [List.pairwise_append]
    refine ⟨h.sorted key, ?_, ?_⟩
    · split_ifs <;> simp
    · intro t ht u hu
      have hpast := h.past key t ht
      split_ifs at hu
      · rw [List.mem_singleton] at hu
        omega
      · simp at hu
  · intro key t ht
    rcases List.mem_append.mp ht with ht | ht
    · have hpast := h.past key t ht
      omega
    · split_ifs at ht
      · exact (List.mem_singleton.mp ht).le
      · simp at ht

theorem Keeps.clear (h : Keeps o now hits history) (keys : List String) :
    Keeps o now (clear hits keys) fun key => if key ∈ keys then [] else history key := by
  refine ⟨?_, ?_, ?_⟩
  · intro key n hn
    rw [timesOf_clear]
    split_ifs
    · rfl
    · exact h.kept key n hn
  · intro key
    split_ifs
    · exact List.Pairwise.nil
    · exact h.sorted key
  · intro key t ht
    split_ifs at ht
    · simp at ht
    · exact h.past key t ht

theorem Keeps.retryAll (h : Keeps o now s.2 history) (keys : List KeyAt)
    (hclock : (now :: ((keys.flatMap fun k => [k.first, k.second]) ++ rest)).Pairwise (· ≤ ·)) :
    ∃ now', Keeps o now' (keys.foldl (Identity.retryOne o) s).2 history ∧
      (now' :: rest).Pairwise (· ≤ ·) := by
  induction keys generalizing now s with
  | nil => exact ⟨now, h, hclock⟩
  | cons k keys ih =>
    obtain ⟨hfirst, hsecond, hrest⟩ := clock_cons hclock
    exact ih (h.retryOne hfirst hsecond) hrest

variable {keys : List KeyAt}

theorem Keeps.fail (hfit : names.dedup.length ≤ o.maxKeys) (h : Keeps o now hits history)
    (hwithin : Within hits names) (hnames : keys.map (·.key) ⊆ names)
    (hclock : (now :: ((keys.flatMap fun k => [k.first, k.second]) ++ rest)).Pairwise (· ≤ ·)) :
    Within (fail o hits keys) names ∧
      ∃ now', Keeps o now' (fail o hits keys)
          (fun key => history key ++ (keys.filter fun k => k.key = key).map (·.second)) ∧
        (now' :: rest).Pairwise (· ≤ ·) := by
  induction keys generalizing now hits history with
  | nil =>
    refine ⟨hwithin, now, ?_, hclock⟩
    simpa [Identity.fail] using h
  | cons k keys ih =>
    obtain ⟨hfirst, hsecond, hrest⟩ := clock_cons hclock
    rw [List.map_cons, List.cons_subset] at hnames
    have hroom := makeRoom_of_within hwithin hnames.1 hfit
    obtain ⟨hwithin', now', hkeeps, hclock'⟩ :=
      ih (h.failOne hroom hfirst hsecond) (hwithin.failOne hnames.1 hfit) hnames.2 hrest
    refine ⟨hwithin', now', ?_, hclock'⟩
    have hhistory : (fun key =>
      history key ++ ((k :: keys).filter fun k => k.key = key).map (·.second)) = fun key =>
        (history key ++ if k.key = key then [k.second] else []) ++
          (keys.filter fun k => k.key = key).map (·.second) := by
      funext key
      rw [List.append_assoc, List.filter_cons]
      by_cases hkey : k.key = key
      · simp [hkey]
      · simp [hkey]
    rw [hhistory]
    exact hkeeps

theorem Within.retryAll (h : Within s.2 names) (keys : List KeyAt) :
    Within (keys.foldl (Identity.retryOne o) s).2 names := by
  induction keys generalizing s with
  | nil => exact h
  | cons k keys ih => exact ih (h.retryOne k)

theorem keeps_throttleStep (hfit : names.dedup.length ≤ o.maxKeys)
    (h : Keeps o now hits history) (hwithin : Within hits names) {call : ThrottleCall}
    (hnames : call.failed ⊆ names) (hclock : (now :: (call.readings ++ rest)).Pairwise (· ≤ ·)) :
    Within (throttleStep o hits call) names ∧
      ∃ now', Keeps o now' (throttleStep o hits call)
        (fun key => failuresStep key (history key) call) ∧ (now' :: rest).Pairwise (· ≤ ·) := by
  cases call with
  | retryAfterS keys => exact ⟨Within.retryAll (s := (0, hits)) hwithin keys, Keeps.retryAll (s := (0, hits)) h keys hclock⟩
  | fail keys => exact h.fail hfit hwithin hnames hclock
  | clear keys => exact ⟨hwithin.clear keys, now, h.clear keys, hclock⟩

variable {calls : List ThrottleCall}

theorem keeps_foldl (hfit : names.dedup.length ≤ o.maxKeys)
    (hnames : calls.flatMap (·.failed) ⊆ names) (h : Keeps o now hits history) (hwithin : Within hits names)
    (hclock : (now :: (calls.flatMap (·.readings) ++ rest)).Pairwise (· ≤ ·)) :
    ∃ now', Keeps o now' (calls.foldl (throttleStep o) hits)
        (fun key => calls.foldl (failuresStep key) (history key)) ∧
      (now' :: rest).Pairwise (· ≤ ·) := by
  induction calls generalizing now hits history with
  | nil => exact ⟨now, h, hclock⟩
  | cons call calls ih =>
    rw [List.flatMap_cons, List.append_subset] at hnames
    rw [List.flatMap_cons, List.append_assoc] at hclock
    obtain ⟨hwithin', now', hkeeps, hrest⟩ := keeps_throttleStep hfit h hwithin hnames.1 hclock
    exact ih hnames.2 hkeeps hwithin' hrest

theorem keeps_throttleRun (hfit : (calls.flatMap (·.failed)).dedup.length ≤ o.maxKeys)
    (hclock : (calls.flatMap (·.readings) ++ rest).Pairwise (· ≤ ·)) :
    ∃ now, Keeps o now (throttleRun o calls) (failures calls) ∧ (now :: rest).Pairwise (· ≤ ·) := by
  have hstart : ∃ now, (now :: (calls.flatMap (·.readings) ++ rest)).Pairwise (· ≤ ·) := by
    cases hreadings : calls.flatMap (·.readings) ++ rest with
    | nil => exact ⟨0, List.pairwise_singleton _ _⟩
    | cons t ts =>
      rw [hreadings] at hclock
      refine ⟨t, List.pairwise_cons.mpr ⟨?_, hclock⟩⟩
      intro u hu
      rcases List.mem_cons.mp hu with rfl | hu
      · exact le_refl u
      · exact (List.pairwise_cons.mp hclock).1 u hu
  obtain ⟨now, hnow⟩ := hstart
  have hempty : Keeps o now [] fun _ => [] := ⟨fun _ _ _ => rfl, fun _ => List.Pairwise.nil, by simp⟩
  exact keeps_foldl hfit (List.Subset.refl _) hempty ⟨List.nodup_nil, by simp⟩ hnow

/-! ### The wait -/

def keyWait (o : ThrottleOptions) (times : List ℤ) (k : KeyAt) : ℤ :=
  let kept := after (k.first - o.windowMs) times
  if o.limit ≤ kept.length then ceilSeconds ((latest o.limit kept).getD 0 + o.windowMs - k.second) else 0

theorem ceilSeconds_pos_iff (ms : ℤ) : 0 < ceilSeconds ms ↔ 0 < ms := by
  unfold ceilSeconds
  omega

theorem le_ceilSeconds (ms : ℤ) : ms ≤ 1000 * ceilSeconds ms := by
  unfold ceilSeconds
  omega

theorem blocked_iff (hsorted : times.Pairwise (· ≤ ·)) (hn : k.first ≤ n)
    (hcount : o.limit ≤ (after (k.first - o.windowMs) times).length) :
    o.limit ≤ (after (n - o.windowMs) times).length ↔
      n - o.windowMs < (latest o.limit (after (k.first - o.windowMs) times)).getD 0 := by
  obtain ⟨t, ht⟩ := latest_isSome o.limit_pos hcount
  have hkept : (after (k.first - o.windowMs) times).Pairwise (· ≤ ·) := hsorted.sublist List.filter_sublist
  rw [ht, getD_some, ← le_length_after_iff o.limit_pos hcount hkept ht, after_after (by omega)]

theorem not_blocked_of_lt (hn : k.first ≤ n)
    (hcount : ¬ o.limit ≤ (after (k.first - o.windowMs) times).length) :
    ¬ o.limit ≤ (after (n - o.windowMs) times).length := by
  have hanti : (after (n - o.windowMs) times).length ≤ (after (k.first - o.windowMs) times).length :=
    length_after_anti (by omega)
  omega

theorem keyWait_pos_iff (hsorted : times.Pairwise (· ≤ ·)) (hk : k.first ≤ k.second) :
    0 < keyWait o times k ↔ o.limit ≤ (after (k.second - o.windowMs) times).length := by
  unfold keyWait
  by_cases hcount : o.limit ≤ (after (k.first - o.windowMs) times).length
  · rw [if_pos hcount, ceilSeconds_pos_iff, blocked_iff hsorted hk hcount]
    omega
  · rw [if_neg hcount]
    simpa using not_blocked_of_lt hk hcount

theorem not_blocked_after_wait (hsorted : times.Pairwise (· ≤ ·))
    (hk : k.first ≤ n) (hn : k.second + 1000 * keyWait o times k ≤ n) :
    ¬ o.limit ≤ (after (n - o.windowMs) times).length := by
  unfold keyWait at hn
  by_cases hcount : o.limit ≤ (after (k.first - o.windowMs) times).length
  · rw [if_pos hcount] at hn
    rw [blocked_iff hsorted hk hcount]
    have hceil := le_ceilSeconds
      ((latest o.limit (after (k.first - o.windowMs) times)).getD 0 + o.windowMs - k.second)
    omega
  · exact not_blocked_of_lt hk hcount

theorem retryOne_fst (h : Keeps o now s.2 history) (hfirst : now ≤ k.first)
    (hs : 0 ≤ s.1) : (retryOne o s k).1 = max s.1 (keyWait o (history k.key) k) := by
  have hrecent : (recent o s.2 k.key k.first).1 = after (k.first - o.windowMs) (history k.key) :=
    h.kept k.key k.first hfirst
  unfold retryOne keyWait
  dsimp only
  rw [hrecent]
  split_ifs
  · rfl
  · exact (max_eq_left hs).symm

theorem retryAll_fst (h : Keeps o now s.2 history) (hs : 0 ≤ s.1) (keys : List KeyAt)
    (hclock : (now :: keys.flatMap fun k => [k.first, k.second]).Pairwise (· ≤ ·)) :
    (keys.foldl (retryOne o) s).1 =
      keys.foldl (fun wait k => max wait (keyWait o (history k.key) k)) s.1 := by
  induction keys generalizing now s with
  | nil => rfl
  | cons k keys ih =>
    obtain ⟨hfirst, hsecond, hrest⟩ := clock_cons hclock
    have hone := retryOne_fst h hfirst hs
    rw [foldl_cons, foldl_cons, ← hone]
    exact ih (h.retryOne hfirst hsecond) (hone ▸ le_max_of_le_left hs) hrest

theorem retryAfterS_nonneg_and_ge (h : Keeps o now hits history)
    (hclock : (now :: keys.flatMap fun k => [k.first, k.second]).Pairwise (· ≤ ·)) :
    0 ≤ (retryAfterS o hits keys).1 ∧
      ∀ k ∈ keys, keyWait o (history k.key) k ≤ (retryAfterS o hits keys).1 := by
  have hwait : (retryAfterS o hits keys).1 =
    keys.foldl (fun wait k => max wait (keyWait o (history k.key) k)) 0 :=
    retryAll_fst (s := (0, hits)) h (le_refl 0) keys hclock
  have hmax := lt_foldl_max_iff (fun k => keyWait o (history k.key) k) keys 0 (retryAfterS o hits keys).1
  rw [← hwait, iff_false_left (lt_irrefl _), not_or, not_lt] at hmax
  refine ⟨hmax.1, ?_⟩
  intro k hk
  by_contra hlt
  exact hmax.2 ⟨k, hk, not_le.mp hlt⟩

theorem retryAfterS_pos_iff (h : Keeps o now hits history)
    (hclock : (now :: keys.flatMap fun k => [k.first, k.second]).Pairwise (· ≤ ·)) :
    0 < (retryAfterS o hits keys).1 ↔
      ∃ k ∈ keys, o.limit ≤ (after (k.second - o.windowMs) (history k.key)).length := by
  have hordered : ∀ k ∈ keys, k.first ≤ k.second := by
    intro k hk
    have hpair := (List.pairwise_flatMap.mp (List.pairwise_cons.mp hclock).2).1 k hk
    simpa using hpair
  have hwait : (retryAfterS o hits keys).1 =
    keys.foldl (fun wait k => max wait (keyWait o (history k.key) k)) 0 :=
    retryAll_fst (s := (0, hits)) h (le_refl 0) keys hclock
  rw [hwait, lt_foldl_max_iff, or_iff_right (lt_irrefl _)]
  constructor
  · rintro ⟨k, hk, hpos⟩
    exact ⟨k, hk, (keyWait_pos_iff (h.sorted k.key) (hordered k hk)).mp hpos⟩
  · rintro ⟨k, hk, hblocked⟩
    exact ⟨k, hk, (keyWait_pos_iff (h.sorted k.key) (hordered k hk)).mpr hblocked⟩

theorem foldl_failuresStep_of_none (h : ∀ call ∈ calls, call.failed = [])
    (key : String) (times : List ℤ) :
    calls.foldl (failuresStep key) times = times ∨ calls.foldl (failuresStep key) times = [] := by
  induction calls generalizing times with
  | nil => exact .inl rfl
  | cons call calls ih =>
    rw [List.forall_mem_cons] at h
    have hstep : failuresStep key times call = times ∨ failuresStep key times call = [] := by
      cases call with
      | retryAfterS keys => exact .inl rfl
      | fail keys =>
        have hnone : keys = [] := List.map_eq_nil_iff.mp h.1
        left
        rw [hnone]
        exact append_nil times
      | clear keys =>
        unfold failuresStep
        dsimp only
        split_ifs
        · exact .inr rfl
        · exact .inl rfl
    rw [foldl_cons]
    rcases hstep with hstep | hstep
    · rw [hstep]
      exact ih h.2 times
    · rw [hstep]
      exact .inr (or_self_iff.mp (ih h.2 []))

/-! ### The window -/

variable (o)

/-- The throttle holds at most `maxKeys` keys. Where the keys that failed all fit and the clock
never goes back, the wait is positive exactly where a key has `limit` failures in the window since
its last clear; and who waits that long need not wait again, unless there was another failure. -/
theorem throttle_is_a_window (calls : List ThrottleCall) :
    (throttleRun o calls).length ≤ o.maxKeys ∧
      ((calls.flatMap (·.failed)).dedup.length ≤ o.maxKeys → ∀ keys,
        NeverBack (calls ++ [.retryAfterS keys]) →
        (0 < (retryAfterS o (throttleRun o calls) keys).1 ↔
          ∃ k ∈ keys, o.limit ≤ (after (k.second - o.windowMs) (failures calls k.key)).length) ∧
        ∀ between again, (∀ call ∈ between, call.failed = []) →
          NeverBack (calls ++ [.retryAfterS keys] ++ between ++ [.retryAfterS again]) →
          again.map (·.key) ⊆ keys.map (·.key) →
          (∀ k ∈ keys, ∀ k' ∈ again,
            k.second + 1000 * (retryAfterS o (throttleRun o calls) keys).1 ≤ k'.first) →
          (retryAfterS o (throttleRun o (calls ++ [.retryAfterS keys] ++ between)) again).1 = 0) := by
  refine ⟨length_throttleRun_le o calls, ?_⟩
  intro hfit keys hclock
  have hreadings :
    (calls.flatMap (·.readings) ++ keys.flatMap fun k => [k.first, k.second]).Pairwise (· ≤ ·) := by
    simpa [NeverBack, ThrottleCall.readings] using hclock
  obtain ⟨now, hkeeps, hnow⟩ := keeps_throttleRun hfit hreadings
  refine ⟨retryAfterS_pos_iff hkeeps hnow, ?_⟩
  intro between again hnofail hclock' hsame hwaited
  obtain ⟨hnonneg, hge⟩ := retryAfterS_nonneg_and_ge hkeeps hnow
  -- The second call, over the history that the calls between have left.
  have hfailed : (calls ++ [ThrottleCall.retryAfterS keys] ++ between).flatMap (·.failed) =
    calls.flatMap (·.failed) := by
    have hbetween : between.flatMap (·.failed) = [] := List.flatMap_eq_nil_iff.mpr hnofail
    have hretry : [ThrottleCall.retryAfterS keys].flatMap (·.failed) = [] := rfl
    rw [List.flatMap_append, List.flatMap_append, hbetween, hretry, append_nil, append_nil]
  have hreadings' : ((calls ++ [ThrottleCall.retryAfterS keys] ++ between).flatMap (·.readings) ++
      again.flatMap fun k => [k.first, k.second]).Pairwise (· ≤ ·) := by
    simpa [NeverBack, ThrottleCall.readings] using hclock'
  obtain ⟨now', hkeeps', hnow'⟩ := keeps_throttleRun (hfailed ▸ hfit) hreadings'
  have hnone : ¬ 0 < (retryAfterS o
    (throttleRun o (calls ++ [ThrottleCall.retryAfterS keys] ++ between)) again).1 := by
    rw [retryAfterS_pos_iff hkeeps' hnow']
    rintro ⟨k', hk', hblocked⟩
    obtain ⟨k, hk, hkey⟩ := List.mem_map.mp (hsame (List.mem_map_of_mem hk'))
    have hhistory : failures (calls ++ [ThrottleCall.retryAfterS keys] ++ between) k'.key =
      failures calls k'.key ∨
        failures (calls ++ [ThrottleCall.retryAfterS keys] ++ between) k'.key = [] := by
      unfold failures
      rw [foldl_append, foldl_append]
      exact foldl_failuresStep_of_none hnofail k'.key _
    rcases hhistory with hhistory | hhistory
    · rw [hhistory, ← hkey] at hblocked
      have hordered := (List.pairwise_flatMap.mp (List.pairwise_append.mp hreadings).2.1).1 k hk
      have hordered' := (List.pairwise_flatMap.mp (List.pairwise_append.mp hreadings').2.1).1 k' hk'
      simp only [List.pairwise_cons, List.mem_singleton, forall_eq] at hordered hordered'
      have hlater := hwaited k hk k' hk'
      have hwait := hge k hk
      have hfirst : k.first ≤ k'.second := by omega
      have hsecond : k.second + 1000 * keyWait o (failures calls k.key) k ≤ k'.second := by omega
      exact not_blocked_after_wait (hkeeps.sorted k.key) hfirst hsecond hblocked
    · have hpos := o.limit_pos
      rw [hhistory, after_nil, List.length_nil] at hblocked
      omega
  exact le_antisymm (not_lt.mp hnone) (retryAfterS_nonneg_and_ge hkeeps' hnow').1

/-- Two failures in the window block a key until the first of them is a second old. -/
theorem throttle_is_a_window_twoFailures :
    let o : ThrottleOptions := ⟨2, 1000, 3, by decide, by decide⟩
    let calls : List ThrottleCall := [.fail [⟨"email", 0, 0⟩, ⟨"ip", 0, 1⟩], .fail [⟨"email", 500, 500⟩]]
    let keys : List KeyAt := [⟨"email", 600, 600⟩, ⟨"ip", 600, 601⟩]
    0 < (retryAfterS o (throttleRun o calls) keys).1 ∧
      (retryAfterS o (throttleRun o (calls ++ [.retryAfterS keys] ++ [])) [⟨"email", 1601, 1601⟩]).1 = 0 := by
  intro o calls keys
  obtain ⟨-, hwindow⟩ := throttle_is_a_window o calls
  obtain ⟨hpos, hwait⟩ := hwindow (by decide) keys (by decide)
  constructor
  · exact hpos.mpr ⟨⟨"email", 600, 600⟩, by decide, by decide⟩
  · exact hwait [] [⟨"email", 1601, 1601⟩] (by decide) (by decide) (by decide) (by decide)

end

end IncusCloud.Identity
