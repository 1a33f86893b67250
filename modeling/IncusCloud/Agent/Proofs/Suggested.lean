import IncusCloud.Agent.Proofs.Addresses

/-!
# The suggested block is the highest free one

The search of `suggestRange` jumps below the first obstacle it meets, so it comes to an end, and
what it jumps over is not free: a block that ends in the obstacle or above it, and not above the
candidate, meets the obstacle too.
-/

namespace IncusCloud.Agent

open Lib Option

variable {size low fuel stop : ℕ} {blocked : List IpRange} {facts : NetworkFacts}
  {taken : List String} {subnet r : IpRange} {gateway : ℕ}

/-! ### The loop -/

theorem candidate_le (h : 0 < size ∧ low + size ≤ stop) : stop + 1 - size ≤ stop := by omega

/-- The `end` the loop goes on with after one round; `none`: the loop is over. -/
def nextEnd (blocked : List IpRange) (size low stop : ℕ) : Option ℕ :=
  if h : 0 < size ∧ low + size ≤ stop then
    let candidate : IpRange := ⟨stop + 1 - size, stop, candidate_le h⟩
    (blocked.find? fun b => overlaps b candidate).map fun hit => min stop hit.start - 1
  else none

theorem nextEnd_lt {e : ℕ} (h : nextEnd blocked size low stop = some e) : e < stop := by
  unfold nextEnd at h
  split_ifs at h with hroom
  obtain ⟨hit, -, rfl⟩ := map_eq_some_iff.mp h
  omega

theorem loop_ends (blocked : List IpRange) (size low stop : ℕ) :
    Acc (fun e' e => nextEnd blocked size low e = some e') stop := by
  induction stop using Nat.strong_induction_on with
  | _ stop ih => exact .intro stop fun e he => ih e (nextEnd_lt he)

theorem findBlock_next {e : ℕ} (h : nextEnd blocked size low stop = some e) :
    findBlock blocked size low (fuel + 1) stop = findBlock blocked size low fuel e := by
  unfold nextEnd at h
  split_ifs at h with hroom
  obtain ⟨hit, hfind, rfl⟩ := map_eq_some_iff.mp h
  rw [findBlock, dif_pos hroom]
  simp only [hfind]

theorem findBlock_highest {b : IpRange} (hfuel : stop < fuel) (hsize : 0 < size) (hlength : b.stop + 1 = b.start + size)
    (hlow : low < b.start) (hstop : b.stop ≤ stop) (hclear : ∀ x ∈ blocked, Disjoint x.set b.set) :
    ∃ r, findBlock blocked size low fuel stop = some r ∧ b.stop ≤ r.stop := by
  induction fuel generalizing stop with
  | zero => omega
  | succ fuel ih =>
    have hroom : 0 < size ∧ low + size ≤ stop := by omega
    rw [findBlock, dif_pos hroom]
    dsimp only
    split
    · exact ⟨_, rfl, hstop⟩
    · rename_i hit hfind
      have hmeets : overlaps hit ⟨stop + 1 - size, stop, by omega⟩ = true := by
        simpa using List.find?_some hfind
      obtain ⟨n, hn, hn'⟩ := Set.not_disjoint_iff.mp (overlaps_iff.mp hmeets)
      simp only [IpRange.set, Set.mem_Icc] at hn hn'
      -- A block that ends in the obstacle or above it meets it, as the candidate does.
      have hbelow : b.stop < hit.start := by
        by_contra hle
        have hhit := hit.le
        have hmeet : max b.start hit.start ∈ hit.set ∧ max b.start hit.start ∈ b.set := by
          simp only [IpRange.set, Set.mem_Icc]
          omega
        exact Set.disjoint_left.mp (hclear hit (List.mem_of_find?_eq_some hfind)) hmeet.1 hmeet.2
      apply ih
      · omega
      · omega

/-! ### Free blocks -/

/-- A block of `size` addresses strictly inside the subnet that avoids the gateway, the ranges that
are reserved or taken and the addresses in use. -/
structure FreeBlock (facts : NetworkFacts) (taken : List String) (subnet : IpRange)
    (gateway size : ℕ) (b : IpRange) : Prop where
  length : b.stop + 1 = b.start + size
  above : subnet.start < b.start
  below : b.stop < subnet.stop
  gateway : gateway ∉ b.set
  reserved : Disjoint (addressSet (facts.reserved.flatMap (split ','))) b.set
  taken : Disjoint (addressSet taken) b.set
  used : ∀ ip ∈ facts.used, ∀ n, ipToInt ip = some n → n ∉ b.set

theorem set_single (n : ℕ) : (IpRange.single n).set = {n} := Set.Icc_self n

theorem disjoint_addressSet {texts : List String} {s : Set ℕ} :
    Disjoint (addressSet texts) s ↔ ∀ x ∈ parseRanges texts, Disjoint x.set s := by
  simp only [Set.disjoint_left]
  constructor
  · exact fun h x hx n hn => h ⟨x, hx, hn⟩
  · rintro h n ⟨x, hx, hn⟩
    exact h x hx hn

theorem parseRanges_flatMap (texts : List String) :
    parseRanges (texts.flatMap (split ',')) = texts.flatMap fun t => parseRanges (split ',' t) := by
  unfold parseRanges
  rw [List.filterMap_flatMap]

theorem freeBlock_iff {b : IpRange} (hlength : b.stop + 1 = b.start + size) (hsize : 0 < size) :
    FreeBlock facts taken subnet gateway size b ↔
      subnet.start < b.start ∧ b.stop ≤ subnet.stop - 1 ∧
        ∀ x ∈ blockedRanges facts taken subnet gateway, Disjoint x.set b.set := by
  have hb := b.le
  unfold blockedRanges
  simp only [List.cons_append, List.nil_append, List.forall_mem_cons, List.forall_mem_append, List.forall_mem_map,
    set_single, Set.disjoint_singleton_left, ← parseRanges_flatMap, ← disjoint_addressSet, List.mem_filterMap]
  constructor
  · intro h
    refine ⟨h.above, by have := h.below; omega, ?_, ?_, h.gateway, ⟨h.reserved, h.taken⟩, ?_⟩
    · have habove := h.above
      simp only [IpRange.set, Set.mem_Icc]
      omega
    · have hbelow := h.below
      simp only [IpRange.set, Set.mem_Icc]
      omega
    · rintro n ⟨ip, hip, hn⟩
      exact h.used ip hip n hn
  · rintro ⟨habove, hstop, -, hlast, hgateway, ⟨hreserved, htaken⟩, hused⟩
    simp only [IpRange.set, Set.mem_Icc] at hlast
    exact ⟨hlength, habove, by omega, hgateway, hreserved, htaken, fun ip hip n hn => hused n ⟨ip, hip, hn⟩⟩

/-! ### What is suggested -/

theorem parseRange_written {a b : ℕ} (hle : a ≤ b) (hb : b < 2 ^ 32) :
    parseRange (intToIp a ++ "-" ++ intToIp b) = some ⟨a, b, hle⟩ := by
  have hdash : ∀ n, '-' ∉ (intToIp n).toList := by
    intro n h
    rcases mem_intToIp h with h | h
    · exact absurd h (by decide)
    · exact absurd h (by decide)
  have htext : (intToIp a ++ "-" ++ intToIp b).toList = (intToIp a).toList ++ '-' :: (intToIp b).toList := by
    simp
  have htrim : trim ((intToIp a).toList ++ '-' :: (intToIp b).toList) =
      (intToIp a).toList ++ '-' :: (intToIp b).toList := by
    apply trim_eq
    intro ch hch
    rcases List.mem_append.mp hch with hch | hch
    · exact isSpace_intToIp hch
    · rcases List.mem_cons.mp hch with rfl | hch
      · decide
      · exact isSpace_intToIp hch
  have hparts : firstTwo '-' ((intToIp a).toList ++ '-' :: (intToIp b).toList) = (intToIp a, intToIp b) := by
    unfold firstTwo
    rw [List.splitOn_append_cons_self_of_not_mem (hdash a), List.splitOn_eq_singleton (hdash b)]
    simp
  unfold parseRange
  rw [htext, htrim, if_pos (by simp), hparts]
  simp only [ipToInt_intToIp (show a < 2 ^ 32 by omega), ipToInt_intToIp hb, dif_pos hle]

/-- The loop ends, and the search goes through its rounds; a range that is suggested is the highest
free block, written so that it is read as that block; and none is suggested exactly where none is
free. -/
theorem suggested_block_is_highest (hsize : 1 ≤ size) (hsubnet : parseRange facts.cidr = some subnet)
    (hgateway : ipToInt (firstTwo '/' facts.cidr.toList).1 = some gateway) :
    Acc (fun e' e => nextEnd (blockedRanges facts taken subnet gateway) size subnet.start e = some e')
        (subnet.stop - 1) ∧
      (∀ fuel e e', nextEnd (blockedRanges facts taken subnet gateway) size subnet.start e = some e' →
        findBlock (blockedRanges facts taken subnet gateway) size subnet.start (fuel + 1) e =
          findBlock (blockedRanges facts taken subnet gateway) size subnet.start fuel e') ∧
      (∀ text, (suggestRange facts taken size).range = some text →
        ∃ b, parseRange text = some b ∧ FreeBlock facts taken subnet gateway size b ∧
          ∀ b', FreeBlock facts taken subnet gateway size b' → b'.stop ≤ b.stop) ∧
      ((suggestRange facts taken size).range = none ↔ ¬ ∃ b, FreeBlock facts taken subnet gateway size b) := by
  set found := findBlock (blockedRanges facts taken subnet gateway) size subnet.start subnet.stop (subnet.stop - 1)
    with hfound
  have hrange : (suggestRange facts taken size).range =
      found.map fun b => intToIp b.start ++ "-" ++ intToIp b.stop := by
    unfold suggestRange
    rw [hsubnet, hgateway]
    dsimp only
    rw [← hfound]
    cases found with
    | none => rfl
    | some b => rfl
  have hhighest : ∀ b, FreeBlock facts taken subnet gateway size b → ∃ r, found = some r ∧ b.stop ≤ r.stop := by
    intro b hb
    obtain ⟨hlow, hstop, hclear⟩ := (freeBlock_iff hb.length hsize).mp hb
    have hbelow := hb.below
    exact findBlock_highest (by omega) hsize hb.length hlow hstop hclear
  have hfree : ∀ b, found = some b → FreeBlock facts taken subnet gateway size b := by
    intro b hb
    obtain ⟨hlow, hlength, hstop, hclear⟩ := findBlock_spec (hfound.symm.trans hb)
    exact (freeBlock_iff hlength hsize).mpr ⟨hlow, hstop, hclear⟩
  refine ⟨loop_ends _ _ _ _, fun fuel e e' => findBlock_next, ?_, ?_⟩
  · intro text htext
    rw [hrange] at htext
    obtain ⟨b, hb, rfl⟩ := map_eq_some_iff.mp htext
    have hlt := parseRange_lt hsubnet
    have hbelow := (hfree b hb).below
    refine ⟨b, parseRange_written b.le (by omega), hfree b hb, fun b' hb' => ?_⟩
    obtain ⟨r, hr, hle⟩ := hhighest b' hb'
    rw [hb] at hr
    rwa [some.inj hr]
  · rw [hrange, map_eq_none_iff]
    constructor
    · rintro hnone ⟨b, hb⟩
      obtain ⟨r, hr, -⟩ := hhighest b hb
      rw [hnone] at hr
      cases hr
    · intro hno
      by_contra hsome
      obtain ⟨b, hb⟩ := Option.ne_none_iff_exists'.mp hsome
      exact hno ⟨b, hfree b hb⟩

def smallNetwork : NetworkFacts := ⟨"10.0.0.1/29", ["10.0.0.5"], ["10.0.0.6"]⟩

theorem suggested_block_is_highest_small :
    (suggestRange smallNetwork [] 2).range = some "10.0.0.3-10.0.0.4" ∧
      ∃ b, parseRange "10.0.0.3-10.0.0.4" = some b ∧
        FreeBlock smallNetwork [] (.block 167772161 29) 167772161 2 b ∧
        ∀ b', FreeBlock smallNetwork [] (.block 167772161 29) 167772161 2 b' → b'.stop ≤ b.stop := by
  have hrange : (suggestRange smallNetwork [] 2).range = some "10.0.0.3-10.0.0.4" := by decide +kernel
  have hsubnet : parseRange smallNetwork.cidr = some (.block 167772161 29) := by decide +kernel
  have hgateway : ipToInt (firstTwo '/' smallNetwork.cidr.toList).1 = some 167772161 := by decide
  exact ⟨hrange, (suggested_block_is_highest (by decide) hsubnet hgateway).2.2.1 _ hrange⟩

end IncusCloud.Agent
