import IncusCloud.Agent.Addresses
import Mathlib.Data.Set.Lattice
import Mathlib.Order.CompletePartialOrder

/-!
# What the ranges stand for

Texts of ranges as the sets of addresses they stand for: ranges overlap exactly where their sets
meet, and an address that is picked is in none of the sets that are taken.
-/

namespace IncusCloud.Agent

open Lib List
open Option (some.inj)

variable {n size low fuel stop : ℕ} {a b : IpRange} {blocked : List IpRange}
  {addresses taken : List String} {facts : NetworkFacts} {host value : String}

/-! ### Sets of addresses -/

def IpRange.set (r : IpRange) : Set ℕ := Set.Icc r.start r.stop

def addressSet (addresses : List String) : Set ℕ := {n | ∃ r ∈ parseRanges addresses, n ∈ r.set}

theorem overlaps_iff : overlaps a b = true ↔ ¬ Disjoint a.set b.set := by
  rw [Set.not_disjoint_iff]
  unfold overlaps IpRange.set
  rw [Bool.and_eq_true, decide_eq_true_eq, decide_eq_true_eq]
  constructor
  · rintro ⟨hab, hba⟩
    have ha := a.le
    have hb := b.le
    refine ⟨max a.start b.start, ?_, ?_⟩
    · rw [Set.mem_Icc]
      omega
    · rw [Set.mem_Icc]
      omega
  · rintro ⟨n, ha, hb⟩
    rw [Set.mem_Icc] at ha hb
    omega

theorem addressSet_append (addresses taken : List String) :
    addressSet (addresses ++ taken) = addressSet addresses ∪ addressSet taken := by
  ext n
  unfold addressSet parseRanges
  simp only [filterMap_append, mem_append, Set.mem_union, Set.mem_ofPred_eq]
  constructor
  · rintro ⟨r, hr | hr, hn⟩
    · exact .inl ⟨r, hr, hn⟩
    · exact .inr ⟨r, hr, hn⟩
  · rintro (⟨r, hr, hn⟩ | ⟨r, hr, hn⟩)
    · exact ⟨r, .inl hr, hn⟩
    · exact ⟨r, .inr hr, hn⟩

theorem mem_addressSet {value : String} (h : value ∈ addresses) {r : IpRange}
    (hr : parseRange value = some r) (hn : n ∈ r.set) : n ∈ addressSet addresses :=
  ⟨r, List.mem_filterMap.mpr ⟨value, h, hr⟩, hn⟩

theorem overlapping_eq_nil : overlapping addresses taken = [] ↔ Disjoint (addressSet addresses) (addressSet taken) := by
  unfold overlapping
  rw [filter_eq_nil_iff, Set.disjoint_left]
  constructor
  · rintro hnone n ⟨r, hr, hn⟩ ⟨t, ht, hn'⟩
    obtain ⟨value, hvalue, hparse⟩ := List.mem_filterMap.mp hr
    refine hnone value hvalue ?_
    rw [hparse]
    refine any_eq_true.mpr ⟨t, ht, overlaps_iff.mpr ?_⟩
    exact Set.not_disjoint_iff.mpr ⟨n, hn, hn'⟩
  · intro hdisjoint value hvalue hany
    obtain ⟨r, hparse, hr⟩ := (Option.any_eq_true _ _).mp hany
    obtain ⟨t, ht, hoverlaps⟩ := any_eq_true.mp hr
    obtain ⟨n, hn, hn'⟩ := Set.not_disjoint_iff.mp (overlaps_iff.mp hoverlaps)
    exact hdisjoint (mem_addressSet hvalue hparse hn) ⟨t, ht, hn'⟩

/-! ### Reading back -/

theorem octet_toDigits (k : ℕ) (hk : k < 256) : octet (Nat.toDigits 10 k) = some k := by
  have hdigits : isDigits (Nat.toDigits 10 k) = true := by
    unfold isDigits
    rw [decide_eq_true Nat.toDigits_ne_nil, Bool.true_and, all_eq_true]
    exact fun ch => isDigit_toDigits
  have hlength : (Nat.toDigits 10 k).length ≤ 3 :=
    (Nat.length_toDigits_le_iff (by decide) (by decide)).mpr (by omega)
  have hle : k ≤ 255 := by omega
  unfold octet
  rw [decimal_toDigits, hdigits]
  simp [hlength, hle]

theorem isSpace_digit {ch : Char} (h : ch.isDigit = true) : isSpace ch = false := by
  have hrange : 48 ≤ ch.toNat ∧ ch.toNat ≤ 57 := by
    simpa [Char.isDigit, UInt32.le_iff_toNat_le] using h
  simp only [isSpace, contains_eq_mem, mem_cons, not_mem_nil, or_false,
    Bool.or_eq_false_iff, decide_eq_false_iff_not, Bool.and_eq_false_iff]
  omega

theorem trim_eq {s : List Char} (h : ∀ ch ∈ s, isSpace ch = false) : trim s = s := by
  have hdrop : ∀ l : List Char, (∀ ch ∈ l, isSpace ch = false) → l.dropWhile isSpace = l := by
    intro l hl
    cases l with
    | nil => rfl
    | cons ch l => rw [dropWhile_cons_of_neg (by simp [hl ch mem_cons_self])]
  unfold trim
  rw [hdrop s h, hdrop s.reverse fun ch hch => h ch (mem_reverse.mp hch), reverse_reverse]

def ipFields (n : ℕ) : List (List Char) := [24, 16, 8, 0].map fun shift => Nat.toDigits 10 (n / 2 ^ shift % 256)

theorem toList_intToIp (n : ℕ) : (intToIp n).toList = ['.'].intercalate (ipFields n) := by
  unfold intToIp join ipFields
  rw [String.toList_ofList, map_map]
  congr 1
  refine map_congr_left fun shift _ => ?_
  exact Nat.toList_repr

theorem mem_ipFields {field : List Char} (h : field ∈ ipFields n) : ∃ k < 256, field = Nat.toDigits 10 k := by
  obtain ⟨shift, -, rfl⟩ := List.mem_map.mp h
  exact ⟨_, Nat.mod_lt _ (by decide), rfl⟩

theorem mem_intToIp {ch : Char} (h : ch ∈ (intToIp n).toList) : ch = '.' ∨ ch.isDigit = true := by
  rw [toList_intToIp] at h
  rcases mem_intercalate h with rfl | ⟨field, hfield, hch⟩
  · exact .inl rfl
  · obtain ⟨k, hk, rfl⟩ := mem_ipFields hfield
    exact .inr (isDigit_toDigits hch)

theorem isSpace_intToIp {ch : Char} (h : ch ∈ (intToIp n).toList) : isSpace ch = false := by
  rw [toList_intToIp] at h
  rcases mem_intercalate h with rfl | ⟨field, hfield, hch⟩
  · decide
  · obtain ⟨k, hk, rfl⟩ := mem_ipFields hfield
    exact isSpace_digit (isDigit_toDigits hch)

theorem mapM_octet (ks : List ℕ) (hks : ∀ k ∈ ks, k < 256) : (ks.map (Nat.toDigits 10)).mapM octet = some ks := by
  induction ks with
  | nil => rfl
  | cons k ks ih =>
    rw [map_cons, mapM_cons, octet_toDigits k (hks k mem_cons_self),
      ih fun k' hk' => hks k' (mem_cons_of_mem _ hk')]
    rfl

theorem octets_eq (hn : n < 2 ^ 32) :
    ((n / 2 ^ 24 % 256 * 256 + n / 2 ^ 16 % 256) * 256 + n / 2 ^ 8 % 256) * 256 + n / 2 ^ 0 % 256 = n := by
  simp only [Nat.reducePow] at hn ⊢
  omega

theorem ipToInt_intToIp (hn : n < 2 ^ 32) : ipToInt (intToIp n) = some n := by
  have hsep : ∀ field ∈ ipFields n, '.' ∉ field := by
    intro field hfield hdot
    obtain ⟨k, hk, rfl⟩ := mem_ipFields hfield
    exact absurd (isDigit_toDigits hdot) (by decide)
  have hsplit : (intToIp n).toList.splitOn '.' = ipFields n := by
    rw [toList_intToIp]
    exact splitOn_intercalate '.' hsep (cons_ne_nil _ _)
  have hoctets : (ipFields n).mapM octet = some ([24, 16, 8, 0].map fun shift => n / 2 ^ shift % 256) := by
    unfold ipFields
    rw [← mapM_octet _ fun k hk => ?_, map_map]
    · rfl
    · obtain ⟨shift, -, rfl⟩ := List.mem_map.mp hk
      exact Nat.mod_lt _ (by decide)
  unfold ipToInt
  rw [trim_eq fun ch => isSpace_intToIp, hsplit, hoctets]
  exact congrArg some (octets_eq hn)

theorem parseRange_intToIp (hn : n < 2 ^ 32) : parseRange (intToIp n) = some (.single n) := by
  have hplain : ∀ ch, ch ≠ '.' → ch.isDigit = false → ch ∉ (intToIp n).toList := by
    intro ch hdot hdigit h
    rcases mem_intToIp h with h | h
    · exact hdot h
    · rw [hdigit] at h
      cases h
  unfold parseRange
  dsimp only
  rw [trim_eq fun ch => isSpace_intToIp, if_neg (hplain '-' (by decide) (by decide)),
    if_neg (hplain '/' (by decide) (by decide)), String.ofList_toList, ipToInt_intToIp hn]
  rfl

theorem octet_lt {s : List Char} {k : ℕ} (h : octet s = some k) : k < 256 := by
  unfold octet at h
  split_ifs at h with hs
  obtain rfl := some.inj h
  simp only [Bool.and_eq_true, decide_eq_true_eq] at hs
  omega

theorem octets_lt {fields : List (List Char)} {ks : List ℕ} (h : fields.mapM octet = some ks) : ∀ k ∈ ks, k < 256 := by
  induction fields generalizing ks with
  | nil =>
    obtain rfl := some.inj h
    exact forall_mem_nil _
  | cons field fields ih =>
    rw [mapM_cons] at h
    obtain ⟨k, hk, h⟩ := Option.bind_eq_some_iff.mp h
    obtain ⟨ks', hks', h⟩ := Option.bind_eq_some_iff.mp h
    obtain rfl := some.inj h
    exact forall_mem_cons.mpr ⟨octet_lt hk, ih hks'⟩

theorem ipToInt_lt {ip : String} (h : ipToInt ip = some n) : n < 2 ^ 32 := by
  unfold ipToInt at h
  split at h
  · rename_i a b c d hoctets
    obtain rfl := some.inj h
    have hall := octets_lt hoctets
    simp only [forall_mem_cons] at hall
    omega
  · cases h

theorem block_lt {base size count : ℕ} (hsize : 0 < size) (hbase : base < size * count) :
    base / size * size + (size - 1) < size * count := by
  have hblock : base / size < count := by rwa [Nat.div_lt_iff_lt_mul hsize, Nat.mul_comm]
  have hmul := Nat.mul_le_mul_left size (Nat.succ_le_of_lt hblock)
  rw [Nat.mul_succ, Nat.mul_comm size (base / size)] at hmul
  omega

theorem IpRange.block_lt {base bits : ℕ} (hbase : base < 2 ^ 32) (hbits : bits ≤ 32) :
    (IpRange.block base bits).stop < 2 ^ 32 := by
  have hspace : 2 ^ 32 = 2 ^ (32 - bits) * 2 ^ bits := by
    rw [← Nat.pow_add, Nat.sub_add_cancel hbits]
  rw [hspace] at hbase ⊢
  exact Agent.block_lt (Nat.pow_pos (by decide)) hbase

theorem parseRange_lt {r : IpRange} (h : parseRange value = some r) : r.stop < 2 ^ 32 := by
  unfold parseRange at h
  dsimp only at h
  split_ifs at h with hdash hslash
  · split at h
    · rename_i start stop _ hstop
      split_ifs at h
      obtain rfl := some.inj h
      exact ipToInt_lt hstop
    · cases h
  · split at h
    · rename_i base bits hbase _
      split_ifs at h with hbits
      obtain rfl := some.inj h
      exact IpRange.block_lt (ipToInt_lt hbase) (Int.toNat_le.mpr hbits.2)
    · cases h
  · obtain ⟨k, hk, rfl⟩ := Option.map_eq_some_iff.mp h
    exact ipToInt_lt hk

/-! ### Suggestions -/

theorem findBlock_spec {r : IpRange} (h : findBlock blocked size low fuel stop = some r) :
    low < r.start ∧ r.stop + 1 = r.start + size ∧ r.stop ≤ stop ∧ ∀ b ∈ blocked, Disjoint b.set r.set := by
  induction fuel generalizing stop with
  | zero => cases h
  | succ fuel ih =>
    unfold findBlock at h
    split_ifs at h with hroom
    dsimp only at h
    split at h
    · rename_i hnone
      obtain rfl := some.inj h
      refine ⟨by dsimp only; omega, by dsimp only; omega, le_rfl, fun b hb => ?_⟩
      rw [List.find?_eq_none] at hnone
      exact not_not.mp fun hmeet => hnone b hb (overlaps_iff.mpr hmeet)
    · obtain ⟨hlow, hsize, hstop, hclear⟩ := ih h
      exact ⟨hlow, hsize, by omega, hclear⟩

theorem pickAddress_spec (h : pickAddress facts taken = some host) :
    ∃ n < 2 ^ 32, host = intToIp n ∧ n ∉ addressSet taken := by
  obtain ⟨range, hrange, rfl⟩ := Option.map_eq_some_iff.mp h
  unfold suggestRange at hrange
  split at hrange
  · rename_i subnet gateway hsubnet _
    dsimp only at hrange
    split at hrange
    · rename_i candidate hfound
      obtain rfl := some.inj hrange
      obtain ⟨hlow, hsize, hstop, hclear⟩ := findBlock_spec hfound
      have hlt := parseRange_lt hsubnet
      refine ⟨candidate.start, by have hle := candidate.le; omega, ?_, ?_⟩
      · have hcut : '-' ∉ (intToIp candidate.start).toList := by
          intro hdash
          rcases mem_intToIp hdash with hdash | hdash
          · exact absurd hdash (by decide)
          · exact absurd hdash (by decide)
        unfold firstTwo
        dsimp only
        rw [head_splitOn, String.toList_append, String.toList_append, append_assoc]
        rw [show "-".toList ++ (intToIp candidate.stop).toList = '-' :: (intToIp candidate.stop).toList from rfl,
          cut_append hcut]
        simp only [Option.getD_some, String.ofList_toList]
      · rintro ⟨r, hr, hn⟩
        have hblocked : r ∈ blockedRanges facts taken subnet gateway := by
          unfold blockedRanges
          exact mem_append_left _ (mem_append_right _ hr)
        refine Set.disjoint_left.mp (hclear r hblocked) hn ?_
        exact Set.left_mem_Icc.mpr candidate.le
    · cases hrange
  · cases hrange

theorem addressSet_intToIp (hn : n < 2 ^ 32) : addressSet [intToIp n] = {n} := by
  ext k
  unfold addressSet parseRanges
  simp only [filterMap_cons, filterMap_nil, parseRange_intToIp hn, mem_singleton, exists_eq_left,
    Set.mem_ofPred_eq, Set.mem_singleton_iff]
  unfold IpRange.set IpRange.single
  rw [Set.Icc_self, Set.mem_singleton_iff]

end IncusCloud.Agent
