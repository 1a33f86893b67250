import IncusCloud.Balancing.Model
import IncusCloud.Tenants.Limits

/-!
# Two readers of one limit

The quota and the balancer read the same stored texts. The balancer's reading is the one its
comment gives, but for KiB; the quota's takes a size without a unit for thousands, knows no B, and
counts a set of CPUs as nothing.
-/

namespace IncusCloud.Tenants

open Lib List Option

/-! ### Limits -/

inductive SizeUnit
  | plain | B | kB | MB | GB | TB | KiB | MiB | gib | TiB
  deriving DecidableEq

namespace SizeUnit

def text : SizeUnit → List Char
  | plain => []
  | B => "B".toList
  | kB => "kB".toList
  | MB => "MB".toList
  | GB => "GB".toList
  | TB => "TB".toList
  | KiB => "KiB".toList
  | MiB => "MiB".toList
  | gib => "GiB".toList
  | TiB => "TiB".toList

def bytes : SizeUnit → ℕ
  | plain | B => 1
  | kB => 10 ^ 3
  | MB => 10 ^ 6
  | GB => 10 ^ 9
  | TB => 10 ^ 12
  | KiB => 2 ^ 10
  | MiB => 2 ^ 20
  | gib => 2 ^ 30
  | TiB => 2 ^ 40

end SizeUnit

def Digits (s : List Char) : Prop := s ≠ [] ∧ ∀ ch ∈ s, ch.isDigit = true

inductive CpuPart
  | one (n : List Char)
  | range (first last : List Char)

namespace CpuPart

def text : CpuPart → List Char
  | one n => n
  | range first last => first ++ '-' :: last

def Valid : CpuPart → Prop
  | one n => Digits n
  | range first last => Digits first ∧ Digits last ∧ decimal first ≤ decimal last

end CpuPart

def cpuSet (parts : List CpuPart) : List Char := [','].intercalate (parts.map CpuPart.text)

inductive CpuLimit : List Char → Prop
  | count {s : List Char} (h : Digits s) : CpuLimit s
  | set {parts : List CpuPart} (hne : parts ≠ []) (h : ∀ p ∈ parts, p.Valid) : CpuLimit (cpuSet parts)

/-! ### Sizes -/

theorem ofText_digits {s : List Char} (h : Digits s) : Double.ofText s = .ofRat (decimal s : ℕ) := by
  obtain ⟨hne, hdigits⟩ := h
  cases s with
  | nil => exact absurd rfl hne
  | cons d s =>
    rw [forall_mem_cons] at hdigits
    rw [Double.ofText_plain hdigits.1 fun ch hch => .inl (hdigits.2 ch hch),
      if_pos (all_eq_true.mpr hdigits.2)]

namespace SizeUnit

variable (u : SizeUnit)

theorem startsUnit : StartsUnit u.text := by
  show (u.text.head?.all fun ch => !ch.isDigit && ch != '.' && !isSpace ch) = true
  cases u <;> decide

theorem holds_bytes : Double.Holds u.bytes := by
  apply Double.holds_of_lt
  cases u <;> decide

theorem bytes_pos : 0 < u.bytes := by
  cases u <;> decide

theorem not_isSpace : ∀ ch ∈ u.text, isSpace ch = false := by
  have hall : (u.text.all fun ch => !isSpace ch) = true := by cases u <;> decide
  simpa using hall

def scale : SizeUnit → ℕ
  | plain => 1000
  | u => u.bytes

theorem rmatch_tenants : (optionally sizeUnit).rmatch u.text = decide (u ≠ B) := by
  cases u <;> decide

theorem rmatch_balancing : (optionally Balancing.sizeUnit).rmatch u.text = decide (u ≠ KiB) := by
  cases u <;> decide

theorem pow_scale {u : SizeUnit} (h : u ≠ B) :
    (if 'I' ∈ u.text.map Char.toUpper then 1024 else 1000) ^
      (indexOf "KMGTP".toList (u.text.map Char.toUpper).head?.toList + 1).toNat = u.scale := by
  cases u
  case B => exact absurd rfl h
  all_goals decide

theorem get_units : Balancing.units.get u.text = some u.bytes := by
  cases u <;> decide

end SizeUnit

variable {n : List Char} {u : SizeUnit}

theorem bytesOf_size (h : Digits n) (hu : u ≠ .B) :
    bytesOf (some (n ++ u.text)) = ((Double.ofRat (decimal n : ℕ)).mul (.ofRat (u.scale : ℕ))).round := by
  unfold bytesOf
  rw [getD_some, readQuantity_whole h.1 h.2 u.startsUnit, u.rmatch_tenants, if_pos (decide_eq_true hu)]
  dsimp only
  rw [u.pow_scale hu, ofText_digits h]

theorem bytesOf_B (h : Digits n) : bytesOf (some (n ++ SizeUnit.B.text)) = .num 0 := by
  unfold bytesOf
  rw [getD_some, readQuantity_whole h.1 h.2 (SizeUnit.startsUnit .B), SizeUnit.rmatch_tenants,
    if_neg (by decide)]

theorem stripSpaces_size (h : Digits n) (u : SizeUnit) : stripSpaces (n ++ u.text) = n ++ u.text := by
  apply stripSpaces_eq_self
  intro ch hch
  rcases mem_append.mp hch with hch | hch
  · exact Number.isSpace_of_isDigit (h.2 ch hch)
  · exact u.not_isSpace ch hch

theorem balancing_bytesOf_size (h : Digits n) (hu : u ≠ .KiB) :
    Balancing.bytesOf (n ++ u.text) =
      some ((Double.ofRat (decimal n : ℕ)).mul (.ofRat (u.bytes : ℕ))).round := by
  unfold Balancing.bytesOf
  rw [stripSpaces_size h, readQuantity_whole h.1 h.2 u.startsUnit, u.rmatch_balancing,
    if_pos (decide_eq_true hu)]
  dsimp only
  rw [u.get_units, map_some, ofText_digits h]

theorem balancing_bytesOf_KiB (h : Digits n) : Balancing.bytesOf (n ++ SizeUnit.KiB.text) = none := by
  unfold Balancing.bytesOf
  rw [stripSpaces_size h, readQuantity_whole h.1 h.2 (SizeUnit.startsUnit .KiB), SizeUnit.rmatch_balancing,
    if_neg (by decide)]

theorem balancing_bytesOf_iff (h : Digits n) (u : SizeUnit) :
    Balancing.bytesOf (n ++ u.text) = some (.num (decimal n * u.bytes : ℕ)) ↔
      u ≠ .KiB ∧ Double.Holds (decimal n * u.bytes) := by
  by_cases hu : u = .KiB
  · rw [hu, balancing_bytesOf_KiB h]
    simp
  · rw [balancing_bytesOf_size h hu, some_inj, Double.scale_eq_iff _ u.bytes_pos u.holds_bytes]
    exact (and_iff_right hu).symm

theorem bytesOf_iff (h : Digits n) (u : SizeUnit) :
    bytesOf (some (n ++ u.text)) = .num (decimal n * u.bytes : ℕ) ↔
      (decimal n = 0 ∨ u ≠ .plain ∧ u ≠ .B) ∧ Double.Holds (decimal n * u.bytes) := by
  have hzero : decimal n = 0 → Double.Holds (decimal n * u.bytes) := by
    intro hn
    rw [hn, Nat.zero_mul]
    exact Double.holds_of_lt (by decide)
  by_cases hB : u = .B
  · subst hB
    have hcast : (Double.num 0 = .num (decimal n * SizeUnit.B.bytes : ℕ)) ↔ decimal n = 0 := by
      rw [← Nat.cast_zero, Double.num_inj_nat, eq_comm]
      exact (Nat.mul_one (decimal n)).symm ▸ Iff.rfl
    rw [bytesOf_B h, hcast]
    exact ⟨fun hn => ⟨.inl hn, hzero hn⟩, fun hand => hand.1.resolve_right fun hu => hu.2 rfl⟩
  · rw [bytesOf_size h hB]
    by_cases hplain : u = .plain
    · subst hplain
      have hscale : Double.Holds (SizeUnit.scale .plain) := Double.holds_of_lt (by decide)
      have hone : decimal n * SizeUnit.bytes .plain = decimal n := Nat.mul_one _
      rw [hone] at hzero ⊢
      rw [Double.scale_eq_self_iff _ (by decide) hscale]
      exact ⟨fun hn => ⟨.inl hn, hzero hn⟩, fun hand => hand.1.resolve_right fun hu => hu.1 rfl⟩
    · have hscale : u.scale = u.bytes := by
        cases u
        case plain => exact absurd rfl hplain
        all_goals rfl
      rw [hscale, Double.scale_eq_iff _ u.bytes_pos u.holds_bytes]
      exact ⟨fun hholds => ⟨.inr ⟨hplain, hB⟩, hholds⟩, And.right⟩

/-! ### CPUs -/

variable {p : CpuPart}

theorem CpuPart.Valid.cases_text (h : p.Valid) :
    ∃ d s, p.text = d :: s ∧ d.isDigit = true ∧ ∀ ch ∈ s, ch.isDigit = true ∨ ch = '-' := by
  cases p with
  | one n =>
    obtain ⟨hne, hdigits⟩ := h
    obtain ⟨d, s, rfl⟩ := exists_cons_of_ne_nil hne
    rw [forall_mem_cons] at hdigits
    exact ⟨d, s, rfl, hdigits.1, fun ch hch => .inl (hdigits.2 ch hch)⟩
  | range first last =>
    obtain ⟨⟨hne, hdigits⟩, ⟨-, hlast⟩, -⟩ := h
    obtain ⟨d, s, rfl⟩ := exists_cons_of_ne_nil hne
    rw [forall_mem_cons] at hdigits
    refine ⟨d, s ++ '-' :: last, rfl, hdigits.1, ?_⟩
    intro ch hch
    rcases mem_append.mp hch with hch | hch
    · exact .inl (hdigits.2 ch hch)
    · rcases mem_cons.mp hch with rfl | hch
      · exact .inr rfl
      · exact .inl (hlast ch hch)

theorem CpuPart.Valid.mem_text (h : p.Valid) {ch : Char} (hch : ch ∈ p.text) :
    ch.isDigit = true ∨ ch = '-' := by
  obtain ⟨d, s, htext, hd, hs⟩ := h.cases_text
  rw [htext] at hch
  rcases mem_cons.mp hch with rfl | hch
  · exact .inl hd
  · exact hs ch hch

variable {v : List Char}

theorem CpuLimit.cases_text (h : CpuLimit v) :
    ∃ d s, v = d :: s ∧ d.isDigit = true ∧ ∀ ch ∈ s, ch.isDigit = true ∨ ch = ',' ∨ ch = '-' := by
  cases h with
  | count h =>
    obtain ⟨d, s, rfl⟩ := exists_cons_of_ne_nil h.1
    obtain ⟨hd, hs⟩ := forall_mem_cons.mp h.2
    exact ⟨d, s, rfl, hd, fun ch hch => .inl (hs ch hch)⟩
  | @set parts hne h =>
    have hmem : ∀ ch ∈ cpuSet parts, ch.isDigit = true ∨ ch = ',' ∨ ch = '-' := by
      intro ch hch
      rcases mem_intercalate hch with rfl | ⟨x, hx, hch⟩
      · exact .inr (.inl rfl)
      · obtain ⟨p, hp, rfl⟩ := List.mem_map.mp hx
        exact ((h p hp).mem_text hch).imp_right .inr
    have hhead : ∃ d s, cpuSet parts = d :: s ∧ d.isDigit = true := by
      cases parts with
      | nil => exact absurd rfl hne
      | cons p ps =>
        obtain ⟨d, s, htext, hd, -⟩ := (h p mem_cons_self).cases_text
        cases ps with
        | nil => exact ⟨d, s, by rw [cpuSet, map_singleton, intercalate_singleton, htext], hd⟩
        | cons q qs =>
          unfold cpuSet
          rw [map_cons, map_cons, intercalate_cons_cons, htext]
          exact ⟨d, _, rfl, hd⟩
    obtain ⟨d, s, htext, hd⟩ := hhead
    exact ⟨d, s, htext, hd, fun ch hch => hmem ch (htext ▸ mem_cons_of_mem d hch)⟩

theorem CpuLimit.stripSpaces_eq (h : CpuLimit v) : stripSpaces v = v := by
  obtain ⟨d, s, rfl, hd, hs⟩ := h.cases_text
  apply stripSpaces_eq_self
  intro ch hch
  rcases mem_cons.mp hch with rfl | hch
  · exact Number.isSpace_of_isDigit hd
  · exact not_isSpace_of_plain (hs ch hch)

def CpuPart.read : CpuPart → List Char × Option (List Char)
  | one n => (n, none)
  | range first last => (first, some last)

theorem readCpus_text (h : p.Valid) : Balancing.readCpus p.text = some p.read := by
  cases p with
  | one n =>
    obtain ⟨hne, hdigits⟩ := h
    obtain ⟨htake, hdrop⟩ := @takeWhile_digits n [] hdigits nofun
    rw [append_nil] at htake hdrop
    unfold Balancing.readCpus CpuPart.text
    rw [htake, hdrop]
    exact if_pos hne
  | range first last =>
    obtain ⟨⟨hne, hdigits⟩, ⟨hne', hdigits'⟩, -⟩ := h
    have hdash : ∀ ch ∈ ('-' :: last).head?, ch.isDigit = false := by
      rintro ch ⟨⟩
      rfl
    obtain ⟨htake, hdrop⟩ := takeWhile_digits hdigits hdash
    unfold Balancing.readCpus CpuPart.text
    rw [htake, hdrop]
    exact if_pos ⟨hne, hne', all_eq_true.mpr hdigits'⟩

theorem counted_cpusOfPart (h : p.Valid) : (Balancing.cpusOfPart p.read).Counted := by
  have hone : (Double.num 1).Counted := .inr (.inr ⟨1, by decide, by rw [Nat.cast_one]⟩)
  cases p with
  | one n => exact hone
  | range first last =>
    obtain ⟨hfirst, hlast, hle⟩ := h
    unfold Balancing.cpusOfPart CpuPart.read
    dsimp only
    rw [ofText_digits hfirst, ofText_digits hlast]
    exact (Double.summed_sub hle).add hone

theorem foldlM_readCpus {parts : List CpuPart} (h : ∀ p ∈ parts, p.Valid) (n : Double) :
    (parts.map CpuPart.text).foldlM
        (fun n part => (Balancing.readCpus (stripSpaces part)).map fun r =>
          n.add (Balancing.cpusOfPart r)) n =
      some (parts.foldl (fun n p => n.add (Balancing.cpusOfPart p.read)) n) := by
  induction parts generalizing n with
  | nil => rfl
  | cons p parts ih =>
    rw [forall_mem_cons] at h
    have hspace : ∀ ch ∈ p.text, isSpace ch = false := by
      intro ch hch
      exact not_isSpace_of_plain ((h.1.mem_text hch).imp_right .inr)
    rw [map_cons, foldlM_cons, stripSpaces_eq_self hspace, readCpus_text h.1, map_some]
    exact ih h.2 _

theorem cpusOf_cpuSet {parts : List CpuPart} (hne : parts ≠ []) (h : ∀ p ∈ parts, p.Valid)
    (hset : ¬ ∀ ch ∈ cpuSet parts, ch.isDigit = true) :
    Balancing.cpusOf (cpuSet parts) = some (Double.sumOf (fun p => Balancing.cpusOfPart p.read) parts) := by
  have hnil : cpuSet parts ≠ [] := by
    intro hnil
    rw [hnil] at hset
    exact hset nofun
  have hsplit : (cpuSet parts).splitOn ',' = parts.map CpuPart.text := by
    apply splitOn_intercalate
    · intro x hx hcomma
      obtain ⟨p, hp, rfl⟩ := List.mem_map.mp hx
      rcases (h p hp).mem_text hcomma with hch | hch
      · cases hch
      · cases hch
    · simpa using hne
  unfold Balancing.cpusOf
  rw [(CpuLimit.set hne h).stripSpaces_eq, if_neg hnil, if_neg (by simpa using hset), hsplit]
  exact foldlM_readCpus h _

theorem cpuCount_limit (h : CpuLimit v) :
    cpuCount v = if v.all Char.isDigit = true then .ofRat (decimal v : ℕ) else .num 0 := by
  obtain ⟨d, s, rfl, hd, hs⟩ := h.cases_text
  unfold cpuCount
  rw [Double.ofText_plain hd hs, all_cons, hd, Bool.true_and]
  split_ifs
  · unfold Double.or
    split_ifs with hzero
    · rcases hzero with hzero | hnan
      · exact hzero.symm
      · rcases Double.ofRat_nat_cases (decimal (d :: s)) with hcase | ⟨k, -, hcase⟩
        · rw [hcase] at hnan
          cases hnan
        · rw [hcase] at hnan
          cases hnan
    · rfl
  · rfl

theorem userUsage_cpu_one (h : CpuLimit v) (memory : List Char) (b : Option ℕ) :
    (userUsage [⟨v, memory⟩] [] b).cpu = cpuCount v := by
  show ((Double.num 0).add (cpuCount v)).add (.num 0) = cpuCount v
  rw [cpuCount_limit h]
  split_ifs
  · exact Double.zero_add_ofRat _
  · decide +kernel

theorem cpusOf_iff (h : CpuLimit v) :
    Balancing.cpusOf v = some (cpuCount v) ↔ ∀ ch ∈ v, ch.isDigit = true := by
  rw [cpuCount_limit h]
  by_cases hall : ∀ ch ∈ v, ch.isDigit = true
  · have hne : v ≠ [] := by
      obtain ⟨d, s, rfl, -⟩ := h.cases_text
      exact cons_ne_nil d s
    have hcount : Balancing.cpusOf v = some (Double.ofText v) := by
      unfold Balancing.cpusOf
      rw [h.stripSpaces_eq, if_neg hne, if_pos (all_eq_true.mpr hall)]
    rw [hcount, if_pos (all_eq_true.mpr hall), ofText_digits ⟨hne, hall⟩]
    exact iff_of_true rfl hall
  · rw [if_neg fun hall' => hall (all_eq_true.mp hall')]
    refine iff_of_false ?_ hall
    cases h with
    | count h => exact absurd h.2 hall
    | set hne h =>
      rw [cpusOf_cpuSet hne h hall, some_inj]
      exact (Double.counted_sumOf _ hne fun p hp => counted_cpusOfPart (h p hp)).ne_zero

/-! ### The two readers -/

/-- The two readers agree on the CPUs of a limit where it is a plain count; and both give the bytes
of a size where a double holds them, its unit is not KiB, and it is nothing or has a unit other than
B. -/
theorem readers_agree_iff {v : List Char} (hv : CpuLimit v) (memory : List Char) (b : Option ℕ)
    {n : List Char} (hn : Digits n) (u : SizeUnit) :
    (Balancing.cpusOf v = some (userUsage [⟨v, memory⟩] [] b).cpu ↔ ∀ ch ∈ v, ch.isDigit = true) ∧
      (bytesOf (some (n ++ u.text)) = .num (decimal n * u.bytes : ℕ) ∧
          Balancing.bytesOf (n ++ u.text) = some (.num (decimal n * u.bytes : ℕ)) ↔
        u ≠ .KiB ∧ (decimal n = 0 ∨ u ≠ .plain ∧ u ≠ .B) ∧ Double.Holds (decimal n * u.bytes)) := by
  constructor
  · rw [userUsage_cpu_one hv, cpusOf_iff hv]
  · rw [bytesOf_iff hn, balancing_bytesOf_iff hn]
    constructor
    · rintro ⟨⟨hunit, hholds⟩, hKiB, -⟩
      exact ⟨hKiB, hunit, hholds⟩
    · rintro ⟨hKiB, hunit, hholds⟩
      exact ⟨⟨hunit, hholds⟩, hKiB, hholds⟩

/-- A plain count of CPUs and a size in GiB. -/
theorem readers_agree_iff_twoGiB :
    Balancing.cpusOf ['2'] = some (userUsage [⟨['2'], "2GiB".toList⟩] [] none).cpu ∧
      bytesOf (some (['2'] ++ SizeUnit.gib.text)) = .num (decimal ['2'] * SizeUnit.gib.bytes : ℕ) ∧
      Balancing.bytesOf (['2'] ++ SizeUnit.gib.text) =
        some (.num (decimal ['2'] * SizeUnit.gib.bytes : ℕ)) := by
  have hdigits : Digits ['2'] := ⟨by decide, by simp⟩
  obtain ⟨hcpus, hsizes⟩ := readers_agree_iff (.count hdigits) "2GiB".toList none hdigits .gib
  constructor
  · exact hcpus.mpr hdigits.2
  · exact hsizes.mpr ⟨by decide, .inr (by decide), Double.holds_of_lt (by decide)⟩

/-- A size that is a number of bytes is counted a thousand times, a set of four CPUs not at all, and
the balancer does not know a size in KiB. -/
theorem plain_size_and_cpu_set_differ :
    ¬ (bytesOf (some "1073741824".toList) = .num 1073741824 ∧
        Balancing.bytesOf "1073741824".toList = some (.num 1073741824)) ∧
      ¬ Balancing.cpusOf "0-3".toList = some (userUsage [⟨"0-3".toList, []⟩] [] none).cpu ∧
      ¬ Balancing.bytesOf "2KiB".toList = some (.num 2048) := by
  decide +kernel

end IncusCloud.Tenants
