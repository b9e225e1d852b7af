import ApiScaffold.Yaml.Moment
import Mathlib.Data.String.Basic

/-! The written form of a time, in a year of four digits, is ordered as time passes. Both the row of
digits and the seconds that have passed since the calendar began are told by the date and the clock,
one part after another. -/
namespace ApiScaffold

def Text.lastDigits : (width : ℕ) → ℕ → List Char
  | 0, _ => []
  | width + 1, n => lastDigits width (n / 10) ++ [Nat.digitChar (n % 10)]

namespace Text

@[simp] theorem length_lastDigits (width n : ℕ) : (lastDigits width n).length = width := by
  induction width generalizing n with
  | zero => rfl
  | succ width ih => rw [lastDigits, List.length_append, ih, List.length_singleton]

/-- Of texts that start with parts of one length those parts decide first. -/
theorem append_lt_append_iff_of_length {a a' b b' : List Char} (h : a.length = a'.length) :
    a ++ b < a' ++ b' ↔ a < a' ∨ a = a' ∧ b < b' := by
  induction a generalizing a' with
  | nil =>
    obtain rfl : a' = [] := List.length_eq_zero_iff.1 h.symm
    simp
  | cons c a ih =>
    cases a' with
    | nil => cases h
    | cons c' a' =>
      rw [List.cons_append, List.cons_append, List.cons_lt_cons_iff, ih (Nat.succ.inj h),
        List.cons_lt_cons_iff]
      grind

theorem digitChar_lt_iff : ∀ d < 10, ∀ e < 10, (Nat.digitChar d < Nat.digitChar e ↔ d < e) := by
  decide

theorem digitChar_inj : ∀ d < 10, ∀ e < 10, Nat.digitChar d = Nat.digitChar e → d = e := by
  decide

theorem lastDigits_inj {width n m : ℕ} (hn : n < 10 ^ width) (hm : m < 10 ^ width)
    (h : lastDigits width n = lastDigits width m) : n = m := by
  induction width generalizing n m with
  | zero => omega
  | succ width ih =>
    rw [pow_succ] at hn hm
    obtain ⟨hfirst, hlast⟩ := List.append_inj h (by simp)
    have hdigit := digitChar_inj _ (Nat.mod_lt n (by decide)) _ (Nat.mod_lt m (by decide))
      (List.singleton_inj.1 hlast)
    have hrest := ih (Nat.div_lt_of_lt_mul (by omega)) (Nat.div_lt_of_lt_mul (by omega)) hfirst
    omega

theorem lastDigits_lt_iff {width n m : ℕ} (hn : n < 10 ^ width) (hm : m < 10 ^ width) :
    lastDigits width n < lastDigits width m ↔ n < m := by
  induction width generalizing n m with
  | zero =>
    refine iff_of_false (List.not_lt_nil _) ?_
    omega
  | succ width ih =>
    rw [pow_succ] at hn hm
    have hn' : n / 10 < 10 ^ width := Nat.div_lt_of_lt_mul (by omega)
    have hm' : m / 10 < 10 ^ width := Nat.div_lt_of_lt_mul (by omega)
    have hfirst : lastDigits width (n / 10) = lastDigits width (m / 10) ↔ n / 10 = m / 10 :=
      ⟨lastDigits_inj hn' hm', fun h => by rw [h]⟩
    have hlast := digitChar_lt_iff _ (Nat.mod_lt n (by decide)) _ (Nat.mod_lt m (by decide))
    rw [lastDigits, lastDigits, append_lt_append_iff_of_length (by simp), ih hn' hm', hfirst]
    simp only [List.cons_lt_cons_iff, List.lt_irrefl, and_false, or_false, hlast]
    omega

theorem lastDigits_append_two (width n : ℕ) {m : ℕ} (hm : m < 100) :
    lastDigits width n ++ lastDigits 2 m = lastDigits (width + 2) (100 * n + m) := by
  have hhead : (100 * n + m) / 10 / 10 = n := by omega
  have hten : (100 * n + m) / 10 % 10 = m / 10 % 10 := by omega
  have hone : (100 * n + m) % 10 = m % 10 := by omega
  simp only [lastDigits, hhead, hten, hone, List.nil_append, List.append_assoc]

theorem toDigits_eq_lastDigits {width n : ℕ} (hleast : 10 ^ width ≤ n)
    (hmost : n < 10 ^ (width + 1)) : Nat.toDigits 10 n = lastDigits (width + 1) n := by
  induction width generalizing n with
  | zero =>
    have hlt : n < 10 := by simpa using hmost
    rw [Nat.toDigits_of_lt_base hlt, lastDigits, Nat.mod_eq_of_lt hlt]
    rfl
  | succ width ih =>
    rw [pow_succ] at hleast hmost
    have hpos : 0 < 10 ^ width := Nat.pow_pos (by decide)
    rw [Nat.toDigits_of_base_le (by decide) (by omega), ih (by omega) (by omega)]
    rfl

end Text

namespace LocalTime
open Text Yaml

/-- A time of the calendar and the clock, in a year of four digits. -/
structure Valid (t : LocalTime) : Prop where
  year : 1000 ≤ t.year ∧ t.year ≤ 9999
  month : 1 ≤ t.month ∧ t.month ≤ 12
  day : 1 ≤ t.day ∧ t.day ≤ daysIn t.year t.month
  hour : t.hour < 24
  minute : t.minute < 60
  second : t.second < 60

/-- The seconds that have passed since the calendar began. -/
def elapsed (t : LocalTime) : ℕ :=
  86400 * dayNumber t.year t.month t.day + (3600 * t.hour + 60 * t.minute + t.second)

/-- The parts of a time in one number, two digits for each but the year. -/
def figures (t : LocalTime) : ℕ :=
  100 * (100 * (100 * (100 * (100 * t.year + t.month) + t.day) + t.hour) + t.minute) + t.second

variable {s t : LocalTime}

theorem toList_twoDigits {n : ℕ} (h : n < 100) : (twoDigits n).toList = lastDigits 2 n := by
  have hall : ∀ n < 100, (twoDigits n).toList = lastDigits 2 n := by decide
  exact hall n h

theorem daysIn_le (year month : ℕ) : daysIn year month ≤ 31 := by
  unfold daysIn
  split_ifs <;> decide

/-- Of two numbers with two last digits their fronts decide first. -/
theorem front_lt_iff {front front' last last' : ℕ} (h : last < 100) (h' : last' < 100) :
    100 * front + last < 100 * front' + last' ↔ front < front' ∨ front = front' ∧ last < last' := by
  omega

theorem front_eq_iff {front front' last last' : ℕ} (h : last < 100) (h' : last' < 100) :
    100 * front + last = 100 * front' + last' ↔ front = front' ∧ last = last' := by
  omega

theorem Valid.figures_lt (h : t.Valid) : t.figures < 10 ^ 14 := by
  obtain ⟨hyear, hmonth, hday, hhour, hminute, hsecond⟩ := h
  have hmost := daysIn_le t.year t.month
  unfold figures
  omega

/-- A time is written as the digits of its figures. -/
theorem Valid.toList_stamp (h : t.Valid) : t.stamp.toList = lastDigits 14 t.figures := by
  obtain ⟨hyear, hmonth, hday, hhour, hminute, hsecond⟩ := h
  have hmost := daysIn_le t.year t.month
  have hdigits : (toString t.year).toList = lastDigits 4 t.year := by
    have hlist : (toString t.year).toList = Nat.toDigits 10 t.year := by simp
    have hleast : 10 ^ 3 ≤ t.year := hyear.1
    rw [hlist]
    exact toDigits_eq_lastDigits hleast (by omega)
  unfold stamp figures
  simp only [String.toList_append]
  rw [hdigits, toList_twoDigits (by omega), toList_twoDigits (by omega),
    toList_twoDigits (by omega), toList_twoDigits (by omega), toList_twoDigits (by omega)]
  rw [lastDigits_append_two _ _ (by omega),
    lastDigits_append_two _ _ (by omega), lastDigits_append_two _ _ (by omega),
    lastDigits_append_two _ _ (by omega), lastDigits_append_two _ _ (by omega)]

/-! Days of the calendar. -/

def daysBeforeYear (year : ℕ) : ℕ :=
  365 * (year - 1) + (year - 1) / 4 - (year - 1) / 100 + (year - 1) / 400

def daysOfMonths (year count : ℕ) : ℕ :=
  (List.range count).foldl (fun days m => days + daysIn year (m + 1)) 0

theorem dayNumber_eq (year month day : ℕ) :
    dayNumber year month day = daysBeforeYear year + daysOfMonths year (month - 1) + day :=
  rfl

theorem daysOfMonths_succ (year count : ℕ) :
    daysOfMonths year (count + 1) = daysOfMonths year count + daysIn year (count + 1) := by
  rw [daysOfMonths, List.range_succ, List.foldl_append]
  rfl

theorem daysOfMonths_mono (year : ℕ) : Monotone (daysOfMonths year) :=
  monotone_nat_of_le_succ fun count => by
    rw [daysOfMonths_succ]
    exact Nat.le_add_right _ _

theorem daysBeforeYear_succ {year : ℕ} (h : 1 ≤ year) :
    daysBeforeYear (year + 1) = daysBeforeYear year + daysOfMonths year 12 := by
  have hmonths : daysOfMonths year 12 = if isLeap year then 366 else 365 := by
    cases hleap : isLeap year <;> simp [daysOfMonths, List.range_succ, daysIn, hleap]
  -- Each of the three counts grows by one just in the years that it counts.
  obtain ⟨n, rfl⟩ : ∃ n, year = n + 1 := ⟨year - 1, by omega⟩
  have hfewer : n / 100 ≤ n / 4 := Nat.div_le_div_left (by decide) (by decide)
  have hcentury : (n + 1) % 400 = 0 → (n + 1) % 100 = 0 := by omega
  have hfourth : (n + 1) % 100 = 0 → (n + 1) % 4 = 0 := by omega
  rw [hmonths]
  simp only [daysBeforeYear, isLeap, Nat.add_sub_cancel, Nat.succ_div, Nat.dvd_iff_mod_eq_zero]
  generalize n / 4 = fourths at *
  generalize n / 100 = centuries at *
  by_cases h4 : (n + 1) % 4 = 0 <;> by_cases h100 : (n + 1) % 100 = 0 <;>
    by_cases h400 : (n + 1) % 400 = 0 <;>
    simp [h4, h100, h400] at hcentury hfourth ⊢ <;> omega

theorem daysBeforeYear_mono {year year' : ℕ} (h : 1 ≤ year) (hle : year ≤ year') :
    daysBeforeYear year ≤ daysBeforeYear year' := by
  induction year', hle using Nat.le_induction with
  | base => exact Nat.le_refl _
  | succ y hy ih =>
    rw [daysBeforeYear_succ (h.trans hy)]
    omega

/-- Of two dates the one with the later year, or the later month in it, or the later day in that, is
the later day. -/
theorem dayNumber_lt {year year' month month' day day' : ℕ}
    (hyear : 1 ≤ year) (hmonth : 1 ≤ month ∧ month ≤ 12)
    (hday : day ≤ daysIn year month) (hmonth' : 1 ≤ month') (hday' : 1 ≤ day')
    (h : year < year' ∨ year = year' ∧ (month < month' ∨ month = month' ∧ day < day')) :
    dayNumber year month day < dayNumber year' month' day' := by
  have hover : daysOfMonths year (month - 1) + day ≤ daysOfMonths year month := by
    obtain ⟨count, rfl⟩ : ∃ count, month = count + 1 := ⟨month - 1, by omega⟩
    rw [daysOfMonths_succ, Nat.add_sub_cancel]
    exact Nat.add_le_add_left hday _
  rw [dayNumber_eq, dayNumber_eq]
  rcases h with hlater | ⟨rfl, hlater | ⟨rfl, hlater⟩⟩
  · have hend := daysOfMonths_mono year hmonth.2
    have hnext := daysBeforeYear_mono (Nat.le_succ_of_le hyear) hlater
    rw [daysBeforeYear_succ hyear] at hnext
    omega
  · have hend := daysOfMonths_mono year (Nat.le_sub_one_of_lt hlater)
    omega
  · omega

theorem Valid.elapsed_lt (hs : s.Valid) (ht : t.Valid) (h : s.figures < t.figures) :
    s.elapsed < t.elapsed := by
  obtain ⟨hyear, hmonth, hday, hhour, hminute, hsecond⟩ := hs
  obtain ⟨hyear', hmonth', hday', hhour', hminute', hsecond'⟩ := ht
  have hmost := daysIn_le s.year s.month
  have hmost' := daysIn_le t.year t.month
  have hparts : (s.year < t.year ∨ s.year = t.year ∧
    (s.month < t.month ∨ s.month = t.month ∧ s.day < t.day)) ∨
      (s.year = t.year ∧ s.month = t.month ∧ s.day = t.day) ∧
        (s.hour < t.hour ∨ s.hour = t.hour ∧
          (s.minute < t.minute ∨ s.minute = t.minute ∧ s.second < t.second)) := by
    unfold figures at h
    simp (disch := omega) only [front_lt_iff, front_eq_iff] at h
    tauto
  unfold elapsed
  rcases hparts with hdate | ⟨⟨hsameYear, hsameMonth, hsameDay⟩, hclock⟩
  · have hdays := dayNumber_lt (by omega) hmonth hday.2 hmonth'.1 hday'.1 hdate
    omega
  · rw [hsameYear, hsameMonth, hsameDay]
    omega

theorem eq_of_figures_eq (hs : s.Valid) (ht : t.Valid) (h : s.figures = t.figures) : s = t := by
  obtain ⟨hyear, hmonth, hday, hhour, hminute, hsecond⟩ := hs
  obtain ⟨hyear', hmonth', hday', hhour', hminute', hsecond'⟩ := ht
  have hmost := daysIn_le s.year s.month
  have hmost' := daysIn_le t.year t.month
  obtain ⟨year, month, day, hour, minute, second⟩ := s
  obtain ⟨year', month', day', hour', minute', second'⟩ := t
  simp only [figures, mk.injEq] at *
  omega

theorem eq_of_elapsed_eq (hs : s.Valid) (ht : t.Valid) (h : s.elapsed = t.elapsed) : s = t := by
  rcases Nat.lt_trichotomy s.figures t.figures with hlt | heq | hgt
  · exact absurd h (hs.elapsed_lt ht hlt).ne
  · exact eq_of_figures_eq hs ht heq
  · exact absurd h (ht.elapsed_lt hs hgt).ne'

/-- The written form of an earlier time comes first, whatever stands behind the two. -/
theorem stamp_append_lt (hs : s.Valid) (ht : t.Valid) (h : s.elapsed < t.elapsed)
    (a b : List Char) : s.stamp.toList ++ a < t.stamp.toList ++ b := by
  have hfigures : s.figures < t.figures := by
    rcases Nat.lt_trichotomy s.figures t.figures with hlt | heq | hgt
    · exact hlt
    · exact absurd (eq_of_figures_eq hs ht heq ▸ h) (Nat.lt_irrefl _)
    · exact absurd h (ht.elapsed_lt hs hgt).not_gt
  rw [hs.toList_stamp, ht.toList_stamp]
  exact (append_lt_append_iff_of_length (by simp)).2
    (.inl ((lastDigits_lt_iff hs.figures_lt ht.figures_lt).2 hfigures))

end LocalTime
end ApiScaffold
