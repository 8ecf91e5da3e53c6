import Mathlib.Algebra.Group.Nat.Defs
import ReleaseCatalog.Time.Stamp

namespace ReleaseCatalog.Instant

open Text (isAsciiDigit isBlank trimStart)

theorem isAsciiDigit_of_mem_padded {width n : Nat} {c : Char} (h : c ∈ padded width n) :
    isAsciiDigit c = true := by
  rcases List.mem_append.1 h with h | h
  · rw [List.eq_of_mem_replicate h]
    decide
  · exact Text.isAsciiDigit_of_mem_toDigits h

theorem ofDigitChars_padded (width n : Nat) : Nat.ofDigitChars 10 (padded width n) 0 = n := by
  rw [padded, Nat.ofDigitChars_append, Nat.ofDigitChars_replicate_zero, Nat.mul_zero,
    Nat.ofDigitChars_ten_toDigits]

theorem padded_ne_nil (width n : Nat) : padded width n ≠ [] := by
  intro h
  exact Nat.toDigits_ne_nil (List.append_eq_nil_iff.1 h).2

theorem length_padded {width n : Nat} (hw : 0 < width) (h : n < 10 ^ width) :
    (padded width n).length = width := by
  have hlen := (Nat.length_toDigits_le_iff (by decide) hw).2 h
  rw [padded, List.length_append, List.length_replicate]
  omega

theorem isBlank_of_isAsciiDigit {c : Char} (h : isAsciiDigit c = true) : isBlank c = false := by
  have hc : 48 ≤ c.toNat ∧ c.toNat ≤ 57 := by
    simpa [isAsciiDigit, Char.le_def, UInt32.le_iff_toNat_le] using h
  have hne (d : Char) (hd : d.toNat < 48 ∨ 57 < d.toNat) : (c == d) = false := by
    rw [beq_eq_false_iff_ne]
    rintro rfl
    omega
  have hle (d e : Char) (hd : e.toNat < 48 ∨ 57 < d.toNat) : (d ≤ c && c ≤ e : Bool) = false := by
    simp only [Bool.and_eq_false_imp, decide_eq_true_eq, decide_eq_false_iff_not, Char.le_def,
      UInt32.le_iff_toNat_le, Char.toNat] at hc hd ⊢
    omega
  simp only [isBlank, Bool.or_eq_false_iff]
  refine ⟨⟨⟨⟨⟨⟨⟨⟨⟨⟨?_, ?_⟩, ?_⟩, ?_⟩, ?_⟩, ?_⟩, ?_⟩, ?_⟩, ?_⟩, ?_⟩, ?_⟩
  all_goals first | exact hne _ (by decide) | exact hle _ _ (by decide)

theorem trimStart_cons {c : Char} (h : isBlank c = false) (s : List Char) :
    trimStart (c :: s) = c :: s := by
  simp [trimStart, h]

theorem trimStart_padded (width n : Nat) (s : List Char) :
    trimStart (padded width n ++ s) = padded width n ++ s := by
  cases h : padded width n with
  | nil => exact absurd h (padded_ne_nil width n)
  | cons c w =>
    exact trimStart_cons
      (isBlank_of_isAsciiDigit (isAsciiDigit_of_mem_padded (h ▸ List.mem_cons_self ..))) _

theorem afterMark_cons {mark : Char} (h : isBlank mark = false) (s : List Char) :
    afterMark mark (mark :: s) = some s := by
  rw [afterMark, trimStart_cons h]
  exact if_pos rfl

theorem takeWhile_padded (width n : Nat) {s : List Char} (hs : s.takeWhile isAsciiDigit = []) :
    (padded width n ++ s).takeWhile isAsciiDigit = padded width n := by
  rw [List.takeWhile_append_of_pos fun c hc => isAsciiDigit_of_mem_padded hc, hs, List.append_nil]

theorem readNumber_of_takeWhile {bound width n : Nat} {s : List Char}
    (h : ((padded width n ++ s).take bound).takeWhile isAsciiDigit = padded width n) :
    readNumber bound (padded width n ++ s) = some (n, s) := by
  have hne : (padded width n).isEmpty = false := by
    rw [List.isEmpty_eq_false_iff]
    exact padded_ne_nil width n
  simp only [readNumber, h, hne, ofDigitChars_padded, List.drop_left]
  rfl

theorem readNumber_padded (width : Nat) {n : Nat} (hw : 0 < width) (h : n < 10 ^ width)
    (s : List Char) : readNumber width (padded width n ++ s) = some (n, s) := by
  apply readNumber_of_takeWhile
  rw [List.take_left' (length_padded hw h)]
  simpa using takeWhile_padded width n (s := []) rfl

theorem readNumber_until (width n : Nat) {s : List Char} (hs : s.takeWhile isAsciiDigit = []) :
    readNumber (padded width n ++ s).length (padded width n ++ s) = some (n, s) := by
  apply readNumber_of_takeWhile
  rw [List.take_length]
  exact takeWhile_padded width n hs

theorem readYear_of_digit {c : Char} (h : isAsciiDigit c = true) (s : List Char) :
    readYear (c :: s) = (readNumber 4 (c :: s)).map fun (n, u) => ((n : Int), u) := by
  rw [readYear]
  · rintro t hc
    rw [(List.cons.inj hc).1] at h
    exact absurd h (by decide)
  · rintro t hc
    rw [(List.cons.inj hc).1] at h
    exact absurd h (by decide)

theorem readYear_yearText (year : Int) (s : List Char) :
    readYear (yearText year ++ '-' :: s) = some (year, '-' :: s) := by
  have hs : ('-' :: s).takeWhile isAsciiDigit = [] := rfl
  by_cases h : 0 ≤ year ∧ year ≤ 9999
  · have hread := readNumber_padded 4 (n := year.toNat) (by decide) (by omega) ('-' :: s)
    have htext : yearText year = padded 4 year.toNat := by
      simp [yearText, h.1, h.2]
    rw [htext]
    cases hd : padded 4 year.toNat with
    | nil => exact absurd hd (padded_ne_nil 4 _)
    | cons c w =>
      have hc := isAsciiDigit_of_mem_padded (hd ▸ List.mem_cons_self ..)
      rw [hd, List.cons_append] at hread
      rw [List.cons_append, readYear_of_digit hc, hread]
      show some ((year.toNat : Int), '-' :: s) = _
      rw [Int.toNat_of_nonneg h.1]
  · have hread := readNumber_until 4 year.natAbs hs
    by_cases hneg : year < 0
    · have htext : yearText year = '-' :: padded 4 year.natAbs := by
        simp [yearText, hneg, Int.not_le.2 hneg]
      rw [htext, List.cons_append, readYear, hread]
      show some (-(year.natAbs : Int), '-' :: s) = _
      rw [Int.ofNat_natAbs_of_nonpos (Int.le_of_lt hneg), Int.neg_neg]
    · have htext : yearText year = '+' :: padded 4 year.natAbs := by
        rw [yearText, if_neg, if_neg hneg]
        simpa using h
      rw [htext, List.cons_append, readYear, hread]
      show some ((year.natAbs : Int), '-' :: s) = _
      rw [Int.natAbs_of_nonneg (Int.not_lt.1 hneg)]

theorem trimStart_yearText (year : Int) (s : List Char) :
    trimStart (yearText year ++ s) = yearText year ++ s := by
  rw [yearText]
  split
  · exact trimStart_padded 4 _ s
  · split
    · exact trimStart_cons (by decide) _
    · exact trimStart_cons (by decide) _

theorem readFraction_padded {k n : Nat} (hk : 0 < k) (hle : k ≤ 9) (h : n < 10 ^ k)
    (s : List Char) :
    readFraction ('.' :: (padded k n ++ 'Z' :: s)) = some (n * 10 ^ (9 - k), 'Z' :: s) := by
  have hlen := length_padded hk h
  have htake : ((padded k n ++ 'Z' :: s).take 9).takeWhile isAsciiDigit = padded k n := by
    rw [List.take_append, List.take_of_length_le (by omega)]
    apply takeWhile_padded
    cases 9 - (padded k n).length <;> rfl
  have hne : (padded k n).isEmpty = false := by
    rw [List.isEmpty_eq_false_iff]
    exact padded_ne_nil k n
  have hvalue : Nat.ofDigitChars 10 (padded k n ++ List.replicate (9 - k) '0') 0 =
      n * 10 ^ (9 - k) := by
    rw [Nat.ofDigitChars_append, Nat.ofDigitChars_replicate_zero, ofDigitChars_padded, Nat.mul_comm]
  simp only [readFraction, htake, hne, List.drop_left]
  rw [hlen, hvalue]
  rfl

theorem readFraction_fractionText {nano : Nat} (h : nano < 1000000000) (s : List Char) :
    readFraction (fractionText nano ++ 'Z' :: s) = some (nano, 'Z' :: s) := by
  rw [fractionText]
  split
  · next h0 =>
    rw [h0]
    rfl
  · split
    · next h6 =>
      rw [List.cons_append, readFraction_padded (by decide) (by decide) (by omega)]
      congr 2
      omega
    · split
      · next h3 =>
        rw [List.cons_append, readFraction_padded (by decide) (by decide) (by omega)]
        congr 2
        omega
      · rw [List.cons_append, readFraction_padded (by decide) (by decide) (by omega)]
        simp

theorem daysInMonth_le (year : Int) (month : Nat) : daysInMonth year month ≤ 31 := by
  fun_cases daysInMonth year month <;> decide

theorem ofParts?_date (d : Date) : Date.ofParts? d.year d.month d.day = some d := by
  rw [Date.ofParts?, dif_pos d.isDate]

theorem ofLocal?_zero (t : Instant) : ofLocal? t.date t.second t.nano 0 = some t := by
  have hs := t.isTimeOfDay.1
  rw [ofLocal?]
  simp only [Int.sub_zero, Int.toNat_natCast]
  rw [if_neg (by omega), if_pos (by omega), ofParts?, dif_pos t.isTimeOfDay]

theorem shown_second {second nano : Nat} (h : IsTimeOfDay second nano) :
    let shown := second % 60 + nano / 1000000000
    shown < 61 ∧ shown / 60 = nano / 1000000000 := by
  obtain ⟨-, h | ⟨h, hs⟩⟩ := h
  · omega
  · omega

theorem readDate_date (d : Date) (s : List Char) :
    readDate (yearText d.year ++ '-' :: (padded 2 d.month ++ '-' :: (padded 2 d.day ++ s))) =
      some (d, s) := by
  obtain ⟨-, -, -, hmonth, hday, hlast⟩ := d.isDate
  have hmonths := daysInMonth_le d.year d.month
  have hmonthText := readNumber_padded 2 (n := d.month) (by decide) (by omega)
  have hdayText := readNumber_padded 2 (n := d.day) (by decide) (by omega)
  simp only [readDate, trimStart_yearText, readYear_yearText, Option.bind_eq_bind,
    Option.bind_some, afterMark_cons (by decide : isBlank '-' = false), trimStart_padded,
    hmonthText, hdayText, ofParts?_date]
  rfl

theorem readClock_clock {hour minute second : Nat} (hh : hour < 100) (hm : minute < 100)
    (hs : second < 100) (s : List Char) :
    readClock (padded 2 hour ++ ':' :: (padded 2 minute ++ ':' :: (padded 2 second ++ s))) =
      some (hour, minute, second, s) := by
  simp only [readClock, trimStart_padded, readNumber_padded 2 (by decide) hh,
    readNumber_padded 2 (by decide) hm, readNumber_padded 2 (by decide) hs, Option.bind_eq_bind,
    Option.bind_some, afterMark_cons (by decide : isBlank ':' = false)]
  rfl

theorem ofChars?_toChars (t : Instant) : ofChars? t.toChars = some t := by
  have htime := t.isTimeOfDay
  obtain ⟨hshown, hleap⟩ := shown_second htime
  have hsecond := htime.1
  have hhour : t.second / 3600 < 24 := by omega
  have hminute : t.second / 60 % 60 < 60 := by omega
  have hcount : t.second / 3600 * 3600 + t.second / 60 % 60 * 60 + t.second % 60 = t.second := by
    omega
  have hnano : t.nano % 1000000000 + t.nano / 1000000000 * 1000000000 = t.nano := by omega
  have hdate := readDate_date t.date
  have hclock := readClock_clock (Nat.lt_trans hhour (by decide))
    (Nat.lt_trans hminute (by decide)) (Nat.lt_trans hshown (by decide))
  have hfraction := readFraction_fractionText (Nat.mod_lt t.nano (by decide : 0 < 1000000000)) []
  have hzone : readZone (trimStart ['Z']) = some (0, []) := rfl
  have hT (s : List Char) : afterDate ('T' :: s) = some s := rfl
  simp only [ofChars?, toChars, List.append_assoc, List.cons_append, hdate, hT, hclock, hfraction,
    hzone, Option.bind_eq_bind, Option.bind_some, hleap, Nat.add_sub_cancel, hcount, hnano]
  rw [if_neg, ofLocal?_zero]
  simp only [trimStart, List.dropWhile_nil, List.isEmpty_nil, Bool.not_true, Bool.false_or,
    Bool.or_eq_true, decide_eq_true_eq]
  omega

/-- An instant is read back as it was written. -/
theorem parse?_print (t : Instant) : parse? t.print = some t := by
  rw [parse?, print, String.toList_ofList, ofChars?_toChars]

end ReleaseCatalog.Instant
