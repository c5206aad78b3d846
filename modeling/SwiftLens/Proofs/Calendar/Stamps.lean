import SwiftLens.Proofs.Calendar.Days
import SwiftLens.Proofs.Number.ReadBack

/-!
# Points in time as texts

A point in time is written as its date and its time of day, in fields of fixed width (`write_eq`). Numbers
that are written in one width are in order (`pad_lt`), and so is what is made of such fields: `clockText_lt`
for times of day, `dateText_lt` for dates of the years that have four digits, and `write_lt` for points in
time.

Outside those years texts are not in order, but they still differ. The width of the year can be told from
the length of the whole, and with it all fields are found again (`write_injOn`). `forall_mem_write` says
which units a text is made of, and `map_write` that its marks can be exchanged afterwards.
-/

namespace SwiftLens.Calendar

/-! ### Numbers of fixed width -/

/-- A number of fixed width is made of digits. -/
theorem all_isDigit_pad (width n : Nat) : (pad width n).all CodeUnit.isDigit = true := by
  unfold pad
  rw [List.all_append, Text.all_isDigit_ofNat, Bool.and_true]
  exact Decimal.all_isDigit_zeros _

/-- The zeros in front of a number do not change its value. -/
theorem digitsValue_pad (width n : Nat) : Text.digitsValue (pad width n) = n := by
  have hzeros := Decimal.digitsValue_zeros (width - (Text.ofNat n).length)
  unfold NumberFormat.zeros at hzeros
  unfold pad
  rw [Text.digitsValue_append, hzeros, zero_mul, zero_add, Text.digitsValue_ofNat]

/-- Different numbers are written differently in one width. -/
theorem pad_injective (width : Nat) : Function.Injective (pad width) := fun m n h => by
  rw [← digitsValue_pad width m, h, digitsValue_pad]

variable {width m n : Nat}

/-- A number that is not too great for its field fills it. -/
theorem length_pad (hwidth : 0 < width) (h : n < 10 ^ width) : (pad width n).length = width := by
  have hdigits : (Text.ofNat n).length ≤ width := by
    rw [Text.ofNat, List.length_map]
    exact Nat.toDigits_length 10 n width hwidth h
  unfold pad
  rw [List.length_append, List.length_replicate]
  omega

/-- Numbers that are written in one width are in order. -/
theorem pad_lt (hwidth : 0 < width) (hn : n < 10 ^ width) (h : m < n) : pad width m < pad width n := by
  have hlength : (pad width m).length = (pad width n).length := by
    rw [length_pad hwidth (h.trans hn), length_pad hwidth hn]
  refine Text.lt_of_digitsValue_lt (all_isDigit_pad width m) (all_isDigit_pad width n) hlength ?_
  rwa [digitsValue_pad, digitsValue_pad]

/-- Fields of one width put what is written in order, and what comes after them where they are equal. -/
theorem pad_append_lt (hwidth : 0 < width) (hn : n < 10 ^ width) {s t : Text}
    (h : m < n ∨ m = n ∧ s < t) : pad width m ++ s < pad width n ++ t := by
  rcases h with hlt | ⟨rfl, hlt⟩
  · refine Text.append_lt_append ?_ (pad_lt hwidth hn hlt) s t
    rw [length_pad hwidth (hlt.trans hn), length_pad hwidth hn]
  · exact List.append_left_lt hlt

/-! ### Dates and times of day -/

/-- The date of a point in time. -/
def dateOf (ms : Int) : Date := dateOfDay (ms.fdiv dayLength)

/-- The number of milliseconds since the beginning of the day. -/
def timeOf (ms : Int) : Nat := (ms.fmod dayLength).toNat

/-- A date as it is written. -/
def dateText (d : Date) : Text := yearText d.year ++ ("-" ++ (pad 2 d.month ++ ("-" ++ pad 2 d.day)))

/-- A time of day as it is written. -/
def clockText (colon dot : Text) (time : Nat) : Text :=
  pad 2 (time / 3600000) ++ (colon ++ (pad 2 (time / 60000 % 60) ++ (colon ++
    (pad 2 (time / 1000 % 60) ++ (dot ++ pad 3 (time % 1000))))))

/-- A point in time is written as its date and its time of day. -/
theorem write_eq (colon dot : Text) (ms : Int) :
    write colon dot ms = dateText (dateOf ms) ++ ("T" ++ (clockText colon dot (timeOf ms) ++ "Z")) := by
  simp only [write, dateText, clockText, dateOf, timeOf, List.append_assoc]

/-- A time of day is less than a day. -/
theorem timeOf_lt (ms : Int) : timeOf ms < 86400000 := by
  unfold timeOf
  rw [Int.fmod_eq_emod_of_nonneg ms (by decide : (0 : Int) ≤ dayLength), dayLength]
  omega

/-- A point in time is a day and a time of that day. -/
theorem eq_day_add_time (ms : Int) : ms = 86400000 * ms.fdiv dayLength + timeOf ms := by
  have htime : (timeOf ms : Int) = ms % 86400000 := by
    unfold timeOf
    rw [Int.fmod_eq_emod_of_nonneg ms (by decide : (0 : Int) ≤ dayLength), dayLength]
    omega
  rw [Int.fdiv_eq_ediv_of_nonneg ms (by decide : (0 : Int) ≤ dayLength), htime, dayLength]
  omega

/-- Times of day are written in their order. -/
theorem clockText_lt (colon dot : Text) {s t : Nat} (ht : t < 86400000) (h : s < t) :
    clockText colon dot s < clockText colon dot t := by
  -- some field is the first in which the two times differ, and there they are in order
  have hfields : s / 3600000 < t / 3600000 ∨ s / 3600000 = t / 3600000 ∧
      (s / 60000 % 60 < t / 60000 % 60 ∨ s / 60000 % 60 = t / 60000 % 60 ∧
        (s / 1000 % 60 < t / 1000 % 60 ∨ s / 1000 % 60 = t / 1000 % 60 ∧ s % 1000 < t % 1000)) := by
    omega
  refine pad_append_lt (by decide) (by omega) (hfields.imp_right fun h => ⟨h.1, ?_⟩)
  refine List.append_left_lt (pad_append_lt (by decide) (by omega) (h.2.imp_right fun h => ⟨h.1, ?_⟩))
  refine List.append_left_lt (pad_append_lt (by decide) (by omega) (h.2.imp_right fun h => ⟨h.1, ?_⟩))
  exact List.append_left_lt (pad_lt (by decide) (by omega) h.2)

/-- Different times of day are written differently. -/
theorem clockText_injOn (colon dot : Text) {s t : Nat} (hs : s < 86400000) (ht : t < 86400000)
    (h : clockText colon dot s = clockText colon dot t) : s = t := by
  rcases Nat.lt_trichotomy s t with hlt | heq | hgt
  · exact absurd (h ▸ clockText_lt colon dot ht hlt) (List.lt_irrefl _)
  · exact heq
  · exact absurd (h ▸ clockText_lt colon dot hs hgt) (List.lt_irrefl _)

/-- All times of day are written in one width. -/
theorem length_clockText (colon dot : Text) {time : Nat} (h : time < 86400000) :
    (clockText colon dot time).length = 9 + 2 * colon.length + dot.length := by
  unfold clockText
  simp only [List.length_append]
  rw [length_pad (by decide) (by omega), length_pad (by decide) (by omega),
    length_pad (by decide) (by omega), length_pad (by decide) (by omega)]
  omega

/-! ### Years -/

/-- Whether a year is written in four digits and without a sign. -/
def IsShort (year : Int) : Prop := 0 ≤ year ∧ year ≤ 9999

instance (year : Int) : Decidable (IsShort year) := inferInstanceAs (Decidable (_ ∧ _))

/-- A year of at most four digits is written with four. -/
theorem yearText_of_isShort {year : Int} (h : IsShort year) : yearText year = pad 4 year.natAbs := if_pos h

/-- Any other year is written with its sign and six digits. -/
theorem yearText_of_not_isShort {year : Int} (h : ¬IsShort year) :
    yearText year = (if year < 0 then "-" else "+") ++ pad 6 year.natAbs := if_neg h

/-- The width of a year: four, or seven with its sign. -/
theorem length_yearText {year : Int} (h : year.natAbs < 1000000) :
    (yearText year).length = if IsShort year then 4 else 7 := by
  by_cases hshort : IsShort year
  · rw [if_pos hshort, yearText_of_isShort hshort]
    unfold IsShort at hshort
    exact length_pad (by decide) (by omega)
  · rw [if_neg hshort, yearText_of_not_isShort hshort, List.length_append, length_pad (by decide) (by omega)]
    split_ifs <;> rfl

/-- Years of up to six digits are told apart: four digits from more by the length, positive years from
negative ones by the sign. -/
theorem yearText_injOn {y z : Int} (hy : y.natAbs < 1000000) (hz : z.natAbs < 1000000)
    (h : yearText y = yearText z) : y = z := by
  have hlength := congrArg List.length h
  rw [length_yearText hy, length_yearText hz] at hlength
  by_cases hshort : IsShort y
  · have hshort' : IsShort z := by
      by_contra hlong
      rw [if_pos hshort, if_neg hlong] at hlength
      omega
    rw [yearText_of_isShort hshort, yearText_of_isShort hshort'] at h
    have := pad_injective 4 h
    unfold IsShort at hshort hshort'
    omega
  · have hshort' : ¬IsShort z := by
      intro hshort'
      rw [if_neg hshort, if_pos hshort'] at hlength
      omega
    rw [yearText_of_not_isShort hshort, yearText_of_not_isShort hshort'] at h
    obtain ⟨hsign, hdigits⟩ := List.append_inj h (by split_ifs <;> rfl)
    have := pad_injective 6 hdigits
    split_ifs at hsign with hneg hneg'
    · omega
    · exact absurd hsign (by decide)
    · exact absurd hsign (by decide)
    · omega

/-! ### Dates -/

/-- A date is as wide as its year and six units more. -/
theorem length_dateText {d : Date} (hd : d.IsValid) : (dateText d).length = (yearText d.year).length + 6 := by
  have hmonth := hd.month_le
  have hday := hd.day_le_31
  unfold dateText
  simp only [List.length_append]
  rw [length_pad (by decide) (by omega), length_pad (by decide) (by omega)]
  rfl

/-- Dates whose years have four digits are written in their order. -/
theorem dateText_lt {d e : Date} (he : e.IsValid) (hyear : IsShort d.year)
    (hyear' : IsShort e.year) (h : d.key < e.key) : dateText d < dateText e := by
  have hmonth := he.month_le
  have hday := he.day_le_31
  have hfields := Date.key_lt_iff.mp h
  unfold dateText
  rw [yearText_of_isShort hyear, yearText_of_isShort hyear']
  unfold IsShort at hyear hyear'
  refine pad_append_lt (by decide) (by omega) (hfields.imp (by omega) fun h => ⟨by omega, ?_⟩)
  refine List.append_left_lt (pad_append_lt (by decide) (by omega) (h.2.imp_right fun h => ⟨h.1, ?_⟩))
  exact List.append_left_lt (pad_lt (by decide) (by omega) h.2)

/-- Different dates of years of up to six digits are written differently. -/
theorem dateText_injOn {d e : Date} (hd : d.IsValid) (he : e.IsValid) (hyear : d.year.natAbs < 1000000)
    (hyear' : e.year.natAbs < 1000000) (h : dateText d = dateText e) : d = e := by
  have hmonth := hd.month_le
  have hmonth' := he.month_le
  have hlength := congrArg List.length h
  rw [length_dateText hd, length_dateText he, Nat.add_right_cancel_iff] at hlength
  obtain ⟨hyears, hrest⟩ := List.append_inj h hlength
  obtain ⟨hmonths, hrest⟩ := List.append_inj (List.append_cancel_left hrest) (by
    rw [length_pad (by decide) (by omega), length_pad (by decide) (by omega)])
  have hdays := List.append_cancel_left hrest
  cases d
  cases e
  rw [Date.mk.injEq]
  exact ⟨yearText_injOn hyear hyear' hyears, pad_injective 2 hmonths, pad_injective 2 hdays⟩

/-! ### Points in time -/

/-- The date of a point in time stands in the calendar. -/
theorem isValid_dateOf (ms : Int) : (dateOf ms).IsValid := isValid_dateOfDay _

/-- The years that the calendar covers have six digits at most. -/
theorem natAbs_year_lt {ms : Int} (h : covers ms = true) : (dateOf ms).year.natAbs < 1000000 := by
  have hbound : ms.natAbs ≤ 8640000000000000 := of_decide_eq_true h
  have hday : -100000000 ≤ ms.fdiv dayLength ∧ ms.fdiv dayLength ≤ 100000000 := by
    rw [Int.fdiv_eq_ediv_of_nonneg ms (by decide : (0 : Int) ≤ dayLength), dayLength]
    omega
  have hfirst : (dateOfDay (-100000000)).year = -271821 := by decide
  have hlast : (dateOfDay 100000000).year = 275760 := by decide
  have hlow := year_dateOfDay_mono hday.1
  have hhigh := year_dateOfDay_mono hday.2
  dsimp only at hlow hhigh
  unfold dateOf
  omega

/-- All but the year of a point in time is written in one width. -/
theorem length_write (colon dot : Text) (ms : Int) : (write colon dot ms).length =
    (yearText (dateOf ms).year).length + (17 + 2 * colon.length + dot.length) := by
  rw [write_eq]
  simp only [List.length_append]
  rw [length_dateText (isValid_dateOf _), length_clockText colon dot (timeOf_lt ms)]
  have hmarks : ("T" : Text).length = 1 ∧ ("Z" : Text).length = 1 := ⟨rfl, rfl⟩
  omega

/-- In the years of four digits, points in time are written in their order. -/
theorem write_lt (colon dot : Text) {a b : Int} (ha : IsShort (dateOf a).year) (hb : IsShort (dateOf b).year)
    (h : a < b) : write colon dot a < write colon dot b := by
  have hsplit := eq_day_add_time a
  have hsplit' := eq_day_add_time b
  have htime := timeOf_lt a
  have htime' := timeOf_lt b
  rw [write_eq, write_eq]
  rcases (show a.fdiv dayLength ≤ b.fdiv dayLength by omega).lt_or_eq with hlt | heq
  · refine Text.append_lt_append ?_ ?_ _ _
    · rw [length_dateText (isValid_dateOf _), length_dateText (isValid_dateOf _),
        yearText_of_isShort ha, yearText_of_isShort hb]
      unfold IsShort at ha hb
      rw [length_pad (by decide) (by omega), length_pad (by decide) (by omega)]
    · exact dateText_lt (isValid_dateOf _) ha hb (key_dateOfDay_strictMono hlt)
  · have hdate : dateOf a = dateOf b := congrArg dateOfDay heq
    rw [hdate]
    refine List.append_left_lt (List.append_left_lt (Text.append_lt_append ?_ ?_ _ _))
    · rw [length_clockText colon dot htime, length_clockText colon dot htime']
    · exact clockText_lt colon dot htime' (by omega)

/-- No two points in time that the calendar covers are written alike. -/
theorem write_injOn (colon dot : Text) {a b : Int} (ha : covers a = true) (hb : covers b = true)
    (h : write colon dot a = write colon dot b) : a = b := by
  have hlength := congrArg List.length h
  rw [length_write, length_write, Nat.add_right_cancel_iff] at hlength
  rw [write_eq, write_eq] at h
  obtain ⟨hdates, hrest⟩ := List.append_inj h (by
    rw [length_dateText (isValid_dateOf _), length_dateText (isValid_dateOf _), hlength])
  have htimes := (List.append_inj (List.append_cancel_left hrest) (by
    rw [length_clockText colon dot (timeOf_lt a), length_clockText colon dot (timeOf_lt b)])).1
  have hdate : dateOf a = dateOf b :=
    dateText_injOn (isValid_dateOf a) (isValid_dateOf b) (natAbs_year_lt ha) (natAbs_year_lt hb) hdates
  have hday := dateOfDay_injective hdate
  have htime := clockText_injOn colon dot (timeOf_lt a) (timeOf_lt b) htimes
  rw [eq_day_add_time a, eq_day_add_time b, hday, htime]

/-! ### The units of a stamp -/

/-- The signs and letters of a stamp that are not its marks. -/
def signs : Text := "+-TZ"

section units

variable {P : CodeUnit → Prop} (hdigit : ∀ c, c.isDigit = true → P c) (hsign : ∀ c ∈ signs, P c)

include hdigit

/-- What holds of digits holds of every unit of a number of fixed width. -/
theorem forall_mem_pad (width n : Nat) : ∀ c ∈ pad width n, P c := fun c hc =>
  hdigit c (List.all_eq_true.mp (all_isDigit_pad width n) c hc)

include hsign

/-- What holds of digits and of signs holds of every unit of a year. -/
theorem forall_mem_yearText (year : Int) : ∀ c ∈ yearText year, P c := by
  by_cases hshort : IsShort year
  · rw [yearText_of_isShort hshort]
    exact forall_mem_pad hdigit 4 _
  · have hsub : Text.ofString (if year < 0 then "-" else "+") ⊆ signs := by
      split_ifs <;> decide
    rw [yearText_of_not_isShort hshort, List.forall_mem_append]
    exact ⟨fun c hc => hsign c (hsub hc), forall_mem_pad hdigit 6 _⟩

/-- A stamp is made of digits, signs, letters and its marks. -/
theorem forall_mem_write {colon dot : Text} (hcolon : ∀ c ∈ colon, P c) (hdot : ∀ c ∈ dot, P c) (ms : Int) :
    ∀ c ∈ write colon dot ms, P c := by
  have hyear := forall_mem_yearText hdigit hsign
  have hpad := forall_mem_pad hdigit
  have hminus : ∀ c ∈ Text.ofString "-", P c := fun c hc =>
    hsign c ((by decide : Text.ofString "-" ⊆ signs) hc)
  have hbefore : ∀ c ∈ Text.ofString "T", P c := fun c hc =>
    hsign c ((by decide : Text.ofString "T" ⊆ signs) hc)
  have hafter : ∀ c ∈ Text.ofString "Z", P c := fun c hc =>
    hsign c ((by decide : Text.ofString "Z" ⊆ signs) hc)
  rw [write_eq, dateText, clockText]
  simp only [List.forall_mem_append]
  exact ⟨⟨hyear _, hminus, hpad _ _, hminus, hpad _ _⟩, hbefore,
    ⟨hpad _ _, hcolon, hpad _ _, hcolon, hpad _ _, hdot, hpad _ _⟩, hafter⟩

end units

/-- Units other than digits, signs and letters can as well be exchanged in what is written. -/
theorem map_write {f : CodeUnit → CodeUnit} (hdigit : ∀ c, c.isDigit = true → f c = c)
    (hsign : ∀ c ∈ signs, f c = c) (colon dot : Text) (ms : Int) :
    (write colon dot ms).map f = write (colon.map f) (dot.map f) ms := by
  have hmap : ∀ t : Text, (∀ c ∈ t, f c = c) → t.map f = t := fun t ht =>
    (List.map_congr_left ht).trans (List.map_id t)
  have hsigns : ∀ t : Text, t ⊆ signs → t.map f = t := fun t ht => hmap t fun c hc => hsign c (ht hc)
  have hpad := fun width n => hmap _ (forall_mem_pad hdigit width n)
  have hyear := fun year => hmap _ (forall_mem_yearText hdigit hsign year)
  simp only [write, List.map_append, hpad, hyear, hsigns "-" (by decide), hsigns "T" (by decide),
    hsigns "Z" (by decide)]

/-- A unit of a stamp as it can stand in the name of a file. -/
def fileUnit (c : CodeUnit) : CodeUnit := if c = CodeUnit.colon ∨ c = CodeUnit.dot then CodeUnit.minus else c

/-- The name of a session is its stamp with minus signs for colons and full stops. -/
theorem map_stamp (ms : Int) : (stamp ms).map fileUnit = write "-" "-" ms := by
  have hcolon : CodeUnit.colon.isDigit = false ∧ CodeUnit.colon ∉ signs := by decide
  have hdot : CodeUnit.dot.isDigit = false ∧ CodeUnit.dot ∉ signs := by decide
  refine map_write (fun c hc => if_neg ?_) (fun c hc => if_neg ?_) ":" "." ms
  · rintro (rfl | rfl)
    · exact absurd hc (by rw [hcolon.1]; decide)
    · exact absurd hc (by rw [hdot.1]; decide)
  · rintro (rfl | rfl)
    · exact hcolon.2 hc
    · exact hdot.2 hc

/-- A session that begins in the covered range is named after its beginning, with dashes for the marks. -/
theorem sessionId_of_covers {ms : Int} (h : covers ms = true) : sessionId ms = .ok (write "-" "-" ms) :=
  if_pos h

end SwiftLens.Calendar
