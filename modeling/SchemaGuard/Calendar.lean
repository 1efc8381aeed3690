/-
  SchemaGuard — calendar dates and moments.

  Dates are Gregorian, in the years 1 to 9999 (`Date.IsValid`). A `Moment` adds
  a time of day to the microsecond and, optionally, a distance from UTC.
-/

namespace SchemaGuard

/-- A calendar date. -/
structure Date where
  year : Nat
  month : Nat
  day : Nat
deriving DecidableEq, Repr, Inhabited

/-- A date with a time of day; `zone` is the distance from UTC in minutes. -/
structure Moment where
  date : Date
  hour : Nat
  minute : Nat
  second : Nat
  micros : Nat
  zone : Option Int
deriving DecidableEq, Repr, Inhabited

/-! ## The calendar -/

/-- Every fourth year is a leap year, but of the full centuries only every fourth. -/
def isLeapYear (year : Nat) : Bool := year % 4 == 0 && (year % 100 != 0 || year % 400 == 0)

/-- The number of days of a month; no days in a month that does not exist. -/
def daysInMonth (year : Nat) : Nat → Nat
  | 1 | 3 | 5 | 7 | 8 | 10 | 12 => 31
  | 4 | 6 | 9 | 11 => 30
  | 2 => if isLeapYear year then 29 else 28
  | _ => 0

/-- A date of the Gregorian calendar in the years 1 to 9999. -/
def Date.IsValid (d : Date) : Prop :=
  1 ≤ d.year ∧ d.year ≤ 9999 ∧ 1 ≤ d.day ∧ d.day ≤ daysInMonth d.year d.month

instance (d : Date) : Decidable d.IsValid := by unfold Date.IsValid; infer_instance

/-- A valid date, and a time of day without leap seconds, less than a day away from UTC. -/
def Moment.IsValid (m : Moment) : Prop :=
  m.date.IsValid ∧ m.hour < 24 ∧ m.minute < 60 ∧ m.second < 60 ∧ m.micros < 1000000 ∧
    ∀ z ∈ m.zone, -1440 < z ∧ z < 1440

instance (m : Moment) : Decidable m.IsValid := by unfold Moment.IsValid; infer_instance

/-- The month of a valid date exists. -/
theorem Date.IsValid.month_le {d : Date} (h : d.IsValid) : 1 ≤ d.month ∧ d.month ≤ 12 := by
  obtain ⟨_, _, h1, h2⟩ := h
  have h0 : daysInMonth d.year d.month ≠ 0 := by omega
  unfold daysInMonth at h0
  split at h0 <;> simp_all

/-! ## Texts -/

/-- A number in at least `width` digits, filled with zeros. -/
def padded (width n : Nat) : String :=
  let digits := toString n
  String.ofList (List.replicate (width - digits.length) '0') ++ digits

/-- `2024-01-31`. -/
def Date.text (d : Date) : String :=
  padded 4 d.year ++ "-" ++ padded 2 d.month ++ "-" ++ padded 2 d.day

/-- `2024-01-31 23:59:00+01:00`, with microseconds only if there are any. -/
def Moment.text (m : Moment) : String :=
  let time := padded 2 m.hour ++ ":" ++ padded 2 m.minute ++ ":" ++ padded 2 m.second
  let fraction := if m.micros = 0 then "" else "." ++ padded 6 m.micros
  let zone := match m.zone with
    | none => ""
    | some z =>
      (if z < 0 then "-" else "+") ++ padded 2 (z.natAbs / 60) ++ ":" ++ padded 2 (z.natAbs % 60)
  m.date.text ++ " " ++ time ++ fraction ++ zone

/-- The constructor form of a date that nested texts show. -/
def Date.quoted (d : Date) : String :=
  "datetime.date(" ++ ", ".intercalate (([d.year, d.month, d.day]).map toString) ++ ")"

/-- The constructor form of a distance from UTC; a negative one counts from the day before. -/
def zoneQuoted (minutes : Int) : String :=
  if minutes = 0 then "datetime.timezone.utc"
  else if 0 < minutes then
    "datetime.timezone(datetime.timedelta(seconds=" ++ toString (minutes * 60) ++ "))"
  else
    "datetime.timezone(datetime.timedelta(days=-1, seconds=" ++
      toString ((1440 + minutes) * 60) ++ "))"

/-- The constructor form of a moment: seconds and microseconds are left out
    while they and everything smaller are zero. -/
def Moment.quoted (m : Moment) : String :=
  let small :=
    if m.micros ≠ 0 then [m.second, m.micros] else if m.second ≠ 0 then [m.second] else []
  let parts := [m.date.year, m.date.month, m.date.day, m.hour, m.minute] ++ small
  let zone := match m.zone with
    | none => ""
    | some z => ", tzinfo=" ++ zoneQuoted z
  "datetime.datetime(" ++ ", ".intercalate (parts.map toString) ++ zone ++ ")"

end SchemaGuard
