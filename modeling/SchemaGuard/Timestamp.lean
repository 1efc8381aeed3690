/-
  SchemaGuard — the date-time format.

  A UTC date-time is `YYYY-MM-DDThh:mm:ss`, an optional fraction of seconds and
  an upper-case `Z`. Digits are ASCII, the date is one of the calendar, and there
  are no leap seconds.
-/
import SchemaGuard.Calendar

namespace SchemaGuard.Timestamp

/-- The number written by ASCII digits. -/
def number (digits : List Char) : Nat := digits.foldl (fun n c => 10 * n + (c.toNat - 48)) 0

/-- What may follow the seconds: `Z`, or a point, digits and `Z`. -/
def isEnding : List Char → Bool
  | ['Z'] => true
  | '.' :: cs => !(cs.takeWhile Char.isDigit).isEmpty && cs.dropWhile Char.isDigit == ['Z']
  | _ => false

/-- The moment of a UTC date-time up to seconds, if the text has that form. -/
def fields? : List Char → Option Moment
  | y₁ :: y₂ :: y₃ :: y₄ :: '-' :: m₁ :: m₂ :: '-' :: d₁ :: d₂ :: 'T' ::
      h₁ :: h₂ :: ':' :: n₁ :: n₂ :: ':' :: s₁ :: s₂ :: ending =>
    if [y₁, y₂, y₃, y₄, m₁, m₂, d₁, d₂, h₁, h₂, n₁, n₂, s₁, s₂].all Char.isDigit && isEnding ending then
      some ⟨⟨number [y₁, y₂, y₃, y₄], number [m₁, m₂], number [d₁, d₂]⟩,
        number [h₁, h₂], number [n₁, n₂], number [s₁, s₂], 0, some 0⟩
    else none
  | _ => none

/-- Whether a text is a UTC date-time of the calendar. -/
def isDateTime (text : String) : Bool :=
  match fields? text.toList with
  | some m => decide m.IsValid
  | none => false

end SchemaGuard.Timestamp
