/-!
# Ages and times of day

A rule is evaluated as the child or as the adult, and at no particular time or
at some of the two times of day that regions can provide.

## Main definitions

* `Age` — child and adult.
* `AgeScope` — the ages that a question is asked for.
* `TimeOfDay` — a set of times of day.
-/

namespace Progression

/-- The age as which the worlds are explored. -/
inductive Age where
  | child
  | adult
  deriving DecidableEq, Inhabited

/-- The name of an age, as rules write it. -/
def Age.name : Age → String
  | .child => "child"
  | .adult => "adult"

/-- The ages that a question about what can be reached is asked for. -/
inductive AgeScope where
  | child
  | adult
  | both
  | either
  deriving DecidableEq, Inhabited

/-- A set of times of day: the day proper and the hours of the gravekeeper,
which stand for the night. -/
structure TimeOfDay where
  day : Bool
  night : Bool
  deriving DecidableEq, Inhabited

namespace TimeOfDay

/-- No time. -/
def none : TimeOfDay := ⟨false, false⟩

/-- By day. -/
def atDay : TimeOfDay := ⟨true, false⟩

/-- By night. -/
def atNight : TimeOfDay := ⟨false, true⟩

/-- Whether a set of times is empty. -/
def isNone (t : TimeOfDay) : Bool := !t.day && !t.night

/-- The times in one set or the other. -/
def union (s t : TimeOfDay) : TimeOfDay := ⟨s.day || t.day, s.night || t.night⟩

/-- Whether two sets have a time in common. -/
def meets (s t : TimeOfDay) : Bool := s.day && t.day || s.night && t.night

/-- Whether every time of `t` is in `s`. -/
def contains (s t : TimeOfDay) : Bool := (s.day || !t.day) && (s.night || !t.night)

@[simp] theorem union_none (s : TimeOfDay) : s.union none = s := by simp [union, none]

@[simp] theorem none_union (s : TimeOfDay) : none.union s = s := by simp [union, none]

@[simp] theorem contains_union_right (s t : TimeOfDay) : (s.union t).contains t = true := by
  rcases s with ⟨_ | _, _ | _⟩ <;> rcases t with ⟨_ | _, _ | _⟩ <;> rfl

end TimeOfDay

end Progression
