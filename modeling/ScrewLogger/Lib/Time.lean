/-
Clock readings, as Go's `time.Time`: nanoseconds since the Unix epoch whose
whole seconds fit a 64-bit integer.
-/
import Mathlib.Data.Int.Init

namespace Lib

structure Time where
  nanos : Int
  lower : -0x8000000000000000 ≤ nanos / 1000000000
  upper : nanos / 1000000000 < 0x8000000000000000

namespace Time

/-- Nanoseconds in a second. -/
abbrev second : Int := 1000000000

def epoch : Time := ⟨0, by decide, by decide⟩

/-- The zero `time.Time`, in nanoseconds: the year 1. -/
def zero : Int := -62135596800 * second

/-- `t.Unix()`: the whole seconds. -/
def unix (t : Time) : Int64 := .ofInt (t.nanos / second)

/-- `t.Sub(u)`, a duration in nanoseconds that saturates at 64 bits. -/
def sub (t u : Time) : Int :=
  let d := t.nanos - u.nanos
  if d < -0x8000000000000000 then -0x8000000000000000 else if 0x8000000000000000 ≤ d then 0x8000000000000000 - 1 else d

@[simp] theorem toInt_unix (t : Time) : t.unix.toInt = t.nanos / second := by
  rw [unix, Int64.toInt_ofInt]
  have := t.lower
  have := t.upper
  unfold second
  exact Int.bmod_eq_of_le (by simp only [Int64.size]; omega) (by simp only [Int64.size]; omega)

/-- Saturation does not show in a comparison with a duration short of it. -/
theorem le_sub {t u : Time} {d : Int} (h₁ : -0x8000000000000000 < d) (h₂ : d < 0x8000000000000000) :
    d ≤ t.sub u ↔ d ≤ t.nanos - u.nanos := by
  simp only [sub]
  split
  · omega
  split <;> omega

end Time
end Lib
