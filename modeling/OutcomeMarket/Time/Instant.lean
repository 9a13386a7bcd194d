import OutcomeMarket.Time.Calendar
import OutcomeMarket.Time.Duration

/-! Points in time to the nanosecond, within the years -262143 to 262142. A leap second is the
second before it with a nanosecond count of a full second or more; order is by second, then by
nanosecond. -/
namespace OutcomeMarket

namespace Instant

/-- The first second of the year -262143. -/
abbrev firstSecond : Int := -8334601228800

/-- The last second of the year 262142. -/
abbrev lastSecond : Int := 8210266876799

/-- Nanoseconds in a second. -/
abbrev perSecond : Nat := 1000000000

end Instant

/-- Seconds since 1970-01-01 and nanoseconds into the second. -/
structure Instant where
  seconds : Int
  nanos : Nat
  nanos_lt : nanos < 2 * Instant.perSecond
  first_le : Instant.firstSecond ≤ seconds
  le_last : seconds ≤ Instant.lastSecond
  deriving DecidableEq, Repr

namespace Instant

/-- The instant with these parts, if the calendar has it. -/
def ofParts? (seconds : Int) (nanos : Nat) : Option Instant :=
  if h : nanos < 2 * perSecond ∧ firstSecond ≤ seconds ∧ seconds ≤ lastSecond then
    some ⟨seconds, nanos, h.1, h.2.1, h.2.2⟩
  else none

/-- Midnight of 1970-01-01. -/
def epoch : Instant := ⟨0, 0, by decide, by decide, by decide⟩

instance : Inhabited Instant := ⟨epoch⟩

/-- The instant so many milliseconds after the epoch. -/
def ofMillis? (ms : Int) : Option Instant := ofParts? (ms / 1000) ((ms % 1000).toNat * 1000000)

instance : LT Instant :=
  ⟨fun a b => a.seconds < b.seconds ∨ (a.seconds = b.seconds ∧ a.nanos < b.nanos)⟩

instance (a b : Instant) : Decidable (a < b) :=
  inferInstanceAs (Decidable (a.seconds < b.seconds ∨ (a.seconds = b.seconds ∧ a.nanos < b.nanos)))

instance : LE Instant := ⟨fun a b => ¬ b < a⟩

instance (a b : Instant) : Decidable (a ≤ b) := inferInstanceAs (Decidable (¬ b < a))

theorem le_iff {a b : Instant} :
    a ≤ b ↔ a.seconds < b.seconds ∨ (a.seconds = b.seconds ∧ a.nanos ≤ b.nanos) := by
  change ¬ (_ ∨ _) ↔ _
  omega

/-- The instant a span later. A leap second has no second of its own on the line of seconds: what
leaves it forwards goes on from the second that follows. -/
def add? (t : Instant) (d : Duration) : Option Instant :=
  let n := t.nanos + d.nanos
  if t.nanos < perSecond ∨ n < perSecond then
    ofParts? (t.seconds + n / perSecond) (n % perSecond).toNat
  else if n < 2 * perSecond then ofParts? t.seconds n.toNat
  else ofParts? (t.seconds + (n - perSecond) / perSecond) (n % perSecond).toNat

/-- Nanoseconds since the epoch. -/
def line (t : Instant) : Int := t.seconds * perSecond + t.nanos

theorem line_ofParts? {s : Int} {n : Nat} {t : Instant} (h : ofParts? s n = some t) :
    t.line = s * perSecond + n := by
  unfold ofParts? at h
  split at h
  · cases h
    rfl
  · cases h

/-- Outside leap seconds a span moves an instant by its length. -/
theorem line_add? {t u : Instant} {d : Duration} (ht : t.nanos < perSecond)
    (h : t.add? d = some u) : u.line = t.line + d.nanos := by
  have hu := line_ofParts? (by simpa [add?, ht] using h)
  rw [hu]
  simp only [line, perSecond] at *
  omega

end Instant
end OutcomeMarket
