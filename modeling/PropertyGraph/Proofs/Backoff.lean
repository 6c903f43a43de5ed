import Mathlib.Algebra.Group.Nat.Defs
import PropertyGraph.Batch.Retry

/-!
# Waits double up to a cap

A wait is the first one doubled once for each retry before it, and at most the cap. It is computed in words: the factor
stops at the largest unsigned 32-bit integer, and a span of time is whole seconds and the nanoseconds beyond them,
whose product with the factor is checked (`TimeSpan.times?`). That computation comes to the milliseconds of
`RetryPolicy.delay`, and nothing in it overflows unchecked (`RetryPolicy.toNanos_wait`). A factor that has stopped is
no power of two, and a product that does not fit gives way to the cap; neither can be seen as long as a factor of 32
bits reaches the cap (`RetryPolicy.delay_is_capped_doubling`).
-/

namespace PropertyGraph

/-! ## Spans of time in words -/

/-- A product of words, where it fits a word. -/
def wordProduct? (a b : UInt64) : Option UInt64 := if a.toNat * b.toNat < 2 ^ 64 then some (a * b) else none

/-- A sum of words, where it fits a word. -/
def wordSum? (a b : UInt64) : Option UInt64 := if a.toNat + b.toNat < 2 ^ 64 then some (a + b) else none

/-- A power of two, where it fits 32 bits, and the largest integer of 32 bits otherwise. -/
def saturatedPower (exponent : UInt32) : UInt32 :=
  if 2 ^ exponent.toNat < 2 ^ 32 then UInt32.ofNat (2 ^ exponent.toNat) else 0xFFFFFFFF

/-- A length of time: whole seconds, and the nanoseconds beyond them. -/
structure TimeSpan where
  seconds : UInt64
  nanos : UInt32
  /-- The nanoseconds make up less than a second. -/
  nanos_lt : nanos.toNat < 1000000000

namespace TimeSpan

/-- A span in nanoseconds. -/
def toNanos (s : TimeSpan) : Nat := s.seconds.toNat * 1000000000 + s.nanos.toNat

/-- The nanoseconds of the milliseconds beyond a whole number of seconds fit 32 bits. -/
theorem toNat_nanosOfMillis (millis : UInt64) :
    ((millis % 1000).toUInt32 * 1000000).toNat = millis.toNat % 1000 * 1000000 := by
  have hmod : millis.toNat % 1000 < 1000 := Nat.mod_lt _ (by decide)
  have hword : (millis % 1000).toUInt32.toNat = millis.toNat % 1000 := by
    rw [UInt64.toNat_toUInt32, UInt64.toNat_mod]
    exact Nat.mod_eq_of_lt (Nat.lt_trans hmod (by decide))
  rw [UInt32.toNat_mul, hword]
  refine Nat.mod_eq_of_lt ?_
  show millis.toNat % 1000 * 1000000 < 2 ^ 32
  omega

/-- The span of a number of milliseconds. -/
def ofMillis (millis : UInt64) : TimeSpan where
  seconds := millis / 1000
  nanos := (millis % 1000).toUInt32 * 1000000
  nanos_lt := by
    rw [toNat_nanosOfMillis]
    omega

/-- A remainder of a division by a billion fits 32 bits. -/
theorem toNat_nanosBeyond (nanos : UInt64) : (nanos % 1000000000).toUInt32.toNat = nanos.toNat % 1000000000 := by
  have hmod : nanos.toNat % 1000000000 < 1000000000 := Nat.mod_lt _ (by decide)
  rw [UInt64.toNat_toUInt32, UInt64.toNat_mod]
  exact Nat.mod_eq_of_lt (Nat.lt_trans hmod (by decide))

/-- A span that is so many times as long, where its seconds fit a word. -/
def times? (s : TimeSpan) (factor : UInt32) : Option TimeSpan :=
  let nanos := s.nanos.toUInt64 * factor.toUInt64
  (wordProduct? s.seconds factor.toUInt64).bind fun seconds =>
    (wordSum? seconds (nanos / 1000000000)).map fun whole =>
      ⟨whole, (nanos % 1000000000).toUInt32, by
        rw [toNat_nanosBeyond]
        exact Nat.mod_lt _ (by decide)⟩

/-- The shorter one of two spans. -/
def shorter (a b : TimeSpan) : TimeSpan := if b.toNanos < a.toNanos then b else a

/-- A number of milliseconds in nanoseconds. -/
theorem toNanos_ofMillis (millis : UInt64) : (ofMillis millis).toNanos = millis.toNat * 1000000 := by
  rw [toNanos, ofMillis]
  dsimp only
  rw [toNat_nanosOfMillis, UInt64.toNat_div]
  show millis.toNat / 1000 * 1000000000 + millis.toNat % 1000 * 1000000 = millis.toNat * 1000000
  omega

theorem toNanos_shorter (a b : TimeSpan) : (a.shorter b).toNanos = min a.toNanos b.toNanos := by
  unfold shorter
  split <;> omega

/-- A product in nanoseconds: there is one where the seconds of the product fit a word, which are those of the seconds
and those that the nanoseconds carry. The product of the nanoseconds alone always fits. -/
theorem map_toNanos_times? (s : TimeSpan) (factor : UInt32) :
    (s.times? factor).map toNanos =
      if s.toNanos * factor.toNat / 1000000000 < 2 ^ 64 then some (s.toNanos * factor.toNat) else none := by
  have hfactor : factor.toUInt64.toNat = factor.toNat := UInt32.toNat_toUInt64 factor
  have hnanos : (s.nanos.toUInt64 * factor.toUInt64).toNat = s.nanos.toNat * factor.toNat := by
    rw [UInt64.toNat_mul, UInt32.toNat_toUInt64, hfactor]
    refine Nat.mod_eq_of_lt ?_
    calc s.nanos.toNat * factor.toNat
      _ ≤ 1000000000 * 2 ^ 32 := Nat.mul_le_mul (Nat.le_of_lt s.nanos_lt) (Nat.le_of_lt factor.toNat_lt)
      _ < 2 ^ 64 := by decide
  have hcarried : (s.nanos.toUInt64 * factor.toUInt64 / 1000000000).toNat =
      s.nanos.toNat * factor.toNat / 1000000000 := by
    rw [UInt64.toNat_div, hnanos]
    rfl
  have hwhole : s.toNanos * factor.toNat / 1000000000 =
      s.seconds.toNat * factor.toNat + s.nanos.toNat * factor.toNat / 1000000000 := by
    rw [toNanos, Nat.add_mul, Nat.mul_right_comm, Nat.mul_comm _ 1000000000, Nat.mul_add_div (by decide)]
  unfold times? wordProduct?
  rw [hwhole, hfactor]
  by_cases hproduct : s.seconds.toNat * factor.toNat < 2 ^ 64
  · have hseconds : (s.seconds * factor.toUInt64).toNat = s.seconds.toNat * factor.toNat := by
      rw [UInt64.toNat_mul, hfactor]
      exact Nat.mod_eq_of_lt hproduct
    rw [if_pos hproduct, Option.bind_some, wordSum?, hseconds, hcarried]
    by_cases hsum : s.seconds.toNat * factor.toNat + s.nanos.toNat * factor.toNat / 1000000000 < 2 ^ 64
    · rw [if_pos hsum, if_pos hsum, Option.map_some, Option.map_some, toNanos]
      dsimp only
      rw [toNat_nanosBeyond, UInt64.toNat_add, hseconds, hcarried, hnanos, Nat.mod_eq_of_lt hsum, toNanos, Nat.add_mul,
        Nat.add_mul, Nat.add_assoc, Nat.mul_comm (_ / _), Nat.div_add_mod, Nat.mul_right_comm]
    · rw [if_neg hsum, if_neg hsum]
      rfl
  · rw [if_neg hproduct, if_neg (fun hsum => hproduct (Nat.lt_of_le_of_lt (Nat.le_add_right _ _) hsum))]
    rfl

end TimeSpan

/-! ## The factor -/

namespace RetryPolicy

/-- The factor is the power of two, or the largest integer of 32 bits where that is smaller. -/
theorem factor_eq_min (attempt : Nat) : factor attempt = min (2 ^ attempt) (2 ^ 32 - 1) := by
  unfold factor
  split
  next h =>
    have hpower : 2 ^ attempt ≤ 2 ^ 31 := Nat.pow_le_pow_right (by decide) (by omega)
    exact (Nat.min_eq_left (Nat.le_trans hpower (by decide))).symm
  next h =>
    have hpower : 2 ^ 32 ≤ 2 ^ attempt := Nat.pow_le_pow_right (by decide) (by omega)
    exact (Nat.min_eq_right (Nat.le_trans (by decide) hpower)).symm

theorem toNat_saturatedPower (attempt : UInt32) : (saturatedPower attempt).toNat = factor attempt.toNat := by
  rw [factor_eq_min, saturatedPower]
  split
  next h =>
    rw [UInt32.toNat_ofNat_of_lt' h]
    omega
  next h =>
    show 2 ^ 32 - 1 = _
    omega

theorem one_le_factor (attempt : Nat) : 1 ≤ factor attempt := by
  have hpower : 1 ≤ 2 ^ attempt := Nat.one_le_two_pow
  rw [factor_eq_min]
  omega

theorem factor_mono {attempt later : Nat} (h : attempt ≤ later) : factor attempt ≤ factor later := by
  have hpower : 2 ^ attempt ≤ 2 ^ later := Nat.pow_le_pow_right (by decide) h
  rw [factor_eq_min, factor_eq_min]
  omega

/-! ## The wait -/

variable {p : RetryPolicy}

/-- The wait before a retry as it is computed in words. -/
def wait (p : RetryPolicy) (attempt : UInt32) : TimeSpan :=
  let cap := TimeSpan.ofMillis (UInt64.ofNat p.cap)
  (((TimeSpan.ofMillis (UInt64.ofNat p.first)).times? (saturatedPower attempt)).getD cap).shorter cap

/-- Where the cap fits a word, the wait is the product with the factor, cut at the cap: a product that does not fit is
above the cap. -/
theorem delay_eq_min (hcap : p.cap < 2 ^ 64) (attempt : Nat) :
    p.delay attempt = min (p.first * factor attempt) p.cap := by
  unfold delay
  dsimp only
  split
  · rfl
  next h => omega

/-- The computation in words comes to the wait in milliseconds. -/
theorem toNanos_wait (hfirst : p.first < 2 ^ 64) (hcap : p.cap < 2 ^ 64) (attempt : UInt32) :
    (p.wait attempt).toNanos = p.delay attempt.toNat * 1000000 := by
  have hcapNanos : (TimeSpan.ofMillis (UInt64.ofNat p.cap)).toNanos = p.cap * 1000000 := by
    rw [TimeSpan.toNanos_ofMillis, UInt64.toNat_ofNat_of_lt' hcap]
  have hproduct := (TimeSpan.ofMillis (UInt64.ofNat p.first)).map_toNanos_times? (saturatedPower attempt)
  rw [TimeSpan.toNanos_ofMillis, UInt64.toNat_ofNat_of_lt' hfirst, toNat_saturatedPower, Nat.mul_right_comm] at hproduct
  have hseconds : p.first * factor attempt.toNat * 1000000 / 1000000000 = p.first * factor attempt.toNat / 1000 :=
    Nat.mul_div_mul_right _ 1000 (by decide)
  rw [hseconds] at hproduct
  rw [wait, TimeSpan.toNanos_shorter, hcapNanos, delay_eq_min hcap]
  by_cases hfits : p.first * factor attempt.toNat / 1000 < 2 ^ 64
  · rw [if_pos hfits] at hproduct
    obtain ⟨product, htimes, hnanos⟩ := Option.map_eq_some_iff.mp hproduct
    rw [htimes, Option.getD_some, hnanos, Nat.mul_min_mul_right]
  · rw [if_neg hfits] at hproduct
    have hbeyond : p.cap ≤ p.first * factor attempt.toNat := by omega
    rw [Option.map_eq_none_iff.mp hproduct, Option.getD_none, hcapNanos, Nat.min_self, Nat.min_eq_right hbeyond]

/-- Waits double up to a cap. Where the first wait is at most the cap, and the cap fits a word of 64 bits:
1. The computation in words comes to the wait, whatever the attempt is.
2. The wait is at least the first one and at most the cap.
3. It does not become shorter with more attempts.
4. It is the first wait times a power of two, cut at the cap, up to attempt 31, and for every attempt where a factor of
   32 bits reaches the cap.
5. Elsewhere it is the first wait times the largest integer of 32 bits, which is below the cap. -/
theorem delay_is_capped_doubling (hfirst : p.first ≤ p.cap) (hcap : p.cap < 2 ^ 64) :
    (∀ attempt : UInt32, (p.wait attempt).toNanos = p.delay attempt.toNat * 1000000) ∧
    (∀ attempt, p.first ≤ p.delay attempt ∧ p.delay attempt ≤ p.cap) ∧
    (∀ attempt later, attempt ≤ later → p.delay attempt ≤ p.delay later) ∧
    (∀ attempt, attempt ≤ 31 ∨ p.cap ≤ p.first * (2 ^ 32 - 1) → p.delay attempt = min (p.first * 2 ^ attempt) p.cap) ∧
    (∀ attempt, 31 < attempt → p.first * (2 ^ 32 - 1) < p.cap → p.delay attempt = p.first * (2 ^ 32 - 1)) := by
  refine ⟨toNanos_wait (Nat.lt_of_le_of_lt hfirst hcap) hcap,
    fun attempt => ?_, fun attempt later h => ?_, fun attempt h => ?_,
    fun attempt h hbelow => ?_⟩
  · rw [delay_eq_min hcap]
    exact ⟨Nat.le_min.mpr ⟨Nat.le_mul_of_pos_right _ (one_le_factor attempt), hfirst⟩, Nat.min_le_right _ _⟩
  · have hproduct : p.first * factor attempt ≤ p.first * factor later := Nat.mul_le_mul_left _ (factor_mono h)
    rw [delay_eq_min hcap, delay_eq_min hcap]
    omega
  · rw [delay_eq_min hcap, factor_eq_min]
    rcases Nat.le_total (2 ^ attempt) (2 ^ 32 - 1) with hpower | hpower
    · rw [Nat.min_eq_left hpower]
    · have hreached : p.cap ≤ p.first * (2 ^ 32 - 1) := by
        refine h.resolve_left fun hfew => ?_
        have hsmall : 2 ^ attempt ≤ 2 ^ 31 := Nat.pow_le_pow_right (by decide) hfew
        omega
      have hbeyond : p.first * (2 ^ 32 - 1) ≤ p.first * 2 ^ attempt := Nat.mul_le_mul_left _ hpower
      rw [Nat.min_eq_right hpower]
      omega
  · have hpower : 2 ^ 32 ≤ 2 ^ attempt := Nat.pow_le_pow_right (by decide) h
    have hstopped : min (2 ^ attempt) (2 ^ 32 - 1) = 2 ^ 32 - 1 := Nat.min_eq_right (by omega)
    rw [delay_eq_min hcap, factor_eq_min, hstopped, Nat.min_eq_left (Nat.le_of_lt hbelow)]

end RetryPolicy

namespace Sample

/-- A policy that waits fifty milliseconds first and two seconds at most. -/
def patient : RetryPolicy := ⟨5, 50, 2000⟩

/-- A policy whose cap no factor of 32 bits reaches. -/
def tireless : RetryPolicy := ⟨5, 50, 2 ^ 63⟩

/-- The one doubles its wait until it meets the cap, and then stays there; of the other one it can be seen that the
factor stops. -/
theorem patient_and_tireless_wait :
    (patient.first ≤ patient.cap ∧ patient.cap < 2 ^ 64 ∧ patient.delay 3 = 400 ∧ patient.delay 32 = 2000 ∧
      patient.delay (2 ^ 32 - 1) ≤ 2000) ∧
    (tireless.first ≤ tireless.cap ∧ tireless.cap < 2 ^ 64 ∧ tireless.delay 31 = 50 * 2 ^ 31 ∧
      tireless.delay 32 = 50 * (2 ^ 32 - 1) ∧ (tireless.wait 32).toNanos = 50 * (2 ^ 32 - 1) * 1000000) := by
  have hpatient : patient.first ≤ patient.cap ∧ patient.cap < 2 ^ 64 := by decide
  have htireless : tireless.first ≤ tireless.cap ∧ tireless.cap < 2 ^ 64 := by decide
  obtain ⟨-, hbounds, -, hcapped, -⟩ := RetryPolicy.delay_is_capped_doubling hpatient.1 hpatient.2
  obtain ⟨hwords, -, -, hdoubled, hstopped⟩ := RetryPolicy.delay_is_capped_doubling htireless.1 htireless.2
  have hseen : tireless.delay 32 = 50 * (2 ^ 32 - 1) := hstopped 32 (by decide) (by decide)
  have hdoubles : patient.delay 3 = 400 := (hcapped 3 (Or.inl (by decide))).trans (by decide)
  have hmeets : patient.delay 32 = 2000 := (hcapped 32 (Or.inr (by decide))).trans (by decide)
  have hlong : tireless.delay 31 = 50 * 2 ^ 31 := (hdoubled 31 (Or.inl (by decide))).trans (by decide)
  refine ⟨⟨hpatient.1, hpatient.2, hdoubles, hmeets, (hbounds _).2⟩, htireless.1, htireless.2, hlong, hseen, ?_⟩
  have hnanos := hwords 32
  rw [show (32 : UInt32).toNat = 32 from rfl, hseen] at hnanos
  exact hnanos

end Sample

end PropertyGraph
