import RelDoc.Proofs.RoundTrip

/-!
# How exact the wire is

With the codec that keeps every type, a scalar comes back from the wire as it went there, but for the part of an
instant below a millisecond, and scalars of different types never meet (`Codec.exact_comesBack`). An instant in a leap
second comes back as one of the second that follows it.

The other way round, a wire value that decodes is encoded to itself with one exception: instants have a narrower
range than dates, and a date outside of it decodes to the nearest instant, so that the end of the range is written
in its place (`Codec.encode_decode_exact`).
-/

namespace RelDoc

namespace Instant

/-- Nanoseconds since the epoch. Those of a leap second are the ones of the second that follows it. -/
def toNanos (t : Instant) : Int := t.seconds * 1000000000 + t.nanos

theorem isLeap_eq_false_iff {t : Instant} : t.isLeap = false ↔ t.nanos < 1000000000 := by
  simp [isLeap]

theorem isLeap_inMillis (t : Instant) : t.inMillis.isLeap = false := by
  have hnanos := t.nanos_lt
  rw [isLeap_eq_false_iff]
  unfold inMillis
  split
  · dsimp only
    omega
  · split
    · dsimp only
      omega
    · decide

/-- On a clock of whole milliseconds an instant is rounded down, before the epoch too. -/
theorem toNanos_inMillis {t : Instant} (h : t.isLeap = false) :
    t.inMillis.toNanos = t.toNanos / 1000000 * 1000000 := by
  rw [inMillis, if_pos (isLeap_eq_false_iff.1 h)]
  dsimp only [toNanos]
  omega

theorem toNanos_inMillis_leap {t : Instant} (h : t.isLeap = true) :
    t.inMillis.toNanos = min (t.toNanos / 1000000 * 1000000) latest.toNanos := by
  have hlatest : latest.toNanos = 8210266876799999999999 := rfl
  have hhigh := t.le_latest
  have hnanos := t.nanos_lt
  have hleap : ¬ t.nanos < 1000000000 := by simpa [isLeap] using h
  rw [inMillis, if_neg hleap, hlatest]
  split
  · dsimp only [toNanos]
    omega
  · rw [hlatest]
    unfold toNanos
    omega

theorem toMillis_earliest : earliest.toMillis = -8334601228800000 := rfl

theorem toMillis_latest : latest.toMillis = 8210266876799999 := rfl

theorem toMillis_inMillis {t : Instant} (h : t.isLeap = false) : t.inMillis.toMillis = t.toMillis := by
  rw [inMillis, if_pos (isLeap_eq_false_iff.1 h)]
  dsimp only [toMillis]
  omega

/-- Milliseconds never stand for a leap second. -/
theorem isLeap_ofMillis (millis : Int) : (ofMillis millis).isLeap = false := by
  rw [isLeap_eq_false_iff]
  unfold ofMillis
  split
  · decide
  · split
    · decide
    · dsimp only
      omega

/-- What lies beyond the range comes to the nearest end of it. -/
theorem toMillis_ofMillis (millis : Int) :
    (ofMillis millis).toMillis = max earliest.toMillis (min millis latest.toMillis) := by
  rw [toMillis_earliest, toMillis_latest]
  unfold ofMillis
  split
  · rw [toMillis_earliest]
    omega
  · split
    · rw [toMillis_latest]
      omega
    · unfold toMillis
      dsimp only
      omega

end Instant

namespace Scalar

/-- Is the scalar an instant in a leap second? -/
def isLeap : Scalar → Bool
  | instant t => t.isLeap
  | _ => false

/-- What a scalar is when it comes back from the wire: an instant at the last whole millisecond that is not after it,
and any other scalar itself. The wire has no leap seconds. An instant in one is rounded down as well, but it comes back
in the second that follows, or as the latest instant if nothing follows. -/
inductive ComesBackAs : Scalar → Scalar → Prop
  | instant {t u : Instant} (regular : t.isLeap = false) (back : u.isLeap = false)
    (floor : u.toNanos = t.toNanos / 1000000 * 1000000) : ComesBackAs (.instant t) (.instant u)
  | leap {t u : Instant} (leap : t.isLeap = true) (back : u.isLeap = false)
    (floor : u.toNanos = min (t.toNanos / 1000000 * 1000000) Instant.latest.toNanos) :
    ComesBackAs (.instant t) (.instant u)
  | same {v : Scalar} (other : ∀ t, v ≠ .instant t) : ComesBackAs v v

theorem comesBackAs_inMillis (v : Scalar) : v.ComesBackAs v.inMillis := by
  cases v with
  | instant t =>
    cases h : t.isLeap with
    | false => exact .instant h t.isLeap_inMillis (Instant.toNanos_inMillis h)
    | true => exact .leap h t.isLeap_inMillis (Instant.toNanos_inMillis_leap h)
  | _ => exact .same (by simp)

theorem typeName_inMillis (v : Scalar) : v.inMillis.typeName = v.typeName := by cases v <;> rfl

end Scalar

namespace Value

/-- The value itself, but for a date beyond the instants: the nearest end of their range. -/
def clamped : Value → Value
  | dateTime millis =>
    dateTime (Int64.ofInt (max Instant.earliest.toMillis (min millis.toInt Instant.latest.toMillis)))
  | v => v

/-- Does a date lie in the range of instants? Other values are not restricted. -/
def isInRange : Value → Bool
  | dateTime millis => Instant.earliest.toMillis ≤ millis.toInt && millis.toInt ≤ Instant.latest.toMillis
  | _ => true

theorem clamped_eq_self_iff (w : Value) : w.clamped = w ↔ w.isInRange = true := by
  cases w with
  | dateTime millis =>
    have hrange := (Instant.ofMillis millis.toInt).toMillis_range
    rw [Instant.toMillis_ofMillis] at hrange
    rw [clamped, isInRange, dateTime.injEq, ← Int64.toInt_inj, Int64.toInt_ofInt_of_le (by omega) (by omega),
      Bool.and_eq_true, decide_eq_true_eq, decide_eq_true_eq, Instant.toMillis_earliest, Instant.toMillis_latest]
    omega
  | _ => exact iff_of_true rfl rfl

end Value

namespace Codec

theorem isScalar_toWire (v : Scalar) : (toWire v).isScalar = true := by cases v <;> rfl

theorem toWire_inMillis {v : Scalar} (h : v.isLeap = false) : toWire v.inMillis = toWire v := by
  cases v with
  | instant t => rw [Scalar.inMillis, toWire, toWire, Instant.toMillis_inMillis h]
  | _ => rfl

theorem isLeap_of_ofWire {w : Value} {v : Scalar} (h : ofWire w = .ok v) : v.isLeap = false := by
  cases w with
  | dateTime millis =>
    obtain rfl := Except.ok.inj h
    exact Instant.isLeap_ofMillis _
  | binary subtype data =>
    rw [ofWire, ofBinary] at h
    split_ifs at h
    · split at h
      · obtain rfl := Except.ok.inj h
        rfl
      · simp at h
    · obtain rfl := Except.ok.inj h
      rfl
  | boolean | int32 | int64 | double | string | objectId =>
    obtain rfl := Except.ok.inj h
    rfl
  | _ => simp [ofWire] at h

theorem toWire_of_ofBinary {subtype : UInt8} {data : List UInt8} {v : Scalar} (h : ofBinary subtype data = .ok v) :
    toWire v = .binary subtype data := by
  unfold ofBinary at h
  split at h
  · next hsubtype =>
    split at h
    · next id hid =>
      obtain rfl := Except.ok.inj h
      rw [toWire, Bytes.ofList?_eq_some.1 hid, hsubtype]
    · simp at h
  · split at h
    · next hsubtype =>
      obtain rfl := Except.ok.inj h
      rw [toWire, hsubtype]
    · simp at h

theorem toWire_of_ofWire {w : Value} {v : Scalar} (h : ofWire w = .ok v) : toWire v = w.clamped := by
  cases w with
  | binary subtype data => exact toWire_of_ofBinary h
  | dateTime millis =>
    obtain rfl := Except.ok.inj h
    rw [toWire, Instant.toMillis_ofMillis, Value.clamped]
  | boolean | int32 | int64 | double | string | objectId =>
    obtain rfl := Except.ok.inj h
    rfl
  | _ => simp [ofWire] at h

end Codec

/-- Every scalar is encoded to a scalar value of the wire that no scalar of another type is encoded to, and that
decodes to the scalar again. -/
theorem Codec.exact_comesBack (v : Scalar) : ∃ w r, exact.encode v = .ok w ∧ w.isScalar = true ∧
    exact.decode w = .ok r ∧ v.ComesBackAs r ∧ ∀ u, u.typeName ≠ v.typeName → exact.encode u ≠ .ok w := by
  refine ⟨toWire v, v.inMillis, rfl, isScalar_toWire v, ofWire_toWire v, v.comesBackAs_inMillis, fun u htype henc => ?_⟩
  -- two scalars with one wire value come back as one scalar, and coming back keeps the type
  have hwire : toWire u = toWire v := Except.ok.inj henc
  have hback := ofWire_toWire u
  rw [hwire, ofWire_toWire] at hback
  rw [← u.typeName_inMillis, ← v.typeName_inMillis, Except.ok.inj hback] at htype
  exact htype rfl

/-- Half a millisecond before the epoch. -/
def Instant.eve : Instant where
  seconds := -1
  nanos := 999500000

/-- It is rounded away from the epoch, and no integer is taken for it. -/
theorem Codec.exact_comesBack_eve : ∃ r, exact.encode (.instant .eve) = .ok (.dateTime (-1)) ∧
    exact.decode (.dateTime (-1)) = .ok r ∧ (Scalar.instant .eve).ComesBackAs r ∧
    exact.encode (.int64 (-1)) ≠ .ok (.dateTime (-1)) := by
  obtain ⟨w, r, hw, -, hr, hback, hother⟩ := exact_comesBack (.instant .eve)
  obtain rfl : Value.dateTime (-1) = w := Except.ok.inj hw
  exact ⟨r, hw, hr, hback, hother (.int64 (-1)) (by decide)⟩

/-- An instant of whole milliseconds in a leap second comes back a second later. -/
theorem Codec.leap_comesBack_later : exact.encode (.instant .leapSecond) = .ok (.dateTime 1483228800500) ∧
    exact.decode (.dateTime 1483228800500) = .ok (.instant .afterLeap) ∧
    Instant.leapSecond.nanos % 1000000 = 0 ∧ Scalar.instant .leapSecond ≠ .instant .afterLeap :=
  ⟨rfl, rfl, rfl, fun h => absurd (Scalar.instant.inj h) (by decide)⟩

/-- What decodes is encoded to itself exactly if it is not a date beyond the instants; such a date is encoded to the
nearest end of their range. So these dates are the only values that decode although no scalar, a leap second apart, is
encoded to them. -/
theorem Codec.encode_decode_exact (w : Value) :
    (∀ v, exact.decode w = .ok v →
      exact.encode v = .ok w.clamped ∧ (exact.encode v = .ok w ↔ w.isInRange = true)) ∧
    ((∃ v, v.isLeap = false ∧ exact.encode v = .ok w) ↔ (∃ v, exact.decode w = .ok v) ∧ w.isInRange = true) := by
  have hwire (v : Scalar) (h : exact.decode w = .ok v) : exact.encode v = .ok w.clamped :=
    congrArg Except.ok (toWire_of_ofWire h)
  have hback (v : Scalar) (h : exact.decode w = .ok v) : exact.encode v = .ok w ↔ w.isInRange = true := by
    rw [hwire v h, Except.ok.injEq, w.clamped_eq_self_iff]
  refine ⟨fun v h => ⟨hwire v h, hback v h⟩, ⟨?_, ?_⟩⟩
  · rintro ⟨v, hregular, hv⟩
    obtain rfl : toWire v = w := Except.ok.inj hv
    have hdecode : exact.decode (toWire v) = .ok v.inMillis := ofWire_toWire v
    exact ⟨⟨_, hdecode⟩, (hback _ hdecode).1 (congrArg Except.ok (toWire_inMillis hregular))⟩
  · rintro ⟨⟨v, hv⟩, hrange⟩
    exact ⟨v, isLeap_of_ofWire hv, (hback v hv).2 hrange⟩

/-- The first millisecond behind the instants and the last one in their range. -/
theorem Codec.encode_decode_exact_latest : ∃ v v', exact.decode (.dateTime 8210266876800000) = .ok v ∧
    exact.encode v = .ok (.dateTime 8210266876799999) ∧ exact.decode (.dateTime 8210266876799999) = .ok v' ∧
    exact.encode v' = .ok (.dateTime 8210266876799999) := by
  have hbehind : exact.decode (.dateTime 8210266876800000) = .ok (.instant .latest) := rfl
  have hwithin : exact.decode (.dateTime 8210266876799999) =
      .ok (.instant { seconds := 8210266876799, nanos := 999000000 }) := rfl
  exact ⟨_, _, hbehind, ((encode_decode_exact _).1 _ hbehind).1, hwithin, ((encode_decode_exact _).1 _ hwithin).2.2 rfl⟩

/-- A date behind the instants decodes, and is encoded to another date. -/
theorem Codec.decodes_inexactly : exact.decode (.dateTime 8210266876800000) = .ok (.instant .latest) ∧
    exact.encode (.instant .latest) ≠ .ok (.dateTime 8210266876800000) := by
  refine ⟨rfl, fun h => ?_⟩
  exact absurd (Value.dateTime.inj (Except.ok.inj h)) (by decide)

end RelDoc
