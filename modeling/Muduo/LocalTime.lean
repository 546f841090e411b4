import Muduo.TimeZone

/-!
# The round trip through local time

At the end of daylight time an interval of local time comes twice. `fromLocalTime`
finds the standard entry there and takes an hour off if the time was given as daylight
time and comes out at the same hour and minute without it.
-/
namespace Muduo.TimeZone

/-- `gmtime` and `timegm` are inverse to each other, and `timegm` reads the date and
the time of day only. -/
structure Inverse (gmtime : ℤ → Tm) (timegm : Tm → ℤ) : Prop where
  timegm_gmtime : ∀ t, timegm (gmtime t) = t
  fields : ∀ (tm : Tm) (isdst gmtoff : ℤ) (zone : List UInt8),
    timegm { tm with isdst := isdst, gmtoff := gmtoff, zone := zone } = timegm tm

/-- The offset of an entry. -/
def offset (s d : ℤ) (isDst : Bool) : ℤ := if isDst then d else s

theorem offset_of_std {s d : ℤ} {isDst : Bool} (h : isDst = false) : offset s d isDst = s := by
  subst h
  rfl

theorem offset_of_dst {s d : ℤ} {isDst : Bool} (h : isDst = true) : offset s d isDst = d := by
  subst h
  rfl

/-- The entry is one of daylight time. -/
def Data.isDst (data : Data) (a : Transition) : Bool :=
  (data.localtimes[a.localtimeIdx]?).any (·.isDst)

/-- The transitions alternate between standard time, `s` seconds ahead of UTC, and
daylight time, `d` seconds ahead, and are in order. -/
structure ZoneTable (data : Data) (s d : ℤ) : Prop where
  lt : s < d
  gmttime : (data.transitions.map (·.gmttime)).Pairwise (· < ·)
  localtime : (data.transitions.map (·.localtime)).Pairwise (· < ·)
  entry : ∀ a ∈ data.transitions, ∃ localtime,
    data.localtimes[a.localtimeIdx]? = some localtime ∧
      localtime.gmtOffset = offset s d localtime.isDst ∧
      a.localtime = a.gmttime + localtime.gmtOffset ∧
      localtime.arrbIdx ≤ data.abbreviation.length
  alternate : ∀ i a b, data.transitions[i]? = some a → data.transitions[i + 1]? = some b →
    data.isDst b = !data.isDst a

/-- If `t` is daylight time and its local time comes again in standard time, then the
difference is an hour, and standard time lasts until the local time has come again. -/
def Repeatable (data : Data) (s d t : ℤ) : Prop :=
  ∀ i a b, data.transitions[i]? = some a → data.transitions[i + 1]? = some b →
    data.isDst a = true → a.gmttime ≤ t → t < b.gmttime → b.localtime ≤ t + d →
    d - s = 3600 ∧ ∀ c, data.transitions[i + 2]? = some c → t + 3600 < c.gmttime

/-- The comparison by UTC, and the one by local time. -/
abbrev byGmt : Comp := ⟨true⟩
abbrev byLocal : Comp := ⟨false⟩

variable {gmtime : ℤ → Tm} {timegm : Tm → ℤ} {data : Data} {s d t : ℤ} {i j k : ℕ}
  {a b c : Transition} {tm : Tm}

namespace ZoneTable

theorem sorted (hz : ZoneTable data s d) (comp : Comp) :
    (data.transitions.map comp.key).Pairwise (· < ·) := by
  obtain ⟨compareGmt⟩ := comp
  cases compareGmt with
  | true => exact hz.gmttime
  | false => exact hz.localtime

theorem localtime_eq (hz : ZoneTable data s d) (ha : data.transitions[i]? = some a) :
    a.localtime = a.gmttime + offset s d (data.isDst a) := by
  obtain ⟨l, hl, hoff, heq, -⟩ := hz.entry a (List.mem_of_getElem? ha)
  unfold Data.isDst
  rw [heq, hl, hoff, Option.any_some]

theorem localtime_of_std (hz : ZoneTable data s d) (ha : data.transitions[i]? = some a)
    (hstd : data.isDst a = false) : a.localtime = a.gmttime + s := by
  rw [hz.localtime_eq ha, offset_of_std hstd]

theorem localtime_of_dst (hz : ZoneTable data s d) (ha : data.transitions[i]? = some a)
    (hdst : data.isDst a = true) : a.localtime = a.gmttime + d := by
  rw [hz.localtime_eq ha, offset_of_dst hdst]

/-- Standard time is followed by daylight time, and daylight time by standard time. -/
theorem dst_of_std (hz : ZoneTable data s d) (ha : data.transitions[i]? = some a)
    (hb : data.transitions[i + 1]? = some b) (hstd : data.isDst a = false) :
    data.isDst b = true := by
  rw [hz.alternate i a b ha hb, hstd]
  rfl

theorem std_of_dst (hz : ZoneTable data s d) (ha : data.transitions[i]? = some a)
    (hb : data.transitions[i + 1]? = some b) (hdst : data.isDst a = true) :
    data.isDst b = false := by
  rw [hz.alternate i a b ha hb, hdst]
  rfl

theorem findLocaltime_eq (hz : ZoneTable data s d) {comp : Comp} (sentry : Transition)
    (h : Governs comp data.transitions (comp.key sentry) i a) : ∃ localtime,
      findLocaltime data sentry comp = .ok localtime ∧ localtime.isDst = data.isDst a ∧
        localtime.gmtOffset = offset s d (data.isDst a) ∧
        localtime.arrbIdx ≤ data.abbreviation.length := by
  obtain ⟨l, hl, hoff, -, harrb⟩ := hz.entry a (List.mem_of_getElem? h.getElem?)
  have hdst : data.isDst a = l.isDst := by
    unfold Data.isDst
    rw [hl, Option.any_some]
  refine ⟨l, ?_, hdst.symm, hdst ▸ hoff, harrb⟩
  rw [TimeZone.findLocaltime_eq h (hz.sorted comp)]
  unfold Data.localtimeAt
  rw [hl]

theorem toLocalTime_eq (gmtime : ℤ → Tm) (hz : ZoneTable data s d)
    (h : Governs byGmt data.transitions t i a) :
    ∃ zone, toLocalTime gmtime data t = .ok { gmtime (t + offset s d (data.isDst a)) with
      isdst := if data.isDst a then 1 else 0
      gmtoff := offset s d (data.isDst a)
      zone := zone } := by
  obtain ⟨l, hl, hdst, hoff, harrb⟩ := hz.findLocaltime_eq ⟨t, 0, 0⟩ h
  refine ⟨(data.abbreviation.drop l.arrbIdx).takeWhile (· ≠ 0), ?_⟩
  unfold toLocalTime Data.abbreviationAt
  dsimp only
  rw [hl, ok_bind, if_pos harrb, ok_bind, hdst, hoff]
  rfl

/-- No hour is taken off where the time is not given as daylight time. -/
theorem fromLocalTime_of_std (hz : ZoneTable data s d) (hdst : tm.isdst = 0)
    (h : Governs byLocal data.transitions (timegm tm) j b) :
    fromLocalTime gmtime timegm data tm = .ok (timegm tm - offset s d (data.isDst b)) := by
  obtain ⟨l, hl, -, hoff, -⟩ := hz.findLocaltime_eq ⟨0, timegm tm, 0⟩ h
  unfold fromLocalTime
  dsimp only
  rw [hl, ok_bind, if_neg (not_not.mpr hdst), hoff]
  rfl

/-- Nor where the time comes out as daylight time. -/
theorem fromLocalTime_of_dst (hz : ZoneTable data s d) (hdst : tm.isdst ≠ 0)
    (h : Governs byLocal data.transitions (timegm tm) j b)
    (h' : Governs byGmt data.transitions (timegm tm - offset s d (data.isDst b)) k c)
    (hc : data.isDst c = true) :
    fromLocalTime gmtime timegm data tm = .ok (timegm tm - offset s d (data.isDst b)) := by
  obtain ⟨l, hl, -, hoff, -⟩ := hz.findLocaltime_eq ⟨0, timegm tm, 0⟩ h
  obtain ⟨zone, hzone⟩ := hz.toLocalTime_eq gmtime h'
  unfold fromLocalTime
  dsimp only
  rw [hl, ok_bind, if_pos hdst, hoff, hzone, hc]
  rfl

/-- Where both searches find standard time, the time comes out at the same hour and
minute. -/
theorem fromLocalTime_of_repeated (hz : ZoneTable data s d) (hdst : tm.isdst ≠ 0)
    (hhour : (gmtime (timegm tm)).hour = tm.hour) (hmin : (gmtime (timegm tm)).min = tm.min)
    (h : Governs byLocal data.transitions (timegm tm) j b) (hb : data.isDst b = false)
    (h' : Governs byGmt data.transitions (timegm tm - s) k c) (hc : data.isDst c = false) :
    fromLocalTime gmtime timegm data tm = .ok (timegm tm - 3600 - s) := by
  obtain ⟨l, hl, -, hoff, -⟩ := hz.findLocaltime_eq ⟨0, timegm tm, 0⟩ h
  obtain ⟨zone, hzone⟩ := hz.toLocalTime_eq gmtime h'
  unfold fromLocalTime
  dsimp only
  rw [hl, ok_bind, if_pos hdst, hoff, offset_of_std hb, hzone, ok_bind, offset_of_std hc,
    sub_add_cancel]
  rw [if_pos ⟨by rw [hc]; rfl, hhour, hmin⟩]
  rfl

/-- In standard time the local time is found in the same entry. -/
theorem governs_local_of_std (hz : ZoneTable data s d)
    (h : Governs byGmt data.transitions t i a) (ha : data.isDst a = false) :
    Governs byLocal data.transitions (t + s) i a := by
  have hloc := hz.localtime_of_std h.getElem? ha
  have hle : a.gmttime ≤ t := h.le
  refine ⟨h.getElem?, ?_, ?_⟩
  · change a.localtime ≤ t + s
    omega
  · intro b hb
    have hlocb := hz.localtime_of_dst hb (hz.dst_of_std h.getElem? hb ha)
    have hlt : t < b.gmttime := h.next b hb
    have := hz.lt
    change t + s < b.localtime
    omega

/-- So it is in daylight time, until the next entry has come by local time. -/
theorem governs_local_of_dst (hz : ZoneTable data s d)
    (h : Governs byGmt data.transitions t i a) (ha : data.isDst a = true)
    (hnext : ∀ b, data.transitions[i + 1]? = some b → t + d < b.localtime) :
    Governs byLocal data.transitions (t + d) i a := by
  have hloc := hz.localtime_of_dst h.getElem? ha
  have hle : a.gmttime ≤ t := h.le
  refine ⟨h.getElem?, ?_, hnext⟩
  change a.localtime ≤ t + d
  omega

/-- A local time that comes again is found in the standard entry that follows. -/
theorem governs_local_of_repeated (hz : ZoneTable data s d)
    (h : Governs byGmt data.transitions t i a) (ha : data.isDst a = true)
    (hb : data.transitions[i + 1]? = some b) (hrep : b.localtime ≤ t + d) :
    Governs byLocal data.transitions (t + d) (i + 1) b := by
  refine ⟨hb, hrep, ?_⟩
  intro c hc
  have hstd := hz.std_of_dst h.getElem? hb ha
  have hloc := hz.localtime_of_dst hc (hz.dst_of_std hb hc hstd)
  have hlt : b.gmttime < c.gmttime :=
    (key_lt_iff (hz.sorted byGmt) hb hc).mpr (Nat.lt_succ_self _)
  have hnext : t < b.gmttime := h.next b hb
  change t + d < c.localtime
  omega

/-- The standard entry, or the daylight entry after it, governs the time at which the
local time comes again. -/
theorem governs_gmt_of_repeated (hz : ZoneTable data s d)
    (h : Governs byGmt data.transitions t i a) (ha : data.isDst a = true)
    (hb : data.transitions[i + 1]? = some b) (hrep : b.localtime ≤ t + d) :
    ((∀ c, data.transitions[i + 2]? = some c → t + d - s < c.gmttime) →
      Governs byGmt data.transitions (t + d - s) (i + 1) b) ∧
    ∀ c, data.transitions[i + 2]? = some c → c.gmttime ≤ t + d - s →
      Governs byGmt data.transitions (t + d - s) (i + 2) c := by
  have hstd := hz.std_of_dst h.getElem? hb ha
  have hloc := hz.localtime_of_std hb hstd
  constructor
  · intro hnext
    refine ⟨hb, ?_, hnext⟩
    change b.gmttime ≤ t + d - s
    omega
  · intro c hc hle
    refine ⟨hc, hle, ?_⟩
    intro e he
    -- the standard entry after that comes later by local time than the daylight entry
    have hdst := hz.dst_of_std hb hc hstd
    have hlocc := hz.localtime_of_dst hc hdst
    have hloce := hz.localtime_of_std he (hz.std_of_dst hc he hdst)
    have hltg : b.gmttime < c.gmttime :=
      (key_lt_iff (hz.sorted byGmt) hb hc).mpr (Nat.lt_succ_self _)
    have hltl : c.localtime < e.localtime :=
      (key_lt_iff (hz.sorted byLocal) hc he).mpr (Nat.lt_succ_self _)
    have hnext : t < b.gmttime := h.next b hb
    change t + d - s < e.gmttime
    omega

end ZoneTable

/-- `Repeatable` is about the entry that governs `t`. -/
theorem repeatable_iff (hz : ZoneTable data s d) (h : Governs byGmt data.transitions t i a) :
    Repeatable data s d t ↔ ∀ b, data.transitions[i + 1]? = some b → data.isDst a = true →
      b.localtime ≤ t + d →
        d - s = 3600 ∧ ∀ c, data.transitions[i + 2]? = some c → t + 3600 < c.gmttime := by
  constructor
  · intro hr b hb ha hrep
    exact hr i a b h.getElem? hb ha h.le (h.next b hb) hrep
  · intro hr j a' b ha' hb hdst hle hlt hrep
    have hj : Governs byGmt data.transitions t j a' := by
      refine ⟨ha', hle, ?_⟩
      intro b' hb'
      rw [hb] at hb'
      exact Option.some.inj hb' ▸ hlt
    obtain rfl : i = j := h.unique (hz.sorted byGmt) hj
    obtain rfl : a = a' := Option.some.inj (h.getElem?.symm.trans ha')
    exact hr b hb hdst hrep

/-- A repeated local time is converted back to the first of its two times exactly where
an hour is the difference and is taken off. -/
theorem fromLocalTime_repeated_iff (hz : ZoneTable data s d)
    (h : Governs byGmt data.transitions t i a) (ha : data.isDst a = true)
    (hb : data.transitions[i + 1]? = some b) (hrep : b.localtime ≤ t + d)
    (hdst : tm.isdst ≠ 0) (htm : timegm tm = t + d) (hhour : (gmtime (t + d)).hour = tm.hour)
    (hmin : (gmtime (t + d)).min = tm.min) :
    fromLocalTime gmtime timegm data tm = .ok t ↔
      d - s = 3600 ∧ ∀ c, data.transitions[i + 2]? = some c → t + 3600 < c.gmttime := by
  have hdstb := hz.std_of_dst h.getElem? hb ha
  have hlocal := hz.governs_local_of_repeated h ha hb hrep
  obtain ⟨hstd, hnextDst⟩ := hz.governs_gmt_of_repeated h ha hb hrep
  have hlt := hz.lt
  rw [← htm] at hlocal
  by_cases hc : ∀ c, data.transitions[i + 2]? = some c → t + d - s < c.gmttime
  · have hg := hstd hc
    rw [← htm] at hg
    rw [hz.fromLocalTime_of_repeated hdst (by rw [htm, hhour]) (by rw [htm, hmin]) hlocal hdstb
      hg hdstb, htm, Except.ok.injEq]
    constructor
    · intro heq
      refine ⟨by omega, ?_⟩
      intro c hc'
      have := hc c hc'
      omega
    · rintro ⟨heq, -⟩
      omega
  · push Not at hc
    obtain ⟨c, hc, hle⟩ := hc
    have hg := hnextDst c hc hle
    have hdstc := hz.dst_of_std hb hc hdstb
    have hoff : offset s d (data.isDst b) = s := offset_of_std hdstb
    rw [hz.fromLocalTime_of_dst hdst hlocal (by rw [hoff, htm]; exact hg) hdstc, hoff, htm,
      Except.ok.injEq]
    constructor
    · intro heq
      omega
    · rintro ⟨heq, hnext⟩
      have := hnext c hc
      omega

/-- The round trip from the first transition on. -/
theorem fromLocalTime_toLocalTime_iff {first : Transition} (hg : Inverse gmtime timegm)
    (hz : ZoneTable data s d) (hfirst : data.transitions[0]? = some first)
    (ht : first.gmttime ≤ t) :
    (toLocalTime gmtime data t >>= fromLocalTime gmtime timegm data) = .ok t ↔
      Repeatable data s d t := by
  obtain ⟨i, a, h⟩ : ∃ i a, Governs byGmt data.transitions t i a := exists_governs hfirst ht
  obtain ⟨zone, hlocal⟩ := hz.toLocalTime_eq gmtime h
  rw [repeatable_iff hz h, hlocal, ok_bind]
  have htm := (hg.fields (gmtime (t + offset s d (data.isDst a))) (if data.isDst a then 1 else 0)
    (offset s d (data.isDst a)) zone).trans (hg.timegm_gmtime _)
  generalize htm' : ({ gmtime (t + offset s d (data.isDst a)) with
    isdst := if data.isDst a then 1 else 0
    gmtoff := offset s d (data.isDst a)
    zone := zone } : Tm) = tm at *
  cases ha : data.isDst a with
  | false =>
    rw [offset_of_std ha] at htm
    have hl := hz.governs_local_of_std h ha
    rw [← htm] at hl
    rw [hz.fromLocalTime_of_std (by rw [← htm', ha]; rfl) hl, offset_of_std ha, htm]
    simp
  | true =>
    rw [offset_of_dst ha] at htm
    have hdst : tm.isdst ≠ 0 := by
      rw [← htm', ha]
      exact one_ne_zero
    by_cases hrep : ∃ b, data.transitions[i + 1]? = some b ∧ b.localtime ≤ t + d
    · obtain ⟨b, hb, hrep⟩ := hrep
      rw [fromLocalTime_repeated_iff hz h ha hb hrep hdst htm (by rw [← htm', ha]; rfl)
        (by rw [← htm', ha]; rfl)]
      constructor
      · intro hr b' hb' _ _
        exact hr
      · intro hr
        exact hr b hb rfl hrep
    · push Not at hrep
      have hl := hz.governs_local_of_dst h ha hrep
      have hoff : timegm tm - offset s d (data.isDst a) = t := by
        rw [offset_of_dst ha, htm, add_sub_cancel_right]
      rw [hz.fromLocalTime_of_dst hdst (by rw [htm]; exact hl) (by rw [hoff]; exact h) ha, hoff]
      simp only [true_iff]
      intro b hb _ hle
      exact absurd hle (not_le.mpr (hrep b hb))

/-- `toUtcTime` and `fromUtcTime` where they convert, and a number of seconds on day 0 of
a month elsewhere. -/
def sampleGmtime (t : ℤ) : Tm :=
  if Convertible (t / 86400 + 2440588) then toUtcTime t true else { Tm.zero with sec := t }

def sampleTimegm (tm : Tm) : ℤ := if tm.mday = 0 then tm.sec else fromUtcTime tm

theorem inverse_sample : Inverse sampleGmtime sampleTimegm where
  timegm_gmtime := by
    intro t
    unfold sampleGmtime sampleTimegm
    split_ifs with hc hday hday
    · have hvalid := (normalized_toUtcTime hc).date.day_pos
      unfold Tm.date at hvalid
      dsimp only at hvalid
      omega
    · exact fromUtcTime_toUtcTime hc true
    · rfl
    · exact absurd rfl hday
  fields := by
    intro tm isdst gmtoff zone
    rfl

/-- Daylight time from 1970 on that ends after 1000000 seconds. -/
def endOfDaylightTime (s d : ℤ) : Data where
  transitions := [⟨0, d, 1⟩, ⟨1000000, 1000000 + s, 0⟩]
  localtimes := [⟨s, false, 0⟩, ⟨d, true, 4⟩]
  abbreviation := text "STD" ++ [0] ++ text "DST" ++ [0]

theorem zoneTable_endOfDaylightTime (h : s < d) (h' : d < s + 1000000) :
    ZoneTable (endOfDaylightTime s d) s d where
  lt := h
  gmttime := by simp [endOfDaylightTime]
  localtime := by
    simp [endOfDaylightTime]
    omega
  entry := by
    have hlen : (text "STD" ++ [0] ++ text "DST" ++ [0]).length = 8 := by decide
    intro a ha
    unfold endOfDaylightTime at ha ⊢
    rw [List.mem_cons, List.mem_singleton] at ha
    rcases ha with rfl | rfl
    · exact ⟨_, rfl, rfl, (zero_add d).symm, by rw [hlen]; exact Nat.le_add_left 4 4⟩
    · exact ⟨_, rfl, rfl, rfl, Nat.zero_le _⟩
  alternate := by
    intro i a b ha hb
    unfold endOfDaylightTime at ha hb
    cases i with
    | zero =>
      obtain rfl := Option.some.inj ha
      obtain rfl := Option.some.inj hb
      rfl
    | succ i => simp at hb

/-- An hour of daylight time, at the last second of it. -/
theorem fromLocalTime_toLocalTime_iff_hour :
    (toLocalTime sampleGmtime (endOfDaylightTime (-18000) (-14400)) 999999 >>=
      fromLocalTime sampleGmtime sampleTimegm (endOfDaylightTime (-18000) (-14400))) =
        .ok 999999 := by
  refine (fromLocalTime_toLocalTime_iff inverse_sample
    (zoneTable_endOfDaylightTime (by omega) (by omega)) rfl (by decide)).mpr ?_
  intro i a b ha hb hdst hle hlt hrep
  refine ⟨by decide, ?_⟩
  intro c hc
  simp [endOfDaylightTime] at hc

/-- Where daylight time is half an hour, its last second is converted back to a time
half an hour before. -/
theorem not_roundTrip_halfHour :
    ZoneTable (endOfDaylightTime 37800 39600) 37800 39600 ∧ Inverse sampleGmtime sampleTimegm ∧
      (toLocalTime sampleGmtime (endOfDaylightTime 37800 39600) 999999 >>=
        fromLocalTime sampleGmtime sampleTimegm (endOfDaylightTime 37800 39600)) = .ok 998199 :=
  ⟨zoneTable_endOfDaylightTime (by omega) (by omega), inverse_sample, by decide +kernel⟩

end Muduo.TimeZone
