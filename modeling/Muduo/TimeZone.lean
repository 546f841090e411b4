import Muduo.Library.BinarySearch
import Muduo.UtcTime

/-!
# Local times by a table of transitions

`TimeZone::toLocalTime` and `TimeZone::fromLocalTime` of `base/TimeZone.cc`. Both look
for the entry of the table that governs a time, the one by UTC, the other by local
time. `gmtime_r(3)` and `timegm(3)` are parameters. An access to a vector or a string
outside its elements is not checked by the code and fails here.
-/
namespace Muduo.TimeZone

/-- `detail::Transition` -/
structure Transition where
  gmttime : ℤ
  localtime : ℤ
  localtimeIdx : ℕ
  deriving DecidableEq, Repr

/-- `detail::Localtime` -/
structure Localtime where
  gmtOffset : ℤ
  isDst : Bool
  arrbIdx : ℕ
  deriving DecidableEq, Repr

/-- `TimeZone::Data`, without `names`, which nothing uses. -/
structure Data where
  transitions : List Transition
  localtimes : List Localtime
  abbreviation : List UInt8
  deriving DecidableEq, Repr

/-- `detail::Comp` -/
structure Comp where
  compareGmt : Bool

namespace Comp

def lt (comp : Comp) (lhs rhs : Transition) : Bool :=
  if comp.compareGmt then decide (lhs.gmttime < rhs.gmttime)
  else decide (lhs.localtime < rhs.localtime)

def equal (comp : Comp) (lhs rhs : Transition) : Bool :=
  if comp.compareGmt then lhs.gmttime == rhs.gmttime
  else lhs.localtime == rhs.localtime

/-- What is compared. -/
def key (comp : Comp) (a : Transition) : ℤ :=
  if comp.compareGmt then a.gmttime else a.localtime

theorem lt_iff {comp : Comp} {a b : Transition} : comp.lt a b = true ↔ comp.key a < comp.key b := by
  unfold lt key
  split_ifs
  · exact decide_eq_true_iff
  · exact decide_eq_true_iff

theorem equal_iff {comp : Comp} {a b : Transition} :
    comp.equal a b = true ↔ comp.key a = comp.key b := by
  unfold equal key
  split_ifs
  · exact beq_iff_eq
  · exact beq_iff_eq

end Comp

namespace Data

/-- `data.localtimes[localtimeIdx]` -/
def localtimeAt (data : Data) (localtimeIdx : ℕ) : Checked Localtime :=
  match data.localtimes[localtimeIdx]? with
  | some localtime => .ok localtime
  | none => .error .localtimesIndex

/-- `data.localtimes.front()` -/
def frontLocaltime (data : Data) : Checked Localtime :=
  match data.localtimes with
  | localtime :: _ => .ok localtime
  | [] => .error .localtimesFront

/-- The string at `&data.abbreviation[arrbIdx]`; the NUL after the last character is
an element. -/
def abbreviationAt (data : Data) (arrbIdx : ℕ) : Checked (List UInt8) :=
  if arrbIdx ≤ data.abbreviation.length then
    .ok ((data.abbreviation.drop arrbIdx).takeWhile (· ≠ 0))
  else .error .abbreviationIndex

end Data

def findLocaltime (data : Data) (sentry : Transition) (comp : Comp) : Checked Localtime :=
  match data.transitions with
  | [] => data.frontLocaltime
  | front :: rest =>
    if comp.lt sentry front then data.frontLocaltime
    else
      let transI := BinarySearch.lowerBound (comp.lt · sentry) data.transitions
      match data.transitions[transI]? with
      | some transition =>
        if comp.equal sentry transition then data.localtimeAt transition.localtimeIdx
        else do
          assert (transI ≠ 0) .findLocaltimeBegin
          data.localtimeAt ((data.transitions[transI - 1]?).getD front).localtimeIdx
      | none => data.localtimeAt ((front :: rest).getLast (by simp)).localtimeIdx

section
variable (gmtime : ℤ → Tm) (timegm : Tm → ℤ) (data : Data)

def toLocalTime (seconds : ℤ) : Checked Tm := do
  let sentry : Transition := ⟨seconds, 0, 0⟩
  let localtime ← findLocaltime data sentry ⟨true⟩
  let localSeconds := seconds + localtime.gmtOffset
  let zone ← data.abbreviationAt localtime.arrbIdx
  return { gmtime localSeconds with
    isdst := if localtime.isDst then 1 else 0
    gmtoff := localtime.gmtOffset
    zone := zone }

def fromLocalTime (localTm : Tm) : Checked ℤ := do
  let seconds := timegm localTm
  let sentry : Transition := ⟨0, seconds, 0⟩
  let localtime ← findLocaltime data sentry ⟨false⟩
  if localTm.isdst ≠ 0 then
    let tryTm ← toLocalTime gmtime data (seconds - localtime.gmtOffset)
    if tryTm.isdst = 0 ∧ tryTm.hour = localTm.hour ∧ tryTm.min = localTm.min then
      return seconds - 3600 - localtime.gmtOffset
    else return seconds - localtime.gmtOffset
  else return seconds - localtime.gmtOffset

end

/-- The position of the entry that is found for `x` in a table with the keys `keys`;
none before the first key. -/
def selected (keys : List ℤ) (x : ℤ) : Option ℕ :=
  match keys with
  | [] => none
  | k :: _ =>
    if x < k then none
    else
      let i := BinarySearch.lowerBound (fun k => decide (k < x)) keys
      if keys[i]? = some x then some i else some (i - 1)

variable {data : Data} {comp : Comp} {keys : List ℤ} {l : List Transition}
  {sentry a b : Transition} {i j : ℕ} {x : ℤ}

theorem lowerBound_keys (comp : Comp) (sentry : Transition) (l : List Transition) :
    BinarySearch.lowerBound (comp.lt · sentry) l =
      BinarySearch.lowerBound (fun k => decide (k < comp.key sentry)) (l.map comp.key) := by
  rw [BinarySearch.lowerBound_map]
  congr 1
  funext a
  rw [Function.comp_apply, Bool.eq_iff_iff, Comp.lt_iff, decide_eq_true_iff]

theorem selected_lt_length (h : selected keys x = some i) : i < keys.length := by
  have hle := BinarySearch.lowerBound_le (p := fun k => decide (k < x)) (l := keys)
  unfold selected at h
  cases keys with
  | nil => simp at h
  | cons k keys =>
    dsimp only at h
    split_ifs at h with hlt hget
    · obtain rfl := Option.some.inj h
      exact (List.getElem?_eq_some_iff.mp hget).1
    · obtain rfl := Option.some.inj h
      have hpos : 0 < (k :: keys).length := Nat.succ_pos _
      omega

/-- The assertion holds: the search returns the begin of the table only after a
comparison with its first entry, whose key is not after that of the sentry. -/
theorem findLocaltime_of_some
    (h : selected (data.transitions.map comp.key) (comp.key sentry) = some i)
    (ha : data.transitions[i]? = some a) :
    findLocaltime data sentry comp = data.localtimeAt a.localtimeIdx := by
  have hi := selected_lt_length h
  have hk := lowerBound_keys comp sentry data.transitions
  unfold selected at h
  unfold findLocaltime
  cases hl : data.transitions with
  | nil => simp [hl] at ha
  | cons front rest =>
    rw [hl] at h hk ha hi
    rw [List.map_cons] at h
    dsimp only at h ⊢
    rw [← List.map_cons] at h
    split_ifs at h with hfront hget
    all_goals
      rw [if_neg (fun hlt => hfront (Comp.lt_iff.mp hlt)), hk]
      obtain rfl := Option.some.inj h
    · rw [ha]
      dsimp only
      rw [List.getElem?_map, ha, Option.map_some, Option.some.injEq] at hget
      rw [if_pos (Comp.equal_iff.mpr hget.symm)]
    · generalize hpos : BinarySearch.lowerBound (fun k => decide (k < comp.key sentry))
        ((front :: rest).map comp.key) = pos at *
      cases hb : (front :: rest)[pos]? with
      | some b =>
        rw [List.getElem?_map, hb, Option.map_some, Option.some.injEq] at hget
        have hne : pos ≠ 0 := by
          rintro rfl
          have hfst := BinarySearch.of_lowerBound_eq_zero (by simp) hpos
          rw [List.getElem?_map, hb, Option.map_some, Option.any_some] at hfst
          obtain rfl := Option.some.inj hb
          simp only [decide_eq_false_iff_not] at hfst
          omega
        dsimp only
        rw [if_neg (fun heq => hget (Comp.equal_iff.mp heq).symm), assert_pos hne, ha]
        rfl
      | none =>
        have hlen := List.getElem?_eq_none_iff.mp hb
        have hle := BinarySearch.lowerBound_le (p := fun k => decide (k < comp.key sentry))
          (l := (front :: rest).map comp.key)
        rw [hpos, List.length_map] at hle
        obtain ⟨hlt, rfl⟩ := List.getElem?_eq_some_iff.mp ha
        dsimp only
        rw [List.getLast_eq_getElem]
        congr 3
        omega

/-- `a`, at position `i`, is the last entry whose key is not after `x`. -/
structure Governs (comp : Comp) (l : List Transition) (x : ℤ) (i : ℕ) (a : Transition) : Prop where
  getElem? : l[i]? = some a
  le : comp.key a ≤ x
  next : ∀ b, l[i + 1]? = some b → x < comp.key b

theorem exists_governs (ha : l[0]? = some a) (hle : comp.key a ≤ x) :
    ∃ i b, Governs comp l x i b := by
  induction l generalizing a with
  | nil => simp at ha
  | cons a' l ih =>
    cases hl : l[0]? with
    | some b =>
      rcases Int.lt_or_le x (comp.key b) with hlt | hge
      · refine ⟨0, a, ha, hle, ?_⟩
        intro c hc
        rw [List.getElem?_cons_succ, hl] at hc
        rwa [← Option.some.inj hc]
      · obtain ⟨i, c, hc⟩ := ih hl hge
        exact ⟨i + 1, c, hc.getElem?, hc.le, hc.next⟩
    | none =>
      refine ⟨0, a, ha, hle, ?_⟩
      intro c hc
      rw [List.getElem?_cons_succ, hl] at hc
      exact absurd hc (by simp)

/-- The order of the keys is that of the positions. -/
theorem key_lt_iff (hs : (l.map comp.key).Pairwise (· < ·)) (ha : l[i]? = some a)
    (hb : l[j]? = some b) : comp.key a < comp.key b ↔ i < j := by
  rw [List.pairwise_map, List.pairwise_iff_getElem] at hs
  obtain ⟨hi, rfl⟩ := List.getElem?_eq_some_iff.mp ha
  obtain ⟨hj, rfl⟩ := List.getElem?_eq_some_iff.mp hb
  constructor
  · intro h
    rcases lt_trichotomy i j with hij | rfl | hji
    · exact hij
    · exact absurd h (lt_irrefl _)
    · exact absurd h (lt_asymm (hs j i hj hi hji))
  · exact hs i j hi hj

namespace Governs

/-- The positions with a key after `x` are those after the governing one. -/
theorem lt_key_iff (h : Governs comp l x i a) (hs : (l.map comp.key).Pairwise (· < ·))
    (hb : l[j]? = some b) : x < comp.key b ↔ i < j := by
  constructor
  · intro hlt
    exact (key_lt_iff hs h.getElem? hb).mp (h.le.trans_lt hlt)
  · intro hij
    obtain ⟨hj, -⟩ := List.getElem?_eq_some_iff.mp hb
    obtain ⟨c, hc⟩ : ∃ c, l[i + 1]? = some c := ⟨_, List.getElem?_eq_getElem (by omega)⟩
    have hcb : ¬comp.key b < comp.key c := by
      rw [key_lt_iff hs hb hc]
      omega
    exact (h.next c hc).trans_le (not_lt.mp hcb)

theorem unique (h : Governs comp l x i a) (hs : (l.map comp.key).Pairwise (· < ·))
    (h' : Governs comp l x j b) : i = j := by
  have h₁ := (h.lt_key_iff hs h'.getElem?).not.mp (not_lt.mpr h'.le)
  have h₂ := (h'.lt_key_iff hs h.getElem?).not.mp (not_lt.mpr h.le)
  omega

theorem lowerBound_eq (h : Governs comp l x i a) (hs : (l.map comp.key).Pairwise (· < ·)) :
    BinarySearch.lowerBound (fun k => decide (k < x)) (l.map comp.key) =
      if comp.key a = x then i else i + 1 := by
  obtain ⟨hi, -⟩ := List.getElem?_eq_some_iff.mp h.getElem?
  apply BinarySearch.lowerBound_eq
  · rw [List.length_map]
    split_ifs
    · exact hi.le
    · exact hi
  · intro j hj
    rw [List.length_map] at hj
    have hb := List.getElem?_eq_getElem hj
    rw [decide_eq_true_iff, List.getElem_map]
    split_ifs with heq
    · rw [← heq, key_lt_iff hs hb h.getElem?]
    · have hlt := h.lt_key_iff hs hb
      constructor
      · intro hj
        have := hlt.not.mp (lt_asymm hj)
        omega
      · intro hj
        have hge := not_lt.mp (hlt.not.mpr (by omega))
        apply lt_of_le_of_ne hge
        -- the only entry with the key of the sentry would be the governing one
        intro hkey
        have hij : ¬i < j := by omega
        have hji : ¬j < i := by
          rw [← key_lt_iff hs hb h.getElem?, hkey]
          exact not_lt.mpr h.le
        obtain rfl : i = j := by omega
        rw [h.getElem?] at hb
        exact heq (Option.some.inj hb ▸ hkey)

/-- Where the keys increase, the entry selected is the governing one. -/
theorem selected_eq (h : Governs comp l x i a) (hs : (l.map comp.key).Pairwise (· < ·)) :
    selected (l.map comp.key) x = some i := by
  have hk := h.lowerBound_eq hs
  unfold selected
  cases l with
  | nil => exact absurd h.getElem? (by simp)
  | cons front rest =>
    have hfront : ¬x < comp.key front := by
      rw [h.lt_key_iff hs (j := 0) rfl]
      exact Nat.not_lt_zero i
    rw [List.map_cons]
    dsimp only
    rw [← List.map_cons, if_neg hfront, hk, List.getElem?_map]
    split_ifs with heq hget hget
    · rfl
    · exact absurd (by rw [h.getElem?, Option.map_some, heq]) hget
    · obtain ⟨b, hb, hkey⟩ := Option.map_eq_some_iff.mp hget
      exact absurd hkey (h.next b hb).ne'
    · rfl

end Governs

/-- Where the keys increase, the entry found is the governing one. -/
theorem findLocaltime_eq (h : Governs comp data.transitions (comp.key sentry) i a)
    (hs : (data.transitions.map comp.key).Pairwise (· < ·)) :
    findLocaltime data sentry comp = data.localtimeAt a.localtimeIdx :=
  findLocaltime_of_some (h.selected_eq hs) h.getElem?

end Muduo.TimeZone
