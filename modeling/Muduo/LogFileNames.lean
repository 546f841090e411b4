import Muduo.LogFile
import Muduo.Timestamp

/-!
# The names of log files

The names that a `LogFile` opens are in the order of time. The files in the order of their names
are the records in the order in which they were appended.
-/
namespace Muduo.LogFile
open Logger (gmtime_r Loggable)
open Numeral StepSystem

/-- The fields of `".%Y%m%d-%H%M%S."`, before the last point. -/
def fields : List Field :=
  [⟨text ".", 4⟩, ⟨[], 2⟩, ⟨[], 2⟩, ⟨text "-", 2⟩, ⟨[], 2⟩, ⟨[], 2⟩]

/-- The configuration whose names are those of the time, in UTC. -/
def dated (cfg : Config) : Config := { cfg with timebuf := fun now => strftime (gmtime_r now) }

/-- One whose names are all different, and the same as far as there is a text for the time. -/
def extended (cfg : Config) : Config :=
  { cfg with timebuf := fun now =>
      if Loggable now then strftime (gmtime_r now) else List.replicate now.toNat 48 }

variable {cfg : Config} {s t : State} {now : ℤ} {es : List Event}

theorem strftime_eq (tm : Tm) : strftime tm = format fields tm.printed ++ text "." := by
  simp [strftime, format, fields, Tm.printed]

theorem fits (h : Loggable now) : List.Forall₂ Field.Fits fields (gmtime_r now).printed := by
  obtain ⟨hyear, hmon, hmday, hhour, hmin, hsec⟩ := printable_gmtime_r h
  unfold fields Tm.printed Field.Fits
  simp only [List.forall₂_cons, List.Forall₂.nil, and_true]
  omega

theorem strftime_lt {now' : ℤ} (h : Loggable now) (h' : Loggable now') (hlt : now < now') :
    strftime (gmtime_r now) < strftime (gmtime_r now') := by
  rw [strftime_eq, strftime_eq]
  apply append_lt_append_of_lt
  · rw [length_format (fits h), length_format (fits h')]
  · exact format_lt_format (fits h) (fits h') (printed_gmtime_r_lt h h' hlt)

theorem getLogFileName_lt {now' : ℤ} (h : Loggable now) (h' : Loggable now') (hlt : now < now') :
    getLogFileName (dated cfg) now < getLogFileName (dated cfg) now' := by
  unfold getLogFileName
  simp only [List.append_assoc]
  apply append_lt_append_left
  apply append_lt_append_of_lt _ (strftime_lt h h' hlt)
  show (strftime _).length = (strftime _).length
  rw [strftime_eq, strftime_eq, List.length_append, List.length_append, length_format (fits h),
    length_format (fits h')]

theorem timebuf_extended (h : Loggable now) :
    (extended cfg).timebuf now = (dated cfg).timebuf now := if_pos h

theorem injective_extended : Injective (extended cfg) := by
  intro t t' ht ht' h
  have hdot : ∀ (tm : Tm) (n : ℕ), strftime tm ≠ List.replicate n 48 := by
    intro tm n heq
    have hmem : (46 : UInt8) ∈ List.replicate n (48 : UInt8) := by
      rw [← heq, strftime]
      simp [text]
    exact absurd (List.eq_of_mem_replicate hmem) (by decide)
  unfold extended at h
  dsimp only at h
  split_ifs at h with hl hl'
  · rcases lt_trichotomy t t' with hlt | heq | hgt
    · have hname := strftime_lt hl hl' hlt
      rw [h] at hname
      exact absurd hname (List.lt_irrefl _)
    · exact heq
    · have hname := strftime_lt hl' hl hgt
      rw [h] at hname
      exact absurd hname (List.lt_irrefl _)
  · exact absurd h (hdot _ _)
  · exact absurd h.symm (hdot _ _)
  · have hlen := congrArg List.length h
    rw [List.length_replicate, List.length_replicate] at hlen
    omega

theorem rollFile_extended (h : Loggable now) (s : State) :
    rollFile (extended cfg) now s = rollFile (dated cfg) now s := by
  have hname : getLogFileName (extended cfg) now = getLogFileName (dated cfg) now := by
    unfold getLogFileName
    rw [timebuf_extended h]
    rfl
  unfold rollFile
  rw [hname]

theorem lastRoll_rollFile (hs : Loggable s.lastRoll_) (h : Loggable now) :
    Loggable (rollFile cfg now s).lastRoll_ := by
  unfold rollFile
  dsimp only
  split_ifs
  · exact h
  · exact hs

/-- The clock of `rollFile` shows a time that has a text. -/
def Timely : Event → Prop
  | .append _ _ _ rollTime => Loggable rollTime
  | .flush => True

instance (e : Event) : Decidable (Timely e) :=
  match e with
  | .append _ _ _ rollTime => inferInstanceAs (Decidable (Loggable rollTime))
  | .flush => inferInstanceAs (Decidable True)

theorem step_extended {e : Event} (h : Timely e) (s : State) :
    step (extended cfg) s e = step (dated cfg) s e := by
  cases e with
  | append logline results checkTime rollTime =>
    have hroll : ∀ u, rollFile (extended cfg) rollTime u = rollFile (dated cfg) rollTime u :=
      rollFile_extended h
    unfold step append_unlocked
    simp only [hroll]
    rfl
  | flush => rfl

theorem lastRoll_step {e : Event} (he : Timely e) (hs : Loggable s.lastRoll_)
    (h : step cfg s e = .ok t) : Loggable t.lastRoll_ := by
  cases e with
  | append logline results checkTime rollTime =>
    have he : Loggable rollTime := he
    obtain ⟨⟨u, n⟩, hu, h⟩ := bind_eq_ok.mp h
    have hroll : Loggable u.lastRoll_ := by
      unfold fileAppend at hu
      split at hu
      · cases hu
      · obtain ⟨hu, -⟩ := Prod.mk.inj (Except.ok.inj hu)
        rw [← hu]
        exact hs
    dsimp only at h
    split_ifs at h
    · rw [← Except.ok.inj h]
      exact lastRoll_rollFile hroll he
    · rw [← Except.ok.inj h]
      exact lastRoll_rollFile hroll he
    · unfold fileFlush at h
      split at h
      · cases h
      · rw [← Except.ok.inj h]
        exact hroll
    · rw [← Except.ok.inj h]
      exact hroll
    · rw [← Except.ok.inj h]
      exact hroll
  | flush =>
    have h : fileFlush s = .ok t := h
    unfold fileFlush at h
    split at h
    · cases h
    · rw [← Except.ok.inj h]
      exact hs

/-- While the clock shows such times, the programs with both configurations do the same. -/
theorem run_extended (hlast : Loggable s.lastRoll_) (hr : Run (system (dated cfg)) s es t)
    (hes : ∀ e ∈ es, Timely e) : Run (system (extended cfg)) s es t ∧ Loggable t.lastRoll_ := by
  induction hr with
  | nil => exact ⟨.nil _, hlast⟩
  | @snoc _ u _ e _ he hst ih =>
    obtain ⟨hrun, hroll⟩ := ih fun e he => hes e (List.mem_append_left _ he)
    have htimely : Timely e := hes e (by simp)
    have hst : step (dated cfg) _ e = .ok u := hst
    refine ⟨.snoc hrun he ?_, lastRoll_step htimely hroll hst⟩
    show step (extended cfg) _ e = .ok u
    rw [step_extended htimely, hst]

/-- The files of a run, taken in the order of their names, hold the records in the order in which
they were appended. -/
theorem cat_sorted (hnow : Loggable now) (hs : construct (dated cfg) now = .ok s)
    (hr : Run (system (dated cfg)) s es t) (hes : ∀ e ∈ es, Timely e) :
    (t.disk.map (·.name)).Pairwise (· < ·) ∧
      ∀ files : List DiskFile, files.Perm t.disk →
        (files.map (·.name)).Pairwise (fun name name' => ¬name' < name) →
        (files.map (·.content)).flatten = (es.flatMap Event.records).flatten := by
  obtain ⟨-, -, hs'⟩ := bind_eq_ok.mp hs
  have hroll : Loggable s.lastRoll_ := by
    have hs' : rollFile (dated cfg) now ⟨[], [], 0, 0, 0, 0, none⟩ = s := Except.ok.inj hs'
    rw [← hs', rollFile, if_pos hnow.1]
    exact hnow
  have hconstruct : construct (extended cfg) now = .ok s := by
    unfold construct at hs ⊢
    rw [rollFile_extended hnow]
    exact hs
  obtain ⟨hrun, hlast⟩ := run_extended hroll hr hes
  have hinv := inv_run injective_extended ⟨now, hnow.1, hconstruct⟩ hrun
  obtain ⟨ts, hopened, hsorted, hle⟩ := hinv.named.times
  have hloggable : ∀ u ∈ ts, Loggable u := by
    intro u hu
    obtain ⟨hpos, hlast'⟩ := hle u hu
    exact ⟨hpos, hlast'.trans_lt hlast.2⟩
  have hnames : (t.disk.map (·.name)).Pairwise (· < ·) := by
    rw [hinv.named.disk, hopened, List.pairwise_map]
    apply hsorted.imp_of_mem
    intro u v hu hv hlt
    have hsame : ∀ w ∈ ts, getLogFileName (extended cfg) w = getLogFileName (dated cfg) w := by
      intro w hw
      unfold getLogFileName
      rw [timebuf_extended (hloggable w hw)]
      rfl
    rw [hsame u hu, hsame v hv]
    exact getLogFileName_lt (hloggable u hu) (hloggable v hv) hlt
  refine ⟨hnames, fun files hperm hfiles => ?_⟩
  have hdisk : t.disk.Pairwise fun f g => ¬g.name < f.name := by
    rw [List.pairwise_map] at hnames
    exact hnames.imp fun hlt => List.lt_asymm hlt
  have hnodup : (t.disk.map (·.name)).Nodup := hnames.imp fun hlt heq => by
    rw [heq] at hlt
    exact List.lt_irrefl _ hlt
  rw [List.pairwise_map] at hfiles
  have heq : files = t.disk := by
    apply hperm.eq_of_pairwise _ hfiles hdisk
    intro f g hf hg hfg hgf
    have hname : f.name = g.name := List.le_antisymm hfg hgf
    exact List.inj_on_of_nodup_map hnodup (hperm.mem_iff.mp hf) hg hname
  rw [heq]
  exact hinv.whole.flatten

/-- Two files, of which the second comes first in a listing. -/
theorem cat_sorted_millennium : ∃ s t, construct (dated sampleConfig) 946684799 = .ok s ∧
    Run (system (dated sampleConfig)) s
      [.append (text "abcde") [] 946684800 946684800, .append (text "f") [] 946684800 946684800] t ∧
    t.disk.reverse.map (·.name) = [text "log.20000101-000000.host.42.log",
      text "log.19991231-235959.host.42.log"] ∧
    (t.disk.map (·.name)).Pairwise (· < ·) := by
  have hconstruct : construct (dated sampleConfig) 946684799 =
      .ok (rollFile (dated sampleConfig) 946684799 ⟨[], [], 0, 0, 0, 0, none⟩) := rfl
  have hreplay : (replay (system (dated sampleConfig))
      (rollFile (dated sampleConfig) 946684799 ⟨[], [], 0, 0, 0, 0, none⟩)
      [.append (text "abcde") [] 946684800 946684800,
        .append (text "f") [] 946684800 946684800]).any (fun t => t.disk.reverse.map (·.name) =
          [text "log.20000101-000000.host.42.log", text "log.19991231-235959.host.42.log"]) =
        true := by decide +kernel
  obtain ⟨t, hr, ht⟩ := exists_run_of_replay (system (dated sampleConfig)) hreplay
  exact ⟨_, t, hconstruct, hr, of_decide_eq_true ht,
    (cat_sorted (by decide) hconstruct hr (by decide)).1⟩

end Muduo.LogFile
