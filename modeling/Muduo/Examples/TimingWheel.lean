import Mathlib
import Muduo.Library.StepSystem
import Muduo.TcpConnection

/-!
# Closing idle connections with a wheel

`examples/idleconnection/echo.cc`. The destructor of an entry shuts its connection down, and an
entry lives as long as it is in a bucket. A connection that stays silent is shut down when as many
ticks have gone by as there are buckets.
-/
namespace Muduo.TimingWheel
open StepSystem

inductive Fault
  /-- `back()` of a buffer without elements -/
  | noBucket
  deriving DecidableEq, Repr

structure Connection where
  state : StateE
  /-- what was given to `sendInLoop` -/
  sent : List UInt8

/-- The entry of a connection is named by the connection; `connectionBuckets_` has the oldest
bucket first. -/
structure EchoServer (C : Type) where
  connectionBuckets : List (Finset C)
  conn : C → Connection

inductive Event (C : Type)
  | up (c : C)
  | down (c : C)
  | message (c : C) (msg : List UInt8)
  | timer

namespace Connection

def shutdown (conn : Connection) : Connection :=
  if conn.state = .kConnected then { conn with state := .kDisconnecting } else conn

def send (conn : Connection) (msg : List UInt8) : Connection :=
  if conn.state = .kConnected then { conn with sent := conn.sent ++ msg } else conn

end Connection

namespace EchoServer
variable {C : Type} [DecidableEq C]

/-- `connectionBuckets_.back().insert(entry)` -/
def insertBack (buckets : List (Finset C)) (c : C) : Except Fault (List (Finset C)) :=
  match buckets.getLast? with
  | some back => .ok (buckets.dropLast ++ [insert c back])
  | none => .error .noBucket

/-- The entry is in a bucket, so that `weakEntry.lock()` succeeds. -/
def Alive (buckets : List (Finset C)) (c : C) : Prop := ∃ b ∈ buckets, c ∈ b

instance (buckets : List (Finset C)) (c : C) : Decidable (Alive buckets c) :=
  inferInstanceAs (Decidable (∃ b ∈ buckets, c ∈ b))

def onConnectionUp (s : EchoServer C) (c : C) : Except Fault (EchoServer C) := do
  let buckets ← insertBack s.connectionBuckets c
  return ⟨buckets, Function.update s.conn c { s.conn c with state := .kConnected }⟩

def onConnectionDown (s : EchoServer C) (c : C) : EchoServer C :=
  { s with conn := Function.update s.conn c { s.conn c with state := .kDisconnected } }

def onMessage (s : EchoServer C) (c : C) (msg : List UInt8) : Except Fault (EchoServer C) := do
  let s := { s with conn := Function.update s.conn c ((s.conn c).send msg) }
  if Alive s.connectionBuckets c then
    let buckets ← insertBack s.connectionBuckets c
    return { s with connectionBuckets := buckets }
  else return s

/-- `push_back(Bucket())` of a full buffer overwrites the first bucket; the entries that were in no
other bucket are destroyed. Without capacity nothing happens. -/
def onTimer (s : EchoServer C) : EchoServer C :=
  match s.connectionBuckets with
  | [] => s
  | front :: rest =>
    let buckets := rest ++ [∅]
    { connectionBuckets := buckets
      conn := fun c =>
        if c ∈ front ∧ ¬Alive buckets c then (s.conn c).shutdown else s.conn c }

def step (s : EchoServer C) : Event C → Except Fault (EchoServer C)
  | .up c => s.onConnectionUp c
  | .down c => .ok (s.onConnectionDown c)
  | .message c msg => s.onMessage c msg
  | .timer => .ok s.onTimer

/-- A connection comes up once. -/
def enabled (s : EchoServer C) : Event C → Prop
  | .up c => (s.conn c).state = .kConnecting
  | .down c | .message c _ =>
    (s.conn c).state = .kConnected ∨ (s.conn c).state = .kDisconnecting
  | .timer => True

def init (idleSeconds : ℕ) : EchoServer C where
  connectionBuckets := List.replicate idleSeconds ∅
  conn _ := ⟨.kConnecting, []⟩

def system (idleSeconds : ℕ) : System (EchoServer C) (Event C) Fault where
  init := (· = init idleSeconds)
  enabled := enabled
  step := step

instance (n : ℕ) (s : EchoServer C) (e : Event C) :
    Decidable ((system (C := C) n).enabled s e) :=
  match e with
  | .up c => inferInstanceAs (Decidable ((s.conn c).state = .kConnecting))
  | .down c | .message c _ => inferInstanceAs (Decidable ((s.conn c).state = .kConnected ∨
    (s.conn c).state = .kDisconnecting))
  | .timer => inferInstanceAs (Decidable True)

end EchoServer

/-! ### Idle connections -/

/-- What a connection has lived through: `open silent` is one that has been silent for so many
ticks. -/
inductive Life
  | fresh
  | open (silent : ℕ)
  | expired
  | closed
  deriving DecidableEq, Repr

section Life
variable {C : Type} [DecidableEq C]

/-- A connection expires with the tick number `idleSeconds` of its silence, and only then. -/
def Life.after (idleSeconds : ℕ) (c : C) : Life → Event C → Life
  | .fresh, .up d => if d = c then .open 0 else .fresh
  | .open silent, .message d _ => if d = c then .open 0 else .open silent
  | .open silent, .timer => if silent + 1 = idleSeconds then .expired else .open (silent + 1)
  | .open silent, .down d => if d = c then .closed else .open silent
  | .expired, .down d => if d = c then .closed else .expired
  | life, _ => life

/-- What is echoed to the connection: a message that arrives before it expires. -/
def Life.echo (c : C) : Life → Event C → List UInt8
  | .open _, .message d msg => if d = c then msg else []
  | _, _ => []

/-- The life of a connection, and all that is echoed to it. -/
def trace (idleSeconds : ℕ) (c : C) (es : List (Event C)) : Life × List UInt8 :=
  es.foldl (fun p e => (p.1.after idleSeconds c e, p.2 ++ p.1.echo c e)) (.fresh, [])

theorem trace_concat (idleSeconds : ℕ) (c : C) (es : List (Event C)) (e : Event C) :
    trace idleSeconds c (es ++ [e]) = ((trace idleSeconds c es).1.after idleSeconds c e,
      (trace idleSeconds c es).2 ++ (trace idleSeconds c es).1.echo c e) := by
  rw [trace, List.foldl_append]
  rfl

def Life.state : Life → StateE
  | .fresh => .kConnecting
  | .open _ => .kConnected
  | .expired => .kDisconnecting
  | .closed => .kDisconnected

end Life

section Buckets
variable {C : Type} [DecidableEq C] {buckets : List (Finset C)} {front : Finset C} {c d : C}

/-- For how many ticks the entry has been silent: how far the last bucket that it is in is from
the back. -/
def silence (buckets : List (Finset C)) (c : C) : Option ℕ :=
  buckets.reverse.findIdx? (c ∈ ·)

theorem silence_eq_none_iff : silence buckets c = none ↔ ¬EchoServer.Alive buckets c := by
  rw [silence, List.findIdx?_eq_none_iff]
  simp [EchoServer.Alive]

theorem silence_lt {k : ℕ} (h : silence buckets c = some k) : k < buckets.length := by
  have hlt := (List.findIdx?_eq_some_iff_findIdx_eq.mp h).1
  rwa [List.length_reverse] at hlt

theorem silence_insertBack {buckets' : List (Finset C)}
    (h : EchoServer.insertBack buckets c = .ok buckets') :
    silence buckets' c = some 0 ∧ (∀ d, d ≠ c → silence buckets' d = silence buckets d) ∧
      buckets'.length = buckets.length := by
  unfold EchoServer.insertBack at h
  cases hback : buckets.getLast? with
  | none =>
    rw [hback] at h
    cases h
  | some back =>
    rw [hback] at h
    have h := Except.ok.inj h
    obtain ⟨early, hbuckets⟩ := List.getLast?_eq_some_iff.mp hback
    rw [hbuckets, List.dropLast_concat] at h
    rw [← h, hbuckets]
    refine ⟨?_, fun d hd => ?_, ?_⟩
    · simp [silence, List.findIdx?_cons]
    · simp [silence, List.findIdx?_cons, hd]
    · simp

theorem silence_tick : silence (buckets ++ [∅]) c = (silence buckets c).map (· + 1) := by
  rw [silence, List.reverse_append]
  simp [List.findIdx?_cons, silence]

/-- The oldest bucket matters to those only that are in no other. -/
theorem silence_cons : silence (front :: buckets) c =
    (silence buckets c).or (if c ∈ front then some buckets.length else none) := by
  rw [silence, List.reverse_cons, List.findIdx?_append]
  simp [silence, List.findIdx?_cons]

end Buckets

namespace EchoServer
variable {C : Type} [DecidableEq C] {n : ℕ} {buckets buckets' : List (Finset C)} {c d : C}
  {conn : Connection} {life : Life} {sent : List UInt8} {s t : EchoServer C} {e : Event C}
  {es : List (Event C)}

/-- The wheel shows the life of the connection. -/
structure Shows (buckets : List (Finset C)) (c : C) (conn : Connection) (life : Life)
    (sent : List UInt8) : Prop where
  state : conn.state = life.state
  sent : conn.sent = sent
  silent : ∀ k, life = .open k → silence buckets c = some k
  out : life = .fresh ∨ life = .expired → silence buckets c = none

structure Inv (n : ℕ) (es : List (Event C)) (s : EchoServer C) : Prop where
  length : s.connectionBuckets.length = n
  shows : ∀ c, Shows s.connectionBuckets c (s.conn c) (trace n c es).1 (trace n c es).2

omit [DecidableEq C] in
theorem state_injective {life life' : Life} (h : life.state = life'.state)
    (hopen : ∀ k, life ≠ .open k) : life = life' := by
  cases life with
  | fresh => cases life' <;> first | rfl | cases h
  | «open» k => exact absurd rfl (hopen k)
  | expired => cases life' <;> first | rfl | cases h
  | closed => cases life' <;> first | rfl | cases h

/-- Nothing happens to a connection that an event is not about. -/
theorem Shows.other (h : Shows buckets c conn life sent) (hb : silence buckets' c = silence buckets c)
    (hafter : life.after n c e = life) (hecho : life.echo c e = []) :
    Shows buckets' c conn (life.after n c e) (sent ++ life.echo c e) := by
  rw [hafter, hecho, List.append_nil]
  exact ⟨h.state, h.sent, fun k hk => hb.trans (h.silent k hk), fun hout => hb.trans (h.out hout)⟩

theorem Shows.up (h : Shows buckets d conn life sent) (hconn : conn.state = .kConnecting)
    (hb : silence buckets' d = some 0) :
    Shows buckets' d { conn with state := .kConnected } (life.after n d (.up d))
      (sent ++ life.echo d (.up d)) := by
  have hfresh : life = .fresh := by
    have hstate := h.state
    rw [hconn] at hstate
    cases life <;> first | rfl | cases hstate
  subst hfresh
  have hafter : Life.fresh.after n d (.up d) = .open 0 := if_pos rfl
  have hecho : Life.fresh.echo d (.up d) = [] := rfl
  rw [hafter, hecho, List.append_nil]
  refine ⟨rfl, h.sent, fun k hk => ?_, fun hout => ?_⟩
  · cases hk
    exact hb
  · rcases hout with hout | hout
    · cases hout
    · cases hout

theorem Shows.down (h : Shows buckets d conn life sent)
    (hconn : conn.state = .kConnected ∨ conn.state = .kDisconnecting) :
    Shows buckets d { conn with state := .kDisconnected } (life.after n d (.down d))
      (sent ++ life.echo d (.down d)) := by
  have hafter : life.after n d (.down d) = .closed := by
    rw [h.state] at hconn
    cases life with
    | fresh => rcases hconn with hconn | hconn <;> cases hconn
    | «open» k => exact if_pos rfl
    | expired => exact if_pos rfl
    | closed => rfl
  have hecho : life.echo d (.down d) = [] := by cases life <;> rfl
  rw [hafter, hecho, List.append_nil]
  refine ⟨rfl, h.sent, fun k hk => ?_, fun hout => ?_⟩
  · cases hk
  · rcases hout with hout | hout
    · cases hout
    · cases hout

theorem alive_iff : Alive buckets c ↔ (silence buckets c).isSome := by
  rw [← not_iff_not, ← silence_eq_none_iff, Option.not_isSome_iff_eq_none]

/-- A message of a connection that has not expired brings its entry to the last bucket. -/
theorem Shows.message (h : Shows buckets d conn life sent)
    (hconn : conn.state = .kConnected ∨ conn.state = .kDisconnecting) (msg : List UInt8)
    (halive : Alive buckets d → silence buckets' d = some 0)
    (hdead : ¬Alive buckets d → buckets' = buckets) :
    Shows buckets' d (conn.send msg) (life.after n d (.message d msg))
      (sent ++ life.echo d (.message d msg)) := by
  rw [h.state] at hconn
  cases life with
  | fresh => rcases hconn with hconn | hconn <;> cases hconn
  | closed => rcases hconn with hconn | hconn <;> cases hconn
  | «open» k =>
    have hafter : (Life.open k).after n d (.message d msg) = .open 0 := if_pos rfl
    have hecho : (Life.open k).echo d (.message d msg) = msg := if_pos rfl
    have hstate : conn.state = .kConnected := h.state
    rw [hafter, hecho, Connection.send, if_pos hstate]
    refine ⟨hstate, congrArg (· ++ msg) h.sent, fun j hj => ?_, fun hout => ?_⟩
    · cases hj
      apply halive
      rw [alive_iff, h.silent k rfl]
      rfl
    · rcases hout with hout | hout
      · cases hout
      · cases hout
  | expired =>
    have hstate : conn.state ≠ .kConnected := by
      rw [h.state]
      decide
    rw [hdead (silence_eq_none_iff.mp (h.out (Or.inr rfl))), Connection.send, if_neg hstate]
    exact h.other rfl rfl rfl

/-- With a tick every silence lasts longer, and the entry that leaves the wheel is that of a
connection whose silence has lasted for all its buckets. -/
theorem Shows.timer {front : Finset C} {rest : List (Finset C)}
    (h : Shows (front :: rest) c conn life sent) (hn : rest.length + 1 = n) :
    Shows (rest ++ [∅]) c
      (if c ∈ front ∧ ¬Alive (rest ++ [∅]) c then conn.shutdown else conn)
      (life.after n c .timer) (sent ++ life.echo c .timer) := by
  have hecho : life.echo c .timer = [] := by cases life <;> rfl
  have hnone : life = .fresh ∨ life = .expired → silence rest c = none ∧ c ∉ front := by
    intro hout
    have hall := h.out hout
    rw [silence_cons, Option.or_eq_none_iff] at hall
    refine ⟨hall.1, fun hmem => ?_⟩
    rw [if_pos hmem] at hall
    cases hall.2
  rw [hecho, List.append_nil]
  cases life with
  | fresh =>
    obtain ⟨hrest, hfront⟩ := hnone (Or.inl rfl)
    rw [if_neg fun hand => hfront hand.1]
    refine ⟨h.state, h.sent, fun k hk => (by cases hk), fun _ => ?_⟩
    rw [silence_tick, hrest]
    rfl
  | expired =>
    obtain ⟨hrest, hfront⟩ := hnone (Or.inr rfl)
    rw [if_neg fun hand => hfront hand.1]
    refine ⟨h.state, h.sent, fun k hk => (by cases hk), fun _ => ?_⟩
    rw [silence_tick, hrest]
    rfl
  | closed =>
    have hstate : conn.state ≠ .kConnected := by
      rw [h.state]
      decide
    rw [Connection.shutdown, if_neg hstate, ite_self]
    refine ⟨h.state, h.sent, fun k hk => (by cases hk), fun hout => ?_⟩
    rcases hout with hout | hout
    · cases hout
    · cases hout
  | «open» k =>
    have hk := h.silent k rfl
    rw [silence_cons] at hk
    cases hrest : silence rest c with
    | some j =>
      rw [hrest, Option.some_or] at hk
      have hj := silence_lt hrest
      cases hk
      have hafter : (Life.open k).after n c .timer = .open (k + 1) := if_neg (by omega)
      have halive : Alive (rest ++ [∅]) c := by
        rw [alive_iff, silence_tick, hrest]
        rfl
      rw [hafter, if_neg fun hand => hand.2 halive]
      refine ⟨h.state, h.sent, fun i hi => ?_, fun hout => ?_⟩
      · cases hi
        rw [silence_tick, hrest]
        rfl
      · rcases hout with hout | hout
        · cases hout
        · cases hout
    | none =>
      rw [hrest, Option.none_or] at hk
      split_ifs at hk with hfront
      cases hk
      have hafter : (Life.open rest.length).after n c .timer = .expired := if_pos hn
      have hdead : ¬Alive (rest ++ [∅]) c := by
        rw [alive_iff, silence_tick, hrest]
        decide
      have hstate : conn.state = .kConnected := h.state
      rw [hafter, if_pos ⟨hfront, hdead⟩, Connection.shutdown, if_pos hstate]
      refine ⟨rfl, h.sent, fun i hi => (by cases hi), fun _ => ?_⟩
      rw [silence_tick, hrest]
      rfl

theorem after_up_of_ne (hd : d ≠ c) (life : Life) : life.after n c (.up d) = life := by
  cases life <;> first | rfl | exact if_neg hd

theorem after_down_of_ne (hd : d ≠ c) (life : Life) : life.after n c (.down d) = life := by
  cases life <;> first | rfl | exact if_neg hd

theorem after_message_of_ne (hd : d ≠ c) (life : Life) (msg : List UInt8) :
    life.after n c (.message d msg) = life ∧ life.echo c (.message d msg) = [] := by
  cases life <;> first | exact ⟨rfl, rfl⟩ | exact ⟨if_neg hd, if_neg hd⟩

theorem insertBack_ok (hn : 0 < buckets.length) (c : C) :
    ∃ buckets', insertBack buckets c = .ok buckets' := by
  have hne : buckets ≠ [] := List.ne_nil_of_length_pos hn
  unfold insertBack
  rw [List.getLast?_eq_some_getLast hne]
  exact ⟨_, rfl⟩

/-- The buckets after `insertBack`, for the connection whose entry is inserted and all others. -/
theorem Inv.insertBack (h : Inv n es s) (hb : insertBack s.connectionBuckets c = .ok buckets) :
    buckets.length = n ∧ silence buckets c = some 0 ∧
      ∀ d, d ≠ c → silence buckets d = silence s.connectionBuckets d := by
  obtain ⟨hself, hother, hlength⟩ := silence_insertBack hb
  exact ⟨hlength.trans h.length, hself, hother⟩

theorem Inv.step (h : Inv n es s) (he : enabled s e) (hs : step s e = .ok t) :
    Inv n (es ++ [e]) t := by
  cases e with
  | up c =>
    obtain ⟨buckets, hb, hs⟩ := bind_eq_ok.mp hs
    obtain ⟨hlength, hself, hother⟩ := h.insertBack hb
    rw [← Except.ok.inj hs]
    refine ⟨hlength, fun d => ?_⟩
    rw [trace_concat]
    by_cases hd : d = c
    · subst hd
      simp only [Function.update_self]
      exact (h.shows d).up he hself
    · simp only [Function.update_of_ne hd]
      exact (h.shows d).other (hother d hd) (after_up_of_ne (Ne.symm hd) _)
        (by cases (trace n d es).1 <;> rfl)
  | down c =>
    rw [← Except.ok.inj hs]
    refine ⟨h.length, fun d => ?_⟩
    rw [trace_concat]
    by_cases hd : d = c
    · subst hd
      simp only [onConnectionDown, Function.update_self]
      exact (h.shows d).down he
    · simp only [onConnectionDown, Function.update_of_ne hd]
      exact (h.shows d).other rfl (after_down_of_ne (Ne.symm hd) _)
        (by cases (trace n d es).1 <;> rfl)
  | message c msg =>
    have hs : s.onMessage c msg = .ok t := hs
    unfold onMessage at hs
    dsimp only at hs
    by_cases halive : Alive s.connectionBuckets c
    · rw [if_pos halive] at hs
      obtain ⟨buckets, hb, hs⟩ := bind_eq_ok.mp hs
      obtain ⟨hlength, hself, hother⟩ := h.insertBack hb
      rw [← Except.ok.inj hs]
      refine ⟨hlength, fun d => ?_⟩
      rw [trace_concat]
      by_cases hd : d = c
      · subst hd
        simp only [Function.update_self]
        exact (h.shows d).message he msg (fun _ => hself) fun hdead => absurd halive hdead
      · obtain ⟨hafter, hecho⟩ := after_message_of_ne (n := n) (Ne.symm hd) (trace n d es).1 msg
        simp only [Function.update_of_ne hd]
        exact (h.shows d).other (hother d hd) hafter hecho
    · rw [if_neg halive] at hs
      rw [← Except.ok.inj hs]
      refine ⟨h.length, fun d => ?_⟩
      rw [trace_concat]
      by_cases hd : d = c
      · subst hd
        simp only [Function.update_self]
        exact (h.shows d).message he msg (fun hlive => absurd hlive halive) fun _ => rfl
      · obtain ⟨hafter, hecho⟩ := after_message_of_ne (n := n) (Ne.symm hd) (trace n d es).1 msg
        simp only [Function.update_of_ne hd]
        exact (h.shows d).other rfl hafter hecho
  | timer =>
    rw [← Except.ok.inj hs]
    have hlength := h.length
    have hshows := h.shows
    unfold onTimer
    cases hbuckets : s.connectionBuckets with
    | nil =>
      refine ⟨by rw [← h.length], fun d => ?_⟩
      rw [trace_concat]
      apply (h.shows d).other rfl
      · cases hlife : (trace n d es).1 with
        | fresh => rfl
        | «open» k =>
          have hk := (h.shows d).silent k hlife
          rw [hbuckets] at hk
          cases hk
        | expired => rfl
        | closed => rfl
      · cases (trace n d es).1 <;> rfl
    | cons front rest =>
      rw [hbuckets] at hlength hshows
      refine ⟨?_, fun d => ?_⟩
      · rw [← hlength]
        simp
      · rw [trace_concat]
        exact (hshows d).timer hlength

theorem inv_init (n : ℕ) : Inv n [] (init n : EchoServer C) := by
  refine ⟨List.length_replicate, fun c => ⟨rfl, rfl, fun k hk => (by cases hk), fun _ => ?_⟩⟩
  rw [silence_eq_none_iff]
  intro halive
  obtain ⟨b, hb, hc⟩ := halive
  rw [List.eq_of_mem_replicate hb] at hc
  cases hc

theorem inv_run (hr : Run (system n) (init n) es s) : Inv n es s := by
  induction hr with
  | nil => exact inv_init n
  | snoc _ he hs ih => exact ih.step he hs

/-- In every run each connection is shut down with the tick that completes `idleSeconds` ticks
without a message of it, no earlier and no later, and until then all its messages are echoed. With
at least one bucket no step fails. -/
theorem life_run (hr : Run (system n) (init n) es s) :
    (∀ c, (s.conn c).state = (trace n c es).1.state ∧ (s.conn c).sent = (trace n c es).2) ∧
      (0 < n → ∀ e, enabled s e → ∃ t, step s e = .ok t) := by
  have h := inv_run hr
  refine ⟨fun c => ⟨(h.shows c).state, (h.shows c).sent⟩, fun hn e _ => ?_⟩
  have hpos : 0 < s.connectionBuckets.length := by rwa [h.length]
  cases e with
  | up c =>
    obtain ⟨buckets, hb⟩ := insertBack_ok hpos c
    use ⟨buckets, Function.update s.conn c { s.conn c with state := .kConnected }⟩
    rw [step, onConnectionUp, hb]
    rfl
  | down c => exact ⟨_, rfl⟩
  | message c msg =>
    obtain ⟨buckets, hb⟩ := insertBack_ok hpos c
    by_cases halive : Alive s.connectionBuckets c
    · use ⟨buckets, Function.update s.conn c ((s.conn c).send msg)⟩
      rw [step, onMessage, if_pos halive, hb]
      rfl
    · use ⟨s.connectionBuckets, Function.update s.conn c ((s.conn c).send msg)⟩
      rw [step, onMessage, if_neg halive]
      rfl
  | timer => exact ⟨_, rfl⟩

/-- Of two connections one speaks once more, and outlives the other by a tick. -/
theorem life_run_two : ∃ s : EchoServer Bool,
    Run (system 2) (init 2) [.up true, .up false, .timer, .message true [104], .timer] s ∧
      (s.conn true).state = .kConnected ∧ (s.conn true).sent = [104] ∧
      (s.conn false).state = .kDisconnecting := by
  have hreplay : (replay (system 2) (init 2 : EchoServer Bool)
      [.up true, .up false, .timer, .message true [104], .timer]).any (fun _ => true) = true := by
    decide +kernel
  obtain ⟨s, hr, -⟩ := exists_run_of_replay (system 2) hreplay
  obtain ⟨hlife, -⟩ := life_run hr
  exact ⟨s, hr, (hlife true).1, (hlife true).2, (hlife false).1⟩

end EchoServer
end Muduo.TimingWheel
