import Mathlib.Data.Fintype.Basic
import Mathlib.Logic.Function.Basic
import Muduo.Library.StepSystem

/-!
# The shared list of connections

`examples/asio/chat/server_threaded_efficient.cc`: the list that `connections_` points to is read
without the mutex by every thread that has taken a reference to it. A writer who is not alone
with the list makes a copy first.
-/
namespace Muduo.SharedList
open StepSystem

/-- A thread in `onStringMessage`: the list it refers to, the position of `it`, and the
connections that it has sent the message to. -/
structure Reader (C : Type) where
  connections : ℕ
  it : ℕ
  sent : List C

inductive Fault
  /-- `ChatServer::onConnection`: `connections_.unique()` -/
  | notUnique
  deriving DecidableEq, Repr

/-- The lists by their addresses, of which those from `fresh` on are not in use yet. -/
structure ChatServer (C T : Type) where
  lists : ℕ → List C
  fresh : ℕ
  connections : ℕ
  readers : T → Option (Reader C)

inductive Event (C T : Type)
  /-- `onConnection` of a connection that is up -/
  | up (t : T) (c : C)
  /-- and of one that is down -/
  | down (t : T) (c : C)
  /-- `getConnectionList` -/
  | get (t : T)
  /-- one iteration of the loop of `onStringMessage` -/
  | send (t : T)
  /-- the loop has ended, and the reference goes -/
  | finish (t : T)
  deriving DecidableEq

namespace ChatServer
variable {C T : Type} [DecidableEq C] [DecidableEq T] [Fintype T]

/-- `connections_.unique()`: no thread has a reference to the list. -/
def Unique (s : ChatServer C T) : Prop :=
  ∀ t, (s.readers t).map Reader.connections ≠ some s.connections

instance (s : ChatServer C T) : Decidable s.Unique := inferInstanceAs (Decidable (∀ _, _))

/-- `*connections_` -/
def list (s : ChatServer C T) : List C := s.lists s.connections

/-- `connections_.reset(new ConnectionList(*connections_))` -/
def reset (s : ChatServer C T) : ChatServer C T :=
  { s with
    lists := Function.update s.lists s.fresh s.list
    fresh := s.fresh + 1
    connections := s.fresh }

/-- What `onConnection` does with the mutex; `change` inserts or erases. -/
def onConnection (s : ChatServer C T) (change : List C → List C) : Except Fault (ChatServer C T) :=
  let s := if s.Unique then s else s.reset
  if s.Unique then
    .ok { s with lists := Function.update s.lists s.connections (change s.list) }
  else .error .notUnique

def setReader (s : ChatServer C T) (t : T) (r : Option (Reader C)) : ChatServer C T :=
  { s with readers := Function.update s.readers t r }

def step (s : ChatServer C T) : Event C T → Except Fault (ChatServer C T)
  | .up _ c => s.onConnection fun cs => if c ∈ cs then cs else cs ++ [c]
  | .down _ c => s.onConnection fun cs => cs.erase c
  | .get t => .ok (s.setReader t (some ⟨s.connections, 0, []⟩))
  | .send t => match s.readers t with
    | some r => match (s.lists r.connections)[r.it]? with
      | some c => .ok (s.setReader t (some { r with it := r.it + 1, sent := r.sent ++ [c] }))
      | none => .ok s
    | none => .ok s
  | .finish t => .ok (s.setReader t none)

/-- A thread does one thing at a time, and leaves the loop at the end of the list. -/
def enabled (s : ChatServer C T) : Event C T → Prop
  | .up t _ | .down t _ | .get t => s.readers t = none
  | .send t => ∃ r ∈ s.readers t, r.it < (s.lists r.connections).length
  | .finish t => ∃ r ∈ s.readers t, r.it = (s.lists r.connections).length

def init : ChatServer C T := ⟨fun _ => [], 1, 0, fun _ => none⟩

def system : System (ChatServer C T) (Event C T) Fault where
  init := (· = init)
  enabled := enabled
  step := step

variable {s s' : ChatServer C T} {t : T} {e : Event C T} {es : List (Event C T)} {r : Reader C}

/-- All addresses that are referred to are in use. -/
structure Inv (s : ChatServer C T) : Prop where
  connections : s.connections < s.fresh
  readers : ∀ t, ∀ r ∈ s.readers t, r.connections < s.fresh

omit [DecidableEq C] [DecidableEq T] in
/-- After the copy, if one is made, the writer is alone with a list of the same content, and all
other lists are as before. -/
theorem Inv.unique (h : Inv s) : ∃ u : ChatServer C T, (if s.Unique then s else s.reset) = u ∧
    u.Unique ∧ Inv u ∧ u.list = s.list ∧ u.readers = s.readers ∧
    ∀ t, ∀ r ∈ s.readers t, u.lists r.connections = s.lists r.connections := by
  by_cases hu : s.Unique
  · rw [if_pos hu]
    exact ⟨s, rfl, hu, h, rfl, rfl, fun _ _ _ => rfl⟩
  · rw [if_neg hu]
    refine ⟨s.reset, rfl, fun t ht => ?_, ⟨Nat.lt_succ_self _, fun t r hr => ?_⟩, ?_, rfl,
      fun t r hr => ?_⟩
    · obtain ⟨r, hr, heq⟩ := Option.map_eq_some_iff.mp ht
      exact absurd heq (h.readers t r hr).ne
    · exact (h.readers t r hr).trans (Nat.lt_succ_self _)
    · simp [reset, list]
    · exact Function.update_of_ne (h.readers t r hr).ne ..

omit [DecidableEq C] [DecidableEq T] in
/-- `onConnection` changes the list that `connections_` points to, and none that is being read. -/
theorem Inv.onConnection (h : Inv s) (change : List C → List C) :
    ∃ s', s.onConnection change = .ok s' ∧ Inv s' ∧ s'.list = change s.list ∧
      s'.readers = s.readers ∧
      ∀ t, ∀ r ∈ s.readers t, s'.lists r.connections = s.lists r.connections := by
  obtain ⟨u, hu, hunique, hinv, hlist, hreaders, hsame⟩ := h.unique
  refine ⟨{ u with lists := Function.update u.lists u.connections (change u.list) }, ?_,
    ⟨hinv.connections, hinv.readers⟩, ?_, hreaders, fun t r hr => ?_⟩
  · simp only [ChatServer.onConnection, hu, if_pos hunique]
  · rw [← hlist]
    simp [list]
  · have hne : r.connections ≠ u.connections := by
      intro heq
      apply hunique t
      rw [hreaders, Option.mem_def.mp hr, Option.map_some, heq]
    exact (Function.update_of_ne hne ..).trans (hsame t r hr)

omit [Fintype T] [DecidableEq C] in
theorem Inv.setReader (h : Inv s) {r : Option (Reader C)} (hr : ∀ r' ∈ r, r'.connections < s.fresh) :
    Inv (s.setReader t r) := by
  refine ⟨h.connections, fun t' r' hr' => ?_⟩
  by_cases ht : t' = t
  · subst ht
    exact hr r' (by simpa [ChatServer.setReader] using hr')
  · exact h.readers t' r' (by simpa [ChatServer.setReader, ht] using hr')

theorem step_spec (h : Inv s) (e : Event C T) : ∃ s', step s e = .ok s' ∧ Inv s' := by
  cases e with
  | up t c =>
    obtain ⟨s', hs', hinv, -⟩ := h.onConnection fun cs => if c ∈ cs then cs else cs ++ [c]
    exact ⟨s', hs', hinv⟩
  | down t c =>
    obtain ⟨s', hs', hinv, -⟩ := h.onConnection fun cs => cs.erase c
    exact ⟨s', hs', hinv⟩
  | get t =>
    refine ⟨_, rfl, h.setReader fun r' hr' => ?_⟩
    rw [← Option.some.inj hr']
    exact h.connections
  | send t =>
    cases hr : s.readers t with
    | none => exact ⟨s, by simp only [step, hr], h⟩
    | some r =>
      cases hc : (s.lists r.connections)[r.it]? with
      | none => exact ⟨s, by simp only [step, hr, hc], h⟩
      | some c =>
        refine ⟨_, by simp only [step, hr, hc]; rfl, h.setReader fun r' hr' => ?_⟩
        rw [← Option.some.inj hr']
        exact h.readers t r hr
  | finish t => exact ⟨_, rfl, h.setReader (by simp)⟩

/-- `connections_.unique()` holds where it is asserted, in every run. -/
theorem totalInvariant : TotalInvariant (system (C := C) (T := T)) Inv where
  init := by
    intro s hs
    have hs : s = init := hs
    subst hs
    exact ⟨Nat.one_pos, by simp [init]⟩
  step := fun _ e h _ => step_spec h e

/-- The thread `t` reads the list `cs`, and has sent to the connections in front of `it`. -/
def Reading (t : T) (cs : List C) (s : ChatServer C T) : Prop :=
  ∃ r ∈ s.readers t, s.lists r.connections = cs ∧ r.sent = cs.take r.it ∧ r.it ≤ cs.length

omit [DecidableEq C] [DecidableEq T] in
theorem Reading.onConnection {cs : List C} (h : Inv s) (hr : Reading t cs s)
    {change : List C → List C} (hs : s.onConnection change = .ok s') : Reading t cs s' := by
  obtain ⟨r, hmem, hlist, hsent⟩ := hr
  obtain ⟨u, hu, -, -, hreaders, hsame⟩ := h.onConnection change
  have heq := Except.ok.inj (hs.symm.trans hu)
  subst heq
  exact ⟨r, by rw [hreaders]; exact hmem, (hsame t r hmem).trans hlist, hsent⟩

omit [Fintype T] [DecidableEq C] in
theorem Reading.setReader {cs : List C} {t' : T} (hr : Reading t cs s) (hne : t ≠ t')
    (r' : Option (Reader C)) : Reading t cs (s.setReader t' r') := by
  obtain ⟨r, hmem, hlist⟩ := hr
  exact ⟨r, by simpa [ChatServer.setReader, hne] using hmem, hlist⟩

theorem Reading.step {cs : List C} (h : Inv s) (hr : Reading t cs s) (he : enabled s e)
    (hfinish : e ≠ .finish t) (hs : step s e = .ok s') : Reading t cs s' := by
  cases e with
  | up t' c =>
    simp only [ChatServer.step] at hs
    exact hr.onConnection h hs
  | down t' c =>
    simp only [ChatServer.step] at hs
    exact hr.onConnection h hs
  | get t' =>
    have hne : t ≠ t' := by
      intro heq
      obtain ⟨r, hmem, -⟩ := hr
      have hnone : s.readers t' = none := he
      rw [heq, hnone] at hmem
      cases hmem
    simp only [ChatServer.step] at hs
    exact Except.ok.inj hs ▸ hr.setReader hne _
  | send t' =>
    obtain ⟨r', hr', hlt⟩ := he
    have hr' : s.readers t' = some r' := hr'
    simp only [ChatServer.step, hr', List.getElem?_eq_getElem hlt] at hs
    rw [← Except.ok.inj hs]
    by_cases hne : t = t'
    · subst hne
      obtain ⟨r, hmem, hlist, hsent, hle⟩ := hr
      have heq : r' = r := Option.some.inj (hr'.symm.trans hmem)
      subst heq
      subst hlist
      exact ⟨_, Function.update_self .., rfl,
        hsent ▸ (List.take_succ_eq_append_getElem hlt).symm, Nat.succ_le_of_lt hlt⟩
    · exact hr.setReader hne _
  | finish t' =>
    have hne : t ≠ t' := fun heq => hfinish (heq ▸ rfl)
    simp only [ChatServer.step] at hs
    exact Except.ok.inj hs ▸ hr.setReader hne _

/-- A thread that goes through the list sends to the connections that were there when it took
its reference, whatever the other threads do meanwhile. -/
theorem sent_snapshot (hreach : Reachable system s) (hget : enabled s (.get t))
    (hs : step s (.get t) = .ok s') {u : ChatServer C T} (hrun : Run system s' es u)
    (hes : .finish t ∉ es) :
    ∃ r ∈ u.readers t, u.lists r.connections = s.list ∧ r.sent = s.list.take r.it ∧
      (enabled u (.finish t) → r.sent = s.list) := by
  have hinv := (totalInvariant.invariant system).reachable system
    (reachable_step system (.get t) hreach hget hs)
  have hstart : Reading t s.list s' := by
    rw [← Except.ok.inj hs]
    exact ⟨_, Function.update_self .., rfl, rfl, Nat.zero_le _⟩
  have hend : Inv u ∧ Reading t s.list u := by
    induction hrun with
    | nil => exact ⟨hinv, hstart⟩
    | @snoc a b es e _ he hst ih =>
      rw [List.mem_append, not_or] at hes
      obtain ⟨ha, hread⟩ := ih hes.1
      obtain ⟨b', hb', hinv'⟩ := step_spec ha e
      have heq := Except.ok.inj (hb'.symm.trans hst)
      exact ⟨heq ▸ hinv', hread.step ha he (fun heq => hes.2 (by simp [heq])) hst⟩
  obtain ⟨r, hmem, hlist, hsent, hle⟩ := hend.2
  refine ⟨r, hmem, hlist, hsent, fun ⟨r', hr', hlen⟩ => ?_⟩
  have heq : r' = r := Option.some.inj (hr'.symm.trans hmem)
  subst heq
  rw [hsent, List.take_of_length_le (by rw [← hlist, hlen])]

/-- A connection goes down while the other thread reads the list that it is on. -/
theorem sent_snapshot_connection_down :
    ∃ s s' u : ChatServer ℕ Bool, step s (.get true) = .ok s' ∧ u.list = [2] ∧
      ∃ r ∈ u.readers true, u.lists r.connections = s.list ∧ r.sent = s.list.take r.it ∧
        (enabled u (.finish true) → r.sent = s.list) := by
  have hreach : Reachable (system (C := ℕ) (T := Bool)) _ :=
    reachable_step _ (.up false 2) (reachable_step _ (.up false 1) (reachable_init _ rfl) rfl rfl)
      rfl rfl
  have hsnap := @sent_snapshot _ _ _ _ _ _ _ true [.down false 1, .send true] hreach rfl rfl _
    (.snoc (.snoc (.nil _) rfl rfl) ⟨_, rfl, by decide⟩ rfl) (by decide)
  exact ⟨_, _, _, rfl, rfl, hsnap⟩

end ChatServer
end Muduo.SharedList
