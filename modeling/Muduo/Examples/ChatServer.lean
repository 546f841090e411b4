import Muduo.Examples.LengthHeaderCodec
import Muduo.Library.StepSystem
import Muduo.TcpConnection

/-!
# The chat server

`examples/asio/chat/server_threaded_highperformance.cc`: any number of loop threads, each with
the connections of its own. A message is put into the functors of every loop while `mutex_` is
held. All clients get the messages in the one order in which the mutex was taken.
-/
namespace Muduo.Chat
open StepSystem

/-- What belongs to the thread of a loop. -/
structure IoLoop (C : Type) where
  /-- `connections_.instance()` -/
  connections : List C
  /-- `pendingFunctors_`: `distributeMessage` with its argument -/
  pendingFunctors : List (List UInt8)
  /-- what `doPendingFunctors` has swapped out and not run yet -/
  functors : List (List UInt8)

/-- A connection with the bytes that were given to `sendInLoop`. -/
structure Connection where
  state : StateE
  sent : List UInt8

structure ChatServer (L C : Type) where
  loops : List L
  io : L → IoLoop C
  conn : C → Connection
  /-- while `mutex_` is held: the message, and the loops that have not got it yet -/
  mutex : Option (List UInt8 × List L)

inductive Event (L C : Type)
  /-- `onConnection` of a connection that is up -/
  | up (c : C)
  /-- `onConnection` of one that is down -/
  | down (c : C)
  /-- `conn->shutdown()` -/
  | shutdown (c : C)
  /-- `onStringMessage` takes the mutex -/
  | message (m : List UInt8)
  /-- one iteration of its loop -/
  | queueInLoop
  /-- `doPendingFunctors` begins -/
  | swap (l : L)
  /-- `doPendingFunctors` runs a functor -/
  | run (l : L)
  deriving DecidableEq

namespace ChatServer
variable {L C : Type} [DecidableEq L] [DecidableEq C]

def setConn (s : ChatServer L C) (c : C) (conn : Connection) : ChatServer L C :=
  { s with conn := Function.update s.conn c conn }

def setIo (s : ChatServer L C) (l : L) (io : IoLoop C) : ChatServer L C :=
  { s with io := Function.update s.io l io }

/-- `codec_.send(get_pointer(*it), message)` -/
def sendTo (message : List UInt8) (s : ChatServer L C) (c : C) : Checked (ChatServer L C) := do
  let buf ← Codec.send message
  let conn := s.conn c
  if conn.state = .kConnected then
    return s.setConn c { conn with sent := conn.sent ++ buf.readable }
  else return s

def distributeMessage (s : ChatServer L C) (l : L) (message : List UInt8) :
    Checked (ChatServer L C) :=
  (s.io l).connections.foldlM (sendTo message) s

/-- The mutex is released when the iteration ends. -/
def hold (message : List UInt8) (loops : List L) : Option (List UInt8 × List L) :=
  if loops = [] then none else some (message, loops)

variable (loopOf : C → L)

def onConnectionUp (s : ChatServer L C) (c : C) : ChatServer L C :=
  let io := s.io (loopOf c)
  let s := s.setConn c { s.conn c with state := .kConnected }
  s.setIo (loopOf c) { io with
    connections := if c ∈ io.connections then io.connections else io.connections ++ [c] }

def onConnectionDown (s : ChatServer L C) (c : C) : ChatServer L C :=
  let io := s.io (loopOf c)
  let s := s.setConn c { s.conn c with state := .kDisconnected }
  s.setIo (loopOf c) { io with connections := io.connections.erase c }

def step (s : ChatServer L C) : Event L C → Checked (ChatServer L C)
  | .up c => .ok (s.onConnectionUp loopOf c)
  | .down c => .ok (s.onConnectionDown loopOf c)
  | .shutdown c =>
    let conn := s.conn c
    .ok (if conn.state = .kConnected then s.setConn c { conn with state := .kDisconnecting } else s)
  | .message m => .ok { s with mutex := hold m s.loops }
  | .queueInLoop => match s.mutex with
    | some (m, l :: rest) =>
      let io := s.io l
      .ok { s.setIo l { io with pendingFunctors := io.pendingFunctors ++ [m] } with
        mutex := hold m rest }
    | _ => .ok s
  | .swap l =>
    let io := s.io l
    .ok (s.setIo l { io with pendingFunctors := [], functors := io.pendingFunctors })
  | .run l => match (s.io l).functors with
    | m :: functors => (s.setIo l { s.io l with functors }).distributeMessage l m
    | [] => .ok s

/-- The loop of a connection is one of the server's. A loop swaps its functors when it has run
those it had. -/
def enabled (s : ChatServer L C) : Event L C → Prop
  | .up c => (s.conn c).state = .kConnecting ∧ loopOf c ∈ s.loops
  | .down c => (s.conn c).state = .kConnected ∨ (s.conn c).state = .kDisconnecting
  | .shutdown _ => True
  | .message _ => s.mutex = none
  | .queueInLoop => s.mutex ≠ none
  | .swap l => (s.io l).functors = []
  | .run l => (s.io l).functors ≠ []

instance (s : ChatServer L C) : (e : Event L C) → Decidable (enabled loopOf s e)
  | .up _ => inferInstanceAs (Decidable (_ ∧ _))
  | .down _ => inferInstanceAs (Decidable (_ ∨ _))
  | .shutdown _ => inferInstanceAs (Decidable True)
  | .message _ => inferInstanceAs (Decidable (_ = none))
  | .queueInLoop => inferInstanceAs (Decidable (_ ≠ none))
  | .swap _ => inferInstanceAs (Decidable (_ = []))
  | .run _ => inferInstanceAs (Decidable (_ ≠ []))

/-- The server once its threads have started. -/
def init (loops : List L) : ChatServer L C where
  loops := loops
  io := fun _ => ⟨[], [], []⟩
  conn := fun _ => ⟨.kConnecting, []⟩
  mutex := none

def system (loops : List L) : System (ChatServer L C) (Event L C) Assertion where
  init := (· = init loops)
  enabled := enabled loopOf
  step := step loopOf

variable {loopOf} {loops : List L} {s t : ChatServer L C} {es : List (Event L C)}
  {e : Event L C} {c : C} {l : L} {m m' : List UInt8}

/-- The messages of a run, in the order in which they took the mutex. -/
def log (es : List (Event L C)) : List (List UInt8) :=
  es.filterMap fun e => match e with
    | .message m => some m
    | _ => none

/-- The number of functors that the loop `l` has run. -/
def ran (l : L) (es : List (Event L C)) : ℕ := es.count (.run l)

/-- The number that the loop of `c` had run when `c` came up. -/
def joined (loopOf : C → L) (es : List (Event L C)) (c : C) : ℕ :=
  ran (loopOf c) (es.takeWhile (· ≠ .up c))

/-- The message that `l` is still to get from the thread that holds the mutex. -/
def owed (s : ChatServer L C) (l : L) : List (List UInt8) :=
  match s.mutex with
  | some (m, rest) => if l ∈ rest then [m] else []
  | none => []

/-- What the connection `c` has been sent is a part of the log without gaps, and all of it up to
now if the connection is up. -/
structure ConnInv (loopOf : C → L) (es : List (Event L C)) (s : ChatServer L C) (c : C) : Prop where
  fresh : (s.conn c).state = .kConnecting → (s.conn c).sent = [] ∧ .up c ∉ es
  interval : (s.conn c).state ≠ .kConnecting → .up c ∈ es ∧ ∃ b, joined loopOf es c ≤ b ∧
    b ≤ ran (loopOf c) es ∧
    (s.conn c).sent = (((log es).take b).drop (joined loopOf es c)).flatMap Codec.frame ∧
    ((s.conn c).state = .kConnected → b = ran (loopOf c) es)
  member : (s.conn c).state = .kConnected → c ∈ (s.io (loopOf c)).connections
  loop : ∀ l, c ∈ (s.io l).connections → l = loopOf c
  registered : (s.conn c).state ≠ .kConnecting → loopOf c ∈ s.loops

structure Inv (loopOf : C → L) (loops : List L) (es : List (Event L C)) (s : ChatServer L C) :
    Prop where
  loops : s.loops = loops
  queue : ∀ l ∈ s.loops, ran l es ≤ (log es).length ∧
    (s.io l).functors ++ (s.io l).pendingFunctors ++ s.owed l = (log es).drop (ran l es)
  held : ∀ m rest, s.mutex = some (m, rest) → rest ≠ [] ∧ rest.Nodup
  nodup : ∀ l, (s.io l).connections.Nodup
  conn : ∀ c, ConnInv loopOf es s c

omit [DecidableEq L] [DecidableEq C] in
theorem log_append (es fs : List (Event L C)) : log (es ++ fs) = log es ++ log fs :=
  List.filterMap_append

theorem ran_append (l : L) (es fs : List (Event L C)) : ran l (es ++ fs) = ran l es + ran l fs :=
  List.count_append

theorem takeWhile_of_not_mem (h : .up c ∉ es) : es.takeWhile (· ≠ .up c) = es := by
  have hall : ∀ e ∈ es, decide (e ≠ .up c) = true := by
    intro e he
    have hne : e ≠ .up c := fun heq => h (heq ▸ he)
    simpa using hne
  simpa using @List.takeWhile_append_of_pos _ _ es [] hall

theorem joined_of_not_mem (h : .up c ∉ es) : joined loopOf es c = ran (loopOf c) es := by
  rw [joined, takeWhile_of_not_mem h]

theorem joined_of_mem (h : .up c ∈ es) (fs : List (Event L C)) :
    joined loopOf (es ++ fs) c = joined loopOf es c := by
  obtain ⟨as, bs, hes, hnot⟩ := List.eq_append_cons_of_mem h
  have hcut : ∀ gs : List (Event L C), (as ++ .up c :: gs).takeWhile (· ≠ .up c) = as := by
    intro gs
    have hall : ∀ e ∈ as, decide (e ≠ .up c) = true := by
      intro e he
      have hne : e ≠ .up c := fun heq => hnot (heq ▸ he)
      simpa using hne
    rw [List.takeWhile_append_of_pos hall]
    simp
  rw [joined, joined, hes, List.append_assoc, List.cons_append, hcut, hcut]

omit [DecidableEq L] in
theorem distributeMessage_spec (hnodup : (s.io l).connections.Nodup) :
    ∃ conn', s.distributeMessage l m = .ok { s with conn := conn' } ∧ ∀ c,
      conn' c = if c ∈ (s.io l).connections ∧ (s.conn c).state = .kConnected
        then { s.conn c with sent := (s.conn c).sent ++ Codec.frame m } else s.conn c := by
  rw [distributeMessage]
  generalize (s.io l).connections = cs at hnodup
  obtain ⟨buf, hbuf, hread⟩ := Codec.send_spec m
  induction cs generalizing s with
  | nil => exact ⟨s.conn, rfl, by simp⟩
  | cons c cs ih =>
    obtain ⟨hc, hnodup⟩ := List.nodup_cons.mp hnodup
    rw [List.foldlM_cons, sendTo, hbuf, ok_bind]
    by_cases hup : (s.conn c).state = .kConnected
    · simp only [if_pos hup, pure_eq_ok, ok_bind]
      obtain ⟨conn', hrest, hconn'⟩ := ih hnodup
        (s := s.setConn c { s.conn c with sent := (s.conn c).sent ++ buf.readable })
      refine ⟨conn', hrest, fun d => ?_⟩
      rw [hconn' d]
      by_cases hd : d = c
      · subst hd
        simp [setConn, hc, hup, hread]
      · simp [setConn, hd]
    · simp only [if_neg hup, pure_eq_ok, ok_bind]
      obtain ⟨conn', hrest, hconn'⟩ := ih hnodup (s := s)
      refine ⟨conn', hrest, fun d => ?_⟩
      rw [hconn' d]
      by_cases hd : d = c
      · subst hd
        simp [hc, hup]
      · simp [hd]

theorem inv_init (loops : List L) : Inv loopOf loops [] (init loops : ChatServer L C) where
  loops := rfl
  queue := fun l _ => ⟨le_rfl, rfl⟩
  held := by simp [init]
  nodup := fun _ => List.nodup_nil
  conn := fun c => ⟨fun _ => ⟨rfl, List.not_mem_nil⟩, fun h => absurd rfl h, by simp [init],
    fun _ h => absurd h List.not_mem_nil, fun h => absurd rfl h⟩

omit [DecidableEq L] [DecidableEq C] in
theorem mem_append_event (he : e ≠ .up c) : .up c ∈ es ++ [e] ↔ .up c ∈ es := by
  simp [he.symm]

/-- A step that sends nothing to `c` and runs no functor of its loop. -/
theorem ConnInv.keep (h : ConnInv loopOf es s c) (hup : e ≠ .up c)
    (hran : ran (loopOf c) [e] = 0) (hlen : loopOf c ∈ s.loops → ran (loopOf c) es ≤ (log es).length)
    (hsent : (t.conn c).sent = (s.conn c).sent)
    (hstate : (t.conn c).state = (s.conn c).state ∨ ((s.conn c).state ≠ .kConnecting ∧
      (t.conn c).state ≠ .kConnecting ∧ (t.conn c).state ≠ .kConnected))
    (hmember : (t.conn c).state = .kConnected → c ∈ (s.io (loopOf c)).connections →
      c ∈ (t.io (loopOf c)).connections)
    (hloop : ∀ l, c ∈ (t.io l).connections → c ∈ (s.io l).connections)
    (hloops : t.loops = s.loops) : ConnInv loopOf (es ++ [e]) t c := by
  have hold : (t.conn c).state = .kConnected → (s.conn c).state = .kConnected := by
    intro ht
    rcases hstate with heq | ⟨-, -, hne⟩
    · exact heq ▸ ht
    · exact absurd ht hne
  have hnew : (t.conn c).state ≠ .kConnecting → (s.conn c).state ≠ .kConnecting := by
    intro ht
    rcases hstate with heq | ⟨hne, -, -⟩
    · exact heq ▸ ht
    · exact hne
  refine ⟨fun ht => ?_, fun ht => ?_, fun ht => hmember ht (h.member (hold ht)),
    fun l hc => h.loop l (hloop l hc), fun ht => hloops ▸ h.registered (hnew ht)⟩
  · have hs : (s.conn c).state = .kConnecting := by
      rcases hstate with heq | ⟨-, hne, -⟩
      · exact heq ▸ ht
      · exact absurd ht hne
    rw [hsent, mem_append_event hup]
    exact h.fresh hs
  · obtain ⟨hmem, b, hjb, hb, hinterval, hall⟩ := h.interval (hnew ht)
    have hlog : b ≤ (log es).length := hb.trans (hlen (h.registered (hnew ht)))
    refine ⟨(mem_append_event hup).mpr hmem, b, ?_, ?_, ?_, ?_⟩
    · rw [joined_of_mem hmem]
      exact hjb
    · rw [ran_append]
      omega
    · rw [joined_of_mem hmem, hsent, log_append, List.take_append_of_le_length hlog]
      exact hinterval
    · intro ht
      rw [ran_append, hran]
      exact hall (hold ht)

/-- A step that gives `l` no message and takes none from it. -/
theorem Inv.queue_keep (h : Inv loopOf loops es s) (hran : ∀ l, ran l [e] = 0)
    (hlog : log [e] = []) (hio : ∀ l, (t.io l).functors ++ (t.io l).pendingFunctors ++ t.owed l =
      (s.io l).functors ++ (s.io l).pendingFunctors ++ s.owed l) (hl : l ∈ s.loops) :
    ran l (es ++ [e]) ≤ (log (es ++ [e])).length ∧
      (t.io l).functors ++ (t.io l).pendingFunctors ++ t.owed l =
        (log (es ++ [e])).drop (ran l (es ++ [e])) := by
  rw [ran_append, hran, log_append, hlog, List.append_nil, hio]
  exact h.queue l hl

theorem Inv.up (h : Inv loopOf loops es s) (hstate : (s.conn c).state = .kConnecting)
    (hl : loopOf c ∈ s.loops) : Inv loopOf loops (es ++ [.up c]) (s.onConnectionUp loopOf c) where
  loops := h.loops
  held := h.held
  queue := by
    intro l hl
    apply h.queue_keep (fun l => rfl) rfl _ hl
    intro l
    by_cases hlc : l = loopOf c
    · subst hlc
      simp [onConnectionUp, setIo, setConn, owed]
    · simp [onConnectionUp, setIo, setConn, owed, hlc]
  nodup := by
    intro l
    by_cases hlc : l = loopOf c
    · subst hlc
      by_cases hmem : c ∈ (s.io (loopOf c)).connections
      · simpa [onConnectionUp, setIo, setConn, hmem] using h.nodup (loopOf c)
      · simpa [onConnectionUp, setIo, setConn, hmem, List.nodup_append] using
          ⟨h.nodup (loopOf c), fun d hd heq => hmem (heq ▸ hd)⟩
    · simpa [onConnectionUp, setIo, setConn, hlc] using h.nodup l
  conn := by
    intro d
    have hconnections : ∀ l, d ∈ ((s.onConnectionUp loopOf c).io l).connections ↔
        d ∈ (s.io l).connections ∨ (d = c ∧ l = loopOf c) := by
      intro l
      by_cases hlc : l = loopOf c
      · subst hlc
        by_cases hmem : c ∈ (s.io (loopOf c)).connections
        · simp only [onConnectionUp, setIo, setConn, hmem, if_true, Function.update_self, and_true]
          exact ⟨Or.inl, fun hor => hor.elim id fun heq => heq ▸ hmem⟩
        · simp [onConnectionUp, setIo, setConn, hmem]
      · simp [onConnectionUp, setIo, setConn, hlc]
    by_cases hdc : d = c
    · subst hdc
      obtain ⟨hsent, hnot⟩ := (h.conn d).fresh hstate
      have hstate' : ((s.onConnectionUp loopOf d).conn d).state = .kConnected := by
        simp [onConnectionUp, setIo, setConn]
      have hsent' : ((s.onConnectionUp loopOf d).conn d).sent = [] := by
        simp [onConnectionUp, setIo, setConn, hsent]
      have hjoined : joined loopOf (es ++ [.up d]) d = ran (loopOf d) es := by
        have hall : ∀ e ∈ es, decide (e ≠ .up d) = true := by
          intro e he
          have hne : e ≠ .up d := fun heq => hnot (heq ▸ he)
          simpa using hne
        rw [joined, List.takeWhile_append_of_pos hall]
        simp
      have hran : ran (loopOf d) (es ++ [.up d]) = ran (loopOf d) es := by
        rw [ran_append]
        rfl
      refine ⟨fun ht => ?_, fun _ => ⟨by simp, ran (loopOf d) es, ?_, ?_, ?_, fun _ => hran.symm⟩,
        fun _ => (hconnections _).mpr (Or.inr ⟨rfl, rfl⟩), ?_, fun _ => hl⟩
      · rw [hstate'] at ht
        cases ht
      · rw [hjoined]
      · rw [hran]
      · rw [hsent', hjoined, List.drop_take_self]
        rfl
      · intro l hc
        rcases (hconnections l).mp hc with hc | ⟨-, heq⟩
        · exact (h.conn d).loop l hc
        · exact heq
    · have hconn : (s.onConnectionUp loopOf c).conn d = s.conn d := by
        simp [onConnectionUp, setIo, setConn, hdc]
      apply (h.conn d).keep (by simpa using Ne.symm hdc) rfl (fun hl => (h.queue _ hl).1)
      · rw [hconn]
      · exact Or.inl (by rw [hconn])
      · exact fun _ hmem => (hconnections _).mpr (Or.inl hmem)
      · intro l hc
        exact ((hconnections l).mp hc).resolve_right fun heq => hdc heq.1
      · rfl

theorem Inv.down (h : Inv loopOf loops es s)
    (hstate : (s.conn c).state = .kConnected ∨ (s.conn c).state = .kDisconnecting) :
    Inv loopOf loops (es ++ [.down c]) (s.onConnectionDown loopOf c) where
  loops := h.loops
  held := h.held
  queue := by
    intro l hl
    apply h.queue_keep (fun l => rfl) rfl _ hl
    intro l
    by_cases hlc : l = loopOf c
    · subst hlc
      simp [onConnectionDown, setIo, setConn, owed]
    · simp [onConnectionDown, setIo, setConn, owed, hlc]
  nodup := by
    intro l
    by_cases hlc : l = loopOf c
    · subst hlc
      simpa [onConnectionDown, setIo, setConn] using (h.nodup (loopOf c)).erase c
    · simpa [onConnectionDown, setIo, setConn, hlc] using h.nodup l
  conn := by
    intro d
    have hloop : ∀ l, d ∈ ((s.onConnectionDown loopOf c).io l).connections →
        d ∈ (s.io l).connections := by
      intro l hd
      by_cases hlc : l = loopOf c
      · subst hlc
        simp only [onConnectionDown, setIo, Function.update_self] at hd
        exact List.mem_of_mem_erase hd
      · simpa [onConnectionDown, setIo, setConn, hlc] using hd
    by_cases hdc : d = c
    · subst hdc
      have hstate' : ((s.onConnectionDown loopOf d).conn d).state = .kDisconnected := by
        simp [onConnectionDown, setIo, setConn]
      apply (h.conn d).keep (by simp) rfl (fun hl => (h.queue _ hl).1)
      · simp [onConnectionDown, setIo, setConn]
      · refine Or.inr ⟨?_, by rw [hstate']; decide, by rw [hstate']; decide⟩
        rcases hstate with hstate | hstate
        · rw [hstate]
          decide
        · rw [hstate]
          decide
      · intro ht
        rw [hstate'] at ht
        cases ht
      · exact hloop
      · rfl
    · have hconn : (s.onConnectionDown loopOf c).conn d = s.conn d := by
        simp [onConnectionDown, setIo, setConn, hdc]
      apply (h.conn d).keep (by simp) rfl (fun hl => (h.queue _ hl).1)
      · rw [hconn]
      · exact Or.inl (by rw [hconn])
      · intro _ hmem
        by_cases hlc : loopOf d = loopOf c
        · rw [hlc] at hmem ⊢
          simp only [onConnectionDown, setIo, Function.update_self]
          exact (List.mem_erase_of_ne hdc).mpr hmem
        · simpa [onConnectionDown, setIo, setConn, hlc] using hmem
      · exact hloop
      · rfl

theorem Inv.shutdown (h : Inv loopOf loops es s) :
    Inv loopOf loops (es ++ [.shutdown c]) (if (s.conn c).state = .kConnected
      then s.setConn c { s.conn c with state := .kDisconnecting } else s) := by
  by_cases hup : (s.conn c).state = .kConnected
  · rw [if_pos hup]
    refine ⟨h.loops, fun l hl => h.queue_keep (fun l => rfl) rfl (fun l => rfl) hl, h.held,
      h.nodup, fun d => ?_⟩
    apply (h.conn d).keep (by simp) rfl (fun hl => (h.queue _ hl).1)
    · by_cases hdc : d = c
      · subst hdc
        simp [setConn]
      · simp [setConn, hdc]
    · by_cases hdc : d = c
      · subst hdc
        exact Or.inr (by simp [setConn, hup])
      · exact Or.inl (by simp [setConn, hdc])
    · exact fun _ hmem => hmem
    · exact fun _ hmem => hmem
    · rfl
  · rw [if_neg hup]
    exact ⟨h.loops, fun l hl => h.queue_keep (fun l => rfl) rfl (fun l => rfl) hl, h.held, h.nodup,
      fun d => (h.conn d).keep (by simp) rfl (fun hl => (h.queue _ hl).1) rfl (Or.inl rfl)
        (fun _ hmem => hmem) (fun _ hmem => hmem) rfl⟩

omit [DecidableEq L] [DecidableEq C] in
theorem hold_eq_some {rest loops : List L} (h : hold m loops = some (m', rest)) :
    m' = m ∧ rest = loops ∧ rest ≠ [] := by
  unfold hold at h
  split at h
  · cases h
  · rename_i hne
    cases h
    exact ⟨rfl, rfl, hne⟩

omit [DecidableEq C] in
/-- The loops that are to get the message. -/
theorem owed_hold {rest : List L} : ({ s with mutex := hold m rest } : ChatServer L C).owed l =
    if l ∈ rest then [m] else [] := by
  unfold owed hold
  by_cases hrest : rest = []
  · simp [hrest]
  · simp [hrest]

theorem Inv.message (h : Inv loopOf loops es s) (hloops : s.loops.Nodup) (hfree : s.mutex = none) :
    Inv loopOf loops (es ++ [.message m]) { s with mutex := hold m s.loops } where
  loops := h.loops
  held := by
    intro m' rest hheld
    obtain ⟨-, hrest, hne⟩ := hold_eq_some hheld
    exact ⟨hne, hrest ▸ hloops⟩
  queue := by
    intro l hl
    obtain ⟨hle, hqueue⟩ := h.queue l hl
    have howed : s.owed l = [] := by simp [owed, hfree]
    have hran : ran l (es ++ [.message m]) = ran l es := by
      rw [ran_append]
      rfl
    have hlog : log (es ++ [.message m]) = log es ++ [m] := log_append es _
    have hmem : l ∈ s.loops := hl
    rw [howed, List.append_nil] at hqueue
    rw [hran, hlog, owed_hold, if_pos hmem, List.drop_append_of_le_length hle]
    refine ⟨by rw [List.length_append]; omega, ?_⟩
    exact congrArg (· ++ [m]) hqueue
  nodup := h.nodup
  conn := fun c => (h.conn c).keep (by simp) rfl (fun hl => (h.queue _ hl).1) rfl (Or.inl rfl)
    (fun _ hmem => hmem) (fun _ hmem => hmem) rfl

theorem Inv.queueInLoop {rest : List L} (h : Inv loopOf loops es s)
    (hheld : s.mutex = some (m, l :: rest)) :
    Inv loopOf loops (es ++ [.queueInLoop]) { s.setIo l { s.io l with
      pendingFunctors := (s.io l).pendingFunctors ++ [m] } with mutex := hold m rest } where
  loops := h.loops
  held := by
    intro m' rest' hheld'
    obtain ⟨-, hrest, hne⟩ := hold_eq_some hheld'
    exact ⟨hne, hrest ▸ (List.nodup_cons.mp (h.held _ _ hheld).2).2⟩
  queue := by
    intro k hk
    apply h.queue_keep (fun l => rfl) rfl _ hk
    intro k
    have hnodup := (h.held _ _ hheld).2
    rw [List.nodup_cons] at hnodup
    have howed : s.owed k = if k ∈ l :: rest then [m] else [] := by
      simp only [owed, hheld]
    rw [owed_hold, howed]
    by_cases hkl : k = l
    · subst hkl
      simp [setIo, hnodup.1]
    · simp [setIo, hkl]
  nodup := by
    intro k
    by_cases hkl : k = l
    · subst hkl
      simpa [setIo] using h.nodup k
    · simpa [setIo, hkl] using h.nodup k
  conn := by
    intro c
    have hconnections : ∀ k, ((s.setIo l { s.io l with
        pendingFunctors := (s.io l).pendingFunctors ++ [m] }).io k).connections =
          (s.io k).connections := by
      intro k
      by_cases hkl : k = l
      · subst hkl
        simp [setIo]
      · simp [setIo, hkl]
    exact (h.conn c).keep (by simp) rfl (fun hl => (h.queue _ hl).1) rfl (Or.inl rfl)
      (fun _ hmem => (hconnections _).symm ▸ hmem) (fun k hmem => hconnections k ▸ hmem) rfl

theorem Inv.swap (h : Inv loopOf loops es s) (hdone : (s.io l).functors = []) :
    Inv loopOf loops (es ++ [.swap l]) (s.setIo l { s.io l with
      pendingFunctors := [], functors := (s.io l).pendingFunctors }) where
  loops := h.loops
  held := h.held
  queue := by
    intro k hk
    apply h.queue_keep (fun l => rfl) rfl _ hk
    intro k
    by_cases hkl : k = l
    · subst hkl
      simp [setIo, hdone, owed]
    · simp [setIo, hkl, owed]
  nodup := by
    intro k
    by_cases hkl : k = l
    · subst hkl
      simpa [setIo] using h.nodup k
    · simpa [setIo, hkl] using h.nodup k
  conn := by
    intro c
    have hconnections : ∀ k, ((s.setIo l { s.io l with
        pendingFunctors := [], functors := (s.io l).pendingFunctors }).io k).connections =
          (s.io k).connections := by
      intro k
      by_cases hkl : k = l
      · subst hkl
        simp [setIo]
      · simp [setIo, hkl]
    exact (h.conn c).keep (by simp) rfl (fun hl => (h.queue _ hl).1) rfl (Or.inl rfl)
      (fun _ hmem => (hconnections _).symm ▸ hmem) (fun k hmem => hconnections k ▸ hmem) rfl

/-- The message that a loop distributes is the next one of the log. -/
theorem Inv.next_message {functors : List (List UInt8)} (h : Inv loopOf loops es s)
    (hl : l ∈ s.loops) (hfunctors : (s.io l).functors = m :: functors) :
    ran l es < (log es).length ∧ (log es).take (ran l es + 1) = (log es).take (ran l es) ++ [m] ∧
      functors ++ (s.io l).pendingFunctors ++ s.owed l = (log es).drop (ran l es + 1) := by
  obtain ⟨hle, hqueue⟩ := h.queue l hl
  rw [hfunctors, List.cons_append, List.cons_append] at hqueue
  have hlt : ran l es < (log es).length := by
    by_contra hge
    rw [List.drop_of_length_le (Nat.le_of_not_lt hge)] at hqueue
    cases hqueue
  rw [List.drop_eq_getElem_cons hlt, List.cons.injEq] at hqueue
  refine ⟨hlt, ?_, hqueue.2⟩
  rw [List.take_succ_eq_append_getElem hlt, ← hqueue.1]

theorem Inv.run {functors : List (List UInt8)} {conn' : C → Connection}
    (h : Inv loopOf loops es s) (hfunctors : (s.io l).functors = m :: functors)
    (hconn : ∀ c, conn' c = if c ∈ (s.io l).connections ∧ (s.conn c).state = .kConnected
      then { s.conn c with sent := (s.conn c).sent ++ Codec.frame m } else s.conn c) :
    Inv loopOf loops (es ++ [.run l])
      { s.setIo l { s.io l with functors := functors } with conn := conn' } where
  loops := h.loops
  held := h.held
  queue := by
    intro k hk
    have hlog : log (es ++ [.run l]) = log es := (log_append es _).trans (List.append_nil _)
    by_cases hkl : k = l
    · subst hkl
      obtain ⟨hlt, -, hqueue⟩ := h.next_message hk hfunctors
      have hran : ran k (es ++ [.run k]) = ran k es + 1 := by
        rw [ran_append]
        simp [ran]
      rw [hlog, hran, ← hqueue]
      refine ⟨hlt, ?_⟩
      simp [setIo, owed]
    · have hran : ran k (es ++ [.run l]) = ran k es := by
        rw [ran_append]
        simp [ran, Ne.symm hkl]
      rw [hlog, hran]
      simpa [setIo, hkl, owed] using h.queue k hk
  nodup := by
    intro k
    by_cases hkl : k = l
    · subst hkl
      simpa [setIo] using h.nodup k
    · simpa [setIo, hkl] using h.nodup k
  conn := by
    intro c
    have hc := h.conn c
    have hconnections : ∀ k, ((s.setIo l { s.io l with functors := functors }).io k).connections =
        (s.io k).connections := by
      intro k
      by_cases hkl : k = l
      · subst hkl
        simp [setIo]
      · simp [setIo, hkl]
    by_cases hlc : loopOf c = l
    · subst hlc
      have hlog : log (es ++ [.run (loopOf c)]) = log es :=
        (log_append es _).trans (List.append_nil _)
      have hran : ran (loopOf c) (es ++ [.run (loopOf c)]) = ran (loopOf c) es + 1 := by
        rw [ran_append]
        simp [ran]
      have hup : Event.up c ∈ es ++ [.run (loopOf c)] ↔ .up c ∈ es := mem_append_event (by simp)
      have hstate : (conn' c).state = (s.conn c).state := by
        rw [hconn c]
        by_cases hsent : c ∈ (s.io (loopOf c)).connections ∧ (s.conn c).state = .kConnected
        · rw [if_pos hsent]
        · rw [if_neg hsent]
      refine ⟨fun ht => ?_, fun ht => ?_, fun ht => ?_, ?_, fun ht => hc.registered (hstate ▸ ht)⟩
      · have hs := hstate.symm.trans ht
        have hsame : conn' c = s.conn c := by
          rw [hconn c, if_neg (by simp [hs])]
        show (conn' c).sent = [] ∧ _
        rw [hup, hsame]
        exact hc.fresh hs
      · have hs : (s.conn c).state ≠ .kConnecting := hstate ▸ ht
        obtain ⟨hmem, b, hjb, hb, hinterval, hall⟩ := hc.interval hs
        obtain ⟨hlt, htake, -⟩ := h.next_message (hc.registered hs) hfunctors
        refine ⟨hup.mpr hmem, ?_⟩
        rw [joined_of_mem hmem, hlog, hran]
        by_cases hopen : (s.conn c).state = .kConnected
        · have hsent : (conn' c).sent = (s.conn c).sent ++ Codec.frame m := by
            rw [hconn c, if_pos ⟨hc.member hopen, hopen⟩]
          refine ⟨ran (loopOf c) es + 1, by have := hall hopen; omega, le_rfl, ?_, fun _ => rfl⟩
          have hbran := hall hopen
          subst hbran
          show (conn' c).sent = _
          rw [hsent, hinterval, htake, List.drop_append_of_le_length, List.flatMap_append,
            List.flatMap_singleton]
          rw [List.length_take]
          omega
        · have hsame : conn' c = s.conn c := by
            rw [hconn c, if_neg (by simp [hopen])]
          refine ⟨b, hjb, by omega, ?_, fun ht' => absurd (hstate.symm.trans ht') hopen⟩
          show (conn' c).sent = _
          rw [hsame]
          exact hinterval
      · show c ∈ ((s.setIo _ _).io (loopOf c)).connections
        rw [hconnections]
        exact hc.member (hstate.symm.trans ht)
      · intro k hk
        exact hc.loop k (hconnections k ▸ hk)
    · have hsame : conn' c = s.conn c := by
        rw [hconn c, if_neg fun hmem => hlc (hc.loop l hmem.1).symm]
      apply hc.keep (by simp) _ (fun hl => (h.queue _ hl).1)
      · show (conn' c).sent = _
        rw [hsame]
      · exact Or.inl (congrArg Connection.state hsame)
      · exact fun _ hmem => (hconnections _).symm ▸ hmem
      · exact fun k hmem => hconnections k ▸ hmem
      · rfl
      · simp [ran, Ne.symm hlc]

theorem inv_run (hloops : loops.Nodup) (hr : Run (system loopOf loops) (init loops) es s) :
    Inv loopOf loops es s := by
  generalize hs₀ : init loops = s₀ at hr
  induction hr with
  | nil => exact hs₀ ▸ inv_init loops
  | @snoc s t es e _ he hst ih =>
    have hI := ih
    replace hst : step loopOf s e = .ok t := hst
    replace he : enabled loopOf s e := he
    cases e with
    | up c => exact Except.ok.inj hst ▸ hI.up he.1 he.2
    | down c => exact Except.ok.inj hst ▸ hI.down he
    | shutdown c => exact Except.ok.inj hst ▸ hI.shutdown
    | message m => exact Except.ok.inj hst ▸ hI.message (hI.loops ▸ hloops) he
    | queueInLoop =>
      obtain ⟨⟨m, rest⟩, hheld⟩ := Option.ne_none_iff_exists'.mp he
      cases rest with
      | nil => exact absurd rfl (hI.held _ _ hheld).1
      | cons l rest =>
        simp only [step, hheld] at hst
        exact Except.ok.inj hst ▸ hI.queueInLoop hheld
    | swap l => exact Except.ok.inj hst ▸ hI.swap he
    | run l =>
      obtain ⟨m, functors, hfunctors⟩ := List.exists_cons_of_ne_nil he
      obtain ⟨conn', hrun, hconn'⟩ := distributeMessage_spec (m := m) (l := l)
        (s := s.setIo l { s.io l with functors }) (by simpa [setIo] using hI.nodup l)
      simp only [step, hfunctors] at hst
      rw [hrun] at hst
      apply Except.ok.inj hst ▸ hI.run hfunctors _
      simpa [setIo] using hconn'

/-- No thread holds the mutex, and no loop has a functor to run. -/
def Quiet (s : ChatServer L C) : Prop :=
  s.mutex = none ∧ ∀ l ∈ s.loops, (s.io l).pendingFunctors = [] ∧ (s.io l).functors = []

/-- What a client has been sent is a part of the log that begins where its loop was when it came
up, and all the rest once the server is quiet. -/
theorem sent_interval (hloops : loops.Nodup)
    (hr : Run (system loopOf loops) (init loops) es s) (c : C) :
    ∃ b, joined loopOf es c ≤ b ∧
      (s.conn c).sent = (((log es).take b).drop (joined loopOf es c)).flatMap Codec.frame ∧
      ((s.conn c).state = .kConnected → Quiet s → b = (log es).length) := by
  have hI := inv_run hloops hr
  have hc := hI.conn c
  by_cases hnew : (s.conn c).state = .kConnecting
  · refine ⟨joined loopOf es c, le_rfl, ?_, fun ht => ?_⟩
    · rw [(hc.fresh hnew).1, List.drop_take_self]
      rfl
    · rw [hnew] at ht
      cases ht
  · obtain ⟨-, b, hjb, hb, hinterval, hall⟩ := hc.interval hnew
    refine ⟨b, hjb, hinterval, fun hup hquiet => ?_⟩
    have hl := hc.registered hnew
    obtain ⟨hle, hqueue⟩ := hI.queue _ hl
    obtain ⟨hpending, hfunctors⟩ := hquiet.2 _ hl
    have howed : s.owed (loopOf c) = [] := by simp [owed, hquiet.1]
    rw [hpending, hfunctors, howed] at hqueue
    have hge := List.drop_eq_nil_iff.mp hqueue.symm
    rw [hall hup]
    omega

/-- A message that a codec of the server has dispatched, from whatever a client may send. -/
def Dispatched (m : List UInt8) : Prop := ∃ stream t, Codec.Read stream t ∧ m ∈ t.messages

/-- Whatever the threads do in whatever order: each client is sent a part of the one log of all
messages, without gaps, repetitions or changes of order, and from what has arrived at the client
its codec dispatches the messages that are there as a whole. -/
theorem broadcast (hloops : loops.Nodup) (hr : Run (system loopOf loops) (init loops) es s)
    (hlog : ∀ m ∈ log es, Dispatched m) (c : C) :
    ∃ b, joined loopOf es c ≤ b ∧
      (s.conn c).sent = (((log es).take b).drop (joined loopOf es c)).flatMap Codec.frame ∧
      ((s.conn c).state = .kConnected → Quiet s → b = (log es).length) ∧
      ∀ chunks : List (List UInt8), chunks.flatten <+: (s.conn c).sent →
        ∀ n, chunks.flatten.length < n → ∃ t, Codec.receiveAll n .init chunks = some (.ok t) ∧
          t.shutdowns = 0 ∧ t.messages <+: ((log es).take b).drop (joined loopOf es c) ∧
          (chunks.flatten = (s.conn c).sent →
            t.messages = ((log es).take b).drop (joined loopOf es c)) := by
  obtain ⟨b, hjb, hsent, hquiet⟩ := sent_interval hloops hr c
  refine ⟨b, hjb, hsent, hquiet, fun chunks hchunks n hn => ?_⟩
  have hsize : ∀ m ∈ ((log es).take b).drop (joined loopOf es c), m.length ≤ 65536 := by
    intro m hm
    obtain ⟨stream, t, ⟨verdict, hruns, -⟩, hmem⟩ :=
      hlog m (List.mem_of_mem_take (List.mem_of_mem_drop hm))
    exact Codec.length_le_of_mem hruns (by simp) m hmem
  obtain ⟨t, hrun, ht⟩ := Codec.receiveAll_init hn
  rw [hsent, List.flatMap_def] at hchunks ⊢
  obtain ⟨hfront, hsd, hall⟩ := ht.of_prefix hsize hchunks
  exact ⟨t, hrun, hsd, hfront, hall⟩

theorem dispatched_of_length_le (h : m.length ≤ 65536) : Dispatched m := by
  have hn : [Codec.frame m].flatten.length < [Codec.frame m].flatten.length + 1 :=
    Nat.lt_succ_self _
  obtain ⟨t, -, ht⟩ := Codec.receiveAll_init hn
  have hsent : ∀ m' ∈ [m], m'.length ≤ 65536 := by simpa using h
  have hmessages := (ht.of_prefix hsent (by simp)).2.2 (by simp)
  exact ⟨_, t, ht, by simp [hmessages]⟩

instance (loops : List L) (s : ChatServer L C) (e : Event L C) :
    Decidable ((system loopOf loops).enabled s e) := inferInstanceAs (Decidable (enabled loopOf s e))

/-- A client comes up, and a message reaches the functors of its loop. -/
theorem broadcast_one_message : ∃ (s : ChatServer Unit Unit) (b : ℕ), ∃ es, log es = [[104, 105]] ∧
    joined (fun _ => ()) es () ≤ b ∧ (s.conn ()).sent =
      (((log es).take b).drop (joined (fun _ => ()) es ())).flatMap Codec.frame := by
  have hreplay : (replay (system (fun _ : Unit => ()) [()]) (init [()])
      [.up (), .message [104, 105], .queueInLoop]).any (fun _ => true) = true := by decide
  obtain ⟨s, hr, -⟩ := exists_run_of_replay _ hreplay
  obtain ⟨b, hjb, hsent, -⟩ := broadcast (by simp) hr (by
    intro m hm
    apply dispatched_of_length_le
    have hm : m = [104, 105] := by simpa [log] using hm
    simp [hm]) ()
  exact ⟨s, b, _, rfl, hjb, hsent⟩

end ChatServer
end Muduo.Chat
