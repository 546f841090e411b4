import Muduo.ConnectionPhase
import Muduo.HttpRejection
import Muduo.Library.Log

/-!
# Requests and their answers

An `HttpServer` on one established connection: what `onMessage` sends goes through
`TcpConnection::send`, which takes data only in `kConnected`, while `shutdown` leaves the
connection readable.
-/
namespace Muduo.HttpServer
open StepSystem

def defaultHttpCallback : HttpCallback := fun _ resp =>
  { resp with
    statusCode := .k404NotFound
    statusMessage := text "Not Found"
    closeConnection := true }

/-- The call on the connection in which the action consists, with what its `write(2)` returns. -/
def Action.userCall? (refusal response : WriteResult) (a : Action) : Option UserCall :=
  match a with
  | .sendBadRequest => some (.send a.bytes refusal)
  | .httpCallback _ => none
  | .sendResponse _ => some (.send a.bytes response)
  | .shutdown => some .shutdown

namespace Answers

structure State where
  loop : EventLoop PendingFunctor
  conn : TcpConnection
  context : HttpContext
  /-- what `onMessage` has done, each action with the `state_` it has met -/
  actions : List (Action × StateE)

inductive Event
  /-- `handleRead` at `receiveTime`, with what `write(2)` returns for a 400 and for a response -/
  | handleRead (r : ReadResult) (receiveTime : ℤ) (refusal response : WriteResult)
  | handleWrite (w : WriteResult)
  | handleClose

/-- The poller reports what the channel is interested in, and hang-ups. -/
def enabled (s : State) : Event → Prop
  | .handleRead .. => s.conn.channel.events &&& kReadEvent ≠ 0
  | .handleWrite _ => s.conn.channel.isWriting = true
  | .handleClose => s.conn.channel.isNoneEvent = false

instance (s : State) : (e : Event) → Decidable (enabled s e)
  | .handleRead .. => inferInstanceAs (Decidable (_ ≠ _))
  | .handleWrite _ | .handleClose => inferInstanceAs (Decidable (_ = _))

def perform (refusal response : WriteResult) (s : State) (a : Action) : Checked State := do
  let actions := s.actions ++ [(a, s.conn.state)]
  match a.userCall? refusal response with
  | none => return { s with actions }
  | some u =>
    let (loop, conn) ← s.conn.userCall s.loop u
    return { s with loop, conn, actions }

section
variable (httpCallback : HttpCallback)

/-- `messageCallback_` -/
def message (s : State) (receiveTime : ℤ) (refusal response : WriteResult) : Checked State := do
  let (inputBuffer, context, actions) ←
    onMessage httpCallback s.conn.inputBuffer s.context receiveTime
  actions.foldlM (perform refusal response) { s with conn := { s.conn with inputBuffer }, context }

def step (s : State) : Event → Checked State
  | .handleRead r receiveTime refusal response => do
    let (loop, conn, outcome) ← s.conn.handleRead s.loop r
    match outcome with
    | .message => message httpCallback { s with loop, conn } receiveTime refusal response
    | .closed | .error => return { s with loop, conn }
  | .handleWrite w => do
    let (loop, conn) ← s.conn.handleWrite s.loop w
    return { s with loop, conn }
  | .handleClose => do
    let (loop, conn) ← s.conn.handleClose s.loop
    return { s with loop, conn }

/-- `connectEstablished` and `onConnection` have run. -/
structure Initial (s : State) : Prop where
  stands : TcpConnection.Stands .up s.loop s.conn
  state : s.conn.state = .kConnected
  context : s.context = .new
  actions : s.actions = []

def system : System State Event Assertion where
  init := Initial
  enabled := enabled
  step := step httpCallback

instance (s : State) (e : Event) : Decidable ((system httpCallback).enabled s e) :=
  inferInstanceAs (Decidable (enabled s e))

end

/-- Every call of `httpCallback_` is followed by a response that `send` takes, and none comes
after a `shutdown`. -/
structure Answered (s : State) : Prop where
  taken : ∀ front back req state, s.actions = front ++ (.httpCallback req, state) :: back →
    ∃ response rest, back = (.sendResponse response, .kConnected) :: rest
  open_ : ∀ front back req state, s.actions = front ++ (.httpCallback req, state) :: back →
    ∀ a ∈ front, a.1 ≠ .shutdown

/-- The bytes complete a request. -/
def completes (s : State) (data : List UInt8) (receiveTime : ℤ) : Bool :=
  match s.conn.inputBuffer.readFd data with
  | .ok buf =>
    match parseRequest buf s.context receiveTime with
    | .ok p => p.context.state == .kGotAll
    | .error _ => false
  | .error _ => false

/-- Bytes that complete a request arrive in `kConnected`. -/
def InTime (s : State) : Event → Prop
  | .handleRead (.delivers data) receiveTime _ _ =>
      data ≠ [] → completes s data receiveTime = true → s.conn.state = .kConnected
  | .handleRead (.fails _) .. | .handleWrite _ | .handleClose => True

variable {httpCallback : HttpCallback} {s t : State} {refusal response : WriteResult}

/-! ### What the actions of one message leave -/

theorem inputBuffer_setInterest {l l' : EventLoop PendingFunctor} {c c' : TcpConnection}
    {i : Channel.Interest} (h : c.setInterest l i = .ok (l', c')) :
    c'.inputBuffer = c.inputBuffer := by
  obtain ⟨_, _, h⟩ := bind_eq_ok.mp h
  obtain ⟨rfl, rfl⟩ := Prod.mk.inj (Except.ok.inj h)
  rfl

theorem inputBuffer_directWrite (l : EventLoop PendingFunctor) (c : TcpConnection)
    (data : List UInt8) (w : WriteResult) :
    (c.directWrite l data w).conn.inputBuffer = c.inputBuffer := by
  unfold TcpConnection.directWrite
  split
  · split
    · rfl
    · rfl
  · rfl

theorem inputBuffer_sendInLoop {l l' : EventLoop PendingFunctor} {c c' : TcpConnection}
    {data : List UInt8} {w : WriteResult} (h : c.sendInLoop l data w = .ok (l', c')) :
    c'.inputBuffer = c.inputBuffer := by
  obtain ⟨_, _, h⟩ := bind_eq_ok.mp h
  split at h
  · obtain ⟨rfl, rfl⟩ := Prod.mk.inj (Except.ok.inj h)
    rfl
  · obtain ⟨_, _, h⟩ := bind_eq_ok.mp h
    split at h
    · obtain ⟨outputBuffer, _, h⟩ := bind_eq_ok.mp h
      dsimp only at h
      split at h
      · obtain ⟨rfl, rfl⟩ := Prod.mk.inj (Except.ok.inj h)
        exact inputBuffer_directWrite l c data w
      · exact (inputBuffer_setInterest h).trans (inputBuffer_directWrite l c data w)
    · obtain ⟨rfl, rfl⟩ := Prod.mk.inj (Except.ok.inj h)
      exact inputBuffer_directWrite l c data w

theorem inputBuffer_shutdownInLoop {l l' : EventLoop PendingFunctor} {c c' : TcpConnection}
    (h : c.shutdownInLoop l = .ok (l', c')) : c'.inputBuffer = c.inputBuffer := by
  obtain ⟨_, _, h⟩ := bind_eq_ok.mp h
  split at h
  · obtain ⟨rfl, rfl⟩ := Prod.mk.inj (Except.ok.inj h)
    rfl
  · obtain ⟨rfl, rfl⟩ := Prod.mk.inj (Except.ok.inj h)
    rfl

theorem inputBuffer_userCall {l l' : EventLoop PendingFunctor} {c c' : TcpConnection}
    {u : UserCall} (h : c.userCall l u = .ok (l', c')) : c'.inputBuffer = c.inputBuffer := by
  have hsame : (.ok (l, c) : Checked (EventLoop PendingFunctor × TcpConnection)) = .ok (l', c') →
      c'.inputBuffer = c.inputBuffer := by
    intro heq
    obtain ⟨rfl, rfl⟩ := Prod.mk.inj (Except.ok.inj heq)
    rfl
  cases u with
  | send message w =>
    simp only [TcpConnection.userCall, TcpConnection.send, if_true] at h
    split at h
    · exact inputBuffer_sendInLoop h
    · exact hsame h
  | shutdown =>
    simp only [TcpConnection.userCall, TcpConnection.shutdown, if_true] at h
    split at h
    · have hshut := inputBuffer_shutdownInLoop h
      exact hshut
    · exact hsame h

theorem inputBuffer_handleWrite {l l' : EventLoop PendingFunctor} {c c' : TcpConnection}
    {w : WriteResult} (h : c.handleWrite l w = .ok (l', c')) : c'.inputBuffer = c.inputBuffer := by
  obtain ⟨_, _, h⟩ := bind_eq_ok.mp h
  split at h
  · split at h
    · dsimp only at h
      split at h
      · obtain ⟨outputBuffer, _, h⟩ := bind_eq_ok.mp h
        split at h
        · obtain ⟨⟨u, d⟩, hu, h⟩ := bind_eq_ok.mp h
          have hd := inputBuffer_setInterest hu
          dsimp only at h
          split at h
          · exact (inputBuffer_shutdownInLoop h).trans hd
          · obtain ⟨rfl, rfl⟩ := Prod.mk.inj (Except.ok.inj h)
            exact hd
        · obtain ⟨rfl, rfl⟩ := Prod.mk.inj (Except.ok.inj h)
          rfl
      · obtain ⟨rfl, rfl⟩ := Prod.mk.inj (Except.ok.inj h)
        rfl
    · obtain ⟨rfl, rfl⟩ := Prod.mk.inj (Except.ok.inj h)
      rfl
  · obtain ⟨rfl, rfl⟩ := Prod.mk.inj (Except.ok.inj h)
    rfl

/-- The `state_` after an action. -/
def stateAfter (state : StateE) (a : Action) : StateE :=
  if a = .shutdown ∧ state = .kConnected then .kDisconnecting else state

/-- What the action `a` makes of the connection and of the record. -/
structure Performed (s : State) (a : Action) (t : State) : Prop where
  stands : TcpConnection.Stands .up t.loop t.conn
  state : t.conn.state = stateAfter s.conn.state a
  inputBuffer : t.conn.inputBuffer = s.conn.inputBuffer
  context : t.context = s.context
  actions : t.actions = s.actions ++ [(a, s.conn.state)]

theorem performed (hs : TcpConnection.Stands .up s.loop s.conn) {a : Action}
    (h : perform refusal response s a = .ok t) : Performed s a t := by
  have hcall : ∀ u : UserCall, u.state s.conn.state = stateAfter s.conn.state a →
      (do
        let (loop, conn) ← s.conn.userCall s.loop u
        return ({ s with loop, conn, actions := s.actions ++ [(a, s.conn.state)] } : State)) =
        .ok t → Performed s a t := by
    intro u hu hrun
    obtain ⟨⟨loop, conn⟩, hw, hrun⟩ := bind_eq_ok.mp hrun
    obtain rfl := Except.ok.inj hrun
    obtain ⟨hreach, hstate⟩ := (TcpConnection.userCall_up hs u).of_eq hw
    exact ⟨hreach.stands, hstate.trans hu, inputBuffer_userCall hw, rfl, rfl⟩
  cases a with
  | sendBadRequest => exact hcall _ (by simp [UserCall.state, stateAfter]) h
  | sendResponse bytes => exact hcall _ (by simp [UserCall.state, stateAfter]) h
  | shutdown => exact hcall _ (by simp [UserCall.state, stateAfter]) h
  | httpCallback req =>
    obtain rfl := Except.ok.inj h
    exact ⟨hs, by simp [stateAfter], rfl, rfl, rfl⟩

/-- The actions of `onMessage` keep the input buffer and the context; none but the last is a
`shutdown`, so that all of them meet the same `state_`. -/
theorem performed_list {actions : List Action} {s t : State}
    (hs : TcpConnection.Stands .up s.loop s.conn) (hlast : ∀ a ∈ actions.dropLast, a ≠ .shutdown)
    (h : actions.foldlM (perform refusal response) s = .ok t) :
    TcpConnection.Stands .up t.loop t.conn ∧ t.conn.inputBuffer = s.conn.inputBuffer ∧
      t.context = s.context ∧ t.actions = s.actions ++ actions.map (·, s.conn.state) ∧
      t.conn.state = if .shutdown ∈ actions then stateAfter s.conn.state .shutdown
        else s.conn.state := by
  induction actions generalizing s with
  | nil =>
    obtain rfl := Except.ok.inj h
    exact ⟨hs, rfl, rfl, by simp, by simp⟩
  | cons a actions ih =>
    rw [List.foldlM_cons] at h
    obtain ⟨s₁, hs₁, h⟩ := bind_eq_ok.mp h
    have hp := performed hs hs₁
    cases actions with
    | nil =>
      obtain rfl := Except.ok.inj h
      refine ⟨hp.stands, hp.inputBuffer, hp.context, hp.actions, hp.state.trans ?_⟩
      by_cases ha : a = .shutdown
      · simp [ha]
      · simp [stateAfter, ha, Ne.symm ha]
    | cons b actions =>
      have ha : a ≠ .shutdown := hlast a (by simp)
      have hsame : s₁.conn.state = s.conn.state := by
        rw [hp.state]
        simp [stateAfter, ha]
      obtain ⟨hstands, hbuf, hctx, hact, hstate⟩ :=
        ih hp.stands (fun c hc => hlast c (by simp [hc])) h
      refine ⟨hstands, hbuf.trans hp.inputBuffer, hctx.trans hp.context, ?_, ?_⟩
      · rw [hact, hp.actions, hsame]
        simp
      · rw [hstate, hsame]
        simp [Ne.symm ha]

/-! ### One message -/

/-- The session that the connection runs. -/
def State.session (s : State) : Session := ⟨s.conn.inputBuffer, s.context, s.actions.map Prod.fst⟩

theorem inv_receive {u v : Session} {chunk : Chunk} (h : Inv u)
    (hr : receive httpCallback u chunk = .ok v) : Inv v := by
  by_cases hg : NoMethodRejected u chunk
  · exact (receive_ok httpCallback h hg).of_eq hr
  · rw [receive_error httpCallback h hg] at hr
    cases hr

/-- A request is complete only if nothing is refused, now or before. -/
theorem refused_of_gotAll {u : Session} (h : Inv u) {data : List UInt8} {buf : Buffer}
    (hb : buf.readable = u.inputBuffer.readable ++ data) {receiveTime : ℤ} {p : Parsed}
    (hp : parseRequest buf u.context receiveTime = .ok p) (hall : p.context.state = .kGotAll) :
    p.ok = true ∧ .sendBadRequest ∉ u.actions := by
  unfold Inv at h
  split_ifs at h with hbad
  · obtain ⟨hst, line, hf, hm⟩ := h
    have hf' := frontLine_append hf hb
    by_cases hl : BeginsWithMethod line
    · rw [parseRequest_again receiveTime hst hf' (hm.mpr hl) hl] at hp
      cases hp
    · have hnone : u.context.request.method = .kInvalid := by
        by_contra hne
        exact hl (hm.mp hne)
      rw [parseRequest_unknown receiveTime hst hf' hnone hl] at hp
      obtain rfl := Except.ok.inj hp
      rw [hst] at hall
      cases hall
  · obtain ⟨q, hq, hend⟩ := parseRequest_parsing buf h receiveTime
    obtain rfl : q = p := Except.ok.inj (hq.symm.trans hp)
    rcases hend with ⟨hok, _⟩ | ⟨_, hrej⟩
    · exact ⟨hok, hbad⟩
    · rw [hrej.1] at hall
      cases hall

/-- A message is a request that is answered, part of one, or a refusal. -/
inductive Does (httpCallback : HttpCallback) : Bool → List Action → Prop
  | answers (req : HttpRequest) : Does httpCallback true (onRequest httpCallback req)
  | waits : Does httpCallback false []
  | refuses : Does httpCallback false [.sendBadRequest, .shutdown]

theorem Does.dropLast {b : Bool} {actions : List Action} (h : Does httpCallback b actions) :
    ∀ a ∈ actions.dropLast, a ≠ .shutdown := by
  cases h with
  | answers req =>
    unfold onRequest
    dsimp only
    split
    · simp
    · simp
  | waits => simp
  | refuses => simp

theorem does_onMessage {data : List UInt8} {receiveTime : ℤ} {buf buf' : Buffer}
    {context : HttpContext} {actions : List Action} (h : Inv s.session)
    (hb : s.conn.inputBuffer.readFd data = .ok buf)
    (hm : onMessage httpCallback buf s.context receiveTime = .ok (buf', context, actions)) :
    Does httpCallback (completes s data receiveTime) actions := by
  obtain ⟨_, hb', hread⟩ := s.conn.inputBuffer.readFd_spec data
  obtain rfl := Except.ok.inj (hb'.symm.trans hb)
  obtain ⟨p, hp, hm⟩ := bind_eq_ok.mp hm
  have hcomp : completes s data receiveTime = (p.context.state == .kGotAll) := by
    simp only [completes, hb, hp]
  rw [hcomp]
  dsimp only at hm
  split at hm
  · rename_i hall
    obtain ⟨-, heq⟩ := Prod.mk.inj (Except.ok.inj hm)
    obtain ⟨-, rfl⟩ := Prod.mk.inj heq
    have hok := (refused_of_gotAll h hread hp hall).1
    rw [hok, hall]
    exact .answers p.context.request
  · rename_i hall
    obtain ⟨-, heq⟩ := Prod.mk.inj (Except.ok.inj hm)
    obtain ⟨-, rfl⟩ := Prod.mk.inj heq
    rw [beq_eq_false_iff_ne.mpr hall]
    split
    · exact .waits
    · exact .refuses

/-- What a message whose actions are `done` leaves of the connection and of the record. -/
structure Messaged (s : State) (done : List Action) (t : State) : Prop where
  stands : TcpConnection.Stands .up t.loop t.conn
  actions : t.actions = s.actions ++ done.map (·, s.conn.state)
  state : t.conn.state = if .shutdown ∈ done then stateAfter s.conn.state .shutdown
    else s.conn.state
  session : Inv t.session

theorem messaged {data : List UInt8} {receiveTime : ℤ} (hs : TcpConnection.Stands .up s.loop s.conn)
    (hinv : Inv s.session) (hdata : data ≠ [])
    (h : step httpCallback s (.handleRead (.delivers data) receiveTime refusal response) = .ok t) :
    ∃ done, Does httpCallback (completes s data receiveTime) done ∧ Messaged s done t := by
  obtain ⟨buf, hbuf, -⟩ := s.conn.inputBuffer.readFd_spec data
  have hread : s.conn.handleRead s.loop (.delivers data) =
      .ok (s.loop, { s.conn with inputBuffer := buf }, .message) := by
    unfold TcpConnection.handleRead
    rw [hs.assertInLoopThread, ok_bind]
    dsimp only
    rw [if_pos (List.length_pos_iff.mpr hdata), hbuf]
    rfl
  simp only [step, hread, ok_bind] at h
  obtain ⟨⟨buf', context, done⟩, hm, h⟩ := bind_eq_ok.mp h
  have hdoes := does_onMessage hinv hbuf hm
  let s₁ : State := { s with conn := { s.conn with inputBuffer := buf' }, context }
  have hs₁ : TcpConnection.Stands .up s₁.loop s₁.conn := ⟨hs.loop, hs.ownerLoop, hs.holds, hs.view⟩
  have hfold : done.foldlM (perform refusal response) s₁ = .ok t := h
  obtain ⟨hstands, hinput, hcontext, hactions, hstate⟩ :=
    performed_list hs₁ hdoes.dropLast hfold
  refine ⟨done, hdoes, hstands, hactions, hstate, ?_⟩
  have hfst : (done.map (·, s₁.conn.state)).map Prod.fst = done := by
    rw [List.map_map]
    exact List.map_id done
  have hsession : t.session = ⟨buf', context, s.session.actions ++ done⟩ := by
    unfold State.session
    rw [hinput, hcontext, hactions, List.map_append, hfst]
  have hreceive : receive httpCallback s.session ⟨data, receiveTime⟩ = .ok t.session := by
    have hb : s.session.inputBuffer.readFd data = .ok buf := hbuf
    have hm' : onMessage httpCallback buf s.session.context receiveTime =
        .ok (buf', context, done) := hm
    unfold receive
    rw [hb, ok_bind, hm', hsession]
    rfl
  exact inv_receive hinv hreceive

/-! ### Whole runs -/

/-- What the requests of the record's new part have to show. -/
theorem answered_of_append {new : List (Action × StateE)} (h : Answered s)
    (ht : t.actions = s.actions ++ new)
    (hnew : ∀ front back req state, new = front ++ (.httpCallback req, state) :: back →
      (∃ response rest, back = (.sendResponse response, .kConnected) :: rest) ∧
        ∀ a ∈ s.actions ++ front, a.1 ≠ .shutdown) : Answered t := by
  constructor
  · intro front back req state heq
    rw [ht] at heq
    rcases Log.split_append heq with ⟨rest, hs, rfl⟩ | ⟨rest, -, hrest⟩
    · obtain ⟨response, more, rfl⟩ := h.taken front rest req state hs
      exact ⟨response, more ++ new, rfl⟩
    · exact (hnew rest back req state hrest).1
  · intro front back req state heq
    rw [ht] at heq
    rcases Log.split_append heq with ⟨rest, hs, rfl⟩ | ⟨rest, rfl, hrest⟩
    · exact h.open_ front rest req state hs
    · exact (hnew rest back req state hrest).2

/-- A request that is answered in `kConnected`. -/
theorem answered_onRequest {req : HttpRequest} (h : Answered s)
    (hopen : ∀ a ∈ s.actions, a.1 ≠ .shutdown)
    (ht : t.actions = s.actions ++ (onRequest httpCallback req).map (·, .kConnected)) :
    Answered t := by
  refine answered_of_append h ht ?_
  intro front back req' state heq
  obtain ⟨response, rest, hlist, hrest⟩ : ∃ response rest,
      onRequest httpCallback req = .httpCallback req :: .sendResponse response :: rest ∧
        ∀ a ∈ rest, a = .shutdown := by
    unfold onRequest
    dsimp only
    refine ⟨_, _, rfl, ?_⟩
    split
    · simp
    · simp
  rw [hlist] at heq
  cases front with
  | nil =>
    obtain ⟨-, rfl⟩ := List.cons.inj heq
    exact ⟨⟨response, _, rfl⟩, by simpa using hopen⟩
  | cons x front =>
    obtain ⟨-, htail⟩ := List.cons.inj heq
    have hmem : (Action.httpCallback req', state) ∈
        (Action.sendResponse response :: rest).map (·, StateE.kConnected) := by
      rw [show (Action.sendResponse response :: rest).map (·, StateE.kConnected) =
        front ++ (.httpCallback req', state) :: back from htail]
      simp
    obtain ⟨a, ha, heq⟩ := List.mem_map.mp hmem
    obtain ⟨rfl, -⟩ := Prod.mk.inj heq
    rcases List.mem_cons.mp ha with ha | ha
    · cases ha
    · cases hrest _ ha

/-- The connection is up, its session is as the parser has left it, and a `shutdown` shows in
its state. -/
structure Open (s : State) : Prop where
  stands : TcpConnection.Stands .up s.loop s.conn
  session : Inv s.session
  shutdown : ∀ a ∈ s.actions, a.1 = .shutdown → s.conn.state ≠ .kConnected

structure RunInv (s : State) : Prop where
  answered : Answered s
  conn : Open s ∨ s.conn.channel.isNoneEvent = true

theorem runInv_init (h : Initial s) : RunInv s where
  answered := by
    constructor
    · intro front back req state heq
      simp [h.actions] at heq
    · intro front back req state heq
      simp [h.actions] at heq
  conn := by
    refine .inl ⟨h.stands, ?_, ?_⟩
    · have hsession : s.session = ⟨s.conn.inputBuffer, .new, []⟩ := by
        unfold State.session
        rw [h.context, h.actions]
        rfl
      rw [hsession]
      exact inv_new
    · intro a ha
      simp [h.actions] at ha

/-- A channel without interest is not reported. -/
theorem not_enabled (h : s.conn.channel.isNoneEvent = true) (e : Event) : ¬enabled s e := by
  have hnone := (Channel.isNoneEvent_iff _).mp h
  cases e with
  | handleRead r receiveTime refusal response =>
    intro he
    exact he (by rw [hnone]; rfl)
  | handleWrite w =>
    intro he
    have hwriting : s.conn.channel.isWriting = true := he
    rw [Channel.isWriting, hnone] at hwriting
    cases hwriting
  | handleClose =>
    intro he
    have hsome : s.conn.channel.isNoneEvent = false := he
    rw [h] at hsome
    cases hsome

theorem RunInv.isOpen {e : Event} (h : RunInv s) (he : enabled s e) : Open s :=
  h.conn.resolve_right fun hnone => not_enabled hnone e he

/-- A handler that calls no user code leaves the record as it was. -/
theorem RunInv.silent {loop : EventLoop PendingFunctor} {conn : TcpConnection} (h : RunInv s)
    (hconn : Open { s with loop, conn } ∨ conn.channel.isNoneEvent = true) :
    RunInv { s with loop, conn } :=
  ⟨⟨h.answered.taken, h.answered.open_⟩, hconn⟩

theorem runInv_message {data : List UInt8} {receiveTime : ℤ} (h : RunInv s) (ho : Open s)
    (hdata : data ≠ []) (htime : completes s data receiveTime = true → s.conn.state = .kConnected)
    (hs : step httpCallback s (.handleRead (.delivers data) receiveTime refusal response) = .ok t) :
    RunInv t := by
  obtain ⟨done, hdoes, hm⟩ := messaged ho.stands ho.session hdata hs
  have hshutdown : ∀ a ∈ t.actions, a.1 = .shutdown → t.conn.state ≠ .kConnected := by
    intro a ha heq
    rw [hm.state]
    rw [hm.actions, List.mem_append] at ha
    rcases ha with ha | ha
    · have hne := ho.shutdown a ha heq
      split
      · simp [stateAfter, hne]
      · exact hne
    · obtain ⟨b, hb, rfl⟩ := List.mem_map.mp ha
      have hmem : .shutdown ∈ done := heq ▸ hb
      rw [if_pos hmem]
      unfold stateAfter
      split
      · simp
      · rename_i hnot
        exact fun hc => hnot ⟨rfl, hc⟩
  refine ⟨?_, .inl ⟨hm.stands, hm.session, hshutdown⟩⟩
  have hactions := hm.actions
  generalize hc : completes s data receiveTime = b at hdoes htime
  cases hdoes with
  | answers req =>
    have hconnected := htime rfl
    rw [hconnected] at hactions
    exact answered_onRequest h.answered (fun a ha heq => ho.shutdown a ha heq hconnected) hactions
  | waits =>
    refine answered_of_append h.answered hactions ?_
    intro front back req state heq
    simp at heq
  | refuses =>
    refine answered_of_append h.answered hactions ?_
    intro front back req state heq
    have hmem : (Action.httpCallback req, state) ∈
        [(Action.sendBadRequest, s.conn.state), (Action.shutdown, s.conn.state)] := by
      rw [show [(Action.sendBadRequest, s.conn.state), (Action.shutdown, s.conn.state)] =
        front ++ (.httpCallback req, state) :: back from heq]
      simp
    simp at hmem

theorem RunInv.written {w : WriteResult} {loop : EventLoop PendingFunctor} {conn : TcpConnection}
    (h : RunInv s) (ho : Open s) (hw : s.conn.handleWrite s.loop w = .ok (loop, conn)) :
    RunInv { s with loop, conn } := by
  have hreach := (TcpConnection.handleWrite_up ho.stands w).of_eq hw
  have hwritten := (TcpConnection.handleWrite_spec (ho.stands.served (by simp)) w).of_eq hw
  refine h.silent (.inl ⟨hreach.stands, ?_, ?_⟩)
  · have hsession : ({ s with loop, conn } : State).session = s.session := by
      unfold State.session
      rw [inputBuffer_handleWrite hw]
    rw [hsession]
    exact ho.session
  · intro a ha heq
    have hstate : conn.state = s.conn.state := hwritten.2.state
    change conn.state ≠ _
    rw [hstate]
    exact ho.shutdown a ha heq

theorem RunInv.closed {loop : EventLoop PendingFunctor} {conn : TcpConnection} (h : RunInv s)
    (ho : Open s) (hc : s.conn.handleClose s.loop = .ok (loop, conn)) :
    RunInv { s with loop, conn } := by
  have hreach := (TcpConnection.handleClose_spec ho.stands).of_eq hc
  exact h.silent (.inr hreach.stands.holds.2)

theorem exactGuard (httpCallback : HttpCallback) :
    ExactGuard (system httpCallback) RunInv Answered InTime where
  init _ h := runInv_init h
  sound _ h := h.answered
  keeps s e t h htime he hs := by
    have ho := h.isOpen he
    cases e with
    | handleRead r receiveTime refusal response =>
      cases r with
      | delivers data =>
        by_cases hdata : data = []
        · subst hdata
          obtain ⟨⟨loop, conn, outcome⟩, hr, hs⟩ := bind_eq_ok.mp hs
          unfold TcpConnection.handleRead at hr
          rw [ho.stands.assertInLoopThread, ok_bind] at hr
          obtain ⟨⟨loop', conn'⟩, hc, hr⟩ := bind_eq_ok.mp hr
          cases hr
          obtain rfl := Except.ok.inj hs
          exact h.closed ho hc
        · exact runInv_message h ho hdata (htime hdata) hs
      | fails errno =>
        obtain ⟨⟨loop, conn, outcome⟩, hr, hs⟩ := bind_eq_ok.mp hs
        unfold TcpConnection.handleRead at hr
        rw [ho.stands.assertInLoopThread, ok_bind] at hr
        cases hr
        obtain rfl := Except.ok.inj hs
        exact h
    | handleWrite w =>
      obtain ⟨⟨loop, conn⟩, hw, hs⟩ := bind_eq_ok.mp hs
      obtain rfl := Except.ok.inj hs
      exact h.written ho hw
    | handleClose =>
      obtain ⟨⟨loop, conn⟩, hc, hs⟩ := bind_eq_ok.mp hs
      obtain rfl := Except.ok.inj hs
      exact h.closed ho hc
  breaks s e t h hlate he hs hanswered := by
    have ho := h.isOpen he
    cases e with
    | handleRead r receiveTime refusal response =>
      cases r with
      | delivers data =>
        unfold InTime at hlate
        push Not at hlate
        obtain ⟨hdata, hcomp, hstate⟩ := hlate
        obtain ⟨done, hdoes, hm⟩ := messaged ho.stands ho.session hdata hs
        rw [hcomp] at hdoes
        cases hdoes with
        | answers req =>
          obtain ⟨response, rest, hback⟩ :=
            hanswered.taken s.actions _ req s.conn.state hm.actions
          obtain ⟨-, hconnected⟩ := Prod.mk.inj (List.cons.inj hback).1
          exact hstate hconnected
      | fails errno => exact hlate trivial
    | handleWrite w => exact hlate trivial
    | handleClose => exact hlate trivial

/-- After a 400 no bytes complete a request. -/
theorem Open.not_completes (h : Open s) (hbad : .sendBadRequest ∈ s.session.actions)
    (data : List UInt8) (receiveTime : ℤ) : completes s data receiveTime = false := by
  obtain ⟨buf, hb, hread⟩ := s.conn.inputBuffer.readFd_spec data
  simp only [completes, hb]
  cases hp : parseRequest buf s.context receiveTime with
  | error a => rfl
  | ok p =>
    refine beq_eq_false_iff_ne.mpr fun hall => ?_
    exact (refused_of_gotAll h.session hread hp hall).2 hbad

/-- Every request of a run is answered, exactly when all of its requests become complete while
the connection is in `kConnected`. -/
theorem answered_iff (httpCallback : HttpCallback) {es : List Event}
    (hinit : (system httpCallback).init s) (hrun : Run (system httpCallback) s es t) :
    Throughout (system httpCallback) Answered s es ↔ Guarded (system httpCallback) InTime s es :=
  (exactGuard httpCallback).throughout_iff _ hinit hrun

/-! ### A second request -/

/-- The sample connection, of which `onConnection` has been told. -/
def established : State where
  loop := TcpConnection.sampleLoop
  conn := TcpConnection.sample
  context := .new
  actions := []

theorem initial_established : Initial established where
  stands := ⟨rfl, rfl, ⟨.inl rfl, .inl (by decide)⟩, EPollPoller.view_put_self _⟩
  state := rfl
  context := rfl
  actions := rfl

/-- A complete request arrives. -/
def getRequest : Event :=
  .handleRead (.delivers (text "GET / HTTP/1.1\r\n\r\n")) 0 (.accepts 1000) (.accepts 1000)

/-- One request is answered. -/
theorem answered_one :
    Throughout (system defaultHttpCallback) Answered established [getRequest] := by
  have h : (replay (system defaultHttpCallback) established [getRequest]).any
      (fun _ => true) = true := by
    decide +kernel
  obtain ⟨t, hrun, -⟩ := exists_run_of_replay _ h
  refine (answered_iff defaultHttpCallback initial_established hrun).mpr ?_
  have hnil : Run (system defaultHttpCallback) established [] established := .nil _
  rw [← List.nil_append [getRequest], guarded_snoc _ hnil]
  exact ⟨guarded_nil _, fun _ _ => rfl⟩

/-- The request of `getRequest`. -/
def rootRequest : HttpRequest :=
  { HttpRequest.new with
    method := .kGet
    version := .kHttp11
    path := text "/" }

/-- The response to the first request closes the connection; the second request is dispatched,
and its response is dropped. -/
theorem second_not_answered : ∃ t,
    Run (system defaultHttpCallback) established [getRequest, getRequest] t ∧ ¬Answered t := by
  have h : (replay (system defaultHttpCallback) established [getRequest, getRequest]).any
      (fun t => t.actions.drop 3 = [(.httpCallback rootRequest, .kDisconnecting),
        (.sendResponse (defaultHttpCallback rootRequest (.new false)).appendToBuffer,
          .kDisconnecting), (.shutdown, .kDisconnecting)]) = true := by
    decide +kernel
  obtain ⟨t, hrun, ht⟩ := exists_run_of_replay _ h
  refine ⟨t, hrun, fun hanswered => ?_⟩
  have hsplit := (List.take_append_drop 3 t.actions).symm
  rw [of_decide_eq_true ht] at hsplit
  obtain ⟨response, rest, hback⟩ := hanswered.taken _ _ _ _ hsplit
  cases (Prod.mk.inj (List.cons.inj hback).1).2

end Answers
end Muduo.HttpServer
