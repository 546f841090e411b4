import Muduo.Assertion
import Muduo.Library.StepSystem

/-!
# RpcChannel

`net/protorpc/RpcChannel.cc`, between the threads that call methods, the loop thread of the
connection, and a peer that answers each request once, in any order. What is sent arrives.
The loop thread may call methods as well, between two messages or in a closure.
-/
namespace Muduo
open StepSystem

/-- `int64_t` -/
abbrev RpcId := BitVec 64

inductive MessageType
  | REQUEST
  | RESPONSE
  | ERROR
  deriving DecidableEq, Repr

structure RpcMessage where
  type : MessageType
  id : RpcId
  service : String
  method : String
  request : List UInt8
  response : Option (List UInt8)
  deriving DecidableEq, Repr

structure OutstandingCall where
  /-- the number of the call, by which calls are told apart; not a member -/
  number : ℕ
  response : ℕ
  /-- may be null -/
  done : Option ℕ
  deriving DecidableEq, Repr

structure RpcChannel where
  id : RpcId
  outstandings : RpcId → Option OutstandingCall
  /-- the methods of each service; `services_` may be null -/
  services : Option (String → Option (List String))

namespace RpcChannel

/-- What `onRpcMessage` does with a message. -/
inductive Outcome
  /-- the response is parsed into the object of the call, and its closure is run -/
  | completed (out : OutstandingCall) (response : List UInt8)
  /-- the response of a call that is not outstanding -/
  | discarded
  /-- `service->CallMethod` -/
  | dispatched
  | ignored
  deriving DecidableEq, Repr

/-- `id_.incrementAndGet()` -/
def incrementAndGet (c : RpcChannel) : RpcChannel := { c with id := c.id + 1 }

def request (id : RpcId) (service method : String) (request : List UInt8) : RpcMessage where
  type := .REQUEST
  id := id
  service := service
  method := method
  request := request
  response := none

def response (id : RpcId) (response : List UInt8) : RpcMessage where
  type := .RESPONSE
  id := id
  service := ""
  method := ""
  request := []
  response := some response

/-- `outstandings_[id] = out` -/
def register (c : RpcChannel) (id : RpcId) (out : OutstandingCall) : RpcChannel :=
  { c with outstandings := Function.update c.outstandings id (some out) }

def hasMethod (c : RpcChannel) (service method : String) : Bool :=
  match c.services with
  | some services => match services service with
    | some methods => methods.contains method
    | none => false
  | none => false

def onRpcMessage (c : RpcChannel) (message : RpcMessage) : Checked (RpcChannel × Outcome) :=
  match message.type with
  | .RESPONSE => match message.response with
    | none => .error .rpcHasResponse
    | some response => match c.outstandings message.id with
      | some out =>
        .ok ({ c with outstandings := Function.update c.outstandings message.id none },
          .completed out response)
      | none => .ok (c, .discarded)
  | .REQUEST =>
    .ok (c, if c.hasMethod message.service message.method then .dispatched else .ignored)
  | .ERROR => .ok (c, .ignored)

structure Call (T : Type) where
  /-- the loop thread, or one of the others -/
  thread : Option T
  message : RpcMessage
  out : OutstandingCall
  deriving DecidableEq

/-- Where a thread stands in `CallMethod`. -/
inductive Stage (T : Type)
  | idle
  /-- about to send the request -/
  | numbered (call : Call T)
  /-- about to lock `mutex_` -/
  | sent (call : Call T)
  deriving DecidableEq

/-- What is on its way from the peer. -/
inductive Inbound (T : Type)
  /-- the answer to the request of `call` -/
  | answer (call : Call T) (response : List UInt8)
  /-- a request or an error -/
  | other (message : RpcMessage)

def Inbound.message {T : Type} : Inbound T → RpcMessage
  | answer call response => RpcChannel.response call.message.id response
  | other message => message

def Inbound.call {T : Type} : Inbound T → Option (Call T)
  | answer call _ => some call
  | other _ => none

/-- The response to a request of `call`, and what became of it. -/
structure Processed (T : Type) where
  call : Call T
  message : RpcMessage
  outcome : Outcome

structure State (T : Type) where
  channel : RpcChannel
  stage : Option T → Stage T
  /-- the loop thread is in `out.done->Run()` -/
  inClosure : Bool
  /-- the number of ids taken -/
  calls : ℕ
  /-- the calls whose response has yet to be processed -/
  live : List (Call T)
  /-- the requests that have been sent and not answered -/
  unanswered : List (Call T)
  inbound : List (Inbound T)
  /-- all responses processed -/
  processed : List (Processed T)
  /-- the requests of the peer whose `doneCallback` has not been run -/
  serving : List RpcMessage
  /-- the responses sent to the peer -/
  replies : List RpcMessage

inductive Event (T : Type)
  /-- `CallMethod`, up to the request with its id -/
  | takeId (t : Option T) (service method : String) (request : List UInt8) (response : ℕ)
      (done : Option ℕ)
  /-- `RpcCodec::send` -/
  | send (t : Option T)
  | register (t : Option T)
  | answer (call : Call T) (response : List UInt8)
  /-- the peer sends a request of its own, or an error -/
  | peerSend (message : RpcMessage)
  /-- the loop thread takes the next message -/
  | onRpcMessage
  | closureReturn
  | doneCallback (message : RpcMessage) (response : List UInt8)

variable {T : Type}

def Stage.isNumbered : Stage T → Bool
  | numbered _ => true
  | idle | sent _ => false

def Stage.isSent : Stage T → Bool
  | sent _ => true
  | idle | numbered _ => false

section
variable [DecidableEq T]

def enabled (s : State T) : Event T → Prop
  | .takeId t .. => s.stage t = .idle
  | .send t => (s.stage t).isNumbered = true
  | .register t => (s.stage t).isSent = true
  | .answer call _ => call ∈ s.unanswered
  | .peerSend message => message.type ≠ .RESPONSE
  | .onRpcMessage => s.stage none = .idle ∧ s.inClosure = false ∧ s.inbound.isEmpty = false
  | .closureReturn => s.stage none = .idle ∧ s.inClosure = true
  | .doneCallback message _ => message ∈ s.serving

instance (s : State T) : (e : Event T) → Decidable (enabled s e)
  | .takeId .. | .send _ | .register _ => inferInstanceAs (Decidable (_ = _))
  | .answer call _ => inferInstanceAs (Decidable (call ∈ s.unanswered))
  | .peerSend message => inferInstanceAs (Decidable (message.type ≠ _))
  | .onRpcMessage => inferInstanceAs (Decidable (_ ∧ _ ∧ _))
  | .closureReturn => inferInstanceAs (Decidable (_ ∧ _))
  | .doneCallback message _ => inferInstanceAs (Decidable (message ∈ s.serving))

def State.setStage (s : State T) (t : Option T) (stage : Stage T) : State T :=
  { s with stage := Function.update s.stage t stage }

/-- The thread `t` has taken an id for `call`. -/
def State.takeId (s : State T) (t : Option T) (call : Call T) : State T :=
  { s.setStage t (.numbered call) with
    channel := s.channel.incrementAndGet
    calls := s.calls + 1
    live := s.live ++ [call] }

/-- The message `i` has been taken off the connection and processed. -/
def afterMessage (s : State T) (i : Inbound T) (outcome : Outcome) : State T :=
  match i with
  | .answer call _ =>
    { s with
      live := s.live.erase call
      processed := s.processed ++ [⟨call, i.message, outcome⟩]
      inClosure := match outcome with
        | .completed out _ => out.done.isSome
        | .discarded | .dispatched | .ignored => false }
  | .other message =>
    { s with serving := if outcome = .dispatched then s.serving ++ [message] else s.serving }

def step (s : State T) : Event T → Checked (State T)
  | .takeId t service method request response done =>
    let id := s.channel.incrementAndGet.id
    .ok (s.takeId t ⟨t, RpcChannel.request id service method request, s.calls, response, done⟩)
  | .send t => match s.stage t with
    | .numbered call =>
      .ok { s.setStage t (.sent call) with unanswered := s.unanswered ++ [call] }
    | .idle | .sent _ => .ok s
  | .register t => match s.stage t with
    | .sent call =>
      .ok { s.setStage t .idle with channel := s.channel.register call.message.id call.out }
    | .idle | .numbered _ => .ok s
  | .answer call response =>
    .ok { s with
      unanswered := s.unanswered.erase call
      inbound := s.inbound ++ [.answer call response] }
  | .peerSend message => .ok { s with inbound := s.inbound ++ [.other message] }
  | .onRpcMessage => match s.inbound with
    | [] => .ok s
    | i :: inbound => do
      let (channel, outcome) ← s.channel.onRpcMessage i.message
      return afterMessage { s with channel, inbound } i outcome
  | .closureReturn => .ok { s with inClosure := false }
  | .doneCallback message response =>
    .ok { s with
      serving := s.serving.erase message
      replies := s.replies ++ [RpcChannel.response message.id response] }

structure Initial (s : State T) : Prop where
  id : s.channel.id = 0
  outstandings : ∀ id, s.channel.outstandings id = none
  stage : ∀ t, s.stage t = .idle
  inClosure : s.inClosure = false
  calls : s.calls = 0
  live : s.live = []
  unanswered : s.unanswered = []
  inbound : s.inbound = []
  processed : s.processed = []
  serving : s.serving = []
  replies : s.replies = []

def system (T : Type) [DecidableEq T] : System (State T) (Event T) Assertion where
  init := Initial
  enabled := enabled
  step := step

instance (s : State T) (e : Event T) : Decidable ((system T).enabled s e) :=
  inferInstanceAs (Decidable (enabled s e))

end

/-- Every response has completed the call whose request it answers, each call once. -/
structure Matched (s : State T) : Prop where
  completed : ∀ p ∈ s.processed, p.message.id = p.call.message.id ∧
    ∃ response, p.message.response = some response ∧ p.outcome = .completed p.call.out response
  once : (s.processed.map fun p => p.call.out.number).Nodup

/-- The response of a call is processed only when its thread has left `CallMethod`. -/
def Registered (s : State T) : Event T → Prop
  | .onRpcMessage => ∀ call ∈ s.inbound.head?.bind Inbound.call, s.stage call.thread ≠ .sent call
  | .takeId .. | .send _ | .register _ | .answer .. | .peerSend _ | .closureReturn
  | .doneCallback .. => True

/-- `id_` has not come round to the id of a call whose response has yet to be processed. -/
def IdFree (s : State T) : Event T → Prop
  | .takeId .. => ∀ call ∈ s.live, call.message.id ≠ s.channel.id + 1
  | .send _ | .register _ | .answer .. | .peerSend _ | .onRpcMessage | .closureReturn
  | .doneCallback .. => True

@[simp] theorem Inbound.call_answer (call : Call T) (response : List UInt8) :
    (Inbound.answer call response).call = some call := rfl

@[simp] theorem Inbound.call_other (message : RpcMessage) :
    (Inbound.other message : Inbound T).call = none := rfl

/-- The calls whose request or response is on its way, or with the peer. -/
def State.wire (s : State T) : List (Call T) := s.unanswered ++ s.inbound.filterMap Inbound.call

def Call.number (call : Call T) : ℕ := call.out.number

/-- The numbers of all calls that have taken an id. -/
def State.numbers (s : State T) : List ℕ :=
  s.live.map Call.number ++ s.processed.map fun p => p.call.number

/-- Calls whose response has yet to be processed have ids of their own. A call is outstanding
from its registration on, and until then its thread is in `CallMethod`. -/
structure Inv (s : State T) : Prop where
  completed : ∀ p ∈ s.processed, p.message.id = p.call.message.id ∧
    ∃ response, p.message.response = some response ∧ p.outcome = .completed p.call.out response
  numbers : s.numbers.Nodup
  bound : ∀ n ∈ s.numbers, n < s.calls
  ids : (s.live.map fun call => call.message.id).Nodup
  wire : s.wire.Nodup
  numbered : ∀ t call, s.stage t = .numbered call → call.thread = t ∧ call ∈ s.live ∧
    call ∉ s.wire ∧ s.channel.outstandings call.message.id = none
  sent : ∀ t call, s.stage t = .sent call → call.thread = t ∧ call ∈ s.live ∧
    s.channel.outstandings call.message.id = none
  outstanding : ∀ id out, s.channel.outstandings id = some out →
    ∃ call ∈ s.live, call.message.id = id
  others : ∀ message, .other message ∈ s.inbound → message.type ≠ .RESPONSE
  sending : ∀ call ∈ s.wire, call ∈ s.live ∧ (s.stage call.thread = .sent call ∨
    s.channel.outstandings call.message.id = some call.out)

variable {s t : State T} {call : Call T}

theorem Inv.matched (h : Inv s) : Matched s :=
  ⟨h.completed, (List.nodup_append.mp h.numbers).2.1⟩

theorem Inv.eq_of_id (h : Inv s) {call' : Call T} (hc : call ∈ s.live) (hc' : call' ∈ s.live)
    (hid : call.message.id = call'.message.id) : call = call' :=
  List.inj_on_of_nodup_map h.ids hc hc' hid

/-- What is on the wire may change its place. -/
theorem Inv.congr_wire (h : Inv s) {unanswered : List (Call T)} {inbound : List (Inbound T)}
    (hperm : (unanswered ++ inbound.filterMap Inbound.call).Perm s.wire)
    (hothers : ∀ message, .other message ∈ inbound → message.type ≠ .RESPONSE) :
    Inv { s with unanswered, inbound } where
  completed := h.completed
  numbers := h.numbers
  bound := h.bound
  ids := h.ids
  wire := hperm.nodup_iff.mpr h.wire
  numbered t call hstage := by
    obtain ⟨hth, hmem, hw, ho⟩ := h.numbered t call hstage
    exact ⟨hth, hmem, fun hw' => hw (hperm.mem_iff.mp hw'), ho⟩
  sent := h.sent
  outstanding := h.outstanding
  others := hothers
  sending call hw := h.sending call (hperm.mem_iff.mp hw)

theorem Inv.peerSend (h : Inv s) {message : RpcMessage} (htype : message.type ≠ .RESPONSE) :
    Inv { s with inbound := s.inbound ++ [.other message] } := by
  apply h.congr_wire
  · simp [State.wire, List.filterMap_cons]
  · intro m hm
    rcases List.mem_append.mp hm with hm | hm
    · exact h.others m hm
    · cases List.mem_singleton.mp hm
      exact htype

theorem onRpcMessage_answer (c : RpcChannel) (response : List UInt8) :
    c.onRpcMessage (Inbound.answer call response).message =
      match c.outstandings call.message.id with
      | some out =>
        .ok ({ c with outstandings := Function.update c.outstandings call.message.id none },
          .completed out response)
      | none => .ok (c, .discarded) := rfl

theorem Inv.init (h : Initial s) : Inv s where
  completed p hp := by simp [h.processed] at hp
  numbers := by simp [State.numbers, h.live, h.processed]
  bound n hn := by simp [State.numbers, h.live, h.processed] at hn
  ids := by simp [h.live]
  wire := by simp [State.wire, h.unanswered, h.inbound]
  numbered t call hstage := by simp [h.stage] at hstage
  sent t call hstage := by simp [h.stage] at hstage
  outstanding id out hout := by simp [h.outstandings] at hout
  others message hm := by simp [h.inbound] at hm
  sending call hw := by simp [State.wire, h.unanswered, h.inbound] at hw

section
variable [DecidableEq T]

/-- A new call has a number and an id that no call has. -/
theorem Inv.takeId (h : Inv s) {t : Option T} (hthread : call.thread = t)
    (hid : call.message.id = s.channel.id + 1) (hnumber : call.number = s.calls)
    (hidle : s.stage t = .idle)
    (hfree : ∀ call ∈ s.live, call.message.id ≠ s.channel.id + 1) : Inv (s.takeId t call) := by
  have hnew : call ∉ s.live := fun hmem => hfree call hmem hid
  have hnone : s.channel.outstandings call.message.id = none := by
    by_contra hsome
    obtain ⟨out, hout⟩ := Option.ne_none_iff_exists'.mp hsome
    obtain ⟨call', hlive, hid'⟩ := h.outstanding _ _ hout
    exact hfree call' hlive (hid'.trans hid)
  have hlive : (s.live ++ [call]).Perm (call :: s.live) := List.perm_append_singleton call s.live
  have hnumbers : (s.takeId t call).numbers.Perm (s.calls :: s.numbers) := by
    simp [State.numbers, State.takeId, State.setStage, hnumber]
  exact {
    completed := h.completed
    numbers := by
      apply hnumbers.nodup_iff.mpr
      apply List.nodup_cons.mpr ⟨_, h.numbers⟩
      intro hmem
      exact absurd (h.bound _ hmem) (by omega)
    bound := by
      intro n hn
      rcases List.mem_cons.mp (hnumbers.mem_iff.mp hn) with rfl | hn
      · exact Nat.lt_succ_self _
      · exact Nat.lt_succ_of_lt (h.bound n hn)
    ids := by
      apply (hlive.map _).nodup_iff.mpr
      apply List.nodup_cons.mpr ⟨_, h.ids⟩
      intro hmem
      obtain ⟨call', hmem', hid'⟩ := List.mem_map.mp hmem
      exact hfree call' hmem' (hid'.trans hid)
    wire := h.wire
    numbered := by
      intro t' call' hstage
      by_cases ht : t' = t
      · subst ht
        obtain rfl : call = call' := by
          simpa [State.takeId, State.setStage] using hstage
        exact ⟨hthread, List.mem_append_right _ List.mem_cons_self,
          fun hmem => hnew (h.sending call hmem).1, hnone⟩
      · have hold : s.stage t' = .numbered call' := by
          simpa [State.takeId, State.setStage, ht] using hstage
        obtain ⟨hth, hmem, hwire, hout⟩ := h.numbered t' call' hold
        exact ⟨hth, List.mem_append_left _ hmem, hwire, hout⟩
    sent := by
      intro t' call' hstage
      have hold : s.stage t' = .sent call' := by
        by_cases ht : t' = t
        · simp [State.takeId, State.setStage, ht] at hstage
        · simpa [State.takeId, State.setStage, ht] using hstage
      obtain ⟨hth, hmem, hout⟩ := h.sent t' call' hold
      exact ⟨hth, List.mem_append_left _ hmem, hout⟩
    others := h.others
    outstanding := by
      intro id out hout
      obtain ⟨call', hmem, hid'⟩ := h.outstanding id out hout
      exact ⟨call', List.mem_append_left _ hmem, hid'⟩
    sending := by
      intro call' hwire
      obtain ⟨hmem, hstage⟩ := h.sending call' hwire
      refine ⟨List.mem_append_left _ hmem, ?_⟩
      rcases hstage with hsent | hout
      · left
        have ht : call'.thread ≠ t := by
          intro ht
          rw [ht, hidle] at hsent
          cases hsent
        exact (Function.update_of_ne ht ..).trans hsent
      · exact .inr hout }

theorem Inv.send (h : Inv s) {t : Option T} (hstage : s.stage t = .numbered call) :
    Inv { s.setStage t (.sent call) with unanswered := s.unanswered ++ [call] } := by
  obtain ⟨hthread, hlive, hwire, hout⟩ := h.numbered t call hstage
  have hperm :
      (s.unanswered ++ [call] ++ s.inbound.filterMap Inbound.call).Perm (call :: s.wire) := by
    rw [List.append_assoc]
    exact List.perm_middle
  exact {
    completed := h.completed
    numbers := h.numbers
    bound := h.bound
    ids := h.ids
    wire := hperm.nodup_iff.mpr (List.nodup_cons.mpr ⟨hwire, h.wire⟩)
    numbered := by
      intro t' call' hstage'
      have ht : t' ≠ t := by
        rintro rfl
        simp [State.setStage] at hstage'
      have hold : s.stage t' = .numbered call' := by simpa [State.setStage, ht] using hstage'
      obtain ⟨hth, hmem, hw, ho⟩ := h.numbered t' call' hold
      refine ⟨hth, hmem, ?_, ho⟩
      intro hw'
      rcases List.mem_cons.mp (hperm.mem_iff.mp hw') with rfl | hw'
      · exact ht (hth.symm.trans hthread)
      · exact hw hw'
    sent := by
      intro t' call' hstage'
      by_cases ht : t' = t
      · subst ht
        obtain rfl : call = call' := by simpa [State.setStage] using hstage'
        exact ⟨hthread, hlive, hout⟩
      · exact h.sent t' call' (by simpa [State.setStage, ht] using hstage')
    outstanding := h.outstanding
    others := h.others
    sending := by
      intro call' hw
      rcases List.mem_cons.mp (hperm.mem_iff.mp hw) with rfl | hw
      · exact ⟨hlive, .inl (by simp [State.setStage, hthread])⟩
      · obtain ⟨hmem, hs⟩ := h.sending call' hw
        refine ⟨hmem, ?_⟩
        rcases hs with hs | hs
        · left
          have ht : call'.thread ≠ t := by
            intro ht
            rw [ht, hstage] at hs
            cases hs
          simpa [State.setStage, ht] using hs
        · exact .inr hs }

/-- From its registration on a call is outstanding under its id. -/
theorem Inv.register (h : Inv s) {t : Option T} (hstage : s.stage t = .sent call) :
    Inv { s.setStage t .idle with
      channel := s.channel.register call.message.id call.out } := by
  obtain ⟨hthread, hlive, hout⟩ := h.sent t call hstage
  have hold : ∀ t' stage, (s.setStage t .idle).stage t' = stage → stage ≠ .idle →
      t' ≠ t ∧ s.stage t' = stage := by
    intro t' stage hst hne
    have ht : t' ≠ t := by
      rintro rfl
      exact hne (by simpa [State.setStage] using hst.symm)
    exact ⟨ht, by simpa [State.setStage, ht] using hst⟩
  have hother : ∀ call', call' ∈ s.live → call'.thread ≠ t →
      (s.channel.register call.message.id call.out).outstandings call'.message.id =
        s.channel.outstandings call'.message.id := by
    intro call' hmem ht
    apply Function.update_of_ne
    intro hid
    exact ht (h.eq_of_id hmem hlive hid ▸ hthread)
  exact {
    completed := h.completed
    numbers := h.numbers
    bound := h.bound
    ids := h.ids
    wire := h.wire
    numbered := by
      intro t' call' hst
      obtain ⟨ht, hs⟩ := hold t' _ hst (by simp)
      obtain ⟨hth, hmem, hw, ho⟩ := h.numbered t' call' hs
      exact ⟨hth, hmem, hw, (hother call' hmem (hth ▸ ht)).trans ho⟩
    sent := by
      intro t' call' hst
      obtain ⟨ht, hs⟩ := hold t' _ hst (by simp)
      obtain ⟨hth, hmem, ho⟩ := h.sent t' call' hs
      exact ⟨hth, hmem, (hother call' hmem (hth ▸ ht)).trans ho⟩
    others := h.others
    outstanding := by
      intro id out hid
      by_cases heq : id = call.message.id
      · exact ⟨call, hlive, heq.symm⟩
      · exact h.outstanding id out ((Function.update_of_ne heq ..).symm.trans hid)
    sending := by
      intro call' hw
      obtain ⟨hmem, hs⟩ := h.sending call' hw
      refine ⟨hmem, ?_⟩
      by_cases hc : call' = call
      · subst hc
        exact .inr (Function.update_self ..)
      · have hid : call'.message.id ≠ call.message.id := fun hid => hc (h.eq_of_id hmem hlive hid)
        rcases hs with hs | hs
        · left
          have ht : call'.thread ≠ t := by
            intro ht
            rw [ht, hstage] at hs
            cases hs
            exact hc rfl
          simpa [State.setStage, ht] using hs
        · exact .inr ((Function.update_of_ne hid ..).trans hs) }

theorem Inv.answer (h : Inv s) {response : List UInt8} (hmem : call ∈ s.unanswered) :
    Inv { s with
      unanswered := s.unanswered.erase call
      inbound := s.inbound ++ [.answer call response] } := by
  have herase : s.unanswered.Perm (call :: s.unanswered.erase call) := List.perm_cons_erase hmem
  have hcalls : (s.inbound ++ [Inbound.answer call response]).filterMap Inbound.call =
      s.inbound.filterMap Inbound.call ++ [call] := by
    simp
  apply h.congr_wire
  · rw [hcalls, ← List.append_assoc]
    exact (List.perm_append_singleton ..).trans (herase.symm.append_right _)
  · intro m hm
    exact h.others m (by simpa using hm)

/-- The response of an outstanding call completes it. -/
theorem Inv.complete (h : Inv s) {response : List UInt8} {inbound : List (Inbound T)}
    (hi : s.inbound = .answer call response :: inbound) (hne : s.stage call.thread ≠ .sent call)
    (ht : step s .onRpcMessage = .ok t) : Inv t := by
  have hperm : s.wire.Perm (call :: (s.unanswered ++ inbound.filterMap Inbound.call)) := by
    simp only [State.wire, hi, List.filterMap_cons, Inbound.call_answer]
    exact List.perm_middle
  obtain ⟨hlive, hout⟩ := h.sending call (hperm.mem_iff.mpr List.mem_cons_self)
  have hout : s.channel.outstandings call.message.id = some call.out := hout.resolve_left hne
  simp only [step, hi, onRpcMessage_answer, hout, ok_bind] at ht
  obtain rfl := Except.ok.inj ht
  obtain ⟨hnot, hnodup⟩ := List.nodup_cons.mp (hperm.nodup_iff.mp h.wire)
  have herase : s.live.Perm (call :: s.live.erase call) := List.perm_cons_erase hlive
  have hmem : ∀ call' ∈ s.live, call' ≠ call → call' ∈ s.live.erase call ∧
      call'.message.id ≠ call.message.id := by
    intro call' hl hc
    exact ⟨(List.mem_erase_of_ne hc).mpr hl, fun hid => hc (h.eq_of_id hl hlive hid)⟩
  have hnumbers : ((s.live.erase call).map Call.number ++
      (s.processed ++ [(⟨call, (Inbound.answer call response).message,
        .completed call.out response⟩ : Processed T)]).map fun p => p.call.number).Perm s.numbers := by
    have hmap := (herase.map Call.number).append_right (s.processed.map fun p => p.call.number)
    rw [List.map_append, ← List.append_assoc]
    exact (List.perm_append_singleton ..).trans hmap.symm
  exact {
    completed := by
      intro p hp
      rcases List.mem_append.mp hp with hp | hp
      · exact h.completed p hp
      · obtain rfl := List.mem_singleton.mp hp
        exact ⟨rfl, response, rfl, rfl⟩
    numbers := hnumbers.nodup_iff.mpr h.numbers
    bound := fun n hn => h.bound n (hnumbers.mem_iff.mp hn)
    ids := (List.nodup_cons.mp ((herase.map _).nodup_iff.mp h.ids)).2
    wire := hnodup
    numbered := by
      intro t' call' hstage
      obtain ⟨hth, hl, hw, ho⟩ := h.numbered t' call' hstage
      have hc : call' ≠ call := fun hc => hw (hperm.mem_iff.mpr (hc ▸ List.mem_cons_self))
      refine ⟨hth, (hmem call' hl hc).1, ?_, ?_⟩
      · exact fun hw' => hw (hperm.mem_iff.mpr (List.mem_cons_of_mem _ hw'))
      · exact (Function.update_of_ne (hmem call' hl hc).2 ..).trans ho
    sent := by
      intro t' call' hstage
      obtain ⟨hth, hl, ho⟩ := h.sent t' call' hstage
      have hc : call' ≠ call := by
        rintro rfl
        exact hne (hth ▸ hstage)
      exact ⟨hth, (hmem call' hl hc).1, (Function.update_of_ne (hmem call' hl hc).2 ..).trans ho⟩
    others := fun message hm => h.others message (hi ▸ List.mem_cons_of_mem _ hm)
    outstanding := by
      intro id out hid
      have hne' : id ≠ call.message.id := by
        rintro rfl
        cases (Function.update_self ..).symm.trans hid
      obtain ⟨call', hl, rfl⟩ := h.outstanding id out ((Function.update_of_ne hne' ..).symm.trans hid)
      have hc : call' ≠ call := fun hc => hne' (hc ▸ rfl)
      exact ⟨call', (hmem call' hl hc).1, rfl⟩
    sending := by
      intro call' hw
      obtain ⟨hl, hs⟩ := h.sending call' (hperm.mem_iff.mpr (List.mem_cons_of_mem _ hw))
      have hc : call' ≠ call := fun hc => hnot (hc ▸ hw)
      refine ⟨(hmem call' hl hc).1, ?_⟩
      rcases hs with hs | hs
      · exact .inl hs
      · exact .inr ((Function.update_of_ne (hmem call' hl hc).2 ..).trans hs) }

/-- A message of the peer's own leaves the calls alone. -/
theorem Inv.receive (h : Inv s) {message : RpcMessage} {inbound : List (Inbound T)}
    (hi : s.inbound = .other message :: inbound) (ht : step s .onRpcMessage = .ok t) : Inv t := by
  have htype : message.type ≠ .RESPONSE := h.others message (by simp [hi])
  have hI : Inv { s with inbound } := by
    apply h.congr_wire
    · simp [State.wire, hi, List.filterMap_cons]
    · intro m hm
      exact h.others m (by simp [hi, hm])
  have hkeep : ∃ outcome, s.channel.onRpcMessage message = .ok (s.channel, outcome) := by
    unfold onRpcMessage
    cases hm : message.type with
    | REQUEST => exact ⟨_, rfl⟩
    | RESPONSE => exact absurd hm htype
    | ERROR => exact ⟨_, rfl⟩
  obtain ⟨outcome, hkeep⟩ := hkeep
  simp only [step, hi, Inbound.message, hkeep, ok_bind] at ht
  obtain rfl := Except.ok.inj ht
  exact ⟨hI.completed, hI.numbers, hI.bound, hI.ids, hI.wire, hI.numbered, hI.sent,
    hI.outstanding, hI.others, hI.sending⟩

/-- The response of a call whose thread has yet to register it is discarded. -/
theorem Inv.discard (h : Inv s) {response : List UInt8} {inbound : List (Inbound T)}
    (hi : s.inbound = .answer call response :: inbound) (hsent : s.stage call.thread = .sent call)
    (ht : step s .onRpcMessage = .ok t) : ¬Matched t := by
  obtain ⟨-, -, hout⟩ := h.sent call.thread call hsent
  simp only [step, hi, onRpcMessage_answer, hout, ok_bind] at ht
  obtain rfl := Except.ok.inj ht
  intro hmatched
  obtain ⟨-, response', -, houtcome⟩ :=
    hmatched.completed _ (List.mem_append_right _ List.mem_cons_self)
  cases houtcome

theorem Inv.step (h : Inv s) {e : Event T} (hfree : IdFree s e) (hreg : Registered s e)
    (he : enabled s e) (ht : RpcChannel.step s e = .ok t) : Inv t := by
  cases e with
  | takeId t' service method request response done =>
    obtain rfl := Except.ok.inj ht
    exact h.takeId rfl rfl rfl he hfree
  | send t' =>
    simp only [RpcChannel.step] at ht
    split at ht
    · rename_i hstage
      obtain rfl := Except.ok.inj ht
      exact h.send hstage
    · exact Except.ok.inj ht ▸ h
    · exact Except.ok.inj ht ▸ h
  | register t' =>
    simp only [RpcChannel.step] at ht
    split at ht
    · rename_i hstage
      obtain rfl := Except.ok.inj ht
      exact h.register hstage
    · exact Except.ok.inj ht ▸ h
    · exact Except.ok.inj ht ▸ h
  | answer call response =>
    obtain rfl := Except.ok.inj ht
    exact h.answer he
  | peerSend message =>
    obtain rfl := Except.ok.inj ht
    exact h.peerSend he
  | onRpcMessage =>
    cases hi : s.inbound with
    | nil => simp [enabled, hi] at he
    | cons i inbound =>
      cases i with
      | answer call response =>
        have hne : s.stage call.thread ≠ .sent call := by simpa [Registered, hi] using hreg
        exact h.complete hi hne ht
      | other message => exact h.receive hi ht
  | closureReturn | doneCallback message response =>
    obtain rfl := Except.ok.inj ht
    exact ⟨h.completed, h.numbers, h.bound, h.ids, h.wire, h.numbered, h.sent, h.outstanding,
      h.others, h.sending⟩

theorem exactGuard (T : Type) [DecidableEq T] :
    ExactGuard (restrict (system T) IdFree) Inv Matched Registered where
  init s hs := Inv.init hs
  sound s h := h.matched
  keeps s e t h hreg he ht := h.step he.2 hreg he.1 ht
  breaks s e t h hreg he ht := by
    cases e with
    | onRpcMessage =>
      cases hi : s.inbound with
      | nil => simp [Registered, hi] at hreg
      | cons i inbound =>
        cases i with
        | answer call response =>
          have hsent : s.stage call.thread = .sent call := by
            by_contra hne
            exact hreg (by simpa [Registered, hi] using hne)
          exact h.discard hi hsent ht
        | other message => simp [Registered, hi] at hreg
    | takeId | send | register | answer | peerSend | closureReturn | doneCallback =>
      exact absurd trivial hreg

/-- Calls and responses match exactly if each response is processed after its call has been
registered. -/
theorem matched_throughout_iff {es : List (Event T)} (hs : Initial s)
    (hr : Run (restrict (system T) IdFree) s es t) :
    Throughout (restrict (system T) IdFree) Matched s es ↔
      Guarded (restrict (system T) IdFree) Registered s es :=
  (exactGuard T).throughout_iff _ hs hr

end

/-- The loop thread has registered its own calls before it processes the next message. -/
theorem registered_of_loopThread (he : enabled s .onRpcMessage)
    (hloop : ∀ call ∈ s.inbound.head?.bind Inbound.call, call.thread = none) :
    Registered s .onRpcMessage := by
  intro call hcall
  rw [hloop call hcall, he.1]
  simp

/-! ### A peer that answers at once -/

def sample : State ℕ where
  channel := ⟨0, fun _ => none, none⟩
  stage _ := .idle
  inClosure := false
  calls := 0
  live := []
  unanswered := []
  inbound := []
  processed := []
  serving := []
  replies := []

theorem initial_sample : Initial sample :=
  ⟨rfl, fun _ => rfl, fun _ => rfl, rfl, rfl, rfl, rfl, rfl, rfl, rfl, rfl⟩

instance [DecidableEq T] (s : State T) : (e : Event T) → Decidable (Registered s e)
  | .onRpcMessage =>
    inferInstanceAs (Decidable (∀ call ∈ s.inbound.head?.bind Inbound.call, _))
  | .takeId .. | .send _ | .register _ | .answer .. | .peerSend _ | .closureReturn
  | .doneCallback .. => inferInstanceAs (Decidable True)

instance (s : State T) : (e : Event T) → Decidable (IdFree s e)
  | .takeId .. => inferInstanceAs (Decidable (∀ call ∈ s.live, _))
  | .send _ | .register _ | .answer .. | .peerSend _ | .onRpcMessage | .closureReturn
  | .doneCallback .. => inferInstanceAs (Decidable True)

/-- The call of thread 1, and its answer. -/
def sampleCall : List (Event ℕ) :=
  [.takeId (some 1) "EchoService" "Echo" [1] 100 (some 7), .send (some 1),
    .answer ⟨some 1, request 1 "EchoService" "Echo" [1], 0, 100, some 7⟩ [2]]

/-- The calls of two threads, answered in the other order. -/
def twoCalls : List (Event ℕ) :=
  [.takeId (some 1) "EchoService" "Echo" [1] 100 (some 7),
    .takeId (some 2) "EchoService" "Echo" [3] 101 none, .send (some 2), .send (some 1),
    .register (some 1), .register (some 2),
    .answer ⟨some 1, request 1 "EchoService" "Echo" [1], 0, 100, some 7⟩ [2],
    .answer ⟨some 2, request 2 "EchoService" "Echo" [3], 1, 101, none⟩ [4],
    .onRpcMessage, .closureReturn, .onRpcMessage]

theorem twoCalls_matched :
    Throughout (restrict (system ℕ) IdFree) Matched sample twoCalls := by
  have hreplay : (replay (restrict (restrict (system ℕ) IdFree) Registered) sample twoCalls).any
      (fun _ => true) = true := by
    decide +kernel
  obtain ⟨t, hr, -⟩ := exists_run_of_replay _ hreplay
  exact (matched_throughout_iff initial_sample (run_of_restrict _ hr)).mpr (restrict_guarded _ hr)

/-- The response is there before the call is registered, and is discarded. -/
theorem earlyAnswer_not_matched : ∃ t, Run (system ℕ) sample (sampleCall ++ [.onRpcMessage]) t ∧
    Initial sample ∧ ¬Matched t := by
  have hreplay : (replay (system ℕ) sample (sampleCall ++ [.onRpcMessage])).any (fun t =>
      t.processed.any fun p => decide (p.outcome = .discarded)) = true := by
    decide +kernel
  obtain ⟨t, hr, ht⟩ := exists_run_of_replay _ hreplay
  obtain ⟨p, hp, houtcome⟩ := List.any_eq_true.mp ht
  refine ⟨t, hr, initial_sample, ?_⟩
  intro hmatched
  obtain ⟨-, response, -, hcompleted⟩ := hmatched.completed p hp
  rw [of_decide_eq_true houtcome] at hcompleted
  cases hcompleted

end RpcChannel
end Muduo
