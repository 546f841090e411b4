import Muduo.Examples.PubSubCodec
import Muduo.Library.StepSystem
import Muduo.TcpConnection
import Muduo.Timestamp

/-!
# The hub

`examples/hub/hub.cc` and `pubsub.cc`: clients subscribe to topics and publish to them. `log` is
not in the source; it tells what has been done, and with it what each client is to hear.
-/
namespace Muduo.PubSub
open FrameStream StepSystem

inductive Fault
  | buffer (a : Assertion)
  /-- `doUnsubscribe` reads its `topic` after it has erased the key that it refers to -/
  | erasedKey
  /-- not a failure of the source: the loop has not ended -/
  | hangs
  deriving DecidableEq

/-- What the hub has done. -/
inductive Entry (C : Type)
  | up (c : C)
  | down (c : C)
  | shutdown (c : C)
  | subscribe (c : C) (topic : List UInt8)
  | unsubscribe (c : C) (topic : List UInt8)
  /-- without a source it is the hub itself that publishes -/
  | publish (source : Option C) (topic content : List UInt8) (time : ℤ)

structure Topic (C : Type) where
  topic : List UInt8
  content : List UInt8
  lastPubTime : ℤ
  audiences : List C

namespace Topic
variable {C : Type}

/-- `Topic(topic)`; a `Timestamp` is invalid at first. -/
def new (topic : List UInt8) : Topic C := ⟨topic, [], 0, []⟩

def makeMessage (t : Topic C) : List UInt8 := (Request.pub t.topic t.content).bytes

end Topic

structure Connection where
  state : StateE
  /-- `ConnectionSubscription` -/
  context : List (List UInt8)
  inputBuffer : Buffer
  /-- what has arrived in the input buffer -/
  got : List UInt8
  /-- what was given to `sendInLoop` -/
  sent : List UInt8

structure PubSubServer (C : Type) where
  conn : C → Connection
  topics : List UInt8 → Option (Topic C)
  /-- the newest entry is the first -/
  log : List (Entry C)

namespace PubSubServer
variable {C : Type} [DecidableEq C]

def setConn (s : PubSubServer C) (c : C) (conn : Connection) : PubSubServer C :=
  { s with conn := Function.update s.conn c conn }

def setTopic (s : PubSubServer C) (topic : List UInt8) (t : Topic C) : PubSubServer C :=
  { s with topics := Function.update s.topics topic (some t) }

def record (s : PubSubServer C) (e : Entry C) : PubSubServer C := { s with log := e :: s.log }

/-- `conn->send(message)` -/
def send (message : List UInt8) (s : PubSubServer C) (c : C) : PubSubServer C :=
  let conn := s.conn c
  if conn.state = .kConnected then s.setConn c { conn with sent := conn.sent ++ message } else s

/-- `conn->shutdown()` -/
def shutdown (s : PubSubServer C) (c : C) : PubSubServer C :=
  let conn := s.conn c
  let state := if conn.state = .kConnected then .kDisconnecting else conn.state
  (s.setConn c { conn with state }).record (.shutdown c)

/-- The topic that `getTopic` refers to; where there is none it makes one. -/
def getTopic (s : PubSubServer C) (topic : List UInt8) : Topic C :=
  (s.topics topic).getD (Topic.new topic)

/-- `getTopic(topic).add(conn)` -/
def add (s : PubSubServer C) (topic : List UInt8) (c : C) : PubSubServer C :=
  let t := s.getTopic topic
  let s := s.setTopic topic { t with audiences := t.audiences.insert c }
  if 0 < t.lastPubTime then send t.makeMessage s c else s

def doSubscribe (s : PubSubServer C) (c : C) (topic : List UInt8) : PubSubServer C :=
  let conn := s.conn c
  let s := s.setConn c { conn with context := conn.context.insert topic }
  (s.add topic c).record (.subscribe c topic)

/-- `isKey` says that `topic` refers to the key of `connSub` itself. -/
def doUnsubscribe (s : PubSubServer C) (c : C) (topic : List UInt8) (isKey : Bool) :
    Except Fault (PubSubServer C) := do
  let conn := s.conn c
  let s := s.setConn c { conn with context := conn.context.erase topic }
  if isKey then throw .erasedKey
  let t := s.getTopic topic
  let s := s.setTopic topic { t with audiences := t.audiences.erase c }
  return s.record (.unsubscribe c topic)

def doPublish (s : PubSubServer C) (source : Option C) (topic content : List UInt8) (time : ℤ) :
    PubSubServer C :=
  let t := { s.getTopic topic with content, lastPubTime := time }
  let s := s.setTopic topic t
  let s := t.audiences.foldl (send t.makeMessage) s
  s.record (.publish source topic content time)

def onConnectionUp (s : PubSubServer C) (c : C) : PubSubServer C :=
  (s.setConn c { s.conn c with state := .kConnected, context := [] }).record (.up c)

def onConnectionDown (s : PubSubServer C) (c : C) : Except Fault (PubSubServer C) := do
  let s := s.setConn c { s.conn c with state := .kDisconnected }
  let s ← (s.conn c).context.foldlM (fun s topic => s.doUnsubscribe c topic true) s
  return s.record (.down c)

/-- The commands of `onMessage`; the loop goes on unless the command is unknown. -/
def onCommand (s : PubSubServer C) (c : C) (p : Parsed) (receiveTime : ℤ) :
    Except Fault (PubSubServer C × Bool) :=
  if p.cmd = text "pub" then .ok (s.doPublish (some c) p.topic p.content receiveTime, true)
  else if p.cmd = text "sub" then .ok (s.doSubscribe c p.topic, true)
  else if p.cmd = text "unsub" then do
    let s ← s.doUnsubscribe c p.topic false
    return (s, true)
  else .ok (s.shutdown c, false)

/-- The loop of `onMessage`. -/
def readMessages (c : C) (receiveTime : ℤ) : ℕ → PubSubServer C → Except Fault (PubSubServer C)
  | 0, _ => .error .hangs
  | n + 1, s => do
    let (result, p, buf) ← (parseMessage (s.conn c).inputBuffer).mapError .buffer
    let s := s.setConn c { s.conn c with inputBuffer := buf }
    match result with
    | .kSuccess => do
      let (s, more) ← s.onCommand c p receiveTime
      if more then readMessages c receiveTime n s else return s
    | .kError => return s.shutdown c
    | .kContinue => return s

/-- `bytes` arrive in the input buffer, and `onMessage` is called. -/
def onMessage (s : PubSubServer C) (c : C) (bytes : List UInt8) (receiveTime : ℤ) :
    Except Fault (PubSubServer C) := do
  let buf ← ((s.conn c).inputBuffer.readFd bytes).mapError .buffer
  let s := s.setConn c { s.conn c with inputBuffer := buf, got := (s.conn c).got ++ bytes }
  s.readMessages c receiveTime (buf.readableBytes + 1)

def timePublish (s : PubSubServer C) (now : ℤ) : PubSubServer C :=
  s.doPublish none (text "utc_time") (Timestamp.toFormattedString now) now

inductive Event (C : Type)
  | up (c : C)
  | down (c : C)
  | message (c : C) (bytes : List UInt8) (receiveTime : ℤ)
  | timer (now : ℤ)

def step (s : PubSubServer C) : Event C → Except Fault (PubSubServer C)
  | .up c => .ok (s.onConnectionUp c)
  | .down c => s.onConnectionDown c
  | .message c bytes receiveTime => s.onMessage c bytes receiveTime
  | .timer now => .ok (s.timePublish now)

def isOpen (conn : Connection) : Prop :=
  conn.state = .kConnected ∨ conn.state = .kDisconnecting

instance (conn : Connection) : Decidable (isOpen conn) := inferInstanceAs (Decidable (_ ∨ _))

/-- A connection comes up once. -/
def enabled (s : PubSubServer C) : Event C → Prop
  | .up c => (s.conn c).state = .kConnecting
  | .down c | .message c _ _ => isOpen (s.conn c)
  | .timer _ => True

def init : PubSubServer C where
  conn _ := ⟨.kConnecting, [], Buffer.new, [], []⟩
  topics _ := none
  log := []

def system : System (PubSubServer C) (Event C) Fault where
  init := (· = init)
  enabled := enabled
  step := step

instance (s : PubSubServer C) (e : Event C) : Decidable ((system (C := C)).enabled s e) :=
  match e with
  | .up c => inferInstanceAs (Decidable ((s.conn c).state = .kConnecting))
  | .down c | .message c _ _ => inferInstanceAs (Decidable (isOpen (s.conn c)))
  | .timer _ => inferInstanceAs (Decidable True)

end PubSubServer

/-! ### What is to be heard -/

section Log
variable {C : Type} [DecidableEq C]

/-- The last word of the client about the topic was `sub`. -/
def subscribed (c : C) (topic : List UInt8) : List (Entry C) → Bool
  | [] => false
  | .subscribe c' topic' :: log => (c' = c ∧ topic' = topic) || subscribed c topic log
  | .unsubscribe c' topic' :: log => ¬(c' = c ∧ topic' = topic) && subscribed c topic log
  | .up _ :: log | .down _ :: log | .shutdown _ :: log | .publish _ _ _ _ :: log =>
    subscribed c topic log

/-- The client has come, and the connection to it is not shut down. -/
def live (c : C) : List (Entry C) → Bool
  | [] => false
  | .up c' :: log => c' = c || live c log
  | .down c' :: log | .shutdown c' :: log => c' ≠ c && live c log
  | .subscribe _ _ :: log | .unsubscribe _ _ :: log | .publish _ _ _ _ :: log => live c log

/-- The last content that was published, if its time is valid. -/
def retained (topic : List UInt8) : List (Entry C) → Option (List UInt8)
  | [] => none
  | .publish _ topic' content time :: log =>
    if topic' = topic then if 0 < time then some content else none else retained topic log
  | .up _ :: log | .down _ :: log | .shutdown _ :: log | .subscribe _ _ :: log
  | .unsubscribe _ _ :: log => retained topic log

/-- A client hears what is published to its topics from then on, and first what was published
last. -/
def heard (c : C) : List (Entry C) → List (List UInt8 × List UInt8)
  | [] => []
  | .subscribe c' topic :: log => heard c log ++
      if c' = c ∧ live c log then ((retained topic log).map (topic, ·)).toList else []
  | .publish _ topic content _ :: log => heard c log ++
      if live c log ∧ subscribed c topic log then [(topic, content)] else []
  | .up _ :: log | .down _ :: log | .shutdown _ :: log | .unsubscribe _ _ :: log => heard c log

/-- The requests of the client, in order. -/
def said (c : C) : List (Entry C) → List Request
  | [] => []
  | .subscribe c' topic :: log => said c log ++ if c' = c then [.sub topic] else []
  | .unsubscribe c' topic :: log => said c log ++ if c' = c then [.unsub topic] else []
  | .publish source topic content _ :: log => said c log ++
      if source = some c then [.pub topic content] else []
  | .up _ :: log | .down _ :: log | .shutdown _ :: log => said c log

theorem subscribed_subscribe {c c' : C} {topic topic' : List UInt8} {log : List (Entry C)} :
    subscribed c topic (.subscribe c' topic' :: log) ↔
      c = c' ∧ topic = topic' ∨ subscribed c topic log := by
  rw [subscribed, Bool.or_eq_true, decide_eq_true_eq, eq_comm, eq_comm (a := topic')]

theorem subscribed_unsubscribe {c c' : C} {topic topic' : List UInt8} {log : List (Entry C)} :
    subscribed c topic (.unsubscribe c' topic' :: log) ↔
      ¬(c = c' ∧ topic = topic') ∧ subscribed c topic log := by
  rw [subscribed, Bool.and_eq_true, decide_eq_true_eq, eq_comm, eq_comm (a := topic')]

/-- The bytes of what is heard. -/
def message (m : List UInt8 × List UInt8) : List UInt8 := (Request.pub m.1 m.2).bytes

end Log

namespace PubSubServer
variable {C : Type} [DecidableEq C] {s s' : PubSubServer C} {c d : C}
  {topic content : List UInt8}

/-- The state is the one that the log tells of. -/
structure Told (s : PubSubServer C) : Prop where
  context : ∀ c topic, topic ∈ (s.conn c).context ↔ subscribed c topic s.log
  contextNodup : ∀ c, (s.conn c).context.Nodup
  topic : ∀ topic, (s.getTopic topic).topic = topic
  audiences : ∀ c topic, c ∈ (s.getTopic topic).audiences ↔ subscribed c topic s.log
  audiencesNodup : ∀ topic, (s.getTopic topic).audiences.Nodup
  last : ∀ topic, (if 0 < (s.getTopic topic).lastPubTime then some (s.getTopic topic).content
    else none) = retained topic s.log
  live : ∀ c, (s.conn c).state = .kConnected ↔ live c s.log
  fresh : ∀ c, (s.conn c).state = .kConnecting → (s.conn c).context = []
  sent : ∀ c, (s.conn c).sent = (heard c s.log).flatMap message
  clean : ∀ c, ∀ m ∈ heard c s.log, Clean m.1 ∧ Clean m.2
  retainedClean : ∀ topic, ∀ content ∈ retained topic s.log, Clean content

/-- What a call does on behalf of a client that has said `rs`, if there is one. -/
structure Acts (source : Option C) (rs : List Request) (s s' : PubSubServer C) : Prop where
  told : Told s'
  got : ∀ d, (s'.conn d).got = (s.conn d).got
  inputBuffer : ∀ d, (s'.conn d).inputBuffer = (s.conn d).inputBuffer
  state : ∀ d, (s.conn d).state ≠ .kConnecting → (s'.conn d).state ≠ .kConnecting
  said : ∀ d, said d s'.log = said d s.log ++ if source = some d then rs else []

omit [DecidableEq C] in
theorem getTopic_setTopic (s : PubSubServer C) (topic topic' : List UInt8) (t : Topic C) :
    (s.setTopic topic t).getTopic topic' = if topic' = topic then t else s.getTopic topic' := by
  unfold getTopic setTopic
  by_cases h : topic' = topic
  · rw [if_pos h, h]
    simp
  · simp [h]

theorem conn_setConn (s : PubSubServer C) (c d : C) (conn : Connection) :
    (s.setConn c conn).conn d = if d = c then conn else s.conn d := by
  by_cases h : d = c
  · rw [if_pos h, h]
    exact Function.update_self ..
  · rw [if_neg h]
    exact Function.update_of_ne h ..

/-- What holds of the connection that is set, and of all others. -/
theorem setConn_all {P : C → Connection → Prop} {conn : Connection} (hc : P c conn)
    (h : ∀ d, d ≠ c → P d (s.conn d)) (d : C) : P d ((s.setConn c conn).conn d) := by
  rw [conn_setConn]
  split_ifs with hd
  · exact hd ▸ hc
  · exact h d hd

/-- A connection that was given `message`. -/
def given (message : List UInt8) (conn : Connection) : Connection :=
  if conn.state = .kConnected then { conn with sent := conn.sent ++ message } else conn

section Given
variable (message : List UInt8) (conn : Connection)

@[simp] theorem given_state : (given message conn).state = conn.state := by
  unfold given
  split_ifs <;> rfl

@[simp] theorem given_context : (given message conn).context = conn.context := by
  unfold given
  split_ifs <;> rfl

@[simp] theorem given_got : (given message conn).got = conn.got := by
  unfold given
  split_ifs <;> rfl

@[simp] theorem given_inputBuffer : (given message conn).inputBuffer = conn.inputBuffer := by
  unfold given
  split_ifs <;> rfl

@[simp] theorem given_sent : (given message conn).sent =
    conn.sent ++ if conn.state = .kConnected then message else [] := by
  unfold given
  split_ifs
  · rfl
  · exact (List.append_nil _).symm

theorem given_nil : given [] conn = conn := by
  unfold given
  split_ifs
  · rw [List.append_nil]
  · rfl

end Given

theorem conn_send (message : List UInt8) (s : PubSubServer C) (c d : C) :
    (send message s c).conn d = if d = c then given message (s.conn d) else s.conn d := by
  unfold send given
  dsimp only
  by_cases hd : d = c
  · subst hd
    rw [if_pos rfl]
    split_ifs
    · exact (conn_setConn ..).trans (if_pos rfl)
    · rfl
  · rw [if_neg hd]
    split_ifs
    · exact (conn_setConn ..).trans (if_neg hd)
    · rfl

theorem topics_send (message : List UInt8) (s : PubSubServer C) (c : C) :
    (send message s c).topics = s.topics ∧ (send message s c).log = s.log := by
  unfold send
  dsimp only
  split_ifs <;> exact ⟨rfl, rfl⟩

theorem foldl_send (message : List UInt8) {audiences : List C} (h : audiences.Nodup)
    (s : PubSubServer C) :
    (∀ d, (audiences.foldl (send message) s).conn d =
      if d ∈ audiences then given message (s.conn d) else s.conn d) ∧
    (audiences.foldl (send message) s).topics = s.topics ∧
    (audiences.foldl (send message) s).log = s.log := by
  induction audiences generalizing s with
  | nil => exact ⟨fun d => by simp, rfl, rfl⟩
  | cons c audiences ih =>
    obtain ⟨hc, hnodup⟩ := List.nodup_cons.mp h
    obtain ⟨hconn, htopics, hlog⟩ := ih hnodup (send message s c)
    obtain ⟨htopics', hlog'⟩ := topics_send message s c
    refine ⟨fun d => ?_, htopics.trans htopics', hlog.trans hlog'⟩
    rw [List.foldl_cons, hconn, conn_send]
    by_cases hd : d = c
    · subst hd
      simp [hc]
    · simp [hd]

/-- What a new member of the audience is sent. -/
def news (t : Topic C) : List UInt8 := if 0 < t.lastPubTime then t.makeMessage else []

theorem conn_add (s : PubSubServer C) (topic : List UInt8) (c d : C) :
    (s.add topic c).conn d =
      if d = c then given (news (s.getTopic topic)) (s.conn d) else s.conn d := by
  unfold add news
  dsimp only
  split_ifs with htime hd
  · exact (conn_send ..).trans (if_pos hd)
  · exact (conn_send ..).trans (if_neg hd)
  · exact (given_nil _).symm
  · rfl

theorem topics_add (s : PubSubServer C) (topic : List UInt8) (c : C) :
    (s.add topic c).topics = (s.setTopic topic { s.getTopic topic with
      audiences := (s.getTopic topic).audiences.insert c }).topics ∧
    (s.add topic c).log = s.log := by
  unfold add
  dsimp only
  split_ifs
  · exact topics_send ..
  · exact ⟨rfl, rfl⟩

omit [DecidableEq C] in
theorem getTopic_congr (h : s'.topics = s.topics) (topic : List UInt8) :
    s'.getTopic topic = s.getTopic topic := by
  unfold getTopic
  rw [h]

theorem getTopic_doSubscribe (s : PubSubServer C) (c : C) (topic topic' : List UInt8) :
    (s.doSubscribe c topic).getTopic topic' = if topic' = topic then { s.getTopic topic with
      audiences := (s.getTopic topic).audiences.insert c } else s.getTopic topic' := by
  have htopics := (topics_add (s.setConn c { s.conn c with
    context := (s.conn c).context.insert topic }) topic c).1
  exact (getTopic_congr htopics topic').trans (getTopic_setTopic ..)

theorem log_doSubscribe (s : PubSubServer C) (c : C) (topic : List UInt8) :
    (s.doSubscribe c topic).log = .subscribe c topic :: s.log :=
  congrArg _ (topics_add ..).2

theorem conn_doSubscribe (s : PubSubServer C) (c d : C) (topic : List UInt8) :
    (s.doSubscribe c topic).conn d = if d = c then given (news (s.getTopic topic))
      { s.conn c with context := (s.conn c).context.insert topic } else s.conn d := by
  have hadd := conn_add (s.setConn c { s.conn c with
    context := (s.conn c).context.insert topic }) topic c d
  rw [conn_setConn] at hadd
  refine hadd.trans ?_
  by_cases hd : d = c
  · simp only [if_pos hd]
    rfl
  · simp only [if_neg hd]

/-- What is sent to a new member of the audience is what was published last. -/
theorem Told.news (h : Told s) (topic : List UInt8) : news (s.getTopic topic) =
    ((retained topic s.log).map (topic, ·)).toList.flatMap message := by
  have hlast := h.last topic
  unfold PubSubServer.news
  split_ifs at hlast ⊢
  · rw [← hlast, Option.map_some, Option.toList_some, List.flatMap_singleton, message,
      Topic.makeMessage, h.topic]
  · rw [← hlast]
    rfl

theorem Told.clean_retained (h : Told s) (htopic : Clean topic) :
    ∀ m ∈ ((retained topic s.log).map (topic, ·)).toList, Clean m.1 ∧ Clean m.2 := by
  intro m hm
  obtain ⟨content, hcontent, heq⟩ := Option.map_eq_some_iff.mp (Option.mem_toList.mp hm)
  rw [← heq]
  exact ⟨htopic, h.retainedClean topic content hcontent⟩

theorem Told.doSubscribe (h : Told s) (hstate : (s.conn c).state ≠ .kConnecting)
    (htopic : Clean topic) : Told (s.doSubscribe c topic) where
  context d topic' := by
    rw [conn_doSubscribe, log_doSubscribe, subscribed_subscribe]
    by_cases hd : d = c
    · rw [if_pos hd, given_context, List.mem_insert_iff, h.context, hd]
      simp
    · rw [if_neg hd, h.context]
      simp [hd]
  contextNodup d := by
    rw [conn_doSubscribe]
    split_ifs
    · rw [given_context]
      exact (h.contextNodup c).insert
    · exact h.contextNodup d
  topic topic' := by
    rw [getTopic_doSubscribe]
    split_ifs with heq
    · rw [heq]
      exact h.topic topic
    · exact h.topic topic'
  audiences d topic' := by
    rw [getTopic_doSubscribe, log_doSubscribe, subscribed_subscribe]
    by_cases heq : topic' = topic
    · rw [if_pos heq, List.mem_insert_iff, h.audiences, heq]
      simp
    · rw [if_neg heq, h.audiences]
      simp [heq]
  audiencesNodup topic' := by
    rw [getTopic_doSubscribe]
    split_ifs
    · exact (h.audiencesNodup topic).insert
    · exact h.audiencesNodup topic'
  last topic' := by
    rw [getTopic_doSubscribe, log_doSubscribe, retained, ← h.last]
    by_cases heq : topic' = topic
    · rw [if_pos heq, heq]
    · rw [if_neg heq]
  live d := by
    rw [conn_doSubscribe, log_doSubscribe, PubSub.live, ← h.live]
    split_ifs with hd
    · rw [given_state, hd]
    · rfl
  fresh d hfresh := by
    rw [conn_doSubscribe] at hfresh ⊢
    split_ifs at hfresh ⊢
    · rw [given_state] at hfresh
      exact absurd hfresh hstate
    · exact h.fresh d hfresh
  sent d := by
    rw [conn_doSubscribe, log_doSubscribe, heard]
    by_cases hd : d = c
    · rw [if_pos hd, given_sent, hd, h.news, h.sent, List.flatMap_append]
      have hlive := h.live c
      by_cases hstate : (s.conn c).state = .kConnected
      · rw [if_pos hstate, if_pos ⟨rfl, hlive.mp hstate⟩]
      · rw [if_neg hstate, if_neg fun hand => hstate (hlive.mpr hand.2)]
        rfl
    · rw [if_neg hd, if_neg fun hand => hd hand.1.symm, List.append_nil]
      exact h.sent d
  clean d m hm := by
    rw [log_doSubscribe, heard] at hm
    rcases List.mem_append.mp hm with hm | hm
    · exact h.clean d m hm
    · split_ifs at hm
      · exact h.clean_retained htopic m hm
      · cases hm
  retainedClean topic' := by
    rw [log_doSubscribe, retained]
    exact h.retainedClean topic'

theorem doUnsubscribe_eq (s : PubSubServer C) (c : C) (topic : List UInt8) :
    s.doUnsubscribe c topic false = .ok (((s.setConn c { s.conn c with
      context := (s.conn c).context.erase topic }).setTopic topic { s.getTopic topic with
        audiences := (s.getTopic topic).audiences.erase c }).record (.unsubscribe c topic)) := rfl

theorem Told.doUnsubscribe (h : Told s) (hs : s.doUnsubscribe c topic false = .ok s') :
    Told s' := by
  rw [doUnsubscribe_eq] at hs
  have hs := (Except.ok.inj hs).symm
  have hlog : s'.log = .unsubscribe c topic :: s.log := by rw [hs]; rfl
  have hconn : ∀ d, s'.conn d = if d = c then { s.conn c with
      context := (s.conn c).context.erase topic } else s.conn d := by
    intro d
    rw [hs]
    exact conn_setConn ..
  have hget : ∀ topic', s'.getTopic topic' = if topic' = topic then { s.getTopic topic with
      audiences := (s.getTopic topic).audiences.erase c } else s.getTopic topic' := by
    intro topic'
    rw [hs]
    exact getTopic_setTopic ..
  have hsame : ∀ d, (s'.conn d).state = (s.conn d).state ∧ (s'.conn d).sent = (s.conn d).sent := by
    intro d
    rw [hconn]
    split_ifs with hd
    · rw [hd]
      exact ⟨rfl, rfl⟩
    · exact ⟨rfl, rfl⟩
  constructor
  · intro d topic'
    rw [hconn, hlog, subscribed_unsubscribe]
    by_cases hd : d = c
    · rw [if_pos hd, (h.contextNodup c).mem_erase_iff, h.context, hd]
      simp
    · rw [if_neg hd, h.context]
      simp [hd]
  · intro d
    rw [hconn]
    split_ifs
    · exact (h.contextNodup c).erase _
    · exact h.contextNodup d
  · intro topic'
    rw [hget]
    split_ifs with heq
    · rw [heq]
      exact h.topic topic
    · exact h.topic topic'
  · intro d topic'
    rw [hget, hlog, subscribed_unsubscribe]
    by_cases heq : topic' = topic
    · rw [if_pos heq, (h.audiencesNodup topic).mem_erase_iff, h.audiences, heq]
      simp
    · rw [if_neg heq, h.audiences]
      simp [heq]
  · intro topic'
    rw [hget]
    split_ifs
    · exact (h.audiencesNodup topic).erase _
    · exact h.audiencesNodup topic'
  · intro topic'
    rw [hget, hlog, retained, ← h.last]
    by_cases heq : topic' = topic
    · rw [if_pos heq, heq]
    · rw [if_neg heq]
  · intro d
    rw [(hsame d).1, hlog, PubSub.live, ← h.live]
  · intro d hfresh
    rw [(hsame d).1] at hfresh
    rw [hconn]
    split_ifs with hd
    · rw [hd] at hfresh
      rw [h.fresh c hfresh]
      rfl
    · exact h.fresh d hfresh
  · intro d
    rw [(hsame d).2, hlog, heard]
    exact h.sent d
  · intro d
    rw [hlog, heard]
    exact h.clean d
  · intro topic'
    rw [hlog, retained]
    exact h.retainedClean topic'

/-- What `publish` leaves of the topic. -/
def published (s : PubSubServer C) (topic content : List UInt8) (time : ℤ) : Topic C :=
  { s.getTopic topic with content, lastPubTime := time }

theorem doPublish_spec (h : Told s) (source : Option C) (topic content : List UInt8) (time : ℤ) :
    (∀ d, (s.doPublish source topic content time).conn d = given
      (if subscribed d topic s.log then message (topic, content) else []) (s.conn d)) ∧
    (∀ topic', (s.doPublish source topic content time).getTopic topic' =
      if topic' = topic then s.published topic content time else s.getTopic topic') ∧
    (s.doPublish source topic content time).log = .publish source topic content time :: s.log := by
  obtain ⟨hconn, htopics, hlog⟩ := foldl_send (s.published topic content time).makeMessage
    (h.audiencesNodup topic) (s.setTopic topic (s.published topic content time))
  have hmessage : (s.published topic content time).makeMessage = message (topic, content) := by
    unfold Topic.makeMessage message published
    rw [h.topic]
  refine ⟨fun d => ?_, fun topic' => ?_, congrArg _ hlog⟩
  · refine (hconn d).trans ?_
    rw [hmessage]
    by_cases hsub : subscribed d topic s.log = true
    · rw [if_pos ((h.audiences d topic).mpr hsub), if_pos hsub]
      rfl
    · rw [if_neg fun hmem => hsub ((h.audiences d topic).mp hmem), if_neg hsub]
      exact (given_nil _).symm
  · exact (getTopic_congr htopics topic').trans (getTopic_setTopic ..)

theorem Told.doPublish (h : Told s) (source : Option C) (htopic : Clean topic)
    (hcontent : Clean content) (time : ℤ) : Told (s.doPublish source topic content time) := by
  obtain ⟨hconn, hget, hlog⟩ := doPublish_spec h source topic content time
  constructor
  · intro d topic'
    rw [hconn, given_context, hlog, subscribed]
    exact h.context d topic'
  · intro d
    rw [hconn, given_context]
    exact h.contextNodup d
  · intro topic'
    rw [hget]
    split_ifs with heq
    · rw [heq]
      exact h.topic topic
    · exact h.topic topic'
  · intro d topic'
    rw [hget, hlog, subscribed, ← h.audiences]
    split_ifs with heq
    · rw [heq]
      rfl
    · rfl
  · intro topic'
    rw [hget]
    split_ifs
    · exact h.audiencesNodup topic
    · exact h.audiencesNodup topic'
  · intro topic'
    rw [hget, hlog, retained]
    by_cases heq : topic' = topic
    · rw [if_pos heq, if_pos heq.symm]
      rfl
    · have hne : topic ≠ topic' := fun heq' => heq heq'.symm
      rw [if_neg heq, if_neg hne]
      exact h.last topic'
  · intro d
    rw [hconn, given_state, hlog, PubSub.live]
    exact h.live d
  · intro d hfresh
    rw [hconn, given_state] at hfresh
    rw [hconn, given_context]
    exact h.fresh d hfresh
  · intro d
    rw [hconn, given_sent, hlog, heard, List.flatMap_append, h.sent]
    congr 1
    have hlive := h.live d
    by_cases hstate : (s.conn d).state = .kConnected
    · by_cases hsub : subscribed d topic s.log = true
      · rw [if_pos hstate, if_pos hsub, if_pos ⟨hlive.mp hstate, hsub⟩, List.flatMap_singleton]
      · rw [if_pos hstate, if_neg hsub, if_neg fun hand => hsub hand.2]
        rfl
    · rw [if_neg hstate, if_neg fun hand => hstate (hlive.mpr hand.1)]
      rfl
  · intro d m hm
    rw [hlog, heard] at hm
    rcases List.mem_append.mp hm with hm | hm
    · exact h.clean d m hm
    · split_ifs at hm
      · rw [List.mem_singleton.mp hm]
        exact ⟨htopic, hcontent⟩
      · cases hm
  · intro topic' content' hretained
    rw [hlog, retained] at hretained
    split_ifs at hretained
    · cases hretained
      exact hcontent
    · cases hretained
    · exact h.retainedClean topic' content' hretained

/-- What an entry about a client that comes or goes leaves as it was. -/
structure Turns (c : C) (e : Entry C) (log : List (Entry C)) : Prop where
  subscribed : ∀ d topic, PubSub.subscribed d topic (e :: log) = PubSub.subscribed d topic log
  retained : ∀ topic, PubSub.retained topic (e :: log) = PubSub.retained topic log
  heard : ∀ d, PubSub.heard d (e :: log) = PubSub.heard d log
  live : ∀ d, d ≠ c → PubSub.live d (e :: log) = PubSub.live d log

/-- The state of a connection changes. -/
theorem Told.turns (h : Told s) {state : StateE} {e : Entry C} (ht : Turns c e s.log)
    (hlive : state = .kConnected ↔ PubSub.live c (e :: s.log))
    (hfresh : state = .kConnecting → (s.conn c).state = .kConnecting) :
    Told ((s.setConn c { s.conn c with state }).record e) := by
  have hconn : ∀ d, ((s.setConn c { s.conn c with state }).record e).conn d =
      { s.conn d with state := if d = c then state else (s.conn d).state } := by
    intro d
    refine (conn_setConn ..).trans ?_
    by_cases hd : d = c
    · rw [if_pos hd, if_pos hd, hd]
    · rw [if_neg hd, if_neg hd]
  constructor
  · intro d topic
    rw [hconn]
    exact (h.context d topic).trans (by rw [← ht.subscribed]; rfl)
  · intro d
    rw [hconn]
    exact h.contextNodup d
  · exact h.topic
  · intro d topic
    exact (h.audiences d topic).trans (by rw [← ht.subscribed]; rfl)
  · exact h.audiencesNodup
  · intro topic
    exact (h.last topic).trans (ht.retained topic).symm
  · intro d
    rw [hconn]
    by_cases hd : d = c
    · rw [if_pos hd, hd]
      exact hlive
    · rw [if_neg hd]
      exact (h.live d).trans (by rw [← ht.live d hd]; rfl)
  · intro d
    rw [hconn]
    split_ifs with hd
    · intro hstate
      rw [hd]
      exact h.fresh c (hfresh hstate)
    · exact h.fresh d
  · intro d
    rw [hconn]
    exact (h.sent d).trans (congrArg (List.flatMap message) (ht.heard d).symm)
  · intro d m hm
    exact h.clean d m (ht.heard d ▸ hm)
  · intro topic content hretained
    exact h.retainedClean topic content (ht.retained topic ▸ hretained)

theorem Told.shutdown (h : Told s) (c : C) : Told (s.shutdown c) := by
  apply h.turns ⟨fun _ _ => rfl, fun _ => rfl, fun _ => rfl, fun d hd => ?_⟩
  · split_ifs with hstate
    · simp [PubSub.live]
    · simp [PubSub.live, hstate]
  · intro hstate
    split_ifs at hstate
    exact hstate
  · simp [PubSub.live, hd.symm]

theorem Told.onConnectionUp (h : Told s) (hstate : (s.conn c).state = .kConnecting) :
    Told (s.onConnectionUp c) := by
  have heq : s.onConnectionUp c =
      (s.setConn c { s.conn c with state := .kConnected }).record (.up c) := by
    unfold PubSubServer.onConnectionUp
    simp only [h.fresh c hstate]
  rw [heq]
  apply h.turns ⟨fun _ _ => rfl, fun _ => rfl, fun _ => rfl, fun d hd => ?_⟩
  · simp [PubSub.live]
  · intro hconnecting
    cases hconnecting
  · simp [PubSub.live, hd.symm]

/-- A client that leaves while it is subscribed makes the hub read a key that is gone. -/
theorem onConnectionDown_eq (s : PubSubServer C) (c : C) : s.onConnectionDown c =
    if (s.conn c).context = [] then
      .ok ((s.setConn c { s.conn c with state := .kDisconnected }).record (.down c))
    else .error .erasedKey := by
  have hcontext : ((s.setConn c { s.conn c with state := .kDisconnected }).conn c).context =
      (s.conn c).context := by
    rw [conn_setConn, if_pos rfl]
  unfold onConnectionDown
  dsimp only
  rw [hcontext]
  cases (s.conn c).context with
  | nil => rfl
  | cons topic topics => rfl

theorem Told.onConnectionDown (h : Told s) (hs : s.onConnectionDown c = .ok s') : Told s' := by
  rw [onConnectionDown_eq] at hs
  split_ifs at hs
  rw [← Except.ok.inj hs]
  apply h.turns ⟨fun _ _ => rfl, fun _ => rfl, fun _ => rfl, fun d hd => ?_⟩
  · simp [PubSub.live]
  · intro hconnecting
    cases hconnecting
  · simp [PubSub.live, hd.symm]

/-! ### Requests -/

theorem Told.setInput (h : Told s) (c : C) (buf : Buffer) (got : List UInt8) :
    Told (s.setConn c { s.conn c with inputBuffer := buf, got := got }) := by
  have hsame : ∀ d, ((s.setConn c { s.conn c with inputBuffer := buf, got := got }).conn d).context =
      (s.conn d).context ∧
      ((s.setConn c { s.conn c with inputBuffer := buf, got := got }).conn d).state =
        (s.conn d).state ∧
      ((s.setConn c { s.conn c with inputBuffer := buf, got := got }).conn d).sent =
        (s.conn d).sent :=
    setConn_all (P := fun d conn => conn.context = (s.conn d).context ∧
      conn.state = (s.conn d).state ∧ conn.sent = (s.conn d).sent) ⟨rfl, rfl, rfl⟩
      fun d _ => ⟨rfl, rfl, rfl⟩
  constructor
  · intro d topic
    rw [(hsame d).1]
    exact h.context d topic
  · intro d
    rw [(hsame d).1]
    exact h.contextNodup d
  · exact h.topic
  · exact h.audiences
  · exact h.audiencesNodup
  · exact h.last
  · intro d
    rw [(hsame d).2.1]
    exact h.live d
  · intro d
    rw [(hsame d).1, (hsame d).2.1]
    exact h.fresh d
  · intro d
    rw [(hsame d).2.2]
    exact h.sent d
  · exact h.clean
  · exact h.retainedClean

/-- The command of a message, when it is known. -/
def request (p : Parsed) : Option Request :=
  if p.cmd = text "pub" then some (.pub p.topic p.content)
  else if p.cmd = text "sub" then some (.sub p.topic)
  else if p.cmd = text "unsub" then some (.unsub p.topic)
  else none

theorem Told.acts_doSubscribe (h : Told s) (hstate : (s.conn c).state ≠ .kConnecting)
    (htopic : Clean topic) : Acts (some c) [.sub topic] s (s.doSubscribe c topic) := by
  have hsame : ∀ d, ((s.doSubscribe c topic).conn d).got = (s.conn d).got ∧
      ((s.doSubscribe c topic).conn d).inputBuffer = (s.conn d).inputBuffer ∧
      ((s.doSubscribe c topic).conn d).state = (s.conn d).state := by
    intro d
    rw [conn_doSubscribe]
    split_ifs with hd
    · rw [hd, given_got, given_inputBuffer, given_state]
      exact ⟨rfl, rfl, rfl⟩
    · exact ⟨rfl, rfl, rfl⟩
  refine ⟨h.doSubscribe hstate htopic, fun d => (hsame d).1, fun d => (hsame d).2.1,
    fun d hd => ?_, fun d => ?_⟩
  · rw [(hsame d).2.2]
    exact hd
  · rw [log_doSubscribe, said]
    simp

theorem Told.acts_doUnsubscribe (h : Told s) (c : C) (topic : List UInt8) :
    ∃ s', s.doUnsubscribe c topic false = .ok s' ∧ Acts (some c) [.unsub topic] s s' := by
  refine ⟨_, doUnsubscribe_eq s c topic, h.doUnsubscribe (doUnsubscribe_eq s c topic), ?_, ?_, ?_,
    fun d => ?_⟩
  · exact setConn_all (P := fun d conn => conn.got = (s.conn d).got) rfl fun _ _ => rfl
  · exact setConn_all (P := fun d conn => conn.inputBuffer = (s.conn d).inputBuffer) rfl
      fun _ _ => rfl
  · exact setConn_all (P := fun d conn => (s.conn d).state ≠ .kConnecting →
      conn.state ≠ .kConnecting) id fun _ _ => id
  · have hlog : ∀ u : PubSubServer C, (u.record (.unsubscribe c topic)).log =
        .unsubscribe c topic :: u.log := fun _ => rfl
    rw [hlog, said]
    simp [setTopic, setConn]

theorem Told.acts_doPublish (h : Told s) (source : Option C) (htopic : Clean topic)
    (hcontent : Clean content) (time : ℤ) :
    Acts source [.pub topic content] s (s.doPublish source topic content time) := by
  obtain ⟨hconn, -, hlog⟩ := doPublish_spec h source topic content time
  refine ⟨h.doPublish source htopic hcontent time, fun d => ?_, fun d => ?_, fun d hd => ?_,
    fun d => ?_⟩
  · rw [hconn, given_got]
  · rw [hconn, given_inputBuffer]
  · rw [hconn, given_state]
    exact hd
  · rw [hlog, said]

theorem Told.acts_shutdown (h : Told s) (c : C) : Acts (some c) [] s (s.shutdown c) := by
  refine ⟨h.shutdown c, ?_, ?_, ?_, fun d => ?_⟩
  · exact setConn_all (P := fun d conn => conn.got = (s.conn d).got) rfl fun _ _ => rfl
  · exact setConn_all (P := fun d conn => conn.inputBuffer = (s.conn d).inputBuffer) rfl
      fun _ _ => rfl
  · apply setConn_all (P := fun d conn => (s.conn d).state ≠ .kConnecting →
      conn.state ≠ .kConnecting) _ fun _ _ => id
    intro hstate hconnecting
    split_ifs at hconnecting
    exact hstate hconnecting
  · rw [ite_self, List.append_nil]
    rfl

/-- A command does what the client has said, and leaves all input alone. -/
theorem Told.onCommand (h : Told s) {p : Parsed} (hstate : (s.conn c).state ≠ .kConnecting)
    (htopic : Clean p.topic) (hcontent : Clean p.content) (time : ℤ) :
    ∃ s', s.onCommand c p time = .ok (s', (request p).isSome) ∧
      Acts (some c) (request p).toList s s' := by
  unfold PubSubServer.onCommand request
  split_ifs
  · exact ⟨_, rfl, h.acts_doPublish (some c) htopic hcontent time⟩
  · exact ⟨_, rfl, h.acts_doSubscribe hstate htopic⟩
  · obtain ⟨s', hs', hacts⟩ := h.acts_doUnsubscribe c p.topic
    refine ⟨s', ?_, hacts⟩
    rw [hs']
    rfl
  · exact ⟨_, rfl, h.acts_shutdown c⟩

theorem request_parsed (r : Request) : request r.parsed = some r := by
  cases r with
  | pub => rfl
  | sub => rfl
  | unsub => rfl

/-- The input of a client is the requests `rs` and a beginning of `rest`. -/
structure Holds (bytes : List UInt8) (rs rest : List Request) (tail : List UInt8) : Prop where
  valid : ∀ r ∈ rs ++ rest, r.Valid
  bytes_eq : bytes = (rs.map Request.bytes).flatten ++ tail
  front : Front tail (rest.map Request.bytes)

/-- The message that is parsed is the first request. -/
theorem Holds.parseMessage {buf buf' : Buffer} {rs rest : List Request} {tail : List UInt8}
    {result : ParseResult} {p : Parsed} (h : Holds buf.readable rs rest tail)
    (hparse : parseMessage buf = .ok (result, p, buf')) :
    (rs = [] ∧ result = .kContinue) ∨ ∃ r rs', rs = r :: rs' ∧ result = .kSuccess ∧
      request p = some r ∧ Holds buf'.readable rs' rest tail := by
  cases rs with
  | nil =>
    have hfront : Front buf.readable (rest.map Request.bytes) := by
      rw [h.bytes_eq]
      exact h.front
    obtain ⟨parsed, hcontinue⟩ := Request.parseMessage_front h.valid hfront
    rw [hcontinue] at hparse
    cases hparse
    exact Or.inl ⟨rfl, rfl⟩
  | cons r rs =>
    have hbytes := h.bytes_eq
    rw [List.map_cons, List.flatten_cons, List.append_assoc] at hbytes
    obtain ⟨buf₁, hsuccess, hread⟩ := Request.parseMessage_bytes (h.valid r (by simp)) hbytes
    rw [hsuccess] at hparse
    cases hparse
    exact Or.inr ⟨r, rs, rfl, rfl, request_parsed r,
      ⟨fun r hr => h.valid r (List.mem_cons_of_mem _ hr), hread, h.front⟩⟩

/-- What reading does, for the client that has sent the bytes and all others. -/
structure Reads (c : C) (s s' : PubSubServer C) : Prop where
  told : Told s'
  got : ∀ d, (s'.conn d).got = (s.conn d).got
  state : ∀ d, (s.conn d).state ≠ .kConnecting → (s'.conn d).state ≠ .kConnecting
  inputBuffer : ∀ d, d ≠ c → (s'.conn d).inputBuffer = (s.conn d).inputBuffer
  said : ∀ d, d ≠ c → PubSub.said d s'.log = PubSub.said d s.log
  /-- the requests that are there are said, and nothing else is -/
  requests : ∀ rs rest tail, Holds (s.conn c).inputBuffer.readable rs rest tail →
    PubSub.said c s'.log = PubSub.said c s.log ++ rs ∧ (s'.conn c).inputBuffer.readable = tail

theorem Told.readMessages (h : Told s) (hstate : (s.conn c).state ≠ .kConnecting) (time : ℤ)
    {n : ℕ} (hn : (s.conn c).inputBuffer.readable.length < n) :
    ∃ s', readMessages c time n s = .ok s' ∧ Reads c s s' := by
  induction n generalizing s with
  | zero => omega
  | succ n ih =>
    obtain ⟨result, p, buf, hparse, hparses⟩ := parseMessage_spec (s.conn c).inputBuffer
    have hinput : Told (s.setConn c { s.conn c with inputBuffer := buf }) :=
      h.setInput c buf (s.conn c).got
    generalize hu : s.setConn c { s.conn c with inputBuffer := buf } = u at hinput
    have hlog : u.log = s.log := by rw [← hu]; rfl
    have hbuf : (u.conn c).inputBuffer = buf := by rw [← hu, conn_setConn, if_pos rfl]
    have hother : ∀ d, d ≠ c → (u.conn d).inputBuffer = (s.conn d).inputBuffer := by
      intro d hd
      rw [← hu, conn_setConn, if_neg hd]
    have hsame : ∀ d, (u.conn d).got = (s.conn d).got ∧ (u.conn d).state = (s.conn d).state := by
      rw [← hu]
      exact setConn_all (P := fun d conn => conn.got = (s.conn d).got ∧
        conn.state = (s.conn d).state) ⟨rfl, rfl⟩ fun _ _ => ⟨rfl, rfl⟩
    have hopen : (u.conn c).state ≠ .kConnecting := by
      rw [(hsame c).2]
      exact hstate
    -- what an act on behalf of the client leaves, when the first message has been taken off
    have hacts : ∀ {rs u'}, Acts (some c) rs u u' → (∀ d, (u'.conn d).got = (s.conn d).got) ∧
        (∀ d, (s.conn d).state ≠ .kConnecting → (u'.conn d).state ≠ .kConnecting) ∧
        (∀ d, d ≠ c → (u'.conn d).inputBuffer = (s.conn d).inputBuffer) ∧
        (∀ d, d ≠ c → PubSub.said d u'.log = PubSub.said d s.log) ∧
        (u'.conn c).inputBuffer = buf ∧ PubSub.said c u'.log = PubSub.said c s.log ++ rs := by
      intro rs u' ha
      refine ⟨fun d => (ha.got d).trans (hsame d).1, fun d hd => ha.state d ?_,
        fun d hd => (ha.inputBuffer d).trans (hother d hd), fun d hd => ?_,
        (ha.inputBuffer c).trans hbuf, ?_⟩
      · rw [(hsame d).2]
        exact hd
      · have hne : some c ≠ some d := fun heq => hd (Option.some.inj heq).symm
        rw [ha.said, if_neg hne, List.append_nil, hlog]
      · rw [ha.said, if_pos rfl, hlog]
    cases result with
    | kContinue =>
      have hstep : PubSubServer.readMessages c time (n + 1) s = .ok u := by
        rw [PubSubServer.readMessages, hparse, ← hu]
        rfl
      refine ⟨u, hstep, hinput, fun d => (hsame d).1, fun d hd => ?_, hother, fun d _ => by rw [hlog],
        fun rs rest tail hholds => ?_⟩
      · rw [(hsame d).2]
        exact hd
      · obtain ⟨hnil, -⟩ | ⟨r, rs', -, hresult, -⟩ := hholds.parseMessage hparse
        · have hbytes := hholds.bytes_eq
          rw [hnil] at hbytes ⊢
          rw [hlog, List.append_nil, hbuf, hparses.same (by decide), hbytes]
          exact ⟨rfl, rfl⟩
        · cases hresult
    | kError =>
      obtain ⟨hgot, hst, hin, hsaid, -, -⟩ := hacts (hinput.acts_shutdown c)
      have hstep : PubSubServer.readMessages c time (n + 1) s = .ok (u.shutdown c) := by
        rw [PubSubServer.readMessages, hparse, ← hu]
        rfl
      refine ⟨_, hstep, hinput.shutdown c, hgot, hst, hin, hsaid, fun rs rest tail hholds => ?_⟩
      obtain ⟨-, hresult⟩ | ⟨r, rs', -, hresult, -⟩ := hholds.parseMessage hparse
      · cases hresult
      · cases hresult
    | kSuccess =>
      obtain ⟨u', hu', ha⟩ := hinput.onCommand hopen (hparses.topic rfl) (hparses.content rfl) time
      obtain ⟨hgot, hst, hin, hsaid, hbuf', hsaidc⟩ := hacts ha
      have hstep : PubSubServer.readMessages c time (n + 1) s =
          if (request p).isSome then PubSubServer.readMessages c time n u' else .ok u' := by
        rw [PubSubServer.readMessages, hparse]
        simp only [Except.mapError, ok_bind]
        rw [hu, hu']
        rfl
      rw [hstep]
      cases hr : request p with
      | none =>
        refine ⟨u', rfl, ha.told, hgot, hst, hin, hsaid, fun rs rest tail hholds => ?_⟩
        obtain ⟨-, hresult⟩ | ⟨r, rs', -, -, hsome, -⟩ := hholds.parseMessage hparse
        · cases hresult
        · rw [hr] at hsome
          cases hsome
      | some r =>
        rw [hr] at hsaidc
        have hlt : (u'.conn c).inputBuffer.readable.length < n := by
          have hshorter := hparses.shorter rfl
          rw [hbuf']
          omega
        obtain ⟨t, ht, hreads⟩ := ih ha.told (hst c hstate) hlt
        refine ⟨t, ht, hreads.told, fun d => (hreads.got d).trans (hgot d),
          fun d hd => hreads.state d (hst d hd),
          fun d hd => (hreads.inputBuffer d hd).trans (hin d hd),
          fun d hd => (hreads.said d hd).trans (hsaid d hd), fun rs rest tail hholds => ?_⟩
        obtain ⟨-, hresult⟩ | ⟨r', rs', hrs, -, hsome, hrest⟩ := hholds.parseMessage hparse
        · cases hresult
        · rw [hr] at hsome
          have hsome := Option.some.inj hsome
          subst hsome
          rw [← hbuf'] at hrest
          obtain ⟨hsaid', htail⟩ := hreads.requests rs' rest tail hrest
          rw [hsaid', hsaidc, hrs, List.append_assoc]
          exact ⟨rfl, htail⟩

/-- The requests of a client that have arrived as a whole have been carried out, one after the
other, and the beginning of the next one waits. -/
def Heeds (s : PubSubServer C) (c : C) : Prop :=
  ∀ requests : List Request, (∀ r ∈ requests, r.Valid) →
    (s.conn c).got <+: (requests.map Request.bytes).flatten →
    ∃ rest, requests = said c s.log ++ rest ∧
      (s.conn c).got = ((said c s.log).map Request.bytes).flatten ++
        (s.conn c).inputBuffer.readable ∧
      Front (s.conn c).inputBuffer.readable (rest.map Request.bytes)

structure Inv (s : PubSubServer C) : Prop where
  told : Told s
  heeds : ∀ c, s.Heeds c

theorem Inv.onMessage (h : Inv s) (hopen : isOpen (s.conn c)) (bytes : List UInt8) (time : ℤ) :
    ∃ s', s.onMessage c bytes time = .ok s' ∧ Inv s' := by
  obtain ⟨buf, hbuf, hread⟩ := (s.conn c).inputBuffer.readFd_spec bytes
  have hinput := h.told.setInput c buf ((s.conn c).got ++ bytes)
  generalize hu : s.setConn c { s.conn c with
    inputBuffer := buf, got := (s.conn c).got ++ bytes } = u at hinput
  have hconn : u.conn c = { s.conn c with
      inputBuffer := buf, got := (s.conn c).got ++ bytes } := by
    rw [← hu, conn_setConn, if_pos rfl]
  have hother : ∀ d, d ≠ c → u.conn d = s.conn d := by
    intro d hd
    rw [← hu, conn_setConn, if_neg hd]
  have hlog : u.log = s.log := by rw [← hu]; rfl
  have hstate : (u.conn c).state ≠ .kConnecting := by
    rw [hconn]
    intro hconnecting
    have hconnecting : (s.conn c).state = .kConnecting := hconnecting
    rcases hopen with hopen | hopen
    · rw [hopen] at hconnecting
      cases hconnecting
    · rw [hopen] at hconnecting
      cases hconnecting
  have hlen : (u.conn c).inputBuffer.readable.length < buf.readableBytes + 1 := by
    rw [hconn, ← Buffer.length_readable]
    exact Nat.lt_succ_self _
  obtain ⟨s', hs', hreads⟩ := hinput.readMessages hstate time hlen
  refine ⟨s', ?_, hreads.told, fun d => ?_⟩
  · rw [PubSubServer.onMessage, hbuf]
    simp only [Except.mapError, ok_bind]
    rw [hu]
    exact hs'
  · by_cases hd : d = c
    · subst hd
      intro requests hvalid hfront
      have hgot : (s'.conn d).got = (s.conn d).got ++ bytes := by
        rw [hreads.got, hconn]
      rw [hgot] at hfront ⊢
      obtain ⟨rest, hrequests, hall, -⟩ :=
        h.heeds d requests hvalid ((List.prefix_append _ _).trans hfront)
      -- the new bytes, with what waited, are a front of what is not said yet
      rw [hrequests, List.map_append, List.flatten_append, hall, List.append_assoc,
        List.prefix_append_right_inj] at hfront
      have hne : ∀ frame ∈ rest.map Request.bytes, frame ≠ [] := by
        intro frame hframe
        obtain ⟨r, -, hr⟩ := List.mem_map.mp hframe
        exact hr ▸ r.bytes_ne_nil
      obtain ⟨done, more, tail, hsplit, hdone, htail⟩ := exists_cut hne hfront
      obtain ⟨rs, rest', hrest, hrs, hmore⟩ := List.map_eq_append_iff.mp hsplit
      have hholds : Holds (u.conn d).inputBuffer.readable rs rest' tail := by
        refine ⟨fun r hr => hvalid r ?_, ?_, ?_⟩
        · rw [hrequests, hrest]
          exact List.mem_append_right _ hr
        · rw [hconn, hrs, ← hdone]
          exact hread
        · rw [hmore]
          exact htail
      obtain ⟨hsaid, htail'⟩ := hreads.requests rs rest' tail hholds
      rw [hlog] at hsaid
      refine ⟨rest', ?_, ?_, ?_⟩
      · rw [hsaid, List.append_assoc, ← hrest, ← hrequests]
      · rw [hsaid, htail', List.map_append, List.flatten_append, hrs, List.append_assoc, ← hdone,
          ← List.append_assoc, ← hall]
      · rw [htail', hmore]
        exact htail
    · have hgot : (s'.conn d).got = (s.conn d).got := by
        rw [hreads.got, hother d hd]
      have hinputBuffer : (s'.conn d).inputBuffer = (s.conn d).inputBuffer := by
        rw [hreads.inputBuffer d hd, hother d hd]
      have hsaid : said d s'.log = said d s.log := by
        rw [hreads.said d hd, hlog]
      unfold Heeds
      rw [hgot, hinputBuffer, hsaid]
      exact h.heeds d

/-- A call that does not read. -/
theorem Inv.of_acts (h : Inv s) {rs : List Request} (ha : Acts none rs s s') : Inv s' := by
  refine ⟨ha.told, fun d => ?_⟩
  have hsaid : said d s'.log = said d s.log := by
    rw [ha.said, if_neg (by simp), List.append_nil]
  unfold Heeds
  rw [ha.got, ha.inputBuffer, hsaid]
  exact h.heeds d

/-- A connection changes, but not its input. -/
theorem Inv.turns (h : Inv s) {conn : Connection} {e : Entry C}
    (ht : Told ((s.setConn c conn).record e)) (hgot : conn.got = (s.conn c).got)
    (hbuf : conn.inputBuffer = (s.conn c).inputBuffer)
    (hsaid : ∀ d, said d (e :: s.log) = said d s.log) : Inv ((s.setConn c conn).record e) := by
  refine ⟨ht, fun d => ?_⟩
  have hsame : ((s.setConn c conn).conn d).got = (s.conn d).got ∧
      ((s.setConn c conn).conn d).inputBuffer = (s.conn d).inputBuffer :=
    setConn_all (P := fun d conn => conn.got = (s.conn d).got ∧
      conn.inputBuffer = (s.conn d).inputBuffer) ⟨hgot, hbuf⟩ (fun _ _ => ⟨rfl, rfl⟩) d
  have hsame' : (((s.setConn c conn).record e).conn d).got = (s.conn d).got ∧
      (((s.setConn c conn).record e).conn d).inputBuffer = (s.conn d).inputBuffer := hsame
  have hlog : said d ((s.setConn c conn).record e).log = said d s.log := hsaid d
  unfold Heeds
  rw [hsame'.1, hsame'.2, hlog]
  exact h.heeds d

theorem clean_toFormattedString (now : ℤ) : Clean (Timestamp.toFormattedString now) := by
  apply ListSearch.search_pair_of_notMem
  intro hmem
  exact absurd (Timestamp.plain_toFormattedString now 13 hmem) (by decide)

/-- Every step is taken, unless a client leaves that is subscribed to a topic. -/
theorem Inv.step (h : Inv s) {e : Event C} (he : enabled s e) :
    (∃ s', step s e = .ok s' ∧ Inv s' ∧ ∀ c topic, e = .down c → ¬subscribed c topic s.log) ∨
    (∃ c topic, e = .down c ∧ subscribed c topic s.log) ∧ step s e = .error .erasedKey := by
  cases e with
  | up c =>
    exact Or.inl ⟨_, rfl, h.turns (h.told.onConnectionUp he) rfl rfl fun _ => rfl,
      fun _ _ heq => by cases heq⟩
  | down c =>
    have hstep : PubSubServer.step s (.down c) = s.onConnectionDown c := rfl
    rw [hstep, onConnectionDown_eq]
    by_cases hcontext : (s.conn c).context = []
    · have hs := onConnectionDown_eq s c
      rw [if_pos hcontext] at hs
      rw [if_pos hcontext]
      refine Or.inl ⟨_, rfl, h.turns (h.told.onConnectionDown hs) rfl rfl fun _ => rfl,
        fun c' topic heq hsub => ?_⟩
      cases heq
      have hmem := (h.told.context c topic).mpr hsub
      rw [hcontext] at hmem
      cases hmem
    · rw [if_neg hcontext]
      obtain ⟨topic, topics, hcons⟩ := List.exists_cons_of_ne_nil hcontext
      refine Or.inr ⟨⟨c, topic, rfl, (h.told.context c topic).mp ?_⟩, rfl⟩
      rw [hcons]
      exact List.mem_cons_self
  | message c bytes receiveTime =>
    obtain ⟨s', hs', hinv⟩ := h.onMessage he bytes receiveTime
    exact Or.inl ⟨s', hs', hinv, fun _ _ heq => by cases heq⟩
  | timer now =>
    have hacts := h.told.acts_doPublish none (by decide : Clean (text "utc_time"))
      (clean_toFormattedString now) now
    exact Or.inl ⟨_, rfl, h.of_acts hacts, fun _ _ heq => by cases heq⟩

theorem inv_init : Inv (init : PubSubServer C) where
  told := by
    constructor
    · intro c topic
      simp [init, subscribed]
    · exact fun _ => List.nodup_nil
    · exact fun _ => rfl
    · intro c topic
      simp [init, subscribed, getTopic, Topic.new]
    · exact fun _ => List.nodup_nil
    · exact fun _ => rfl
    · intro c
      simp [init, PubSub.live]
    · exact fun _ _ => rfl
    · exact fun _ => rfl
    · exact fun _ m hm => by cases hm
    · exact fun _ content hcontent => by cases hcontent
  heeds c requests _ _ := by
    refine ⟨requests, rfl, ?_, ?_⟩
    · exact (Buffer.readable_new).symm
    · show Front Buffer.new.readable _
      rw [Buffer.readable_new]
      apply front_nil
      intro frame hframe
      obtain ⟨r, -, hr⟩ := List.mem_map.mp hframe
      exact hr ▸ r.bytes_ne_nil

theorem invariant : Invariant (system (C := C)) Inv where
  init s hs := by
    have hs : s = init := hs
    exact hs ▸ inv_init
  step s e t h he hs := by
    obtain ⟨t', ht', hinv, -⟩ | ⟨-, herror⟩ := h.step he
    · exact Except.ok.inj (ht'.symm.trans hs) ▸ hinv
    · cases herror.symm.trans hs

/-- The hub fails in one case only, and then for sure: a client closes its connection and has not
taken back all its subscriptions. -/
theorem step_error_iff (hr : Reachable system s) {e : Event C} (he : enabled s e) (a : Fault) :
    step s e = .error a ↔ a = .erasedKey ∧ ∃ c topic, e = .down c ∧ subscribed c topic s.log := by
  obtain ⟨t, ht, -, hnot⟩ | ⟨hsub, herror⟩ := (invariant.reachable system hr).step he
  · rw [ht]
    constructor
    · intro h
      cases h
    · intro ⟨_, c, topic, heq, hsub⟩
      exact absurd hsub (hnot c topic heq)
  · rw [herror]
    constructor
    · intro h
      exact ⟨(Except.error.inj h).symm, hsub⟩
    · intro h
      rw [h.1]

end PubSubServer

/-! ### The client -/

/-- The reading side of a client with a `subscribeCallback_`, and the calls of it. -/
structure PubSubClient where
  inputBuffer : Buffer
  received : List (List UInt8 × List UInt8)
  shutdowns : ℕ

namespace PubSubClient

/-- The loop of `onMessage`. -/
def readMessages : ℕ → PubSubClient → Except Fault PubSubClient
  | 0, _ => .error .hangs
  | n + 1, s => do
    let (result, p, buf) ← (parseMessage s.inputBuffer).mapError .buffer
    let s := { s with inputBuffer := buf }
    match result with
    | .kSuccess =>
      if p.cmd = text "pub" then
        readMessages n { s with received := s.received ++ [(p.topic, p.content)] }
      else readMessages n s
    | .kError => return { s with shutdowns := s.shutdowns + 1 }
    | .kContinue => return s

def onMessage (s : PubSubClient) (bytes : List UInt8) : Except Fault PubSubClient := do
  let buf ← (s.inputBuffer.readFd bytes).mapError .buffer
  { s with inputBuffer := buf }.readMessages (buf.readableBytes + 1)

/-- The bytes arrive in chunks. -/
def receiveAll (s : PubSubClient) (chunks : List (List UInt8)) : Except Fault PubSubClient :=
  chunks.foldlM onMessage s

def init : PubSubClient := ⟨Buffer.new, [], 0⟩

variable {s : PubSubClient}

/-- What a message makes the client call. -/
def publication : Request → Option (List UInt8 × List UInt8)
  | .pub topic content => some (topic, content)
  | .sub _ | .unsub _ => none

theorem publication_parsed (r : Request) : publication r =
    if r.parsed.cmd = text "pub" then some (r.parsed.topic, r.parsed.content) else none := by
  cases r with
  | pub => rfl
  | sub => rfl
  | unsub => rfl

theorem request_eq_some {p : Parsed} {r : Request} (h : PubSubServer.request p = some r) :
    publication r = if p.cmd = text "pub" then some (p.topic, p.content) else none := by
  unfold PubSubServer.request at h
  split_ifs at h ⊢ <;> cases h <;> rfl

/-- Whole messages are received, and the beginning of the next one waits. -/
theorem readMessages_spec {n : ℕ} {rs rest : List Request} {tail : List UInt8}
    (h : PubSubServer.Holds s.inputBuffer.readable rs rest tail)
    (hn : s.inputBuffer.readable.length < n) :
    ∃ s', readMessages n s = .ok s' ∧ s'.received = s.received ++ rs.filterMap publication ∧
      s'.inputBuffer.readable = tail ∧ s'.shutdowns = s.shutdowns := by
  induction n generalizing s rs with
  | zero => omega
  | succ n ih =>
    obtain ⟨result, p, buf, hparse, hparses⟩ := parseMessage_spec s.inputBuffer
    obtain ⟨hnil, hresult⟩ | ⟨r, rs', hrs, hresult, hr, hrest⟩ := h.parseMessage hparse
    · subst hresult
      have hstep : readMessages (n + 1) s = .ok { s with inputBuffer := buf } := by
        rw [readMessages, hparse]
        rfl
      have hbytes := h.bytes_eq
      rw [hnil] at hbytes
      refine ⟨_, hstep, by rw [hnil, List.filterMap_nil, List.append_nil], ?_, rfl⟩
      rw [hparses.same (by decide)]
      exact hbytes
    · subst hresult
      have hstep : readMessages (n + 1) s = readMessages n { s with
          inputBuffer := buf
          received := s.received ++ (publication r).toList } := by
        rw [readMessages, hparse, request_eq_some hr]
        simp only [Except.mapError, ok_bind]
        split_ifs
        · rfl
        · rw [Option.toList_none, List.append_nil]
      have hlt : buf.readable.length < n := by
        have hshorter := hparses.shorter rfl
        omega
      obtain ⟨t, ht, hreceived, htail, hshutdowns⟩ := ih (s := { s with
        inputBuffer := buf, received := s.received ++ (publication r).toList }) hrest hlt
      refine ⟨t, hstep.trans ht, ?_, htail, hshutdowns⟩
      rw [hreceived, hrs, List.append_assoc]
      cases hp : publication r with
      | none => rw [List.filterMap_cons_none hp]; rfl
      | some m => rw [List.filterMap_cons_some hp]; rfl

/-- The client after it has got the bytes `got` of a stream of messages. -/
structure Gets (rs : List Request) (got : List UInt8) (s : PubSubClient) : Prop where
  cut : ∃ done rest, rs = done ++ rest ∧ s.received = done.filterMap publication ∧
    got = (done.map Request.bytes).flatten ++ s.inputBuffer.readable ∧
    Front s.inputBuffer.readable (rest.map Request.bytes)
  shutdowns : s.shutdowns = 0

theorem Gets.onMessage {rs : List Request} {got bytes : List UInt8} (h : Gets rs got s)
    (hvalid : ∀ r ∈ rs, r.Valid) (hfront : got ++ bytes <+: (rs.map Request.bytes).flatten) :
    ∃ s', s.onMessage bytes = .ok s' ∧ Gets rs (got ++ bytes) s' := by
  obtain ⟨done, rest, hrs, hreceived, hgot, -⟩ := h.cut
  obtain ⟨buf, hbuf, hread⟩ := s.inputBuffer.readFd_spec bytes
  rw [hrs, List.map_append, List.flatten_append, hgot, List.append_assoc,
    List.prefix_append_right_inj, ← hread] at hfront
  have hne : ∀ frame ∈ rest.map Request.bytes, frame ≠ [] := by
    intro frame hframe
    obtain ⟨r, -, hr⟩ := List.mem_map.mp hframe
    exact hr ▸ r.bytes_ne_nil
  obtain ⟨whole, more, tail, hsplit, hwhole, htail⟩ := exists_cut hne hfront
  obtain ⟨rs', rest', hrest, hrs', hmore⟩ := List.map_eq_append_iff.mp hsplit
  have hholds : PubSubServer.Holds buf.readable rs' rest' tail := by
    refine ⟨fun r hr => hvalid r ?_, by rw [hrs']; exact hwhole, hmore ▸ htail⟩
    rw [hrs, hrest]
    exact List.mem_append_right _ hr
  have hlen : ({ s with inputBuffer := buf } : PubSubClient).inputBuffer.readable.length <
      buf.readableBytes + 1 := by
    rw [← Buffer.length_readable]
    exact Nat.lt_succ_self _
  obtain ⟨s', hs', hreceived', htail', hshutdowns⟩ :=
    readMessages_spec (s := { s with inputBuffer := buf }) hholds hlen
  refine ⟨s', ?_, ⟨done ++ rs', rest', ?_, ?_, ?_, ?_⟩, hshutdowns.trans h.shutdowns⟩
  · rw [PubSubClient.onMessage, hbuf]
    exact hs'
  · rw [List.append_assoc, ← hrest, hrs]
  · rw [hreceived', hreceived, List.filterMap_append]
  · rw [htail', List.map_append, List.flatten_append, hgot, List.append_assoc, List.append_assoc,
      hrs', ← hwhole, hread]
  · rw [htail', hmore]
    exact htail

theorem gets_init (rs : List Request) : Gets rs [] init := by
  refine ⟨⟨[], rs, rfl, rfl, ?_, ?_⟩, rfl⟩
  · exact (Buffer.readable_new).symm
  · show Front Buffer.new.readable _
    rw [Buffer.readable_new]
    apply front_nil
    intro frame hframe
    obtain ⟨r, -, hr⟩ := List.mem_map.mp hframe
    exact hr ▸ r.bytes_ne_nil

theorem Gets.receiveAll {rs : List Request} {got : List UInt8} {chunks : List (List UInt8)}
    (h : Gets rs got s) (hvalid : ∀ r ∈ rs, r.Valid)
    (hfront : got ++ chunks.flatten <+: (rs.map Request.bytes).flatten) :
    ∃ s', s.receiveAll chunks = .ok s' ∧ Gets rs (got ++ chunks.flatten) s' := by
  induction chunks generalizing s got with
  | nil => exact ⟨s, rfl, by simpa using h⟩
  | cons chunk chunks ih =>
    rw [List.flatten_cons, ← List.append_assoc] at hfront ⊢
    obtain ⟨t, ht, hgets⟩ := h.onMessage hvalid ((List.prefix_append _ _).trans hfront)
    obtain ⟨u, hu, hall⟩ := ih hgets hfront
    refine ⟨u, ?_, hall⟩
    rw [PubSubClient.receiveAll, List.foldlM_cons, ht]
    exact hu

end PubSubClient

namespace PubSubServer
variable {C : Type} [DecidableEq C] {s : PubSubServer C}

/-- A client is called back for what it is to hear, in order, however its stream is cut, and what a
client has asked for is done in order, however the bytes of all clients come in. -/
theorem hub_delivers (hr : Reachable system s) (c : C) :
    (∀ chunks : List (List UInt8), chunks.flatten = (s.conn c).sent →
      ∃ t, PubSubClient.init.receiveAll chunks = .ok t ∧
        t.received = heard c s.log ∧ t.inputBuffer.readable = [] ∧ t.shutdowns = 0) ∧
    (∀ requests : List Request, (∀ r ∈ requests, r.Valid) →
      (s.conn c).got <+: (requests.map Request.bytes).flatten →
      said c s.log <+: requests ∧
        ((s.conn c).got = (requests.map Request.bytes).flatten → said c s.log = requests)) := by
  have h := invariant.reachable system hr
  constructor
  · intro chunks hchunks
    have hbytes : ∀ ms : List (List UInt8 × List UInt8), ((ms.map fun m => Request.pub m.1 m.2).map
        Request.bytes).flatten = ms.flatMap message := by
      intro ms
      rw [List.map_map, List.flatMap_def]
      rfl
    have hpublication : ∀ ms : List (List UInt8 × List UInt8),
        (ms.map fun m => Request.pub m.1 m.2).filterMap PubSubClient.publication = ms := by
      intro ms
      rw [List.filterMap_map]
      exact List.filterMap_some
    have hvalid : ∀ r ∈ (heard c s.log).map fun m => Request.pub m.1 m.2, r.Valid := by
      intro r hr
      obtain ⟨m, hm, heq⟩ := List.mem_map.mp hr
      rw [← heq]
      exact h.told.clean c m hm
    have hall : chunks.flatten =
        (((heard c s.log).map fun m => Request.pub m.1 m.2).map Request.bytes).flatten := by
      rw [hchunks, h.told.sent, hbytes]
    have hfront : [] ++ chunks.flatten <+:
        (((heard c s.log).map fun m => Request.pub m.1 m.2).map Request.bytes).flatten := by
      rw [List.nil_append, hall]
    obtain ⟨t, ht, ⟨done, rest, hrs, hreceived, hgot, htail⟩, hshutdowns⟩ :=
      (PubSubClient.gets_init _).receiveAll hvalid hfront
    rw [List.nil_append, hall, hrs, List.map_append, List.flatten_append,
      List.append_right_inj] at hgot
    have hnil := htail.eq_nil hgot.symm
    rw [hnil, List.flatten_nil] at hgot
    rw [List.map_eq_nil_iff.mp hnil, List.append_nil] at hrs
    refine ⟨t, ht, ?_, hgot.symm, hshutdowns⟩
    rw [hreceived, ← hrs, hpublication]
  · intro requests hvalid hfront
    obtain ⟨rest, hrequests, hgot, htail⟩ := h.heeds c requests hvalid hfront
    refine ⟨⟨rest, hrequests.symm⟩, fun hall => ?_⟩
    rw [hgot] at hall
    have hmap := congrArg (fun rs => (rs.map Request.bytes).flatten) hrequests
    rw [List.map_append, List.flatten_append, ← hall, List.append_right_inj] at hmap
    have hnil := htail.eq_nil hmap
    rw [hrequests, List.map_eq_nil_iff.mp hnil, List.append_nil]

/-- One client subscribes to a topic, to which the other one publishes in two pieces. -/
theorem hub_delivers_hello : ∃ s : PubSubServer Bool, Reachable system s ∧
    (s.conn false).sent = text "pub a\r\nhello\r\n" ∧
    ∃ t, PubSubClient.init.receiveAll [text "pub a\r\nhel", text "lo\r\n"] = .ok t ∧
      t.received = heard false s.log ∧ t.inputBuffer.readable = [] ∧ t.shutdowns = 0 := by
  have hreplay : (replay system (init : PubSubServer Bool)
      [.up false, .message false (text "sub a\r\n") 1, .up true,
        .message true (text "pub a\r\nhe") 2, .message true (text "llo\r\n") 3]).any
      (fun s => (s.conn false).sent = text "pub a\r\nhello\r\n") = true := by decide +kernel
  obtain ⟨s, hr, hs⟩ := exists_run_of_replay system hreplay
  have hsent := of_decide_eq_true hs
  have hreach : Reachable system s := ⟨_, _, rfl, hr⟩
  exact ⟨s, hreach, hsent, (hub_delivers hreach false).1 _ hsent.symm⟩

/-- A subscriber closes its connection. -/
theorem step_error_iff_subscriber : ∃ s : PubSubServer Unit, Reachable system s ∧
    step s (.down ()) = .error .erasedKey := by
  have hreplay : (replay system (init : PubSubServer Unit)
      [.up (), .message () (text "sub a\r\n") 1]).any
      (fun s => isOpen (s.conn ()) ∧ subscribed () (text "a") s.log) = true := by decide +kernel
  obtain ⟨s, hr, hs⟩ := exists_run_of_replay system hreplay
  obtain ⟨hopen, hsub⟩ := of_decide_eq_true hs
  have hreach : Reachable system s := ⟨_, _, rfl, hr⟩
  exact ⟨s, hreach, (step_error_iff (e := .down ()) hreach hopen .erasedKey).mpr ⟨rfl, (), text "a", rfl, hsub⟩⟩

end PubSubServer
end Muduo.PubSub
