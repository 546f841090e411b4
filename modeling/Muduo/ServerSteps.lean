import Muduo.ConnectionWork
import Muduo.ServerDestructor

/-!
# What the steps of a server leave alone

Between two functors a loop thread adds to the queues, and renames no connection; a connection
that it takes out of `connections_` is about to be destroyed. None of its functions queues a
functor that is bound to the plain `this` of a connection.
-/
namespace Muduo
open StepSystem

/-- The functor is bound to a `TcpConnectionPtr` of `c`. -/
def PendingFunctor.Owns (c : ConnId) : PendingFunctor → Prop
  | .connectEstablished d | .connectDestroyed d | .writeCompleteCallback d
  | .highWaterMarkCallback d _ | .removeConnectionInLoop d => d = c
  | .sendInLoop .. | .shutdownInLoop _ => False

/-- The functor is bound to the `this` of `c`. -/
def PendingFunctor.Raw (c : ConnId) : PendingFunctor → Prop
  | .sendInLoop d _ | .shutdownInLoop d => d = c
  | .connectEstablished _ | .connectDestroyed _ | .writeCompleteCallback _
  | .highWaterMarkCallback .. | .removeConnectionInLoop _ => False

instance (c : ConnId) : DecidablePred (PendingFunctor.Owns c)
  | .connectEstablished _ | .connectDestroyed _ | .writeCompleteCallback _
  | .highWaterMarkCallback .. | .removeConnectionInLoop _ => inferInstanceAs (Decidable (_ = _))
  | .sendInLoop .. | .shutdownInLoop _ => inferInstanceAs (Decidable False)

instance (c : ConnId) : DecidablePred (PendingFunctor.Raw c)
  | .sendInLoop .. | .shutdownInLoop _ => inferInstanceAs (Decidable (_ = _))
  | .connectEstablished _ | .connectDestroyed _ | .writeCompleteCallback _
  | .highWaterMarkCallback .. | .removeConnectionInLoop _ => inferInstanceAs (Decidable False)

namespace EventLoop
variable {l l' l'' : EventLoop PendingFunctor}

/-- The batch is the same, and what has been queued is bound to no `this`. -/
structure Queues (l l' : EventLoop PendingFunctor) : Prop where
  batch : l'.batch = l.batch
  pending : ∃ new, l'.pendingFunctors = l.pendingFunctors ++ new ∧ ∀ f ∈ new, ∀ c, ¬f.Raw c

theorem Queues.of_same (hb : l'.batch = l.batch) (hp : l'.pendingFunctors = l.pendingFunctors) :
    Queues l l' := ⟨hb, [], by simp [hp], by simp⟩

theorem Queues.refl (l : EventLoop PendingFunctor) : Queues l l := .of_same rfl rfl

theorem Queues.trans (h : Queues l l') (g : Queues l' l'') : Queues l l'' where
  batch := g.batch.trans h.batch
  pending := by
    obtain ⟨new, hnew, hraw⟩ := h.pending
    obtain ⟨new', hnew', hraw'⟩ := g.pending
    refine ⟨new ++ new', by rw [hnew', hnew, List.append_assoc], ?_⟩
    intro f hf
    rcases List.mem_append.mp hf with hf | hf
    · exact hraw f hf
    · exact hraw' f hf

theorem Queues.mem (h : Queues l l') {f : PendingFunctor} (hf : f ∈ l.pendingFunctors) :
    f ∈ l'.pendingFunctors := by
  obtain ⟨new, hnew, -⟩ := h.pending
  rw [hnew]
  exact List.mem_append_left new hf

/-- A functor bound to a `this` has not been queued by the step. -/
theorem Queues.raw (h : Queues l l') {c : ConnId} {f : PendingFunctor}
    (hf : f ∈ l'.pendingFunctors) (hraw : f.Raw c) : f ∈ l.pendingFunctors := by
  obtain ⟨new, hnew, hnot⟩ := h.pending
  rw [hnew] at hf
  rcases List.mem_append.mp hf with hf | hf
  · exact hf
  · exact absurd hraw (hnot f hf c)

theorem queueInLoop_batch (b : Bool) (cb : PendingFunctor) :
    (l.queueInLoop b cb).batch = l.batch := by
  unfold queueInLoop
  dsimp only
  split
  · rfl
  · rfl

theorem queues_queueInLoop (b : Bool) {cb : PendingFunctor} (h : ∀ c, ¬cb.Raw c) :
    Queues l (l.queueInLoop b cb) where
  batch := queueInLoop_batch b cb
  pending := ⟨[cb], queueInLoop_pendingFunctors l b cb, by simpa using h⟩

theorem queues_updateChannel {ch : Channel} (h : l.updateChannel ch = .ok l') : Queues l l' := by
  obtain ⟨_, _, h⟩ := bind_eq_ok.mp h
  obtain ⟨poller, _, h⟩ := bind_eq_ok.mp h
  obtain rfl := Except.ok.inj h
  exact .of_same rfl rfl

theorem queues_removeChannel {ch : Channel} (h : l.removeChannel ch = .ok l') : Queues l l' := by
  obtain ⟨_, _, h⟩ := bind_eq_ok.mp h
  obtain ⟨_, _, h⟩ := bind_eq_ok.mp h
  split at h
  · obtain ⟨_, _, h⟩ := bind_eq_ok.mp h
    obtain ⟨poller, _, h⟩ := bind_eq_ok.mp h
    obtain rfl := Except.ok.inj h
    exact .of_same rfl rfl
  · obtain ⟨poller, _, h⟩ := bind_eq_ok.mp h
    obtain rfl := Except.ok.inj h
    exact .of_same rfl rfl

end EventLoop

namespace TcpConnection
open EventLoop (Queues)
variable {l l' : EventLoop PendingFunctor} {c c' : TcpConnection}

/-- What a function of a connection leaves as it was, and what it does to the queue. -/
structure Works (l : EventLoop PendingFunctor) (c : TcpConnection)
    (l' : EventLoop PendingFunctor) (c' : TcpConnection) : Prop where
  queues : Queues l l'
  name : c'.name = c.name
  loop : c'.loop = c.loop

theorem Works.refl (l : EventLoop PendingFunctor) (c : TcpConnection) : Works l c l c :=
  ⟨.refl l, rfl, rfl⟩

theorem Works.trans {l'' : EventLoop PendingFunctor} {c'' : TcpConnection}
    (h : Works l c l' c') (g : Works l' c' l'' c'') : Works l c l'' c'' :=
  ⟨h.queues.trans g.queues, g.name.trans h.name, g.loop.trans h.loop⟩

theorem works_setInterest {i : Channel.Interest} (h : c.setInterest l i = .ok (l', c')) :
    Works l c l' c' := by
  obtain ⟨u, hu, h⟩ := bind_eq_ok.mp h
  obtain ⟨rfl, rfl⟩ := Prod.mk.inj (Except.ok.inj h)
  exact ⟨EventLoop.queues_updateChannel hu, rfl, rfl⟩

theorem works_removeChannel (h : c.removeChannel l = .ok (l', c')) : Works l c l' c' := by
  obtain ⟨u, hu, h⟩ := bind_eq_ok.mp h
  obtain ⟨rfl, rfl⟩ := Prod.mk.inj (Except.ok.inj h)
  exact ⟨EventLoop.queues_removeChannel hu, rfl, rfl⟩

theorem works : Composes Works where
  trans := Works.trans
  setInterest l c i := ⟨(setInterest_avoids l c i).1, fun _ hr => works_setInterest hr⟩
  queueInLoop l c b cb hcb := by
    refine ⟨EventLoop.queues_queueInLoop b fun d hraw => ?_, rfl, rfl⟩
    cases cb with
    | sendInLoop | shutdownInLoop => exact hcb
    | connectEstablished | connectDestroyed | writeCompleteCallback | highWaterMarkCallback
    | removeConnectionInLoop => exact hraw
  members l c _ _ _ _ := ⟨.refl l, rfl, rfl⟩

theorem works_connectDestroyed {b : Bool} (h : c.connectDestroyed l = .ok (l', c', b)) :
    Works l c l' c' := by
  obtain ⟨_, _, h⟩ := bind_eq_ok.mp h
  split at h
  · obtain ⟨⟨u, d⟩, hu, h⟩ := bind_eq_ok.mp h
    obtain ⟨rfl, heq⟩ := Prod.mk.inj (Except.ok.inj h)
    obtain ⟨rfl, rfl⟩ := Prod.mk.inj heq
    exact (works.setState .kDisconnected .disableAll).2 _ hu
  · obtain ⟨⟨u, d⟩, hu, h⟩ := bind_eq_ok.mp h
    obtain ⟨rfl, heq⟩ := Prod.mk.inj (Except.ok.inj h)
    obtain ⟨rfl, rfl⟩ := Prod.mk.inj heq
    exact works_removeChannel hu

end TcpConnection

namespace World
open EventLoop (Queues)
open TcpConnection (Works)

def nameOf (w : World) (c : ConnId) : Option String := (w.conns c).map TcpConnection.name

def loopOf (w : World) (c : ConnId) : Option LoopId := (w.conns c).map TcpConnection.loop

/-- The server's map holds `c`. -/
def Mapped (w : World) (c : ConnId) : Prop := ∃ name ∈ w.nameOf c, w.connections name = some c

instance (w : World) (c : ConnId) : Decidable (w.Mapped c) :=
  inferInstanceAs (Decidable (∃ name ∈ w.nameOf c, _))

/-- Every connection has a name of its own. -/
def Distinct (w : World) : Prop :=
  ∀ c d name, w.nameOf c = some name → w.nameOf d = some name → c = d

/-- The work of a loop thread between two functors: the queues have grown, and a connection
that the map has let go of is about to be destroyed. -/
structure Grows (w w' : World) : Prop where
  loops : ∀ l, Queues (w.loops l) (w'.loops l)
  name : ∀ c, w'.nameOf c = w.nameOf c
  loop : ∀ c, w'.loopOf c = w.loopOf c
  mapped : ∀ c, w.Mapped c → w'.Mapped c ∨
    ∀ l, w.loopOf c = some l → .connectDestroyed c ∈ (w'.loops l).pendingFunctors

variable {s : TcpServer} {w w' w'' : World} {l : LoopId} {c : ConnId} {conn conn' : TcpConnection}

theorem Mapped.congr (h : w.Mapped c) (hname : w'.nameOf c = w.nameOf c)
    (hmap : w'.connections = w.connections) : w'.Mapped c := by
  obtain ⟨name, hn, hc⟩ := h
  exact ⟨name, hname ▸ hn, hmap ▸ hc⟩

theorem Distinct.congr (h : w.Distinct) (hname : ∀ c, w'.nameOf c = w.nameOf c) :
    w'.Distinct := by
  intro c d name hc hd
  rw [hname] at hc hd
  exact h c d name hc hd

theorem Grows.trans (h : Grows w w') (g : Grows w' w'') : Grows w w'' where
  loops l := (h.loops l).trans (g.loops l)
  name c := (g.name c).trans (h.name c)
  loop c := (g.loop c).trans (h.loop c)
  mapped c hm := by
    rcases h.mapped c hm with hm' | hd
    · rcases g.mapped c hm' with hm'' | hd
      · exact .inl hm''
      · exact .inr fun l hl => hd l ((h.loop c).trans hl)
    · exact .inr fun l hl => (g.loops l).mem (hd l hl)

theorem grows_loops (hl : ∀ l, Queues (w.loops l) (w'.loops l)) (hc : w'.conns = w.conns)
    (hm : w'.connections = w.connections) : Grows w w' where
  loops := hl
  name c := by rw [nameOf, nameOf, hc]
  loop c := by rw [loopOf, loopOf, hc]
  mapped c h := .inl (h.congr (by rw [nameOf, nameOf, hc]) hm)

theorem Grows.refl (w : World) : Grows w w := grows_loops (fun _ => .refl _) rfl rfl

theorem queues_update {loop : EventLoop PendingFunctor} (h : Queues (w.loops l) loop) (k : LoopId) :
    Queues (w.loops k) (Function.update w.loops l loop k) := by
  by_cases hk : k = l
  · subst hk
    rw [Function.update_self]
    exact h
  · rw [Function.update_of_ne hk]
    exact .refl _

theorem grows_setLoop {loop : EventLoop PendingFunctor} (h : Queues (w.loops l) loop) :
    Grows w (w.setLoop l loop) := grows_loops (queues_update h) rfl rfl

theorem grows_put {loop : EventLoop PendingFunctor} (hconn : w.conns c = some conn)
    (h : Works (w.loops l) conn loop conn') : Grows w (w.put l loop c conn') := by
  have hname : ∀ d, (w.put l loop c conn').nameOf d = w.nameOf d := by
    intro d
    by_cases hd : d = c
    · simp [nameOf, put, hd, hconn, h.name]
    · simp [nameOf, put, hd]
  have hloop : ∀ d, (w.put l loop c conn').loopOf d = w.loopOf d := by
    intro d
    by_cases hd : d = c
    · simp [loopOf, put, hd, hconn, h.loop]
    · simp [loopOf, put, hd]
  exact ⟨queues_update h.queues, hname, hloop, fun d hm => .inl (hm.congr (hname d) rfl)⟩

theorem conn_eq_ok (h : w.conn c = .ok conn) : w.conns c = some conn := by
  unfold World.conn at h
  split at h
  · rename_i conn hconn
    exact hconn.trans (congrArg some (Except.ok.inj h))
  · cases h

theorem grows_connectEstablished (h : w.connectEstablished l c = .ok w') : Grows w w' := by
  obtain ⟨conn, hconn, h⟩ := bind_eq_ok.mp h
  obtain ⟨⟨loop, conn'⟩, hw, h⟩ := bind_eq_ok.mp h
  obtain rfl := Except.ok.inj h
  have hg := grows_put (conn_eq_ok hconn) (TcpConnection.works.connectEstablished.2 _ hw)
  exact ⟨hg.loops, hg.name, hg.loop, hg.mapped⟩

theorem grows_handleRead {r : ReadResult} (h : w.handleRead l c r = .ok w') : Grows w w' := by
  obtain ⟨conn, hconn, h⟩ := bind_eq_ok.mp h
  obtain ⟨⟨loop, conn', outcome⟩, hw, h⟩ := bind_eq_ok.mp h
  have hg := grows_put (conn_eq_ok hconn) ((TcpConnection.works.handleRead _).2 _ hw)
  cases outcome with
  | message =>
    obtain rfl := Except.ok.inj h
    exact ⟨hg.loops, hg.name, hg.loop, hg.mapped⟩
  | closed =>
    obtain rfl := Except.ok.inj h
    exact ⟨hg.loops, hg.name, hg.loop, hg.mapped⟩
  | error =>
    obtain rfl := Except.ok.inj h
    exact hg

theorem grows_handleWrite {r : WriteResult} (h : w.handleWrite l c r = .ok w') : Grows w w' := by
  obtain ⟨conn, hconn, h⟩ := bind_eq_ok.mp h
  obtain ⟨⟨loop, conn'⟩, hw, h⟩ := bind_eq_ok.mp h
  obtain rfl := Except.ok.inj h
  exact grows_put (conn_eq_ok hconn) ((TcpConnection.works.handleWrite _).2 _ hw)

theorem grows_handleClose (h : w.handleClose l c = .ok w') : Grows w w' := by
  obtain ⟨conn, hconn, h⟩ := bind_eq_ok.mp h
  obtain ⟨⟨loop, conn'⟩, hw, h⟩ := bind_eq_ok.mp h
  obtain rfl := Except.ok.inj h
  have hg := grows_put (conn_eq_ok hconn) (TcpConnection.works.handleClose.2 _ hw)
  exact ⟨hg.loops, hg.name, hg.loop, hg.mapped⟩

theorem grows_userCall {u : UserCall} (h : w.userCall l c u = .ok w') : Grows w w' := by
  obtain ⟨conn, hconn, h⟩ := bind_eq_ok.mp h
  obtain ⟨⟨loop, conn'⟩, hw, h⟩ := bind_eq_ok.mp h
  obtain rfl := Except.ok.inj h
  exact grows_put (conn_eq_ok hconn) ((TcpConnection.works.userCall _).2 _ hw)

theorem grows_runTest {t : Test} {r : ReadResult} {wr : WriteResult}
    (h : w.runTest l c t r wr = .ok w') : Grows w w' := by
  have hskip : Except.ok w = (.ok w' : Checked World) → Grows w w' := by
    intro heq
    obtain rfl := Except.ok.inj heq
    exact .refl w
  unfold runTest at h
  cases t with
  | close =>
    dsimp only at h
    split at h
    · exact grows_handleClose h
    · exact hskip h
  | error => exact hskip h
  | read =>
    dsimp only at h
    split at h
    · exact grows_handleRead h
    · exact hskip h
  | write =>
    dsimp only at h
    split at h
    · exact grows_handleWrite h
    · exact hskip h

theorem grows_queueInLoop {owner : LoopId} {cb : PendingFunctor} (h : ∀ c, ¬cb.Raw c) :
    Grows w (w.queueInLoop l owner cb) := grows_setLoop (EventLoop.queues_queueInLoop _ h)

/-- `removeConnectionInLoop` erases the name of `c` and queues its `connectDestroyed`. -/
theorem grows_removeConnectionInLoop (hdistinct : w.Distinct)
    (h : w.removeConnectionInLoop s l c = .ok w') : Grows w w' := by
  obtain ⟨_, _, h⟩ := bind_eq_ok.mp h
  obtain ⟨conn, hconn, h⟩ := bind_eq_ok.mp h
  obtain ⟨_, _, h⟩ := bind_eq_ok.mp h
  obtain rfl := Except.ok.inj h
  have hc : w.conns c = some conn := conn_eq_ok hconn
  have hg : Grows w (w.queueInLoop l conn.loop (.connectDestroyed c)) :=
    grows_queueInLoop fun d hd => hd
  refine ⟨hg.loops, hg.name, hg.loop, ?_⟩
  rintro d ⟨name, hname, hmap⟩
  by_cases hd : d = c
  · subst hd
    right
    intro k hk
    obtain rfl : conn.loop = k := by simpa [loopOf, hc] using hk
    simp [queueInLoop, setLoop, record, EventLoop.queueInLoop_pendingFunctors]
  · have hne : name ≠ conn.name := by
      rintro rfl
      exact hd (hdistinct d c conn.name hname (by simp [nameOf, hc]))
    exact .inl ⟨name, hname, (Function.update_of_ne hne ..).trans hmap⟩

theorem grows_removeConnection (hdistinct : w.Distinct)
    (h : w.removeConnection s l c = .ok w') : Grows w w' := by
  unfold removeConnection at h
  split at h
  · exact grows_removeConnectionInLoop hdistinct h
  · obtain rfl := Except.ok.inj h
    exact grows_queueInLoop fun d hd => hd

theorem grows_runDue {due : Due} (hdistinct : w.Distinct) (h : w.runDue s l due = .ok w') :
    Grows w w' := by
  cases due with
  | closeCallback c =>
    have hg : Grows (w.record c .closeCallback) w' :=
      grows_removeConnection (hdistinct.congr fun _ => rfl) h
    exact ⟨hg.loops, hg.name, hg.loop, hg.mapped⟩
  | removeChannel c =>
    obtain ⟨conn, hconn, h⟩ := bind_eq_ok.mp h
    obtain ⟨⟨loop, conn'⟩, hw, h⟩ := bind_eq_ok.mp h
    obtain rfl := Except.ok.inj h
    have hg := grows_put (conn_eq_ok hconn) (TcpConnection.works_removeChannel hw)
    exact ⟨hg.loops, hg.name, hg.loop, hg.mapped⟩

theorem grows_connectDestroyed (h : w.connectDestroyed l c = .ok w') : Grows w w' := by
  obtain ⟨conn, hconn, h⟩ := bind_eq_ok.mp h
  obtain ⟨⟨loop, conn', inCallback⟩, hw, h⟩ := bind_eq_ok.mp h
  have hg := grows_put (conn_eq_ok hconn) (TcpConnection.works_connectDestroyed hw)
  cases inCallback with
  | true =>
    obtain rfl := Except.ok.inj h
    exact ⟨hg.loops, hg.name, hg.loop, hg.mapped⟩
  | false =>
    obtain rfl := Except.ok.inj h
    exact ⟨hg.loops, hg.name, hg.loop, hg.mapped⟩

theorem grows_runFunctor {r : WriteResult} {f : PendingFunctor} (hdistinct : w.Distinct)
    (h : w.runFunctor s l r f = .ok w') : Grows w w' := by
  cases f with
  | connectEstablished c => exact grows_connectEstablished h
  | connectDestroyed c => exact grows_connectDestroyed h
  | sendInLoop c message =>
    obtain ⟨conn, hconn, h⟩ := bind_eq_ok.mp h
    obtain ⟨⟨loop, conn'⟩, hw, h⟩ := bind_eq_ok.mp h
    obtain rfl := Except.ok.inj h
    exact grows_put (conn_eq_ok hconn) ((TcpConnection.works.sendInLoop _ _).2 _ hw)
  | shutdownInLoop c =>
    obtain ⟨conn, hconn, h⟩ := bind_eq_ok.mp h
    obtain ⟨⟨loop, conn'⟩, hw, h⟩ := bind_eq_ok.mp h
    obtain rfl := Except.ok.inj h
    exact grows_put (conn_eq_ok hconn) (TcpConnection.works.shutdownInLoop.2 _ hw)
  | writeCompleteCallback c | highWaterMarkCallback c len =>
    obtain rfl := Except.ok.inj h
    exact grows_loops (fun _ => .refl _) rfl rfl
  | removeConnectionInLoop c => exact grows_removeConnectionInLoop hdistinct h

theorem grows_visit (x : ChannelId) (rest : List ChannelId) : Grows w (w.visit s l x rest) := by
  have hvisit : Grows w (w.setLoop l ((w.loops l).visit x rest)) := grows_setLoop (.of_same rfl rfl)
  unfold visit
  dsimp only
  split
  · exact ⟨hvisit.loops, hvisit.name, hvisit.loop, hvisit.mapped⟩
  · split
    · exact grows_setLoop (.of_same rfl rfl)
    · split
      · exact hvisit
      · exact ⟨hvisit.loops, hvisit.name, hvisit.loop, hvisit.mapped⟩

/-- `newConnection` makes the connection and its entry, the rest is work of a loop thread. -/
theorem grows_newConnection {ioLoop : LoopId} {connName : String} {sockfd : ℕ} {id : ConnId}
    (h : w.newConnection s l ioLoop connName sockfd id = .ok w') :
    ∃ conn : TcpConnection, conn.name = connName ∧ Grows
      { w with
        conns := Function.update w.conns id (some conn)
        connections := Function.update w.connections connName (some id)
        fds := Function.update w.fds sockfd (some id) } w' := by
  obtain ⟨_, _, h⟩ := bind_eq_ok.mp h
  refine ⟨{ TcpConnection.new id ioLoop connName sockfd with
    writeCompleteCallback := s.writeCompleteCallback }, rfl, ?_⟩
  dsimp only at h
  split at h
  · exact grows_connectEstablished h
  · obtain rfl := Except.ok.inj h
    exact grows_queueInLoop fun d hd => hd

end World

namespace TcpServer
variable {s : TcpServer} {w w' : World}

def Event.isNewConnection : Event → Bool
  | .newConnection .. => true
  | _ => false

/-- Only `newConnection` makes a name. -/
theorem nameOf_step {e : Event} (hdistinct : w.Distinct) (he : e.isNewConnection = false)
    (h : step s w e = .ok w') (c : ConnId) : w'.nameOf c = w.nameOf c := by
  cases e with
  | poll l active =>
    obtain ⟨⟨activeChannels, poller⟩, _, h⟩ := bind_eq_ok.mp h
    obtain rfl := Except.ok.inj h
    rfl
  | visit l =>
    simp only [step] at h
    split at h
    · obtain rfl := Except.ok.inj h
      rfl
    · obtain rfl := Except.ok.inj h
      exact (World.grows_visit _ _).name c
  | test l r wr =>
    simp only [step] at h
    split at h
    · obtain rfl := Except.ok.inj h
      rfl
    · have hg := World.grows_runTest h
      exact hg.name c
  | userCall l d u => exact (World.grows_userCall h).name c
  | userReturn l =>
    obtain rfl := Except.ok.inj h
    rfl
  | due l =>
    simp only [step] at h
    split at h
    · obtain rfl := Except.ok.inj h
      rfl
    · rename_i due _
      let w₁ : World :=
        { w with threads := Function.update w.threads l { w.threads l with due := none } }
      have hd : w₁.Distinct := hdistinct.congr fun _ => rfl
      have hg : World.Grows w₁ w' := World.grows_runDue hd h
      exact hg.name c
  | newConnection ioLoop connName sockfd id => cases he
  | endHandling l | swap l | endFunctors l =>
    obtain rfl := Except.ok.inj h
    rfl
  | execute l r =>
    simp only [step] at h
    split at h
    · obtain rfl := Except.ok.inj h
      rfl
    · rename_i cb rest _
      have hd : (w.setLoop l ((w.loops l).take rest)).Distinct := hdistinct.congr fun _ => rfl
      exact (World.grows_runFunctor hd h).name c

end TcpServer
end Muduo
