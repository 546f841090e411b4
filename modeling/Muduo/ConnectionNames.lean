import Muduo.Library.Numeral
import Muduo.ServerSteps

/-!
# The names of connections

`TcpServer::newConnection` prints `hostport_` and `nextConnId_` into 32 bytes. As long as the
number is not cut, the names are distinct, and no entry of `connections_` is overwritten.
-/
namespace Muduo

/-- `char buf[32]` and `name_ + buf` of `newConnection` -/
def connName (name hostport : String) (nextConnId : ℕ) : String :=
  name ++ String.ofList ((":" ++ hostport ++ "#" ++ toString nextConnId).toList.take 31)

/-- The number of digits for which `hostport` leaves room. -/
def room (hostport : String) : ℕ := 29 - hostport.length

section
variable {name hostport : String} {m n : ℕ}

theorem connName_eq (h : hostport.length ≤ 21) :
    connName name hostport n =
      name ++ String.ofList ((":" ++ hostport ++ "#").toList ++
        (Nat.toDigits 10 n).take (room hostport)) := by
  have hlen : (":" ++ hostport ++ "#").toList.length = hostport.length + 2 := by
    simp [String.length_toList]
  have htake : (":" ++ hostport ++ "#").toList.take 31 = (":" ++ hostport ++ "#").toList :=
    List.take_of_length_le (by omega)
  have hroom : 31 - (":" ++ hostport ++ "#").toList.length = room hostport := by
    rw [hlen, room]
    omega
  unfold connName
  rw [String.toList_append, List.take_append, htake, hroom, Nat.toString_eq_repr, Nat.toList_repr]

theorem connName_eq_iff (h : hostport.length ≤ 21) :
    connName name hostport m = connName name hostport n ↔
      (Nat.toDigits 10 m).take (room hostport) = (Nat.toDigits 10 n).take (room hostport) := by
  rw [connName_eq h, connName_eq h]
  constructor
  · intro heq
    have hlist := congrArg String.toList heq
    simp only [String.toList_append, String.toList_ofList] at hlist
    exact List.append_cancel_left (List.append_cancel_left hlist)
  · intro heq
    rw [heq]

theorem room_pos (h : hostport.length ≤ 21) : 0 < room hostport := by
  unfold room
  omega

end

namespace ConnectionNames
open StepSystem

structure State where
  world : World
  nextConnId : ℕ
  /-- the names that have been built -/
  names : List String

inductive Event
  /-- a step of a loop thread other than `newConnection` -/
  | server (e : TcpServer.Event)
  /-- `Acceptor::handleRead` has accepted `sockfd`, and `getNextLoop` chooses `ioLoop` -/
  | newConnection (ioLoop : LoopId) (sockfd : ℕ) (id : ConnId)
  deriving DecidableEq, Repr

section
variable (s : TcpServer) (name hostport : String)

/-- The object of a new connection and its descriptor are not in use. -/
def enabled (x : State) : Event → Prop
  | .server e => e.isNewConnection = false ∧ TcpServer.enabled s x.world e
  | .newConnection ioLoop sockfd id => x.nextConnId < 2 ^ 31 ∧
      (x.world.threads s.loop).Idle ∧ ioLoop ∈ s.nextLoops ∧
      (x.world.loops s.loop).position = .handling ∧
      (x.world.loops s.loop).currentActiveChannel = some s.acceptChannel.id ∧
      x.world.fds sockfd = none ∧ x.world.conns id = none ∧ s.others id = none

instance (x : State) : (e : Event) → Decidable (enabled s x e)
  | .server _ => inferInstanceAs (Decidable (_ ∧ _))
  | .newConnection .. => inferInstanceAs (Decidable (_ ∧ _ ∧ _ ∧ _ ∧ _ ∧ _ ∧ _ ∧ _))

def step (x : State) : Event → Checked State
  | .server e => do
    let world ← TcpServer.step s x.world e
    return { x with world }
  | .newConnection ioLoop sockfd id => do
    let connName := connName name hostport x.nextConnId
    let world ← x.world.newConnection s s.loop ioLoop connName sockfd id
    return ⟨world, x.nextConnId + 1, x.names ++ [connName]⟩

def system : System State Event Assertion where
  init x := TcpServer.Initial s x.world ∧ x.nextConnId = 1 ∧ x.names = []
  enabled := enabled s
  step := step s name hostport

instance (x : State) (e : Event) : Decidable ((system s name hostport).enabled x e) :=
  inferInstanceAs (Decidable (enabled s x e))

/-- The names are distinct, no connection that is not closed has lost its entry in
`connections_`, and what is erased is there. -/
structure Apart (x : State) : Prop where
  names : x.names.Nodup
  kept : ∀ c conn, x.world.conns c = some conn → (∀ n, .erase n ∉ x.world.history c) →
    x.world.connections conn.name = some c
  erased : ∀ e, e.isNewConnection = false → TcpServer.enabled s x.world e →
    TcpServer.step s x.world e ≠ .error .removeConnectionErase

/-- `nextConnId_` is not cut. -/
def Fits (x : State) : Event → Prop
  | .server _ => True
  | .newConnection .. => x.nextConnId < 10 ^ room hostport

instance (x : State) : (e : Event) → Decidable (Fits hostport x e)
  | .server _ => inferInstanceAs (Decidable True)
  | .newConnection .. => inferInstanceAs (Decidable (_ < _))

structure Inv (x : State) : Prop where
  server : TcpServer.Inv s none x.world
  pos : 0 < x.nextConnId
  le : x.nextConnId ≤ 10 ^ room hostport
  names : x.names = (List.range' 1 (x.nextConnId - 1)).map (connName name hostport)
  distinct : x.world.Distinct
  nameOf : ∀ c connName, x.world.nameOf c = some connName → connName ∈ x.names

end

variable {s : TcpServer} {name hostport : String} {x y : State}

theorem inv_of_init (h : (system s name hostport).init x) : Inv s name hostport x where
  server := (TcpServer.totalInvariant s).init x.world h.1
  pos := by
    rw [h.2.1]
    decide
  le := by
    rw [h.2.1]
    exact Nat.one_le_pow _ _ (by decide)
  names := by
    rw [h.2.1, h.2.2]
    rfl
  distinct := by
    intro c d connName hc
    simp [World.nameOf, h.1.conns c] at hc
  nameOf := by
    intro c connName hc
    simp [World.nameOf, h.1.conns c] at hc

/-- Below `10 ^ room` the numbers can be read off the names. -/
theorem connName_injective (hlen : hostport.length ≤ 21) {m n : ℕ} (hm : m < 10 ^ room hostport)
    (hn : n < 10 ^ room hostport) (h : connName name hostport m = connName name hostport n) :
    m = n :=
  Numeral.take_toDigits_injective (room_pos hlen) hm hn ((connName_eq_iff hlen).mp h)

theorem Inv.mem_names (h : Inv s name hostport x) {connName' : String} :
    connName' ∈ x.names ↔ ∃ m, 0 < m ∧ m < x.nextConnId ∧ connName name hostport m = connName' := by
  have hpos := h.pos
  rw [h.names, List.mem_map]
  constructor
  · rintro ⟨m, hm, rfl⟩
    obtain ⟨hge, hlt⟩ := List.mem_range'_1.mp hm
    exact ⟨m, by omega, by omega, rfl⟩
  · rintro ⟨m, hm, hlt, rfl⟩
    exact ⟨m, List.mem_range'_1.mpr ⟨by omega, by omega⟩, rfl⟩

/-- The next name is new. -/
theorem Inv.next_not_mem (hlen : hostport.length ≤ 21) (h : Inv s name hostport x)
    (hfits : x.nextConnId < 10 ^ room hostport) :
    connName name hostport x.nextConnId ∉ x.names := by
  intro hmem
  obtain ⟨m, _, hlt, heq⟩ := h.mem_names.mp hmem
  have := connName_injective hlen (hlt.trans hfits) hfits heq
  omega

/-- A name that is in `connections_` has been built. -/
theorem Inv.next_free (hlen : hostport.length ≤ 21) (h : Inv s name hostport x)
    (hfits : x.nextConnId < 10 ^ room hostport) :
    x.world.connections (connName name hostport x.nextConnId) = none := by
  cases hc : x.world.connections (connName name hostport x.nextConnId) with
  | none => rfl
  | some c =>
    cases hconn : x.world.conns c with
    | none => exact absurd hc ((h.server.fresh c hconn).connections _)
    | some conn =>
      obtain ⟨p, hat⟩ := h.server.conn c conn hconn
      have hname := ((hat.connections _).mp hc).1
      have hmem : conn.name ∈ x.names := h.nameOf c conn.name (by simp [World.nameOf, hconn])
      rw [← hname] at hmem
      exact absurd hmem (h.next_not_mem hlen hfits)

theorem Inv.server_step {e : TcpServer.Event} (h : Inv s name hostport x)
    (he : e.isNewConnection = false) (hen : TcpServer.enabled s x.world e) {world : World}
    (hs : TcpServer.step s x.world e = .ok world) : Inv s name hostport { x with world } := by
  have hname := TcpServer.nameOf_step h.distinct he hs
  exact {
    server := ((TcpServer.totalInvariant s).invariant _).step x.world e world h.server hen hs
    pos := h.pos
    le := h.le
    names := h.names
    distinct := h.distinct.congr hname
    nameOf := fun c connName hc => h.nameOf c connName (hname c ▸ hc) }

theorem Inv.newConnection {ioLoop : LoopId} {sockfd : ℕ} {id : ConnId}
    (hlen : hostport.length ≤ 21) (h : Inv s name hostport x)
    (hfits : x.nextConnId < 10 ^ room hostport)
    (he : enabled s x (.newConnection ioLoop sockfd id)) {world : World}
    (hs : x.world.newConnection s s.loop ioLoop (connName name hostport x.nextConnId) sockfd id =
      .ok world) :
    Inv s name hostport
      ⟨world, x.nextConnId + 1, x.names ++ [connName name hostport x.nextConnId]⟩ := by
  obtain ⟨_, ⟨_, hdue, _⟩, hnext, _, _, hfd, hid, hother⟩ := he
  obtain ⟨w, hw, hserver⟩ :=
    TcpServer.inv_newConnection h.server hid hother (h.next_free hlen hfits) hfd hnext hdue
  obtain rfl : w = world := Except.ok.inj (hw.symm.trans hs)
  obtain ⟨conn, hconn, hgrows⟩ := World.grows_newConnection hs
  have hself : w.nameOf id = some (connName name hostport x.nextConnId) := by
    rw [hgrows.name id]
    simp [World.nameOf, hconn]
  have hothers : ∀ c, c ≠ id → w.nameOf c = x.world.nameOf c := by
    intro c hc
    rw [hgrows.name c]
    simp [World.nameOf, hc]
  have hnew := h.next_not_mem hlen hfits
  have hpos := h.pos
  refine ⟨hserver, by simp, hfits, ?_, ?_, ?_⟩
  · have hsucc : x.nextConnId + 1 - 1 = x.nextConnId - 1 + 1 := by omega
    have hlast : 1 + (x.nextConnId - 1) = x.nextConnId := by omega
    rw [hsucc, List.range'_1_concat, List.map_append, hlast, h.names]
    rfl
  · intro c d connName' hc hd
    by_cases hcid : c = id
    · by_cases hdid : d = id
      · rw [hcid, hdid]
      · subst hcid
        rw [hself] at hc
        rw [hothers d hdid, ← hc] at hd
        exact absurd (h.nameOf d _ hd) hnew
    · by_cases hdid : d = id
      · subst hdid
        rw [hself] at hd
        rw [hothers c hcid, ← hd] at hc
        exact absurd (h.nameOf c _ hc) hnew
      · rw [hothers c hcid] at hc
        rw [hothers d hdid] at hd
        exact h.distinct c d connName' hc hd
  · intro c connName' hc
    rw [List.mem_append, List.mem_singleton]
    by_cases hcid : c = id
    · subst hcid
      rw [hself] at hc
      exact .inr (Option.some.inj hc).symm
    · exact .inl (h.nameOf c connName' (hothers c hcid ▸ hc))

theorem Inv.apart (hlen : hostport.length ≤ 21) (h : Inv s name hostport x) :
    Apart s x where
  names := by
    have hpos := h.pos
    have hle := h.le
    rw [h.names]
    refine List.Nodup.map_on ?_ List.nodup_range'
    intro m hm n hn heq
    have hm' := List.mem_range'_1.mp hm
    have hn' := List.mem_range'_1.mp hn
    exact connName_injective hlen (by omega) (by omega) heq
  kept := by
    intro c conn hconn hnot
    obtain ⟨p, hat⟩ := h.server.conn c conn hconn
    obtain ⟨n, hn⟩ := hat.history
    refine (hat.connections conn.name).mpr ⟨rfl, ?_, ?_⟩
    · rintro rfl
      exact hnot 1 (by simp [hn, Phase.history])
    · rintro rfl
      exact hnot 1 (by simp [hn, Phase.history])
  erased := by
    intro e _ hen herr
    obtain ⟨w, hw, _⟩ := (TcpServer.totalInvariant s).step x.world e h.server hen
    have hok : TcpServer.step s x.world e = .ok w := hw
    rw [hok] at herr
    cases herr

/-- A number of more than `room` digits gives the name of an earlier number. -/
theorem Inv.next_mem (hlen : hostport.length ≤ 21) (h : Inv s name hostport x)
    (hcut : 10 ^ room hostport ≤ x.nextConnId) :
    connName name hostport x.nextConnId ∈ x.names := by
  have hten : 10 ≤ x.nextConnId :=
    (Nat.le_self_pow (room_pos hlen).ne' 10).trans hcut
  refine h.mem_names.mpr ⟨x.nextConnId / 10, by omega, by omega, ?_⟩
  exact (connName_eq_iff hlen).mpr (Numeral.take_toDigits_div (room_pos hlen) hcut)

theorem exactGuard (hlen : hostport.length ≤ 21) :
    ExactGuard (system s name hostport) (Inv s name hostport) (Apart s) (Fits hostport) where
  init _ h := inv_of_init h
  sound _ h := h.apart hlen
  keeps x e y h hfits he hs := by
    cases e with
    | server e =>
      obtain ⟨world, hw, hs⟩ := bind_eq_ok.mp hs
      obtain rfl := Except.ok.inj hs
      exact h.server_step he.1 he.2 hw
    | newConnection ioLoop sockfd id =>
      obtain ⟨world, hw, hs⟩ := bind_eq_ok.mp hs
      obtain rfl := Except.ok.inj hs
      exact h.newConnection hlen hfits he hw
  breaks x e y h hcut he hs hapart := by
    cases e with
    | server e => exact hcut trivial
    | newConnection ioLoop sockfd id =>
      obtain ⟨world, hw, hs⟩ := bind_eq_ok.mp hs
      obtain rfl := Except.ok.inj hs
      have hmem := h.next_mem hlen (not_lt.mp hcut)
      have hnodup := hapart.names
      rw [List.nodup_append] at hnodup
      exact hnodup.2.2 _ hmem _ (List.mem_singleton_self _) rfl

/-- The names of a server's connections are apart, in every state of a run, exactly when each of
its numbers leaves `hostport_` the rest of the 31 characters. -/
theorem names_apart (hlen : hostport.length ≤ 21) {es : List Event}
    (hinit : (system s name hostport).init x) (hrun : Run (system s name hostport) x es y) :
    Throughout (system s name hostport) (Apart s) x es ↔
      Guarded (system s name hostport) (Fits hostport) x es :=
  (exactGuard hlen).throughout_iff _ hinit hrun

/-! ### The hundred millionth connection -/

open TcpServer (sample sampleWorld samplePoller)

/-- The loop of the acceptor before `poll`. -/
def waiting (active : List ChannelId) : EventLoop PendingFunctor :=
  { sampleWorld.loops 0 with activeChannels := active }

theorem waiting_poller (active : List ChannelId) : (waiting active).poller = samplePoller 0 := rfl

theorem others_sample (n : ℕ) : sample.others (100 + n) = none := by
  cases h : sample.others (100 + n) with
  | none => rfl
  | some y =>
    obtain ⟨ch, hmem, hid, _⟩ := TcpServer.sample_others_iff.mp h
    have hlow : ∀ ch ∈ TcpServer.sampleChannels, (ch.id : ℕ) < 100 := by decide
    have hlt : (100 + n : ℕ) < 100 := hid ▸ hlow ch hmem
    omega

section
variable (name hostport : String)

/-- The sample server has accepted `n` connections, and its own loop is `loop`. -/
structure Accepted (loop : EventLoop PendingFunctor) (n : ℕ) (x : State) : Prop where
  nextConnId : x.nextConnId = n + 1
  names : x.names = (List.range' 1 n).map (connName name hostport)
  loop : x.world.loops 0 = loop
  thread : (x.world.threads 0).Idle
  listener : x.world.conns 1 = none
  conns : ∀ m, n ≤ m → x.world.conns (100 + m) = none
  fds : ∀ m, n ≤ m → x.world.fds (100 + m) = none

/-- One turn of the acceptor's loop, in which it accepts a connection for the loop 1. -/
def turn (n : ℕ) : List Event :=
  [.server (.poll 0 [(1, POLLIN)]), .server (.visit 0), .newConnection 1 (100 + n) (100 + n),
    .server (.endHandling 0), .server (.swap 0), .server (.endFunctors 0)]

variable {n : ℕ} {x : State} {loop : EventLoop PendingFunctor}

variable {name hostport} in
theorem Accepted.setLoop (h : Accepted name hostport loop n x) (loop' : EventLoop PendingFunctor) :
    Accepted name hostport loop' n { x with world := x.world.setLoop 0 loop' } where
  nextConnId := h.nextConnId
  names := h.names
  loop := by simp [World.setLoop]
  thread := h.thread
  listener := h.listener
  conns := h.conns
  fds := h.fds

theorem accepted_poll {active : List ChannelId} (h : Accepted name hostport (waiting active) n x) :
    ∃ y, (system sample name hostport).enabled x (.server (.poll 0 [(1, POLLIN)])) ∧
      (system sample name hostport).step x (.server (.poll 0 [(1, POLLIN)])) = .ok y ∧
      Accepted name hostport ((waiting active).pollReturn [1]) n y := by
  have hfd : x.world.fd sample 1 = 4 := by
    unfold World.fd
    rw [h.listener]
    rfl
  have hpoll : (samplePoller 0).poll (x.world.fd sample) [(1, POLLIN)] =
      .ok ([(1, POLLIN)], samplePoller 0) := by
    simp only [EPollPoller.poll, EPollPoller.fillActiveChannels, hfd]
    rfl
  have hreport : TcpServer.MayReport sample x.world 0 1 POLLIN := by
    unfold TcpServer.MayReport
    rw [hfd, h.loop, waiting_poller]
    exact ⟨rfl, by decide⟩
  refine ⟨{ x with
    world := { x.world.setLoop 0 ((waiting active).pollReturn [1]) with
      threads := Function.update x.world.threads 0 { x.world.threads 0 with
        revents := fun c => (([(1, POLLIN)] : List (ChannelId × Events)).lookup c).getD 0 } } },
    ⟨rfl, h.thread, by rw [h.loop]; rfl, by simpa using hreport, by simp, by
      rw [h.loop, waiting_poller]; decide⟩, ?_, ?_⟩
  · change (do
      let world ← TcpServer.step sample x.world (.poll 0 [(1, POLLIN)])
      return { x with world }) = _
    simp only [TcpServer.step, h.loop]
    rw [waiting_poller, hpoll]
    rfl
  · have hset := h.setLoop ((waiting active).pollReturn [1])
    exact { hset with
      thread := by
        simp only [Function.update_self]
        exact h.thread }

theorem accepted_visit {active : List ChannelId}
    (h : Accepted name hostport ((waiting active).pollReturn [1]) n x) :
    ∃ y, (system sample name hostport).enabled x (.server (.visit 0)) ∧
      (system sample name hostport).step x (.server (.visit 0)) = .ok y ∧
      Accepted name hostport (((waiting active).pollReturn [1]).visit 1 []) n y := by
  refine ⟨_, ⟨rfl, h.thread, by rw [h.loop]; rfl, by rw [h.loop]; simp [EventLoop.pollReturn]⟩, ?_,
    h.setLoop _⟩
  change (do
      let world ← TcpServer.step sample x.world (.visit 0)
      return { x with world }) = _
  have hvisit : x.world.visit sample 0 1 [] =
      x.world.setLoop 0 (((waiting active).pollReturn [1]).visit 1 []) := by
    unfold World.visit
    rw [h.listener, h.loop]
    rfl
  simp only [TcpServer.step, h.loop, EventLoop.pollReturn]
  rw [hvisit]
  rfl

theorem accepted_newConnection (h : Accepted name hostport loop n x) (hn : n + 1 < 2 ^ 31)
    (hpos : loop.position = .handling) (hcur : loop.currentActiveChannel = some 1)
    (hid : loop.id = 0) :
    ∃ y, (system sample name hostport).enabled x (.newConnection 1 (100 + n) (100 + n)) ∧
      (system sample name hostport).step x (.newConnection 1 (100 + n) (100 + n)) = .ok y ∧
      Accepted name hostport loop (n + 1) y := by
  refine ⟨⟨(TcpServer.constructed sample x.world 1 (connName name hostport x.nextConnId) (100 + n)
    (100 + n)).queueInLoop 0 1 (.connectEstablished (100 + n)), x.nextConnId + 1,
    x.names ++ [connName name hostport x.nextConnId]⟩,
    ⟨?_, h.thread, by decide, ?_, ?_, h.fds n le_rfl, h.conns n le_rfl, others_sample n⟩, ?_, ?_⟩
  · rw [h.nextConnId]
    exact hn
  · change (x.world.loops 0).position = _
    rw [h.loop, hpos]
  · change (x.world.loops 0).currentActiveChannel = _
    rw [h.loop, hcur]
    rfl
  · change (do
      let world ← x.world.newConnection sample 0 1 (connName name hostport x.nextConnId)
        (100 + n) (100 + n)
      return (⟨world, x.nextConnId + 1, x.names ++ [connName name hostport x.nextConnId]⟩ :
        State)) = _
    unfold World.newConnection
    rw [EventLoop.assertInLoopThread, h.loop, hid]
    rfl
  · exact {
      nextConnId := congrArg (· + 1) h.nextConnId
      names := by
        rw [h.nextConnId, h.names, List.range'_1_concat, List.map_append, Nat.add_comm 1 n]
        rfl
      loop := h.loop
      thread := h.thread
      listener := by
        refine (Function.update_of_ne ?_ ..).trans h.listener
        intro heq
        have hnat : (1 : ℕ) = 100 + n := heq
        omega
      conns := by
        intro m hm
        refine (Function.update_of_ne ?_ ..).trans (h.conns m (by omega))
        intro heq
        have hnat : (100 + m : ℕ) = 100 + n := heq
        omega
      fds := by
        intro m hm
        exact (Function.update_of_ne (by omega) ..).trans (h.fds m (by omega)) }

/-- The rest of a turn runs no functor. -/
theorem accepted_endTurn {active : List ChannelId}
    (h : Accepted name hostport (((waiting active).pollReturn [1]).visit 1 []) n x) :
    ∃ y, Run (system sample name hostport) x
      [.server (.endHandling 0), .server (.swap 0), .server (.endFunctors 0)] y ∧
      Accepted name hostport (waiting [1]) n y := by
  have h₁ := h.setLoop (((waiting active).pollReturn [1]).visit 1 []).endHandling
  have h₂ := h₁.setLoop (((waiting active).pollReturn [1]).visit 1 []).endHandling.swap
  have h₃ := h₂.setLoop (waiting [1])
  refine ⟨_, run_cons _ ⟨rfl, h.thread, ?_, ?_⟩ ?_ (run_cons _ ⟨rfl, h₁.thread, ?_⟩ ?_
    (run_cons _ ⟨rfl, h₂.thread, ?_, ?_⟩ ?_ (.nil _))), h₃⟩
  · rw [h.loop]
    rfl
  · rw [h.loop]
    rfl
  · change Except.ok _ = _
    rw [h.loop]
  · rw [h₁.loop]
    rfl
  · change Except.ok _ = _
    rw [h₁.loop]
  · rw [h₂.loop]
    rfl
  · rw [h₂.loop]
    rfl
  · change Except.ok _ = _
    rw [h₂.loop]
    rfl

theorem accepted_turn {active : List ChannelId} (h : Accepted name hostport (waiting active) n x)
    (hn : n + 1 < 2 ^ 31) :
    ∃ y, Run (system sample name hostport) x (turn n) y ∧
      Accepted name hostport (waiting [1]) (n + 1) y := by
  obtain ⟨x₁, he₁, hs₁, h₁⟩ := accepted_poll name hostport h
  obtain ⟨x₂, he₂, hs₂, h₂⟩ := accepted_visit name hostport h₁
  obtain ⟨x₃, he₃, hs₃, h₃⟩ :=
    accepted_newConnection name hostport h₂ hn rfl rfl rfl
  obtain ⟨y, hrun, hy⟩ := accepted_endTurn name hostport h₃
  exact ⟨y, run_cons _ he₁ hs₁ (run_cons _ he₂ hs₂ (run_cons _ he₃ hs₃ hrun)), hy⟩


/-- The sample server before its first connection. -/
def start : State := ⟨sampleWorld, 1, []⟩

theorem init_start : (system sample name hostport).init start :=
  ⟨TcpServer.initial_sample, rfl, rfl⟩

theorem exists_accepted (n : ℕ) (hn : n < 2 ^ 31) : ∃ es x active,
    Run (system sample name hostport) start es x ∧ Accepted name hostport (waiting active) n x := by
  induction n with
  | zero =>
    exact ⟨[], start, [], .nil start, rfl, rfl, rfl, ⟨rfl, rfl, rfl⟩, rfl, fun _ _ => rfl, by
      intro m _
      refine Option.eq_none_iff_forall_ne_some.mpr fun y hy => ?_
      obtain ⟨ch, hmem, hfd, _⟩ := TcpServer.sample_fds_iff.mp hy
      have hlow : ∀ ch ∈ TcpServer.sampleChannels, ch.fd < 100 := by decide
      have hlt := hlow ch hmem
      omega⟩
  | succ n ih =>
    obtain ⟨es, x, active, hrun, hx⟩ := ih (by omega)
    obtain ⟨y, hturn, hy⟩ := accepted_turn name hostport hx (by omega)
    exact ⟨es ++ turn n, y, [1], run_append _ hrun hturn, hy⟩

end

/-- One accepted connection is an instance of the theorem. -/
theorem names_apart_turn : ∃ x, Run (system sample "EchoServer" "255.255.255.255:65535") start
      (turn 0) x ∧
    (Throughout (system sample "EchoServer" "255.255.255.255:65535") (Apart sample) start (turn 0) ↔
      Guarded (system sample "EchoServer" "255.255.255.255:65535") (Fits "255.255.255.255:65535")
        start (turn 0)) := by
  have h : (replay (system sample "EchoServer" "255.255.255.255:65535") start (turn 0)).any
      (fun _ => true) = true := by
    decide +kernel
  obtain ⟨x, hrun, _⟩ := exists_run_of_replay _ h
  exact ⟨x, hrun, names_apart (by decide) (init_start _ _) hrun⟩

/-- With an address of 21 characters the connection 100000000 has the name of the
connection 10000000. -/
theorem names_collide : ∃ es x, Run (system sample "EchoServer" "255.255.255.255:65535") start es x ∧
    x.nextConnId = 100000001 ∧ ¬x.names.Nodup := by
  obtain ⟨es, x, active, hrun, hx⟩ :=
    exists_accepted "EchoServer" "255.255.255.255:65535" 100000000 (by decide)
  refine ⟨es, x, hrun, hx.nextConnId, fun hnodup => ?_⟩
  have hlen : "255.255.255.255:65535".length ≤ 21 := by decide
  have hsame : connName "EchoServer" "255.255.255.255:65535" 10000000 =
      connName "EchoServer" "255.255.255.255:65535" 100000000 :=
    (connName_eq_iff hlen).mpr
      (Numeral.take_toDigits_div (n := 100000000) (d := 8) (by decide) (by decide))
  rw [hx.names] at hnodup
  have heq := List.inj_on_of_nodup_map hnodup (List.mem_range'_1.mpr (by decide))
    (List.mem_range'_1.mpr (by decide)) hsame
  exact absurd heq (by decide)

end ConnectionNames
end Muduo
