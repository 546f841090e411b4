import Muduo.ClientSteps

/-!
# Clients that are destroyed

`~TcpClient` leaves the channel of an established connection in the poller, and counts on
somebody else's `TcpConnectionPtr` until the connection is closed. As long as there is one,
every channel in `channels_` belongs to an object that is alive, and no descriptor of a new
channel is found there.
-/
namespace Muduo
open StepSystem
open Connector (kMaxRetryDelayMs)

namespace TcpClient
open EPollPoller (SameBut Apart)
open TcpConnection (Stands Reaches SameObject)

/-- Every channel in the poller is alive, and a new one finds its descriptor absent. -/
structure Intact (w : World) : Prop where
  live : ∀ fd x, w.loop.poller.channels fd = some x → Live w x
  absent : ∀ e, enabled w e → step w e ≠ .error .epollUpdateAbsent

/-- The connection `c` has been established, and not closed. -/
def Established (w : World) (c : ConnId) : Prop :=
  (w.conns c).any (fun conn => conn.state ≠ .kDisconnected) = true

instance (w : World) (c : ConnId) : Decidable (Established w c) :=
  inferInstanceAs (Decidable (_ = true))

/-- No step takes the last pointer to a connection that is established: not the destruction of
its client, not a `TcpConnectionPtr` that the user drops, nor the end of a handler, of
`newConnection` or of a batch of functors. -/
def KeepsPointer (w : World) : Event → Prop
  | .destroy k => ∀ client ∈ w.clients k, ∀ c ∈ client.connection, Established w c →
    { w with clients := Function.update w.clients k none }.Held c
  | .drop c => Established w c → { w with kept := w.kept.erase c }.Held c
  | .endEvent => ∀ c ∈ w.tests.map Prod.fst, Established w c → { w with tests := none }.Held c
  | .due _ => ∀ due ∈ w.due, due = .newConnection due.conn → Established w due.conn →
    { w with due := none }.Held due.conn
  | .endFunctors => ∀ f ∈ w.ran, Established w f.conn → { w with ran := [] }.Held f.conn
  | .poll _ | .visit _ | .test _ _ | .userReturn | .timer _ _ | .deleteTimer | .endHandling | .swap
  | .execute | .resetChannel | .newClient _ _ | .connect _ _ | .disconnect _ | .stop _
  | .enableRetry _ | .userCall _ _ | .keep _ => True

instance decidableKeepsPointer (w : World) : (e : Event) → Decidable (KeepsPointer w e)
  | .destroy k => inferInstanceAs (Decidable (∀ client ∈ w.clients k, ∀ c ∈ client.connection, _))
  | .drop _ => inferInstanceAs (Decidable (_ → _))
  | .endEvent => inferInstanceAs (Decidable (∀ c ∈ w.tests.map Prod.fst, _))
  | .due _ => inferInstanceAs (Decidable (∀ due ∈ w.due, _))
  | .endFunctors => inferInstanceAs (Decidable (∀ f ∈ w.ran, _))
  | .poll _ | .visit _ | .test _ _ | .userReturn | .timer _ _ | .deleteTimer | .endHandling | .swap
  | .execute | .resetChannel | .newClient _ _ | .connect _ _ | .disconnect _ | .stop _
  | .enableRetry _ | .userCall _ _ | .keep _ => inferInstanceAs (Decidable True)

variable {hand : Option ℕ} {w w' : World} {k : ClientId} {c : ConnId} {conn : TcpConnection}
  {connector : Connector} {ch : Channel}

/-! ### The end of objects -/

/-- Whoever is to remove the channel of a closed connection holds a pointer. -/
theorem Leaving.held (h : Leaving w c) : w.Held c := by
  unfold World.Held
  obtain hc | hr | hq := h
  · simp [hc, Due.conn]
  · simp [hr, Due.conn]
  · refine .inr (.inr (.inl ⟨.connectDestroyed c, ?_, rfl⟩))
    rw [List.mem_append] at hq
    simp only [World.functors, List.mem_append]
    obtain hq | hq := hq
    · exact .inl (.inr hq)
    · exact .inr hq

theorem established_iff :
    Established w c ↔ ∃ conn, w.conns c = some conn ∧ conn.state ≠ .kDisconnected := by
  unfold Established
  cases w.conns c with
  | none => simp
  | some conn => simp

theorem Inv.destroyed (h : Inv none w) (hconn : w.conns c = some conn)
    (hst : Stands .destroyed w.loop conn) :
    Inv (some conn.channel.fd) { w with conns := Function.update w.conns c none } := by
  have hinv : ConnInv w c conn := h.conns c conn hconn
  have hothers : ∀ d connD, Function.update w.conns c none d = some connD →
      d ≠ c ∧ w.conns d = some connD := by
    intro d connD hd
    by_cases hdc : d = c
    · simp [hdc] at hd
    · exact ⟨hdc, by simpa [hdc] using hd⟩
  exact {
    tracks := h.tracks
    taken := by
      intro fd hfd
      obtain rfl : conn.channel.fd = fd := by simpa using hfd
      obtain ⟨-, hchannels, hinterest⟩ := EPollPoller.View.mk.inj hst.view
      refine ⟨?_, hchannels, hinterest⟩
      intro d connD hd hfd
      obtain ⟨hdc, hd⟩ := hothers d connD hd
      have hx := (h.conns d connD hd).fds
      rw [hfd, hinv.fds] at hx
      exact hdc (Option.some.inj hx).symm
    fds := by
      intro fd x hne hx
      obtain ⟨connX, hX, hf⟩ | ⟨k, con, ch, hk, hs, hch, hid, hf⟩ | ho := h.fds fd x (by simp) hx
      · have hxc : x ≠ c := by
          rintro rfl
          obtain rfl : conn = connX := Option.some.inj (hconn.symm.trans hX)
          exact hne (by simp [hf])
        exact .connection connX (by simp [hxc, hX]) hf
      · exact .connector k con ch hk hs hch hid hf
      · exact .other ho
    conns := by
      intro d connD hd
      obtain ⟨-, hd⟩ := hothers d connD hd
      exact (h.conns d connD hd).transport rfl rfl rfl rfl id
    connecting := by
      intro k con hk hs
      obtain ⟨ch, hch, hconnecting⟩ := h.connecting k con hk hs
      exact ⟨ch, hch, hconnecting.transport rfl rfl rfl rfl⟩
    clients := h.clients
    orphan := h.orphan
    fresh := h.fresh
    resets := h.resets
    nodup := h.nodup
    batch := h.batch }

/-- With its last pointer goes a connection that has been removed. -/
theorem inv_release (h : Inv none w) (hkeep : Established w c → w.Held c) :
    Inv none (w.release c) := by
  unfold World.release
  split
  · exact h
  · rename_i hnot
    unfold World.destroy
    split
    · rename_i conn hconn
      obtain ⟨p, hst, rfl | ⟨-, hl⟩ | rfl⟩ := (h.conns c conn hconn).stands
      · have hs : conn.state ≠ .kDisconnected := by
          obtain hs | hs := hst.holds.1
          · simp [hs]
          · simp [hs]
        exact absurd (hkeep (established_iff.mpr ⟨conn, hconn, hs⟩)) hnot
      · exact absurd hl.held hnot
      · exact (h.destroyed hconn hst).close (.inl rfl)
    · exact h

/-- No pointer depends on the connection. -/
theorem held_release (c d : ConnId) : (w.release c).Held d ↔ w.Held d := by
  unfold World.release World.destroy
  split
  · rfl
  · split
    · rfl
    · rfl

theorem conns_release_of_ne {d : ConnId} (hd : d ≠ c) : (w.release c).conns d = w.conns d := by
  unfold World.release World.destroy
  split
  · rfl
  · split
    · simp [World.close, hd]
    · rfl

theorem conns_release (h : ¬w.Held c) : (w.release c).conns c = none := by
  unfold World.release World.destroy
  rw [if_neg h]
  split
  · simp [World.close]
  · assumption

theorem channels_release : (w.release c).loop.poller.channels = w.loop.poller.channels := by
  unfold World.release World.destroy
  split
  · rfl
  · split
    · rfl
    · rfl

theorem made_release : (w.release c).made = w.made := by
  unfold World.release World.destroy
  split
  · rfl
  · split
    · rfl
    · rfl

theorem Established.of_release {d : ConnId} (h : Established (w.release c) d) :
    Established w d := by
  by_cases hd : d = c
  · subst hd
    by_cases hheld : w.Held d
    · unfold World.release at h
      rwa [if_pos hheld] at h
    · simp [Established, conns_release hheld] at h
  · simpa [Established, conns_release_of_ne hd] using h

theorem inv_releases (fs : List PendingFunctor) (h : Inv none w)
    (hkeep : ∀ f ∈ fs, Established w f.conn → w.Held f.conn) :
    Inv none (fs.foldl (fun w f => w.release f.conn) w) := by
  induction fs generalizing w with
  | nil => exact h
  | cons f fs ih =>
    apply ih (inv_release h (hkeep f List.mem_cons_self))
    intro g hg hestablished
    rw [held_release]
    exact hkeep g (List.mem_cons_of_mem f hg) hestablished.of_release

theorem inv_releaseConnector (h : Inv none w) (k : ClientId) :
    Avoids .epollUpdateAbsent (w.releaseConnector k) (Inv none) := by
  unfold World.releaseConnector
  split
  · exact avoids_ok h
  · rename_i hnot
    apply (connector_avoids (by simp) w k).bind
    intro connector hk
    apply (avoids_assert (by simp)).bind
    intro _ hchannel
    apply avoids_ok
    have hothers : ∀ j con, Function.update w.connectors k none j = some con →
        w.connectors j = some con := by
      intro j con hj
      by_cases hjk : j = k
      · simp [hjk] at hj
      · simpa [hjk] using hj
    exact {
      tracks := h.tracks
      taken := h.taken
      fds := by
        intro fd x hfd hx
        obtain ⟨conn, hc, hf⟩ | ⟨j, con, ch, hj, hs, hch, hid, hf⟩ | ho := h.fds fd x hfd hx
        · exact .connection conn hc hf
        · have hjk : j ≠ k := by
            rintro rfl
            obtain rfl : connector = con := Option.some.inj (hk.symm.trans hj)
            rw [hchannel] at hch
            cases hch
          exact .connector j con ch (by simp [hjk, hj]) hs hch hid hf
        · exact .other ho
      conns := fun c conn hc => (h.conns c conn hc).transport rfl rfl rfl rfl id
      connecting := by
        intro j con hj hs
        obtain ⟨ch, hch, hconnecting⟩ := h.connecting j con (hothers j con hj) hs
        exact ⟨ch, hch, hconnecting.transport rfl rfl rfl rfl⟩
      clients := fun j client con hj hcon hne => h.clients j client con hj (hothers j con hcon) hne
      orphan := fun j con hj hcon => h.orphan j con hj (hothers j con hcon)
      fresh := by
        intro j hj
        by_cases hjk : j = k
        · simp [hjk]
        · simpa [hjk] using h.fresh j hj
      resets := by
        intro j hj
        obtain ⟨hlt, hcon⟩ := h.resets j hj
        exact ⟨hlt, fun con hc => hcon con (hothers j con hc)⟩
      nodup := h.nodup
      batch := h.batch }

/-- A client goes whose connector will not connect again. -/
theorem Inv.dropClient (h : Inv hand w)
    (horphan : ∀ connector, w.connectors k = some connector → connector.state = .kConnected ∨
      connector.state = .kDisconnected ∧ connector.connect = false) :
    Inv hand { w with clients := Function.update w.clients k none } := by
  refine h.relabel rfl ?_ ?_ (fun _ hk => hk) h.nodup (fun _ hl => hl) h.batch
  · intro j client con hj hcon hne
    by_cases hjk : j = k
    · simp [hjk] at hj
    · exact h.clients j client con (by simpa [hjk] using hj) hcon hne
  · intro j con hj hcon
    by_cases hjk : j = k
    · exact horphan con (hjk ▸ hcon)
    · exact h.orphan j con (by simpa [hjk] using hj) hcon

theorem inv_destroyClient (h : Inv none w) (hg : KeepsPointer w (.destroy k)) :
    Avoids .epollUpdateAbsent (w.destroyClient k) (Inv none) := by
  unfold World.destroyClient
  apply (client_avoids (by simp) w k).bind
  intro client hclient
  split
  · rename_i c hc
    have hdrop : Inv none { w with clients := Function.update w.clients k none } := by
      apply h.dropClient
      intro connector hk
      exact .inl (h.clients k client connector hclient hk (by simp [hc]))
    have hinv : Inv none { w with
        closeCallbacks := Function.update w.closeCallbacks c .detail
        clients := Function.update w.clients k none } :=
      hdrop.same rfl (fun _ hl => hl) hdrop.batch
    exact inv_releaseConnector (inv_release hinv (hg client hclient c hc)) k
  · apply (inv_stop h k).bind
    rintro w' ⟨hw', -, hstopped⟩
    have hdrop : Inv none { w' with clients := Function.update w'.clients k none } := by
      apply hw'.dropClient
      intro connector hk
      obtain ⟨hconnect, hs⟩ := hstopped connector hk
      exact hs.imp_right fun hs => ⟨hs, hconnect⟩
    have hinv : Inv none { w' with
        timers := w'.timers ++ [Timer.removeConnector k]
        clients := Function.update w'.clients k none } :=
      hdrop.same rfl (fun _ hl => hl) hdrop.batch
    exact inv_releaseConnector hinv k

theorem inv_resetChannel {rest : List ClientId} (h : Inv none w) (hresets : w.resets = k :: rest) :
    Avoids .epollUpdateAbsent (w.resetChannel k rest) (Inv none) := by
  have hnodup := h.nodup
  rw [hresets, List.nodup_cons] at hnodup
  unfold World.resetChannel
  apply (connector_avoids (by simp) w k).bind
  intro connector hk
  have hs : connector.state ≠ .kConnecting :=
    ((h.resets k (by simp [hresets])).2 connector hk).1
  -- the functor is taken from its queue before the channel goes
  have htaken : Inv none { w with resets := rest } :=
    h.relabel rfl h.clients h.orphan (fun j hj => by simp [hresets, hj]) hnodup.2 (fun _ hl => hl)
      h.batch
  apply avoids_ok
  refine htaken.setConnector hk ?_ ?_ ?_ (.inr hnodup.1)
  · intro hc
    obtain hc | hc := hc
    · exact absurd hc hs
    · exact absurd hc hs
  · intro client hclient hne
    exact h.clients k client connector hclient hk hne
  · intro hnone
    exact h.orphan k connector hnone hk

theorem inv_runTimer (h : Inv none w) {a : Attempt} (ha : Unused w a) (t : Timer) :
    Avoids .epollUpdateAbsent (w.runTimer t a) (Inv none) := by
  have hinv : Inv none { w with timers := w.timers.erase t, expired := w.expired ++ [t] } :=
    h.same rfl (fun _ hl => hl) h.batch
  unfold World.runTimer
  dsimp only
  split
  · exact (inv_startInLoop hinv ha _).mono fun w' hw' => hw'.1
  · exact avoids_ok hinv

theorem inv_poll (h : Inv none w) (hposition : w.loop.position = .poll)
    (active : List (ChannelId × Events)) :
    Avoids .epollUpdateAbsent (w.poll active) (Inv none) := by
  unfold World.poll
  apply (EPollPoller.poll_avoids (by simp) (by simp) (by simp) w.loop.poller w.fd active).bind
  rintro ⟨activeChannels, poller⟩ ⟨-, hchannels, hindex, hinterest, -⟩
  dsimp only at hchannels hindex hinterest
  apply avoids_ok
  apply h.same
  · simp only [objects, places, EventLoop.pollReturn, hchannels, hindex, hinterest]
  · exact fun _ hl => hl
  · exact fun _ => h.batch (by simp [hposition])

theorem inv_visit {s : Connected} (h : Inv none w) (hid : w.made s.id = none)
    (hdue : w.due = none) (x : ChannelId) (rest : List ChannelId) :
    Avoids .epollUpdateAbsent (w.visit x rest s) (Inv none) := by
  have hinv : Inv none { w with loop := w.loop.visit x rest } :=
    h.same rfl (fun _ hl => hl) h.batch
  unfold World.visit
  dsimp only
  split
  · apply (conn_avoids (by simp) _ x).bind
    intro _ _
    exact avoids_ok (hinv.same rfl (fun _ hl => hl) hinv.batch)
  · exact inv_handleConnector hinv hid hdue _ x
  · apply avoids_ok
    split
    · exact hinv.same rfl (fun _ hl => hl) hinv.batch
    · refine hinv.same rfl (fun c hl => ?_) hinv.batch
      obtain hl | hl | hl := hl
      · rw [hdue] at hl
        cases hl
      · rw [hdue] at hl
        cases hl
      · exact .inr (.inr hl)
  · exact avoids_error (by simp)

theorem inv_execute {f : PendingFunctor} {rest : List PendingFunctor} (h : Inv none w)
    (hdue : w.due = none) (hposition : w.loop.position = .functors)
    (hbatch : w.loop.batch = f :: rest) :
    Avoids .epollUpdateAbsent
      ({ w with loop := w.loop.take rest, ran := w.ran ++ [f] }.runFunctor f) (Inv none) := by
  -- a functor that removes no channel is of no concern to a closed connection
  have htake : (∀ c, f ≠ .connectDestroyed c) →
      ∀ w', objects w' = objects w → w'.loop = w.loop.take rest → Inv none w' := by
    intro hf w' ho hloop
    apply h.same ho
    · intro c hl
      obtain hl | hl | hl := hl
      · rw [hdue] at hl
        cases hl
      · rw [hdue] at hl
        cases hl
      · rw [hbatch, List.cons_append, List.mem_cons] at hl
        obtain hl | hl := hl
        · exact absurd hl.symm (hf c)
        · unfold Leaving
          rw [hloop]
          exact .inr (.inr hl)
    · intro hne
      rw [hloop] at hne
      exact absurd hposition hne
  cases f with
  | connectDestroyed c => exact inv_connectDestroyed h hdue hposition hbatch
  | writeCompleteCallback c => exact avoids_ok (htake (by simp) _ rfl rfl)
  | highWaterMarkCallback c len => exact avoids_ok (htake (by simp) _ rfl rfl)
  | connectEstablished c => exact avoids_ok (htake (by simp) _ rfl rfl)
  | sendInLoop c message => exact avoids_ok (htake (by simp) _ rfl rfl)
  | shutdownInLoop c => exact avoids_ok (htake (by simp) _ rfl rfl)
  | removeConnectionInLoop c => exact avoids_ok (htake (by simp) _ rfl rfl)

theorem inv_due (h : Inv none w) {a : Attempt} (ha : Unused w a) {due : Due}
    (hdue : w.due = some due) (hg : KeepsPointer w (.due a)) :
    Avoids .epollUpdateAbsent ({ w with due := none }.runDue a due) (Inv none) := by
  cases due with
  | closeCallback c =>
    apply (inv_closeCallback h hdue ha).bind
    rintro w' ⟨hw', hqueued⟩
    apply avoids_ok
    apply inv_release hw'
    intro _
    exact Leaving.held (.inr (.inr (List.mem_append_right _ hqueued)))
  | removeChannel c => exact inv_removeChannel h hdue
  | newConnection c =>
    apply avoids_ok
    have hinv : Inv none { w with due := none } := by
      refine h.same rfl (fun d hl => ?_) h.batch
      obtain hl | hl | hl := hl
      · rw [hdue] at hl
        cases hl
      · rw [hdue] at hl
        cases hl
      · exact .inr (.inr hl)
    exact inv_release hinv (hg _ hdue rfl)

/-- A step that takes no last pointer keeps the invariant. -/
theorem inv_step {e : Event} (h : Inv none w) (hg : KeepsPointer w e) (he : enabled w e) :
    Avoids .epollUpdateAbsent (step w e) (Inv none) := by
  cases e with
  | poll active => exact inv_poll h he.2.1 active
  | visit s =>
    simp only [step]
    split
    · exact avoids_ok h
    · exact inv_visit h he.2.2.2 he.1.2.1 _ _
  | test r wr =>
    simp only [step]
    split
    · have hinv : Inv none { w with tests := w.tests.map fun t => (t.1, t.2.bind Test.next) } :=
        h.same rfl (fun _ hl => hl) h.batch
      rename_i c t htests
      rw [htests] at hinv
      exact inv_runTest hinv he.2.1 c t r wr
    · exact avoids_ok h
    · exact avoids_ok h
  | endEvent =>
    simp only [step]
    split
    · rename_i c t htests
      apply avoids_ok
      have hinv : Inv none { w with tests := none } := h.same rfl (fun _ hl => hl) h.batch
      exact inv_release hinv (hg c (by simp [htests]))
    · exact avoids_ok h
  | userReturn => exact avoids_ok (h.same rfl (fun _ hl => hl) h.batch)
  | due a =>
    simp only [step]
    split
    · rename_i due hdue
      exact inv_due h he.2.2 hdue hg
    · exact avoids_ok h
  | timer t a => exact inv_runTimer h he.2.2.2 t
  | deleteTimer =>
    simp only [step]
    split
    · rename_i t expired _
      have hinv : Inv none { w with expired } := h.same rfl (fun _ hl => hl) h.batch
      exact inv_releaseConnector hinv t.connector
    · exact avoids_ok h
  | endHandling =>
    apply avoids_ok
    exact h.same rfl (fun _ hl => hl) fun _ => h.batch (by simp [he.2.1])
  | swap =>
    apply avoids_ok
    refine h.same rfl ?_ ?_
    · intro c hl
      have hbatch : w.loop.batch = [] := h.batch (by simp [he.2])
      obtain hl | hl | hl := hl
      · exact .inl hl
      · exact .inr (.inl hl)
      · rw [hbatch, List.nil_append] at hl
        exact .inr (.inr (by simpa [EventLoop.swap] using hl))
    · intro hne
      exact absurd rfl hne
  | execute =>
    simp only [step]
    split
    · rename_i f rest hbatch
      exact inv_execute h he.1.2.1 he.2.1 hbatch
    · exact avoids_ok h
  | resetChannel =>
    simp only [step]
    split
    · rename_i k rest hresets
      exact inv_resetChannel h hresets
    · exact avoids_ok h
  | endFunctors =>
    apply avoids_ok
    have hinv : Inv none { w with loop := w.loop.endFunctors, ran := [] } :=
      h.same rfl (fun _ hl => hl) fun _ => he.2.2
    exact inv_releases w.ran hinv hg
  | newClient name writeCompleteCallback =>
    exact avoids_ok (inv_newClient h name writeCompleteCallback)
  | connect k a => exact inv_connect h he.2.2 k
  | disconnect k => exact inv_disconnect h k
  | stop k => exact inv_stopClient h k
  | enableRetry k => exact inv_enableRetry h k
  | destroy k => exact inv_destroyClient h hg
  | userCall c u => exact inv_userCall h c u
  | keep c => exact avoids_ok (h.same rfl (fun _ hl => hl) h.batch)
  | drop c =>
    apply avoids_ok
    have hinv : Inv none { w with kept := w.kept.erase c } := h.same rfl (fun _ hl => hl) h.batch
    exact inv_release hinv hg

/-! ### A last pointer that is taken -/

/-- An established connection that is gone has left its channel behind. -/
theorem Inv.not_intact (h : Inv none w) (hestablished : Established w c)
    (hchannels : w'.loop.poller.channels = w.loop.poller.channels) (hmade : w'.made = w.made)
    (hgone : w'.conns c = none) : ¬Intact w' := by
  intro hintact
  obtain ⟨conn, hconn, hs⟩ := established_iff.mp hestablished
  have hinv : ConnInv w c conn := h.conns c conn hconn
  obtain hup | ⟨hdown, -⟩ := hinv.up_or_down
  · have hch : w.loop.poller.channels conn.channel.fd = some conn.channel.id :=
      congrArg EPollPoller.View.channels hup.view
    have hlive := hintact.live conn.channel.fd c (by rw [hchannels, hch, hinv.channel])
    simp [Live, hmade, hinv.made, hgone] at hlive
  · exact hs hdown

theorem channels_releases (fs : List PendingFunctor) (w : World) :
    (fs.foldl (fun w f => w.release f.conn) w).loop.poller.channels = w.loop.poller.channels ∧
      (fs.foldl (fun w f => w.release f.conn) w).made = w.made := by
  induction fs generalizing w with
  | nil => exact ⟨rfl, rfl⟩
  | cons f fs ih =>
    obtain ⟨hchannels, hmade⟩ := ih (w.release f.conn)
    exact ⟨hchannels.trans channels_release, hmade.trans made_release⟩

theorem conns_release_of_none {d : ConnId} (h : w.conns c = none) :
    (w.release d).conns c = none := by
  by_cases hc : c = d
  · subst hc
    by_cases hheld : w.Held c
    · unfold World.release
      rwa [if_pos hheld]
    · exact conns_release hheld
  · rw [conns_release_of_ne hc, h]

theorem conns_releases_of_none (fs : List PendingFunctor) (h : w.conns c = none) :
    (fs.foldl (fun w f => w.release f.conn) w).conns c = none := by
  induction fs generalizing w with
  | nil => exact h
  | cons f fs ih => exact ih (conns_release_of_none h)

theorem conns_releases (fs : List PendingFunctor) {f : PendingFunctor} (hf : f ∈ fs)
    (h : ¬w.Held f.conn) : (fs.foldl (fun w f => w.release f.conn) w).conns f.conn = none := by
  induction fs generalizing w with
  | nil => cases hf
  | cons g fs ih =>
    obtain rfl | hf := List.mem_cons.mp hf
    · exact conns_releases_of_none fs (conns_release h)
    · apply ih hf
      rwa [held_release]

theorem releaseConnector_avoids (w : World) (k : ClientId) :
    Avoids .epollUpdateAbsent (w.releaseConnector k) fun w' =>
      w'.loop = w.loop ∧ w'.made = w.made ∧ w'.conns = w.conns := by
  unfold World.releaseConnector
  split
  · exact avoids_ok ⟨rfl, rfl, rfl⟩
  · apply (connector_avoids (by simp) w k).bind
    intro connector _
    apply (avoids_assert (by simp)).bind
    intro _ _
    exact avoids_ok ⟨rfl, rfl, rfl⟩

/-- A step that takes a last pointer leaves a dead channel in the poller. -/
theorem Inv.breaks {e : Event} (h : Inv none w) (hg : ¬KeepsPointer w e)
    (hstep : step w e = .ok w') : ¬Intact w' := by
  cases e with
  | destroy k =>
    simp only [KeepsPointer, Classical.not_forall] at hg
    obtain ⟨client, hclient, c, hc, hestablished, hnot⟩ := hg
    rw [Option.mem_def] at hclient hc
    simp only [step, World.destroyClient, World.client, hclient, ok_bind, hc] at hstep
    obtain ⟨hloop, hmade, hconns⟩ := (releaseConnector_avoids _ k).2 _ hstep
    apply h.not_intact hestablished
    · rw [hloop, channels_release]
    · rw [hmade, made_release]
    · rw [hconns]
      exact conns_release hnot
  | drop c =>
    simp only [KeepsPointer, Classical.not_imp] at hg
    obtain rfl := Except.ok.inj hstep
    exact h.not_intact hg.1 channels_release made_release (conns_release hg.2)
  | endEvent =>
    simp only [KeepsPointer, Classical.not_forall] at hg
    obtain ⟨c, hc, hestablished, hnot⟩ := hg
    simp only [step] at hstep
    split at hstep
    · rename_i d t htests
      obtain rfl : d = c := by simpa [htests] using hc
      obtain rfl := Except.ok.inj hstep
      exact h.not_intact hestablished channels_release made_release (conns_release hnot)
    · rename_i htests
      simp [htests] at hc
  | due a =>
    simp only [KeepsPointer, Classical.not_forall] at hg
    obtain ⟨due, hdue, hnew, hestablished, hnot⟩ := hg
    rw [Option.mem_def] at hdue
    simp only [step, hdue] at hstep
    rw [hnew] at hstep
    obtain rfl := Except.ok.inj hstep
    exact h.not_intact hestablished channels_release made_release (conns_release hnot)
  | endFunctors =>
    simp only [KeepsPointer, Classical.not_forall] at hg
    obtain ⟨f, hf, hestablished, hnot⟩ := hg
    obtain rfl := Except.ok.inj hstep
    obtain ⟨hchannels, hmade⟩ := channels_releases w.ran
      { w with loop := w.loop.endFunctors, ran := [] }
    exact h.not_intact hestablished hchannels hmade (conns_releases w.ran hf hnot)
  | poll | visit | test | userReturn | timer | deleteTimer | endHandling | swap | execute
  | resetChannel | newClient | connect | disconnect | stop | enableRetry | userCall | keep =>
    exact absurd trivial hg

/-- Nor does such a step fail where a new channel does. -/
theorem step_avoids {e : Event} (h : Inv none w) (he : enabled w e) :
    step w e ≠ .error .epollUpdateAbsent := by
  by_cases hg : KeepsPointer w e
  · exact (inv_step h hg he).1
  · cases e with
    | destroy k =>
      simp only [KeepsPointer, Classical.not_forall] at hg
      obtain ⟨client, hclient, c, hc, -⟩ := hg
      rw [Option.mem_def] at hclient hc
      simp only [step, World.destroyClient, World.client, hclient, ok_bind, hc]
      exact (releaseConnector_avoids _ k).1
    | drop c => simp [step]
    | endEvent =>
      simp only [step]
      split
      · simp
      · simp
    | due a =>
      simp only [KeepsPointer, Classical.not_forall] at hg
      obtain ⟨due, hdue, hnew, -⟩ := hg
      rw [Option.mem_def] at hdue
      simp only [step, hdue]
      rw [hnew]
      simp [World.runDue]
    | endFunctors => simp [step]
    | poll | visit | test | userReturn | timer | deleteTimer | endHandling | swap | execute
    | resetChannel | newClient | connect | disconnect | stop | enableRetry | userCall | keep =>
      exact absurd trivial hg

theorem exactGuard : ExactGuard system (Inv none) Intact KeepsPointer where
  init _ := inv_initial
  sound _ h := ⟨fun _ _ => h.live, fun _ he => step_avoids h he⟩
  keeps _ _ _ h hg he hstep := (inv_step h hg he).2 _ hstep
  breaks _ _ _ h hg _ hstep := h.breaks hg hstep

/-- A run leaves nothing dead in the poller exactly if no step of it takes the last pointer to an
established connection. -/
theorem intact_throughout_iff {es : List Event} (hinit : Initial w) (hrun : Run system w es w') :
    Throughout system Intact w es ↔ Guarded system KeepsPointer w es :=
  exactGuard.throughout_iff system hinit hrun

/-! ### A client that is destroyed while it is connected -/

def wakeupChannel : Channel := (Channel.new 0 0 4).set .enableReading

/-- The loop 0, with nothing but the channel of its `wakeupFd_`. -/
def sample : World where
  loop := .entered 0 (EPollPoller.new.put wakeupChannel (EPollPoller.added wakeupChannel)) 0
  clients _ := none
  connectors _ := none
  conns _ := none
  closeCallbacks _ := .detail
  made x := if x = 0 then some (.other, 4) else none
  fds fd := if fd = 4 then some 0 else none
  nextClient := 0
  timers := []
  expired := []
  resets := []
  kept := []
  ran := []
  revents _ := 0
  tests := none
  inCallback := false
  due := none

theorem sample_poller (fd : ℕ) : sample.loop.poller.channels fd = sample.fds fd ∧
    (sample.fds fd = none → sample.loop.poller.interest fd = none) := by
  by_cases hfd : fd = 4
  · subst hfd
    exact ⟨rfl, fun hnone => by cases hnone⟩
  · simp [sample, EventLoop.entered, EPollPoller.put, EPollPoller.added, EPollPoller.new,
      wakeupChannel, Channel.new, hfd]

theorem initial_sample : Initial sample where
  idle := ⟨rfl, rfl, rfl⟩
  position := rfl
  batch := rfl
  pendingFunctors := rfl
  clients _ := rfl
  connectors _ := rfl
  conns _ := rfl
  made x owner fd hx := by
    simp only [sample] at hx
    split at hx
    · cases hx
      rfl
    · cases hx
  fds fd x hx := by
    simp only [sample] at hx ⊢
    split at hx
    · rename_i hfd
      cases hx
      simp [hfd]
    · cases hx
  channels fd x hx := (sample_poller fd).1 ▸ hx
  interest fd hfd := (sample_poller fd).2 hfd
  index x hx := by
    by_cases hx0 : x = 0
    · simp [sample, hx0] at hx
    · simp [sample, EventLoop.entered, EPollPoller.put, EPollPoller.new, wakeupChannel, Channel.new,
        hx0]
  ran := rfl
  resets := rfl

/-- A kernel with nothing to say. -/
def failed : Attempt := ⟨.error, 9, 9⟩

/-- The client 0 connects on descriptor 5: the channel 1 of its connector, the connection 2. -/
def connectEvents : List Event :=
  [.newClient "first" false, .connect 0 ⟨.connecting, 5, 1⟩, .poll [(1, POLLOUT)],
    .visit ⟨false, false, "10.0.0.1:80", 2⟩, .userReturn, .due failed, .endHandling, .swap,
    .resetChannel, .endFunctors]

/-- The next client is given descriptor 5 again. -/
def reconnect : Event := .connect 1 ⟨.connecting, 5, 3⟩

/-- The user keeps a pointer to the connection until its peer has closed it, and the next client
connects on the same descriptor. -/
def keptEvents : List Event :=
  connectEvents ++ [.keep 2, .destroy 0, .poll [(2, POLLIN)], .visit ⟨false, false, "", 9⟩,
    .test (.delivers []) (.accepts 0), .test (.delivers []) (.accepts 0),
    .test (.delivers []) (.accepts 0), .userReturn, .due failed,
    .test (.delivers []) (.accepts 0), .endEvent, .endHandling, .swap, .execute, .drop 2,
    .endFunctors, .newClient "second" false, reconnect]

theorem intact_of_kept : Throughout system Intact sample keptEvents := by
  have hreplay : (replay (restrict system KeepsPointer) sample keptEvents).any (fun _ => true) =
      true := by
    decide +kernel
  obtain ⟨t, hr, -⟩ := exists_run_of_replay _ hreplay
  have hrun : Run system sample keptEvents t := run_of_restrict system hr
  exact (intact_throughout_iff initial_sample hrun).mpr (restrict_guarded system hr)

/-- The last pointer goes with the client: its channel stays in the poller, where the next client
finds it under its own descriptor. -/
theorem not_intact_of_destroy :
    let es : List Event := connectEvents ++ [.destroy 0]
    Initial sample ∧ ¬Throughout system Intact sample es ∧
      (∃ t, Run system sample es t ∧ t.loop.poller.channels 5 = some 2 ∧ ¬Live t 2) ∧
      ∃ t, Run system sample (es ++ [.newClient "second" false]) t ∧ enabled t reconnect ∧
        step t reconnect = .error .epollUpdateAbsent := by
  have hdead : (replay system sample (connectEvents ++ [.destroy 0])).any (fun t => decide
      (t.loop.poller.channels 5 = some 2 ∧ t.made 2 = some (.connection, 5) ∧
        (t.conns 2).isSome = false)) = true := by
    decide +kernel
  have hfails : (replay system sample
      (connectEvents ++ [.destroy 0, .newClient "second" false])).any (fun t => decide
        (enabled t reconnect ∧ (match step t reconnect with
          | .error a => a
          | .ok _ => .noChannel) = .epollUpdateAbsent)) = true := by
    decide +kernel
  obtain ⟨t, hr, ht⟩ := exists_run_of_replay _ hdead
  obtain ⟨hchannels, hmade, hgone⟩ := of_decide_eq_true ht
  obtain ⟨u, hru, hu⟩ := exists_run_of_replay _ hfails
  obtain ⟨he, herror⟩ := of_decide_eq_true hu
  have hlive : ¬Live t 2 := by simp [Live, hmade, hgone]
  refine ⟨initial_sample, ?_, ⟨t, hr, hchannels, hlive⟩, u, hru, he, ?_⟩
  · intro hintact
    exact hlive ((hintact _ [] t (by simp) hr).live 5 2 hchannels)
  · split at herror
    · rename_i a ha
      rw [ha, herror]
    · cases herror

end TcpClient
end Muduo
