import Muduo.ConnectionInvariant

/-!
# The life of a connection under its server

No step of a server and its loops fails an assertion, and the history of each
connection is that of an orderly life: up, messages, down, closed, erased from
the server, destroyed.
-/
namespace Muduo.TcpServer
open StepSystem

variable {s : TcpServer} {w w' : World} {l : LoopId}

/-! ### Steps of a loop thread between handlers -/

theorem Up.congr (hconns : w'.conns = w.conns) (hhistory : w'.history = w.history) {c : ConnId}
    (h : Up w l c) : Up w' l c := by
  obtain ⟨conn, n, hconn, hl, hn⟩ := h
  exact ⟨conn, n, hconns ▸ hconn, hl, hhistory ▸ hn⟩

/-- A loop whose thread has not moved. -/
theorem LoopInv.congr (h : LoopInv s w l) (hconns : w'.conns = w.conns)
    (hhistory : w'.history = w.history) (hloop : w'.loops l = w.loops l)
    (hthread : w'.threads l = w.threads l) : LoopInv s w' l where
  id := hloop ▸ h.id
  batch := hloop ▸ h.batch
  eventHandling := hloop ▸ h.eventHandling
  nodup := hloop ▸ h.nodup
  unvisited x hx := by
    rw [hloop] at hx
    rw [hthread]
    obtain ⟨hk, hu⟩ := h.unvisited x hx
    exact ⟨hk, hu.imp_right (Up.congr hconns hhistory)⟩
  tests c t ht := by
    rw [hthread] at ht
    obtain ⟨hv, hk, ⟨conn, hconn, hl⟩, hu⟩ := h.tests c t ht
    refine ⟨by rwa [hloop], by rwa [hthread], ⟨conn, hconns ▸ hconn, hl⟩, ?_⟩
    intro hn
    rw [hthread] at hn
    exact (hu hn).congr hconns hhistory

/-- The world after the thread of `l` has moved. -/
def moveThread (w : World) (l : LoopId) (loop : EventLoop PendingFunctor) (thread : Thread) :
    World :=
  { w with
    loops := Function.update w.loops l loop
    threads := Function.update w.threads l thread }

/-- A step of one loop thread that touches no connection, registers nothing and keeps
what is queued. -/
theorem Inv.moved_thread {loop : EventLoop PendingFunctor} {thread : Thread} (h : Inv s none w)
    (hindex : loop.poller.index = (w.loops l).poller.index)
    (hchannels : loop.poller.channels = (w.loops l).poller.channels)
    (hinterest : loop.poller.interest = (w.loops l).poller.interest)
    (hqueue : loop.batch ++ loop.pendingFunctors = w.queue l)
    (hdue : thread.due = (w.threads l).due)
    (hloop : LoopInv s (moveThread w l loop thread) l) : Inv s none (moveThread w l loop thread) := by
  have hother : ∀ k, k ≠ l → (moveThread w l loop thread).loops k = w.loops k ∧
      (moveThread w l loop thread).threads k = w.threads k := by
    intro k hk
    simp [moveThread, hk]
  have hself : (moveThread w l loop thread).loops l = loop ∧
      (moveThread w l loop thread).threads l = thread := by
    simp [moveThread]
  have hq : ∀ k, (moveThread w l loop thread).queue k = w.queue k := by
    intro k
    by_cases hk : k = l
    · subst hk
      rw [World.queue, hself.1, hqueue]
    · rw [World.queue, (hother k hk).1]
      rfl
  refine h.same ⟨rfl, rfl, rfl, rfl, ?_, ?_, ?_, ?_, ?_, ?_⟩ ?_
  · intro k
    by_cases hk : k = l
    · rw [hk, hself.1, hindex]
    · rw [(hother k hk).1]
  · intro k
    by_cases hk : k = l
    · rw [hk, hself.1, hchannels]
    · rw [(hother k hk).1]
  · intro k
    by_cases hk : k = l
    · rw [hk, hself.1, hinterest]
    · rw [(hother k hk).1]
  · intro k f hf
    rwa [hq] at hf
  · intro k f _
    rw [hq]
  · intro k
    by_cases hk : k = l
    · rw [hk, hself.2, hdue]
    · rw [(hother k hk).2]
  · intro k
    by_cases hk : k = l
    · exact hk ▸ hloop
    · exact (h.loop k).congr rfl rfl (hother k hk).1 (hother k hk).2

theorem loops_moveThread (loop : EventLoop PendingFunctor) (thread : Thread) :
    (moveThread w l loop thread).loops l = loop := by
  simp [moveThread]

theorem threads_moveThread (loop : EventLoop PendingFunctor) (thread : Thread) :
    (moveThread w l loop thread).threads l = thread := by
  simp [moveThread]

/-- Only the thread has moved, and its tests are those it had or none. -/
theorem Inv.moved_tests {thread : Thread} (h : Inv s none w) (hdue : thread.due = (w.threads l).due)
    (hrevents : thread.revents = (w.threads l).revents)
    (htests : ∀ c t, thread.tests = some (c, t) → Testing w l c t) :
    Inv s none (moveThread w l (w.loops l) thread) := by
  have hloop := loops_moveThread (w := w) (l := l) (w.loops l) thread
  have hthread := threads_moveThread (w := w) (l := l) (w.loops l) thread
  refine h.moved_thread rfl rfl rfl rfl hdue ?_
  exact {
    id := by rw [hloop]; exact (h.loop l).id
    batch := by rw [hloop]; exact (h.loop l).batch
    eventHandling := by rw [hloop]; exact (h.loop l).eventHandling
    nodup := by rw [hloop]; exact (h.loop l).nodup
    unvisited := by
      rw [hloop, hthread, hrevents]
      exact (h.loop l).unvisited
    tests := by
      intro c t ht
      rw [hthread] at ht
      obtain ⟨hv, hk, hon, hu⟩ := htests c t ht
      refine ⟨by rwa [hloop], by rwa [hthread, hrevents], hon, ?_⟩
      rw [hthread, hrevents]
      exact hu }

/-- Only the loop has moved, between two handlers. -/
theorem Inv.moved_loop {loop : EventLoop PendingFunctor} (h : Inv s none w)
    (htests : (w.threads l).tests = none) (hid : loop.id = (w.loops l).id)
    (hpoller : loop.poller = (w.loops l).poller)
    (hqueue : loop.batch ++ loop.pendingFunctors = w.queue l)
    (hbatch : loop.position ≠ .functors → loop.batch = [])
    (hev : loop.position = .swapping ∨ loop.position = .functors → loop.eventHandling = false)
    (hunvisited : loop.unvisited <:+ (w.loops l).unvisited) : Inv s none (w.setLoop l loop) := by
  have heq : w.setLoop l loop = moveThread w l loop (w.threads l) := by
    simp [World.setLoop, moveThread]
  have hloop := loops_moveThread (w := w) (l := l) loop (w.threads l)
  have hthread := threads_moveThread (w := w) (l := l) loop (w.threads l)
  rw [heq]
  refine h.moved_thread (by rw [hpoller]) (by rw [hpoller]) (by rw [hpoller]) hqueue rfl ?_
  exact {
    id := by rw [hloop, hid]; exact (h.loop l).id
    batch := by rw [hloop]; exact hbatch
    eventHandling := by rw [hloop]; exact hev
    nodup := by
      rw [hloop]
      exact (h.loop l).nodup.sublist hunvisited.sublist
    unvisited := by
      rw [hloop, hthread]
      intro x hx
      exact (h.loop l).unvisited x (hunvisited.subset hx)
    tests := by
      intro c t ht
      rw [hthread, htests] at ht
      cases ht }

theorem inv_userReturn (h : Inv s none w) : Yields (step s w (.userReturn l)) (Inv s none) := by
  apply yields_ok
  have hinv : Inv s none (moveThread w l (w.loops l) { w.threads l with inCallback := false }) :=
    h.moved_tests rfl rfl (h.loop l).tests
  simpa [moveThread] using hinv

theorem inv_endHandling (h : Inv s none w) (he : enabled s w (.endHandling l)) :
    Yields (step s w (.endHandling l)) (Inv s none) := by
  obtain ⟨⟨_, _, htests⟩, hpos, hunvisited⟩ := he
  have hbatch : (w.loops l).batch = [] := (h.loop l).batch (by simp [hpos])
  apply yields_ok
  exact h.moved_loop htests rfl rfl rfl (fun _ => hbatch) (fun _ => rfl) (List.suffix_refl _)

theorem inv_swap (h : Inv s none w) (he : enabled s w (.swap l)) :
    Yields (step s w (.swap l)) (Inv s none) := by
  obtain ⟨⟨_, _, htests⟩, hpos⟩ := he
  have hbatch : (w.loops l).batch = [] := (h.loop l).batch (by simp [hpos])
  have hev : (w.loops l).eventHandling = false := (h.loop l).eventHandling (.inl hpos)
  apply yields_ok
  refine h.moved_loop htests rfl rfl ?_ (fun hne => absurd rfl hne) (fun _ => hev)
    (List.suffix_refl _)
  simp [EventLoop.swap, World.queue, hbatch]

theorem inv_endFunctors (h : Inv s none w) (he : enabled s w (.endFunctors l)) :
    Yields (step s w (.endFunctors l)) (Inv s none) := by
  obtain ⟨⟨_, _, htests⟩, hpos, hbatch⟩ := he
  have hev : (w.loops l).eventHandling = false := (h.loop l).eventHandling (.inr hpos)
  apply yields_ok
  exact h.moved_loop htests rfl rfl rfl (fun _ => hbatch) (fun _ => hev) (List.suffix_refl _)

/-! ### Polling and handling -/

/-- What the loop has registered for a channel, and may report of it. -/
theorem Inv.of_mayReport {x : ChannelId} {revents : Events} (h : Inv s none w)
    (hr : MayReport s w l x revents) :
    (w.loops l).poller.channels (w.fd s x) = some x ∧ Known revents ∧
      (s.others x ≠ none ∨ Up w l x) := by
  unfold MayReport at hr
  cases hi : (w.loops l).poller.interest (w.fd s x) with
  | none => simp [hi] at hr
  | some y =>
    obtain ⟨mask, y⟩ := y
    simp only [hi] at hr
    obtain ⟨rfl, _, _, hknown⟩ := hr
    have hchannels := h.interest l _ mask y hi
    obtain ⟨hfd, hloop⟩ := h.channels l _ y hchannels
    refine ⟨hchannels, hknown, ?_⟩
    cases hconn : w.conns y with
    | none =>
      obtain ⟨k, hother⟩ := h.fds _ y hfd hconn
      exact .inl (by simp [hother])
    | some conn =>
      right
      obtain ⟨p, hat⟩ := h.conn y conn hconn
      obtain ⟨hp, hfdEq⟩ := (hat.fds _).mp hfd
      have hview := congrArg EPollPoller.View.interest (hat.view hp)
      have hl := hloop conn hconn
      rw [hfdEq] at hi
      have hint : (p.view conn.channel).interest = some (mask, y) := by
        rw [← hview, hl]
        exact hi
      obtain ⟨_, rfl⟩ := Phase.view_interest hint
      obtain ⟨n, hn⟩ := hat.history
      exact ⟨conn, n, hconn, hl, hn⟩

theorem inv_poll {active : List (ChannelId × Events)} (h : Inv s none w)
    (he : enabled s w (.poll l active)) : Yields (step s w (.poll l active)) (Inv s none) := by
  obtain ⟨⟨_, hdue, htests⟩, hpos, hreport, hnodup, hlen⟩ := he
  obtain ⟨⟨activeChannels, poller⟩, hpoll, rfl, hpoller⟩ :=
    EPollPoller.poll_eq (fun x hx => (h.of_mayReport (hreport x hx)).1) hlen
  have hbatch : (w.loops l).batch = [] := (h.loop l).batch (by simp [hpos])
  obtain ⟨n, rfl⟩ : ∃ n, poller = { (w.loops l).poller with eventsSize := n } := by
    obtain rfl | rfl := hpoller
    · exact ⟨_, rfl⟩
    · exact ⟨_, rfl⟩
  simp only [step, hpoll, ok_bind, pure_eq_ok]
  apply yields_ok
  generalize hloop : EventLoop.pollReturn _ _ = loop
  generalize hthread : Thread.mk _ _ _ _ = thread
  change Inv s none (moveThread w l loop thread)
  refine h.moved_thread (by rw [← hloop]; rfl) (by rw [← hloop]; rfl) (by rw [← hloop]; rfl)
    (by rw [← hloop]; rfl) (by rw [← hthread]) ?_
  have hl := loops_moveThread (w := w) (l := l) loop thread
  have ht := threads_moveThread (w := w) (l := l) loop thread
  exact {
    id := by
      rw [hl, ← hloop]
      exact (h.loop l).id
    batch := by
      intro _
      rw [hl, ← hloop]
      exact hbatch
    eventHandling := by
      rw [hl, ← hloop]
      rintro (hp | hp)
      · cases hp
      · cases hp
    nodup := by
      rw [hl, ← hloop]
      exact hnodup
    unvisited := by
      rw [hl, ht, ← hloop, ← hthread]
      intro x hx
      obtain ⟨revents, hlookup⟩ : ∃ revents, activeChannels.lookup x = some revents := by
        obtain ⟨y, hmem, rfl⟩ := List.mem_map.mp hx
        rw [← Option.isSome_iff_exists, List.lookup_isSome_iff]
        exact ⟨y, hmem, by simp⟩
      obtain ⟨front, back, heq, _⟩ := List.lookup_eq_some_iff.mp hlookup
      have hmem : (x, revents) ∈ activeChannels := by simp [heq]
      obtain ⟨_, hknown, hup⟩ := h.of_mayReport (hreport _ hmem)
      refine ⟨?_, hup⟩
      simp only [hlookup, Option.getD_some]
      exact hknown
    tests := by
      intro c t htest
      rw [ht, ← hthread] at htest
      rw [htests] at htest
      cases htest }

theorem setTests_eq (w : World) (l : LoopId) (tests : Option (ConnId × Test)) :
    w.setTests l tests = moveThread w l (w.loops l) { w.threads l with tests } := by
  simp [World.setTests, moveThread]

theorem enter_eq (w : World) (l : LoopId) (due : Option Due) :
    w.enter l due = moveThread w l (w.loops l) { w.threads l with inCallback := true, due } := by
  simp [World.enter, moveThread]

/-- User code is entered from the loop itself. -/
theorem Inv.enter (h : Inv s none w) (hdue : (w.threads l).due = none) :
    Inv s none (w.enter l none) := by
  rw [enter_eq]
  exact h.moved_tests hdue.symm rfl (h.loop l).tests

theorem inv_visit (h : Inv s none w) (he : enabled s w (.visit l)) :
    Yields (step s w (.visit l)) (Inv s none) := by
  obtain ⟨⟨_, hdue, htests⟩, hpos, hne⟩ := he
  have hbatch : (w.loops l).batch = [] := (h.loop l).batch (by simp [hpos])
  cases hu : (w.loops l).unvisited with
  | nil => exact absurd hu hne
  | cons x rest =>
    have hsuffix : rest <:+ (w.loops l).unvisited := hu ▸ List.suffix_cons x rest
    have hnotin : x ∉ rest := by
      have hnodup := (h.loop l).nodup
      rw [hu] at hnodup
      exact (List.nodup_cons.mp hnodup).1
    have hev : (w.loops l).position = .swapping ∨ (w.loops l).position = .functors →
        (w.loops l).eventHandling = false := (h.loop l).eventHandling
    have hvisit : Inv s none (w.setLoop l ((w.loops l).visit x rest)) :=
      h.moved_loop htests rfl rfl rfl (fun _ => hbatch) hev hsuffix
    have hself : (w.setLoop l ((w.loops l).visit x rest)).loops l = (w.loops l).visit x rest := by
      simp [World.setLoop]
    obtain ⟨hknown, hup⟩ := (h.loop l).unvisited x (hu ▸ List.mem_cons_self)
    simp only [step, hu]
    apply yields_ok
    unfold World.visit
    cases hconn : w.conns x with
    | some conn =>
      have hup : Up w l x := hup.resolve_left (not_not.mpr (h.others x conn hconn))
      obtain ⟨conn', n, hconn', hl, hn⟩ := hup
      simp only [setTests_eq]
      refine hvisit.moved_tests rfl rfl ?_
      intro c t ht
      cases ht
      exact ⟨by rw [hself]; exact hnotin, hknown, ⟨conn', hconn', hl⟩, fun _ => ⟨conn', n, hconn', hl, hn⟩⟩
    | none =>
      simp only
      split_ifs
      · exact h.moved_loop htests rfl rfl rfl (fun _ => hbatch) hev hsuffix
      · exact hvisit
      · exact hvisit.enter hdue

/-! ### The tests of `handleEventWithGuard` -/

theorem Test.needsUp_next {t t' : Test} {revents : Events} (h : t.next = some t')
    (hn : t'.NeedsUp revents) : t.NeedsUp revents := by
  cases t <;> cases h
  · trivial
  · exact hn
  · exact hn.elim

/-- Of the events that a connection knows only `POLLIN` makes it read. -/
theorem known_read {revents : Events} (h : Known revents)
    (hr : revents &&& (POLLIN ||| POLLPRI ||| POLLRDHUP) ≠ 0) : revents &&& POLLIN ≠ 0 := by
  intro hin
  have hsub : POLLPRI ||| POLLRDHUP =
      ~~~(POLLIN ||| POLLOUT ||| POLLERR ||| POLLHUP) &&& (POLLPRI ||| POLLRDHUP) := by decide
  have hrest : revents &&& (POLLPRI ||| POLLRDHUP) = 0 := by
    rw [hsub, ← BitVec.and_assoc, h]
    exact BitVec.zero_and
  apply hr
  have hdistrib : revents &&& (POLLIN ||| POLLPRI ||| POLLRDHUP) =
      revents &&& POLLIN ||| revents &&& (POLLPRI ||| POLLRDHUP) := by
    rw [BitVec.or_assoc]
    ext j
    simp only [BitVec.getElem_and, BitVec.getElem_or]
    exact Bool.and_or_distrib_left ..
  rw [hdistrib, hin, hrest]
  exact BitVec.or_zero

/-- Nothing but the running handler relies on its connection. -/
theorem Inv.not_needed {c : ConnId} {t : Test} (h : Inv s none w) (ht : Testing w l c t)
    (hl : ∀ t', (w.threads l).tests = some (c, t') → ¬t'.NeedsUp ((w.threads l).revents c))
    (k : LoopId) : ¬Needed w k c := by
  obtain ⟨conn, hconn, hconnl⟩ := ht.onLoop
  by_cases hk : k = l
  · subst hk
    rintro (hmem | ⟨t', ht', hn⟩)
    · exact ht.visited hmem
    · exact hl t' ht' hn
  · rintro (hmem | ⟨t', ht', _⟩)
    · obtain ⟨_, ho | ⟨conn', _, hconn', hk', _⟩⟩ := (h.loop k).unvisited c hmem
      · exact ho (h.others c conn hconn)
      · rw [hconn] at hconn'
        cases hconn'
        exact hk (hk'.symm.trans hconnl)
    · obtain ⟨conn', hconn', hk'⟩ := ((h.loop k).tests c t' ht').onLoop
      rw [hconn] at hconn'
      cases hconn'
      exact hk (hk'.symm.trans hconnl)

/-- One test of `handleEventWithGuard`, after the thread has been set to the next one. -/
theorem inv_runTest {c : ConnId} {t : Test} (h : Inv s none w) (ht : Testing w l c t)
    (hnext : (w.threads l).tests = t.next.map fun t => (c, t))
    (hdue : (w.threads l).due = none) (r : ReadResult) (wr : WriteResult) :
    Yields (w.runTest l c t r wr) (Inv s none) := by
  obtain ⟨conn, hconn, hl⟩ := ht.onLoop
  cases t with
  | close =>
    simp only [World.runTest]
    split_ifs with hr
    · refine inv_handleClose h (ht.up trivial) hdue (h.not_needed ht ?_)
      intro t' ht' hn
      rw [hnext] at ht'
      cases ht'
      exact hn hr.2
    · exact yields_ok h
  | error => exact yields_ok h
  | read =>
    simp only [World.runTest]
    split_ifs with hr
    · refine inv_handleRead h (ht.up (known_read ht.known hr)) hdue (h.not_needed ht ?_) r
      intro t' ht' hn
      rw [hnext] at ht'
      cases ht'
      exact hn
    · exact yields_ok h
  | write =>
    simp only [World.runTest]
    split_ifs
    · exact hl ▸ inv_handleWrite h hconn wr
    · exact yields_ok h

theorem inv_test {r : ReadResult} {wr : WriteResult} (h : Inv s none w)
    (he : enabled s w (.test l r wr)) : Yields (step s w (.test l r wr)) (Inv s none) := by
  obtain ⟨_, hdue, hne⟩ := he
  cases htests : (w.threads l).tests with
  | none => exact absurd htests hne
  | some x =>
    obtain ⟨c, t⟩ := x
    obtain ⟨hvisited, hknown, hon, hup⟩ := (h.loop l).tests c t htests
    simp only [step, htests, setTests_eq]
    generalize hthread : Thread.mk _ _ _ _ = thread
    have hl := loops_moveThread (w := w) (l := l) (w.loops l) thread
    have ht := threads_moveThread (w := w) (l := l) (w.loops l) thread
    have hinv : Inv s none (moveThread w l (w.loops l) thread) := by
      refine h.moved_tests (by rw [← hthread]) (by rw [← hthread]) ?_
      intro d t' ht'
      rw [← hthread] at ht'
      obtain ⟨t'', hnext, heq⟩ := Option.map_eq_some_iff.mp ht'
      cases heq
      exact ⟨hvisited, hknown, hon, fun hn => hup (Test.needsUp_next hnext hn)⟩
    refine inv_runTest hinv ⟨by rwa [hl], by rwa [ht, ← hthread], hon, ?_⟩ ?_ ?_ r wr
    · intro hn
      rw [ht, ← hthread] at hn
      exact hup hn
    · rw [ht, ← hthread]
    · rw [ht, ← hthread]
      exact hdue

/-! ### Callbacks and functors -/

theorem inv_due (h : Inv s none w) (he : enabled s w (.due l)) :
    Yields (step s w (.due l)) (Inv s none) := by
  obtain ⟨_, hne⟩ := he
  obtain ⟨d, hdue⟩ := Option.ne_none_iff_exists'.mp hne
  obtain ⟨c, conn, rfl, _⟩ := h.due_eq hdue
  obtain ⟨⟨conn, hconn⟩, hinv⟩ := inv_closeCallback h hdue
  simp only [step, hdue]
  exact inv_removeConnection hinv hconn l

theorem inv_execute {r : WriteResult} (h : Inv s none w) (he : enabled s w (.execute l r)) :
    Yields (step s w (.execute l r)) (Inv s none) := by
  obtain ⟨⟨_, hdue, _⟩, hpos, hne⟩ := he
  have hev : (w.loops l).eventHandling = false := (h.loop l).eventHandling (.inr hpos)
  cases hb : (w.loops l).batch with
  | nil => exact absurd hb hne
  | cons cb rest =>
    simp only [step, hb]
    generalize hw : w.setLoop l ((w.loops l).take rest) = w'
    have hdue' : (w'.threads l).due = none := by
      rw [← hw]
      exact hdue
    have hev' : (w'.loops l).eventHandling = false := by
      rw [← hw]
      simpa [World.setLoop, EventLoop.take] using hev
    have htake : ¬cb.IsCallback cb.conn →
        (∃ conn, w'.conns cb.conn = some conn) ∧ Inv s (some (l, cb)) w' := by
      intro hcb
      obtain ⟨⟨conn, hconn⟩, hinv⟩ := h.take hb hcb
      rw [hw] at hinv
      exact ⟨⟨conn, by rw [← hw]; exact hconn⟩, hinv⟩
    have hcallback : cb.IsCallback cb.conn → Yields (.ok (w'.enter l none) : Checked World)
        (Inv s none) := by
      intro hcb
      have htake := h.take_callback hb hcb
      rw [hw] at htake
      exact yields_ok (htake.enter hdue')
    have hnot : ∀ {conn p}, w'.conns cb.conn = some conn → ¬cb.IsCallback cb.conn →
        At s (some (l, cb)) w' cb.conn conn p → p.functor s conn = some (l, cb) :=
      fun _ hcb hat => hat.functor_eq rfl hcb
    cases cb with
    | connectEstablished c =>
      obtain ⟨⟨conn, hconn⟩, hinv⟩ := htake (fun hcb => hcb)
      exact inv_connectEstablished hinv hconn hdue'
    | connectDestroyed c =>
      obtain ⟨⟨conn, hconn⟩, hinv⟩ := htake (fun hcb => hcb)
      exact inv_connectDestroyed hinv hconn hev'
    | sendInLoop c message =>
      obtain ⟨⟨conn, hconn⟩, hinv⟩ := htake (fun hcb => hcb)
      obtain ⟨p, hat⟩ := hinv.conn _ conn hconn
      have hfun := hnot hconn (fun hcb => hcb) hat
      cases p <;> simp [Phase.functor] at hfun
    | shutdownInLoop c =>
      obtain ⟨⟨conn, hconn⟩, hinv⟩ := htake (fun hcb => hcb)
      obtain ⟨p, hat⟩ := hinv.conn _ conn hconn
      have hfun := hnot hconn (fun hcb => hcb) hat
      cases p <;> simp [Phase.functor] at hfun
    | writeCompleteCallback c => exact hcallback rfl
    | highWaterMarkCallback c len => exact hcallback rfl
    | removeConnectionInLoop c =>
      obtain ⟨⟨conn, hconn⟩, hinv⟩ := htake (fun hcb => hcb)
      obtain ⟨p, hat⟩ := hinv.conn _ conn hconn
      have hfun := hnot hconn (fun hcb => hcb) hat
      have hl : s.loop = l := by
        cases p <;> simp [Phase.functor] at hfun
        exact hfun.1
      subst hl
      exact inv_removeConnectionInLoop hinv hconn

/-! ### Whole runs -/

theorem onLoop_iff {c : ConnId} : OnLoop w l c ↔ ∃ conn, w.conns c = some conn ∧ conn.loop = l := by
  unfold OnLoop
  cases w.conns c with
  | none => simp
  | some conn => simp

theorem inv_initial (h : Initial s w) : Inv s none w where
  conn c conn hc := by
    rw [h.conns] at hc
    cases hc
  others c conn hc := by
    rw [h.conns] at hc
    cases hc
  fresh c _ :=
    { history := h.history c
      queued := by
        intro k f hf
        simp [World.queue, h.batch, h.pendingFunctors] at hf
      due := by
        intro k d hd
        rw [(h.threads k).2.1] at hd
        cases hd
      connections := by simp [h.connections]
      index := fun ho k => h.index k c ho }
  fds fd x hx _ := (h.fds fd x).mp hx
  channels k fd x hx := by
    refine ⟨(h.fds fd x).mpr ⟨k, h.channels k fd x hx⟩, ?_⟩
    intro conn hc
    rw [h.conns] at hc
    cases hc
  interest := h.interest
  loop k :=
    { id := h.id k
      batch := fun _ => h.batch k
      eventHandling := by simp [h.position]
      nodup := by simp [h.unvisited]
      unvisited := by simp [h.unvisited]
      tests := by simp [(h.threads k).2.2] }
  acceptor :=
    { other := h.acceptor
      ownerLoop := h.acceptorLoop
      fds := (h.fds _ _).mpr ⟨_, h.acceptor⟩
      view := h.acceptorView }

theorem totalInvariant (s : TcpServer) : TotalInvariant (system s) (Inv s none) where
  init _ h := inv_initial h
  step w e h he := by
    change Yields (step s w e) (Inv s none)
    cases e with
    | poll l active => exact inv_poll h he
    | visit l => exact inv_visit h he
    | test l r wr => exact inv_test h he
    | userCall l c u =>
      obtain ⟨conn, hconn, rfl⟩ := onLoop_iff.mp he.2
      exact inv_userCall h hconn u
    | userReturn l => exact inv_userReturn h
    | due l => exact inv_due h he
    | newConnection ioLoop connName sockfd id =>
      obtain ⟨⟨_, hdue, _⟩, hnext, _, _, hname, hfd, hid, hother⟩ := he
      exact inv_newConnection h hid hother hname hfd hnext hdue
    | endHandling l => exact inv_endHandling h he
    | swap l => exact inv_swap h he
    | execute l r => exact inv_execute h he
    | endFunctors l => exact inv_endFunctors h he

/-- The callbacks of a connection come in order, and its way out is taken once. -/
structure Lifecycle (history : List Occurrence) : Prop where
  up_once : history.count .up ≤ 1
  message_after_up : ∀ front back, history = front ++ .message :: back → .up ∈ front
  down_once : history.count .down ≤ 1
  down_after_up : ∀ front back, history = front ++ .down :: back → .up ∈ front
  closeCallback_once : history.count .closeCallback ≤ 1
  erase_one : ∀ n, .erase n ∈ history → n = 1
  destroyed_once : history.count .destroyed ≤ 1
  destroyed_after_down : ∀ front back, history = front ++ .destroyed :: back → .down ∈ front
  one_down : .destroyed ∈ history → history.count .down = 1

/-- Before a later occurrence of the life of a connection there is the first one. -/
theorem mem_front {o : Occurrence} {rest front back : List Occurrence} {x : Occurrence}
    (h : o :: rest = front ++ x :: back) (hne : x ≠ o) : o ∈ front := by
  cases front with
  | nil =>
    cases h
    exact absurd rfl hne
  | cons y front =>
    cases h
    exact List.mem_cons_self

/-- What comes last comes after all the rest. -/
theorem front_eq {o : Occurrence} {init front back : List Occurrence}
    (h : init ++ [o] = front ++ o :: back) (hinit : o ∉ init) : front = init := by
  obtain rfl | ⟨back', x, rfl⟩ := List.eq_nil_or_concat back
  · exact (List.append_inj' h rfl).1.symm
  · have hlast : init ++ [o] = front ++ o :: back' ++ [x] := by simpa using h
    have heq := (List.append_inj' hlast rfl).1
    exact absurd (by simp [heq]) hinit

theorem destroyed_mem {p : Phase} {n : ℕ} (h : Occurrence.destroyed ∈ p.history n) :
    p = .destroyed := by
  cases p <;> simp [Phase.history, List.mem_replicate] at h ⊢

theorem lifecycle_of_phase (p : Phase) (n : ℕ) : Lifecycle (p.history n) := by
  have hfirst : ∀ {x front back}, p.history n = front ++ x :: back → x ≠ .up → .up ∈ front := by
    intro x front back h hx
    cases p with
    | created => simp [Phase.history] at h
    | up | closing | closed | erased | destroyed => exact mem_front h hx
  exact {
    up_once := by cases p <;> simp [Phase.history, List.count_replicate]
    message_after_up := fun front back h => hfirst h (by simp)
    down_once := by cases p <;> simp [Phase.history, List.count_replicate]
    down_after_up := fun front back h => hfirst h (by simp)
    closeCallback_once := by cases p <;> simp [Phase.history, List.count_replicate]
    erase_one := by
      intro m hm
      cases p <;> simp [Phase.history, List.mem_replicate] at hm <;> exact hm
    destroyed_once := by cases p <;> simp [Phase.history, List.count_replicate]
    destroyed_after_down := by
      intro front back h
      obtain rfl := destroyed_mem (p := p) (n := n) (by simp [h])
      have hlast : (.up :: List.replicate n .message ++ [.down, .closeCallback, .erase 1]) ++
          [.destroyed] = front ++ .destroyed :: back := by simpa [Phase.history] using h
      rw [front_eq hlast (by simp)]
      simp
    one_down := by
      intro h
      rw [destroyed_mem h]
      simp [Phase.history, List.count_replicate] }

/-- Under a server that outlives its connections no assertion fails in any interleaving of
its loops, every connection has an orderly life, and a destroyed connection is
registered in no poller. -/
theorem lifecycle (s : TcpServer) : Safe (system s) ∧ ∀ w, Reachable (system s) w → ∀ c,
    Lifecycle (w.history c) ∧ (.destroyed ∈ w.history c → ∀ l fd,
      (w.loops l).poller.channels fd ≠ some c ∧
      ∀ mask, (w.loops l).poller.interest fd ≠ some (mask, c)) := by
  refine ⟨(totalInvariant s).safe, fun w hw c => ?_⟩
  have h : Inv s none w := ((totalInvariant s).invariant _).reachable _ hw
  cases hconn : w.conns c with
  | none =>
    have hnil : w.history c = Phase.created.history 0 := (h.fresh c hconn).history
    rw [hnil]
    exact ⟨lifecycle_of_phase .created 0, fun hmem => absurd (destroyed_mem hmem) (by simp)⟩
  | some conn =>
    obtain ⟨p, hat⟩ := h.conn c conn hconn
    obtain ⟨n, hn⟩ := hat.history
    rw [hn]
    refine ⟨lifecycle_of_phase p n, fun hmem l fd => ?_⟩
    have hclosed : w.fds fd ≠ some c := fun hfd => ((hat.fds fd).mp hfd).1 (destroyed_mem hmem)
    have hchannels : (w.loops l).poller.channels fd ≠ some c :=
      fun hc => hclosed (h.channels l fd c hc).1
    exact ⟨hchannels, fun mask hi => hchannels (h.interest l fd mask c hi)⟩

/-! ### A server with one I/O loop -/

/-- The channels of the process other than those of connections: the wakeup channel 0 and
the accept channel 1 of the loop 0, and the wakeup channel 10 of the loop 1. -/
def sampleChannels : List Channel :=
  [⟨0, 0, 3, kReadEvent⟩, ⟨1, 0, 4, kReadEvent⟩, ⟨10, 1, 10, kReadEvent⟩]

def sample : TcpServer where
  loop := 0
  ioLoops := [1]
  acceptChannel := ⟨1, 0, 4, kReadEvent⟩
  writeCompleteCallback := true
  others x := (sampleChannels.find? fun ch => ch.id = x).map fun ch => (ch.ownerLoop, ch.fd)

/-- The poller of the loop `l` with the channels of the process. -/
def samplePoller (l : LoopId) : EPollPoller where
  channels fd := (sampleChannels.find? fun ch => ch.fd = fd ∧ ch.ownerLoop = l).map Channel.id
  index x := if (sampleChannels.any fun ch => ch.id = x ∧ ch.ownerLoop = l) then kAdded else kNew
  interest fd := (sampleChannels.find? fun ch => ch.fd = fd ∧ ch.ownerLoop = l).map
    fun ch => (ch.events, ch.id)
  eventsSize := kInitEventListSize

def sampleWorld : World where
  loops l := .entered l (samplePoller l) (if l = 0 then 0 else 10)
  threads _ := ⟨fun _ => 0, none, false, none⟩
  conns _ := none
  connections _ := none
  fds fd := (sampleChannels.find? fun ch => ch.fd = fd).map Channel.id
  history _ := []

theorem sample_fds_iff {fd : ℕ} {x : ChannelId} :
    sampleWorld.fds fd = some x ↔ ∃ ch ∈ sampleChannels, ch.fd = fd ∧ ch.id = x := by
  constructor
  · intro h
    obtain ⟨ch, hch, rfl⟩ := Option.map_eq_some_iff.mp h
    exact ⟨ch, List.mem_of_find?_eq_some hch, by simpa using List.find?_some hch, rfl⟩
  · rintro ⟨ch, hmem, rfl, rfl⟩
    simp only [sampleChannels, List.mem_cons, List.not_mem_nil, or_false] at hmem
    obtain rfl | rfl | rfl := hmem <;> rfl

theorem sample_others_iff {l : LoopId} {fd : ℕ} {x : ChannelId} :
    sample.others x = some (l, fd) ↔
      ∃ ch ∈ sampleChannels, ch.id = x ∧ ch.ownerLoop = l ∧ ch.fd = fd := by
  constructor
  · intro h
    obtain ⟨ch, hch, heq⟩ := Option.map_eq_some_iff.mp h
    exact ⟨ch, List.mem_of_find?_eq_some hch, by simpa using List.find?_some hch,
      (Prod.mk.inj heq).1, (Prod.mk.inj heq).2⟩
  · rintro ⟨ch, hmem, rfl, rfl, rfl⟩
    simp only [sampleChannels, List.mem_cons, List.not_mem_nil, or_false] at hmem
    obtain rfl | rfl | rfl := hmem <;> rfl

theorem initial_sample : Initial sample sampleWorld where
  id _ := rfl
  position _ := rfl
  unvisited _ := rfl
  batch _ := rfl
  pendingFunctors _ := rfl
  threads _ := ⟨rfl, rfl, rfl⟩
  conns _ := rfl
  connections _ := rfl
  history _ := rfl
  fds fd x := by
    rw [sample_fds_iff]
    constructor
    · rintro ⟨ch, hmem, hfd, hid⟩
      exact ⟨ch.ownerLoop, sample_others_iff.mpr ⟨ch, hmem, hid, rfl, hfd⟩⟩
    · rintro ⟨l, h⟩
      obtain ⟨ch, hmem, hid, _, hfd⟩ := sample_others_iff.mp h
      exact ⟨ch, hmem, hfd, hid⟩
  channels l fd x h := by
    obtain ⟨ch, hch, hid⟩ := Option.map_eq_some_iff.mp h
    obtain ⟨hfd, hl⟩ : ch.fd = fd ∧ ch.ownerLoop = l := by simpa using List.find?_some hch
    exact sample_others_iff.mpr ⟨ch, List.mem_of_find?_eq_some hch, hid, hl, hfd⟩
  interest l fd mask x h := by
    obtain ⟨ch, hch, heq⟩ := Option.map_eq_some_iff.mp h
    exact Option.map_eq_some_iff.mpr ⟨ch, hch, (Prod.mk.inj heq).2⟩
  index l x h := by
    refine if_neg ?_
    rw [List.any_eq_true]
    rintro ⟨ch, hmem, hx⟩
    obtain ⟨hid, hl⟩ : ch.id = x ∧ ch.ownerLoop = l := by simpa using hx
    have hother := sample_others_iff.mpr ⟨ch, hmem, hid, hl, rfl⟩
    rw [h] at hother
    cases hother
  acceptor := rfl
  acceptorLoop := rfl
  acceptorView := .inl rfl

/-- A connection of the I/O loop 1 is accepted, receives and sends, and is hung up. -/
def sampleEvents : List Event :=
  [.poll 0 [(1, POLLIN)], .visit 0, .newConnection 1 "sample:1#1" 5 2, .endHandling 0, .swap 0,
    .endFunctors 0,
    .poll 1 [(10, POLLIN)], .visit 1, .endHandling 1, .swap 1, .execute 1 (.accepts 0),
    .userReturn 1, .endFunctors 1,
    .poll 1 [(2, POLLIN)], .visit 1, .test 1 (.delivers []) (.accepts 0),
    .test 1 (.delivers []) (.accepts 0), .test 1 (.delivers [1]) (.accepts 0),
    .userCall 1 2 (.send [2] (.accepts 1)), .userCall 1 2 .shutdown, .userReturn 1,
    .test 1 (.delivers []) (.accepts 0), .endHandling 1, .swap 1, .execute 1 (.accepts 0),
    .userReturn 1, .endFunctors 1,
    .poll 1 [(2, POLLHUP)], .visit 1, .test 1 (.delivers []) (.accepts 0), .userReturn 1, .due 1,
    .poll 0 [(0, POLLIN)], .visit 0, .endHandling 0, .swap 0, .execute 0 (.accepts 0),
    .test 1 (.delivers []) (.accepts 0), .test 1 (.delivers []) (.accepts 0),
    .test 1 (.delivers []) (.accepts 0), .endHandling 1, .swap 1, .execute 1 (.accepts 0)]

theorem sample_run : ∃ w, Reachable (system sample) w ∧ w.history 2 =
    [.up, .message, .down, .closeCallback, .erase 1, .destroyed] := by
  have h : (replay (system sample) sampleWorld sampleEvents).any (fun w => w.history 2 =
      [.up, .message, .down, .closeCallback, .erase 1, .destroyed]) = true := by
    decide +kernel
  obtain ⟨w, hr, hw⟩ := exists_run_of_replay _ h
  exact ⟨w, ⟨_, _, initial_sample, hr⟩, by simpa using hw⟩

/-- After its life the connection of `sampleEvents` is registered in no poller. -/
theorem sample_unregistered : ∃ w, Reachable (system sample) w ∧ Lifecycle (w.history 2) ∧
    ∀ l fd, (w.loops l).poller.channels fd ≠ some 2 := by
  obtain ⟨w, hw, hhistory⟩ := sample_run
  obtain ⟨hlife, hgone⟩ := (lifecycle sample).2 w hw 2
  exact ⟨w, hw, hlife, fun l fd => (hgone (by simp [hhistory]) l fd).1⟩

end Muduo.TcpServer
