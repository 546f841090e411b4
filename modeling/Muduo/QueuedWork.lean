import Muduo.ServerSteps

/-!
# Functors bound to a raw connection

`send` and `shutdown` queue their functors with the plain `this` of the connection. What
keeps it alive until they run is a reference that somebody else holds: the server's map, a
functor with a `TcpConnectionPtr`, whether pending or in the current batch of
`doPendingFunctors`, or the caller. The caller is a thread that is not a loop's.
-/
namespace Muduo
open StepSystem

namespace QueuedWork

/-- Where the caller stands. -/
inductive Caller
  /-- between two calls -/
  | idle
  /-- in `send`, about to queue the message -/
  | sending (message : List UInt8)
  /-- in `shutdown`, about to store `kDisconnecting` -/
  | closing
  /-- in `shutdown`, about to queue `shutdownInLoop` -/
  | queueing
  deriving DecidableEq, Repr

structure State where
  world : World
  /-- the functors of the current batch of a loop that have been started; `doPendingFunctors`
  holds them to its end -/
  started : LoopId → List PendingFunctor
  /-- the names that `nextConnId_` has given -/
  names : List String
  caller : Caller
  /-- the caller holds a `TcpConnectionPtr` -/
  holds : Bool

inductive Event
  /-- a step of a loop thread -/
  | loop (e : TcpServer.Event)
  /-- the caller is given a `TcpConnectionPtr` -/
  | acquire
  /-- `send` tests `state_` -/
  | callSend (message : List UInt8)
  | pushSend
  /-- `shutdown` tests `state_` -/
  | callShutdown
  | setDisconnecting
  | pushShutdown
  /-- the caller drops its `TcpConnectionPtr` -/
  | drop

/-- All functors that the loop `l` holds, in the order in which they were queued. -/
def State.functors (x : State) (l : LoopId) : List PendingFunctor :=
  x.started l ++ (x.world.loops l).batch ++ (x.world.loops l).pendingFunctors

section
variable (s : TcpServer) (c : ConnId)

/-- The references to `c`: of the server's map, of the functors of its loop and of the
server's, and of the caller. -/
def State.refCount (x : State) : ℕ :=
  let queued (l : LoopId) := (x.functors l).countP (fun f => f.Owns c)
  (if x.world.Mapped c then 1 else 0) +
    (match x.world.loopOf c with
      | some l => queued l + if l = s.loop then 0 else queued s.loop
      | none => 0) +
    (if x.holds then 1 else 0)

/-- `nextConnId_` gives no name twice. -/
def Fresh (x : State) : TcpServer.Event → Prop
  | .newConnection _ connName _ _ => connName ∉ x.names
  | .poll .. | .visit _ | .test .. | .userCall .. | .userReturn _ | .due _ | .endHandling _
  | .swap _ | .execute .. | .endFunctors _ => True

instance (x : State) : (e : TcpServer.Event) → Decidable (Fresh x e)
  | .newConnection _ connName _ _ => inferInstanceAs (Decidable (connName ∉ x.names))
  | .poll .. | .visit _ | .test .. | .userCall .. | .userReturn _ | .due _ | .endHandling _
  | .swap _ | .execute .. | .endFunctors _ => inferInstanceAs (Decidable True)

def Caller.isSending : Caller → Bool
  | .sending _ => true
  | .idle | .closing | .queueing => false

/-- A pointer can be had from whoever holds one. -/
def enabled (x : State) : Event → Prop
  | .loop e => TcpServer.enabled s x.world e ∧ Fresh x e
  | .acquire => x.holds = false ∧ 0 < x.refCount s c
  | .callSend _ | .callShutdown | .drop => x.holds = true ∧ x.caller = .idle
  | .pushSend => x.caller.isSending = true
  | .setDisconnecting => x.caller = .closing
  | .pushShutdown => x.caller = .queueing

instance (x : State) : (e : Event) → Decidable (enabled s c x e)
  | .loop e => inferInstanceAs (Decidable (TcpServer.enabled s x.world e ∧ Fresh x e))
  | .acquire | .callSend _ | .callShutdown | .drop => inferInstanceAs (Decidable (_ ∧ _))
  | .pushSend | .setDisconnecting | .pushShutdown => inferInstanceAs (Decidable (_ = _))

def startedBy (x : State) : TcpServer.Event → LoopId → List PendingFunctor
  | .execute l _ => match (x.world.loops l).batch with
    | f :: _ => Function.update x.started l (x.started l ++ [f])
    | [] => x.started
  | .endFunctors l => Function.update x.started l []
  | .poll .. | .visit _ | .test .. | .userCall .. | .userReturn _ | .due _ | .newConnection ..
  | .endHandling _ | .swap _ => x.started

def namesBy (x : State) : TcpServer.Event → List String
  | .newConnection _ connName _ _ => connName :: x.names
  | .poll .. | .visit _ | .test .. | .userCall .. | .userReturn _ | .due _ | .endHandling _
  | .swap _ | .execute .. | .endFunctors _ => x.names

/-- The caller, which is not the thread of the loop of `conn`, queues `f` there. -/
def push (x : State) (conn : TcpConnection) (f : PendingFunctor) : State :=
  { x with
    world := x.world.setLoop conn.loop ((x.world.loops conn.loop).queueInLoop false f)
    caller := .idle }

def step (x : State) : Event → Checked State
  | .loop e => do
    let world ← TcpServer.step s x.world e
    return { x with world, started := startedBy x e, names := namesBy x e }
  | .acquire => .ok { x with holds := true }
  | .callSend message => do
    let conn ← x.world.conn c
    return if conn.state = .kConnected then { x with caller := .sending message } else x
  | .pushSend => match x.caller with
    | .sending message => do
      let conn ← x.world.conn c
      return push x conn (.sendInLoop c message)
    | .idle | .closing | .queueing => .ok x
  | .callShutdown => do
    let conn ← x.world.conn c
    return if conn.state = .kConnected then { x with caller := .closing } else x
  | .setDisconnecting => do
    let conn ← x.world.conn c
    return { x with
      world := { x.world with
        conns := Function.update x.world.conns c (some { conn with state := .kDisconnecting }) }
      caller := .queueing }
  | .pushShutdown => do
    let conn ← x.world.conn c
    return push x conn (.shutdownInLoop c)
  | .drop => .ok { x with holds := false }

structure Initial (x : State) : Prop where
  world : TcpServer.Initial s x.world
  started : ∀ l, x.started l = []
  names : x.names = []
  caller : x.caller = .idle
  holds : x.holds = false

def system : System State Event Assertion where
  init := Initial s
  enabled := enabled s c
  step := step s c

instance (x : State) (e : Event) : Decidable ((system s c).enabled x e) :=
  inferInstanceAs (Decidable (enabled s c x e))

/-- A functor bound to the `this` of `c` is run only while `c` is referenced. -/
def RunsReferenced (x : State) : Event → Prop
  | .loop (.execute l _) => ∀ f ∈ (x.world.loops l).batch.head?, f.Raw c → 0 < x.refCount s c
  | _ => True

/-- Besides the caller, the map or one of the functors `fs` holds a reference. -/
def Kept (w : World) (fs : List PendingFunctor) : Prop := w.Mapped c ∨ ∃ f ∈ fs, f.Owns c

instance (w : World) (fs : List PendingFunctor) : Decidable (Kept c w fs) :=
  inferInstanceAs (Decidable (_ ∨ _))

/-- The caller drops its pointer only while none of its functors is to outlive the rest: of those
that are pending the map or another pending functor takes care, and of those in the current
batch also a functor of that batch. -/
def DropsInTime (x : State) : Event → Prop
  | .drop => ∀ l ∈ x.world.loopOf c,
    ((∃ f ∈ (x.world.loops l).pendingFunctors, f.Raw c) →
      Kept c x.world (x.world.loops l).pendingFunctors) ∧
    ((∃ f ∈ (x.world.loops l).batch, f.Raw c) → Kept c x.world (x.functors l))
  | .loop _ | .acquire | .callSend _ | .pushSend | .callShutdown | .setDisconnecting
  | .pushShutdown => True

instance (x : State) : (e : Event) → Decidable (DropsInTime c x e)
  | .drop => inferInstanceAs (Decidable (∀ l ∈ x.world.loopOf c, _))
  | .loop _ | .acquire | .callSend _ | .pushSend | .callShutdown | .setDisconnecting
  | .pushShutdown => inferInstanceAs (Decidable True)

instance decidableRunsReferenced (x : State) : (e : Event) → Decidable (RunsReferenced s c x e)
  | .loop (.execute l _) =>
    inferInstanceAs (Decidable (∀ f ∈ (x.world.loops l).batch.head?, _))
  | .loop (.poll ..) | .loop (.visit _) | .loop (.test ..) | .loop (.userCall ..)
  | .loop (.userReturn _) | .loop (.due _) | .loop (.newConnection ..) | .loop (.endHandling _)
  | .loop (.swap _) | .loop (.endFunctors _) | .acquire | .callSend _ | .pushSend | .callShutdown
  | .setDisconnecting | .pushShutdown | .drop => inferInstanceAs (Decidable True)

end

/-- Somebody holds a reference to `c`: the caller, the map or one of the functors `fs`. -/
def Sheltered (c : ConnId) (x : State) (fs : List PendingFunctor) : Prop :=
  x.holds = true ∨ Kept c x.world fs

/-- Every functor bound to the `this` of `c` is queued in the loop of `c`, and finds a reference
that will not have been released when it is run. -/
structure Inv (c : ConnId) (x : State) : Prop where
  distinct : x.world.Distinct
  names : ∀ d name, x.world.nameOf d = some name → name ∈ x.names
  caller : x.caller ≠ .idle → x.holds = true
  onLoop : ∀ l f, f ∈ (x.world.loops l).batch ++ (x.world.loops l).pendingFunctors → f.Raw c →
    x.world.loopOf c = some l
  pending : ∀ l, ∀ f ∈ (x.world.loops l).pendingFunctors, f.Raw c →
    Sheltered c x (x.world.loops l).pendingFunctors
  batch : ∀ l, ∀ f ∈ (x.world.loops l).batch, f.Raw c → Sheltered c x (x.functors l)

variable {s : TcpServer} {c : ConnId} {x y : State}

theorem Sheltered.mono {fs gs : List PendingFunctor} (h : Sheltered c x fs)
    (hsub : ∀ f ∈ fs, f ∈ gs) : Sheltered c x gs := by
  rcases h with hh | hm | ⟨f, hf, hown⟩
  · exact .inl hh
  · exact .inr (.inl hm)
  · exact .inr (.inr ⟨f, hsub f hf, hown⟩)

/-- Work of a loop thread leaves what is sheltered so: what the map lets go of is queued. -/
theorem Sheltered.grows {w : World} {l : LoopId} {fs gs : List PendingFunctor}
    (h : Sheltered c x fs) (hg : World.Grows x.world w) (hl : x.world.loopOf c = some l)
    (hfs : ∀ f ∈ fs, f ∈ gs) (hpending : ∀ f ∈ (w.loops l).pendingFunctors, f ∈ gs) :
    Sheltered c { x with world := w } gs := by
  rcases h with hh | hm | ⟨f, hf, hown⟩
  · exact .inl hh
  · rcases hg.mapped c hm with hm' | hd
    · exact .inr (.inl hm')
    · exact .inr (.inr ⟨_, hpending _ (hd l hl), rfl⟩)
  · exact .inr (.inr ⟨f, hfs f hf, hown⟩)

theorem Inv.grows {w : World} (h : Inv c x) (hg : World.Grows x.world w) :
    Inv c { x with world := w } := by
  have honLoop : ∀ l f, f ∈ (w.loops l).batch ++ (w.loops l).pendingFunctors → f.Raw c →
      x.world.loopOf c = some l := by
    intro l f hf hraw
    apply h.onLoop l f _ hraw
    rcases List.mem_append.mp hf with hf | hf
    · exact List.mem_append_left _ ((hg.loops l).batch ▸ hf)
    · exact List.mem_append_right _ ((hg.loops l).raw hf hraw)
  exact {
    distinct := h.distinct.congr hg.name
    names := fun d name hd => h.names d name ((hg.name d).symm.trans hd)
    caller := h.caller
    onLoop := fun l f hf hraw => (hg.loop c).trans (honLoop l f hf hraw)
    pending := by
      intro l f hf hraw
      have hl := honLoop l f (List.mem_append_right _ hf) hraw
      have hs := h.pending l f ((hg.loops l).raw hf hraw) hraw
      exact hs.grows hg hl (fun g hmem => (hg.loops l).mem hmem) (fun g hmem => hmem)
    batch := by
      intro l f hf hraw
      have hl := honLoop l f (List.mem_append_left _ hf) hraw
      have hs := h.batch l f ((hg.loops l).batch ▸ hf) hraw
      apply hs.grows hg hl
      · intro g hmem
        simp only [State.functors, (hg.loops l).batch]
        rcases List.mem_append.mp hmem with hmem | hmem
        · exact List.mem_append_left _ hmem
        · exact List.mem_append_right _ ((hg.loops l).mem hmem)
      · intro g hmem
        exact List.mem_append_right _ hmem }

/-- A change of one loop, and of what its batch has started, is judged by that loop alone. -/
theorem Inv.setLoop (h : Inv c x) (l : LoopId) (loop : EventLoop PendingFunctor)
    (done : List PendingFunctor)
    (honLoop : ∀ f ∈ loop.batch ++ loop.pendingFunctors, f.Raw c → x.world.loopOf c = some l)
    (hpending : ∀ f ∈ loop.pendingFunctors, f.Raw c → Sheltered c x loop.pendingFunctors)
    (hbatch : ∀ f ∈ loop.batch, f.Raw c →
      Sheltered c x (done ++ loop.batch ++ loop.pendingFunctors)) :
    Inv c { x with
      world := x.world.setLoop l loop
      started := Function.update x.started l done } where
  distinct := h.distinct.congr fun _ => rfl
  names := h.names
  caller := h.caller
  onLoop k f hf hraw := by
    by_cases hk : k = l
    · subst hk
      simp only [World.setLoop, Function.update_self] at hf
      exact honLoop f hf hraw
    · simp only [World.setLoop, Function.update_of_ne hk] at hf
      exact h.onLoop k f hf hraw
  pending k f hf hraw := by
    by_cases hk : k = l
    · subst hk
      simp only [World.setLoop, Function.update_self] at hf ⊢
      exact hpending f hf hraw
    · simp only [World.setLoop, Function.update_of_ne hk] at hf ⊢
      exact h.pending k f hf hraw
  batch k f hf hraw := by
    by_cases hk : k = l
    · subst hk
      simp only [State.functors, World.setLoop, Function.update_self] at hf ⊢
      exact hbatch f hf hraw
    · simp only [State.functors, World.setLoop, Function.update_of_ne hk] at hf ⊢
      exact h.batch k f hf hraw

/-- What is pending becomes the batch, with all its references. -/
theorem Inv.swap (h : Inv c x) (l : LoopId) :
    Inv c { x with world := x.world.setLoop l (x.world.loops l).swap } := by
  have hset := h.setLoop l (x.world.loops l).swap (x.started l)
    (fun f hf hraw => by
      simp only [EventLoop.swap, List.append_nil] at hf
      exact h.onLoop l f (List.mem_append_right _ hf) hraw)
    (fun f hf _ => by simp [EventLoop.swap] at hf)
    (fun f hf hraw => (h.pending l f hf hraw).mono fun g hg => by simp [EventLoop.swap, hg])
  rwa [Function.update_eq_self] at hset

/-- The batch still holds a functor that has been started. -/
theorem Inv.take (h : Inv c x) {l : LoopId} {f : PendingFunctor} {rest : List PendingFunctor}
    (hb : (x.world.loops l).batch = f :: rest) :
    Inv c { x with
      world := x.world.setLoop l ((x.world.loops l).take rest)
      started := Function.update x.started l (x.started l ++ [f]) } := by
  have hrest : ∀ g ∈ rest, g ∈ (x.world.loops l).batch := by
    intro g hg
    rw [hb]
    exact List.mem_cons_of_mem f hg
  apply h.setLoop
  · intro g hg hraw
    apply h.onLoop l g _ hraw
    rcases List.mem_append.mp hg with hg | hg
    · exact List.mem_append_left _ (hrest g hg)
    · exact List.mem_append_right _ hg
  · exact h.pending l
  · intro g hg hraw
    have hs : Sheltered c x (x.functors l) := h.batch l g (hrest g hg) hraw
    simpa [State.functors, EventLoop.take, hb] using hs

/-- The end of `doPendingFunctors` releases what the batch has held. -/
theorem Inv.endFunctors (h : Inv c x) {l : LoopId} (hb : (x.world.loops l).batch = []) :
    Inv c { x with
      world := x.world.setLoop l (x.world.loops l).endFunctors
      started := Function.update x.started l [] } := by
  apply h.setLoop
  · exact h.onLoop l
  · exact h.pending l
  · intro f hf
    simp [EventLoop.endFunctors, hb] at hf

/-- The caller queues while it holds its pointer. -/
theorem Inv.push (h : Inv c x) (hh : x.holds = true) {conn : TcpConnection} {f : PendingFunctor}
    (hconn : x.world.conns c = some conn) : Inv c (QueuedWork.push x conn f) := by
  have hl : x.world.loopOf c = some conn.loop := by simp [World.loopOf, hconn]
  have hset := h.setLoop conn.loop ((x.world.loops conn.loop).queueInLoop false f)
    (x.started conn.loop) (fun _ _ _ => hl) (fun _ _ _ => .inl hh) (fun _ _ _ => .inl hh)
  rw [Function.update_eq_self] at hset
  exact ⟨hset.distinct, hset.names, fun hne => absurd rfl hne, hset.onLoop, hset.pending, hset.batch⟩

/-- The connection at `id` is made under a name that has not been given before. -/
theorem Inv.accept (h : Inv c x) {id : ConnId} {connName : String} {conn : TcpConnection}
    {fds : ℕ → Option ChannelId} (hid : x.world.conns id = none) (hfresh : connName ∉ x.names)
    (hname : conn.name = connName) :
    Inv c { x with
      world := { x.world with
        conns := Function.update x.world.conns id (some conn)
        connections := Function.update x.world.connections connName (some id)
        fds }
      names := connName :: x.names } := by
  have hnameOf : ∀ d name,
      ((Function.update x.world.conns id (some conn) d).map TcpConnection.name = some name) →
      d = id ∧ name = connName ∨ d ≠ id ∧ x.world.nameOf d = some name := by
    intro d name hd
    by_cases hdid : d = id
    · subst hdid
      simp only [Function.update_self, Option.map_some, Option.some.injEq] at hd
      exact .inl ⟨rfl, hd.symm.trans hname⟩
    · rw [Function.update_of_ne hdid] at hd
      exact .inr ⟨hdid, hd⟩
  have hold : ∀ d name, x.world.nameOf d = some name → name ≠ connName := by
    rintro d name hd rfl
    exact hfresh (h.names d name hd)
  have hc : ∀ l, x.world.loopOf c = some l → c ≠ id := by
    rintro l hl rfl
    simp [World.loopOf, hid] at hl
  have hs : ∀ {l fs}, x.world.loopOf c = some l → Sheltered c x fs → Sheltered c { x with
      world := { x.world with
        conns := Function.update x.world.conns id (some conn)
        connections := Function.update x.world.connections connName (some id)
        fds }
      names := connName :: x.names } fs := by
    intro l fs hl hsheltered
    rcases hsheltered with hh | ⟨name, hn, hmap⟩ | hown
    · exact .inl hh
    · refine .inr (.inl ⟨name, ?_, ?_⟩)
      · simpa [World.nameOf, Function.update_of_ne (hc l hl)] using hn
      · exact (Function.update_of_ne (hold c name hn) ..).trans hmap
    · exact .inr (.inr hown)
  exact {
    distinct := by
      intro d d' name hd hd'
      rcases hnameOf d name hd with ⟨hdid, hn⟩ | ⟨-, hdold⟩
      · rcases hnameOf d' name hd' with ⟨hdid', -⟩ | ⟨-, hdold'⟩
        · rw [hdid, hdid']
        · exact absurd hn (hold d' name hdold')
      · rcases hnameOf d' name hd' with ⟨-, hn⟩ | ⟨-, hdold'⟩
        · exact absurd hn (hold d name hdold)
        · exact h.distinct d d' name hdold hdold'
    names := by
      intro d name hd
      rcases hnameOf d name hd with ⟨-, rfl⟩ | ⟨-, hd⟩
      · exact List.mem_cons_self
      · exact List.mem_cons_of_mem _ (h.names d name hd)
    caller := h.caller
    onLoop := by
      intro l f hf hraw
      have hl := h.onLoop l f hf hraw
      simpa [World.loopOf, Function.update_of_ne (hc l hl)] using hl
    pending := fun l f hf hraw =>
      hs (h.onLoop l f (List.mem_append_right _ hf) hraw) (h.pending l f hf hraw)
    batch := fun l f hf hraw =>
      hs (h.onLoop l f (List.mem_append_left _ hf) hraw) (h.batch l f hf hraw) }

theorem Inv.loopStep (h : Inv c x) {e : TcpServer.Event} {w : World}
    (he : TcpServer.enabled s x.world e) (hfresh : Fresh x e)
    (hw : TcpServer.step s x.world e = .ok w) :
    Inv c { x with world := w, started := startedBy x e, names := namesBy x e } := by
  cases e with
  | poll l active =>
    obtain ⟨⟨activeChannels, poller⟩, _, hw⟩ := bind_eq_ok.mp hw
    obtain rfl := Except.ok.inj hw
    have hq : ((x.world.loops l).Queues
        ({ x.world.loops l with poller }.pollReturn (activeChannels.map Prod.fst))) :=
      .of_same rfl rfl
    have hg := World.grows_setLoop (w := x.world) hq
    exact h.grows ⟨hg.loops, hg.name, hg.loop, hg.mapped⟩
  | visit l =>
    apply h.grows
    simp only [TcpServer.step] at hw
    split at hw
    · obtain rfl := Except.ok.inj hw
      exact .refl x.world
    · obtain rfl := Except.ok.inj hw
      exact World.grows_visit _ _
  | test l r wr =>
    apply h.grows
    simp only [TcpServer.step] at hw
    split at hw
    · obtain rfl := Except.ok.inj hw
      exact .refl x.world
    · have hg := World.grows_runTest hw
      exact ⟨hg.loops, hg.name, hg.loop, hg.mapped⟩
  | userCall l d u => exact h.grows (World.grows_userCall hw)
  | userReturn l =>
    obtain rfl := Except.ok.inj hw
    exact h.grows (World.grows_loops (fun _ => .refl _) rfl rfl)
  | due l =>
    apply h.grows
    simp only [TcpServer.step] at hw
    split at hw
    · obtain rfl := Except.ok.inj hw
      exact .refl x.world
    · have hg := World.grows_runDue (by exact h.distinct.congr fun _ => rfl) hw
      exact ⟨hg.loops, hg.name, hg.loop, hg.mapped⟩
  | newConnection ioLoop connName sockfd id =>
    obtain ⟨conn, hname, hg⟩ := World.grows_newConnection hw
    have hid : x.world.conns id = none := he.2.2.2.2.2.2.1
    have haccept := @Inv.accept _ _ h id connName conn
      (Function.update x.world.fds sockfd (some id)) hid hfresh hname
    exact haccept.grows hg
  | endHandling l =>
    obtain rfl := Except.ok.inj hw
    exact h.grows (World.grows_setLoop (.of_same rfl rfl))
  | swap l =>
    obtain rfl := Except.ok.inj hw
    exact h.swap l
  | execute l r =>
    obtain ⟨f, rest, hb⟩ := List.exists_cons_of_ne_nil he.2.2
    simp only [TcpServer.step, hb] at hw
    simp only [startedBy, hb]
    have ht := h.take hb
    exact ht.grows (World.grows_runFunctor ht.distinct hw)
  | endFunctors l =>
    obtain rfl := Except.ok.inj hw
    exact h.endFunctors he.2.2

theorem Inv.setDisconnecting (h : Inv c x) (hh : x.holds = true) {conn : TcpConnection}
    (hconn : x.world.conns c = some conn) :
    Inv c { x with
      world := { x.world with
        conns := Function.update x.world.conns c (some { conn with state := .kDisconnecting }) }
      caller := .queueing } := by
  have hg : World.Grows x.world (x.world.put conn.loop (x.world.loops conn.loop) c
      { conn with state := .kDisconnecting }) :=
    World.grows_put hconn ⟨.refl _, rfl, rfl⟩
  simp only [World.put, Function.update_eq_self] at hg
  have hI := h.grows hg
  exact ⟨hI.distinct, hI.names, fun _ => hh, hI.onLoop, hI.pending, hI.batch⟩

/-- A caller that drops its pointer in time leaves its functors sheltered. -/
theorem Inv.drop (h : Inv c x) (hd : DropsInTime c x .drop) (hcaller : x.caller = .idle) :
    Inv c { x with holds := false } where
  distinct := h.distinct
  names := h.names
  caller hne := absurd hcaller hne
  onLoop := h.onLoop
  pending l f hf hraw :=
    have hl := h.onLoop l f (List.mem_append_right _ hf) hraw
    .inr ((hd l hl).1 ⟨f, hf, hraw⟩)
  batch l f hf hraw :=
    have hl := h.onLoop l f (List.mem_append_left _ hf) hraw
    .inr ((hd l hl).2 ⟨f, hf, hraw⟩)

theorem Inv.setCaller (h : Inv c x) {caller : Caller} (hh : x.holds = true) :
    Inv c { x with caller } :=
  ⟨h.distinct, h.names, fun _ => hh, h.onLoop, h.pending, h.batch⟩

theorem Inv.acquire (h : Inv c x) : Inv c { x with holds := true } where
  distinct := h.distinct
  names := h.names
  caller _ := rfl
  onLoop := h.onLoop
  pending _ _ _ _ := .inl rfl
  batch _ _ _ _ := .inl rfl

theorem guardedInvariant (s : TcpServer) (c : ConnId) :
    GuardedInvariant (system s c) (Inv c) (DropsInTime c) where
  init x hx := by
    have hnone : ∀ d name, x.world.nameOf d ≠ some name := by
      intro d name
      simp [World.nameOf, hx.world.conns d]
    exact {
      distinct := fun d d' name hd => absurd hd (hnone d name)
      names := fun d name hd => absurd hd (hnone d name)
      caller := fun hne => absurd hx.caller hne
      onLoop := fun l f hf => by simp [hx.world.batch, hx.world.pendingFunctors] at hf
      pending := fun l f hf => by simp [hx.world.pendingFunctors] at hf
      batch := fun l f hf => by simp [hx.world.batch] at hf }
  keeps x e y h hd he hs := by
    cases e with
    | loop e =>
      obtain ⟨w, hw, hs⟩ := bind_eq_ok.mp hs
      obtain rfl := Except.ok.inj hs
      exact h.loopStep he.1 he.2 hw
    | acquire =>
      obtain rfl := Except.ok.inj hs
      exact h.acquire
    | callSend message | callShutdown =>
      obtain ⟨conn, hconn, hs⟩ := bind_eq_ok.mp hs
      obtain rfl := Except.ok.inj hs
      split
      · exact h.setCaller he.1
      · exact h
    | pushSend =>
      simp only [system, step] at hs
      split at hs
      · rename_i message hcaller
        obtain ⟨conn, hconn, hs⟩ := bind_eq_ok.mp hs
        obtain rfl := Except.ok.inj hs
        exact h.push (h.caller (by simp [hcaller])) (World.conn_eq_ok hconn)
      all_goals
        obtain rfl := Except.ok.inj hs
        exact h
    | setDisconnecting =>
      obtain ⟨conn, hconn, hs⟩ := bind_eq_ok.mp hs
      obtain rfl := Except.ok.inj hs
      have hcaller : x.caller = .closing := he
      exact h.setDisconnecting (h.caller (by simp [hcaller])) (World.conn_eq_ok hconn)
    | pushShutdown =>
      obtain ⟨conn, hconn, hs⟩ := bind_eq_ok.mp hs
      obtain rfl := Except.ok.inj hs
      have hcaller : x.caller = .queueing := he
      exact h.push (h.caller (by simp [hcaller])) (World.conn_eq_ok hconn)
    | drop =>
      obtain rfl := Except.ok.inj hs
      exact h.drop hd he.2

/-- Whoever shelters a functor of the batch counts as a reference. -/
theorem Sheltered.refCount_pos {l : LoopId} (h : Sheltered c x (x.functors l))
    (hl : x.world.loopOf c = some l) : 0 < x.refCount s c := by
  unfold State.refCount
  rw [hl]
  rcases h with hh | hm | ⟨f, hf, hown⟩
  · simp [hh]
  · simp [hm]
  · have hpos : 0 < (x.functors l).countP (fun f => f.Owns c) :=
      List.countP_pos_iff.mpr ⟨f, hf, by simpa using hown⟩
    exact Nat.add_pos_left (Nat.add_pos_right _ (Nat.add_pos_left hpos _)) _

theorem Inv.runsReferenced (h : Inv c x) (e : Event) : RunsReferenced s c x e := by
  cases e with
  | loop e =>
    cases e with
    | execute l r =>
      intro f hf hraw
      have hmem : f ∈ (x.world.loops l).batch := List.mem_of_mem_head? hf
      exact (h.batch l f hmem hraw).refCount_pos (h.onLoop l f (List.mem_append_left _ hmem) hraw)
    | _ => trivial
  | _ => trivial

/-- While its caller drops its pointer in time, a connection outlives all work that is queued
with its `this`. -/
theorem runsReferenced_of_dropsInTime {es : List Event} (hx : Initial s x)
    (hoffered : Guarded (system s c) (system s c).enabled x es)
    (hdrops : Guarded (system s c) (DropsInTime c) x es) :
    Guarded (system s c) (RunsReferenced s c) x es :=
  (guardedInvariant s c).guarded _ (fun _ e h _ _ => h.runsReferenced e) hx hoffered hdrops

/-! ### A caller of a server without I/O loops -/

def sample : State where
  world := TcpServer.sampleWorld
  started _ := []
  names := []
  caller := .idle
  holds := false

theorem initial_sample : Initial TcpServer.soleLoop sample :=
  ⟨TcpServer.initial_soleLoop, fun _ => rfl, rfl, rfl, rfl⟩

/-- The peer of the connection 2 closes it while the caller is in `send`, and the functor comes
too late for the batch of `connectDestroyed`. -/
def lateSend : List Event :=
  (TcpServer.acceptEvents []).map .loop ++ [.acquire, .callSend [7]] ++
    [.poll 0 [(2, POLLIN)], .visit 0, .test 0 (.delivers []) (.accepts 0),
      .test 0 (.delivers []) (.accepts 0), .test 0 (.delivers []) (.accepts 0), .userReturn 0,
      .due 0, .test 0 (.delivers []) (.accepts 0), .endHandling 0, .swap 0].map .loop ++
    [.pushSend]

/-- The loop comes round to the late functor. -/
def nextBatch : List Event :=
  [.execute 0 (.accepts 0), .endFunctors 0, .poll 0 [(0, POLLIN)], .visit 0, .endHandling 0,
    .swap 0].map .loop

/-- The caller keeps its pointer until its functor has been executed. -/
theorem runsReferenced_of_drop_last :
    Guarded (system TcpServer.soleLoop 2) (RunsReferenced TcpServer.soleLoop 2) sample
      (lateSend ++ nextBatch ++ [.loop (.execute 0 (.accepts 0)), .drop]) := by
  have hreplay : (replay (restrict (system TcpServer.soleLoop 2) (DropsInTime 2)) sample
      (lateSend ++ nextBatch ++ [.loop (.execute 0 (.accepts 0)), .drop])).any (fun _ => true) =
        true := by
    decide +kernel
  obtain ⟨t, hr, -⟩ := exists_run_of_replay _ hreplay
  exact runsReferenced_of_dropsInTime initial_sample (guarded_enabled _ (run_of_restrict _ hr))
    (restrict_guarded _ hr)

/-- The caller drops its pointer after `send`, and the functor is executed on a connection that
nobody holds. -/
theorem not_runsReferenced_of_drop_first :
    let es : List Event := lateSend ++ [.drop] ++ nextBatch ++ [.loop (.execute 0 (.accepts 0))]
    Initial TcpServer.soleLoop sample ∧
      Guarded (system TcpServer.soleLoop 2) (system TcpServer.soleLoop 2).enabled sample es ∧
      ¬Guarded (system TcpServer.soleLoop 2) (RunsReferenced TcpServer.soleLoop 2) sample es := by
  have hreplay : (replay (system TcpServer.soleLoop 2) sample
      (lateSend ++ [.drop] ++ nextBatch)).any (fun t =>
        decide (enabled TcpServer.soleLoop 2 t (.loop (.execute 0 (.accepts 0))) ∧
          ¬RunsReferenced TcpServer.soleLoop 2 t (.loop (.execute 0 (.accepts 0))))) = true := by
    decide +kernel
  obtain ⟨t, hr, ht⟩ := exists_run_of_replay _ hreplay
  obtain ⟨he, hnot⟩ := of_decide_eq_true ht
  refine ⟨initial_sample, (guarded_snoc _ hr).mpr ⟨guarded_enabled _ hr, he⟩, ?_⟩
  intro hsound
  exact hnot ((guarded_snoc _ hr).mp hsound).2

end QueuedWork
end Muduo
