import Muduo.Examples.MultiplexPacket
import Muduo.Library.StepSystem
import Muduo.TcpConnection

/-!
# The multiplexer

`examples/multiplexer/multiplexer_simple.cc`: the clients share the connection to the backend, where
each goes by an id. The ids are handed out and taken back as clients come and go, and the backend
may go and come back as well.
-/
namespace Muduo.Multiplex
open StepSystem

def kMaxConns : ℕ := 10

/-- The connection of a client. `session` and `got` are not in the source: the number of the
backend connection under which the client has got its id, and all that has been read from it. -/
structure Client where
  state : StateE
  peer : InetAddress
  /-- `conn->getContext()` -/
  context : Option ℕ
  inputBuffer : Buffer
  /-- what was given to `conn->send` -/
  sent : List UInt8
  session : ℕ
  got : List UInt8

/-- `session` counts the connections of the backend, the one that is up or was up last. -/
structure MultiplexServer (C : Type) where
  /-- `backendConn_` is set -/
  backendConn : Bool
  clientConns : Finmap fun _ : ℕ => C
  availIds : List ℕ
  clients : C → Client
  /-- what was given to `backendConn_->send` and has not arrived -/
  toBackend : List UInt8
  /-- the input buffer of `backendConn_` -/
  fromBackend : List UInt8
  session : ℕ

inductive ServerEvent (C : Type)
  /-- `onClientConnection` of a connection that is up -/
  | up (c : C) (peer : InetAddress)
  /-- and of one that is down -/
  | down (c : C)
  /-- `onClientMessage` -/
  | message (c : C) (bytes : List UInt8)
  /-- `onBackendConnection` of a connection that is up -/
  | backendUp
  /-- and of one that is down -/
  | backendDown
  /-- `onBackendMessage` -/
  | backendMessage (bytes : List UInt8)

namespace Client

/-- `TcpConnection::shutdown` -/
def shutdown (k : Client) : Client :=
  if k.state = .kConnected then { k with state := .kDisconnecting } else k

/-- `TcpConnection::send` -/
def send (k : Client) (data : List UInt8) : Client :=
  if k.state = .kConnected then { k with sent := k.sent ++ data } else k

/-- The connection is up, though it may be half closed. -/
def Open (k : Client) : Prop := k.state = .kConnected ∨ k.state = .kDisconnecting

instance (k : Client) : Decidable k.Open := inferInstanceAs (Decidable (_ ∨ _))

end Client

namespace MultiplexServer
variable {C : Type} [DecidableEq C]

def setClient (s : MultiplexServer C) (c : C) (k : Client) : MultiplexServer C :=
  { s with clients := Function.update s.clients c k }

def sendBackendString (s : MultiplexServer C) (id : ℕ) (msg : List UInt8) :
    Except Fault (MultiplexServer C) := do
  if kMaxPacketLen < msg.length then throw .packetLen
  let buf ← (Buffer.new.append msg).mapError .buffer
  let (sent, _) ← sendPacket s.backendConn id buf
  return { s with toBackend := s.toBackend ++ sent }

def onClientUp (s : MultiplexServer C) (c : C) (peer : InetAddress) :
    Except Fault (MultiplexServer C) :=
  let k := { s.clients c with state := .kConnected, peer }
  match s.availIds with
  | [] => .ok (s.setClient c k.shutdown)
  | id :: availIds =>
    let s := { s with availIds, clientConns := s.clientConns.insert id c }
    if id = 0 then .ok (s.setClient c k.shutdown)
    else (s.setClient c { k with context := some id, session := s.session }).sendBackendString 0
      (notice id peer true)

def onClientDown (s : MultiplexServer C) (c : C) : Except Fault (MultiplexServer C) := do
  let k := s.clients c
  let s := s.setClient c { k with state := .kDisconnected }
  match k.context with
  | none => return s
  | some id =>
    if ¬ (0 < id ∧ id ≤ kMaxConns) then throw .clientId
    let s ← s.sendBackendString 0 (notice id k.peer false)
    if s.backendConn then
      return { s with availIds := s.availIds ++ [id], clientConns := s.clientConns.erase id }
    else if s.availIds = [] ∧ s.clientConns = ∅ then return s
    else throw .noBackend

/-- `bytes` have arrived in the input buffer. -/
def onClientMessage (s : MultiplexServer C) (c : C) (bytes : List UInt8) :
    Except Fault (MultiplexServer C) := do
  let k := s.clients c
  let buf ← (k.inputBuffer.readFd bytes).mapError .buffer
  match k.context with
  | some id =>
    let (sent, buf) ← sendBuffer s.backendConn id (buf.readableBytes + 1) buf
    return { s.setClient c { k with inputBuffer := buf, got := k.got ++ bytes } with
      toBackend := s.toBackend ++ sent }
  | none => return s.setClient c { k with inputBuffer := buf.retrieveAll }

def onBackendUp (s : MultiplexServer C) : Except Fault (MultiplexServer C) :=
  if s.availIds = [] then
    .ok { s with
      backendConn := true
      availIds := List.range' 1 kMaxConns
      toBackend := []
      fromBackend := []
      session := s.session + 1 }
  else .error .availIds

/-- All clients of `clientConns_` are shut down. -/
def onBackendDown (s : MultiplexServer C) : MultiplexServer C :=
  { s with
    backendConn := false
    clients := fun c =>
      if ∃ id ∈ s.clientConns.keys, s.clientConns.lookup id = some c then (s.clients c).shutdown
      else s.clients c
    clientConns := ∅
    availIds := [] }

/-- `clientConns_.find(id)`, and what is done with the connection that is found -/
def withClient (s : MultiplexServer C) (id : ℤ) (f : Client → Client) : MultiplexServer C :=
  match if 0 ≤ id then s.clientConns.lookup id.toNat else none with
  | some c => s.setClient c (f (s.clients c))
  | none => s

def doCommand (s : MultiplexServer C) (cmd : List UInt8) : MultiplexServer C :=
  let kDisconnectCmd := text "DISCONNECT "
  if cmd.length > kDisconnectCmd.length ∧ kDisconnectCmd <+: cmd then
    s.withClient (atoi (cmd.drop kDisconnectCmd.length)) Client.shutdown
  else s

/-- One iteration of the loop of `sendToClient`. -/
def onPacket (s : MultiplexServer C) (p : Packet) : MultiplexServer C :=
  if p.id ≠ 0 then s.withClient p.id fun k => k.send p.data else s.doCommand p.data

def sendToClient : ℕ → MultiplexServer C → Except Fault (MultiplexServer C)
  | 0, _ => .error .hangs
  | n + 1, s => match nextPacket s.fromBackend with
    | some (p, rest) => sendToClient n ({ s with fromBackend := rest }.onPacket p)
    | none => .ok s

def onBackendMessage (s : MultiplexServer C) (bytes : List UInt8) :
    Except Fault (MultiplexServer C) :=
  let s := { s with fromBackend := s.fromBackend ++ bytes }
  sendToClient (s.fromBackend.length + 1) s

def step (s : MultiplexServer C) : ServerEvent C → Except Fault (MultiplexServer C)
  | .up c peer => s.onClientUp c peer
  | .down c => s.onClientDown c
  | .message c bytes => s.onClientMessage c bytes
  | .backendUp => s.onBackendUp
  | .backendDown => .ok s.onBackendDown
  | .backendMessage bytes => s.onBackendMessage bytes

/-- A client connects once, and there is one connection to the backend at a time. -/
def enabled (s : MultiplexServer C) : ServerEvent C → Prop
  | .up c _ => (s.clients c).state = .kConnecting
  | .down c | .message c _ => (s.clients c).Open
  | .backendUp => s.backendConn = false
  | .backendDown | .backendMessage _ => s.backendConn = true

def init : MultiplexServer C where
  backendConn := false
  clientConns := ∅
  availIds := []
  clients := fun _ => ⟨.kConnecting, ⟨(0, 0, 0, 0), 0⟩, none, Buffer.new, [], 0, []⟩
  toBackend := []
  fromBackend := []
  session := 0

def system : System (MultiplexServer C) (ServerEvent C) Fault where
  init := (· = init)
  enabled := enabled
  step := step

instance (s : MultiplexServer C) (e : ServerEvent C) :
    Decidable ((system (C := C)).enabled s e) :=
  match e with
  | .up c _ => inferInstanceAs (Decidable ((s.clients c).state = .kConnecting))
  | .down c | .message c _ => inferInstanceAs (Decidable (s.clients c).Open)
  | .backendUp => inferInstanceAs (Decidable (s.backendConn = false))
  | .backendDown | .backendMessage _ => inferInstanceAs (Decidable (s.backendConn = true))

variable {s s' t : MultiplexServer C} {c d : C} {id : ℕ} {e : ServerEvent C}

/-- While the backend is connected every id is either free or belongs to one open client, and no
two clients that have got theirs under this connection share one. -/
structure IdsApart (s : MultiplexServer C) : Prop where
  nodup : s.availIds.Nodup
  disjoint : ∀ id ∈ s.availIds, id ∉ s.clientConns
  ids : s.backendConn = true → ∀ id, id ∈ s.availIds ∨ id ∈ s.clientConns ↔ 1 ≤ id ∧ id ≤ kMaxConns
  noBackend : s.backendConn = false → s.availIds = [] ∧ s.clientConns = ∅
  owner : ∀ id c, s.clientConns.lookup id = some c →
    (s.clients c).Open ∧ (s.clients c).context = some id ∧ (s.clients c).session = s.session
  current : s.backendConn = true → ∀ c id, (s.clients c).Open → (s.clients c).context = some id →
    (s.clients c).session = s.session → s.clientConns.lookup id = some c

structure Inv (s : MultiplexServer C) : Prop extends IdsApart s where
  context : ∀ c id, (s.clients c).context = some id →
    (1 ≤ id ∧ id ≤ kMaxConns) ∧ (s.clients c).session ≤ s.session
  fresh : ∀ c, (s.clients c).state = .kConnecting → (s.clients c).context = none

/-- What the ids depend on is as before. -/
structure SameIds (s s' : MultiplexServer C) : Prop where
  backendConn : s'.backendConn = s.backendConn
  clientConns : s'.clientConns = s.clientConns
  availIds : s'.availIds = s.availIds
  session : s'.session = s.session
  state : ∀ c, ((s'.clients c).Open ↔ (s.clients c).Open) ∧
    ((s'.clients c).state = .kConnecting ↔ (s.clients c).state = .kConnecting)
  context : ∀ c, (s'.clients c).context = (s.clients c).context ∧
    (s'.clients c).session = (s.clients c).session

omit [DecidableEq C] in
theorem SameIds.refl (s : MultiplexServer C) : SameIds s s :=
  ⟨rfl, rfl, rfl, rfl, fun _ => ⟨Iff.rfl, Iff.rfl⟩, fun _ => ⟨rfl, rfl⟩⟩

omit [DecidableEq C] in
theorem SameIds.trans (h : SameIds s s') (h' : SameIds s' t) : SameIds s t where
  backendConn := h'.backendConn.trans h.backendConn
  clientConns := h'.clientConns.trans h.clientConns
  availIds := h'.availIds.trans h.availIds
  session := h'.session.trans h.session
  state c := ⟨(h'.state c).1.trans (h.state c).1, (h'.state c).2.trans (h.state c).2⟩
  context c := ⟨(h'.context c).1.trans (h.context c).1, (h'.context c).2.trans (h.context c).2⟩

omit [DecidableEq C] in
theorem SameIds.inv (hsame : SameIds s s') (h : Inv s) : Inv s' where
  nodup := hsame.availIds ▸ h.nodup
  disjoint := by
    rw [hsame.availIds, hsame.clientConns]
    exact h.disjoint
  ids := by
    rw [hsame.availIds, hsame.clientConns, hsame.backendConn]
    exact h.ids
  noBackend := by
    rw [hsame.availIds, hsame.clientConns, hsame.backendConn]
    exact h.noBackend
  owner id c hc := by
    rw [hsame.clientConns] at hc
    rw [(hsame.state c).1, (hsame.context c).1, (hsame.context c).2, hsame.session]
    exact h.owner id c hc
  current hb c id := by
    rw [(hsame.state c).1, (hsame.context c).1, (hsame.context c).2, hsame.session,
      hsame.clientConns]
    exact h.current (hsame.backendConn ▸ hb) c id
  context c id := by
    rw [(hsame.context c).1, (hsame.context c).2, hsame.session]
    exact h.context c id
  fresh c := by
    rw [(hsame.state c).2, (hsame.context c).1]
    exact h.fresh c

/-- A client is replaced by one of the same state and id. -/
theorem sameIds_setClient {k : Client} (hopen : k.Open ↔ (s.clients c).Open)
    (hstate : k.state = .kConnecting ↔ (s.clients c).state = .kConnecting)
    (hcontext : k.context = (s.clients c).context) (hsession : k.session = (s.clients c).session) :
    SameIds s (s.setClient c k) where
  backendConn := rfl
  clientConns := rfl
  availIds := rfl
  session := rfl
  state d := by
    by_cases hd : d = c
    · subst hd
      simpa [setClient] using ⟨hopen, hstate⟩
    · simp [setClient, hd]
  context d := by
    by_cases hd : d = c
    · subst hd
      simpa [setClient] using ⟨hcontext, hsession⟩
    · simp [setClient, hd]

omit [DecidableEq C] in
theorem sendBackendString_same {msg : List UInt8} (h : s.sendBackendString id msg = .ok s') :
    SameIds s s' := by
  unfold sendBackendString at h
  split_ifs at h
  · cases h
  · obtain ⟨buf, -, h⟩ := bind_eq_ok.mp h
    obtain ⟨⟨sent, buf'⟩, -, h⟩ := bind_eq_ok.mp h
    rw [← Except.ok.inj h]
    exact ⟨rfl, rfl, rfl, rfl, fun _ => ⟨Iff.rfl, Iff.rfl⟩, fun _ => ⟨rfl, rfl⟩⟩

theorem onClientMessage_same {bytes : List UInt8} (h : s.onClientMessage c bytes = .ok s') :
    SameIds s s' := by
  obtain ⟨buf, -, h⟩ := bind_eq_ok.mp h
  cases hcontext : (s.clients c).context with
  | none =>
    simp only [hcontext] at h
    rw [← Except.ok.inj h]
    exact sameIds_setClient Iff.rfl Iff.rfl hcontext.symm rfl
  | some id =>
    simp only [hcontext] at h
    obtain ⟨⟨sent, buf'⟩, -, h⟩ := bind_eq_ok.mp h
    rw [← Except.ok.inj h]
    have hsame := sameIds_setClient (s := s) (c := c) (k := { s.clients c with
      context := some id, inputBuffer := buf', got := (s.clients c).got ++ bytes })
      Iff.rfl Iff.rfl hcontext.symm rfl
    exact ⟨hsame.backendConn, hsame.clientConns, hsame.availIds, hsame.session, hsame.state,
      hsame.context⟩

theorem withClient_same {n : ℤ} {f : Client → Client} (hf : ∀ k : Client, ((f k).Open ↔ k.Open) ∧
    ((f k).state = .kConnecting ↔ k.state = .kConnecting) ∧ (f k).context = k.context ∧
      (f k).session = k.session) : SameIds s (s.withClient n f) := by
  unfold withClient
  split
  · rename_i c _
    obtain ⟨hopen, hstate, hcontext, hsession⟩ := hf (s.clients c)
    exact sameIds_setClient hopen hstate hcontext hsession
  · exact .refl s

theorem shutdown_same (k : Client) : (k.shutdown.Open ↔ k.Open) ∧
    (k.shutdown.state = .kConnecting ↔ k.state = .kConnecting) ∧ k.shutdown.context = k.context ∧
      k.shutdown.session = k.session := by
  unfold Client.shutdown
  split_ifs with hk
  · simp [Client.Open, hk]
  · exact ⟨Iff.rfl, Iff.rfl, rfl, rfl⟩

theorem send_same (k : Client) (data : List UInt8) : ((k.send data).Open ↔ k.Open) ∧
    ((k.send data).state = .kConnecting ↔ k.state = .kConnecting) ∧
      (k.send data).context = k.context ∧ (k.send data).session = k.session := by
  unfold Client.send
  split_ifs
  · exact ⟨Iff.rfl, Iff.rfl, rfl, rfl⟩
  · exact ⟨Iff.rfl, Iff.rfl, rfl, rfl⟩

theorem onPacket_same (s : MultiplexServer C) (p : Packet) : SameIds s (s.onPacket p) := by
  unfold onPacket doCommand
  dsimp only
  split_ifs
  · exact withClient_same fun k => send_same k p.data
  · exact withClient_same shutdown_same
  · exact .refl s

theorem sendToClient_same {n : ℕ} (h : sendToClient n s = .ok s') : SameIds s s' := by
  induction n generalizing s with
  | zero => cases h
  | succ n ih =>
    unfold sendToClient at h
    split at h
    · rename_i p rest _
      have hfirst : SameIds s { s with fromBackend := rest } :=
        ⟨rfl, rfl, rfl, rfl, fun _ => ⟨Iff.rfl, Iff.rfl⟩, fun _ => ⟨rfl, rfl⟩⟩
      exact (hfirst.trans (onPacket_same _ p)).trans (ih h)
    · exact Except.ok.inj h ▸ SameIds.refl s


omit [DecidableEq C] in
theorem inv_init : Inv (init : MultiplexServer C) where
  nodup := List.nodup_nil
  disjoint := by simp [init]
  ids := by simp [init]
  noBackend := by simp [init]
  owner := by simp [init]
  current := by simp [init]
  context := by simp [init]
  fresh := by simp [init]

@[simp] theorem clients_setClient_self {k : Client} : (s.setClient c k).clients c = k :=
  Function.update_self ..

/-- Another client is not touched. -/
theorem clients_setClient_of_ne {k : Client} (h : d ≠ c) :
    (s.setClient c k).clients d = s.clients d := Function.update_of_ne h ..

/-- A client without an id changes. -/
theorem Inv.setClient {k : Client} (h : Inv s) (hc : (s.clients c).context = none)
    (hk : k.context = none) : Inv (s.setClient c k) where
  nodup := h.nodup
  disjoint := h.disjoint
  ids := h.ids
  noBackend := h.noBackend
  owner id d hd := by
    have hne : d ≠ c := by
      intro heq
      have hcontext := (h.owner id d hd).2.1
      rw [heq, hc] at hcontext
      cases hcontext
    rw [clients_setClient_of_ne hne]
    exact h.owner id d hd
  current hb d id := by
    by_cases hd : d = c
    · subst hd
      rw [clients_setClient_self, hk]
      intro _ hcontext
      cases hcontext
    · rw [clients_setClient_of_ne hd]
      exact h.current hb d id
  context d id := by
    by_cases hd : d = c
    · subst hd
      rw [clients_setClient_self, hk]
      intro hcontext
      cases hcontext
    · rw [clients_setClient_of_ne hd]
      exact h.context d id
  fresh d := by
    by_cases hd : d = c
    · subst hd
      rw [clients_setClient_self, hk]
      exact fun _ => rfl
    · rw [clients_setClient_of_ne hd]
      exact h.fresh d

/-- A client gets the first of the free ids. -/
theorem Inv.giveId {k : Client} {ids : List ℕ} (h : Inv s) (hids : s.availIds = id :: ids)
    (hc : (s.clients c).state = .kConnecting) (hopen : k.Open) (hcontext : k.context = some id)
    (hsession : k.session = s.session) :
    Inv ({ s with availIds := ids, clientConns := s.clientConns.insert id c }.setClient c k) := by
  have hb : s.backendConn = true := by
    cases hb : s.backendConn with
    | true => rfl
    | false =>
      have hnil := (h.noBackend hb).1
      rw [hids] at hnil
      cases hnil
  have hid : id ∈ s.availIds := by simp [hids]
  have hnodup := h.nodup
  rw [hids, List.nodup_cons] at hnodup
  have hother : ∀ n d, s.clientConns.lookup n = some d → n ≠ id ∧ d ≠ c := by
    intro n d hd
    constructor
    · intro heq
      exact h.disjoint id hid (heq ▸ Finmap.mem_of_lookup_eq_some hd)
    · intro heq
      have hopen := (h.owner n d hd).1
      rw [heq, Client.Open, hc] at hopen
      simp at hopen
  have hlookup : ∀ n d, (s.clientConns.insert id c).lookup n = some d →
      n = id ∧ d = c ∨ n ≠ id ∧ s.clientConns.lookup n = some d := by
    intro n d hd
    by_cases hn : n = id
    · subst hn
      rw [Finmap.lookup_insert] at hd
      exact Or.inl ⟨rfl, (Option.some.inj hd).symm⟩
    · rw [Finmap.lookup_insert_of_ne _ hn] at hd
      exact Or.inr ⟨hn, hd⟩
  refine ⟨⟨hnodup.2, ?_, ?_, ?_, ?_, ?_⟩, ?_, ?_⟩
  · intro n hn hmem
    rcases Finmap.mem_insert.mp hmem with heq | hmem
    · exact hnodup.1 (heq ▸ hn)
    · exact h.disjoint n (by rw [hids]; exact List.mem_cons_of_mem _ hn) hmem
  · intro _ n
    have hn := h.ids hb n
    rw [hids, List.mem_cons] at hn
    show n ∈ ids ∨ n ∈ s.clientConns.insert id c ↔ _
    rw [Finmap.mem_insert]
    tauto
  · intro hb'
    have hb' : s.backendConn = false := hb'
    rw [hb] at hb'
    cases hb'
  · intro n d hd
    obtain ⟨hn, hdc⟩ | ⟨-, hd⟩ := hlookup n d hd
    · subst hn hdc
      rw [clients_setClient_self]
      exact ⟨hopen, hcontext, hsession⟩
    · rw [clients_setClient_of_ne (hother n d hd).2]
      exact h.owner n d hd
  · intro _ d n
    by_cases hd : d = c
    · subst hd
      rw [clients_setClient_self, hcontext]
      intro _ hn _
      rw [← Option.some.inj hn]
      exact Finmap.lookup_insert _
    · rw [clients_setClient_of_ne hd]
      intro ho hn hses
      have hd' := h.current hb d n ho hn hses
      exact (Finmap.lookup_insert_of_ne _ (hother n d hd').1).trans hd'
  · intro d n
    by_cases hd : d = c
    · subst hd
      rw [clients_setClient_self, hcontext, hsession]
      intro hn
      rw [← Option.some.inj hn]
      exact ⟨(h.ids hb id).mp (Or.inl hid), le_rfl⟩
    · rw [clients_setClient_of_ne hd]
      exact h.context d n
  · intro d
    by_cases hd : d = c
    · subst hd
      rw [clients_setClient_self]
      intro hstate
      rw [Client.Open, hstate] at hopen
      simp at hopen
    · rw [clients_setClient_of_ne hd]
      exact h.fresh d

theorem Inv.onClientUp {peer : InetAddress} (h : Inv s) (hc : (s.clients c).state = .kConnecting)
    (hs : s.onClientUp c peer = .ok s') : Inv s' := by
  have hnone := h.fresh c hc
  have hshut : ∀ k : Client, k.context = none → k.shutdown.context = none :=
    fun k hk => (shutdown_same k).2.2.1.trans hk
  unfold MultiplexServer.onClientUp at hs
  cases hids : s.availIds with
  | nil =>
    simp only [hids] at hs
    rw [← Except.ok.inj hs]
    exact h.setClient hnone (hshut _ hnone)
  | cons id ids =>
    simp only [hids] at hs
    have hpos : id ≠ 0 := by
      have hb : s.backendConn = true := by
        by_contra hb
        have hnil := (h.noBackend (by simpa using hb)).1
        rw [hids] at hnil
        cases hnil
      have hid := (h.ids hb id).mp (Or.inl (by simp [hids]))
      omega
    rw [if_neg hpos] at hs
    exact (sendBackendString_same hs).inv (h.giveId hids hc (Or.inl rfl) rfl rfl)

/-- The client closes that has the id. -/
theorem Inv.takeBack {k : Client} (h : Inv s) (hb : s.backendConn = true)
    (hc : s.clientConns.lookup id = some c) (hk : k.context = some id)
    (hsession : k.session = s.session) (hstate : k.state = .kDisconnected) :
    Inv { s.setClient c k with
      availIds := s.availIds ++ [id], clientConns := s.clientConns.erase id } := by
  have hmem := Finmap.mem_of_lookup_eq_some hc
  have hclosed : ¬ k.Open := by simp [Client.Open, hstate]
  have hid : id ∉ s.availIds := fun hid => h.disjoint id hid hmem
  have hcontext := (h.owner id c hc).2.1
  have hlookup : ∀ n d, (s.clientConns.erase id).lookup n = some d →
      n ≠ id ∧ d ≠ c ∧ s.clientConns.lookup n = some d := by
    intro n d hd
    have hn : n ≠ id := by
      intro heq
      rw [heq, Finmap.lookup_erase] at hd
      cases hd
    rw [Finmap.lookup_erase_ne hn] at hd
    refine ⟨hn, fun heq => hn ?_, hd⟩
    have hcontext' := (h.owner n d hd).2.1
    rw [heq, hcontext] at hcontext'
    exact (Option.some.inj hcontext').symm
  refine ⟨⟨?_, ?_, ?_, ?_, ?_, ?_⟩, ?_, ?_⟩
  · have hdisj : s.availIds.Disjoint [id] := by simpa using hid
    exact List.nodup_append'.mpr ⟨h.nodup, List.nodup_singleton id, hdisj⟩
  · intro n hn hmem'
    obtain ⟨hne, hmem'⟩ := Finmap.mem_erase.mp hmem'
    rcases List.mem_append.mp hn with hn | hn
    · exact h.disjoint n hn hmem'
    · exact hne (List.mem_singleton.mp hn)
  · intro _ n
    have hn := h.ids hb n
    show n ∈ s.availIds ++ [id] ∨ n ∈ s.clientConns.erase id ↔ _
    rw [List.mem_append, List.mem_singleton, Finmap.mem_erase]
    by_cases heq : n = id
    · subst heq
      simp [hmem] at hn ⊢
      exact hn
    · simpa [heq] using hn
  · intro hb'
    have hb' : s.backendConn = false := hb'
    rw [hb] at hb'
    cases hb'
  · intro n d hd
    obtain ⟨-, hne, hd⟩ := hlookup n d hd
    show ((s.setClient c k).clients d).Open ∧ ((s.setClient c k).clients d).context = _ ∧
      ((s.setClient c k).clients d).session = _
    rw [clients_setClient_of_ne hne]
    exact h.owner n d hd
  · intro _ d n
    show ((s.setClient c k).clients d).Open → ((s.setClient c k).clients d).context = _ →
      ((s.setClient c k).clients d).session = _ → _
    by_cases hd : d = c
    · subst hd
      rw [clients_setClient_self]
      exact fun ho => absurd ho hclosed
    · rw [clients_setClient_of_ne hd]
      intro ho hn hses
      have hd' := h.current hb d n ho hn hses
      have hne : n ≠ id := by
        intro heq
        rw [heq, hc] at hd'
        exact hd (Option.some.inj hd').symm
      exact (Finmap.lookup_erase_ne hne).trans hd'
  · intro d n
    show ((s.setClient c k).clients d).context = _ → _ ∧ ((s.setClient c k).clients d).session ≤ _
    by_cases hd : d = c
    · subst hd
      rw [clients_setClient_self, hk, hsession]
      intro hn
      rw [← Option.some.inj hn]
      exact ⟨(h.ids hb id).mp (Or.inr hmem), le_rfl⟩
    · rw [clients_setClient_of_ne hd]
      exact h.context d n
  · intro d
    show ((s.setClient c k).clients d).state = _ → ((s.setClient c k).clients d).context = _
    by_cases hd : d = c
    · subst hd
      rw [clients_setClient_self, hstate]
      intro hstate'
      cases hstate'
    · rw [clients_setClient_of_ne hd]
      exact h.fresh d

/-- A client closes while there is no backend, or without an id of this backend connection. -/
theorem Inv.closeUnlisted {k : Client} (h : Inv s) (hb : s.backendConn = false)
    (hk : k.context = (s.clients c).context) (hsession : k.session = (s.clients c).session)
    (hstate : k.state = .kDisconnected) : Inv (s.setClient c k) := by
  obtain ⟨hids, hconns⟩ := h.noBackend hb
  refine ⟨⟨h.nodup, h.disjoint, h.ids, h.noBackend, ?_, ?_⟩, ?_, ?_⟩
  · intro n d hd
    have hd : s.clientConns.lookup n = some d := hd
    rw [hconns] at hd
    cases hd
  · intro hb'
    have hb' : s.backendConn = true := hb'
    rw [hb] at hb'
    cases hb'
  · intro d n
    by_cases hd : d = c
    · subst hd
      rw [clients_setClient_self, hk, hsession]
      exact h.context d n
    · rw [clients_setClient_of_ne hd]
      exact h.context d n
  · intro d
    by_cases hd : d = c
    · subst hd
      rw [clients_setClient_self, hstate]
      intro hstate'
      cases hstate'
    · rw [clients_setClient_of_ne hd]
      exact h.fresh d

theorem onClientDown_cases (hs : s.onClientDown c = .ok s') :
    ∃ k : Client, k = { s.clients c with state := .kDisconnected } ∧
      ((k.context = none ∧ s' = s.setClient c k) ∨
        ∃ id, k.context = some id ∧
          ((s.backendConn = true ∧ SameIds { s.setClient c k with
              availIds := s.availIds ++ [id], clientConns := s.clientConns.erase id } s') ∨
            (s.backendConn = false ∧ SameIds (s.setClient c k) s'))) := by
  refine ⟨_, rfl, ?_⟩
  unfold onClientDown at hs
  dsimp only at hs
  split at hs
  · rename_i hcontext
    exact Or.inl ⟨hcontext, (Except.ok.inj hs).symm⟩
  · rename_i id hcontext
    refine Or.inr ⟨id, hcontext, ?_⟩
    split_ifs at hs
    · obtain ⟨s₂, hsend, hs⟩ := bind_eq_ok.mp hs
      have hsame := sendBackendString_same hsend
      have hb : s₂.backendConn = s.backendConn := hsame.backendConn
      split_ifs at hs with hb₂
      · rw [← Except.ok.inj hs]
        exact Or.inl ⟨hb ▸ hb₂, hsame.backendConn, congrArg (Finmap.erase id) hsame.clientConns,
          congrArg (· ++ [id]) hsame.availIds, hsame.session, hsame.state, hsame.context⟩
      · rw [← Except.ok.inj hs]
        exact Or.inr ⟨by simpa [hb] using hb₂, hsame⟩
    · cases hs

theorem Inv.onBackendUp (h : Inv s) (hb : s.backendConn = false) (hs : s.onBackendUp = .ok s') :
    Inv s' := by
  obtain ⟨hids, hconns⟩ := h.noBackend hb
  rw [MultiplexServer.onBackendUp, if_pos hids] at hs
  rw [← Except.ok.inj hs]
  refine ⟨⟨List.nodup_range', ?_, ?_, ?_, ?_, ?_⟩, ?_, h.fresh⟩
  · intro id _ hmem
    rw [hconns] at hmem
    exact Finmap.notMem_empty hmem
  · intro _ id
    rw [hconns]
    simp [List.mem_range'_1, Finmap.notMem_empty, kMaxConns]
    omega
  · intro hb'
    cases hb'
  · intro id c hc
    have hc : s.clientConns.lookup id = some c := hc
    rw [hconns] at hc
    cases hc
  · intro _ c id _ hcontext hsession
    have hle := (h.context c id hcontext).2
    have hsession : (s.clients c).session = s.session + 1 := hsession
    omega
  · intro c id hcontext
    obtain ⟨hid, hle⟩ := h.context c id hcontext
    exact ⟨hid, Nat.le_succ_of_le hle⟩

theorem Inv.onBackendDown (h : Inv s) : Inv s.onBackendDown := by
  have hclient : ∀ c, ((s.onBackendDown.clients c).state = .kConnecting ↔
      (s.clients c).state = .kConnecting) ∧
      (s.onBackendDown.clients c).context = (s.clients c).context ∧
      (s.onBackendDown.clients c).session = (s.clients c).session := by
    intro c
    simp only [MultiplexServer.onBackendDown]
    split_ifs
    · exact (shutdown_same _).2
    · exact ⟨Iff.rfl, rfl, rfl⟩
  refine ⟨⟨List.nodup_nil, ?_, ?_, ?_, ?_, ?_⟩, ?_, ?_⟩
  · intro id hid
    cases hid
  · intro hb
    cases hb
  · intro _
    exact ⟨rfl, rfl⟩
  · intro id c hc
    cases hc
  · intro hb
    cases hb
  · intro c id
    rw [(hclient c).2.1, (hclient c).2.2]
    exact h.context c id
  · intro c
    rw [(hclient c).1, (hclient c).2.1]
    exact h.fresh c

/-- No client that has got its id under an earlier connection of the backend closes while the
backend is connected. -/
def Timely (s : MultiplexServer C) (e : ServerEvent C) : Prop :=
  ∀ c, e = .down c → s.backendConn = true → (s.clients c).context ≠ none →
    (s.clients c).session = s.session

theorem inv_step (h : Inv s) (htimely : Timely s e) (he : enabled s e) (hs : step s e = .ok s') :
    Inv s' := by
  cases e with
  | up c peer => exact h.onClientUp he hs
  | down c =>
    obtain ⟨k, hk, hcases⟩ := onClientDown_cases hs
    have hcontext : k.context = (s.clients c).context := by rw [hk]
    have hsession : k.session = (s.clients c).session := by rw [hk]
    have hstate : k.state = .kDisconnected := by rw [hk]
    obtain ⟨hnone, hs'⟩ | ⟨id, hid, ⟨hb, hsame⟩ | ⟨hb, hsame⟩⟩ := hcases
    · rw [hs']
      exact h.setClient (hcontext ▸ hnone) hnone
    · rw [hcontext] at hid
      have hses := htimely c rfl hb (by rw [hid]; simp)
      exact hsame.inv (h.takeBack hb (h.current hb c id he hid hses) (hcontext.trans hid)
        (hsession.trans hses) hstate)
    · exact hsame.inv (h.closeUnlisted hb hcontext hsession hstate)
  | message c bytes => exact (onClientMessage_same hs).inv h
  | backendUp => exact h.onBackendUp he hs
  | backendDown => exact Except.ok.inj hs ▸ h.onBackendDown
  | backendMessage bytes =>
    have hfirst : SameIds s { s with fromBackend := s.fromBackend ++ bytes } :=
      ⟨rfl, rfl, rfl, rfl, fun _ => ⟨Iff.rfl, Iff.rfl⟩, fun _ => ⟨rfl, rfl⟩⟩
    exact (hfirst.trans (sendToClient_same hs)).inv h

/-- The id of an earlier connection is given back, though it may be free or belong to another
client. -/
theorem not_idsApart_of_late (h : Inv s) (hb : s.backendConn = true)
    (hid : (s.clients c).context = some id) (hsession : (s.clients c).session ≠ s.session)
    (hs : s.onClientDown c = .ok s') : ¬ IdsApart s' := by
  intro hapart
  obtain ⟨k, hk, hcases⟩ := onClientDown_cases hs
  have hcontext : k.context = (s.clients c).context := by rw [hk]
  obtain ⟨hnone, -⟩ | ⟨id', hid', ⟨-, hsame⟩ | ⟨hb', -⟩⟩ := hcases
  · rw [hcontext, hid] at hnone
    cases hnone
  · rw [hcontext, hid] at hid'
    have hid' := Option.some.inj hid'
    subst hid'
    have hids : s'.availIds = s.availIds ++ [id] := hsame.availIds
    have hses : s'.session = s.session := hsame.session
    have hnodup := hapart.nodup
    rw [hids] at hnodup
    have hfree : id ∉ s.availIds := by
      intro hmem
      exact (List.nodup_append.mp hnodup).2.2 id hmem id (List.mem_singleton_self id) rfl
    obtain ⟨d, hd⟩ := Finmap.mem_iff.mp
      (((h.ids hb id).mpr (h.context c id hid).1).resolve_left hfree)
    obtain ⟨hopen, hcontext', hsession'⟩ := h.owner id d hd
    have hne : d ≠ c := fun heq => hsession (heq ▸ hsession')
    have hclient : (s.setClient c k).clients d = s.clients d := clients_setClient_of_ne hne
    have hopen' : (s'.clients d).Open := (hsame.state d).1.mpr (by simpa [hclient] using hopen)
    have hcurrent := hapart.current (hsame.backendConn.trans hb) d id hopen'
      ((hsame.context d).1.trans (by simpa [hclient] using hcontext'))
      ((hsame.context d).2.trans (by simpa [hclient, hses] using hsession'))
    rw [hsame.clientConns] at hcurrent
    rw [Finmap.lookup_erase] at hcurrent
    cases hcurrent
  · rw [hb] at hb'
    cases hb'

theorem exactGuard : ExactGuard (system (C := C)) Inv IdsApart Timely where
  init s hs := by
    have hs : s = init := hs
    exact hs ▸ inv_init
  sound s h := h.toIdsApart
  keeps s e t h htimely he hs := inv_step h htimely he hs
  breaks s e t h hlate he hs := by
    unfold Timely at hlate
    push Not at hlate
    obtain ⟨c, hc, hb, hcontext, hsession⟩ := hlate
    subst hc
    obtain ⟨id, hid⟩ := Option.ne_none_iff_exists'.mp hcontext
    exact not_idsApart_of_late h hb hid hsession hs

/-- The ids stay apart exactly as long as no client outlives the connection of the backend under
which it has got its id, and closes under a later one. -/
theorem idsApart_throughout_iff {es : List (ServerEvent C)} (hr : Run system init es s) :
    Throughout system IdsApart (init : MultiplexServer C) es ↔
      Guarded system Timely (init : MultiplexServer C) es :=
  exactGuard.throughout_iff system rfl hr

/-- A client is still open when the backend has come back, and closes then. -/
theorem idsApart_throughout_late : ∃ (s : MultiplexServer Unit) (es : List (ServerEvent Unit)),
    (Throughout system IdsApart (init : MultiplexServer Unit) es ↔
      Guarded system Timely (init : MultiplexServer Unit) es) ∧
      s.availIds = List.range' 1 kMaxConns ++ [1] := by
  have hreplay : (replay system (init : MultiplexServer Unit)
      [.backendUp, .up () ⟨(127, 0, 0, 1), 4242⟩, .backendDown, .backendUp, .down ()]).any
      (fun s => s.availIds = List.range' 1 kMaxConns ++ [1]) = true := by decide +kernel
  obtain ⟨s, hr, hids⟩ := exists_run_of_replay system hreplay
  exact ⟨s, _, idsApart_throughout_iff hr, by simpa using hids⟩

end MultiplexServer
end Muduo.Multiplex
