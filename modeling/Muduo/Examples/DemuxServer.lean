import Muduo.Examples.MultiplexServer

/-!
# The demultiplexer

`examples/multiplexer/demux.cc`, the backend of the multiplexer: for each client that the
multiplexer tells of it opens a connection to the SOCKS server, and what the client sends goes on
to that connection. The two programs run together with the bytes between them, in one connection.
-/
namespace Muduo.Multiplex
open StepSystem

/-- `Entry`. `connection` is the state of the connection, once there is one; `forwarded` is what was
given to it, and `got`, which is not in the source, all that has come for it. -/
structure Entry where
  connection : Option StateE
  pending : List UInt8
  forwarded : List UInt8
  inputBuffer : Buffer
  got : List UInt8

structure DemuxServer where
  /-- `serverConn_` is set -/
  serverConn : Bool
  socksConns : ℤ → Option Entry
  /-- the input buffer of `serverConn_` -/
  fromServer : List UInt8
  /-- what was given to `serverConn_->send` and has not arrived -/
  toServer : List UInt8

namespace Entry

def new : Entry := ⟨none, [], [], Buffer.new, []⟩

/-- `onServerMessage` for the entry of the connection. -/
def message (e : Entry) (data : List UInt8) : Except Fault Entry :=
  match e.connection with
  | some state =>
    if e.pending = [] then .ok { e with
      forwarded := if state = .kConnected then e.forwarded ++ data else e.forwarded
      got := e.got ++ data }
    else .error .messagePending
  | none => .ok { e with pending := e.pending ++ data, got := e.got ++ data }

/-- `onSocksConnection` of a connection that is up -/
def socksUp (e : Entry) : Entry :=
  { e with
    connection := some .kConnected
    forwarded := e.forwarded ++ e.pending
    pending := [] }

end Entry

namespace DemuxServer

def setEntry (d : DemuxServer) (connId : ℤ) (e : Option Entry) : DemuxServer :=
  { d with socksConns := Function.update d.socksConns connId e }

def doCommand (d : DemuxServer) (cmd : List UInt8) : Except Fault DemuxServer := do
  let connId ← commandId cmd
  if commandUp cmd then
    match d.socksConns connId with
    | some _ => throw .upEntry
    | none => return d.setEntry connId (some Entry.new)
  else match d.socksConns connId with
    | none => throw .downEntry
    | some e => match e.connection with
      | some state => return d.setEntry connId (some { e with
          connection := some (if state = .kConnected then .kDisconnecting else state) })
      | none => return d.setEntry connId none

/-- One iteration of the loop of `onServerMessage`. -/
def onPacket (d : DemuxServer) (p : Packet) : Except Fault DemuxServer :=
  if p.id ≠ 0 then
    match d.socksConns p.id with
    | none => .error .messageEntry
    | some e => do
      let e ← e.message p.data
      return d.setEntry p.id (some e)
  else d.doCommand p.data

def readPackets : ℕ → DemuxServer → Except Fault DemuxServer
  | 0, _ => .error .hangs
  | n + 1, d => match nextPacket d.fromServer with
    | some (p, rest) => do
      let d ← { d with fromServer := rest }.onPacket p
      readPackets n d
    | none => .ok d

def onServerMessage (d : DemuxServer) (bytes : List UInt8) : Except Fault DemuxServer :=
  let d := { d with fromServer := d.fromServer ++ bytes }
  readPackets (d.fromServer.length + 1) d

def onSocksUp (d : DemuxServer) (connId : ℕ) : Except Fault DemuxServer :=
  match d.socksConns connId with
  | none => .error .socksEntry
  | some e => .ok (d.setEntry connId (some e.socksUp))

def onSocksDown (d : DemuxServer) (connId : ℕ) : Except Fault DemuxServer :=
  match d.socksConns connId with
  | none => .error .socksEntry
  | some e =>
    if d.serverConn then do
      let msg := (text "DISCONNECT " ++ numeral connId ++ text "\r\n").take 255
      let buf ← (Buffer.new.append msg).mapError .buffer
      let (sent, _) ← sendPacket d.serverConn 0 buf
      return { d.setEntry connId (some { e with connection := some .kDisconnected }) with
        toServer := d.toServer ++ sent }
    else .ok (d.setEntry connId none)

/-- `bytes` have arrived in the input buffer of the connection. -/
def onSocksMessage (d : DemuxServer) (connId : ℕ) (bytes : List UInt8) :
    Except Fault DemuxServer :=
  match d.socksConns connId with
  | none => .error .socksEntry
  | some e => do
    let buf ← (e.inputBuffer.readFd bytes).mapError .buffer
    let (sent, buf) ← sendBuffer d.serverConn connId (buf.readableBytes + 1) buf
    return { d.setEntry connId (some { e with inputBuffer := buf }) with
      toServer := d.toServer ++ sent }

end DemuxServer

/-- Both programs, while they are connected to each other. -/
structure Tunnel (C : Type) where
  mux : MultiplexServer C
  demux : DemuxServer

inductive TunnelEvent (C : Type)
  | up (c : C) (peer : InetAddress)
  | down (c : C)
  | message (c : C) (bytes : List UInt8)
  /-- the next `n` bytes from the multiplexer arrive -/
  | toDemux (n : ℕ)
  /-- the next `n` bytes from the demultiplexer arrive -/
  | toMux (n : ℕ)
  | socksUp (connId : ℕ)
  | socksDown (connId : ℕ)
  | socksMessage (connId : ℕ) (bytes : List UInt8)

/-- What a packet is for the client of an id. -/
inductive Item
  | up
  | down
  | data (bytes : List UInt8)

def item (id : ℕ) (p : Packet) : Option Item :=
  if p.id ≠ 0 then if p.id = id then some (.data p.data) else none
  else match commandId p.data with
    | .ok n => if n = id then some (if commandUp p.data then .up else .down) else none
    | .error _ => none

def items (id : ℕ) (ps : List Packet) : List Item := ps.filterMap (item id)

/-- The packets that the multiplexer sends. -/
inductive Packet.Known : Packet → Prop
  | notice (id : ℕ) (peer : InetAddress) (up : Bool) :
      1 ≤ id → id ≤ kMaxConns → Packet.Known ⟨0, notice id peer up⟩
  | data (id : ℕ) (bytes : List UInt8) : 1 ≤ id → id ≤ kMaxConns → 0 < bytes.length →
      bytes.length ≤ kMaxPacketLen → Packet.Known ⟨id, bytes⟩

theorem length_notice (id : ℕ) (peer : InetAddress) (up : Bool) :
    (notice id peer up).length ≤ kMaxPacketLen := by
  rw [notice, List.length_take]
  exact Nat.min_le_left ..

theorem Packet.Known.valid {p : Packet} (h : p.Known) : p.Valid := by
  cases h with
  | notice id peer up _ hle =>
    have hid : id < 2 ^ 16 := hle.trans_lt (by decide)
    have hlen : 0 < (Multiplex.notice id peer up).length := by
      rw [notice_eq hid, List.length_append]
      exact Nat.add_pos_left (by decide) _
    exact ⟨Nat.two_pow_pos 16, hlen, length_notice id peer up⟩
  | data id bytes _ hle hpos hlen => exact ⟨hle.trans_lt (by decide), hpos, hlen⟩

section Session
variable {E E' : Option Entry} {L M : List Item} {b : Bool} {own : Option (List UInt8)}
  {x y : List UInt8}

/-- The client is announced, sends and is taken leave of, in turn. -/
def after : Bool → List Item → Option Bool
  | b, [] => some b
  | false, .up :: l => after true l
  | true, .down :: l => after false l
  | true, .data _ :: l => after true l
  | _, _ => none

/-- What has come for the client that is announced last. -/
def content (x : List UInt8) : List Item → List UInt8
  | [] => x
  | .up :: l => content [] l
  | .down :: l => content x l
  | .data bytes :: l => content (x ++ bytes) l

theorem after_append : after b (L ++ M) = (after b L).bind fun b => after b M := by
  induction L generalizing b with
  | nil => rfl
  | cons it L ih =>
    cases b <;> cases it <;> simp [after, ih]

theorem content_append : content x (L ++ M) = content (content x L) M := by
  induction L generalizing x with
  | nil => rfl
  | cons it L ih =>
    cases it <;> exact ih

/-- Where the client is not announced yet, nothing has come for it. -/
theorem content_of_after (h : after false L = some true) : content x L = content y L := by
  cases L with
  | nil => cases h
  | cons it L =>
    cases it with
    | up => rfl
    | down => cases h
    | data => cases h

theorem after_data {bs : List (List UInt8)} (h : after b L = some true) :
    after b (L ++ bs.map .data) = some true := by
  rw [after_append, h]
  induction bs with
  | nil => rfl
  | cons _ bs ih => exact ih

theorem content_data {bs : List (List UInt8)} :
    content x (L ++ bs.map .data) = content x L ++ bs.flatten := by
  rw [content_append]
  generalize content x L = z
  induction bs generalizing z with
  | nil => simp [content]
  | cons bytes bs ih =>
    rw [List.map_cons, content, ih, List.flatten_cons, List.append_assoc]

/-- What holds between the data that an entry has got and what it has done with them. -/
structure Entry.Ok (e : Entry) : Prop where
  waiting : e.connection = none → e.forwarded = [] ∧ e.pending = e.got
  pending : e.connection ≠ none → e.pending = []
  connected : e.connection = some .kConnected → e.forwarded = e.got
  front : e.forwarded <+: e.got
  buffer : e.inputBuffer.readable = [] ∧ Roomy e.inputBuffer

theorem ok_new : Entry.new.Ok where
  waiting _ := ⟨rfl, rfl⟩
  pending h := absurd rfl h
  connected h := by cases h
  front := List.prefix_refl _
  buffer := ⟨Buffer.readable_new, roomy_new⟩

theorem Entry.Ok.message {e : Entry} (h : e.Ok) (bytes : List UInt8) :
    ∃ e', e.message bytes = .ok e' ∧ e'.Ok ∧ e'.got = e.got ++ bytes := by
  unfold Entry.message
  cases hc : e.connection with
  | none =>
    obtain ⟨hforwarded, hpending⟩ := h.waiting hc
    exact ⟨_, rfl, ⟨fun _ => ⟨hforwarded, congrArg (· ++ bytes) hpending⟩,
      fun hne => absurd rfl hne, (fun heq => nomatch heq),
      h.front.trans (List.prefix_append _ _), h.buffer⟩, rfl⟩
  | some state =>
    have hpending := h.pending (by rw [hc]; simp)
    dsimp only
    rw [if_pos hpending]
    refine ⟨_, rfl, ⟨(fun heq => nomatch heq), fun _ => hpending, fun heq => ?_, ?_, h.buffer⟩, rfl⟩
    · have hstate : state = .kConnected := Option.some.inj heq
      dsimp only
      rw [if_pos hstate, h.connected (hc.trans (congrArg some hstate))]
    · dsimp only
      split_ifs with hstate
      · rw [h.connected (hc.trans (congrArg some hstate))]
      · exact h.front.trans (List.prefix_append _ _)

/-- The connection changes its state, but not to `kConnected`. -/
theorem Entry.Ok.setConnection {e : Entry} {state : StateE} (h : e.Ok)
    (hc : e.connection ≠ none)
    (hstate : state = .kConnected → e.connection = some .kConnected) :
    Entry.Ok { e with connection := some state } where
  waiting heq := by cases heq
  pending _ := h.pending hc
  connected heq := h.connected (hstate (Option.some.inj heq))
  front := h.front
  buffer := h.buffer

theorem Entry.Ok.socksUp {e : Entry} (h : e.Ok) (hc : e.connection = none) : e.socksUp.Ok := by
  obtain ⟨hforwarded, hpending⟩ := h.waiting hc
  have hall : e.forwarded ++ e.pending = e.got := by rw [hforwarded, hpending, List.nil_append]
  have hfront : e.forwarded ++ e.pending <+: e.got := by
    rw [hall]
  exact ⟨(fun heq => nomatch heq), fun _ => rfl, fun _ => hall, hfront, h.buffer⟩

/-- What the demultiplexer does with an item, for the entry of the id. -/
def apply : Item → Option Entry → Except Fault (Option Entry)
  | .up, none => .ok (some Entry.new)
  | .up, some _ => .error .upEntry
  | .down, none => .error .downEntry
  | .down, some e => .ok (e.connection.map fun state => { e with
      connection := some (if state = .kConnected then .kDisconnecting else state) })
  | .data _, none => .error .messageEntry
  | .data bytes, some e => (e.message bytes).map some

/-- The entry of an id, the items on their way, and what has been read from the client that owns
the id at the multiplexer, if one does. -/
structure PerId (E : Option Entry) (L : List Item) (own : Option (List UInt8)) : Prop where
  entry : ∀ e ∈ E, e.Ok
  session : ∃ b, after b L = some own.isSome ∧ (b = true → E.isSome)
  content : ∀ x ∈ own, content ((E.map Entry.got).getD []) L = x

/-- The only assertion that an item may fail is that of an entry that has been kept when its client
is announced. -/
theorem PerId.apply {it : Item} (h : PerId E (it :: L) own) :
    (∃ E', apply it E = .ok E' ∧ PerId E' L own) ∨
      (it = .up ∧ E.isSome ∧ apply it E = .error .upEntry) := by
  obtain ⟨b, hafter, hb⟩ := h.session
  cases it with
  | up =>
    cases b with
    | true => cases hafter
    | false =>
      cases E with
      | none =>
        refine Or.inl ⟨some Entry.new, rfl, ⟨?_, ⟨true, hafter, fun _ => rfl⟩, h.content⟩⟩
        intro e he
        exact Option.some.inj he ▸ ok_new
      | some e => exact Or.inr ⟨rfl, rfl, rfl⟩
  | down =>
    cases b with
    | false => cases hafter
    | true =>
      obtain ⟨e, he⟩ := Option.isSome_iff_exists.mp (hb rfl)
      subst he
      refine Or.inl ⟨_, rfl, ⟨?_, ⟨false, hafter, fun hf => nomatch hf⟩, ?_⟩⟩
      · intro e' he'
        obtain ⟨state, hc, heq⟩ := Option.map_eq_some_iff.mp he'
        rw [← heq]
        refine (h.entry e rfl).setConnection (by rw [hc]; simp) fun hstate => ?_
        split_ifs at hstate with hk
        exact absurd hstate hk
      · intro x hx
        have hown : after false L = some true := by
          rw [Option.mem_def.mp hx] at hafter
          exact hafter
        rw [content_of_after hown]
        exact h.content x hx
  | data bytes =>
    cases b with
    | false => cases hafter
    | true =>
      obtain ⟨e, he⟩ := Option.isSome_iff_exists.mp (hb rfl)
      subst he
      obtain ⟨e', hmessage, hok, hgot⟩ := (h.entry e rfl).message bytes
      refine Or.inl ⟨some e', ?_, ⟨?_, ⟨true, hafter, fun _ => rfl⟩, ?_⟩⟩
      · simp only [Multiplex.apply, hmessage]
        rfl
      · intro e'' he''
        exact Option.some.inj he'' ▸ hok
      · intro x hx
        have hcontent := h.content x hx
        rw [← hcontent]
        simp only [Multiplex.content, Option.map_some, Option.getD_some, hgot]

theorem PerId.up (h : PerId E L none) : PerId E (L ++ [.up]) (some []) where
  entry := h.entry
  session := by
    obtain ⟨b, hafter, hb⟩ := h.session
    exact ⟨b, by rw [after_append, hafter]; rfl, hb⟩
  content x hx := by
    rw [content_append]
    exact Option.some.inj hx

theorem PerId.down (h : PerId E L (some x)) : PerId E (L ++ [.down]) none where
  entry := h.entry
  session := by
    obtain ⟨b, hafter, hb⟩ := h.session
    exact ⟨b, by rw [after_append, hafter]; rfl, hb⟩
  content x hx := nomatch hx

theorem PerId.data (bs : List (List UInt8)) (h : PerId E L (some x)) :
    PerId E (L ++ bs.map .data) (some (x ++ bs.flatten)) where
  entry := h.entry
  session := by
    obtain ⟨b, hafter, hb⟩ := h.session
    exact ⟨b, after_data hafter, hb⟩
  content z hz := by
    rw [content_data, h.content x rfl]
    exact Option.some.inj hz

/-- The entry changes, but not what it has got. -/
theorem PerId.setEntry {e e' : Entry} (h : PerId (some e) L own) (hok : e'.Ok)
    (hgot : e'.got = e.got) : PerId (some e') L own where
  entry e'' he'' := Option.some.inj he'' ▸ hok
  session := by
    obtain ⟨b, hafter, -⟩ := h.session
    exact ⟨b, hafter, fun _ => rfl⟩
  content x hx := by
    have hcontent := h.content x hx
    rwa [Option.map_some, ← hgot] at hcontent

end Session

theorem item_notice {id : ℕ} (hid : id < 2 ^ 16) (peer : InetAddress) (up : Bool) (j : ℕ) :
    item j ⟨0, notice id peer up⟩ = if id = j then some (if up then .up else .down) else none := by
  obtain ⟨hcommand, hup⟩ := command_notice hid peer up
  rw [item, if_neg (by simp)]
  simp only [hcommand, hup, Nat.cast_inj]

theorem item_data {id : ℕ} (hid : 1 ≤ id) (bytes : List UInt8) (j : ℕ) :
    item j ⟨id, bytes⟩ = if id = j then some (.data bytes) else none :=
  if_pos (Nat.one_le_iff_ne_zero.mp hid)

theorem items_notice {id : ℕ} (hid : id < 2 ^ 16) (peer : InetAddress) (up : Bool) (j : ℕ) :
    items j [⟨0, notice id peer up⟩] =
      if id = j then [if up then .up else .down] else [] := by
  have hitem := item_notice hid peer up j
  by_cases hj : id = j
  · rw [if_pos hj] at hitem ⊢
    rw [items, List.filterMap_cons_some hitem, List.filterMap_nil]
  · rw [if_neg hj] at hitem ⊢
    rw [items, List.filterMap_cons_none hitem, List.filterMap_nil]

/-- A packet of the multiplexer is about one id, and so is what the demultiplexer does with it. -/
theorem Packet.Known.item {p : Packet} (h : p.Known) :
    ∃ id it, (1 ≤ id ∧ id ≤ kMaxConns) ∧
      (∀ j, Multiplex.item j p = if id = j then some it else none) ∧
      ∀ d : DemuxServer, d.onPacket p = (apply it (d.socksConns id)).map (d.setEntry id) := by
  cases h with
  | notice id peer up hpos hle =>
    have hid : id < 2 ^ 16 := hle.trans_lt (by decide)
    obtain ⟨hcommand, hup⟩ := command_notice hid peer up
    refine ⟨id, if up then .up else .down, ⟨hpos, hle⟩, item_notice hid peer up, fun d => ?_⟩
    rw [DemuxServer.onPacket, if_neg (by simp), DemuxServer.doCommand, hcommand, ok_bind, hup]
    cases up with
    | true =>
      simp only [if_true]
      cases d.socksConns id with
      | none => rfl
      | some e => rfl
    | false =>
      simp only [Bool.false_eq_true, if_false]
      cases d.socksConns id with
      | none => rfl
      | some e =>
        dsimp only [apply]
        cases hc : e.connection with
        | none => rfl
        | some state => rfl
  | data id bytes hpos hle =>
    refine ⟨id, .data bytes, ⟨hpos, hle⟩, item_data hpos bytes, fun d => ?_⟩
    rw [DemuxServer.onPacket, if_pos (Nat.one_le_iff_ne_zero.mp hpos)]
    dsimp only
    cases d.socksConns id with
    | none => rfl
    | some e =>
      dsimp only [apply]
      cases e.message bytes with
      | ok e' => rfl
      | error a => rfl

/-- The packets `ps` are on their way to a demultiplexer with these entries; `own` is what has been
read from the owner of an id. -/
structure Flight (entries : ℤ → Option Entry) (ps : List Packet) (own : ℕ → Option (List UInt8)) :
    Prop where
  known : ∀ p ∈ ps, p.Known
  keys : ∀ n, entries n ≠ none → ∃ id : ℕ, n = id ∧ 1 ≤ id ∧ id ≤ kMaxConns
  perId : ∀ id : ℕ, 1 ≤ id → id ≤ kMaxConns → PerId (entries id) (items id ps) (own id)

section Flight
variable {d : DemuxServer} {p : Packet} {ps : List Packet} {own : ℕ → Option (List UInt8)}

theorem Flight.valid {entries : ℤ → Option Entry} (h : Flight entries ps own) :
    ∀ p ∈ ps, p.Valid := fun p hp => (h.known p hp).valid

/-- One entry is replaced. -/
theorem Flight.setEntry {id : ℕ} {E : Option Entry} (h : Flight d.socksConns ps own)
    (hid : 1 ≤ id ∧ id ≤ kMaxConns) (hE : PerId E (items id ps) (own id)) :
    Flight (d.setEntry id E).socksConns ps own where
  known := h.known
  keys n hn := by
    by_cases heq : n = id
    · exact ⟨id, heq, hid⟩
    · exact h.keys n (by simpa [DemuxServer.setEntry, heq] using hn)
  perId j hj hle := by
    by_cases heq : j = id
    · subst heq
      simpa [DemuxServer.setEntry] using hE
    · simpa [DemuxServer.setEntry, heq] using h.perId j hj hle

theorem Flight.onPacket (h : Flight d.socksConns (p :: ps) own) :
    (∃ id E, d.onPacket p = .ok (d.setEntry id E) ∧
      Flight (d.setEntry id E).socksConns ps own) ∨ d.onPacket p = .error .upEntry := by
  obtain ⟨id, it, hid, hitem, honPacket⟩ := (h.known p List.mem_cons_self).item
  have hperId := h.perId id hid.1 hid.2
  have hhead : items id (p :: ps) = it :: items id ps := by
    rw [items, List.filterMap_cons_some (b := it) (by rw [hitem, if_pos rfl])]
    rfl
  have hrest : ∀ j, j ≠ id → items j (p :: ps) = items j ps := by
    intro j hj
    rw [items, List.filterMap_cons_none (by rw [hitem, if_neg (Ne.symm hj)])]
    rfl
  rw [hhead] at hperId
  rw [honPacket]
  obtain ⟨E, happly, hE⟩ | ⟨-, -, happly⟩ := hperId.apply
  · refine Or.inl ⟨id, E, by rw [happly]; rfl, ⟨?_, ?_, ?_⟩⟩
    · exact fun q hq => h.known q (List.mem_cons_of_mem p hq)
    · intro n hn
      by_cases heq : n = id
      · exact ⟨id, heq, hid⟩
      · exact h.keys n (by simpa [DemuxServer.setEntry, heq] using hn)
    · intro j hj hle
      by_cases heq : j = id
      · subst heq
        simpa [DemuxServer.setEntry] using hE
      · have hother := h.perId j hj hle
        rw [hrest j heq] at hother
        simpa [DemuxServer.setEntry, heq] using hother
  · right
    rw [happly]
    rfl

/-- The loop of `onServerMessage` ends with fewer packets on their way, or fails the assertion that
a client which is announced has no entry. -/
theorem Flight.readPackets {more : List UInt8} {n : ℕ} (h : Flight d.socksConns ps own)
    (hsplit : d.fromServer ++ more = ps.flatMap Packet.bytes) (hn : d.fromServer.length < n) :
    (∃ d' qs, DemuxServer.readPackets n d = .ok d' ∧ Flight d'.socksConns qs own ∧
      d'.fromServer ++ more = qs.flatMap Packet.bytes ∧ nextPacket d'.fromServer = none ∧
        d'.serverConn = d.serverConn) ∨
      DemuxServer.readPackets n d = .error .upEntry := by
  induction n generalizing d ps with
  | zero => omega
  | succ n ih =>
    rw [DemuxServer.readPackets]
    cases hnext : nextPacket d.fromServer with
    | none => exact Or.inl ⟨d, ps, rfl, h, hsplit, hnext, rfl⟩
    | some front =>
      obtain ⟨p, rest⟩ := front
      obtain ⟨qs, hps, hrest⟩ := nextPacket_flatMap h.valid hsplit hnext
      subst hps
      have hlen := length_nextPacket hnext
      have hread : Flight ({ d with fromServer := rest } : DemuxServer).socksConns (p :: qs) own := h
      dsimp only
      obtain ⟨id, E, honPacket, hflight⟩ | honPacket := hread.onPacket
      · rw [honPacket, ok_bind]
        exact ih hflight hrest (by simp only [DemuxServer.setEntry]; omega)
      · right
        rw [honPacket]
        rfl

end Flight

namespace MultiplexServer
variable {C : Type} [DecidableEq C] {m m' : MultiplexServer C} {c : C}

/-- What has been read from the client that has the id. -/
def owned (m : MultiplexServer C) (id : ℕ) : Option (List UInt8) :=
  (m.clientConns.lookup id).map fun c => (m.clients c).got

omit [DecidableEq C] in
theorem sendBackendString_spec {msg : List UInt8} (hb : m.backendConn = true)
    (hlen : msg.length ≤ kMaxPacketLen) :
    m.sendBackendString 0 msg =
      .ok { m with toBackend := m.toBackend ++ Packet.bytes ⟨0, msg⟩ } := by
  obtain ⟨buf, hbuf, hread⟩ := Buffer.new.append_spec msg
  rw [Buffer.readable_new, List.nil_append] at hread
  obtain ⟨buf', hsent, -⟩ := sendPacket_spec 0 (by rw [hread]; exact hlen)
    (roomy_new.append hbuf)
  rw [hread] at hsent
  rw [sendBackendString, if_neg (not_lt.mpr hlen), hbuf]
  simp only [Except.mapError, ok_bind, hb, hsent]
  rfl

/-- What the clients have sent and what is sent to the backend is as before. -/
structure SameInputs (m m' : MultiplexServer C) : Prop where
  toBackend : m'.toBackend = m.toBackend
  client : ∀ c, (m'.clients c).got = (m.clients c).got ∧
    (m'.clients c).inputBuffer = (m.clients c).inputBuffer

omit [DecidableEq C] in
theorem SameInputs.trans {m'' : MultiplexServer C} (h : SameInputs m m') (h' : SameInputs m' m'') :
    SameInputs m m'' where
  toBackend := h'.toBackend.trans h.toBackend
  client c := ⟨(h'.client c).1.trans (h.client c).1, (h'.client c).2.trans (h.client c).2⟩

theorem sameInputs_withClient {n : ℤ} {f : Client → Client}
    (hf : ∀ k, (f k).got = k.got ∧ (f k).inputBuffer = k.inputBuffer) :
    SameInputs m (m.withClient n f) ∧ (m.withClient n f).fromBackend = m.fromBackend := by
  unfold withClient
  split
  · rename_i c _
    refine ⟨⟨rfl, fun d => ?_⟩, rfl⟩
    by_cases hd : d = c
    · subst hd
      rw [clients_setClient_self]
      exact hf _
    · rw [clients_setClient_of_ne hd]
      exact ⟨rfl, rfl⟩
  · exact ⟨⟨rfl, fun _ => ⟨rfl, rfl⟩⟩, rfl⟩

theorem sameInputs_onPacket (p : Packet) :
    SameInputs m (m.onPacket p) ∧ (m.onPacket p).fromBackend = m.fromBackend := by
  have hsend : ∀ k : Client, (k.send p.data).got = k.got ∧
      (k.send p.data).inputBuffer = k.inputBuffer := by
    intro k
    unfold Client.send
    split_ifs
    · exact ⟨rfl, rfl⟩
    · exact ⟨rfl, rfl⟩
  have hshutdown : ∀ k : Client, k.shutdown.got = k.got ∧
      k.shutdown.inputBuffer = k.inputBuffer := by
    intro k
    unfold Client.shutdown
    split_ifs
    · exact ⟨rfl, rfl⟩
    · exact ⟨rfl, rfl⟩
  unfold onPacket doCommand
  dsimp only
  split_ifs
  · exact sameInputs_withClient hsend
  · exact sameInputs_withClient hshutdown
  · exact ⟨⟨rfl, fun _ => ⟨rfl, rfl⟩⟩, rfl⟩

theorem sendToClient_spec {n : ℕ} (hn : m.fromBackend.length < n) :
    ∃ m', sendToClient n m = .ok m' ∧ SameInputs m m' := by
  induction n generalizing m with
  | zero => omega
  | succ n ih =>
    rw [sendToClient]
    cases hnext : nextPacket m.fromBackend with
    | none => exact ⟨m, rfl, ⟨rfl, fun _ => ⟨rfl, rfl⟩⟩⟩
    | some front =>
      obtain ⟨p, rest⟩ := front
      have hlen := length_nextPacket hnext
      obtain ⟨hsame, hfrom⟩ :=
        sameInputs_onPacket (m := { m with fromBackend := rest }) p
      obtain ⟨m', hm', hsame'⟩ := ih (m := { m with fromBackend := rest }.onPacket p) (by
        rw [hfrom]
        exact (Nat.lt_succ_iff.mp hn).trans_lt' hlen)
      exact ⟨m', hm', (SameInputs.trans ⟨hsame.toBackend, hsame.client⟩ hsame')⟩

omit [DecidableEq C] in
/-- A client owns one id. -/
theorem IdsApart.owner_ne {d : C} {id n : ℕ} (h : IdsApart m)
    (hc : (m.clients c).context = some id) (hn : id ≠ n) (hd : m.clientConns.lookup n = some d) :
    d ≠ c := by
  intro heq
  have hcontext := (h.owner n d hd).2.1
  rw [heq, hc] at hcontext
  exact hn (Option.some.inj hcontext)

/-- A client of the backend connection `session`, between the calls. -/
structure ClientOk (session : ℕ) (k : Client) : Prop where
  session : ∀ id, k.context = some id → k.session = session
  buffer : k.inputBuffer.readable = [] ∧ Roomy k.inputBuffer
  unread : k.state = .kConnecting → k.got = []

/-- The server while the connection of the backend is up. -/
structure Steady (m : MultiplexServer C) : Prop extends Inv m where
  backendConn : m.backendConn = true
  client : ∀ c, ClientOk m.session (m.clients c)

theorem Steady.update {k : Client} (h : Steady m) (hk : ClientOk m.session k) :
    ∀ d, ClientOk m.session (Function.update m.clients c k d) :=
  (Function.forall_update_iff m.clients fun _ => ClientOk m.session).mpr ⟨hk, fun d _ => h.client d⟩

/-- Sending `ps` accounts for the change of what the owners of the ids have sent. -/
structure Sends (own own' : ℕ → Option (List UInt8)) (ps : List Packet) : Prop where
  known : ∀ p ∈ ps, p.Known
  perId : ∀ id : ℕ, 1 ≤ id → id ≤ kMaxConns → ∀ E L, PerId E L (own id) →
    PerId E (L ++ items id ps) (own' id)

theorem sends_nil (own : ℕ → Option (List UInt8)) : Sends own own [] where
  known p hp := nomatch hp
  perId id _ _ E L h := by simpa [items] using h

theorem Sends.flight {entries : ℤ → Option Entry} {ps qs : List Packet}
    {own own' : ℕ → Option (List UInt8)} (h : Sends own own' qs) (hf : Flight entries ps own) :
    Flight entries (ps ++ qs) own' where
  known p hp := (List.mem_append.mp hp).elim (hf.known p) (h.known p)
  keys := hf.keys
  perId id hid hle := by
    rw [items, List.filterMap_append]
    exact h.perId id hid hle _ _ (hf.perId id hid hle)

theorem items_of_id {id j : ℕ} {ps : List Packet} (hid : 1 ≤ id) (hps : ∀ p ∈ ps, p.id = id) :
    items j ps = if id = j then ps.map fun p => .data p.data else [] := by
  induction ps with
  | nil =>
    rw [items, List.filterMap_nil, List.map_nil, ite_self]
  | cons p ps ih =>
    have hp := hps p List.mem_cons_self
    have hrest := ih fun q hq => hps q (List.mem_cons_of_mem p hq)
    have hitem := item_data hid p.data j
    rw [← hp] at hitem
    unfold items at hrest ⊢
    rw [List.filterMap_cons, hrest]
    have hitem' : item j p = if id = j then some (.data p.data) else none := by
      rw [← hp]
      exact hitem
    rw [hitem']
    split_ifs
    · rfl
    · rfl

omit [DecidableEq C] in
theorem owned_congr {id : ℕ} (hlookup : m'.clientConns.lookup id = m.clientConns.lookup id)
    (hgot : ∀ d, m.clientConns.lookup id = some d → (m'.clients d).got = (m.clients d).got) :
    m'.owned id = m.owned id := by
  rw [owned, owned, hlookup]
  exact Option.map_congr hgot

/-- A client that does not own the id changes. -/
theorem owned_setClient {k : Client} {id : ℕ} (hc : m.clientConns.lookup id ≠ some c) :
    (m.setClient c k).owned id = m.owned id := by
  have hlookup : (m.setClient c k).clientConns.lookup id = m.clientConns.lookup id := rfl
  apply owned_congr hlookup
  intro d hd
  have hne : d ≠ c := fun heq => hc (heq ▸ hd)
  rw [clients_setClient_of_ne hne]

theorem sends_setClient {k : Client} (hc : ∀ id, m.clientConns.lookup id ≠ some c) :
    Sends m.owned (m.setClient c k).owned [] := by
  have hown : (m.setClient c k).owned = m.owned := funext fun id => owned_setClient (hc id)
  rw [hown]
  exact sends_nil _

omit [DecidableEq C] in
/-- A client without an id owns none. -/
theorem IdsApart.not_owner (h : IdsApart m) (hc : (m.clients c).context = none) (id : ℕ) :
    m.clientConns.lookup id ≠ some c := by
  intro hid
  have hcontext := (h.owner id c hid).2.1
  rw [hc] at hcontext
  cases hcontext

theorem Steady.onClientUp (h : Steady m) (hc : (m.clients c).state = .kConnecting)
    (peer : InetAddress) :
    ∃ m' ps, m.onClientUp c peer = .ok m' ∧ Steady m' ∧
      m'.toBackend = m.toBackend ++ ps.flatMap Packet.bytes ∧ Sends m.owned m'.owned ps := by
  have hnone := h.fresh c hc
  have hk := h.client c
  cases hids : m.availIds with
  | nil =>
    have hstep : m.onClientUp c peer = .ok (m.setClient c
        { m.clients c with state := .kDisconnecting, peer }) := by
      rw [MultiplexServer.onClientUp, hids]
      rfl
    refine ⟨_, [], hstep, ⟨h.toInv.onClientUp hc hstep, h.backendConn, h.update ?_⟩,
      (List.append_nil _).symm, ?_⟩
    · exact ⟨hk.session, hk.buffer, (fun heq => nomatch heq)⟩
    · exact sends_setClient (h.not_owner hnone)
  | cons id ids =>
    have hid := (h.ids h.backendConn id).mp (Or.inl (by simp [hids]))
    have hfree : id ∉ m.clientConns := h.disjoint id (by simp [hids])
    have hnone' : ∀ n, m.clientConns.lookup n ≠ some c := h.not_owner hnone
    have hstep : m.onClientUp c peer = .ok { ({ m with
        availIds := ids, clientConns := m.clientConns.insert id c }.setClient c
        { m.clients c with
          state := .kConnected, peer, context := some id, session := m.session }) with
        toBackend := m.toBackend ++ Packet.bytes ⟨0, notice id peer true⟩ } := by
      rw [MultiplexServer.onClientUp, hids]
      dsimp only
      rw [if_neg (by omega)]
      exact sendBackendString_spec h.backendConn (length_notice id peer true)
    refine ⟨_, [⟨0, notice id peer true⟩], hstep,
      ⟨h.toInv.onClientUp hc hstep, h.backendConn, h.update ?_⟩, by simp, ⟨?_, ?_⟩⟩
    · exact ⟨fun _ _ => rfl, hk.buffer, (fun heq => nomatch heq)⟩
    · intro p hp
      rw [List.mem_singleton.mp hp]
      exact .notice id peer true hid.1 hid.2
    · intro n _ _ E L hE
      rw [items_notice (hid.2.trans_lt (by decide))]
      by_cases hn : id = n
      · subst hn
        have hown : m.owned id = none := by
          rw [owned, Finmap.lookup_eq_none.mpr hfree, Option.map_none]
        have hgot : (m.clients c).got = [] := hk.unread hc
        rw [hown] at hE
        rw [if_pos rfl]
        simpa [owned, setClient, hgot] using hE.up
      · rw [if_neg hn, List.append_nil, owned_congr (Finmap.lookup_insert_of_ne _ (Ne.symm hn))]
        · exact hE
        · intro d hd
          have hne : d ≠ c := fun heq => hnone' n (heq ▸ hd)
          exact congrArg Client.got (clients_setClient_of_ne hne)

theorem Steady.onClientDown (h : Steady m) (hc : (m.clients c).Open) :
    ∃ m' ps, m.onClientDown c = .ok m' ∧ Steady m' ∧
      m'.toBackend = m.toBackend ++ ps.flatMap Packet.bytes ∧ Sends m.owned m'.owned ps := by
  have hk := h.client c
  have hk' : ClientOk m.session { m.clients c with state := .kDisconnected } :=
    ⟨hk.session, hk.buffer, (fun heq => nomatch heq)⟩
  cases hcontext : (m.clients c).context with
  | none =>
    have hstep : m.onClientDown c =
        .ok (m.setClient c { m.clients c with state := .kDisconnected }) := by
      rw [MultiplexServer.onClientDown]
      simp only [hcontext]
      rfl
    refine ⟨_, [], hstep, ⟨inv_step (e := .down c) h.toInv ?_ hc hstep, h.backendConn,
      h.update hk'⟩, (List.append_nil _).symm, ?_⟩
    · intro d hd _ hne
      cases hd
      exact absurd hcontext hne
    · exact sends_setClient (h.not_owner hcontext)
  | some id =>
    have hid := (h.context c id hcontext).1
    have hlookup := h.current h.backendConn c id hc hcontext (hk.session id hcontext)
    have hstep : m.onClientDown c = .ok { (m.setClient c
        { m.clients c with state := .kDisconnected }) with
        availIds := m.availIds ++ [id]
        clientConns := m.clientConns.erase id
        toBackend := m.toBackend ++ Packet.bytes ⟨0, notice id (m.clients c).peer false⟩ } := by
      rw [MultiplexServer.onClientDown]
      simp only [hcontext]
      have hrange : ¬ ¬ (0 < id ∧ id ≤ kMaxConns) := not_not.mpr hid
      rw [if_neg hrange, sendBackendString_spec (m := m.setClient c _) h.backendConn
        (length_notice id (m.clients c).peer false), ok_bind]
      exact if_pos h.backendConn
    refine ⟨_, [⟨0, notice id (m.clients c).peer false⟩], hstep,
      ⟨inv_step (e := .down c) h.toInv ?_ hc hstep, h.backendConn, h.update hk'⟩, by simp,
      ⟨?_, ?_⟩⟩
    · intro d hd _ _
      cases hd
      exact hk.session id hcontext
    · intro p hp
      rw [List.mem_singleton.mp hp]
      exact .notice id (m.clients c).peer false hid.1 hid.2
    · intro n _ _ E L hE
      rw [items_notice (hid.2.trans_lt (by decide))]
      by_cases hn : id = n
      · subst hn
        rw [owned, hlookup, Option.map_some] at hE
        rw [if_pos rfl]
        simpa [owned] using hE.down
      · rw [if_neg hn, List.append_nil, owned_congr (Finmap.lookup_erase_ne (Ne.symm hn))]
        · exact hE
        · intro d hd
          exact congrArg Client.got
            (clients_setClient_of_ne (h.owner_ne hcontext hn hd))

theorem Steady.onClientMessage (h : Steady m) (hc : (m.clients c).Open) (bytes : List UInt8) :
    ∃ m' ps, m.onClientMessage c bytes = .ok m' ∧ Steady m' ∧
      m'.toBackend = m.toBackend ++ ps.flatMap Packet.bytes ∧ Sends m.owned m'.owned ps := by
  have hk := h.client c
  have hconnecting : (m.clients c).state ≠ .kConnecting := by
    intro heq
    rw [Client.Open, heq] at hc
    simp at hc
  obtain ⟨buf, hread, hbuf⟩ := (m.clients c).inputBuffer.readFd_spec bytes
  rw [hk.buffer.1, List.nil_append] at hbuf
  cases hcontext : (m.clients c).context with
  | none =>
    have hstep : m.onClientMessage c bytes =
        .ok (m.setClient c { m.clients c with inputBuffer := buf.retrieveAll }) := by
      rw [MultiplexServer.onClientMessage]
      simp only [hread, Except.mapError, ok_bind, hcontext]
      rfl
    refine ⟨_, [], hstep, ⟨(onClientMessage_same hstep).inv h.toInv, h.backendConn,
      h.update ⟨hk.session, ⟨buf.readable_retrieveAll, roomy_retrieveAll buf⟩, ?_⟩⟩,
      (List.append_nil _).symm, ?_⟩
    · exact fun heq => absurd heq hconnecting
    · exact sends_setClient (h.not_owner hcontext)
  | some id =>
    have hid := (h.context c id hcontext).1
    have hlookup := h.current h.backendConn c id hc hcontext (hk.session id hcontext)
    have hlen : buf.readable.length < buf.readableBytes + 1 := by
      rw [Buffer.length_readable]
      exact Nat.lt_succ_self _
    obtain ⟨ps, buf', hsent, hcut, hempty, hroom⟩ :=
      sendBuffer_spec id hlen (hk.buffer.2.readFd hread)
    rw [hbuf] at hcut
    have hstep : m.onClientMessage c bytes = .ok { (m.setClient c { m.clients c with
        inputBuffer := buf', got := (m.clients c).got ++ bytes }) with
        toBackend := m.toBackend ++ ps.flatMap Packet.bytes } := by
      rw [MultiplexServer.onClientMessage]
      simp only [hread, Except.mapError, ok_bind, hcontext, h.backendConn, hsent]
      rfl
    refine ⟨_, ps, hstep, ⟨(onClientMessage_same hstep).inv h.toInv, h.backendConn,
      h.update ⟨hk.session, ⟨hempty, hroom⟩, fun heq => absurd heq hconnecting⟩⟩, rfl, ⟨?_, ?_⟩⟩
    · intro p hp
      have hpacket : Packet.Known ⟨p.id, p.data⟩ := .data p.id p.data
        (by rw [hcut.id_eq p hp]; exact hid.1) (by rw [hcut.id_eq p hp]; exact hid.2)
        (hcut.pos p hp) (hcut.le p hp)
      exact hpacket
    · intro n _ _ E L hE
      rw [items_of_id hid.1 hcut.id_eq]
      by_cases hn : id = n
      · subst hn
        rw [owned, hlookup, Option.map_some] at hE
        have hdata := hE.data (ps.map Packet.data)
        rw [List.map_map, ← List.flatMap_def, hcut.data_eq] at hdata
        rw [if_pos rfl]
        simpa [owned, hlookup, setClient, Function.comp_def] using hdata
      · have hsame : (m.setClient c { m.clients c with
            inputBuffer := buf', got := (m.clients c).got ++ bytes }).clientConns.lookup n =
            m.clientConns.lookup n := rfl
        rw [if_neg hn, List.append_nil]
        show PerId E L ((m.setClient c _).owned n)
        rw [owned_congr hsame]
        · exact hE
        · intro d hd
          exact congrArg Client.got
            (clients_setClient_of_ne (h.owner_ne hcontext hn hd))

theorem Steady.onBackendMessage (h : Steady m) (bytes : List UInt8) :
    ∃ m', m.onBackendMessage bytes = .ok m' ∧ Steady m' ∧ m'.toBackend = m.toBackend ∧
      m'.owned = m.owned := by
  obtain ⟨m', hm', hinputs⟩ := sendToClient_spec
    (m := { m with fromBackend := m.fromBackend ++ bytes }) (Nat.lt_succ_self _)
  have hfirst : SameIds m { m with fromBackend := m.fromBackend ++ bytes } :=
    ⟨rfl, rfl, rfl, rfl, fun _ => ⟨Iff.rfl, Iff.rfl⟩, fun _ => ⟨rfl, rfl⟩⟩
  have hsame := hfirst.trans (sendToClient_same hm')
  refine ⟨m', hm', ⟨hsame.inv h.toInv, hsame.backendConn.trans h.backendConn, fun c => ?_⟩,
    hinputs.toBackend, ?_⟩
  · have hk := h.client c
    refine ⟨fun id hid => ?_, ?_, fun hstate => ?_⟩
    · rw [(hsame.context c).2, hsame.session]
      exact hk.session id ((hsame.context c).1.symm.trans hid)
    · rw [(hinputs.client c).2]
      exact hk.buffer
    · rw [(hinputs.client c).1]
      exact hk.unread ((hsame.state c).2.mp hstate)
  · ext1 id
    exact owned_congr (congrArg (Finmap.lookup id) hsame.clientConns)
      fun d _ => (hinputs.client d).1

end MultiplexServer

namespace Tunnel
variable {C : Type} [DecidableEq C]

def withMux (s : Tunnel C) (mux : Except Fault (MultiplexServer C)) : Except Fault (Tunnel C) := do
  let mux ← mux
  return { s with mux }

def withDemux (s : Tunnel C) (demux : Except Fault DemuxServer) : Except Fault (Tunnel C) := do
  let demux ← demux
  return { s with demux }

def step (s : Tunnel C) : TunnelEvent C → Except Fault (Tunnel C)
  | .up c peer => s.withMux (s.mux.onClientUp c peer)
  | .down c => s.withMux (s.mux.onClientDown c)
  | .message c bytes => s.withMux (s.mux.onClientMessage c bytes)
  | .toDemux n =>
    { s with mux := { s.mux with toBackend := s.mux.toBackend.drop n } }.withDemux
      (s.demux.onServerMessage (s.mux.toBackend.take n))
  | .toMux n =>
    { s with demux := { s.demux with toServer := s.demux.toServer.drop n } }.withMux
      (s.mux.onBackendMessage (s.demux.toServer.take n))
  | .socksUp connId => s.withDemux (s.demux.onSocksUp connId)
  | .socksDown connId => s.withDemux (s.demux.onSocksDown connId)
  | .socksMessage connId bytes => s.withDemux (s.demux.onSocksMessage connId bytes)

/-- A `TcpClient` connects once, and an erased one no more. -/
def enabled (s : Tunnel C) : TunnelEvent C → Prop
  | .up c _ => (s.mux.clients c).state = .kConnecting
  | .down c | .message c _ => (s.mux.clients c).Open
  | .toDemux n => n ≤ s.mux.toBackend.length
  | .toMux n => n ≤ s.demux.toServer.length
  | .socksUp connId => ∃ e ∈ s.demux.socksConns connId, e.connection = none
  | .socksDown connId | .socksMessage connId _ => ∃ e ∈ s.demux.socksConns connId,
    e.connection = some .kConnected ∨ e.connection = some .kDisconnecting

/-- The multiplexer and the demultiplexer have just connected. -/
def init : Tunnel C where
  mux := { MultiplexServer.init with
    backendConn := true, availIds := List.range' 1 kMaxConns, session := 1 }
  demux := ⟨true, fun _ => none, [], []⟩

def system : System (Tunnel C) (TunnelEvent C) Fault where
  init := (· = init)
  enabled := enabled
  step := step

instance (s : Tunnel C) (e : TunnelEvent C) : Decidable ((system (C := C)).enabled s e) :=
  match e with
  | .up c _ => inferInstanceAs (Decidable ((s.mux.clients c).state = .kConnecting))
  | .down c | .message c _ => inferInstanceAs (Decidable (s.mux.clients c).Open)
  | .toDemux n => inferInstanceAs (Decidable (n ≤ s.mux.toBackend.length))
  | .toMux n => inferInstanceAs (Decidable (n ≤ s.demux.toServer.length))
  | .socksUp connId => inferInstanceAs (Decidable (∃ e ∈ s.demux.socksConns connId, _ = _))
  | .socksDown connId | .socksMessage connId _ =>
    inferInstanceAs (Decidable (∃ e ∈ s.demux.socksConns connId, _ ∨ _))

variable {s t : Tunnel C} {e : TunnelEvent C} {id : ℕ}

structure Inv (s : Tunnel C) : Prop where
  mux : s.mux.Steady
  serverConn : s.demux.serverConn = true
  read : nextPacket s.demux.fromServer = none
  flight : ∃ ps, s.demux.fromServer ++ s.mux.toBackend = ps.flatMap Packet.bytes ∧
    Flight s.demux.socksConns ps s.mux.owned

omit [DecidableEq C] in
/-- A call of the multiplexer that sends what it accounts for. -/
theorem Inv.withMux {m : MultiplexServer C} {qs : List Packet} (h : Inv s) (hm : m.Steady)
    (hsent : m.toBackend = s.mux.toBackend ++ qs.flatMap Packet.bytes)
    (hqs : MultiplexServer.Sends s.mux.owned m.owned qs) : Inv { s with mux := m } := by
  obtain ⟨ps, hps, hflight⟩ := h.flight
  refine ⟨hm, h.serverConn, h.read, ps ++ qs, ?_, hqs.flight hflight⟩
  show s.demux.fromServer ++ m.toBackend = _
  rw [hsent, ← List.append_assoc, hps, List.flatMap_append]

omit [DecidableEq C] in
/-- An entry changes, but not what it has got. -/
theorem Inv.setEntry {e e' : Entry} {bytes : List UInt8} (h : Inv s)
    (he : s.demux.socksConns id = some e) (hok : e.Ok → e'.Ok) (hgot : e'.got = e.got) :
    Inv { s with demux := { s.demux.setEntry id (some e') with toServer := bytes } } := by
  obtain ⟨ps, hps, hflight⟩ := h.flight
  obtain ⟨n, hn, hid⟩ := hflight.keys id (by rw [he]; simp)
  have hn : id = n := by exact_mod_cast hn
  subst hn
  have hperId := hflight.perId id hid.1 hid.2
  rw [he] at hperId
  exact ⟨h.mux, h.serverConn, h.read, ps, hps,
    hflight.setEntry hid (hperId.setEntry (hok (hperId.entry e rfl)) hgot)⟩

omit [DecidableEq C] in
theorem Inv.entry {e : Entry} (h : Inv s) (he : s.demux.socksConns id = some e) : e.Ok := by
  obtain ⟨ps, -, hflight⟩ := h.flight
  obtain ⟨n, hn, hid⟩ := hflight.keys id (by rw [he]; simp)
  have hperId := hflight.perId n hid.1 hid.2
  rw [← hn] at hperId
  exact hperId.entry e he

theorem Inv.socksUp (h : Inv s) (he : enabled s (.socksUp id)) :
    ∃ t, step s (.socksUp id) = .ok t ∧ Inv t := by
  obtain ⟨e, he, hnone⟩ := he
  have he : s.demux.socksConns id = some e := he
  refine ⟨{ s with demux := s.demux.setEntry id (some e.socksUp) }, ?_,
    h.setEntry he (fun hok => hok.socksUp hnone) rfl⟩
  rw [step, DemuxServer.onSocksUp, he]
  rfl

theorem Inv.socksDown (h : Inv s) (he : enabled s (.socksDown id)) :
    ∃ t, step s (.socksDown id) = .ok t ∧ Inv t := by
  obtain ⟨e, he, hstate⟩ := he
  have he : s.demux.socksConns id = some e := he
  have hconnection : e.connection ≠ none := by
    intro hnone
    rw [hnone] at hstate
    simp at hstate
  obtain ⟨buf, hbuf, hread⟩ := Buffer.new.append_spec
    ((text "DISCONNECT " ++ numeral id ++ text "\r\n").take 255)
  have hlen : buf.readable.length ≤ kMaxPacketLen := by
    rw [hread, Buffer.readable_new, List.nil_append, List.length_take]
    exact Nat.min_le_left ..
  obtain ⟨buf', hsent, -⟩ := sendPacket_spec 0 hlen (roomy_new.append hbuf)
  refine ⟨{ s with demux := { s.demux.setEntry id
      (some { e with connection := some .kDisconnected }) with
      toServer := s.demux.toServer ++ Packet.bytes ⟨0, buf.readable⟩ } }, ?_,
    h.setEntry he (fun hok => hok.setConnection hconnection fun heq => nomatch heq) rfl⟩
  rw [step, DemuxServer.onSocksDown, he]
  simp only [h.serverConn, if_true, hbuf, Except.mapError, ok_bind, hsent]
  rfl

theorem Inv.socksMessage {bytes : List UInt8} (h : Inv s)
    (he : enabled s (.socksMessage id bytes)) :
    ∃ t, step s (.socksMessage id bytes) = .ok t ∧ Inv t := by
  obtain ⟨e, he, -⟩ := he
  have he : s.demux.socksConns id = some e := he
  have hok := h.entry he
  obtain ⟨buf, hread, hbuf⟩ := e.inputBuffer.readFd_spec bytes
  have hlen : buf.readable.length < buf.readableBytes + 1 := by
    rw [Buffer.length_readable]
    exact Nat.lt_succ_self _
  obtain ⟨ps, buf', hsent, -, hempty, hroom⟩ :=
    sendBuffer_spec id hlen (hok.buffer.2.readFd hread)
  refine ⟨{ s with demux := { s.demux.setEntry id (some { e with inputBuffer := buf' }) with
      toServer := s.demux.toServer ++ ps.flatMap Packet.bytes } }, ?_,
    h.setEntry he (fun hok => { hok with buffer := ⟨hempty, hroom⟩ }) rfl⟩
  rw [step, DemuxServer.onSocksMessage, he]
  simp only [hread, Except.mapError, ok_bind, h.serverConn, hsent]
  rfl

theorem Inv.toDemux {n : ℕ} (h : Inv s) :
    (∃ t, step s (.toDemux n) = .ok t ∧ Inv t) ∨ step s (.toDemux n) = .error .upEntry := by
  obtain ⟨ps, hps, hflight⟩ := h.flight
  have hsplit : s.demux.fromServer ++ s.mux.toBackend.take n ++ s.mux.toBackend.drop n =
      ps.flatMap Packet.bytes := by
    rw [List.append_assoc, List.take_append_drop, hps]
  have hread : Flight ({ s.demux with
      fromServer := s.demux.fromServer ++ s.mux.toBackend.take n } : DemuxServer).socksConns ps
      s.mux.owned := hflight
  rw [step, DemuxServer.onServerMessage]
  obtain ⟨d', qs, hd', hflight', hrest, hnext, hserver⟩ | herror :=
    hread.readPackets hsplit (Nat.lt_succ_self _)
  · rw [hd']
    refine Or.inl ⟨_, rfl, ?_, hserver.trans h.serverConn, hnext, qs, hrest, hflight'⟩
    exact ⟨⟨⟨h.mux.nodup, h.mux.disjoint, h.mux.ids, h.mux.noBackend, h.mux.owner, h.mux.current⟩,
      h.mux.context, h.mux.fresh⟩, h.mux.backendConn, h.mux.client⟩
  · right
    rw [herror]
    rfl

/-- Every step is taken, but for one that announces a client to the demultiplexer for whose id it
has kept an entry. -/
theorem Inv.step (h : Inv s) (he : enabled s e) :
    (∃ t, step s e = .ok t ∧ Inv t) ∨ step s e = .error .upEntry := by
  cases e with
  | up c peer =>
    obtain ⟨m, qs, hm, hsteady, hsent, hqs⟩ := h.mux.onClientUp he peer
    exact Or.inl ⟨_, by rw [Tunnel.step, hm]; rfl, h.withMux hsteady hsent hqs⟩
  | down c =>
    obtain ⟨m, qs, hm, hsteady, hsent, hqs⟩ := h.mux.onClientDown he
    exact Or.inl ⟨_, by rw [Tunnel.step, hm]; rfl, h.withMux hsteady hsent hqs⟩
  | message c bytes =>
    obtain ⟨m, qs, hm, hsteady, hsent, hqs⟩ := h.mux.onClientMessage he bytes
    exact Or.inl ⟨_, by rw [Tunnel.step, hm]; rfl, h.withMux hsteady hsent hqs⟩
  | toDemux n => exact h.toDemux
  | toMux n =>
    obtain ⟨m, hm, hsteady, hsent, howned⟩ :=
      h.mux.onBackendMessage (s.demux.toServer.take n)
    have hqs : MultiplexServer.Sends s.mux.owned m.owned [] := by
      rw [howned]
      exact MultiplexServer.sends_nil _
    have hinv := h.withMux hsteady (by simp [hsent]) hqs
    exact Or.inl ⟨⟨m, { s.demux with toServer := s.demux.toServer.drop n }⟩,
      by rw [Tunnel.step, hm]; rfl, hinv.mux, hinv.serverConn, hinv.read, hinv.flight⟩
  | socksUp id => exact Or.inl (h.socksUp he)
  | socksDown id => exact Or.inl (h.socksDown he)
  | socksMessage id bytes => exact Or.inl (h.socksMessage he)

theorem inv_init : Inv (init : Tunnel C) where
  mux := by
    have hinv := (MultiplexServer.inv_init (C := C)).onBackendUp rfl rfl
    refine ⟨⟨⟨hinv.nodup, hinv.disjoint, hinv.ids, hinv.noBackend, hinv.owner, hinv.current⟩,
      hinv.context, hinv.fresh⟩, rfl, fun c => ?_⟩
    exact ⟨(fun _ heq => nomatch heq), ⟨Buffer.readable_new, roomy_new⟩, fun _ => rfl⟩
  serverConn := rfl
  read := rfl
  flight := by
    refine ⟨[], rfl, (fun p hp => nomatch hp), fun n hn => absurd rfl hn, fun id _ _ => ?_⟩
    exact ⟨(fun e he => nomatch he), ⟨false, rfl, (fun hf => nomatch hf)⟩, fun x hx => nomatch hx⟩

theorem invariant : Invariant (system (C := C)) Inv where
  init s hs := by
    have hs : s = init := hs
    exact hs ▸ inv_init
  step s e t h he hs := by
    obtain ⟨t', ht', hinv⟩ | herror := h.step he
    · exact Except.ok.inj (ht'.symm.trans hs) ▸ hinv
    · cases herror.symm.trans hs

end Tunnel
end Muduo.Multiplex
