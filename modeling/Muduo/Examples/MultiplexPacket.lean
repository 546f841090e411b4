import Mathlib
import Muduo.Buffer
import Muduo.LogStream

/-!
# The packets of the multiplexer

What `examples/multiplexer/multiplexer_simple.cc` and `examples/multiplexer/demux.cc` send to each
other: packets of at most 255 bytes, each with the id of a client in front. The two sides have
the same loops for cutting a buffer into packets and for taking packets off a buffer.
-/
namespace Muduo.Multiplex

def kMaxPacketLen : ℕ := 255

def kHeaderLen : ℕ := 3

inductive Fault
  /-- `sendBackendPacket`, `sendServerPacket`: `len <= kMaxPacketLen` -/
  | packetLen
  /-- an assertion of `Buffer` -/
  | buffer (a : Assertion)
  /-- `MultiplexServer::onClientConnection`: `id > 0 && id <= kMaxConns` -/
  | clientId
  /-- `MultiplexServer::onClientConnection`: `availIds_.empty()`, `clientConns_.empty()` -/
  | noBackend
  /-- `MultiplexServer::onBackendConnection`: `availIds_.empty()` -/
  | availIds
  /-- `DemuxServer::onServerMessage`: `socksConns_.find(connId) != socksConns_.end()` -/
  | messageEntry
  /-- `DemuxServer::onServerMessage`: `pending.readableBytes() == 0` -/
  | messagePending
  /-- `DemuxServer::doCommand`, up: `socksConns_.find(connId) == socksConns_.end()` -/
  | upEntry
  /-- `DemuxServer::doCommand`, down: `socksConns_.find(connId) != socksConns_.end()` -/
  | downEntry
  /-- `DemuxServer::onSocksConnection`: `socksConns_.find(connId) != socksConns_.end()` -/
  | socksEntry
  /-- `&cmd[kConn.size()]` past the end of `cmd`; not asserted, but undefined -/
  | commandLen
  /-- a loop that has not ended; not asserted -/
  | hangs
  deriving DecidableEq

structure Packet where
  id : ℕ
  data : List UInt8
  deriving DecidableEq

/-- The header that is put in front of `len` bytes. -/
def header (len id : ℕ) : List UInt8 :=
  [.ofNat len, .ofNat (id &&& 0xFF), .ofNat ((id &&& 0xFF00) >>> 8)]

def Packet.bytes (p : Packet) : List UInt8 := header p.data.length p.id ++ p.data

/-- What a packet must be for its header to tell it, and for the other side not to wait on. -/
structure Packet.Valid (p : Packet) : Prop where
  id_lt : p.id < 2 ^ 16
  pos : 0 < p.data.length
  le : p.data.length ≤ kMaxPacketLen

/-- `sendBackendPacket` and `sendServerPacket`: the bytes for the other side, and the buffer that
is left. Without a connection the buffer keeps the header. -/
def sendPacket (connected : Bool) (id : ℕ) (buf : Buffer) :
    Except Fault (List UInt8 × Buffer) := do
  if kMaxPacketLen < buf.readableBytes then throw .packetLen
  let buf ← (buf.prepend (header buf.readableBytes id)).mapError .buffer
  return if connected then (buf.readable, buf.retrieveAll) else ([], buf)

/-- `sendBackendBuffer`, and the same in `onSocksMessage`, for at most `n` packets. -/
def sendBuffer (connected : Bool) (id : ℕ) : ℕ → Buffer → Except Fault (List UInt8 × Buffer)
  | 0, _ => .error .hangs
  | n + 1, buf => do
    if buf.readableBytes > kMaxPacketLen then
      let packet ← (Buffer.new.append (buf.readable.take kMaxPacketLen)).mapError Fault.buffer
      let buf ← (buf.retrieve kMaxPacketLen).mapError Fault.buffer
      let (sent, _) ← sendPacket connected id packet
      let (more, buf) ← sendBuffer connected id n buf
      return (sent ++ more, buf)
    else if buf.readableBytes > 0 then sendPacket connected id buf
    else return ([], buf)

/-- The packet at the front of what has arrived, and the bytes behind it. -/
def nextPacket : List UInt8 → Option (Packet × List UInt8)
  | len :: id₀ :: id₁ :: rest =>
    if rest ≠ [] ∧ len.toNat ≤ rest.length then
      some (⟨id₀.toNat ||| id₁.toNat <<< 8, rest.take len.toNat⟩, rest.drop len.toNat)
    else none
  | _ => none

/-- `%d` and `%u`, for what is not negative -/
def numeral (n : ℕ) : List UInt8 := text (toString n)

/-- `InetAddress` -/
structure InetAddress where
  ip : UInt8 × UInt8 × UInt8 × UInt8
  port : UInt16
  deriving DecidableEq

def InetAddress.toIpPort (a : InetAddress) : List UInt8 :=
  numeral a.ip.1.toNat ++ text "." ++ numeral a.ip.2.1.toNat ++ text "." ++
    numeral a.ip.2.2.1.toNat ++ text "." ++ numeral a.ip.2.2.2.toNat ++ text ":" ++
    numeral a.port.toNat

/-- What `sendBackendString` is given for a connection that goes up or down, from a
`char buf[256]`. -/
def notice (id : ℕ) (peer : InetAddress) (up : Bool) : List UInt8 :=
  (text "CONN " ++ numeral id ++ text " FROM " ++ peer.toIpPort ++
    text (if up then " IS UP\r\n" else " IS DOWN\r\n")).take 255

/-- The digits at the front, as `atoi` reads them. -/
def leadingNumber (s : List UInt8) : ℕ :=
  (s.takeWhile fun b => 48 ≤ b ∧ b ≤ 57).foldl (fun n b => 10 * n + (b.toNat - 48)) 0

/-- `atoi`, for what fits into an `int`: white space, a sign, and the digits that follow. -/
def atoi (s : List UInt8) : ℤ :=
  match s.dropWhile fun b => b = 32 ∨ (9 ≤ b ∧ b ≤ 13) with
  | 45 :: s => -leadingNumber s
  | 43 :: s => leadingNumber s
  | s => leadingNumber s

/-- `doCommand` of the demultiplexer: the connection that `cmd` is about. -/
def commandId (cmd : List UInt8) : Except Fault ℤ :=
  if (text "CONN ").length ≤ cmd.length then .ok (atoi (cmd.drop (text "CONN ").length))
  else .error .commandLen

/-- and whether it is up -/
def commandUp (cmd : List UInt8) : Bool := (ListSearch.search (text " IS UP") cmd).isSome

section Numeral
variable {n : ℕ} {b : UInt8}

theorem numeral_eq (n : ℕ) : numeral n = (Nat.toDigits 10 n).map LogStream.byteOf :=
  LogStream.text_toString n

theorem length_numeral_le {d : ℕ} (hd : 0 < d) (h : n < 10 ^ d) : (numeral n).length ≤ d := by
  rw [numeral_eq, List.length_map]
  exact (Nat.length_toDigits_le_iff (by decide) hd).mpr h

/-- The byte of a digit has the number of its character. -/
theorem toNat_byteOf {c : Char} (h : c ∈ Nat.toDigits 10 n) :
    (LogStream.byteOf c).toNat = c.toNat ∧ 48 ≤ c.toNat ∧ c.toNat ≤ 57 := by
  have hdigit := Nat.isDigit_of_mem_toDigits (by decide) (by decide) h
  rw [Char.isDigit_iff_toNat] at hdigit
  have hzero : '0'.toNat = 48 := rfl
  have hnine : '9'.toNat = 57 := rfl
  refine ⟨?_, by omega, by omega⟩
  rw [LogStream.byteOf, UInt8.toNat_ofNat', Nat.mod_eq_of_lt (by omega)]

theorem mem_numeral (h : b ∈ numeral n) : 48 ≤ b ∧ b ≤ 57 := by
  rw [numeral_eq] at h
  obtain ⟨c, hc, heq⟩ := List.mem_map.mp h
  subst heq
  rw [UInt8.le_iff_toNat_le, UInt8.le_iff_toNat_le, (toNat_byteOf hc).1]
  exact (toNat_byteOf hc).2

theorem numeral_ne_nil (n : ℕ) : numeral n ≠ [] := by
  rw [numeral_eq]
  simp

/-- `atoi` reads a numeral back that is followed by something else than a digit. -/
theorem atoi_numeral {rest : List UInt8} (hrest : ∀ b ∈ rest.head?, ¬ (48 ≤ b ∧ b ≤ 57)) :
    atoi (numeral n ++ rest) = n := by
  have hnumber : leadingNumber (numeral n ++ rest) = n := by
    have hrest' : rest.takeWhile (fun b => 48 ≤ b ∧ b ≤ 57) = [] := by
      cases rest with
      | nil => rfl
      | cons b rest => exact List.takeWhile_cons_of_neg (by simpa using hrest b rfl)
    rw [leadingNumber, List.takeWhile_append_of_pos fun b hb => by simpa using mem_numeral hb,
      hrest', List.append_nil, numeral_eq, List.foldl_map]
    have hvalue : Nat.ofDigitChars 10 (Nat.toDigits 10 n) 0 = n := Nat.ofDigitChars_ten_toDigits
    rw [Nat.ofDigitChars] at hvalue
    refine Eq.trans (List.foldl_ext _ _ _ fun a c hc => ?_) hvalue
    rw [(toNat_byteOf hc).1]
    rfl
  obtain ⟨b, more, hb⟩ := List.exists_cons_of_ne_nil (numeral_ne_nil n)
  have hdigit : 48 ≤ b ∧ b ≤ 57 := mem_numeral (hb ▸ List.mem_cons_self)
  have hspace : ¬ (b = 32 ∨ (9 ≤ b ∧ b ≤ 13)) := by
    simp only [← UInt8.toNat_inj, UInt8.le_iff_toNat_le] at hdigit ⊢
    simp at hdigit ⊢
    omega
  have hskip : (numeral n ++ rest).dropWhile (fun b => b = 32 ∨ (9 ≤ b ∧ b ≤ 13)) =
      b :: (more ++ rest) := by
    rw [hb, List.cons_append]
    exact List.dropWhile_cons_of_neg (by simpa using hspace)
  rw [hb, List.cons_append] at hnumber
  rw [atoi, hskip]
  split
  · rename_i heq
    cases heq
    exact absurd hdigit (by decide)
  · rename_i heq
    cases heq
    exact absurd hdigit (by decide)
  · rw [hnumber]

end Numeral

section Search
variable {pat l m : List UInt8} {a b : UInt8}

/-- A pattern is not found before its first byte is. -/
theorem search_append_of_notMem (h : a ∉ l) :
    (ListSearch.search (a :: pat) (l ++ m)).isSome = (ListSearch.search (a :: pat) m).isSome := by
  induction l with
  | nil => rfl
  | cons b l ih =>
    rw [List.mem_cons, not_or] at h
    have hfront : ¬ a :: pat <+: b :: (l ++ m) := by
      intro hfront
      exact h.1 (List.cons_prefix_cons.mp hfront).1
    rw [List.cons_append, ListSearch.search, if_neg hfront, Option.isSome_map, ih h.2]

theorem search_of_not_front (h : ¬ pat <+: a :: l) :
    (ListSearch.search pat (a :: l)).isSome = (ListSearch.search pat l).isSome := by
  rw [ListSearch.search, if_neg h, Option.isSome_map]

theorem search_of_prefix (h : pat <+: a :: l) :
    (ListSearch.search pat (a :: l)).isSome := by
  rw [ListSearch.search, if_pos h]
  rfl

/-- A pattern that is not found at a space is not found before the next one. -/
theorem search_word {w : List UInt8} (hw : w ≠ []) (ha : a ∉ w) (hb : b ∉ w) :
    (ListSearch.search (a :: b :: pat) (a :: (w ++ m))).isSome =
      (ListSearch.search (a :: b :: pat) m).isSome := by
  obtain ⟨c, w', hc⟩ := List.exists_cons_of_ne_nil hw
  have hfront : ¬ a :: b :: pat <+: a :: (w ++ m) := by
    intro hfront
    rw [hc, List.cons_append, List.cons_prefix_cons, List.cons_prefix_cons] at hfront
    exact hb (hc ▸ hfront.2.1 ▸ List.mem_cons_self)
  rw [search_of_not_front hfront, search_append_of_notMem ha]

end Search

theorem mem_toIpPort {peer : InetAddress} {b : UInt8} (h : b ∈ peer.toIpPort) :
    46 ≤ b ∧ b ≤ 58 := by
  have hnumeral : ∀ n, b ∈ numeral n → 46 ≤ b ∧ b ≤ 58 := by
    intro n hb
    have hdigit := mem_numeral hb
    rw [UInt8.le_iff_toNat_le, UInt8.le_iff_toNat_le] at hdigit ⊢
    exact ⟨le_trans (by decide) hdigit.1, hdigit.2.trans (by decide)⟩
  have hdot : b ∈ text "." → 46 ≤ b ∧ b ≤ 58 := by
    intro hb
    rw [List.mem_singleton.mp hb]
    decide
  have hcolon : b ∈ text ":" → 46 ≤ b ∧ b ≤ 58 := by
    intro hb
    rw [List.mem_singleton.mp hb]
    decide
  simp only [InetAddress.toIpPort, List.mem_append, or_assoc] at h
  rcases h with h | h | h | h | h | h | h | h | h
  · exact hnumeral _ h
  · exact hdot h
  · exact hnumeral _ h
  · exact hdot h
  · exact hnumeral _ h
  · exact hdot h
  · exact hnumeral _ h
  · exact hcolon h
  · exact hnumeral _ h

theorem length_toIpPort (peer : InetAddress) : peer.toIpPort.length ≤ 21 := by
  have hbyte : ∀ b : UInt8, (numeral b.toNat).length ≤ 3 := fun b =>
    length_numeral_le (by decide) (b.toNat_lt.trans (by decide))
  have hport : (numeral peer.port.toNat).length ≤ 5 :=
    length_numeral_le (by decide) (peer.port.toNat_lt.trans (by decide))
  have h₁ := hbyte peer.ip.1
  have h₂ := hbyte peer.ip.2.1
  have h₃ := hbyte peer.ip.2.2.1
  have h₄ := hbyte peer.ip.2.2.2
  have hdot : (text ".").length = 1 := rfl
  have hcolon : (text ":").length = 1 := rfl
  simp only [InetAddress.toIpPort, List.length_append, hdot, hcolon]
  omega

theorem notice_eq {id : ℕ} (hid : id < 2 ^ 16) (peer : InetAddress) (up : Bool) :
    notice id peer up = text "CONN " ++ (numeral id ++ (32 :: (text "FROM" ++
      (32 :: (peer.toIpPort ++ text (if up then " IS UP\r\n" else " IS DOWN\r\n")))))) := by
  have hlen := length_toIpPort peer
  have hnumeral : (numeral id).length ≤ 5 := length_numeral_le (by decide) (hid.trans (by decide))
  have hconn : (text "CONN ").length = 5 := rfl
  have hfrom : (text " FROM ").length = 6 := rfl
  have hstate : (text (if up then " IS UP\r\n" else " IS DOWN\r\n")).length ≤ 10 := by
    cases up <;> decide
  rw [notice, List.take_of_length_le]
  · have hspaces : text " FROM " = 32 :: (text "FROM" ++ [32]) := rfl
    rw [hspaces]
    simp only [List.append_assoc, List.cons_append, List.nil_append]
  · simp only [List.length_append, hconn, hfrom]
    omega

/-- What a notice tells is the connection, and whether it is up. -/
theorem command_notice {id : ℕ} (hid : id < 2 ^ 16) (peer : InetAddress) (up : Bool) :
    commandId (notice id peer up) = .ok id ∧ commandUp (notice id peer up) = up := by
  rw [notice_eq hid]
  constructor
  · rw [commandId, if_pos (by rw [List.length_append]; omega), List.drop_left' rfl,
      atoi_numeral (by simp)]
  · have hpattern : text " IS UP" = 32 :: 73 :: text "S UP" := rfl
    have hconn : text "CONN " ++ (numeral id ++ (32 :: (text "FROM" ++ (32 :: (peer.toIpPort ++
        text (if up then " IS UP\r\n" else " IS DOWN\r\n")))))) =
        text "CONN" ++ (32 :: (numeral id ++ (32 :: (text "FROM" ++ (32 :: (peer.toIpPort ++
          text (if up then " IS UP\r\n" else " IS DOWN\r\n"))))))) := rfl
    have hdigits : ∀ c : UInt8, c < 46 ∨ 58 < c → c ∉ peer.toIpPort ∧ c ∉ numeral id := by
      intro c hc
      refine ⟨fun h => ?_, fun h => ?_⟩
      · have hb := mem_toIpPort h
        rw [UInt8.le_iff_toNat_le, UInt8.le_iff_toNat_le] at hb
        rw [UInt8.lt_iff_toNat_lt, UInt8.lt_iff_toNat_lt] at hc
        omega
      · have hb := mem_numeral h
        rw [UInt8.le_iff_toNat_le, UInt8.le_iff_toNat_le] at hb
        rw [UInt8.lt_iff_toNat_lt, UInt8.lt_iff_toNat_lt] at hc
        simp at hb hc
        omega
    have hspace := hdigits 32 (by decide)
    have hI := hdigits 73 (by decide)
    have hpeer : peer.toIpPort ≠ [] := by simp [InetAddress.toIpPort, numeral_ne_nil]
    rw [commandUp, hconn, hpattern, search_append_of_notMem (by decide),
      search_word (numeral_ne_nil id) hspace.2 hI.2, search_word (by decide) (by decide) (by decide),
      search_word hpeer hspace.1 hI.1]
    cases up <;> decide

/-- What has arrived of a packet stays at the front when more arrives. -/
theorem nextPacket_append {bytes rest : List UInt8} {p : Packet} (more : List UInt8)
    (h : nextPacket bytes = some (p, rest)) :
    nextPacket (bytes ++ more) = some (p, rest ++ more) := by
  unfold nextPacket at h
  split at h
  · rename_i len id₀ id₁ tail
    split_ifs at h with hall
    obtain ⟨hp, hrest⟩ := Prod.mk.inj (Option.some.inj h)
    subst hp hrest
    have hall' : tail ++ more ≠ [] ∧ len.toNat ≤ (tail ++ more).length :=
      ⟨by simp [hall.1], by rw [List.length_append]; omega⟩
    rw [List.cons_append, List.cons_append, List.cons_append, nextPacket, if_pos hall',
      List.take_append_of_le_length hall.2, List.drop_append_of_le_length hall.2]
  · cases h

theorem length_nextPacket {bytes rest : List UInt8} {p : Packet}
    (h : nextPacket bytes = some (p, rest)) : rest.length < bytes.length := by
  unfold nextPacket at h
  split at h
  · split_ifs at h
    obtain ⟨-, hrest⟩ := Prod.mk.inj (Option.some.inj h)
    subst hrest
    simp only [List.length_drop, List.length_cons]
    omega
  · cases h

/-- A valid packet is read back. -/
theorem nextPacket_bytes {p : Packet} (hp : p.Valid) (rest : List UInt8) :
    nextPacket (p.bytes ++ rest) = some (p, rest) := by
  have hid := hp.id_lt
  have hpos := hp.pos
  have hle := hp.le
  unfold kMaxPacketLen at hle
  have hlen : (UInt8.ofNat p.data.length).toNat = p.data.length := by
    rw [UInt8.toNat_ofNat', Nat.mod_eq_of_lt (by omega)]
  have hlow : (UInt8.ofNat (p.id &&& 0xFF)).toNat = p.id % 256 := by
    rw [UInt8.toNat_ofNat', show (0xFF : ℕ) = 2 ^ 8 - 1 from rfl, Nat.and_two_pow_sub_one_eq_mod]
    omega
  have hhigh : (UInt8.ofNat ((p.id &&& 0xFF00) >>> 8)).toNat = p.id / 256 := by
    have hmask : (0xFF00 >>> 8 : ℕ) = 2 ^ 8 - 1 := rfl
    rw [UInt8.toNat_ofNat', Nat.shiftRight_and_distrib, hmask, Nat.and_two_pow_sub_one_eq_mod,
      Nat.shiftRight_eq_div_pow]
    omega
  have hall : p.data ++ rest ≠ [] ∧
      (UInt8.ofNat p.data.length).toNat ≤ (p.data ++ rest).length := by
    rw [hlen, List.length_append]
    exact ⟨by simp [List.ne_nil_of_length_pos hpos], by omega⟩
  have hjoin : p.id % 256 ||| (p.id / 256) <<< 8 = p.id := by
    rw [Nat.or_comm, ← Nat.shiftLeft_add_eq_or_of_lt (by omega), Nat.shiftLeft_eq]
    omega
  rw [Packet.bytes, header, List.append_assoc]
  show nextPacket (_ :: _ :: _ :: (p.data ++ rest)) = _
  rw [nextPacket, if_pos hall, hlen, hlow, hhigh, hjoin, List.take_left' rfl, List.drop_left' rfl]

/-- What is read off the front of a stream of packets is the first of them. -/
theorem nextPacket_flatMap {bytes rest more : List UInt8} {p : Packet} {ps : List Packet}
    (hps : ∀ q ∈ ps, q.Valid) (hsplit : bytes ++ more = ps.flatMap Packet.bytes)
    (h : nextPacket bytes = some (p, rest)) :
    ∃ qs, ps = p :: qs ∧ rest ++ more = qs.flatMap Packet.bytes := by
  have hnext := nextPacket_append more h
  cases ps with
  | nil =>
    rw [hsplit] at hnext
    cases hnext
  | cons q qs =>
    rw [hsplit, List.flatMap_cons, nextPacket_bytes (hps q List.mem_cons_self)] at hnext
    obtain ⟨hq, hrest⟩ := Prod.mk.inj (Option.some.inj hnext)
    exact ⟨qs, hq ▸ rfl, hrest.symm⟩

/-- A buffer that has room for a header in front. -/
def Roomy (buf : Buffer) : Prop := kHeaderLen ≤ buf.readerIndex

theorem roomy_of_cheapPrepend {buf : Buffer} (h : buf.readerIndex = kCheapPrepend) :
    Roomy buf := by
  rw [Roomy, h]
  decide

theorem roomy_new : Roomy Buffer.new := roomy_of_cheapPrepend rfl

theorem roomy_retrieveAll (buf : Buffer) : Roomy buf.retrieveAll := roomy_of_cheapPrepend rfl

theorem Roomy.append {buf buf' : Buffer} {data : List UInt8} (h : Roomy buf)
    (happend : buf.append data = .ok buf') : Roomy buf' := by
  rw [Roomy, buf.readerIndex_append happend]
  split_ifs
  · decide
  · exact h

theorem Roomy.readFd {buf buf' : Buffer} {data : List UInt8} (h : Roomy buf)
    (hread : buf.readFd data = .ok buf') : Roomy buf' := by
  unfold Buffer.readFd at hread
  split_ifs at hread
  · rw [Roomy, Buffer.readerIndex_hasWritten _ hread]
    exact h
  · obtain ⟨b, hb, happend⟩ := bind_eq_ok.mp hread
    have hroom : Roomy b := by
      rw [Roomy, Buffer.readerIndex_hasWritten _ hb]
      exact h
    exact hroom.append happend

theorem Roomy.retrieve {buf buf' : Buffer} {len : ℕ} (h : Roomy buf)
    (hretrieve : buf.retrieve len = .ok buf') : Roomy buf' := by
  unfold Buffer.retrieve at hretrieve
  split_ifs at hretrieve
  · rw [← Except.ok.inj hretrieve]
    exact Nat.le_add_right_of_le h
  · rw [← Except.ok.inj hretrieve]
    exact roomy_retrieveAll buf

/-- With a connection the content goes out as one packet. -/
theorem sendPacket_spec (id : ℕ) {buf : Buffer} (h : buf.readable.length ≤ kMaxPacketLen)
    (hroom : Roomy buf) :
    ∃ buf', sendPacket true id buf = .ok (Packet.bytes ⟨id, buf.readable⟩, buf') ∧
      buf'.readable = [] ∧ Roomy buf' := by
  rw [Buffer.length_readable] at h
  obtain ⟨b, hb, hread⟩ := buf.prepend_spec (header buf.readableBytes id) hroom
  refine ⟨b.retrieveAll, ?_, b.readable_retrieveAll, roomy_retrieveAll b⟩
  rw [sendPacket, if_neg (not_lt.mpr h), hb]
  simp only [Except.mapError, ok_bind, hread, Packet.bytes, Buffer.length_readable]
  rfl

/-- What one client has sent goes out as packets of its id. -/
structure Cut (id : ℕ) (data : List UInt8) (ps : List Packet) : Prop where
  id_eq : ∀ p ∈ ps, p.id = id
  pos : ∀ p ∈ ps, 0 < p.data.length
  le : ∀ p ∈ ps, p.data.length ≤ kMaxPacketLen
  data_eq : ps.flatMap Packet.data = data

theorem Cut.valid {id : ℕ} {data : List UInt8} {ps : List Packet} (h : Cut id data ps)
    (hid : id < 2 ^ 16) : ∀ p ∈ ps, p.Valid := fun p hp =>
  ⟨by rw [h.id_eq p hp]; exact hid, h.pos p hp, h.le p hp⟩

theorem sendBuffer_spec (id : ℕ) {buf : Buffer} {n : ℕ} (hn : buf.readable.length < n)
    (hroom : Roomy buf) :
    ∃ ps buf', sendBuffer true id n buf = .ok (ps.flatMap Packet.bytes, buf') ∧
      Cut id buf.readable ps ∧ buf'.readable = [] ∧ Roomy buf' := by
  induction n generalizing buf with
  | zero => omega
  | succ n ih =>
    rw [sendBuffer]
    by_cases hlong : buf.readableBytes > kMaxPacketLen
    · have hlen := buf.length_readable
      obtain ⟨packet, hpacket, hread⟩ :=
        Buffer.new.append_spec (buf.readable.take kMaxPacketLen)
      rw [Buffer.readable_new, List.nil_append] at hread
      obtain ⟨b, hb, hrest⟩ := buf.retrieve_spec (hlong.le.trans_eq hlen.symm)
      have hsize : packet.readable.length = kMaxPacketLen := by
        rw [hread, List.length_take]
        omega
      have hshort : b.readable.length < n := by
        rw [hrest, List.length_drop]
        unfold kMaxPacketLen at *
        omega
      obtain ⟨_, hsent, -⟩ := sendPacket_spec id hsize.le (roomy_new.append hpacket)
      obtain ⟨ps, b', hmore, hcut, hb'⟩ := ih hshort (hroom.retrieve hb)
      refine ⟨⟨id, packet.readable⟩ :: ps, b', ?_, ⟨?_, ?_, ?_, ?_⟩, hb'⟩
      · rw [if_pos hlong, hpacket, hb]
        simp only [Except.mapError, ok_bind, hsent, hmore]
        rfl
      · intro p hp
        rcases List.mem_cons.mp hp with hp | hp
        · rw [hp]
        · exact hcut.id_eq p hp
      · intro p hp
        rcases List.mem_cons.mp hp with hp | hp
        · rw [hp, hsize]
          decide
        · exact hcut.pos p hp
      · intro p hp
        rcases List.mem_cons.mp hp with hp | hp
        · rw [hp]
          exact hsize.le
        · exact hcut.le p hp
      · rw [List.flatMap_cons, hcut.data_eq, hread, hrest, List.take_append_drop]
    · rw [if_neg hlong]
      have hle : buf.readable.length ≤ kMaxPacketLen := by
        rw [Buffer.length_readable]
        exact not_lt.mp hlong
      by_cases hpos : buf.readableBytes > 0
      · obtain ⟨b', hsent, hb'⟩ := sendPacket_spec id hle hroom
        refine ⟨[⟨id, buf.readable⟩], b', ?_, ⟨?_, ?_, ?_, ?_⟩, hb'⟩
        · rw [if_pos hpos, hsent]
          simp
        · simp
        · simpa using hpos
        · simpa using hle
        · simp
      · have hempty : buf.readable = [] := by
          rw [Buffer.readable_eq_nil_iff]
          omega
        exact ⟨[], buf, by rw [if_neg hpos]; rfl, ⟨by simp, by simp, by simp, hempty.symm⟩,
          hempty, hroom⟩

end Muduo.Multiplex
