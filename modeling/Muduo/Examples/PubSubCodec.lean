import Mathlib
import Muduo.Buffer
import Muduo.HttpContext
import Muduo.Library.FrameStream

/-!
# The codec of the hub

`examples/hub/codec.cc`, and the messages that `PubSubClient` writes. A request that a client has
written is parsed as itself, and the front of one is not parsed at all.
-/
namespace Muduo

/-- `findCRLF(start)` for `start = peek() + off`, as an offset from `peek()`. -/
def Buffer.findCRLFFrom (b : Buffer) (off : ℕ) : Checked (Option ℕ) :=
  if off ≤ b.readableBytes then
    .ok ((ListSearch.search kCRLF (b.readable.drop off)).map (off + ·))
  else .error .bufferReadable

namespace PubSub
open ListSearch FrameStream

inductive ParseResult
  | kError
  | kSuccess
  | kContinue
  deriving DecidableEq, Repr

/-- The strings that `parseMessage` assigns. -/
structure Parsed where
  cmd : List UInt8
  topic : List UInt8
  content : List UInt8
  deriving DecidableEq, Repr

/-- `parseMessage`; the strings are empty when it is called. -/
def parseMessage (buf : Buffer) : Checked (ParseResult × Parsed × Buffer) :=
  match buf.findCRLF with
  | some crlf =>
    let line := buf.readable.take crlf
    let space := line.idxOf 32
    if space ≠ crlf then
      let cmd := line.take space
      let topic := line.drop (space + 1)
      if cmd = text "pub" then do
        let start := crlf + 2
        match ← buf.findCRLFFrom start with
        | some crlf => do
          let content := (buf.readable.take crlf).drop start
          let buf ← buf.retrieveUntil (crlf + 2)
          return (.kSuccess, ⟨cmd, topic, content⟩, buf)
        | none => return (.kContinue, ⟨cmd, topic, []⟩, buf)
      else do
        let buf ← buf.retrieveUntil (crlf + 2)
        return (.kSuccess, ⟨cmd, topic, []⟩, buf)
    else return (.kError, ⟨[], [], []⟩, buf)
  | none => return (.kContinue, ⟨[], [], []⟩, buf)

/-- What a client asks the hub for. -/
inductive Request
  | pub (topic content : List UInt8)
  | sub (topic : List UInt8)
  | unsub (topic : List UInt8)
  deriving DecidableEq, Repr

/-- The messages of `publish`, `subscribe` and `unsubscribe`. -/
def Request.bytes : Request → List UInt8
  | .pub topic content => text "pub " ++ topic ++ text "\r\n" ++ content ++ text "\r\n"
  | .sub topic => text "sub " ++ topic ++ text "\r\n"
  | .unsub topic => text "unsub " ++ topic ++ text "\r\n"

/-- The strings that a request is parsed as. -/
def Request.parsed : Request → Parsed
  | .pub topic content => ⟨text "pub", topic, content⟩
  | .sub topic => ⟨text "sub", topic, []⟩
  | .unsub topic => ⟨text "unsub", topic, []⟩

/-- There is no end of a line in the text. -/
def Clean (l : List UInt8) : Prop := search kCRLF l = none

instance (l : List UInt8) : Decidable (Clean l) := inferInstanceAs (Decidable (_ = _))

/-- No string of the request ends its line. -/
def Request.Valid : Request → Prop
  | .pub topic content => Clean topic ∧ Clean content
  | .sub topic | .unsub topic => Clean topic

instance : DecidablePred Request.Valid
  | .pub topic content => inferInstanceAs (Decidable (Clean topic ∧ Clean content))
  | .sub topic | .unsub topic => inferInstanceAs (Decidable (Clean topic))

section Lines
variable {l m cmd topic content rest : List UInt8}

theorem clean_of_infix (h : Clean m) (hl : l <:+: m) : Clean l := by
  rw [Clean, kCRLF, search_pair_eq_none_iff] at *
  exact h.infix hl

theorem search_line (h : Clean l) (rest : List UInt8) :
    search kCRLF (l ++ (text "\r\n" ++ rest)) = some l.length :=
  search_pair_line (by decide) h rest

/-- A line is clean if its parts are and a blank stands between them. -/
theorem clean_line (hcmd : Clean cmd) (htopic : Clean topic) : Clean (cmd ++ 32 :: topic) := by
  apply search_pair_append hcmd
  · have h : search [13, 10] [(32 : UInt8)] = none := by decide
    apply search_pair_append h htopic
    intro a ha b hb hab
    cases ha
    exact absurd hab.1 (by decide)
  · intro a ha b hb hab
    cases hb
    exact absurd hab.2 (by decide)

theorem take_line (h : (32 : UInt8) ∉ cmd) :
    (cmd ++ 32 :: topic).take ((cmd ++ 32 :: topic).idxOf 32) = cmd ∧
      (cmd ++ 32 :: topic).drop ((cmd ++ 32 :: topic).idxOf 32 + 1) = topic := by
  have hspace : (cmd ++ 32 :: topic).idxOf 32 = cmd.length := by
    rw [List.idxOf_append_of_notMem h, List.idxOf_cons_self, Nat.add_zero]
  rw [hspace]
  constructor
  · exact List.take_left' rfl
  · rw [← List.drop_drop, List.drop_left' rfl]
    rfl

/-- What `parseMessage` makes of the first line. -/
structure FirstLine (buf : Buffer) (cmd topic rest : List UInt8) : Prop where
  findCRLF : buf.findCRLF = some (cmd ++ 32 :: topic).length
  take_eq : buf.readable.take (cmd ++ 32 :: topic).length = cmd ++ 32 :: topic
  drop_eq : buf.readable.drop ((cmd ++ 32 :: topic).length + 2) = rest
  le_length : (cmd ++ 32 :: topic).length + 2 ≤ buf.readable.length
  space_ne : (cmd ++ 32 :: topic).idxOf 32 ≠ (cmd ++ 32 :: topic).length

theorem firstLine {buf : Buffer} (hline : Clean (cmd ++ 32 :: topic))
    (h : buf.readable = cmd ++ 32 :: topic ++ (text "\r\n" ++ rest)) :
    FirstLine buf cmd topic rest where
  findCRLF := by
    rw [Buffer.findCRLF, h]
    exact search_line hline rest
  take_eq := by
    rw [h]
    exact List.take_left' rfl
  drop_eq := by
    rw [h, ← List.drop_drop, List.drop_left' rfl]
    rfl
  le_length := by
    rw [h]
    simp [text]
    omega
  space_ne := by
    have hmem : (32 : UInt8) ∈ cmd ++ 32 :: topic := by simp
    exact (List.idxOf_lt_length_of_mem hmem).ne

/-- The line of a command, when it is there as a whole. -/
theorem parseMessage_line {buf : Buffer} (cmd : List UInt8) (hline : Clean (cmd ++ 32 :: topic))
    (hspace : (32 : UInt8) ∉ cmd) (hpub : cmd ≠ text "pub")
    (h : buf.readable = cmd ++ 32 :: topic ++ (text "\r\n" ++ rest)) :
    ∃ buf', parseMessage buf = .ok (.kSuccess, ⟨cmd, topic, []⟩, buf') ∧ buf'.readable = rest := by
  have hfirst := firstLine hline h
  obtain ⟨buf', hbuf', hread⟩ := buf.retrieveUntil_spec hfirst.le_length
  refine ⟨buf', ?_, hread.trans hfirst.drop_eq⟩
  rw [parseMessage, hfirst.findCRLF]
  simp only [hfirst.take_eq]
  rw [if_pos hfirst.space_ne, (take_line hspace).1, (take_line hspace).2, if_neg hpub, hbuf']
  rfl

/-- After the line of `pub` the end of the next line is looked for. -/
theorem findCRLFFrom_firstLine {buf : Buffer} (h : FirstLine buf cmd topic rest) :
    buf.findCRLFFrom ((cmd ++ 32 :: topic).length + 2) =
      .ok ((search kCRLF rest).map ((cmd ++ 32 :: topic).length + 2 + ·)) := by
  rw [Buffer.findCRLFFrom, if_pos, h.drop_eq]
  rw [← Buffer.length_readable]
  exact h.le_length

theorem parseMessage_pub {buf : Buffer} (htopic : Clean topic) (hcontent : Clean content)
    (h : buf.readable = (Request.pub topic content).bytes ++ rest) :
    ∃ buf', parseMessage buf = .ok (.kSuccess, ⟨text "pub", topic, content⟩, buf') ∧
      buf'.readable = rest := by
  have hspace : (32 : UInt8) ∉ text "pub" := by decide
  have hread : buf.readable = text "pub" ++ 32 :: topic ++
      (text "\r\n" ++ (content ++ (text "\r\n" ++ rest))) := by
    rw [h, Request.bytes]
    simp [text]
  have hfirst := firstLine (clean_line (by decide) htopic) hread
  have hlen : (text "pub" ++ 32 :: topic).length + 2 + content.length + 2 ≤
      buf.readable.length := by
    rw [hread]
    simp [text]
    omega
  obtain ⟨buf', hbuf', hread'⟩ := buf.retrieveUntil_spec hlen
  refine ⟨buf', ?_, ?_⟩
  · rw [parseMessage, hfirst.findCRLF]
    simp only [hfirst.take_eq]
    rw [if_pos hfirst.space_ne, (take_line hspace).1, (take_line hspace).2, if_pos rfl,
      findCRLFFrom_firstLine hfirst, search_line hcontent]
    simp only [ok_bind, Option.map_some]
    rw [hbuf', List.drop_take, hfirst.drop_eq, Nat.add_sub_cancel_left, List.take_left' rfl]
    rfl
  · rw [hread', ← List.drop_drop, ← List.drop_drop, hfirst.drop_eq,
      List.drop_left' rfl]
    rfl

/-- The first line of `pub` is there, but the second is not. -/
theorem parseMessage_unfinished {buf : Buffer} (htopic : Clean topic) (hcontent : Clean content)
    (h : buf.readable = text "pub" ++ 32 :: topic ++ (text "\r\n" ++ content)) :
    parseMessage buf = .ok (.kContinue, ⟨text "pub", topic, []⟩, buf) := by
  have hspace : (32 : UInt8) ∉ text "pub" := by decide
  have hfirst := firstLine (clean_line (by decide) htopic) h
  have hnone : search kCRLF content = none := hcontent
  rw [parseMessage, hfirst.findCRLF]
  simp only [hfirst.take_eq]
  rw [if_pos hfirst.space_ne, (take_line hspace).1, (take_line hspace).2, if_pos rfl,
    findCRLFFrom_firstLine hfirst, hnone]
  rfl

/-- What ends before the delimiter does holds none. -/
theorem clean_unfinished {tail : List UInt8} (hl : Clean l) (h : tail <+: l ++ text "\r\n")
    (hne : tail ≠ l ++ text "\r\n") : Clean tail := by
  have hlen : tail.length ≤ (l ++ [13]).length := by
    have hle := h.length_le
    have hne' : tail.length ≠ (l ++ text "\r\n").length := fun heq => hne (h.eq_of_length heq)
    simp only [text, List.length_append, List.length_map] at hle hne' ⊢
    simp at hle hne' ⊢
    omega
  have hfront : l ++ [13] <+: l ++ text "\r\n" :=
    (List.prefix_append_right_inj l).mpr ⟨[10], rfl⟩
  exact search_pair_unfinished (by decide) hl (List.prefix_of_prefix_length_le h hfront hlen)

theorem parseMessage_clean {buf : Buffer} (h : Clean buf.readable) :
    parseMessage buf = .ok (.kContinue, ⟨[], [], []⟩, buf) := by
  have hcrlf : buf.findCRLF = none := h
  rw [parseMessage, hcrlf]
  rfl

end Lines

namespace Request
variable {r : Request} {rs : List Request} {buf : Buffer} {tail rest : List UInt8}

theorem bytes_ne_nil (r : Request) : r.bytes ≠ [] := by
  cases r <;> simp [bytes, text]

/-- A request that has arrived is parsed as what the client meant, whatever follows it. -/
theorem parseMessage_bytes (hr : r.Valid) (h : buf.readable = r.bytes ++ rest) :
    ∃ buf', parseMessage buf = .ok (.kSuccess, r.parsed, buf') ∧ buf'.readable = rest := by
  cases r with
  | pub topic content => exact parseMessage_pub hr.1 hr.2 h
  | sub topic =>
    apply parseMessage_line (text "sub") (clean_line (by decide) hr) (by decide) (by decide)
    rw [h, bytes]
    simp [text]
  | unsub topic =>
    apply parseMessage_line (text "unsub") (clean_line (by decide) hr) (by decide) (by decide)
    rw [h, bytes]
    simp [text]

/-- Of a request that has not arrived as a whole nothing is taken. -/
theorem parseMessage_front (hrs : ∀ r ∈ rs, r.Valid) (h : Front buf.readable (rs.map bytes)) :
    ∃ parsed, parseMessage buf = .ok (.kContinue, parsed, buf) := by
  cases rs with
  | nil =>
    have hnil : Clean buf.readable := by
      rw [show buf.readable = [] from h]
      rfl
    exact ⟨_, parseMessage_clean hnil⟩
  | cons r rs =>
    obtain ⟨hfront, hne⟩ := h
    have hr : r.Valid := hrs r List.mem_cons_self
    cases r with
    | pub topic content =>
      have hline : Clean (text "pub" ++ 32 :: topic) := clean_line (by decide) hr.1
      have hbytes : (pub topic content).bytes =
          (text "pub" ++ 32 :: topic ++ text "\r\n") ++ (content ++ text "\r\n") := by
        rw [bytes]
        simp [text]
      rw [hbytes] at hfront hne
      by_cases hlen : (text "pub" ++ 32 :: topic ++ text "\r\n").length ≤ buf.readable.length
      · obtain ⟨tail, htail⟩ := List.prefix_of_prefix_length_le (List.prefix_append _ _) hfront hlen
        rw [← htail, List.prefix_append_right_inj] at hfront
        rw [← htail] at hne
        have hcontent : Clean tail := clean_unfinished hr.2 hfront fun heq => hne (by rw [heq])
        rw [List.append_assoc] at htail
        exact ⟨_, parseMessage_unfinished hr.1 hcontent htail.symm⟩
      · have hfirst : buf.readable <+: text "pub" ++ 32 :: topic ++ text "\r\n" :=
          List.prefix_of_prefix_length_le hfront (List.prefix_append _ _) (by omega)
        exact ⟨_, parseMessage_clean (clean_unfinished hline hfirst fun heq => hlen (heq ▸ le_rfl))⟩
    | sub topic =>
      have hline : Clean (text "sub" ++ 32 :: topic) := clean_line (by decide) hr
      have hbytes : (sub topic).bytes = text "sub" ++ 32 :: topic ++ text "\r\n" := rfl
      rw [hbytes] at hfront hne
      exact ⟨_, parseMessage_clean (clean_unfinished hline hfront hne)⟩
    | unsub topic =>
      have hline : Clean (text "unsub" ++ 32 :: topic) := clean_line (by decide) hr
      have hbytes : (unsub topic).bytes = text "unsub" ++ 32 :: topic ++ text "\r\n" := rfl
      rw [hbytes] at hfront hne
      exact ⟨_, parseMessage_clean (clean_unfinished hline hfront hne)⟩

end Request

/-- What a call leaves: a message is taken off the buffer and holds no end of a line, and without
one the buffer is as it was. -/
structure Parses (buf : Buffer) (result : ParseResult) (parsed : Parsed) (buf' : Buffer) :
    Prop where
  topic : result = .kSuccess → Clean parsed.topic
  content : result = .kSuccess → Clean parsed.content
  shorter : result = .kSuccess → buf'.readable.length < buf.readable.length
  same : result ≠ .kSuccess → buf' = buf

theorem parses_same (buf : Buffer) {result : ParseResult} (parsed : Parsed)
    (h : result ≠ .kSuccess) : Parses buf result parsed buf :=
  ⟨fun heq => absurd heq h, fun heq => absurd heq h, fun heq => absurd heq h, fun _ => rfl⟩

/-- `parseMessage` returns for every input. -/
theorem parseMessage_spec (buf : Buffer) : ∃ result parsed buf',
    parseMessage buf = .ok (result, parsed, buf') ∧ Parses buf result parsed buf' := by
  rw [parseMessage]
  cases hcrlf : buf.findCRLF with
  | none => exact ⟨_, _, _, rfl, parses_same buf _ (by decide)⟩
  | some crlf =>
    have hline : Clean (buf.readable.take crlf) := search_take_of_some (by decide) hcrlf
    have hlen : crlf + 2 ≤ buf.readable.length := search_lt_length hcrlf
    have htopic : ∀ n, Clean ((buf.readable.take crlf).drop n) := fun n =>
      clean_of_infix hline (List.drop_suffix _ _).isInfix
    dsimp only
    split_ifs with hspace hpub
    · have hstart : crlf + 2 ≤ buf.readableBytes := by
        rw [← Buffer.length_readable]
        exact hlen
      rw [Buffer.findCRLFFrom, if_pos hstart, ok_bind]
      cases hsecond : search kCRLF (buf.readable.drop (crlf + 2)) with
      | none => exact ⟨_, _, _, rfl, parses_same buf _ (by decide)⟩
      | some off =>
        have hcontent : Clean ((buf.readable.drop (crlf + 2)).take off) :=
          search_take_of_some (by decide) hsecond
        have hoff : off + 2 ≤ (buf.readable.drop (crlf + 2)).length := search_lt_length hsecond
        rw [List.length_drop] at hoff
        have hall : crlf + 2 + off + 2 ≤ buf.readable.length := by omega
        obtain ⟨buf', hbuf', hread⟩ := buf.retrieveUntil_spec hall
        simp only [Option.map_some, hbuf', ok_bind]
        refine ⟨_, _, buf', rfl, fun _ => htopic _, fun _ => ?_, fun _ => ?_,
          fun hne => absurd rfl hne⟩
        · show Clean ((buf.readable.take (crlf + 2 + off)).drop (crlf + 2))
          rw [List.drop_take, Nat.add_sub_cancel_left]
          exact hcontent
        · rw [hread, List.length_drop]
          omega
    · obtain ⟨buf', hbuf', hread⟩ := buf.retrieveUntil_spec hlen
      rw [hbuf']
      refine ⟨_, _, buf', rfl, fun _ => htopic _, fun _ => rfl, fun _ => ?_,
        fun hne => absurd rfl hne⟩
      rw [hread, List.length_drop]
      omega
    · exact ⟨_, _, _, rfl, parses_same buf _ (by decide)⟩

end PubSub
end Muduo
