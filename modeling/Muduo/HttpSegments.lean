import Muduo.HttpPipeline
import Muduo.Library.GrowingInput

/-!
# A request in any segments

The parser as a consumer of lines: which line is in front decides what it does, and
a line is in front as soon as its CRLF has arrived. The receive time, the only thing
a context holds of how the bytes have arrived, is set aside.
-/
namespace Muduo.HttpServer
open GrowingInput WhileLoop

/-- The receive time aside. -/
def timeless (c : HttpContext) : HttpContext := { c with request.receiveTime := 0 }

/-- A complete line is in front of the bytes. -/
def Front (bytes line rest : List UInt8) : Prop :=
  ListSearch.search kCRLF line = none ∧ bytes = line ++ 13 :: 10 :: rest

/-- The two ways for `parseRequest` to be done with a request. -/
inductive Verdict
  | error
  | complete
  deriving DecidableEq, Repr

/-- What a line makes of the context, and whether it is the last one. -/
def reaction (c : HttpContext) (line : List UInt8) : Option (Option Verdict × HttpContext) :=
  match c.state with
  | .kExpectRequestLine =>
    match processRequestLine line c with
    | .ok (true, c') => some (none, c'.receiveRequestLine)
    | .ok (false, c') => some (some .error, c')
    | .error _ => none
  | .kExpectHeaders =>
    if line.idxOf 58 ≠ line.length then
      some (none, { c with request := c.request.addHeader line (line.idxOf 58) })
    else some (some .complete, c.receiveHeaders)
  | .kExpectBody | .kGotAll => none

/-- A line that is refused stays where it is. -/
inductive LineStep (c : HttpContext) (bytes : List UInt8) :
    Move HttpContext Verdict UInt8 → Prop
  | goOn {line rest : List UInt8} {c' : HttpContext} : Front bytes line rest →
      reaction c line = some (none, c') → LineStep c bytes (.next c' rest)
  | refuse {line rest : List UInt8} {c' : HttpContext} : Front bytes line rest →
      reaction c line = some (some .error, c') → LineStep c bytes (.stop .error c' bytes)
  | finish {line rest : List UInt8} {c' : HttpContext} : Front bytes line rest →
      reaction c line = some (some .complete, c') → LineStep c bytes (.stop .complete c' rest)

theorem Front.frontLine {buf : Buffer} {line rest : List UInt8}
    (h : Front buf.readable line rest) : frontLine buf = some line := frontLine_of_line h.1 h.2

theorem front_of_frontLine {buf : Buffer} {line : List UInt8} (h : frontLine buf = some line) :
    ∃ rest, Front buf.readable line rest := by
  obtain ⟨rest, hr⟩ := readable_of_frontLine h
  refine ⟨rest, ?_, hr⟩
  unfold HttpServer.frontLine Buffer.findCRLF at h
  obtain ⟨i, hi, rfl⟩ := Option.map_eq_some_iff.mp h
  exact ListSearch.search_take_of_some (by decide) hi

/-- There is one line in front. -/
theorem Front.unique {bytes line rest line' rest' : List UInt8} (h : Front bytes line rest)
    (h' : Front bytes line' rest') : line = line' ∧ rest = rest' := by
  obtain ⟨hl, rfl⟩ := h
  obtain ⟨hl', heq⟩ := h'
  have h₁ := ListSearch.search_pair_line crlf_ne hl rest
  have h₂ := ListSearch.search_pair_line crlf_ne hl' rest'
  rw [← heq, h₁] at h₂
  have hlen : line.length = line'.length := Option.some.inj h₂
  obtain ⟨h₃, h₄⟩ := List.append_inj heq hlen
  cases h₄
  exact ⟨h₃, rfl⟩

theorem Front.append {bytes line rest : List UInt8} (more : List UInt8)
    (h : Front bytes line rest) : Front (bytes ++ more) line (rest ++ more) := by
  obtain ⟨hl, rfl⟩ := h
  exact ⟨hl, by simp⟩

theorem LineStep.det {c : HttpContext} {bytes : List UInt8}
    {m m' : Move HttpContext Verdict UInt8} (h : LineStep c bytes m)
    (h' : LineStep c bytes m') : m = m' := by
  cases h <;> cases h'
  all_goals
    rename_i hf hr _ _ _ hf' hr'
    obtain ⟨rfl, rfl⟩ := hf.unique hf'
    rw [hr] at hr'
    cases hr'
  all_goals rfl

theorem not_step_of_not_front {c : HttpContext} {bytes : List UInt8}
    (h : ∀ line rest, ¬Front bytes line rest) (m : Move HttpContext Verdict UInt8) :
    ¬LineStep c bytes m := by
  intro hm
  cases hm with
  | goOn hf => exact h _ _ hf
  | refuse hf => exact h _ _ hf
  | finish hf => exact h _ _ hf

/-- The parser, as it consumes lines. -/
def lines : Consumer HttpContext Verdict UInt8 where
  Step := LineStep
  det := LineStep.det
  extend := by
    intro c bytes m more h
    cases h with
    | goOn hf hr => exact .goOn (hf.append more) hr
    | refuse hf hr => exact .refuse (hf.append more) hr
    | finish hf hr => exact .finish (hf.append more) hr

/-- What `parseRequest` has come to, if it is done with the request. -/
def Parsed.verdict (p : Parsed) : Option Verdict :=
  if p.ok = false then some .error
  else if p.context.state = .kGotAll then some .complete
  else none

def Parsed.ended (p : Parsed) : End HttpContext Verdict UInt8 :=
  ⟨p.verdict, timeless p.context, p.buf.readable⟩

theorem setMethod_timeless (r : HttpRequest) (m : List UInt8) (t : ℤ) :
    ({ r with receiveTime := t } : HttpRequest).setMethod m =
      (r.setMethod m).map fun q => ({ q.1 with receiveTime := t }, q.2) := by
  unfold HttpRequest.setMethod
  dsimp only
  by_cases h : r.method = .kInvalid
  · rw [assert_pos h]
    rfl
  · rw [assert_neg h]
    rfl

/-- The request line is processed without a look at the receive time. -/
theorem processRequestLine_timeless (line : List UInt8) (c : HttpContext) :
    processRequestLine line (timeless c) =
      (processRequestLine line c).map fun r => (r.1, timeless r.2) := by
  unfold processRequestLine timeless
  dsimp only
  rw [setMethod_timeless]
  cases c.request.setMethod (line.take (line.idxOf 32)) with
  | error => split_ifs <;> rfl
  | ok q =>
    obtain ⟨r, known⟩ := q
    cases known
    all_goals simp only [Except.map, ok_bind, pure_eq_ok]
    all_goals split_ifs <;> rfl

/-- So a line has the same effect whenever the bytes have arrived. -/
theorem reaction_timeless (c : HttpContext) (line : List UInt8) :
    reaction (timeless c) line = (reaction c line).map fun r => (r.1, timeless r.2) := by
  unfold reaction
  rw [processRequestLine_timeless, show (timeless c).state = c.state from rfl]
  cases c.state with
  | kExpectRequestLine =>
    rcases processRequestLine line c with _ | ⟨_ | _, c'⟩
    all_goals rfl
  | kExpectHeaders =>
    dsimp only
    split_ifs
    all_goals rfl
  | kExpectBody => rfl
  | kGotAll => rfl

section Body
variable {c : HttpContext} {line rest : List UInt8}

theorem reaction_requestLine {c' : HttpContext} {ok : Bool} (hs : c.state = .kExpectRequestLine)
    (h : processRequestLine line c = .ok (ok, c')) : reaction c line =
      some (if ok = true then (none, c'.receiveRequestLine) else (some .error, c')) := by
  unfold reaction
  rw [hs, h]
  cases ok <;> rfl

theorem reaction_header (hs : c.state = .kExpectHeaders) (hc : line.idxOf 58 ≠ line.length) :
    reaction c line =
      some (none, { c with request := c.request.addHeader line (line.idxOf 58) }) := by
  unfold reaction
  rw [hs]
  exact if_pos hc

theorem reaction_lastLine (hs : c.state = .kExpectHeaders) (hc : line.idxOf 58 = line.length) :
    reaction c line = some (some .complete, c.receiveHeaders) := by
  unfold reaction
  rw [hs]
  exact if_neg (not_not.mpr hc)

/-- An iteration with a line in front does what the line says. -/
theorem body_reaction {buf : Buffer} (t : ℤ) (hp : Parsing c) (hf : Front buf.readable line rest) :
    (∃ c₁ c' buf', reaction c line = some (none, c₁) ∧ timeless c₁ = timeless c' ∧ Parsing c' ∧
      buf'.readable = rest ∧ parseRequestBody t (buf, c) = .next (buf', c')) ∨
    (∃ c', reaction c line = some (some .error, c') ∧
      parseRequestBody t (buf, c) = .done (.ok ⟨false, buf, c'⟩)) ∨
    ∃ c' buf', reaction c line = some (some .complete, c') ∧ c'.state = .kGotAll ∧
      buf'.readable = rest ∧ parseRequestBody t (buf, c) = .done (.ok ⟨true, buf', c'⟩) := by
  unfold parseRequestBody
  dsimp only
  rw [hf.frontLine]
  rcases hp with ⟨hs, hm⟩ | hs
  · obtain ⟨⟨ok, c₁⟩, hl, -⟩ := processRequestLine_spec line hm
    have hr := reaction_requestLine hs hl
    rw [hs]
    dsimp only
    rw [hl]
    cases ok with
    | false => exact .inr (.inl ⟨c₁, hr, rfl⟩)
    | true =>
      obtain ⟨buf', hread, hret⟩ := retrieveLine_spec hf.2
        { c₁ with request.receiveTime := t }.receiveRequestLine true
      refine .inl ⟨_, _, buf', hr, ?_, ?_, hread, hret⟩
      · rfl
      · exact .inr rfl
  · rw [hs]
    dsimp only
    by_cases hc : line.idxOf 58 = line.length
    · rw [if_neg (not_not.mpr hc)]
      obtain ⟨buf', hread, hret⟩ := retrieveLine_spec hf.2 c.receiveHeaders false
      exact .inr (.inr ⟨_, buf', reaction_lastLine hs hc, rfl, hread, hret⟩)
    · rw [if_pos hc]
      obtain ⟨buf', hread, hret⟩ := retrieveLine_spec hf.2
        { c with request := c.request.addHeader line (line.idxOf 58) } true
      rw [hs] at hret
      refine .inl ⟨_, _, buf', reaction_header hs hc, ?_, .inr rfl, hread, hret⟩
      rw [hs]

/-- Without a line in front the loop ends, and waits. -/
theorem body_waits {buf : Buffer} (t : ℤ) (hp : Parsing c) (hf : frontLine buf = none) :
    parseRequestBody t (buf, c) = .done (.ok ⟨true, buf, c⟩) := by
  unfold parseRequestBody
  dsimp only
  rw [hf]
  rcases hp with ⟨hs, _⟩ | hs
  all_goals rw [hs]

end Body

theorem Parsing.state_ne {c : HttpContext} (h : Parsing c) : c.state ≠ .kGotAll := by
  rcases h with ⟨hs, _⟩ | hs
  all_goals
    rw [hs]
    decide

theorem step_timeless {c c' : HttpContext} {line : List UInt8} {v : Option Verdict}
    (h : reaction c line = some (v, c')) : reaction (timeless c) line = some (v, timeless c') := by
  rw [reaction_timeless, h]
  rfl

/-- An iteration is a step over the line in front, or the end of the run. -/
theorem body_runs {s : Buffer × HttpContext} (hp : Parsing s.2) (t : ℤ) :
    (∃ u, parseRequestBody t s = .next u ∧ Parsing u.2 ∧
      LineStep (timeless s.2) s.1.readable (.next (timeless u.2) u.1.readable) ∧
      u.1.readable.length < s.1.readable.length) ∨
    ∃ p, parseRequestBody t s = .done (.ok p) ∧
      Runs lines (timeless s.2) s.1.readable p.ended ∧ (p.verdict = none → Parsing p.context) := by
  obtain ⟨buf, c⟩ := s
  cases hf : frontLine buf with
  | none =>
    right
    refine ⟨_, body_waits t hp hf, ?_, fun _ => hp⟩
    have hv : Parsed.verdict ⟨true, buf, c⟩ = none := by
      have hne : c.state ≠ .kGotAll := hp.state_ne
      simp [Parsed.verdict, hne]
    have hno : ∀ line rest, ¬Front buf.readable line rest := by
      intro line rest hfront
      rw [hfront.frontLine] at hf
      cases hf
    rw [Parsed.ended, hv]
    exact .wait (not_step_of_not_front hno)
  | some line =>
    obtain ⟨rest, hfront⟩ := front_of_frontLine hf
    rcases body_reaction t hp hfront with ⟨c₂, c', buf', hr, htime, hp', hread, hb⟩ |
      ⟨c', hr, hb⟩ | ⟨c', buf', hr, hgot, hread, hb⟩
    · left
      refine ⟨_, hb, hp', ?_, ?_⟩
      · rw [← htime, hread]
        exact .goOn hfront (step_timeless hr)
      · rw [hread, hfront.2]
        simp
        omega
    · right
      refine ⟨_, hb, .stop (.refuse hfront (step_timeless hr)), ?_⟩
      intro hv
      cases hv
    · right
      have hv : Parsed.verdict ⟨true, buf', c'⟩ = some .complete := by
        simp [Parsed.verdict, hgot]
      refine ⟨_, hb, ?_, fun hn => ?_⟩
      · rw [Parsed.ended, hv, hread]
        exact .stop (.finish hfront (step_timeless hr))
      · rw [hv] at hn
        cases hn

/-- `parseRequest` goes as far as the lines lead it. -/
theorem parseRequest_runs (buf : Buffer) {c : HttpContext} (hp : Parsing c) (t : ℤ) :
    Yields (parseRequest buf c t) fun p =>
      Runs lines (timeless c) buf.readable p.ended ∧ (p.verdict = none → Parsing p.context) := by
  obtain ⟨_, hr, p, rfl, hp'⟩ := iterate_of_variant (parseRequestBody t)
    (fun s => Parsing s.2 ∧ ∀ e, Runs lines (timeless s.2) s.1.readable e →
      Runs lines (timeless c) buf.readable e)
    (fun r => ∃ p, r = .ok p ∧ Runs lines (timeless c) buf.readable p.ended ∧
      (p.verdict = none → Parsing p.context))
    (fun s => s.1.readable.length)
    (by
      rintro s ⟨hs, hto⟩
      rcases body_runs hs t with ⟨u, hb, hu, hstep, hlt⟩ | ⟨p, hb, hruns, hwait⟩
      · exact .inl ⟨u, hb, ⟨hu, fun e he => hto e (.next hstep he)⟩, hlt⟩
      · exact .inr ⟨_, hb, p, rfl, hto _ hruns, hwait⟩)
    (n := buf.readable.length + 1) (s := (buf, c)) ⟨hp, fun _ h => h⟩ (Nat.lt_succ_self _)
  exact ⟨p, parseRequest_of_iterate hr, hp'⟩

/-- The parser on its way through the chunks, and how many bytes it has been given. -/
structure Feeding where
  parsed : Parsed
  appended : ℕ

/-- A chunk is appended, and `parseRequest` is called. -/
def feedChunk (f : Feeding) (chunk : Chunk) : Checked Feeding := do
  let buf ← f.parsed.buf.append chunk.data
  let p ← parseRequest buf f.parsed.context chunk.receiveTime
  return ⟨p, f.appended + chunk.data.length⟩

/-- The chunks one by one, until `parseRequest` returns false or the context has got all. -/
def feed (f : Feeding) : List Chunk → Checked Feeding
  | [] => return f
  | chunk :: chunks =>
    if f.parsed.ok = false ∨ f.parsed.context.state = .kGotAll then return f
    else do feed (← feedChunk f chunk) chunks

theorem verdict_eq_none_iff (p : Parsed) :
    p.verdict = none ↔ ¬(p.ok = false ∨ p.context.state = .kGotAll) := by
  unfold Parsed.verdict
  split_ifs <;> simp [*]

/-- What a parser has made of the bytes that it has been given, which started in `c`. -/
structure Fed (c : HttpContext) (bytes : List UInt8) (f : Feeding) : Prop where
  runs : Runs lines (timeless c) bytes f.parsed.ended
  waits : f.parsed.verdict = none → Parsing f.parsed.context
  count : f.appended = bytes.length

theorem Fed.chunk {c : HttpContext} {bytes : List UInt8} {f : Feeding} (h : Fed c bytes f)
    (hv : f.parsed.verdict = none) (chunk : Chunk) :
    Yields (feedChunk f chunk) (Fed c (bytes ++ chunk.data)) := by
  obtain ⟨buf, hbuf, hread⟩ := f.parsed.buf.append_spec chunk.data
  obtain ⟨p, hp, hruns, hwait⟩ := parseRequest_runs buf (h.waits hv) chunk.receiveTime
  unfold feedChunk
  rw [hbuf, ok_bind, hp]
  refine yields_ok ⟨h.runs.resume hv ?_, hwait, ?_⟩
  · rw [hread] at hruns
    exact hruns
  · rw [h.count, List.length_append]

/-- Once the parser has stopped, the chunks that are left are as good as left over. -/
theorem fed_feed {c : HttpContext} {bytes : List UInt8} {f : Feeding} (chunks : List Chunk)
    (h : Fed c bytes f) : Yields (feed f chunks) fun f' =>
      ∃ given, Fed c given f' ∧ ∃ later, bytes ++ chunkBytes chunks = given ++ later ∧
        (f'.parsed.verdict = none → later = []) := by
  induction chunks generalizing f bytes with
  | nil => exact yields_ok ⟨bytes, h, [], rfl, fun _ => rfl⟩
  | cons chunk chunks ih =>
    unfold feed
    by_cases hstop : f.parsed.ok = false ∨ f.parsed.context.state = .kGotAll
    · rw [if_pos hstop]
      refine yields_ok ⟨bytes, h, _, rfl, fun hv => ?_⟩
      exact absurd hstop ((verdict_eq_none_iff f.parsed).mp hv)
    · rw [if_neg hstop]
      refine (h.chunk ((verdict_eq_none_iff f.parsed).mpr hstop) chunk).bind fun f₁ h₁ => ?_
      rw [show chunkBytes (chunk :: chunks) = chunk.data ++ chunkBytes chunks from
        List.flatMap_cons, ← List.append_assoc]
      exact ih h₁

theorem fed_start {buf : Buffer} {c : HttpContext} (hp : Parsing c) (hb : buf.readable = []) :
    Fed c [] ⟨⟨true, buf, c⟩, 0⟩ := by
  have hv : Parsed.verdict ⟨true, buf, c⟩ = none := by
    simp [Parsed.verdict, hp.state_ne]
  refine ⟨?_, fun _ => hp, rfl⟩
  dsimp only
  rw [Parsed.ended, hv, hb]
  have hno : ∀ line rest, ¬Front [] line rest := by
    rintro line rest ⟨-, heq⟩
    simp at heq
  exact .wait (not_step_of_not_front hno)

/-- Parsing does not depend on the segments in which the bytes arrive: the verdict, the
request and the number of consumed bytes are those of one call on all of them. -/
theorem feed_eq_parseRequest {buf : Buffer} {c : HttpContext} (hp : Parsing c)
    (hb : buf.readable = []) (chunks : List Chunk) (t : ℤ) :
    Yields (feed ⟨⟨true, buf, c⟩, 0⟩ chunks) fun f =>
      Yields (buf.append (chunkBytes chunks)) fun buf' =>
        Yields (parseRequest buf' c t) fun p =>
          f.parsed.verdict = p.verdict ∧ timeless f.parsed.context = timeless p.context ∧
            (f.appended - f.parsed.buf.readableBytes : ℤ) =
              (chunkBytes chunks).length - p.buf.readableBytes := by
  refine (fed_feed chunks (fed_start hp hb)).mono fun f hf => ?_
  obtain ⟨given, h, later, hsplit, hlater⟩ := hf
  rw [List.nil_append] at hsplit
  obtain ⟨buf', hbuf, hread⟩ := buf.append_spec (chunkBytes chunks)
  rw [hb, List.nil_append, hsplit] at hread
  obtain ⟨p, hparse, hruns, -⟩ := parseRequest_runs buf' hp t
  rw [hread] at hruns
  refine ⟨buf', hbuf, p, hparse, ?_⟩
  have hsame : p.ended =
      ⟨f.parsed.verdict, timeless f.parsed.context, f.parsed.buf.readable ++ later⟩ := by
    cases hv : f.parsed.verdict with
    | none =>
      have hend : f.parsed.ended =
          ⟨none, timeless f.parsed.context, f.parsed.buf.readable⟩ := by
        rw [Parsed.ended, hv]
      rw [hlater hv, List.append_nil] at hruns ⊢
      rw [← hend]
      exact hruns.det h.runs
    | some r => exact hruns.det (h.runs.extend later hv)
  injection hsame with h₁ h₂ h₃
  have hlen := congrArg List.length h₃
  rw [List.length_append, Buffer.length_readable, Buffer.length_readable] at hlen
  refine ⟨h₁.symm, h₂.symm, ?_⟩
  rw [hsplit, h.count, List.length_append, hlen]
  push_cast
  ring

/-- A request that is cut within its CRLF. -/
theorem feed_eq_parseRequest_get :
    Yields (feed ⟨⟨true, .new, .new⟩, 0⟩ [⟨text "GET / HTTP/1.1\r", 1⟩, ⟨text "\n\r\n", 2⟩]) fun f =>
      Yields (Buffer.new.append (chunkBytes
        [⟨text "GET / HTTP/1.1\r", 1⟩, ⟨text "\n\r\n", 2⟩])) fun buf' =>
        Yields (parseRequest buf' .new 3) fun p =>
          f.parsed.verdict = p.verdict ∧ timeless f.parsed.context = timeless p.context ∧
            (f.appended - f.parsed.buf.readableBytes : ℤ) =
              (chunkBytes [⟨text "GET / HTTP/1.1\r", 1⟩, ⟨text "\n\r\n", 2⟩]).length -
                p.buf.readableBytes :=
  feed_eq_parseRequest (.inl ⟨rfl, rfl⟩) Buffer.readable_new _ 3

end Muduo.HttpServer
