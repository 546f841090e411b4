import Muduo.HttpRejection
import Muduo.Library.Rounds

/-!
# Streams of well-formed requests

Requests without a body, concatenated into one stream and cut into chunks. The
parser takes up a request wherever the last chunk has left it; `onMessage`
dispatches at most one request a chunk.
-/
namespace Muduo.HttpServer
open StepSystem WhileLoop

def versionString : HttpRequest.Version → List UInt8
  | .kHttp10 => text "HTTP/1.0"
  | .kHttp11 => text "HTTP/1.1"
  | .kUnknown => []

def requestLine (method : HttpRequest.Method) (path : List UInt8)
    (version : HttpRequest.Version) : List UInt8 :=
  HttpRequest.methodString method ++ 32 :: (path ++ 32 :: versionString version)

/-- A well-formed request: a request line, header lines with a colon, and no body. -/
structure WellFormed where
  method : HttpRequest.Method
  path : List UInt8
  version : HttpRequest.Version
  headers : List (List UInt8)
  method_ne : method ≠ .kInvalid
  version_ne : version ≠ .kUnknown
  space_notMem : 32 ∉ path
  line_unbroken : ListSearch.search kCRLF (requestLine method path version) = none
  header_unbroken : ∀ h ∈ headers, ListSearch.search kCRLF h = none
  colon_mem : ∀ h ∈ headers, 58 ∈ h

/-- Header lines, and the empty line that ends them. -/
def headerBytes (headers : List (List UInt8)) : List UInt8 :=
  headers.flatMap (fun h => h ++ kCRLF) ++ kCRLF

namespace WellFormed

def line (r : WellFormed) : List UInt8 := requestLine r.method r.path r.version

theorem search_line (r : WellFormed) : ListSearch.search kCRLF r.line = none := r.line_unbroken

def bytes (r : WellFormed) : List UInt8 := r.line ++ kCRLF ++ headerBytes r.headers

/-- The request as it is stored once the header lines `seen` have been parsed. -/
def after (r : WellFormed) (seen : List (List UInt8)) (t : ℤ) : HttpRequest :=
  seen.foldl (fun q h => q.addHeader h (h.idxOf 58)) ⟨r.method, r.version, r.path, t, []⟩

def parsed (r : WellFormed) (t : ℤ) : HttpRequest := r.after r.headers t

theorem after_snoc (r : WellFormed) (seen : List (List UInt8)) (h : List UInt8) (t : ℤ) :
    r.after (seen ++ [h]) t = (r.after seen t).addHeader h (h.idxOf 58) := by
  simp only [after, List.foldl_append, List.foldl_cons, List.foldl_nil]

/-- The receive time is stored and not looked at. -/
theorem parsed_receiveTime (r : WellFormed) (t t' : ℤ) :
    r.parsed t' = { r.parsed t with receiveTime := t' } := by
  unfold parsed
  induction r.headers using List.reverseRecOn with
  | nil => rfl
  | append_singleton seen h ih =>
    rw [after_snoc, after_snoc, ih]
    rfl

end WellFormed

/-- The stream of the requests. -/
def stream (rs : List WellFormed) : List UInt8 := rs.flatMap WellFormed.bytes

/-- The context is within the request `r`, of which `todo` is not parsed yet. -/
inductive Progress (r : WellFormed) : HttpContext → List UInt8 → Prop
  | start {context : HttpContext} :
      context.state = .kExpectRequestLine → context.request.method = .kInvalid →
      context.request.headers = [] → Progress r context r.bytes
  | headers {seen todo : List (List UInt8)} {t : ℤ} :
      r.headers = seen ++ todo → Progress r ⟨.kExpectHeaders, r.after seen t⟩ (headerBytes todo)

theorem Progress.state_ne {r : WellFormed} {context : HttpContext} {todo : List UInt8}
    (h : Progress r context todo) : context.state ≠ .kGotAll := by
  cases h with
  | start hs => rw [hs]; decide
  | headers => exact fun he => by cases he

/-- What `parseRequest` leaves when `r` and then `later` arrive, `future` of it only
afterwards: a complete request, or progress within `r`. -/
def Advanced (r : WellFormed) (future later : List UInt8) (result : Checked Parsed) : Prop :=
  ∃ p, result = .ok p ∧ p.ok = true ∧
    ((∃ t, p.context = ⟨.kGotAll, r.parsed t⟩ ∧ p.buf.readable ++ future = later) ∨
      ∃ todo, Progress r p.context todo ∧ p.buf.readable ++ future = todo ++ later ∧
        p.buf.readable.length < todo.length)

/-- A request line as `processRequestLine` reads it. -/
theorem processRequestLine_line (r : WellFormed) {context : HttpContext}
    (h : context.request.method = .kInvalid) :
    processRequestLine r.line context = .ok (true, { context with
      request := { context.request with
        method := r.method
        path := r.path
        version := r.version } }) := by
  have h₁ : r.line.idxOf 32 = (HttpRequest.methodString r.method).length := by
    unfold WellFormed.line requestLine
    rw [List.idxOf_append_of_notMem (space_notMem_methodString r.method)]
    simp
  have h₂ : (HttpRequest.methodString r.method).length ≠ r.line.length := by
    unfold WellFormed.line requestLine
    simp
  have h₃ : r.line.take (HttpRequest.methodString r.method).length =
      HttpRequest.methodString r.method := List.take_left
  have h₄ : r.line.drop ((HttpRequest.methodString r.method).length + 1) =
      r.path ++ 32 :: versionString r.version := by
    unfold WellFormed.line requestLine
    rw [← List.drop_drop, List.drop_left]
    rfl
  have h₅ : (r.path ++ 32 :: versionString r.version).idxOf 32 = r.path.length := by
    rw [List.idxOf_append_of_notMem r.space_notMem]
    simp
  have h₆ : (r.path ++ 32 :: versionString r.version).drop (r.path.length + 1) =
      versionString r.version := by
    rw [← List.drop_drop, List.drop_left]
    rfl
  have hm : r.method ≠ .kInvalid := r.method_ne
  unfold processRequestLine HttpRequest.setMethod
  dsimp only
  rw [h₁, if_neg h₂, h₃, h₄, h₅, h₆, assert_pos h, HttpRequest.methodOf_methodString]
  simp only [ok_bind, pure_eq_ok, List.take_left]
  have hver := r.version_ne
  cases hv : r.version with
  | kUnknown => exact absurd hv hver
  | kHttp10 => simp [versionString, text, hm]
  | kHttp11 => simp [versionString, text, hm]

/-- The next line of what is to arrive is complete, or has not arrived completely. -/
theorem line_cases {buf : Buffer} {line future more : List UInt8}
    (h : ListSearch.search kCRLF line = none)
    (hb : buf.readable ++ future = line ++ kCRLF ++ more) :
    (frontLine buf = some line ∧ ∃ rest, buf.readable = line ++ 13 :: 10 :: rest ∧
        rest ++ future = more) ∨
      frontLine buf = none ∧ buf.readable.length < line.length + 2 := by
  rcases Nat.lt_or_ge buf.readable.length (line.length + 2) with hlt | hge
  · right
    refine ⟨frontLine_unfinished h ?_, hlt⟩
    have hp : buf.readable <+: line ++ kCRLF ++ more := ⟨future, hb⟩
    have hline : line ++ [13] <+: line ++ kCRLF ++ more := ⟨10 :: more, by simp [kCRLF]⟩
    refine List.prefix_of_prefix_length_le hp hline ?_
    rw [List.length_append]
    simp only [List.length_cons, List.length_nil]
    omega
  · left
    have hp : buf.readable <+: line ++ kCRLF ++ more := ⟨future, hb⟩
    have hline : line ++ kCRLF <+: line ++ kCRLF ++ more := List.prefix_append ..
    have hlen : (line ++ kCRLF).length ≤ buf.readable.length := by simpa [kCRLF] using hge
    obtain ⟨rest, hr⟩ := List.prefix_of_prefix_length_le hline hp hlen
    have hr' : buf.readable = line ++ 13 :: 10 :: rest := by
      rw [← hr]
      simp [kCRLF]
    refine ⟨frontLine_of_line h hr', rest, hr', ?_⟩
    rw [← hr, List.append_assoc] at hb
    exact List.append_cancel_left hb

theorem search_nil : ListSearch.search kCRLF [] = none := rfl

/-- Progress: a line of the request is parsed, the request is complete, or the loop
waits for the rest of a line. -/
theorem body_progress (r : WellFormed) {future later todo : List UInt8}
    {s : Buffer × HttpContext} (t : ℤ) (h : Progress r s.2 todo)
    (hb : s.1.readable ++ future = todo ++ later) :
    (∃ u, parseRequestBody t s = .next u ∧
        (∃ todo, Progress r u.2 todo ∧ u.1.readable ++ future = todo ++ later) ∧
        u.1.readable.length < s.1.readable.length) ∨
      ∃ result, parseRequestBody t s = .done result ∧ Advanced r future later result := by
  obtain ⟨buf, context⟩ := s
  dsimp only at h hb ⊢
  unfold parseRequestBody
  dsimp only
  cases h with
  | start hs hm hh =>
    rw [hs]
    dsimp only
    have hb' : buf.readable ++ future = r.line ++ kCRLF ++ (headerBytes r.headers ++ later) := by
      rw [hb, WellFormed.bytes]
      simp only [List.append_assoc]
    rcases line_cases r.search_line hb' with ⟨hf, rest, hr, hrest⟩ | ⟨hf, hlt⟩
    · left
      rw [hf]
      dsimp only
      rw [processRequestLine_line r hm]
      obtain ⟨buf', hread, hret⟩ := retrieveLine_spec hr
        ⟨.kExpectHeaders, ⟨r.method, r.version, r.path, t, []⟩⟩ true
      refine ⟨(buf', ⟨.kExpectHeaders, r.after [] t⟩), ?_, ⟨_, .headers rfl, ?_⟩, ?_⟩
      · dsimp only
        rw [hh]
        exact hret
      · dsimp only
        rw [hread, hrest]
      · dsimp only
        rw [hread, hr]
        simp
        omega
    · right
      rw [hf]
      refine ⟨_, rfl, _, rfl, rfl, .inr ⟨_, .start hs hm hh, hb, ?_⟩⟩
      have hlen : r.line.length + 2 ≤ r.bytes.length := by
        simp only [WellFormed.bytes, kCRLF, List.length_append, List.length_cons, List.length_nil]
        omega
      exact hlt.trans_le hlen
  | @headers seen todo t' hseen =>
    dsimp only
    cases todo with
    | nil =>
      have hb' : buf.readable ++ future = [] ++ kCRLF ++ later := hb
      rcases line_cases search_nil hb' with ⟨hf, rest, hr, hrest⟩ | ⟨hf, hlt⟩
      · right
        rw [hf]
        obtain ⟨buf', hread, hret⟩ := retrieveLine_spec hr ⟨.kGotAll, r.after seen t'⟩ false
        refine ⟨_, hret, _, rfl, rfl, .inl ⟨t', ?_, ?_⟩⟩
        · rw [WellFormed.parsed, hseen, List.append_nil]
        · rw [hread, hrest]
      · right
        rw [hf]
        exact ⟨_, rfl, _, rfl, rfl, .inr ⟨_, .headers hseen, hb, hlt⟩⟩
    | cons line todo =>
      have hmem : line ∈ r.headers := by
        rw [hseen]
        simp
      have hb' : buf.readable ++ future = line ++ kCRLF ++ (headerBytes todo ++ later) := by
        rw [hb]
        simp [headerBytes]
      have hcolon : line.idxOf 58 ≠ line.length :=
        (List.idxOf_lt_length_of_mem (r.colon_mem line hmem)).ne
      rcases line_cases (r.header_unbroken line hmem) hb' with ⟨hf, rest, hr, hrest⟩ | ⟨hf, hlt⟩
      · left
        rw [hf]
        dsimp only
        rw [if_pos hcolon]
        obtain ⟨buf', hread, hret⟩ := retrieveLine_spec hr
          ⟨.kExpectHeaders, r.after (seen ++ [line]) t'⟩ true
        refine ⟨(buf', ⟨.kExpectHeaders, r.after (seen ++ [line]) t'⟩), ?_,
          ⟨headerBytes todo, .headers ?_, ?_⟩, ?_⟩
        · rw [← r.after_snoc]
          exact hret
        · rw [hseen]
          simp
        · dsimp only
          rw [hread, hrest]
        · dsimp only
          rw [hread, hr]
          simp
          omega
      · right
        rw [hf]
        refine ⟨_, rfl, _, rfl, rfl, .inr ⟨_, .headers hseen, hb, ?_⟩⟩
        have hlen : line.length + 2 ≤ (headerBytes (line :: todo)).length := by
          simp only [headerBytes, List.flatMap_cons, kCRLF, List.length_append, List.length_cons,
            List.length_nil]
          omega
        exact hlt.trans_le hlen

theorem parseRequest_progress (r : WellFormed) {future later todo : List UInt8} {buf : Buffer}
    {context : HttpContext} (t : ℤ) (h : Progress r context todo)
    (hb : buf.readable ++ future = todo ++ later) :
    Advanced r future later (parseRequest buf context t) := by
  obtain ⟨result, hr, hQ⟩ := iterate_of_variant (parseRequestBody t)
    (fun s => ∃ todo, Progress r s.2 todo ∧ s.1.readable ++ future = todo ++ later)
    (Advanced r future later) (fun s => s.1.readable.length)
    (fun s ⟨_, hp, hs⟩ => body_progress r t hp hs) (n := buf.readable.length + 1)
    (s := (buf, context)) ⟨todo, h, hb⟩ (Nat.lt_succ_self _)
  rw [parseRequest_of_iterate hr]
  exact hQ

theorem exists_readable (bytes : List UInt8) : ∃ buf : Buffer, buf.readable = bytes := by
  obtain ⟨buf, -, hread⟩ := Buffer.new.append_spec bytes
  exact ⟨buf, by rw [hread, Buffer.readable_new, List.nil_append]⟩

/-- The request that a fresh context parses from exactly the bytes of `r`, the
receive time aside. -/
def ParsedFresh (r : WellFormed) (q : HttpRequest) : Prop :=
  ∃ buf t p, buf.readable = r.bytes ∧ parseRequest buf .new t = .ok p ∧ p.ok = true ∧
    p.context = ⟨.kGotAll, { q with receiveTime := p.context.request.receiveTime }⟩

theorem parsedFresh_parsed (r : WellFormed) (t : ℤ) : ParsedFresh r (r.parsed t) := by
  obtain ⟨buf, hread⟩ := exists_readable r.bytes
  have hb : buf.readable ++ [] = r.bytes ++ [] := by rw [hread]
  have hstart : Progress r .new r.bytes := .start rfl rfl rfl
  obtain ⟨p, hp, hok, h⟩ := parseRequest_progress r t hstart hb
  refine ⟨buf, t, p, hread, hp, hok, ?_⟩
  rcases h with ⟨t', hctx, _⟩ | ⟨todo, _, htodo, hlt⟩
  · have htime : (r.parsed t').receiveTime = t' := by rw [r.parsed_receiveTime t t']
    rw [hctx, htime, ← r.parsed_receiveTime]
  · rw [List.append_nil, List.append_nil] at htodo
    rw [htodo] at hlt
    exact absurd hlt (lt_irrefl _)

/-- The requests `rs` have not been dispatched, and `future` is still to arrive. -/
def Awaiting (rs : List WellFormed) (future : List UInt8) (s : Session) : Prop :=
  match rs with
  | [] => s.context.state = .kExpectRequestLine ∧ s.inputBuffer.readable ++ future = []
  | r :: rs => ∃ todo, Progress r s.context todo ∧
      s.inputBuffer.readable ++ future = todo ++ stream rs

/-- After a dispatch the context is fresh, and what is left over stays in the buffer. -/
theorem awaiting_reset {rs : List WellFormed} {future : List UInt8} {buf : Buffer}
    {actions : List Action} (context : HttpContext) (h : buf.readable ++ future = stream rs) :
    Awaiting rs future ⟨buf, context.reset, actions⟩ := by
  cases rs with
  | nil => exact ⟨rfl, h⟩
  | cons r rs =>
    refine ⟨r.bytes, .start rfl rfl rfl, ?_⟩
    rw [show stream (r :: rs) = r.bytes ++ stream rs from List.flatMap_cons] at h
    exact h

theorem requests_onRequest (httpCallback : HttpCallback) (req : HttpRequest) :
    (onRequest httpCallback req).filterMap Action.request? = [req] := by
  unfold onRequest
  dsimp only
  split <;> rfl

variable (httpCallback : HttpCallback)

/-- A chunk dispatches the next request if it completes it, and none otherwise. -/
theorem receive_cons {r : WellFormed} {rs : List WellFormed} {future : List UInt8} {s : Session}
    {chunk : Chunk} (h : Awaiting (r :: rs) (chunk.data ++ future) s) :
    Yields (receive httpCallback s chunk) fun s' =>
      if future.length ≤ (stream rs).length then
        Awaiting rs future s' ∧ ∃ t, s'.requests = s.requests ++ [r.parsed t]
      else Awaiting (r :: rs) future s' ∧ s'.requests = s.requests := by
  obtain ⟨todo, hprog, hb⟩ := h
  obtain ⟨buf, hbuf, hread⟩ := s.inputBuffer.readFd_spec chunk.data
  rw [← List.append_assoc, ← hread] at hb
  obtain ⟨p, hp, hok, h⟩ := parseRequest_progress r chunk.receiveTime hprog hb
  rw [receive_of_ended httpCallback hbuf hp]
  refine yields_ok ?_
  rw [hok]
  rcases h with ⟨t, hctx, hrest⟩ | ⟨todo', hprog', htodo, hlt⟩
  · have hle : future.length ≤ (stream rs).length := by
      rw [← hrest, List.length_append]
      omega
    rw [if_pos hle, if_pos (by rw [hctx])]
    refine ⟨awaiting_reset p.context hrest, t, ?_⟩
    simp only [Session.requests, if_true, List.nil_append, List.filterMap_append,
      requests_onRequest, hctx]
  · have hgt : ¬future.length ≤ (stream rs).length := by
      have hlen := congrArg List.length htodo
      simp only [List.length_append] at hlen
      omega
    rw [if_neg hgt, if_neg hprog'.state_ne]
    exact ⟨⟨todo', hprog', htodo⟩, by simp [Session.requests]⟩

/-- After the last request nothing arrives. -/
theorem receive_nil {future : List UInt8} {s : Session} {chunk : Chunk}
    (h : Awaiting [] (chunk.data ++ future) s) :
    Yields (receive httpCallback s chunk) fun s' =>
      Awaiting [] future s' ∧ s'.requests = s.requests := by
  obtain ⟨hst, hnil⟩ := h
  obtain ⟨buf, hbuf, hread⟩ := s.inputBuffer.readFd_spec chunk.data
  rw [← List.append_assoc, ← hread] at hnil
  have hf : frontLine buf = none := by
    refine frontLine_unfinished search_nil ?_
    rw [(List.append_eq_nil_iff.mp hnil).1]
    exact List.nil_prefix
  have hbody : parseRequestBody chunk.receiveTime (buf, s.context) =
      .done (.ok ⟨true, buf, s.context⟩) := by
    unfold parseRequestBody
    dsimp only
    rw [hst]
    dsimp only
    rw [hf]
  have hp := parseRequest_of_iterate (iterate_done _ hbody buf.readable.length)
  rw [receive_of_ended httpCallback hbuf hp]
  refine yields_ok ?_
  dsimp only
  rw [if_neg (by rw [hst]; decide)]
  exact ⟨⟨hst, hnil⟩, by simp [Session.requests]⟩

/-- How many of the requests are complete in the first `n` bytes of their stream. -/
def complete : List WellFormed → ℕ → ℕ
  | [], _ => 0
  | r :: rs, n => if r.bytes.length ≤ n then complete rs (n - r.bytes.length) + 1 else 0

theorem lt_complete_iff (rs : List WellFormed) (d n : ℕ) :
    d < complete rs n ↔ d < rs.length ∧ (stream (rs.take (d + 1))).length ≤ n := by
  induction rs generalizing d n with
  | nil => simp [complete]
  | cons r rs ih =>
    have hlen : (stream ((r :: rs).take (d + 1))).length =
        r.bytes.length + (stream (rs.take d)).length := by
      simp [stream]
    rw [complete, hlen]
    split_ifs with hr
    · cases d with
      | zero =>
        simp only [stream, List.take_zero, List.flatMap_nil, List.length_nil, List.length_cons]
        omega
      | succ d =>
        have := ih d (n - r.bytes.length)
        rw [List.length_cons]
        omega
    · omega

theorem complete_mono (rs : List WellFormed) {m n : ℕ} (h : m ≤ n) :
    complete rs m ≤ complete rs n := by
  by_contra hlt
  have h₁ := (lt_complete_iff rs (complete rs n) m).mp (Nat.lt_of_not_le hlt)
  have h₂ := (lt_complete_iff rs (complete rs n) n).mpr ⟨h₁.1, h₁.2.trans h⟩
  exact absurd h₂ (lt_irrefl _)

/-- All the bytes of the chunks. -/
def chunkBytes (chunks : List Chunk) : List UInt8 := chunks.flatMap Chunk.data

/-- How many requests are complete when the first `j` chunks have arrived. -/
def arrived (rs : List WellFormed) (chunks : List Chunk) (j : ℕ) : ℕ :=
  complete rs (chunkBytes (chunks.take j)).length

theorem arrived_mono (rs : List WellFormed) (chunks : List Chunk) (j : ℕ) :
    arrived rs chunks j ≤ arrived rs chunks (j + 1) := by
  refine complete_mono rs ?_
  have hp : chunks.take j <+: chunks.take (j + 1) := List.take_prefix_take_left (Nat.le_succ j)
  obtain ⟨t, ht⟩ := hp
  rw [← ht, chunkBytes, chunkBytes, List.flatMap_append, List.length_append]
  omega

/-- Requests and what has been dispatched for them. -/
def Dispatched : List WellFormed → List HttpRequest → Prop :=
  List.Forall₂ fun r q => ∃ t, q = r.parsed t

/-- After `j` chunks, one request a chunk has been dispatched, as far as complete. -/
theorem receive_chunks {rs : List WellFormed} {chunks : List Chunk}
    (h : chunkBytes chunks = stream rs) {j : ℕ} (hj : j ≤ chunks.length) :
    Yields (exec (system httpCallback) .new (chunks.take j)) fun s =>
      Awaiting (rs.drop (Rounds.done (arrived rs chunks) j)) (chunkBytes (chunks.drop j)) s ∧
        Dispatched (rs.take (Rounds.done (arrived rs chunks) j)) s.requests := by
  induction j with
  | zero =>
    refine yields_ok ⟨?_, .nil⟩
    show Awaiting rs (chunkBytes chunks) .new
    cases rs with
    | nil => exact ⟨rfl, by rw [h]; rfl⟩
    | cons r rs =>
      refine ⟨r.bytes, .start rfl rfl rfl, ?_⟩
      rw [h]
      simp [Session.new, stream]
  | succ j ih =>
    obtain ⟨s, hs, hawait, hdisp⟩ := ih (by omega)
    have htake : chunks.take (j + 1) = chunks.take j ++ [chunks[j]] :=
      (List.take_concat_get' chunks j (by omega)).symm
    have hdrop : chunkBytes (chunks.drop j) = chunks[j].data ++ chunkBytes (chunks.drop (j + 1)) := by
      rw [List.drop_eq_getElem_cons (by omega)]
      rfl
    have hstep : exec (system httpCallback) .new (chunks.take (j + 1)) =
        receive httpCallback s chunks[j] := by
      rw [htake]
      exact exec_snoc (system httpCallback) hs chunks[j]
    rw [hdrop] at hawait
    rw [hstep, Rounds.done_succ _ (arrived_mono rs chunks)]
    generalize hd : Rounds.done (arrived rs chunks) j = d at hawait hdisp ⊢
    have htotal : (chunkBytes (chunks.take (j + 1))).length +
        (chunkBytes (chunks.drop (j + 1))).length = (stream rs).length := by
      rw [← h, ← List.length_append, chunkBytes, chunkBytes, ← List.flatMap_append,
        List.take_append_drop]
      rfl
    have hsplit : (stream (rs.take (d + 1))).length + (stream (rs.drop (d + 1))).length =
        (stream rs).length := by
      rw [← List.length_append, stream, stream, ← List.flatMap_append, List.take_append_drop]
      rfl
    have hiff : d < arrived rs chunks (j + 1) ↔ d < rs.length ∧
        (chunkBytes (chunks.drop (j + 1))).length ≤ (stream (rs.drop (d + 1))).length := by
      rw [arrived, lt_complete_iff]
      omega
    rcases Nat.lt_or_ge d rs.length with hlt | hge
    · rw [List.drop_eq_getElem_cons hlt] at hawait
      refine (receive_cons httpCallback hawait).mono fun s' hs' => ?_
      by_cases hle : (chunkBytes (chunks.drop (j + 1))).length ≤ (stream (rs.drop (d + 1))).length
      · rw [if_pos hle] at hs'
        obtain ⟨hawait', t, hreq⟩ := hs'
        rw [if_pos (hiff.mpr ⟨hlt, hle⟩)]
        refine ⟨hawait', ?_⟩
        rw [hreq, ← List.take_concat_get' rs d hlt]
        exact List.rel_append hdisp (.cons ⟨t, rfl⟩ .nil)
      · rw [if_neg hle] at hs'
        rw [if_neg (fun hc => hle (hiff.mp hc).2), List.drop_eq_getElem_cons hlt, hs'.2]
        exact ⟨hs'.1, hdisp⟩
    · rw [List.drop_of_length_le hge] at hawait
      rw [if_neg (fun hc => absurd (hiff.mp hc).1 (Nat.not_lt.mpr hge)),
        List.drop_of_length_le hge]
      refine (receive_nil httpCallback hawait).mono fun s' hs' => ?_
      rw [hs'.2]
      exact ⟨hs'.1, hdisp⟩

/-- A stream of well-formed requests, however it is cut, is received without a failed
assertion. Each request is dispatched, in order and as a fresh context parses it,
exactly if from every chunk on there are chunks enough for the requests that were
not complete by then. -/
theorem all_dispatched_iff {rs : List WellFormed} {chunks : List Chunk}
    (h : chunkBytes chunks = stream rs) :
    ∃ s, exec (system httpCallback) .new chunks = .ok s ∧
      (List.Forall₂ ParsedFresh rs s.requests ↔
        ∀ j ≤ chunks.length, rs.length ≤ arrived rs chunks j + (chunks.length - j)) := by
  obtain ⟨s, hs, _, hdisp⟩ := receive_chunks httpCallback h (le_refl chunks.length)
  rw [List.take_length] at hs
  refine ⟨s, hs, ?_⟩
  have h0 : arrived rs chunks 0 = 0 := by
    have hpos : ¬0 < complete rs 0 := by
      rw [lt_complete_iff]
      rintro ⟨hlt, hlen⟩
      cases rs with
      | nil => exact absurd hlt (lt_irrefl _)
      | cons r rs => simp [stream, WellFormed.bytes, kCRLF] at hlen
    exact Nat.eq_zero_of_not_pos hpos
  rw [← Rounds.le_done_iff (arrived rs chunks) h0]
  constructor
  · intro hall
    have hlen := hall.length_eq.trans hdisp.length_eq.symm
    rw [List.length_take] at hlen
    omega
  · intro hle
    unfold Dispatched at hdisp
    rw [List.take_of_length_le hle] at hdisp
    refine hdisp.imp ?_
    rintro r q ⟨t, rfl⟩
    exact parsedFresh_parsed r t

/-- `GET / HTTP/1.1` without headers. -/
def getRoot : WellFormed where
  method := .kGet
  path := text "/"
  version := .kHttp11
  headers := []
  method_ne := by decide
  version_ne := by decide
  space_notMem := by decide
  line_unbroken := by decide
  header_unbroken := by simp
  colon_mem := by simp

/-- Two requests, each in a chunk of its own, are both dispatched. -/
theorem two_chunks_dispatched :
    ∃ s, exec (system fun _ response => response) .new
        [⟨getRoot.bytes, 0⟩, ⟨getRoot.bytes, 1⟩] = .ok s ∧
      List.Forall₂ ParsedFresh [getRoot, getRoot] s.requests := by
  have hstream : chunkBytes [⟨getRoot.bytes, 0⟩, ⟨getRoot.bytes, 1⟩] =
      stream [getRoot, getRoot] := rfl
  obtain ⟨s, hs, hiff⟩ := all_dispatched_iff (fun _ response => response) hstream
  exact ⟨s, hs, hiff.mpr (by decide)⟩

/-- In one chunk, only the first is, although the connection stays open. -/
theorem one_chunk_not_dispatched :
    chunkBytes [⟨stream [getRoot, getRoot], 0⟩] = stream [getRoot, getRoot] ∧
      ∃ s, exec (system fun _ response => response) .new [⟨stream [getRoot, getRoot], 0⟩] = .ok s ∧
        .shutdown ∉ s.actions ∧ ¬List.Forall₂ ParsedFresh [getRoot, getRoot] s.requests := by
  refine ⟨rfl, ?_⟩
  have h : (match exec (system fun _ response => response) .new
        [⟨stream [getRoot, getRoot], 0⟩] with
      | .ok s => decide (.shutdown ∉ s.actions ∧ s.requests.length = 1)
      | .error _ => false) = true := by decide +kernel
  split at h
  · rename_i s hs
    obtain ⟨hopen, hlen⟩ := of_decide_eq_true h
    refine ⟨s, hs, hopen, fun hall => ?_⟩
    rw [← hall.length_eq] at hlen
    cases hlen
  · cases h

end Muduo.HttpServer
