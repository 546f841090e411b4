import Muduo.Buffer
import Muduo.HttpContext
import Muduo.Library.WhileLoop

/-!
# HttpServer

`net/http/HttpServer.cc`. `httpCallback_` is a parameter. What `onMessage` does to
its connection is the list of its actions, in order.
-/
namespace Muduo.HttpServer
open WhileLoop

/-- `processRequestLine(begin, end, context)`, with its value. -/
def processRequestLine (line : List UInt8) (context : HttpContext) :
    Checked (Bool × HttpContext) := do
  let space := line.idxOf 32
  if space = line.length then return (false, context)
  let (request, known) ← context.request.setMethod (line.take space)
  let context := { context with request }
  if !known then return (false, context)
  let rest := line.drop (space + 1)
  let space := rest.idxOf 32
  if space = rest.length then return (false, context)
  let context := { context with request.path := rest.take space }
  let version := rest.drop (space + 1)
  if version.length = 8 ∧ version.take 7 = text "HTTP/1." then
    if version.drop 7 = text "1" then
      return (true, { context with request.version := .kHttp11 })
    else if version.drop 7 = text "0" then
      return (true, { context with request.version := .kHttp10 })
    else return (false, context)
  else return (false, context)

/-- What `parseRequest` returns, and what it leaves of its arguments. -/
structure Parsed where
  ok : Bool
  buf : Buffer
  context : HttpContext

/-- The bytes before the first CRLF, if there is one. -/
def frontLine (buf : Buffer) : Option (List UInt8) :=
  buf.findCRLF.map fun crlf => buf.readable.take crlf

/-- `buf->retrieveUntil(crlf + 2)`, then the next iteration or the end of the loop. -/
def retrieveLine (buf : Buffer) (line : List UInt8) (context : HttpContext) (hasMore : Bool) :
    Exit (Buffer × HttpContext) (Checked Parsed) :=
  match buf.retrieveUntil (line.length + 2) with
  | .ok buf => if hasMore then .next (buf, context) else .done (.ok ⟨true, buf, context⟩)
  | .error a => .done (.error a)

/-- One iteration of the loop of `parseRequest`. -/
def parseRequestBody (receiveTime : ℤ) (s : Buffer × HttpContext) :
    Exit (Buffer × HttpContext) (Checked Parsed) :=
  let (buf, context) := s
  match context.state with
  | .kExpectRequestLine =>
    match frontLine buf with
    | some line =>
      match processRequestLine line context with
      | .ok (true, context) =>
        let context := { context with request.receiveTime := receiveTime }
        retrieveLine buf line context.receiveRequestLine true
      | .ok (false, context) => .done (.ok ⟨false, buf, context⟩)
      | .error a => .done (.error a)
    | none => .done (.ok ⟨true, buf, context⟩)
  | .kExpectHeaders =>
    match frontLine buf with
    | some line =>
      let colon := line.idxOf 58
      if colon ≠ line.length then
        retrieveLine buf line { context with request := context.request.addHeader line colon } true
      else retrieveLine buf line context.receiveHeaders false
    | none => .done (.ok ⟨true, buf, context⟩)
  | .kExpectBody | .kGotAll => .next (buf, context)

/-- `parseRequest`. An iteration that goes on takes a line off the buffer, or will go
on for ever. -/
def parseRequest (buf : Buffer) (context : HttpContext) (receiveTime : ℤ) : Checked Parsed :=
  (iterate (parseRequestBody receiveTime) (buf.readable.length + 1) (buf, context)).getD
    (.error .parseRequestHangs)

inductive Action
  /-- `conn->send("HTTP/1.1 400 Bad Request\r\n\r\n")` -/
  | sendBadRequest
  /-- `httpCallback_(request, ..)` -/
  | httpCallback (request : HttpRequest)
  /-- `conn->send(&buf)` -/
  | sendResponse (response : List UInt8)
  /-- `conn->shutdown()` -/
  | shutdown
  deriving DecidableEq, Repr

/-- What an action sends. -/
def Action.bytes : Action → List UInt8
  | sendBadRequest => text "HTTP/1.1 400 Bad Request\r\n\r\n"
  | sendResponse response => response
  | _ => []

/-- The request that an action gives to the user. -/
def Action.request? : Action → Option HttpRequest
  | httpCallback request => some request
  | _ => none

/-- The user's callback: the response it makes of the one it is given. -/
abbrev HttpCallback := HttpRequest → HttpResponse → HttpResponse

variable (httpCallback : HttpCallback)

def onRequest (req : HttpRequest) : List Action :=
  let connection := req.getHeader (text "Connection")
  let close := connection = text "close" ∨
    req.version = .kHttp10 ∧ connection ≠ text "Keep-Alive"
  let response := httpCallback req (.new close)
  [.httpCallback req, .sendResponse response.appendToBuffer] ++
    if response.closeConnection then [.shutdown] else []

/-- `onMessage`, with its actions. -/
def onMessage (buf : Buffer) (context : HttpContext) (receiveTime : ℤ) :
    Checked (Buffer × HttpContext × List Action) := do
  let p ← parseRequest buf context receiveTime
  let refusal : List Action := if p.ok then [] else [.sendBadRequest, .shutdown]
  if p.context.state = .kGotAll then
    return (p.buf, p.context.reset, refusal ++ onRequest httpCallback p.context.request)
  else return (p.buf, p.context, refusal)

/-- A connection as the server sees it: its input buffer, its context, and all that
has been done to it. -/
structure Session where
  inputBuffer : Buffer
  context : HttpContext
  actions : List Action

/-- `onConnection` -/
def Session.new : Session := ⟨.new, .new, []⟩

/-- Bytes that have arrived together, and when. -/
structure Chunk where
  data : List UInt8
  receiveTime : ℤ
  deriving DecidableEq, Repr

/-- A chunk is read into the input buffer, and `onMessage` is called. -/
def receive (s : Session) (chunk : Chunk) : Checked Session := do
  let buf ← s.inputBuffer.readFd chunk.data
  let (buf, context, actions) ← onMessage httpCallback buf s.context chunk.receiveTime
  return ⟨buf, context, s.actions ++ actions⟩

/-- The calls of `httpCallback_`, in order. -/
def Session.requests (s : Session) : List HttpRequest := s.actions.filterMap Action.request?

section FrontLine
variable {buf : Buffer} {line rest : List UInt8}

theorem crlf_ne : (13 : UInt8) ≠ 10 := by decide

/-- A complete line is found. -/
theorem frontLine_of_line (h : ListSearch.search kCRLF line = none)
    (hb : buf.readable = line ++ 13 :: 10 :: rest) : frontLine buf = some line := by
  unfold frontLine Buffer.findCRLF
  rw [hb, show kCRLF = [13, 10] from rfl, ListSearch.search_pair_line crlf_ne h rest]
  simp

/-- An incomplete line is not. -/
theorem frontLine_unfinished (h : ListSearch.search kCRLF line = none)
    (hb : buf.readable <+: line ++ [13]) : frontLine buf = none := by
  unfold frontLine Buffer.findCRLF
  rw [show kCRLF = [13, 10] from rfl, ListSearch.search_pair_unfinished crlf_ne h hb]
  rfl

theorem readable_of_frontLine (h : frontLine buf = some line) :
    ∃ rest, buf.readable = line ++ 13 :: 10 :: rest := by
  unfold frontLine Buffer.findCRLF at h
  obtain ⟨i, hi, rfl⟩ := Option.map_eq_some_iff.mp h
  have hsplit := ListSearch.search_split hi
  refine ⟨buf.readable.drop (i + kCRLF.length), ?_⟩
  conv_lhs => rw [hsplit]
  simp [kCRLF]

/-- What arrives later does not change a complete line. -/
theorem frontLine_append {buf' : Buffer} {data : List UInt8} (h : frontLine buf = some line)
    (hb : buf'.readable = buf.readable ++ data) : frontLine buf' = some line := by
  obtain ⟨rest, hr⟩ := readable_of_frontLine h
  unfold frontLine Buffer.findCRLF at h ⊢
  obtain ⟨i, hi, hl⟩ := Option.map_eq_some_iff.mp h
  have hle := ListSearch.search_lt_length hi
  rw [hb, ListSearch.search_append_of_some data hi, Option.map_some,
    List.take_append_of_le_length (by omega), hl]

/-- The line and its CRLF leave the buffer. -/
theorem retrieveLine_spec (hb : buf.readable = line ++ 13 :: 10 :: rest) (context : HttpContext)
    (hasMore : Bool) :
    ∃ buf', buf'.readable = rest ∧ retrieveLine buf line context hasMore =
      if hasMore then .next (buf', context) else .done (.ok ⟨true, buf', context⟩) := by
  have hle : line.length + 2 ≤ buf.readable.length := by
    rw [hb]
    simp
  obtain ⟨b, hb', hread⟩ := buf.retrieveUntil_spec hle
  refine ⟨b, ?_, by rw [retrieveLine, hb']⟩
  rw [hread, hb, ← List.drop_drop, List.drop_left]
  rfl

end FrontLine

/-- A loop of `parseRequest` that never ends does not end in the bound of the model. -/
theorem parseRequest_of_iterate {buf : Buffer} {context : HttpContext} {t : ℤ}
    {r : Checked Parsed} (h : iterate (parseRequestBody t) (buf.readable.length + 1)
      (buf, context) = some r) : parseRequest buf context t = r := by
  rw [parseRequest, h]
  rfl

end Muduo.HttpServer
