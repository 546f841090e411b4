import Muduo.HttpServer
import Muduo.Library.StepSystem

/-!
# Requests that are rejected

Any bytes may arrive, in any chunks, also after the server has answered 400 and
shut down its write half. A rejected request line stays in the input buffer, and
the method it has set stays in the context.
-/
namespace Muduo.HttpServer
open StepSystem WhileLoop

/-- The line begins with one of the five methods and a space. -/
def BeginsWithMethod (line : List UInt8) : Prop :=
  ∃ m : HttpRequest.Method, m ≠ .kInvalid ∧ HttpRequest.methodString m ++ [32] <+: line

theorem space_notMem_methodString (m : HttpRequest.Method) :
    (32 : UInt8) ∉ HttpRequest.methodString m := by
  cases m <;> decide

theorem take_idxOf_append {x : UInt8} {xs : List UInt8} (h : xs.idxOf x < xs.length) :
    xs.take (xs.idxOf x) ++ x :: xs.drop (xs.idxOf x + 1) = xs := by
  have hdrop := List.drop_eq_getElem_cons h
  rw [List.getElem_idxOf h] at hdrop
  rw [← hdrop, List.take_append_drop]

/-- This is what `processRequestLine` finds out by `std::find` and `setMethod`. -/
theorem beginsWithMethod_iff (line : List UInt8) :
    BeginsWithMethod line ↔ line.idxOf 32 ≠ line.length ∧
      HttpRequest.methodOf (line.take (line.idxOf 32)) ≠ .kInvalid := by
  constructor
  · rintro ⟨m, hm, rest, rfl⟩
    rw [List.append_assoc, List.idxOf_append_of_notMem (space_notMem_methodString m)]
    have hidx : ([32] ++ rest : List UInt8).idxOf 32 = 0 := by simp
    rw [hidx, Nat.add_zero, List.take_left, HttpRequest.methodOf_methodString]
    exact ⟨by simp, hm⟩
  · rintro ⟨hlen, hm⟩
    have hlt : line.idxOf 32 < line.length := lt_of_le_of_ne List.idxOf_le_length hlen
    refine ⟨_, hm, line.drop (line.idxOf 32 + 1), ?_⟩
    rw [HttpRequest.methodString_methodOf hm, List.append_assoc]
    exact take_idxOf_append hlt

variable {line : List UInt8} {context : HttpContext}

/-- On a context without a method the request line is processed without a failed
assertion, and a method is stored exactly if the line begins with one. -/
theorem processRequestLine_spec (line : List UInt8) (h : context.request.method = .kInvalid) :
    Yields (processRequestLine line context) fun r =>
      r.2.state = context.state ∧ (r.2.request.method ≠ .kInvalid ↔ BeginsWithMethod line) := by
  rw [beginsWithMethod_iff]
  unfold processRequestLine HttpRequest.setMethod
  dsimp only
  by_cases hs : line.idxOf 32 = line.length
  · rw [if_pos hs]
    exact yields_ok ⟨rfl, by simp [h, hs]⟩
  · rw [if_neg hs, assert_pos h]
    simp only [ok_bind, pure_eq_ok]
    split_ifs with hm
    all_goals exact yields_ok ⟨rfl, by simp_all⟩

/-- A line without a method is rejected again, and nothing is stored. -/
theorem processRequestLine_unknown (h : context.request.method = .kInvalid)
    (hl : ¬BeginsWithMethod line) :
    Yields (processRequestLine line context) fun r => r.1 = false ∧ r.2 = context := by
  rw [beginsWithMethod_iff, not_and_or, not_not, not_not] at hl
  unfold processRequestLine HttpRequest.setMethod
  dsimp only
  by_cases hs : line.idxOf 32 = line.length
  · rw [if_pos hs]
    exact yields_ok ⟨rfl, rfl⟩
  · have hm := hl.resolve_left hs
    rw [if_neg hs, assert_pos h]
    simp only [ok_bind, pure_eq_ok, hm]
    refine yields_ok ⟨rfl, ?_⟩
    rw [← h]

/-- A line with a method trips the assertion once a method has been stored. -/
theorem processRequestLine_again (h : context.request.method ≠ .kInvalid)
    (hl : BeginsWithMethod line) :
    processRequestLine line context = .error .setMethodInvalid := by
  have hs := ((beginsWithMethod_iff line).mp hl).1
  unfold processRequestLine HttpRequest.setMethod
  dsimp only
  rw [if_neg hs, assert_neg h]
  rfl

/-- The context before a request line or among the headers. -/
def Parsing (context : HttpContext) : Prop :=
  context.state = .kExpectRequestLine ∧ context.request.method = .kInvalid ∨
    context.state = .kExpectHeaders

/-- A rejected request line stands in front of the buffer. -/
def Rejected (buf : Buffer) (context : HttpContext) : Prop :=
  context.state = .kExpectRequestLine ∧ ∃ line, frontLine buf = some line ∧
    (context.request.method ≠ .kInvalid ↔ BeginsWithMethod line)

/-- Where `parseRequest` can end. -/
def Ended (r : Checked Parsed) : Prop :=
  ∃ p, r = .ok p ∧ (p.ok = true ∧ (p.context.state = .kGotAll ∨ Parsing p.context) ∨
    p.ok = false ∧ Rejected p.buf p.context)

/-- One line of a request is taken off the buffer, or the loop ends. -/
theorem body_parsing {s : Buffer × HttpContext} {t : ℤ} (h : Parsing s.2) :
    (∃ u, parseRequestBody t s = .next u ∧ Parsing u.2 ∧
      u.1.readable.length < s.1.readable.length) ∨
    ∃ r, parseRequestBody t s = .done r ∧ Ended r := by
  obtain ⟨buf, context⟩ := s
  unfold parseRequestBody
  dsimp only
  cases hf : frontLine buf with
  | none =>
    right
    refine ⟨.ok ⟨true, buf, context⟩, ?_, _, rfl, .inl ⟨rfl, .inr h⟩⟩
    rcases h with ⟨hs, _⟩ | hs
    · have hs' : context.state = .kExpectRequestLine := hs
      rw [hs']
    · have hs' : context.state = .kExpectHeaders := hs
      rw [hs']
  | some line =>
    obtain ⟨rest, hr⟩ := readable_of_frontLine hf
    have hlt : rest.length < buf.readable.length := by
      rw [hr]
      simp
      omega
    rcases h with ⟨hs, hm⟩ | hs
    · have hs' : context.state = .kExpectRequestLine := hs
      obtain ⟨⟨ok, context'⟩, hp, hst, hmeth⟩ := processRequestLine_spec line hm
      rw [hs']
      dsimp only
      rw [hp]
      cases ok with
      | true =>
        left
        obtain ⟨buf', hread, hret⟩ := retrieveLine_spec hr
          { context' with request.receiveTime := t }.receiveRequestLine true
        refine ⟨_, hret, .inr rfl, ?_⟩
        dsimp only
        rw [hread]
        exact hlt
      | false =>
        right
        exact ⟨_, rfl, _, rfl, .inr ⟨rfl, hst.trans hs, line, hf, hmeth⟩⟩
    · have hs' : context.state = .kExpectHeaders := hs
      rw [hs']
      dsimp only
      split_ifs with hcolon
      · left
        obtain ⟨buf', hread, hret⟩ := retrieveLine_spec hr
          ⟨.kExpectHeaders, context.request.addHeader line (line.idxOf 58)⟩ true
        refine ⟨_, hret, .inr rfl, ?_⟩
        dsimp only
        rw [hread]
        exact hlt
      · right
        obtain ⟨buf', hread, hret⟩ := retrieveLine_spec hr context.receiveHeaders false
        exact ⟨_, hret, _, rfl, .inl ⟨rfl, .inl rfl⟩⟩

theorem parseRequest_parsing (buf : Buffer) (h : Parsing context) (t : ℤ) :
    Ended (parseRequest buf context t) := by
  obtain ⟨r, hr, hQ⟩ := iterate_of_variant (parseRequestBody t) (fun s => Parsing s.2) Ended
    (fun s => s.1.readable.length) (fun _ hs => body_parsing hs) (n := buf.readable.length + 1)
    (s := (buf, context)) h (Nat.lt_succ_self _)
  rw [parseRequest_of_iterate hr]
  exact hQ

/-- A rejected line without a method is rejected again. -/
theorem parseRequest_unknown {buf : Buffer} {line : List UInt8} {context : HttpContext} (t : ℤ)
    (hst : context.state = .kExpectRequestLine) (hf : frontLine buf = some line)
    (hm : context.request.method = .kInvalid) (hl : ¬BeginsWithMethod line) :
    parseRequest buf context t = .ok ⟨false, buf, context⟩ := by
  obtain ⟨⟨ok, context'⟩, hp, hok, hctx⟩ := processRequestLine_unknown hm hl
  dsimp only at hok hctx
  rw [hok, hctx] at hp
  have hbody : parseRequestBody t (buf, context) = .done (.ok ⟨false, buf, context⟩) := by
    unfold parseRequestBody
    dsimp only
    rw [hst]
    dsimp only
    rw [hf]
    dsimp only
    rw [hp]
  exact parseRequest_of_iterate (iterate_done _ hbody buf.readable.length)

/-- A rejected line with a method trips the assertion. -/
theorem parseRequest_again {buf : Buffer} {line : List UInt8} {context : HttpContext} (t : ℤ)
    (hst : context.state = .kExpectRequestLine) (hf : frontLine buf = some line)
    (hm : context.request.method ≠ .kInvalid) (hl : BeginsWithMethod line) :
    parseRequest buf context t = .error .setMethodInvalid := by
  have hbody : parseRequestBody t (buf, context) = .done (.error .setMethodInvalid) := by
    unfold parseRequestBody
    dsimp only
    rw [hst]
    dsimp only
    rw [hf]
    dsimp only
    rw [processRequestLine_again hm hl]
  exact parseRequest_of_iterate (iterate_done _ hbody buf.readable.length)

theorem parsing_reset (context : HttpContext) : Parsing context.reset := .inl ⟨rfl, rfl⟩

variable (httpCallback : HttpCallback)

/-- Chunks arrive; each is followed by `onMessage`. -/
def system : System Session Chunk Assertion where
  init s := s = .new
  enabled _ _ := True
  step := receive httpCallback

/-- Where the session stands between two chunks. -/
def Inv (s : Session) : Prop :=
  if .sendBadRequest ∈ s.actions then Rejected s.inputBuffer s.context else Parsing s.context

/-- If the server has answered 400, the line in front of its input buffer, which it
has rejected, does not begin with a method and a space. -/
def NoMethodRejected (s : Session) (_ : Chunk) : Prop :=
  .sendBadRequest ∈ s.actions →
    ∀ line, frontLine s.inputBuffer = some line → ¬BeginsWithMethod line

theorem sendBadRequest_notMem_onRequest (req : HttpRequest) :
    .sendBadRequest ∉ onRequest httpCallback req := by
  unfold onRequest
  dsimp only
  split <;> simp

variable {s : Session} {chunk : Chunk}

/-- The session after `parseRequest` has ended. -/
theorem receive_of_ended {buf : Buffer} (hb : s.inputBuffer.readFd chunk.data = .ok buf)
    {p : Parsed} (hp : parseRequest buf s.context chunk.receiveTime = .ok p) :
    receive httpCallback s chunk = .ok (
      let refusal : List Action := if p.ok then [] else [.sendBadRequest, .shutdown]
      if p.context.state = .kGotAll then
        ⟨p.buf, p.context.reset, s.actions ++ (refusal ++ onRequest httpCallback p.context.request)⟩
      else ⟨p.buf, p.context, s.actions ++ refusal⟩) := by
  unfold receive onMessage
  rw [hb, ok_bind, hp]
  simp only [ok_bind, pure_eq_ok]
  split <;> rfl

/-- A chunk that meets no rejected request line. -/
theorem receive_parsing (hs : .sendBadRequest ∉ s.actions) (hp : Parsing s.context) :
    Yields (receive httpCallback s chunk) Inv := by
  obtain ⟨buf, hb, _⟩ := s.inputBuffer.readFd_spec chunk.data
  obtain ⟨p, hpr, hp⟩ := parseRequest_parsing buf hp chunk.receiveTime
  rw [receive_of_ended httpCallback hb hpr]
  refine yields_ok ?_
  dsimp only
  rcases hp with ⟨hok, hst⟩ | ⟨hok, hrej⟩
  · rw [hok, if_pos rfl]
    split_ifs with hall
    · unfold Inv
      rw [if_neg]
      · exact parsing_reset p.context
      · simp [hs, sendBadRequest_notMem_onRequest]
    · unfold Inv
      rw [if_neg (by simpa using hs)]
      exact hst.resolve_left hall
  · rw [hok, if_neg (by rw [hrej.1]; decide)]
    unfold Inv
    rw [if_pos (by simp)]
    exact hrej

/-- A rejected line without a method is rejected again. -/
theorem receive_unknown (h : Rejected s.inputBuffer s.context)
    (hl : ∀ line, frontLine s.inputBuffer = some line → ¬BeginsWithMethod line) :
    Yields (receive httpCallback s chunk) Inv := by
  obtain ⟨hst, line, hf, hm⟩ := h
  have hmeth : s.context.request.method = .kInvalid := by
    by_contra hne
    exact hl line hf (hm.mp hne)
  obtain ⟨buf, hb, hread⟩ := s.inputBuffer.readFd_spec chunk.data
  have hf' := frontLine_append hf hread
  have hpr := parseRequest_unknown chunk.receiveTime hst hf' hmeth (hl line hf)
  rw [receive_of_ended httpCallback hb hpr]
  refine yields_ok ?_
  dsimp only
  rw [if_neg (by rw [hst]; decide)]
  unfold Inv
  rw [if_pos (by simp)]
  exact ⟨hst, line, hf', hm⟩

/-- A rejected line with a method trips the assertion as soon as anything arrives. -/
theorem receive_again (h : Rejected s.inputBuffer s.context) {line : List UInt8}
    (hf : frontLine s.inputBuffer = some line) (hl : BeginsWithMethod line) :
    receive httpCallback s chunk = .error .setMethodInvalid := by
  obtain ⟨hst, line', hf'', hm⟩ := h
  rw [hf] at hf''
  obtain rfl := Option.some.inj hf''
  obtain ⟨buf, hb, hread⟩ := s.inputBuffer.readFd_spec chunk.data
  have hf' := frontLine_append hf hread
  have hpr := parseRequest_again chunk.receiveTime hst hf' (hm.mpr hl) hl
  unfold receive onMessage
  rw [hb, ok_bind, hpr]
  rfl

theorem receive_ok (h : Inv s) (hg : NoMethodRejected s chunk) :
    Yields (receive httpCallback s chunk) Inv := by
  unfold Inv at h
  split_ifs at h with hs
  · exact receive_unknown httpCallback h (hg hs)
  · exact receive_parsing httpCallback hs h

theorem receive_error (h : Inv s) (hg : ¬NoMethodRejected s chunk) :
    receive httpCallback s chunk = .error .setMethodInvalid := by
  unfold NoMethodRejected at hg
  push Not at hg
  obtain ⟨hs, line, hf, hl⟩ := hg
  unfold Inv at h
  rw [if_pos hs] at h
  exact receive_again httpCallback h hf hl

theorem inv_new : Inv .new := .inl ⟨rfl, rfl⟩

/-- No assertion fails, exactly when no chunk arrives after the server has answered
400 to a request line that begins with a method and a space. What fails otherwise
is the assertion of `setMethod`. -/
theorem receive_all_iff (chunks : List Chunk) :
    ((∃ s, exec (system httpCallback) .new chunks = .ok s) ↔
        Guarded (system httpCallback) NoMethodRejected .new chunks) ∧
      (exec (system httpCallback) .new chunks = .error .setMethodInvalid ↔
        ¬Guarded (system httpCallback) NoMethodRejected .new chunks) := by
  have hok : Guarded (system httpCallback) NoMethodRejected .new chunks →
      ∃ s, exec (system httpCallback) .new chunks = .ok s ∧ Inv s :=
    exec_ok_of_guarded (system httpCallback) (fun _ _ => trivial)
      (fun _ _ h hg => receive_ok httpCallback h hg) inv_new
  have herr : ¬Guarded (system httpCallback) NoMethodRejected .new chunks →
      exec (system httpCallback) .new chunks = .error .setMethodInvalid :=
    exec_error_of_not_guarded (system httpCallback) (fun _ _ => trivial)
      (fun _ _ h hg => receive_ok httpCallback h hg)
      (fun _ _ h hg => receive_error httpCallback h hg) inv_new
  constructor
  · constructor
    · rintro ⟨s, hs⟩
      by_contra hg
      rw [herr hg] at hs
      cases hs
    · intro hg
      obtain ⟨s, hs, _⟩ := hok hg
      exact ⟨s, hs⟩
  · constructor
    · intro he hg
      obtain ⟨s, hs, _⟩ := hok hg
      rw [hs] at he
      cases he
    · exact herr

/-- A request line without a version, and then one more byte. -/
def versionless : List Chunk := [⟨text "GET /\r\n", 0⟩, ⟨text "x", 1⟩]

theorem versionless_setMethodInvalid :
    exec (system fun _ response => response) .new versionless = .error .setMethodInvalid := by
  have h : (match exec (system fun _ response => response) .new versionless with
      | .ok _ => false
      | .error a => a == .setMethodInvalid) = true := by decide +kernel
  split at h
  · cases h
  · rename_i a ha
    rw [ha, beq_iff_eq.mp h]

end Muduo.HttpServer
