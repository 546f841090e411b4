import Mathlib.Data.List.DropRight
import Muduo.Assertion

/-!
# Requests, responses and the parsing context

`net/http/HttpRequest.h`, `net/http/HttpResponse.h`, `net/http/HttpResponse.cc` and
`net/http/HttpContext.h`. A string is a list of bytes; a range of pointers is the
list of the bytes in it. A `std::map` of strings is the list of its entries in the
order of the keys.
-/
namespace Muduo

/-- The bytes of an ASCII text. -/
def text (s : String) : List UInt8 := s.toList.map fun c => UInt8.ofNat c.toNat

abbrev StringMap := List (List UInt8 × List UInt8)

/-- `m[key] = value` -/
def StringMap.set (key value : List UInt8) : StringMap → StringMap
  | [] => [(key, value)]
  | (k, v) :: m =>
    if key < k then (key, value) :: (k, v) :: m
    else if key = k then (key, value) :: m
    else (k, v) :: StringMap.set key value m

namespace StringMap
variable {key value : List UInt8} {m : StringMap}

/-- The entries are in the strict order of their keys. -/
def Sorted (m : StringMap) : Prop := m.Pairwise fun a b => a.1 < b.1

theorem mem_set {e : List UInt8 × List UInt8} (h : e ∈ StringMap.set key value m) :
    e = (key, value) ∨ e ∈ m := by
  induction m with
  | nil => simpa [StringMap.set] using h
  | cons a m ih =>
    unfold StringMap.set at h
    split_ifs at h with hlt heq
    · simpa using h
    · rcases List.mem_cons.mp h with h | h
      · exact .inl h
      · exact .inr (List.mem_cons_of_mem _ h)
    · rcases List.mem_cons.mp h with h | h
      · exact .inr (h ▸ List.mem_cons_self)
      · exact (ih h).imp_right (List.mem_cons_of_mem _)

theorem sorted_set (h : m.Sorted) : (StringMap.set key value m).Sorted := by
  induction m with
  | nil => exact List.pairwise_singleton ..
  | cons a m ih =>
    obtain ⟨ha, hm⟩ := List.pairwise_cons.mp h
    unfold StringMap.set
    split_ifs with hlt heq
    · refine List.pairwise_cons.mpr ⟨fun e he => ?_, h⟩
      rcases List.mem_cons.mp he with rfl | he
      · exact hlt
      · exact Std.lt_trans hlt (ha e he)
    · exact List.pairwise_cons.mpr ⟨fun e he => heq ▸ ha e he, hm⟩
    · refine List.pairwise_cons.mpr ⟨fun e he => ?_, ih hm⟩
      rcases mem_set he with rfl | he
      · exact Std.lt_of_le_of_ne hlt (Ne.symm heq)
      · exact ha e he

/-- A new key is one more entry. -/
theorem set_perm (h : ∀ e ∈ m, e.1 ≠ key) :
    (StringMap.set key value m).Perm ((key, value) :: m) := by
  induction m with
  | nil => exact .refl _
  | cons a m ih =>
    obtain ⟨ha, hm⟩ := List.forall_mem_cons.mp h
    unfold StringMap.set
    split_ifs with hlt heq
    · exact .refl _
    · exact absurd heq.symm ha
    · exact ((ih hm).cons _).trans (.swap ..)

theorem Sorted.eq_of_perm {m' : StringMap} (h : m.Sorted) (h' : m'.Sorted) (hp : m.Perm m') :
    m = m' :=
  hp.eq_of_pairwise (fun _ _ _ _ h₁ h₂ => absurd (Std.lt_trans h₁ h₂) Std.lt_irrefl) h h'

theorem Sorted.nodup (h : m.Sorted) : (m.map Prod.fst).Nodup :=
  List.pairwise_map.mpr (h.imp fun hlt => Std.ne_of_lt hlt)

/-- In whichever order the entries of a map are set, the map is the same. -/
theorem foldl_set {entries m' : StringMap} (h : m.Sorted) (h' : m'.Sorted)
    (hp : (m ++ entries).Perm m') :
    entries.foldl (fun m e => StringMap.set e.1 e.2 m) m = m' := by
  induction entries generalizing m with
  | nil => exact h.eq_of_perm h' (by simpa using hp)
  | cons e entries ih =>
    have hkeys := (hp.map Prod.fst).nodup_iff.mpr h'.nodup
    rw [List.map_append, List.map_cons] at hkeys
    have hnew : ∀ a ∈ m, a.1 ≠ e.1 := by
      intro a ha heq
      have hdisj := (List.nodup_append.mp hkeys).2.2 a.1 (List.mem_map_of_mem ha) e.1
        List.mem_cons_self
      exact hdisj heq
    refine ih (sorted_set h) ?_
    exact (((set_perm hnew).append_right _).trans List.perm_middle.symm).trans hp

end StringMap

/-- `isspace` in the C locale -/
def isspace (b : UInt8) : Bool := b == 32 || (9 ≤ b && b ≤ 13)

namespace HttpRequest

inductive Method
  | kInvalid
  | kGet
  | kPost
  | kHead
  | kPut
  | kDelete
  deriving DecidableEq, Repr

inductive Version
  | kUnknown
  | kHttp10
  | kHttp11
  deriving DecidableEq, Repr

/-- The comparisons of `setMethod`. -/
def methodOf (m : List UInt8) : Method :=
  if m = text "GET" then .kGet
  else if m = text "POST" then .kPost
  else if m = text "HEAD" then .kHead
  else if m = text "PUT" then .kPut
  else if m = text "DELETE" then .kDelete
  else .kInvalid

def methodString : Method → List UInt8
  | .kGet => text "GET"
  | .kPost => text "POST"
  | .kHead => text "HEAD"
  | .kPut => text "PUT"
  | .kDelete => text "DELETE"
  | .kInvalid => text "UNKNOWN"

theorem methodOf_methodString (m : Method) : methodOf (methodString m) = m := by
  cases m <;> rfl

theorem methodString_methodOf {m : List UInt8} (h : methodOf m ≠ .kInvalid) :
    methodString (methodOf m) = m := by
  unfold methodOf at h ⊢
  split_ifs at h ⊢ with h₁ h₂ h₃ h₄ h₅
  · exact h₁.symm
  · exact h₂.symm
  · exact h₃.symm
  · exact h₄.symm
  · exact h₅.symm
  · exact absurd rfl h

end HttpRequest

structure HttpRequest where
  method : HttpRequest.Method
  version : HttpRequest.Version
  path : List UInt8
  receiveTime : ℤ
  headers : StringMap
  deriving DecidableEq, Repr

namespace HttpRequest

/-- `HttpRequest::HttpRequest()` -/
def new : HttpRequest := ⟨.kInvalid, .kUnknown, [], 0, []⟩

variable (r : HttpRequest)

/-- `setMethod(start, end)`, with its value. -/
def setMethod (m : List UInt8) : Checked (HttpRequest × Bool) := do
  assert (r.method = .kInvalid) .setMethodInvalid
  let r := { r with method := methodOf m }
  return (r, r.method ≠ .kInvalid)

/-- `addHeader(start, colon, end)` for the line from `start` to `end` and the offset of `colon`. -/
def addHeader (line : List UInt8) (colon : ℕ) : HttpRequest :=
  let field := line.take colon
  let value := ((line.drop (colon + 1)).dropWhile isspace).rdropWhile isspace
  { r with headers := StringMap.set field value r.headers }

def getHeader (field : List UInt8) : List UInt8 := (r.headers.lookup field).getD []

/-- `swap(that)`: the version is not swapped. -/
def swap (that : HttpRequest) : HttpRequest × HttpRequest :=
  ({ that with version := r.version }, { r with version := that.version })

end HttpRequest

inductive HttpRequestParseState
  | kExpectRequestLine
  | kExpectHeaders
  | kExpectBody
  | kGotAll
  deriving DecidableEq, Repr

structure HttpContext where
  state : HttpRequestParseState
  request : HttpRequest
  deriving DecidableEq, Repr

namespace HttpContext

/-- `HttpContext::HttpContext()` -/
def new : HttpContext := ⟨.kExpectRequestLine, .new⟩

variable (c : HttpContext)

def receiveRequestLine : HttpContext := { c with state := .kExpectHeaders }

def receiveHeaders : HttpContext := { c with state := .kGotAll }

def reset : HttpContext := ⟨.kExpectRequestLine, (c.request.swap .new).1⟩

end HttpContext

inductive HttpStatusCode
  | kUnknown
  | k200Ok
  | k301MovedPermanently
  | k400BadRequest
  | k404NotFound
  deriving DecidableEq, Repr

def HttpStatusCode.value : HttpStatusCode → ℕ
  | kUnknown => 0
  | k200Ok => 200
  | k301MovedPermanently => 301
  | k400BadRequest => 400
  | k404NotFound => 404

structure HttpResponse where
  headers : StringMap
  statusCode : HttpStatusCode
  statusMessage : List UInt8
  closeConnection : Bool
  body : List UInt8
  deriving DecidableEq, Repr

namespace HttpResponse

/-- `HttpResponse::HttpResponse(close)` -/
def new (close : Bool) : HttpResponse := ⟨[], .kUnknown, [], close, []⟩

/-- `snprintf` into the 32 bytes of `buf` -/
def snprintf (s : String) : List UInt8 := (text s).take 31

/-- The bytes that `appendToBuffer` appends. -/
def appendToBuffer (r : HttpResponse) : List UInt8 :=
  snprintf ("HTTP/1.1 " ++ toString r.statusCode.value ++ " ") ++ r.statusMessage ++ text "\r\n" ++
  (if r.closeConnection then text "Connection: close\r\n"
    else snprintf ("Content-Length: " ++ toString r.body.length ++ "\r\n") ++
      text "Connection: Keep-Alive\r\n") ++
  r.headers.flatMap (fun h => h.1 ++ text ": " ++ h.2 ++ text "\r\n") ++ text "\r\n" ++ r.body

end HttpResponse
end Muduo
