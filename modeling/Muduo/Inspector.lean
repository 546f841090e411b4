import Muduo.HttpContext
import Muduo.Library.OrderedMap
import Muduo.Library.Segments
import Muduo.Library.WhileLoop

/-!
# Inspector

`net/inspect/Inspector.cc`: the commands, and how a path finds one of them. A callback is known
by a name, what it returns is a parameter, and the calls are kept. The server and the
commands that `ProcessInspector` adds are left out.
-/
namespace Muduo
open Segments WhileLoop

/-- `str.find('/', start)` -/
def findSlash (str : List UInt8) (start : ℕ) : Option ℕ :=
  ((str.drop start).findIdx? fun c => c = 47).map (start + ·)

/-- The variables of `split`. -/
structure Split where
  result : List (List UInt8)
  start : ℕ
  pos : Option ℕ

namespace Split

/-- The body of the loop. -/
def body (str : List UInt8) (s : Split) : Exit Split Split :=
  match s.pos with
  | none => .done s
  | some pos => .next {
      result :=
        if pos > s.start then s.result ++ [(str.drop s.start).take (pos - s.start)] else s.result
      start := pos + 1
      pos := findSlash str (pos + 1) }

end Split

/-- `split(str)`, where no run of the loop is longer than `str`. -/
def split (str : List UInt8) : Option (List (List UInt8)) := do
  let s ← iterate (Split.body str) (str.length + 1) ⟨[], 0, findSlash str 0⟩
  return if s.start < str.length then s.result ++ [str.drop s.start] else s.result

/-- The maps of an `Inspector`. -/
structure Inspector (ι : Type) where
  commands_ : OrderedMap (List UInt8) (OrderedMap (List UInt8) (Option ι))
  helps_ : OrderedMap (List UInt8) (OrderedMap (List UInt8) (List UInt8))

namespace Inspector
variable {ι : Type}

/-- A call of a callback. -/
structure Call (ι : Type) where
  cb : ι
  method : HttpRequest.Method
  args : List (List UInt8)
  deriving DecidableEq, Repr

/-- The arguments of `add`; an empty callback is `none`. -/
structure Registration (ι : Type) where
  module : List UInt8
  command : List UInt8
  cb : Option ι
  help : List UInt8

def new : Inspector ι := ⟨.empty, .empty⟩

def add (inspector : Inspector ι) (r : Registration ι) : Inspector ι where
  commands_ := inspector.commands_.update r.module fun list =>
    (list.getD .empty).update r.command fun _ => r.cb
  helps_ := inspector.helps_.update r.module fun list =>
    (list.getD .empty).update r.command fun _ => r.help

/-- The commands, with what they are for. -/
def helpText (inspector : Inspector ι) : List UInt8 :=
  inspector.helps_.entries.flatMap fun helpListI =>
    helpListI.2.entries.flatMap fun it =>
      text "/" ++ helpListI.1 ++ text "/" ++ it.1 ++ text "\t" ++ it.2 ++ text "\n"

/-- `setStatusCode`, `setStatusMessage`, `setContentType` and `setBody` -/
def respond (resp : HttpResponse) (body : List UInt8) : HttpResponse :=
  { resp with
    statusCode := .k200Ok
    statusMessage := text "OK"
    headers := StringMap.set (text "Content-Type") (text "text/plain") resp.headers
    body := body }

def notFound (resp : HttpResponse) : HttpResponse :=
  { resp with statusCode := .k404NotFound, statusMessage := text "Not Found" }

/-- The callback that is found for a path that has been split, with its arguments. -/
def callback (inspector : Inspector ι) : List (List UInt8) → Option (ι × List (List UInt8))
  | [] => none
  | [_] => none
  | module :: command :: args => do
    let commList ← inspector.commands_.find module
    let it ← commList.find command
    let cb ← it
    return (cb, args)

/-- `onRequest(req, resp)`: the response as it leaves it, and the calls it makes. -/
def onRequest (returns : Call ι → List UInt8) (inspector : Inspector ι) (req : HttpRequest)
    (resp : HttpResponse) : Option (HttpResponse × List (Call ι)) :=
  if req.path = text "/" then some (respond resp inspector.helpText, [])
  else do
    let result ← split req.path
    match inspector.callback result with
    | some (cb, args) =>
      let call := ⟨cb, req.method, args⟩
      return (respond resp (returns call), [call])
    | none => return (notFound resp, [])

end Inspector

theorem findSlash_some {str : List UInt8} {start pos : ℕ} (h : findSlash str start = some pos) :
    start ≤ pos ∧ str[pos]? = some 47 ∧ ∀ k, start ≤ k → k < pos → str[k]? ≠ some 47 := by
  obtain ⟨n, hn, rfl⟩ := Option.map_eq_some_iff.mp h
  obtain ⟨hlt, hsep, hbefore⟩ := List.findIdx?_eq_some_iff_getElem.mp hn
  rw [List.length_drop] at hlt
  refine ⟨Nat.le_add_right .., ?_, ?_⟩
  · rw [List.getElem_drop] at hsep
    rw [List.getElem?_eq_getElem (by omega)]
    simpa using hsep
  · intro k hk hk' hsep'
    have hbefore := hbefore (k - start) (by omega)
    have hidx : start + (k - start) = k := by omega
    obtain ⟨_, hget⟩ := List.getElem?_eq_some_iff.mp hsep'
    rw [List.getElem_drop] at hbefore
    simp only [hidx, hget] at hbefore
    simp at hbefore

theorem findSlash_none {str : List UInt8} {start : ℕ} (h : findSlash str start = none) :
    ∀ k, start ≤ k → str[k]? ≠ some 47 := by
  intro k hk hsep
  have hnone := List.findIdx?_eq_none_iff.mp (Option.map_eq_none_iff.mp h)
  have hmem : (47 : UInt8) ∈ str.drop start := by
    rw [List.mem_iff_getElem?]
    refine ⟨k - start, ?_⟩
    rw [List.getElem?_drop, show start + (k - start) = k by omega, hsep]
  simpa using hnone 47 hmem

namespace Split

/-- The segments that end before `start` have been found. -/
structure Scans (str : List UInt8) (s : Split) : Prop where
  listed : ∃ l, Lists 47 str s.start l ∧ s.result = l.map (extract str)
  left : s.start = 0 ∨ str[s.start - 1]? = some 47
  start_le : s.start ≤ str.length
  pos_eq : s.pos = findSlash str s.start

variable {str : List UInt8} {s : Split}

theorem Scans.body (h : Scans str s) :
    (∃ t, Split.body str s = .next t ∧ Scans str t ∧ str.length - t.start < str.length - s.start) ∨
      ∃ r, Split.body str s = .done r ∧ Scans str r ∧ r.pos = none := by
  obtain ⟨l, hl, hresult⟩ := h.listed
  unfold Split.body
  cases hpos : s.pos with
  | none => exact .inr ⟨s, rfl, h, hpos⟩
  | some pos =>
    obtain ⟨hle, hsep, hfree⟩ := findSlash_some (h.pos_eq ▸ hpos)
    obtain ⟨hlt, -⟩ := List.getElem?_eq_some_iff.mp hsep
    have hadvance := hl.advance h.left hle hfree hlt.le (.inr hsep)
    refine .inl ⟨_, rfl, ⟨⟨_, hadvance, ?_⟩, .inr hsep, hlt, rfl⟩, ?_⟩
    · dsimp only
      split_ifs with hmore
      · rw [List.map_append, ← hresult]
        rfl
      · exact hresult
    · dsimp only
      omega

end Split

/-- The loop ends, and the rest of the string is one more part. -/
theorem exists_split (str : List UInt8) : ∃ s, split str = some s ∧ AreSegments 47 str s := by
  have hinit : Split.Scans str ⟨[], 0, findSlash str 0⟩ :=
    ⟨⟨[], lists_nil 47 str, rfl⟩, .inl rfl, Nat.zero_le _, rfl⟩
  obtain ⟨r, hr, hscans, hpos⟩ := iterate_of_variant (Split.body str) (Split.Scans str)
    (fun r => Split.Scans str r ∧ r.pos = none) (fun s => str.length - s.start)
    (fun s h => h.body) hinit (n := str.length + 1) (by dsimp only; omega)
  obtain ⟨l, hl, hresult⟩ := hscans.listed
  have hfree := findSlash_none (hscans.pos_eq ▸ hpos)
  have hall := hl.advance hscans.left hscans.start_le (fun k hk _ => hfree k hk) le_rfl (.inl rfl)
  refine ⟨if r.start < str.length then r.result ++ [str.drop r.start] else r.result, ?_, ?_⟩
  · unfold split
    rw [hr]
    rfl
  · refine ⟨_, hall, ?_⟩
    split_ifs with hmore
    · rw [List.map_append, ← hresult, List.map_singleton, extract,
        List.take_of_length_le (by rw [List.length_drop])]
    · exact hresult

theorem split_eq_some_iff {str : List UInt8} {s : List (List UInt8)} :
    split str = some s ↔ AreSegments 47 str s := by
  obtain ⟨t, ht, hsegments⟩ := exists_split str
  rw [ht]
  constructor
  · intro h
    exact Option.some.inj h ▸ hsegments
  · intro h
    exact congrArg some (hsegments.unique h)

namespace Inspector
variable {ι : Type} {inspector : Inspector ι} {registrations : List (Registration ι)}
  {module command : List UInt8}

/-- What is registered for a command. -/
def registered (inspector : Inspector ι) (module command : List UInt8) : Option (Option ι) :=
  (inspector.commands_.find module).bind fun commList => commList.find command

def Registration.Names (r : Registration ι) (module command : List UInt8) : Prop :=
  r.module = module ∧ r.command = command

theorem registered_add (r : Registration ι) :
    (r.Names module command → (inspector.add r).registered module command = some r.cb) ∧
      (¬r.Names module command →
        (inspector.add r).registered module command = inspector.registered module command) := by
  unfold Registration.Names registered add
  dsimp only
  constructor
  · rintro ⟨rfl, rfl⟩
    rw [OrderedMap.find_update_self, Option.bind_some, OrderedMap.find_update_self]
  · intro hne
    by_cases hmodule : module = r.module
    · subst hmodule
      have hcommand : command ≠ r.command := fun h => hne ⟨rfl, h.symm⟩
      rw [OrderedMap.find_update_self, Option.bind_some, OrderedMap.find_update_of_ne hcommand]
      cases inspector.commands_.find r.module with
      | none => rfl
      | some commList => rfl
    · rw [OrderedMap.find_update_of_ne hmodule]

theorem registered_foldl_add (h : ∀ r ∈ registrations, ¬r.Names module command) :
    (registrations.foldl add inspector).registered module command =
      inspector.registered module command := by
  induction registrations generalizing inspector with
  | nil => rfl
  | cons r registrations ih =>
    obtain ⟨hr, hrest⟩ := List.forall_mem_cons.mp h
    rw [List.foldl_cons, ih hrest, (registered_add r).2 hr]

/-- `r` is the last that is registered under its names. -/
def IsLast (registrations : List (Registration ι)) (r : Registration ι) : Prop :=
  ∃ before after, registrations = before ++ r :: after ∧
    ∀ r' ∈ after, ¬r'.Names r.module r.command

theorem registered_of_isLast {r : Registration ι} (h : IsLast registrations r) :
    (registrations.foldl add inspector).registered r.module r.command = some r.cb := by
  obtain ⟨before, after, rfl, hafter⟩ := h
  rw [List.foldl_append, List.foldl_cons, registered_foldl_add hafter,
    (registered_add r).1 ⟨rfl, rfl⟩]

theorem exists_isLast (h : ∃ r ∈ registrations, r.Names module command) :
    ∃ r, r.Names module command ∧ IsLast registrations r := by
  induction registrations with
  | nil =>
    obtain ⟨r, hr, -⟩ := h
    cases hr
  | cons a registrations ih =>
    by_cases hlater : ∃ r ∈ registrations, r.Names module command
    · obtain ⟨r, hnames, before, after, heq, hafter⟩ := ih hlater
      exact ⟨r, hnames, a :: before, after, by rw [heq]; rfl, hafter⟩
    · obtain ⟨r, hr, hnames⟩ := h
      rcases List.mem_cons.mp hr with rfl | hr
      · refine ⟨r, hnames, [], registrations, rfl, ?_⟩
        intro r' hr' hnames'
        obtain ⟨rfl, rfl⟩ := hnames
        exact hlater ⟨r', hr', hnames'⟩
      · exact absurd ⟨r, hr, hnames⟩ hlater

theorem callback_eq (args : List (List UInt8)) :
    inspector.callback (module :: command :: args) =
      (inspector.registered module command).bind fun it => it.map fun cb => (cb, args) := by
  unfold callback registered
  dsimp only [Option.bind_eq_bind]
  cases inspector.commands_.find module with
  | none => rfl
  | some commList =>
    cases hit : commList.find command with
    | none => simp [hit]
    | some it =>
      cases it with
      | none => simp [hit]
      | some cb => simp [hit]

variable {returns : Call ι → List UInt8} {req : HttpRequest} {resp : HttpResponse}
  {segments : List (List UInt8)}

theorem onRequest_of_callback {cb : ι} {args : List (List UInt8)} (hpath : req.path ≠ text "/")
    (hsplit : split req.path = some segments) (h : inspector.callback segments = some (cb, args)) :
    onRequest returns inspector req resp =
      some (respond resp (returns ⟨cb, req.method, args⟩), [⟨cb, req.method, args⟩]) := by
  unfold onRequest
  rw [if_neg hpath, hsplit]
  simp [h]

theorem onRequest_of_no_callback (hpath : req.path ≠ text "/")
    (hsplit : split req.path = some segments) (h : inspector.callback segments = none) :
    onRequest returns inspector req resp = some (notFound resp, []) := by
  unfold onRequest
  rw [if_neg hpath, hsplit]
  simp [h]

/-- `split` finds the segments, of every string. A path that is not `/` either begins with the
two names of a command, and the callback that was registered for it last is called with the
other segments, or no callback is called and the answer is 404. -/
theorem split_and_dispatch (returns : Call ι → List UInt8) :
    (∀ str s, split str = some s ↔ AreSegments 47 str s) ∧ (∀ str, ∃ s, split str = some s) ∧
    ∀ (registrations : List (Registration ι)) (req : HttpRequest) (resp : HttpResponse) segments,
      (∀ r ∈ registrations, r.cb ≠ none) → req.path ≠ text "/" →
      AreSegments 47 req.path segments →
        (∃ r cb args, segments = r.module :: r.command :: args ∧ IsLast registrations r ∧
          r.cb = some cb ∧
          onRequest returns (registrations.foldl add new) req resp =
            some (respond resp (returns ⟨cb, req.method, args⟩), [⟨cb, req.method, args⟩])) ∨
        (∀ r ∈ registrations, ∀ args, segments ≠ r.module :: r.command :: args) ∧
          onRequest returns (registrations.foldl add new) req resp =
            some (notFound resp, []) := by
  refine ⟨fun str s => split_eq_some_iff, ?_, ?_⟩
  · intro str
    obtain ⟨s, hs, -⟩ := exists_split str
    exact ⟨s, hs⟩
  intro registrations req resp segments hcallbacks hpath hsegments
  have hsplit := split_eq_some_iff.mpr hsegments
  by_cases hnamed : ∃ r ∈ registrations, ∃ args, segments = r.module :: r.command :: args
  · obtain ⟨r₀, hr₀, args, rfl⟩ := hnamed
    obtain ⟨r, ⟨hmodule, hcommand⟩, hlast⟩ := exists_isLast ⟨r₀, hr₀, rfl, rfl⟩
    have hmem : r ∈ registrations := by
      obtain ⟨before, after, heq, -⟩ := hlast
      rw [heq]
      exact List.mem_append_right before List.mem_cons_self
    obtain ⟨cb, hcb⟩ := Option.ne_none_iff_exists'.mp (hcallbacks r hmem)
    refine .inl ⟨r, cb, args, by rw [hmodule, hcommand], hlast, hcb, ?_⟩
    apply onRequest_of_callback hpath hsplit
    rw [callback_eq, ← hmodule, ← hcommand, registered_of_isLast hlast, hcb]
    rfl
  · have hnone : ∀ r ∈ registrations, ∀ args, segments ≠ r.module :: r.command :: args := by
      intro r hr args heq
      exact hnamed ⟨r, hr, args, heq⟩
    refine .inr ⟨hnone, onRequest_of_no_callback hpath hsplit ?_⟩
    cases segments with
    | nil => rfl
    | cons module rest =>
      cases rest with
      | nil => rfl
      | cons command args =>
        have hother : ∀ r ∈ registrations, ¬r.Names module command := by
          rintro r hr ⟨rfl, rfl⟩
          exact hnone r hr args rfl
        rw [callback_eq, registered_foldl_add hother]
        rfl

/-- A request for `//proc/status/all/`. -/
def statusRequest : HttpRequest :=
  { HttpRequest.new with method := .kGet, path := text "//proc/status/all/" }

def statusCommand : Registration ℕ := ⟨text "proc", text "status", some 7, text "print status"⟩

theorem split_and_dispatch_status :
    (∃ r cb args, [text "proc", text "status", text "all"] = r.module :: r.command :: args ∧
      IsLast [statusCommand] r ∧ r.cb = some cb ∧
      onRequest (fun _ => []) ([statusCommand].foldl add new) statusRequest (.new true) =
        some (respond (.new true) [], [⟨cb, statusRequest.method, args⟩])) ∨
    (∀ r ∈ [statusCommand], ∀ args,
      [text "proc", text "status", text "all"] ≠ r.module :: r.command :: args) ∧
      onRequest (fun _ => []) ([statusCommand].foldl add new) statusRequest (.new true) =
        some (notFound (.new true), []) :=
  (split_and_dispatch fun _ => []).2.2 [statusCommand] statusRequest (.new true)
    [text "proc", text "status", text "all"] (by simp [statusCommand]) (by decide)
    (split_eq_some_iff.mp (by decide))

end Inspector
end Muduo
