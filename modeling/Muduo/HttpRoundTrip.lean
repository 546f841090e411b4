import Muduo.HttpPipeline

/-!
# Printed requests

A request is printed with its header lines in any order, and with any blanks around
the values. What `parseRequest` makes of it is the request again.
-/
namespace Muduo.HttpServer

/-- A space or a tab. -/
def isblank (b : UInt8) : Bool := b == 32 || b == 9

/-- No white space at either end. -/
def Trimmed (value : List UInt8) : Prop :=
  (∀ b ∈ value.head?, isspace b = false) ∧ ∀ b ∈ value.getLast?, isspace b = false

/-- What can be printed: a path and headers that their delimiters can delimit. -/
structure Printable where
  method : HttpRequest.Method
  path : List UInt8
  version : HttpRequest.Version
  headers : StringMap
  method_ne : method ≠ .kInvalid
  version_ne : version ≠ .kUnknown
  space_notMem : 32 ∉ path
  path_unbroken : ListSearch.search kCRLF path = none
  sorted : headers.Sorted
  colon_notMem : ∀ h ∈ headers, 58 ∉ h.1
  name_unbroken : ∀ h ∈ headers, ListSearch.search kCRLF h.1 = none
  value_unbroken : ∀ h ∈ headers, ListSearch.search kCRLF h.2 = none
  value_trimmed : ∀ h ∈ headers, Trimmed h.2

/-- A header, and the blanks before and after its value. -/
structure HeaderLine where
  name : List UInt8
  value : List UInt8
  before : List UInt8
  after : List UInt8
  before_blank : ∀ b ∈ before, isblank b = true
  after_blank : ∀ b ∈ after, isblank b = true

namespace HeaderLine
variable (l : HeaderLine)

def entry : List UInt8 × List UInt8 := (l.name, l.value)

def bytes : List UInt8 := l.name ++ 58 :: (l.before ++ (l.value ++ l.after))

end HeaderLine

/-- The printed request. -/
def Printable.print (r : Printable) (ls : List HeaderLine) : List UInt8 :=
  requestLine r.method r.path r.version ++ kCRLF ++ headerBytes (ls.map HeaderLine.bytes)

theorem isspace_of_isblank {b : UInt8} (h : isblank b = true) : isspace b = true := by
  simp only [isblank, Bool.or_eq_true, beq_iff_eq] at h
  rcases h with rfl | rfl
  all_goals rfl

theorem search_blank {l : List UInt8} (h : ∀ b ∈ l, isblank b = true) :
    ListSearch.search kCRLF l = none :=
  ListSearch.search_pair_of_notMem fun hmem => by cases h 13 hmem

theorem dropWhile_of_head {p : UInt8 → Bool} {l : List UInt8}
    (h : ∀ b ∈ l.head?, p b = false) : l.dropWhile p = l := by
  cases l with
  | nil => rfl
  | cons b l => exact List.dropWhile_cons_of_neg (by simp [h b rfl])

/-- The trimming loops of `addHeader` find the value. -/
theorem trim_value {before value after : List UInt8} (hb : ∀ b ∈ before, isblank b = true)
    (ha : ∀ b ∈ after, isblank b = true) (hv : Trimmed value) :
    ((before ++ (value ++ after)).dropWhile isspace).rdropWhile isspace = value := by
  have hb' : ∀ b ∈ before, isspace b = true := fun b h => isspace_of_isblank (hb b h)
  have ha' : ∀ b ∈ after.reverse, isspace b = true :=
    fun b h => isspace_of_isblank (ha b (List.mem_reverse.mp h))
  rw [List.dropWhile_append_of_pos hb']
  cases value with
  | nil =>
    have hall : after.dropWhile isspace = [] :=
      List.dropWhile_eq_nil_iff.mpr fun b h => isspace_of_isblank (ha b h)
    rw [List.nil_append, hall]
    rfl
  | cons b value =>
    have hlast : ∀ a ∈ (b :: value).reverse.head?, isspace a = false := by
      rw [List.head?_reverse]
      exact hv.2
    rw [dropWhile_of_head (l := b :: value ++ after) hv.1, List.rdropWhile, List.reverse_append,
      List.dropWhile_append_of_pos ha', dropWhile_of_head hlast, List.reverse_reverse]

theorem addHeader_bytes (l : HeaderLine) (q : HttpRequest) (hc : 58 ∉ l.name)
    (hv : Trimmed l.value) : q.addHeader l.bytes (l.bytes.idxOf 58) =
      { q with headers := StringMap.set l.name l.value q.headers } := by
  have hidx : l.bytes.idxOf 58 = l.name.length := by
    rw [HeaderLine.bytes, List.idxOf_append_of_notMem hc]
    simp
  have hfield : l.bytes.take l.name.length = l.name := List.take_left
  have hrest : l.bytes.drop (l.name.length + 1) = l.before ++ (l.value ++ l.after) := by
    rw [HeaderLine.bytes, ← List.drop_drop, List.drop_left]
    rfl
  unfold HttpRequest.addHeader
  rw [hidx, hfield, hrest, trim_value l.before_blank l.after_blank hv]

theorem Trimmed.notMem_getLast? {value : List UInt8} (h : Trimmed value) {b : UInt8}
    (hb : isspace b = true) : b ∉ value.getLast? := by
  intro hmem
  rw [h.2 b hmem] at hb
  cases hb

/-- A printed header line is one line. -/
theorem search_bytes (l : HeaderLine) (hn : ListSearch.search kCRLF l.name = none)
    (hv : ListSearch.search kCRLF l.value = none) (ht : Trimmed l.value) :
    ListSearch.search kCRLF l.bytes = none := by
  have hbefore := search_blank l.before_blank
  have hafter := search_blank l.after_blank
  have hend : ListSearch.search kCRLF (l.value ++ l.after) = none := by
    refine ListSearch.search_pair_append hv hafter ?_
    rintro a ha b - ⟨rfl, -⟩
    exact ht.notMem_getLast? (by rfl) ha
  have hrest : ListSearch.search kCRLF (l.before ++ (l.value ++ l.after)) = none := by
    refine ListSearch.search_pair_append hbefore hend ?_
    rintro a ha b - ⟨rfl, -⟩
    exact absurd (l.before_blank _ (List.mem_of_getLast? ha)) (by decide)
  have hcolon : ListSearch.search kCRLF (58 :: (l.before ++ (l.value ++ l.after))) = none := by
    refine ListSearch.search_pair_append (l := [58]) (by rfl) hrest ?_
    rintro a ha b - ⟨rfl, -⟩
    exact absurd (List.mem_of_getLast? ha) (by decide)
  refine ListSearch.search_pair_append hn hcolon ?_
  rintro a - b hb ⟨-, rfl⟩
  exact absurd hb (by simp)

theorem search_requestLine {path : List UInt8} (method : HttpRequest.Method)
    (version : HttpRequest.Version) (hp : ListSearch.search kCRLF path = none) :
    ListSearch.search kCRLF (requestLine method path version) = none := by
  have hversion : ListSearch.search kCRLF (32 :: versionString version) = none := by
    cases version <;> decide
  have hmethod : ListSearch.search kCRLF (HttpRequest.methodString method ++ [32]) = none := by
    cases method <;> decide
  have hrest : ListSearch.search kCRLF (path ++ 32 :: versionString version) = none := by
    refine ListSearch.search_pair_append hp hversion ?_
    rintro a - b hb ⟨-, rfl⟩
    exact absurd hb (by simp)
  have hline : requestLine method path version =
      (HttpRequest.methodString method ++ [32]) ++ (path ++ 32 :: versionString version) := by
    simp [requestLine]
  rw [hline]
  refine ListSearch.search_pair_append hmethod hrest ?_
  rintro a ha b - ⟨rfl, -⟩
  exact absurd ha (by simp)

/-- The header lines of `r`, in any order. -/
def Printable.Lines (r : Printable) (ls : List HeaderLine) : Prop :=
  (ls.map HeaderLine.entry).Perm r.headers

theorem Printable.Lines.mem {r : Printable} {ls : List HeaderLine} (h : r.Lines ls)
    {l : HeaderLine} (hl : l ∈ ls) : l.entry ∈ r.headers :=
  h.mem_iff.mp (List.mem_map_of_mem hl)

/-- A printed request is well formed. -/
def Printable.wellFormed (r : Printable) (ls : List HeaderLine) (h : r.Lines ls) :
    WellFormed where
  method := r.method
  path := r.path
  version := r.version
  headers := ls.map HeaderLine.bytes
  method_ne := r.method_ne
  version_ne := r.version_ne
  space_notMem := r.space_notMem
  line_unbroken := search_requestLine r.method r.version r.path_unbroken
  header_unbroken := by
    intro _ hmem
    obtain ⟨l, hl, rfl⟩ := List.mem_map.mp hmem
    exact search_bytes l (r.name_unbroken _ (h.mem hl)) (r.value_unbroken _ (h.mem hl))
      (r.value_trimmed _ (h.mem hl))
  colon_mem := by
    intro _ hmem
    obtain ⟨l, hl, rfl⟩ := List.mem_map.mp hmem
    simp [HeaderLine.bytes]

/-- Every line sets its header. -/
theorem foldl_addHeader {ls : List HeaderLine} (q : HttpRequest)
    (h : ∀ l ∈ ls, 58 ∉ l.name ∧ Trimmed l.value) :
    (ls.map HeaderLine.bytes).foldl (fun q h => q.addHeader h (h.idxOf 58)) q =
      { q with
        headers := (ls.map HeaderLine.entry).foldl (fun m e => StringMap.set e.1 e.2 m)
          q.headers } := by
  induction ls generalizing q with
  | nil => rfl
  | cons l ls ih =>
    obtain ⟨hl, hls⟩ := List.forall_mem_cons.mp h
    rw [List.map_cons, List.foldl_cons, addHeader_bytes l q hl.1 hl.2, ih _ hls]
    rfl

theorem parsed_wellFormed {r : Printable} {ls : List HeaderLine} (h : r.Lines ls) (t : ℤ) :
    (r.wellFormed ls h).parsed t = ⟨r.method, r.version, r.path, t, r.headers⟩ := by
  have hl : ∀ l ∈ ls, 58 ∉ l.name ∧ Trimmed l.value := fun l hl =>
    ⟨r.colon_notMem _ (h.mem hl), r.value_trimmed _ (h.mem hl)⟩
  have hp : ([] ++ ls.map HeaderLine.entry).Perm r.headers := h
  unfold WellFormed.parsed WellFormed.after
  rw [show (r.wellFormed ls h).headers = ls.map HeaderLine.bytes from rfl, foldl_addHeader _ hl,
    StringMap.foldl_set .nil r.sorted hp]
  rfl

/-- A printed request is parsed to the request, and what follows it stays in the buffer. -/
theorem parseRequest_print {r : Printable} {ls : List HeaderLine} (h : r.Lines ls)
    {buf : Buffer} {tail : List UInt8} (hb : buf.readable = r.print ls ++ tail) (t : ℤ) :
    Yields (parseRequest buf .new t) fun p =>
      p.ok = true ∧ p.context.state = .kGotAll ∧ p.context.request.method = r.method ∧
        p.context.request.path = r.path ∧ p.context.request.version = r.version ∧
        p.context.request.headers = r.headers ∧ p.buf.readable = tail := by
  have hb' : buf.readable ++ [] = (r.wellFormed ls h).bytes ++ tail := by
    rw [hb, List.append_nil]
    rfl
  have hstart : Progress (r.wellFormed ls h) .new (r.wellFormed ls h).bytes := .start rfl rfl rfl
  obtain ⟨p, hp, hok, hcases⟩ := parseRequest_progress _ t hstart hb'
  refine ⟨p, hp, hok, ?_⟩
  rcases hcases with ⟨t', hctx, hrest⟩ | ⟨todo, _, htodo, hlt⟩
  · rw [hctx, parsed_wellFormed h, ← hrest, List.append_nil]
    exact ⟨rfl, rfl, rfl, rfl, rfl, rfl⟩
  · have hlen := congrArg List.length htodo
    rw [List.append_nil, List.length_append] at hlen
    omega

/-- A `GET` with two headers, of which the second is printed first and has no value. -/
def twoHeaders : Printable where
  method := .kGet
  path := text "/index.html"
  version := .kHttp11
  headers := [(text "Accept", []), (text "Host", text "a:80")]
  method_ne := getRoot.method_ne
  version_ne := getRoot.version_ne
  space_notMem := by decide
  path_unbroken := by decide
  sorted := by unfold StringMap.Sorted; decide
  colon_notMem := by decide
  name_unbroken := by decide
  value_unbroken := by decide
  value_trimmed := by simp [Trimmed, text, isspace]

def hostLine : HeaderLine :=
  ⟨text "Host", text "a:80", text "  ", text "\t", List.all_eq_true.mp (by decide),
    List.all_eq_true.mp (by decide)⟩

def acceptLine : HeaderLine :=
  ⟨text "Accept", [], text " ", [], List.all_eq_true.mp (by decide), List.all_eq_true.mp (by decide)⟩

theorem parseRequest_print_twoHeaders : ∃ buf : Buffer,
    buf.readable = twoHeaders.print [hostLine, acceptLine] ++ text "GET" ∧
    Yields (parseRequest buf .new 0) fun p =>
      p.ok = true ∧ p.context.state = .kGotAll ∧ p.context.request.method = .kGet ∧
        p.context.request.path = text "/index.html" ∧ p.context.request.version = .kHttp11 ∧
        p.context.request.headers = [(text "Accept", []), (text "Host", text "a:80")] ∧
        p.buf.readable = text "GET" := by
  obtain ⟨buf, hread⟩ := exists_readable (twoHeaders.print [hostLine, acceptLine] ++ text "GET")
  have hlines : twoHeaders.Lines [hostLine, acceptLine] := .swap ..
  exact ⟨buf, hread, parseRequest_print hlines hread 0⟩

end Muduo.HttpServer
