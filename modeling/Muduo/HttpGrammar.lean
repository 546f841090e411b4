import Muduo.HttpSegments

/-!
# The header blocks that are accepted

Which bytes make a complete request. The header lines end with the first line that
has no colon, whether it is empty or not.
-/
namespace Muduo.HttpServer
open GrowingInput

/-- A request line, lines with a colon, and a line without one. -/
structure Block extends WellFormed where
  last : List UInt8
  last_unbroken : ListSearch.search kCRLF last = none
  colon_notMem : 58 ∉ last

/-- Header lines, and the line `last` behind them. -/
def blockBytes (headers : List (List UInt8)) (last : List UInt8) : List UInt8 :=
  headers.flatMap (fun h => h ++ kCRLF) ++ last ++ kCRLF

def Block.bytes (b : Block) : List UInt8 := b.line ++ kCRLF ++ blockBytes b.headers b.last

theorem front_line {line : List UInt8} (h : ListSearch.search kCRLF line = none)
    (rest : List UInt8) : Front (line ++ kCRLF ++ rest) line rest :=
  ⟨h, by simp [kCRLF]⟩

theorem blockBytes_cons (h : List UInt8) (headers : List (List UInt8)) (last rest : List UInt8) :
    blockBytes (h :: headers) last ++ rest = h ++ kCRLF ++ (blockBytes headers last ++ rest) := by
  simp [blockBytes]

theorem blockBytes_nil (last rest : List UInt8) :
    blockBytes [] last ++ rest = last ++ kCRLF ++ rest := by
  simp [blockBytes]

theorem colon_iff (line : List UInt8) : line.idxOf 58 ≠ line.length ↔ 58 ∈ line := by
  rw [ne_eq, List.idxOf_eq_length_iff, not_not]

/-- A word up to the first space, and what is behind the space. -/
theorem eq_append_of_space {xs : List UInt8} (h : xs.idxOf 32 ≠ xs.length) :
    32 ∉ xs.take (xs.idxOf 32) ∧
      xs = xs.take (xs.idxOf 32) ++ 32 :: xs.drop (xs.idxOf 32 + 1) := by
  have hlt : xs.idxOf 32 < xs.length := lt_of_le_of_ne List.idxOf_le_length h
  refine ⟨fun hmem => ?_, (take_idxOf_append hlt).symm⟩
  have hidx := List.idxOf_lt_length_of_mem hmem
  have heq : (xs.take (xs.idxOf 32)).idxOf 32 = xs.idxOf 32 := by
    conv_rhs => rw [← List.take_append_drop (xs.idxOf 32) xs]
    rw [List.idxOf_append_of_mem hmem]
  rw [heq, List.length_take] at hidx
  omega

theorem versionString_of_take {xs digit : List UInt8} (h : xs.take 7 = text "HTTP/1.")
    (hd : xs.drop 7 = digit) : xs = text "HTTP/1." ++ digit := by
  rw [← h, ← hd, List.take_append_drop]

/-- What a processed request line is. -/
theorem requestLine_of_processed {line : List UInt8} {c c' : HttpContext}
    (h : processRequestLine line c = .ok (true, c')) :
    ∃ method path version, method ≠ .kInvalid ∧ version ≠ .kUnknown ∧ 32 ∉ path ∧
      line = requestLine method path version := by
  unfold processRequestLine HttpRequest.setMethod at h
  dsimp only at h
  split at h
  · cases h
  · rename_i hs
    obtain ⟨q, hq, h⟩ := bind_eq_ok.mp h
    obtain ⟨_, _, hq⟩ := bind_eq_ok.mp hq
    obtain rfl := Except.ok.inj hq
    dsimp only at h
    split at h
    · cases h
    · rename_i hm
      split at h
      · cases h
      · rename_i hp
        split at h
        · rename_i hv
          have hmethod : HttpRequest.methodOf (line.take (line.idxOf 32)) ≠ .kInvalid := by
            simpa using hm
          obtain ⟨-, hline⟩ := eq_append_of_space hs
          obtain ⟨hpath, hrest⟩ := eq_append_of_space hp
          rw [← HttpRequest.methodString_methodOf hmethod] at hline
          split at h
          · rename_i h1
            refine ⟨_, _, .kHttp11, hmethod, by decide, hpath, ?_⟩
            rw [requestLine, show versionString .kHttp11 = _ from
              (versionString_of_take hv.2 h1).symm, ← hrest]
            exact hline
          · split at h
            · rename_i h0
              refine ⟨_, _, .kHttp10, hmethod, by decide, hpath, ?_⟩
              rw [requestLine, show versionString .kHttp10 = _ from
                (versionString_of_take hv.2 h0).symm, ← hrest]
              exact hline
            · cases h
        · cases h

section Runs
variable {c : HttpContext} {bytes rest : List UInt8} {headers : List (List UInt8)}
  {last : List UInt8} {e : End HttpContext Verdict UInt8}

/-- Among the headers the parser goes on to the first line without a colon. -/
theorem runs_block (hs : c.state = .kExpectHeaders)
    (hh : ∀ h ∈ headers, ListSearch.search kCRLF h = none ∧ 58 ∈ h)
    (hl : ListSearch.search kCRLF last = none) (hc : 58 ∉ last) (rest : List UInt8) :
    ∃ c', Runs lines c (blockBytes headers last ++ rest) ⟨some .complete, c', rest⟩ := by
  induction headers generalizing c with
  | nil =>
    rw [blockBytes_nil]
    have hcolon : last.idxOf 58 = last.length := List.idxOf_eq_length hc
    exact ⟨_, .stop (.finish (front_line hl rest) (reaction_lastLine hs hcolon))⟩
  | cons h headers ih =>
    obtain ⟨hu, hmem⟩ := hh h List.mem_cons_self
    rw [blockBytes_cons]
    obtain ⟨c', hc'⟩ := ih (c := { c with request := c.request.addHeader h (h.idxOf 58) }) hs
      fun h' h₁ => hh h' (List.mem_cons_of_mem h h₁)
    have hcolon := (colon_iff h).mpr hmem
    exact ⟨c', .next (.goOn (front_line hu _) (reaction_header hs hcolon)) hc'⟩

/-- And it completes the request at no other place. -/
theorem block_of_runs (h : Runs lines c bytes e) (hs : c.state = .kExpectHeaders)
    (hv : e.verdict = some .complete) :
    ∃ headers last, (∀ h ∈ headers, ListSearch.search kCRLF h = none ∧ 58 ∈ h) ∧
      ListSearch.search kCRLF last = none ∧ 58 ∉ last ∧
      bytes = blockBytes headers last ++ e.rest := by
  induction h with
  | wait => cases hv
  | @stop c c' bytes rest r hstep =>
    cases hstep with
    | refuse => cases hv
    | @finish line _ _ hf hr =>
      refine ⟨[], line, by simp, hf.1, fun hmem => ?_, ?_⟩
      · rw [reaction_header hs ((colon_iff line).mpr hmem)] at hr
        cases hr
      · rw [blockBytes_nil, hf.2]
        simp [kCRLF]
  | @next c c' bytes rest e hstep _ ih =>
    cases hstep with
    | @goOn line _ _ hf hr =>
      by_cases hc : line.idxOf 58 = line.length
      · rw [reaction_lastLine hs hc] at hr
        cases hr
      · rw [reaction_header hs hc] at hr
        cases hr
        obtain ⟨headers, last, hh, hl, hno, hbytes⟩ := ih hs hv
        refine ⟨line :: headers, last, ?_, hl, hno, ?_⟩
        · intro h hmem
          rcases List.mem_cons.mp hmem with rfl | hmem
          · exact ⟨hf.1, (colon_iff h).mp hc⟩
          · exact hh h hmem
        · rw [blockBytes_cons, ← hbytes, hf.2]
          simp [kCRLF]

/-- A block is parsed to its end. -/
theorem runs_of_block (b : Block) (rest : List UInt8) :
    ∃ c', Runs lines .new (b.bytes ++ rest) ⟨some .complete, c', rest⟩ := by
  have hnew : HttpContext.new.request.method = .kInvalid := rfl
  have hr := reaction_requestLine (c := .new) rfl (processRequestLine_line b.toWellFormed hnew)
  rw [if_pos rfl] at hr
  have hh : ∀ h ∈ b.headers, ListSearch.search kCRLF h = none ∧ 58 ∈ h :=
    fun h hmem => ⟨b.header_unbroken h hmem, b.colon_mem h hmem⟩
  obtain ⟨c₁, hr, hs⟩ : ∃ c₁, reaction .new b.line = some (none, c₁) ∧
      c₁.state = .kExpectHeaders := ⟨_, hr, rfl⟩
  obtain ⟨c', hc'⟩ := runs_block hs hh b.last_unbroken b.colon_notMem rest
  refine ⟨c', .next (.goOn ?_ hr) hc'⟩
  rw [Block.bytes, List.append_assoc]
  exact front_line b.search_line _

/-- What is accepted starts with a block. -/
theorem exists_block (h : Runs lines .new bytes e) (hv : e.verdict = some .complete) :
    ∃ b : Block, bytes = b.bytes ++ e.rest := by
  cases h with
  | wait => cases hv
  | stop hstep =>
    cases hstep with
    | refuse => cases hv
    | @finish line _ c' hf hr =>
      have hnew : HttpContext.new.request.method = .kInvalid := rfl
      obtain ⟨⟨ok, c₁⟩, hl, -⟩ := processRequestLine_spec line hnew
      rw [reaction_requestLine rfl hl] at hr
      cases ok <;> cases hr
  | @next _ c' _ rest _ hstep hruns =>
    cases hstep with
    | @goOn line _ _ hf hr =>
      have hnew : HttpContext.new.request.method = .kInvalid := rfl
      obtain ⟨⟨ok, c₁⟩, hl, -⟩ := processRequestLine_spec line hnew
      rw [reaction_requestLine rfl hl] at hr
      cases ok with
      | false => cases hr
      | true =>
        cases hr
        obtain ⟨method, path, version, hm, hver, hp, rfl⟩ := requestLine_of_processed hl
        obtain ⟨headers, last, hh, hlast, hno, hbytes⟩ := block_of_runs hruns rfl hv
        obtain ⟨hu, hf⟩ := hf
        refine ⟨⟨⟨method, path, version, headers, hm, hver, hp, hu, fun h hmem => (hh h hmem).1,
          fun h hmem => (hh h hmem).2⟩, last, hlast, hno⟩, ?_⟩
        rw [Block.bytes, List.append_assoc, ← hbytes, hf]
        simp [kCRLF, WellFormed.line]

/-- The lines of a block are those of its bytes. -/
theorem blockBytes_inj {headers' : List (List UInt8)} {last' rest' : List UInt8}
    (hh : ∀ h ∈ headers, ListSearch.search kCRLF h = none ∧ 58 ∈ h)
    (hh' : ∀ h ∈ headers', ListSearch.search kCRLF h = none ∧ 58 ∈ h)
    (hl : ListSearch.search kCRLF last = none) (hl' : ListSearch.search kCRLF last' = none)
    (hc : 58 ∉ last) (hc' : 58 ∉ last')
    (h : blockBytes headers last ++ rest = blockBytes headers' last' ++ rest') : last = last' := by
  induction headers generalizing headers' with
  | nil =>
    cases headers' with
    | nil =>
      rw [blockBytes_nil, blockBytes_nil] at h
      have hf := front_line hl rest
      rw [h] at hf
      exact (hf.unique (front_line hl' rest')).1
    | cons h' headers' =>
      rw [blockBytes_nil, blockBytes_cons] at h
      have hf := front_line hl rest
      rw [h] at hf
      obtain ⟨hu, hmem⟩ := hh' h' List.mem_cons_self
      exact absurd ((hf.unique (front_line hu _)).1 ▸ hmem) hc
  | cons h₀ headers ih =>
    obtain ⟨hu, hmem⟩ := hh h₀ List.mem_cons_self
    have hf := front_line hu (blockBytes headers last ++ rest)
    rw [← blockBytes_cons, h] at hf
    cases headers' with
    | nil =>
      rw [blockBytes_nil] at hf
      exact absurd ((hf.unique (front_line hl' rest')).1 ▸ hmem) hc'
    | cons h' headers' =>
      rw [blockBytes_cons] at hf
      obtain ⟨hu', -⟩ := hh' h' List.mem_cons_self
      exact ih (fun x hx => hh x (List.mem_cons_of_mem _ hx))
        (fun x hx => hh' x (List.mem_cons_of_mem _ hx)) (hf.unique (front_line hu' _)).2

end Runs

/-- A block whose last line is empty is a request. -/
def WellFormed.block (r : WellFormed) : Block :=
  ⟨r, [], search_nil, List.not_mem_nil⟩

theorem WellFormed.bytes_block (r : WellFormed) : r.block.bytes = r.bytes := by
  simp [Block.bytes, WellFormed.bytes, blockBytes, headerBytes, WellFormed.block]

theorem Block.bytes_of_last_eq (b : Block) (h : b.last = []) : b.toWellFormed.bytes = b.bytes := by
  simp [Block.bytes, WellFormed.bytes, blockBytes, headerBytes, h]

/-- A request is complete exactly if its bytes start with a block, which is consumed. -/
theorem complete_iff_block {bytes : List UInt8} {e : End HttpContext Verdict UInt8}
    (h : Runs lines .new bytes e) :
    e.verdict = some .complete ↔ ∃ b : Block, bytes = b.bytes ++ e.rest := by
  constructor
  · exact exists_block h
  · rintro ⟨b, hb⟩
    obtain ⟨c', hc'⟩ := runs_of_block b e.rest
    rw [← hb] at hc'
    rw [h.det hc']

theorem Block.last_eq {b b' : Block} {rest rest' : List UInt8}
    (h : b.bytes ++ rest = b'.bytes ++ rest') : b.last = b'.last := by
  rw [Block.bytes, Block.bytes, List.append_assoc, List.append_assoc (b'.line ++ kCRLF)] at h
  have hf := front_line b.search_line (blockBytes b.headers b.last ++ rest)
  rw [h] at hf
  have hrest := (hf.unique (front_line b'.search_line _)).2
  exact blockBytes_inj (fun h hmem => ⟨b.header_unbroken h hmem, b.colon_mem h hmem⟩)
    (fun h hmem => ⟨b'.header_unbroken h hmem, b'.colon_mem h hmem⟩) b.last_unbroken
    b'.last_unbroken b.colon_notMem b'.colon_notMem hrest

/-- On a fresh context a request is complete exactly if the bytes start with a request
line, lines with a colon and an empty line, and exactly these have been consumed. -/
def AcceptsWellTerminated (bytes : List UInt8) : Prop :=
  ∀ buf t, buf.readable = bytes → Yields (parseRequest buf .new t) fun p =>
    p.ok = true ∧ p.context.state = .kGotAll ↔ ∃ r : WellFormed, bytes = r.bytes ++ p.buf.readable

theorem verdict_eq_complete_iff (p : Parsed) :
    p.verdict = some .complete ↔ p.ok = true ∧ p.context.state = .kGotAll := by
  unfold Parsed.verdict
  split_ifs <;> simp_all

/-- A line that is not empty ends the headers as well, if it has no colon. -/
theorem not_acceptsWellTerminated {b : Block} {bytes : List UInt8} (hlast : b.last ≠ [])
    (hp : b.bytes <+: bytes) : ¬AcceptsWellTerminated bytes := by
  obtain ⟨rest, rfl⟩ := hp
  intro h
  obtain ⟨buf, hbuf⟩ := exists_readable (b.bytes ++ rest)
  obtain ⟨p, hp, hiff⟩ := h buf 0 hbuf
  obtain ⟨c', hc'⟩ := runs_of_block b rest
  have hruns := ((parseRequest_runs buf (.inl ⟨rfl, rfl⟩) 0).of_eq hp).1
  rw [hbuf] at hruns
  have hended := hruns.det hc'
  have hv : p.verdict = some .complete := congrArg End.verdict hended
  obtain ⟨r, hr⟩ := hiff.mp ((verdict_eq_complete_iff p).mp hv)
  have hrest : p.buf.readable = rest := congrArg End.rest hended
  rw [← r.bytes_block] at hr
  exact hlast (Block.last_eq hr)

/-- What is accepted is well terminated but for such a line. -/
theorem acceptsWellTerminated_iff (bytes : List UInt8) :
    AcceptsWellTerminated bytes ↔ ¬∃ b : Block, b.last ≠ [] ∧ b.bytes <+: bytes := by
  constructor
  · rintro h ⟨b, hlast, hp⟩
    exact not_acceptsWellTerminated hlast hp h
  · intro h buf t hbuf
    obtain ⟨p, hp, hruns, -⟩ := parseRequest_runs buf (c := .new) (.inl ⟨rfl, rfl⟩) t
    refine ⟨p, hp, ?_⟩
    rw [hbuf] at hruns
    have hiff := complete_iff_block hruns
    rw [show p.ended.verdict = p.verdict from rfl, verdict_eq_complete_iff] at hiff
    dsimp only
    rw [hiff]
    constructor
    · rintro ⟨b, hb⟩
      have hlast : b.last = [] := by
        by_contra hne
        exact h ⟨b, hne, _, hb.symm⟩
      refine ⟨b.toWellFormed, ?_⟩
      rw [b.bytes_of_last_eq hlast]
      exact hb
    · rintro ⟨r, hr⟩
      refine ⟨r.block, ?_⟩
      rw [r.bytes_block]
      exact hr

/-- A header line without a colon, and no empty line. -/
def colonless : Block where
  toWellFormed := getRoot
  last := text "foo"
  last_unbroken := by decide
  colon_notMem := by decide

theorem not_acceptsWellTerminated_colonless :
    ¬AcceptsWellTerminated (text "GET / HTTP/1.1\r\nfoo\r\n") :=
  not_acceptsWellTerminated (b := colonless) (by decide) (by decide)

end Muduo.HttpServer
