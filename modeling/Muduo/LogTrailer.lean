import Muduo.Logging

/-!
# The end of a log record

Each piece that `finish` streams is dropped where it does not fit behind what has been streamed
before, so what it appends depends on how full the buffer is. A record ends with the source
file and the line where all pieces fit, and elsewhere only by accident.
-/
namespace Muduo

namespace Logger
open LogStream (Item FixedBuffer kSmallBuffer kMaxNumericSize decimal kept byteOf)

/-! ### Endings of lists -/

section
variable {α : Type*} {x y l : List α} {a c : α}

theorem suffix_concat (h : x ++ [a] <:+ l ++ [c]) : a = c ∧ x <:+ l := by
  obtain ⟨t, ht⟩ := h
  rw [← List.append_assoc] at ht
  obtain ⟨hinit, hlast⟩ := List.append_inj' ht rfl
  exact ⟨List.singleton_inj.mp hlast, t, hinit⟩

/-- A list that ends with `c :: x` does not end with more than that which does not contain `c`
again. -/
theorem not_suffix_shifted [DecidableEq α] (hc : c ∉ y) (hy : y ≠ []) :
    ¬(c :: x) ++ y <:+ l ++ (c :: x) := by
  rintro ⟨t, ht⟩
  obtain ⟨p, hl⟩ : ∃ p, l = t ++ p := by
    have hlen := congrArg List.length ht
    simp only [List.length_append] at hlen
    have htake := congrArg (List.take t.length) ht
    rw [List.take_left, List.take_append_of_le_length (by omega)] at htake
    exact ⟨l.drop t.length, by
      nth_rewrite 1 [htake]
      rw [List.take_append_drop]⟩
  rw [hl, List.append_assoc, List.append_cancel_left_eq] at ht
  -- the part in front is as long as `y`, and `c` is not in it
  have hcount := congrArg (List.count c) ht
  rw [List.count_append, List.count_append, List.count_eq_zero_of_not_mem hc] at hcount
  have hnot : c ∉ p := List.count_eq_zero.mp (by omega)
  have hlen := congrArg List.length ht
  simp only [List.length_append] at hlen
  have hpos := List.length_pos_iff.mpr hy
  have hp : p ≠ [] := List.ne_nil_of_length_pos (by omega)
  obtain ⟨a, p', rfl⟩ := List.exists_cons_of_ne_nil hp
  have hhead : c = a := (List.cons.inj ht).1
  exact hnot (hhead ▸ List.mem_cons_self)

end

/-! ### What is appended -/

theorem space_not_mem_decimal (v : ℤ) : (32 : UInt8) ∉ decimal v := by
  intro h
  have hmem := mem_decimal h
  revert hmem
  decide

/-- The last character is not a colon. -/
theorem decimal_concat (v : ℤ) : ∃ init d, decimal v = init ++ [d] ∧ d ≠ 58 := by
  have hne : decimal v ≠ [] := by
    rw [LogStream.decimal_eq]
    simp [Nat.toDigits_ne_nil]
  refine ⟨_, _, (List.dropLast_append_getLast hne).symm, ?_⟩
  intro h
  have hmem := mem_decimal (List.getLast_mem hne)
  rw [h] at hmem
  revert hmem
  decide

/-- What `finish` streams. -/
def pieces (file : SourceFile) (line : Int32) : List Item :=
  [.cstr (text " - "), .string file.data_, .char 58, .int line, .char 10]

/-- What a record is to end with. -/
def trailer (file : SourceFile) (line : Int32) : List UInt8 :=
  text " - " ++ file.data_ ++ (text ":" ++ decimal line.toInt ++ text "\n")

theorem exec_cons (b : LogStream.Buffer) (item : Item) (items : List Item) :
    StepSystem.exec LogStream.system b (item :: items) =
      LogStream.stream b item >>= fun b => StepSystem.exec LogStream.system b items := by
  conv_lhs => unfold StepSystem.exec
  rw [show LogStream.system.step = LogStream.stream from rfl]
  cases LogStream.stream b item with
  | ok b' => rfl
  | error e => rfl

variable {impl : Impl}

theorem finish_eq (impl : Impl) : finish impl =
    StepSystem.exec LogStream.system impl.stream_ (pieces impl.basename_ impl.line_) >>= fun b =>
      pure { impl with stream_ := b } := by
  have hnil : ∀ b, StepSystem.exec LogStream.system b [] = .ok b := fun _ => rfl
  unfold finish pieces
  simp only [exec_cons, hnil, bind_assoc, ok_bind]
  rfl

section
variable {length : ℕ} {file : SourceFile} {line : Int32}

theorem fits_of_not_numeric {item : Item} (h : item.isNumeric = false) :
    item.Fits length ↔ length + item.rendering.length < 4000 := by
  unfold Item.Fits kSmallBuffer
  rw [h, if_neg Bool.false_ne_true]
  omega

theorem fits_int : (Item.int line).Fits length ↔ length ≤ 3968 := by
  have hnumeric : (Item.int line).isNumeric = true := rfl
  unfold Item.Fits kSmallBuffer kMaxNumericSize
  rw [hnumeric, if_pos rfl]
  omega

theorem length_line_le (line : Int32) : (decimal line.toInt).length ≤ 20 := by
  have hle := line.le_toInt
  have hlt := line.toInt_lt
  exact LogStream.length_decimal_le (by omega) (by omega)

theorem flatMap_kept_cons (item : Item) (items : List Item) :
    (kept length (item :: items)).flatMap Item.rendering =
      if item.Fits length then
        item.rendering ++
          (kept (length + item.rendering.length) items).flatMap Item.rendering
      else (kept length items).flatMap Item.rendering := by
  conv_lhs => unfold kept
  split_ifs
  · rw [List.flatMap_cons]
  · rfl

theorem kept_char (c : UInt8) (items : List Item) :
    (kept length (.char c :: items)).flatMap Item.rendering =
      if length < 3999 then c :: (kept (length + 1) items).flatMap Item.rendering
      else (kept length items).flatMap Item.rendering := by
  have hfits : (Item.char c).Fits length ↔ length < 3999 := by
    rw [fits_of_not_numeric rfl]
    simp only [Item.rendering, List.length_singleton]
    omega
  rw [flatMap_kept_cons, if_congr hfits rfl rfl]
  rfl

/-- From the line on. A line that fits leaves room for what is behind it. -/
theorem kept_line : (kept length [.int line, .char 10]).flatMap Item.rendering =
    if length ≤ 3968 then decimal line.toInt ++ text "\n"
    else if length < 3999 then text "\n" else [] := by
  have hline := length_line_le line
  rw [flatMap_kept_cons, if_congr fits_int rfl rfl]
  simp only [kept_char, Item.rendering]
  split_ifs
  · rfl
  · omega
  · rfl
  · rfl

theorem kept_colon (h : length < 4000) :
    (kept length [.char 58, .int line, .char 10]).flatMap Item.rendering =
      if length ≤ 3967 then text ":" ++ decimal line.toInt ++ text "\n"
      else if length < 3998 then text ":" ++ text "\n"
      else if length = 3998 then text ":" else [] := by
  rw [kept_char, kept_line, kept_line]
  split_ifs
  all_goals first | omega | rfl

theorem kept_file :
    (kept length [.string file.data_, .char 58, .int line, .char 10]).flatMap Item.rendering =
      if length + file.data_.length < 4000 then
        file.data_ ++ (kept (length + file.data_.length)
          [.char 58, .int line, .char 10]).flatMap Item.rendering
      else (kept length [.char 58, .int line, .char 10]).flatMap Item.rendering := by
  have hfits : (Item.string file.data_).Fits length ↔ length + file.data_.length < 4000 :=
    fits_of_not_numeric rfl
  rw [flatMap_kept_cons, if_congr hfits rfl rfl]
  rfl

/-- Some piece does not fit, and the last one that does cannot end a trailer. -/
structure Cut (length : ℕ) (file : SourceFile) : Prop where
  long : 3964 < length + file.data_.length
  file_fits : length ≤ 3964 → length + file.data_.length < 3997
  not_full : length ≠ 3999
  not_filled : 3997 ≤ length → length + file.data_.length ≠ 3999

/-- What is appended behind `length` bytes. -/
inductive Appended (length : ℕ) (file : SourceFile) (line : Int32) : List UInt8 → Prop
  | whole (h : length + file.data_.length ≤ 3964) : Appended length file line (trailer file line)
  | withoutFile (h : length ≤ 3964) (hfile : 3997 ≤ length + file.data_.length) :
    Appended length file line (text " - " ++ (text ":" ++ decimal line.toInt ++ text "\n"))
  | nothing (h : length = 3999) : Appended length file line []
  | file (h : 3997 ≤ length) (hlt : length < 3999) (hfile : length + file.data_.length = 3999) :
    Appended length file line file.data_
  | dashAndFile (h : length + file.data_.length = 3996) :
    Appended length file line (text " - " ++ file.data_)
  | dash (h : length = 3996) (hfile : 0 < file.data_.length) :
    Appended length file line (text " - ")
  | colon (h : Cut length file) (w : List UInt8) : Appended length file line (w ++ text ":")
  | colonAndNewline (h : Cut length file) (w : List UInt8) :
    Appended length file line (w ++ (text ":" ++ text "\n"))

/-- Where the colon is streamed behind more than 3967 bytes, the line is dropped. -/
theorem appended_colon {m : ℕ} {w : List UInt8} (hm : 3967 < m) (hm' : m < 3999)
    (h : Cut length file) : Appended length file line
      (w ++ (kept m [.char 58, .int line, .char 10]).flatMap Item.rendering) := by
  rw [kept_colon (by omega), if_neg (by omega)]
  split_ifs
  · exact .colonAndNewline h w
  · exact .colon h w
  · omega

theorem kept_colon_full :
    (kept 3999 [.char 58, .int line, .char 10]).flatMap Item.rendering = [] := by
  rw [kept_colon (by decide)]
  rfl

theorem appended (h : length < 4000) :
    Appended length file line ((kept length (pieces file line)).flatMap Item.rendering) := by
  have hdash : (Item.cstr (text " - ")).Fits length ↔ length < 3997 := by
    rw [fits_of_not_numeric rfl]
    have hlen : (Item.cstr (text " - ")).rendering.length = 3 := by decide
    omega
  have hrendering : (Item.cstr (text " - ")).rendering = text " - " := by decide
  have hthree : (text " - ").length = 3 := rfl
  unfold pieces
  rw [flatMap_kept_cons, if_congr hdash rfl rfl, hrendering, hthree, kept_file, kept_file]
  by_cases hstart : length < 3997
  · rw [if_pos hstart]
    by_cases hfile : length + 3 + file.data_.length < 4000
    · rw [if_pos hfile, ← List.append_assoc]
      rcases Nat.lt_or_ge 3967 (length + 3 + file.data_.length) with hlong | hshort
      · by_cases hfull : length + 3 + file.data_.length = 3999
        · rw [hfull, kept_colon_full, List.append_nil]
          exact .dashAndFile (by omega)
        · exact appended_colon hlong (by omega) ⟨by omega, by omega, by omega, by omega⟩
      · rw [kept_colon hfile, if_pos hshort]
        exact .whole (by omega)
    · rw [if_neg hfile]
      rcases Nat.lt_or_ge 3967 (length + 3) with hlong | hshort
      · by_cases hfull : length + 3 = 3999
        · rw [hfull, kept_colon_full, List.append_nil]
          exact .dash (by omega) (by omega)
        · exact appended_colon hlong (by omega) ⟨by omega, by omega, by omega, by omega⟩
      · rw [kept_colon (by omega), if_pos hshort]
        exact .withoutFile (by omega) (by omega)
  · rw [if_neg hstart]
    by_cases hfile : length + file.data_.length < 4000
    · rw [if_pos hfile]
      by_cases hfull : length + file.data_.length = 3999
      · rw [hfull, kept_colon_full, List.append_nil]
        rcases Nat.lt_or_ge length 3999 with hlt | hge
        · exact .file (by omega) hlt hfull
        · have hempty : file.data_ = [] := List.eq_nil_of_length_eq_zero (by omega)
          rw [hempty]
          exact .nothing (by omega)
      · exact appended_colon (by omega) (by omega) ⟨by omega, by omega, by omega, by omega⟩
    · rw [if_neg hfile]
      by_cases hfull : length = 3999
      · rw [hfull, kept_colon_full]
        exact .nothing rfl
      · rw [← List.nil_append (List.flatMap _ _)]
        exact appended_colon (by omega) (by omega) ⟨by omega, by omega, by omega, by omega⟩

/-! ### When a record ends with the file and the line -/

/-- Either all pieces fit behind what has been streamed; or what has been streamed and the pieces
that fit happen to end like that. -/
def Located (content : List UInt8) (file : SourceFile) (line : Int32) : Prop :=
  content.length + file.data_.length ≤ 3964 ∨
  (content.length = 3999 ∧ trailer file line <:+ content) ∨
  (3997 ≤ content.length ∧ content.length + file.data_.length = 3999 ∧
    trailer file line <:+ content ++ file.data_) ∨
  (content.length ≤ 3964 ∧ 3997 ≤ content.length + file.data_.length ∧
    text " - " ++ file.data_ <:+ content ++ text " - ")

theorem trailer_concat (file : SourceFile) (line : Int32) : ∃ w d,
    trailer file line = w ++ [d] ++ [10] ∧ d ≠ 58 := by
  obtain ⟨init, d, hdecimal, hd⟩ := decimal_concat line.toInt
  refine ⟨text " - " ++ file.data_ ++ (text ":" ++ init), d, ?_, hd⟩
  unfold trailer
  rw [hdecimal]
  simp only [List.append_assoc]
  rfl

variable {content w : List UInt8}

/-- What does not end with a newline, or ends with a colon before it, does not end with a
trailer. -/
theorem not_trailer {c : UInt8} (hc : c ≠ 10) :
    ¬trailer file line <:+ content ++ (w ++ [c]) := by
  obtain ⟨v, d, heq, _⟩ := trailer_concat file line
  rw [heq, ← List.append_assoc]
  intro h
  exact hc (suffix_concat h).1.symm

theorem not_trailer_colon : ¬trailer file line <:+ content ++ (w ++ (text ":" ++ text "\n")) := by
  obtain ⟨v, d, heq, hd⟩ := trailer_concat file line
  have hassoc : content ++ (w ++ (text ":" ++ text "\n")) = content ++ w ++ [58] ++ [10] := by
    simp only [List.append_assoc]
    rfl
  rw [heq, hassoc]
  intro h
  exact hd (suffix_concat (suffix_concat h).2).1

theorem Cut.not_located (h : Cut content.length file) : ¬Located content file line := by
  obtain ⟨hlong, hfits, hfull, hfilled⟩ := h
  rintro (hle | ⟨heq, -⟩ | ⟨hle, heq, -⟩ | ⟨hle, hge, -⟩)
  · omega
  · exact hfull heq
  · exact hfilled hle heq
  · have hlt := hfits hle
    omega

/-- The colon, the line and the newline have no space in them, the dash has two. -/
theorem not_trailer_dashAndFile :
    ¬trailer file line <:+ content ++ (text " - " ++ file.data_) := by
  have hspace : (32 : UInt8) ∉ text ":" ++ decimal line.toInt ++ text "\n" := by
    intro hmem
    rcases List.mem_append.mp hmem with hmem | hmem
    · rcases List.mem_append.mp hmem with hmem | hmem
      · revert hmem
        decide
      · exact space_not_mem_decimal _ hmem
    · revert hmem
      decide
  exact not_suffix_shifted hspace (by simp [text])

theorem trailer_suffix_iff (h : Appended content.length file line w) :
    trailer file line <:+ content ++ w ↔ Located content file line := by
  unfold Located
  cases h with
  | whole h =>
    exact ⟨fun _ => .inl h, fun _ => List.suffix_append ..⟩
  | withoutFile h hfile =>
    have hiff : trailer file line <:+
        content ++ (text " - " ++ (text ":" ++ decimal line.toInt ++ text "\n")) ↔
          text " - " ++ file.data_ <:+ content ++ text " - " := by
      unfold trailer
      rw [← List.append_assoc content, List.suffix_append_self_iff]
    rw [hiff]
    constructor
    · intro hsuffix
      exact .inr (.inr (.inr ⟨h, hfile, hsuffix⟩))
    · rintro (hlt | ⟨heq, -⟩ | ⟨hle, -⟩ | ⟨-, -, hsuffix⟩)
      · omega
      · omega
      · omega
      · exact hsuffix
  | nothing h =>
    rw [List.append_nil]
    constructor
    · intro hsuffix
      exact .inr (.inl ⟨h, hsuffix⟩)
    · rintro (hle | ⟨-, hsuffix⟩ | ⟨hle, heq, hsuffix⟩ | ⟨hle, -⟩)
      · omega
      · exact hsuffix
      · have hempty : file.data_ = [] := List.eq_nil_of_length_eq_zero (by omega)
        rwa [hempty, List.append_nil] at hsuffix
      · omega
  | file h hlt hfile =>
    constructor
    · intro hsuffix
      exact .inr (.inr (.inl ⟨h, hfile, hsuffix⟩))
    · rintro (hle | ⟨heq, -⟩ | ⟨-, -, hsuffix⟩ | ⟨hle, -⟩)
      · omega
      · omega
      · exact hsuffix
      · omega
  | dashAndFile h =>
    have hcut : Cut content.length file := ⟨by omega, by omega, by omega, by omega⟩
    exact iff_of_false not_trailer_dashAndFile hcut.not_located
  | dash h hfile =>
    have hcut : Cut content.length file := ⟨by omega, by omega, by omega, by omega⟩
    have hlast : text " - " = text " -" ++ [32] := by decide
    rw [hlast]
    exact iff_of_false (not_trailer (by decide)) hcut.not_located
  | colon h w => exact iff_of_false (not_trailer (by decide)) h.not_located
  | colonAndNewline h w => exact iff_of_false not_trailer_colon h.not_located

end

theorem length_asString {b : LogStream.Buffer} (h : b.cur_ < kSmallBuffer) :
    b.asString.length = b.cur_ := by
  unfold FixedBuffer.asString
  rw [List.length_take, b.data_.length_eq]
  omega

/-- What is passed to `g_output`, by what has been streamed before. -/
theorem destroy_iff (h : impl.stream_.cur_ < kSmallBuffer) : Yields (destroy impl) fun out =>
    trailer impl.basename_ impl.line_ <:+ out.1 ↔
      Located impl.stream_.asString impl.basename_ impl.line_ := by
  obtain ⟨b, hexec, -, hstring⟩ :=
    LogStream.exec_eq h (pieces impl.basename_ impl.line_)
  have happended : Appended impl.stream_.cur_ impl.basename_ impl.line_
      ((kept impl.stream_.cur_ (pieces impl.basename_ impl.line_)).flatMap Item.rendering) :=
    appended h
  rw [← length_asString h] at happended
  unfold destroy
  rw [finish_eq, hexec, ok_bind, pure_eq_ok, ok_bind]
  apply yields_ok
  dsimp only
  rw [hstring, ← length_asString h]
  exact trailer_suffix_iff happended

/-- Whatever has been streamed into a `Logger`, its record ends with the source file and the
line exactly where `Located` holds of it before the destructor. -/
theorem located_iff {env : Env} {locals locals' : ThreadLocals} {c : Construction}
    (hc : construct env locals c = .ok (locals', impl)) (items : List Streamed) :
    Yields (streamAll impl.stream_ items) fun stream_ =>
      Yields (destroy { impl with stream_ }) fun out =>
        trailer c.file c.line <:+ out.1 ↔ Located stream_.asString c.file c.line := by
  obtain ⟨hopen, hfile, hline⟩ := open_of_construct hc
  rw [← hfile, ← hline]
  apply (streamAll_grows hopen items).mono
  intro b hb
  have hb' : ({ impl with stream_ := b } : Impl).stream_.cur_ < kSmallBuffer := hb.lt
  exact destroy_iff hb'

/-- `LOG_INFO` in line 1 of a file, one second after the epoch. -/
def sample : Construction where
  constructor := .plain
  file := .ofFilename (text "net/a.cc")
  line := 1
  now := 1000000
  data_ := ⟨List.replicate 4000 0, List.length_replicate ..⟩

def sampleEnv : Env := ⟨1, fun _ => []⟩

theorem construct_sample : ∃ locals impl,
    construct sampleEnv .initial sample = .ok (locals, impl) ∧ impl.stream_.cur_ = 38 := by
  have hany : (construct sampleEnv .initial sample).toOption.any (fun p =>
      decide (p.2.stream_.cur_ = 38)) = true := by decide +kernel
  cases hc : construct sampleEnv .initial sample with
  | error e =>
    rw [hc] at hany
    cases hany
  | ok p =>
    rw [hc] at hany
    exact ⟨p.1, p.2, rfl, of_decide_eq_true hany⟩

/-- Nothing is streamed, and the record ends with the file and the line. -/
theorem located_iff_sample : ∃ locals impl out,
    construct sampleEnv .initial sample = .ok (locals, impl) ∧ destroy impl = .ok out ∧
      text " - a.cc:1\n" <:+ out.1 := by
  obtain ⟨locals, impl, hc, hcur⟩ := construct_sample
  obtain ⟨b, hb, out, hout, hiff⟩ := located_iff hc []
  obtain rfl := Except.ok.inj hb
  have hlt : impl.stream_.cur_ < kSmallBuffer := by
    rw [hcur]
    decide
  have hlen := length_asString hlt
  have hfile : sample.file.data_.length = 4 := by decide
  have htrailer : trailer sample.file sample.line = text " - a.cc:1\n" := by decide
  rw [htrailer] at hiff
  exact ⟨locals, impl, out, hc, hout, hiff.mpr (.inl (by omega))⟩

/-- The text streamed fills the buffer, and the record ends with its last character. -/
theorem location_lost : ∃ locals impl stream_ out,
    construct sampleEnv .initial sample = .ok (locals, impl) ∧
      streamAll impl.stream_ [.item (.string (.replicate 3961 120))] = .ok stream_ ∧
        destroy { impl with stream_ } = .ok out ∧
          ¬trailer sample.file sample.line <:+ out.1 := by
  obtain ⟨locals, impl, hc, hcur⟩ := construct_sample
  obtain ⟨hopen, hfile, hline⟩ := open_of_construct hc
  obtain ⟨w, hw⟩ : ∃ w : List UInt8, w = .replicate 3961 120 := ⟨_, rfl⟩
  have hlen : w.length = 3961 := by rw [hw, List.length_replicate]
  have hlast : w = .replicate 3960 120 ++ [120] := hw.trans List.replicate_succ'
  have hfits : (Item.string w).Fits impl.stream_.cur_ := by
    rw [fits_of_not_numeric rfl, hcur]
    simp only [Item.rendering]
    omega
  obtain ⟨stream_, hstream, hext⟩ := (LogStream.stream_eq hopen (.string w)).1 hfits
  have hcur' : stream_.cur_ = 3999 := by
    rw [hext.cur_, hcur]
    simp only [Item.rendering]
    omega
  have hlt : ({ impl with stream_ } : Impl).stream_.cur_ < kSmallBuffer := hext.lt
  obtain ⟨out, hout, hiff⟩ := destroy_iff hlt
  have hcontent := length_asString hext.lt
  have hname : sample.file.data_.length = 4 := by decide
  rw [hfile, hline] at hiff
  rw [← hw]
  refine ⟨locals, impl, stream_, out, hc, ?_, hout, ?_⟩
  · simp only [streamAll, List.foldlM_cons, List.foldlM_nil, stream, hstream, ok_bind, pure_eq_ok]
  · intro hsuffix
    rcases hiff.mp hsuffix with hle | ⟨-, hend⟩ | ⟨-, heq, -⟩ | ⟨hle, -⟩
    · dsimp only at hle
      omega
    · -- the last character is an `x`
      dsimp only at hend
      rw [hext.asString] at hend
      simp only [Item.rendering] at hend
      rw [hlast] at hend
      exact not_trailer (by decide) hend
    · dsimp only at heq
      omega
    · dsimp only at hle
      omega

end Logger
end Muduo
