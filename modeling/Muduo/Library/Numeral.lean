import Mathlib.Algebra.Order.Ring.Nat
import Mathlib.Data.Nat.Digits.Defs
import Mathlib.Tactic.Common

/-!
# Numerals

The decimal numeral of a number tells the number. Cut to its first `d` digits it does so only
below `10 ^ d`: a longer numeral begins like a shorter one. In any base and with any digits, a
number has one numeral without a zero in front.
-/
namespace Numeral

theorem toDigits_injective {m n : ℕ} (h : Nat.toDigits 10 m = Nat.toDigits 10 n) : m = n := by
  have hvalue := congrArg (fun digits => Nat.ofDigitChars 10 digits 0) h
  simpa using hvalue

/-- A numeral of at most `d` digits is not cut. -/
theorem take_toDigits {n d : ℕ} (hd : 0 < d) (h : n < 10 ^ d) :
    (Nat.toDigits 10 n).take d = Nat.toDigits 10 n :=
  List.take_of_length_le ((Nat.length_toDigits_le_iff (by decide) hd).mpr h)

theorem take_toDigits_injective {m n d : ℕ} (hd : 0 < d) (hm : m < 10 ^ d) (hn : n < 10 ^ d)
    (h : (Nat.toDigits 10 m).take d = (Nat.toDigits 10 n).take d) : m = n := by
  rw [take_toDigits hd hm, take_toDigits hd hn] at h
  exact toDigits_injective h

/-- Without its last digit a longer numeral begins with the same `d` digits. -/
theorem take_toDigits_div {n d : ℕ} (hd : 0 < d) (h : 10 ^ d ≤ n) :
    (Nat.toDigits 10 (n / 10)).take d = (Nat.toDigits 10 n).take d := by
  have hten : 10 ≤ n := (Nat.pow_le_pow_right (by decide) hd).trans h
  have hlong : d < (Nat.toDigits 10 n).length := by
    by_contra hle
    exact absurd ((Nat.length_toDigits_le_iff (by decide) hd).mp (not_lt.mp hle)) (not_lt.mpr h)
  rw [Nat.toDigits_of_base_le (by decide) hten] at hlong ⊢
  rw [List.length_append, List.length_singleton] at hlong
  rw [List.take_append_of_le_length (by omega)]

section
variable {α : Type*} {base n : ℕ} {val : α → ℕ} {w w' : List α} {c : α}

/-- `w` is the numeral of `n`, the most significant digit first. `val` gives the values of the
digits. -/
structure IsNumeral (base : ℕ) (val : α → ℕ) (w : List α) (n : ℕ) : Prop where
  lt_base : ∀ c ∈ w, val c < base
  ne_nil : w ≠ []
  no_leading_zero : ∀ c ∈ w.head?, val c = 0 → w.length = 1
  value : Nat.ofDigits base (w.map val).reverse = n

theorem isNumeral_singleton (h : val c < base) : IsNumeral base val [c] (val c) where
  lt_base := by simpa using h
  ne_nil := by simp
  no_leading_zero := by simp
  value := by simp

theorem IsNumeral.concat (h : IsNumeral base val w n) (hn : n ≠ 0) (hc : val c < base) :
    IsNumeral base val (w ++ [c]) (n * base + val c) where
  lt_base := by
    intro a ha
    rcases List.mem_append.mp ha with ha | ha
    · exact h.lt_base a ha
    · rwa [List.mem_singleton.mp ha]
  ne_nil := by simp
  no_leading_zero := by
    intro a ha hzero
    have hhead : (w ++ [c]).head? = w.head? := by
      obtain ⟨b, rest, rfl⟩ := List.exists_cons_of_ne_nil h.ne_nil
      rfl
    rw [hhead] at ha
    -- a single zero is the numeral of zero
    obtain ⟨b, rfl⟩ := List.length_eq_one_iff.mp (h.no_leading_zero a ha hzero)
    obtain rfl : b = a := Option.some.inj ha
    have hvalue := h.value
    simp [hzero] at hvalue
    exact absurd hvalue.symm hn
  value := by
    rw [List.map_append, List.reverse_append, Nat.ofDigits_append, h.value]
    simp only [List.map_cons, List.map_nil, List.reverse_singleton, Nat.ofDigits_singleton,
      List.length_singleton, pow_one]
    rw [Nat.add_comm, Nat.mul_comm]

/-- Every number has a numeral. -/
theorem isNumeral_toDigits {f : Char → α} (hbase : 1 < base)
    (hf : ∀ d < base, val (f d.digitChar) = d) (n : ℕ) :
    IsNumeral base val ((Nat.toDigits base n).map f) n := by
  induction n using Nat.strong_induction_on with
  | _ n ih =>
    rcases Nat.lt_or_ge n base with hlt | hge
    · have hval := hf n hlt
      rw [Nat.toDigits_of_lt_base hlt, List.map_singleton]
      nth_rewrite 2 [← hval]
      exact isNumeral_singleton (hval.trans_lt hlt)
    · have hpos : 0 < n / base := Nat.div_pos hge (by omega)
      have hmod : n % base < base := Nat.mod_lt n (by omega)
      have hval := hf (n % base) hmod
      have hshort := ih (n / base) (Nat.div_lt_self (by omega) hbase)
      have hlong := hshort.concat hpos.ne' (hval.trans_lt hmod)
      rw [hval, Nat.div_add_mod'] at hlong
      rw [Nat.toDigits_of_base_le hbase hge, List.map_append, List.map_singleton]
      exact hlong

/-- The values of the digits are determined. -/
theorem IsNumeral.map_val (hbase : 1 < base) (h : IsNumeral base val w n) :
    w.map val = if n = 0 then [0] else (Nat.digits base n).reverse := by
  obtain ⟨c, rest, rfl⟩ := List.exists_cons_of_ne_nil h.ne_nil
  by_cases hzero : val c = 0
  · have hlen := h.no_leading_zero c rfl hzero
    obtain rfl : rest = [] := by simpa using hlen
    have hvalue := h.value
    simp [hzero] at hvalue
    rw [if_pos hvalue.symm, List.map_singleton, hzero]
  · have hlt : ∀ d ∈ ((c :: rest).map val).reverse, d < base := by
      intro d hd
      obtain ⟨a, ha, rfl⟩ := List.mem_map.mp (List.mem_reverse.mp hd)
      exact h.lt_base a ha
    have hdigits := Nat.digits_ofDigits base hbase _ hlt (by simp [hzero])
    rw [h.value] at hdigits
    have hn : n ≠ 0 := by
      rintro rfl
      simp at hdigits
    rw [if_neg hn, hdigits, List.reverse_reverse]

theorem map_injective_of_lt (hinj : ∀ a b, val a < base → val a = val b → a = b)
    (hlt : ∀ c ∈ w, val c < base) (h : w.map val = w'.map val) : w = w' := by
  induction w generalizing w' with
  | nil => exact (List.map_eq_nil_iff.mp h.symm).symm
  | cons a w ih =>
    cases w' with
    | nil => simp at h
    | cons b w' =>
      obtain ⟨hhead, htail⟩ := List.cons.inj h
      have ha := hlt a List.mem_cons_self
      rw [hinj a b ha hhead, ih (fun c hc => hlt c (List.mem_cons_of_mem a hc)) htail]

/-- Where the digits have different values, a number has one numeral. -/
theorem IsNumeral.unique (hbase : 1 < base) (hinj : ∀ a b, val a < base → val a = val b → a = b)
    (h : IsNumeral base val w n) (h' : IsNumeral base val w' n) : w = w' := by
  apply map_injective_of_lt hinj h.lt_base
  rw [h.map_val hbase, h'.map_val hbase]

end

section Order
variable {α : Type*} [LT α] {a a' b b' : List α} {f : Char → α} {m n w : ℕ}

theorem append_lt_append_of_lt (hlen : a.length = a'.length) (h : a < a') : a ++ b < a' ++ b' := by
  induction a generalizing a' with
  | nil =>
    rw [List.length_eq_zero_iff.mp hlen.symm] at h
    cases h
  | cons x a ih =>
    cases a' with
    | nil => simp at hlen
    | cons x' a' =>
      rw [List.cons_append, List.cons_append, List.cons_lt_cons_iff]
      rcases List.cons_lt_cons_iff.mp h with hx | ⟨hx, htail⟩
      · exact Or.inl hx
      · exact Or.inr ⟨hx, ih (Nat.succ.inj hlen) htail⟩

theorem append_lt_append_left (a : List α) (h : b < b') : a ++ b < a ++ b' := by
  induction a with
  | nil => exact h
  | cons x a ih => exact List.cons_lt_cons_iff.mpr (Or.inr ⟨rfl, ih⟩)

omit [LT α] in
/-- The last digit of a numeral of a fixed width. -/
theorem leftpad_toDigits (hw : 0 < w) (n : ℕ) :
    ((Nat.toDigits 10 n).map f).leftpad (w + 1) (f '0') =
      ((Nat.toDigits 10 (n / 10)).map f).leftpad w (f '0') ++ [f (n % 10).digitChar] := by
  rcases Nat.lt_or_ge n 10 with hlt | hge
  · have hzero : Nat.toDigits 10 0 = ['0'] := rfl
    rw [Nat.toDigits_of_lt_base hlt, Nat.div_eq_of_lt hlt, Nat.mod_eq_of_lt hlt, hzero,
      List.leftpad, List.leftpad, List.map_singleton, List.map_singleton, List.length_singleton,
      List.length_singleton, Nat.add_sub_cancel, ← List.replicate_succ', Nat.sub_add_cancel hw]
  · rw [Nat.toDigits_of_base_le (by decide) hge, List.map_append, List.map_singleton,
      List.leftpad, List.leftpad, List.length_append, List.length_singleton,
      Nat.add_sub_add_right, List.append_assoc]

/-- Numerals of one width are in the order of the numbers. -/
theorem leftpad_lt_leftpad (hf : ∀ d < 10, ∀ e < d, f e.digitChar < f d.digitChar) (hw : 0 < w)
    (hm : m < 10 ^ w) (hn : n < 10 ^ w) (h : m < n) :
    ((Nat.toDigits 10 m).map f).leftpad w (f '0') <
      ((Nat.toDigits 10 n).map f).leftpad w (f '0') := by
  induction w, hw using Nat.le_induction generalizing m n with
  | base =>
    have hm' : m < 10 := hm
    have hn' : n < 10 := hn
    rw [Nat.toDigits_of_lt_base hm', Nat.toDigits_of_lt_base hn']
    exact List.cons_lt_cons_iff.mpr (Or.inl (hf n hn' m h))
  | succ w hw ih =>
    have hm' : m / 10 < 10 ^ w := Nat.div_lt_of_lt_mul (by rwa [← pow_succ'])
    have hn' : n / 10 < 10 ^ w := Nat.div_lt_of_lt_mul (by rwa [← pow_succ'])
    have hlength : ∀ k < 10 ^ w, (((Nat.toDigits 10 k).map f).leftpad w (f '0')).length = w := by
      intro k hk
      rw [List.length_leftpad, List.length_map]
      exact max_eq_left ((Nat.length_toDigits_le_iff (by decide) hw).mpr hk)
    rw [leftpad_toDigits hw, leftpad_toDigits hw]
    rcases (Nat.div_le_div_right h.le : m / 10 ≤ n / 10).eq_or_lt with heq | hlt
    · rw [heq]
      apply append_lt_append_left
      exact List.cons_lt_cons_iff.mpr (Or.inl (hf _ (Nat.mod_lt n (by decide)) _ (by omega)))
    · exact append_lt_append_of_lt (by rw [hlength _ hm', hlength _ hn']) (ih hm' hn' hlt)

end Order

end Numeral
