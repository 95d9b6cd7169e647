import AwaOS.Klibc.Sprintf.Law
import AwaOS.Klibc.Strncpy

/-!
The functions with a limit look at the character before they look at the limit.
-/

namespace AwaOS

open ByteMem

/--
`strnlen` returns where the NUL is, `n` at most, and reads no byte from `n` on.
-/
structure StrnlenLimited (str : List Byte) (n : Nat) : Prop where
  value : strnlen str n = .ok (min (chars str).length n)
  reads : strnlen (str.take n) n = strnlen str n

/--
`strncpy` writes the `n` bytes that it should, nothing else, and reads no byte of the source from `n` on.
-/
structure StrncpyLimited (dest : Nat) (src : List Byte) (n : Nat) : Prop where
  writes : ∀ m, ∃ m', strncpy m dest src n = .ok m' ∧ Holds m' dest (copied src n)
    ∧ SameOutside m m' dest (dest + n)
  reads : ∀ m, strncpy m dest (src.take n) n = strncpy m dest src n

/--
`%.Ns`, with `n` as a number in the format or as an argument, prints the first `n` characters of a string.
-/
structure PrecisionLimited (str : List Byte) (n : Nat) : Prop where
  digits : ∀ m buffer numbuf,
    sprintf m buffer (byte '%' :: byte '.' :: (digitBytes 10 n ++ [byte 's', 0])) [.string str] numbuf
      = .ok (written m buffer ((chars str).take n))
  star : ∀ m buffer numbuf, sprintf m buffer (cstr "%.*s") [.word (BitVec.ofNat 32 n), .string str] numbuf
      = .ok (written m buffer ((chars str).take n))

section Limited

variable (str : List Byte) (n : Nat)

theorem chars_lt_of_zero_mem_take (h : 0 ∈ str.take n)
    : (chars str).length < n ∧ (chars str).length < str.length := by
  rw [zero_mem_take_iff] at h
  omega

theorem strnlen_limited_iff : StrnlenLimited str n ↔ 0 ∈ str.take n := by
  constructor
  . intro h
    have hread := h.reads.trans h.value
    rw [strnlen_eq] at hread
    rw [← length_chars_lt_iff]
    split at hread
    . next hlt =>
      have := length_chars_le (str.take n)
      have := List.length_take_le n str
      omega
    . contradiction
  . intro h
    obtain ⟨hn, hlt⟩ := chars_lt_of_zero_mem_take str n h
    have hlen : (chars (str.take n)).length = (chars str).length := by
      rw [chars_take, List.length_take]
      omega
    have hvalue : strnlen str n = .ok (min (chars str).length n) := by
      rw [strnlen_eq, if_pos (by omega)]
      congr 1
      omega
    refine ⟨hvalue, ?_⟩
    rw [hvalue, strnlen_eq, hlen, List.length_take, if_pos (by omega)]
    congr 1
    omega

theorem strncpy_limited_iff (dest : Nat) : StrncpyLimited dest str n ↔ 0 ∈ str.take n := by
  constructor
  . intro h
    by_contra hzero
    obtain ⟨m', hcopy, _⟩ := h.writes (fun _ => 0)
    have hread := h.reads (fun _ => 0)
    have hbad := copy_outOfBounds (fun _ => 0) dest n 0 (str.take n) hzero (List.length_take_le n str)
    rw [hcopy, strncpy, hbad] at hread
    contradiction
  . intro h
    obtain ⟨hn, hlt⟩ := chars_lt_of_zero_mem_take str n h
    constructor
    . intro m
      exact strncpy_eq m dest str n (by omega)
    . intro m
      unfold strncpy
      rw [copy_take m dest n 0 n str h]

end Limited

section Precision

theorem isDigit_of_mem_digitBytes {c : Byte} {n : Nat} (hmem : c ∈ digitBytes 10 n)
    : isDigitFrom '0' c = true := by
  have hall : ∀ k, k < 10 → isDigitFrom '0' (byte (Nat.digitChar k)) = true := by decide
  obtain ⟨digit, hdigit, hc⟩ := List.mem_map.mp hmem
  obtain ⟨k, hk, heq⟩ := mem_toDigits (by decide) hdigit
  rw [← hc, heq]
  exact hall k hk

theorem decimal_append (n : Nat) (digits : List Byte) (c : Byte)
    : decimal n (digits ++ [c]) = 10 * decimal n digits + (c.toNat - 48) := by
  induction digits generalizing n with
  | nil => rfl
  | cons d digits ih => exact ih _

theorem decimal_digitBytes (n : Nat) : decimal 0 (digitBytes 10 n) = n := by
  have hall : ∀ k, k < 10 → (byte (Nat.digitChar k)).toNat - 48 = k := by decide
  induction n using Nat.strongRecOn with
  | ind n ih =>
    rw [digitBytes_eq_if (by decide)]
    split
    . next hsmall =>
      change 10 * 0 + ((byte (Nat.digitChar n)).toNat - 48) = n
      rw [hall n hsmall, Nat.mul_zero, Nat.zero_add]
    . next hlarge =>
      rw [decimal_append, ih (n / 10) (by omega), hall (n % 10) (by omega)]
      exact Nat.div_add_mod n 10

variable (str : List Byte) (n : Nat)

theorem parse_digits
    : parseDirective (byte '.' :: (digitBytes 10 n ++ [byte 's', 0])) [.string str]
        =
      some (⟨[], none, some n, .string str⟩, [0], []) := by
  have hdigits : ∀ c, c ∈ digitBytes 10 n → isDigitFrom '0' c = true := fun c hc => isDigit_of_mem_digitBytes hc
  have htake : (digitBytes 10 n ++ [byte 's', 0]).takeWhile (isDigitFrom '0') = digitBytes 10 n := by
    rw [List.takeWhile_append_of_pos hdigits]
    exact List.append_nil _
  have hdrop : (digitBytes 10 n ++ [byte 's', 0]).dropWhile (isDigitFrom '0') = [byte 's', 0] := by
    rw [List.dropWhile_append_of_pos hdigits]
    rfl
  have hnumber : parseNumber '0' (digitBytes 10 n ++ [byte 's', 0]) [.string str]
      = some (some (n : Int), [byte 's', 0], [.string str]) := by
    cases hcons : digitBytes 10 n with
    | nil =>
      have hlength := @length_digitBytes_pos 10 n
      rw [hcons] at hlength
      contradiction
    | cons c rest =>
      have hfirst := hdigits c (hcons ▸ List.mem_cons_self)
      rw [hcons] at htake hdrop
      rw [List.cons_append, parseNumber, if_pos hfirst, ← List.cons_append, htake, hdrop, ← hcons,
        decimal_digitBytes]
  have hprecision : parsePrecision (byte '.' :: (digitBytes 10 n ++ [byte 's', 0])) [.string str]
      = some (some n, [byte 's', 0], [.string str]) := by
    rw [parsePrecision, if_pos rfl, hnumber]
    rfl
  have hflags : (byte '.' :: (digitBytes 10 n ++ [byte 's', 0])).dropWhile isFlag
      = byte '.' :: (digitBytes 10 n ++ [byte 's', 0]) := by
    exact List.dropWhile_cons_of_neg (by decide)
  have hnone : (byte '.' :: (digitBytes 10 n ++ [byte 's', 0])).takeWhile isFlag = [] := by
    exact List.takeWhile_cons_of_neg (by decide)
  have hwidth : parseNumber '1' (byte '.' :: (digitBytes 10 n ++ [byte 's', 0])) [.string str]
      = some (none, byte '.' :: (digitBytes 10 n ++ [byte 's', 0]), [.string str]) := by
    rw [parseNumber, if_neg (by decide), if_neg (by decide)]
  unfold parseDirective
  rw [hflags, hwidth, hnone]
  dsimp only [bind, Option.bind]
  rw [hprecision]
  rfl

theorem parse_star (hn : n < 2 ^ 31)
    : parseDirective [byte '.', byte '*', byte 's', 0] [.word (BitVec.ofNat 32 n), .string str]
        =
      some (⟨[], none, some n, .string str⟩, [0], []) := by
  have hword : (BitVec.ofNat 32 n).toInt.toNat = n := by
    rw [toInt_ofNat_eq hn, Int.toNat_natCast]
  have hparse : ∀ w, parseDirective [byte '.', byte '*', byte 's', 0] [.word w, .string str]
      = some (⟨[], none, some w.toInt.toNat, .string str⟩, [0], []) := fun w => rfl
  rw [hparse, hword]

theorem covered_precision (hn : n < 2 ^ 31) : (⟨[], none, some n, .string str⟩ : Directive).Covered := by
  constructor
  . intro w hw
    contradiction
  . intro p hp
    cases hp
    exact hn
  . intro p hp hnumeric
    contradiction

theorem layOut_string (body : List Byte) : (⟨[], none, some n, .string str⟩ : Directive).layOut body = body := by
  change List.replicate (0 - 0 - 0 - body.length) (byte ' ') ++ body = body
  rw [show 0 - 0 - 0 - body.length = 0 by omega]
  rfl

/--
What a directive for a string with a precision prints, however the precision is given.
-/
theorem precision_text_iff {fmt : List Byte} {vargs : List VaArg} (hn : n + 1 < 2 ^ 31)
    (hparse : parseDirective fmt vargs = some (⟨[], none, some n, .string str⟩, [0], []))
    : (∀ m buffer numbuf, sprintf m buffer (byte '%' :: fmt) vargs numbuf
          = .ok (written m buffer ((chars str).take n)))
        ↔
      0 ∈ str.take (n + 1) := by
  have hcovered := covered_precision str n (by omega)
  have hstrnlen := strnlen_eq str n
  have hbody : ∀ len, strnlen str n = .ok len →
      (⟨[], none, some n, .string str⟩ : Directive).body = .ok (str.take len) := by
    intro len hlen
    change printedText (some n) str = _
    unfold printedText textLen
    dsimp only
    rw [except_bind_ok hlen]
    rfl
  have hexact : ∀ len, strnlen str n = .ok len → len < 2 ^ 31 →
      (⟨[], none, some n, .string str⟩ : Directive).Exact := by
    intro len hlen hlt
    refine ⟨fun hnumeric => absurd hnumeric Bool.false_ne_true, fun _ body hbody' => ?_⟩
    rw [hbody len hlen] at hbody'
    cases hbody'
    exact Nat.lt_of_le_of_lt (List.length_take_le _ _) hlt
  constructor
  . intro h
    by_contra hzero
    rw [zero_mem_take_iff] at hzero
    have htext := h (fun _ => 0) 0 (fun _ => 0)
    rw [sprintf_single _ _ _ hparse] at htext
    split at hstrnlen
    . next hlt =>
      -- one character more than the precision is printed
      have hlen : min (chars str).length (n + 1) = n + 1 := by omega
      rw [hlen] at hlt hstrnlen
      obtain ⟨numbuf', hdirective⟩ := directiveText_exact (fun _ => 0) hparse hcovered
        (hexact (n + 1) hstrnlen hn) (hbody (n + 1) hstrnlen)
      rw [hdirective, layOut_string] at htext
      have hptr := congrArg Out.ptr (Except.ok.inj htext)
      rw [ptr_written, ptr_written, List.length_take, List.length_take] at hptr
      omega
    . have herror : (⟨[], none, some n, .string str⟩ : Directive).body = .error .outOfBounds := by
        change printedText (some n) str = _
        unfold printedText textLen
        dsimp only
        rw [hstrnlen]
        rfl
      rw [directiveText_error (fun _ => 0) hparse hcovered rfl herror] at htext
      contradiction
  . intro h
    obtain ⟨hlen, hlt⟩ := chars_lt_of_zero_mem_take str (n + 1) h
    have hmin : min (chars str).length (n + 1) = (chars str).length := by omega
    rw [hmin, if_pos hlt] at hstrnlen
    intro m buffer numbuf
    obtain ⟨numbuf', hdirective⟩ := directiveText_exact numbuf hparse hcovered
      (hexact _ hstrnlen (by omega)) (hbody _ hstrnlen)
    have htake : str.take (chars str).length = (chars str).take n := by
      rw [List.take_of_length_le (Nat.le_of_lt_succ hlen)]
      exact (List.prefix_iff_eq_take.mp (List.takeWhile_prefix _)).symm
    rw [sprintf_single m buffer numbuf hparse, hdirective, layOut_string, htake]
    rfl

end Precision

/--
`strnlen` and `strncpy` keep their limit if and only if there is a NUL within it, a precision if and only if
there is one right behind it at the latest.
-/
theorem limits_iff (str : List Byte) (n : Nat)
    : (StrnlenLimited str n ↔ 0 ∈ str.take n)
        ∧ (∀ dest, StrncpyLimited dest str n ↔ 0 ∈ str.take n)
        ∧ (n + 1 < 2 ^ 31 → (PrecisionLimited str n ↔ 0 ∈ str.take (n + 1))) := by
  refine ⟨strnlen_limited_iff str n, strncpy_limited_iff str n, fun hn => ?_⟩
  have hdigits := precision_text_iff str n hn (parse_digits str n)
  have hstar := precision_text_iff str n hn (parse_star str n (by omega))
  constructor
  . intro h
    exact hdigits.mp h.digits
  . intro h
    exact ⟨hdigits.mpr h, hstar.mpr h⟩

theorem limits_iff_oem_id
    : (StrnlenLimited (cstr "AWAOS") 6 ↔ 0 ∈ (cstr "AWAOS").take 6)
        ∧ (∀ dest, StrncpyLimited dest (cstr "AWAOS") 6 ↔ 0 ∈ (cstr "AWAOS").take 6)
        ∧ (PrecisionLimited (cstr "AWAOS") 6 ↔ 0 ∈ (cstr "AWAOS").take 7) := by
  obtain ⟨hstrnlen, hstrncpy, hprecision⟩ := limits_iff (cstr "AWAOS") 6
  exact ⟨hstrnlen, hstrncpy, hprecision (by decide)⟩

/--
An array of three characters without a NUL, and the one character more that is counted and printed.
-/
theorem limits_unterminated
    : strnlen ("abc".toList.map byte) 3 = .error .outOfBounds
        ∧ strnlen (cstr "abcd") 3 = .ok 4
        ∧ strncpy (fun _ => 0) 0 ("abc".toList.map byte) 3 = .error .outOfBounds
        ∧ sprintf (fun _ => 0) 0 (cstr "%.3s") [.string (cstr "abcd")] (fun _ => 0)
          = .ok (written (fun _ => 0) 0 ("abcd".toList.map byte))
        ∧ ¬StrnlenLimited ("abc".toList.map byte) 3
        ∧ ¬StrncpyLimited 0 ("abc".toList.map byte) 3
        ∧ ¬PrecisionLimited (cstr "abcd") 3 := by
  have hlong : pieces ((cstr "%.3s").length + 1) ⟨cstr "%.3s", [.string (cstr "abcd")], fun _ => 0⟩
      = .ok ["abcd".toList.map byte] := by
    rfl
  have hprinted : sprintf (fun _ => 0) 0 (cstr "%.3s") [.string (cstr "abcd")] (fun _ => 0)
      = .ok (written (fun _ => 0) 0 ("abcd".toList.map byte)) :=
    sprintf_eq_ok.mpr ⟨_, hlong, by rw [List.flatten_cons, List.flatten_nil, List.append_nil]⟩
  refine ⟨rfl, rfl, rfl, hprinted, ?_, ?_, ?_⟩
  . intro h
    exact absurd ((strnlen_limited_iff _ _).mp h) (by decide)
  . intro h
    exact absurd ((strncpy_limited_iff _ _ _).mp h) (by decide)
  . intro h
    have hfmt : byte '%' :: byte '.' :: (digitBytes 10 3 ++ [byte 's', 0]) = cstr "%.3s" := by decide
    have hshort := h.digits (fun _ => 0) 0 (fun _ => 0)
    rw [hfmt, hprinted] at hshort
    have hptr := congrArg Out.ptr (Except.ok.inj hshort)
    exact absurd hptr (by decide)

end AwaOS
