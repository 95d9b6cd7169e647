import AwaOS.Klibc.Sprintf.Law
import Mathlib.Logic.Relation

/-!
The scanner of `__sprintf_internal` on any format: it stays within the format and within `numbuf`.
-/

namespace AwaOS

open ByteMem

/--
The array ends with a NUL.
-/
def Terminated (fmt : List Byte) : Prop :=
  ∃ s, fmt = s ++ [0]

/--
The computation fails for a missing argument only, and a result of it satisfies `P`.
-/
abbrev Scans {α : Type} (P : α → Prop) (x : LibcM α) : Prop :=
  Within (· = .argument) P x

section Terminated

variable {c : Byte} {fmt : List Byte}

theorem not_terminated_nil : ¬Terminated [] := by
  intro h
  obtain ⟨s, hs⟩ := h
  cases s with
  | nil => contradiction
  | cons c s => contradiction

theorem Terminated.tail (h : Terminated (c :: fmt)) (hc : c ≠ 0) : Terminated fmt := by
  obtain ⟨s, hs⟩ := h
  cases s with
  | nil =>
    injection hs with heq _
    exact absurd heq hc
  | cons d s =>
    injection hs with _ hfmt
    exact ⟨s, hfmt⟩

theorem deref_scans (h : Terminated fmt) : Scans (fun c => fmt = c :: fmt.tail) (deref fmt) := by
  cases fmt with
  | nil => exact absurd h not_terminated_nil
  | cons c fmt => exact within_pure rfl

end Terminated

section Scan

variable {fmt : List Byte}

theorem scanFlags_scans (h : Terminated fmt) (flags : Int32)
    : Scans (fun r => Terminated r.2) (scanFlags flags fmt) := by
  induction fmt generalizing flags with
  | nil => exact absurd h not_terminated_nil
  | cons c fmt ih =>
    unfold scanFlags
    by_cases hc : c = 0
    . rw [if_neg (not_not.mpr hc)]
      exact within_pure h
    . rw [if_pos hc]
      cases strchr_flagChars hc with
      | inl hflag =>
        obtain ⟨_, i, hstrchr, _⟩ := hflag
        rw [except_bind_ok hstrchr]
        exact ih (h.tail hc) _
      | inr hother =>
        rw [except_bind_ok hother.right]
        exact within_pure h

theorem ne_zero_of_isDigitFrom {lo : Char} {c : Byte} (hdigit : isDigitFrom lo c = true) (hlo : byte lo ≠ 0)
    : c ≠ 0 := by
  intro hzero
  have hle := (of_decide_eq_true hdigit).left
  rw [hzero] at hle
  apply hlo
  exact BitVec.le_zero_iff.mp hle

theorem scanNumber_scans (h : Terminated fmt) (n : Int32)
    : Scans (fun r => Terminated r.2) (scanNumber n fmt) := by
  induction fmt generalizing n with
  | nil => exact absurd h not_terminated_nil
  | cons c fmt ih =>
    unfold scanNumber
    split
    . next hdigit =>
      apply ih
      exact h.tail (ne_zero_of_isDigitFrom hdigit (by decide))
    . exact within_pure h

theorem skipLength_scans (h : Terminated fmt) : Scans Terminated (skipLength fmt) := by
  induction fmt with
  | nil => exact absurd h not_terminated_nil
  | cons c fmt ih =>
    unfold skipLength
    split
    . next hlength =>
      apply ih
      apply h.tail
      intro hzero
      rw [hzero] at hlength
      exact absurd hlength (by decide)
    . exact within_pure h

theorem vaWord_scans (vargs : List VaArg) : Scans (fun _ => True) (vaWord vargs) := by
  unfold vaWord
  split
  . exact within_pure trivial
  . exact within_throw rfl

theorem vaString_scans (vargs : List VaArg) : Scans (fun _ => True) (vaString vargs) := by
  unfold vaString
  split
  . exact within_pure trivial
  . exact within_throw rfl

theorem terminated_tail {c : Byte} (h : Terminated fmt) (hcons : fmt = c :: fmt.tail) (hc : c ≠ 0)
    : Terminated fmt.tail := by
  rw [hcons] at h
  exact h.tail hc

theorem scanWidth_scans (h : Terminated fmt) (vargs : List VaArg)
    : Scans (fun r => Terminated r.2.1) (scanWidth fmt vargs) := by
  refine (deref_scans h).bind (fun c hcons => ?_)
  split
  . exact (scanNumber_scans h 0).bind (fun _ hrest => within_pure hrest)
  . split
    . next hstar =>
      have hrest := terminated_tail h hcons (by rw [hstar]; decide)
      exact (vaWord_scans vargs).bind (fun _ _ => within_pure hrest)
    . exact within_pure h

theorem scanPrecision_number_scans (h : Terminated fmt) (vargs : List VaArg)
    : Scans (fun r => Terminated r.2.1) (scanPrecision.number fmt vargs) := by
  refine (deref_scans h).bind (fun c hcons => ?_)
  split
  . exact (scanNumber_scans h 0).bind (fun _ hrest => within_pure hrest)
  . split
    . next hstar =>
      have hrest := terminated_tail h hcons (by rw [hstar]; decide)
      exact (vaWord_scans vargs).bind (fun _ _ => within_pure hrest)
    . exact within_pure h

theorem scanPrecision_scans (h : Terminated fmt) (vargs : List VaArg)
    : Scans (fun r => Terminated r.2.1) (scanPrecision fmt vargs) := by
  refine (deref_scans h).bind (fun c hcons => ?_)
  split
  . next hdot =>
    have hrest := terminated_tail h hcons (by rw [hdot]; decide)
    exact (scanPrecision_number_scans hrest vargs).bind (fun _ hrest => within_pure hrest)
  . exact within_pure h

end Scan

section Convert

theorem convert_scans (flags : Int32) (scan : Scan) (h : Terminated scan.fmt)
    : Scans (ConvertResult scan) (convert flags scan) := by
  apply convert_within
  . exact deref_scans h
  . exact vaWord_scans scan.vargs
  . exact vaString_scans scan.vargs

theorem ConvertResult.terminated {scan : Scan} {r : Conversion × Scan} (h : ConvertResult scan r)
    (hfmt : Terminated scan.fmt)
    : Terminated r.2.fmt := by
  cases h.consumed with
  | inl hcons =>
    obtain ⟨c, hc, hcons⟩ := hcons
    rw [hcons] at hfmt
    exact hfmt.tail hc
  | inr hsame =>
    rw [hsame]
    exact hfmt

theorem formatNumber_scans (conv : Conversion) (numbuf : ByteMem) (hbase : conv.base = 10 ∨ conv.base = 16)
    : Scans (fun r => SameOutside numbuf r.2 0 numbufsiz) (formatNumber conv numbuf) := by
  by_cases hnumeric : hasFlag conv.flags flagNumeric = true
  . have hrange : 10 ≤ conv.base.toNat ∧ conv.base.toNat ≤ 16 := by
      cases hbase with
      | inl heq =>
        rw [heq]
        decide
      | inr heq =>
        rw [heq]
        decide
    obtain ⟨rest, numbuf', hformat, hsame⟩ := formatNumber_eq conv numbuf hnumeric hrange.left hrange.right
    rw [hformat]
    exact hsame
  . unfold formatNumber
    rw [if_neg hnumeric]
    exact within_pure (.refl numbuf _ _)

/--
The scanner reads a directive within the format, and its NUL is still ahead afterwards.
-/
theorem scanField_scans (scan : Scan) (h : Terminated scan.fmt)
    : Scans (fun r => Terminated r.2.fmt ∧ SameOutside scan.numbuf r.2.numbuf 0 numbufsiz) (scanField scan) := by
  refine (scanFlags_scans h 0).bind (fun r₁ h₁ => ?_)
  refine (scanWidth_scans h₁ scan.vargs).bind (fun r₂ h₂ => ?_)
  refine (scanPrecision_scans h₂ r₂.2.2).bind (fun r₃ h₃ => ?_)
  refine (skipLength_scans h₃).bind (fun fmt h₄ => ?_)
  refine (convert_scans r₁.1 { scan with fmt := fmt, vargs := r₃.2.2 } h₄).bind (fun r₅ h₅ => ?_)
  refine (formatNumber_scans r₅.1 r₅.2.numbuf h₅.base).bind (fun r₆ h₆ => within_pure ?_)
  exact ⟨h₅.terminated h₄, h₅.buffer.trans h₆⟩

end Convert

section Round

/--
A round of the outer loop after which it goes on.
-/
inductive Round (maxLen : Nat) : Scan × Out → Scan × Out → Prop where
  | plain {scan : Scan} {out : Out} {c : Byte} {fmt : List Byte} (hfmt : scan.fmt = c :: fmt) (hc : c ≠ 0)
      (hlimit : ¬(maxLen ≠ 0 ∧ out.ptr ≥ maxLen - 1)) (hplain : c ≠ byte '%')
      : Round maxLen (scan, out) ({ scan with fmt := fmt }, out.put c)
  | directive {scan scan' : Scan} {out out' : Out} {fmt : List Byte} (hfmt : scan.fmt = byte '%' :: fmt)
      (hlimit : ¬(maxLen ≠ 0 ∧ out.ptr ≥ maxLen - 1))
      (hput : putDirective { scan with fmt := fmt } out = .ok (scan', out'))
      : Round maxLen (scan, out) (scan', out')

/--
The loop takes this round.
-/
theorem loop_of_round {maxLen : Nat} {s s' : Scan × Out} (h : Round maxLen s s') (fuel : Nat)
    : sprintfInternal.loop maxLen (fuel + 1) s.1 s.2 = sprintfInternal.loop maxLen fuel s'.1 s'.2 := by
  cases h with
  | plain hfmt hc hlimit hplain =>
    rw [sprintfInternal.loop, hfmt, except_bind_ok (deref_cons _ _), if_neg hc, if_neg hlimit, if_pos hplain]
    rfl
  | directive hfmt hlimit hput =>
    rw [sprintfInternal.loop, hfmt, except_bind_ok (deref_cons _ _), if_neg (by decide), if_neg hlimit,
      if_neg (by decide)]
    dsimp only [List.tail_cons]
    rw [except_bind_ok hput]

/--
What holds before every round: the NUL of the format is ahead, `numbuf` is overwritten up to its size only, and
the scanner reads the next directive without leaving the format.
-/
structure Safe (numbuf : ByteMem) (scan : Scan) : Prop where
  format : Terminated scan.fmt
  buffer : SameOutside numbuf scan.numbuf 0 numbufsiz
  scanner : ∀ rest, scan.fmt = byte '%' :: rest →
    Scans (fun r => SameOutside numbuf r.2.numbuf 0 numbufsiz) (scanField { scan with fmt := rest })

theorem safe_of_terminated {numbuf : ByteMem} {scan : Scan} (hfmt : Terminated scan.fmt)
    (hsame : SameOutside numbuf scan.numbuf 0 numbufsiz)
    : Safe numbuf scan := by
  refine ⟨hfmt, hsame, ?_⟩
  intro rest hrest
  rw [hrest] at hfmt
  have hscan := scanField_scans { scan with fmt := rest } (hfmt.tail (by decide))
  exact hscan.mono (fun _ hr => hsame.trans hr.right)

theorem putDirective_scan {scan scan' : Scan} {out out' : Out} (h : putDirective scan out = .ok (scan', out'))
    : ∃ field, scanField scan = .ok (field, scan') := by
  unfold putDirective at h
  obtain ⟨⟨field, scan₁⟩, hscan, h⟩ := except_bind_eq_ok.mp h
  obtain ⟨lay, _, h⟩ := except_bind_eq_ok.mp h
  obtain ⟨out₁, _, h⟩ := except_bind_eq_ok.mp h
  cases h
  exact ⟨field, hscan⟩

theorem Safe.round {numbuf : ByteMem} {maxLen : Nat} {s s' : Scan × Out} (h : Safe numbuf s.1)
    (hround : Round maxLen s s')
    : Safe numbuf s'.1 := by
  cases hround with
  | plain hfmt hc hlimit hplain =>
    have hterminated := h.format
    rw [hfmt] at hterminated
    exact safe_of_terminated (hterminated.tail hc) h.buffer
  | @directive scan scan' out out' fmt hfmt hlimit hput =>
    have hterminated := h.format
    rw [hfmt] at hterminated
    obtain ⟨field, hscan⟩ := putDirective_scan hput
    have hrest := scanField_scans { scan with fmt := fmt } (hterminated.tail (by decide))
    rw [hscan] at hrest
    exact safe_of_terminated hrest.left (h.buffer.trans hrest.right)

theorem Safe.run {numbuf : ByteMem} {maxLen : Nat} {s s' : Scan × Out} (h : Safe numbuf s.1)
    (hrun : Relation.ReflTransGen (Round maxLen) s s')
    : Safe numbuf s'.1 := by
  induction hrun with
  | refl => exact h
  | tail _ hround ih => exact ih.round hround

end Round

section Arguments

/--
A string argument can be read as far as the directive reads it.
-/
def Directive.Readable (d : Directive) : Prop :=
  ∀ s, d.operand = .string s → ∃ len, dataLen 0 (precisionWord d.precision) s = .ok len

/--
The arguments are there, with their types, and can be read.
-/
def TakesArguments (fmt : List Byte) (vargs : List VaArg) : Prop :=
  ∃ ps, parse (fmt.length + 1) fmt vargs = some ps ∧ ∀ d, Piece.directive d ∈ ps → d.Readable

theorem dataLen_of_scanned {d : Directive} {field : Field} (h : Scanned d field) (hreadable : d.Readable)
    : ∃ len, dataLen field.conv.flags field.precision field.data = .ok len := by
  cases hnumeric : d.operand.numeric with
  | true => exact ⟨_, (dataLen_number h hnumeric).left⟩
  | false =>
    have hshows := h.text hnumeric
    have hflags : dataLen field.conv.flags field.precision field.data
        = dataLen 0 (precisionWord d.precision) field.data := by
      unfold dataLen
      rw [h.conv.flags, hasFlag_flagNumeric, hnumeric, h.precision, hasFlag_zero]
    rw [hflags]
    cases hoperand : d.operand with
    | string s =>
      rw [hoperand] at hshows
      rw [show field.data = s from hshows]
      exact hreadable s hoperand
    | char c =>
      rw [hoperand] at hshows
      obtain ⟨rest, hrest⟩ := hshows
      have hle := (chars_char c rest).right
      have hlong : 2 ≤ (c :: 0 :: rest).length := Nat.le_add_left 2 rest.length
      rw [hrest]
      unfold dataLen
      split
      . rw [strnlen_eq, if_pos (by omega)]
        exact ⟨_, rfl⟩
      . rw [strlen_eq, if_pos (by omega)]
        exact ⟨_, rfl⟩
    | signed x =>
      rw [hoperand] at hnumeric
      contradiction
    | unsigned n =>
      rw [hoperand] at hnumeric
      contradiction
    | hex caps n =>
      rw [hoperand] at hnumeric
      contradiction
    | pointer n =>
      rw [hoperand] at hnumeric
      contradiction

theorem directiveText_of_readable {d : Directive} {fmt fmt' : List Byte} {vargs vargs' : List VaArg}
    (numbuf : ByteMem) (h : parseDirective fmt vargs = some (d, fmt', vargs')) (hreadable : d.Readable)
    : ∃ numbuf' text, directiveText ⟨fmt, vargs, numbuf⟩ = .ok (⟨fmt', vargs', numbuf'⟩, text) := by
  obtain ⟨field, numbuf', hscan, hscanned, _⟩ := scanField_eq numbuf h
  obtain ⟨len, hlen⟩ := dataLen_of_scanned hscanned hreadable
  have hstrlen : strlen (signPrefix field.conv) = .ok d.signText.length := by
    rw [signPrefix_eq hscanned.conv]
    exact strlen_text (zero_not_mem_signText d) []
  have hlay : ∃ lay, layout field.conv.flags field.width field.precision (signPrefix field.conv) field.data
      = .ok lay := by
    unfold layout
    rw [except_bind_ok hlen, except_bind_ok hstrlen]
    exact ⟨_, rfl⟩
  obtain ⟨lay, hlay⟩ := hlay
  exact ⟨numbuf', _, directiveText_of_layout hscan hlay⟩

theorem pieces_of_readable {fuel : Nat} {fmt : List Byte} {vargs : List VaArg} {ps : List Piece} (numbuf : ByteMem)
    (hparse : parse fuel fmt vargs = some ps) (hreadable : ∀ d, Piece.directive d ∈ ps → d.Readable)
    : ∃ texts, pieces fuel ⟨fmt, vargs, numbuf⟩ = .ok texts := by
  induction fuel generalizing fmt vargs ps numbuf with
  | zero => contradiction
  | succ fuel ih =>
    cases fmt with
    | nil => contradiction
    | cons c fmt =>
      unfold parse at hparse
      unfold pieces
      rw [except_bind_ok (deref_cons c fmt)]
      split at hparse
      . next hc =>
        rw [if_pos hc]
        exact ⟨[], rfl⟩
      . next hc =>
        rw [if_neg hc]
        split at hparse
        . next hplain =>
          obtain ⟨ps, hps, hparse⟩ := Option.bind_eq_some_iff.mp hparse
          cases hparse
          obtain ⟨texts, htexts⟩ := ih numbuf hps (fun d hd => hreadable d (List.mem_cons_of_mem _ hd))
          rw [if_pos hplain]
          dsimp only [List.tail_cons]
          rw [except_bind_ok htexts]
          exact ⟨_, rfl⟩
        . next hdirective =>
          obtain ⟨⟨d, fmt', vargs'⟩, hd, hparse⟩ := Option.bind_eq_some_iff.mp hparse
          obtain ⟨ps, hps, hparse⟩ := Option.bind_eq_some_iff.mp hparse
          cases hparse
          obtain ⟨numbuf', text, htext⟩ := directiveText_of_readable numbuf hd (hreadable d List.mem_cons_self)
          obtain ⟨texts, htexts⟩ := ih numbuf' hps (fun d hd => hreadable d (List.mem_cons_of_mem _ hd))
          rw [if_neg hdirective]
          dsimp only [List.tail_cons]
          rw [except_bind_ok htext]
          dsimp only
          rw [except_bind_ok htexts]
          exact ⟨_, rfl⟩

theorem sprintfInternal_of_arguments {fmt : List Byte} {vargs : List VaArg} (numbuf : ByteMem)
    (h : TakesArguments fmt vargs) (m : ByteMem) (buffer maxLen : Nat)
    : ∃ out, sprintfInternal m buffer fmt maxLen vargs numbuf = .ok out := by
  obtain ⟨ps, hparse, hreadable⟩ := h
  obtain ⟨texts, htexts⟩ := pieces_of_readable numbuf hparse hreadable
  unfold sprintfInternal
  cases maxLen with
  | zero =>
    rw [loop_zero, htexts]
    exact ⟨_, rfl⟩
  | succ n =>
    rw [loop_limit (Nat.succ_pos n) _ htexts]
    exact ⟨_, rfl⟩

end Arguments

/--
Whatever the format is, `__sprintf_internal` ends, its scanner stays within the format and within `numbuf`, and
with all arguments it ends without a fault.
-/
theorem sprintfInternal_safe (s : List Byte) (vargs : List VaArg) (numbuf m : ByteMem) (buffer maxLen : Nat)
    : (∀ scan out, Relation.ReflTransGen (Round maxLen) (⟨s ++ [0], vargs, numbuf⟩, ⟨m, buffer, 0⟩) (scan, out) →
          Safe numbuf scan)
        ∧ sprintfInternal m buffer (s ++ [0]) maxLen vargs numbuf ≠ .error .endless
        ∧ (TakesArguments (s ++ [0]) vargs → ∃ out,
          sprintfInternal m buffer (s ++ [0]) maxLen vargs numbuf = .ok out) := by
  refine ⟨?_, sprintfInternal_ends _ _ _ _ _ _, fun h => sprintfInternal_of_arguments numbuf h m buffer maxLen⟩
  intro scan out hrun
  have hstart : Safe numbuf ⟨s ++ [0], vargs, numbuf⟩ := safe_of_terminated ⟨s, rfl⟩ (.refl numbuf _ _)
  exact hstart.run hrun

theorem sprintfInternal_safe_truncated
    : ∃ out, sprintfInternal (fun _ => 0) 0x100 (cstr "%.1s%-0*.") 4 [.string (cstr "ab"), .word 7] (fun _ => 0)
        = .ok out := by
  obtain ⟨_, _, hok⟩ := sprintfInternal_safe ("%.1s%-0*.".toList.map byte) [.string (cstr "ab"), .word 7]
    (fun _ => 0) (fun _ => 0) 0x100 4
  apply hok
  refine ⟨[.directive ⟨[], none, some 1, .string (cstr "ab")⟩,
    .directive ⟨[byte '-', byte '0'], some 7, some 0, .char (byte '%')⟩], rfl, ?_⟩
  intro d hd
  cases hd with
  | head =>
    intro s hs
    cases hs
    exact ⟨2, rfl⟩
  | tail _ hd =>
    cases hd with
    | head =>
      intro s hs
      contradiction
    | tail _ hd => contradiction

end AwaOS
