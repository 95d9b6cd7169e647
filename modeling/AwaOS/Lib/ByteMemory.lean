import Mathlib.Algebra.Group.Nat.Defs
import Mathlib.Logic.Function.Basic

/-!
Byte addressed memory with little endian 16 and 32 bit words. Aligned words are either equal or apart.
-/

abbrev ByteMem := Nat → BitVec 8

namespace ByteMem

def read32 (m : ByteMem) (a : Nat) : BitVec 32 :=
  m (a + 3) ++ m (a + 2) ++ m (a + 1) ++ m a

def write32 (m : ByteMem) (a : Nat) (w : BitVec 32) : ByteMem := fun b =>
  if a ≤ b ∧ b < a + 4 then
    w.extractLsb' (8 * (b - a)) 8
  else
    m b

def read16 (m : ByteMem) (a : Nat) : BitVec 16 :=
  m (a + 1) ++ m a

def write16 (m : ByteMem) (a : Nat) (w : BitVec 16) : ByteMem := fun b =>
  if b = a then
    w.extractLsb' 0 8
  else if b = a + 1 then
    w.extractLsb' 8 8
  else
    m b

/--
The two memories agree on all bytes from `lo` up to `hi`.
-/
def SameOn (m m' : ByteMem) (lo hi : Nat) : Prop :=
  ∀ b, lo ≤ b → b < hi → m' b = m b

/--
The two memories agree on all bytes below `lo` and from `hi` on.
-/
def SameOutside (m m' : ByteMem) (lo hi : Nat) : Prop :=
  ∀ b, b < lo ∨ hi ≤ b → m' b = m b

/--
The bytes of `l` are in memory from `a` on.
-/
def Holds (m : ByteMem) (a : Nat) (l : List (BitVec 8)) : Prop :=
  ∀ i (hi : i < l.length), m (a + i) = l[i]

variable {m m' m'' : ByteMem}

theorem write32_of_outside (a b : Nat) (w : BitVec 32) (h : b < a ∨ a + 4 ≤ b) : write32 m a w b = m b := by
  unfold write32
  rw [if_neg (by omega)]

theorem read32_congr (a : Nat) (h : SameOn m m' a (a + 4)) : read32 m' a = read32 m a := by
  unfold read32
  rw [h a (by omega) (by omega), h (a + 1) (by omega) (by omega), h (a + 2) (by omega) (by omega),
    h (a + 3) (by omega) (by omega)]

theorem append_bytes (w : BitVec 32)
    : w.extractLsb' (8 * 3) 8 ++ w.extractLsb' (8 * 2) 8 ++ w.extractLsb' (8 * 1) 8 ++ w.extractLsb' (8 * 0) 8
        =
      w := by
  rw [BitVec.extractLsb'_append_extractLsb'_eq_extractLsb' (by decide),
    BitVec.extractLsb'_append_extractLsb'_eq_extractLsb' (by decide),
    BitVec.extractLsb'_append_extractLsb'_eq_extractLsb' (by decide)]
  exact BitVec.extractLsb'_eq_self

@[simp]
theorem read32_write32_self (a : Nat) (w : BitVec 32) : read32 (write32 m a w) a = w := by
  have hbyte : ∀ k, k < 4 → write32 m a w (a + k) = w.extractLsb' (8 * k) 8 := by
    intro k hk
    unfold write32
    rw [if_pos (by omega), Nat.add_sub_cancel_left]
  have h0 := hbyte 0 (by decide)
  unfold read32
  rw [Nat.add_zero] at h0
  rw [h0, hbyte 1 (by decide), hbyte 2 (by decide), hbyte 3 (by decide)]
  exact append_bytes w

theorem read32_write32_of_apart (a b : Nat) (w : BitVec 32) (h : a + 4 ≤ b ∨ b + 4 ≤ a)
    : read32 (write32 m a w) b = read32 m b := by
  apply read32_congr
  intro c _ _
  apply write32_of_outside
  omega

theorem read32_write32_of_ne {a b : Nat} (w : BitVec 32) (ha : a % 4 = 0) (hb : b % 4 = 0) (hne : b ≠ a)
    : read32 (write32 m a w) b = read32 m b := by
  apply read32_write32_of_apart
  omega

@[simp]
theorem read16_write16_self (a : Nat) (w : BitVec 16) : read16 (write16 m a w) a = w := by
  have hhigh : write16 m a w (a + 1) = w.extractLsb' 8 8 := by
    unfold write16
    rw [if_neg (by omega), if_pos rfl]
  have hlow : write16 m a w a = w.extractLsb' 0 8 := by
    unfold write16
    rw [if_pos rfl]
  unfold read16
  rw [hhigh, hlow, BitVec.extractLsb'_append_extractLsb'_eq_extractLsb' (by decide)]
  exact BitVec.extractLsb'_eq_self

theorem read16_write16_of_apart (a b : Nat) (w : BitVec 16) (h : a + 2 ≤ b ∨ b + 2 ≤ a)
    : read16 (write16 m a w) b = read16 m b := by
  unfold read16 write16
  rw [if_neg (by omega), if_neg (by omega), if_neg (by omega), if_neg (by omega)]

theorem SameOn.mono {lo hi lo' hi' : Nat} (h : SameOn m m' lo hi) (hlo : lo ≤ lo') (hhi : hi' ≤ hi)
    : SameOn m m' lo' hi' :=
  fun b hb hb' => h b (by omega) (by omega)

theorem SameOn.trans {lo hi : Nat} (h : SameOn m m' lo hi) (h' : SameOn m' m'' lo hi) : SameOn m m'' lo hi :=
  fun b hb hb' => (h' b hb hb').trans (h b hb hb')

theorem SameOutside.mono {lo hi lo' hi' : Nat} (h : SameOutside m m' lo hi) (hlo : lo' ≤ lo) (hhi : hi ≤ hi')
    : SameOutside m m' lo' hi' :=
  fun b hb => h b (by omega)

theorem SameOutside.refl (m : ByteMem) (lo hi : Nat) : SameOutside m m lo hi :=
  fun _ _ => rfl

theorem SameOutside.trans {lo hi : Nat} (h : SameOutside m m' lo hi) (h' : SameOutside m' m'' lo hi)
    : SameOutside m m'' lo hi :=
  fun b hb => (h' b hb).trans (h b hb)

theorem SameOutside.below {lo hi : Nat} (h : SameOutside m m' lo hi) (a : Nat) : SameOn m m' a lo :=
  fun b _ hb => h b (Or.inl hb)

theorem SameOutside.above {lo hi : Nat} (h : SameOutside m m' lo hi) (a : Nat) : SameOn m m' hi a :=
  fun b hb _ => h b (Or.inr hb)

theorem sameOutside_write32 (m : ByteMem) {a lo hi : Nat} (w : BitVec 32) (hlo : lo ≤ a) (hhi : a + 4 ≤ hi)
    : SameOutside m (write32 m a w) lo hi :=
  fun b hb => write32_of_outside a b w (by omega)

theorem SameOn.refl (m : ByteMem) (lo hi : Nat) : SameOn m m lo hi :=
  fun _ _ _ => rfl

theorem sameOutside_update (m : ByteMem) {a lo hi : Nat} (c : BitVec 8) (hlo : lo ≤ a) (hhi : a < hi)
    : SameOutside m (Function.update m a c) lo hi :=
  fun b hb => Function.update_of_ne (by omega) _ _

section Holds

variable {a : Nat} {l l' : List (BitVec 8)}

theorem Holds.of_sameOn (h : Holds m a l) (hsame : SameOn m m' a (a + l.length)) : Holds m' a l := by
  intro i hi
  rw [hsame _ (by omega) (by omega)]
  exact h i hi

theorem holds_nil : Holds m a [] :=
  fun i hi => absurd hi (Nat.not_lt_zero i)

theorem holds_cons {c : BitVec 8} : Holds m a (c :: l) ↔ m a = c ∧ Holds m (a + 1) l := by
  constructor
  . intro h
    constructor
    . exact h 0 (Nat.succ_pos _)
    . intro i hi
      rw [Nat.add_assoc, Nat.add_comm 1 i]
      exact h (i + 1) (Nat.succ_lt_succ hi)
  . intro h i hi
    cases i with
    | zero => exact h.left
    | succ i =>
      rw [show a + (i + 1) = a + 1 + i by omega]
      exact h.right i (Nat.lt_of_succ_lt_succ hi)

theorem holds_append : Holds m a (l ++ l') ↔ Holds m a l ∧ Holds m (a + l.length) l' := by
  induction l generalizing a with
  | nil =>
    constructor
    . intro h
      exact ⟨holds_nil, h⟩
    . intro h
      exact h.right
  | cons c l ih =>
    rw [List.cons_append, holds_cons, ih, holds_cons, and_assoc, List.length_cons, Nat.add_right_comm,
      ← Nat.add_assoc]

end Holds

/--
`m'` is `m` with the `num` bytes at `src` copied to `dest`, as if they had all been read before any was written.
-/
structure Copied (m m' : ByteMem) (dest src num : Nat) : Prop where
  inside : ∀ i, i < num → m' (dest + i) = m (src + i)
  outside : SameOutside m m' dest (dest + num)

theorem Copied.unique {dest src num : Nat} (h : Copied m m' dest src num) (h' : Copied m m'' dest src num)
    : m' = m'' := by
  funext b
  by_cases hb : dest ≤ b ∧ b < dest + num
  . have hinside := h.inside (b - dest) (by omega)
    have hinside' := h'.inside (b - dest) (by omega)
    rw [Nat.add_sub_cancel' hb.left] at hinside hinside'
    rw [hinside, hinside']
  . rw [h.outside b (by omega), h'.outside b (by omega)]

/--
`f` writes only from `lo` up to `hi`, and what it leaves there depends on no byte outside.
-/
structure Confined (lo hi : Nat) (f : ByteMem → ByteMem) : Prop where
  writes : ∀ m, SameOutside m (f m) lo hi
  reads : ∀ m m', SameOn m m' lo hi → SameOn (f m) (f m') lo hi

section Confined

variable {lo hi : Nat} {f g : ByteMem → ByteMem}

theorem confined_id (lo hi : Nat) : Confined lo hi id where
  writes := fun m => .refl m lo hi
  reads := fun _ _ hsame => hsame

theorem Confined.comp (hg : Confined lo hi g) (hf : Confined lo hi f) : Confined lo hi (fun m => g (f m)) where
  writes := fun m => (hf.writes m).trans (hg.writes (f m))
  reads := fun m m' hsame => hg.reads _ _ (hf.reads m m' hsame)

theorem confined_write32 {a : Nat} (w : BitVec 32) (hlo : lo ≤ a) (hhi : a + 4 ≤ hi)
    : Confined lo hi (fun m => write32 m a w) where
  writes := fun m => sameOutside_write32 m w hlo hhi
  reads := by
    intro m m' hsame b hb hb'
    unfold write32
    split
    . rfl
    . exact hsame b hb hb'

theorem confined_write16 {a : Nat} (w : BitVec 16) (hlo : lo ≤ a) (hhi : a + 2 ≤ hi)
    : Confined lo hi (fun m => write16 m a w) where
  writes := by
    intro m b hb
    unfold write16
    rw [if_neg (by omega), if_neg (by omega)]
  reads := by
    intro m m' hsame b hb hb'
    unfold write16
    split
    . rfl
    split
    . rfl
    . exact hsame b hb hb'

end Confined

end ByteMem
