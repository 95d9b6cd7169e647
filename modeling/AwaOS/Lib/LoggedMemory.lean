import AwaOS.Lib.ByteMemory

/-!
Byte addressed memory with 32 bit addresses, which remembers the bytes that were written. An area is given by
its first address and its length, and it may wrap.
-/

/--
The distance from `a` up to `b`.
-/
def offsetFrom (a b : BitVec 32) : Nat :=
  (b - a).toNat

section OffsetFrom

variable (a b : BitVec 32)

theorem offsetFrom_lt : offsetFrom a b < 2 ^ 32 :=
  (b - a).isLt

theorem add_offsetFrom : a + BitVec.ofNat 32 (offsetFrom a b) = b := by
  unfold offsetFrom
  rw [BitVec.ofNat_toNat, BitVec.setWidth_eq, BitVec.add_comm, BitVec.sub_add_cancel]

theorem offsetFrom_add {k : Nat} (hk : k < 2 ^ 32) : offsetFrom a (a + BitVec.ofNat 32 k) = k := by
  have ha := a.isLt
  unfold offsetFrom
  rw [BitVec.toNat_sub, BitVec.toNat_add, BitVec.toNat_ofNat, Nat.mod_eq_of_lt hk]
  omega

theorem eq_add_iff {k : Nat} (hk : k < 2 ^ 32) : b = a + BitVec.ofNat 32 k ↔ offsetFrom a b = k := by
  constructor
  . intro heq
    rw [heq]
    exact offsetFrom_add a hk
  . intro heq
    rw [← heq]
    exact (add_offsetFrom a b).symm

/--
An area within an area.
-/
theorem offsetFrom_add_lt_iff {k n : Nat} (hfits : k + n ≤ 2 ^ 32)
    : offsetFrom (a + BitVec.ofNat 32 k) b < n ↔ k ≤ offsetFrom a b ∧ offsetFrom a b < k + n := by
  have ha := a.isLt
  have hb := b.isLt
  unfold offsetFrom
  by_cases hn : n = 0
  . omega
  . rw [BitVec.toNat_sub, BitVec.toNat_sub, BitVec.toNat_add, BitVec.toNat_ofNat,
      Nat.mod_eq_of_lt (show k < 2 ^ 32 by omega)]
    omega

theorem offsetFrom_add_eq {k : Nat} (hle : k ≤ offsetFrom a b)
    : offsetFrom (a + BitVec.ofNat 32 k) b = offsetFrom a b - k := by
  have ha := a.isLt
  have hb := b.isLt
  have hlt := offsetFrom_lt a b
  unfold offsetFrom at *
  rw [BitVec.toNat_sub] at hle hlt ⊢
  rw [BitVec.toNat_add, BitVec.toNat_ofNat, Nat.mod_eq_of_lt (show k < 2 ^ 32 by omega), BitVec.toNat_sub]
  omega

end OffsetFrom

/--
The areas have no byte in common.
-/
def Apart (a : BitVec 32) (n : Nat) (b : BitVec 32) (k : Nat) : Prop :=
  ∀ c, offsetFrom a c < n → ¬offsetFrom b c < k

/--
`written` is not read by any program.
-/
structure LoggedMem where
  byte : BitVec 32 → BitVec 8
  written : List (BitVec 32)

namespace LoggedMem

def store8 (m : LoggedMem) (a : BitVec 32) (value : BitVec 8) : LoggedMem where
  byte := Function.update m.byte a value
  written := a :: m.written

def load32 (m : LoggedMem) (a : BitVec 32) : BitVec 32 :=
  m.byte (a + 3) ++ m.byte (a + 2) ++ m.byte (a + 1) ++ m.byte a

def store32 (m : LoggedMem) (a w : BitVec 32) : LoggedMem where
  byte b :=
    if offsetFrom a b < 4 then
      w.extractLsb' (8 * offsetFrom a b) 8
    else
      m.byte b
  written := a :: (a + 1) :: (a + 2) :: (a + 3) :: m.written

variable {m m' : LoggedMem}

theorem byte_store8 (m : LoggedMem) (a b : BitVec 32) (value : BitVec 8)
    : (m.store8 a value).byte b = if b = a then value else m.byte b := by
  unfold store8
  dsimp only
  split
  . next heq => rw [heq, Function.update_self]
  . next hne => rw [Function.update_of_ne hne]

theorem mem_written_store8 (m : LoggedMem) (a b : BitVec 32) (value : BitVec 8)
    : b ∈ (m.store8 a value).written ↔ b = a ∨ b ∈ m.written :=
  List.mem_cons

theorem load32_congr (a : BitVec 32) (h : ∀ b, offsetFrom a b < 4 → m'.byte b = m.byte b)
    : load32 m' a = load32 m a := by
  have hbyte : ∀ k, k < 4 → m'.byte (a + BitVec.ofNat 32 k) = m.byte (a + BitVec.ofNat 32 k) := by
    intro k hk
    apply h
    rw [offsetFrom_add a (by omega)]
    exact hk
  have h0 := hbyte 0 (by decide)
  rw [BitVec.add_zero] at h0
  unfold load32
  rw [h0]
  rw [show m'.byte (a + 1) = _ from hbyte 1 (by decide), show m'.byte (a + 2) = _ from hbyte 2 (by decide),
    show m'.byte (a + 3) = _ from hbyte 3 (by decide)]
  rfl

theorem load32_store32_self (m : LoggedMem) (a w : BitVec 32) : load32 (store32 m a w) a = w := by
  have hbyte : ∀ k, k < 4 → (store32 m a w).byte (a + BitVec.ofNat 32 k) = w.extractLsb' (8 * k) 8 := by
    intro k hk
    unfold store32
    dsimp only
    rw [offsetFrom_add a (by omega), if_pos hk]
  have h0 := hbyte 0 (by decide)
  rw [BitVec.add_zero] at h0
  unfold load32
  rw [h0]
  rw [show (store32 m a w).byte (a + 1) = _ from hbyte 1 (by decide),
    show (store32 m a w).byte (a + 2) = _ from hbyte 2 (by decide),
    show (store32 m a w).byte (a + 3) = _ from hbyte 3 (by decide)]
  exact ByteMem.append_bytes w

/--
Two words of an area that do not overlap.
-/
theorem load32_store32_of_apart (base w : BitVec 32) {i j : Nat} (hi : i + 4 ≤ 2 ^ 32) (hj : j + 4 ≤ 2 ^ 32)
    (h : i + 4 ≤ j ∨ j + 4 ≤ i)
    : load32 (store32 m (base + BitVec.ofNat 32 i) w) (base + BitVec.ofNat 32 j)
        =
      load32 m (base + BitVec.ofNat 32 j) := by
  apply load32_congr
  intro b hb
  rw [offsetFrom_add_lt_iff base b hj] at hb
  unfold store32
  dsimp only
  rw [if_neg]
  rw [offsetFrom_add_lt_iff base b hi]
  omega

theorem mem_written_store32 (a w b : BitVec 32)
    : b ∈ (store32 m a w).written ↔ offsetFrom a b < 4 ∨ b ∈ m.written := by
  have hoffset := fun k hk => @eq_add_iff a b k hk
  have h0 := hoffset 0 (by decide)
  rw [BitVec.add_zero] at h0
  unfold store32
  simp only [List.mem_cons]
  rw [h0]
  rw [show b = a + 1 ↔ _ from hoffset 1 (by decide), show b = a + 2 ↔ _ from hoffset 2 (by decide),
    show b = a + 3 ↔ _ from hoffset 3 (by decide)]
  have hlt : offsetFrom a b < 4 ↔ offsetFrom a b = 0 ∨ offsetFrom a b = 1 ∨ offsetFrom a b = 2
    ∨ offsetFrom a b = 3 := by
    omega
  rw [hlt, or_assoc, or_assoc, or_assoc]

/--
The two memories agree on all bytes that are not in this area.
-/
def SameOutside (m m' : LoggedMem) (a : BitVec 32) (n : Nat) : Prop :=
  ∀ b, ¬offsetFrom a b < n → m'.byte b = m.byte b

section SameOutside

variable {a b : BitVec 32} {n k : Nat}

theorem SameOutside.mono (h : SameOutside m m' a n) (hle : n ≤ k) : SameOutside m m' a k :=
  fun c hc => h c (fun hlt => hc (Nat.lt_of_lt_of_le hlt hle))

theorem SameOutside.trans {m'' : LoggedMem} (h : SameOutside m m' a n) (h' : SameOutside m' m'' a n)
    : SameOutside m m'' a n :=
  fun c hc => (h' c hc).trans (h c hc)

theorem SameOutside.widen (h : SameOutside m m' a n) (hin : ∀ c, offsetFrom a c < n → offsetFrom b c < k)
    : SameOutside m m' b k :=
  fun c hc => h c (fun hlt => hc (hin c hlt))

theorem sameOutside_store32 (m : LoggedMem) (a w : BitVec 32) : SameOutside m (m.store32 a w) a 4 := by
  intro c hc
  unfold store32
  dsimp only
  rw [if_neg hc]

/--
What is read from an area apart from the one that was written.
-/
theorem SameOutside.byte_eq (h : SameOutside m m' a n) (hapart : Apart b k a n) {i : Nat} (hi : i < k)
    (hk : k ≤ 2 ^ 32)
    : m'.byte (b + BitVec.ofNat 32 i) = m.byte (b + BitVec.ofNat 32 i) := by
  apply h
  apply hapart
  rw [offsetFrom_add b (by omega)]
  exact hi

theorem SameOutside.load32_eq (h : SameOutside m m' a n) (hapart : Apart b k a n) {i : Nat}
    (hi : i + 4 ≤ k) (hk : k ≤ 2 ^ 32)
    : load32 m' (b + BitVec.ofNat 32 i) = load32 m (b + BitVec.ofNat 32 i) := by
  apply load32_congr
  intro c hc
  apply h
  apply hapart
  rw [offsetFrom_add_lt_iff b c (by omega)] at hc
  omega

end SameOutside

section Inside

/--
Only bytes of this area were written.
-/
def Inside (m : LoggedMem) (a : BitVec 32) (n : Nat) : Prop :=
  ∀ b, b ∈ m.written → offsetFrom a b < n

variable {a : BitVec 32} {n k : Nat}

theorem inside_unwritten (byte : BitVec 32 → BitVec 8) (a : BitVec 32) (n : Nat) : Inside ⟨byte, []⟩ a n :=
  fun _ hb => absurd hb List.not_mem_nil

theorem Inside.store8 (h : m.Inside a n) (value : BitVec 8) (hk : k < n) (hn : n ≤ 2 ^ 32)
    : (m.store8 (a + BitVec.ofNat 32 k) value).Inside a n := by
  intro b hb
  cases List.mem_cons.mp hb with
  | inl hnew =>
    rw [hnew, offsetFrom_add a (by omega)]
    exact hk
  | inr hold => exact h b hold

theorem Inside.store32 (h : m.Inside a n) (w : BitVec 32) (hk : k + 4 ≤ n) (hn : n ≤ 2 ^ 32)
    : (m.store32 (a + BitVec.ofNat 32 k) w).Inside a n := by
  intro b hb
  rw [mem_written_store32] at hb
  cases hb with
  | inl hnew =>
    rw [offsetFrom_add_lt_iff a b (by omega)] at hnew
    omega
  | inr hold => exact h b hold

theorem Inside.fold {count : Nat} {body : (i : Nat) → i < count → LoggedMem → LoggedMem} (h : m.Inside a n)
    (hbody : ∀ i hi (m : LoggedMem), m.Inside a n → (body i hi m).Inside a n)
    : (Nat.fold count body m).Inside a n := by
  induction count with
  | zero => exact h
  | succ count ih =>
    rw [Nat.fold]
    apply hbody
    apply ih
    intro i hi
    exact hbody i (Nat.lt_succ_of_lt hi)

end Inside

section Loops

variable (m : LoggedMem) (a : BitVec 32)

/--
A loop that writes one byte after the other.
-/
theorem byte_fold_store8 (value : Nat → BitVec 8) {n : Nat} (hn : n ≤ 2 ^ 32) (b : BitVec 32)
    : (Nat.fold n (fun i _ m => m.store8 (a + BitVec.ofNat 32 i) (value i)) m).byte b
        =
      if offsetFrom a b < n then value (offsetFrom a b) else m.byte b := by
  induction n with
  | zero =>
    rw [if_neg (Nat.not_lt_zero _)]
    rfl
  | succ n ih =>
    rw [Nat.fold, byte_store8, if_congr (eq_add_iff a b (show n < 2 ^ 32 by omega)) rfl rfl, ih (by omega)]
    by_cases hlast : offsetFrom a b = n
    . rw [if_pos hlast, hlast, if_pos (Nat.lt_succ_self n)]
    . rw [if_neg hlast]
      apply if_congr
      . omega
      . rfl
      . rfl

theorem mem_written_fold_store8 (value : Nat → LoggedMem → BitVec 8) {n : Nat} (hn : n ≤ 2 ^ 32) (b : BitVec 32)
    : b ∈ (Nat.fold n (fun i _ m => m.store8 (a + BitVec.ofNat 32 i) (value i m)) m).written
        ↔
      offsetFrom a b < n ∨ b ∈ m.written := by
  induction n with
  | zero => exact ⟨Or.inr, fun hor => hor.resolve_left (Nat.not_lt_zero _)⟩
  | succ n ih =>
    have hlt : offsetFrom a b < n + 1 ↔ offsetFrom a b = n ∨ offsetFrom a b < n := by omega
    rw [Nat.fold, mem_written_store8, eq_add_iff a b (by omega), ih (by omega), hlt, or_assoc]

/--
A loop that copies one byte after the other to an area apart from the one that it reads.
-/
theorem byte_fold_copy (src : BitVec 32) {n : Nat} (hn : n ≤ 2 ^ 32) (hapart : Apart src n a n) (b : BitVec 32)
    : (Nat.fold n (fun i _ m => m.store8 (a + BitVec.ofNat 32 i) (m.byte (src + BitVec.ofNat 32 i))) m).byte b
        =
      if offsetFrom a b < n then m.byte (src + BitVec.ofNat 32 (offsetFrom a b)) else m.byte b := by
  have hfixed : ∀ k, k ≤ n →
      Nat.fold k (fun i _ m => m.store8 (a + BitVec.ofNat 32 i) (m.byte (src + BitVec.ofNat 32 i))) m
        = Nat.fold k (fun i _ m' => m'.store8 (a + BitVec.ofNat 32 i) (m.byte (src + BitVec.ofNat 32 i))) m := by
    intro k hk
    induction k with
    | zero => rfl
    | succ k ih =>
      have hsrc := hapart (src + BitVec.ofNat 32 k) (by rw [offsetFrom_add src (by omega)]; omega)
      rw [Nat.fold, Nat.fold, ih (by omega), byte_fold_store8 m a _ (by omega), if_neg (by omega)]
  rw [hfixed n (Nat.le_refl n)]
  exact byte_fold_store8 m a _ hn b

/--
A loop that writes one word after the other.
-/
theorem load32_fold_store32 (start : Nat) (value : Nat → BitVec 32) {n k : Nat} (hn : 4 * (start + n) ≤ 2 ^ 32)
    (hk : 4 * (k + 1) ≤ 2 ^ 32)
    : load32 (Nat.fold n (fun i _ m => m.store32 (a + BitVec.ofNat 32 (4 * (start + i))) (value i)) m)
        (a + BitVec.ofNat 32 (4 * k))
        =
      if start ≤ k ∧ k < start + n then value (k - start) else load32 m (a + BitVec.ofNat 32 (4 * k)) := by
  induction n with
  | zero =>
    rw [if_neg (by omega)]
    rfl
  | succ n ih =>
    rw [Nat.fold]
    by_cases hlast : k = start + n
    . subst hlast
      rw [load32_store32_self, if_pos (by omega), Nat.add_sub_cancel_left]
    . rw [load32_store32_of_apart a _ (by omega) (by omega) (by omega), ih (by omega)]
      apply if_congr
      . omega
      . rfl
      . rfl

end Loops

end LoggedMem
