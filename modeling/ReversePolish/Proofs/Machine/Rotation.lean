import Mathlib
import ReversePolish.Proofs.Machine.Active
/-!
# Rotations of the top slots

Rotating the `n` top slots up by `a` turns them by `a`, and rotating them down turns them by `-a`.
Turns are an action of the integers: one after the other they add up, and a turn by a multiple of
`n` is none at all (`turned_turned`, `turned_of_dvd`). So whatever holds of a sequence of rotations
is arithmetic on their amounts, and what a single one does to the slots is said by `Turns`.
-/

namespace ReversePolish

/-! ## Integers acting on a list -/

section

variable {α : Type} {l : List α} {k : ℤ} {a i : ℕ}

/-- A list rotated to the left by `k` places, or to the right if `k` is negative. -/
def rotateBy (l : List α) (k : ℤ) : List α := l.rotate (k % l.length).toNat

@[simp] theorem length_rotateBy (l : List α) (k : ℤ) : (rotateBy l k).length = l.length :=
  List.length_rotate ..

theorem rotateBy_perm (l : List α) (k : ℤ) : (rotateBy l k).Perm l := List.rotate_perm ..

theorem natCast_toNat_emod {n : ℕ} (hn : n ≠ 0) (k : ℤ) : ((k % n).toNat : ℤ) = k % n :=
  Int.toNat_of_nonneg (Int.emod_nonneg k (mod_cast hn))

/-- Only the residue of an amount counts. -/
theorem rotate_eq_rotateBy (h : (a : ℤ) ≡ k [ZMOD l.length]) : l.rotate a = rotateBy l k := by
  by_cases hl : l = []
  · subst hl
    simp [rotateBy]
  · have hlength : l.length ≠ 0 := by simpa using hl
    have hmod : a ≡ (k % l.length).toNat [MOD l.length] := by
      rw [← Int.natCast_modEq_iff, natCast_toNat_emod hlength]
      exact h.trans (Int.mod_modEq ..).symm
    rw [rotateBy, ← List.rotate_mod, hmod, List.rotate_mod]

/-- **Rotations add up.** -/
theorem rotateBy_rotateBy (l : List α) (k m : ℤ) :
    rotateBy (rotateBy l k) m = rotateBy l (k + m) := by
  by_cases hl : l = []
  · subst hl
    simp [rotateBy]
  · have hlength : l.length ≠ 0 := by simpa using hl
    show (l.rotate _).rotate _ = _
    rw [List.rotate_rotate, length_rotateBy]
    apply rotate_eq_rotateBy
    push_cast [natCast_toNat_emod hlength]
    exact (Int.mod_modEq ..).add (Int.mod_modEq ..)

theorem rotateBy_of_dvd (h : (l.length : ℤ) ∣ k) : rotateBy l k = l := by
  rw [rotateBy, Int.emod_eq_zero_of_dvd h]
  exact List.rotate_zero l

/-- The complement of an amount turns the other way. -/
theorem natCast_complement {n : ℕ} (hn : n ≠ 0) (a : ℕ) : ((n - a % n : ℕ) : ℤ) ≡ -a [ZMOD n] := by
  have hle : a % n ≤ n := (Nat.mod_lt a (Nat.pos_of_ne_zero hn)).le
  have hself : (n : ℤ) ≡ 0 [ZMOD n] := Int.modEq_zero_iff_dvd.2 dvd_rfl
  push_cast [hle]
  simpa using hself.sub (Int.mod_modEq (a : ℤ) n)

theorem rotate_complement (l : List α) (a : ℕ) :
    l.rotate (l.length - a % l.length) = rotateBy l (-a) := by
  by_cases hl : l = []
  · subst hl
    simp [rotateBy]
  · exact rotate_eq_rotateBy (natCast_complement (by simpa using hl) a)

theorem rotate_of_length_le_one (h : l.length ≤ 1) (a : ℕ) : l.rotate a = l := by
  match l, h with
  | [], _ => exact List.rotate_nil a
  | [x], _ => exact List.rotate_singleton x a

theorem rotateLeft_eq_rotateBy (l : List α) (a : ℕ) : l.rotateLeft a = rotateBy l a := by
  rw [← rotate_eq_rotateBy (.refl _)]
  simp only [List.rotateLeft]
  split
  · next h => exact (rotate_of_length_le_one h a).symm
  · exact List.rotate_eq_drop_append_take_mod.symm

theorem rotateRight_eq_rotateBy (l : List α) (a : ℕ) : l.rotateRight a = rotateBy l (-a) := by
  rw [← rotate_complement]
  simp only [List.rotateRight]
  split
  · next h => exact (rotate_of_length_le_one h _).symm
  · exact (List.rotate_eq_drop_append_take (Nat.sub_le ..)).symm

/-- Seen from the other end, a list rotates the other way. -/
theorem reverse_rotateBy (l : List α) (k : ℤ) : (rotateBy l k).reverse = rotateBy l.reverse (-k) := by
  by_cases hl : l = []
  · subst hl
    simp [rotateBy]
  · have hlength : l.length ≠ 0 := by simpa using hl
    rw [rotateBy, List.reverse_rotate]
    apply rotate_eq_rotateBy
    rw [List.length_reverse]
    refine (natCast_complement hlength _).trans ?_
    rw [natCast_toNat_emod hlength]
    exact (Int.mod_modEq k _).neg

/-- What was at the place `i` has come to the place of `i - k`. -/
theorem getElem?_rotateBy (hi : i < l.length) (k : ℤ) :
    (rotateBy l k)[((i - k) % l.length).toNat]? = l[i]? := by
  have hlength : l.length ≠ 0 := by omega
  have hplace := natCast_toNat_emod hlength (i - k)
  have hlt : ((i - k) % l.length).toNat < l.length := by
    have := Int.emod_lt_of_pos (i - k : ℤ) (show (0 : ℤ) < l.length by omega)
    omega
  have hback : (((i - k) % l.length).toNat + (k % l.length).toNat) % l.length = i := by
    rw [← Int.natCast_inj]
    push_cast [natCast_toNat_emod hlength]
    rw [← Int.add_emod, sub_add_cancel, Int.emod_eq_of_lt (by omega) (by omega)]
  rw [rotateBy, List.getElem?_rotate hlt, hback]

end

/-! ## Turning the top slots -/

namespace Stack

variable {s : Stack} {n : ℕ} {k : ℤ}

/-- The `n` top slots, the lowest one first. -/
def topmost (s : Stack) (n : ℕ) : List Slot := (s.active.take n).reverse

/-- The stack with each of its `n` top slots `k` places higher among them, or lower if `k` is
negative, and round from the one end to the other. -/
def turned (s : Stack) (n : ℕ) (k : ℤ) : Stack :=
  { s with active := rotateBy (s.active.take n) k ++ s.active.drop n }

theorem length_take (h : n ≤ s.size) : (s.active.take n).length = n := List.length_take_of_le h

theorem take_turned (h : n ≤ s.size) (k : ℤ) :
    (s.turned n k).active.take n = rotateBy (s.active.take n) k :=
  List.take_left' (by rw [length_rotateBy, length_take h])

theorem drop_turned (h : n ≤ s.size) (k : ℤ) :
    (s.turned n k).active.drop n = s.active.drop n :=
  List.drop_left' (by rw [length_rotateBy, length_take h])

@[simp] theorem size_turned (s : Stack) (n : ℕ) (k : ℤ) : (s.turned n k).size = s.size := by
  rw [size, turned, List.length_append, length_rotateBy, ← List.length_append,
    List.take_append_drop, size]

/-- **Turns add up.** -/
theorem turned_turned (h : n ≤ s.size) (k m : ℤ) :
    (s.turned n k).turned n m = s.turned n (k + m) := by
  rw [turned, take_turned h, drop_turned h, rotateBy_rotateBy]
  rfl

/-- Turning all the way round changes nothing. -/
theorem turned_of_dvd (h : n ≤ s.size) (hk : (n : ℤ) ∣ k) : s.turned n k = s := by
  rw [turned, rotateBy_of_dvd (by rwa [length_take h]), List.take_append_drop]

/-! ### What a turn does to the slots -/

/-- The stack `t` is `s` with its `n` top slots turned by `k`: they are the same slots, each as
often as before, and the one at the place `i`, counted from the lowest, has come to that of `i + k`.
Nothing else has changed. -/
structure Turns (s : Stack) (n : ℕ) (k : ℤ) (t : Stack) : Prop where
  perm : (t.topmost n).Perm (s.topmost n)
  place : ∀ i : ℕ, i < n → (t.topmost n)[((i + k) % n).toNat]? = (s.topmost n)[i]?
  below : t.active.drop n = s.active.drop n
  parked : t.parked = s.parked

theorem topmost_turned (h : n ≤ s.size) (k : ℤ) :
    (s.turned n k).topmost n = rotateBy (s.topmost n) (-k) := by
  rw [topmost, take_turned h, reverse_rotateBy]
  rfl

theorem turns_turned (h : n ≤ s.size) (k : ℤ) : s.Turns n k (s.turned n k) where
  perm := by
    rw [topmost_turned h]
    exact rotateBy_perm ..
  place i hi := by
    have hlength : (s.topmost n).length = n := by rw [topmost, List.length_reverse, length_take h]
    have hplace := getElem?_rotateBy (l := s.topmost n) (by rwa [hlength]) (-k)
    rw [hlength, sub_neg_eq_add] at hplace
    rw [topmost_turned h, hplace]
  below := drop_turned h k
  parked := rfl

/-! ## Sequences of turns -/

variable {f g : Stack → Except OperatorError Stack} {m : ℤ}

/-- A shuffle that turns the `n` top slots by `k` wherever there are so many. -/
def TurnsBy (f : Stack → Except OperatorError Stack) (n : ℕ) (k : ℤ) : Prop :=
  ∀ s : Stack, n ≤ s.size → f s = .ok (s.turned n k)

/-- A shuffle done again and again. -/
def times (f : Stack → Except OperatorError Stack) : ℕ → Stack → Except OperatorError Stack
  | 0, s => .ok s
  | count + 1, s => times f count s >>= f

theorem turnsBy_rotate (n a : ℕ) : TurnsBy (·.rotate n a) n a := by
  intro s h
  show s.rearrange n (·.rotateLeft a) = _
  rw [rearrange_eq h, rotateLeft_eq_rotateBy]
  rfl

theorem turnsBy_rotateDown (n a : ℕ) : TurnsBy (·.rotateDown n a) n (-a) := by
  intro s h
  show s.rearrange n (·.rotateRight a) = _
  rw [rearrange_eq h, rotateRight_eq_rotateBy]
  rfl

/-! The shuffles are rotations by one place: two or three slots, or as many as it is told. -/

theorem turnsBy_roll (n : ℕ) : TurnsBy (·.roll n) n 1 := turnsBy_rotate n 1

theorem turnsBy_rollDown (n : ℕ) : TurnsBy (·.rollDown n) n (-1) := turnsBy_rotateDown n 1

theorem turnsBy_rot : TurnsBy rot 3 (-1) := turnsBy_rollDown 3

theorem turnsBy_unrot : TurnsBy unrot 3 1 := turnsBy_roll 3

theorem turnsBy_swap : TurnsBy swap 2 1 := turnsBy_roll 2

namespace TurnsBy

theorem bind (hf : TurnsBy f n k) (hg : TurnsBy g n m) :
    TurnsBy (fun s => f s >>= g) n (k + m) := by
  intro s h
  show (f s >>= g) = _
  rw [hf s h, ← turned_turned h]
  exact hg _ (by rwa [size_turned])

theorem times (hf : TurnsBy f n k) (count : ℕ) : TurnsBy (times f count) n (count * k) := by
  induction count with
  | zero =>
    intro s h
    rw [turned_of_dvd h (by simp)]
    rfl
  | succ count ih =>
    rw [Nat.cast_succ, add_one_mul]
    exact ih.bind hf

/-- A shuffle that turns all the way round leaves the stack as it is. -/
theorem eq_self (hf : TurnsBy f n k) (hk : (n : ℤ) ∣ k) (h : n ≤ s.size) : f s = .ok s := by
  rw [hf s h, turned_of_dvd h hk]

end TurnsBy

/-- Rotating on is rotating by more, also where there are too few slots to rotate. -/
theorem rotate_bind_rotate (s : Stack) (n a b : ℕ) :
    (s.rotate n a >>= (·.rotate n b)) = s.rotate n (a + b) := by
  by_cases h : n ≤ s.size
  · have hboth := (turnsBy_rotate n a).bind (turnsBy_rotate n b) s h
    rw [← Nat.cast_add] at hboth
    exact hboth.trans (turnsBy_rotate n (a + b) s h).symm
  · have hfails (a : ℕ) : s.rotate n a = .error .argumentCountMismatch :=
      rearrange_of_size_lt (not_le.1 h) _
    rw [hfails, hfails]
    rfl

end Stack

/-! ## The theorem -/

/-- **Rotations act on the top slots.** To rotate more slots than there are fails and changes
nothing. Otherwise a rotation by `a` turns the `n` top slots by `a`, or by `-a` if it goes down, for
every `n` and `a`: they change places, and all else stays. One rotation after another is the
rotation by the sum, rotating down undoes rotating up, and to roll `n` times is to do nothing. So
`rot` and `unrot` undo each other, and so do two `swap` or three `rot` in a row. -/
theorem rotations_act (s : Stack) (n a b : ℕ) :
    (s.size < n → ∀ machine : Machine, machine.stack = s →
      (Effect.onStack (·.rotate n a)).run machine
          = .error (.operator .argumentCountMismatch) machine ∧
        (Effect.onStack (·.rotateDown n a)).run machine
          = .error (.operator .argumentCountMismatch) machine) ∧
    (n ≤ s.size →
      (∃ t, s.rotate n a = .ok t ∧ s.Turns n a t) ∧
      (∃ t, s.rotateDown n a = .ok t ∧ s.Turns n (-a) t) ∧
      (s.rotate n a >>= (·.rotateDown n a)) = .ok s ∧
      Stack.times (·.roll n) n s = .ok s) ∧
    (s.rotate n a >>= (·.rotate n b)) = s.rotate n (a + b) ∧
    (2 ≤ s.size → Stack.times Stack.swap 2 s = .ok s) ∧
    (3 ≤ s.size → (s.rot >>= Stack.unrot) = .ok s ∧ (s.unrot >>= Stack.rot) = .ok s ∧
      Stack.times Stack.rot 3 s = .ok s) := by
  have hup := Stack.turnsBy_rotate
  have hdown := Stack.turnsBy_rotateDown
  refine ⟨?_, ?_, s.rotate_bind_rotate n a b, ?_, ?_⟩
  · rintro h machine rfl
    exact ⟨Effect.run_onStack_error (Stack.rearrange_of_size_lt h _),
      Effect.run_onStack_error (Stack.rearrange_of_size_lt h _)⟩
  · intro h
    refine ⟨⟨_, hup n a s h, Stack.turns_turned h _⟩, ⟨_, hdown n a s h, Stack.turns_turned h _⟩,
      ?_, ?_⟩
    · exact ((hup n a).bind (hdown n a)).eq_self (by simp) h
    · exact ((Stack.turnsBy_roll n).times n).eq_self (by simp) h
  · intro h
    exact (Stack.turnsBy_swap.times 2).eq_self (by simp) h
  · intro h
    refine ⟨?_, ?_, ?_⟩
    · exact (Stack.turnsBy_rot.bind Stack.turnsBy_unrot).eq_self (by simp) h
    · exact (Stack.turnsBy_unrot.bind Stack.turnsBy_rot).eq_self (by simp) h
    · exact (Stack.turnsBy_rot.times 3).eq_self (by simp) h

/-- Three slots, one of them a reference, turn by seven, which is one place up; of five there are
not enough. -/
theorem rotations_act_reference :
    let s : Stack := ⟨[.variable ⟨"x", 0⟩, .value (.integer 2), .value (.integer 1), .value .null],
      [[.variable ⟨"x", 0⟩]]⟩
    let t : Stack := ⟨[.value (.integer 2), .value (.integer 1), .variable ⟨"x", 0⟩, .value .null],
      [[.variable ⟨"x", 0⟩]]⟩
    let machine : Machine := { stack := s }
    3 ≤ s.size ∧ s.size < 5 ∧ s.rotate 3 7 = .ok t ∧ s.Turns 3 7 t ∧
      Stack.times (·.roll 3) 3 s = .ok s ∧ Stack.times Stack.swap 2 s = .ok s ∧
      (s.rot >>= Stack.unrot) = .ok s ∧ (s.rotate 0 4 >>= (·.rotateDown 0 4)) = .ok s ∧
      (Effect.onStack (·.rotate 5 1)).run machine
        = .error (.operator .argumentCountMismatch) machine := by
  intro s t machine
  have hthree : 3 ≤ s.size := by decide
  have hfive : s.size < 5 := by decide
  have hrotate : s.rotate 3 7 = .ok t := by decide
  obtain ⟨-, hturns, -, hswap, hrot⟩ := rotations_act s 3 7 5
  obtain ⟨⟨t', hrun, ht'⟩, -, -, hroll⟩ := hturns hthree
  obtain rfl : t = t' := Except.ok.inj (hrotate.symm.trans hrun)
  exact ⟨hthree, hfive, hrotate, ht', hroll, hswap (by decide), (hrot hthree).1,
    ((rotations_act s 0 4 0).2.1 (by decide)).2.2.1,
    ((rotations_act s 5 1 0).1 hfive machine rfl).1⟩

end ReversePolish
