import Chip8.Proofs.Effects

/-! # Results and flags as exact sums

A register holds no more than a byte, and the flag makes up for what does not fit.
`Arithmetic.Equation` says so for every arithmetic instruction: its result and its flag together are
the exact sum, difference, half or double of its operands. `Machine.execute_arithmetic` says that
the equation holds whichever registers the operands are in and whatever else uses them.
-/

namespace Chip8

/-- The equation between the operands of an arithmetic instruction, its result and its flag. Where
there is no flag there is nothing to make up for. -/
def Arithmetic.Equation (operation : Arithmetic) (vx vy source result flag : Nat) : Prop :=
  match operation with
  | .assign => result = vy
  | .or => result = vx ||| vy
  | .and => result = vx &&& vy
  | .xor => result = vx ^^^ vy
  | .add => 256 * flag + result = vx + vy
  | .sub => result + vy = vx + 256 * (1 - flag)
  | .shiftRight => 2 * result + flag = source
  | .subReverse => result + vx = vy + 256 * (1 - flag)
  | .shiftLeft => 256 * flag + result = 2 * source

private theorem carry_add (a b : UInt8) :
    256 * (decide (256 ≤ a.toNat + b.toNat)).toNat + (a + b).toNat = a.toNat + b.toNat := by
  have small := a.toNat_lt
  have smaller := b.toNat_lt
  rw [UInt8.toNat_add]
  by_cases carries : 256 ≤ a.toNat + b.toNat
  · rw [decide_eq_true carries, Bool.toNat_true]
    omega
  · rw [decide_eq_false carries, Bool.toNat_false]
    omega

/-- The flag of a difference is set when nothing is borrowed. -/
theorem sub_borrow (a b : UInt8) :
    (a - b).toNat + b.toNat = a.toNat + 256 * (1 - (decide (b ≤ a)).toNat) := by
  have small := a.toNat_lt
  have smaller := b.toNat_lt
  rw [UInt8.toNat_sub]
  by_cases fits : b ≤ a
  · have order : b.toNat ≤ a.toNat := UInt8.le_iff_toNat_le.mp fits
    rw [decide_eq_true fits, Bool.toNat_true]
    omega
  · have order : ¬ b.toNat ≤ a.toNat := fun le => fits (UInt8.le_iff_toNat_le.mpr le)
    rw [decide_eq_false fits, Bool.toNat_false]
    omega

private theorem shiftRight_bit (a : UInt8) :
    2 * (a >>> 1).toNat + (a.toNat.testBit 0).toNat = a.toNat := by
  have half : (a >>> 1).toNat = a.toNat / 2 := UInt8.toNat_shiftRight a 1
  rw [half, Nat.toNat_testBit]
  omega

private theorem bit_shiftLeft (a : UInt8) :
    256 * (a.toNat.testBit 7).toNat + (a <<< 1).toNat = 2 * a.toNat := by
  have small := a.toNat_lt
  have double : (a <<< 1).toNat = a.toNat <<< 1 % 256 := UInt8.toNat_shiftLeft a 1
  rw [double, Nat.shiftLeft_eq, Nat.toNat_testBit]
  omega

private theorem Arithmetic.equation_compute (operation : Arithmetic) (vx vy source : UInt8) :
    operation.Equation vx.toNat vy.toNat source.toNat
      (operation.compute vx vy source).1.toNat
      ((operation.compute vx vy source).2.getD false).toNat := by
  cases operation with
  | assign => rfl
  | or => exact UInt8.toNat_or vx vy
  | and => exact UInt8.toNat_and vx vy
  | xor => exact UInt8.toNat_xor vx vy
  | add => exact carry_add vx vy
  | sub => exact sub_borrow vx vy
  | shiftRight => exact shiftRight_bit source
  | subReverse => exact sub_borrow vy vx
  | shiftLeft => exact bit_shiftLeft source

namespace Machine

variable {machine : Machine} {operation : Arithmetic} {word : Word} {x y : Register}

/-- What an arithmetic instruction makes of the registers, with its operands taken before it. -/
structure Calculated (machine : Machine) (operation : Arithmetic) (x y : Register)
    (after : Machine) (result flag : Nat) : Prop where
  result_lt : result < 256
  flag_le : flag ≤ 1
  equation :
    let vx := (machine.register x).toNat
    let vy := (machine.register y).toNat
    operation.Equation vx vy (if machine.dialect.shiftInPlace then vx else vy) result flag
  /-- The flag stays also where it is written over the result. -/
  flagged : operation.isFlagged → (after.register flagRegister).toNat = flag
  stored : ¬ (operation.isFlagged ∧ x = flagRegister) → (after.register x).toNat = result
  /-- An operation without a flag writes the flag register as a result at most. -/
  others : ∀ r ≠ x, ¬ (operation.isFlagged ∧ r = flagRegister) →
    after.register r = machine.register r

private theorem calculated_performArithmetic (machine : Machine) (operation : Arithmetic)
    (x y : Register) :
    machine.Calculated operation x y (machine.performArithmetic operation x y)
      (machine.computed operation x y).1.toNat
      ((machine.computed operation x y).2.getD false).toNat where
  result_lt := UInt8.toNat_lt _
  flag_le := Bool.toNat_le _
  equation := by
    dsimp only
    rw [← apply_ite UInt8.toNat]
    exact operation.equation_compute ..
  flagged := by
    intro flagged
    rw [register_performArithmetic_eq, if_pos ⟨flagged, rfl⟩]
    cases (machine.computed operation x y).2.getD false <;> rfl
  stored := by
    intro unflagged
    rw [register_performArithmetic_eq, if_neg unflagged, if_pos rfl]
  others := by
    intro r other unflagged
    rw [register_performArithmetic_eq, if_neg unflagged, if_neg other]

/-- A difference takes back a sum, and there is a borrow if there was a carry. -/
theorem Calculated.cancel {sum difference : Machine} {total carry rest unborrowed : Nat}
    (added : machine.Calculated .add x y sum total carry)
    (subtracted : sum.Calculated .sub x y difference rest unborrowed)
    (apart : x ≠ y) (xUnflagged : x ≠ flagRegister) (yUnflagged : y ≠ flagRegister) :
    difference.register x = machine.register x ∧
      (difference.register flagRegister).toNat = 1 - (sum.register flagRegister).toNat := by
  have vx : (sum.register x).toNat = total := added.stored fun flag => xUnflagged flag.2
  have vy : sum.register y = machine.register y :=
    added.others y apart.symm fun flag => yUnflagged flag.2
  have sums : 256 * carry + total = (machine.register x).toNat + (machine.register y).toNat :=
    added.equation
  have differs : rest + (sum.register y).toNat = (sum.register x).toNat + 256 * (1 - unborrowed) :=
    subtracted.equation
  rw [vx, vy] at differs
  have small := (machine.register x).toNat_lt
  have restSmall := subtracted.result_lt
  have carryBit := added.flag_le
  have borrowBit := subtracted.flag_le
  constructor
  · apply UInt8.toNat_inj.mp
    rw [subtracted.stored fun flag => xUnflagged flag.2]
    omega
  · rw [subtracted.flagged rfl, added.flagged rfl]
    omega

private theorem execute_of_group_arithmetic (machine : Machine) (group : word.group = nibble 0x8)
    (selected : word.n = operation.selector) :
    (machine.execute word).result = .ok .quiet ∧
      (machine.execute word).machine = machine.performArithmetic operation word.x word.y := by
  have encodes : word.Encodes (.arithmetic operation word.x word.y) := ⟨group, selected, rfl, rfl⟩
  rw [machine.execute_of_encodes encodes]
  exact ⟨rfl, rfl⟩

private theorem exists_calculated (machine : Machine) (group : word.group = nibble 0x8)
    (selected : word.n = operation.selector) :
    ∃ result flag, machine.Calculated operation word.x word.y (machine.execute word).machine
      result flag := by
  rw [(machine.execute_of_group_arithmetic group selected).2]
  exact ⟨_, _, machine.calculated_performArithmetic operation word.x word.y⟩

private theorem execute_of_group_add (machine : Machine) (group : word.group = nibble 0x7) :
    (machine.execute word).result = .ok .quiet ∧
      (machine.execute word).machine =
        machine.setRegister word.x (machine.register word.x + word.nn) := by
  have encodes : word.Encodes (.add word.x word.nn) := ⟨group, rfl, rfl⟩
  rw [machine.execute_of_encodes encodes]
  exact ⟨rfl, rfl⟩

/-- Arithmetic on registers.

Whatever the dialect and whichever registers the operands are in, an instruction of group 8 takes
both operands first. Its result and its flag satisfy the equation of its operation; the flag is
written last, and no other register is written. An instruction of group 7 adds modulo 256 and
writes nothing but the sum.

So a difference undoes a sum of two registers that are neither the same nor the flag register, and
it borrows exactly if the sum did carry. -/
theorem execute_arithmetic (machine : Machine) :
    (∀ (operation : Arithmetic) (word : Word),
      word.group = nibble 0x8 → word.n = operation.selector →
      (machine.execute word).result = .ok .quiet ∧
        ∃ result flag, machine.Calculated operation word.x word.y (machine.execute word).machine
          result flag) ∧
    (∀ word : Word, word.group = nibble 0x7 →
      let after := (machine.execute word).machine
      (machine.execute word).result = .ok .quiet ∧
        (after.register word.x).toNat =
          ((machine.register word.x).toNat + word.nn.toNat) % 256 ∧
        ∀ r ≠ word.x, after.register r = machine.register r) ∧
    ∀ add sub : Word, add.group = nibble 0x8 → add.n = Arithmetic.add.selector →
      sub.group = nibble 0x8 → sub.n = Arithmetic.sub.selector →
      sub.x = add.x → sub.y = add.y →
      add.x ≠ add.y → add.x ≠ flagRegister → add.y ≠ flagRegister →
      let sum := (machine.execute add).machine
      let difference := (sum.execute sub).machine
      difference.register add.x = machine.register add.x ∧
        (difference.register flagRegister).toNat = 1 - (sum.register flagRegister).toNat := by
  refine ⟨?_, ?_, ?_⟩
  · intro operation word group selected
    exact ⟨(machine.execute_of_group_arithmetic group selected).1,
      machine.exists_calculated group selected⟩
  · intro word group after
    obtain ⟨result, left⟩ := machine.execute_of_group_add group
    refine ⟨result, ?_, ?_⟩
    · change ((machine.execute word).machine.register word.x).toNat = _
      rw [left, register_setRegister, if_pos rfl, UInt8.toNat_add]
    · intro r other
      change (machine.execute word).machine.register r = _
      rw [left, register_setRegister_of_ne other]
  · intro add sub addGroup adds subGroup subs sameX sameY apart x y sum difference
    obtain ⟨total, carry, added⟩ := machine.exists_calculated addGroup adds
    obtain ⟨rest, unborrowed, subtracted⟩ := sum.exists_calculated subGroup subs
    rw [sameX, sameY] at subtracted
    exact added.cancel subtracted apart x y

end Machine

end Chip8
