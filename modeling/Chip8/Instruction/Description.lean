import Chip8.Instruction

/-! # Descriptions of instructions

The notation used in the event log: the group that an instruction belongs to, its kind, and its
operands by name in decimal.
-/

namespace Chip8

/-- The name of an operation in a description. -/
def Arithmetic.name : Arithmetic → String
  | .assign => "Assign"
  | .or => "Or"
  | .and => "And"
  | .xor => "Xor"
  | .add => "Add"
  | .sub => "Sub"
  | .shiftRight => "ShiftRight"
  | .subReverse => "SubReverse"
  | .shiftLeft => "ShiftLeft"

namespace Instruction

/-- A kind with its named operands: `Kind { a: 1, b: 2 }`. -/
def record (kind : String) (operands : List (String × String)) : String :=
  kind ++ " \x7b " ++ ", ".intercalate (operands.map fun (name, value) => name ++ ": " ++ value)
    ++ " \x7d"

/-- An instruction of group F on one register. -/
def describeMisc (name : String) (x : Register) : String :=
  "F(" ++ record "Misc" [("ops", name), ("x", toString x.val)] ++ ")"

/-- The description of an instruction. -/
def describe : Instruction → String
  | .clear => "Zero(Clear)"
  | .ret => "Zero(Return)"
  | .jump target => "One(" ++ record "Jump" [("nnn", toString target.toNat)] ++ ")"
  | .call target => "Two(" ++ record "Call" [("nnn", toString target.toNat)] ++ ")"
  | .skipEqual x value =>
    "Three(" ++ record "SkipEqualConst" [("x", toString x.val), ("nn", toString value.toNat)] ++ ")"
  | .skipNotEqual x value =>
    "Four(" ++ record "SkipNotEqualConst" [("x", toString x.val), ("nn", toString value.toNat)]
      ++ ")"
  | .skipSame x y =>
    "Five(" ++ record "SkipEqualRegister" [("x", toString x.val), ("y", toString y.val)] ++ ")"
  | .set x value =>
    "Six(" ++ record "SetConst" [("x", toString x.val), ("nn", toString value.toNat)] ++ ")"
  | .add x value =>
    "Seven(" ++ record "AddConst" [("x", toString x.val), ("nn", toString value.toNat)] ++ ")"
  | .arithmetic operation x y =>
    "Eight(" ++ record "Arithmetic"
      [("ops", operation.name), ("x", toString x.val), ("y", toString y.val)] ++ ")"
  | .skipDifferent x y =>
    "Nine(" ++ record "SkipNotEqualRegister" [("x", toString x.val), ("y", toString y.val)] ++ ")"
  | .setIndex target => "A(" ++ record "SetIndex" [("nnn", toString target.toNat)] ++ ")"
  | .jumpOffset x target =>
    "B(" ++ record "JumpOffset" [("x", toString x.val), ("nnn", toString target.toNat)] ++ ")"
  | .random x mask =>
    "C(" ++ record "Random" [("x", toString x.val), ("nn", toString mask.toNat)] ++ ")"
  | .draw x y height =>
    "D(" ++ record "Draw"
      [("x", toString x.val), ("y", toString y.val), ("n", toString height.val)] ++ ")"
  | .skipPressed x => "E(" ++ record "Key" [("ops", "Pressed"), ("x", toString x.val)] ++ ")"
  | .skipReleased x => "E(" ++ record "Key" [("ops", "NotPressed"), ("x", toString x.val)] ++ ")"
  | .readDelay x => describeMisc "GetDelayTimer" x
  | .awaitKey x => describeMisc "AwaitKeyPress" x
  | .setDelay x => describeMisc "SetDelayTimer" x
  | .setSound x => describeMisc "SetSoundTimer" x
  | .addIndex x => describeMisc "AddVxToI" x
  | .glyph x => describeMisc "SetIToSprite" x
  | .decimal x => describeMisc "StoreBCD" x
  | .store x => describeMisc "StoreV0ToVx" x
  | .fill x => describeMisc "FillV0ToVx" x

end Instruction

end Chip8
