/-! # The keypad

Sixteen keys `0` to `F`, each up or down. A keypad is changed one key at a time or as a whole;
a whole snapshot of the wrong length covers what overlaps and releases the rest.
-/

namespace Chip8

/-- The number of one of the sixteen keys. -/
abbrev Key := Fin 16

/-- Which keys are down. -/
structure Keypad where
  keys : Vector Bool 16
deriving DecidableEq

namespace Keypad

/-- The number of keys. -/
def size : Nat := 16

/-- A keypad that nobody touches. -/
def released : Keypad := ⟨Vector.replicate 16 false⟩

/-- Presses or releases one key. A number past the last key changes nothing. -/
def set (keypad : Keypad) (key : Nat) (down : Bool) : Keypad :=
  ⟨keypad.keys.setIfInBounds key down⟩

/-- The keypad of a snapshot. Missing keys are up and surplus entries are dropped. -/
def ofList (keys : List Bool) : Keypad := ⟨Vector.ofFn fun key => keys.getD key.val false⟩

/-- Whether a key is down; there is no answer past the last key. -/
def isPressed? (keypad : Keypad) (key : Nat) : Option Bool := keypad.keys[key]?

/-- The lowest key that is down. -/
def firstPressed? (keypad : Keypad) : Option Key :=
  (List.finRange 16).find? fun key => keypad.keys.get key

/-- The keys in order. -/
def toList (keypad : Keypad) : List Bool := keypad.keys.toList

theorem isPressed?_set (keypad : Keypad) (key other : Nat) (down : Bool) :
    (keypad.set key down).isPressed? other =
      if key = other ∧ other < 16 then some down else keypad.isPressed? other := by
  unfold isPressed? set
  rw [Vector.getElem?_setIfInBounds]
  by_cases same : key = other
  · by_cases inside : other < 16 <;> simp [same, inside]
  · simp [same]

theorem isPressed?_ofList (keys : List Bool) (key : Nat) :
    (ofList keys).isPressed? key = if key < 16 then some (keys[key]?.getD false) else none := by
  unfold isPressed? ofList
  by_cases inside : key < 16 <;> simp [inside, List.getD_eq_getElem?_getD]

theorem firstPressed?_eq_none_iff (keypad : Keypad) :
    keypad.firstPressed? = none ↔ ∀ key : Key, keypad.keys.get key = false := by
  simp [firstPressed?, List.find?_eq_none]

theorem firstPressed?_eq_some_iff (keypad : Keypad) (key : Key) :
    keypad.firstPressed? = some key ↔
      keypad.keys.get key = true ∧ ∀ lower < key, keypad.keys.get lower = false := by
  unfold firstPressed?
  rw [List.find?_eq_some_iff_getElem]
  constructor
  · rintro ⟨down, i, inside, here, below⟩
    rw [List.getElem_finRange] at here
    subst here
    refine ⟨down, ?_⟩
    intro lower earlier
    have up := below lower.val earlier
    simpa using up
  · rintro ⟨down, below⟩
    refine ⟨down, key.val, by simp, by simp, ?_⟩
    intro j earlier
    simp [below ⟨j, by omega⟩ earlier]

end Keypad

end Chip8
