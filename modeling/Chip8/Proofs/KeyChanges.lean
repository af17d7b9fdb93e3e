import Mathlib.Data.List.Induction
import Chip8.Keypad

/-! # Single keys and snapshots

A keypad is changed key by key or by snapshots of any length. `Keypad.last_change_decides` says how
the two go together: each key is as the last change says that has something to say about it, and a
snapshot is no more than a release of all keys and then its entries, set one by one.
-/

namespace Chip8.Keypad

/-- A change of a keypad. -/
inductive Change where
  | set (key : Nat) (down : Bool)
  /-- Takes over a snapshot. -/
  | replace (keys : List Bool)

/-- What a change says about a key, if it has something to say. -/
def Change.says? : Change → Nat → Option Bool
  | .set changed down, key => if changed = key then some down else none
  | .replace keys, key => some (keys[key]?.getD false)

/-- The keypad after one change. -/
def change (keypad : Keypad) : Change → Keypad
  | .set key down => keypad.set key down
  | .replace keys => ofList keys

/-- The keypad after some changes. -/
def afterChanges (keypad : Keypad) (changes : List Change) : Keypad := changes.foldl change keypad

/-- What the last change says that has something to say about a key. -/
def lastSaid? (changes : List Change) (key : Nat) : Option Bool :=
  changes.reverse.findSome? (·.says? key)

variable {keypad other : Keypad} {key : Nat}

private theorem lastSaid?_append (earlier later : List Change) (key : Nat) :
    lastSaid? (earlier ++ later) key = (lastSaid? later key).or (lastSaid? earlier key) := by
  rw [lastSaid?, List.reverse_append, List.findSome?_append]
  rfl

private theorem lastSaid?_singleton (change : Change) (key : Nat) :
    lastSaid? [change] key = change.says? key :=
  List.findSome?_singleton

private theorem isPressed?_eq_none_iff (keypad : Keypad) (key : Nat) :
    keypad.isPressed? key = none ↔ 16 ≤ key := by
  simp [isPressed?]

private theorem isPressed?_eq_get (keypad : Keypad) (key : Key) :
    keypad.isPressed? key = some (keypad.keys.get key) :=
  Vector.getElem?_eq_getElem key.isLt

/-- There is no more to a keypad than its keys. -/
theorem eq_of_isPressed?_eq (same : ∀ key < 16, keypad.isPressed? key = other.isPressed? key) :
    keypad = other := by
  have keys : keypad.keys = other.keys := by
    ext key inside
    have here := same key inside
    unfold isPressed? at here
    rw [Vector.getElem?_eq_getElem inside, Vector.getElem?_eq_getElem inside] at here
    exact Option.some.inj here
  exact congrArg Keypad.mk keys

private theorem isPressed?_released (inside : key < 16) : released.isPressed? key = some false := by
  unfold isPressed? released
  rw [Vector.getElem?_eq_getElem inside, Vector.getElem_replicate]

private theorem isPressed?_change (keypad : Keypad) (change : Change) (inside : key < 16) :
    (keypad.change change).isPressed? key = (change.says? key).or (keypad.isPressed? key) := by
  cases change with
  | set changed down =>
    change (keypad.set changed down).isPressed? key = _
    rw [isPressed?_set, Change.says?]
    by_cases same : changed = key <;> simp [same, inside]
  | replace keys =>
    change (ofList keys).isPressed? key = _
    rw [isPressed?_ofList, if_pos inside]
    rfl

private theorem isPressed?_afterChanges (keypad : Keypad) (changes : List Change)
    (inside : key < 16) :
    (keypad.afterChanges changes).isPressed? key =
      (lastSaid? changes key).or (keypad.isPressed? key) := by
  induction changes using List.reverseRecOn with
  | nil => rfl
  | append_singleton changes last ih =>
    rw [afterChanges, List.foldl_append, ← afterChanges, lastSaid?_append, lastSaid?_singleton,
      Option.or_assoc, ← ih]
    exact isPressed?_change _ last inside

private theorem set_of_outside (down : Bool) (outside : 16 ≤ key) :
    keypad.set key down = keypad := by
  apply eq_of_isPressed?_eq
  intro other inside
  rw [isPressed?_set, if_neg (by omega)]

private theorem ofList_take (keys : List Bool) : ofList (keys.take 16) = ofList keys := by
  apply eq_of_isPressed?_eq
  intro key inside
  rw [isPressed?_ofList, isPressed?_ofList, List.getElem?_take_of_lt inside]

/-- Keys that are set to values of their own may be set in any order. -/
theorem lastSaid?_map_set (value : Nat → Bool) (order : List Nat) (key : Nat) :
    lastSaid? (order.map fun key => .set key (value key)) key =
      if key ∈ order then some (value key) else none := by
  induction order using List.reverseRecOn with
  | nil => rfl
  | append_singleton order last ih =>
    rw [List.map_append, lastSaid?_append, ih, List.map_singleton, lastSaid?_singleton,
      Change.says?]
    by_cases same : last = key
    · simp [same]
    · simp [same, Ne.symm same]

/-- A snapshot is a release of all keys and the keys of the snapshot, each in any order. -/
theorem change_replace_eq (keypad : Keypad) (keys : List Bool) {releases order : List Nat}
    (all : releases.Perm (List.range 16)) (each : order.Perm (List.range keys.length)) :
    keypad.change (.replace keys) = keypad.afterChanges
      (releases.map (.set · false) ++ order.map fun key => .set key (keys.getD key false)) := by
  apply eq_of_isPressed?_eq
  intro key inside
  have released : key ∈ releases := all.mem_iff.mpr (List.mem_range.mpr inside)
  have listed : key ∈ order ↔ key < keys.length := each.mem_iff.trans List.mem_range
  rw [isPressed?_change _ _ inside, isPressed?_afterChanges _ _ inside, lastSaid?_append,
    lastSaid?_map_set, lastSaid?_map_set fun _ => false, if_pos released, Change.says?,
    List.getD_eq_getElem?_getD]
  by_cases present : key < keys.length
  · rw [if_pos (listed.mpr present)]
    rfl
  · rw [if_neg (listed.not.mpr present), List.getElem?_eq_none (Nat.le_of_not_lt present)]
    rfl

/-- A keypad after any changes, at first with all keys up.

There are sixteen keys, and each is as the last change says that is about it, and up before that. A
key past the last one has no state, and setting it changes nothing; entries of a snapshot past the
last key do not count. The first key that is down is the lowest one, and there is none exactly if
all are up. A snapshot is as good as releasing all keys and then setting the keys that it lists,
whatever the order. -/
theorem last_change_decides (changes : List Change) :
    let keypad := released.afterChanges changes
    keypad.toList.length = 16 ∧
    (∀ key : Key, keypad.isPressed? key = some ((lastSaid? changes key).getD false)) ∧
    (∀ key : Nat, keypad.isPressed? key = none ↔ 16 ≤ key) ∧
    (∀ (key : Nat) (down : Bool), 16 ≤ key → keypad.set key down = keypad) ∧
    (∀ keys : List Bool, ofList (keys.take 16) = ofList keys) ∧
    (∀ key : Key, keypad.firstPressed? = some key ↔ keypad.isPressed? key = some true ∧
      ∀ lower < key, keypad.isPressed? lower = some false) ∧
    (keypad.firstPressed? = none ↔ ∀ key : Key, keypad.isPressed? key = some false) ∧
    ∀ (keys : List Bool) (releases order : List Nat), releases.Perm (List.range 16) →
      order.Perm (List.range keys.length) →
        keypad.change (.replace keys) = keypad.afterChanges
          (releases.map (.set · false) ++ order.map fun key => .set key (keys.getD key false)) := by
  intro keypad
  refine ⟨Vector.length_toList, ?_, keypad.isPressed?_eq_none_iff,
    fun _ down => set_of_outside down, ofList_take, ?_, ?_,
    fun keys _ _ => keypad.change_replace_eq keys⟩
  · intro key
    rw [isPressed?_afterChanges _ _ key.isLt, isPressed?_released key.isLt]
    cases lastSaid? changes key <;> rfl
  · intro key
    simp only [firstPressed?_eq_some_iff, isPressed?_eq_get, Option.some.injEq]
  · simp only [firstPressed?_eq_none_iff, isPressed?_eq_get, Option.some.injEq]

/-- A short snapshot over a key that is down, with a key that does not exist set in between. -/
theorem last_change_decides_shortSnapshot :
    let changes : List Change := [.set 3 true, .set 20 true]
    let keypad := released.afterChanges changes
    keypad.isPressed? 3 = some true ∧ keypad.set 20 true = keypad ∧
      keypad.change (.replace [false, true]) = keypad.afterChanges
        ((List.range 16).reverse.map (.set · false) ++ [.set 1 true, .set 0 false]) := by
  intro changes keypad
  obtain ⟨-, pressed, -, ignored, -, -, -, replaced⟩ := last_change_decides changes
  exact ⟨pressed 3, ignored 20 true (by decide),
    replaced [false, true] _ [1, 0] (List.reverse_perm _) (by decide)⟩

end Chip8.Keypad
