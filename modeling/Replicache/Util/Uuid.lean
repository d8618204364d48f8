import Mathlib.Data.Fin.VecNotation
import Mathlib.Data.List.FinRange

set_option relaxedAutoImplicit false
set_option autoImplicit false

/-!
# Version 4 UUIDs from random bytes

`uuid_from_numbers` turns 36 random bytes into the 36 characters of a version 4 UUID: each
position of `UUID_V4_FORMAT` is a hyphen, the version digit `4`, a hexadecimal digit taken
from the low four bits of the byte at that position, or one of `8`, `9`, `a`, `b` taken from
the low two bits. Each digit is made by `char::from_digit(_, 16).expect(ERROR_MAKE_CHAR)`.

## Main definitions

* `Replicache.Uuid.UuidElements`, `Replicache.Uuid.uuidV4Format`.
* `Replicache.Uuid.charFromDigit` — `char::from_digit` of the Rust standard library.
* `Replicache.Uuid.uuidFromNumbers` — `uuid_from_numbers`; the panic of `expect` is an
  `Except.error` carrying `ERROR_MAKE_CHAR`.

## Main results

* `Replicache.Uuid.uuidFromNumbers_eq` — `uuid_from_numbers` never panics, and returns the
  characters of `uuidChar`.
* `Replicache.Uuid.uuidFromNumbers_format` — every identifier it returns has the shape
  of a version 4 UUID.
* `Replicache.Uuid.uuidFromNumbers_eq_iff` — two inputs make the same identifier exactly
  when they agree on the bits the masks keep: the low four bits at each `Random09AF`
  position and the low two bits at position 19, the 122 random bits of the identifier.
* `Replicache.Uuid.uuidFromNumbers_surjective` — every string of the version 4 shape is
  made by some input.

## References

* `src/util/uuid/mod.rs`.
-/

namespace Replicache.Uuid

/-- The kinds of position of a version 4 UUID. -/
inductive UuidElements where
  | random09AF
  | random89AB
  | hyphen
  | version
  deriving DecidableEq, Repr

open UuidElements in
/-- `UUID_V4_FORMAT`. -/
def uuidV4Format : Fin 36 → UuidElements :=
  ![random09AF, random09AF, random09AF, random09AF, random09AF, random09AF, random09AF,
    random09AF, hyphen, random09AF, random09AF, random09AF, random09AF, hyphen, version,
    random09AF, random09AF, random09AF, hyphen, random89AB, random09AF, random09AF,
    random09AF, hyphen, random09AF, random09AF, random09AF, random09AF, random09AF,
    random09AF, random09AF, random09AF, random09AF, random09AF, random09AF, random09AF]

/-- `ERROR_MAKE_CHAR`. -/
def errorMakeChar : String := "Error in making char"

/-- `char::from_digit(num, radix)` for a radix of at most 36, the only radix used being 16:
the digit `num` as a character, lowercase past `9`, or `None` when `num` is not a digit of
the radix. -/
def charFromDigit (num radix : Nat) : Option Char :=
  if num < radix then
    some (if num < 10 then Char.ofNat (48 + num) else Char.ofNat (97 + num - 10))
  else none

/-- `Option::expect`: the value, or a panic with the message. -/
def expect {α : Type} (o : Option α) (msg : String) : Except String α :=
  match o with
  | some a => .ok a
  | none => .error msg

/-- The closure of `uuid_from_numbers`: the character of position `i`, of kind `kind`. -/
def makeChar (randomNumbers : Fin 36 → UInt8) (i : Fin 36) : UuidElements → Except String Char
  | .random09AF => expect (charFromDigit (randomNumbers i &&& 0b1111).toNat 16) errorMakeChar
  | .random89AB => expect (charFromDigit ((randomNumbers i &&& 0b11).toNat + 8) 16) errorMakeChar
  | .version => .ok '4'
  | .hyphen => .ok '-'

/-- `uuid_from_numbers`: the characters of the positions of `UUID_V4_FORMAT`, in order,
collected into a string. -/
def uuidFromNumbers (randomNumbers : Fin 36 → UInt8) : Except String String :=
  String.mk <$> (List.finRange 36).mapM fun i => makeChar randomNumbers i (uuidV4Format i)

/-! ## Every input makes an identifier -/

/-- The hexadecimal digit `n`, lowercase. -/
def hexChar (n : Nat) : Char := if n < 10 then Char.ofNat (48 + n) else Char.ofNat (97 + n - 10)

lemma charFromDigit_of_lt {n : Nat} (h : n < 16) : charFromDigit n 16 = some (hexChar n) := by
  simp [charFromDigit, hexChar, h]

/-- The character `uuid_from_numbers` makes at position `i`. -/
def uuidChar (randomNumbers : Fin 36 → UInt8) (i : Fin 36) : Char :=
  match uuidV4Format i with
  | .random09AF => hexChar (randomNumbers i &&& 0b1111).toNat
  | .random89AB => hexChar ((randomNumbers i &&& 0b11).toNat + 8)
  | .version => '4'
  | .hyphen => '-'

lemma toNat_and_lt (b : UInt8) {m : Nat} (m' : UInt8) (h : m'.toNat < m) : (b &&& m').toNat < m :=
  lt_of_le_of_lt (by rw [UInt8.and_toNat]; exact Nat.and_le_right) h

/-- No position makes `expect` panic. -/
lemma makeChar_eq (randomNumbers : Fin 36 → UInt8) (i : Fin 36) :
    makeChar randomNumbers i (uuidV4Format i) = .ok (uuidChar randomNumbers i) := by
  unfold uuidChar
  cases uuidV4Format i with
  | random09AF =>
    rw [makeChar, charFromDigit_of_lt (toNat_and_lt _ _ (by decide))]; rfl
  | random89AB =>
    have h₄ : (randomNumbers i &&& 0b11).toNat < 4 := toNat_and_lt _ _ (by decide)
    rw [makeChar, charFromDigit_of_lt (by omega)]
    rfl
  | version => rfl
  | hyphen => rfl

lemma mapM_ok {α β ε : Type} (f : α → β) (l : List α) :
    l.mapM (fun a => (Except.ok (f a) : Except ε β)) = .ok (l.map f) := by
  induction l with
  | nil => rfl
  | cons a l ih => simp only [List.mapM_cons, ih, List.map_cons]; rfl

/-- **`uuid_from_numbers` never panics**, and returns the characters of `uuidChar`. -/
theorem uuidFromNumbers_eq (randomNumbers : Fin 36 → UInt8) :
    uuidFromNumbers randomNumbers = .ok (String.mk (List.ofFn (uuidChar randomNumbers))) := by
  rw [uuidFromNumbers, funext (makeChar_eq randomNumbers), mapM_ok, ← List.ofFn_eq_map]
  rfl

/-! ## The shape of the identifiers -/

lemma hexChar_mem {n : Nat} (h : n < 16) : hexChar n ∈ "0123456789abcdef".toList := by
  have : ∀ m : Fin 16, hexChar m ∈ "0123456789abcdef".toList := by decide
  exact this ⟨n, h⟩

lemma hexChar_add_eight_mem {n : Nat} (h : n < 4) : hexChar (n + 8) ∈ ['8', '9', 'a', 'b'] := by
  have : ∀ m : Fin 4, hexChar (m + 8) ∈ ['8', '9', 'a', 'b'] := by decide
  exact this ⟨n, h⟩

/-- The positions that are not hyphens, the version or the variant hold random digits. -/
lemma uuidV4Format_eq_random09AF (i : Fin 36) :
    uuidV4Format i = .random09AF ↔ i.val ∉ [8, 13, 14, 18, 19, 23] := by
  revert i; decide

/-- Position 19 is the only `Random89AB` position of `UUID_V4_FORMAT`. -/
lemma uuidV4Format_eq_random89AB (i : Fin 36) : uuidV4Format i = .random89AB ↔ i = 19 := by
  revert i; decide

/-- The hyphens of `UUID_V4_FORMAT`. -/
lemma uuidV4Format_eq_hyphen (i : Fin 36) :
    uuidV4Format i = .hyphen ↔ i.val ∈ [8, 13, 18, 23] := by
  revert i; decide

/-- Position 14 is the version digit. -/
lemma uuidV4Format_eq_version (i : Fin 36) : uuidV4Format i = .version ↔ i = 14 := by
  revert i; decide

/-- The character at position `i` of the identifier is `uuidChar`'s. -/
lemma getElem?_uuid (randomNumbers : Fin 36 → UInt8) {i : Nat} (hi : i < 36) :
    (String.mk (List.ofFn (uuidChar randomNumbers))).toList[i]? =
      some (uuidChar randomNumbers ⟨i, hi⟩) := by
  simp only [String.toList, List.getElem?_ofFn, List.ofFnNthVal, dif_pos hi]

/-- **Every identifier `uuid_from_numbers` makes has the shape of a version 4 UUID.** It
never panics, and returns 36 characters: hyphens at positions 8, 13, 18 and 23, the version
`4` at 14, one of `8`, `9`, `a`, `b` at 19, and a lowercase hexadecimal digit elsewhere. -/
theorem uuidFromNumbers_format (randomNumbers : Fin 36 → UInt8) :
    ∃ s : String, uuidFromNumbers randomNumbers = .ok s ∧ s.length = 36 ∧
      (∀ i ∈ [8, 13, 18, 23], s.toList[i]? = some '-') ∧ s.toList[14]? = some '4' ∧
      (∃ c ∈ ['8', '9', 'a', 'b'], s.toList[19]? = some c) ∧
      ∀ i < 36, i ∉ [8, 13, 14, 18, 19, 23] →
        ∃ c ∈ "0123456789abcdef".toList, s.toList[i]? = some c := by
  refine ⟨_, uuidFromNumbers_eq randomNumbers, List.length_ofFn _, ?_,
    getElem?_uuid _ (of_decide_eq_true rfl : 14 < 36), ?_,
    fun i hi hn => ⟨_, ?_, getElem?_uuid _ hi⟩⟩
  · intro i hi
    have h36 : i < 36 := by simp only [List.mem_cons, List.not_mem_nil, or_false] at hi; omega
    rw [getElem?_uuid _ h36]
    simp only [uuidChar, (uuidV4Format_eq_hyphen ⟨i, h36⟩).2 hi]
  · exact ⟨_, hexChar_add_eight_mem (toNat_and_lt _ 3 (by decide)),
      getElem?_uuid _ (of_decide_eq_true rfl : 19 < 36)⟩
  · simp only [uuidChar, (uuidV4Format_eq_random09AF ⟨i, hi⟩).2 hn]
    exact hexChar_mem (toNat_and_lt _ 15 (by decide))

/-! ## Distinct random bits make distinct identifiers -/

/-- The code point of the hexadecimal digit `n`: `0`-`9` from 48, `a`-`f` from 97. -/
lemma hexChar_toNat {n : Nat} (h : n < 16) :
    (hexChar n).toNat = if n < 10 then 48 + n else 87 + n := by
  have : ∀ m : Fin 16, (hexChar m).toNat = if (m : Nat) < 10 then 48 + (m : Nat) else 87 + m :=
    by decide
  exact this ⟨n, h⟩

/-- Distinct digits are distinct characters. -/
lemma hexChar_inj {m n : Nat} (hm : m < 16) (hn : n < 16) : hexChar m = hexChar n ↔ m = n := by
  refine ⟨fun h => ?_, congrArg _⟩
  have := congrArg Char.toNat h
  rw [hexChar_toNat hm, hexChar_toNat hn] at this
  split_ifs at this <;> omega

lemma toNat_and_inj {a b m : UInt8} : (a &&& m).toNat = (b &&& m).toNat ↔ a &&& m = b &&& m :=
  ⟨UInt8.toNat.inj, congrArg _⟩

/-- Two inputs make the same character at position `i` exactly when they agree on the bits
the position's kind keeps. -/
lemma uuidChar_eq_iff (a b : Fin 36 → UInt8) (i : Fin 36) :
    uuidChar a i = uuidChar b i ↔
      (uuidV4Format i = .random09AF → a i &&& 0xF = b i &&& 0xF) ∧
        (uuidV4Format i = .random89AB → a i &&& 0x3 = b i &&& 0x3) := by
  unfold uuidChar
  cases uuidV4Format i with
  | random09AF =>
    rw [hexChar_inj (toNat_and_lt _ 15 (by decide)) (toNat_and_lt _ 15 (by decide)),
      toNat_and_inj]
    simp
  | random89AB =>
    have ha : (a i &&& 3).toNat < 4 := toNat_and_lt _ _ (by decide)
    have hb : (b i &&& 3).toNat < 4 := toNat_and_lt _ _ (by decide)
    rw [hexChar_inj (by omega) (by omega), Nat.add_right_cancel_iff, toNat_and_inj]
    simp
  | version | hyphen => simp

/-- **`uuid_from_numbers` loses only the bits its masks clear.** Two inputs make the same
identifier exactly when they agree on the low four bits of every `Random09AF` position and
on the low two bits of position 19. There are thirty `Random09AF` positions, so the
identifier is an injective image of `4 · 30 + 2 = 122` random bits. -/
theorem uuidFromNumbers_eq_iff (a b : Fin 36 → UInt8) :
    (uuidFromNumbers a = uuidFromNumbers b ↔
      (∀ i, uuidV4Format i = .random09AF → a i &&& 0xF = b i &&& 0xF) ∧
        a 19 &&& 0x3 = b 19 &&& 0x3) ∧
      4 * (List.finRange 36).countP (fun i => uuidV4Format i = .random09AF) + 2 = 122 := by
  refine ⟨?_, by decide⟩
  rw [uuidFromNumbers_eq, uuidFromNumbers_eq, Except.ok.injEq, String.ext_iff, List.ofFn_inj,
    funext_iff]
  simp only [uuidChar_eq_iff, forall_and, uuidV4Format_eq_random89AB, forall_eq]

/-! ## Every version 4 identifier is made by some input -/

/-- Each lowercase hexadecimal digit is made from the byte of its value. -/
lemma exists_hexChar {c : Char} (hc : c ∈ "0123456789abcdef".toList) :
    ∃ b : UInt8, hexChar (b &&& 0b1111).toNat = c := by
  have : ∀ c ∈ "0123456789abcdef".toList,
      hexChar ((c.toNat - if c.toNat < 58 then 48 else 87).toUInt8 &&& 0b1111).toNat = c := by
    decide
  exact ⟨_, this c hc⟩

/-- Each variant digit is made from the byte of its value. -/
lemma exists_hexChar_add_eight {c : Char} (hc : c ∈ ['8', '9', 'a', 'b']) :
    ∃ b : UInt8, hexChar ((b &&& 0b11).toNat + 8) = c := by
  have : ∀ c ∈ ['8', '9', 'a', 'b'],
      hexChar (((c.toNat - if c.toNat < 58 then 48 else 87).toUInt8 &&& 0b11).toNat + 8) = c := by
    decide
  exact ⟨_, this c hc⟩

section Shape

variable {s : List Char} (hhy : ∀ i ∈ [8, 13, 18, 23], s[i]? = some '-') (hv : s[14]? = some '4')
  (h19 : ∃ c ∈ ['8', '9', 'a', 'b'], s[19]? = some c)
  (hx : ∀ i < 36, i ∉ [8, 13, 14, 18, 19, 23] → ∃ c ∈ "0123456789abcdef".toList, s[i]? = some c)

include hhy hv h19 hx in
/-- Each character of a string of the version 4 shape is the character some byte makes at its
position. -/
lemma exists_byte (i : Fin 36) : ∃ b : UInt8, s[i.val]? = some (uuidChar (fun _ => b) i) := by
  unfold uuidChar
  cases hk : uuidV4Format i with
  | random09AF =>
    obtain ⟨c, hc, hs⟩ := hx i i.isLt ((uuidV4Format_eq_random09AF i).1 hk)
    obtain ⟨b, hb⟩ := exists_hexChar hc
    exact ⟨b, hs.trans (congrArg some hb.symm)⟩
  | random89AB =>
    obtain rfl := (uuidV4Format_eq_random89AB i).1 hk
    obtain ⟨c, hc, hs⟩ := h19
    obtain ⟨b, hb⟩ := exists_hexChar_add_eight hc
    exact ⟨b, hs.trans (congrArg some hb.symm)⟩
  | hyphen => exact ⟨0, hhy _ ((uuidV4Format_eq_hyphen i).1 hk)⟩
  | version =>
    obtain rfl := (uuidV4Format_eq_version i).1 hk
    exact ⟨0, hv⟩

end Shape

/-- **Every string of the version 4 shape is an identifier `uuid_from_numbers` makes.** With
`uuidFromNumbers_format` and `uuidFromNumbers_eq_iff`, the identifiers are exactly the
strings of this shape, one for each value of the 122 random bits. -/
theorem uuidFromNumbers_surjective (s : String) (hlen : s.length = 36)
    (hhy : ∀ i ∈ [8, 13, 18, 23], s.toList[i]? = some '-') (hv : s.toList[14]? = some '4')
    (h19 : ∃ c ∈ ['8', '9', 'a', 'b'], s.toList[19]? = some c)
    (hx : ∀ i < 36, i ∉ [8, 13, 14, 18, 19, 23] →
      ∃ c ∈ "0123456789abcdef".toList, s.toList[i]? = some c) :
    ∃ randomNumbers, uuidFromNumbers randomNumbers = .ok s := by
  choose f hf using exists_byte hhy hv h19 hx
  refine ⟨f, (uuidFromNumbers_eq f).trans
    (congrArg _ (String.ext (List.ext_getElem? fun n => ?_)))⟩
  by_cases hn : n < 36
  · exact (getElem?_uuid f hn).trans (hf ⟨n, hn⟩).symm
  · have hdata : s.data.length = 36 := hlen
    rw [List.getElem?_eq_none (by simpa using hn), List.getElem?_eq_none (by omega)]

/-- The identifier of the source's test has the version 4 shape, so some input makes it. -/
theorem uuidFromNumbers_surjective_test :
    "00000000-0000-4000-8000-000000000000".length = 36 ∧
      (∀ i ∈ [8, 13, 18, 23], "00000000-0000-4000-8000-000000000000".toList[i]? = some '-') ∧
      "00000000-0000-4000-8000-000000000000".toList[14]? = some '4' ∧
      (∃ c ∈ ['8', '9', 'a', 'b'], "00000000-0000-4000-8000-000000000000".toList[19]? = some c) ∧
      (∀ i < 36, i ∉ [8, 13, 14, 18, 19, 23] → ∃ c ∈ "0123456789abcdef".toList,
        "00000000-0000-4000-8000-000000000000".toList[i]? = some c) ∧
      ∃ randomNumbers, uuidFromNumbers randomNumbers = .ok "00000000-0000-4000-8000-000000000000" :=
  have hlen : "00000000-0000-4000-8000-000000000000".length = 36 := by decide
  have hhy : ∀ i ∈ [8, 13, 18, 23],
      "00000000-0000-4000-8000-000000000000".toList[i]? = some '-' := by decide
  have hv : "00000000-0000-4000-8000-000000000000".toList[14]? = some '4' := by decide
  have h19 : ∃ c ∈ ['8', '9', 'a', 'b'],
      "00000000-0000-4000-8000-000000000000".toList[19]? = some c := by decide
  have hx : ∀ i < 36, i ∉ [8, 13, 14, 18, 19, 23] → ∃ c ∈ "0123456789abcdef".toList,
      "00000000-0000-4000-8000-000000000000".toList[i]? = some c := by decide
  ⟨hlen, hhy, hv, h19, hx, uuidFromNumbers_surjective _ hlen hhy hv h19 hx⟩

end Replicache.Uuid
