import OortAgent.Text
import OortAgent.Uuid

/-!
# `mkUUID`

`mkUUID` sets six bits of sixteen random `char`s and prints them through a `stringstream`, in six loops that share
an index.

* `mkUUIDText_eq`: what is printed is `uuidText`.
* `uuidText_shape`, `metaPattern_uuidText`: it is a version 4 UUID, and the route for metadata takes it.
* `uuidText_inj_iff`: two ids are the same only for bytes that agree on the other bits.
* `mkUUID_keeps_bits`: all of this together.
-/

namespace OortAgent

open Lib (Str)

/-! ## The code -/

/-- A `stringstream` with its format. The width counts for one item only. -/
structure Stream where
  text : Str := []
  hex : Bool := false
  fill : Char := ' '
  width : Nat := 0

namespace Stream

/-- An item, filled up on the left. -/
def put (s : Stream) (item : Str) : Stream :=
  { s with text := s.text ++ (List.replicate (s.width - item.length) s.fill ++ item), width := 0 }

/-- `<< setw(n)`. -/
def setw (s : Stream) (n : Nat) : Stream := { s with width := n }

/-- `<<` of an `int`; in hexadecimal it is printed as an `unsigned`. -/
def int (s : Stream) (n : BitVec 32) : Stream :=
  s.put (if s.hex then Nat.toDigits 16 n.toNat else (toString n.toInt).toList)

/-- `<<` of a `char`. -/
def char (s : Stream) (c : Char) : Stream := s.put [c]

end Stream

/-- A signed `char` as an `int`. -/
def promote (c : BitVec 8) : BitVec 32 := c.signExtend 32

/-- `for (int c = 0; c < n; c++, i++) uuid << setw(2) << (0xFF & rand_dat[i]);` -/
def printBytes (rand_dat : List (BitVec 8)) : Nat → Stream × Nat → Stream × Nat
  | 0, x => x
  | n + 1, (uuid, i) => printBytes rand_dat n ((uuid.setw 2).int (0xFF#32 &&& promote (rand_dat.getD i 0)), i + 1)

/-- `mkUUID` after the bytes are read. -/
def mkUUIDText (rand_dat : List (BitVec 8)) : Str :=
  let rand_dat := rand_dat.set 6 ((0x40#32 ||| (promote (rand_dat.getD 6 0) &&& 0x0F#32)).truncate 8)
  let rand_dat := rand_dat.set 8 ((0x80#32 ||| (promote (rand_dat.getD 8 0) &&& 0x3F#32)).truncate 8)
  let uuid : Stream := { hex := true, fill := '0' }
  -- time-low
  let (uuid, i) := printBytes rand_dat 4 (uuid, 0)
  let uuid := uuid.char '-'
  -- time-mid
  let (uuid, i) := printBytes rand_dat 2 (uuid, i)
  let uuid := uuid.char '-'
  -- time-high-and-version
  let (uuid, i) := printBytes rand_dat 2 (uuid, i)
  let uuid := uuid.char '-'
  -- clock-seq-and-reserved
  let (uuid, i) := printBytes rand_dat 1 (uuid, i)
  -- clock-seq-low
  let (uuid, i) := printBytes rand_dat 1 (uuid, i)
  let uuid := uuid.char '-'
  -- node
  let (uuid, _) := printBytes rand_dat 6 (uuid, i)
  uuid.text

/-- The bytes with the version and the variant set. -/
def stamped (rand : List UInt8) : List UInt8 :=
  (rand.set 6 (0x40 ||| (rand.getD 6 0 &&& 0x0F))).set 8 (0x80 ||| (rand.getD 8 0 &&& 0x3F))

/-! ## What is printed -/

section Printing

/-- What holds of the first 256 numbers holds of the bytes. -/
theorem byte_ind {P : UInt8 → Prop} (h : ∀ n < 256, P (UInt8.ofNat n)) (b : UInt8) : P b := by
  have hb := h b.toNat b.toNat_lt
  rwa [UInt8.ofNat_toNat] at hb

/-- A byte is printed as two digits. -/
theorem byte_digits (b : UInt8) :
    List.replicate (2 - (Nat.toDigits 16 (0xFF#32 &&& promote b.toBitVec).toNat).length) '0' ++
    Nat.toDigits 16 (0xFF#32 &&& promote b.toBitVec).toNat = hexByte b := by
  revert b
  exact byte_ind (by decide +kernel)

theorem stamp_version (b : UInt8) :
    (0x40#32 ||| (promote b.toBitVec &&& 0x0F#32)).truncate 8 = (0x40 ||| (b &&& 0x0F) : UInt8).toBitVec := by
  revert b
  exact byte_ind (by decide +kernel)

theorem stamp_variant (b : UInt8) :
    (0x80#32 ||| (promote b.toBitVec &&& 0x3F#32)).truncate 8 = (0x80 ||| (b &&& 0x3F) : UInt8).toBitVec := by
  revert b
  exact byte_ind (by decide +kernel)

/-- One loop prints the next bytes. -/
theorem printBytes_eq {b : List UInt8} {n i : Nat} {text : Str} (h : i + n ≤ b.length) :
    printBytes (b.map UInt8.toBitVec) n ({ text, hex := true, fill := '0' }, i) =
      ({ text := text ++ hexBytes b i n, hex := true, fill := '0' }, i + n) := by
  induction n generalizing i text with
  | zero => simp [printBytes, hexBytes]
  | succ n ih =>
    have hi : i < b.length := by omega
    have hget : (b.map UInt8.toBitVec).getD i 0 = b[i].toBitVec := by simp [hi]
    have hdrop : b.drop i = b[i] :: b.drop (i + 1) := List.drop_eq_getElem_cons hi
    rw [printBytes, hget]
    simp only [Stream.setw, Stream.int, Stream.put, if_true]
    rw [byte_digits, ih (by omega), hexBytes, hexBytes, hdrop, List.take_succ_cons, List.flatMap_cons,
      List.append_assoc]
    congr 1
    omega

/-- Two loops one after the other. -/
theorem hexBytes_add (b : List UInt8) (k m n : Nat) :
    hexBytes b k (m + n) = hexBytes b k m ++ hexBytes b (k + m) n := by
  rw [hexBytes, hexBytes, hexBytes, ← List.flatMap_append, ← List.drop_drop, List.take_add]

/-- The bytes are set as `uuidText` sets them. -/
theorem stamped_map {rand : List UInt8} (h : rand.length = 16) :
    ((rand.map UInt8.toBitVec).set 6
      ((0x40#32 ||| (promote ((rand.map UInt8.toBitVec).getD 6 0) &&& 0x0F#32)).truncate 8)).set 8
      ((0x80#32 |||
        (promote (((rand.map UInt8.toBitVec).set 6 ((0x40#32 ||| (promote ((rand.map UInt8.toBitVec).getD 6 0) &&&
        0x0F#32)).truncate 8)).getD 8 0) &&& 0x3F#32)).truncate 8) = (stamped rand).map UInt8.toBitVec := by
  have hsix : (rand.map UInt8.toBitVec).getD 6 0 = (rand.getD 6 0).toBitVec := by simp [h]
  have height : ∀ c : BitVec 8, ((rand.map UInt8.toBitVec).set 6 c).getD 8 0 = (rand.getD 8 0).toBitVec := by
    intro c
    simp [h]
  rw [height, hsix, stamp_version, stamp_variant, stamped, List.map_set, List.map_set]

/-- **The loops print the text of the id.** -/
theorem mkUUIDText_eq {rand : List UInt8} (h : rand.length = 16) : mkUUIDText (rand.map UInt8.toBitVec) =
    uuidText rand := by
  have hlen : (stamped rand).length = 16 := by simp [stamped, h]
  have hloop : ∀ {n i : Nat} {text : Str}, i + n ≤ 16 → printBytes ((stamped rand).map UInt8.toBitVec) n
      ({ text, hex := true, fill := '0' }, i) =
      ({ text := text ++ hexBytes (stamped rand) i n, hex := true, fill := '0' }, i + n) :=
    fun hi => printBytes_eq (by omega)
  have hhyphen : ∀ text : Str, ({ text, hex := true, fill := '0' } : Stream).char '-' =
    { text := text ++ ['-'], hex := true, fill := '0' } :=
    fun _ => rfl
  -- the two bytes of the clock sequence are printed by two loops
  have hclock : hexBytes (stamped rand) 8 2 = hexBytes (stamped rand) 8 1 ++ hexBytes (stamped rand) 9 1 :=
    hexBytes_add _ 8 1 1
  rw [mkUUIDText, stamped_map h]
  simp only [hloop, hhyphen, Nat.reduceAdd, Nat.reduceLeDiff]
  rw [uuidText, ← stamped, hclock]
  simp

end Printing

/-! ## The form of an id -/

/-- The character at a position of a version 4 UUID in lower case. -/
def UuidChar (i : Nat) (c : Char) : Prop :=
  if i = 8 ∨ i = 13 ∨ i = 18 ∨ i = 23 then c = '-'
  else if i = 14 then c = '4'
  else if i = 19 then c ∈ "89ab".toList
  else c ∈ "0123456789abcdef".toList

/-- A version 4 UUID in lower case. -/
structure IsUuid4 (id : Str) : Prop where
  length : id.length = 36
  chars : ∀ i c, id[i]? = some c → UuidChar i c

/-- `[-[:xdigit:]]`. -/
def metaChar (c : Char) : Bool := c = '-' || decide (c ∈ "0123456789abcdefABCDEF".toList)

/-- What the group of `^v1/meta/([-[:xdigit:]]+)$` takes of a path. -/
def metaPattern (path : Str) : Option Str :=
  if "v1/meta/".toList <+: path ∧ path.drop 8 ≠ [] ∧ (path.drop 8).all metaChar then some (path.drop 8) else none

section Form

/-- A property of the characters of a text and their positions, counted from `k`. -/
def FromAt (P : Nat → Char → Prop) (k : Nat) (s : Str) : Prop := ∀ i c, s[i]? = some c → P (k + i) c

theorem fromAt_nil {P : Nat → Char → Prop} {k : Nat} : FromAt P k [] := by simp [FromAt]

theorem fromAt_cons {P : Nat → Char → Prop} {k : Nat} {c : Char} {s : Str} : FromAt P k (c :: s) ↔ P k c ∧
    FromAt P (k + 1) s := by
  constructor
  · intro h
    refine ⟨h 0 c rfl, fun i d hd => ?_⟩
    rw [Nat.add_assoc, Nat.add_comm 1 i]
    exact h (i + 1) d hd
  · rintro ⟨hc, hs⟩ i d hd
    cases i with
    | zero =>
      cases hd
      exact hc
    | succ i =>
      rw [Nat.add_comm i 1, ← Nat.add_assoc]
      exact hs i d hd

theorem fromAt_append {P : Nat → Char → Prop} {k : Nat} {s t : Str} :
    FromAt P k (s ++ t) ↔ FromAt P k s ∧ FromAt P (k + s.length) t := by
  induction s generalizing k with
  | nil => simp [fromAt_nil]
  | cons c s ih =>
    rw [List.cons_append, fromAt_cons, fromAt_cons, ih, and_assoc, List.length_cons, Nat.add_assoc, Nat.add_comm 1]

/-- A property of every character. -/
theorem fromAt_all {P : Nat → Char → Prop} {k : Nat} {s : Str} (h : ∀ c ∈ s, ∀ i, k ≤ i → i < k + s.length → P i c) :
    FromAt P k s := by
  intro i c hc
  obtain ⟨hi, rfl⟩ := List.getElem?_eq_some_iff.1 hc
  exact h _ (List.getElem_mem hi) _ (by omega) (by omega)

theorem hexDigit_mem {n : Nat} (h : n < 16) : hexDigit n ∈ "0123456789abcdef".toList := by
  revert n
  decide

theorem mem_hexBytes {b : List UInt8} {k n : Nat} {c : Char} (h : c ∈ hexBytes b k n) :
    c ∈ "0123456789abcdef".toList := by
  obtain ⟨x, -, hx⟩ := List.mem_flatMap.1 h
  have hlt : x.toNat < 256 := x.toNat_lt
  simp only [hexByte, List.mem_cons, List.not_mem_nil, or_false] at hx
  rcases hx with rfl | rfl
  · exact hexDigit_mem (by omega)
  · exact hexDigit_mem (by omega)

theorem length_hexBytes {b : List UInt8} {k n : Nat} (h : k + n ≤ b.length) : (hexBytes b k n).length = 2 * n := by
  induction n with
  | zero => simp [hexBytes]
  | succ n ih =>
    have hone : (hexBytes b (k + n) 1).length = 2 := by
      rw [hexBytes, List.drop_eq_getElem_cons (by omega)]
      rfl
    rw [hexBytes_add, List.length_append, ih (by omega), hone]
    omega

theorem hexBytes_one {b : List UInt8} {k : Nat} (h : k < b.length) : hexBytes b k 1 = hexByte b[k] := by
  rw [hexBytes, List.drop_eq_getElem_cons h, List.take_succ_cons, List.take_zero, List.flatMap_cons, List.flatMap_nil,
    List.append_nil]

theorem length_hexByte (b : UInt8) : (hexByte b).length = 2 := rfl

theorem uuidText_stamped (rand : List UInt8) : uuidText rand =
    hexBytes (stamped rand) 0 4 ++ '-' :: (hexBytes (stamped rand) 4 2 ++ '-' :: (hexBytes (stamped rand) 6 2 ++ '-' ::
      (hexBytes (stamped rand) 8 2 ++ '-' :: hexBytes (stamped rand) 10 6))) := rfl

theorem length_stamped (rand : List UInt8) : (stamped rand).length = rand.length := by simp [stamped]

/-- Away from the special positions every digit will do. -/
theorem fromAt_digits {s : Str} {k : Nat} (hs : ∀ c ∈ s, c ∈ "0123456789abcdef".toList)
    (hk : ∀ i, k ≤ i → i < k + s.length → i ≠ 8 ∧ i ≠ 13 ∧ i ≠ 14 ∧ i ≠ 18 ∧ i ≠ 19 ∧ i ≠ 23) :
    FromAt UuidChar k s := by
  refine fromAt_all fun c hc i hi hlt => ?_
  obtain ⟨h₁, h₂, h₃, h₄, h₅, h₆⟩ := hk i hi hlt
  simp only [UuidChar, h₁, h₂, h₃, h₄, h₅, h₆, or_self, if_false]
  exact hs c hc

/-- A byte in the middle with a special first digit. -/
theorem fromAt_hexByte {b : UInt8} {k : Nat} (hc : UuidChar k (hexDigit (b.toNat / 16)))
    (hk : k + 1 ≠ 8 ∧ k + 1 ≠ 13 ∧ k + 1 ≠ 14 ∧ k + 1 ≠ 18 ∧ k + 1 ≠ 19 ∧ k + 1 ≠ 23) :
    FromAt UuidChar k (hexByte b) := by
  rw [hexByte, fromAt_cons]
  refine ⟨hc, fromAt_digits (fun c hc => ?_) fun i hi hlt => ?_⟩
  · rw [List.mem_singleton.1 hc]
    exact hexDigit_mem (by omega)
  · rw [List.length_singleton] at hlt
    obtain rfl : i = k + 1 := by omega
    exact hk

/-- **An id is a version 4 UUID.** -/
theorem uuidText_shape {rand : List UInt8} (h : rand.length = 16) : IsUuid4 (uuidText rand) := by
  have hlen : (stamped rand).length = 16 := (length_stamped rand).trans h
  have hl : ∀ {k n}, k + n ≤ 16 → (hexBytes (stamped rand) k n).length = 2 * n := fun hk => length_hexBytes (by omega)
  have hdigits : ∀ {k n m}, k + n ≤ 16 →
      (∀ i, m ≤ i → i < m + 2 * n → i ≠ 8 ∧ i ≠ 13 ∧ i ≠ 14 ∧ i ≠ 18 ∧ i ≠ 19 ∧ i ≠ 23) →
      FromAt UuidChar m (hexBytes (stamped rand) k n) := by
    intro k n m hk hm
    refine fromAt_digits (fun c => mem_hexBytes) ?_
    rw [hl hk]
    exact hm
  have hhyphen : ∀ {i}, (i = 8 ∨ i = 13 ∨ i = 18 ∨ i = 23) → UuidChar i '-' := by
    intro i hi
    rw [UuidChar, if_pos hi]
  have hversion : ∀ x : UInt8, hexDigit ((0x40 ||| (x &&& 0x0F) : UInt8).toNat / 16) = '4' :=
    byte_ind (by decide +kernel)
  have hvariant : ∀ x : UInt8, hexDigit ((0x80 ||| (x &&& 0x3F) : UInt8).toNat / 16) ∈ "89ab".toList :=
    byte_ind (by decide +kernel)
  have hsix : (stamped rand)[6] = 0x40 ||| (rand.getD 6 0 &&& 0x0F) := by simp [stamped]
  have height : (stamped rand)[8] = 0x80 ||| (rand.getD 8 0 &&& 0x3F) := by simp [stamped]
  constructor
  · rw [uuidText_stamped]
    simp [hl]
  · have hall : FromAt UuidChar 0 (uuidText rand) := by
      rw [uuidText_stamped, hexBytes_add _ 6 1 1, hexBytes_add _ 8 1 1, hexBytes_one (k := 6) (by omega),
        hexBytes_one (k := 8) (by omega), hsix, height]
      simp only [fromAt_append, fromAt_cons, hl, length_hexByte, List.length_append, Nat.reduceAdd, Nat.reduceMul,
        Nat.reduceLeDiff]
      refine ⟨hdigits (by omega) (by omega), hhyphen (by omega), hdigits (by omega) (by omega), hhyphen (by omega),
        ⟨fromAt_hexByte ?_ (by omega), hdigits (by omega) (by omega)⟩, hhyphen (by omega),
        ⟨fromAt_hexByte ?_ (by omega), hdigits (by omega) (by omega)⟩, hhyphen (by omega),
        hdigits (by omega) (by omega)⟩
      · rw [hversion]
        simp [UuidChar]
      · have hmem := hvariant (rand.getD 8 0)
        simpa [UuidChar] using hmem
    intro i c hc
    have hi := hall i c hc
    rwa [Nat.zero_add] at hi

/-- The route for the metadata of a transfer takes an id. -/
theorem metaPattern_uuidText (rand : List UInt8) : metaPattern ("v1/meta/".toList ++ uuidText rand) =
    some (uuidText rand) := by
  have hdrop : ("v1/meta/".toList ++ uuidText rand).drop 8 = uuidText rand := rfl
  have hall : (uuidText rand).all metaChar = true := by
    rw [List.all_eq_true]
    intro c hc
    have hhex : ∀ c ∈ "0123456789abcdef".toList, metaChar c = true := by
      intro c hc
      have hmore : c ∈ "0123456789abcdef".toList ++ "ABCDEF".toList := List.mem_append_left _ hc
      rw [metaChar, decide_eq_true (show c ∈ "0123456789abcdefABCDEF".toList from hmore), Bool.or_true]
    simp only [uuidText_stamped, List.mem_append, List.mem_cons] at hc
    rcases hc with hc | rfl | hc | rfl | hc | rfl | hc | rfl | hc
    all_goals first | exact hhex c (mem_hexBytes hc) | rfl
  rw [metaPattern, hdrop, if_pos ⟨List.prefix_append _ _, (uuidText_plain rand).1, hall⟩]

end Form

/-! ## The bits of an id -/

/-- The bits that `mkUUID` sets: the version and the variant. -/
def Fixed (i j : Nat) : Prop := (i = 6 ∧ 4 ≤ j) ∨ (i = 8 ∧ 6 ≤ j)

/-- The bytes agree on the other bits. -/
def AgreeFree (a b : List UInt8) : Prop :=
  ∀ i < 16, ∀ j < 8, ¬ Fixed i j → (a.getD i 0).toNat.testBit j = (b.getD i 0).toNat.testBit j

section Bits

variable {a b : List UInt8}

theorem hexByte_inj {x y : UInt8} (h : hexByte x = hexByte y) : x = y := by
  have hdigit : ∀ m < 16, ∀ n < 16, hexDigit m = hexDigit n → m = n := by decide
  have hx := x.toNat_lt
  have hy := y.toNat_lt
  simp only [hexByte, List.cons.injEq, and_true] at h
  have hhigh := hdigit _ (by omega) _ (by omega) h.1
  have hlow := hdigit _ (by omega) _ (by omega) h.2
  exact UInt8.toNat_inj.1 (by omega)

/-- Hexadecimal digits determine the bytes. -/
theorem flatMap_hexByte_inj (h : a.flatMap hexByte = b.flatMap hexByte) : a = b := by
  induction a generalizing b with
  | nil =>
    cases b with
    | nil => rfl
    | cons y b => cases h
  | cons x a ih =>
    cases b with
    | nil => cases h
    | cons y b =>
      rw [List.flatMap_cons, List.flatMap_cons] at h
      obtain ⟨hxy, hrest⟩ := List.append_inj h rfl
      rw [hexByte_inj hxy, ih hrest]

/-- An id without its hyphens is the bytes in hexadecimal. -/
theorem uuidText_digits (h : a.length = 16) : (uuidText a).filter (· ≠ '-') = (stamped a).flatMap hexByte := by
  have hkeep : ∀ k n, (hexBytes (stamped a) k n).filter (· ≠ '-') = hexBytes (stamped a) k n := by
    intro k n
    have hne : ∀ c ∈ "0123456789abcdef".toList, c ≠ '-' := by
      rintro c hc rfl
      exact absurd hc (by decide)
    exact List.filter_eq_self.2 fun c hc => decide_eq_true (hne c (mem_hexBytes hc))
  have hskip : ∀ t : Str, ('-' :: t).filter (· ≠ '-') = t.filter (· ≠ '-') :=
    fun t => List.filter_cons_of_neg (by decide)
  have hlen : (stamped a).length = 16 := (length_stamped a).trans h
  have hjoin : hexBytes (stamped a) 0 16 = (stamped a).flatMap hexByte := by
    rw [hexBytes, List.drop_zero, List.take_of_length_le (by omega)]
  rw [uuidText_stamped, ← hjoin, hexBytes_add _ 0 4 12, hexBytes_add _ 4 2 10, hexBytes_add _ 6 2 8,
    hexBytes_add _ 8 2 6]
  simp only [List.filter_append, hskip, hkeep]

/-- The same id is the same bytes after the stamp. -/
theorem uuidText_eq_iff (ha : a.length = 16) (hb : b.length = 16) : uuidText a = uuidText b ↔
    stamped a = stamped b := by
  constructor
  · intro h
    refine flatMap_hexByte_inj ?_
    rw [← uuidText_digits ha, ← uuidText_digits hb, h]
  · intro h
    rw [uuidText_stamped, uuidText_stamped, h]

/-- Bytes are determined by their bits. -/
theorem byte_eq_iff {x y : UInt8} : x = y ↔ ∀ j < 8, x.toNat.testBit j = y.toNat.testBit j := by
  refine ⟨fun h j _ => by rw [h], fun h => UInt8.toNat_inj.1 (Nat.eq_of_testBit_eq fun j => ?_)⟩
  by_cases hj : j < 8
  · exact h j hj
  · have hpow : 2 ^ 8 ≤ 2 ^ j := Nat.pow_le_pow_right (by omega) (by omega)
    have hx := x.toNat_lt
    have hy := y.toNat_lt
    rw [Nat.testBit_lt_two_pow (by omega), Nat.testBit_lt_two_pow (by omega)]

/-- A byte of which the bits in `m` are kept and those in `k` are set. -/
theorem stamp_eq_iff {k m x y : UInt8} (hkm : ∀ j < 8, m.toNat.testBit j = true → k.toNat.testBit j = false) :
    (k ||| (x &&& m)) = (k ||| (y &&& m)) ↔ ∀ j < 8, m.toNat.testBit j = true →
      x.toNat.testBit j = y.toNat.testBit j := by
  have hbit : ∀ z : UInt8, ∀ j, (k ||| (z &&& m)).toNat.testBit j =
      (k.toNat.testBit j || (z.toNat.testBit j && m.toNat.testBit j)) := by
    intro z j
    rw [UInt8.toNat_or, UInt8.toNat_and, Nat.testBit_or, Nat.testBit_and]
  rw [byte_eq_iff]
  refine forall₂_congr fun j hj => ?_
  rw [hbit, hbit]
  cases hm : m.toNat.testBit j with
  | false => simp
  | true => simp [hkm j hj hm]

theorem stamped_getD {c : List UInt8} (hc : c.length = 16) (i : Nat) : (stamped c).getD i 0 =
    if i = 8 then 0x80 ||| (c.getD 8 0 &&& 0x3F) else if i = 6 then 0x40 ||| (c.getD 6 0 &&& 0x0F) else c.getD i 0 := by
  rw [stamped, List.getD_eq_getElem?_getD, List.getElem?_set, List.getElem?_set]
  by_cases h₈ : 8 = i
  · subst h₈
    simp [hc]
  · by_cases h₆ : 6 = i
    · subst h₆
      simp [hc]
    · rw [if_neg h₈, if_neg h₆, if_neg (Ne.symm h₈), if_neg (Ne.symm h₆), List.getD_eq_getElem?_getD]

/-- **Two ids are the same only for bytes that agree on all bits that are not set.** -/
theorem uuidText_inj_iff (ha : a.length = 16) (hb : b.length = 16) : uuidText a = uuidText b ↔ AgreeFree a b := by
  have hlen : ∀ {c : List UInt8}, c.length = 16 → (stamped c).length = 16 := fun hc => (length_stamped _).trans hc
  have hext : stamped a = stamped b ↔ ∀ i < 16, (stamped a).getD i 0 = (stamped b).getD i 0 := by
    refine ⟨fun h i _ => by rw [h], fun h => List.ext_getElem ((hlen ha).trans (hlen hb).symm) fun i hi hi' => ?_⟩
    have hi₁₆ : i < 16 := (hlen ha) ▸ hi
    have hget := h i hi₁₆
    rwa [List.getD_eq_getElem?_getD, List.getD_eq_getElem?_getD, List.getElem?_eq_getElem hi,
      List.getElem?_eq_getElem hi'] at hget
  have hversion : ∀ j < 8, ((0x0F : UInt8).toNat.testBit j = true ↔ ¬ 4 ≤ j) := by decide
  have hvariant : ∀ j < 8, ((0x3F : UInt8).toNat.testBit j = true ↔ ¬ 6 ≤ j) := by decide
  rw [uuidText_eq_iff ha hb, hext]
  refine forall₂_congr fun i hi => ?_
  rw [stamped_getD ha, stamped_getD hb]
  by_cases h₈ : i = 8
  · subst h₈
    rw [if_pos rfl, if_pos rfl, stamp_eq_iff (by decide)]
    refine forall₂_congr fun j hj => ?_
    rw [hvariant j hj]
    simp [Fixed]
  · by_cases h₆ : i = 6
    · subst h₆
      rw [if_neg h₈, if_pos rfl, if_neg h₈, if_pos rfl, stamp_eq_iff (by decide)]
      refine forall₂_congr fun j hj => ?_
      rw [hversion j hj]
      simp [Fixed]
    · rw [if_neg h₈, if_neg h₆, if_neg h₈, if_neg h₆, byte_eq_iff]
      simp [Fixed, h₈, h₆]

end Bits

/-- **Ids are well-formed and keep all random bits.** For sixteen bytes, the loops of `mkUUID` print the id of the
transfer; it is a version 4 UUID in lower case that the route for metadata takes; and other bytes give the same id
if and only if they agree on all bits but the six that are set. -/
theorem mkUUID_keeps_bits {a b : List UInt8} (ha : a.length = 16) (hb : b.length = 16) :
    mkUUIDText (a.map UInt8.toBitVec) = uuidText a ∧ IsUuid4 (mkUUIDText (a.map UInt8.toBitVec)) ∧
    metaPattern ("v1/meta/".toList ++ mkUUIDText (a.map UInt8.toBitVec)) = some (mkUUIDText (a.map UInt8.toBitVec)) ∧
    (mkUUIDText (a.map UInt8.toBitVec) = mkUUIDText (b.map UInt8.toBitVec) ↔ AgreeFree a b) := by
  rw [mkUUIDText_eq ha, mkUUIDText_eq hb]
  exact ⟨rfl, uuidText_shape ha, metaPattern_uuidText a, uuidText_inj_iff ha hb⟩

/-- Sixteen bytes with the highest bit set. -/
theorem mkUUID_keeps_bits_sample : (List.replicate 16 (0xF5 : UInt8)).length = 16 ∧
    mkUUIDText ((List.replicate 16 (0xF5 : UInt8)).map UInt8.toBitVec) = "f5f5f5f5-f5f5-45f5-b5f5-f5f5f5f5f5f5".toList ∧
    IsUuid4 (mkUUIDText ((List.replicate 16 (0xF5 : UInt8)).map UInt8.toBitVec)) ∧
    ¬ AgreeFree (List.replicate 16 0xF5) (List.replicate 16 0x75) := by
  obtain ⟨-, hshape, -, heq⟩ := mkUUID_keeps_bits (a := List.replicate 16 0xF5) (b := List.replicate 16 0x75)
    (by decide) (by decide)
  refine ⟨by decide, by decide +kernel, hshape, fun h => ?_⟩
  have hsame := heq.2 h
  revert hsame
  decide +kernel

end OortAgent
