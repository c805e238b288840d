import Mathlib.Tactic.IntervalCases
import OortAgent.Checksums

/-!
# Checksums block by block

`getCrc` reads blocks of 1024 bytes and looks at the stream only after it has added one, so that the last block may
be short or empty. Whatever the length, it comes to the end of a file that can be read, and prints eight digits of
which the checksum can be told again.

* `crc32_lt`, `hexValue_hex8`: a checksum has 32 bits, and its digits give it back.
* `getCrc_runs`: there is a run on a file that can be read.
* `getCrc_texts_iff`: two files have the same text exactly if they have the same CRC-32.
-/

namespace OortAgent

open Lib

/-! ## Digits -/

/-- The value of a lower-case hexadecimal digit. -/
def hexDigitValue (c : Char) : Nat := if c.isDigit then c.toNat - 48 else c.toNat - 87

/-- The value of a hexadecimal number. -/
def hexValue (t : Str) : Nat := t.foldl (fun v c => 16 * v + hexDigitValue c) 0

/-- A lower-case hexadecimal digit. -/
def isLowerHex (c : Char) : Bool := "0123456789abcdef".toList.contains c

/-- The text is the number in eight lower-case hexadecimal digits, with zeros in front. -/
structure IsHex8 (t : Str) (n : Nat) : Prop where
  eight : t.length = 8
  digits : t.all isLowerHex = true
  value : hexValue t = n

theorem isLowerHex_hexDigit {d : Nat} (h : d < 16) : isLowerHex (hexDigit d) = true := by
  interval_cases d <;> decide

theorem hexDigitValue_hexDigit {d : Nat} (h : d < 16) : hexDigitValue (hexDigit d) = d := by
  interval_cases d <;> decide

/-- The digits of a number of 32 bits give it back. -/
theorem hexValue_hex8 {n : Nat} (h : n < 4294967296) : hexValue (hex8 n) = n := by
  have hmod : ∀ m, m % 16 < 16 := fun m => Nat.mod_lt m (by omega)
  simp only [hexValue, hex8, List.foldl_cons, List.foldl_nil, hexDigitValue_hexDigit (hmod _)]
  simp only [Nat.shiftRight_eq_div_pow]
  omega

theorem isHex8_hex8 {n : Nat} (h : n < 4294967296) : IsHex8 (hex8 n) n where
  eight := rfl
  digits := by
    have hmod : ∀ m, m % 16 < 16 := fun m => Nat.mod_lt m (by omega)
    simp only [hex8, List.all_cons, isLowerHex_hexDigit (hmod _), List.all_nil, Bool.and_self]
  value := hexValue_hex8 h

/-- Two such texts are the same exactly if the numbers are. -/
theorem hex8_inj {m n : Nat} (hm : m < 4294967296) (hn : n < 4294967296) : hex8 m = hex8 n ↔ m = n := by
  constructor
  · intro h
    rw [← hexValue_hex8 hm, h, hexValue_hex8 hn]
  · intro h
    rw [h]

/-! ## Checksums -/

theorem crcBit_lt {c : Nat} (h : c < 4294967296) : crcBit c < 4294967296 := by
  have hs : c >>> 1 < 2 ^ 32 := by
    rw [Nat.shiftRight_eq_div_pow]
    omega
  have hp : 0xEDB88320 * (c % 2) < 2 ^ 32 := by
    omega
  exact Nat.xor_lt_two_pow hs hp

theorem crcByte_lt {c : Nat} (b : UInt8) (h : c < 4294967296) : crcByte c b < 4294967296 := by
  have hb : b.toNat < 2 ^ 32 := Nat.lt_of_lt_of_le b.toNat_lt (by omega)
  have hx : c ^^^ b.toNat < 4294967296 := Nat.xor_lt_two_pow (n := 32) h hb
  exact crcBit_lt (crcBit_lt (crcBit_lt (crcBit_lt (crcBit_lt (crcBit_lt (crcBit_lt (crcBit_lt hx)))))))

/-- A checksum has 32 bits. -/
theorem crc32_lt {c : Nat} (hc : c < 4294967296) (buf : Bytes) : crc32 c buf < 4294967296 := by
  have hfold : ∀ (buf : Bytes) {c : Nat}, c < 4294967296 → buf.foldl crcByte c < 4294967296 := by
    intro buf
    induction buf with
    | nil => exact fun h => h
    | cons b bs ih => exact fun h => ih (crcByte_lt b h)
  have hx : c ^^^ 0xFFFFFFFF < 4294967296 := Nat.xor_lt_two_pow (n := 32) hc (by omega)
  exact Nat.xor_lt_two_pow (n := 32) (hfold buf hx) (by omega)

/-! ## Runs of `getCrc` -/

section Runs

variable {env : Env} {s : Site} {file : Str} {w : World} {k : Ino}

/-- The loop of `getCrc` has a run in which every block is read, one round for each full block and one for the rest. -/
theorem crcLoop_runs : ∀ {n : Nat} (off crc : Nat), (w.fs.inode k).data.length - off < n →
    ∃ tr c, Served tr ∧ Run Machine (Proc.loop n (crcRound s (.file k)) (off, crc)) w tr (.ret c) w
  | 0, _, _, hn => absurd hn (Nat.not_lt_zero _)
  | n + 1, off, crc, hn => by
    let b := ((w.fs.inode k).data.drop off).take 1024
    have he : (Op.fill (.file k) off 1024).exec {} w = some ((b, false), w) := rfl
    by_cases hlen : b.length < 1024
    · refine ⟨_, crc32 crc b, ?_, run_call.2 ⟨{}, (b, false), w, [], he, ?_, rfl⟩⟩
      · exact served_cons.2 ⟨rfl, fun e hm => by cases hm⟩
      · simp only [Proc.ret_bind, Proc.pure_eq]
        rw [if_pos (.inr hlen)]
        exact run_ret.2 ⟨rfl, rfl, rfl⟩
    · have hfull : b.length = 1024 := by
        have : b.length ≤ 1024 := List.length_take_le _ _
        omega
      have hleft : b.length ≤ (w.fs.inode k).data.length - off := by
        rw [← List.length_drop]
        exact List.length_take_le' _ _
      have hrest : (w.fs.inode k).data.length - (off + b.length) < n := by omega
      obtain ⟨tr, c, hs, hrun⟩ := crcLoop_runs (off + b.length) (crc32 crc b) hrest
      refine ⟨_, c, ?_, run_call.2 ⟨{}, (b, false), w, tr, he, ?_, rfl⟩⟩
      · exact served_cons.2 ⟨rfl, hs⟩
      · simp only [Proc.ret_bind, Proc.pure_eq]
        rw [if_neg (by simpa using hlen)]
        exact hrun

/-- `getCrc` has a run on a file that can be opened, in which nothing is refused. -/
theorem getCrc_runs (hopen : w.fs.pathOpen file = .ok (.file k)) (hf : (w.fs.inode k).data.length < env.fuel) :
    ∃ tr o, Served tr ∧ Run Machine (getCrc env s file) w tr o w := by
  have he : (Op.openRead file).exec {} w = some (.ok (.file k), w) := by
    show some (w.fs.pathOpen file, w) = _
    rw [hopen]
  obtain ⟨tr, c, hs, hrun⟩ := @crcLoop_runs s w k env.fuel 0 0 (by omega)
  refine ⟨_, .ret (hex8 c), ?_, run_call.2 ⟨{}, .ok (.file k), w, tr, he, ?_, rfl⟩⟩
  · exact served_cons.2 ⟨rfl, hs⟩
  · refine run_bind.2 (.inl ⟨c, w, tr, [], hrun, run_ret.2 ⟨rfl, rfl, rfl⟩, ?_⟩)
    rw [List.append_nil]

/-- There are runs of `getCrc` in which nothing is refused, and all of them give the text. -/
def Gives (env : Env) (s : Site) (file : Str) (w : World) (t : Str) : Prop :=
  (∃ tr w', Served tr ∧ Run Machine (getCrc env s file) w tr (.ret t) w') ∧
  ∀ tr o w', Served tr → Run Machine (getCrc env s file) w tr o w' → o = .ret t

/-- A file that can be opened has the text of its whole content. -/
theorem getCrc_gives (hopen : w.fs.pathOpen file = .ok (.file k)) (hf : (w.fs.inode k).data.length < env.fuel) :
    Gives env s file w (crcText (w.fs.inode k).data) := by
  have hall : ∀ tr o w', Served tr → Run Machine (getCrc env s file) w tr o w' →
      o = .ret (crcText (w.fs.inode k).data) :=
    fun tr o w' hs hrun => getCrc_served hrun hs (FS.pathOpen_file hopen).2.1 hf
  obtain ⟨tr, o, hs, hrun⟩ := getCrc_runs (s := s) hopen hf
  have ho := hall tr o w hs hrun
  subst ho
  exact ⟨⟨tr, w, hs, hrun⟩, hall⟩

end Runs

/-- **Checksums of whole files.** `getCrc` of a file that can be opened and read comes to its end and gives the
CRC-32 of the whole content in eight hexadecimal digits; two files have the same text if and only if they have the
same CRC-32. -/
theorem getCrc_texts_iff {env₁ env₂ : Env} {s₁ s₂ : Site} {file₁ file₂ : Str} {w₁ w₂ : World} {k₁ k₂ : Ino}
    (hopen₁ : w₁.fs.pathOpen file₁ = .ok (.file k₁)) (hf₁ : (w₁.fs.inode k₁).data.length < env₁.fuel)
    (hopen₂ : w₂.fs.pathOpen file₂ = .ok (.file k₂)) (hf₂ : (w₂.fs.inode k₂).data.length < env₂.fuel) :
    ∃ t₁ t₂, Gives env₁ s₁ file₁ w₁ t₁ ∧ IsHex8 t₁ (crc32 0 (w₁.fs.inode k₁).data) ∧
      Gives env₂ s₂ file₂ w₂ t₂ ∧ IsHex8 t₂ (crc32 0 (w₂.fs.inode k₂).data) ∧
      (t₁ = t₂ ↔ crc32 0 (w₁.fs.inode k₁).data = crc32 0 (w₂.fs.inode k₂).data) := by
  have hlt : ∀ data, crc32 0 data < 4294967296 := fun data => crc32_lt (by omega) data
  exact ⟨_, _, getCrc_gives hopen₁ hf₁, isHex8_hex8 (hlt _), getCrc_gives hopen₂ hf₂, isHex8_hex8 (hlt _),
    hex8_inj (hlt _) (hlt _)⟩

/-- The sample world with an empty file `/a/y`. -/
def Sample.withEmpty : World := { Sample.world with fs := Sample.fs.putFile "y".toList ["a".toList] ⟨[], true, 0, 0⟩ }

/-- A file of two bytes and an empty one. -/
theorem getCrc_texts_iff_sample : ∃ t₁ t₂,
    Gives (Sample.env Sample.noCodec) .sendInfo "/a/x".toList Sample.withEmpty t₁ ∧
    Gives (Sample.env Sample.noCodec) .verify "/a/y".toList Sample.withEmpty t₂ ∧ t₁ ≠ t₂ := by
  have hx : (Sample.withEmpty.fs.inode 0).data = [104, 105] := by decide +kernel
  have hy : (Sample.withEmpty.fs.inode 1).data = [] := by decide +kernel
  obtain ⟨t₁, t₂, h₁, -, h₂, -, hiff⟩ := @getCrc_texts_iff (Sample.env Sample.noCodec) (Sample.env Sample.noCodec)
    .sendInfo .verify "/a/x".toList "/a/y".toList Sample.withEmpty Sample.withEmpty 0 1 (by decide +kernel)
    (by decide +kernel) (by decide +kernel) (by decide +kernel)
  refine ⟨t₁, t₂, h₁, h₂, fun he => ?_⟩
  have hcrc := hiff.1 he
  rw [hx, hy] at hcrc
  exact absurd hcrc (by decide +kernel)

end OortAgent
