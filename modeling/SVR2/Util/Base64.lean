import Mathlib.Data.UInt
import Mathlib.Tactic.IntervalCases
import SVR2.Basic

/-!
# Base64

`util/base64.cc`.  Both directions keep the bits that are still to be written in a 16-bit
accumulator, out of whose top earlier bits fall.  The decoder works in place: it writes the decoded
bytes over the text that it has read.
-/

namespace SVR2.Util

/-- `Base64Encoding`.  `decode` has -1 at what is not a character of the alphabet. -/
structure Base64Encoding where
  decode : List Int
  encode : Bytes
  encode_length : encode.length = 64

namespace Base64Encoding

/-- `encode[offset]`, where `offset` has been masked with `0x3f`. -/
def char (enc : Base64Encoding) (offset : Fin 64) : Byte :=
  enc.encode.get (offset.cast enc.encode_length.symm)

theorem exists_char (enc : Base64Encoding) {b : Byte} (hb : b ∈ enc.encode) :
    ∃ d, enc.char d = b := by
  obtain ⟨d, hd⟩ := List.mem_iff_get.mp hb
  exact ⟨d.cast enc.encode_length, hd⟩

/-- `decode[(size_t) next]`: a `char` is signed, and one with its top bit set is an index far
    outside the table. -/
def value (enc : Base64Encoding) (next : Byte) : Option Int :=
  enc.decode[if next < 128 then next.val else 2 ^ 64 - 256 + next.val]?

end Base64Encoding

def alphanumerics : List Char :=
  ['A', 'B', 'C', 'D', 'E', 'F', 'G', 'H', 'I', 'J', 'K', 'L', 'M', 'N', 'O', 'P', 'Q', 'R', 'S',
   'T', 'U', 'V', 'W', 'X', 'Y', 'Z', 'a', 'b', 'c', 'd', 'e', 'f', 'g', 'h', 'i', 'j', 'k', 'l',
   'm', 'n', 'o', 'p', 'q', 'r', 's', 't', 'u', 'v', 'w', 'x', 'y', 'z', '0', '1', '2', '3', '4',
   '5', '6', '7', '8', '9']

def charBytes (l : List Char) : Bytes := l.map fun c => Fin.ofNat 256 c.toNat

def B64STD : Base64Encoding where
  decode := [
    -1, -1, -1, -1, -1, -1, -1, -1, -1, -1, -1, -1, -1, -1, -1, -1,
    -1, -1, -1, -1, -1, -1, -1, -1, -1, -1, -1, -1, -1, -1, -1, -1,
    -1, -1, -1, -1, -1, -1, -1, -1, -1, -1, -1, 62, -1, -1, -1, 63,
    52, 53, 54, 55, 56, 57, 58, 59, 60, 61, -1, -1, -1, -1, -1, -1,
    -1,  0,  1,  2,  3,  4,  5,  6,  7,  8,  9, 10, 11, 12, 13, 14,
    15, 16, 17, 18, 19, 20, 21, 22, 23, 24, 25, -1, -1, -1, -1, -1,
    -1, 26, 27, 28, 29, 30, 31, 32, 33, 34, 35, 36, 37, 38, 39, 40,
    41, 42, 43, 44, 45, 46, 47, 48, 49, 50, 51, -1, -1, -1, -1, -1] ++ List.replicate 128 (-1)
  encode := charBytes (alphanumerics ++ ['+', '/'])
  encode_length := rfl

def B64URL : Base64Encoding where
  decode := [
    -1, -1, -1, -1, -1, -1, -1, -1, -1, -1, -1, -1, -1, -1, -1, -1,
    -1, -1, -1, -1, -1, -1, -1, -1, -1, -1, -1, -1, -1, -1, -1, -1,
    -1, -1, -1, -1, -1, -1, -1, -1, -1, -1, -1, -1, -1, 62, -1, -1,
    52, 53, 54, 55, 56, 57, 58, 59, 60, 61, -1, -1, -1, -1, -1, -1,
    -1,  0,  1,  2,  3,  4,  5,  6,  7,  8,  9, 10, 11, 12, 13, 14,
    15, 16, 17, 18, 19, 20, 21, 22, 23, 24, 25, -1, -1, -1, -1, 63,
    -1, 26, 27, 28, 29, 30, 31, 32, 33, 34, 35, 36, 37, 38, 39, 40,
    41, 42, 43, 44, 45, 46, 47, 48, 49, 50, 51, -1, -1, -1, -1, -1] ++ List.replicate 128 (-1)
  encode := charBytes (alphanumerics ++ ['-', '_'])
  encode_length := rfl

def padding : Byte := 61

/-- The loop of `B64DecodeInline` at index `i`, with `n` characters left to read.  The result is the
    error and what `*inout` is then; a failed `CHECK`, or an access outside the string or the table,
    is `none`. -/
def decodeLoop (enc : Base64Encoding) :
    Nat → Nat → Bytes → Nat → UInt16 → UInt16 → Option (Error × Bytes)
  | 0, _, inout, j, _, _ => some (.ok, inout.take j)
  | n + 1, i, inout, j, accumulator, bits => do
    let next ← inout[i]?
    if next = padding then
      -- any number of padding characters, and nothing else, may follow
      if (inout.drop (i + 1)).all (· = padding) then some (.ok, inout.take j)
      else some (.utilBase64InvalidPadding, inout)
    else
      let c ← enc.value next
      if c = -1 then some (.utilBase64InvalidChar, inout)
      else
        let accumulator := (accumulator <<< 6) ||| UInt16.ofInt c
        let bits := bits + 6
        if 8 ≤ bits then
          if j ≤ i then
            decodeLoop enc n (i + 1) (inout.set j (Fin.ofNat 256 (accumulator >>> (bits - 8)).toNat))
              (j + 1) accumulator (bits - 8)
          else none
        else decodeLoop enc n (i + 1) inout j accumulator bits

def b64DecodeInline (inout : Bytes) (enc : Base64Encoding) : Option (Error × Bytes) :=
  decodeLoop enc inout.length 0 inout 0 0 0

/-- The inner loop of `Base64Encode`: six of the `bits` bits that `work` still holds, at a time. -/
def emit (enc : Base64Encoding) (work : UInt16) : Nat → Bytes → Nat × Bytes
  | bits + 6, out =>
    emit enc work bits (out ++ [enc.char (Fin.ofNat 64 (work >>> UInt16.ofNat bits).toNat)])
  | bits, out => (bits, out)

def encodeLoop (enc : Base64Encoding) : Bytes → Nat → UInt16 → Bytes → Nat × UInt16 × Bytes
  | [], bits, work, out => (bits, work, out)
  | b :: rest, bits, work, out =>
    let bits := bits + 8
    let work := (work <<< 8) ||| UInt16.ofNat b
    let (bits, out) := emit enc work bits out
    encodeLoop enc rest bits work out

/-- `Base64Encode` after its loop; `pad` is the parameter `padding`, which hides the character of
    that name. -/
def encodeRest (enc : Base64Encoding) (pad : Bool) : Nat × UInt16 × Bytes → Bytes
  | (bits, work, out) =>
    if bits ≠ 0 then
      let work := work <<< UInt16.ofNat (6 - bits)
      out ++ [enc.char (Fin.ofNat 64 work.toNat)] ++
        if pad then (if bits = 2 then [padding, padding] else [padding]) else []
    else out

def base64Encode (input : Bytes) (enc : Base64Encoding) (pad : Bool) : Bytes :=
  encodeRest enc pad (encodeLoop enc input 0 0 [])

/-! ### The accumulators as numbers -/

/-- Shifting in `k` bits multiplies, adds and drops what no longer fits. -/
theorem toNat_shiftLeft_or (w : UInt16) {k x : Nat} (hk : k < 16) (hx : x < 2 ^ k) :
    ((w <<< UInt16.ofNat k) ||| UInt16.ofNat x).toNat = (w.toNat * 2 ^ k + x) % 2 ^ 16 := by
  have hpow : 2 ^ k ∣ 2 ^ 16 := pow_dvd_pow 2 hk.le
  have hxlt : x < 2 ^ 16 := hx.trans (Nat.pow_lt_pow_right (by decide) hk)
  have hshift : (w <<< UInt16.ofNat k).toNat = w.toNat * 2 ^ k % 2 ^ 16 := by
    rw [UInt16.toNat_shiftLeft, UInt16.toNat_ofNat', Nat.mod_eq_of_lt (a := k) (by omega),
      Nat.mod_eq_of_lt hk, Nat.shiftLeft_eq]
  have hdvd : 2 ^ k ∣ w.toNat * 2 ^ k % 2 ^ 16 := (Nat.dvd_mod_iff hpow).mpr (Nat.dvd_mul_left _ _)
  -- the shifted number leaves room for `x` below the next multiple of `2 ^ k`
  have hroom : w.toNat * 2 ^ k % 2 ^ 16 + x < 2 ^ 16 := by
    have hlt := Nat.mod_lt (w.toNat * 2 ^ k) (show 2 ^ 16 > 0 by decide)
    have hle := Nat.le_of_dvd (Nat.sub_pos_of_lt hlt) (Nat.dvd_sub hpow hdvd)
    omega
  obtain ⟨q, hq⟩ := hdvd
  rw [UInt16.toNat_or, hshift, UInt16.toNat_ofNat', Nat.mod_eq_of_lt hxlt, hq,
    ← Nat.two_pow_add_eq_or_of_lt hx, ← hq, Nat.add_mod, Nat.mod_eq_of_lt hxlt,
    Nat.mod_eq_of_lt hroom]

theorem toNat_shiftRight (w : UInt16) {k : Nat} (hk : k < 16) :
    (w >>> UInt16.ofNat k).toNat = w.toNat / 2 ^ k := by
  rw [UInt16.toNat_shiftRight, UInt16.toNat_ofNat', Nat.mod_eq_of_lt (a := k) (by omega),
    Nat.mod_eq_of_lt hk, Nat.shiftRight_eq_div_pow]

/-! ### Digits

The base64 digits of a string, in groups of three bytes and four digits, are what both loops agree
on. -/

/-- The digits of a string.  Bits that are missing in the last digit are zero. -/
def digits : Bytes → List (Fin 64)
  | a :: b :: c :: rest =>
    .ofNat 64 (a / 4) :: .ofNat 64 (a % 4 * 16 + b / 16) :: .ofNat 64 (b % 16 * 4 + c / 64) ::
      .ofNat 64 c :: digits rest
  | [a, b] => [.ofNat 64 (a / 4), .ofNat 64 (a % 4 * 16 + b / 16), .ofNat 64 (b % 16 * 4)]
  | [a] => [.ofNat 64 (a / 4), .ofNat 64 (a % 4 * 16)]
  | [] => []

/-- What `B64DecodeInline` writes for the digits it reads. -/
def decodeDigits : UInt16 → UInt16 → List (Fin 64) → Bytes
  | _, _, [] => []
  | accumulator, bits, d :: rest =>
    let accumulator := (accumulator <<< 6) ||| UInt16.ofNat d
    let bits := bits + 6
    if 8 ≤ bits then
      .ofNat 256 (accumulator >>> (bits - 8)).toNat :: decodeDigits accumulator (bits - 8) rest
    else decodeDigits accumulator bits rest

theorem toNat_push (w : UInt16) (d : Fin 64) :
    ((w <<< 6) ||| UInt16.ofNat d).toNat = (w.toNat * 64 + d) % 2 ^ 16 :=
  toNat_shiftLeft_or w (by decide) d.isLt

theorem bits_spec {k : Nat} (hk : k < 8) :
    (8 ≤ UInt16.ofNat k + 6 ↔ 2 ≤ k) ∧
      (2 ≤ k → UInt16.ofNat k + 6 - 8 = UInt16.ofNat (k - 2)) ∧
      UInt16.ofNat k + 6 = UInt16.ofNat (k + 6) := by
  interval_cases k <;> decide

theorem decodeDigits_cons (w : UInt16) (d : Fin 64) (rest : List (Fin 64)) {k : Nat} (hk : k < 8) :
    decodeDigits w (.ofNat k) (d :: rest) =
      if 2 ≤ k then
        .ofNat 256 ((w.toNat * 64 + d) % 2 ^ 16 / 2 ^ (k - 2)) ::
          decodeDigits ((w <<< 6) ||| UInt16.ofNat d) (.ofNat (k - 2)) rest
      else decodeDigits ((w <<< 6) ||| UInt16.ofNat d) (.ofNat (k + 6)) rest := by
  obtain ⟨hle, hsub, hadd⟩ := bits_spec hk
  rw [decodeDigits]
  simp only [hle]
  split_ifs with h
  · rw [hsub h, toNat_shiftRight _ (by omega), toNat_push]
  · rw [hadd]

/-- Whatever earlier bits the accumulator holds, the digits of a string give the string back. -/
theorem decodeDigits_digits (x : Bytes) (w : UInt16) : decodeDigits w 0 (digits x) = x := by
  have hzero : ∀ (w : UInt16) (l : List (Fin 64)),
      decodeDigits w 0 l = decodeDigits w (.ofNat 0) l := fun _ _ => rfl
  induction x using digits.induct generalizing w with
  | case1 a b c rest ih =>
    rw [digits, hzero, decodeDigits_cons _ _ _ (by decide), if_neg (by decide),
      decodeDigits_cons _ _ _ (by decide), if_pos (by decide), toNat_push,
      decodeDigits_cons _ _ _ (by decide), if_pos (by decide), toNat_push, toNat_push,
      decodeDigits_cons _ _ _ (by decide), if_pos (by decide), toNat_push, toNat_push, toNat_push]
    refine congrArg₂ _ ?_ (congrArg₂ _ ?_ (congrArg₂ _ ?_ (ih _)))
    all_goals
      ext
      simp only [Fin.val_ofNat]
      omega
  | case2 a b =>
    rw [digits, hzero, decodeDigits_cons _ _ _ (by decide), if_neg (by decide),
      decodeDigits_cons _ _ _ (by decide), if_pos (by decide), toNat_push,
      decodeDigits_cons _ _ _ (by decide), if_pos (by decide), toNat_push, toNat_push, decodeDigits]
    refine congrArg₂ _ ?_ (congrArg₂ _ ?_ rfl)
    all_goals
      ext
      simp only [Fin.val_ofNat]
      omega
  | case3 a =>
    rw [digits, hzero, decodeDigits_cons _ _ _ (by decide), if_neg (by decide),
      decodeDigits_cons _ _ _ (by decide), if_pos (by decide), toNat_push, decodeDigits]
    refine congrArg₂ _ ?_ rfl
    ext
    simp only [Fin.val_ofNat]
    omega
  | case4 => rfl

/-! ### The encoder writes the digits -/

theorem toNat_work (w : UInt16) (b : Byte) :
    ((w <<< 8) ||| UInt16.ofNat b).toNat = (w.toNat * 256 + b) % 2 ^ 16 :=
  toNat_shiftLeft_or w (by decide) b.isLt

def paddingOf (pad : Bool) (n : Nat) : Bytes :=
  if pad then List.replicate ((3 - n % 3) % 3) padding else []

section Encode

variable (enc : Base64Encoding) (pad : Bool)

/-- The loop on one byte: of the bits that are there and the eight new ones, the first six are
    written, and the next six if there are twelve. -/
theorem encodeLoop_cons (b : Byte) (rest : Bytes) (w : UInt16) (out : Bytes) :
    let w' := (w <<< 8) ||| UInt16.ofNat b
    encodeLoop enc (b :: rest) 0 w out =
        encodeLoop enc rest 2 w' (out ++ [enc.char (.ofNat 64 (w'.toNat / 2 ^ 2))]) ∧
      encodeLoop enc (b :: rest) 2 w out =
        encodeLoop enc rest 4 w' (out ++ [enc.char (.ofNat 64 (w'.toNat / 2 ^ 4))]) ∧
      encodeLoop enc (b :: rest) 4 w out =
        encodeLoop enc rest 0 w' (out ++ [enc.char (.ofNat 64 (w'.toNat / 2 ^ 6))] ++
          [enc.char (.ofNat 64 (w'.toNat / 2 ^ 0))]) := by
  intro w'
  refine ⟨?_, ?_, ?_⟩
  · rw [← toNat_shiftRight w' (by decide)]
    rfl
  · rw [← toNat_shiftRight w' (by decide)]
    rfl
  · rw [← toNat_shiftRight w' (by decide), ← toNat_shiftRight w' (by decide)]
    rfl

/-- The last digit, when `bits` bits are left over. -/
theorem encodeRest_of_left {bits k : Nat} (hsum : bits + k = 6) (hbits : bits ≠ 0) (w : UInt16)
    (out : Bytes) :
    encodeRest enc pad (bits, w, out) = out ++ [enc.char (.ofNat 64 (w.toNat * 2 ^ k % 2 ^ 16))] ++
      if pad then (if bits = 2 then [padding, padding] else [padding]) else [] := by
  obtain rfl : k = 6 - bits := by omega
  have h := toNat_shiftLeft_or w (show 6 - bits < 16 by omega) (Nat.two_pow_pos _)
  rw [show UInt16.ofNat 0 = 0 from rfl, UInt16.or_zero, Nat.add_zero] at h
  rw [encodeRest, if_pos hbits, ← h]

/-- The bits of a digit, taken out of `work`: what earlier bytes left above them does not count. -/
theorem work_digits (w : Nat) (a b c : Byte) :
    Fin.ofNat 64 ((w * 256 + a) % 2 ^ 16 / 2 ^ 2) = Fin.ofNat 64 (a / 4) ∧
      Fin.ofNat 64 (((w * 256 + a) % 2 ^ 16 * 256 + b) % 2 ^ 16 / 2 ^ 4) =
        Fin.ofNat 64 (a % 4 * 16 + b / 16) ∧
      Fin.ofNat 64 (((w * 256 + b) % 2 ^ 16 * 256 + c) % 2 ^ 16 / 2 ^ 6) =
        Fin.ofNat 64 (b % 16 * 4 + c / 64) ∧
      Fin.ofNat 64 ((w * 256 + c) % 2 ^ 16 / 2 ^ 0) = Fin.ofNat 64 c ∧
      Fin.ofNat 64 ((w * 256 + a) % 2 ^ 16 * 2 ^ 4 % 2 ^ 16) = Fin.ofNat 64 (a % 4 * 16) ∧
      Fin.ofNat 64 ((w * 256 + b) % 2 ^ 16 * 2 ^ 2 % 2 ^ 16) = Fin.ofNat 64 (b % 16 * 4) := by
  refine ⟨?_, ?_, ?_, ?_, ?_, ?_⟩
  all_goals
    ext
    simp only [Fin.val_ofNat]
    omega

/-- The loop and what follows it write the digits, whatever `work` still holds of earlier bytes. -/
theorem encodeRest_encodeLoop (x : Bytes) (w : UInt16) (out : Bytes) :
    encodeRest enc pad (encodeLoop enc x 0 w out) =
      out ++ (digits x).map enc.char ++ paddingOf pad x.length := by
  induction x using digits.induct generalizing w out with
  | case1 a b c rest ih =>
    have hpadding : paddingOf pad (a :: b :: c :: rest).length = paddingOf pad rest.length := by
      simp only [paddingOf, List.length_cons, Nat.add_assoc, Nat.reduceAdd, Nat.add_mod_right]
    obtain ⟨h₁, h₂, -⟩ := work_digits w.toNat a b c
    rw [(encodeLoop_cons enc a _ _ _).1, (encodeLoop_cons enc b _ _ _).2.1,
      (encodeLoop_cons enc c _ _ _).2.2, ih, digits, hpadding]
    simp only [toNat_work, h₁, h₂, (work_digits _ a b c).2.2.1, (work_digits _ a b c).2.2.2.1,
      List.append_assoc, List.map_cons, List.cons_append, List.nil_append]
  | case2 a b =>
    obtain ⟨h₁, h₂, -⟩ := work_digits w.toNat a b 0
    rw [(encodeLoop_cons enc a _ _ _).1, (encodeLoop_cons enc b _ _ _).2.1, encodeLoop,
      encodeRest_of_left enc pad (k := 2) rfl (by decide), digits]
    simp only [toNat_work, h₁, h₂, (work_digits _ a b 0).2.2.2.2.2, List.append_assoc,
      List.map_cons, List.map_nil, List.cons_append, List.nil_append]
    rfl
  | case3 a =>
    obtain ⟨h₁, -, -, -, h₂, -⟩ := work_digits w.toNat a 0 0
    rw [(encodeLoop_cons enc a _ _ _).1, encodeLoop,
      encodeRest_of_left enc pad (k := 4) rfl (by decide), digits]
    simp only [toNat_work, h₁, h₂, List.append_assoc, List.map_cons, List.map_nil, List.cons_append,
      List.nil_append]
    rfl
  | case4 => cases pad <;> simp [encodeLoop, encodeRest, digits, paddingOf]

theorem base64Encode_eq (x : Bytes) :
    base64Encode x enc pad = (digits x).map enc.char ++ paddingOf pad x.length := by
  rw [base64Encode, encodeRest_encodeLoop, List.nil_append]

end Encode

/-! ### The decoder works in place -/

structure Base64Encoding.Lawful (enc : Base64Encoding) : Prop where
  value_char : ∀ d : Fin 64, enc.value (enc.char d) = some (d : Int)
  char_ne_padding : ∀ d : Fin 64, enc.char d ≠ padding
  value_eq_none_iff : ∀ next : Byte, enc.value next = none ↔ 128 ≤ next

theorem B64STD_lawful : B64STD.Lawful :=
  ⟨by decide +kernel, by decide +kernel, by decide +kernel⟩

theorem B64URL_lawful : B64URL.Lawful :=
  ⟨by decide +kernel, by decide +kernel, by decide +kernel⟩

/-- What the decoding table has for a byte is where the alphabet has the byte. -/
theorem B64STD_value_or_encode (b : Byte) (hb : b < 128) :
    (B64STD.value b = none ∨ B64STD.value b = some (-1)) ∨
      B64STD.encode[((B64STD.value b).getD 0).toNat]? = some b := by
  decide +kernel +revert

theorem B64URL_value_or_encode (b : Byte) (hb : b < 128) :
    (B64URL.value b = none ∨ B64URL.value b = some (-1)) ∨
      B64URL.encode[((B64URL.value b).getD 0).toNat]? = some b := by
  decide +kernel +revert

section Decode

variable {enc : Base64Encoding} {inout : Bytes} {i j k : Nat}

/-- Writing at `j`, not after the character just read, extends what has been decoded and leaves
    what is still to be read. -/
theorem write_spec (v : Byte) (hji : j ≤ i) (hi : i < inout.length) :
    (inout.set j v).take (j + 1) = inout.take j ++ [v] ∧
      (inout.set j v).drop (i + 1) = inout.drop (i + 1) := by
  constructor
  · rw [List.take_add_one, List.take_set_of_le (le_refl j), List.getElem?_set_self (by omega)]
    rfl
  · exact List.drop_set_of_lt (by omega)

theorem decodeLoop_char {next : Byte} {c : Int} (hnext : inout[i]? = some next)
    (hne : next ≠ padding) (hc : enc.value next = some c) (hvalid : c ≠ -1) (hk : k < 8)
    (hji : j ≤ i) (n : Nat) (w : UInt16) :
    let w' := (w <<< 6) ||| UInt16.ofInt c
    decodeLoop enc (n + 1) i inout j w (.ofNat k) =
      if 2 ≤ k then
        decodeLoop enc n (i + 1) (inout.set j (.ofNat 256 (w' >>> UInt16.ofNat (k - 2)).toNat))
          (j + 1) w' (.ofNat (k - 2))
      else decodeLoop enc n (i + 1) inout j w' (.ofNat (k + 6)) := by
  intro w'
  obtain ⟨hle, hsub, hadd⟩ := bits_spec hk
  rw [decodeLoop, hnext, Option.bind_eq_bind, Option.bind_some, if_neg hne, hc,
    Option.bind_eq_bind, Option.bind_some, if_neg hvalid]
  simp only [hle, if_pos hji]
  split_ifs with h
  · rw [hsub h]
  · rw [hadd]

/-- On the characters of digits and any padding, the loop appends the bytes of the digits to those
    decoded before: `8 * j + k` bits have been read as `i` characters. -/
theorem decodeLoop_eq (h : enc.Lawful) (l : List (Fin 64)) (p : Nat)
    (htext : inout.drop i = l.map enc.char ++ List.replicate p padding) (hk : k < 8)
    (hpos : 8 * j + k = 6 * i) (w : UInt16) :
    decodeLoop enc (l.length + p) i inout j w (.ofNat k) =
      some (.ok, inout.take j ++ decodeDigits w (.ofNat k) l) := by
  induction l generalizing inout i j k w with
  | nil =>
    rw [decodeDigits, List.append_nil]
    rw [List.map_nil, List.nil_append] at htext
    obtain _ | p := p
    · rfl
    · rw [List.replicate_succ] at htext
      have hnext : inout[i]? = some padding := by
        rw [← List.head?_drop, htext, List.head?_cons]
      have hrest : inout.drop (i + 1) = List.replicate p padding := by
        rw [← List.tail_drop, htext, List.tail_cons]
      rw [List.length_nil, Nat.zero_add, decodeLoop, hnext, Option.bind_eq_bind, Option.bind_some,
        if_pos rfl, hrest, if_pos]
      simp
  | cons d l ih =>
    rw [List.map_cons, List.cons_append] at htext
    have hnext : inout[i]? = some (enc.char d) := by
      rw [← List.head?_drop, htext, List.head?_cons]
    have hrest : inout.drop (i + 1) = l.map enc.char ++ List.replicate p padding := by
      rw [← List.tail_drop, htext, List.tail_cons]
    have hi : i < inout.length := (List.getElem?_eq_some_iff.mp hnext).1
    have hofInt : UInt16.ofInt (d : Int) = UInt16.ofNat d := by
      rw [UInt16.ofInt, Int.emod_eq_of_lt (by omega) (by omega), Int.toNat_natCast]
    have hji : j ≤ i := by omega
    have hstep := decodeLoop_char hnext (h.char_ne_padding d) (h.value_char d) (by omega) hk hji
      (l.length + p) w
    rw [List.length_cons, Nat.add_right_comm, hstep, hofInt, decodeDigits_cons w d l hk, ← toNat_push]
    split_ifs with hfull
    · obtain ⟨htake, hdrop⟩ := write_spec (.ofNat 256 (((w <<< 6) ||| UInt16.ofNat d) >>>
        UInt16.ofNat (k - 2)).toNat) hji hi
      rw [ih (hdrop.trans hrest) (by omega) (by omega), htake, List.append_assoc,
        toNat_shiftRight _ (by omega)]
      rfl
    · exact ih hrest (by omega) (by omega) _

/-- What the loop does with a text depends on its first byte outside the alphabet.  If that one has its
    top bit set, the loop leaves the table.  Otherwise it leaves neither the table nor the string, and
    such a byte before the padding makes it return an error. -/
theorem decodeLoop_spec (h : enc.Lawful)
    (houtside : ∀ b < 128, b ∉ enc.encode → enc.value b = none ∨ enc.value b = some (-1)) (n : Nat)
    (hlen : i + n = inout.length) (hk : k < 8) (hpos : 8 * j + k = 6 * i) (w : UInt16) :
    ((∃ b, (inout.drop i).find? (· ∉ enc.encode) = some b ∧ 128 ≤ b) →
        decodeLoop enc n i inout j w (.ofNat k) = none) ∧
      ((∀ b, (inout.drop i).find? (· ∉ enc.encode) = some b → b < 128) →
        ∃ err out, decodeLoop enc n i inout j w (.ofNat k) = some (err, out) ∧
          ((∃ b ∈ (inout.drop i).takeWhile (· ≠ padding), b ∉ enc.encode) → err ≠ .ok)) := by
  induction n generalizing inout i j k w with
  | zero =>
    rw [List.drop_of_length_le (by omega)]
    refine ⟨by simp, fun _ => ⟨.ok, inout.take j, rfl, by simp⟩⟩
  | succ n ih =>
    have hi : i < inout.length := by omega
    have hnext : inout[i]? = some inout[i] := List.getElem?_eq_getElem hi
    rw [List.drop_eq_getElem_cons hi]
    by_cases hmem : inout[i] ∈ enc.encode
    · obtain ⟨d, hd⟩ := enc.exists_char hmem
      have hne : inout[i] ≠ padding := by
        rw [← hd]
        exact h.char_ne_padding d
      have hc : enc.value inout[i] = some (d : Int) := by
        rw [← hd]
        exact h.value_char d
      rw [List.find?_cons_of_neg (by simpa using hmem),
        decodeLoop_char hnext hne hc (by omega) hk (by omega),
        List.takeWhile_cons_of_pos (by simpa using hne)]
      -- The loop goes on with the same text; a byte outside the alphabet can only come later.
      simp only [List.exists_mem_cons_iff, hmem, not_true_eq_false, false_or]
      split_ifs
      · obtain ⟨-, hdrop⟩ := write_spec (.ofNat 256 (((w <<< 6) ||| UInt16.ofInt (d : Int)) >>>
          UInt16.ofNat (k - 2)).toNat) (show j ≤ i by omega) hi
        rw [← hdrop]
        exact ih (j := j + 1) (k := k - 2) (by rw [List.length_set]; omega) (by omega) (by omega) _
      · exact ih (j := j) (k := k + 6) (by omega) (by omega) (by omega) _
    · rw [decodeLoop, hnext, Option.bind_eq_bind, Option.bind_some,
        List.find?_cons_of_pos (by simpa using hmem)]
      simp only [Option.some.injEq, exists_eq_left', forall_eq']
      by_cases hpad : inout[i] = padding
      · -- Nothing stands before the padding, which has its top bit clear.
        rw [if_pos hpad, List.takeWhile_cons_of_neg (by simpa using hpad), hpad]
        refine ⟨fun htop => absurd htop (by decide), fun _ => ?_⟩
        split_ifs
        · exact ⟨_, _, rfl, by simp⟩
        · exact ⟨_, _, rfl, by simp⟩
      · rw [if_neg hpad]
        refine ⟨fun htop => ?_, fun hlow => ?_⟩
        · rw [(h.value_eq_none_iff _).mpr htop]
          rfl
        · have hc := (houtside _ hlow hmem).resolve_left
            fun hnone => hlow.not_ge ((h.value_eq_none_iff _).mp hnone)
          rw [hc, Option.bind_eq_bind, Option.bind_some, if_pos rfl]
          exact ⟨_, _, rfl, fun _ => by rintro ⟨⟩⟩

/-- The decoder is right about a text exactly if its first byte outside the alphabet, if there is one,
    has its top bit clear. -/
theorem b64DecodeInline_iff (h : enc.Lawful)
    (houtside : ∀ b < 128, b ∉ enc.encode → enc.value b = none ∨ enc.value b = some (-1)) :
    (∃ err out, b64DecodeInline inout enc = some (err, out) ∧
        ((∃ b ∈ inout.takeWhile (· ≠ padding), b ∉ enc.encode) → err ≠ .ok)) ↔
      ∀ b, inout.find? (· ∉ enc.encode) = some b → b < 128 := by
  obtain ⟨hleaves, hstays⟩ := decodeLoop_spec (i := 0) (j := 0) (k := 0) h houtside inout.length
    (Nat.zero_add _) (by decide) rfl 0
  refine ⟨?_, hstays⟩
  rintro ⟨err, out, hdecode, -⟩ b hb
  by_contra htop
  have hnone : b64DecodeInline inout enc = none := hleaves ⟨b, hb, not_lt.mp htop⟩
  rw [hnone] at hdecode
  cases hdecode

end Decode

theorem b64DecodeInline_encode {enc : Base64Encoding} (h : enc.Lawful) (x : Bytes) (pad : Bool) :
    b64DecodeInline (base64Encode x enc pad) enc = some (.ok, x) := by
  obtain ⟨p, hp⟩ : ∃ p, paddingOf pad x.length = List.replicate p padding := by
    unfold paddingOf
    split
    · exact ⟨_, rfl⟩
    · exact ⟨0, rfl⟩
  have htext : base64Encode x enc pad = (digits x).map enc.char ++ List.replicate p padding := by
    rw [base64Encode_eq, hp]
  have hlen : (base64Encode x enc pad).length = (digits x).length + p := by
    rw [htext, List.length_append, List.length_map, List.length_replicate]
  have hloop := decodeLoop_eq (i := 0) (j := 0) (k := 0) h (digits x) p htext (by decide) rfl 0
  rw [b64DecodeInline, hlen]
  refine hloop.trans ?_
  rw [List.take_zero, List.nil_append]
  exact congrArg (fun l => some (Error.ok, l)) (decodeDigits_digits x 0)

/-- The decoder reads its table only where it has entries, fails no `CHECK`, and rejects a string with a
    byte outside the alphabet before the padding, exactly if the first byte outside the alphabet has its
    top bit clear. -/
theorem outside_alphabet_rejected (enc : Base64Encoding) (henc : enc = B64STD ∨ enc = B64URL)
    (inout : Bytes) :
    (∃ err out, b64DecodeInline inout enc = some (err, out) ∧
        ((∃ b ∈ inout.takeWhile (· ≠ padding), b ∉ enc.encode) → err ≠ .ok)) ↔
      ∀ b, inout.find? (· ∉ enc.encode) = some b → b < 128 := by
  rcases henc with rfl | rfl
  · exact b64DecodeInline_iff B64STD_lawful
      fun b hlow hb => (B64STD_value_or_encode b hlow).resolve_right (mt List.mem_of_getElem? hb)
  · exact b64DecodeInline_iff B64URL_lawful
      fun b hlow hb => (B64URL_value_or_encode b hlow).resolve_right (mt List.mem_of_getElem? hb)

theorem outside_alphabet_rejected_star :
    ∃ err out, b64DecodeInline (charBytes ['Z', '*', 'g', '=']) B64STD = some (err, out) ∧
      err ≠ .ok := by
  obtain ⟨err, out, hdecode, herr⟩ := (outside_alphabet_rejected B64STD (.inl rfl)
    (charBytes ['Z', '*', 'g', '='])).mpr fun b hb => by
      obtain rfl : b = 42 := (Option.some.inj hb).symm
      decide
  exact ⟨err, out, hdecode, herr ⟨42, by decide, by decide⟩⟩

/-- A byte with its top bit set is looked up at position `2 ^ 64 - 56`. -/
theorem top_bit_leaves_table : b64DecodeInline [200] B64STD = none := by
  rfl

/-- Decoding in place gives back what was encoded, in both alphabets and with or without padding. -/
theorem base64_round_trip (x : Bytes) (pad : Bool) :
    b64DecodeInline (base64Encode x B64STD pad) B64STD = some (.ok, x) ∧
      b64DecodeInline (base64Encode x B64URL pad) B64URL = some (.ok, x) :=
  ⟨b64DecodeInline_encode B64STD_lawful x pad, b64DecodeInline_encode B64URL_lawful x pad⟩

example : base64Encode (charBytes ['f']) B64STD true = charBytes ['Z', 'g', '=', '='] := by
  decide

end SVR2.Util
