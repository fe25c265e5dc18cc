import SVR2.Basic
import SVR2.Lib.BigEndian

/-!
# Numbers as bytes

`util/endian.h`: numbers in a fixed number of bytes, big end first.
-/

namespace SVR2

open Lib

def bigEndian32Bytes (n : Nat) : Bytes := BigEndian.digits 256 4 n

def bigEndian64Bytes (n : Nat) : Bytes := BigEndian.digits 256 8 n

@[simp] theorem length_bigEndian32Bytes (n : Nat) : (bigEndian32Bytes n).length = 4 :=
  BigEndian.length_digits 4 n

@[simp] theorem length_bigEndian64Bytes (n : Nat) : (bigEndian64Bytes n).length = 8 :=
  BigEndian.length_digits 8 n

theorem bigEndian32Bytes_injective {m n : Nat} (hm : m < 2 ^ 32) (hn : n < 2 ^ 32)
    (h : bigEndian32Bytes m = bigEndian32Bytes n) : m = n :=
  BigEndian.digits_injective (hm.trans_eq (by norm_num)) (hn.trans_eq (by norm_num)) h

theorem value_bigEndian32Bytes {n : Nat} (hn : n < 2 ^ 32) :
    BigEndian.value (bigEndian32Bytes n) = n := by
  rw [bigEndian32Bytes, BigEndian.value_digits, Nat.mod_eq_of_lt (hn.trans_eq (by norm_num))]

theorem bigEndian64Bytes_injective {m n : Nat} (hm : m < 2 ^ 64) (hn : n < 2 ^ 64)
    (h : bigEndian64Bytes m = bigEndian64Bytes n) : m = n :=
  BigEndian.digits_injective (hm.trans_eq (by norm_num)) (hn.trans_eq (by norm_num)) h

end SVR2
