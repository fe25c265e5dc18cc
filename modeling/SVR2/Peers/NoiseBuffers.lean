import SVR2.Lib.Buffer
import SVR2.Peers.Noise

/-!
# Encrypting in strings

`noise/noise.cc` as it works in memory.  `Encrypt` resizes the ciphertext first, copies each piece
of the plaintext to the place of its packet and has it encrypted there; `Decrypt` copies each packet
to where its plaintext belongs.  The two step through their strings with different strides.
-/

namespace SVR2.Noise

open Lib

variable {C : Type}

inductive Fault where
  /-- memory outside a string is accessed -/
  | outside
  /-- the Noise library returns an error -/
  | cipher
deriving DecidableEq, Repr

namespace Strings

def memcpy (dst : Bytes) (dstStart : Nat) (src : Bytes) (srcStart n : Nat) : Except Fault Bytes :=
  match Buffer.read src srcStart n with
  | none => .error .outside
  | some data =>
    match Buffer.write dst dstStart data with
    | none => .error .outside
    | some dst => .ok dst

/-- A call of the cipher on the buffer that `noise_buffer_set_inout` describes: `size` bytes from
    `start` on, with room for `maxSize`.  The last part of the result is the new `buf.size`. -/
def inOut (f : C → Bytes → Option (C × Bytes)) (cs : C) (s : Bytes) (start size maxSize : Nat) :
    Except Fault (C × Bytes × Nat) :=
  match Buffer.read s start maxSize with
  | none => .error .outside
  | some room =>
    match f cs (room.take size) with
    | none => .error .cipher
    | some (cs, out) =>
      if out.length ≤ maxSize then
        match Buffer.write s start out with
        | none => .error .outside
        | some s => .ok (cs, s, out.length)
      else .error .cipher

/-- The loop of `Encrypt`.  The result has the state of the cipher, the ciphertext and the sizes of
    the packets that the library was to make. -/
def encryptLoop (K : Cipher C) (mac : Nat) (plaintext : Bytes) (finalSize : Nat) (cs : C)
    (ciphertext : Bytes) (start plaintextStart : Nat) : Except Fault (C × Bytes × List Nat) :=
  if start < finalSize then do
    let plaintextSize := min (maxMessageSize - mac) (plaintext.length - plaintextStart)
    let ciphertext ← memcpy ciphertext start plaintext plaintextStart plaintextSize
    let (cs, ciphertext, _) ←
      inOut K.encrypt cs ciphertext start plaintextSize (plaintextSize + mac)
    let (cs, ciphertext, sizes) ←
      encryptLoop K mac plaintext finalSize cs ciphertext (start + maxMessageSize)
        (plaintextStart + plaintextSize)
    return (cs, ciphertext, (plaintextSize + mac) :: sizes)
  else .ok (cs, ciphertext, [])
termination_by finalSize - start
decreasing_by
  rw [maxMessageSize]
  omega

def encrypt (K : Cipher C) (mac : Nat) (cs : C) (plaintext : Bytes) :
    Except Fault (C × Bytes × List Nat) :=
  let finalSize := plaintext.length + mac * numMacs mac plaintext.length
  encryptLoop K mac plaintext finalSize cs (List.replicate finalSize 0) 0 0

/-- The loop of `Decrypt`, which also returns `plaintext_start`. -/
def decryptLoop (K : Cipher C) (ciphertext : Bytes) (cs : C) (plaintext : Bytes)
    (start plaintextStart : Nat) : Except Fault (C × Bytes × Nat × List Nat) :=
  if start < ciphertext.length then do
    let size := min maxMessageSize (ciphertext.length - start)
    let plaintext ← memcpy plaintext plaintextStart ciphertext start size
    let (cs, plaintext, bufSize) ← inOut K.decrypt cs plaintext plaintextStart size size
    let (cs, plaintext, plaintextStart, sizes) ←
      decryptLoop K ciphertext cs plaintext (start + maxMessageSize) (plaintextStart + bufSize)
    return (cs, plaintext, plaintextStart, size :: sizes)
  else .ok (cs, plaintext, plaintextStart, [])
termination_by ciphertext.length - start
decreasing_by
  rw [maxMessageSize]
  omega

def decrypt (K : Cipher C) (cs : C) (ciphertext : Bytes) : Except Fault (C × Bytes × List Nat) := do
  let (cs, plaintext, plaintextStart, sizes) ←
    decryptLoop K ciphertext cs (List.replicate ciphertext.length 0) 0 0
  return (cs, plaintext.take plaintextStart, sizes)

/-! ### One packet -/

theorem ok_bind {α β : Type} (a : α) (f : α → Except Fault β) : (Except.ok a >>= f) = f a := rfl

theorem error_bind {α β : Type} (e : Fault) (f : α → Except Fault β) :
    (Except.error e >>= f) = .error e := rfl

theorem memcpy_append {front back pre src : Bytes} {n : Nat} (hsrc : n ≤ src.length)
    (hback : n ≤ back.length) :
    memcpy (front ++ back) front.length (pre ++ src) pre.length n =
      .ok (front ++ (src.take n ++ back.drop n)) := by
  have hlen : (src.take n).length = n := List.length_take_of_le hsrc
  rw [memcpy, Buffer.read_append pre src hsrc]
  change (match Buffer.write (front ++ back) front.length (src.take n) with
    | none => Except.error Fault.outside | some dst => .ok dst) = _
  rw [Buffer.write_append front back _ (hlen.le.trans hback), hlen, List.append_assoc]

theorem inOut_append (f : C → Bytes → Option (C × Bytes)) (cs : C) (front : Bytes) {back : Bytes}
    {size maxSize : Nat} (hsize : size ≤ maxSize) (hmax : maxSize ≤ back.length)
    (hout : ∀ cs' out, f cs (back.take size) = some (cs', out) → out.length ≤ maxSize) :
    inOut f cs (front ++ back) front.length size maxSize =
      match f cs (back.take size) with
      | none => .error .cipher
      | some (cs', out) => .ok (cs', front ++ out ++ back.drop out.length, out.length) := by
  rw [inOut, Buffer.read_append front back hmax]
  simp only [List.take_take, min_eq_left hsize]
  cases hf : f cs (back.take size) with
  | none => rfl
  | some r =>
    obtain ⟨cs', out⟩ := r
    have hlen := hout cs' out hf
    simp only [if_pos hlen, Buffer.write_append front back out (hlen.trans hmax)]

/-! ### The loops -/

section Loops

variable {K : Cipher C} {mac : Nat}

theorem numMacs_of_le {n : Nat} (hmac : mac < maxMessageSize) (h : n ≤ maxMessageSize - mac) :
    numMacs mac n = 1 := by
  have hpos : 0 < maxMessageSize - mac := by omega
  rw [numMacs]
  rcases Nat.lt_or_eq_of_le h with hlt | rfl
  · rw [Nat.div_eq_of_lt hlt, if_neg (by omega)]
  · rw [Nat.div_self hpos, Nat.mod_self, if_pos (by decide)]

theorem numMacs_of_lt {n : Nat} (hmac : mac < maxMessageSize) (h : maxMessageSize - mac < n) :
    numMacs mac n = numMacs mac (n - (maxMessageSize - mac)) + 1 := by
  have hpos : 0 < maxMessageSize - mac := by omega
  obtain ⟨m, rfl⟩ := Nat.exists_eq_add_of_lt h
  have hdiv : 0 < (m + 1) % (maxMessageSize - mac) ∨ 0 < (m + 1) / (maxMessageSize - mac) := by
    have h := Nat.div_add_mod (m + 1) (maxMessageSize - mac)
    by_contra hzero
    rw [not_or, Nat.not_lt, Nat.not_lt, Nat.le_zero, Nat.le_zero] at hzero
    rw [hzero.1, hzero.2] at h
    omega
  rw [numMacs, numMacs, Nat.add_assoc, Nat.add_sub_cancel_left, Nat.add_mod_left,
    Nat.add_div_left _ hpos]
  split_ifs <;> omega

theorem encryptLoop_round (hmac0 : 0 < mac)
    (hlen : ∀ cs p cs' c, K.encrypt cs p = some (cs', c) → c.length = p.length + mac)
    {pre rest front free : Bytes} {cs : C} {size : Nat}
    (hsize : size = min (maxMessageSize - mac) rest.length) (hfree : size + mac ≤ free.length) :
    encryptLoop K mac (pre ++ rest) (front.length + free.length) cs (front ++ free) front.length
        pre.length =
      match K.encrypt cs (rest.take size) with
      | none => .error .cipher
      | some (cs', c) => do
        let (cs', ciphertext, sizes) ←
          encryptLoop K mac (pre ++ rest) (front.length + free.length) cs'
            (front ++ c ++ free.drop c.length) (front.length + maxMessageSize) (pre.length + size)
        return (cs', ciphertext, (size + mac) :: sizes) := by
  have hmin : min (maxMessageSize - mac) ((pre ++ rest).length - pre.length) = size := by
    rw [List.length_append, Nat.add_sub_cancel_left, hsize]
  have hrest : size ≤ rest.length := hsize ▸ Nat.min_le_right _ _
  have htake : (rest.take size).length = size := List.length_take_of_le hrest
  -- the copied piece lies at the start of the room
  have hpiece : (rest.take size ++ free.drop size).take size = rest.take size := by
    rw [List.take_left' htake]
  have hroom : size + mac ≤ (rest.take size ++ free.drop size).length := by
    rw [List.length_append, htake, List.length_drop]
    omega
  have hout := inOut_append K.encrypt cs front (Nat.le_add_right size mac) hroom
    fun cs' out h => by
      rw [hpiece] at h
      rw [hlen _ _ _ _ h, htake]
  rw [encryptLoop, if_pos (by omega)]
  simp only [hmin, memcpy_append hrest (show size ≤ free.length by omega), ok_bind, hout, hpiece]
  cases hc : K.encrypt cs (rest.take size) with
  | none => simp only [error_bind]
  | some r =>
    obtain ⟨cs', c⟩ := r
    have hdrop : (rest.take size ++ free.drop size).drop c.length = free.drop c.length := by
      rw [hlen _ _ _ _ hc, htake, List.drop_append, htake, List.drop_of_length_le (by omega),
        List.nil_append, List.drop_drop]
      congr 1
      omega
    rw [ok_bind, hdrop]

/-- `Encrypt` copies and encrypts the pieces of the plaintext one after the other: `front` is
    written, `free` is the room for the pieces that are left. -/
theorem encryptLoop_eq (hmac : mac < maxMessageSize) (hmac0 : 0 < mac)
    (hlen : ∀ cs p cs' c, K.encrypt cs p = some (cs', c) → c.length = p.length + mac)
    (pre rest front free : Bytes) (cs : C)
    (hfree : free.length = rest.length + mac * numMacs mac rest.length) :
    encryptLoop K mac (pre ++ rest) (front.length + free.length) cs (front ++ free) front.length
        pre.length =
      match packetLoop K.encrypt cs (Buffer.chunks (maxMessageSize - mac) rest) with
      | none => .error .cipher
      | some (cs', out) =>
        .ok (cs', front ++ out,
          (Buffer.chunks (maxMessageSize - mac) rest).map (·.length + mac)) := by
  have hpos : 0 < maxMessageSize - mac := by omega
  induction rest using Buffer.chunks_induction (n := maxMessageSize - mac) hpos
    generalizing pre front free cs with
  | last rest hle =>
    rw [numMacs_of_le hmac hle, Nat.mul_one] at hfree
    rw [Buffer.chunks_of_le hle, encryptLoop_round hmac0 hlen (min_eq_right hle).symm hfree.ge,
      List.take_length, packetLoop]
    cases hc : K.encrypt cs rest with
    | none => rfl
    | some r =>
      obtain ⟨cs', c⟩ := r
      have hfull : free.drop c.length = [] :=
        List.drop_of_length_le (by rw [hlen _ _ _ _ hc, hfree])
      simp only [hfull]
      rw [encryptLoop, if_neg (by omega)]
      simp [packetLoop]
  | more rest hlt ih =>
    rw [numMacs_of_lt hmac hlt] at hfree
    have hrest : (rest.drop (maxMessageSize - mac)).length = rest.length - (maxMessageSize - mac) :=
      List.length_drop
    have hfull : (rest.take (maxMessageSize - mac)).length = maxMessageSize - mac :=
      List.length_take_of_le hlt.le
    rw [Nat.mul_succ] at hfree
    rw [Buffer.chunks_of_lt hpos hlt, encryptLoop_round hmac0 hlen (min_eq_left hlt.le).symm
      (by omega), packetLoop]
    cases hc : K.encrypt cs (rest.take (maxMessageSize - mac)) with
    | none => rfl
    | some r =>
      obtain ⟨cs', c⟩ := r
      have hclen : c.length = maxMessageSize := by
        rw [hlen _ _ _ _ hc, hfull]
        omega
      have htotal : (front ++ c).length + (free.drop c.length).length =
          front.length + free.length := by
        rw [List.length_append, List.length_drop]
        omega
      have hnext := ih (pre ++ rest.take (maxMessageSize - mac)) (front ++ c) (free.drop c.length)
        cs' (by rw [hrest, List.length_drop, hclen]; omega)
      rw [htotal, List.append_assoc pre, List.take_append_drop, List.length_append, hclen,
        List.length_append, hfull] at hnext
      dsimp only
      rw [hclen, hnext]
      cases hrun : packetLoop K.encrypt cs'
          (Buffer.chunks (maxMessageSize - mac) (rest.drop (maxMessageSize - mac))) with
      | none => simp [hrun]
      | some r => simp [hrun, hfull]

theorem decryptLoop_round (hlen : ∀ cs p cs' c, K.decrypt cs c = some (cs', p) → p.length ≤ c.length)
    {pre rest front free : Bytes} {cs : C} {size : Nat} (hne : rest ≠ [])
    (hsize : size = min maxMessageSize rest.length) (hfree : size ≤ free.length) :
    decryptLoop K (pre ++ rest) cs (front ++ free) pre.length front.length =
      match K.decrypt cs (rest.take size) with
      | none => .error .cipher
      | some (cs', p) => do
        let (cs', plaintext, plaintextStart, sizes) ←
          decryptLoop K (pre ++ rest) cs' (front ++ p ++ (rest.take size ++ free.drop size).drop p.length)
            (pre.length + maxMessageSize) (front.length + p.length)
        return (cs', plaintext, plaintextStart, size :: sizes) := by
  have hmin : min maxMessageSize ((pre ++ rest).length - pre.length) = size := by
    rw [List.length_append, Nat.add_sub_cancel_left, hsize]
  have hrest : size ≤ rest.length := hsize ▸ Nat.min_le_right _ _
  have htake : (rest.take size).length = size := List.length_take_of_le hrest
  have hpos := List.length_pos_iff.mpr hne
  have hpiece : (rest.take size ++ free.drop size).take size = rest.take size := by
    rw [List.take_left' htake]
  have hroom : size ≤ (rest.take size ++ free.drop size).length := by
    rw [List.length_append, htake, List.length_drop]
    omega
  have hout := inOut_append K.decrypt cs front le_rfl hroom
    fun cs' out h => by
      rw [hpiece] at h
      exact (hlen _ _ _ _ h).trans htake.le
  have hlt : pre.length < (pre ++ rest).length := by
    rw [List.length_append]
    omega
  rw [decryptLoop, if_pos hlt]
  simp only [hmin, memcpy_append hrest hfree, ok_bind, hout, hpiece]
  cases hc : K.decrypt cs (rest.take size) with
  | none => simp only [error_bind]
  | some r => rw [ok_bind]

theorem decryptLoop_eq
    (hlen : ∀ cs p cs' c, K.decrypt cs c = some (cs', p) → p.length ≤ c.length)
    (pre rest front free : Bytes) (cs : C) (hne : rest ≠ []) (hfree : rest.length ≤ free.length) :
    match packetLoop K.decrypt cs (Buffer.chunks maxMessageSize rest) with
    | none => decryptLoop K (pre ++ rest) cs (front ++ free) pre.length front.length = .error .cipher
    | some (cs', out) => ∃ left,
      decryptLoop K (pre ++ rest) cs (front ++ free) pre.length front.length =
        .ok (cs', front ++ out ++ left, front.length + out.length,
          (Buffer.chunks maxMessageSize rest).map List.length) := by
  have hpos : 0 < maxMessageSize := by decide
  induction rest using Buffer.chunks_induction (n := maxMessageSize) hpos
    generalizing pre front free cs with
  | last rest hle =>
    rw [Buffer.chunks_of_le hle, packetLoop,
      decryptLoop_round hlen hne (min_eq_right hle).symm hfree, List.take_length]
    cases hc : K.decrypt cs rest with
    | none => simp
    | some r =>
      obtain ⟨cs', p⟩ := r
      refine ⟨(rest ++ free.drop rest.length).drop p.length, ?_⟩
      have hend : ¬ pre.length + maxMessageSize < (pre ++ rest).length := by
        rw [List.length_append]
        omega
      dsimp only
      rw [decryptLoop, if_neg hend]
      simp
  | more rest hlt ih =>
    have hfull : (rest.take maxMessageSize).length = maxMessageSize :=
      List.length_take_of_le hlt.le
    have hrest : (rest.drop maxMessageSize).length = rest.length - maxMessageSize :=
      List.length_drop
    rw [Buffer.chunks_of_lt hpos hlt, packetLoop,
      decryptLoop_round hlen hne (min_eq_left hlt.le).symm (by omega)]
    cases hc : K.decrypt cs (rest.take maxMessageSize) with
    | none => simp
    | some r =>
      obtain ⟨cs', p⟩ := r
      have hnext := ih (pre ++ rest.take maxMessageSize) (front ++ p)
        ((rest.take maxMessageSize ++ free.drop maxMessageSize).drop p.length) cs'
        (List.ne_nil_of_length_pos (by omega))
        (by
          have hp := hlen _ _ _ _ hc
          rw [hrest, List.length_drop, List.length_append, hfull, List.length_drop]
          omega)
      rw [List.append_assoc pre, List.take_append_drop, List.length_append, hfull,
        List.length_append] at hnext
      cases hrun : packetLoop K.decrypt cs'
          (Buffer.chunks maxMessageSize (rest.drop maxMessageSize)) with
      | none =>
        simp only [hrun] at hnext
        simp only [Option.bind_eq_bind, Option.bind_some, hrun, Option.bind_none, hnext, error_bind]
      | some r =>
        simp only [hrun] at hnext
        obtain ⟨left, hleft⟩ := hnext
        simp only [Option.bind_eq_bind, Option.bind_some, hrun, hleft, ok_bind]
        refine ⟨left, ?_⟩
        rw [List.map_cons, hfull, List.length_append, Nat.add_assoc, List.append_assoc front]
        rfl

end Loops

/-! ### Refinement of the packet loops -/

section Refinement

variable {K : Cipher C} {mac : Nat}

theorem encrypt_eq (hmac : mac < maxMessageSize) (hmac0 : 0 < mac)
    (hlen : ∀ cs p cs' c, K.encrypt cs p = some (cs', c) → c.length = p.length + mac) (cs : C)
    (plaintext : Bytes) :
    encrypt K mac cs plaintext =
      match packetLoop K.encrypt cs (Buffer.chunks (maxMessageSize - mac) plaintext) with
      | none => .error .cipher
      | some (cs', out) =>
        .ok (cs', out, (Buffer.chunks (maxMessageSize - mac) plaintext).map (·.length + mac)) := by
  have h := encryptLoop_eq hmac hmac0 hlen [] plaintext []
    (List.replicate (plaintext.length + mac * numMacs mac plaintext.length) 0) cs
    List.length_replicate
  rw [List.nil_append, List.nil_append, List.length_nil, List.length_replicate, Nat.zero_add] at h
  exact h

theorem decrypt_eq (hlen : ∀ cs p cs' c, K.decrypt cs c = some (cs', p) → p.length ≤ c.length)
    (cs : C) {ciphertext : Bytes} (hne : ciphertext ≠ []) :
    decrypt K cs ciphertext =
      match packetLoop K.decrypt cs (Buffer.chunks maxMessageSize ciphertext) with
      | none => .error .cipher
      | some (cs', out) =>
        .ok (cs', out, (Buffer.chunks maxMessageSize ciphertext).map List.length) := by
  have h := decryptLoop_eq hlen [] ciphertext [] (List.replicate ciphertext.length 0) cs hne
    List.length_replicate.ge
  simp only [List.nil_append, List.length_nil, Nat.zero_add] at h
  rw [decrypt]
  cases hrun : packetLoop K.decrypt cs (Buffer.chunks maxMessageSize ciphertext) with
  | none =>
    simp only [hrun] at h
    simp only [h, error_bind]
  | some r =>
    simp only [hrun] at h
    obtain ⟨left, hleft⟩ := h
    simp only [hleft, ok_bind, List.take_left]
    rfl

/-- The pieces that `Encrypt` is modelled with on packets are those that it copies. -/
theorem piecesOf_eq_chunks (plaintext : Bytes) :
    piecesOf plaintext = Buffer.chunks maxEncryptSize plaintext := by
  have hmac : macSize < maxMessageSize := by decide
  have hpieces : ∀ fuel left, left = plaintext.length + macSize * numMacs macSize plaintext.length →
      left ≤ fuel → pieces fuel left plaintext = Buffer.chunks maxEncryptSize plaintext := by
    induction plaintext using Buffer.chunks_induction (n := maxEncryptSize) (by decide) with
    | last l hle =>
      intro fuel left hleft hfuel
      rw [numMacs_of_le hmac hle, Nat.mul_one] at hleft
      have hpos : left ≠ 0 := by
        rw [hleft, macSize]
        omega
      have hend : left - maxMessageSize = 0 := by
        rw [maxEncryptSize] at hle
        omega
      obtain ⟨fuel, rfl⟩ := Nat.exists_eq_add_one_of_ne_zero (show fuel ≠ 0 by omega)
      rw [pieces, if_neg hpos, hend, Buffer.chunks_of_le hle,
        List.take_of_length_le hle]
      cases fuel <;> rfl
    | more l hlt ih =>
      intro fuel left hleft hfuel
      rw [numMacs_of_lt hmac hlt, Nat.mul_succ] at hleft
      obtain ⟨fuel, rfl⟩ := Nat.exists_eq_add_one_of_ne_zero (show fuel ≠ 0 by omega)
      rw [pieces, if_neg (by omega), Buffer.chunks_of_lt (by decide) hlt, ih fuel]
      · rw [List.length_drop, maxEncryptSize]
        rw [maxEncryptSize] at hlt
        omega
      · rw [maxMessageSize]
        omega
  exact hpieces _ _ rfl le_rfl

theorem packetsOf_eq_chunks {ciphertext : Bytes} (hne : ciphertext ≠ []) :
    packetsOf ciphertext = Buffer.chunks maxMessageSize ciphertext := by
  have hpackets : ∀ fuel, ciphertext.length ≤ fuel →
      packets fuel ciphertext = Buffer.chunks maxMessageSize ciphertext := by
    induction ciphertext using Buffer.chunks_induction (n := maxMessageSize) (by decide) with
    | last l hle =>
      intro fuel hfuel
      obtain ⟨fuel, rfl⟩ := Nat.exists_eq_add_one_of_ne_zero
        (show fuel ≠ 0 by have := List.length_pos_iff.mpr hne; omega)
      rw [packets, if_neg hne, Buffer.chunks_of_le hle, List.take_of_length_le hle,
        List.drop_of_length_le hle]
      cases fuel <;> rfl
    | more l hlt ih =>
      intro fuel hfuel
      obtain ⟨fuel, rfl⟩ := Nat.exists_eq_add_one_of_ne_zero (show fuel ≠ 0 by omega)
      have hlen : (l.drop maxMessageSize).length = l.length - maxMessageSize := List.length_drop
      rw [packets, if_neg hne, Buffer.chunks_of_lt (by decide) hlt,
        ih (List.ne_nil_of_length_pos (by omega)) fuel (by rw [hlen, maxMessageSize]; omega)]
  exact hpackets _ le_rfl

/-- In its strings, `Encrypt` does what it does packet by packet, and never leaves them. -/
theorem encrypt_refines
    (hlen : ∀ cs p cs' c, K.encrypt cs p = some (cs', c) → c.length = p.length + macSize) (cs : C)
    (plaintext : Bytes) :
    encrypt K macSize cs plaintext =
      match Noise.encrypt K cs plaintext with
      | none => .error .cipher
      | some (cs', out) => .ok (cs', out, (piecesOf plaintext).map (·.length + macSize)) := by
  rw [Noise.encrypt, piecesOf_eq_chunks]
  exact encrypt_eq (by decide) (by decide) hlen cs plaintext

theorem decrypt_refines
    (hlen : ∀ cs p cs' c, K.decrypt cs c = some (cs', p) → p.length ≤ c.length) (cs : C)
    {ciphertext : Bytes} (hne : ciphertext ≠ []) :
    decrypt K cs ciphertext =
      match Noise.decrypt K cs ciphertext with
      | none => .error .cipher
      | some (cs', out) => .ok (cs', out, (packetsOf ciphertext).map List.length) := by
  rw [Noise.decrypt, packetsOf_eq_chunks hne]
  exact decrypt_eq hlen cs hne

end Refinement

end Strings

/-! ### Round trip -/

/-- A cipher that appends a MAC: with the same key and nonce, what was encrypted can be decrypted. -/
structure MacCipher (Key : Type) where
  macSize : Nat
  macSize_pos : 0 < macSize
  macSize_lt : macSize < maxMessageSize
  enc : Key → Nat → Bytes → Bytes
  dec : Key → Nat → Bytes → Option Bytes
  length_enc : ∀ k n p, (enc k n p).length = p.length + macSize
  length_dec : ∀ k n c p, dec k n c = some p → p.length + macSize = c.length
  dec_enc : ∀ k n p, dec k n (enc k n p) = some p

structure KeyState (Key : Type) where
  key : Key
  nonce : Nat
deriving DecidableEq, Repr

variable {Key : Type}

namespace MacCipher

/-- Every packet takes one nonce. -/
def cipher (A : MacCipher Key) : Cipher (KeyState Key) where
  encrypt cs p := some ({ cs with nonce := cs.nonce + 1 }, A.enc cs.key cs.nonce p)
  decrypt cs c := (A.dec cs.key cs.nonce c).map fun p => ({ cs with nonce := cs.nonce + 1 }, p)
  rekey := id

/-- The packets of a plaintext are cut apart again and opened, by a state that is where the sending
    one was. -/
theorem packets_round_trip (A : MacCipher Key) (cs : KeyState Key) (plaintext : Bytes) :
    ∃ cs' out, packetLoop A.cipher.encrypt cs
        (Buffer.chunks (maxMessageSize - A.macSize) plaintext) = some (cs', out) ∧
      out ≠ [] ∧
      packetLoop A.cipher.decrypt cs (Buffer.chunks maxMessageSize out) = some (cs', plaintext) ∧
      (Buffer.chunks maxMessageSize out).map List.length =
        (Buffer.chunks (maxMessageSize - A.macSize) plaintext).map (·.length + A.macSize) ∧
      ∀ c ∈ Buffer.chunks maxMessageSize out, c.length ≤ maxMessageSize := by
  have hmac := A.macSize_lt
  have hmac0 := A.macSize_pos
  have hpos : 0 < maxMessageSize - A.macSize := by omega
  induction plaintext using Buffer.chunks_induction (n := maxMessageSize - A.macSize) hpos
    generalizing cs with
  | last p hle =>
    have hlen := A.length_enc cs.key cs.nonce p
    have hle' : (A.enc cs.key cs.nonce p).length ≤ maxMessageSize := by omega
    refine ⟨{ cs with nonce := cs.nonce + 1 }, A.enc cs.key cs.nonce p, ?_, ?_, ?_, ?_, ?_⟩
    · rw [Buffer.chunks_of_le hle]
      simp [packetLoop, cipher]
    · exact List.ne_nil_of_length_pos (by omega)
    · rw [Buffer.chunks_of_le hle']
      simp [packetLoop, cipher, A.dec_enc]
    · rw [Buffer.chunks_of_le hle, Buffer.chunks_of_le hle']
      simp [hlen]
    · rw [Buffer.chunks_of_le hle']
      simpa using hle'
  | more p hlt ih =>
    obtain ⟨cs', out, henc, hne, hdec, hsizes, hmax⟩ := ih { cs with nonce := cs.nonce + 1 }
    have hfull : (p.take (maxMessageSize - A.macSize)).length = maxMessageSize - A.macSize :=
      List.length_take_of_le hlt.le
    have hlen := A.length_enc cs.key cs.nonce (p.take (maxMessageSize - A.macSize))
    have hclen : (A.enc cs.key cs.nonce (p.take (maxMessageSize - A.macSize))).length =
        maxMessageSize := by omega
    have hchunks : Buffer.chunks maxMessageSize
        (A.enc cs.key cs.nonce (p.take (maxMessageSize - A.macSize)) ++ out) =
        A.enc cs.key cs.nonce (p.take (maxMessageSize - A.macSize)) ::
          Buffer.chunks maxMessageSize out := by
      have hlong : maxMessageSize <
          (A.enc cs.key cs.nonce (p.take (maxMessageSize - A.macSize)) ++ out).length := by
        have := List.length_pos_iff.mpr hne
        rw [List.length_append]
        omega
      rw [Buffer.chunks_of_lt (by decide) hlong, List.take_left' hclen, List.drop_left' hclen]
    refine ⟨cs', A.enc cs.key cs.nonce (p.take (maxMessageSize - A.macSize)) ++ out, ?_, ?_, ?_,
      ?_, ?_⟩
    · rw [Buffer.chunks_of_lt hpos hlt]
      exact packetLoop_cons.mpr ⟨_, _, _, rfl, henc, rfl⟩
    · exact List.append_ne_nil_of_right_ne_nil _ hne
    · rw [hchunks]
      refine packetLoop_cons.mpr ⟨_, _, _, ?_, hdec, (List.take_append_drop _ _).symm⟩
      simp [cipher, A.dec_enc]
    · rw [hchunks, Buffer.chunks_of_lt hpos hlt, List.map_cons, List.map_cons, hsizes, hlen]
    · rw [hchunks]
      intro c hc
      rcases List.mem_cons.mp hc with rfl | hc
      · exact hclen.le
      · exact hmax c hc

end MacCipher

/-- A plaintext of any length comes back from its ciphertext, the two sides agree on the nonce again,
    and on the way no access leaves its string and no packet is too large for Noise. -/
theorem encrypt_round_trip (A : MacCipher Key) (plaintext : Bytes) {tx rx : KeyState Key}
    (hkey : tx.key = rx.key) (hnonce : tx.nonce = rx.nonce) :
    ∃ tx' rx' ciphertext sizes,
      Strings.encrypt A.cipher A.macSize tx plaintext = .ok (tx', ciphertext, sizes) ∧
        Strings.decrypt A.cipher rx ciphertext = .ok (rx', plaintext, sizes) ∧
        tx'.nonce = rx'.nonce ∧ ∀ n ∈ sizes, n ≤ maxMessageSize := by
  obtain rfl : tx = rx := by
    cases tx
    cases rx
    congr
  obtain ⟨cs', out, henc, hne, hdec, hsizes, hmax⟩ := A.packets_round_trip tx plaintext
  refine ⟨cs', cs', out, (Buffer.chunks maxMessageSize out).map List.length, ?_, ?_, rfl, ?_⟩
  · rw [Strings.encrypt_eq A.macSize_lt A.macSize_pos, henc, hsizes]
    rintro cs p cs' c h
    obtain ⟨-, rfl⟩ := Prod.mk.inj (Option.some.inj h)
    exact A.length_enc _ _ _
  · rw [Strings.decrypt_eq _ _ hne, hdec]
    rintro cs p cs' c h
    obtain ⟨p', hp', hpair⟩ := Option.map_eq_some_iff.mp h
    obtain ⟨-, rfl⟩ := Prod.mk.inj hpair
    have := A.length_dec _ _ _ _ hp'
    omega
  · intro n hn
    obtain ⟨c, hc, rfl⟩ := List.mem_map.mp hn
    exact hmax c hc

/-- A cipher that hides nothing: the MAC is the nonce, sixteen times. -/
def MacCipher.clear : MacCipher Unit where
  macSize := 16
  macSize_pos := by decide
  macSize_lt := by decide
  enc _ n p := p ++ List.replicate 16 (.ofNat 256 n)
  dec _ n c :=
    if 16 ≤ c.length ∧ c.drop (c.length - 16) = List.replicate 16 (.ofNat 256 n) then
      some (c.take (c.length - 16))
    else none
  length_enc _ n p := by simp
  length_dec _ n c p h := by
    split_ifs at h with hc
    obtain rfl := Option.some.inj h
    rw [List.length_take]
    omega
  dec_enc _ n p := by simp

theorem encrypt_round_trip_two_packets :
    numMacs 16 (List.replicate 70000 (5 : Byte)).length = 2 ∧
      ∃ tx' rx' ciphertext sizes,
        Strings.encrypt MacCipher.clear.cipher 16 ⟨(), 7⟩ (List.replicate 70000 5) =
            .ok (tx', ciphertext, sizes) ∧
          Strings.decrypt MacCipher.clear.cipher ⟨(), 7⟩ ciphertext =
            .ok (rx', List.replicate 70000 5, sizes) ∧
          tx'.nonce = rx'.nonce ∧ ∀ n ∈ sizes, n ≤ maxMessageSize := by
  refine ⟨?_, encrypt_round_trip MacCipher.clear (List.replicate 70000 5) rfl rfl⟩
  rw [List.length_replicate]
  decide

end SVR2.Noise
