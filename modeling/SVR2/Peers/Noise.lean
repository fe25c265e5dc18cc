import SVR2.Basic

/-!
# Encrypting messages of any size

`noise/noise.cc`: a Noise packet has at most 65535 bytes, of which 16 are its MAC.  A plaintext is
cut into as many packets as it needs, and a ciphertext is cut into packets again where it is read.
-/

namespace SVR2.Noise

variable {C : Type}

/-- What the Noise library does with a `NoiseCipherState`: a packet and the state after it, or an
    error. -/
structure Cipher (C : Type) where
  encrypt : C → Bytes → Option (C × Bytes)
  decrypt : C → Bytes → Option (C × Bytes)
  rekey : C → C

/-- `noise_cipherstate_get_mac_length`, for AES-GCM. -/
def macSize : Nat := 16

def maxMessageSize : Nat := 65535

def maxEncryptSize : Nat := maxMessageSize - macSize

def numMacs (mac origSize : Nat) : Nat :=
  let maxEncryptSize := maxMessageSize - mac
  let numMacs := origSize / maxEncryptSize + 1
  if origSize % maxEncryptSize = 0 ∧ numMacs > 1 then numMacs - 1 else numMacs

def finalSize (origSize : Nat) : Nat := origSize + macSize * numMacs macSize origSize

/-- The plaintexts of the packets that `Encrypt` makes while `start < final_size`; `left` is
    `final_size - start`. -/
def pieces : Nat → Nat → Bytes → List Bytes
  | 0, _, _ => []
  | fuel + 1, left, l =>
    if left = 0 then []
    else l.take maxEncryptSize :: pieces fuel (left - maxMessageSize) (l.drop maxEncryptSize)

/-- The packets that `Decrypt` reads while `start < ciphertext.size()`. -/
def packets : Nat → Bytes → List Bytes
  | 0, _ => []
  | fuel + 1, l =>
    if l = [] then [] else l.take maxMessageSize :: packets fuel (l.drop maxMessageSize)

def packetLoop (f : C → Bytes → Option (C × Bytes)) : C → List Bytes → Option (C × Bytes)
  | cs, [] => some (cs, [])
  | cs, b :: bs => do
    let (cs, out) ← f cs b
    let (cs, rest) ← packetLoop f cs bs
    some (cs, out ++ rest)

/-- What `Encrypt` cuts a plaintext into.  No loop runs more often than there are bytes. -/
def piecesOf (plaintext : Bytes) : List Bytes :=
  pieces (finalSize plaintext.length) (finalSize plaintext.length) plaintext

def packetsOf (ciphertext : Bytes) : List Bytes := packets ciphertext.length ciphertext

/-- `Encrypt`.  The source writes each packet at its own `start`, which is the end of the one
    before, since all but the last have `max_message_size` bytes. -/
def encrypt (K : Cipher C) (cs : C) (plaintext : Bytes) : Option (C × Bytes) :=
  packetLoop K.encrypt cs (piecesOf plaintext)

def decrypt (K : Cipher C) (cs : C) (ciphertext : Bytes) : Option (C × Bytes) :=
  packetLoop K.decrypt cs (packetsOf ciphertext)

theorem packetLoop_cons {f : C → Bytes → Option (C × Bytes)} {cs cs' : C} {b out : Bytes}
    {bs : List Bytes} :
    packetLoop f cs (b :: bs) = some (cs', out) ↔
      ∃ cs₁ first rest, f cs b = some (cs₁, first) ∧ packetLoop f cs₁ bs = some (cs', rest) ∧
        out = first ++ rest := by
  rw [packetLoop]
  constructor
  · intro h
    obtain ⟨⟨cs₁, first⟩, hfirst, h⟩ := Option.bind_eq_some_iff.mp h
    obtain ⟨⟨cs₂, rest⟩, hrest, h⟩ := Option.bind_eq_some_iff.mp h
    obtain ⟨rfl, rfl⟩ := Prod.mk.inj (Option.some.inj h)
    exact ⟨cs₁, first, rest, hfirst, hrest, rfl⟩
  · rintro ⟨cs₁, first, rest, hfirst, hrest, rfl⟩
    exact Option.bind_eq_some_iff.mpr
      ⟨_, hfirst, Option.bind_eq_some_iff.mpr ⟨_, hrest, rfl⟩⟩

/-! ### Sizes -/

/-- The rounds of a loop over `left` bytes, `max_message_size` at a time. -/
theorem length_pieces {fuel left : Nat} (l : Bytes) (h : left ≤ fuel) :
    (pieces fuel left l).length = (left + (maxMessageSize - 1)) / maxMessageSize := by
  induction fuel generalizing left l with
  | zero =>
    obtain rfl := Nat.le_zero.mp h
    rfl
  | succ fuel ih =>
    rw [pieces]
    split_ifs with hleft
    · rw [hleft]
      rfl
    · rw [List.length_cons, ih _ (by rw [maxMessageSize]; omega), maxMessageSize]
      omega

theorem flatten_pieces {fuel left : Nat} {l : Bytes}
    (h : l.length ≤ maxEncryptSize * (pieces fuel left l).length) :
    (pieces fuel left l).flatten = l := by
  induction fuel generalizing left l with
  | zero =>
    rw [pieces, List.length_nil, Nat.mul_zero, Nat.le_zero, List.length_eq_zero_iff] at h
    exact h.symm
  | succ fuel ih =>
    rw [pieces] at h ⊢
    split_ifs at h ⊢ with hleft
    · rw [List.length_nil, Nat.mul_zero, Nat.le_zero, List.length_eq_zero_iff] at h
      exact h.symm
    · rw [List.length_cons, Nat.mul_succ] at h
      rw [List.flatten_cons, ih, List.take_append_drop]
      rw [List.length_drop]
      omega

/-- `Encrypt` makes as many packets as it has counted MACs. -/
theorem length_piecesOf (plaintext : Bytes) :
    (piecesOf plaintext).length = numMacs macSize plaintext.length := by
  rw [piecesOf, length_pieces _ le_rfl, finalSize, numMacs, maxMessageSize, macSize]
  split_ifs <;> omega

theorem flatten_piecesOf (plaintext : Bytes) : (piecesOf plaintext).flatten = plaintext := by
  refine flatten_pieces ?_
  change _ ≤ maxEncryptSize * (piecesOf plaintext).length
  rw [length_piecesOf, numMacs, maxEncryptSize, maxMessageSize, macSize]
  split_ifs <;> omega

theorem piecesOf_cons (plaintext : Bytes) :
    ∃ rest, piecesOf plaintext = plaintext.take maxEncryptSize :: rest ∧
      (rest ≠ [] → (plaintext.take maxEncryptSize).length = maxEncryptSize) := by
  have hlength := length_piecesOf plaintext
  cases hp : piecesOf plaintext with
  | nil =>
    rw [hp, List.length_nil, numMacs, maxMessageSize, macSize] at hlength
    split_ifs at hlength
    omega
  | cons piece rest =>
    obtain rfl : piece = plaintext.take maxEncryptSize := by
      rw [piecesOf] at hp
      cases hfuel : finalSize plaintext.length with
      | zero =>
        rw [hfuel] at hp
        cases hp
      | succ fuel =>
        rw [hfuel, pieces, if_neg (Nat.succ_ne_zero fuel)] at hp
        exact (List.cons.inj hp).1.symm
    refine ⟨rest, rfl, fun hrest => ?_⟩
    have hpos := List.length_pos_iff.mpr hrest
    rw [hp, List.length_cons, numMacs, maxMessageSize, macSize] at hlength
    rw [List.length_take, maxEncryptSize, maxMessageSize, macSize]
    split_ifs at hlength <;> omega

theorem packetsOf_cons {ciphertext : Bytes} (h : ciphertext ≠ []) :
    ∃ rest, packetsOf ciphertext = ciphertext.take maxMessageSize :: rest ∧
      (rest ≠ [] → (ciphertext.take maxMessageSize).length = maxMessageSize) := by
  obtain ⟨b, l, rfl⟩ := List.exists_cons_of_ne_nil h
  refine ⟨packets l.length ((b :: l).drop maxMessageSize), ?_, fun hrest => ?_⟩
  · rw [packetsOf, List.length_cons, packets, if_neg h]
  · rw [List.length_take, min_eq_left]
    by_contra hlt
    refine hrest ?_
    rw [List.drop_of_length_le (by omega)]
    cases l with
    | nil => rfl
    | cons _ _ => rfl

end SVR2.Noise
