import SVR2.DB.Database
import SVR2.Lib.Protobuf
import SVR2.Lib.Stream

/-!
# Messages between hosts as a stream of bytes

`host/peer/serialize.go`: a message is written as its length, a varint, and its marshalled bytes.
The reader refuses a length above `maxMessageLength`; the writer does not look at it.
-/

namespace SVR2.Host

open Lib

def maxMessageLength : Nat := 1024 * 1024 * 128

inductive FrameError where
  | io
  | overflow
  | tooLong (length : Nat)
  | unmarshal
deriving DecidableEq, Repr

/-! ### `bufio.Reader` -/

/-- `bufio.Reader`: what it has read ahead, and what its connection will deliver. -/
structure Reader where
  buffered : Bytes
  conn : Pieces Byte

namespace Reader

def defaultBufSize : Nat := 4096

/-- `fill`, of a reader whose buffer is empty. -/
def fill (r : Reader) : Option Reader := do
  let (buffered, conn) ← r.conn.recv defaultBufSize
  return ⟨buffered, conn⟩

def readByte (r : Reader) : Option (Byte × Reader) :=
  match r.buffered with
  | b :: buffered => some (b, { r with buffered })
  | [] => do
    let r ← r.fill
    match r.buffered with
    | b :: buffered => some (b, { r with buffered })
    | [] => none

/-- `Read` into a slice of `n` bytes.  A large one is filled from the connection directly. -/
def read (n : Nat) (r : Reader) : Option (Bytes × Reader) :=
  if r.buffered ≠ [] then some (r.buffered.take n, { r with buffered := r.buffered.drop n })
  else if defaultBufSize ≤ n then do
    let (bytes, conn) ← r.conn.recv n
    return (bytes, { r with conn })
  else do
    let r ← r.fill
    return (r.buffered.take n, { r with buffered := r.buffered.drop n })

def stream (r : Reader) : Bytes := r.buffered ++ r.conn.stream

theorem fill_eq {r : Reader} (hempty : r.buffered = []) (hne : r.stream ≠ []) :
    ∃ r', r.fill = some r' ∧ r'.buffered ≠ [] ∧ r'.stream = r.stream := by
  rw [stream, hempty, List.nil_append] at hne
  obtain ⟨l, conn, hrecv, ⟨hl, -⟩, hstream⟩ :=
    Pieces.reads_recv defaultBufSize r.conn (by decide) hne
  refine ⟨⟨l, conn⟩, by rw [fill, hrecv]; rfl, hl, ?_⟩
  rw [stream, stream, hempty, hstream, List.nil_append]

theorem readByte_eq {r : Reader} {b : Byte} {rest : Bytes} (h : r.stream = b :: rest) :
    ∃ r', r.readByte = some (b, r') ∧ r'.stream = rest := by
  obtain ⟨buffered, conn⟩ := r
  cases buffered with
  | cons b' buffered =>
    obtain ⟨rfl, hrest⟩ := List.cons.inj h
    exact ⟨⟨buffered, conn⟩, rfl, hrest⟩
  | nil =>
    obtain ⟨⟨filled, conn'⟩, hfill, hne, hstream⟩ := fill_eq (r := ⟨[], conn⟩) rfl
      (h ▸ List.cons_ne_nil b rest)
    cases filled with
    | nil => exact absurd rfl hne
    | cons b' buffered =>
      obtain ⟨rfl, hrest⟩ := List.cons.inj (hstream.trans h)
      exact ⟨⟨buffered, conn'⟩, by simp [readByte, hfill], hrest⟩

theorem take_buffered {buffered : Bytes} (rest : Bytes) {n : Nat} (hn : 0 < n) (hne : buffered ≠ []) :
    (buffered.take n ≠ [] ∧ (buffered.take n).length ≤ n) ∧
      buffered ++ rest = buffered.take n ++ (buffered.drop n ++ rest) := by
  refine ⟨⟨?_, List.length_take_le n buffered⟩, ?_⟩
  · rw [ne_eq, List.take_eq_nil_iff, not_or]
    exact ⟨Nat.ne_of_gt hn, hne⟩
  · rw [← List.append_assoc, List.take_append_drop]

theorem reads_read : Reads read stream := by
  rintro n ⟨buffered, conn⟩ hn hne
  rw [read]
  split_ifs with hbuffered hlarge
  · obtain ⟨htake, hsplit⟩ := take_buffered conn.stream hn hbuffered
    exact ⟨_, _, rfl, htake, hsplit⟩
  · obtain rfl := not_not.mp hbuffered
    obtain ⟨l, conn', hrecv, hl, hstream⟩ := Pieces.reads_recv n conn hn hne
    exact ⟨l, ⟨[], conn'⟩, by rw [hrecv]; rfl, hl, hstream⟩
  · obtain ⟨r', hfill, hne', hstream⟩ := fill_eq (r := ⟨buffered, conn⟩) (not_not.mp hbuffered) hne
    obtain ⟨htake, hsplit⟩ := take_buffered r'.conn.stream hn hne'
    exact ⟨_, { r' with buffered := r'.buffered.drop n }, by rw [hfill]; rfl, htake,
      hstream.symm.trans hsplit⟩

end Reader

/-! ### Lengths -/

/-- `binary.PutUvarint`, into a buffer that is large enough for every `uint64`. -/
def putUvarint (x : Nat) : Bytes := Protobuf.varint x

/-- `binary.ReadUvarint`, when `k` of `MaxVarintLen64` bytes may still be read.  The groups of seven
    bits do not overlap, so that adding them is `|`. -/
def readUvarint : Nat → Reader → Nat → Nat → Except FrameError (Nat × Reader)
  | 0, _, _, _ => .error .overflow
  | k + 1, r, x, s =>
    match r.readByte with
    | none => .error .io
    | some (b, r) =>
      if b.val < 0x80 then
        if k = 0 ∧ 1 < b.val then .error .overflow else .ok (x + b.val * 2 ^ s, r)
      else readUvarint k r (x + b.val % 0x80 * 2 ^ s) (s + 7)

/-- A number is read back if its bits fit into what is left of 64. -/
theorem readUvarint_groups {k m n : Nat} (hn : n < m) (hfits : n < 2 ^ (7 * k + 1)) {r : Reader}
    {rest : Bytes} (hr : r.stream = Protobuf.groups m n ++ rest) (x s : Nat) :
    ∃ r', readUvarint (k + 1) r x s = .ok (x + n * 2 ^ s, r') ∧ r'.stream = rest := by
  induction m generalizing k n r x s with
  | zero => omega
  | succ m ih =>
    rw [Protobuf.groups] at hr
    rw [readUvarint]
    split_ifs at hr with hsmall
    · have hval : (Fin.ofNat 256 n).val = n := Nat.mod_eq_of_lt (by omega)
      obtain ⟨r', hread, hrest⟩ := Reader.readByte_eq hr
      refine ⟨r', ?_, hrest⟩
      simp only [hread, hval, if_pos hsmall]
      rw [if_neg]
      rintro ⟨rfl, hlarge⟩
      omega
    · have hval : (Fin.ofNat 256 (n % 128 + 128)).val = n % 128 + 128 :=
        Nat.mod_eq_of_lt (by omega)
      obtain ⟨r', hread, hrest⟩ := Reader.readByte_eq hr
      -- There are more bits than one group has, so this is not the last byte.
      obtain ⟨k, rfl⟩ : ∃ j, k = j + 1 := by
        refine ⟨k - 1, ?_⟩
        by_contra hk
        obtain rfl : k = 0 := by omega
        omega
      have hfits' : n / 128 < 2 ^ (7 * k + 1) := by
        rw [Nat.div_lt_iff_lt_mul (by omega)]
        calc n < 2 ^ (7 * (k + 1) + 1) := hfits
          _ = 2 ^ (7 * k + 1) * 128 := by rw [show 7 * (k + 1) + 1 = 7 * k + 1 + 7 by omega, pow_add]; rfl
      obtain ⟨r'', hmore, hrest'⟩ := ih (by omega) hfits' hrest (x + n % 128 * 2 ^ s) (s + 7)
      refine ⟨r'', ?_, hrest'⟩
      simp only [hread, hval]
      rw [if_neg (by omega), Nat.add_mod_right, Nat.mod_mod, hmore, pow_add]
      congr 2
      calc x + n % 128 * 2 ^ s + n / 128 * (2 ^ s * 2 ^ 7)
          = x + (n % 128 + 128 * (n / 128)) * 2 ^ s := by ring
        _ = x + n * 2 ^ s := by rw [Nat.mod_add_div]

/-! ### Messages -/

section Messages

variable {Message : Type} [Wire Message]

/-- `writeFramed`, which appends to what has been written to the connection. -/
def writeFramed (written : Bytes) (m : Message) : Bytes :=
  written ++ putUvarint (Wire.serialize m).length ++ Wire.serialize m

def readFramedRaw (r : Reader) : Except FrameError (Bytes × Reader) := do
  let (length, r) ← readUvarint 10 r 0 0
  if maxMessageLength < length then throw (.tooLong length)
  else match readFull Reader.read length r with
    | none => throw .io
    | some (dst, r) => return (dst, r)

def readFramed (Message : Type) [Wire Message] (r : Reader) :
    Except FrameError (Message × Reader) := do
  let (bytes, r) ← readFramedRaw r
  match Wire.parse bytes with
  | none => throw .unmarshal
  | some msg => return (msg, r)

def readFramedTimes (Message : Type) [Wire Message] :
    Nat → Reader → Except FrameError (List Message × Reader)
  | 0, r => return ([], r)
  | n + 1, r => do
    let (msg, r) ← readFramed Message r
    let (msgs, r) ← readFramedTimes Message n r
    return (msg :: msgs, r)

/-- A length is read back as long as it is a `uint64`. -/
theorem readUvarint_putUvarint {n : Nat} (hn : n < 2 ^ 64) {r : Reader} {rest : Bytes}
    (hr : r.stream = putUvarint n ++ rest) :
    ∃ r', readUvarint 10 r 0 0 = .ok (n, r') ∧ r'.stream = rest := by
  obtain ⟨r', hread, hrest⟩ := readUvarint_groups (k := 9) (Nat.lt_succ_self n) hn hr 0 0
  refine ⟨r', ?_, hrest⟩
  rw [hread, Nat.zero_add, pow_zero, Nat.mul_one]

theorem readFramed_tooLong {m : Message} (hlen : maxMessageLength < (Wire.serialize m).length)
    (hlen' : (Wire.serialize m).length < 2 ^ 64) {r : Reader} (hr : r.stream = writeFramed [] m) :
    readFramed Message r = .error (.tooLong (Wire.serialize m).length) := by
  rw [writeFramed, List.nil_append] at hr
  obtain ⟨r', hread, -⟩ := readUvarint_putUvarint hlen' hr
  simp only [readFramed, readFramedRaw, hread, bind, Except.bind, if_pos hlen]
  rfl

theorem readFramedRaw_eq {bytes rest : Bytes} (hlen : bytes.length ≤ maxMessageLength) {r : Reader}
    (hr : r.stream = putUvarint bytes.length ++ (bytes ++ rest)) :
    ∃ r', readFramedRaw r = .ok (bytes, r') ∧ r'.stream = rest := by
  obtain ⟨r', hread, hrest⟩ := readUvarint_putUvarint (hlen.trans_lt (by decide)) hr
  obtain ⟨r'', hfull, hrest'⟩ := Reader.reads_read.readFull_eq bytes.length r' (by simp [hrest])
  rw [hrest, List.take_left] at hfull
  rw [hrest, List.drop_left] at hrest'
  refine ⟨r'', ?_, hrest'⟩
  have hnot : ¬maxMessageLength < bytes.length := not_lt.mpr hlen
  simp only [readFramedRaw, hread, bind, Except.bind, if_neg hnot, hfull, pure, Except.pure]

theorem readFramed_eq {m : Message} {rest : Bytes}
    (hlen : (Wire.serialize m).length ≤ maxMessageLength) {r : Reader}
    (hr : r.stream = writeFramed [] m ++ rest) :
    ∃ r', readFramed Message r = .ok (m, r') ∧ r'.stream = rest := by
  rw [writeFramed, List.nil_append, List.append_assoc] at hr
  obtain ⟨r', hread, hrest⟩ := readFramedRaw_eq hlen hr
  refine ⟨r', ?_, hrest⟩
  simp only [readFramed, hread, bind, Except.bind, Wire.parse_serialize, pure, Except.pure]

theorem foldl_writeFramed (msgs : List Message) (written : Bytes) :
    msgs.foldl writeFramed written = written ++ msgs.flatMap (writeFramed []) := by
  induction msgs generalizing written with
  | nil => simp
  | cons m msgs ih => simp [ih, writeFramed]

/-- Whatever messages are written to a connection, if none is longer than `maxMessageLength`, and
    however the bytes are cut into pieces, the reader gets these messages one after the other. -/
theorem framed_round_trip (msgs : List Message) (rest : Bytes) (conn : Pieces Byte)
    (hlen : ∀ m ∈ msgs, (Wire.serialize m).length ≤ maxMessageLength)
    (hconn : conn.stream = msgs.foldl writeFramed [] ++ rest) :
    ∃ r, readFramedTimes Message msgs.length ⟨[], conn⟩ = .ok (msgs, r) ∧ r.stream = rest := by
  have hread : ∀ (msgs : List Message) (r : Reader),
      (∀ m ∈ msgs, (Wire.serialize m).length ≤ maxMessageLength) →
      r.stream = msgs.flatMap (writeFramed []) ++ rest →
      ∃ r', readFramedTimes Message msgs.length r = .ok (msgs, r') ∧ r'.stream = rest := by
    intro msgs
    induction msgs with
    | nil => exact fun r _ hr => ⟨r, rfl, hr⟩
    | cons m msgs ih =>
      intro r hlen hr
      rw [List.flatMap_cons, List.append_assoc] at hr
      obtain ⟨r', hfirst, hrest⟩ := readFramed_eq (hlen m List.mem_cons_self) hr
      obtain ⟨r'', hmore, hrest'⟩ := ih r' (fun m' hm' => hlen m' (List.mem_cons_of_mem m hm')) hrest
      refine ⟨r'', ?_, hrest'⟩
      simp only [List.length_cons, readFramedTimes, hfirst, hmore, bind, Except.bind, pure,
        Except.pure]
  rw [foldl_writeFramed, List.nil_append] at hconn
  exact hread msgs ⟨[], conn⟩ hlen hconn

end Messages

theorem framed_round_trip_two_messages :
    ∃ r, readFramedTimes RawMessage 2 ⟨[], ⟨[[2, 7], [8, 0]], by decide⟩⟩ =
      .ok ([⟨[7, 8]⟩, ⟨[]⟩], r) ∧ r.stream = [] :=
  framed_round_trip [(⟨[7, 8]⟩ : RawMessage), ⟨[]⟩] [] ⟨[[2, 7], [8, 0]], by decide⟩ (by decide)
    (by decide)

/-- A message of one byte more than 128 MiB is written, and the reader refuses it. -/
theorem long_message_refused : ∃ (m : RawMessage) (conn : Pieces Byte),
    m.bytes.length = 134217729 ∧ conn.stream = writeFramed [] m ∧
      readFramed RawMessage ⟨[], conn⟩ = .error (.tooLong 134217729) := by
  obtain ⟨m, hm⟩ : ∃ m : RawMessage, m.bytes.length = 134217729 :=
    ⟨⟨List.replicate 134217729 0⟩, List.length_replicate⟩
  have hne : writeFramed [] m ≠ [] := by
    rw [writeFramed, List.nil_append]
    exact List.append_ne_nil_of_left_ne_nil (Protobuf.varint_ne_nil _) _
  have hconn : [writeFramed [] m].flatten = writeFramed [] m := List.flatten_singleton
  refine ⟨m, ⟨[writeFramed [] m], by simpa using hne⟩, hm, hconn, ?_⟩
  rw [← hm]
  refine readFramed_tooLong ?_ ?_ hconn
  · rw [show Wire.serialize m = m.bytes from rfl, hm]
    decide
  · rw [show Wire.serialize m = m.bytes from rfl, hm]
    decide

end SVR2.Host
