import SVR2.DB.Database
import SVR2.Lib.Runs
import SVR2.Lib.Stream
import SVR2.Util.Endian

/-!
# Protobufs over a socket

`socketwrap/socket.cc`: messages are framed by their length and appended to one of two buffers,
while the thread that owns the socket sends the other one.  The threads take turns at the critical
sections and at the calls of `send`, in any order.
-/

namespace SVR2.Socketwrap

open Lib

def INT32_MAX : Nat := 2 ^ 31 - 1

theorem INT32_MAX_lt : INT32_MAX < 2 ^ 32 := by decide

section Reading

variable {Message : Type} [Wire Message]

/-- What `WritePB` appends for a message. -/
def frame (pb : Message) : Bytes := bigEndian32Bytes (Wire.serialize pb).length ++ Wire.serialize pb

/-! ### Reading -/

/-- `Socket`, for reading: what `recv` will deliver, and the buffer that is kept between calls. -/
structure Socket where
  incoming : Pieces Byte
  readBuf : Bytes := []

/-- `ReadAll`; the stream ends where nothing more comes. -/
def readAll (size : Nat) (incoming : Pieces Byte) : Except Error (Bytes × Pieces Byte) :=
  match readFull Pieces.recv size incoming with
  | none => .error .socketReadEOF
  | some (buf, incoming) => .ok (buf, incoming)

/-- `ReadPB` after it has read the length of the message.  The buffer only grows; what an earlier
    message left in it after `toRead` bytes stays. -/
def readBody (Message : Type) [Wire Message] (toRead : Nat) (s : Socket) :
    Except Error (Message × Socket) :=
  if INT32_MAX < toRead then .error .socketReadTooBig
  else match readAll toRead s.incoming with
    | .error err => .error err
    | .ok (bytes, incoming) =>
      let readBuf := bytes ++ s.readBuf.drop toRead
      match Wire.parse (readBuf.take toRead) with
      | none => .error .socketParseIncoming
      | some pb => .ok (pb, ⟨incoming, readBuf⟩)

def readPB (Message : Type) [Wire Message] (s : Socket) : Except Error (Message × Socket) :=
  match readAll 4 s.incoming with
  | .error err => .error err
  | .ok (uint32Buf, incoming) => readBody Message (BigEndian.value uint32Buf) { s with incoming }

def readPBTimes (Message : Type) [Wire Message] : Nat → Socket → Except Error (List Message × Socket)
  | 0, s => return ([], s)
  | n + 1, s => do
    let (pb, s) ← readPB Message s
    let (pbs, s) ← readPBTimes Message n s
    return (pb :: pbs, s)

theorem readAll_eq (size : Nat) (incoming : Pieces Byte) (h : size ≤ incoming.stream.length) :
    ∃ incoming', readAll size incoming = .ok (incoming.stream.take size, incoming') ∧
      incoming'.stream = incoming.stream.drop size := by
  obtain ⟨incoming', hread, hrest⟩ := Pieces.reads_recv.readFull_eq size incoming h
  exact ⟨incoming', by rw [readAll, hread], hrest⟩

theorem readPB_frame {pb : Message} (hsize : (Wire.serialize pb).length ≤ INT32_MAX) {s : Socket}
    {rest : Bytes} (hs : s.incoming.stream = frame pb ++ rest) :
    ∃ s', readPB Message s = .ok (pb, s') ∧ s'.incoming.stream = rest := by
  rw [frame, List.append_assoc] at hs
  obtain ⟨incoming, hhead, hrest⟩ := readAll_eq 4 s.incoming (by simp [hs])
  rw [hs, List.take_append_of_le_length (by simp), List.take_of_length_le (by simp)] at hhead
  rw [hs, List.drop_append_of_le_length (by simp), List.drop_of_length_le (by simp),
    List.nil_append] at hrest
  obtain ⟨incoming', hbody, hrest'⟩ := readAll_eq (Wire.serialize pb).length incoming
    (by simp [hrest])
  rw [hrest, List.take_left] at hbody
  rw [hrest, List.drop_left] at hrest'
  have hvalue := value_bigEndian32Bytes (hsize.trans_lt INT32_MAX_lt)
  refine ⟨⟨incoming', Wire.serialize pb ++ s.readBuf.drop (Wire.serialize pb).length⟩, ?_, hrest'⟩
  rw [readPB, hhead]
  dsimp only
  rw [hvalue, readBody, if_neg (not_lt.mpr hsize), hbody]
  dsimp only
  rw [List.take_left, Wire.parse_serialize]

theorem readPBTimes_frames (pbs : List Message)
    (hsize : ∀ pb ∈ pbs, (Wire.serialize pb).length ≤ INT32_MAX) {s : Socket} {rest : Bytes}
    (hs : s.incoming.stream = pbs.flatMap frame ++ rest) :
    ∃ s', readPBTimes Message pbs.length s = .ok (pbs, s') ∧ s'.incoming.stream = rest := by
  induction pbs generalizing s with
  | nil => exact ⟨s, rfl, hs⟩
  | cons pb pbs ih =>
    rw [List.flatMap_cons, List.append_assoc] at hs
    obtain ⟨s', hfirst, hrest⟩ := readPB_frame (hsize pb List.mem_cons_self) hs
    obtain ⟨s'', hmore, hrest'⟩ := ih (fun x hx => hsize x (List.mem_cons_of_mem pb hx)) hrest
    refine ⟨s'', ?_, hrest'⟩
    simp only [List.length_cons, readPBTimes, hfirst, hmore, bind, Except.bind, pure, Except.pure]

end Reading

/-! ### Writing -/

/-- `WriteQueue`.  `buffers false` and `buffers true` are `buffers_[0]` and `buffers_[1]`, and
    `currentBuffer` tells to which of them `current_buffer_` points.  `writes_` is a natural number: no
    run reaches `2 ^ 64`. -/
structure WriteQueue where
  buffers : Bool → Bytes := fun _ => []
  currentBuffer : Bool := true
  done : Bool := false
  inUse : Bool := false
  writes : Nat := 0

namespace WriteQueue

def otherBuffer (b : Bool) : Bool := !b

def current (q : WriteQueue) : Bytes := q.buffers q.currentBuffer

def other (q : WriteQueue) : Bytes := q.buffers (otherBuffer q.currentBuffer)

variable {Message : Type} [Wire Message]

def checkPB (initialized : Bool) (pb : Message) : Error :=
  if initialized = false then .socketWriteNotInitialized
  else if INT32_MAX < (Wire.serialize pb).length then .socketWriteTooBig
  else .ok

/-- The critical section of `WritePB`. -/
def append (q : WriteQueue) (pb : Message) : WriteQueue :=
  { q with buffers := Function.update q.buffers q.currentBuffer (q.current ++ frame pb) }

def switch (q : WriteQueue) : WriteQueue := { q with currentBuffer := otherBuffer q.currentBuffer }

/-- `write_buffer->resize(0)` and `writes_++`.  The capacity of the buffer, which may be reduced
    before, does not matter. -/
def clear (q : WriteQueue) (writeBuffer : Bool) : WriteQueue :=
  { q with buffers := Function.update q.buffers writeBuffer [], writes := q.writes + 1 }

/-- `FlushIfAble`, up to where it waits: the value of `writes_` that it waits for. -/
def flushTarget (q : WriteQueue) : Nat :=
  q.writes + (if q.current ≠ [] then 1 else 0) + (if q.other ≠ [] then 1 else 0)

end WriteQueue

/-- Where a `WriteThread` call is: not started or returned, before its first critical section, in
    `WriteAll` with a number of bytes sent and a number left, or returned from a failed `send`. -/
inductive Thread where
  | stopped
  | top
  | writing (writeBuffer : Bool) (pos left : Nat)
  | failed (writeBuffer : Bool) (pos left : Nat)
deriving DecidableEq

/-- A queue, its thread, the bytes that `send` has taken, and the messages that `WritePB` has
    accepted. -/
structure State (Message : Type) where
  queue : WriteQueue := {}
  thread : Thread := .stopped
  sent : Bytes := []
  accepted : List Message := []
  aborted : Bool := false

inductive Event (Message : Type) where
  | writePB (initialized : Bool) (pb : Message)
  | writeThread
  | swap
  | send (got : Nat)
  | sendFails
  | clear
  | killThread
deriving DecidableEq

namespace State

variable {Message : Type} [Wire Message]

/-- `CHECK(c)`, after which the thread goes on as `s'`. -/
def check (s : State Message) (c : Prop) [Decidable c] (s' : State Message) : State Message :=
  if c then s' else { s with aborted := true }

def writePB (s : State Message) (initialized : Bool) (pb : Message) : State Message :=
  if WriteQueue.checkPB initialized pb = .ok then
    { s with queue := s.queue.append pb, accepted := s.accepted ++ [pb] }
  else s

/-- `WriteThread` is called, when no call of it is running. -/
def writeThread (s : State Message) : State Message :=
  match s.thread with
  | .stopped | .failed .. =>
    s.check (s.queue.inUse = false)
      { s with queue := { s.queue with inUse := true }, thread := .top }
  | _ => s

/-- The first critical section of `WriteThread`, which waits while there is nothing to do. -/
def swap (s : State Message) : State Message :=
  match s.thread with
  | .top =>
    let q := s.queue
    if q.current = [] then
      if q.done then s.check (q.inUse = true)
        { s with queue := { q with inUse := false }, thread := .stopped }
      else s
    else
      let writeBuffer := q.currentBuffer
      let q := q.switch
      s.check (q.current = [] ∧ 0 < (q.buffers writeBuffer).length ∧ q.currentBuffer ≠ writeBuffer)
        { s with queue := q, thread := .writing writeBuffer 0 (q.buffers writeBuffer).length }
  | _ => s

/-- `send` in `WriteAll` has taken `got` bytes. -/
def send (s : State Message) (got : Nat) : State Message :=
  match s.thread with
  | .writing writeBuffer pos left =>
    if got ≤ left then
      { s with
        sent := s.sent ++ ((s.queue.buffers writeBuffer).drop pos).take got
        thread := .writing writeBuffer (pos + got) (left - got) }
    else s
  | _ => s

def sendFails (s : State Message) : State Message :=
  match s.thread with
  | .writing writeBuffer pos left =>
    if 0 < left then { s with thread := .failed writeBuffer pos left } else s
  | _ => s

/-- The second critical section of `WriteThread`, after `WriteAll` has returned. -/
def clear (s : State Message) : State Message :=
  match s.thread with
  | .writing writeBuffer _ 0 => { s with queue := s.queue.clear writeBuffer, thread := .top }
  | _ => s

def killThread (s : State Message) : State Message :=
  { s with queue := { s.queue with done := true } }

/-- One event; one that cannot happen where the thread is changes nothing. -/
def act (s : State Message) : Event Message → State Message
  | .writePB initialized pb => s.writePB initialized pb
  | .writeThread => s.writeThread
  | .swap => s.swap
  | .send got => s.send got
  | .sendFails => s.sendFails
  | .clear => s.clear
  | .killThread => s.killThread

/-- Nothing happens after a failed `CHECK`. -/
def step (s : State Message) (e : Event Message) : State Message :=
  if s.aborted then s else s.act e

def run (s : State Message) (events : List (Event Message)) : State Message := events.foldl step s

/-! ### Where the bytes are

A step does one of few things with the bytes, and they are all that the results below need. -/

/-- What the thread has taken out of the queue and not sent yet. -/
def unsent (s : State Message) : Bytes :=
  match s.thread with
  | .writing _ pos _ | .failed _ pos _ => s.queue.other.drop pos
  | _ => []

/-- What the thread's place says about the queue. -/
def Placed (q : WriteQueue) : Thread → Prop
  | .stopped => q.other = [] ∧ q.inUse = false
  | .top => q.other = [] ∧ q.inUse = true
  | .writing writeBuffer pos left | .failed writeBuffer pos left =>
    writeBuffer = WriteQueue.otherBuffer q.currentBuffer ∧ q.other ≠ [] ∧
      pos + left = q.other.length ∧ q.inUse = true

end State

/-- The bytes of a state: sent, taken by the thread, in the current buffer and in the other one; and
    what has been counted. -/
structure View (Message : Type) where
  sent : Bytes
  unsent : Bytes
  current : Bytes
  other : Bytes
  writes : Nat
  accepted : List Message

def State.view {Message : Type} (s : State Message) : View Message :=
  ⟨s.sent, s.unsent, s.queue.current, s.queue.other, s.queue.writes, s.accepted⟩

section Views

variable {Message : Type} [Wire Message]

inductive Change : View Message → View Message → Prop where
  | same (v : View Message) : Change v v
  | append (v : View Message) (pb : Message) : (Wire.serialize pb).length ≤ INT32_MAX →
      Change v { v with current := v.current ++ frame pb, accepted := v.accepted ++ [pb] }
  | swap (v : View Message) : v.current ≠ [] → v.other = [] → v.unsent = [] →
      Change v { v with unsent := v.current, current := [], other := v.current }
  | send (v : View Message) (bytes rest : Bytes) : v.unsent = bytes ++ rest →
      Change v { v with sent := v.sent ++ bytes, unsent := rest }
  | clear (v : View Message) : v.unsent = [] → v.other ≠ [] →
      Change v { v with other := [], writes := v.writes + 1 }

/-- All accepted bytes have been sent, are being sent or wait in the current buffer, in order. -/
structure View.Ordered (v : View Message) : Prop where
  bytes : v.sent ++ v.unsent ++ v.current = v.accepted.flatMap frame
  sizes : ∀ pb ∈ v.accepted, (Wire.serialize pb).length ≤ INT32_MAX
  unsent : v.other = [] → v.unsent = []

theorem Change.ordered {v v' : View Message} (h : Change v v') (hv : v.Ordered) : v'.Ordered := by
  obtain ⟨hbytes, hsizes, hunsent⟩ := hv
  cases h with
  | same => exact ⟨hbytes, hsizes, hunsent⟩
  | append pb hsize =>
    refine ⟨?_, ?_, hunsent⟩
    · dsimp only
      rw [List.flatMap_append, ← hbytes, List.flatMap_singleton]
      simp only [List.append_assoc]
    · intro x hx
      rcases List.mem_append.mp hx with hx | hx
      · exact hsizes x hx
      · rw [List.mem_singleton.mp hx]
        exact hsize
  | swap hcurrent hother hnone =>
    refine ⟨?_, hsizes, fun hempty => absurd hempty hcurrent⟩
    rw [hnone, List.append_nil] at hbytes
    rw [List.append_nil, hbytes]
  | send bytes rest hsplit =>
    refine ⟨?_, hsizes, fun hempty => ?_⟩
    · rw [hsplit] at hbytes
      rw [List.append_assoc v.sent, hbytes]
    · have hnone := hsplit.symm.trans (hunsent hempty)
      exact (List.append_eq_nil_iff.mp hnone).2
  | clear hnone hother => exact ⟨hbytes, hsizes, fun _ => hnone⟩

/-- After `n` bytes have been accepted and a flush has begun to wait for `target` writes: they have
    been sent, or are being sent and one write is missing, or some of them wait and one write more
    is missing. -/
def View.Due (n target : Nat) (v : View Message) : Prop :=
  n ≤ v.sent.length ∨
    (n ≤ v.sent.length + v.unsent.length ∧ v.other ≠ [] ∧ v.writes + 1 ≤ target) ∨
    (n ≤ v.sent.length + v.unsent.length + v.current.length ∧
      v.writes + 1 + (if v.other ≠ [] then 1 else 0) ≤ target)

theorem Change.due {n target : Nat} {v v' : View Message} (h : Change v v') (hv : v.Due n target) :
    v'.Due n target := by
  rw [View.Due] at hv ⊢
  cases h with
  | same => exact hv
  | append pb =>
    dsimp only
    rw [List.length_append]
    rcases hv with hv | hv | ⟨hlen, hwrites⟩
    · exact .inl hv
    · exact .inr (.inl hv)
    · exact .inr (.inr ⟨by omega, hwrites⟩)
  | swap hcurrent hother hnone =>
    rw [hnone, List.length_nil] at hv
    rw [if_neg (not_not.mpr hother)] at hv
    rcases hv with hv | ⟨-, hne, -⟩ | ⟨hlen, hwrites⟩
    · exact .inl hv
    · exact absurd hother hne
    · exact .inr (.inl ⟨by omega, hcurrent, by omega⟩)
  | send bytes rest hsplit =>
    rw [hsplit, List.length_append] at hv
    dsimp only
    rw [List.length_append]
    rcases hv with hv | ⟨hlen, hrest⟩ | ⟨hlen, hrest⟩
    · exact .inl (by omega)
    · exact .inr (.inl ⟨by omega, hrest⟩)
    · exact .inr (.inr ⟨by omega, hrest⟩)
  | clear hnone hother =>
    rw [hnone, List.length_nil, if_pos hother] at hv
    dsimp only
    rw [hnone, List.length_nil, if_neg (not_not.mpr rfl)]
    rcases hv with hv | ⟨hlen, -⟩ | ⟨hlen, hwrites⟩
    · exact .inl hv
    · exact .inl (by omega)
    · exact .inr (.inr ⟨by omega, by omega⟩)

/-- A flush begins: so many writes complete what has been accepted so far. -/
theorem View.Ordered.due {v : View Message} (h : v.Ordered) :
    v.Due (v.accepted.flatMap frame).length
      (v.writes + (if v.current ≠ [] then 1 else 0) + (if v.other ≠ [] then 1 else 0)) := by
  rw [View.Due, ← h.bytes, List.length_append, List.length_append]
  by_cases hcurrent : v.current = []
  · rw [hcurrent, List.length_nil, if_neg (not_not.mpr rfl)]
    by_cases hother : v.other = []
    · rw [h.unsent hother, List.length_nil]
      exact .inl (by omega)
    · rw [if_pos hother]
      exact .inr (.inl ⟨by omega, hother, by omega⟩)
  · rw [if_pos hcurrent]
    exact .inr (.inr ⟨by omega, by omega⟩)

theorem Change.accepted {v v' : View Message} (h : Change v v') : v.accepted <+: v'.accepted := by
  cases h with
  | append pb => exact List.prefix_append _ _
  | _ => exact List.prefix_rfl

theorem View.Ordered.sent_initial {v : View Message} (h : v.Ordered) :
    v.sent <+: v.accepted.flatMap frame := by
  rw [← h.bytes, List.append_assoc]
  exact List.prefix_append _ _

theorem flatMap_frame_mono {l l' : List Message} (h : l <+: l') :
    l.flatMap frame <+: l'.flatMap frame := by
  obtain ⟨rest, rfl⟩ := h
  rw [List.flatMap_append]
  exact List.prefix_append _ _

end Views

/-! ### Every step does one of them -/

namespace WriteQueue

variable {Message : Type} [Wire Message] (q : WriteQueue)

@[simp] theorem otherBuffer_otherBuffer (b : Bool) : otherBuffer (otherBuffer b) = b := Bool.not_not b

theorem otherBuffer_ne (b : Bool) : otherBuffer b ≠ b := Bool.not_ne_self b

theorem current_append (pb : Message) : (q.append pb).current = q.current ++ frame pb :=
  Function.update_self ..

theorem other_append (pb : Message) : (q.append pb).other = q.other :=
  Function.update_of_ne (otherBuffer_ne _) ..

theorem current_switch : q.switch.current = q.other := rfl

theorem other_switch : q.switch.other = q.current := by
  rw [other, switch, otherBuffer_otherBuffer]
  rfl

theorem current_clear : (q.clear (otherBuffer q.currentBuffer)).current = q.current :=
  Function.update_of_ne (otherBuffer_ne _).symm ..

theorem other_clear : (q.clear (otherBuffer q.currentBuffer)).other = [] :=
  Function.update_self ..

theorem checkPB_eq_ok {initialized : Bool} {pb : Message} :
    checkPB initialized pb = .ok ↔
      initialized = true ∧ (Wire.serialize pb).length ≤ INT32_MAX := by
  rw [checkPB]
  split_ifs with hinit hsize
  · simp [hinit]
  · simp [hsize]
  · simp [not_lt.mp hsize, Bool.not_eq_false _ ▸ hinit]

end WriteQueue

namespace State

variable {Message : Type} [Wire Message] {s : State Message}

/-- The thread's place fits the queue, and only a thread that has failed aborts. -/
structure Sound (s : State Message) : Prop where
  placed : Placed s.queue s.thread
  checks : s.aborted = true → ∃ writeBuffer pos left, s.thread = .failed writeBuffer pos left

omit [Wire Message] in
theorem Sound.of_running {s : State Message} (hplaced : Placed s.queue s.thread)
    (hrunning : s.aborted = false) : s.Sound :=
  ⟨hplaced, fun habort => absurd (hrunning.symm.trans habort) Bool.false_ne_true⟩

variable (hs : Placed s.queue s.thread) (hrunning : s.aborted = false)
include hs hrunning

theorem writePB_spec (initialized : Bool) (pb : Message) :
    (s.writePB initialized pb).Sound ∧ Change s.view (s.writePB initialized pb).view := by
  rw [writePB]
  split_ifs with hcheck
  · obtain ⟨-, hsize⟩ := WriteQueue.checkPB_eq_ok.mp hcheck
    have hcurrent := s.queue.current_append pb
    have hother := s.queue.other_append pb
    refine ⟨.of_running ?_ hrunning, ?_⟩
    · -- The section only writes to the current buffer.
      change Placed (s.queue.append pb) s.thread
      cases hthread : s.thread <;> rw [hthread] at hs <;> rw [Placed] at hs ⊢ <;> rw [hother] <;>
        exact hs
    · have hunsent : ({ s with
          queue := s.queue.append pb, accepted := s.accepted ++ [pb] } : State Message).unsent =
          s.unsent := by
        rw [unsent, unsent, hother]
      rw [show ({ s with
          queue := s.queue.append pb, accepted := s.accepted ++ [pb] } : State Message).view =
          { s.view with
            current := s.queue.current ++ frame pb, accepted := s.accepted ++ [pb] } by
        rw [view, hunsent, hcurrent, hother]; rfl]
      exact .append s.view pb hsize
  · exact ⟨.of_running hs hrunning, .same _⟩

theorem writeThread_spec : s.writeThread.Sound ∧ Change s.view s.writeThread.view := by
  rw [writeThread]
  split
  · rename_i hthread
    rw [hthread] at hs
    rw [check, if_pos hs.2]
    refine ⟨.of_running ⟨hs.1, rfl⟩ hrunning, ?_⟩
    have hunsent : s.unsent = [] := by rw [unsent, hthread]
    rw [show s.view = ⟨s.sent, [], s.queue.current, s.queue.other, s.queue.writes, s.accepted⟩ by
      rw [view, hunsent]]
    exact .same _
  · rename_i writeBuffer pos left hthread
    have huse := hs
    rw [hthread] at huse
    -- A failed call has left the object in use.
    rw [check, if_neg (by rw [huse.2.2.2]; exact Bool.noConfusion)]
    exact ⟨⟨hs, fun _ => ⟨writeBuffer, pos, left, hthread⟩⟩, .same _⟩
  · exact ⟨.of_running hs hrunning, .same _⟩

theorem swap_spec : s.swap.Sound ∧ Change s.view s.swap.view := by
  rw [swap]
  split
  case h_2 => exact ⟨.of_running hs hrunning, .same _⟩
  rename_i hthread
  have hplaced := hs
  rw [hthread] at hplaced
  obtain ⟨hother, huse⟩ := hplaced
  have hunsent : s.unsent = [] := by rw [unsent, hthread]
  dsimp only
  split_ifs with hempty hdone
  · rw [check, if_pos huse]
    refine ⟨.of_running ⟨hother, rfl⟩ hrunning, ?_⟩
    rw [show s.view = ⟨s.sent, [], s.queue.current, s.queue.other, s.queue.writes, s.accepted⟩ by
      rw [view, hunsent]]
    exact .same _
  · exact ⟨.of_running hs hrunning, .same _⟩
  · have hpos : 0 < (s.queue.buffers s.queue.currentBuffer).length := List.length_pos_iff.mpr hempty
    rw [check, if_pos ⟨hother, hpos, WriteQueue.otherBuffer_ne _⟩]
    have hnew := s.queue.other_switch
    refine ⟨.of_running ⟨?_, ?_, ?_, huse⟩ hrunning, ?_⟩
    · exact (WriteQueue.otherBuffer_otherBuffer _).symm
    · rw [hnew]
      exact hempty
    · rw [hnew, Nat.zero_add]
      rfl
    · change Change s.view ⟨s.sent, s.queue.switch.other.drop 0, s.queue.switch.current,
        s.queue.switch.other, s.queue.writes, s.accepted⟩
      rw [hnew, WriteQueue.current_switch, hother, List.drop_zero]
      exact .swap s.view hempty hother hunsent

theorem send_spec (got : Nat) : (s.send got).Sound ∧ Change s.view (s.send got).view := by
  rw [send]
  split
  case h_2 => exact ⟨.of_running hs hrunning, .same _⟩
  rename_i writeBuffer pos left hthread
  split_ifs with hgot
  · have hplaced := hs
    rw [hthread] at hplaced
    obtain ⟨rfl, hne, hlen, huse⟩ := hplaced
    have hpos : pos + got + (left - got) = s.queue.other.length := by omega
    refine ⟨.of_running ⟨rfl, hne, hpos, huse⟩ hrunning, ?_⟩
    refine .send s.view ((s.queue.other.drop pos).take got) (s.queue.other.drop (pos + got)) ?_
    rw [← List.drop_drop, List.take_append_drop]
    change s.unsent = _
    rw [unsent, hthread]
  · exact ⟨.of_running hs hrunning, .same _⟩

theorem sendFails_spec : s.sendFails.Sound ∧ Change s.view s.sendFails.view := by
  rw [sendFails]
  split
  case h_2 => exact ⟨.of_running hs hrunning, .same _⟩
  rename_i writeBuffer pos left hthread
  split_ifs with hleft
  · have hplaced := hs
    rw [hthread] at hplaced
    refine ⟨.of_running hplaced hrunning, ?_⟩
    rw [show s.view = ⟨s.sent, s.queue.other.drop pos, s.queue.current, s.queue.other,
      s.queue.writes, s.accepted⟩ by rw [view, unsent, hthread]]
    exact .same _
  · exact ⟨.of_running hs hrunning, .same _⟩

theorem clear_spec : s.clear.Sound ∧ Change s.view s.clear.view := by
  rw [clear]
  split
  case h_2 => exact ⟨.of_running hs hrunning, .same _⟩
  rename_i writeBuffer pos hthread
  have hplaced := hs
  rw [hthread] at hplaced
  obtain ⟨rfl, hne, hlen, huse⟩ := hplaced
  have hnone : s.unsent = [] := by
    rw [unsent, hthread]
    exact List.drop_of_length_le (by omega)
  have hother := s.queue.other_clear
  refine ⟨.of_running ⟨hother, huse⟩ hrunning, ?_⟩
  have hchange := Change.clear s.view hnone hne
  rw [show s.view = ⟨s.sent, [], s.queue.current, s.queue.other, s.queue.writes, s.accepted⟩ by
    rw [view, hnone]] at hchange ⊢
  change Change _ ⟨s.sent, [], (s.queue.clear (WriteQueue.otherBuffer _)).current,
    (s.queue.clear (WriteQueue.otherBuffer _)).other, s.queue.writes + 1, s.accepted⟩
  rw [hother, s.queue.current_clear]
  exact hchange

omit hs hrunning

theorem Sound.step (hs : s.Sound) (e : Event Message) :
    (s.step e).Sound ∧ Change s.view (s.step e).view := by
  rw [State.step]
  split_ifs with habort
  · exact ⟨hs, .same _⟩
  · rw [Bool.not_eq_true] at habort
    cases e with
    | writePB initialized pb => exact writePB_spec hs.placed habort initialized pb
    | writeThread => exact writeThread_spec hs.placed habort
    | swap => exact swap_spec hs.placed habort
    | send got => exact send_spec hs.placed habort got
    | sendFails => exact sendFails_spec hs.placed habort
    | clear => exact clear_spec hs.placed habort
    | killThread => exact ⟨.of_running (by cases hthread : s.thread <;> exact hthread ▸ hs.placed) habort, .same _⟩

/-! ### Whole runs -/

theorem Sound.run (hs : s.Sound) (hv : s.view.Ordered) (events : List (Event Message)) :
    (s.run events).Sound ∧ (s.run events).view.Ordered :=
  foldl_invariant (P := fun s : State Message => s.Sound ∧ s.view.Ordered)
    (fun _ e h => ⟨(h.1.step e).1, (h.1.step e).2.ordered h.2⟩) ⟨hs, hv⟩ events

theorem sound_init : ({} : State Message).Sound ∧ ({} : State Message).view.Ordered :=
  ⟨.of_running ⟨rfl, rfl⟩ rfl, ⟨rfl, nofun, fun _ => rfl⟩⟩

/-- No `CHECK` has failed and no `send` either. -/
structure Clean (s : State Message) : Prop extends s.Sound where
  ordered : s.view.Ordered
  not_failed : ∀ writeBuffer pos left, s.thread ≠ .failed writeBuffer pos left

omit [Wire Message] in
theorem Sound.running (hs : s.Sound)
    (h : ∀ writeBuffer pos left, s.thread ≠ .failed writeBuffer pos left) : s.aborted = false := by
  by_contra habort
  obtain ⟨writeBuffer, pos, left, hfailed⟩ := hs.checks (Bool.not_eq_false _ ▸ habort)
  exact h writeBuffer pos left hfailed

theorem act_not_failed {e : Event Message} (he : e ≠ .sendFails)
    (h : ∀ writeBuffer pos left, s.thread ≠ .failed writeBuffer pos left) (writeBuffer : Bool)
    (pos left : Nat) : (s.act e).thread ≠ .failed writeBuffer pos left := by
  have hsame := h writeBuffer pos left
  cases e with
  | writePB initialized pb =>
    rw [act, writePB]
    split_ifs <;> exact hsame
  | writeThread =>
    rw [act, writeThread]
    split
    · rw [check]
      split_ifs
      · nofun
      · exact hsame
    · rename_i hthread
      exact absurd hthread (h _ _ _)
    · exact hsame
  | swap =>
    rw [act, swap]
    split
    · dsimp only [check]
      split_ifs
      · nofun
      · exact hsame
      · exact hsame
      · nofun
      · exact hsame
    · exact hsame
  | send got =>
    rw [act, send]
    split
    · split_ifs
      · nofun
      · exact hsame
    · exact hsame
  | sendFails => exact absurd rfl he
  | clear =>
    rw [act, clear]
    split
    · nofun
    · exact hsame
  | killThread => exact hsame

/-- The message that an event adds to those that `WritePB` has accepted. -/
def accepted? : Event Message → Option Message
  | .writePB initialized pb => if WriteQueue.checkPB initialized pb = .ok then some pb else none
  | _ => none

theorem accepted_act (s : State Message) (e : Event Message) :
    (s.act e).accepted = s.accepted ++ (accepted? e).toList := by
  cases e with
  | writePB initialized pb =>
    rw [act, writePB, accepted?]
    split_ifs
    · rfl
    · exact (List.append_nil _).symm
  | writeThread =>
    change (s.act _).accepted = s.accepted ++ []
    rw [act, writeThread, List.append_nil]
    split
    · rw [check]
      split_ifs <;> rfl
    · rw [check]
      split_ifs <;> rfl
    · rfl
  | swap =>
    change (s.act _).accepted = s.accepted ++ []
    rw [act, swap, List.append_nil]
    split
    · dsimp only [check]
      split_ifs <;> rfl
    · rfl
  | send got =>
    change (s.act _).accepted = s.accepted ++ []
    rw [act, send, List.append_nil]
    split
    · split_ifs <;> rfl
    · rfl
  | sendFails =>
    change (s.act _).accepted = s.accepted ++ []
    rw [act, sendFails, List.append_nil]
    split
    · split_ifs <;> rfl
    · rfl
  | clear =>
    change (s.act _).accepted = s.accepted ++ []
    rw [act, clear, List.append_nil]
    split <;> rfl
  | killThread => exact (List.append_nil _).symm

theorem Clean.step_eq (hs : s.Clean) (e : Event Message) : s.step e = s.act e := by
  rw [State.step, if_neg]
  rw [hs.running hs.not_failed]
  exact Bool.false_ne_true

theorem Clean.step (hs : s.Clean) {e : Event Message} (he : e ≠ .sendFails) : (s.step e).Clean := by
  obtain ⟨hsound, hchange⟩ := hs.toSound.step e
  refine ⟨hsound, hchange.ordered hs.ordered, ?_⟩
  rw [hs.step_eq e]
  exact act_not_failed he hs.not_failed

theorem Clean.run (hs : s.Clean) {events : List (Event Message)}
    (hio : ∀ e ∈ events, e ≠ .sendFails) :
    (s.run events).Clean ∧ (s.run events).accepted = s.accepted ++ events.filterMap accepted? := by
  induction events generalizing s with
  | nil => exact ⟨hs, (List.append_nil _).symm⟩
  | cons e events ih =>
    have he := hio e List.mem_cons_self
    obtain ⟨hclean, haccepted⟩ := ih (hs.step he) fun e' he' => hio e' (List.mem_cons_of_mem e he')
    refine ⟨hclean, haccepted.trans ?_⟩
    rw [hs.step_eq e, accepted_act, List.append_assoc, List.filterMap_cons]
    cases accepted? e <;> rfl

theorem clean_init : ({} : State Message).Clean :=
  ⟨sound_init.1, sound_init.2, nofun⟩

end State

section Results

variable {Message : Type} [Wire Message]

/-- The write queue loses and reorders nothing: whatever calls of `WritePB` come between the sections
    of the thread, and however the bytes are sent and received in parts, if no `send` fails then no
    `CHECK` fails; what has been sent is always a prefix of the frames of the accepted messages, and
    the rest of them is with the thread or in the current buffer; and the other end reads the
    messages that have been sent completely, in order. -/
theorem write_queue_in_order (events : List (Event Message))
    (hio : ∀ e ∈ events, e ≠ .sendFails) :
    let s := State.run {} events
    s.aborted = false ∧ s.accepted = events.filterMap State.accepted? ∧
      s.sent <+: s.accepted.flatMap frame ∧
      s.sent ++ s.unsent ++ s.queue.current = s.accepted.flatMap frame ∧
      ∀ (socket : Socket) (n : Nat), socket.incoming.stream = s.sent → n ≤ s.accepted.length →
        ((s.accepted.take n).flatMap frame).length ≤ s.sent.length →
        ∃ socket', readPBTimes Message n socket = .ok (s.accepted.take n, socket') := by
  intro s
  obtain ⟨hclean, haccepted⟩ := State.clean_init.run hio
  have hprefix := hclean.ordered.sent_initial
  refine ⟨hclean.running hclean.not_failed, haccepted, hprefix, hclean.ordered.bytes, ?_⟩
  intro socket n hsocket hn hlen
  -- The first frames are a prefix of what has been sent.
  have hfirst : (s.accepted.take n).flatMap frame <+: s.accepted.flatMap frame :=
    flatMap_frame_mono <| List.take_prefix n s.accepted
  obtain ⟨rest, hrest⟩ := List.prefix_of_prefix_length_le hfirst hprefix hlen
  obtain ⟨socket', hread, -⟩ := readPBTimes_frames (s.accepted.take n)
    (fun pb hpb => hclean.ordered.sizes pb (List.mem_of_mem_take hpb)) (hsocket.trans hrest.symm)
  rw [List.length_take, Nat.min_eq_left hn] at hread
  exact ⟨socket', hread⟩

/-- A message is written while the one before it is being sent, in parts. -/
def sampleEvents : List (Event RawMessage) :=
  [.writePB true ⟨[7]⟩, .writeThread, .swap, .writePB true ⟨[8, 9]⟩, .send 3, .send 2, .clear, .swap,
    .send 1]

theorem write_queue_in_order_sampleEvents :
    (State.run {} sampleEvents).aborted = false ∧ ∃ socket',
      readPBTimes RawMessage 1 ⟨⟨[[0, 0], [0, 1, 7, 0]], by decide⟩, []⟩ = .ok ([⟨[7]⟩], socket') := by
  obtain ⟨hrunning, -, -, -, hread⟩ := write_queue_in_order sampleEvents (by decide)
  exact ⟨hrunning, hread ⟨⟨[[0, 0], [0, 1, 7, 0]], by decide⟩, []⟩ 1 (by decide) (by decide)
    (by decide)⟩

/-- A flush is sound: when the condition for which `FlushIfAble` waits becomes true, all that was
    accepted before it took the lock has been written to the socket, whatever has happened since. -/
theorem flush_sound (events later : List (Event Message)) :
    let s := State.run {} events
    let s' := s.run later
    s.queue.flushTarget ≤ s'.queue.writes → s.accepted.flatMap frame <+: s'.sent := by
  intro s s' hwaited
  obtain ⟨hsound, hordered⟩ := State.sound_init.1.run State.sound_init.2 events
  obtain ⟨-, hordered', hdue, haccepted⟩ := foldl_invariant
    (P := fun t : State Message => t.Sound ∧ t.view.Ordered ∧
      t.view.Due (s.accepted.flatMap frame).length s.queue.flushTarget ∧ s.accepted <+: t.accepted)
    (fun t e h => by
      obtain ⟨hstep, hchange⟩ := h.1.step e
      exact ⟨hstep, hchange.ordered h.2.1, hchange.due h.2.2.1,
        h.2.2.2.trans hchange.accepted⟩)
    ⟨hsound, hordered, hordered.due, List.prefix_rfl⟩ later
  -- No write is missing any more.
  have hlen : (s.accepted.flatMap frame).length ≤ s'.sent.length := by
    rcases hdue with hlen | ⟨-, -, hwrites⟩ | ⟨-, hwrites⟩
    · exact hlen
    · exact absurd hwaited (not_le.mpr hwrites)
    · exact absurd hwaited (not_le.mpr (Nat.le_of_add_right_le hwrites))
  exact List.prefix_of_prefix_length_le (flatMap_frame_mono haccepted) hordered'.sent_initial hlen

/-- A flush that begins while a message is being sent waits for one write. -/
theorem flush_sound_one_write :
    [(⟨[7]⟩ : RawMessage)].flatMap frame <+:
      ((State.run {} [.writePB true (⟨[7]⟩ : RawMessage), .writeThread, .swap]).run
        [.send 5, .writePB true ⟨[8]⟩, .clear]).sent :=
  flush_sound [.writePB true (⟨[7]⟩ : RawMessage), .writeThread, .swap]
    [.send 5, .writePB true ⟨[8]⟩, .clear] (by decide)

end Results

end SVR2.Socketwrap
