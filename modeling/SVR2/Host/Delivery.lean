import Mathlib.Data.List.TakeWhile
import SVR2.Host.Tracking

/-!
# What an acknowledgement means

The receiver moves its number on before it hands a message to the enclave.  When the enclave fails
it gives up the connection, and the hello ack of the next one acknowledges the message all the same.
As long as no connection is taken up right after such a failure, every message that was acknowledged
has been delivered, and the sender drops none that has not.
-/

namespace SVR2.Host

open Lib SequenceNumber

/-! ### The receiver -/

/-- The number of a message that the receiver takes for new, and whether the enclave takes the
    message. -/
def PeerReceiver.taken? (p : PeerReceiver) (pcm : PeerConnectionMessage)
    (env : PeerReceiver.Answers) : Option (SequenceNumber × Bool) :=
  match pcm with
  | .other => none
  | .data d =>
    match makeSeqno d.seqno with
    | .error _ => none
    | .ok msgSeqno =>
      match p.updateSeqno msgSeqno with
      | (_, .ok true) => some (msgSeqno, d.msg.isSome && env.sendOk)
      | _ => none

theorem PeerReceiver.taken?_of_goOn {p : PeerReceiver} {pcm : PeerConnectionMessage}
    {env : PeerReceiver.Answers} {ack : Option SequenceNumber}
    (h : (p.handleMessage pcm env).2 = .goOn ack) :
    ∀ x ∈ p.taken? pcm env, x.2 = true := by
  intro x hx
  cases pcm with
  | other => cases hx
  | data d =>
    rw [taken?] at hx
    rw [handleMessage] at h
    cases hseqno : makeSeqno d.seqno with
    | error err =>
      rw [hseqno] at hx
      cases hx
    | ok n =>
      rw [hseqno] at hx h
      dsimp only at hx h
      rcases hupdate : p.updateSeqno n with ⟨p', err | _ | _⟩ <;> rw [hupdate] at hx h
      · cases hx
      · cases hx
      · cases hx
        cases hmsg : d.msg with
        | none =>
          rw [hmsg] at h
          cases h
        | some msg =>
          rw [hmsg] at h
          dsimp only at h ⊢
          split_ifs at h with hsend
          exact hsend

/-- A receiver with the history of the messages that it has taken for new. -/
structure Receipts where
  loop : ReceiveLoop
  taken : List (SequenceNumber × Bool) := []

namespace Receipts

def start (remote : Bytes) : Receipts := { loop := { receiver := { remote := remote } } }

def newlyTaken (s : ReceiveLoop) : ReceiveEvent → List (SequenceNumber × Bool)
  | .message pcm env =>
    if s.handler = .running then (s.receiver.taken? pcm env).toList else []
  | _ => []

def step (s : Receipts) (e : ReceiveEvent) : Receipts where
  loop := s.loop.step e
  taken := s.taken ++ newlyTaken s.loop e

/-- The number that an event acknowledges, on the connection or with the hello ack of a new one. -/
def acknowledged? (s : ReceiveLoop) : ReceiveEvent → Option SequenceNumber
  | .connect helloOk =>
    if s.handler ≠ .crashed ∧ helloOk = true then some s.receiver.seqno else none
  | .message pcm env =>
    if s.handler = .running then
      match (s.receiver.handleMessage pcm env).2 with
      | .goOn ack => ack
      | _ => none
    else none
  | .disconnect => none

def AllDelivered (s : Receipts) : Prop := ∀ x ∈ s.taken, x.2 = true

/-- A connection is taken up with a hello ack only if the enclave has not failed to take the last
    message. -/
def AfterSuccess (s : Receipts) : ReceiveEvent → Prop
  | .connect helloOk => helloOk = true → ∀ x ∈ s.taken.getLast?, x.2 = true
  | _ => True

instance (s : Receipts) : ∀ e, Decidable (s.AfterSuccess e)
  | .connect helloOk =>
    inferInstanceAs (Decidable (helloOk = true → ∀ x ∈ s.taken.getLast?, x.2 = true))
  | .message .. => .isTrue trivial
  | .disconnect => .isTrue trivial

/-- The enclave has taken all messages but perhaps the last, and while a connection is handled
    that one too. -/
structure Clean (s : Receipts) : Prop where
  older : ∀ x ∈ s.taken.dropLast, x.2 = true
  running : s.loop.handler = .running → s.AllDelivered

theorem Clean.start (remote : Bytes) : (start remote).Clean := ⟨nofun, nofun⟩

theorem Clean.allDelivered {s : Receipts} (h : s.Clean)
    (hlast : ∀ x ∈ s.taken.getLast?, x.2 = true) : s.AllDelivered :=
  forall_of_dropLast h.older hlast

theorem AllDelivered.append {s : Receipts} (h : s.AllDelivered) {e : ReceiveEvent}
    (hnew : ∀ x ∈ newlyTaken s.loop e, x.2 = true) : (s.step e).AllDelivered := by
  intro x hx
  rcases List.mem_append.mp hx with hx | hx
  · exact h x hx
  · exact hnew x hx

/-- A message is taken only from a connection that is handled. -/
theorem Clean.older_step {s : Receipts} (h : s.Clean) (e : ReceiveEvent) :
    ∀ x ∈ (s.step e).taken.dropLast, x.2 = true := by
  have hkept : ∀ x ∈ (s.taken ++ []).dropLast, x.2 = true := by
    rw [List.append_nil]
    exact h.older
  cases e with
  | connect helloOk => exact hkept
  | disconnect => exact hkept
  | message pcm env =>
    change ∀ x ∈ (s.taken ++ newlyTaken s.loop (.message pcm env)).dropLast, x.2 = true
    rw [newlyTaken]
    split_ifs with hrunning
    · cases htaken : s.loop.receiver.taken? pcm env with
      | none => exact hkept
      | some y =>
        rw [Option.toList_some, List.dropLast_concat]
        exact h.running hrunning
    · exact hkept

theorem Clean.step {s : Receipts} (h : s.Clean) (e : ReceiveEvent) (he : s.AfterSuccess e) :
    (s.step e).Clean := by
  refine ⟨h.older_step e, fun hrunning => ?_⟩
  cases e with
  | connect helloOk =>
    refine AllDelivered.append (h.allDelivered (he ?_)) nofun
    change (s.loop.step (.connect helloOk)).handler = .running at hrunning
    cases helloOk with
    | true => rfl
    | false => cases hhandler : s.loop.handler <;> simp [ReceiveLoop.step, hhandler] at hrunning
  | disconnect =>
    -- the handler is gone, or the process
    change (s.loop.step .disconnect).handler = .running at hrunning
    cases hhandler : s.loop.handler <;> simp [ReceiveLoop.step, hhandler] at hrunning
  | message pcm env =>
    change (s.loop.step (.message pcm env)).handler = .running at hrunning
    cases hhandler : s.loop.handler with
    | idle => simp [ReceiveLoop.step, hhandler] at hrunning
    | crashed => simp [ReceiveLoop.step, hhandler] at hrunning
    | running =>
      refine (h.running hhandler).append fun x hx => ?_
      rw [newlyTaken, if_pos hhandler] at hx
      simp only [ReceiveLoop.step, hhandler] at hrunning
      split at hrunning
      · rename_i ack hturn
        exact PeerReceiver.taken?_of_goOn (congrArg Prod.snd hturn) x (Option.mem_toList.mp hx)
      · cases hrunning
      · cases hrunning

/-- When a number is acknowledged, the enclave has taken all messages up to now. -/
theorem Clean.acknowledged {s : Receipts} (h : s.Clean) {e : ReceiveEvent} (he : s.AfterSuccess e)
    {n : SequenceNumber} (hn : acknowledged? s.loop e = some n) : (s.step e).AllDelivered := by
  cases e with
  | connect helloOk =>
    rw [acknowledged?] at hn
    split_ifs at hn with hhello
    exact AllDelivered.append (h.allDelivered (he hhello.2)) nofun
  | disconnect => cases hn
  | message pcm env =>
    rw [acknowledged?] at hn
    split_ifs at hn with hrunning
    refine (h.running hrunning).append fun x hx => ?_
    rw [newlyTaken, if_pos hrunning] at hx
    split at hn
    · rename_i ack hturn
      exact PeerReceiver.taken?_of_goOn hturn x (Option.mem_toList.mp hx)
    · cases hn

end Receipts

/-! ### The sender -/

/-- Two hosts, with the history of what the receiver's enclave has taken. -/
structure Ledger where
  hosts : Hosts
  delivered : List (SequenceNumber × PeerMessage) := []

namespace Ledger

def start (bufferSize : Nat) (remote : Bytes) : Ledger := { hosts := .start bufferSize remote }

/-- What an event makes the enclave take: what it is given, unless it fails. -/
def newlyDelivered (s : Hosts) : HostEvent → List (SequenceNumber × PeerMessage)
  | .deliver env =>
    if env.sendOk then (s.step (.deliver env)).receiver.sent.drop s.receiver.sent.length else []
  | _ => []

def step (l : Ledger) (e : HostEvent) : Ledger where
  hosts := l.hosts.step e
  delivered := l.delivered ++ newlyDelivered l.hosts e

def ackRead? (s : Hosts) : HostEvent → Option SequenceNumber
  | .hello =>
    match s.conn with
    | some (k, .hello) => (s.links k).toSender.head?
    | _ => none
  | .ack =>
    match s.conn with
    | some (k, .running c) => if c.resend ≠ [] then none else (s.links k).toSender.head?
    | _ => none
  | _ => none

def dropped (s : Hosts) (e : HostEvent) : List Numbered :=
  match ackRead? s e with
  | none => []
  | some a =>
    match s.sender.processAck a with
    | none => []
    | some p => s.sender.pending.take (s.sender.pending.length - p.pending.length)

def AllDelivered (l : Ledger) : Prop := ∀ x ∈ l.hosts.receiver.sent, x ∈ l.delivered

/-- A connection is taken up with a hello ack only if the enclave has not failed to take the last
    message. -/
def AfterSuccess (l : Ledger) : HostEvent → Prop
  | .accept _ helloOk => helloOk = true → ∀ x ∈ l.hosts.receiver.sent.getLast?, x ∈ l.delivered
  | _ => True

instance (l : Ledger) : ∀ e, Decidable (l.AfterSuccess e)
  | .accept _ helloOk =>
    inferInstanceAs
      (Decidable (helloOk = true → ∀ x ∈ l.hosts.receiver.sent.getLast?, x ∈ l.delivered))
  | .queue .. | .dial | .hello | .resend _ | .send _ | .ack | .senderLeaves | .deliver _ |
    .receiverLeaves => .isTrue trivial

variable {l : Ledger}

/-- The enclave was given the message with this number, if it is not the very first, and it has
    taken all messages up to it. -/
def Confirmed (l : Ledger) (a : SequenceNumber) : Prop :=
  a ∈ {} :: l.hosts.receiver.sent.map Prod.fst ∧
    ∀ x ∈ l.hosts.receiver.sent, x.1 ≤ a → x ∈ l.delivered

/-- What the enclave was given follows one another up to the receiver's number; it has taken all but
    perhaps the last, and while a connection is served that one too; all acks under way are of what
    it has taken. -/
structure Settled (l : Ledger) : Prop where
  chain : ({} :: l.hosts.receiver.sent.map Prod.fst).IsChain Next
  last : (l.hosts.receiver.sent.map Prod.fst).getLastD {} = l.hosts.receiver.seqno
  acks : ∀ k, ∀ a ∈ (l.hosts.links k).toSender, l.Confirmed a
  older : ∀ x ∈ l.hosts.receiver.sent.dropLast, x ∈ l.delivered
  serving : l.hosts.serving ≠ none → l.AllDelivered

theorem Settled.start (bufferSize : Nat) (remote : Bytes) : (start bufferSize remote).Settled where
  chain := List.isChain_singleton _
  last := rfl
  acks := nofun
  older := nofun
  serving := absurd rfl

theorem delivered_step (l : Ledger) (e : HostEvent) {x : SequenceNumber × PeerMessage}
    (hx : x ∈ l.delivered) : x ∈ (l.step e).delivered :=
  List.mem_append_left _ hx

theorem AllDelivered.of_receiver (h : l.AllDelivered) {e : HostEvent}
    (hreceiver : (l.hosts.step e).receiver = l.hosts.receiver) : (l.step e).AllDelivered := by
  intro x hx
  change x ∈ (l.hosts.step e).receiver.sent at hx
  rw [hreceiver] at hx
  exact l.delivered_step e (h x hx)

theorem Confirmed.of_receiver {a : SequenceNumber} (h : l.Confirmed a) {e : HostEvent}
    (hreceiver : (l.hosts.step e).receiver = l.hosts.receiver) : (l.step e).Confirmed a := by
  change _ ∈ {} :: (l.hosts.step e).receiver.sent.map Prod.fst ∧
    ∀ x ∈ (l.hosts.step e).receiver.sent, _
  rw [hreceiver]
  exact ⟨h.1, fun x hx hle => l.delivered_step e (h.2 x hx hle)⟩

/-- The receiver's own number is confirmed when the enclave has taken everything. -/
theorem Settled.confirmed (h : l.Settled) (hall : l.AllDelivered) :
    l.Confirmed l.hosts.receiver.seqno :=
  ⟨h.last ▸ List.getLastD_mem_cons, fun x hx _ => hall x hx⟩

/-- While the receiver does nothing, only acks and the connection matter. -/
theorem Settled.of_receiver (h : l.Settled) {e : HostEvent}
    (hreceiver : (l.hosts.step e).receiver = l.hosts.receiver)
    (hacks : ∀ k, ∀ a ∈ ((l.hosts.step e).links k).toSender, (l.step e).Confirmed a)
    (hserving : (l.hosts.step e).serving ≠ none → (l.step e).AllDelivered) :
    (l.step e).Settled where
  chain := by
    change ({} :: (l.hosts.step e).receiver.sent.map Prod.fst).IsChain Next
    rw [hreceiver]
    exact h.chain
  last := by
    change ((l.hosts.step e).receiver.sent.map Prod.fst).getLastD {} =
      (l.hosts.step e).receiver.seqno
    rw [hreceiver]
    exact h.last
  acks := hacks
  older x hx := by
    change x ∈ (l.hosts.step e).receiver.sent.dropLast at hx
    rw [hreceiver] at hx
    exact l.delivered_step e (h.older x hx)
  serving := hserving

theorem Settled.of_quiet (h : l.Settled) {e : HostEvent} (hquiet : l.hosts.Quiet (l.hosts.step e)) :
    (l.step e).Settled :=
  h.of_receiver hquiet.receiver
    (fun k a ha => (h.acks k a (hquiet.acks k a ha)).of_receiver hquiet.receiver)
    fun hserving => (h.serving (hquiet.serving hserving)).of_receiver hquiet.receiver

theorem Settled.accept (h : l.Settled) (k : Nat) (helloOk : Bool)
    (hlast : helloOk = true → ∀ x ∈ l.hosts.receiver.sent.getLast?, x ∈ l.delivered) :
    (l.step (.accept k helloOk)).Settled := by
  have hreceiver : (l.hosts.step (.accept k helloOk)).receiver = l.hosts.receiver := by
    rw [Hosts.step]
    split_ifs <;> rfl
  refine h.of_receiver hreceiver (fun j a ha => ?_) fun hserving => ?_
  · refine Confirmed.of_receiver ?_ hreceiver
    change a ∈ ((l.hosts.step (.accept k helloOk)).links j).toSender at ha
    rw [Hosts.step] at ha
    split_ifs at ha with hfresh hok
    · revert a
      refine Hosts.forall_setLink (P := fun _ link => ∀ a ∈ link.toSender, l.Confirmed a)
        h.acks ?_ j
      intro a ha
      rw [List.mem_singleton.mp ha]
      exact h.confirmed (forall_of_dropLast h.older (hlast hok))
    · revert a
      refine Hosts.forall_setLink (P := fun _ link => ∀ a ∈ link.toSender, l.Confirmed a)
        h.acks ?_ j
      exact h.acks k
    · exact h.acks j a ha
  · refine AllDelivered.of_receiver ?_ hreceiver
    change (l.hosts.step (.accept k helloOk)).serving ≠ none at hserving
    rw [Hosts.step] at hserving
    split_ifs at hserving with hfresh hok
    · exact forall_of_dropLast h.older (hlast hok)
    · exact absurd rfl hserving
    · exact h.serving hserving

theorem Settled.read (h : l.Settled) {k : Nat} (hserving : l.hosts.serving = some k) {d : Numbered}
    {rest : List Numbered} (hlink : (l.hosts.links k).toReceiver = d :: rest)
    (hnext : Next l.hosts.receiver.seqno d.seqno) (env : PeerReceiver.Answers) :
    (l.step (.deliver env)).Settled := by
  obtain ⟨hsent, hseqno, hacks, hok⟩ := Hosts.deliver_spec hserving hlink hnext env
  have hold : l.AllDelivered := h.serving (by rw [hserving]; nofun)
  have hall : env.sendOk = true → (l.step (.deliver env)).AllDelivered := by
    intro hsend x hx
    refine List.mem_append.mpr ?_
    change x ∈ (l.hosts.step (.deliver env)).receiver.sent at hx
    rw [newlyDelivered, if_pos hsend]
    rw [hsent] at hx ⊢
    rw [List.drop_left]
    exact (List.mem_append.mp hx).imp (hold x) id
  have hlast :
      ((l.hosts.step (.deliver env)).receiver.sent.map Prod.fst).getLastD {} = d.seqno := by
    rw [hsent, List.map_append, getLastD_append]
    rfl
  refine ⟨?_, hlast.trans hseqno.symm, fun j a ha => ?_, fun x hx => ?_, fun hon => hall (hok hon)⟩
  · change ({} :: (l.hosts.step _).receiver.sent.map Prod.fst).IsChain Next
    rw [hsent, List.map_append]
    exact isChain_cons_snoc.mpr ⟨h.chain, h.last ▸ hnext⟩
  · rcases hacks j a ha with ha | ⟨hsend, rfl⟩
    · -- an older ack: it says nothing of the new message
      obtain ⟨hmem, hcovered⟩ := h.acks j a ha
      have hle : a ≤ l.hosts.receiver.seqno := h.last ▸ le_getLastD h.chain hmem
      change _ ∈ {} :: (l.hosts.step _).receiver.sent.map Prod.fst ∧
        ∀ x ∈ (l.hosts.step _).receiver.sent, _
      rw [hsent, List.map_append, ← List.cons_append]
      refine ⟨List.mem_append_left _ hmem, fun x hx hxa => ?_⟩
      rcases List.mem_append.mp hx with hx | hx
      · exact l.delivered_step _ (hcovered x hx hxa)
      · rw [List.mem_singleton.mp hx] at hxa
        exact absurd (hxa.trans hle) (not_le.mpr hnext.lt)
    · exact ⟨hlast ▸ List.getLastD_mem_cons, fun x hx _ => hall hsend x hx⟩
  · change x ∈ (l.hosts.step _).receiver.sent.dropLast at hx
    rw [hsent, List.dropLast_concat] at hx
    exact l.delivered_step _ (hold x hx)

theorem Settled.deliver (h : l.Settled) (hs : l.hosts.Orderly) (env : PeerReceiver.Answers) :
    (l.step (.deliver env)).Settled := by
  cases hserving : l.hosts.serving with
  | none =>
    refine h.of_quiet ?_
    simp only [Hosts.step, hserving]
    exact .refl _
  | some k =>
    cases hlink : (l.hosts.links k).toReceiver with
    | nil =>
      refine h.of_quiet ?_
      simp only [Hosts.step, hserving, hlink]
      exact .refl _
    | cons d rest =>
      have hchain := (hs.served k hserving).chain
      rw [hlink, numbers_cons, List.isChain_cons_cons] at hchain
      exact h.read hserving hlink hchain.1 env

theorem Settled.step (h : l.Settled) (hs : l.hosts.Orderly) (e : HostEvent)
    (he : l.AfterSuccess e) : (l.step e).Settled := by
  cases e with
  | queue msg loaded => exact h.of_quiet { Hosts.Quiet.refl l.hosts with }
  | dial =>
    refine h.of_quiet ?_
    rw [Hosts.step]
    split
    · exact .refl _
    · exact { Hosts.Quiet.refl l.hosts with }
  | accept k helloOk => exact h.accept k helloOk he
  | hello => exact h.of_quiet (.hello _)
  | resend written => exact h.of_quiet (.resend _ written)
  | send written => exact h.of_quiet (.send _ written)
  | ack => exact h.of_quiet (.ack _)
  | senderLeaves => exact h.of_quiet { Hosts.Quiet.refl l.hosts with }
  | deliver env => exact h.deliver hs env
  | receiverLeaves => exact h.of_quiet { Hosts.Quiet.refl l.hosts with serving := absurd rfl }

/-! #### What the sender drops -/

theorem mem_of_ackRead? {s : Hosts} {e : HostEvent} {a : SequenceNumber}
    (h : ackRead? s e = some a) :
    ∃ k ph rest, s.conn = some (k, ph) ∧ (s.links k).toSender = a :: rest := by
  rw [ackRead?.eq_def] at h
  split at h
  · split at h
    · rename_i k hconn
      exact ⟨k, _, _, hconn, (List.head?_eq_some_iff.mp h).choose_spec⟩
    · cases h
  · split at h
    · rename_i k c hconn
      split_ifs at h
      exact ⟨k, _, _, hconn, (List.head?_eq_some_iff.mp h).choose_spec⟩
    · cases h
  · cases h

/-- What an ack drops was pending, and the ack does not come before it. -/
theorem mem_of_dropped {s : Hosts} {e : HostEvent} {d : Numbered} (h : d ∈ dropped s e) :
    ∃ a, ackRead? s e = some a ∧ d ∈ s.sender.pending ∧ ¬ 0 < d.seqno.cmp a := by
  rw [dropped] at h
  split at h
  · cases h
  rename_i a ha
  refine ⟨a, ha, ?_⟩
  split at h
  · cases h
  rename_i p hp
  rw [PeerSender.processAck] at hp
  split_ifs at hp
  obtain rfl := Option.some.inj hp
  dsimp only at h
  have hsplit := List.takeWhile_append_dropWhile
    (p := fun d : Numbered => decide (¬ 0 < d.seqno.cmp a)) (l := s.sender.pending)
  have hlen := congrArg List.length hsplit
  rw [List.length_append] at hlen
  rw [← hlen, Nat.add_sub_cancel] at h
  nth_rewrite 2 [← hsplit] at h
  rw [List.take_left] at h
  have hcmp := List.mem_takeWhile_imp h
  exact ⟨(List.takeWhile_prefix _).subset h, of_decide_eq_true hcmp⟩

/-- The sender drops no message that the enclave has not taken. -/
theorem Settled.dropped (h : l.Settled) (hs : l.hosts.Orderly) {remote : Bytes}
    {given : List Numbered} (hgiven : l.hosts.Given remote given) {e : HostEvent}
    (hfits : l.hosts.Fits e) {d : Numbered} (hd : d ∈ dropped l.hosts e) :
    handed remote d ∈ l.delivered := by
  obtain ⟨a, hread, hpending, hcmp⟩ := mem_of_dropped hd
  obtain ⟨k, ph, rest, hconn, hlink⟩ := mem_of_ackRead? hread
  obtain ⟨-, hge, hle, -⟩ := hs.takeAck hconn hlink
  obtain ⟨hmem, hcovered⟩ := h.acks k a (hlink ▸ List.mem_cons_self)
  have hnumber : d.seqno ∈ numbers l.hosts.sender.pending := List.mem_map_of_mem hpending
  have hepoch : d.seqno.epoch = a.epoch := by
    by_contra hne
    exact hcmp (cmp_pos_of_epoch_ne hne)
  have hda : d.seqno ≤ a := by
    have hlen : (numbers l.hosts.sender.pending).length < 2 ^ 63 := by
      rw [numbers, List.length_map]
      exact hfits.1
    rw [cmp_pos_iff hs.sender.chain hs.sender.epoch hlen hge (hle.trans hs.le_last) hnumber] at hcmp
    exact not_lt.mp hcmp
  have hpos : ({} : SequenceNumber) < d.seqno := by
    have hlast := (List.pairwise_cons.mp (pairwise_of_next hs.sender.chain)).1 _ hnumber
    refine lt_of_le_of_lt ?_ hlast
    rw [le_iff]
    change 0 < _ ∨ 0 = _ ∧ 0 ≤ _
    omega
  -- the number is among those that the enclave was given, and it is that of this message
  obtain ⟨x, hx, hxd⟩ := List.mem_map.mp (mem_of_le h.chain hmem hpos hda hepoch)
  obtain ⟨d', hd', rfl⟩ := hgiven.sent x hx
  obtain rfl := hgiven.eq_of_seqno hs.sender hd' (hgiven.pending d hpending) hxd
  exact hcovered _ hx hda

/-- What holds of every run: the hosts are in order, all messages anywhere were numbered by the
    sender, and what was acknowledged was taken. -/
def Sound (remote : Bytes) (l : Ledger) : Prop :=
  l.hosts.Orderly ∧ (∃ given, l.hosts.Given remote given) ∧ l.Settled

theorem Sound.start (bufferSize : Nat) (remote : Bytes) : (start bufferSize remote).Sound remote :=
  ⟨.start bufferSize remote, ⟨[], .start bufferSize remote⟩, .start bufferSize remote⟩

/-- No number runs out, messages are sent again only in their epoch, and no connection is taken up
    right after the enclave has failed. -/
def Allowed (l : Ledger) (e : HostEvent) : Prop :=
  l.hosts.Fits e ∧ l.hosts.ResendsOneEpoch e ∧ l.AfterSuccess e

instance (l : Ledger) (e : HostEvent) : Decidable (l.Allowed e) :=
  inferInstanceAs (Decidable (_ ∧ _ ∧ _))

theorem Sound.step {remote : Bytes} (h : l.Sound remote) (e : HostEvent) (he : l.Allowed e) :
    (l.step e).Sound remote := by
  obtain ⟨hs, ⟨given, hgiven⟩, hsettled⟩ := h
  obtain ⟨hfits, hepoch, hsuccess⟩ := he
  exact ⟨hs.step e hfits hepoch, hgiven.step hs e, hsettled.step hs e hsuccess⟩

end Ledger

/-- As long as no connection is taken up with a hello ack right after the enclave has failed to take
    a message: whenever the receiver acknowledges a number, with an ack or with the hello ack of a
    later connection, the enclave has taken every message that the receiver has accepted up to then;
    and, where moreover no number runs out and messages are sent again only in the epoch of the last
    ack, every message that an ack makes the sender drop has been taken by the enclave. -/
theorem acknowledged_delivered (remote : Bytes) (bufferSize : Nat) (rs : List ReceiveEvent)
    (r : ReceiveEvent) (es : List HostEvent) (e : HostEvent) :
    (Along Receipts.step Receipts.AfterSuccess (.start remote) (rs ++ [r]) →
      ∀ n, Receipts.acknowledged? (rs.foldl Receipts.step (.start remote)).loop r = some n →
        ((rs ++ [r]).foldl Receipts.step (.start remote)).AllDelivered) ∧
    (Along Ledger.step Ledger.Allowed (.start bufferSize remote) (es ++ [e]) →
      ∀ d ∈ Ledger.dropped (es.foldl Ledger.step (.start bufferSize remote)).hosts e,
        handed remote d ∈ (es.foldl Ledger.step (.start bufferSize remote)).delivered) := by
  refine ⟨fun hrs n hn => ?_, fun hes d hd => ?_⟩
  · obtain ⟨hrs, hr, -⟩ := Along.append_iff.mp hrs
    have hclean : Receipts.Clean _ := hrs.invariant (fun _ e h he => h.step e he)
      (Receipts.Clean.start remote)
    rw [List.foldl_concat]
    exact hclean.acknowledged hr hn
  · obtain ⟨hes, he, -⟩ := Along.append_iff.mp hes
    obtain ⟨hs, ⟨given, hgiven⟩, hsettled⟩ : Ledger.Sound remote _ :=
      hes.invariant (fun _ e h he => h.step e he) (Ledger.Sound.start bufferSize remote)
    exact hsettled.dropped hs hgiven he.1 hd

/-- A handshake message on a connection, and how the enclave answers. -/
def sampleReceive (sendOk : Bool) : List ReceiveEvent :=
  [.connect true,
   .message (.data { msg := some ⟨[], .syn []⟩, seqno := some ⟨1, 0⟩ }) { sendOk := sendOk }]

theorem acknowledged_delivered_sample :
    (Receipts.acknowledged? ((sampleReceive true).foldl Receipts.step (.start [])).loop
        (.connect true) = some ⟨1, 0⟩ ∧
      ((sampleReceive true ++ [ReceiveEvent.connect true]).foldl Receipts.step
        (.start [])).AllDelivered) ∧
    Ledger.dropped (Hosts.sampleRun.foldl Ledger.step (.start 4 [])).hosts .ack =
        [{ msg := ⟨[], .data [1]⟩, seqno := ⟨1, 1⟩ }] ∧
      ∀ d ∈ Ledger.dropped (Hosts.sampleRun.foldl Ledger.step (.start 4 [])).hosts .ack,
        handed [] d ∈ (Hosts.sampleRun.foldl Ledger.step (.start 4 [])).delivered :=
  have h := acknowledged_delivered [] 4 (sampleReceive true) (.connect true) Hosts.sampleRun .ack
  ⟨⟨by decide +kernel, h.1 (by decide +kernel) ⟨1, 0⟩ (by decide +kernel)⟩, by decide +kernel,
    h.2 (by decide +kernel)⟩

def failedSend : List HostEvent :=
  [.queue ⟨[], .syn []⟩ false, .dial, .accept 0 true, .hello, .send true,
   .deliver { sendOk := false }, .senderLeaves, .dial, .accept 1 true]

/-- The hello ack of the next connection acknowledges a message that the enclave has not taken, and
    the sender drops it. -/
theorem acknowledged_undelivered :
    (Receipts.acknowledged? ((sampleReceive false).foldl Receipts.step (.start [])).loop
        (.connect true) = some ⟨1, 0⟩ ∧
      ((sampleReceive false ++ [ReceiveEvent.connect true]).foldl Receipts.step (.start [])).taken =
        [(⟨1, 0⟩, false)]) ∧
    Ledger.dropped (failedSend.foldl Ledger.step (.start 4 [])).hosts .hello =
        [{ msg := ⟨[], .syn []⟩, seqno := ⟨1, 0⟩ }] ∧
      ((failedSend ++ [HostEvent.hello]).foldl Ledger.step (.start 4 [])).delivered = [] ∧
      ((failedSend ++ [HostEvent.hello]).foldl Ledger.step (.start 4 [])).hosts.sender.pending =
        [] := by
  decide +kernel

end SVR2.Host
