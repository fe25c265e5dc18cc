import SVR2.Host.Numbering

/-!
# Messages and acks under way

Where the messages come from that are anywhere between two hosts, and which events write acks.  The
sender has numbered every message, so a number tells it; only a connection that is taken up and a
message that the enclave has taken are acknowledged.
-/

namespace SVR2.Host

open Lib SequenceNumber

/-- What the enclave is given of a message. -/
def handed (remote : Bytes) (d : Numbered) : SequenceNumber × PeerMessage :=
  (d.seqno, { peerId := remote, inner := d.msg.inner })

/-- What a turn with the next number does: the enclave is given the message, and only if it takes
    it the turn may end with an ack. -/
theorem PeerReceiver.sent_of_next {p : PeerReceiver} {d : Numbered} (h : Next p.seqno d.seqno)
    (env : PeerReceiver.Answers) :
    (p.handleMessage (.data d.toData) env).1.sent = p.sent ++ [handed p.remote d] ∧
      (p.handleMessage (.data d.toData) env).1.remote = p.remote ∧
      ∀ ack, (p.handleMessage (.data d.toData) env).2 = .goOn ack → env.sendOk = true := by
  simp only [handleMessage, makeSeqno, Numbered.toData]
  rw [updateSeqno, if_neg (not_le.mpr h.cmp_pos), if_neg (by rw [h.follows]; decide)]
  dsimp only
  split_ifs with hsend
  · exact ⟨rfl, rfl, fun _ _ => hsend⟩
  · exact ⟨rfl, rfl, by rintro _ ⟨⟩⟩

namespace Hosts

/-! ### Where the messages come from -/

variable {s : Hosts} {remote : Bytes} {given : List Numbered}

/-- All messages anywhere are among those that the sender has numbered. -/
structure Given (remote : Bytes) (s : Hosts) (given : List Numbered) : Prop where
  receiver : s.receiver.remote = remote
  assigned : numbers given = s.sender.assigned
  pending : ∀ d ∈ s.sender.pending, d ∈ given
  resend : ∀ k c, s.conn = some (k, .running c) → ∀ d ∈ c.resend, d ∈ given
  inflight : ∀ k, ∀ d ∈ (s.links k).toReceiver, d ∈ given
  sent : ∀ x ∈ s.receiver.sent, ∃ d ∈ given, x = handed remote d

theorem Given.start (bufferSize : Nat) (remote : Bytes) :
    (Hosts.start bufferSize remote).Given remote [] where
  receiver := rfl
  assigned := rfl
  pending := nofun
  resend := nofun
  inflight := nofun
  sent := nofun

theorem Given.withConn (h : s.Given remote given) (conn : Option (Nat × Phase))
    (hconn : ∀ k c, conn = some (k, .running c) → ∀ d ∈ c.resend, d ∈ given) :
    Given remote { s with conn := conn } given :=
  { h with resend := hconn }

/-- Another connection in the place of one, with nothing under way that was not there. -/
theorem Given.setLink (h : s.Given remote given) (k : Nat) (link : Link)
    (hlink : ∀ d ∈ link.toReceiver, d ∈ given) : (s.setLink k link).Given remote given :=
  { h with
    inflight := forall_setLink (P := fun _ l => ∀ d ∈ l.toReceiver, d ∈ given) h.inflight hlink }

theorem Given.queue (h : s.Given remote given) (msg : PeerMessage) (loaded : Bool) :
    (s.step (.queue msg loaded)).Given remote given := by
  obtain ⟨tx, htx⟩ := queueMessage_eq s.sender msg
  rw [Hosts.step, htx]
  refine { h with resend := fun k c hc => ?_ }
  split at hc
  · rename_i j c' hconn
    split_ifs at hc
    · cases hc
      exact h.resend k c' hconn
    · exact h.resend k c hc
  · exact h.resend k c hc

theorem Given.dial (h : s.Given remote given) : (s.step .dial).Given remote given := by
  rw [Hosts.step]
  split
  · exact h
  · exact { h with resend := by rintro _ _ ⟨⟩ }

theorem Given.accept (h : s.Given remote given) (k : Nat) (helloOk : Bool) :
    (s.step (.accept k helloOk)).Given remote given := by
  rw [Hosts.step]
  split_ifs
  · exact { h.setLink k { s.links k with accepted := true, toSender := [s.receiver.seqno] }
      (h.inflight k) with }
  · exact { h.setLink k { s.links k with accepted := true } (h.inflight k) with }
  · exact h

theorem mem_of_processAck {p p' : PeerSender} {a : SequenceNumber} (h : p.processAck a = some p')
    {d : Numbered} (hd : d ∈ p'.pending) : d ∈ p.pending := by
  rw [PeerSender.processAck] at h
  split_ifs at h
  cases h
  exact (List.dropWhile_sublist _).subset hd

theorem Given.takeAck (h : s.Given remote given) (k : Nat) (rest : List SequenceNumber)
    {a : SequenceNumber} {p : PeerSender} (hp : s.sender.processAck a = some p) :
    Given remote { s.setLink k { s.links k with toSender := rest } with sender := p } given := by
  have hassigned : p.assigned = s.sender.assigned := by
    rw [PeerSender.processAck] at hp
    split_ifs at hp
    cases hp
    rfl
  exact { h.setLink k { s.links k with toSender := rest } (h.inflight k) with
    assigned := h.assigned.trans hassigned.symm
    pending := fun d hd => h.pending d (mem_of_processAck hp hd) }

theorem Given.hello (h : s.Given remote given) : (s.step .hello).Given remote given := by
  rw [Hosts.step]
  split
  · rename_i k hconn
    split
    · exact h
    · rename_i a rest hlink
      dsimp only
      split
      · exact (h.setLink k { s.links k with toSender := rest } (h.inflight k)).withConn none (by rintro _ _ ⟨⟩)
      · rename_i p hp
        refine (h.takeAck k rest hp).withConn _ ?_
        intro j c hc d hd
        cases hc
        exact (h.takeAck k rest hp).pending d hd
  · exact h

theorem Given.ack (h : s.Given remote given) : (s.step .ack).Given remote given := by
  rw [Hosts.step]
  split
  · rename_i k c hconn
    split_ifs with hresend
    · exact h
    · split
      · exact h
      · rename_i a rest hlink
        dsimp only
        split
        · exact (h.setLink k { s.links k with toSender := rest } (h.inflight k)).withConn none (by rintro _ _ ⟨⟩)
        · rename_i p hp
          refine (h.takeAck k rest hp).withConn _ ?_
          intro j c' hc d hd
          cases hc
          exact h.resend k c hconn d hd
  · exact h

theorem Given.resends (h : s.Given remote given) (written : Bool) :
    (s.step (.resend written)).Given remote given := by
  rw [Hosts.step]
  split
  · rename_i k c hconn
    split
    · exact h
    · rename_i d rest hresend
      have hc := h.resend k c hconn
      rw [hresend] at hc
      split_ifs
      · refine (h.setLink k _ fun d' hd' => ?_).withConn _ ?_
        · rcases List.mem_append.mp hd' with hd' | hd'
          · exact h.inflight k d' hd'
          · rw [List.mem_singleton.mp hd']
            exact hc d List.mem_cons_self
        · intro j c' hc' d' hd'
          cases hc'
          exact hc d' (List.mem_cons_of_mem _ hd')
      · exact h.withConn none (by rintro _ _ ⟨⟩)
  · exact h

theorem Given.keep (h : s.Given remote given) (d : Numbered) :
    Given remote { s with sender := s.sender.keep d, conn := none } (given ++ [d]) where
  receiver := h.receiver
  assigned := by
    rw [numbers_append, h.assigned]
    rfl
  pending d' hd' := by
    rcases List.mem_append.mp hd' with hd' | hd'
    · split_ifs at hd'
      · cases hd'
      · exact List.mem_append_left _ (h.pending d' hd')
    · exact List.mem_append_right _ hd'
  resend := nofun
  inflight k d' hd' := List.mem_append_left _ (h.inflight k d' hd')
  sent x hx :=
    have ⟨d', hd', heq⟩ := h.sent x hx
    ⟨d', List.mem_append_left _ hd', heq⟩

theorem Given.send (h : s.Given remote given) (written : Bool) :
    ∃ given', (s.step (.send written)).Given remote given' := by
  rw [Hosts.step]
  split
  · rename_i k c hconn
    split_ifs with hresend
    · exact ⟨given, h⟩
    · split
      · exact ⟨given, h⟩
      · rename_i msg tx htake
        have htx : Given remote { s with sender := { s.sender with tx := tx } } given := { h with }
        dsimp only
        split
        · refine ⟨given, htx.withConn _ fun j c' hc => ?_⟩
          cases hc
          exact h.resend k c hconn
        · rename_i msg
          have hkeep := htx.keep { msg := msg, seqno := nextNumber c msg }
          rw [Hosts.sendMessage]
          dsimp only
          split_ifs
          · refine ⟨_, (hkeep.setLink k _ fun d hd => ?_).withConn _ fun j c' hc => ?_⟩
            · rcases List.mem_append.mp hd with hd | hd
              · exact List.mem_append_left _ (h.inflight k d hd)
              · exact List.mem_append_right _ hd
            · cases hc
              rw [not_not.mp hresend]
              exact List.forall_mem_nil _
          · exact ⟨_, hkeep⟩
  · exact ⟨given, h⟩

theorem Given.answer (h : s.Given remote given) (k : Nat) (turn : PeerReceiver.Turn) :
    (s.answer k turn).Given remote given := by
  rw [Hosts.answer.eq_def]
  split
  · exact h.setLink k { s.links k with toSender := _ } (h.inflight k)
  · exact h
  · exact { h with }
  · exact { h with }

theorem Given.deliver (h : s.Given remote given) (hs : s.Orderly) (env : PeerReceiver.Answers) :
    (s.step (.deliver env)).Given remote given := by
  rw [Hosts.step]
  split
  · exact h
  rename_i k hserving
  split
  · exact h
  rename_i d rest hlink
  obtain ⟨-, hchain⟩ := hs.served k hserving
  rw [hlink, numbers_cons, List.isChain_cons_cons] at hchain
  obtain ⟨hsent, hremote, -⟩ := PeerReceiver.sent_of_next hchain.1 env
  have hinflight := h.inflight k
  rw [hlink] at hinflight
  have hread := h.setLink k { s.links k with toReceiver := rest }
    fun d' hd' => hinflight d' (List.mem_cons_of_mem _ hd')
  refine Given.answer ?_ k _
  refine { hread with receiver := hremote.trans h.receiver, sent := fun x hx => ?_ }
  change x ∈ (s.receiver.handleMessage (.data d.toData) env).1.sent at hx
  rw [hsent] at hx
  rcases List.mem_append.mp hx with hx | hx
  · exact h.sent x hx
  · rw [List.mem_singleton.mp hx, h.receiver]
    exact ⟨d, hinflight d List.mem_cons_self, rfl⟩

theorem Given.step (h : s.Given remote given) (hs : s.Orderly) (e : HostEvent) :
    ∃ given', (s.step e).Given remote given' := by
  cases e with
  | queue msg loaded => exact ⟨given, h.queue msg loaded⟩
  | dial => exact ⟨given, h.dial⟩
  | accept k helloOk => exact ⟨given, h.accept k helloOk⟩
  | hello => exact ⟨given, h.hello⟩
  | resend written => exact ⟨given, h.resends written⟩
  | send written => exact h.send written
  | ack => exact ⟨given, h.ack⟩
  | senderLeaves => exact ⟨given, h.withConn none nofun⟩
  | deliver env => exact ⟨given, h.deliver hs env⟩
  | receiverLeaves => exact ⟨given, { h with }⟩

theorem Given.eq_of_seqno (h : s.Given remote given) (hs : s.sender.Ordered) {d d' : Numbered}
    (hd : d ∈ given) (hd' : d' ∈ given) (heq : d.seqno = d'.seqno) : d = d' := by
  have hnodup : (numbers given).Nodup := by
    rw [h.assigned]
    exact (List.pairwise_cons.mp (pairwise_of_next hs.assigned)).2.imp ne_of_lt
  exact List.inj_on_of_nodup_map hnodup hd hd' heq

/-! ### What happens to the receiver and to the acks -/

/-- The receiver has done nothing, but perhaps left its connection; acks may have been read. -/
structure Quiet (s s' : Hosts) : Prop where
  receiver : s'.receiver = s.receiver
  serving : s'.serving ≠ none → s.serving ≠ none
  acks : ∀ k, ∀ a ∈ (s'.links k).toSender, a ∈ (s.links k).toSender

theorem Quiet.refl (s : Hosts) : s.Quiet s := ⟨rfl, id, fun _ _ => id⟩

theorem Quiet.setLink (s : Hosts) (k : Nat) (link : Link)
    (hlink : ∀ a ∈ link.toSender, a ∈ (s.links k).toSender) : s.Quiet (s.setLink k link) where
  receiver := rfl
  serving := id
  acks := forall_setLink (P := fun j l => ∀ a ∈ l.toSender, a ∈ (s.links j).toSender)
    (fun _ _ => id) hlink

theorem Quiet.readAck {k : Nat} {a : SequenceNumber} {rest : List SequenceNumber}
    (hlink : (s.links k).toSender = a :: rest) :
    s.Quiet (s.setLink k { s.links k with toSender := rest }) :=
  .setLink s k { s.links k with toSender := rest } fun _ ha => hlink ▸ List.mem_cons_of_mem _ ha

theorem Quiet.write (s : Hosts) (k : Nat) (toReceiver : List Numbered) :
    s.Quiet (s.setLink k { s.links k with toReceiver := toReceiver }) :=
  .setLink s k { s.links k with toReceiver := toReceiver } fun _ => id

theorem Quiet.hello (s : Hosts) : s.Quiet (s.step .hello) := by
  rw [Hosts.step]
  split
  · split
    · exact .refl s
    · rename_i hlink
      dsimp only
      split
      · exact { Quiet.readAck hlink with }
      · exact { Quiet.readAck hlink with }
  · exact .refl s

theorem Quiet.ack (s : Hosts) : s.Quiet (s.step .ack) := by
  rw [Hosts.step]
  split
  · split_ifs
    · exact .refl s
    · split
      · exact .refl s
      · rename_i hlink
        dsimp only
        split
        · exact { Quiet.readAck hlink with }
        · exact { Quiet.readAck hlink with }
  · exact .refl s

theorem Quiet.resend (s : Hosts) (written : Bool) : s.Quiet (s.step (.resend written)) := by
  rw [Hosts.step]
  split
  · rename_i k c hconn
    split
    · exact .refl s
    · rename_i d rest hresend
      split_ifs
      · exact { Quiet.write s k ((s.links k).toReceiver ++ [d]) with }
      · exact { Quiet.refl s with }
  · exact .refl s

theorem Quiet.send (s : Hosts) (written : Bool) : s.Quiet (s.step (.send written)) := by
  rw [Hosts.step]
  split
  · rename_i k c hconn
    split_ifs
    · exact .refl s
    · split
      · exact .refl s
      · rename_i msg tx htake
        dsimp only
        split
        · exact { Quiet.refl s with }
        · rename_i msg
          have hwrite := Quiet.write s k
            ((s.links k).toReceiver ++ [{ msg := msg, seqno := nextNumber c msg }])
          rw [sendMessage]
          dsimp only
          split_ifs
          · exact { hwrite with }
          · exact { Quiet.refl s with }
  · exact .refl s

/-- A turn of the receiver on a message whose number comes next: the enclave is given the message,
    and only if it takes it there is an ack, or another turn. -/
theorem deliver_spec {k : Nat} (hserving : s.serving = some k) {d : Numbered} {rest : List Numbered}
    (hlink : (s.links k).toReceiver = d :: rest) (hnext : Next s.receiver.seqno d.seqno)
    (env : PeerReceiver.Answers) :
    (s.step (.deliver env)).receiver.sent = s.receiver.sent ++ [handed s.receiver.remote d] ∧
      (s.step (.deliver env)).receiver.seqno = d.seqno ∧
      (∀ j, ∀ a ∈ ((s.step (.deliver env)).links j).toSender,
        a ∈ (s.links j).toSender ∨ env.sendOk = true ∧ a = d.seqno) ∧
      ((s.step (.deliver env)).serving ≠ none → env.sendOk = true) := by
  obtain ⟨hseqno, -, hturn⟩ := handleMessage_of_next hnext env
  obtain ⟨hsent, -, hok⟩ := PeerReceiver.sent_of_next hnext env
  have hread := Quiet.write s k rest
  simp only [Hosts.step, hserving, hlink]
  rw [show (s.setLink k { s.links k with toReceiver := rest }).receiver = s.receiver from rfl]
  rcases hturn with hturn | ⟨err, hturn⟩
  · have hsend := hok _ hturn
    rw [hturn, answer]
    refine ⟨hsent, hseqno, ?_, fun _ => hsend⟩
    refine forall_setLink
      (P := fun j l => ∀ a ∈ l.toSender, a ∈ (s.links j).toSender ∨ env.sendOk = true ∧ a = d.seqno)
      (fun j a ha => .inl (hread.acks j a ha)) fun a ha => ?_
    rcases List.mem_append.mp ha with ha | ha
    · exact .inl (hread.acks k a ha)
    · exact .inr ⟨hsend, List.mem_singleton.mp ha⟩
  · rw [hturn, answer]
    exact ⟨hsent, hseqno, fun j a ha => .inl (hread.acks j a ha), fun h => absurd rfl h⟩

end Hosts

end SVR2.Host
