import SVR2.Host.PeerSender

/-!
# Numbers stay in order

A sender that has lost its connection works out the number of its next message from the last ack
and the number of pending messages.  That is right as long as they are of one epoch: then the
numbers that it gives follow each other, and the receiver never sees a gap.
-/

namespace SVR2.Host

open Lib

namespace SequenceNumber

variable {a ack n : SequenceNumber} {l : List SequenceNumber}

theorem pairwise_of_next (h : (a :: l).IsChain Next) : (a :: l).Pairwise (· < ·) :=
  List.isChain_iff_pairwise.mp (h.imp fun _ _ => Next.lt)

theorem head_le (h : (a :: l).IsChain Next) (hn : n ∈ a :: l) : a ≤ n := by
  rcases List.mem_cons.mp hn with rfl | hn
  · exact le_refl _
  · exact ((List.pairwise_cons.mp (pairwise_of_next h)).1 n hn).le

theorem le_getLastD (h : (a :: l).IsChain Next) (hn : n ∈ a :: l) : n ≤ l.getLastD a := by
  induction l generalizing a n with
  | nil => exact (List.mem_singleton.mp hn).le
  | cons b l ih =>
    rw [List.getLastD_cons]
    rw [List.isChain_cons_cons] at h
    rcases List.mem_cons.mp hn with rfl | hn
    · exact h.1.lt.le.trans (ih h.2 List.mem_cons_self)
    · exact ih h.2 hn

/-- A number of the epoch of an element of a chain, and not after it, is in the chain too. -/
theorem mem_of_le {b : SequenceNumber} (h : (b :: l).IsChain Next) (ha : a ∈ b :: l)
    (hb : b < n) (hn : n ≤ a) (hepoch : n.epoch = a.epoch) : n ∈ l := by
  induction l generalizing b with
  | nil =>
    rw [List.mem_singleton.mp ha] at hn
    exact absurd hb (not_lt.mpr hn)
  | cons c l ih =>
    rw [List.isChain_cons_cons] at h
    rcases List.mem_cons.mp ha with rfl | ha
    · exact absurd hb (not_lt.mpr hn)
    have hca := head_le h.2 ha
    rcases lt_trichotomy n c with hlt | rfl | hgt
    · -- what lies before the next element is of an older epoch
      have hnext := next_iff.mp h.1
      rw [lt_iff] at hb hlt
      rw [le_iff, ← hepoch] at hca
      omega
    · exact List.mem_cons_self
    · exact List.mem_cons_of_mem _ (ih h.2 ha hgt)

/-- Within an epoch, a chain counts its elements. -/
theorem seq_getLastD (h : (a :: l).IsChain Next) (hepoch : ∀ n ∈ l, n.epoch = a.epoch) :
    (l.getLastD a).seq.toNat = a.seq.toNat + l.length := by
  induction l generalizing a with
  | nil => rfl
  | cons b l ih =>
    rw [List.isChain_cons_cons] at h
    have hb := hepoch b List.mem_cons_self
    have hnext := next_iff.mp h.1
    rw [List.getLastD_cons, ih h.2 fun n hn => (hepoch n (List.mem_cons_of_mem _ hn)).trans hb.symm,
      List.length_cons]
    rw [hb] at hnext
    omega

theorem next_seq_add (a : SequenceNumber) (n : Nat) :
    a.next.seq + .ofNat n = a.seq + .ofNat (n + 1) := by
  rw [← UInt64.toNat_inj, next, UInt64.toNat_add, UInt64.toNat_add, UInt64.toNat_add,
    UInt64.toNat_one, UInt64.toNat_ofNat', UInt64.toNat_ofNat']
  omega

/-- The successor of an ack and the number of pending messages give the next number. -/
theorem seq_add_length {n : Nat} {t : SequenceNumber} (h : t.seq.toNat = a.seq.toNat + n) :
    a.next.seq + .ofNat n = t.seq + 1 := by
  rw [next_seq_add, ← UInt64.toNat_inj, UInt64.toNat_add, UInt64.toNat_add, UInt64.toNat_ofNat',
    UInt64.toNat_one]
  omega

/-- An ack between the last one and the last number given is not far from any pending number. -/
theorem near_of_mem {e : UInt32} (h : (a :: l).IsChain Next) (hepoch : ∀ n ∈ l, n.epoch = e)
    (ha : a ≤ ack) (hlast : ack ≤ l.getLastD a) (hn : n ∈ l) (hack : ack.epoch = e) :
    n.seq.toNat ≤ ack.seq.toNat + l.length ∧ ack.seq.toNat < n.seq.toNat + l.length := by
  obtain _ | ⟨f, l⟩ := l
  · cases hn
  rw [List.isChain_cons_cons] at h
  rw [List.getLastD_cons] at hlast
  have hf := hepoch f List.mem_cons_self
  have hcount := seq_getLastD h.2 fun n hn => (hepoch n (List.mem_cons_of_mem _ hn)).trans hf.symm
  have hle := le_iff.mp (le_getLastD h.2 hn)
  have hge := head_le h.2 hn
  have hlastEpoch : (l.getLastD f).epoch = e := hepoch _ List.getLastD_mem_cons
  have hnEpoch := hepoch n hn
  rw [le_iff] at ha hlast hge
  rw [hlastEpoch, hnEpoch] at hle
  rw [hlastEpoch, hack] at hlast
  rw [hf, hnEpoch] at hge
  rw [hack] at ha
  have hfirst := next_iff.mp h.1
  rw [hf] at hfirst
  rw [List.length_cons]
  omega

/-- Between the last ack and the last number given, `cmp` tells what an ack covers. -/
theorem cmp_pos_iff (h : (a :: l).IsChain Next)
    (hepoch : ∀ n ∈ l, n.epoch = (l.getLastD a).epoch) (hlen : l.length < 2 ^ 63)
    (ha : a ≤ ack) (hlast : ack ≤ l.getLastD a) (hn : n ∈ l) : 0 < n.cmp ack ↔ ack < n := by
  have hnEpoch := hepoch n hn
  by_cases heq : n.epoch = ack.epoch
  · have hnear := near_of_mem h hepoch ha hlast hn (heq.symm.trans hnEpoch)
    rw [cmp_of_epoch_eq heq (by omega), lt_iff, heq]
    omega
  · refine iff_of_true (cmp_pos_of_epoch_ne heq) (lt_iff.mpr (.inl ?_))
    rw [le_iff, ← hnEpoch] at hlast
    have hne : n.epoch.toNat ≠ ack.epoch.toNat := fun h => heq (UInt32.toNat_inj.mp h)
    omega

end SequenceNumber

open SequenceNumber

section DropWhile

variable {a ack : SequenceNumber} {l : List Numbered} {p : Numbered → Bool}

/-- What an ack leaves pending follows it. -/
theorem isChain_dropWhile (hp : ∀ d ∈ l, p d = true ↔ d.seqno ≤ ack)
    (h : (a :: numbers l).IsChain Next) (ha : a ≤ ack) :
    (ack :: numbers (l.dropWhile p)).IsChain Next := by
  induction l generalizing a with
  | nil => exact List.isChain_singleton _
  | cons d l ih =>
    rw [numbers_cons, List.isChain_cons_cons] at h
    have hd := hp d List.mem_cons_self
    rw [List.dropWhile_cons]
    split_ifs with hpd
    · exact ih (fun d hd => hp d (List.mem_cons_of_mem _ hd)) h.2 (hd.mp hpd)
    · exact List.isChain_cons_cons.mpr
        ⟨h.1.of_between ha (not_le.mp fun hle => hpd (hd.mpr hle)), h.2⟩

/-- An ack does not change which number was given last. -/
theorem getLastD_dropWhile (hp : ∀ d ∈ l, p d = true ↔ d.seqno ≤ ack) (ha : a ≤ ack)
    (hlast : ack ≤ (numbers l).getLastD a) :
    (numbers (l.dropWhile p)).getLastD ack = (numbers l).getLastD a := by
  induction l generalizing a with
  | nil => exact le_antisymm hlast ha
  | cons d l ih =>
    rw [numbers_cons, List.getLastD_cons] at hlast ⊢
    rw [List.dropWhile_cons]
    split_ifs with hpd
    · exact ih (fun d hd => hp d (List.mem_cons_of_mem _ hd)) ((hp d List.mem_cons_self).mp hpd) hlast
    · rw [numbers_cons, List.getLastD_cons]

end DropWhile

/-- The number that was given last: that of the last pending message, or the last ack. -/
def PeerSender.last (p : PeerSender) : SequenceNumber := (numbers p.pending).getLastD p.lastAck

/-- The pending messages follow the last ack, one by one, in the epoch of the last of them. -/
structure PeerSender.Ordered (p : PeerSender) : Prop where
  chain : (p.lastAck :: numbers p.pending).IsChain Next
  epoch : ∀ n ∈ numbers p.pending, n.epoch = p.last.epoch
  assigned : ({} :: p.assigned).IsChain Next
  last_assigned : p.assigned.getLastD {} = p.last

/-- An ack between the last one and the last number keeps the order, and the last number. -/
theorem PeerSender.Ordered.processAck {p p' : PeerSender} (h : p.Ordered) {ack : SequenceNumber}
    (hlen : p.pending.length < 2 ^ 63) (hge : p.lastAck ≤ ack) (hle : ack ≤ p.last)
    (hp : p.processAck ack = some p') : p'.Ordered ∧ p'.last = p.last ∧ p'.lastAck = ack := by
  rw [PeerSender.processAck] at hp
  split_ifs at hp
  obtain rfl := Option.some.inj hp
  have hdrop : ∀ d ∈ p.pending, decide (¬ 0 < d.seqno.cmp ack) = true ↔ d.seqno ≤ ack := by
    intro d hd
    rw [decide_eq_true_iff, ← not_lt, not_iff_not]
    exact cmp_pos_iff h.chain h.epoch (by rwa [numbers, List.length_map]) hge hle
      (List.mem_map_of_mem hd)
  have hlast := getLastD_dropWhile hdrop hge hle
  refine ⟨⟨isChain_dropWhile hdrop h.chain hge, fun n hn => ?_, h.assigned, ?_⟩, hlast, rfl⟩
  · obtain ⟨d, hd, rfl⟩ := List.mem_map.mp hn
    rw [PeerSender.last, hlast]
    exact h.epoch _ (List.mem_map_of_mem ((List.dropWhile_sublist _).subset hd))
  · exact h.last_assigned.trans hlast.symm

theorem PeerSender.Ordered.keep {p : PeerSender} (h : p.Ordered) {d : Numbered}
    (hd : if isEstablishing d.msg then p.last.epoch < d.seqno.epoch ∧ d.seqno.seq = 0
      else d.seqno.epoch = p.last.epoch ∧ d.seqno.seq.toNat = p.last.seq.toNat + 1) :
    (p.keep d).Ordered ∧ (p.keep d).last = d.seqno ∧ Next p.last d.seqno := by
  have hlast : (p.keep d).last = d.seqno := by
    rw [PeerSender.last, PeerSender.keep, numbers_append, getLastD_append]
    rfl
  have hnext : Next p.last d.seqno := by
    split_ifs at hd
    · exact .inl hd
    · exact .inr hd
  refine ⟨⟨?_, fun n hn => ?_, ?_, ?_⟩, hlast, hnext⟩
  · rw [PeerSender.keep, numbers_append]
    split_ifs at hd ⊢
    · have hack := le_iff.mp (le_getLastD h.chain List.mem_cons_self)
      refine List.isChain_pair.mpr (.inl ⟨?_, hd.2⟩)
      have hlt := UInt32.lt_iff_toNat_lt.mp hd.1
      have hle : p.lastAck.epoch.toNat ≤ p.last.epoch.toNat := by
        rw [PeerSender.last]
        omega
      exact UInt32.lt_iff_toNat_lt.mpr (lt_of_le_of_lt hle hlt)
    · exact isChain_cons_snoc.mpr ⟨h.chain, hnext⟩
  · rw [hlast]
    rw [PeerSender.keep, numbers_append, List.mem_append] at hn
    rcases hn with hn | hn
    · split_ifs at hd hn
      · cases hn
      · exact (h.epoch n hn).trans hd.1.symm
    · rw [List.mem_singleton.mp hn]
  · exact isChain_cons_snoc.mpr ⟨h.assigned, h.last_assigned ▸ hnext⟩
  · rw [hlast, PeerSender.keep, getLastD_append]
    rfl

/-! ### What sender, receiver and connections know of each other -/

/-- Nothing is under way that was not numbered, and nothing at all before the connection has been
    taken up. -/
structure Link.Ok (last : SequenceNumber) (l : Link) : Prop where
  inflight : ∀ n ∈ numbers l.toReceiver, n ≤ last
  fresh : l.accepted = false → l.toReceiver = [] ∧ l.toSender = []

/-- The receiver reads this connection: what comes follows what it has. -/
structure Link.Served (seqno : SequenceNumber) (l : Link) : Prop where
  accepted : l.accepted = true
  chain : (seqno :: numbers l.toReceiver).IsChain Next

/-- The acks on the sender's connection lie between what it knows and what the receiver has. -/
structure Link.Acks (lastAck seqno : SequenceNumber) (l : Link) : Prop where
  sorted : (lastAck :: l.toSender).Pairwise (· ≤ ·)
  le : ∀ a ∈ l.toSender, a ≤ seqno

/-- What holds in either phase of the sender's handler: a running one knows the number that comes
    after the last one, and what it has written and will write again takes the receiver there. -/
def InPhase (last seqno : SequenceNumber) (l : Link) (served : Prop) : Phase → Prop
  | .hello => l.toReceiver = [] ∧ (served → l.toSender = [seqno])
  | .running c =>
    l.accepted = true ∧ c.currentSeqno.epoch = last.epoch ∧
      c.currentSeqno.seq + .ofNat c.resend.length = last.seq + 1 ∧
      (∀ n ∈ numbers c.resend, n ≤ last) ∧
      (served → (seqno :: (numbers l.toReceiver ++ numbers c.resend)).IsChain Next ∧
        (numbers l.toReceiver ++ numbers c.resend).getLastD seqno = last)

theorem InPhase.not_served {last seqno : SequenceNumber} {l : Link} {served served' : Prop}
    {ph : Phase} (h : InPhase last seqno l served ph) (hnot : ¬ served') (seqno' : SequenceNumber) :
    InPhase last seqno' l served' ph := by
  cases ph with
  | hello => exact ⟨h.1, fun hserved => absurd hserved hnot⟩
  | running c => exact ⟨h.1, h.2.1, h.2.2.1, h.2.2.2.1, fun hserved => absurd hserved hnot⟩

namespace Hosts

structure Orderly (s : Hosts) : Prop where
  sender : s.sender.Ordered
  ack_le : s.sender.lastAck ≤ s.receiver.seqno
  le_last : s.receiver.seqno ≤ s.sender.last
  links : ∀ k, (s.links k).Ok s.sender.last
  undialed : ∀ k, s.dialed ≤ k → (s.links k).accepted = false
  served : ∀ k, s.serving = some k → (s.links k).Served s.receiver.seqno
  connected : ∀ k ph, s.conn = some (k, ph) →
    k < s.dialed ∧ (s.links k).Acks s.sender.lastAck s.receiver.seqno ∧
      InPhase s.sender.last s.receiver.seqno (s.links k) (s.serving = some k) ph
  refused : s.receiver.refused = []

/-- The numbers stay within their types: no epoch and no counter runs out when a message is
    numbered, and there are fewer pending messages than a slice can hold. -/
def Fits (s : Hosts) (e : HostEvent) : Prop :=
  s.sender.pending.length < 2 ^ 63 ∧
    match e, s.conn with
    | .send _, some (_, .running c) =>
      match s.takeMessage c with
      | some (some msg, _) =>
        if isEstablishing msg then c.currentSeqno.epoch + 1 ≠ 0 else c.currentSeqno.seq ≠ 0
      | _ => True
    | _, _ => True

/-- When the sender has read a hello ack, the messages that it still has to send again are of the
    epoch of that ack. -/
def ResendsOneEpoch (s : Hosts) (e : HostEvent) : Prop :=
  match e, s.conn with
  | .hello, some (k, .hello) =>
    ∀ h ∈ (s.links k).toSender.head?, ∀ p ∈ s.sender.processAck h,
      ∀ d ∈ p.pending, d.seqno.epoch = h.epoch
  | _, _ => True

instance (s : Hosts) (e : HostEvent) : Decidable (s.Fits e) := by
  unfold Fits
  split
  · split <;> infer_instance
  · infer_instance

instance (s : Hosts) (e : HostEvent) : Decidable (s.ResendsOneEpoch e) := by
  unfold ResendsOneEpoch
  split <;> infer_instance

/-- A sender and a receiver that have not talked to each other yet. -/
def start (bufferSize : Nat) (remote : Bytes) : Hosts :=
  { sender := { bufferSize := bufferSize }, receiver := { remote := remote } }

variable {s : Hosts}

theorem Orderly.start (bufferSize : Nat) (remote : Bytes) : (start bufferSize remote).Orderly where
  sender := ⟨List.isChain_singleton _, nofun, List.isChain_singleton _, rfl⟩
  ack_le := le_refl _
  le_last := le_refl _
  links _ := ⟨nofun, fun _ => ⟨rfl, rfl⟩⟩
  undialed _ _ := rfl
  served := nofun
  connected := nofun
  refused := rfl

/-! ### One step -/

theorem Orderly.withTx (h : s.Orderly) (tx : List PeerMessage) :
    Orderly { s with sender := { s.sender with tx := tx } } :=
  { h with sender := { h.sender with } }

theorem Orderly.withoutConn (h : s.Orderly) : Orderly { s with conn := none } :=
  { h with connected := nofun }

theorem Orderly.withoutServing (h : s.Orderly) : Orderly { s with serving := none } :=
  { h with
    served := nofun
    connected := fun k ph hph =>
      have ⟨hdialed, hacks, hphase⟩ := h.connected k ph hph
      ⟨hdialed, hacks, hphase.not_served nofun _⟩ }

/-- What holds of every connection still does when one is replaced by another of which it holds. -/
theorem forall_setLink {P : Nat → Link → Prop} {k : Nat} {l : Link} (h : ∀ j, P j (s.links j))
    (hl : P k l) (j : Nat) : P j ((s.setLink k l).links j) := by
  rcases eq_or_ne j k with rfl | hne
  · rw [setLink_links_self]
    exact hl
  · rw [setLink_links_ne s hne]
    exact h j

theorem queueMessage_eq (p : PeerSender) (msg : PeerMessage) :
    ∃ tx, (p.queueMessage msg).1 = { p with tx := tx } := by
  rw [PeerSender.queueMessage]
  split_ifs <;> exact ⟨_, rfl⟩

theorem Orderly.queue (h : s.Orderly) (msg : PeerMessage) (loaded : Bool) :
    (s.step (.queue msg loaded)).Orderly := by
  obtain ⟨tx, htx⟩ := queueMessage_eq s.sender msg
  have hconnected := (h.withTx tx).connected
  rw [step, htx]
  refine { h.withTx tx with connected := fun k ph hph => ?_ }
  split at hph
  · rename_i j c hconn
    split_ifs at hph
    · cases hph
      exact hconnected k (.running c) hconn
    · exact hconnected k ph hph
  · exact hconnected k ph hph

theorem Orderly.dial (h : s.Orderly) : (s.step .dial).Orderly := by
  rw [step]
  split
  · exact h
  · have hnot := h.undialed s.dialed (le_refl _)
    obtain ⟨hempty, hquiet⟩ := (h.links s.dialed).fresh hnot
    refine { h with
      undialed := fun k hk => h.undialed k (Nat.le_of_succ_le hk)
      connected := fun k ph hph => ?_ }
    cases hph
    refine ⟨Nat.lt_succ_self _, ⟨?_, ?_⟩, hempty, fun hserving => ?_⟩
    · rw [hquiet]
      exact List.pairwise_singleton _ _
    · rw [hquiet]
      nofun
    · exact absurd ((h.served _ hserving).accepted.symm.trans hnot) nofun

/-- The receiver takes up a connection, on which nothing has happened yet. -/
theorem Orderly.accept (h : s.Orderly) (k : Nat) (helloOk : Bool) :
    (s.step (.accept k helloOk)).Orderly := by
  rw [step]
  by_cases hk : k < s.dialed ∧ (s.links k).accepted = false
  case neg => rwa [if_neg hk]
  rw [if_pos hk]
  obtain ⟨hdialed, hnot⟩ := hk
  obtain ⟨hempty, hquiet⟩ := (h.links k).fresh hnot
  have hlinks : ∀ toSender j, (((s.setLink k
      { s.links k with accepted := true, toSender := toSender }).links j).Ok s.sender.last) :=
    fun _ => forall_setLink (P := fun _ l => l.Ok s.sender.last) h.links
      ⟨(h.links k).inflight, nofun⟩
  have hundialed : ∀ toSender j, s.dialed ≤ j → ((s.setLink k
      { s.links k with accepted := true, toSender := toSender }).links j).accepted = false :=
    fun _ => forall_setLink (P := fun j l => s.dialed ≤ j → l.accepted = false) h.undialed
      fun hle => absurd hdialed (not_lt.mpr hle)
  -- the sender's handler, if it is on this connection, still waits for the hello ack
  have hhello : ∀ ph, s.conn = some (k, ph) → ph = .hello := by
    intro ph hph
    cases ph with
    | hello => rfl
    | running c => exact absurd ((h.connected k _ hph).2.2.1.symm.trans hnot) nofun
  split_ifs
  · refine { h with
      links := hlinks _, undialed := hundialed _
      served := fun j hj => ?_, connected := fun j ph hph => ?_ }
    · cases hj
      rw [setLink_links_self]
      exact ⟨rfl, by simp [hempty]⟩
    · obtain ⟨hj, hacks, hphase⟩ := h.connected j ph hph
      refine ⟨hj, ?_⟩
      rcases eq_or_ne j k with rfl | hne
      · obtain rfl := hhello ph hph
        rw [setLink_links_self]
        exact ⟨⟨List.pairwise_pair.mpr h.ack_le, fun a ha => (List.mem_singleton.mp ha).le⟩,
          hempty, fun _ => rfl⟩
      · rw [setLink_links_ne s hne]
        exact ⟨hacks, hphase.not_served (fun heq => hne (Option.some.inj heq).symm) _⟩
  · refine { h with
      links := hlinks _, undialed := hundialed _
      served := nofun, connected := fun j ph hph => ?_ }
    obtain ⟨hj, hacks, hphase⟩ := h.connected j ph hph
    refine ⟨hj, ?_⟩
    rcases eq_or_ne j k with rfl | hne
    · obtain rfl := hhello ph hph
      rw [setLink_links_self]
      exact ⟨⟨hacks.sorted, hacks.le⟩, hempty, nofun⟩
    · rw [setLink_links_ne s hne]
      exact ⟨hacks, hphase.not_served nofun _⟩

theorem Orderly.takeAck (h : s.Orderly) {k : Nat} {ph : Phase} (hconn : s.conn = some (k, ph))
    {a : SequenceNumber} {rest : List SequenceNumber} (hlink : (s.links k).toSender = a :: rest) :
    Orderly { s.setLink k { s.links k with toSender := rest } with conn := none } ∧
      s.sender.lastAck ≤ a ∧ a ≤ s.receiver.seqno ∧ (s.links k).accepted = true := by
  obtain ⟨hk, hacks, -⟩ := h.connected k ph hconn
  have haccepted : (s.links k).accepted = true := by
    by_contra hnot
    rw [Bool.not_eq_true] at hnot
    exact absurd (hlink.symm.trans ((h.links k).fresh hnot).2) nofun
  refine ⟨{ h with links := ?_, undialed := ?_, served := ?_, connected := nofun }, ?_, ?_,
    haccepted⟩
  · exact forall_setLink (P := fun _ l => l.Ok s.sender.last) h.links
      ⟨(h.links k).inflight, fun hnot => absurd (haccepted.symm.trans hnot) nofun⟩
  · exact forall_setLink (P := fun j l => s.dialed ≤ j → l.accepted = false) h.undialed
      (h.undialed k)
  · exact forall_setLink (P := fun j l => s.serving = some j → l.Served s.receiver.seqno) h.served
      fun hk => { h.served k hk with }
  · exact (List.pairwise_cons.mp hacks.sorted).1 a (hlink ▸ List.mem_cons_self)
  · exact hacks.le a (hlink ▸ List.mem_cons_self)

theorem Orderly.acked (h : s.Orderly) {k : Nat} {ph : Phase} (hconn : s.conn = some (k, ph))
    {a : SequenceNumber} {rest : List SequenceNumber} (hlink : (s.links k).toSender = a :: rest)
    (hlen : s.sender.pending.length < 2 ^ 63) {p : PeerSender}
    (hp : s.sender.processAck a = some p) {ph' : Phase}
    (hphase : p.Ordered → p.last = s.sender.last → p.lastAck = a →
      InPhase p.last s.receiver.seqno { s.links k with toSender := rest } (s.serving = some k) ph') :
    Orderly { s.setLink k { s.links k with toSender := rest } with
      sender := p, conn := some (k, ph') } := by
  obtain ⟨hdropped, hge, hle, -⟩ := h.takeAck hconn hlink
  obtain ⟨hk, hacks, -⟩ := h.connected k ph hconn
  obtain ⟨hordered, hlast, hack⟩ := h.sender.processAck hlen hge (hle.trans h.le_last) hp
  refine { hdropped with
    sender := hordered, ack_le := hack ▸ hle, le_last := hlast ▸ h.le_last
    links := hlast ▸ hdropped.links, connected := fun j ph'' heq => ?_ }
  cases heq
  have hsorted := hacks.sorted
  have hacks_le := hacks.le
  rw [hlink] at hsorted hacks_le
  dsimp only
  rw [setLink_links_self]
  refine ⟨hk, ⟨?_, fun a' ha' => hacks_le a' (List.mem_cons_of_mem _ ha')⟩,
    hphase hordered hlast hack⟩
  rw [hack]
  exact (List.pairwise_cons.mp hsorted).2

theorem Orderly.hello (h : s.Orderly) (hfits : s.Fits .hello)
    (hepoch : s.ResendsOneEpoch .hello) : (s.step .hello).Orderly := by
  rw [step]
  split
  · rename_i k hconn
    split
    · exact h
    · rename_i a rest hlink
      dsimp only
      split
      · exact (h.takeAck hconn hlink).1
      · rename_i p hp
        refine h.acked hconn hlink hfits.1 hp fun hordered hlast hack => ?_
        obtain ⟨-, -, -, haccepted⟩ := h.takeAck hconn hlink
        obtain ⟨-, -, hempty, hserved⟩ := h.connected k _ hconn
        simp only [ResendsOneEpoch, hconn] at hepoch
        have hone : ∀ n ∈ numbers p.pending, n.epoch = p.lastAck.epoch := by
          intro n hn
          obtain ⟨d, hd, rfl⟩ := List.mem_map.mp hn
          rw [hack]
          exact hepoch a (by rw [hlink]; rfl) p hp d hd
        refine ⟨haccepted, ?_, ?_, fun n hn => ?_, fun hserving => ?_⟩
        · rcases List.mem_cons.mp (List.getLastD_mem_cons (a := p.lastAck) (l := numbers p.pending))
            with hmem | hmem
          · exact (congrArg epoch hmem).symm
          · exact (hone _ hmem).symm
        · have hcount := seq_getLastD hordered.chain hone
          rw [numbers, List.length_map] at hcount
          exact seq_add_length hcount
        · exact le_getLastD hordered.chain (List.mem_cons_of_mem _ hn)
        · have ha := hserved hserving
          rw [hlink] at ha
          obtain rfl := (List.cons.inj ha).1
          dsimp only
          rw [hempty, ← hack]
          exact ⟨hordered.chain, rfl⟩
  · exact h

theorem Orderly.ack (h : s.Orderly) (hfits : s.Fits .ack) : (s.step .ack).Orderly := by
  rw [step]
  split
  · rename_i k c hconn
    split_ifs with hresend
    · exact h
    · split
      · exact h
      · rename_i a rest hlink
        dsimp only
        split
        · exact (h.takeAck hconn hlink).1
        · rename_i p hp
          refine h.acked hconn hlink hfits.1 hp fun hordered hlast hack => ?_
          rw [hlast]
          exact (h.connected k _ hconn).2.2
  · exact h

theorem Orderly.resend (h : s.Orderly) (written : Bool) : (s.step (.resend written)).Orderly := by
  rw [step]
  split
  · rename_i k c hconn
    split
    · exact h
    · rename_i d rest hresend
      split_ifs
      · obtain ⟨hk, hacks, haccepted, hcur, hseq, hle, hserved⟩ := h.connected k _ hconn
        rw [hresend] at hseq hle hserved
        have hlink : Link.Ok s.sender.last
            { s.links k with toReceiver := (s.links k).toReceiver ++ [d] } := by
          refine ⟨fun n hn => ?_, fun hnot => absurd (haccepted.symm.trans hnot) nofun⟩
          rw [numbers_append, List.mem_append] at hn
          rcases hn with hn | hn
          · exact (h.links k).inflight n hn
          · exact hle n (List.mem_of_mem_head? (List.mem_singleton.mp hn ▸ rfl))
        have happend : numbers (s.links k).toReceiver ++ numbers (d :: rest) =
            numbers (s.links k).toReceiver ++ [d.seqno] ++ numbers rest := by simp
        refine { h with
          links := forall_setLink (P := fun _ l => l.Ok s.sender.last) h.links hlink
          undialed := forall_setLink (P := fun j l => s.dialed ≤ j → l.accepted = false) h.undialed
            (h.undialed k)
          served := forall_setLink (P := fun j l => s.serving = some j → l.Served s.receiver.seqno)
            h.served fun hk => ⟨haccepted, ?_⟩
          connected := fun j ph heq => ?_ }
        · rw [numbers_append, numbers_cons, numbers_nil]
          exact (isChain_cons_append.mp (happend ▸ (hserved hk).1)).1
        · cases heq
          dsimp only
          rw [setLink_links_self]
          refine ⟨hk, ⟨hacks.sorted, hacks.le⟩, haccepted, hcur, ?_,
            fun n hn => hle n (List.mem_cons_of_mem _ hn), fun hserving => ?_⟩
          · rw [next_seq_add]
            exact hseq
          · dsimp only
            rw [numbers_append, numbers_cons, numbers_nil, ← happend]
            exact hserved hserving
      · exact h.withoutConn
  · exact h

theorem next_nextNumber {last : SequenceNumber} {c : Running}
    (hcur : c.currentSeqno.epoch = last.epoch) (hseq : c.currentSeqno.seq = last.seq + 1)
    {msg : PeerMessage}
    (hfits : if isEstablishing msg then c.currentSeqno.epoch + 1 ≠ 0 else c.currentSeqno.seq ≠ 0) :
    if isEstablishing msg then
      last.epoch < (nextNumber c msg).epoch ∧ (nextNumber c msg).seq = 0
    else (nextNumber c msg).epoch = last.epoch ∧
      (nextNumber c msg).seq.toNat = last.seq.toNat + 1 := by
  rw [nextNumber]
  split_ifs at hfits ⊢
  · refine ⟨?_, rfl⟩
    have hne : (last.epoch + 1).toNat ≠ 0 := fun h => hfits (hcur ▸ UInt32.toNat_inj.mp h)
    have hlt := last.epoch.toNat_lt
    rw [nextEpoch, hcur, UInt32.lt_iff_toNat_lt]
    rw [UInt32.toNat_add, UInt32.toNat_one] at hne ⊢
    omega
  · refine ⟨hcur, ?_⟩
    have hne : (last.seq + 1).toNat ≠ 0 := fun h => hfits (hseq ▸ UInt64.toNat_inj.mp h)
    have hlt := last.seq.toNat_lt
    rw [hseq]
    rw [UInt64.toNat_add, UInt64.toNat_one] at hne ⊢
    omega

theorem Orderly.sendMessage (h : s.Orderly) {k : Nat} {c : Running}
    (hconn : s.conn = some (k, .running c)) (hresend : c.resend = []) {msg : PeerMessage}
    (hfits : if isEstablishing msg then c.currentSeqno.epoch + 1 ≠ 0 else c.currentSeqno.seq ≠ 0)
    (written : Bool) : (s.sendMessage k c msg written).Orderly := by
  obtain ⟨hk, hacks, haccepted, hcur, hseq, -, hserved⟩ := h.connected k _ hconn
  rw [hresend, numbers_nil, List.append_nil] at hserved
  rw [hresend] at hseq
  obtain ⟨hordered, hlast, hnext⟩ := h.sender.keep (d := { msg := msg, seqno := nextNumber c msg })
    (next_nextNumber hcur (by simpa using hseq) hfits)
  have hlt := hnext.lt
  have hok : ∀ j, (s.links j).Ok (nextNumber c msg) := fun j =>
    { h.links j with inflight := fun n hn => ((h.links j).inflight n hn).trans hlt.le }
  have hkept : Orderly
      { s with sender := s.sender.keep { msg := msg, seqno := nextNumber c msg }, conn := none } :=
    { h with
      sender := hordered, le_last := (h.le_last.trans hlt.le).trans hlast.ge
      links := hlast ▸ hok, connected := by rintro _ _ ⟨⟩ }
  rw [Hosts.sendMessage]
  cases written with
  | false => exact hkept
  | true =>
    have hchain : s.serving = some k →
        (s.receiver.seqno :: (numbers (s.links k).toReceiver ++ [nextNumber c msg])).IsChain Next :=
      fun hserving =>
        have ⟨hchain, hend⟩ := hserved hserving
        isChain_cons_snoc.mpr ⟨hchain, hend ▸ hnext⟩
    rw [if_pos rfl]
    refine { hkept with
      links := forall_setLink (P := fun _ l => l.Ok _) hkept.links ⟨fun n hn => ?_, fun hnot => ?_⟩
      undialed := forall_setLink (P := fun j l => s.dialed ≤ j → l.accepted = false) h.undialed
        (h.undialed k)
      served := forall_setLink (P := fun j l => s.serving = some j → l.Served s.receiver.seqno)
        h.served fun hserving => ⟨haccepted, ?_⟩
      connected := fun j ph heq => ?_ }
    · refine le_of_le_of_eq ?_ hlast.symm
      rw [numbers_append, List.mem_append] at hn
      rcases hn with hn | hn
      · exact (hok k).inflight n hn
      · exact (List.mem_singleton.mp hn).le
    · exact absurd (haccepted.symm.trans hnot) nofun
    · rw [numbers_append]
      exact hchain hserving
    · cases heq
      dsimp only
      rw [setLink_links_self]
      refine ⟨hk, ⟨hacks.sorted, hacks.le⟩, ?_⟩
      change InPhase (s.sender.keep _).last s.receiver.seqno _ (s.serving = some k) _
      rw [hlast]
      refine ⟨haccepted, rfl, ?_, ?_, fun hserving => ?_⟩
      · rw [hresend]
        simp [SequenceNumber.next]
      · rw [hresend]
        exact List.forall_mem_nil _
      · dsimp only
        rw [hresend, numbers_append, numbers_nil, List.append_nil]
        refine ⟨hchain hserving, ?_⟩
        rw [getLastD_append]
        rfl

theorem Orderly.send (h : s.Orderly) (written : Bool) (hfits : s.Fits (.send written)) :
    (s.step (.send written)).Orderly := by
  rw [step]
  split
  · rename_i k c hconn
    split_ifs with hresend
    · exact h
    · split
      · exact h
      · rename_i msg tx htake
        have htx := h.withTx tx
        split
        · refine { htx with connected := fun j ph heq => ?_ }
          cases heq
          exact htx.connected k (.running c) hconn
        · rename_i msg
          have hfit := hfits.2
          simp only [hconn, htake] at hfit
          exact htx.sendMessage hconn (not_not.mp hresend) hfit written
  · exact h

theorem handleMessage_of_next {p : PeerReceiver} {d : Numbered} (h : Next p.seqno d.seqno)
    (env : PeerReceiver.Answers) :
    (p.handleMessage (.data d.toData) env).1.seqno = d.seqno ∧
      (p.handleMessage (.data d.toData) env).1.refused = p.refused ∧
      ((p.handleMessage (.data d.toData) env).2 = .goOn (some d.seqno) ∨
        ∃ err, (p.handleMessage (.data d.toData) env).2 = .close err) := by
  simp only [PeerReceiver.handleMessage, makeSeqno, Numbered.toData]
  rw [PeerReceiver.updateSeqno, if_neg (not_le.mpr h.cmp_pos), if_neg (by rw [h.follows]; decide)]
  dsimp only
  split_ifs
  · rw [PeerReceiver.writeAck]
    split_ifs
    · exact ⟨rfl, rfl, .inl rfl⟩
    · exact ⟨rfl, rfl, .inr ⟨_, rfl⟩⟩
  · exact ⟨rfl, rfl, .inr ⟨_, rfl⟩⟩

/-- The receiver acknowledges what it has on a connection that is past its hello. -/
theorem Orderly.writeAck (h : s.Orderly) {k : Nat} (haccepted : (s.links k).accepted = true)
    (hhello : s.conn ≠ some (k, .hello)) :
    (s.setLink k
      { s.links k with toSender := (s.links k).toSender ++ [s.receiver.seqno] }).Orderly := by
  refine { h with
    links := forall_setLink (P := fun _ l => l.Ok s.sender.last) h.links
      ⟨(h.links k).inflight, fun hnot => absurd (haccepted.symm.trans hnot) nofun⟩
    undialed := forall_setLink (P := fun j l => s.dialed ≤ j → l.accepted = false) h.undialed
      (h.undialed k)
    served := forall_setLink (P := fun j l => s.serving = some j → l.Served s.receiver.seqno)
      h.served fun hserving => { h.served k hserving with }
    connected := fun j ph hph => ?_ }
  obtain ⟨hj, hacks, hphase⟩ := h.connected j ph hph
  refine ⟨hj, ?_⟩
  rcases eq_or_ne j k with rfl | hne
  · rw [setLink_links_self]
    have hle : ∀ a ∈ (s.links j).toSender ++ [s.receiver.seqno], a ≤ s.receiver.seqno := by
      intro a ha
      rcases List.mem_append.mp ha with ha | ha
      · exact hacks.le a ha
      · exact (List.mem_singleton.mp ha).le
    refine ⟨⟨?_, hle⟩, ?_⟩
    · rw [← List.cons_append, List.pairwise_append]
      refine ⟨hacks.sorted, List.pairwise_singleton _ _, fun a ha b hb => ?_⟩
      rw [List.mem_singleton.mp hb]
      rcases List.mem_cons.mp ha with rfl | ha
      · exact h.ack_le
      · exact hacks.le a ha
    · cases ph with
      | hello => exact absurd hph hhello
      | running c => exact hphase
  · rw [setLink_links_ne s hne]
    exact ⟨hacks, hphase⟩

theorem Orderly.read (h : s.Orderly) {k : Nat} (hserving : s.serving = some k) {d : Numbered}
    {rest : List Numbered} (hlink : (s.links k).toReceiver = d :: rest) {r : PeerReceiver}
    (hseqno : r.seqno = d.seqno) (hrefused : r.refused = s.receiver.refused) :
    Orderly { s.setLink k { s.links k with toReceiver := rest } with receiver := r } := by
  obtain ⟨haccepted, hchain⟩ := h.served k hserving
  rw [hlink, numbers_cons, List.isChain_cons_cons] at hchain
  have hlt := hchain.1.lt
  have hinflight := (h.links k).inflight
  rw [hlink, numbers_cons] at hinflight
  refine
    { h with
      ack_le := ?_, le_last := ?_
      links := forall_setLink (P := fun _ l => l.Ok s.sender.last) h.links
        ⟨fun n hn => hinflight n (List.mem_cons_of_mem _ hn),
          fun hnot => absurd (haccepted.symm.trans hnot) nofun⟩
      undialed := forall_setLink (P := fun j l => s.dialed ≤ j → l.accepted = false) h.undialed
        (h.undialed k)
      served := fun j hj => ?_, connected := fun j ph hph => ?_, refused := ?_ } <;> dsimp only
  · rw [hseqno]
    exact h.ack_le.trans hlt.le
  · rw [hseqno]
    exact hinflight _ List.mem_cons_self
  · obtain rfl := Option.some.inj (hserving.symm.trans hj)
    rw [setLink_links_self, hseqno]
    exact ⟨haccepted, hchain.2⟩
  · obtain ⟨hj, hacks, hphase⟩ := h.connected j ph hph
    rw [hseqno]
    refine ⟨hj, ?_⟩
    rcases eq_or_ne j k with rfl | hne
    · rw [setLink_links_self]
      refine ⟨⟨hacks.sorted, fun a ha => (hacks.le a ha).trans hlt.le⟩, ?_⟩
      cases ph with
      | hello => exact absurd (hlink.symm.trans hphase.1) nofun
      | running c =>
        obtain ⟨hacc, hcur, hseq, hle, hserved⟩ := hphase
        refine ⟨hacc, hcur, hseq, hle, fun hon => ?_⟩
        obtain ⟨hall, hend⟩ := hserved hon
        rw [hlink, numbers_cons, List.cons_append] at hall hend
        exact ⟨(List.isChain_cons_cons.mp hall).2, List.getLastD_cons ▸ hend⟩
    · rw [setLink_links_ne s hne]
      exact ⟨{ hacks with le := fun a ha => (hacks.le a ha).trans hlt.le },
        hphase.not_served (fun heq => hne (Option.some.inj (heq.symm.trans hserving))) _⟩
  · exact hrefused.trans h.refused

theorem Orderly.deliver (h : s.Orderly) (env : PeerReceiver.Answers) :
    (s.step (.deliver env)).Orderly := by
  rw [step]
  split
  · exact h
  rename_i k hserving
  split
  · exact h
  rename_i d rest hlink
  obtain ⟨haccepted, hchain⟩ := h.served k hserving
  rw [hlink, numbers_cons, List.isChain_cons_cons] at hchain
  obtain ⟨hseqno, hrefused, hturn⟩ := handleMessage_of_next hchain.1 env
  have hread := h.read hserving hlink hseqno hrefused
  -- a sender that waits for the hello ack has written nothing yet
  have hhello : s.conn ≠ some (k, .hello) := fun hconn =>
    absurd (hlink.symm.trans (h.connected k _ hconn).2.2.1) nofun
  dsimp only
  rcases hturn with hturn | ⟨err, hturn⟩
  · have hack := hread.writeAck (k := k) (by rw [setLink_links_self]; exact haccepted) hhello
    rw [show (s.setLink k { s.links k with toReceiver := rest }).receiver = s.receiver from rfl,
      hturn, answer]
    rw [hseqno] at hack
    exact hack
  · rw [show (s.setLink k { s.links k with toReceiver := rest }).receiver = s.receiver from rfl,
      hturn, answer]
    exact hread.withoutServing

/-! ### Every run -/

theorem Orderly.step (h : s.Orderly) (e : HostEvent) (hfits : s.Fits e)
    (hepoch : s.ResendsOneEpoch e) : (s.step e).Orderly := by
  cases e with
  | queue msg loaded => exact h.queue msg loaded
  | dial => exact h.dial
  | accept k helloOk => exact h.accept k helloOk
  | hello => exact h.hello hfits hepoch
  | resend written => exact h.resend written
  | send written => exact h.send written hfits
  | ack => exact h.ack hfits
  | senderLeaves => exact h.withoutConn
  | deliver env => exact h.deliver env
  | receiverLeaves => exact h.withoutServing

/-- Over any queued messages, acks, lost connections and reconnects, as long as no number runs out
    and the messages sent again on a reconnect are of the epoch of the last ack: the first pending
    message follows the last ack, each other one the one before it, every number that is given
    follows the one given before, and the receiver never refuses a number. -/
theorem numbers_follow (bufferSize : Nat) (remote : Bytes) (es : List HostEvent)
    (hes : Along step (fun s e => s.Fits e ∧ s.ResendsOneEpoch e) (start bufferSize remote) es) :
    let s := es.foldl step (start bufferSize remote)
    (∀ d ∈ s.sender.pending.head?, d.seqno.follows s.sender.lastAck = true) ∧
      (numbers s.sender.pending).IsChain (fun a b => b.follows a = true) ∧
      ({} :: s.sender.assigned).IsChain (fun a b => b.follows a = true) ∧
      s.receiver.refused = [] := by
  have h : Orderly _ := hes.invariant (fun s e hs he => hs.step e he.1 he.2)
    (Orderly.start bufferSize remote)
  have hchain := h.sender.chain.imp fun _ _ => Next.follows
  refine ⟨fun d hd => ?_, hchain.tail, h.sender.assigned.imp fun _ _ => Next.follows, h.refused⟩
  refine hchain.rel_head? ?_
  rw [numbers, List.head?_map]
  exact Option.mem_map_of_mem _ hd

def sampleMessage (inner : PeerInner) : PeerMessage := ⟨[], inner⟩

/-- A handshake that is acknowledged, then data; the connection is lost with one message under way,
    which is sent again before new data. -/
def sampleRun : List HostEvent :=
  [.queue (sampleMessage (.syn [])) false, .dial, .accept 0 true, .hello, .send true, .deliver {},
   .ack, .queue (sampleMessage (.data [1])) true, .send true, .senderLeaves, .dial, .accept 1 true,
   .hello, .queue (sampleMessage (.data [2])) true, .resend true, .send true, .deliver {}, .deliver {}]

theorem numbers_follow_sampleRun :
    let s := sampleRun.foldl step (start 4 [])
    s.receiver.sent.map Prod.fst = [⟨1, 0⟩, ⟨1, 1⟩, ⟨1, 2⟩] ∧
      (∀ d ∈ s.sender.pending.head?, d.seqno.follows s.sender.lastAck = true) ∧
      (numbers s.sender.pending).IsChain (fun a b => b.follows a = true) ∧
      ({} :: s.sender.assigned).IsChain (fun a b => b.follows a = true) ∧
      s.receiver.refused = [] :=
  ⟨by decide +kernel, numbers_follow 4 [] sampleRun (by decide +kernel)⟩

/-- The connection is lost with the handshake under way.  The sender counts on from the last ack,
    which is of the old epoch, and gives the next message a number that the receiver refuses. -/
def lostHandshake : List HostEvent :=
  [.queue (sampleMessage (.syn [])) false, .dial, .accept 0 true, .hello, .send true, .senderLeaves,
   .receiverLeaves, .dial, .accept 1 true, .hello, .resend true,
   .queue (sampleMessage (.data [])) true, .send true, .deliver {}, .deliver {}]

theorem number_refused :
    let s := lostHandshake.foldl step (start 4 [])
    s.sender.assigned = [⟨1, 0⟩, ⟨0, 2⟩] ∧ (⟨0, 2⟩ : SequenceNumber).follows ⟨1, 0⟩ = false ∧
      s.receiver.refused = [⟨0, 2⟩] ∧ s.serving = none := by
  decide +kernel

end Hosts

end SVR2.Host
