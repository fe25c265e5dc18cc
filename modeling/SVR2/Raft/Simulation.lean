import SVR2.Raft.Calls
import SVR2.Raft.Provenance
import SVR2.Raft.System

/-!
# Runs of the system are runs of the protocol

A system is simulated by a world that knows of every state its replicas have been in and of every
packet sent.  Every event of the system is some steps of the world, so what holds of all reachable
worlds holds of all replicas in all runs.
-/

namespace SVR2

open Lib Relation World

variable {Hash : Type} [DecidableEq Hash] [Platform Hash]
variable {S : Setting Hash} {G : Rules Hash} {R : Set PeerId}
variable {s : Sys Hash} {w : World Hash} {p : PeerId} {r : Raft Hash}

omit [DecidableEq Hash] in
theorem World.exists_moves {I : PeerId → RaftMessage Hash → Prop}
    {a b : View Hash × List (SendableRaftMessage Hash)}
    (hab : ReflTransGen (Raft.Shows S G I) a b) (hw : Reachable S G R w)
    (hview : w.view p = some a.1) (hI : ∀ q msg, I q msg → w.inbox p q msg) :
    ∃ w', Reachable S G R w' ∧ w.Before w' ∧ w'.view p = some b.1 ∧
      (∀ q, q ≠ p → w'.view q = w.view q ∧ w'.past q = w.past q) ∧
      ∃ out, b.2 = a.2 ++ out ∧ ∀ msg ∈ out, (p, msg) ∈ w'.net := by
  induction hab with
  | refl =>
    refine ⟨w, hw, Before.refl w, hview, fun _ _ => ⟨rfl, rfl⟩, [], (List.append_nil _).symm, ?_⟩
    intro msg hmsg
    cases hmsg
  | @tail b c _ hbc ih =>
    obtain ⟨w₁, hw₁, hbefore, hview₁, hsame, out₁, hout₁, hnet₁⟩ := ih
    obtain ⟨out, hmove, hout⟩ := hbc
    have hmove' : Move S G (w₁.inbox p) b.1 c.1 out :=
      hmove.mono fun q msg hq => hbefore.inbox (hI q msg hq)
    refine ⟨w₁.moved p c.1 out, hw₁.step (Step.move w₁ p b.1 c.1 out hview₁ hmove'),
      hbefore.trans before_moved, Function.update_self _ _ _, ?_, out₁ ++ out, ?_, ?_⟩
    · intro q hq
      exact ⟨(Function.update_of_ne hq _ _).trans (hsame q hq).1,
        (Function.update_of_ne hq _ _).trans (hsame q hq).2⟩
    · rw [hout, hout₁, List.append_assoc]
    · intro msg hmsg
      rcases List.mem_append.mp hmsg with hmsg | hmsg
      · exact Or.inl (hnet₁ msg hmsg)
      · exact Or.inr ⟨msg, hmsg, rfl⟩

/-- The world `w` knows of all that the system `s` has done. -/
structure Sim (S : Setting Hash) (s : Sys Hash) (w : World Hash) : Prop where
  replica : ∀ p r, s.replicas p = some r → r ∈ s.history p ∧ w.view p = some r.view
  history : ∀ p r, r ∈ s.history p →
    r.Inv S ∧ r.me = p ∧ r.sendableMessages = [] ∧ r.view ∈ w.past p
  absent : ∀ p, s.history p = [] → w.past p = ∅
  alive : ∀ p, s.history p ≠ [] → ∃ r, s.replicas p = some r
  net : ∀ pkt ∈ s.net, w.inbox pkt.dst pkt.src pkt.message ∧ pkt.src ≠ pkt.dst

omit [DecidableEq Hash] [Platform Hash] in
/-- The packets of a replica are messages on their way, none to itself. -/
theorem Raft.mem_packets (h : r.Inv S) {pkt : Packet Hash} (hpkt : pkt ∈ r.packets) :
    pkt.src = r.me ∧ pkt.src ≠ pkt.dst ∧ ∃ dst, ⟨dst, pkt.message⟩ ∈ r.sendableMessages ∧
      (dst = none ∨ dst = some pkt.dst) := by
  rw [Raft.packets, List.mem_flatMap] at hpkt
  obtain ⟨m, hm, hpkt⟩ := hpkt
  split at hpkt
  · rename_i dst hdst
    obtain rfl := List.mem_singleton.mp hpkt
    refine ⟨rfl, fun heq => h.sendable m hm ?_, some dst, hdst ▸ hm, Or.inr rfl⟩
    rw [hdst]
    exact congrArg some heq.symm
  · rename_i hdst
    obtain ⟨dst, hpeer, rfl⟩ := List.mem_map.mp hpkt
    have hne : dst ≠ r.me := by simpa using (List.mem_filter.mp hpeer).2
    exact ⟨rfl, hne.symm, none, hdst ▸ hm, Or.inl rfl⟩

omit [DecidableEq Hash] [Platform Hash] in
/-- A replica settles in a state that the next world has as its view. -/
theorem Sim.settle {w' : World Hash} (hsim : Sim S s w) (hbefore : w.Before w')
    (hinv : r.Inv S) (hme : r.me = p) (hview : w'.view p = some r.view)
    (hpast : r.view ∈ w'.past p)
    (hsame : ∀ q, q ≠ p → w'.view q = w.view q ∧ w'.past q = w.past q)
    (hnet : ∀ msg ∈ r.sendableMessages, (p, msg) ∈ w'.net) : Sim S (s.settle p r) w' := by
  rw [Sys.settle, if_neg (by simp [hinv.not_aborted])]
  refine ⟨?_, ?_, ?_, ?_, ?_⟩
  · intro q x hx
    by_cases hq : q = p
    · subst hq
      simp only [Function.update_self, Option.some.injEq] at hx
      subst hx
      exact ⟨by simp, hview⟩
    · simp only [Function.update_of_ne hq] at hx ⊢
      exact ⟨(hsim.replica q x hx).1, (hsame q hq).1.trans (hsim.replica q x hx).2⟩
  · intro q x hx
    by_cases hq : q = p
    · subst hq
      simp only [Function.update_self, List.mem_cons] at hx
      rcases hx with rfl | hx
      · exact ⟨{ hinv with sendable := by simp }, hme, rfl, hpast⟩
      · obtain ⟨h1, h2, h3, h4⟩ := hsim.history q x hx
        exact ⟨h1, h2, h3, hbefore.past q h4⟩
    · simp only [Function.update_of_ne hq] at hx
      obtain ⟨h1, h2, h3, h4⟩ := hsim.history q x hx
      exact ⟨h1, h2, h3, hbefore.past q h4⟩
  · intro q hq
    by_cases hqp : q = p
    · subst hqp
      simp only [Function.update_self] at hq
      cases hq
    · simp only [Function.update_of_ne hqp] at hq
      rw [(hsame q hqp).2]
      exact hsim.absent q hq
  · intro q hq
    by_cases hqp : q = p
    · subst hqp
      exact ⟨_, Function.update_self _ _ _⟩
    · simp only [Function.update_of_ne hqp] at hq ⊢
      exact hsim.alive q hq
  · intro pkt hpkt
    rcases List.mem_append.mp hpkt with hpkt | hpkt
    · exact ⟨hbefore.inbox (hsim.net pkt hpkt).1, (hsim.net pkt hpkt).2⟩
    · obtain ⟨hsrc, hne, dst, hmsg, hdst⟩ := Raft.mem_packets hinv hpkt
      exact ⟨⟨dst, hsrc.trans hme ▸ hnet _ hmsg, hdst⟩, hne⟩

omit [DecidableEq Hash] in
theorem Sim.call (hsim : Sim S s w) (hw : Reachable S G R w) {f : Raft Hash → Raft Hash}
    (hf : ∀ r, s.replicas p = some r → r.Inv S → r.me = p →
      Raft.Follows S G (w.inbox p) r (f r)) :
    ∃ w', Reachable S G R w' ∧ w.Before w' ∧ Sim S (s.call p f) w' := by
  rw [Sys.call]
  cases hr : s.replicas p with
  | none => exact ⟨w, hw, Before.refl w, hsim⟩
  | some r =>
    obtain ⟨hhist, hview⟩ := hsim.replica p r hr
    obtain ⟨hinv, hme, hnil, -⟩ := hsim.history p r hhist
    have hfollows := hf r hr hinv hme
    obtain ⟨w', hw', hbefore, hview', hsame, out, hout, hnet⟩ :=
      exists_moves hfollows.moves hw hview fun _ _ h => h
    refine ⟨w', hw', hbefore, hsim.settle hbefore hfollows.inv (hfollows.view_me.trans hme) hview'
      (hw'.mem_past hview') hsame ?_⟩
    have hout : (f r).sendableMessages = r.sendableMessages ++ out := hout
    rw [hout, hnil, List.nil_append]
    exact hnet

omit [DecidableEq Hash] in
/-- Responses in the network promise no more than they match. -/
theorem World.Reachable.promiseIdx_le (h : Reachable S G R w) {q : PeerId}
    {msg : RaftMessage Hash} (hin : w.inbox p q msg) :
    ∀ m, msg.inner = .appendResponse m → m.success = true → m.promiseIdx ≤ m.matchIdx := by
  intro m hm hsuccess
  obtain ⟨group, term, inner⟩ := msg
  cases hm
  obtain ⟨v, -, req, k, hack⟩ := h.acknowledged hin hsuccess
  rw [hack.promiseIdx]
  exact Nat.min_le_right _ _

/-- An event that keeps to the rules: only replicas of `R` are rolled back, and joins, membership
    changes, elections and commits are ones that the rules allow. -/
structure Obeys (S : Setting Hash) (G : Rules Hash) (R : Set PeerId) (s : Sys Hash)
    (e : Event Hash) : Prop where
  rollback : ∀ p k, e = .rollback p k → p ∈ R
  join : ∀ p q k maxBytes config o, e = .join p q k maxBytes config o → G.mayJoin
  change : ∀ p x g o r, e = .logRequest p x o → x.inner = .membershipChange g →
    s.replicas p = some r → r.Inv S → r.checkLogRequest x = .ok → G.mayReconfigure r.view
  permitted : ∀ r o, s.changing e = some (r, o) → Raft.Permitted S G r o

omit [DecidableEq Hash] in
theorem Raft.Inv.copyTo (h : r.Inv S) (maxBytes : Nat) :
    (r.log.copyTo r.commitIdx maxBytes).Ok ∧
      (r.log.copyTo r.commitIdx maxBytes).full = r.log.full.take r.commitIdx ∧
      S.base <+: (r.log.copyTo r.commitIdx maxBytes).full ∧
      r.committedMembership = S.conf (r.log.copyTo r.commitIdx maxBytes).full := by
  have hold := h.log_ok.oldest
  have hstored := h.stored
  have happlied := h.applied_le
  have hfull : (r.log.copyTo r.commitIdx maxBytes).full = r.log.full.take r.commitIdx := by
    have hr : r.log.removed.take r.commitIdx = r.log.removed := List.take_of_length_le (by omega)
    have hi : r.commitIdx - r.log.removed.length = r.commitIdx + 1 - r.log.oldestStoredIdx := by
      omega
    simp only [Log.copyTo, Log.full, List.take_append, hr, hi]
  refine ⟨⟨hold, ?_, ?_, ?_⟩, hfull, ?_, hfull ▸ h.committed⟩
  · intro he
    rcases List.take_eq_nil_iff.mp he with he | he
    · show r.log.oldestStoredIdx = 1
      omega
    · exact h.log_ok.empty he
  · intro e he
    rw [hfull] at he
    exact h.log_ok.term_pos e (List.mem_of_mem_take he)
  · intro e he
    rw [hfull] at he
    exact h.log_ok.hash_some e (List.mem_of_mem_take he)
  · rw [hfull]
    refine List.prefix_of_prefix_length_le h.base_start (List.take_prefix _ _) ?_
    rw [List.length_take, Nat.min_eq_left h.commit_le_length]
    exact h.base_le

theorem Sim.join (hsim : Sim S s w) (hw : Reachable S G R w) {p q : PeerId} {k maxBytes : Nat}
    {config : RaftConfig} {o : Oracle} (hrule : Obeys S G R s (.join p q k maxBytes config o)) :
    ∃ w', Reachable S G R w' ∧ w.Before w' ∧ Sim S (s.apply (.join p q k maxBytes config o)) w' := by
  simp only [Sys.apply]
  by_cases hp : s.history p = []
  swap
  · rw [if_pos hp]
    exact ⟨w, hw, Before.refl w, hsim⟩
  rw [if_neg (not_not.mpr hp)]
  cases hm : (s.history q)[k]? with
  | none => exact ⟨w, hw, Before.refl w, hsim⟩
  | some m =>
    obtain ⟨hinv, hme, -, hpast⟩ := hsim.history q m (List.mem_of_getElem? hm)
    obtain ⟨hok, hfull, hbase, hmem⟩ := hinv.copyTo maxBytes
    simp only [hinv.group, hinv.super_majority]
    by_cases habort : (Raft.new S.group p m.committedMembership
        (m.log.copyTo m.commitIdx maxBytes) config true S.superMajority o).aborted
    · -- the constructor fails, and the replica does not start
      refine ⟨w, hw, Before.refl w, ?_⟩
      rw [Sys.settle, if_pos habort]
      refine ⟨?_, hsim.history, hsim.absent, ?_, hsim.net⟩
      · intro x y hxy
        by_cases hx : x = p
        · subst hx
          simp only [Function.update_self] at hxy
          cases hxy
        · simp only [Function.update_of_ne hx] at hxy
          exact hsim.replica x y hxy
      · intro x hx
        have hxp : x ≠ p := fun heq => hx (heq ▸ hp)
        simp only [Function.update_of_ne hxp]
        exact hsim.alive x hx
    · have hpermitted : p ∈ m.committedMembership.votingReplicas →
          m.committedMembership.votingReplicas.size = 1 →
          Raft.Permitted S G ((Raft.newFollower S.group p m.committedMembership
            (m.log.copyTo m.commitIdx maxBytes) config true S.superMajority o).electionTimeout o) o := by
        intro hvoting hsize
        refine hrule.permitted _ _ ?_
        simp only [Sys.changing, hp, ne_eq, not_true_eq_false, if_false, hm, Option.bind_some,
          hinv.group, hinv.super_majority]
        exact if_pos ⟨hvoting, hsize⟩
      obtain ⟨hfresh, hshown⟩ := Raft.newFollower_spec p config o hok hbase hmem
      obtain ⟨hfollows, hnil⟩ := Raft.new_spec (I := fun _ _ => False) config o hok hbase hmem
        hpermitted (by simpa using habort)
      rw [hfull] at hshown
      -- first the replica starts, then it may elect itself
      have hempty := hsim.absent p hp
      have hstep : Reachable S G R
          (w.joined p (View.fresh p (m.view.log.take m.view.commit))) :=
        hw.step (Step.join w p q m.view (hrule.join _ _ _ _ _ _ rfl) hempty hpast)
      have hmoves := hfollows.moves
      rw [hshown] at hmoves
      obtain ⟨w', hw', hbefore, hview', hsame, out, hout, hnet⟩ :=
        exists_moves hmoves hstep (Function.update_self _ _ _) fun _ _ h => h.elim
      have hall : w.Before w' := (before_joined hempty).trans hbefore
      refine ⟨w', hw', hall, hsim.settle hall hfollows.inv hfollows.view_me hview'
        (hw'.mem_past hview') ?_ ?_⟩
      · intro x hx
        exact ⟨(hsame x hx).1.trans (Function.update_of_ne hx _ _),
          (hsame x hx).2.trans (Function.update_of_ne hx _ _)⟩
      · rw [hnil]
        intro msg hmsg
        cases hmsg

theorem Sim.apply (hsim : Sim S s w) (hw : Reachable S G R w) {e : Event Hash}
    (hrule : Obeys S G R s e) :
    ∃ w', Reachable S G R w' ∧ w.Before w' ∧ Sim S (s.apply e) w' := by
  cases e with
  | timerTick p o =>
    refine hsim.call hw fun r hr hinv _ => Raft.timerTick_follows hinv o (hrule.permitted _ _ ?_)
    simp [Sys.changing, hr]
  | logRequest p x o =>
    refine hsim.call hw fun r hr hinv _ => Raft.logRequest_follows hinv o x ?_ ?_
    · intro g hg hok
      exact hrule.change p x g o r rfl hg hr hinv hok
    · intro hok
      refine hrule.permitted _ _ ?_
      simp [Sys.changing, hr, hok]
  | relinquishLeadership p o =>
    refine hsim.call hw fun r hr hinv _ => Raft.relinquishLeadership_follows hinv o ?_
    intro hno
    refine hrule.permitted _ _ ?_
    simp only [Sys.changing, hr, Option.bind_some, if_neg hno]
  | resetPeer p id =>
    simp only [Sys.apply]
    split_ifs with hid
    · exact ⟨w, hw, Before.refl w, hsim⟩
    · refine hsim.call hw fun r hr hinv hme => Raft.resetPeer_follows hinv ?_
      rw [hme]
      exact hid
  | reconfigure p config =>
    exact hsim.call hw fun r hr hinv _ => Raft.reconfigure_follows hinv config
  | takeCommittedLog p =>
    simp only [Sys.apply, Sys.call]
    cases hr : s.replicas p with
    | none => exact ⟨w, hw, Before.refl w, hsim⟩
    | some r =>
      obtain ⟨hhist, hview⟩ := hsim.replica p r hr
      obtain ⟨hinv, hme, hnil, hpast⟩ := hsim.history p r hhist
      obtain ⟨hinv', hshown, -⟩ := Raft.takeCommittedLog_spec hinv
      have hview' : r.takeCommittedLog.1.view = r.view := congrArg Prod.fst hshown
      have hsend : r.takeCommittedLog.1.sendableMessages = [] := (congrArg Prod.snd hshown).trans hnil
      refine ⟨w, hw, Before.refl w, hsim.settle (Before.refl w) hinv'
        ((congrArg View.me hview').trans hme) (hview' ▸ hview) (hview' ▸ hpast)
        (fun _ _ => ⟨rfl, rfl⟩) ?_⟩
      rw [hsend]
      intro msg hmsg
      cases hmsg
  | deliver k o =>
    simp only [Sys.apply]
    cases hpkt : s.net[k]? with
    | none => exact ⟨w, hw, Before.refl w, hsim⟩
    | some pkt =>
      obtain ⟨hin, hne⟩ := hsim.net pkt (List.mem_of_getElem? hpkt)
      refine hsim.call hw fun r hr hinv hme => Raft.receive_follows hinv o ?_ hin
        (hw.promiseIdx_le hin) ?_
      · rw [hme]
        exact hne
      · intro hok
        refine hrule.permitted _ _ ?_
        simp [Sys.changing, hpkt, hr, hok]
  | rollback p k =>
    simp only [Sys.apply]
    cases hr : (s.history p)[k]? with
    | none => exact ⟨w, hw, Before.refl w, hsim⟩
    | some r =>
      have hmem := List.mem_of_getElem? hr
      have hpast := (hsim.history p r hmem).2.2.2
      have hstep : Step S G R w { w with view := Function.update w.view p (some r.view) } :=
        Step.rollback w p r.view (hrule.rollback p k rfl) hpast
      refine ⟨_, hw.step hstep, hstep.before, ?_, hsim.history, hsim.absent, ?_, ?_⟩
      · intro q x hx
        by_cases hq : q = p
        · subst hq
          simp only [Function.update_self, Option.some.injEq] at hx ⊢
          subst hx
          exact ⟨hmem, rfl⟩
        · simp only [Function.update_of_ne hq] at hx ⊢
          exact hsim.replica q x hx
      · intro q hq
        by_cases hqp : q = p
        · subst hqp
          exact ⟨r, Function.update_self _ _ _⟩
        · simp only [Function.update_of_ne hqp]
          exact hsim.alive q hq
      · intro pkt hpkt
        exact ⟨hstep.before.inbox (hsim.net pkt hpkt).1, (hsim.net pkt hpkt).2⟩
  | join p q k maxBytes config o => exact hsim.join hw hrule

theorem Sim.run (hsim : Sim S s w) (hw : Reachable S G R w) {es : List (Event Hash)}
    (hrules : Sys.AllEvents (Obeys S G R) s es) :
    ∃ w', Reachable S G R w' ∧ w.Before w' ∧ Sim S (s.run es) w' := by
  induction es generalizing s w with
  | nil => exact ⟨w, hw, Before.refl w, hsim⟩
  | cons e es ih =>
    obtain ⟨w₁, hw₁, hbefore₁, hsim₁⟩ := hsim.apply hw hrules.1
    obtain ⟨w₂, hw₂, hbefore₂, hsim₂⟩ := ih hsim₁ hw₁ hrules.2
    exact ⟨w₂, hw₂, hbefore₁.trans hbefore₂, hsim₂⟩

omit [Platform Hash] [DecidableEq Hash] in
theorem Sys.mem_history_settle {q : PeerId} {x : Raft Hash} (hr : r ∈ s.history p) :
    r ∈ (s.settle q x).history p := by
  rw [Sys.settle]
  split_ifs
  · exact hr
  · by_cases hp : p = q
    · subst hp
      simp only [Function.update_self]
      exact List.mem_cons_of_mem _ hr
    · simp only [Function.update_of_ne hp]
      exact hr

omit [Platform Hash] [DecidableEq Hash] in
theorem Sys.mem_history_call {q : PeerId} {f : Raft Hash → Raft Hash} (hr : r ∈ s.history p) :
    r ∈ (s.call q f).history p := by
  rw [Sys.call]
  split
  · exact hr
  · exact mem_history_settle hr

theorem Sys.mem_history_apply {e : Event Hash} (hr : r ∈ s.history p) :
    r ∈ (s.apply e).history p := by
  cases e with
  | timerTick q o => exact mem_history_call hr
  | logRequest q x o => exact mem_history_call hr
  | relinquishLeadership q o => exact mem_history_call hr
  | resetPeer q id =>
    simp only [Sys.apply]
    split_ifs
    · exact hr
    · exact mem_history_call hr
  | reconfigure q config => exact mem_history_call hr
  | takeCommittedLog q => exact mem_history_call hr
  | deliver k o =>
    simp only [Sys.apply]
    split
    · exact hr
    · exact mem_history_call hr
  | rollback q k =>
    simp only [Sys.apply]
    split
    · exact hr
    · exact hr
  | join q x k maxBytes config o =>
    simp only [Sys.apply]
    split_ifs
    · exact hr
    · split
      · exact hr
      · exact mem_history_settle hr

theorem Sys.mem_history_run {es : List (Event Hash)} (hr : r ∈ s.history p) :
    r ∈ (s.run es).history p := by
  induction es generalizing s with
  | nil => exact hr
  | cons e es ih => exact ih (mem_history_apply hr)

theorem Sys.run_append (s : Sys Hash) (es es' : List (Event Hash)) :
    s.run (es ++ es') = (s.run es).run es' :=
  List.foldl_append

theorem Sys.AllEvents.left {P : Sys Hash → Event Hash → Prop} {es es' : List (Event Hash)}
    (h : Sys.AllEvents P s (es ++ es')) : Sys.AllEvents P s es := by
  induction es generalizing s with
  | nil => trivial
  | cons e es ih => exact ⟨h.1, ih h.2⟩

theorem Sys.AllEvents.imp {P Q : Sys Hash → Event Hash → Prop} {es : List (Event Hash)}
    (h : Sys.AllEvents P s es) (himp : ∀ s, ∀ e ∈ es, P s e → Q s e) : Sys.AllEvents Q s es := by
  induction es generalizing s with
  | nil => trivial
  | cons e es ih =>
    exact ⟨himp s e (List.mem_cons_self ..) h.1,
      ih h.2 fun s x hx => himp s x (List.mem_cons_of_mem e hx)⟩

theorem Sys.AllEvents.of_forall {P : Sys Hash → Event Hash → Prop} {es : List (Event Hash)}
    (h : ∀ e ∈ es, ∀ s, P s e) (s : Sys Hash) : Sys.AllEvents P s es := by
  induction es generalizing s with
  | nil => trivial
  | cons e es ih =>
    exact ⟨h e (List.mem_cons_self ..) s, ih (fun x hx => h x (List.mem_cons_of_mem e hx)) _⟩

/-! ### The start -/

namespace RaftGroup

variable (g : RaftGroup Hash)

def setting : Setting Hash where
  group := g.id
  superMajority := g.superMajority
  base := g.log.full
  membership := g.membership
  voting_subset := g.voting_subset

def Started (p : PeerId) : Prop :=
  p ∈ g.membership.allReplicas ∧ (g.newReplica p).aborted = false

/-- Replica `p` before its constructor looks whether it is alone. -/
def newFollower (p : PeerId) : Raft Hash :=
  Raft.newFollower g.id p g.membership { g.log with maxBytes := g.maxBytes p } (g.config p) true
    g.superMajority (g.oracle p)

/-- The only voter of the group. -/
def Sole (p : PeerId) : Prop :=
  p ∈ g.membership.votingReplicas ∧ g.membership.votingReplicas.size = 1

variable {g}

omit [DecidableEq Hash] [Platform Hash] in
theorem Sole.unique {p q : PeerId} (hp : g.Sole p) (hq : g.Sole q) : p = q := by
  have hcard : g.membership.votingReplicas.keySet.card = 1 := by
    rw [OrdMap.card_keySet]
    exact hp.2
  obtain ⟨a, ha⟩ := Finset.card_eq_one.mp hcard
  have hmem : ∀ {x}, x ∈ g.membership.votingReplicas → x = a := by
    intro x hx
    have := OrdMap.mem_keySet.mpr hx
    rw [ha] at this
    exact Finset.mem_singleton.mp this
  rw [hmem hp.1, hmem hq.1]

omit [DecidableEq Hash] in
theorem newReplica_eq_of_not_sole {p : PeerId} (hp : ¬g.Sole p) :
    g.newReplica p = g.newFollower p :=
  if_neg hp

omit [DecidableEq Hash] in
theorem newFollower_spec (p : PeerId) : (g.newFollower p).Inv g.setting ∧
    (g.newFollower p).shown = (View.fresh p g.log.full, []) := by
  have hok : ({ g.log with maxBytes := g.maxBytes p } : Log Hash).Ok :=
    ⟨g.log_ok.oldest, g.log_ok.empty, g.log_ok.term_pos, g.log_ok.hash_some⟩
  exact Raft.newFollower_spec (S := g.setting) p (g.config p) (g.oracle p) hok
    (List.prefix_refl _) (g.setting.conf_base).symm

omit [DecidableEq Hash] in
theorem newReplica_spec {I : PeerId → RaftMessage Hash → Prop} {p : PeerId}
    (hrule : g.Sole p → Raft.Permitted g.setting G ((g.newFollower p).electionTimeout (g.oracle p)) (g.oracle p))
    (hp : (g.newReplica p).aborted = false) :
    Raft.Follows g.setting G I (g.newFollower p) (g.newReplica p) ∧
      (g.newReplica p).sendableMessages = [] := by
  have hok : ({ g.log with maxBytes := g.maxBytes p } : Log Hash).Ok :=
    ⟨g.log_ok.oldest, g.log_ok.empty, g.log_ok.term_pos, g.log_ok.hash_some⟩
  exact Raft.new_spec (S := g.setting) (g.config p) (g.oracle p) hok (List.prefix_refl _)
    (g.setting.conf_base).symm (fun h1 h2 => hrule ⟨h1, h2⟩) hp

open Classical in
/-- The world in which the group's replicas have just started. -/
noncomputable def world (g : RaftGroup Hash) : World Hash where
  view p := if g.Started p then some (View.fresh p g.log.full) else none
  net := ∅
  past p := if g.Started p then {View.fresh p g.log.full} else ∅

omit [DecidableEq Hash] in
theorem world_init : g.world.Init g.setting := by
  refine ⟨rfl, fun p => ?_⟩
  by_cases hp : g.Started p
  · exact Or.inr ⟨if_pos hp, if_pos hp⟩
  · exact Or.inl ⟨if_neg hp, if_neg hp⟩

omit [DecidableEq Hash] in
/-- A world that has the view of every replica that has started, and no others. -/
theorem sim_of_views (hrule : ∀ p, g.Sole p →
      Raft.Permitted g.setting G ((g.newFollower p).electionTimeout (g.oracle p)) (g.oracle p))
    (hstarted : ∀ p, g.Started p → w.view p = some (g.newReplica p).view ∧
      (g.newReplica p).view ∈ w.past p)
    (habsent : ∀ p, ¬g.Started p → w.past p = ∅) : Sim g.setting g.start w := by
  have hboot : ∀ {p r}, g.start.replicas p = some r →
      g.Started p ∧ r = { g.newReplica p with sendableMessages := [] } := by
    intro p r hr
    by_cases hp : g.Started p
    · exact ⟨hp, (Option.some.inj ((if_pos hp).symm.trans hr)).symm⟩
    · exact absurd ((if_neg hp).symm.trans hr) (by simp)
  refine ⟨?_, ?_, ?_, ?_, ?_⟩
  · intro p r hr
    obtain ⟨hp, rfl⟩ := hboot hr
    refine ⟨?_, (hstarted p hp).1⟩
    show _ ∈ (g.start.replicas p).toList
    rw [hr]
    exact List.mem_singleton_self _
  · intro p r hr
    have hr : g.start.replicas p = some r := by
      have hr : r ∈ (g.start.replicas p).toList := hr
      exact Option.mem_toList.mp hr
    obtain ⟨hp, rfl⟩ := hboot hr
    have hspec := (newReplica_spec (G := G) (I := fun _ _ => False) (hrule p) hp.2).1
    exact ⟨{ hspec.inv with sendable := by simp }, hspec.view_me, rfl, (hstarted p hp).2⟩
  · intro p hp
    refine habsent p fun hs => ?_
    have hnone : g.start.replicas p = none := by
      have hp : (g.start.replicas p).toList = [] := hp
      exact Option.toList_eq_nil_iff.mp hp
    exact absurd ((if_pos hs).symm.trans hnone) (by simp)
  · intro p hp
    have hp : (g.start.replicas p).toList ≠ [] := hp
    exact Option.ne_none_iff_exists'.mp fun hnone => hp (Option.toList_eq_nil_iff.mpr hnone)
  · intro pkt hpkt
    cases hpkt

omit [DecidableEq Hash] in
theorem sim_start (hrule : ∀ p, g.Sole p →
      Raft.Permitted g.setting G ((g.newFollower p).electionTimeout (g.oracle p)) (g.oracle p)) :
    ∃ w, Reachable g.setting G R w ∧ Sim g.setting g.start w := by
  have hinit : Reachable g.setting G R g.world := .init world_init
  -- a replica that is not alone has not moved yet
  have hidle : ∀ p, g.Started p → ¬g.Sole p → g.world.view p = some (g.newReplica p).view := by
    intro p hp hsole
    rw [newReplica_eq_of_not_sole hsole]
    exact (if_pos hp).trans (congrArg some (congrArg Prod.fst (newFollower_spec p).2).symm)
  by_cases hsole : ∃ p, g.Started p ∧ g.Sole p
  · obtain ⟨p, hp, hsole⟩ := hsole
    obtain ⟨hfollows, -⟩ := newReplica_spec (G := G) (I := fun _ _ => False) (hrule p) hp.2
    have hmoves := hfollows.moves
    rw [(newFollower_spec p).2] at hmoves
    obtain ⟨w, hw, -, hview, hsame, -⟩ :=
      exists_moves hmoves hinit (if_pos hp) fun _ _ h => h.elim
    refine ⟨w, hw, sim_of_views hrule ?_ ?_⟩
    · intro q hq
      have hviewq : w.view q = some (g.newReplica q).view := by
        by_cases hqp : q = p
        · subst hqp
          exact hview
        · exact (hsame q hqp).1.trans (hidle q hq fun h => hqp (h.unique hsole))
      exact ⟨hviewq, hw.mem_past hviewq⟩
    · intro q hq
      have hqp : q ≠ p := fun h => hq (h ▸ hp)
      exact (hsame q hqp).2.trans (if_neg hq)
  · refine ⟨g.world, hinit, sim_of_views hrule ?_ ?_⟩
    · intro p hp
      have hview := hidle p hp fun h => hsole ⟨p, hp, h⟩
      exact ⟨hview, hinit.mem_past hview⟩
    · intro p hp
      exact if_neg hp

/-- Every run that keeps to the rules is simulated, and its last state remembers all replicas of
    earlier points. -/
theorem exists_sim (hrule : ∀ p, g.Sole p →
      Raft.Permitted g.setting G ((g.newFollower p).electionTimeout (g.oracle p)) (g.oracle p))
    {es : List (Event Hash)} (hrules : Sys.AllEvents (Obeys g.setting G R) g.start es) :
    ∃ w, Reachable g.setting G R w ∧ Sim g.setting (g.start.run es) w ∧
      ∀ m p r, (g.start.run (es.take m)).replicas p = some r → r ∈ (g.start.run es).history p := by
  obtain ⟨w₀, hw₀, hsim₀⟩ := sim_start (R := R) hrule
  obtain ⟨w, hw, -, hsim⟩ := hsim₀.run hw₀ hrules
  refine ⟨w, hw, hsim, ?_⟩
  intro m p r hr
  rw [← List.take_append_drop m es] at hrules ⊢
  obtain ⟨w₁, -, -, hsim₁⟩ := hsim₀.run hw₀ hrules.left
  rw [Sys.run_append]
  exact Sys.mem_history_run (hsim₁.replica p r hr).1

/-- The states that two replicas have been in at points `m` and `n` of a run that keeps to the
    rules are known to one world. -/
theorem exists_world (hrule : ∀ p, g.Sole p →
      Raft.Permitted g.setting G ((g.newFollower p).electionTimeout (g.oracle p)) (g.oracle p))
    {es : List (Event Hash)} (hrules : Sys.AllEvents (Obeys g.setting G R) g.start es)
    {m n : Nat} {p q : PeerId} {r r' : Raft Hash}
    (hr : (g.start.run (es.take m)).replicas p = some r)
    (hr' : (g.start.run (es.take n)).replicas q = some r') :
    ∃ w, Reachable g.setting G R w ∧ (r.Inv g.setting ∧ r.view ∈ w.past p) ∧
      (r'.Inv g.setting ∧ r'.view ∈ w.past q) := by
  obtain ⟨w, hw, hsim, hhist⟩ := exists_sim hrule hrules
  obtain ⟨hinv, -, -, hpast⟩ := hsim.history p r (hhist m p r hr)
  obtain ⟨hinv', -, -, hpast'⟩ := hsim.history q r' (hhist n q r' hr')
  exact ⟨w, hw, ⟨hinv, hpast⟩, hinv', hpast'⟩

end RaftGroup

end SVR2
