/-
# `RingChannel.Overflow` — the counters at the limit of a machine word

The counters are words of `w` bits, and `fetch_add` wraps without a check.  A
leaked endpoint is never subtracted again, so a client that clones and leaks
can drive the number of senders to `2 ^ w`, where the word is zero: the
channel then reports a disconnection that has not happened, and a few more
clones and drops free the block under everybody's feet (`outlived`).

Below the limit the words are the numbers, and none of this happens
(`counters_hold`).
-/
import RingChannel.Sessions

namespace RingChannel

namespace Session

variable {K T : Type} {w : Nat}

/-! ## Words that count -/

theorem counts_ofNat (w : Nat) : Counts (BitVec.ofNat w) where
  zero := rfl
  one := rfl
  succ n := (BitVec.ofNat_add n 1).symm
  pred n := by
    rw [BitVec.ofNat_add n 1]
    exact BitVec.add_sub_cancel _ _

theorem fitting_ofNat (hw : 0 < w) : Fitting (BitVec.ofNat w) (· < 2 ^ w) where
  one := Nat.one_lt_two_pow (Nat.pos_iff_ne_zero.mp hw)
  down _ _ hle hn := Nat.lt_of_le_of_lt hle hn
  inj m n hm hn h := by
    have hval := congrArg BitVec.toNat h
    rwa [BitVec.toNat_ofNat, BitVec.toNat_ofNat, Nat.mod_eq_of_lt hm, Nat.mod_eq_of_lt hn] at hval

/-- In every session the word is zero exactly when the number of senders is a
multiple of `2 ^ w`. -/
theorem senders_eq_zero_iff {ok : Trace (Session (BitVec w) T) (Reply K T) →
      Session (BitVec w) T → Reply K T → Prop} {lay : Layout} {n : Nat} {h : 0 < n}
    {tr : Trace (Session (BitVec w) T) (Reply K T)} {s : Session (BitVec w) T}
    (hrun : Runs ok lay n h tr s) : s.cb.senders = 0 ↔ 2 ^ w ∣ s.heldSenders := by
  rw [(wf_of_run (counts_ofNat w) hrun).counted.senders, ← BitVec.toNat_inj, BitVec.toNat_ofNat]
  exact Nat.dvd_iff_mod_eq_zero.symm

/-! ## Below the limit -/

theorem dropped_of_heldSenders {N : Type} {s : Session N T} (h : s.heldSenders = 0) :
    ∀ t ∈ s.txs, t.hold = .dropped := by
  intro t ht
  obtain ⟨i, hi⟩ := List.getElem?_of_mem ht
  have hget : s.holds[i]? = some t.hold := by simp [holds, hi]
  have hle := Ledger.le_total (f := fun _ o => Hold.held o) hget
  cases hhold : t.hold with
  | dropped => rfl
  | usable | leaked =>
      rw [hhold] at hle
      exact absurd (Nat.le_trans hle (Nat.le_of_eq h)) (Nat.not_succ_le_zero 0)

theorem dropped_of_heldReceivers {N : Type} {s : Session N T} (h : s.heldReceivers = 0) {rx : Nat}
    {o : Hold} (hrx : s.rxs.get rx = some o) : o = .dropped := by
  have hle := SlotMap.le_weight (fun _ o => Hold.held o) hrx
  cases o with
  | dropped => rfl
  | usable | leaked => exact absurd (Nat.le_trans hle (Nat.le_of_eq h)) (Nat.not_succ_le_zero 0)

section Disconnected

variable {N : Type} [OfNat N 0] [LT N] [DecidableLT N] [OfNat N 1] [Add N] [Sub N] [DecidableEq N]

/-- `try_recv` reports a disconnection only when the counter is not positive. -/
theorem senders_of_disconnected {s s' : Session N T} {r : Request K T} {e : Reply K T}
    (hstep : s.step r = some (e, s')) (he : e.answer = .tried (.error .disconnected)) :
    ¬ 0 < s.cb.senders := by
  obtain ⟨-, -, ws, a, hp, rfl⟩ := usable_of_step hstep
  obtain rfl : a = .tried (.error .disconnected) := he
  intro hpos
  cases r with
  | call op =>
      cases op with
      | tryRecv rx =>
          simp only [perform, ControlBlock.tryRecv, hpos, decide_true, Option.some.injEq,
            Prod.mk.injEq, Answer.tried.injEq] at hp
          cases hpop : s.cb.buffer.pop.1 <;> simp [hpop, tryRecvAnswer] at hp
      | send | cloneSender | dropSender | cloneReceiver => cases hp
      | recv rx =>
          simp only [perform] at hp
          split at hp <;> cases hp
      | pollNext | dropReceiver => simp [perform] at hp
  | leakSender | leakReceiver | pollClose => cases hp
  | pollReady | startSend | pollFlush => simp [perform] at hp

end Disconnected

/-- While fewer than `2 ^ w` senders, and fewer than `2 ^ w` receivers, have
not been dropped, the counter of the senders is zero only when every sender has
been dropped; `try_recv` reports no disconnection while a sender is usable; and
the block is not freed while an endpoint is. -/
theorem counters_hold (hw : 0 < w) {lay : Layout} {n : Nat} {h : 0 < n}
    {tr : Trace (Session (BitVec w) T) (Reply K T)} {s : Session (BitVec w) T}
    (hrun : Runs (Fits (· < 2 ^ w)) lay n h tr s) :
    (s.cb.senders = 0 → ∀ t ∈ s.txs, t.hold = .dropped) ∧
    (∀ u e, (u, e) ∈ tr → e.answer = .tried (.error .disconnected) →
      ∀ t ∈ u.txs, t.hold = .dropped) ∧
    (s.freed = true → ∀ e : Endpoint, s.usable e = false) := by
  have hf := counts_ofNat w
  have hzero : ∀ {tr : Trace (Session (BitVec w) T) (Reply K T)} {s : Session (BitVec w) T},
      Runs (Fits (· < 2 ^ w)) lay n h tr s → s.cb.senders = 0 → ∀ t ∈ s.txs, t.hold = .dropped := by
    intro tr s hrun hz
    refine dropped_of_heldSenders ?_
    rw [(wf_of_run hf hrun).counted.senders] at hz
    exact (eq_zero_iff hf (fitting_ofNat hw) (kept_of_run hf (fitting_ofNat hw) hrun).senders).mp hz
  refine ⟨hzero hrun, fun u e hmem he => ?_, fun hfreed e => ?_⟩
  · obtain ⟨tr₁, v, hrun₁, ⟨r, hstep⟩, -⟩ := hrun.of_mem hmem
    refine hzero hrun₁ ?_
    by_contra hne
    exact senders_of_disconnected hstep he ((BitVec.pos_iff_ne_zero _).mpr hne)
  · obtain ⟨hs, hr⟩ := (kept_of_run hf (fitting_ofNat hw) hrun).phased.freed.mp hfreed
    refine Bool.eq_false_iff.mpr fun hu => ?_
    cases e with
    | sender tx =>
        obtain ⟨t, ht, husable⟩ := sender_of_usable hu
        rw [dropped_of_heldSenders hs t (List.mem_of_getElem? ht)] at husable
        cases husable
    | receiver rx => cases dropped_of_heldReceivers hr (receiver_of_usable hu)

/-- Both endpoints are cloned, and every endpoint is dropped. -/
def cloneAndLeave : List (Request Unit Nat) :=
  [.call (.cloneSender 0), .call (.cloneReceiver 0 0), .call (.dropSender 0), .call (.dropSender 1),
    .call (.tryRecv 1), .call (.dropReceiver 0), .call (.dropReceiver 1)]

/-- The sender is cloned, the clone is leaked, and the sender itself dropped. -/
def cloneAndLeak : List (Request Unit Nat) :=
  [.call (.cloneSender 0), .leakSender 1, .call (.dropSender 0), .call (.tryRecv 0)]

/-- The block goes with the last endpoint, and stays for one that is leaked. -/
theorem counters_hold_in_cloneAndLeak :
    let left := schedule (N := BitVec 32) (Fits (· < 2 ^ 32)) ⟨true, true⟩ 1 Nat.one_pos
      cloneAndLeave
    let kept := schedule (N := BitVec 32) (Fits (· < 2 ^ 32)) ⟨true, true⟩ 1 Nat.one_pos
      cloneAndLeak
    (left.2.freed = true ∧ ∀ e : Endpoint, left.2.usable e = false) ∧
      kept.2.txs.map RingSender.hold = [.dropped, .leaked] ∧ kept.2.cb.senders ≠ 0 ∧
      (∀ u e, (u, e) ∈ kept.1 → e.answer ≠ .tried (.error .disconnected)) ∧
      kept.2.freed = false := by
  intro left kept
  obtain ⟨-, -, hfreed⟩ :=
    counters_hold (by decide) (runs_schedule (N := BitVec 32) (Fits (· < 2 ^ 32)) ⟨true, true⟩ 1
      Nat.one_pos cloneAndLeave)
  obtain ⟨hzero, hdisc, hopen⟩ :=
    counters_hold (by decide) (runs_schedule (N := BitVec 32) (Fits (· < 2 ^ 32)) ⟨true, true⟩ 1
      Nat.one_pos cloneAndLeak)
  have hheld : ∀ p ∈ kept.1, ¬ ∀ t ∈ p.1.txs, t.hold = .dropped := by decide
  refine ⟨⟨by decide, hfreed (by decide)⟩, by decide, fun hz => ?_, fun u e hmem he => ?_, ?_⟩
  · exact absurd (hzero hz) (by decide)
  · exact hheld (u, e) hmem (hdisc u e hmem he)
  · refine Bool.eq_false_iff.mpr fun hf => ?_
    exact absurd (hopen hf (.receiver 0)) (by decide)

/-! ## At the limit -/

/-- Clone the sender `0` and leak the clone, `j` times over. -/
def leaks : Nat → List (Request K T)
  | 0 => []
  | j + 1 => leaks j ++ [.call (.cloneSender 0), .leakSender (j + 1)]

theorem modify_concat {α : Type} (f : α → α) (a : α) : ∀ l : List α,
    (l ++ [a]).modify l.length f = l ++ [f a]
  | [] => rfl
  | b :: l => by
      rw [List.cons_append, List.length_cons, List.modify_succ_cons, modify_concat f a l]
      rfl

/-- The sender `0` is cloned, and the clone is leaked. -/
theorem serve_cloneAndLeak {s : Session (BitVec w) T} (hopen : s.freed = false)
    (hu : s.usable (.sender 0) = true) :
    s.serve ([.call (.cloneSender 0), .leakSender s.txs.length] : List (Request K T)) =
      some ([⟨.call (.cloneSender 0), [], .done⟩, ⟨.leakSender s.txs.length, [], .done⟩],
        { s with
          cb := s.cb.cloneSender
          txs := s.txs ++ [⟨.leaked, false⟩]
          calls := s.calls + 1 }) := by
  simp only [serve, step, Request.endpoint, hopen, hu, Bool.not_false, Bool.and_self, if_true,
    perform, Option.map_some]
  simp [usable, modify, modify_concat]

/-- The sender `0` is cloned when the word is zero, and the clone is dropped:
its drop takes itself for the last one. -/
theorem serve_cloneAndDrop {s : Session (BitVec w) T} (hopen : s.freed = false)
    (hu : s.usable (.sender 0) = true) (hz : s.cb.senders = 0) :
    s.serve ([.call (.cloneSender 0), .call (.dropSender s.txs.length)] : List (Request K T)) =
      some ([⟨.call (.cloneSender 0), [], .done⟩,
          ⟨.call (.dropSender s.txs.length), s.cb.waitlist.popAll.1.map .inl, .done⟩],
        { s with
          cb := { s.cb with waitlist := s.cb.waitlist.popAll.2, connected := false }
          freed := !s.cb.connected
          txs := s.txs ++ [⟨.dropped, false⟩]
          calls := s.calls + 2 }) := by
  simp only [serve, step, Request.endpoint, hopen, hu, Bool.not_false, Bool.and_self, if_true,
    perform, Option.map_some]
  simp [usable, modify, modify_concat, ControlBlock.cloneSender, ControlBlock.dropSender, hz]

/-- A new sender makes no other unusable. -/
theorem usable_concat {N : Type} {s s' : Session N T} {tx : Nat} {t : RingSender}
    (hu : s.usable (.sender tx) = true) (h : s'.txs = s.txs ++ [t]) :
    s'.usable (.sender tx) = true := by
  obtain ⟨t', ht', hhold⟩ := sender_of_usable hu
  simp [usable, h, Ledger.getElem?_concat_old ht', hhold]

/-- When the word is zero, two clones that are dropped again free the block. -/
theorem serve_twice {s : Session (BitVec w) T} (hopen : s.freed = false)
    (hu : s.usable (.sender 0) = true) (hz : s.cb.senders = 0) (hconn : s.cb.connected = true) :
    ∃ (es : List (Reply K T)) (s' : Session (BitVec w) T),
      s.serve [.call (.cloneSender 0), .call (.dropSender s.txs.length), .call (.cloneSender 0),
        .call (.dropSender (s.txs.length + 1))] = some (es, s') ∧
      s'.freed = true ∧ s'.usable (.sender 0) = true ∧ s'.rxs = s.rxs := by
  have hfirst := serve_cloneAndDrop (K := K) hopen hu hz
  rw [hconn] at hfirst
  -- the first drop took the flag down, so the second frees
  have hsecond := serve_cloneAndDrop (K := K) (s := { s with
      cb := { s.cb with waitlist := s.cb.waitlist.popAll.2, connected := false }
      freed := false
      txs := s.txs ++ [⟨.dropped, false⟩]
      calls := s.calls + 2 }) rfl (usable_concat hu rfl) hz
  rw [List.length_append, List.length_singleton] at hsecond
  exact ⟨_, _, serve_append _ _ _ hfirst hsecond, rfl, usable_concat (usable_concat hu rfl) rfl,
    rfl⟩

/-- The session after `leaks j`: one usable sender, and `j` leaked ones. -/
def crowd (w : Nat) (j : Nat) : Session (BitVec w) Nat :=
  { (ringChannel ⟨true, true⟩ 1 Nat.one_pos : Session (BitVec w) Nat) with
    cb := { (ringChannel ⟨true, true⟩ 1 Nat.one_pos : Session (BitVec w) Nat).cb with
      senders := BitVec.ofNat w (j + 1) }
    txs := ⟨.usable, false⟩ :: List.replicate j ⟨.leaked, false⟩
    calls := j }

theorem serve_leaks (w : Nat) : ∀ j : Nat, ∃ es : List (Reply K Nat),
    (ringChannel ⟨true, true⟩ 1 Nat.one_pos : Session (BitVec w) Nat).serve (leaks j)
      = some (es, crowd w j)
  | 0 => ⟨[], rfl⟩
  | j + 1 => by
      obtain ⟨es, h⟩ := serve_leaks w j
      have hnext := serve_cloneAndLeak (K := K) (s := crowd w j) rfl rfl
      have hlen : (crowd w j).txs.length = j + 1 := by simp [crowd]
      have hcrowd : { crowd w j with
          cb := (crowd w j).cb.cloneSender
          txs := (crowd w j).txs ++ [⟨.leaked, false⟩]
          calls := (crowd w j).calls + 1 } = crowd w (j + 1) := by
        simp [crowd, ControlBlock.cloneSender, BitVec.ofNat_add, List.replicate_succ']
      rw [hlen, hcrowd] at hnext
      exact ⟨_, serve_append _ _ _ h hnext⟩

/-- With `2 ^ w - 1` leaked clones, and the original sender usable all along,
`try_recv` reports a disconnection; after two more clones, each dropped, the
block is freed while the original endpoints are both usable. -/
theorem outlived (w : Nat) : ∃ (es : List (Reply K Nat)) (u : Session (BitVec w) Nat)
    (e : Reply K Nat) (u' : Session (BitVec w) Nat) (es' : List (Reply K Nat))
    (s : Session (BitVec w) Nat),
    (ringChannel ⟨true, true⟩ 1 Nat.one_pos).serve (leaks (2 ^ w - 1)) = some (es, u) ∧
      u.usable (.sender 0) = true ∧ u.cb.senders = 0 ∧
    u.step (.call (.tryRecv 0)) = some (e, u') ∧ e.answer = .tried (.error .disconnected) ∧
    u'.serve [.call (.cloneSender 0), .call (.dropSender (2 ^ w)), .call (.cloneSender 0),
      .call (.dropSender (2 ^ w + 1))] = some (es', s) ∧
    s.freed = true ∧ s.usable (.sender 0) = true ∧ s.usable (.receiver 0) = true := by
  obtain ⟨es, hleaks⟩ := serve_leaks (K := K) w (2 ^ w - 1)
  have hpow : 2 ^ w - 1 + 1 = 2 ^ w := Nat.sub_add_cancel Nat.one_le_two_pow
  have hz : (crowd w (2 ^ w - 1)).cb.senders = 0 := by
    simp only [crowd, hpow]
    exact BitVec.eq_of_toNat_eq ((BitVec.toNat_ofNat _ _).trans (Nat.mod_self _))
  have hlen : (crowd w (2 ^ w - 1)).txs.length = 2 ^ w := by simp [crowd, hpow]
  have hrecv : (crowd w (2 ^ w - 1)).step (.call (.tryRecv 0) : Request K Nat) =
      some (⟨.call (.tryRecv 0), [], .tried (.error .disconnected)⟩,
        { crowd w (2 ^ w - 1) with
          cb := (crowd w (2 ^ w - 1)).cb.tryRecv.2
          calls := (crowd w (2 ^ w - 1)).calls + 1 }) := by
    have hopen : (crowd w (2 ^ w - 1)).freed = false := rfl
    have hu : (crowd w (2 ^ w - 1)).usable (.receiver 0) = true := rfl
    have hempty : (crowd w (2 ^ w - 1)).cb.buffer.pop.1 = none := rfl
    simp [step, Request.endpoint, perform, hopen, hu, ControlBlock.tryRecv, hz, hempty,
      tryRecvAnswer]
  obtain ⟨es', s, hserve, hfreed, hu, hrxs⟩ := serve_twice (K := K)
    (s := { crowd w (2 ^ w - 1) with
      cb := (crowd w (2 ^ w - 1)).cb.tryRecv.2
      calls := (crowd w (2 ^ w - 1)).calls + 1 }) rfl rfl hz rfl
  rw [hlen] at hserve
  refine ⟨es, _, _, _, es', s, hleaks, rfl, hz, hrecv, rfl, hserve, hfreed, hu, ?_⟩
  rw [usable, hrxs]
  rfl

/-- On a machine of 32 bits. -/
theorem counters_overflow : ∃ (es : List (Reply Unit Nat)) (u : Session (BitVec 32) Nat)
    (e : Reply Unit Nat) (u' : Session (BitVec 32) Nat) (es' : List (Reply Unit Nat))
    (s : Session (BitVec 32) Nat),
    (ringChannel ⟨true, true⟩ 1 Nat.one_pos).serve (leaks (2 ^ 32 - 1)) = some (es, u) ∧
      u.usable (.sender 0) = true ∧ u.cb.senders = 0 ∧
    u.step (.call (.tryRecv 0)) = some (e, u') ∧ e.answer = .tried (.error .disconnected) ∧
    u'.serve [.call (.cloneSender 0), .call (.dropSender (2 ^ 32)), .call (.cloneSender 0),
      .call (.dropSender (2 ^ 32 + 1))] = some (es', s) ∧
    s.freed = true ∧ s.usable (.sender 0) = true ∧ s.usable (.receiver 0) = true :=
  outlived 32

end Session

end RingChannel
