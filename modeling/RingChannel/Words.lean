/-
# `RingChannel.Words` — below the limit, words count as numbers do

The counters of the channel are machine words, and the interleaved model counts
in `Nat`.  This module says what that costs: nothing, as long as the client
keeps fewer than `2 ^ w` endpoints of each kind from being dropped.  A method
asks three things of a counter: whether it is positive, whether it is one, and
the next or the previous value.  The word that is the number modulo `2 ^ w`
answers all of them right while the number is below the limit (`Reads`), so the
sessions on words are the sessions on numbers, reply for reply (`words_agree`).
-/
import RingChannel.Overflow
import RingChannel.Faces
import RingChannel.Lib.Simulation

namespace RingChannel

variable {N K T : Type}

/-! ## The same block on other counters -/

/-- The block with its counters in `N`. -/
def ControlBlock.word (f : Nat → N) (cb : ControlBlock Nat T) : ControlBlock N T where
  senders := f cb.senders
  receivers := f cb.receivers
  connected := cb.connected
  buffer := cb.buffer
  waitlist := cb.waitlist

/-- The session with its counters in `N`. -/
def Session.word (f : Nat → N) (s : Session Nat T) : Session N T where
  cb := s.cb.word f
  freed := s.freed
  txs := s.txs
  rxs := s.rxs
  calls := s.calls

/-- `f m` passes for `m` where a counter is compared. -/
structure Reads [OfNat N 0] [LT N] [OfNat N 1] (f : Nat → N) (m : Nat) : Prop where
  pos : 0 < f m ↔ 0 < m
  one : f m = 1 ↔ m = 1

theorem Session.Counts.prev [OfNat N 0] [OfNat N 1] [Add N] [Sub N] {f : Nat → N}
    (hf : Counts f) {m : Nat} (hm : 0 < m) : f m - 1 = f (m - 1) := by
  obtain ⟨k, rfl⟩ := Nat.exists_eq_succ_of_ne_zero (Nat.pos_iff_ne_zero.mp hm)
  exact hf.pred k

namespace ControlBlock

variable {f : Nat → N} {cb : ControlBlock Nat T}

theorem answer_word (k : Nat) (r : Option T) :
    (cb.word f).answer k r = (cb.answer k r).map fun p => (p.1, p.2.word f) := by
  simp only [answer, Option.map_map]
  rfl

section Load

variable [OfNat N 0] [LT N] [DecidableLT N] [OfNat N 1]

theorem send_word (h : Reads f cb.receivers) (m : T) :
    (cb.word f).send m = ((cb.send m).1, (cb.send m).2.1, (cb.send m).2.2.word f) := by
  unfold send
  by_cases hpos : 0 < cb.receivers
  · have hpos' : 0 < (cb.word f).receivers := h.pos.mpr hpos
    rw [if_pos hpos, if_pos hpos']
    simp only [word]
    split <;> rfl
  · have hpos' : ¬ 0 < (cb.word f).receivers := fun hw => hpos (h.pos.mp hw)
    rw [if_neg hpos, if_neg hpos']

theorem tryRecv_word (h : Reads f cb.senders) :
    (cb.word f).tryRecv = (cb.tryRecv.1, cb.tryRecv.2.word f) := by
  have hpos : decide (0 < (cb.word f).senders) = decide (0 < cb.senders) :=
    decide_eq_decide.mpr h.pos
  simp only [tryRecv, hpos]
  rfl

theorem poll_word (h : Reads f cb.senders) (k : Nat) (w : Waker) :
    (cb.word f).poll k w = (cb.poll k w).map fun p => (p.1, p.2.word f) := by
  unfold poll
  rw [tryRecv_word h]
  rcases hfirst : cb.tryRecv with ⟨(_ | _) | m, cb₁⟩
  · -- the waker is registered, and the buffer looked at once more
    have hcb₁ : Reads f cb₁.senders := by
      have hsame : cb.tryRecv.2.senders = cb.senders := rfl
      rw [hfirst] at hsame
      rwa [hsame]
    dsimp only
    have hinsert : (cb₁.word f).waitlist.insert k w = cb₁.waitlist.insert k w := rfl
    rw [hinsert]
    rcases cb₁.waitlist.insert k w with _ | ⟨old, wl⟩
    · rfl
    · have hsecond : Reads f ({ cb₁ with waitlist := wl } : ControlBlock Nat T).senders := hcb₁
      have hword := tryRecv_word hsecond
      dsimp only
      rw [show ({ cb₁.word f with waitlist := wl } : ControlBlock N T).tryRecv = _ from hword]
      rcases ({ cb₁ with waitlist := wl } : ControlBlock Nat T).tryRecv with ⟨(_ | _) | m, cb₂⟩
      · rfl
      · exact answer_word k none
      · exact answer_word k (some m)
  · exact answer_word k none
  · exact answer_word k (some m)

end Load

section Count

variable [OfNat N 0] [OfNat N 1] [Add N] [Sub N]

theorem cloneSender_word (hf : Session.Counts f) :
    (cb.word f).cloneSender = cb.cloneSender.word f := by
  simp only [cloneSender, word, hf.succ]

theorem cloneReceiver_word (hf : Session.Counts f) (pos : Nat) :
    (cb.word f).cloneReceiver pos =
      ((cb.cloneReceiver pos).1, (cb.cloneReceiver pos).2.word f) := by
  simp only [cloneReceiver, word, hf.succ]

variable [LT N] [DecidableEq N]

theorem dropSender_word (hf : Session.Counts f) (h : Reads f cb.senders) (hpos : 0 < cb.senders) :
    (cb.word f).dropSender =
      (cb.dropSender.1, cb.dropSender.2.1, cb.dropSender.2.2.word f) := by
  have hprev := hf.prev hpos
  unfold dropSender
  by_cases hone : cb.senders = 1
  · have hone' : (cb.word f).senders = 1 := h.one.mpr hone
    rw [if_pos hone, if_pos hone']
    simp only [word, hprev]
  · have hone' : ¬ (cb.word f).senders = 1 := fun hw => hone (h.one.mp hw)
    rw [if_neg hone, if_neg hone']
    simp only [word, hprev]

theorem dropReceiver_word (hf : Session.Counts f) (h : Reads f cb.receivers)
    (hpos : 0 < cb.receivers) (k : Nat) :
    (cb.word f).dropReceiver k =
      (cb.dropReceiver k).map fun p => (p.1, p.2.1, p.2.2.word f) := by
  have hprev := hf.prev hpos
  simp only [dropReceiver, Option.map_map]
  refine congrArg (fun g => Option.map g _) (funext fun p => ?_)
  by_cases hone : cb.receivers = 1
  · have hone' : (cb.word f).receivers = 1 := h.one.mpr hone
    simp only [Function.comp_apply, if_pos hone, if_pos hone']
    simp only [word, hprev]
  · have hone' : ¬ (cb.word f).receivers = 1 := fun hw => hone (h.one.mp hw)
    simp only [Function.comp_apply, if_neg hone, if_neg hone']
    simp only [word, hprev]

end Count

end ControlBlock

namespace Session

variable {f : Nat → N} {s : Session Nat T}

section Step

variable [OfNat N 0] [LT N] [DecidableLT N] [OfNat N 1] [Add N] [Sub N] [DecidableEq N]

/-- A usable endpoint makes the same of words as of numbers. -/
theorem perform_word (hf : Counts f) (hs : Reads f s.cb.senders) (hr : Reads f s.cb.receivers)
    (hw : Wf (fun n : Nat => n) s) {r : Request K T} (hu : s.usable r.endpoint = true) :
    (s.word f).perform r = (s.perform r).map fun p => (p.1, p.2.1, p.2.2.word f) := by
  have hsenders : ∀ tx : Nat, s.usable (.sender tx) = true → 0 < s.cb.senders := by
    intro tx htx
    rw [hw.counted.senders]
    exact held_of_sender (holds_of_usable htx)
  have hreceivers : ∀ rx : Nat, s.usable (.receiver rx) = true → 0 < s.cb.receivers := by
    intro rx hrx
    rw [hw.counted.receivers]
    exact held_of_receiver (receiver_of_usable hrx)
  have hsend := fun m => ControlBlock.send_word (N := N) hr m
  have hcb : (s.word f).cb = s.cb.word f := rfl
  cases r with
  | call op =>
      cases op with
      | send tx m =>
          simp only [perform, hcb, hsend, Option.map_some]
          rfl
      | tryRecv rx =>
          simp only [perform, hcb, ControlBlock.tryRecv_word hs, Option.map_some]
          rfl
      | recv rx =>
          have hpoll : (s.word f).cb.poll rx ⟨rx, (s.word f).calls⟩ = _ :=
            ControlBlock.poll_word hs rx ⟨rx, s.calls⟩
          simp only [perform, hpoll]
          rcases s.cb.poll rx ⟨rx, s.calls⟩ with _ | ⟨_ | r, cb⟩ <;> rfl
      | pollNext rx =>
          have hpoll : (s.word f).cb.poll rx ⟨rx, (s.word f).calls⟩ = _ :=
            ControlBlock.poll_word hs rx ⟨rx, s.calls⟩
          simp only [perform, hpoll, Option.map_map]
          rfl
      | cloneSender tx =>
          simp only [perform, hcb, ControlBlock.cloneSender_word hf, Option.map_some]
          rfl
      | cloneReceiver rx pos =>
          simp only [perform, hcb, ControlBlock.cloneReceiver_word hf, Option.map_some]
          rfl
      | dropSender tx =>
          simp only [perform, hcb, ControlBlock.dropSender_word hf hs (hsenders tx hu),
            Option.map_some]
          rfl
      | dropReceiver rx =>
          simp only [perform, hcb, ControlBlock.dropReceiver_word hf hr (hreceivers rx hu),
            Option.map_map]
          rfl
  | leakSender | leakReceiver | pollClose => rfl
  | pollReady tx ctx | pollFlush tx ctx =>
      simp only [perform, Option.map_map]
      rfl
  | startSend tx m =>
      simp only [perform, hcb, hsend, Option.map_map]
      rfl

theorem step_word (hf : Counts f) (hs : Reads f s.cb.senders) (hr : Reads f s.cb.receivers)
    (hw : Wf (fun n : Nat => n) s) (r : Request K T) :
    (s.word f).step r = (s.step r).map fun p => (p.1, p.2.word f) := by
  unfold step
  by_cases hu : (!s.freed && s.usable r.endpoint) = true
  · have hu' : (!(s.word f).freed && (s.word f).usable r.endpoint) = true := hu
    rw [if_pos hu, if_pos hu', perform_word hf hs hr hw (Bool.and_eq_true_iff.mp hu).2,
      Option.map_map, Option.map_map]
    rfl
  · have hu' : ¬ (!(s.word f).freed && (s.word f).usable r.endpoint) = true := hu
    rw [if_neg hu, if_neg hu']
    rfl

end Step

/-! ## Below the limit -/

section Limit

variable {w : Nat} {lay : Layout} {n : Nat} {h : 0 < n}

theorem reads_ofNat (hw : 0 < w) {m : Nat} (hm : m < 2 ^ w) : Reads (BitVec.ofNat w) m where
  pos := by
    have hzero := not_congr (eq_zero_iff (counts_ofNat w) (fitting_ofNat hw) hm)
    exact (BitVec.pos_iff_ne_zero _).trans (hzero.trans Nat.pos_iff_ne_zero.symm)
  one := eq_one_iff (counts_ofNat w) (fitting_ofNat hw) hm

theorem fitting_lt (hw : 0 < w) : Fitting (fun n : Nat => n) (· < 2 ^ w) where
  one := (fitting_ofNat hw).one
  down := (fitting_ofNat hw).down
  inj _ _ _ _ h := h

/-- A session that stays below the limit does the same on words. -/
theorem next_word (hw : 0 < w) {tr : Trace (Session Nat T) (Reply K T)} {s : Session Nat T}
    (hrun : Runs (Fits (· < 2 ^ w)) lay n h tr s) (e : Reply K T) (u' : Session (BitVec w) T) :
    Next step (s.word (BitVec.ofNat w)) e u' ↔
      ∃ u, Next step s e u ∧ u.word (BitVec.ofNat w) = u' := by
  have hwf := wf_of_run counts_id hrun
  have hkept := kept_of_run counts_id (fitting_lt hw) hrun
  have hs : Reads (BitVec.ofNat w) s.cb.senders := by
    rw [hwf.counted.senders]
    exact reads_ofNat hw hkept.senders
  have hr : Reads (BitVec.ofNat w) s.cb.receivers := by
    rw [hwf.counted.receivers]
    exact reads_ofNat hw hkept.receivers
  have hstep := step_word (K := K) (counts_ofNat w) hs hr hwf
  constructor
  · rintro ⟨r, hn⟩
    rw [hstep, Option.map_eq_some_iff] at hn
    obtain ⟨⟨e', u⟩, hn', heq⟩ := hn
    cases heq
    exact ⟨u, ⟨r, hn'⟩, rfl⟩
  · rintro ⟨u, ⟨r, hn⟩, rfl⟩
    refine ⟨r, ?_⟩
    rw [hstep, hn]
    rfl

/-- While the client keeps fewer than `2 ^ w` senders, and fewer than `2 ^ w`
receivers, from being dropped, the sessions on counters of `w` bits are the
sessions on numbers: the same replies, in the states whose counters are the
numbers. -/
theorem words_agree (hw : 0 < w) {tr : Trace (Session (BitVec w) T) (Reply K T)}
    {s : Session (BitVec w) T} :
    Runs (Fits (· < 2 ^ w)) lay n h tr s ↔
      ∃ (tr' : Trace (Session Nat T) (Reply K T)) (s' : Session Nat T),
        Runs (Fits (· < 2 ^ w)) lay n h tr' s' ∧
        tr'.map (Prod.map (word (BitVec.ofNat w)) id) = tr ∧ s'.word (BitVec.ofNat w) = s :=
  Run.image_iff (fun hrun => next_word hw hrun) fun _ _ _ => Iff.rfl

theorem words_agree_in_cloneAndLeave :
    ∃ (tr' : Trace (Session Nat Nat) (Reply Unit Nat)) (s' : Session Nat Nat),
      Runs (Fits (· < 2 ^ 32)) ⟨true, true⟩ 1 Nat.one_pos tr' s' ∧
      tr'.map (Prod.map (word (BitVec.ofNat 32)) id) =
        (schedule (Fits (· < 2 ^ 32)) ⟨true, true⟩ 1 Nat.one_pos cloneAndLeave).1 ∧
      s'.word (BitVec.ofNat 32) =
        (schedule (Fits (· < 2 ^ 32)) ⟨true, true⟩ 1 Nat.one_pos cloneAndLeave).2 :=
  (words_agree (by decide)).mp (runs_schedule ..)

end Limit

end Session

end RingChannel
