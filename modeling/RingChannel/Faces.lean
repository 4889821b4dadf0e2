/-
# `RingChannel.Faces` — `Sink` and `Stream` agree with `send` and `try_recv`

A task that drives messages through the sink polls until it is ready before it
hands over each of them, and flushes after the last (`drive`).  With nobody
else around this does to the buffer what `send` does, message by message, and
both are the abstract queue's `pushAll`.  The flag that `start_send` sets on
overwriting is consumed by the next poll, so there is one `Pending` for each
message that was overwritten, and the task has then been woken already.

Once the senders are gone, `try_recv`, `recv` and `poll_next` are one and the
same: each answers the oldest message there is, or reports the end.
-/
import RingChannel.Sessions

namespace RingChannel

variable {K T : Type}

def Reply.isPending (e : Reply K T) : Bool :=
  match e.answer with
  | .flushed .pending => true
  | _ => false

def Reply.isStartSend (e : Reply K T) : Bool :=
  match e.request with
  | .startSend _ _ => true
  | _ => false

namespace Request

/-- The three ways to receive. -/
def receives : Request K T → Bool
  | .call (.tryRecv _) | .call (.recv _) | .call (.pollNext _) => true
  | _ => false

/-- How they answer with a message, and how at the end. -/
def yields : Request K T → Option T → Answer T
  | .call (.tryRecv _), some m => .tried (.ok m)
  | .call (.tryRecv _), none => .tried (.error .disconnected)
  | .call (.recv _), r => .received (recvAnswer r)
  | .call (.pollNext _), r => .polled (.ready r)
  | _, _ => .done

end Request

namespace Session

/-! ## Driving the sink -/

/-- Make the request until the answer is not `Pending`, at most `fuel`
times. -/
def awaitReady (r : Request K T) : Nat → Session Nat T → Option (List (Reply K T) × Session Nat T)
  | 0, _ => none
  | fuel + 1, s =>
      match s.step r with
      | none => none
      | some (e, s') =>
          if e.isPending then (awaitReady r fuel s').map fun p => (e :: p.1, p.2)
          else some ([e], s')

/-- Drive the messages through the sink of the sender `tx`, with the waker
`ctx` of the driving task: what the task sees, and the session it leaves. -/
def drive (tx : Nat) (ctx : K) (fuel : Nat) :
    List T → Session Nat T → Option (List (Reply K T) × Session Nat T)
  | [], s => awaitReady (.pollFlush tx ctx) fuel s
  | m :: ms, s =>
      match awaitReady (.pollReady tx ctx) fuel s with
      | none => none
      | some (es, s₁) =>
          match s₁.step (.startSend tx m) with
          | none => none
          | some (e, s₂) =>
              match e.answer with
              | .started (.ok ()) =>
                  (drive tx ctx fuel ms s₂).map fun p => (es ++ e :: p.1, p.2)
              | _ => some (es ++ [e], s₂)

/-- The pending messages. -/
def pending (s : Session Nat T) : List T := s.cb.buffer.contents

def capacity (s : Session Nat T) : Nat := s.cb.buffer.capacity

/-! ## Sending -/

/-- Messages may have passed; the endpoints are as they were. -/
structure Alike (s s' : Session Nat T) : Prop where
  keeps : s.cb.Keeps s'.cb
  freed : s'.freed = s.freed
  holds : s'.holds = s.holds
  rxs : s'.rxs = s.rxs

theorem Alike.rfl {s : Session Nat T} : s.Alike s :=
  ⟨.rfl, Eq.refl _, Eq.refl _, Eq.refl _⟩

theorem Alike.capacity {s s' : Session Nat T} (h : s.Alike s') : s'.capacity = s.capacity :=
  h.keeps.capacity

theorem Alike.trans {s₁ s₂ s₃ : Session Nat T} (h : s₁.Alike s₂) (h' : s₂.Alike s₃) :
    s₁.Alike s₃ :=
  ⟨h.keeps.trans h'.keeps, h'.freed.trans h.freed, h'.holds.trans h.holds, h'.rxs.trans h.rxs⟩

/-- A send to a receiver is a push. -/
theorem send_push {cb : ControlBlock Nat T} (hpos : 0 < cb.receivers) (m : T) :
    (cb.send m).1 = .ok (OverQueue.push cb.buffer.capacity cb.buffer.contents m).1 ∧
      (cb.send m).2.2.buffer = (cb.buffer.push m).2 := by
  have hfst := cb.buffer.push_fst m
  unfold ControlBlock.send
  rw [if_pos hpos]
  split
  · rename_i b hpush
    rw [hpush] at hfst ⊢
    exact ⟨by rw [← hfst], rfl⟩
  · rename_i x b hpush
    rw [hpush] at hfst ⊢
    exact ⟨by rw [← hfst], rfl⟩

theorem usable_of_alike {s s' : Session Nat T} (h : s.Alike s') {e : Endpoint}
    (hu : s.usable e = true) : s'.usable e = true := by
  cases e with
  | sender tx =>
      have hget := holds_of_usable hu
      rw [← h.holds] at hget
      simpa [usable, holds] using hget
  | receiver rx =>
      rw [usable, h.rxs]
      exact hu

theorem step_send {s : Session Nat T} {tx : Nat} (hopen : s.freed = false)
    (hu : s.usable (.sender tx) = true) (hpos : 0 < s.cb.receivers) (m : T) :
    ∃ e s', s.step (.call (.send tx m) : Request K T) = some (e, s') ∧
      s'.pending = (OverQueue.push s.capacity s.pending m).2 ∧ s.Alike s' := by
  obtain ⟨-, hbuf⟩ := send_push hpos m
  refine ⟨_, _, step_of_perform hopen hu rfl, ?_, s.cb.send_keeps m, rfl, rfl, rfl⟩
  simp only [pending, capacity, hbuf, RingBuffer.contents_push]

/-- Sending message by message. -/
theorem serve_sends (tx : Nat) : ∀ (ms : List T) {s : Session Nat T}, s.freed = false →
    s.usable (.sender tx) = true → 0 < s.cb.receivers →
    ∃ es s', s.serve (ms.map fun m => (.call (.send tx m) : Request K T)) = some (es, s') ∧
      s'.pending = (OverQueue.pushAll s.capacity s.pending ms).2 ∧ s.Alike s'
  | [], s, _, _, _ => ⟨[], s, rfl, rfl, .rfl⟩
  | m :: ms, s, hopen, hu, hpos => by
      obtain ⟨e, s₁, hstep, hpend, halike⟩ := step_send (K := K) hopen hu hpos m
      obtain ⟨es, s', hserve, hrest, halike'⟩ := serve_sends tx ms (halike.freed.trans hopen)
        (usable_of_alike halike hu) (halike.keeps.receivers ▸ hpos)
      refine ⟨e :: es, s', ?_, ?_, halike.trans halike'⟩
      · simp only [List.map_cons, serve, hstep, hserve, Option.map_some]
      · rw [hrest, hpend, halike.capacity]
        rfl

/-! ## Polling the sink -/

/-- What the task sees while it polls: one `Pending`, with its waker invoked,
if the flag was set, and then that the sink is ready. -/
def polls (r : Request K T) (ctx : K) : Bool → List (Reply K T)
  | true => [⟨r, [.inr ctx], .flushed .pending⟩, ⟨r, [], .flushed (.ready (.ok ()))⟩]
  | false => [⟨r, [], .flushed (.ready (.ok ()))⟩]

theorem txs_modify {s : Session Nat T} {tx : Nat} {t : RingSender} (u : RingSender)
    (h : s.txs[tx]? = some t) : (s.modify tx fun _ => u).txs[tx]? = some u := by
  simp [modify, h]

theorem modify_modify (s : Session Nat T) (tx : Nat) (u v : RingSender) :
    ((s.modify tx fun _ => u).modify tx fun _ => v) = s.modify tx fun _ => v := by
  simp only [modify, List.modify_modify_eq]
  rfl

theorem usable_of_txs {s : Session Nat T} {tx : Nat} {b : Bool}
    (h : s.txs[tx]? = some ⟨.usable, b⟩) : s.usable (.sender tx) = true := by
  simp [usable, h]

theorem alike_modify {s : Session Nat T} {tx : Nat} {b : Bool} (b' : Bool)
    (h : s.txs[tx]? = some ⟨.usable, b⟩) : s.Alike (s.modify tx fun _ => ⟨.usable, b'⟩) :=
  ⟨.rfl, rfl, holds_modify_same h rfl, rfl⟩

/-- A poll of the sink takes the flag. -/
theorem step_poll {s : Session Nat T} {tx : Nat} {ctx : K} {b : Bool} {r : Request K T}
    (hr : r = .pollReady tx ctx ∨ r = .pollFlush tx ctx) (hopen : s.freed = false)
    (ht : s.txs[tx]? = some ⟨.usable, b⟩) :
    s.step r = some (⟨r, if b then [.inr ctx] else [],
        .flushed (if b then .pending else .ready (.ok ()))⟩,
      s.modify tx fun _ => ⟨.usable, false⟩) := by
  have hu := usable_of_txs ht
  rcases hr with rfl | rfl
  · refine step_of_perform hopen hu ?_
    cases b <;> simp [perform, ht, RingSender.pollReady, RingSender.pollFlush]
  · refine step_of_perform hopen hu ?_
    cases b <;> simp [perform, ht, RingSender.pollFlush]

/-- Two polls are enough, and more fuel changes nothing. -/
theorem awaitReady_eq {s : Session Nat T} {tx : Nat} {ctx : K} {b : Bool} {r : Request K T}
    (hr : r = .pollReady tx ctx ∨ r = .pollFlush tx ctx) (hopen : s.freed = false)
    (ht : s.txs[tx]? = some ⟨.usable, b⟩) (fuel : Nat) :
    awaitReady r (fuel + 2) s = some (polls r ctx b, s.modify tx fun _ => ⟨.usable, false⟩) := by
  have hfirst := step_poll hr hopen ht
  cases b with
  | false =>
      rw [awaitReady, hfirst]
      rfl
  | true =>
      have hagain := step_poll (s := s.modify tx fun _ => ⟨.usable, false⟩) hr hopen
        (txs_modify ⟨.usable, false⟩ ht)
      rw [modify_modify] at hagain
      rw [awaitReady, hfirst]
      simp only [Reply.isPending, if_true]
      rw [awaitReady, hagain]
      rfl

/-- A message handed to the sink is sent, and the flag says whether it
overwrote another. -/
theorem step_startSend {s : Session Nat T} {tx : Nat} {b : Bool} (hopen : s.freed = false)
    (ht : s.txs[tx]? = some ⟨.usable, b⟩) (hpos : 0 < s.cb.receivers) (m : T) :
    ∃ ws s', s.step (.startSend tx m : Request K T)
        = some (⟨.startSend tx m, ws, .started (.ok ())⟩, s') ∧
      s'.txs[tx]? = some ⟨.usable, (OverQueue.push s.capacity s.pending m).1.isSome⟩ ∧
      s'.pending = (OverQueue.push s.capacity s.pending m).2 ∧ s.Alike s' := by
  obtain ⟨hans, hbuf⟩ := send_push hpos m
  have hsend : ((⟨.usable, b⟩ : RingSender).startSend (s.cb.send m).1)
      = (.ok (), ⟨.usable, (OverQueue.push s.capacity s.pending m).1.isSome⟩) := by
    rw [hans]
    rfl
  have hperform : s.perform (.startSend tx m : Request K T)
      = some ((s.cb.send m).2.1.map .inl, .started (.ok ()),
        { s.modify tx fun _ =>
            ⟨.usable, (OverQueue.push s.capacity s.pending m).1.isSome⟩ with
          cb := (s.cb.send m).2.2
          calls := s.calls + 1 }) := by
    simp only [perform, ht, Option.map_some, hsend]
  refine ⟨_, _, step_of_perform hopen (usable_of_txs ht) hperform, txs_modify _ ht, ?_,
    s.cb.send_keeps m, rfl, holds_modify_same ht rfl, rfl⟩
  simp only [pending, capacity, hbuf, RingBuffer.contents_push]

/-! ## What the driving task sees -/

/-- No `Pending` comes without a `start_send` since the one before; `armed`
says that the next one may come. -/
def Spaced : Bool → List (Reply K T) → Prop
  | _, [] => True
  | armed, e :: es =>
      (e.isPending = true → armed = true) ∧
        Spaced (!e.isPending && (armed || e.isStartSend)) es

theorem Spaced.arm : ∀ {es : List (Reply K T)} {armed : Bool}, Spaced armed es → Spaced true es
  | [], _, _ => trivial
  | e :: es, armed, h => by
      obtain ⟨-, hrest⟩ := h
      refine ⟨fun _ => rfl, ?_⟩
      cases hp : e.isPending with
      | true =>
          rw [hp] at hrest
          exact hrest
      | false => exact hrest.arm

theorem Spaced.append_right : ∀ {l₁ l₂ : List (Reply K T)} {armed : Bool},
    Spaced armed (l₁ ++ l₂) → ∃ armed', Spaced armed' l₂
  | [], _, armed, h => ⟨armed, h⟩
  | _ :: _, _, _, h => h.2.append_right

theorem Spaced.start_before : ∀ {l₁ l₂ : List (Reply K T)} {a : Reply K T},
    Spaced false (l₁ ++ a :: l₂) → a.isPending = true → ∃ e ∈ l₁, e.isStartSend = true
  | [], _, _, h, ha => nomatch h.1 ha
  | e :: l₁, _, _, h, ha => by
      cases he : e.isStartSend with
      | true => exact ⟨e, List.mem_cons_self, he⟩
      | false =>
          obtain ⟨-, hrest⟩ := h
          rw [he, Bool.or_false, Bool.and_false] at hrest
          obtain ⟨e', hmem, he'⟩ := Spaced.start_before hrest ha
          exact ⟨e', List.mem_cons_of_mem e hmem, he'⟩

/-- Between two `Pending`s there is a `start_send`. -/
theorem Spaced.between {log l₁ l₂ l₃ : List (Reply K T)} {a a' : Reply K T} {armed : Bool}
    (h : Spaced armed log) (hlog : log = l₁ ++ a :: (l₂ ++ a' :: l₃)) (ha : a.isPending = true)
    (ha' : a'.isPending = true) : ∃ e ∈ l₂, e.isStartSend = true := by
  subst hlog
  obtain ⟨armed', -, hrest⟩ := h.append_right
  rw [ha, Bool.not_true, Bool.false_and] at hrest
  exact hrest.start_before ha'

/-- What a drive of `ms` that begins with the flag `b` shows and does. -/
structure Driven (ctx : K) (ms : List T) (b : Bool) (s s' : Session Nat T)
    (log : List (Reply K T)) : Prop where
  pending : s'.pending = (OverQueue.pushAll s.capacity s.pending ms).2
  count : log.countP Reply.isPending
    = b.toNat + (OverQueue.pushAll s.capacity s.pending ms).1.length
  spaced : Spaced b log
  woken : ∀ e ∈ log, e.isPending = true → .inr ctx ∈ e.woken
  alike : s.Alike s'

theorem polls_woken (r : Request K T) (ctx : K) (b : Bool) :
    ∀ e ∈ polls r ctx b, e.isPending = true → .inr ctx ∈ e.woken := by
  intro e he hp
  cases b with
  | true =>
      rcases List.mem_cons.mp he with rfl | he
      · exact List.mem_cons_self
      · rw [List.mem_singleton.mp he] at hp
        cases hp
  | false =>
      rw [List.mem_singleton.mp he] at hp
      cases hp

theorem polls_count (r : Request K T) (ctx : K) (b : Bool) :
    (polls r ctx b).countP Reply.isPending = b.toNat := by
  cases b <;> rfl

/-- After the polls a message is handed over, and so the next poll may be
`Pending`. -/
theorem spaced_polls (tx : Nat) (ctx : K) (b : Bool) {m : T} {ws : List (Waker ⊕ K)}
    {log : List (Reply K T)} (h : Spaced true log) :
    Spaced b
      (polls (.pollReady tx ctx) ctx b ++ ⟨.startSend tx m, ws, .started (.ok ())⟩ :: log) := by
  cases b with
  | true => exact ⟨fun _ => rfl, nofun, nofun, h⟩
  | false => exact ⟨nofun, nofun, h⟩

theorem driven_nil {s : Session Nat T} {tx : Nat} (ctx : K) {b : Bool}
    (ht : s.txs[tx]? = some ⟨.usable, b⟩) :
    Driven ctx [] b s (s.modify tx fun _ => ⟨.usable, false⟩)
      (polls (.pollFlush tx ctx) ctx b) where
  pending := rfl
  count := polls_count _ _ _
  spaced := by
    cases b with
    | true => exact ⟨fun _ => rfl, nofun, trivial⟩
    | false => exact ⟨nofun, trivial⟩
  woken := polls_woken _ _ _
  alike := alike_modify false ht

/-- One round, and then the rest. -/
theorem Driven.cons {ctx : K} (tx : Nat) {m : T} {ms : List T} {b : Bool}
    {s s₁ s' : Session Nat T} (ws : List (Waker ⊕ K)) {log : List (Reply K T)}
    (hpend : s₁.pending = (OverQueue.push s.capacity s.pending m).2) (halike : s.Alike s₁)
    (h : Driven ctx ms (OverQueue.push s.capacity s.pending m).1.isSome s₁ s' log) :
    Driven ctx (m :: ms) b s s'
      (polls (.pollReady tx ctx) ctx b ++ ⟨.startSend tx m, ws, .started (.ok ())⟩ :: log) where
  pending := by
    rw [h.pending, hpend, halike.capacity]
    rfl
  count := by
    have hcount := h.count
    rw [hpend, halike.capacity] at hcount
    simp only [List.countP_append, polls_count, List.countP_cons, hcount, Reply.isPending,
      OverQueue.pushAll, List.length_append]
    cases (OverQueue.push s.capacity s.pending m).1 <;> simp
  spaced := spaced_polls tx ctx b h.spaced.arm
  woken e he hp := by
    rcases List.mem_append.mp he with he | he
    · exact polls_woken _ _ _ e he hp
    · rcases List.mem_cons.mp he with rfl | he
      · cases hp
      · exact h.woken e he hp
  alike := halike.trans h.alike

theorem drive_driven (tx : Nat) (ctx : K) : ∀ (ms : List T) {s : Session Nat T} {b : Bool},
    s.freed = false → s.txs[tx]? = some ⟨.usable, b⟩ → 0 < s.cb.receivers →
    ∃ log s', (∀ fuel, drive tx ctx (fuel + 2) ms s = some (log, s')) ∧ Driven ctx ms b s s' log
  | [], s, b, hopen, ht, _ =>
      ⟨_, _, fun fuel => awaitReady_eq (.inr rfl) hopen ht fuel, driven_nil ctx ht⟩
  | m :: ms, s, b, hopen, ht, hpos => by
      have hready := awaitReady_eq (.inl rfl : _ ∨ _ = Request.pollFlush tx ctx) hopen ht
      have halike₁ := alike_modify false ht
      obtain ⟨ws, s₂, hstep, ht₂, hpend, halike₂⟩ := step_startSend (K := K)
        (s := s.modify tx fun _ => ⟨.usable, false⟩) hopen (txs_modify ⟨.usable, false⟩ ht) hpos m
      have halike := halike₁.trans halike₂
      obtain ⟨log, s', hdrive, hdriven⟩ := drive_driven tx ctx ms (halike.freed.trans hopen) ht₂
        (halike.keeps.receivers ▸ hpos)
      refine ⟨_, s', fun fuel => ?_, hdriven.cons tx ws hpend halike⟩
      rw [drive, hready]
      simp only [hstep, hdrive]
      rfl

/-! ## A drive is a session -/

theorem request_of_step {s s' : Session Nat T} {r : Request K T} {e : Reply K T}
    (h : s.step r = some (e, s')) : e.request = r := by
  obtain ⟨-, -, ws, a, -, rfl⟩ := usable_of_step h
  rfl

theorem serve_of_awaitReady {r : Request K T} : ∀ {fuel : Nat} {s s' : Session Nat T}
    {es : List (Reply K T)}, awaitReady r fuel s = some (es, s') →
    s.serve (es.map Reply.request) = some (es, s')
  | 0, _, _, _, h => nomatch h
  | fuel + 1, s, s', es, h => by
      simp only [awaitReady] at h
      split at h
      · cases h
      · rename_i e s₁ hstep
        have hreq := request_of_step hstep
        rw [← hreq] at hstep
        split at h
        · simp only [Option.map_eq_some_iff, Prod.mk.injEq] at h
          obtain ⟨⟨es₁, s₂⟩, hawait, rfl, rfl⟩ := h
          exact serve_cons_iff.mpr ⟨e, s₁, es₁, hstep, serve_of_awaitReady hawait, rfl⟩
        · cases h
          exact serve_cons_iff.mpr ⟨e, s', [], hstep, rfl, rfl⟩

theorem serve_of_drive {tx : Nat} {ctx : K} {fuel : Nat} : ∀ {ms : List T} {s s' : Session Nat T}
    {log : List (Reply K T)}, drive tx ctx fuel ms s = some (log, s') →
    s.serve (log.map Reply.request) = some (log, s')
  | [], _, _, _, h => serve_of_awaitReady h
  | m :: ms, s, s', log, h => by
      simp only [drive] at h
      split at h
      · cases h
      · rename_i es s₁ hawait
        have hpolls := serve_of_awaitReady hawait
        split at h
        · cases h
        · rename_i e s₂ hstep
          rw [← request_of_step hstep] at hstep
          split at h
          · simp only [Option.map_eq_some_iff, Prod.mk.injEq] at h
            obtain ⟨⟨log', s₃⟩, hdrive, rfl, rfl⟩ := h
            rw [List.map_append]
            exact serve_append _ _ _ hpolls
              (serve_cons_iff.mpr ⟨e, s₂, log', hstep, serve_of_drive hdrive, rfl⟩)
          · cases h
            rw [List.map_append]
            exact serve_append _ _ _ hpolls (serve_cons_iff.mpr ⟨e, s', [], hstep, rfl, rfl⟩)

theorem run_of_serve {lay : Layout} {n : Nat} {h : 0 < n} : ∀ {rs : List (Request K T)}
    {tr : Trace (Session Nat T) (Reply K T)} {s s' : Session Nat T} {es : List (Reply K T)},
    Runs Free lay n h tr s → s.serve rs = some (es, s') →
    ∃ tr' : Trace (Session Nat T) (Reply K T), Runs Free lay n h tr' s'
  | [], tr, _, _, _, hrun, hs => by
      cases hs
      exact ⟨tr, hrun⟩
  | r :: rs, _, _, _, _, hrun, hs => by
      obtain ⟨e, s₁, es', hstep, hserve, -⟩ := serve_cons_iff.mp hs
      exact run_of_serve (hrun.step ⟨r, hstep⟩ trivial) hserve

/-! ## Draining -/

/-- The senders are gone, and the block is not. -/
structure Closed (s : Session Nat T) : Prop where
  senders : s.cb.senders = 0
  freed : s.freed = false
  registered : Registered s

theorem tryRecv_closed {cb : ControlBlock Nat T} (hz : cb.senders = 0) :
    cb.tryRecv.1 = match cb.buffer.contents.head? with
      | some m => .ok m
      | none => .error .disconnected := by
  rw [← cb.buffer.pop_fst]
  unfold ControlBlock.tryRecv
  rw [hz]
  cases cb.buffer.pop.1 <;> rfl

theorem answer_registered (cb : ControlBlock Nat T) {k : Nat}
    (hk : (cb.waitlist.slot k).isSome = true) (r : Option T) :
    ∃ cb', cb.answer k r = some (.ready r, cb') ∧ cb'.buffer = cb.buffer := by
  simp only [Waitlist.slot, Option.isSome_map] at hk
  obtain ⟨a, ha⟩ := Option.isSome_iff_exists.mp hk
  refine ⟨{ cb with waitlist := cb.waitlist.put k a.take.2 }, ?_, rfl⟩
  simp only [ControlBlock.answer, Waitlist.remove, ha, Option.map_some]

/-- A poll looks once. -/
theorem poll_closed {cb : ControlBlock Nat T} {k : Nat} (hz : cb.senders = 0)
    (hk : (cb.waitlist.slot k).isSome = true) (w : Waker) :
    ∃ cb', cb.poll k w = some (.ready cb.buffer.contents.head?, cb') ∧
      cb'.buffer = cb.buffer.pop.2 := by
  have htry := tryRecv_closed hz
  cases hhead : cb.buffer.contents.head? with
  | some m =>
      rw [hhead] at htry
      have heq : cb.tryRecv = (.ok m, cb.tryRecv.2) := Prod.ext htry rfl
      obtain ⟨cb', hans, hbuf⟩ := answer_registered cb.tryRecv.2 hk (some m)
      exact ⟨cb', by rw [ControlBlock.poll, heq]; exact hans, hbuf⟩
  | none =>
      rw [hhead] at htry
      have heq : cb.tryRecv = (.error .disconnected, cb.tryRecv.2) := Prod.ext htry rfl
      obtain ⟨cb', hans, hbuf⟩ := answer_registered cb.tryRecv.2 hk none
      exact ⟨cb', by rw [ControlBlock.poll, heq]; exact hans, hbuf⟩

theorem Registered.isSome {s : Session Nat T} (hi : Registered s) {rx : Nat}
    (h : s.usable (.receiver rx) = true) : (s.cb.waitlist.slot rx).isSome = true := by
  rw [hi.slots rx, receiver_of_usable h]
  rfl

/-- Whichever way a message is received, it is the oldest, and the end is
reported when there is none. -/
theorem step_receive {s : Session Nat T} (hi : s.Closed) {r : Request K T}
    (hr : r.receives = true) (hu : s.usable r.endpoint = true) :
    ∃ ws s', s.step r = some (⟨r, ws, r.yields s.pending.head?⟩, s') ∧
      s'.pending = s.pending.tail ∧ s'.Closed := by
  have hclosed : ∀ {ws : List (Waker ⊕ K)} {a : Answer T} {s' : Session Nat T},
      s.step r = some (⟨r, ws, a⟩, s') → s.cb.Keeps s'.cb → s'.freed = s.freed → s'.Closed :=
    fun hstep hkeeps hfreed => ⟨hkeeps.senders.trans hi.senders, hfreed.trans hi.freed,
      registered_step (move_of_step hstep) hi.registered⟩
  cases r with
  | call op =>
      cases op with
      | tryRecv rx =>
          have hperform : s.perform (.call (.tryRecv rx) : Request K T)
              = some ([], Request.yields (K := K) (.call (.tryRecv rx)) s.pending.head?,
                { s with cb := s.cb.tryRecv.2, calls := s.calls + 1 }) := by
            simp only [perform, tryRecv_closed hi.senders, pending]
            cases s.cb.buffer.contents.head? <;> rfl
          have hstep := step_of_perform hi.freed hu hperform
          exact ⟨_, _, hstep, s.cb.buffer.contents_pop, hclosed hstep s.cb.tryRecv_keeps rfl⟩
      | pollNext rx =>
          obtain ⟨cb, hpoll, hbuf⟩ := poll_closed hi.senders (hi.registered.isSome hu) ⟨rx, s.calls⟩
          have hperform : s.perform (.call (.pollNext rx) : Request K T)
              = some ([], .polled (.ready s.pending.head?),
                { s with cb := cb, calls := s.calls + 1 }) := by
            simp only [perform, hpoll, Option.map_some, pending]
          have hstep := step_of_perform hi.freed hu hperform
          refine ⟨_, _, hstep, ?_, hclosed hstep (ControlBlock.poll_keeps hpoll) rfl⟩
          simp only [pending, hbuf, RingBuffer.contents_pop]
      | recv rx =>
          obtain ⟨cb, hpoll, hbuf⟩ := poll_closed hi.senders (hi.registered.isSome hu) ⟨rx, s.calls⟩
          have hperform : s.perform (.call (.recv rx) : Request K T)
              = some ([], .received (recvAnswer s.pending.head?),
                { s with cb := cb, calls := s.calls + 1 }) := by
            simp only [perform, hpoll, pending]
          have hstep := step_of_perform hi.freed hu hperform
          refine ⟨_, _, hstep, ?_, hclosed hstep (ControlBlock.poll_keeps hpoll) rfl⟩
          simp only [pending, hbuf, RingBuffer.contents_pop]
      | send | cloneSender | dropSender | cloneReceiver | dropReceiver => cases hr
  | leakSender | leakReceiver | pollReady | startSend | pollFlush | pollClose => cases hr

/-- Cloning a receiver takes no message. -/
theorem step_cloneReceiver {s s' : Session Nat T} {r : Request K T} {e : Reply K T}
    (hi : s.Closed) (hr : r.clonesReceiver = true) (hstep : s.step r = some (e, s')) :
    s'.pending = s.pending ∧ s'.Closed := by
  have hreg := registered_step (move_of_step hstep) hi.registered
  obtain ⟨-, -, ws, a, hp, -⟩ := usable_of_step hstep
  cases r with
  | call op =>
      cases op with
      | cloneReceiver rx pos =>
          cases hp
          exact ⟨rfl, hi.senders, hi.freed, hreg⟩
      | send | cloneSender | dropSender | tryRecv | pollNext | recv | dropReceiver => cases hr
  | leakSender | leakReceiver | pollReady | startSend | pollFlush | pollClose => cases hr

/-- The requests of a client that only receives, on any receiver it has or
clones. -/
def Request.drains (r : Request K T) : Bool := r.receives || r.clonesReceiver

/-- What `n` receives yield when the messages `q` are pending: the messages in
order, and the end from then on. -/
def yielded (q : List T) (n : Nat) : List (Option T) := q.map some ++ List.replicate n none

theorem serve_drains : ∀ {rs : List (Request K T)} {s s' : Session Nat T} {es : List (Reply K T)}
    {n : Nat}, s.Closed → (∀ r ∈ rs, Request.drains r = true) → rs.length ≤ n →
    s.serve rs = some (es, s') →
    (es.filter fun e => e.request.receives).map Reply.answer
        = List.zipWith Request.yields (rs.filter Request.receives) (yielded s.pending n) ∧
      s'.Closed
  | [], s, s', es, n, hi, _, _, hs => by
      cases hs
      exact ⟨rfl, hi⟩
  | r :: rs, s, s', es, n, hi, hall, hn, hs => by
      obtain ⟨n, rfl⟩ : ∃ k, n = k + 1 := ⟨n - 1, by simp only [List.length_cons] at hn; omega⟩
      obtain ⟨e, s₁, es', hstep, hserve, rfl⟩ := serve_cons_iff.mp hs
      have hall' : ∀ r ∈ rs, Request.drains r = true :=
        fun r hr => hall r (List.mem_cons_of_mem _ hr)
      have hlen : rs.length ≤ n := Nat.le_of_succ_le_succ hn
      obtain ⟨-, hu, -⟩ := usable_of_step hstep
      have hreq := request_of_step hstep
      cases hr : r.receives with
      | true =>
          obtain ⟨ws, s₁', hstep', hpend, hi₁⟩ := step_receive hi hr hu
          rw [hstep] at hstep'
          cases hstep'
          rw [List.filter_cons_of_pos (by simp [hr]), List.filter_cons_of_pos hr]
          cases hq : s.pending with
          | nil =>
              obtain ⟨hrest, hclosed⟩ := serve_drains hi₁ hall' hlen hserve
              rw [hpend, hq] at hrest
              exact ⟨congrArg (r.yields none :: ·) hrest, hclosed⟩
          | cons x q =>
              obtain ⟨hrest, hclosed⟩ := serve_drains hi₁ hall' (Nat.le_succ_of_le hlen) hserve
              rw [hpend, hq] at hrest
              exact ⟨congrArg (r.yields (some x) :: ·) hrest, hclosed⟩
      | false =>
          have hclone : r.clonesReceiver = true := by
            have := hall r List.mem_cons_self
            simpa [Request.drains, hr] using this
          obtain ⟨hpend, hi₁⟩ := step_cloneReceiver hi hclone hstep
          obtain ⟨hrest, hclosed⟩ := serve_drains hi₁ hall' (Nat.le_succ_of_le hlen) hserve
          rw [hpend] at hrest
          refine ⟨?_, hclosed⟩
          rw [List.filter_cons_of_neg (by simp [hreq, hr]), List.filter_cons_of_neg (by simp [hr])]
          exact hrest

/-! ## Both faces -/

theorem counts_id : Counts (fun n : Nat => n) := ⟨rfl, rfl, fun _ => rfl, fun _ => rfl⟩

theorem fitting_id : Fitting (fun n : Nat => n) (fun _ => True) :=
  ⟨trivial, fun _ _ _ _ => trivial, fun _ _ _ _ h => h⟩

theorem kept_of_free {lay : Layout} {n : Nat} {h : 0 < n} {tr : Trace (Session Nat T) (Reply K T)}
    {s : Session Nat T} (hrun : Runs Free lay n h tr s) : Kept (fun _ => True) s :=
  kept_of_run counts_id fitting_id
    (hrun.weaken fun _ _ _ _ => ⟨fun _ => trivial, fun _ => trivial⟩)

/-- While a receiver is held, the block is not freed. -/
theorem open_of_held {lay : Layout} {n : Nat} {h : 0 < n} {tr : Trace (Session Nat T) (Reply K T)}
    {s : Session Nat T} (hrun : Runs Free lay n h tr s) (hheld : 0 < s.heldReceivers) :
    s.freed = false := by
  refine Bool.eq_false_iff.mpr fun hfreed => ?_
  have hzero := ((kept_of_free hrun).phased.freed.mp hfreed).2
  exact absurd hheld (Nat.not_lt.mpr (Nat.le_of_eq hzero))

/-- While a receiver is held, a session whose senders are all dropped is
closed. -/
theorem closed_of_run {lay : Layout} {n : Nat} {h : 0 < n} {tr : Trace (Session Nat T) (Reply K T)}
    {s : Session Nat T} {rx : Nat} (hrun : Runs Free lay n h tr s) (hz : s.heldSenders = 0)
    (hrx : s.rxs.get rx = some .usable) : s.Closed := by
  have hw := wf_of_run counts_id hrun
  exact ⟨hw.counted.senders.trans hz, open_of_held hrun (held_of_receiver hrx), hw.registered⟩

theorem step_dropSender {s s' : Session Nat T} {tx : Nat} {e : Reply K T}
    (hstep : s.step (.call (.dropSender tx)) = some (e, s')) :
    s'.pending = s.pending ∧ s'.rxs = s.rxs := by
  obtain ⟨-, -, ws, a, hp, -⟩ := usable_of_step hstep
  cases hp
  refine ⟨?_, rfl⟩
  simp only [pending, ControlBlock.dropSender]
  split <;> rfl

theorem serve_dropSenders : ∀ {txs : List Nat} {s s' : Session Nat T} {es : List (Reply K T)},
    s.serve (txs.map fun tx => (.call (.dropSender tx) : Request K T)) = some (es, s') →
    s'.pending = s.pending ∧ s'.rxs = s.rxs
  | [], _, _, _, hs => by
      cases hs
      exact ⟨rfl, rfl⟩
  | tx :: txs, s, s', es, hs => by
      obtain ⟨e, s₁, es', hstep, hserve, -⟩ := serve_cons_iff.mp hs
      obtain ⟨hpend, hrxs⟩ := step_dropSender hstep
      obtain ⟨hpend', hrxs'⟩ := serve_dropSenders hserve
      exact ⟨hpend'.trans hpend, hrxs'.trans hrxs⟩

/-- Once every sender has been dropped, receiving in any of the three ways, on
any receiver or clone, yields the messages `q` in order and then the end, and
there is always an answer. -/
def Drains (K : Type) (u : Session Nat T) (q : List T) : Prop :=
  ∀ (txs : List Nat) (es : List (Reply K T)) (gone : Session Nat T),
    u.serve (txs.map fun tx => .call (.dropSender tx)) = some (es, gone) →
    gone.heldSenders = 0 →
    ∀ (rs : List (Request K T)) (es' : List (Reply K T)) (s : Session Nat T),
      (∀ r ∈ rs, Request.drains r = true) → gone.serve rs = some (es', s) →
      (es'.filter fun e => e.request.receives).map Reply.answer
          = List.zipWith Request.yields (rs.filter Request.receives) (yielded q rs.length) ∧
        ∀ r : Request K T, r.receives = true → s.usable r.endpoint = true → (s.step r).isSome = true

theorem drains_of_run {lay : Layout} {n : Nat} {h : 0 < n} {tr : Trace (Session Nat T) (Reply K T)}
    {s : Session Nat T} {rx : Nat} (hrun : Runs Free lay n h tr s)
    (hrx : s.rxs.get rx = some .usable) : Drains K s s.pending := by
  intro txs es gone hdrops hz rs es' fin hall hserve
  obtain ⟨tr', hrun'⟩ := run_of_serve hrun hdrops
  obtain ⟨hpend, hrxs⟩ := serve_dropSenders hdrops
  obtain ⟨hans, hclosed⟩ := serve_drains (closed_of_run hrun' hz (hrxs ▸ hrx)) hall (Nat.le_refl _)
    hserve
  rw [hpend] at hans
  refine ⟨hans, fun r hr hu => ?_⟩
  obtain ⟨ws, s', hstep, -⟩ := step_receive hclosed hr hu
  rw [hstep]
  rfl

/-- Sending `ms` message by message and driving them through the sink leave the
same buffer, the end of `pending ++ ms`; the driving task sees one `Pending` for
each message overwritten, each after its waker was invoked and no two without a
`start_send` between them; and both channels drain alike. -/
theorem sink_and_stream_agree {lay : Layout} {n : Nat} {h : 0 < n}
    {tr : Trace (Session Nat T) (Reply K T)} {s : Session Nat T} (hrun : Runs Free lay n h tr s)
    {tx rx : Nat} (htx : s.txs[tx]? = some ⟨.usable, false⟩)
    (hrx : s.usable (.receiver rx) = true) (ms : List T) (ctx : K) :
    ∃ (sent : List (Reply K T)) (plain : Session Nat T) (log : List (Reply K T))
      (driven : Session Nat T),
      s.serve (ms.map fun m => .call (.send tx m)) = some (sent, plain) ∧
      (∀ fuel, 2 ≤ fuel → drive tx ctx fuel ms s = some (log, driven)) ∧
      plain.pending = (s.pending ++ ms).rtake (min (s.pending.length + ms.length) n) ∧
      driven.pending = plain.pending ∧
      log.countP Reply.isPending = s.pending.length + ms.length - n ∧
      (∀ l₁ a l₂ a' l₃, log = l₁ ++ a :: (l₂ ++ a' :: l₃) → a.isPending = true →
        a'.isPending = true → ∃ e ∈ l₂, e.isStartSend = true) ∧
      (∀ e ∈ log, e.isPending = true → .inr ctx ∈ e.woken) ∧
      Drains K plain plain.pending ∧ Drains K driven plain.pending := by
  have hcap : s.capacity = n := capacity_of_run hrun
  have hlen : s.pending.length ≤ n := hcap ▸ s.cb.buffer.length_contents_le
  have hget := receiver_of_usable hrx
  have hheld := held_of_receiver hget
  have hpos : 0 < s.cb.receivers := by
    rw [(wf_of_run counts_id hrun).counted.receivers]
    exact hheld
  have hopen := open_of_held hrun hheld
  obtain ⟨sent, plain, hserve, hplain, halike⟩ := serve_sends (K := K) tx ms hopen
    (usable_of_txs htx) hpos
  obtain ⟨log, driven, hdrive, hdriven⟩ := drive_driven tx ctx ms hopen htx hpos
  have hsame : driven.pending = plain.pending := hdriven.pending.trans hplain.symm
  obtain ⟨trp, hrunp⟩ := run_of_serve hrun hserve
  obtain ⟨trd, hrund⟩ := run_of_serve hrun (serve_of_drive (hdrive 0))
  rw [hcap] at hplain
  refine ⟨sent, plain, log, driven, hserve, ?_, ?_, hsame, ?_, ?_, hdriven.woken, ?_, ?_⟩
  · intro fuel hfuel
    obtain ⟨k, rfl⟩ := Nat.exists_eq_add_of_le' hfuel
    exact hdrive k
  · rw [hplain, OverQueue.pushAll_rtake h ms hlen]
  · rw [hdriven.count, hcap, OverQueue.pushAll_handed h ms hlen]
    simp
  · intro l₁ a l₂ a' l₃ hlog ha ha'
    exact hdriven.spaced.between hlog ha ha'
  · exact drains_of_run hrunp (halike.rxs ▸ hget)
  · rw [← hsame]
    exact drains_of_run hrund (hdriven.alike.rxs ▸ hget)

/-- A channel of capacity two with the message `9` pending. -/
def onePending : Session Nat Nat :=
  (schedule (K := Unit) Free ⟨true, true⟩ 2 Nat.two_pos [.call (.send 0 9)]).2

/-- Each way to receive, on the receiver and on a clone of it. -/
def mixedReceives : List (Request Unit Nat) :=
  [.call (.recv 0), .call (.cloneReceiver 0 0), .call (.pollNext 1), .call (.tryRecv 0),
    .call (.recv 1), .call (.pollNext 0)]

/-- Three messages through a sink of capacity two that holds one: two are
overwritten, and once the sender is gone the two that are left come out. -/
theorem sink_and_stream_agree_on_three :
    ∃ (log : List (Reply Unit Nat)) (driven : Session Nat Nat) (left : List (Reply Unit Nat))
      (gone : Session Nat Nat) (es : List (Reply Unit Nat)) (drained : Session Nat Nat),
      onePending.pending = [9] ∧ drive 0 () 2 [1, 2, 3] onePending = some (log, driven) ∧
        driven.pending = [2, 3] ∧ log.countP Reply.isPending = 2 ∧
        driven.serve [.call (.dropSender 0)] = some (left, gone) ∧
        gone.serve mixedReceives = some (es, drained) ∧
        (es.filter fun e => e.request.receives).map Reply.answer
          = [.received (.ok 2), .polled (.ready (some 3)), .tried (.error .disconnected),
            .received (.error .disconnected), .polled (.ready none)] := by
  have hrun := runs_schedule (N := Nat) (K := Unit) (T := Nat) Free ⟨true, true⟩ 2 Nat.two_pos
    [.call (.send 0 9)]
  have htx : onePending.txs[0]? = some ⟨.usable, false⟩ := rfl
  have hrx : onePending.usable (.receiver 0) = true := rfl
  obtain ⟨_, plain, log, driven, -, hdrive, hplain, hdriven, hcount, -, -, -, hdrains⟩ :=
    sink_and_stream_agree hrun htx hrx [1, 2, 3] ()
  have hpend : plain.pending = [2, 3] := hplain
  have hlog := hdrive 2 (Nat.le_refl 2)
  -- the drop of the sender and the receives that follow are served
  have hserved : ((drive 0 () 2 [1, 2, 3] onePending).bind fun p =>
      (p.2.serve [(.call (.dropSender 0) : Request Unit Nat)]).bind fun q =>
        if q.2.heldSenders = 0 then q.2.serve mixedReceives else none).isSome = true := by
    decide
  rw [onePending, hlog, Option.bind_some] at hserved
  obtain ⟨⟨es, drained⟩, hsome⟩ := Option.isSome_iff_exists.mp hserved
  obtain ⟨⟨left, gone⟩, hleft, hgone⟩ := Option.bind_eq_some_iff.mp hsome
  obtain ⟨hheld, hserve⟩ := Option.ite_none_right_eq_some.mp hgone
  have hanswers := (hdrains [0] left gone hleft hheld mixedReceives es drained (by decide) hserve).1
  rw [hpend] at hanswers
  exact ⟨log, driven, left, gone, es, drained, by decide, hlog, hdriven.trans hpend, hcount, hleft,
    hserve, hanswers⟩

end Session

end RingChannel
