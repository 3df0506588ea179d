/-
  `BufferedWriter` (src/observer/net/buffered_writer.cpp), with a descriptor that is open.

  1. `script` says of each call of `::write` how many bytes it takes: at least one and at most what it is given, or
     none where it fails.  That it is called again after EINTR and EAGAIN is not seen.
  2. Seen from outside, the writer is a queue (`Queue`) whose front goes to the client when it is full or flushed.
  3. It is one as long as no `go_back` takes more bytes than stand in front of the write position (`Meets`).
  4. In any state, the bytes that are sent and those that are buffered are together no fewer than have been
     written (`load`).
-/
import Miniob.Net.RingBuffer

namespace Miniob.Net.Buffered

structure Writer where
  ring : RingBuffer
  /-- What the client has got. -/
  sent : List UInt8
  /-- The calls of `::write` so far. -/
  calls : Nat

namespace Writer

/-- The constructor. -/
def new (size : Nat) : Writer := ⟨.new size, [], 0⟩

variable (script : Nat → Option Nat)

/-- The loop of `flush_internal`; `left` is what is still to be written. -/
def flushInternal (w : Writer) (left : Nat) : Except Fault (Writer × Except RC Unit) :=
  if w.ring.size = 0 ∨ left = 0 then .ok (w, .ok ())
  else w.ring.contiguous.bind fun buf =>
    match script w.calls with
    | none => .ok ({ w with calls := w.calls + 1 }, .error .ioerrWrite)
    | some n =>
      let size := min (n + 1) buf.length
      -- `::write` is called again as long as nothing has been written
      if _hsize : size = 0 then .error .outOfFuel
      else flushInternal
        { ring := (w.ring.forward size).1, sent := w.sent ++ buf.take size, calls := w.calls + 1 } (left - size)
termination_by left
decreasing_by omega

/-- `flush`. -/
def flush : Nat → Writer → Except Fault (Writer × Except RC Unit)
  | 0, w => if w.ring.size = 0 then .ok (w, .ok ()) else .error .outOfFuel
  | fuel + 1, w =>
    if w.ring.size = 0 then .ok (w, .ok ())
    else (w.flushInternal script w.ring.size).bind fun r =>
      match r.2 with
      | .error rc => .ok (r.1, .error rc)
      | .ok () => flush fuel r.1

/-- `buffer_.write`. -/
def ringWrite (w : Writer) (data : List UInt8) : Except Fault (Writer × Except RC (List UInt8)) :=
  (w.ring.write data).map fun r => ({ w with ring := r.1 }, .ok r.2)

/-- `write`; the result is what has not been written. -/
def write (w : Writer) (data : List UInt8) : Except Fault (Writer × Except RC (List UInt8)) :=
  if w.ring.remain = 0 then
    (w.flushInternal script data.length).bind fun r =>
      match r.2 with
      | .error rc => .ok (r.1, .error rc)
      | .ok () => r.1.ringWrite data
  else w.ringWrite data

/-- `writen`. -/
def writen : Nat → Writer → List UInt8 → Except Fault (Writer × Except RC Unit)
  | 0, w, data => if data = [] then .ok (w, .ok ()) else .error .outOfFuel
  | fuel + 1, w, data =>
    if data = [] then .ok (w, .ok ())
    else (w.write script data).bind fun r =>
      match r.2 with
      | .error rc => .ok (r.1, .error rc)
      | .ok rest => writen fuel r.1 rest

/-- `go_back`. -/
def goBack (w : Writer) (size : Int) : Writer × Except RC Unit :=
  if w.ring.remain = w.ring.capacity then (w, .error .variableNotValid)
  else ({ w with ring := (w.ring.goBack size).1 }, (w.ring.goBack size).2)

end Writer

/-! ## What a flush does -/

section Flush

variable {script : Nat → Option Nat} {w w' : Writer} {left : Nat}

/-- `m` bytes have gone from the front of the buffer to the client. -/
structure Moved (w w' : Writer) (m : Nat) : Prop where
  good : w'.ring.Good
  capacity : w'.ring.capacity = w.ring.capacity
  /-- Nothing was put in. -/
  writePos : w'.ring.writePos = w.ring.writePos
  /-- No more than there was. -/
  le : m ≤ w.ring.dataSize
  /-- The rest waits as before. -/
  unsent : w'.ring.contents = w.ring.contents.drop m
  /-- What has left is what was in front. -/
  sent : w'.sent = w.sent ++ w.ring.contents.take m

theorem Moved.refl (h : w.ring.Good) : Moved w w 0 :=
  ⟨h, rfl, rfl, Nat.zero_le _, by rw [List.drop_zero], by rw [List.take_zero, List.append_nil]⟩

theorem Moved.dataSize {m : Nat} (h : Moved w w' m) : w'.ring.dataSize = w.ring.dataSize - m := by
  rw [← RingBuffer.length_contents, h.unsent, List.length_drop, RingBuffer.length_contents]

/-- What has been sent in two parts. -/
theorem Moved.trans {w'' : Writer} {m n : Nat} (h : Moved w w' m) (h' : Moved w' w'' n) : Moved w w'' (m + n) where
  good := h'.good
  capacity := h'.capacity.trans h.capacity
  writePos := h'.writePos.trans h.writePos
  le := by
    have hsize := h.dataSize
    have hle := h.le
    have hle' := h'.le
    omega
  unsent := by rw [h'.unsent, h.unsent, List.drop_drop]
  sent := by rw [h'.sent, h.sent, h.unsent, List.append_assoc, ← List.take_add]

/-- A call of `::write` that takes some of the front. -/
theorem moved_forward {n m : Nat} (h : w.ring.Good) (hpos : 0 < m) (hle : m ≤ n) (hn : n ≤ w.ring.dataSize) :
    Moved w ⟨(w.ring.forward m).1, w.sent ++ (w.ring.contents.take n).take m, w.calls + 1⟩ m := by
  obtain ⟨-, hgood, hcontents⟩ := RingBuffer.forward_good h (Int.natCast_pos.mpr hpos) (by omega)
  have hkeep : (w.ring.forward m).1.capacity = w.ring.capacity ∧
      (w.ring.forward m).1.writePos = w.ring.writePos := by
    unfold RingBuffer.forward
    split
    · exact ⟨rfl, rfl⟩
    · split <;> exact ⟨rfl, rfl⟩
  refine ⟨hgood, hkeep.1, hkeep.2, by omega, ?_, ?_⟩
  · rw [hcontents, Int.toNat_natCast]
  · dsimp only
    rw [List.take_take, Nat.min_eq_left hle]

/-- `flush_internal` moves what it should, unless a call fails. -/
theorem flushInternal_good (h : w.ring.Good)
    (hfits : w.ring.dataSize = 0 ∨ w.ring.writePos - 1 + w.ring.capacity < 2 ^ 31) (left : Nat) :
    ∃ w' rc m, w.flushInternal script left = .ok (w', rc) ∧ Moved w w' m ∧
      ((rc = .ok () ∧ min left w.ring.dataSize ≤ m) ∨ rc = .error .ioerrWrite ∧ ∃ i, script i = none) := by
  induction left using Nat.strong_induction_on generalizing w with
  | _ left ih =>
  rw [Writer.flushInternal]
  by_cases hend : w.ring.size = 0 ∨ left = 0
  · rw [if_pos hend]
    refine ⟨w, .ok (), 0, rfl, .refl h, Or.inl ⟨rfl, ?_⟩⟩
    rcases hend with hend | hend
    · rw [show w.ring.dataSize = 0 from hend, Nat.min_zero]
    · rw [hend, Nat.zero_min]
  · have hsize : w.ring.dataSize ≠ 0 := fun heq => hend (Or.inl heq)
    have hleft : left ≠ 0 := fun heq => hend (Or.inr heq)
    have hsum : w.ring.Fits := by
      unfold RingBuffer.Fits
      omega
    obtain ⟨n, hpos, hn, hbuf⟩ := RingBuffer.contiguous_good h hsum hsize
    have hlen : (w.ring.contents.take n).length = n := by
      rw [List.length_take, RingBuffer.length_contents, Nat.min_eq_left hn]
    rw [if_neg hend, hbuf]
    dsimp only [Except.bind]
    cases hcall : script w.calls with
    | none =>
      -- the call fails and moves nothing
      dsimp only
      exact ⟨_, _, 0, rfl, ⟨h, rfl, rfl, Nat.zero_le _, by rw [List.drop_zero], by
        rw [List.take_zero, List.append_nil]⟩, Or.inr ⟨rfl, w.calls, hcall⟩⟩
    | some k =>
      dsimp only
      rw [hlen, dif_neg (by omega)]
      -- the call takes some of the front, at least a byte, and the loop goes on with less
      generalize hm : min (k + 1) n = m
      have hmoved := @moved_forward w n m h (by omega) (by omega) hn
      obtain ⟨w', rc, m', hok, hmoved', hrc⟩ := ih (left - m) (by omega) hmoved.good (by
        rw [hmoved.writePos, hmoved.capacity]
        omega)
      refine ⟨w', rc, m + m', hok, hmoved.trans hmoved', ?_⟩
      rw [hmoved.dataSize] at hrc
      refine hrc.imp (fun hok => ⟨hok.1, ?_⟩) id
      have hle := hok.2
      omega

end Flush

/-! ## What a write does -/

section Write

variable {script : Nat → Option Nat} {w w' : Writer} {data : List UInt8}

/-- A write that has gone through, after `m` bytes have been sent to make room. -/
structure Written (w w' : Writer) (data : List UInt8) (m : Nat) : Prop where
  good : w'.ring.Good
  capacity : w'.ring.capacity = w.ring.capacity
  le : m ≤ w.ring.dataSize
  /-- Bytes are sent only if the ring is full. -/
  full : m = 0 ∨ w.ring.dataSize = w.ring.capacity
  /-- A full ring makes room for as much as is asked, or for all there is. -/
  room : w.ring.dataSize = w.ring.capacity → min data.length w.ring.dataSize ≤ m
  /-- Behind the rest comes as much of the data as there is room for. -/
  unsent : w'.ring.contents = w.ring.contents.drop m ++ data.take (w.ring.capacity - (w.ring.dataSize - m))
  sent : w'.sent = w.sent ++ w.ring.contents.take m
  writePos : w'.ring.writePos =
    (w.ring.writePos + (min data.length (w.ring.capacity - (w.ring.dataSize - m)) : Nat)) % w.ring.capacity

/-- The sums that a write computes are `int`s. -/
def WriteFits (s : RingBuffer) : Prop :=
  if s.dataSize = s.capacity then s.writePos + s.capacity < 2 ^ 31 else s.Fits

/-- The ring takes what fits, and says what is left. -/
theorem ringWrite_good {m : Nat} (hmoved : Moved w w' m) (hfull : m = 0 ∨ w.ring.dataSize = w.ring.capacity)
    (hroom : w.ring.dataSize = w.ring.capacity → min data.length w.ring.dataSize ≤ m) (hfits : w'.ring.Fits) :
    ∃ w'', w'.ringWrite data = .ok (w'', .ok (data.drop (w.ring.capacity - (w.ring.dataSize - m)))) ∧
      Written w w'' data m := by
  obtain ⟨s, hok, hgood, hcap, hcontents, hpos⟩ := RingBuffer.write_good hmoved.good hfits data
  rw [hmoved.dataSize, hmoved.capacity] at hok hcontents hpos
  refine ⟨{ w' with ring := s }, ?_, hgood, hcap.trans hmoved.capacity, hmoved.le, hfull, hroom, ?_, hmoved.sent, ?_⟩
  · unfold Writer.ringWrite
    rw [hok]
    rfl
  · show s.contents = _
    rw [hcontents, hmoved.unsent]
  · show s.writePos = _
    rw [hpos, hmoved.writePos]

/-- `write` makes room if the buffer is full, and puts the front of the data behind the queue. -/
theorem write_good (h : w.ring.Good) (hfits : WriteFits w.ring) (data : List UInt8) :
    (∃ w' m, w.write script data = .ok (w', .ok (data.drop (w.ring.capacity - (w.ring.dataSize - m)))) ∧
      Written w w' data m) ∨
    ∃ w' m, w.write script data = .ok (w', .error .ioerrWrite) ∧ Moved w w' m ∧
      w.ring.dataSize = w.ring.capacity ∧ ∃ i, script i = none := by
  unfold WriteFits at hfits
  have hle := h.size_le
  unfold Writer.write
  by_cases hfull : w.ring.remain = 0
  · have hfull' : w.ring.dataSize = w.ring.capacity := by
      unfold RingBuffer.remain at hfull
      omega
    rw [if_pos hfull'] at hfits
    rw [if_pos hfull]
    -- room is made first, and with it what is behind the write position may change
    obtain ⟨w', rc, m, hok, hmoved, hrc⟩ := @flushInternal_good script w h (Or.inr (by omega)) data.length
    rw [hok]
    rcases hrc with ⟨rfl, hm⟩ | ⟨rfl, hfail⟩
    · have hsum : w'.ring.Fits := by
        unfold RingBuffer.Fits
        rw [hmoved.writePos, hmoved.capacity]
        omega
      obtain ⟨w'', hwrite, hwritten⟩ := ringWrite_good hmoved (Or.inr hfull') (fun _ => hm) hsum
      exact Or.inl ⟨w'', m, hwrite, hwritten⟩
    · exact Or.inr ⟨w', m, rfl, hmoved, hfull', hfail⟩
  · have hfull' : w.ring.dataSize ≠ w.ring.capacity := by
      unfold RingBuffer.remain at hfull
      omega
    rw [if_neg hfull'] at hfits
    rw [if_neg hfull]
    obtain ⟨w'', hwrite, hwritten⟩ := ringWrite_good (Moved.refl h) (Or.inl rfl) (absurd · hfull') hfits
    exact Or.inl ⟨w'', 0, hwrite, hwritten⟩

/-- `flush` empties the buffer, unless a call fails. -/
theorem flush_good (h : w.ring.Good)
    (hfits : w.ring.dataSize = 0 ∨ w.ring.writePos - 1 + w.ring.capacity < 2 ^ 31) (fuel : Nat) :
    ∃ w' rc m, w.flush script (fuel + 1) = .ok (w', rc) ∧ Moved w w' m ∧
      ((rc = .ok () ∧ m = w.ring.dataSize) ∨ rc = .error .ioerrWrite ∧ ∃ i, script i = none) := by
  rw [Writer.flush]
  by_cases hempty : w.ring.size = 0
  · rw [if_pos hempty]
    exact ⟨w, .ok (), 0, rfl, .refl h, Or.inl ⟨rfl, hempty.symm⟩⟩
  · rw [if_neg hempty]
    obtain ⟨w', rc, m, hok, hmoved, hrc⟩ := @flushInternal_good script w h hfits w.ring.size
    rw [hok]
    rcases hrc with ⟨rfl, hm⟩ | ⟨rfl, hfail⟩
    · have hall : m = w.ring.dataSize := by
        have hle := hmoved.le
        unfold RingBuffer.size at hm
        omega
      have hdone : w'.ring.size = 0 := by
        show w'.ring.dataSize = 0
        rw [hmoved.dataSize, hall, Nat.sub_self]
      refine ⟨w', .ok (), m, ?_, hmoved, Or.inl ⟨rfl, hall⟩⟩
      show Writer.flush script fuel w' = _
      cases fuel <;> rw [Writer.flush, if_pos hdone]
    · exact ⟨w', _, m, rfl, hmoved, Or.inr ⟨rfl, hfail⟩⟩

end Write

/-! ## Runs -/

inductive Op where
  | write (data : List UInt8)
  | goBack (size : Int)
  /-- `RingBuffer::forward`. -/
  | forward (size : Int)
  | flush

/-- A queue of at most `capacity` bytes, whose front goes to the client. -/
structure Queue where
  capacity : Nat
  unsent : List UInt8
  sent : List UInt8

namespace Queue

/-- The first `m` bytes are sent. -/
def send (q : Queue) (m : Nat) : Queue := ⟨q.capacity, q.unsent.drop m, q.sent ++ q.unsent.take m⟩

/-- As much of the data as there is room for. -/
def push (q : Queue) (data : List UInt8) : Queue :=
  { q with unsent := q.unsent ++ data.take (q.capacity - q.unsent.length) }

/-- What an operation may do; a write gives the number of bytes that it has taken. -/
inductive Step (q : Queue) : Op → Except RC Nat → Queue → Prop
  | write {data : List UInt8} {m : Nat} : m ≤ q.unsent.length → (m = 0 ∨ q.unsent.length = q.capacity) →
      (q.unsent.length = q.capacity → min data.length q.unsent.length ≤ m) →
      Step q (.write data) (.ok (min data.length (q.capacity - (q.send m).unsent.length))) ((q.send m).push data)
  | writeFailed {data : List UInt8} {m : Nat} : m ≤ q.unsent.length → q.unsent.length = q.capacity →
      Step q (.write data) (.error .ioerrWrite) (q.send m)
  | goBack {n : Int} : 0 < n → n ≤ q.unsent.length →
      Step q (.goBack n) (.ok 0) { q with unsent := q.unsent.take (q.unsent.length - n.toNat) }
  | goBackRefused {n : Int} {rc : RC} : n ≤ 0 ∨ q.unsent.length < n → Step q (.goBack n) (.error rc) q
  | forward {n : Int} : 0 < n → n ≤ q.unsent.length →
      Step q (.forward n) (.ok 0) { q with unsent := q.unsent.drop n.toNat }
  | forwardRefused {n : Int} {rc : RC} : n ≤ 0 ∨ q.unsent.length < n → Step q (.forward n) (.error rc) q
  | flush : Step q .flush (.ok 0) (q.send q.unsent.length)
  | flushFailed {m : Nat} : m ≤ q.unsent.length → Step q .flush (.error .ioerrWrite) (q.send m)

inductive Run : Queue → List Op → List (Except RC Nat) → Queue → Prop
  | nil {q : Queue} : Run q [] [] q
  | cons {q q' q'' : Queue} {op : Op} {ops : List Op} {reply : Except RC Nat} {replies : List (Except RC Nat)} :
      Step q op reply q' → Run q' ops replies q'' → Run q (op :: ops) (reply :: replies) q''

end Queue

namespace Writer

/-- The writer as a queue. -/
def queue (w : Writer) : Queue := ⟨w.ring.capacity, w.ring.contents, w.sent⟩

/-- One operation, with fuel for the loop of `flush`. -/
def step (script : Nat → Option Nat) (fuel : Nat) (w : Writer) : Op → Except Fault (Writer × Except RC Nat)
  | .write data => (w.write script data).map fun r => (r.1, r.2.map fun rest => data.length - rest.length)
  | .goBack n => .ok ((w.goBack n).1, (w.goBack n).2.map fun _ => 0)
  | .forward n => .ok ({ w with ring := (w.ring.forward n).1 }, (w.ring.forward n).2.map fun _ => 0)
  | .flush => (w.flush script fuel).map fun r => (r.1, r.2.map fun _ => 0)

def run (script : Nat → Option Nat) (fuel : Nat) : Writer → List Op → Except Fault (Writer × List (Except RC Nat))
  | w, [] => .ok (w, [])
  | w, op :: ops => (w.step script fuel op).bind fun r => (run script fuel r.1 ops).map fun rs => (rs.1, r.2 :: rs.2)

/-- What the operation needs: no byte that is taken back stands behind the end of the memory, and the sums that
    it computes are `int`s. -/
def Meets (w : Writer) : Op → Prop
  | .write _ => WriteFits w.ring
  | .goBack n => 0 < n → n ≤ w.ring.dataSize → n ≤ w.ring.writePos
  | .forward _ => True
  | .flush => w.ring.dataSize = 0 ∨ w.ring.writePos - 1 + w.ring.capacity < 2 ^ 31

/-- Each operation of the run has what it needs. -/
def AllMeet (script : Nat → Option Nat) (fuel : Nat) : Writer → List Op → Prop
  | _, [] => True
  | w, op :: ops => w.Meets op ∧ ∀ w' reply, w.step script fuel op = .ok (w', reply) → AllMeet script fuel w' ops

end Writer

section Run

variable {script : Nat → Option Nat} {fuel : Nat} {w w' : Writer} {op : Op}

theorem queue_send {m : Nat} (h : Moved w w' m) : w'.queue = w.queue.send m := by
  unfold Writer.queue Queue.send
  rw [h.capacity, h.unsent, h.sent]

theorem queue_push {data : List UInt8} {m : Nat} (h : Written w w' data m) :
    w'.queue = (w.queue.send m).push data := by
  unfold Writer.queue Queue.send Queue.push
  dsimp only
  rw [h.capacity, h.unsent, h.sent, List.length_drop, RingBuffer.length_contents]

/-- `go_back` is refused where there is nothing to take back. -/
theorem writer_goBack_refused {n : Int} (h : n ≤ 0 ∨ w.ring.dataSize < n) :
    ∃ rc, w.goBack n = (w, .error rc) := by
  unfold Writer.goBack
  split
  · exact ⟨_, rfl⟩
  · rw [RingBuffer.goBack_refused h]
    exact ⟨_, rfl⟩

theorem length_queue : w.queue.unsent.length = w.ring.dataSize := RingBuffer.length_contents w.ring

/-- The ring stays as it should, and the queue makes a step with the reply. -/
def StepsAs (w : Writer) (op : Op) (out : Writer × Except RC Nat) : Prop :=
  out.1.ring.Good ∧ w.queue.Step op out.2 out.1.queue

/-- A write queues all bytes, and sends what has no room. -/
theorem step_write (h : w.ring.Good) (hfits : WriteFits w.ring) (data : List UInt8) :
    ∃ out, w.step script fuel (.write data) = .ok out ∧ StepsAs w (.write data) out := by
  rcases @write_good script w h hfits data with ⟨w', m, hok, hwritten⟩ | ⟨w', m, hok, hmoved, hfull, -⟩
  · refine ⟨_, by rw [Writer.step, hok]; rfl, hwritten.good, ?_⟩
    -- the reply counts what there was room for
    have htaken : data.length - (data.drop (w.ring.capacity - (w.ring.dataSize - m))).length =
        min data.length (w.ring.capacity - (w.ring.dataSize - m)) := by
      rw [List.length_drop]
      omega
    have hsent : (w.queue.send m).unsent.length = w.ring.dataSize - m := by
      show (w.ring.contents.drop m).length = _
      rw [List.length_drop, RingBuffer.length_contents]
    have hstep := @Queue.Step.write w.queue data m (length_queue ▸ hwritten.le) (length_queue ▸ hwritten.full)
      (length_queue ▸ hwritten.room)
    rw [hsent] at hstep
    show w.queue.Step (.write data) (.ok _) w'.queue
    dsimp only
    rw [htaken, queue_push hwritten]
    exact hstep
  · refine ⟨_, by rw [Writer.step, hok]; rfl, hmoved.good, ?_⟩
    show w.queue.Step (.write data) _ w'.queue
    rw [queue_send hmoved]
    exact .writeFailed (length_queue ▸ hmoved.le) (length_queue ▸ hfull)

theorem ring_goBack_capacity (n : Int) : (w.ring.goBack n).1.capacity = w.ring.capacity := by
  rw [RingBuffer.goBack]
  split
  · rfl
  · split <;> rfl

theorem ring_forward_capacity (n : Int) : (w.ring.forward n).1.capacity = w.ring.capacity := by
  rw [RingBuffer.forward]
  split
  · rfl
  · split <;> rfl

/-- Going back takes the last bytes out again, if they have not been sent. -/
theorem step_goBack (h : w.ring.Good) {n : Int} (hmeets : w.Meets (.goBack n)) :
    ∃ out, w.step script fuel (.goBack n) = .ok out ∧ StepsAs w (.goBack n) out := by
  refine ⟨_, rfl, ?_⟩
  by_cases hn : 0 < n ∧ n ≤ w.ring.dataSize
  · obtain ⟨hok, hgood, hcontents⟩ := RingBuffer.goBack_good h hn.1 hn.2 (hmeets hn.1 hn.2)
    have hsome : w.ring.remain ≠ w.ring.capacity := by
      have hle := h.size_le
      rw [RingBuffer.remain]
      omega
    have hgo : w.goBack n = ({ w with ring := (w.ring.goBack n).1 }, .ok ()) := by
      rw [Writer.goBack, if_neg hsome, hok]
    have hqueue : Writer.queue { w with ring := (w.ring.goBack n).1 } =
        { w.queue with unsent := w.queue.unsent.take (w.queue.unsent.length - n.toNat) } := by
      rw [length_queue, Writer.queue, ring_goBack_capacity, hcontents]
      rfl
    rw [hgo]
    refine ⟨hgood, ?_⟩
    show w.queue.Step _ _ (Writer.queue { w with ring := (w.ring.goBack n).1 })
    rw [hqueue]
    exact .goBack hn.1 (by rw [length_queue]; exact hn.2)
  · obtain ⟨rc, hgo⟩ := @writer_goBack_refused w n (by omega)
    rw [hgo]
    exact ⟨h, .goBackRefused (by rw [length_queue]; omega)⟩

/-- Going forward answers, and never faults. -/
theorem step_forward (h : w.ring.Good) (n : Int) :
    ∃ out, w.step script fuel (.forward n) = .ok out ∧ StepsAs w (.forward n) out := by
  refine ⟨_, rfl, ?_⟩
  by_cases hn : 0 < n ∧ n ≤ w.ring.dataSize
  · obtain ⟨hok, hgood, hcontents⟩ := RingBuffer.forward_good h hn.1 hn.2
    have hqueue : Writer.queue { w with ring := (w.ring.forward n).1 } =
        { w.queue with unsent := w.queue.unsent.drop n.toNat } := by
      rw [Writer.queue, ring_forward_capacity, hcontents]
      rfl
    rw [hok]
    refine ⟨hgood, ?_⟩
    show w.queue.Step _ _ (Writer.queue { w with ring := (w.ring.forward n).1 })
    rw [hqueue]
    exact .forward hn.1 (by rw [length_queue]; exact hn.2)
  · rw [RingBuffer.forward_refused (by omega)]
    exact ⟨h, .forwardRefused (by rw [length_queue]; omega)⟩

/-- A flush sends what is queued. -/
theorem step_flush (h : w.ring.Good) (hmeets : w.Meets .flush) :
    ∃ out, w.step script (fuel + 1) .flush = .ok out ∧ StepsAs w .flush out := by
  obtain ⟨w', rc, m, hok, hmoved, hrc⟩ := @flush_good script w h hmeets fuel
  refine ⟨_, by rw [Writer.step, hok]; rfl, hmoved.good, ?_⟩
  show w.queue.Step .flush _ w'.queue
  rw [queue_send hmoved]
  rcases hrc with ⟨rfl, rfl⟩ | ⟨rfl, -⟩
  · -- all of it was sent
    have hstep := @Queue.Step.flush w.queue
    rw [length_queue] at hstep
    exact hstep
  · exact .flushFailed (length_queue ▸ hmoved.le)

/-- One operation does to the queue what it should. -/
theorem step_good (h : w.ring.Good) (hmeets : w.Meets op) :
    ∃ w' reply, w.step script (fuel + 1) op = .ok (w', reply) ∧ w'.ring.Good ∧ w.queue.Step op reply w'.queue := by
  have hstep : ∃ out, w.step script (fuel + 1) op = .ok out ∧ StepsAs w op out := by
    cases op with
    | write data => exact step_write h hmeets data
    | goBack n => exact step_goBack h hmeets
    | forward n => exact step_forward h n
    | flush => exact step_flush h hmeets
  obtain ⟨⟨w', reply⟩, hok, hgood, hqueue⟩ := hstep
  exact ⟨w', reply, hok, hgood, hqueue⟩

/-- A run whose operations all have what they need is a run of the queue, and the write position stays inside the
    buffer. -/
theorem run_good (h : w.ring.Good) (ops : List Op) (hmeet : w.AllMeet script (fuel + 1) ops) :
    ∃ w' replies, w.run script (fuel + 1) ops = .ok (w', replies) ∧ w'.ring.Good ∧
      Queue.Run w.queue ops replies w'.queue := by
  induction ops generalizing w with
  | nil => exact ⟨w, [], rfl, h, .nil⟩
  | cons op ops ih =>
    obtain ⟨w', reply, hok, hgood, hstep⟩ := @step_good script fuel w op h hmeet.1
    obtain ⟨w'', replies, hok', hgood', hrun⟩ := ih hgood (hmeet.2 w' reply hok)
    refine ⟨w'', reply :: replies, ?_, hgood', .cons hstep hrun⟩
    rw [Writer.run, hok]
    show (Writer.run script (fuel + 1) w' ops).map _ = _
    rw [hok']
    rfl

end Run

/-! ## `writen` -/

section Writen

variable {script : Nat → Option Nat} {w w' : Writer} {data : List UInt8}

/-- `writen` in a connection that does not fail; while everything fits, nothing is sent. -/
structure Appended (w w' : Writer) (data : List UInt8) : Prop where
  good : w'.ring.Good
  capacity : w'.ring.capacity = w.ring.capacity
  /-- No byte is lost or sent twice, and the order is that of the calls. -/
  bytes : w'.sent ++ w'.ring.contents = w.sent ++ w.ring.contents ++ data
  room : w.ring.dataSize + data.length ≤ w.ring.capacity →
    w'.sent = w.sent ∧ w'.ring.writePos = (w.ring.writePos + data.length) % w.ring.capacity

/-- Nothing has been written yet. -/
theorem Appended.refl (h : w.ring.Good) : Appended w w [] where
  good := h
  capacity := rfl
  bytes := by rw [List.append_nil]
  room _ := by
    refine ⟨rfl, ?_⟩
    show w.ring.writePos = (w.ring.writePos + (0 : Nat)) % w.ring.capacity
    rw [Int.natCast_zero, Int.add_zero, Int.emod_eq_of_lt h.nonneg h.lt]

theorem Appended.dataSize (h : Appended w w' data) (hroom : w.ring.dataSize + data.length ≤ w.ring.capacity) :
    w'.ring.dataSize = w.ring.dataSize + data.length := by
  have hlen := congrArg List.length h.bytes
  rw [(h.room hroom).1] at hlen
  simp only [List.length_append, RingBuffer.length_contents] at hlen
  omega

/-- One write behind the other. -/
theorem Appended.trans {w'' : Writer} {data' : List UInt8} (h : Appended w w' data) (h' : Appended w' w'' data') :
    Appended w w'' (data ++ data') where
  good := h'.good
  capacity := h'.capacity.trans h.capacity
  bytes := by rw [h'.bytes, h.bytes, List.append_assoc _ data data']
  room hroom := by
    rw [List.length_append] at hroom ⊢
    have hroom' : w.ring.dataSize + data.length ≤ w.ring.capacity := by omega
    obtain ⟨hsent, hpos⟩ := h.room hroom'
    obtain ⟨hsent', hpos'⟩ := h'.room (by rw [h.dataSize hroom', h.capacity]; omega)
    refine ⟨hsent'.trans hsent, ?_⟩
    rw [hpos', hpos, h.capacity, Int.emod_add_emod, Int.natCast_add, Int.add_assoc]

/-- A write that has taken `n` bytes. -/
theorem Written.appended {m : Nat} (h : Written w w' data m) (hdata : 0 < data.length) :
    Appended w w' (data.take (w.ring.capacity - (w.ring.dataSize - m))) where
  good := h.good
  capacity := h.capacity
  bytes := by
    rw [h.sent, h.unsent, ← List.append_assoc, List.append_assoc w.sent, List.take_append_drop]
  room hroom := by
    rw [List.length_take] at hroom ⊢
    have hzero : m = 0 := by
      have hbound := h.le
      rcases h.full with hzero | hfull
      · exact hzero
      · omega
    refine ⟨?_, ?_⟩
    · rw [h.sent, hzero, List.take_zero, List.append_nil]
    · rw [h.writePos, Nat.min_comm]

/-- `writen` puts all of the data behind the queue, if the calls of `::write` go through. -/
theorem writen_good (hscript : ∀ i, script i ≠ none) {fuel : Nat} (h : w.ring.Good)
    (hcap : 2 * w.ring.capacity ≤ 2 ^ 31) (hfuel : data.length ≤ fuel) :
    ∃ w', w.writen script fuel data = .ok (w', .ok ()) ∧ Appended w w' data := by
  induction fuel generalizing w data with
  | zero =>
    obtain rfl := List.length_eq_zero_iff.mp (Nat.le_zero.mp hfuel)
    exact ⟨w, rfl, .refl h⟩
  | succ fuel ih =>
    rw [Writer.writen]
    by_cases hdata : data = []
    · subst hdata
      rw [if_pos rfl]
      exact ⟨w, rfl, .refl h⟩
    · have hpos : 0 < data.length := List.length_pos_iff.mpr hdata
      have hle := h.size_le
      have hlt := h.lt
      have hnonneg := h.nonneg
      have hfits : WriteFits w.ring := by
        unfold WriteFits RingBuffer.Fits
        split <;> omega
      rw [if_neg hdata]
      rcases @write_good script w h hfits data with ⟨w', m, hok, hwritten⟩ | ⟨_, _, _, _, _, i, hi⟩
      · -- at least one byte is taken
        have hbound := hwritten.le
        have hroom : 0 < w.ring.capacity - (w.ring.dataSize - m) := by
          by_cases hfull : w.ring.dataSize = w.ring.capacity
          · have hsome := hwritten.room hfull
            omega
          · omega
        obtain ⟨w'', hok', happ⟩ := @ih w' (data.drop (w.ring.capacity - (w.ring.dataSize - m))) hwritten.good
          (by rw [hwritten.capacity]; exact hcap) (by rw [List.length_drop]; omega)
        refine ⟨w'', ?_, ?_⟩
        · rw [hok]
          exact hok'
        · have hall := (hwritten.appended hpos).trans happ
          rw [List.take_append_drop] at hall
          exact hall
      · exact absurd hi (hscript i)

end Writen

/-! ## No byte is lost without `go_back` -/

section Load

variable {script : Nat → Option Nat} {w w' : Writer} {s s' : RingBuffer} {data rest : List UInt8}

/-- The bytes that are sent, and those that are buffered. -/
def load (w : Writer) : Nat := w.sent.length + w.ring.dataSize

/-- The ring has as many bytes more as it has taken. -/
theorem ring_write_size (h : s.write data = .ok (s', rest)) :
    s'.dataSize + rest.length = s.dataSize + data.length := by
  induction hlen : data.length using Nat.strong_induction_on generalizing s data with
  | _ n ih =>
  rw [RingBuffer.write] at h
  split at h
  · cases h
    omega
  · cases hpos : s.readPos with
    | error e =>
      rw [hpos] at h
      cases h
    | ok readPos =>
      rw [hpos] at h
      dsimp only [Except.bind] at h
      split at h
      · cases h
      · split at h
        · cases h
        · rename_i hsize
          have hrest := ih _ (by omega) h (List.length_drop ..)
          have hcopy : (s.copy (data.take (min data.length (s.freeSize readPos)))).dataSize =
              s.dataSize + (data.take (min data.length (s.freeSize readPos))).length := rfl
          rw [hcopy, List.length_take] at hrest
          omega

/-- No more leave the ring than are asked for. -/
theorem forward_size (s : RingBuffer) (n : Nat) : s.dataSize ≤ (s.forward n).1.dataSize + n := by
  unfold RingBuffer.forward
  split
  · exact Nat.le_add_right _ _
  · split
    · exact Nat.le_add_right _ _
    · show s.dataSize ≤ s.dataSize - (n : Int).toNat + n
      omega

/-- No byte is lost by a send, unless the socket fails. -/
theorem flushInternal_load {left : Nat} {rc : Except RC Unit} (h : w.flushInternal script left = .ok (w', rc)) :
    load w ≤ load w' ∧ (rc = .ok () ∨ ∃ i, script i = none) := by
  induction left using Nat.strong_induction_on generalizing w with
  | _ left ih =>
  rw [Writer.flushInternal] at h
  split at h
  · cases h
    exact ⟨le_refl _, Or.inl rfl⟩
  · cases hbuf : w.ring.contiguous with
    | error e =>
      rw [hbuf] at h
      cases h
    | ok buf =>
      rw [hbuf] at h
      dsimp only [Except.bind] at h
      cases hcall : script w.calls with
      | none =>
        rw [hcall] at h
        cases h
        exact ⟨le_refl _, Or.inr ⟨_, hcall⟩⟩
      | some k =>
        rw [hcall] at h
        dsimp only at h
        split at h
        · cases h
        · rename_i hsize
          obtain ⟨hload, hrc⟩ := ih _ (by omega) h
          refine ⟨le_trans ?_ hload, hrc⟩
          have hforward := forward_size w.ring (min (k + 1) buf.length)
          show w.sent.length + w.ring.dataSize ≤
            (w.sent ++ buf.take (min (k + 1) buf.length)).length +
              (w.ring.forward (min (k + 1) buf.length : Nat)).1.dataSize
          rw [List.length_append, List.length_take]
          omega

/-- The loop ends with an empty ring, or the socket fails. -/
theorem flush_load {fuel : Nat} {rc : Except RC Unit} (h : w.flush script fuel = .ok (w', rc)) :
    load w ≤ load w' ∧ ((rc = .ok () ∧ w'.ring.dataSize = 0) ∨ ∃ i, script i = none) := by
  induction fuel generalizing w with
  | zero =>
    rw [Writer.flush] at h
    split at h
    · rename_i hempty
      cases h
      exact ⟨le_refl _, Or.inl ⟨rfl, hempty⟩⟩
    · cases h
  | succ fuel ih =>
    rw [Writer.flush] at h
    split at h
    · rename_i hempty
      cases h
      exact ⟨le_refl _, Or.inl ⟨rfl, hempty⟩⟩
    · cases hflush : w.flushInternal script w.ring.size with
      | error e =>
        rw [hflush] at h
        cases h
      | ok r =>
        rw [hflush] at h
        dsimp only [Except.bind] at h
        obtain ⟨hload, hrc⟩ := flushInternal_load hflush
        cases hr : r.2 with
        | error rc' =>
          -- `flush` gives up with the first call that fails
          rw [hr] at h hrc
          cases h
          exact ⟨hload, Or.inr (hrc.resolve_left (by rintro ⟨⟩))⟩
        | ok u =>
          rw [hr] at h
          obtain ⟨hload', hdone⟩ := ih h
          exact ⟨le_trans hload hload', hdone⟩

/-- What the ring does not take is handed back. -/
theorem ringWrite_load {reply : Except RC (List UInt8)} (h : w.ringWrite data = .ok (w', reply)) :
    ∃ rest, reply = .ok rest ∧ load w + data.length = load w' + rest.length := by
  rw [Writer.ringWrite] at h
  cases hwrite : w.ring.write data with
  | error e =>
    rw [hwrite] at h
    cases h
  | ok r =>
    rw [hwrite] at h
    cases h
    have hsize := ring_write_size hwrite
    refine ⟨r.2, rfl, ?_⟩
    show w.sent.length + w.ring.dataSize + data.length = w.sent.length + r.1.dataSize + r.2.length
    omega

/-- One call of `write` loses no byte. -/
theorem write_load {reply : Except RC (List UInt8)} (h : w.write script data = .ok (w', reply)) :
    (∃ rest, reply = .ok rest ∧ load w + data.length ≤ load w' + rest.length) ∨
      (∃ rc, reply = .error rc) ∧ ∃ i, script i = none := by
  rw [Writer.write] at h
  split at h
  · cases hflush : w.flushInternal script data.length with
    | error e =>
      rw [hflush] at h
      cases h
    | ok r =>
      rw [hflush] at h
      dsimp only [Except.bind] at h
      obtain ⟨hload, hrc⟩ := flushInternal_load hflush
      cases hr : r.2 with
      | error rc =>
        rw [hr] at h hrc
        cases h
        exact Or.inr ⟨⟨rc, rfl⟩, hrc.resolve_left (by rintro ⟨⟩)⟩
      | ok u =>
        rw [hr] at h
        obtain ⟨rest, hreply, heq⟩ := ringWrite_load h
        exact Or.inl ⟨rest, hreply, by omega⟩
  · obtain ⟨rest, hreply, heq⟩ := ringWrite_load h
    exact Or.inl ⟨rest, hreply, by omega⟩

/-- So does the loop over it. -/
theorem writen_load {fuel : Nat} {rc : Except RC Unit} (h : w.writen script fuel data = .ok (w', rc)) :
    (rc = .ok () ∧ load w + data.length ≤ load w') ∨ ∃ i, script i = none := by
  induction fuel generalizing w data with
  | zero =>
    rw [Writer.writen] at h
    split at h
    · rename_i hdata
      cases h
      subst hdata
      exact Or.inl ⟨rfl, le_refl _⟩
    · cases h
  | succ fuel ih =>
    rw [Writer.writen] at h
    split at h
    · rename_i hdata
      cases h
      subst hdata
      exact Or.inl ⟨rfl, le_refl _⟩
    · cases hwrite : w.write script data with
      | error e =>
        rw [hwrite] at h
        cases h
      | ok r =>
        rw [hwrite] at h
        dsimp only [Except.bind] at h
        rcases write_load hwrite with ⟨rest, hreply, hle⟩ | ⟨-, hfail⟩
        · rw [hreply] at h
          refine (ih h).imp (fun hrest => ⟨hrest.1, ?_⟩) id
          have hle' := hrest.2
          omega
        · exact Or.inr hfail

end Load

end Miniob.Net.Buffered
