/-
  The log as long as no write breaks off half way.

  Seen from the files, an entry that the thread has taken out of the buffer is still to be written.  So every
  step of a thread is one of a history (`LogEntryBuffer.history`), and the invariant of histories, `Whole`,
  holds of the buffer: the files hold exactly what was written (`Sealed`).  A new process reads all of it.
-/
import Miniob.Clog.LogEntryBuffer
import Miniob.Clog.Recovery

namespace Miniob.Clog.LogEntryBuffer

open Miniob.Common Miniob.Storage

/-- The entry that is being written is not written yet. -/
def history (s : LogEntryBuffer) (written : List (List LogEntry)) : LogHistory :=
  ⟨{ s.handler with entries := s.inFlight ++ s.handler.entries }, written⟩

/-- The files hold the entries that were written, and the flushed LSN is that of the last one. -/
structure Sealed (s : LogEntryBuffer) (written : List (List LogEntry)) : Prop where
  whole : Whole (s.history written)
  flushed : s.handler.flushedLsn = written.flatten.length

/-- Entries have payloads, and a write that fails has written nothing. -/
def WritesWhole : BufferAction → Prop
  | .append _ data => data ≠ []
  | .thread breaksOff => ∀ k, breaksOff = some k → k = 0

theorem writesWhole_none : WritesWhole (.thread none) := by
  intro k hk
  cases hk

section Step

variable {s s' : LogEntryBuffer} {written : List (List LogEntry)}

theorem Sealed.append (h : Sealed s written) (module : LogModule) {data : List UInt8} (hdata : data ≠ []) :
    Sealed (s.append module data) written := by
  have hwhole := h.whole.append module hdata
  unfold DiskLogHandler.append at hwhole
  unfold LogEntryBuffer.append DiskLogHandler.append
  cases hinit : LogEntry.init 0 module.index data with
  | error rc => exact h
  | ok entry =>
    rw [hinit] at hwhole
    refine ⟨?_, h.flushed⟩
    simp only [history, List.append_assoc] at hwhole ⊢
    exact hwhole

/-- The thread opens a file. -/
theorem Sealed.openFile (h : Sealed s written) (hpoint : s.point = .outside) :
    ∃ written', written'.flatten = written.flatten ∧
      Sealed { s with
        handler := { s.handler with writer := s.handler.openFile.1, files := s.handler.openFile.2 }
        point := .loop } written' := by
  have hflight : s.inFlight = [] := by
    unfold inFlight
    rw [hpoint]
  have hwhole := h.whole
  rcases openFile_cases hwhole with ⟨w, lsn, hopen, -, hend, hpos⟩ | ⟨w, f, hopen, hlast, -, hend⟩
  · -- a new file, in which nothing is written yet
    have heq : s.handler.openFile = (w, s.handler.files ++ [⟨lsn, []⟩]) := hopen
    have hflat : (written ++ [[]]).flatten = written.flatten := by
      rw [List.flatten_concat, List.append_nil]
    refine ⟨written ++ [[]], hflat, ⟨?_, ?_⟩⟩
    · have hlog : LogHistory.log (history { s with
          handler := { s.handler with writer := s.handler.openFile.1, files := s.handler.openFile.2 }
          point := .loop } (written ++ [[]])) = (s.history written).log := by
        unfold LogHistory.log history
        rw [hflat, hflight]
        rfl
      constructor
      · show List.Forall₂ Holds s.handler.openFile.2 _
        rw [heq]
        refine holds_concat hwhole.holds ⟨rfl, ?_, ?_⟩
        · exact List.forall_mem_nil _
        · exact List.forall_mem_nil _
      · show ∀ f ∈ s.handler.openFile.2, 0 ≤ f.lsn
        rw [heq]
        intro f hf
        rcases List.mem_append.mp hf with hf | hf
        · exact hwhole.fileLsn f hf
        · obtain rfl := List.mem_singleton.mp hf
          exact hpos
      · rw [hlog]
        exact hwhole.numbered
      · rw [hlog]
        exact hwhole.current
      · intro e he
        refine hwhole.buffered e ?_
        show e ∈ s.inFlight ++ s.handler.entries
        rw [hflight]
        -- there is a last file, and it ends where the writer ends
        exact he
      · intro _
        refine ⟨⟨lsn, []⟩, ?_, ?_⟩
        · show s.handler.openFile.2.getLast? = _
          rw [heq, List.getLast?_concat]
        · show s.handler.openFile.1.endLsn = _
          rw [heq]
          exact hend
    · rw [hflat]
      exact h.flushed
  -- the last file goes on; nothing has changed but the writer
  · have heq : s.handler.openFile = (w, s.handler.files) := hopen
    refine ⟨written, rfl, ⟨?_, h.flushed⟩⟩
    rw [heq]
    have hlog : LogHistory.log (history { s with
        handler := { s.handler with writer := w, files := s.handler.files }
        point := .loop } written) = (s.history written).log := by
      unfold LogHistory.log history
      rw [hflight]
      rfl
    constructor
    · exact hwhole.holds
    · exact hwhole.fileLsn
    · rw [hlog]
      exact hwhole.numbered
    · rw [hlog]
      exact hwhole.current
    · intro e he
      refine hwhole.buffered e ?_
      show e ∈ s.inFlight ++ s.handler.entries
      rw [hflight]
      exact he
    · exact fun _ => ⟨f, hlast, hend⟩

/-- What the thread has in its hands and what is in the buffer, without the files. -/
theorem Sealed.same (h : Sealed s written) (hfiles : s'.handler.files = s.handler.files)
    (hqueue : s'.inFlight ++ s'.handler.entries = s.inFlight ++ s.handler.entries)
    (hcurrent : s'.handler.currentLsn = s.handler.currentLsn) (hwriter : s'.handler.writer = s.handler.writer)
    (hflushed : s'.handler.flushedLsn = s.handler.flushedLsn) : Sealed s' written := by
  have hwhole := h.whole
  have hlog : (s'.history written).log = (s.history written).log := by
    unfold LogHistory.log history
    dsimp only
    rw [hqueue]
  refine ⟨⟨?_, ?_, ?_, ?_, ?_, ?_⟩, hflushed.trans h.flushed⟩
  · exact hfiles ▸ hwhole.holds
  · exact hfiles ▸ hwhole.fileLsn
  · exact hlog ▸ hwhole.numbered
  · show s'.handler.currentLsn = _
    rw [hlog, hcurrent]
    exact hwhole.current
  · intro e he
    refine hwhole.buffered e ?_
    show e ∈ s.inFlight ++ s.handler.entries
    rw [← hqueue]
    exact he
  · show s'.handler.writer.valid = true → ∃ f, s'.handler.files.getLast? = some f ∧
      s'.handler.writer.endLsn = LogFileWriter.endLsnOf f.lsn
    rw [hwriter, hfiles]
    exact hwhole.writer

/-- An entry is written to the last file. -/
theorem Sealed.write (h : Sealed s written) {entry : LogEntry} (hpoint : s.point = .popped entry)
    {writer : LogFileWriter} {files : List LogFile}
    (hwrite : s.handler.writer.write s.handler.files entry = .ok (writer, files)) :
    ∃ written', written'.flatten = written.flatten ++ [entry] ∧
      Sealed { s with
        handler := { s.handler with writer, files, flushedLsn := entry.lsn }
        point := .loop
        written := s.written ++ [entry] } written' := by
  have hflight : s.inFlight = [entry] := by
    unfold inFlight
    rw [hpoint]
  have hwhole := h.whole
  have hbuf := hwhole.buffered entry (by
    show entry ∈ s.inFlight ++ s.handler.entries
    rw [hflight]
    exact List.mem_append_left _ (List.mem_singleton_self entry))
  have hlogs : (s.history written).log = written.flatten ++ [entry] ++ s.handler.entries := by
    unfold LogHistory.log history
    rw [hflight, List.append_assoc]
  have hlsn : entry.lsn = written.flatten.length + 1 := by
    refine hwhole.numbered written.flatten.length entry ?_
    rw [hlogs, List.append_assoc, List.getElem?_append_right (Nat.le_refl _), Nat.sub_self]
    rfl
  -- the last file, and what is in it
  obtain ⟨f, hlast, hend⟩ := hwhole.writer (LogFileWriter.write_ok hwrite).2.1
  obtain ⟨init, hfiles⟩ := List.getLast?_eq_some_iff.mp hlast
  change s.handler.files = init ++ [f] at hfiles
  change s.handler.writer.endLsn = LogFileWriter.endLsnOf f.lsn at hend
  have hholds : List.Forall₂ Holds s.handler.files written := hwhole.holds
  rw [hfiles] at hwrite hholds
  obtain ⟨hle, -, rfl, rfl⟩ := LogFileWriter.write_ok hwrite
  rw [LogFileWriter.appendLast_concat]
  obtain ⟨winit, es, rfl, hinit, hf⟩ := exists_of_forall₂_concat hholds
  have hfpos : 0 ≤ f.lsn := hwhole.fileLsn f (List.mem_of_getLast? hlast)
  obtain ⟨hroom, hint⟩ := endLsnOf_le hfpos
  have hflat : (winit ++ [es ++ [entry]]).flatten = (winit ++ [es]).flatten ++ [entry] := by
    rw [List.flatten_concat, List.flatten_concat, List.append_assoc]
  refine ⟨winit ++ [es ++ [entry]], hflat, ⟨⟨?_, ?_, ?_, ?_, ?_, ?_⟩, ?_⟩⟩
  · refine holds_concat hinit ⟨?_, fun e he => ?_, fun e he => ?_⟩
    · show f.bytes ++ _ = _
      rw [hf.bytes, encodeAll_append, encodeAll_singleton]
    · rcases List.mem_append.mp he with he | he
      · exact hf.valid e he
      · obtain rfl := List.mem_singleton.mp he
        exact ⟨⟨by omega, by omega⟩, hbuf.1, hbuf.2.2⟩
    · rcases List.mem_append.mp he with he | he
      · exact hf.inFile e he
      · obtain rfl := List.mem_singleton.mp he
        show e.lsn ≤ f.lsn + _ - 1
        omega
  · intro g hg
    rcases List.mem_append.mp hg with hg | hg
    · exact hwhole.fileLsn g (by
        show g ∈ s.handler.files
        rw [hfiles]
        exact List.mem_append_left _ hg)
    · obtain rfl := List.mem_singleton.mp hg
      exact hfpos
  · have hnum := hwhole.numbered
    rw [hlogs] at hnum
    show Numbered ((winit ++ [es ++ [entry]]).flatten ++ s.handler.entries)
    rw [hflat]
    exact hnum
  · have hcur := hwhole.current
    rw [hlogs] at hcur
    show s.handler.currentLsn = ((winit ++ [es ++ [entry]]).flatten ++ s.handler.entries).length
    rw [hflat]
    exact hcur
  · intro e he
    exact hwhole.buffered e (List.mem_append_right _ he)
  · intro _
    exact ⟨_, List.getLast?_concat, hend⟩
  · show entry.lsn = _
    rw [hflat, List.length_append, hlsn]
    rfl

theorem appendLast_nil (files : List LogFile) : LogFileWriter.appendLast files [] = files := by
  cases hlast : files.getLast? with
  | none =>
    unfold LogFileWriter.appendLast
    rw [hlast]
  | some f =>
    obtain ⟨init, rfl⟩ := List.getLast?_eq_some_iff.mp hlast
    rw [LogFileWriter.appendLast_concat, List.append_nil]

/-- **Step.**  What was written stays in front of what is written. -/
theorem Sealed.step {a : BufferAction} (h : Sealed s written) (ha : WritesWhole a) (hs : s.step a = .ok s') :
    ∃ written', Sealed s' written' ∧ written.flatten <+: written'.flatten := by
  cases a with
  | append module data =>
    cases hs
    exact ⟨written, h.append module ha, List.prefix_refl _⟩
  | thread breaksOff =>
    change s.next breaksOff = .ok s' at hs
    unfold next at hs
    cases hpoint : s.point with
    | outside =>
      rw [hpoint] at hs
      cases hs
      obtain ⟨written', hflat, h'⟩ := h.openFile hpoint
      exact ⟨written', h', hflat ▸ List.prefix_refl _⟩
    | loop =>
      have hflight : s.inFlight = [] := by
        unfold inFlight
        rw [hpoint]
      rw [hpoint] at hs
      cases hentries : s.handler.entries with
      | nil =>
        simp only [hentries] at hs
        cases hs
        refine ⟨written, h.same rfl ?_ rfl rfl rfl, List.prefix_refl _⟩
        rw [hflight, hentries]
        rfl
      | cons entry entries =>
        simp only [hentries] at hs
        split at hs
        · cases hs
        · cases hs
          refine ⟨written, h.same rfl ?_ rfl rfl rfl, List.prefix_refl _⟩
          rw [hflight, hentries]
          rfl
    | popped entry =>
      rw [hpoint] at hs
      cases hs
      have hflight : s.inFlight = [entry] := by
        unfold inFlight
        rw [hpoint]
      have hback : ∀ rc, Sealed (s.putBack entry rc s.handler.files) written := by
        intro rc
        refine h.same rfl ?_ rfl rfl rfl
        rw [hflight]
        rfl
      unfold LogEntryBuffer.write
      split
      · exact ⟨written, hback _, List.prefix_refl _⟩
      · rename_i hok
        -- a write that has failed without a byte
        obtain rfl := ha _ rfl
        have hfiles : LogFileWriter.appendLast s.handler.files (entry.toBytes.take 0) = s.handler.files :=
          appendLast_nil _
        rw [hfiles]
        exact ⟨written, hback _, List.prefix_refl _⟩
      · rename_i hwrite
        obtain ⟨written', hflat, h'⟩ := h.write hpoint hwrite
        exact ⟨written', h', hflat ▸ List.prefix_append _ _⟩

end Step

/-! ## LSNs -/

section Lsns

variable {s s' : LogEntryBuffer} {files : List LogFile} {lsn : Int}

/-- What is handed out is not taken back. -/
theorem Kept.current_le {a : BufferAction} (h : Kept files lsn s) (hs : s.step a = .ok s') :
    s.handler.currentLsn ≤ s'.handler.currentLsn := by
  cases a with
  | append module data =>
    obtain rfl := Except.ok.inj hs
    by_cases hlarge : (data.length : Int) > LogEntry.maxPayloadSize
    · rw [append_refused hlarge]
    · rw [append_accepted hlarge]
      show s.handler.currentLsn ≤ s.handler.currentLsn + 1
      omega
  | thread breaksOff =>
    cases (next_moves h.opened hs).1 with
    | idle _ _ _ _ _ _ _ => exact Int.le_refl _
    | pop _ _ _ _ _ => exact Int.le_refl _
    | putBack _ _ _ _ _ _ => exact Int.le_refl _
    | write _ _ _ _ _ => exact Int.le_refl _

/-- The log is not flushed behind what was handed out. -/
theorem Kept.flushed_le_current (h : Kept files lsn s) : s.handler.flushedLsn ≤ s.handler.currentLsn := by
  have hlen := congrArg List.length h.order
  rw [List.length_append, List.length_append] at hlen
  rw [h.flushed, h.current]
  omega

/-- An entry that was appended has an LSN that was handed out. -/
theorem Kept.lsn_le (h : Kept files lsn s) {e : LogEntry} (he : e ∈ s.appended) :
    e.lsn ≤ s.handler.currentLsn := by
  obtain ⟨i, hi, hget⟩ := List.getElem_of_mem he
  have hlsn := h.numbered i e (List.getElem?_eq_some_iff.mpr ⟨hi, hget⟩)
  rw [hlsn, h.current]
  omega

end Lsns

/-! ## A new process -/

/-- A new process reads what was written, and goes on behind it. -/
theorem Sealed.restart {s : LogEntryBuffer} {written : List (List LogEntry)} (h : Sealed s written)
    {startLsn : Int} (hstart : startLsn ≤ s.handler.flushedLsn) :
    Clog.restart s.handler.files startLsn
        = .ok (written.flatten.filter fun e => decide (startLsn ≤ e.lsn),
            .started s.handler.files written.flatten.length) ∧
      Sealed (init s.handler.files written.flatten.length) written := by
  have hwhole := h.whole
  have hnum : Numbered written.flatten := hwhole.numbered.of_prefix (List.prefix_append _ _)
  constructor
  · refine restart_eq hwhole.holds hnum fun e he => ?_
    rw [hnum.getLast he]
    rw [h.flushed] at hstart
    exact hstart
  · have hlog : ((init s.handler.files written.flatten.length).history written).log = written.flatten :=
      List.append_nil _
    refine ⟨⟨hwhole.holds, hwhole.fileLsn, ?_, ?_, ?_, ?_⟩, rfl⟩
    · rw [hlog]
      exact hnum
    · rw [hlog]
      rfl
    · exact fun _ he => absurd he List.not_mem_nil
    · exact fun hvalid => absurd hvalid Bool.false_ne_true

theorem sealed_init : Sealed (init [] 0) [] where
  whole := whole_empty
  flushed := rfl

end Miniob.Clog.LogEntryBuffer
