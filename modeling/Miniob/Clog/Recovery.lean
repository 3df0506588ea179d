/-
  When recovery finds the end of the log.

  `Whole` is the invariant of a history: every log file holds exactly the entries that were written to it
  and not cut off, and the entries in the files and in the buffer have the LSNs 1, 2, 3, ... in order.
  It survives a crash that cuts off the last file at the end of an entry, if the recovery starts from no
  LSN behind the last entry that is left (`Admitted`).  Then the recovery delivers the entries that are
  complete, from its start on, and the log goes on behind them.

  A cut inside a payload makes the recovery fail.  A cut inside a header does not, but the entries that
  are appended later stand behind the rest of that header, and the recovery after them reads its bytes
  as a part of theirs.
-/
import Miniob.Clog.DiskLogHandler
import Miniob.Clog.Reading
import Miniob.Common.Related

namespace Miniob.Clog

open Miniob.Common Miniob.Storage

/-! ## Entries with consecutive LSNs -/

/-- The LSNs are 1, 2, 3, ... -/
def Numbered (es : List LogEntry) : Prop := ∀ (i : Nat) e, es[i]? = some e → e.lsn = (i : Int) + 1

namespace Numbered

variable {es es' : List LogEntry}

theorem nil : Numbered [] := by
  intro i e he
  rw [List.getElem?_nil] at he
  cases he

theorem of_prefix (h : Numbered es) (hpre : es' <+: es) : Numbered es' := by
  obtain ⟨t, rfl⟩ := hpre
  intro i e he
  obtain ⟨hlt, -⟩ := List.getElem?_eq_some_iff.mp he
  refine h i e ?_
  rw [List.getElem?_append_left hlt, he]

/-- The next entry has the next number. -/
theorem concat (h : Numbered es) {e : LogEntry} (he : e.lsn = es.length + 1) : Numbered (es ++ [e]) := by
  intro i e' he'
  rcases Nat.lt_or_ge i es.length with hlt | hge
  · rw [List.getElem?_append_left hlt] at he'
    exact h i e' he'
  · rw [List.getElem?_append_right hge] at he'
    obtain ⟨hlt, heq⟩ := List.getElem?_eq_some_iff.mp he'
    have hlt' : i - es.length < 1 := hlt
    rw [List.getElem_singleton] at heq
    rw [← heq, he]
    omega

theorem sorted (h : Numbered es) : es.Pairwise fun a b => a.lsn < b.lsn := by
  rw [List.pairwise_iff_getElem]
  intro i j hi hj hij
  have h1 := h i _ (List.getElem?_eq_getElem hi)
  have h2 := h j _ (List.getElem?_eq_getElem hj)
  omega

theorem pos (h : Numbered es) {e : LogEntry} (he : e ∈ es) : 0 < e.lsn := by
  obtain ⟨i, hi⟩ := List.getElem?_of_mem he
  have := h i e hi
  omega

theorem getLast (h : Numbered es) {e : LogEntry} (he : es.getLast? = some e) : e.lsn = es.length := by
  rw [List.getLast?_eq_getElem?] at he
  obtain ⟨hlt, -⟩ := List.getElem?_eq_some_iff.mp he
  have := h _ e he
  omega

end Numbered

/-! ## Reading all files -/

/-- A file holds these entries, and its name leaves room for their LSNs. -/
structure Holds (f : LogFile) (es : List LogEntry) : Prop where
  bytes : f.bytes = encodeAll LogEntry.toBytes es
  valid : ∀ e ∈ es, e.Valid
  inFile : ∀ e ∈ es, e.lsn ≤ f.lsn + maxEntryNumberPerFile - 1

section Replay

variable {S : Type} {files : List LogFile} {written : List (List LogEntry)} {startLsn : Int}

/-- The files that are not listed hold no entry from the start on, whatever number of LSNs a file has. -/
theorem iterateFiles_filter {callback : S → LogEntry → Except RC S} {size : Int}
    (h : List.Forall₂ (fun f es => f.bytes = encodeAll LogEntry.toBytes es ∧ (∀ e ∈ es, e.Valid) ∧
      ∀ e ∈ es, e.lsn ≤ f.lsn + size - 1) files written)
    (hsorted : written.flatten.Pairwise fun a b => a.lsn < b.lsn) (s : S) :
    iterateFiles callback startLsn (files.filter fun f => f.lsn + size - 1 ≥ startLsn) s
      = (written.flatten.filter fun e => decide (startLsn ≤ e.lsn)).foldlM callback s := by
  induction h generalizing s with
  | nil => rfl
  | @cons f es files written hf _ ih =>
    obtain ⟨hbytes, hvalid, hin⟩ := hf
    rw [List.flatten_cons] at hsorted
    obtain ⟨hes, hrest, -⟩ := List.pairwise_append.mp hsorted
    rw [List.flatten_cons, List.filter_append, List.foldlM_append]
    by_cases hlisted : f.lsn + size - 1 ≥ startLsn
    · rw [List.filter_cons_of_pos (by simpa using hlisted), iterateFiles, hbytes,
        iterateFile_encodeAll hvalid startLsn hes]
      exact bind_congr fun s' => ih hrest s'
    · have hnone : (es.filter fun e => decide (startLsn ≤ e.lsn)) = [] := by
        refine List.filter_eq_nil_iff.mpr fun e he => ?_
        have := hin e he
        rw [decide_eq_true_eq]
        omega
      rw [List.filter_cons_of_neg (by simpa using hlisted), hnone]
      exact ih hrest s

theorem iterateFiles_listFiles {callback : S → LogEntry → Except RC S}
    (h : List.Forall₂ Holds files written)
    (hsorted : written.flatten.Pairwise fun a b => a.lsn < b.lsn) (s : S) :
    iterateFiles callback startLsn (listFiles files startLsn) s
      = (written.flatten.filter fun e => decide (startLsn ≤ e.lsn)).foldlM callback s :=
  iterateFiles_filter (h.imp fun _ _ hf => ⟨hf.bytes, hf.valid, hf.inFile⟩) hsorted s

/-- The files one behind the other. -/
theorem iterateFiles_append (callback : S → LogEntry → Except RC S) (fs gs : List LogFile) (s : S) :
    iterateFiles callback startLsn (fs ++ gs) s
      = iterateFiles callback startLsn fs s >>= iterateFiles callback startLsn gs := by
  induction fs generalizing s with
  | nil => rfl
  | cons f fs ih =>
    rw [List.cons_append, iterateFiles, iterateFiles, bind_assoc]
    exact bind_congr ih

/-- The replayer that notes the entries takes them all. -/
theorem foldlM_noteEntry (es : List LogEntry) : ∀ s : Int × List LogEntry,
    ∃ s', es.foldlM (replayCallback noteEntry) s = .ok s' := by
  induction es with
  | nil => exact fun s => ⟨s, rfl⟩
  | cons e es ih => exact fun s => ih _

/-- Entries that come in order are all delivered. -/
theorem foldlM_replayCallback (es : List LogEntry) : ∀ (m : Int) (delivered : List LogEntry),
    es.Pairwise (fun a b => a.lsn < b.lsn) → (∀ e ∈ es, m < e.lsn) →
    es.foldlM (replayCallback noteEntry) (m, delivered)
      = .ok ((es.getLast?.map LogEntry.lsn).getD m, delivered ++ es) := by
  induction es with
  | nil =>
    intro m delivered _ _
    rw [List.append_nil]
    rfl
  | cons e es ih =>
    intro m delivered hsorted hm
    obtain ⟨hlt, hsorted⟩ := List.pairwise_cons.mp hsorted
    have hcall : replayCallback noteEntry (m, delivered) e = .ok (e.lsn, delivered ++ [e]) := by
      show Except.ok ((if e.lsn > m then e.lsn else m), delivered ++ [e]) = _
      rw [if_pos (hm e List.mem_cons_self)]
    rw [List.foldlM_cons, hcall]
    refine (ih e.lsn (delivered ++ [e]) hsorted hlt).trans ?_
    rw [List.append_assoc, List.singleton_append]
    cases es with
    | nil => rfl
    | cons e' es => rfl

/-- The entries from the start on are noted, and the greatest LSN is that of the last entry. -/
theorem foldlM_from_start {es : List LogEntry} (hnum : Numbered es)
    (hstart : ∀ e, es.getLast? = some e → startLsn ≤ e.lsn) :
    (es.filter fun e => decide (startLsn ≤ e.lsn)).foldlM (replayCallback noteEntry) (0, [])
      = .ok ((es.length : Int), es.filter fun e => decide (startLsn ≤ e.lsn)) := by
  have hfold := foldlM_replayCallback (es.filter fun e => decide (startLsn ≤ e.lsn)) 0 []
    (hnum.sorted.filter _) fun e he => hnum.pos (List.mem_of_mem_filter he)
  have hlast : ((es.filter fun e => decide (startLsn ≤ e.lsn)).getLast?.map
      LogEntry.lsn).getD 0 = (es.length : Int) := by
    cases hl : es.getLast? with
    | none =>
      rw [List.getLast?_eq_none_iff.mp hl]
      rfl
    | some e =>
      obtain ⟨l, hl'⟩ := List.getLast?_eq_some_iff.mp hl
      have hlsn := hnum.getLast hl
      rw [← hlsn, hl', List.filter_append,
        List.filter_cons_of_pos (by simpa using hstart e hl), List.filter_nil, List.getLast?_concat]
      rfl
  rw [hfold, hlast, List.nil_append]

/-- A recovery delivers what is written, from its start on, and counts on behind the last entry. -/
theorem restart_eq (h : List.Forall₂ Holds files written) (hnum : Numbered written.flatten)
    (hstart : ∀ e, written.flatten.getLast? = some e → startLsn ≤ e.lsn) :
    restart files startLsn
      = .ok (written.flatten.filter fun e => decide (startLsn ≤ e.lsn),
          .started files written.flatten.length) := by
  unfold restart replay
  rw [iterateFiles_listFiles h hnum.sorted, foldlM_from_start hnum hstart]
  rfl

end Replay

/-! ## The invariant of a history -/

namespace LogHistory

/-- The entries of the log, those that are still in the buffer included. -/
def log (s : LogHistory) : List LogEntry := s.written.flatten ++ s.handler.entries

end LogHistory

/-- The invariant: whole entries only, numbered from 1 on, file by file. -/
structure Whole (s : LogHistory) : Prop where
  /-- Each file holds the entries that were written to it, and nothing else. -/
  holds : List.Forall₂ Holds s.handler.files s.written
  fileLsn : ∀ f ∈ s.handler.files, 0 ≤ f.lsn
  /-- The LSNs run on from 1. -/
  numbered : Numbered s.log
  /-- The current LSN is the number of entries. -/
  current : s.handler.currentLsn = s.log.length
  /-- What waits can be encoded. -/
  buffered : ∀ e ∈ s.handler.entries, (0 ≤ e.moduleId ∧ e.moduleId < 4) ∧ 0 < e.payloadSize ∧
    e.payloadSize ≤ LogEntry.maxPayloadSize
  /-- The writer stands on the last file. -/
  writer : s.handler.writer.valid = true → ∃ f, s.handler.files.getLast? = some f ∧
    s.handler.writer.endLsn = LogFileWriter.endLsnOf f.lsn

/-- No file. -/
theorem whole_empty : Whole .empty where
  holds := .nil
  fileLsn := fun _ hf => absurd hf List.not_mem_nil
  numbered := Numbered.nil
  current := rfl
  buffered := fun _ he => absurd he List.not_mem_nil
  writer := fun h => absurd h Bool.false_ne_true

/-- A file ends before the first LSN of the next one. -/
theorem endLsnOf_le {lsn : Int} (h : 0 ≤ lsn) :
    LogFileWriter.endLsnOf lsn ≤ lsn + maxEntryNumberPerFile - 1 ∧ LogFileWriter.endLsnOf lsn < 2 ^ 31 := by
  have hpos : 0 ≤ lsn + maxEntryNumberPerFile - 1 := by
    unfold maxEntryNumberPerFile
    omega
  unfold LogFileWriter.endLsnOf int32
  generalize lsn + maxEntryNumberPerFile - 1 = x at hpos ⊢
  rw [Int.bmod_def]
  split <;> omega

theorem module_index (m : LogModule) : 0 ≤ m.index ∧ m.index < 4 := by
  cases m with
  | bufferPool => exact ⟨by decide, by decide⟩
  | bplusTree => exact ⟨by decide, by decide⟩
  | recordManager => exact ⟨by decide, by decide⟩
  | transaction => exact ⟨by decide, by decide⟩

section Turn

variable {s : LogHistory} {w : LogFileWriter} {init : List LogFile} {f : LogFile}
  {entries : List LogEntry}

/-- The thread opens a new file behind the others, or writes to the last one. -/
theorem openFile_cases (h : Whole s) :
    (∃ w lsn, s.handler.openFile = (w, s.handler.files ++ [⟨lsn, []⟩]) ∧ w.valid = true ∧
      w.endLsn = LogFileWriter.endLsnOf lsn ∧ 0 ≤ lsn) ∨
    ∃ w f, s.handler.openFile = (w, s.handler.files) ∧ s.handler.files.getLast? = some f ∧
      w.valid = true ∧ w.endLsn = LogFileWriter.endLsnOf f.lsn := by
  have hnext : ∃ w lsn, s.handler.writer.nextFile s.handler.files = (w, s.handler.files ++ [⟨lsn, []⟩]) ∧
      w.valid = true ∧ w.endLsn = LogFileWriter.endLsnOf lsn ∧ 0 ≤ lsn := by
    refine ⟨_, _, rfl, rfl, rfl, ?_⟩
    cases hl : s.handler.files.getLast? with
    | none => exact Int.le_refl 0
    | some f =>
      have := h.fileLsn f (List.mem_of_getLast? hl)
      show 0 ≤ f.lsn + maxEntryNumberPerFile
      unfold maxEntryNumberPerFile
      omega
  -- the last file is full, or the writer has none: then the next one is asked for
  unfold DiskLogHandler.openFile
  by_cases hfull : s.handler.rc = .logFileFull
  · rw [if_pos (Or.inr hfull), if_pos hfull]
    exact Or.inl hnext
  · cases hvalid : s.handler.writer.valid with
    | false =>
      rw [if_pos (Or.inl rfl), if_neg hfull]
      unfold LogFileWriter.lastFile
      cases hl : s.handler.files.getLast? with
      | none => exact Or.inl hnext
      | some f => exact Or.inr ⟨_, f, rfl, rfl, rfl, rfl⟩
    -- the writer goes on with its file
    | true =>
      rw [if_neg (by rw [not_or]; exact ⟨Bool.noConfusion, hfull⟩)]
      obtain ⟨f, hl, hend⟩ := h.writer hvalid
      exact Or.inr ⟨_, f, rfl, hl, hvalid, hend⟩

/-- A write finds the file full exactly if the entry lies behind it. -/
theorem write_full {files : List LogFile} {e : LogEntry} (h : w.write files e = .error .logFileFull) :
    w.endLsn < e.lsn := by
  unfold LogFileWriter.write at h
  split at h
  · assumption
  · split at h
    · cases h
    · split at h <;> cases h

/-- `flush` appends a beginning of the buffer to the last file. -/
theorem flush_ok {fl : Flushed} (h : flush w (init ++ [f]) entries = .ok fl) :
    entries = fl.written ++ fl.entries ∧
      fl.files = init ++ [{ f with bytes := f.bytes ++ encodeAll LogEntry.toBytes fl.written }] ∧
      fl.writer = { w with lastLsn := (fl.written.getLast?.map fun e => int32 e.lsn).getD w.lastLsn } ∧
      (∀ e ∈ fl.written, e.lsn ≤ w.endLsn) ∧
      (fl.rc = .logFileFull → ∃ e es, fl.entries = e :: es ∧ w.endLsn < e.lsn) := by
  -- induction over the buffer: the first entry is written and the rest is flushed behind it, or the flush stops
  induction entries generalizing w f fl with
  | nil =>
    obtain rfl := Except.ok.inj h
    refine ⟨rfl, ?_, rfl, fun e he => absurd he List.not_mem_nil, fun hrc => by cases hrc⟩
    rw [encodeAll_nil, List.append_nil]
  | cons e es ih =>
    rw [flush] at h
    split at h
    · cases h
    · cases hwrite : w.write (init ++ [f]) e with
      | error rc =>
        rw [hwrite] at h
        obtain rfl := Except.ok.inj h
        refine ⟨rfl, ?_, rfl, fun e he => absurd he List.not_mem_nil, fun hrc => ?_⟩
        · rw [encodeAll_nil, List.append_nil]
        · obtain rfl : rc = .logFileFull := hrc
          exact ⟨e, es, rfl, write_full hwrite⟩
      -- the entry is in the file
      | ok out =>
        obtain ⟨w', files'⟩ := out
        obtain ⟨hend, -, rfl, rfl⟩ := LogFileWriter.write_ok hwrite
        rw [hwrite] at h
        obtain ⟨fl', hfl', h⟩ := ok_of_bind h
        rw [LogFileWriter.appendLast_concat] at hfl'
        obtain rfl := Except.ok.inj h
        obtain ⟨hes, hfiles, hw, hle, hfull⟩ := ih hfl'
        refine ⟨?_, ?_, ?_, ?_, hfull⟩
        · rw [hes]
          rfl
        · show fl'.files = _
          rw [hfiles, encodeAll_cons, List.append_assoc]
        · show fl'.writer = _
          rw [hw]
          cases hwritten : fl'.written with
          | nil => rfl
          | cons a as =>
            rw [List.getLast?_cons_cons, List.getLast?_eq_some_getLast (List.cons_ne_nil a as)]
            rfl
        · intro e' he'
          rcases List.mem_cons.mp he' with rfl | he'
          · exact hend
          · exact hle e' he'

/-- No assertion fires if all entries in the buffer have an LSN and a payload. -/
theorem exists_flush {files : List LogFile} (hpos : ∀ e ∈ entries, 0 < e.lsn ∧ 0 < e.payloadSize) :
    ∃ fl, flush w files entries = .ok fl := by
  induction entries generalizing w files with
  | nil => exact ⟨_, rfl⟩
  | cons e es ih =>
    rw [flush, if_neg (not_not.mpr (hpos e List.mem_cons_self))]
    cases w.write files e with
    | error rc => exact ⟨_, rfl⟩
    | ok out =>
      obtain ⟨fl, hfl⟩ : ∃ fl, flush out.1 out.2 es = .ok fl :=
        ih fun e' he' => hpos e' (List.mem_cons_of_mem e he')
      refine ⟨{ fl with written := e :: fl.written }, ?_⟩
      dsimp only
      rw [hfl]
      rfl

variable (init f) in
/-- The same where no assertion fires. -/
theorem flush_spec (hw : w.valid = true) (hpos : ∀ e ∈ entries, 0 < e.lsn ∧ 0 < e.payloadSize) :
    ∃ fl, flush w (init ++ [f]) entries = .ok fl ∧ entries = fl.written ++ fl.entries ∧
      fl.files = init ++ [{ f with bytes := f.bytes ++ encodeAll LogEntry.toBytes fl.written }] ∧
      fl.writer.valid = true ∧ fl.writer.endLsn = w.endLsn ∧ ∀ e ∈ fl.written, e.lsn ≤ w.endLsn := by
  obtain ⟨fl, hfl⟩ : ∃ fl, flush w (init ++ [f]) entries = .ok fl := exists_flush hpos
  obtain ⟨hes, hfiles, hwriter, hle, -⟩ := flush_ok hfl
  refine ⟨fl, hfl, hes, hfiles, ?_, ?_, hle⟩
  · rw [hwriter]
    exact hw
  · rw [hwriter]

end Turn

/-! ## What the actions keep -/

section Actions

variable {s : LogHistory} {w : LogFileWriter} {init : List LogFile} {f : LogFile}
  {winit : List (List LogEntry)} {es : List LogEntry}

theorem holds_concat (h : List.Forall₂ Holds init winit) (hf : Holds f es) :
    List.Forall₂ Holds (init ++ [f]) (winit ++ [es]) :=
  List.rel_append h (.cons hf .nil)

/-- An entry that is appended has the next number. -/
theorem Whole.append (h : Whole s) (module : LogModule) {data : List UInt8} (hdata : data ≠ []) :
    Whole { s with handler := (s.handler.append module data).2 } := by
  unfold DiskLogHandler.append LogEntry.init
  by_cases hsize : (data.length : Int) > LogEntry.maxPayloadSize
  · rw [if_pos hsize]
    exact h
  · rw [if_neg hsize]
    have hcur := h.current
    have hlog : s.written.flatten ++ (s.handler.entries ++
        [(⟨s.handler.currentLsn + 1, module.index, data⟩ : LogEntry)])
          = s.log ++ [⟨s.handler.currentLsn + 1, module.index, data⟩] := by
      rw [LogHistory.log, List.append_assoc]
    refine ⟨h.holds, h.fileLsn, ?_, ?_, ?_, h.writer⟩
    · show Numbered (s.written.flatten ++ _)
      rw [hlog]
      exact h.numbered.concat (by rw [← hcur])
    · show s.handler.currentLsn + 1 = ((s.written.flatten ++ _).length : Nat)
      rw [hlog, hcur, List.length_append, List.length_singleton]
      rfl
    · intro e he
      rcases List.mem_append.mp he with he | he
      · exact h.buffered e he
      · obtain rfl := List.mem_singleton.mp he
        refine ⟨module_index module, ?_, Int.not_lt.mp hsize⟩
        exact Int.natCast_pos.mpr (List.length_pos_of_ne_nil hdata)

/-- A turn, with the file it writes to open. -/
theorem turn_of_openFile (h : Whole s) (hopen : s.handler.openFile = (w, init ++ [f]))
    (hw : w.valid = true) (hend : w.endLsn = LogFileWriter.endLsnOf f.lsn)
    (hlsn : ∀ g ∈ init ++ [f], 0 ≤ g.lsn) (hinit : List.Forall₂ Holds init winit) (hf : Holds f es)
    (hwritten : (if s.written.length < (init ++ [f]).length then s.written ++ [[]] else s.written)
      = winit ++ [es]) (hflat : s.written.flatten = winit.flatten ++ es) :
    ∃ s', s.step .turn = .ok ([], s') ∧ Whole s' ∧ s'.log = s.log ∧
      s.written.flatten <+: s'.written.flatten := by
  have hpos : ∀ e ∈ s.handler.entries, 0 < e.lsn ∧ 0 < e.payloadSize := fun e he =>
    ⟨h.numbered.pos (List.mem_append_right _ he), (h.buffered e he).2.1⟩
  obtain ⟨fl, hfl, hsplit, hfiles, hvalid, hendLsn, hle⟩ := flush_spec init f hw hpos
  obtain ⟨hroom, hint⟩ := endLsnOf_le (hlsn f (List.mem_append_right _ (List.mem_singleton_self f)))
  obtain ⟨s', hs'⟩ : ∃ s', s.step .turn = .ok ([], s') ∧
      s' = s.write (s.handler.afterFlush fl) fl.written := by
    refine ⟨_, ?_, rfl⟩
    unfold LogHistory.step DiskLogHandler.turn
    rw [hopen]
    dsimp only
    rw [hfl]
    rfl
  have hlength : fl.files.length = (init ++ [f]).length := by
    rw [hfiles, List.length_append, List.length_append]
    rfl
  have hwrite : s'.written = winit ++ [es ++ fl.written] := by
    rw [hs'.2]
    unfold LogHistory.write DiskLogHandler.afterFlush
    dsimp only
    rw [hlength, hwritten, List.getLast?_concat, List.dropLast_concat]
  have hflat' : s'.written.flatten = s.written.flatten ++ fl.written := by
    rw [hwrite, hflat, List.flatten_concat, List.append_assoc]
  have hlog : s'.log = s.log := by
    have hentries : s'.handler.entries = fl.entries := by
      rw [hs'.2]
      rfl
    unfold LogHistory.log
    rw [hflat', hentries, hsplit, List.append_assoc]
  -- the last file holds what was flushed behind what it held
  have hholds : Holds { f with bytes := f.bytes ++ encodeAll LogEntry.toBytes fl.written }
      (es ++ fl.written) := by
    refine ⟨?_, fun e he => ?_, fun e he => ?_⟩
    · show f.bytes ++ _ = _
      rw [hf.bytes, encodeAll_append]
    · rcases List.mem_append.mp he with he | he
      · exact hf.valid e he
      · have hmem : e ∈ s.handler.entries := by
          rw [hsplit]
          exact List.mem_append_left _ he
        have hbuf := h.buffered e hmem
        have := hle e he
        exact ⟨⟨(hpos e hmem).1, by omega⟩, hbuf.1, hbuf.2.2⟩
    · rcases List.mem_append.mp he with he | he
      · exact hf.inFile e he
      · have := hle e he
        show e.lsn ≤ f.lsn + _ - 1
        omega
  refine ⟨s', hs'.1, ⟨?_, ?_, ?_, ?_, ?_, ?_⟩, hlog, ?_⟩
  · rw [hwrite, hs'.2]
    show List.Forall₂ Holds fl.files _
    rw [hfiles]
    exact holds_concat hinit hholds
  · rw [hs'.2]
    show ∀ g ∈ fl.files, 0 ≤ g.lsn
    rw [hfiles]
    intro g hg
    rcases List.mem_append.mp hg with hg | hg
    · exact hlsn g (List.mem_append_left _ hg)
    · obtain rfl := List.mem_singleton.mp hg
      exact hlsn f (List.mem_append_right _ (List.mem_singleton_self f))
  · rw [hlog]
    exact h.numbered
  · rw [hlog, hs'.2]
    exact h.current
  · rw [hs'.2]
    intro e he
    refine h.buffered e ?_
    rw [hsplit]
    exact List.mem_append_right _ he
  · rw [hs'.2]
    intro _
    refine ⟨{ f with bytes := f.bytes ++ encodeAll LogEntry.toBytes fl.written }, ?_, ?_⟩
    · show fl.files.getLast? = _
      rw [hfiles, List.getLast?_concat]
    · show fl.writer.endLsn = _
      rw [hendLsn, hend]
  · rw [hflat']
    exact List.prefix_append _ _

/-- The thread moves entries from the buffer to the files and loses none. -/
theorem Whole.turn (h : Whole s) :
    ∃ s', s.step .turn = .ok ([], s') ∧ Whole s' ∧ s'.log = s.log ∧
      s.written.flatten <+: s'.written.flatten := by
  have hlen := h.holds.length_eq
  rcases openFile_cases h with ⟨w, lsn, hopen, hw, hend, hlsn⟩ | ⟨w, f, hopen, hlast, hw, hend⟩
  · have hnew : Holds ⟨lsn, []⟩ [] :=
      ⟨rfl, fun e he => absurd he List.not_mem_nil, fun e he => absurd he List.not_mem_nil⟩
    refine turn_of_openFile h hopen hw hend (fun g hg => ?_) h.holds hnew ?_ ?_
    · rcases List.mem_append.mp hg with hg | hg
      · exact h.fileLsn g hg
      · obtain rfl := List.mem_singleton.mp hg
        exact hlsn
    · rw [if_pos (by rw [List.length_append, List.length_singleton]; omega)]
    · rw [List.append_nil]
  · obtain ⟨init, hfiles⟩ := List.getLast?_eq_some_iff.mp hlast
    have hholds := h.holds
    have hlsn := h.fileLsn
    rw [hfiles] at hholds hopen hlsn hlen
    obtain ⟨winit, es, hwritten, hinit, hf⟩ := exists_of_forall₂_concat hholds
    refine turn_of_openFile h hopen hw hend hlsn hinit hf ?_ ?_
    · rw [if_neg (by omega), hwritten]
    · rw [hwritten, List.flatten_concat]

end Actions

/-! ## Crashes -/

/-- The actions the log is made for: it is cut off only where an entry ends, and a recovery does not start
    behind the last entry that is left. -/
def Admitted (s : LogHistory) : LogAction → Prop
  | .append _ data => data ≠ []
  | .turn => True
  | .restart k startLsn =>
    (∀ es, s.written.getLast? = some es → AtBoundary LogEntry.toBytes es k) ∧
      ∀ e, (s.cutOff k).flatten.getLast? = some e → startLsn ≤ e.lsn

section Crash

variable {s : LogHistory} {k : Nat} {startLsn : Int}

/-- What is left after a crash is a beginning of what was written. -/
theorem cutOff_isPrefix (s : LogHistory) (k : Nat) : (s.cutOff k).flatten <+: s.written.flatten := by
  unfold LogHistory.cutOff
  cases hl : s.written.getLast? with
  | none => exact List.nil_prefix
  | some es =>
    obtain ⟨winit, hw⟩ := List.getLast?_eq_some_iff.mp hl
    dsimp only
    rw [hw, List.dropLast_concat, List.flatten_concat, List.flatten_concat]
    exact (List.prefix_append_right_inj _).mpr (complete_isPrefix es k)

/-- The files after a crash hold the complete entries. -/
theorem holds_cutOff (h : List.Forall₂ Holds s.handler.files s.written)
    (hbound : ∀ es, s.written.getLast? = some es → AtBoundary LogEntry.toBytes es k) :
    List.Forall₂ Holds (cutOff s.handler.files k) (s.cutOff k) := by
  unfold cutOff LogHistory.cutOff
  cases hl : s.handler.files.getLast? with
  | none =>
    rw [List.getLast?_eq_none_iff] at hl
    rw [hl] at h
    rw [List.forall₂_nil_left_iff.mp h]
    exact .nil
  | some f =>
    obtain ⟨init, hfiles⟩ := List.getLast?_eq_some_iff.mp hl
    rw [hfiles] at h
    obtain ⟨winit, es, hw, hinit, hf⟩ := exists_of_forall₂_concat h
    rw [hw, List.getLast?_concat] at hbound
    have hcut : AtBoundary LogEntry.toBytes es k := hbound es rfl
    rw [hw, hfiles, List.getLast?_concat, List.dropLast_concat]
    dsimp only
    rw [List.dropLast_concat]
    have hpre : complete LogEntry.toBytes es k ⊆ es := (complete_isPrefix es k).subset
    refine holds_concat hinit ⟨?_, fun e he => hf.valid e (hpre he), fun e he => hf.inFile e (hpre he)⟩
    show f.bytes.take k = _
    rw [hf.bytes]
    exact hcut

/-- Cutting a file does not change its name. -/
theorem fileLsn_cutOff {files : List LogFile} (h : ∀ f ∈ files, 0 ≤ f.lsn) :
    ∀ f ∈ cutOff files k, 0 ≤ f.lsn := by
  intro f hf
  unfold cutOff at hf
  cases hl : files.getLast? with
  | none =>
    rw [hl] at hf
    cases hf
  | some g =>
    rw [hl] at hf
    rcases List.mem_append.mp hf with hf | hf
    · exact h f (List.dropLast_subset _ hf)
    · obtain rfl := List.mem_singleton.mp hf
      exact h g (List.mem_of_getLast? hl)

/-- The recovery after such a crash delivers what is left, from its start on, and goes on behind it. -/
theorem Whole.restart (h : Whole s) (hadm : Admitted s (.restart k startLsn)) :
    ∃ s', s.step (.restart k startLsn)
        = .ok ((s.cutOff k).flatten.filter fun e => decide (startLsn ≤ e.lsn), s') ∧
      Whole s' ∧ s'.log = (s.cutOff k).flatten ∧ s'.written = s.cutOff k := by
  have hholds := holds_cutOff h.holds hadm.1
  have hnum : Numbered (s.cutOff k).flatten :=
    h.numbered.of_prefix ((cutOff_isPrefix s k).trans (List.prefix_append _ _))
  have hlog : (LogHistory.mk (.started (cutOff s.handler.files k) (s.cutOff k).flatten.length)
      (s.cutOff k)).log = (s.cutOff k).flatten := List.append_nil _
  refine ⟨⟨.started (cutOff s.handler.files k) (s.cutOff k).flatten.length, s.cutOff k⟩, ?_, ?_, hlog, rfl⟩
  · unfold LogHistory.step
    dsimp only
    rw [restart_eq hholds hnum hadm.2]
  · refine ⟨hholds, fileLsn_cutOff h.fileLsn, ?_, ?_, fun _ he => absurd he List.not_mem_nil, ?_⟩
    · rw [hlog]
      exact hnum
    · rw [hlog]
      rfl
    · exact fun hvalid => absurd hvalid Bool.false_ne_true

/-- The step lemma. -/
theorem Whole.step {a : LogAction} {delivered : List LogEntry} {s' : LogHistory} (h : Whole s)
    (hadm : Admitted s a) (hstep : s.step a = .ok (delivered, s')) : Whole s' := by
  cases a with
  | append module data =>
    obtain ⟨-, rfl⟩ := Prod.mk.inj (Except.ok.inj hstep)
    exact h.append module hadm
  | turn =>
    obtain ⟨s'', hturn, hwhole, -⟩ := h.turn
    obtain ⟨-, rfl⟩ := Prod.mk.inj (Except.ok.inj (hturn.symm.trans hstep))
    exact hwhole
  | restart k startLsn =>
    obtain ⟨s'', hrestart, hwhole, -⟩ := h.restart hadm
    obtain ⟨-, rfl⟩ := Prod.mk.inj (Except.ok.inj (hrestart.symm.trans hstep))
    exact hwhole

/-- A cut inside a payload makes the recovery from the beginning fail. -/
theorem restart_torn_payload (h : Whole s) {winit : List (List LogEntry)} {es rest : List LogEntry}
    {e : LogEntry} (hw : s.written = winit ++ [es ++ e :: rest]) {j : Nat} (hj : j < e.data.length) :
    s.step (.restart ((encodeAll LogEntry.toBytes es).length + (LogHeader.headerSize + j)) 0)
      = .error (.recovery .ioerrRead) := by
  have hsorted := (h.numbered.of_prefix (List.prefix_append _ _)).sorted
  have hpos : ∀ e ∈ s.written.flatten, 0 < e.lsn := fun e he =>
    h.numbered.pos (List.mem_append_left _ he)
  have hholds := h.holds
  -- there is a file, and it is the last one that is cut
  rcases List.eq_nil_or_concat' s.handler.files with hnil | ⟨init, f, hfiles⟩
  · rw [hnil] at hholds
    rw [List.forall₂_nil_left_iff.mp hholds] at hw
    exact absurd hw.symm (by simp)
  · rw [hfiles] at hholds
    obtain ⟨winit', es', hw', hinit, hf⟩ := exists_of_forall₂_concat hholds
    obtain ⟨rfl, hes⟩ := List.append_inj' (hw.symm.trans hw') rfl
    obtain rfl := (List.cons.inj hes).1
    rw [hw, List.flatten_concat] at hsorted hpos
    have hlsn := h.fileLsn f (by rw [hfiles]; exact List.mem_append_right _ (List.mem_singleton_self f))
    have he : e.Valid := hf.valid e (List.mem_append_right _ List.mem_cons_self)
    have hvalid : ∀ e' ∈ es, e'.Valid := fun e' he' => hf.valid e' (List.mem_append_left _ he')
    -- the cut leaves the header of the entry and a part of its payload
    have hcut : cutOff s.handler.files ((encodeAll LogEntry.toBytes es).length + (LogHeader.headerSize + j))
        = init ++ [⟨f.lsn, encodeAll LogEntry.toBytes es ++ (e.header.toBytes ++ e.data.take j)⟩] := by
      have hlen := LogHeader.length_toBytes e.header
      unfold cutOff
      rw [hfiles, List.getLast?_concat, List.dropLast_concat]
      dsimp only
      rw [hf.bytes, encodeAll_append, encodeAll_cons, List.take_length_add_append, LogEntry.toBytes,
        List.append_assoc, ← hlen, List.take_length_add_append, List.take_append_of_le_length hj.le]
    -- the file is read, however far the start is
    have hlisted : listFiles (init ++ [⟨f.lsn, encodeAll LogEntry.toBytes es ++
          (e.header.toBytes ++ e.data.take j)⟩]) 0
        = listFiles init 0 ++ [⟨f.lsn, encodeAll LogEntry.toBytes es ++
          (e.header.toBytes ++ e.data.take j)⟩] := by
      unfold listFiles
      rw [List.filter_append, List.filter_cons_of_pos, List.filter_nil]
      refine decide_eq_true ?_
      show f.lsn + maxEntryNumberPerFile - 1 ≥ 0
      unfold maxEntryNumberPerFile
      omega
    obtain ⟨s₁, hs₁⟩ := foldlM_noteEntry (winit.flatten.filter fun e => decide (0 ≤ e.lsn)) (0, [])
    obtain ⟨s₂, hs₂⟩ := foldlM_noteEntry es s₁
    -- the payload cannot be read, and this fails the recovery
    have hlast : iterateFiles (replayCallback noteEntry) 0 [⟨f.lsn, encodeAll LogEntry.toBytes es ++
        (e.header.toBytes ++ e.data.take j)⟩] s₁ = .error .ioerrRead := by
      rw [iterateFiles, iterateFile_torn hvalid he hj, hs₂]
      rfl
    have hreplay : replay noteEntry 0 (init ++ [⟨f.lsn, encodeAll LogEntry.toBytes es ++
        (e.header.toBytes ++ e.data.take j)⟩]) [] = .error .ioerrRead := by
      unfold replay
      rw [hlisted, iterateFiles_append, iterateFiles_listFiles hinit (List.pairwise_append.mp hsorted).1,
        hs₁]
      exact hlast
    unfold LogHistory.step
    dsimp only
    rw [hcut]
    unfold restart
    rw [hreplay]
    rfl

/-- **The end of the log is found.**  In every history of appends, turns of the thread, crashes and
    recoveries in which the log is cut off only where an entry ends, the files hold the entries that were
    written and not cut off, and the entries have increasing LSNs.  Every entry is accepted behind them,
    the thread moves entries to the files and loses none, and a recovery delivers exactly the complete
    entries from its start on, and leaves these for the next one. -/
theorem log_end_found (h : Reachable LogHistory.step Admitted .empty s) :
    List.Forall₂ (fun f es => f.bytes = encodeAll LogEntry.toBytes es) s.handler.files s.written ∧
    (s.log.Pairwise fun a b => a.lsn < b.lsn) ∧
    (∀ module data, data ≠ [] → (data.length : Int) ≤ LogEntry.maxPayloadSize →
      ∃ s', s.step (.append module data) = .ok ([], s') ∧
        s'.log = s.log ++ [⟨s.log.length + 1, module.index, data⟩] ∧ s'.written = s.written) ∧
    (∃ s', s.step .turn = .ok ([], s') ∧ s'.log = s.log ∧ s.written.flatten <+: s'.written.flatten) ∧
    ∀ k startLsn, Admitted s (.restart k startLsn) →
      ∃ s', s.step (.restart k startLsn)
          = .ok ((s.cutOff k).flatten.filter fun e => decide (startLsn ≤ e.lsn), s') ∧
        s'.log = (s.cutOff k).flatten ∧ s'.written = s.cutOff k := by
  have hwhole : Whole s := h.invariant whole_empty fun _ _ _ _ hs hadm hstep => hs.step hadm hstep
  refine ⟨hwhole.holds.imp fun _ _ hf => hf.bytes, hwhole.numbered.sorted, ?_, ?_, ?_⟩
  · intro module data _ hsize
    refine ⟨_, rfl, ?_, rfl⟩
    unfold DiskLogHandler.append LogEntry.init
    rw [if_neg (Int.not_lt.mpr hsize), ← hwhole.current]
    exact (List.append_assoc _ _ _).symm
  · obtain ⟨s', hturn, -, hlog, hpre⟩ := hwhole.turn
    exact ⟨s', hturn, hlog, hpre⟩
  · intro k startLsn hadm
    obtain ⟨s', hrestart, -, hlog, hw⟩ := hwhole.restart hadm
    exact ⟨s', hrestart, hlog, hw⟩

/-- One entry, a crash that leaves it whole, and one more entry. -/
theorem log_end_found_two : ∃ s, Reachable LogHistory.step Admitted .empty s ∧
    s.written = [[⟨1, 0, [7]⟩, ⟨2, 3, [8]⟩]] ∧ s.log.Pairwise fun a b => a.lsn < b.lsn := by
  have h : Reachable LogHistory.step Admitted .empty .empty := .init
  have h := h.next (.append .bufferPool [7]) (List.cons_ne_nil _ _) rfl
  have h := h.next .turn trivial rfl
  have h := h.next (.restart 17 0) ⟨fun es hes => by obtain rfl := Option.some.inj hes; rfl,
    fun e he => by obtain rfl := Option.some.inj he; decide⟩ rfl
  have h := h.next (.append .transaction [8]) (List.cons_ne_nil _ _) rfl
  have h := h.next .turn trivial rfl
  exact ⟨_, h, rfl, (log_end_found h).2.1⟩

/-- The log ends inside the payload of its only entry. -/
theorem recovery_fails_in_payload :
    runOps LogHistory.step .empty [.append .bufferPool [7], .turn, .restart 16 0]
      = .error (.recovery .ioerrRead) := rfl

/-- The log ends inside the header of its second entry: the next recovery but one fails. -/
example : runOps LogHistory.step .empty
    [.append .bufferPool [7], .append .bufferPool [8], .turn, .restart 20 0,
      .append .bufferPool [9], .turn, .restart 100 0] = .error (.recovery .ioerrRead) := rfl

end Crash

end Miniob.Clog
