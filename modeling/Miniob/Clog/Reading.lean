/-
  What a reader makes of a log file that holds whole entries.

  A header comes back from its bytes, and an entry from the front of a file.  So `iterate` hands the
  entries to its callback one by one, from the first one on whose LSN is not below the start.
-/
import Miniob.Clog.LogFile
import Miniob.Common.Run

namespace Miniob.Clog

open Miniob.Common Miniob.Storage

/-- An entry whose header fits its fields. -/
structure LogEntry.Valid (e : LogEntry) : Prop where
  lsn : 0 < e.lsn ∧ e.lsn < 2 ^ 31
  moduleId : 0 ≤ e.moduleId ∧ e.moduleId < 4
  size : e.payloadSize ≤ maxPayloadSize

theorem intOfBytes_of_range {width : Nat} {x : Int} (h0 : 0 ≤ x) (h : x < (256 ^ width : Nat) / 2) :
    intOfBytes (bytesOfInt width x) = x := by
  rw [intOfBytes_bytesOfInt]
  exact Int.bmod_eq_of_le (by omega) (by omega)

/-- A header comes back from its bytes. -/
theorem LogHeader.ofBytes_toBytes {e : LogEntry} (h : e.Valid) :
    LogHeader.ofBytes e.header.toBytes = e.header := by
  have hlsn := h.lsn
  have hmodule := h.moduleId
  have hsize := h.size
  have hpos : 0 ≤ e.payloadSize := Int.natCast_nonneg _
  unfold LogEntry.maxPayloadSize at hsize
  have h8 : (bytesOfInt 8 e.lsn).length = 8 := length_bytesOfInt 8 _
  have h4 : (bytesOfInt 4 e.payloadSize).length = 4 := length_bytesOfInt 4 _
  unfold LogHeader.ofBytes LogHeader.toBytes LogEntry.header
  dsimp only
  rw [List.take_left' h8, List.drop_left' h8, List.take_left' h4, ← List.append_assoc,
    List.drop_left' (by rw [List.length_append, h8, h4]), intOfBytes_of_range (by omega) (by omega),
    intOfBytes_of_range (by omega) (by omega), intOfBytes_of_range (by omega) (by omega)]

theorem LogHeader.length_toBytes (h : LogHeader) : h.toBytes.length = LogHeader.headerSize := by
  unfold LogHeader.toBytes
  rw [List.length_append, List.length_append, length_bytesOfInt, length_bytesOfInt, length_bytesOfInt]
  rfl

theorem LogEntry.length_toBytes (e : LogEntry) :
    e.toBytes.length = LogHeader.headerSize + e.data.length := by
  unfold LogEntry.toBytes
  rw [List.length_append, LogHeader.length_toBytes]

theorem readn_append {bytes : List UInt8} (rest : List UInt8) {size : Nat} (h : bytes.length = size) :
    readn size (bytes ++ rest) = some (bytes, rest) := by
  unfold readn
  rw [if_pos (by rw [List.length_append]; omega), List.take_left' h, List.drop_left' h]

/-- No more entries than bytes. -/
theorem length_le_encodeAll (es : List LogEntry) :
    es.length ≤ (encodeAll LogEntry.toBytes es).length := by
  induction es with
  | nil => exact Nat.le_refl 0
  | cons e es ih =>
    have hlen := e.length_toBytes
    unfold LogHeader.headerSize at hlen
    rw [encodeAll_cons, List.length_append, List.length_cons]
    omega

section LogFileReader

variable {S : Type} {callback : S → LogEntry → Except RC S} {es : List LogEntry}

/-- `iterate` calls the callback for each entry at the front of the file. -/
theorem iterateLoop_append (hvalid : ∀ e ∈ es, e.Valid) (fuel : Nat) (rest : List UInt8) (s : S) :
    iterateLoop callback (es.length + fuel) (encodeAll LogEntry.toBytes es ++ rest) s
      = es.foldlM callback s >>= iterateLoop callback fuel rest := by
  induction es generalizing s with
  | nil =>
    rw [encodeAll_nil, List.length_nil, Nat.zero_add]
    rfl
  | cons e es ih =>
    have he : e.Valid := hvalid e List.mem_cons_self
    have hsize := he.size
    have hpos : 0 ≤ e.payloadSize := Int.natCast_nonneg _
    have hdata : e.data.length = e.payloadSize.toNat := (Int.toNat_natCast _).symm
    rw [List.length_cons, Nat.succ_add, iterateLoop, encodeAll_cons, LogEntry.toBytes, List.append_assoc,
      List.append_assoc, readn_append _ (LogHeader.length_toBytes _)]
    dsimp only
    rw [LogHeader.ofBytes_toBytes he, if_neg (show ¬ (e.header.size < 0 ∨ e.header.size > _) from by
      rw [not_or]; exact ⟨Int.not_lt.mpr hpos, Int.not_lt.mpr hsize⟩)]
    rw [show e.header.size.toNat = e.data.length from hdata.symm, readn_append _ rfl, List.foldlM_cons,
      bind_assoc]
    refine bind_congr fun s' => ?_
    exact ih (fun e' he' => hvalid e' (List.mem_cons_of_mem e he')) s'

theorem iterateLoop_nil (fuel : Nat) (s : S) : iterateLoop callback fuel [] s = .ok s := by
  cases fuel with
  | zero => rfl
  | succ fuel => rfl

theorem iterateLoop_encodeAll (hvalid : ∀ e ∈ es, e.Valid) {fuel : Nat} (hfuel : es.length ≤ fuel)
    (s : S) :
    iterateLoop callback fuel (encodeAll LogEntry.toBytes es) s = es.foldlM callback s := by
  obtain ⟨fuel, rfl⟩ := Nat.exists_eq_add_of_le hfuel
  rw [← List.append_nil (encodeAll _ es), iterateLoop_append hvalid, show
    iterateLoop callback fuel [] = Except.ok from funext (iterateLoop_nil fuel)]
  exact bind_pure _

/-- Behind the entries a header is read again, and then a payload that is not complete. -/
theorem iterateLoop_torn {e : LogEntry} (hvalid : ∀ e ∈ es, e.Valid) (he : e.Valid) (fuel : Nat)
    {j : Nat} (hj : j < e.data.length) (s : S) :
    iterateLoop callback (es.length + (fuel + 1))
        (encodeAll LogEntry.toBytes es ++ (e.header.toBytes ++ e.data.take j)) s
      = es.foldlM callback s >>= fun _ => .error .ioerrRead := by
  rw [iterateLoop_append hvalid]
  refine bind_congr fun s' => ?_
  have hdata : e.data.length = e.header.size.toNat := (Int.toNat_natCast _).symm
  have hshort : readn e.header.size.toNat (e.data.take j) = none := by
    unfold readn
    rw [if_neg (by rw [List.length_take]; omega)]
  rw [iterateLoop, readn_append _ (LogHeader.length_toBytes _)]
  dsimp only
  rw [LogHeader.ofBytes_toBytes he, hshort]
  split <;> rfl

/-- `skip_to` stays where it is if the first entry counts. -/
theorem skipTo_of_le {e : LogEntry} (he : e.Valid) {startLsn : Int} (hlsn : startLsn ≤ e.lsn)
    (fuel : Nat) (rest : List UInt8) :
    skipTo startLsn (fuel + 1) (e.header.toBytes ++ rest) = .ok (e.header.toBytes ++ rest) := by
  rw [skipTo, readn_append _ (LogHeader.length_toBytes _)]
  dsimp only
  rw [LogHeader.ofBytes_toBytes he]
  exact if_pos hlsn

/-- `skip_to` passes over the entries below the start. -/
theorem skipTo_encodeAll (hvalid : ∀ e ∈ es, e.Valid) (startLsn : Int) {fuel : Nat}
    (hfuel : es.length ≤ fuel) :
    skipTo startLsn fuel (encodeAll LogEntry.toBytes es)
      = .ok (encodeAll LogEntry.toBytes (es.dropWhile fun e => decide (e.lsn < startLsn))) := by
  -- the induction is on the entries, each of which is read in one round of the loop
  induction es generalizing fuel with
  | nil =>
    cases fuel with
    | zero => rfl
    | succ fuel => rfl
  | cons e es ih =>
    have he : e.Valid := hvalid e List.mem_cons_self
    have hsize := he.size
    have hpos : 0 ≤ e.payloadSize := Int.natCast_nonneg _
    have hdata : e.data.length = e.payloadSize.toNat := (Int.toNat_natCast _).symm
    cases fuel with
    | zero => exact absurd hfuel (Nat.not_succ_le_zero _)
    | succ fuel =>
      rw [skipTo, encodeAll_cons, LogEntry.toBytes, List.append_assoc,
        readn_append _ (LogHeader.length_toBytes _)]
      dsimp only
      rw [LogHeader.ofBytes_toBytes he]
      -- an entry below the start is passed over, and its payload is skipped
      by_cases hlsn : e.lsn < startLsn
      · rw [if_neg (show ¬ e.header.lsn ≥ startLsn from Int.not_le.mpr hlsn),
          if_neg (show ¬ (e.header.size < 0 ∨ e.header.size > _) from by
            rw [not_or]; exact ⟨Int.not_lt.mpr hpos, Int.not_lt.mpr hsize⟩),
          show e.header.size.toNat = e.data.length from hdata.symm, List.drop_left,
          List.dropWhile_cons_of_pos (by simpa using hlsn)]
        exact ih (fun e' he' => hvalid e' (List.mem_cons_of_mem e he')) (Nat.le_of_succ_le_succ hfuel)
      -- the first entry from the start on is left for the caller
      · rw [if_pos (show e.header.lsn ≥ startLsn from Int.not_lt.mp hlsn),
          List.dropWhile_cons_of_neg (by simpa using hlsn), encodeAll_cons, LogEntry.toBytes,
          List.append_assoc]

/-- A file that ends inside a payload cannot be read. -/
theorem iterateFile_torn {e : LogEntry} (hvalid : ∀ e ∈ es, e.Valid) (he : e.Valid) {j : Nat}
    (hj : j < e.data.length) (s : S) :
    iterateFile callback 0 (encodeAll LogEntry.toBytes es ++ (e.header.toBytes ++ e.data.take j)) s
      = es.foldlM callback s >>= fun _ => .error .ioerrRead := by
  have hlen := LogHeader.length_toBytes e.header
  have hcount := length_le_encodeAll es
  unfold LogHeader.headerSize at hlen
  -- nothing is skipped, as the start is 0
  have hskip : ∀ fuel, skipTo 0 (fuel + 1) (encodeAll LogEntry.toBytes es ++
      (e.header.toBytes ++ e.data.take j)) = .ok (encodeAll LogEntry.toBytes es ++
      (e.header.toBytes ++ e.data.take j)) := by
    intro fuel
    cases es with
    | nil => exact skipTo_of_le he he.lsn.1.le fuel _
    | cons e' es =>
      have he' : e'.Valid := hvalid e' List.mem_cons_self
      rw [encodeAll_cons, LogEntry.toBytes, List.append_assoc, List.append_assoc]
      exact skipTo_of_le he' he'.lsn.1.le fuel _
  have hle : es.length + 1 ≤ (encodeAll LogEntry.toBytes es ++
      (e.header.toBytes ++ e.data.take j)).length := by
    rw [List.length_append, List.length_append]
    omega
  -- the fuel is enough for every entry and for the torn one
  obtain ⟨fuel, hfuel⟩ := Nat.exists_eq_add_of_le hle
  have hfuel' : es.length + 1 + fuel = es.length + (fuel + 1) := by omega
  have hskip' := hskip (es.length + fuel)
  rw [show es.length + fuel + 1 = es.length + 1 + fuel from by omega, ← hfuel] at hskip'
  unfold iterateFile
  rw [hskip', bind_ok _ rfl, hfuel, hfuel']
  exact iterateLoop_torn hvalid he fuel hj s

/-- In a list that is sorted by LSN the entries behind the first one that counts count as well. -/
theorem dropWhile_eq_filter (startLsn : Int) (hsorted : es.Pairwise fun a b => a.lsn < b.lsn) :
    (es.dropWhile fun e => decide (e.lsn < startLsn)) = es.filter fun e => decide (startLsn ≤ e.lsn) := by
  induction es with
  | nil => rfl
  | cons e es ih =>
    obtain ⟨hlt, hsorted⟩ := List.pairwise_cons.mp hsorted
    by_cases hlsn : e.lsn < startLsn
    · rw [List.dropWhile_cons_of_pos (by simpa using hlsn), ih hsorted,
        List.filter_cons_of_neg (by simpa using hlsn)]
    · rw [List.dropWhile_cons_of_neg (by simpa using hlsn)]
      refine (List.filter_eq_self.mpr fun e' he' => ?_).symm
      rcases List.mem_cons.mp he' with rfl | he'
      · simpa using hlsn
      · have := hlt e' he'
        exact decide_eq_true (by omega)

/-- **One file.** -/
theorem iterateFile_encodeAll (hvalid : ∀ e ∈ es, e.Valid) (startLsn : Int)
    (hsorted : es.Pairwise fun a b => a.lsn < b.lsn) (s : S) :
    iterateFile callback startLsn (encodeAll LogEntry.toBytes es) s
      = (es.filter fun e => decide (startLsn ≤ e.lsn)).foldlM callback s := by
  have hsub : (es.filter fun e => decide (startLsn ≤ e.lsn)).Sublist es := List.filter_sublist
  have hlen := length_le_encodeAll es
  unfold iterateFile
  rw [skipTo_encodeAll hvalid startLsn hlen, dropWhile_eq_filter startLsn hsorted]
  refine iterateLoop_encodeAll (fun e he => hvalid e (hsub.subset he)) ?_ s
  exact length_le_encodeAll _

end LogFileReader

end Miniob.Clog
