/-
  The packets of the MySQL protocol (`OkPacket`, `EofPacket`, `ErrPacket` and the packets of a result set in
  src/observer/net/mysql_communicator.cpp), and the rules by which a client reads them.

  1. A packet is the length of its payload in three bytes, its sequence id, and the payload.  A stream of packets
     splits again into these packets (`splitPackets_bytes`).
  2. Each payload has one lemma about its size and one about what is read of it.
  3. The texts of a payload may be cut when they are stored, so there are two directions: texts within the bounds
     come back, and texts that come back are within the bounds (`of_readLenencString`).
-/
import Miniob.Net.MysqlStore

namespace Miniob.Net.Mysql

open Miniob.Common
open Miniob.Expr.Cast (Text noZeros)

/-! ## Packets -/

structure Packet where
  sequenceId : UInt8
  payload : List UInt8

def Packet.bytes (p : Packet) : List UInt8 := storeInt3 p.payload.length ++ p.sequenceId :: p.payload

/-- Payloads with consecutive ids; an id is one byte, and 0 comes after 255. -/
def numbered : UInt8 → List (List UInt8) → List Packet
  | _, [] => []
  | id, payload :: payloads => ⟨id, payload⟩ :: numbered (id + 1) payloads

def Consecutive : UInt8 → List Packet → Prop
  | _, [] => True
  | id, p :: packets => p.sequenceId = id ∧ Consecutive (id + 1) packets

/-- As many payload bytes as the header declares, packet by packet. -/
def splitPackets : Nat → List UInt8 → Option (List Packet)
  | _, [] => some []
  | 0, _ :: _ => none
  | fuel + 1, bytes => do
    let (len, rest) ← readWidth 3 bytes
    match rest with
    | [] => none
    | id :: rest =>
      if len ≤ rest.length then (splitPackets fuel (rest.drop len)).map (⟨id, rest.take len⟩ :: ·) else none

theorem consecutive_numbered (id : UInt8) (payloads : List (List UInt8)) : Consecutive id (numbered id payloads) := by
  induction payloads generalizing id with
  | nil => trivial
  | cons payload payloads ih => exact ⟨rfl, ih (id + 1)⟩

theorem payload_numbered (id : UInt8) (payloads : List (List UInt8)) :
    (numbered id payloads).map Packet.payload = payloads := by
  induction payloads generalizing id with
  | nil => rfl
  | cons payload payloads ih => exact congrArg _ (ih (id + 1))

/-- The numbers go on in the second list. -/
theorem numbered_append (id : UInt8) (xs ys : List (List UInt8)) :
    numbered id (xs ++ ys) = numbered id xs ++ numbered (id + UInt8.ofNat xs.length) ys := by
  induction xs generalizing id with
  | nil => exact congrArg (numbered · ys) (UInt8.add_zero id).symm
  | cons x xs ih =>
    have hid : id + 1 + UInt8.ofNat xs.length = id + UInt8.ofNat (xs.length + 1) := by
      rw [UInt8.add_assoc, UInt8.add_comm 1, UInt8.ofNat_add]
      rfl
    rw [List.cons_append, numbered, ih, hid]
    rfl

/-- A stream of packets that are short enough falls apart into them again. -/
theorem splitPackets_bytes {packets : List Packet} (h : ∀ p ∈ packets, p.payload.length < 2 ^ 24) {fuel : Nat}
    (hfuel : packets.length ≤ fuel) : splitPackets fuel (packets.flatMap Packet.bytes) = some packets := by
  induction packets generalizing fuel with
  | nil => cases fuel <;> rfl
  | cons p packets ih =>
    cases fuel with
    | zero => cases hfuel
    | succ fuel =>
      have hlen : p.payload.length % 256 ^ 3 = p.payload.length := by
        have hp := h p List.mem_cons_self
        omega
      have hint : storeInt3 p.payload.length = bytesOfNat 3 p.payload.length := by
        unfold storeInt3 bytesOfInt
        rw [← Int.natCast_emod, Int.toNat_natCast, hlen]
      have hbytes : (p :: packets).flatMap Packet.bytes
          = bytesOfNat 3 p.payload.length ++ p.sequenceId :: (p.payload ++ packets.flatMap Packet.bytes) := by
        rw [List.flatMap_cons, Packet.bytes, hint, List.append_assoc, List.cons_append]
      have hcons : bytesOfNat 3 p.payload.length ++ p.sequenceId :: (p.payload ++ packets.flatMap Packet.bytes) ≠ [] :=
        List.append_ne_nil_of_right_ne_nil _ (List.cons_ne_nil _ _)
      obtain ⟨b, bytes, hb⟩ := List.exists_cons_of_ne_nil hcons
      have hread := readWidth_bytesOfNat 3 p.payload.length
        (p.sequenceId :: (p.payload ++ packets.flatMap Packet.bytes))
      rw [hlen, hb] at hread
      have hrest := ih (fun q hq => h q (List.mem_cons_of_mem _ hq)) (Nat.le_of_succ_le_succ hfuel)
      rw [hbytes, hb, splitPackets, hread]
      · dsimp only [Option.bind_eq_bind, Option.bind_some]
        rw [if_pos (by rw [List.length_append]; omega), List.take_left, List.drop_left, hrest]
        rfl
      · exact List.cons_ne_nil b bytes

/-! ## Capabilities -/

def clientProtocol41 : UInt32 := 512

def clientTransactions : UInt32 := 8192

def clientSessionTrack : UInt32 := (1 : UInt32) <<< 23

def clientDeprecateEof : UInt32 := (1 : UInt32) <<< 24

def clientOptionalResultsetMetadata : UInt32 := (1 : UInt32) <<< 25

def has (capabilities flag : UInt32) : Bool := capabilities &&& flag != 0

/-- `client_capabilities_flag_`: CLIENT_DEPRECATE_EOF is taken out of the flags of the handshake. -/
def sessionCapabilities (clientFlag : UInt32) : UInt32 := clientFlag &&& ~~~ clientDeprecateEof

theorem has_clientDeprecateEof (clientFlag : UInt32) :
    has (sessionCapabilities clientFlag) clientDeprecateEof = false := by
  unfold has sessionCapabilities
  rw [UInt32.and_assoc, UInt32.not_and_self, UInt32.and_zero]
  rfl

/-! ## What is written -/

/-- The status flags and the warnings of an OK packet. -/
def statusBytes (capabilities : UInt32) : List UInt8 :=
  if has capabilities clientProtocol41 then storeInt2 0x22 ++ storeInt2 0
  else if has capabilities clientTransactions then storeInt2 0x22
  else []

/-- The text of an OK packet is sent with CLIENT_SESSION_TRACK only. -/
def storeInfo (capabilities : UInt32) (info : Text) : Except Fault (List UInt8) :=
  if has capabilities clientSessionTrack then storeLenencString info else .ok []

/-- `OkPacket::encode`. -/
def okPayload (capabilities : UInt32) (affectedRows : Nat) (info : Text) : Except Fault (List UInt8) := do
  let infoBytes ← storeInfo capabilities info
  .ok (storeInt1 0 ++ storeLenencInt (UInt64.ofNat affectedRows) ++ storeLenencInt 0 ++ statusBytes capabilities
    ++ infoBytes)

/-- `EofPacket::encode`. -/
def eofPayload (capabilities : UInt32) (statusFlags : Int) : List UInt8 :=
  storeInt1 0xFE ++ if has capabilities clientProtocol41 then storeInt2 0 ++ storeInt2 statusFlags else []

/-- `ErrPacket::encode`. -/
def errPayload (capabilities : UInt32) (errorCode : Int) (errorMessage : Text) : List UInt8 :=
  storeInt1 0xFF ++ storeInt2 errorCode
    ++ (if has capabilities clientProtocol41 then [0x23, 0x48, 0x59, 0x30, 0x30, 0x30] else []) ++ errorMessage.val

/-- The number of columns. -/
def countPayload (capabilities : UInt32) (cellNum : Nat) : List UInt8 :=
  (if has capabilities clientOptionalResultsetMetadata then storeInt1 1 else [])
    ++ storeLenencInt (UInt64.ofNat cellNum)

/-- What is sent of a `TupleCellSpec`. -/
structure Column where
  tableName : Text
  aliasName : Text

/-- `"def"`. -/
def catalog : Text := ⟨[0x64, 0x65, 0x66], noZeros rfl⟩

/-- `"sys"`. -/
def schema : Text := ⟨[0x73, 0x79, 0x73], noZeros rfl⟩

/-- The character set, the length, the type, the flags and the decimals of a column, and a filler. -/
def fixedLenFields : List UInt8 :=
  storeInt2 33 ++ storeInt4 16384 ++ storeInt1 253 ++ storeInt2 0 ++ storeInt1 0x1F ++ storeInt2 0

/-- The definition of a column. -/
def definitionPayload (column : Column) : Except Fault (List UInt8) := do
  let catalogBytes ← storeLenencString catalog
  let schemaBytes ← storeLenencString schema
  let table ← storeLenencString column.tableName
  let orgTable ← storeLenencString column.tableName
  let name ← storeLenencString column.aliasName
  let orgName ← storeLenencString column.aliasName
  .ok (catalogBytes ++ (schemaBytes ++ (table ++ (orgTable ++ (name ++ (orgName ++
    (storeLenencInt 0x0C ++ fixedLenFields)))))))

/-- A value of a row. -/
inductive Cell where
  | null
  | text (s : Text)

/-- `"null"`. -/
def nullStr : Text := ⟨[0x6E, 0x75, 0x6C, 0x6C], noZeros rfl⟩

/-- `Value::to_string`. -/
def Cell.toText : Cell → Text
  | .null => nullStr
  | .text s => s

/-- A row up to the first cell that `cell_at` fails at. -/
def rowPayload {RC : Type} : List (Except RC Cell) → Except Fault (List UInt8)
  | [] => .ok []
  | .error _ :: _ => .ok []
  | .ok cell :: cells => do
    let first ← storeLenencString cell.toText
    let rest ← rowPayload cells
    .ok (first ++ rest)

/-! ## What is read -/

/-- The text at the end of an OK packet: without CLIENT_SESSION_TRACK it is all that is left. -/
def readInfo (capabilities : UInt32) (bytes : List UInt8) : Option (List UInt8) :=
  if has capabilities clientSessionTrack then do
    let (info, bytes) ← readLenencString bytes
    guard (bytes = [])
    some info
  else some bytes

/-- The affected rows of an OK packet. -/
def readOk (capabilities : UInt32) : List UInt8 → Option Nat
  | [] => none
  | header :: bytes => do
    guard (header = 0)
    let (affectedRows, bytes) ← readLenencInt bytes
    let (_, bytes) ← readLenencInt bytes
    let (_, bytes) ← readWidth (statusBytes capabilities).length bytes
    let _ ← readInfo capabilities bytes
    some affectedRows

/-- An EOF packet begins like an integer of 8 bytes, and it is shorter. -/
def isEof (payload : List UInt8) : Bool := payload.head? == some 0xFE && payload.length < 9

def isErr (payload : List UInt8) : Bool := payload.head? == some 0xFF

/-- The number of columns, where their definitions follow. -/
def readCount (capabilities : UInt32) (payload : List UInt8) : Option Nat := do
  let bytes ← if has capabilities clientOptionalResultsetMetadata then
      (if payload.head? = some 1 then some payload.tail else none) else some payload
  let (n, bytes) ← readLenencInt bytes
  guard (bytes = [])
  some n

/-- A definition as the client reads it. -/
structure Definition where
  table : List UInt8
  name : List UInt8
  deriving DecidableEq

/-- The definition of a column for CLIENT_PROTOCOL_41. -/
def readDefinition41 (payload : List UInt8) : Option Definition := do
  let (catalogName, bytes) ← readLenencString payload
  guard (catalogName = catalog.val)
  let (_, bytes) ← readLenencString bytes
  let (table, bytes) ← readLenencString bytes
  let (_, bytes) ← readLenencString bytes
  let (name, bytes) ← readLenencString bytes
  let (_, bytes) ← readLenencString bytes
  let (fixed, bytes) ← readLenencInt bytes
  guard (fixed = 12 ∧ bytes.length = 12)
  some ⟨table, name⟩

/-- The older definition: behind the names are the length in three bytes, the type in one, and the flags. -/
def readDefinition320 (payload : List UInt8) : Option Definition := do
  let (table, bytes) ← readLenencString payload
  let (name, bytes) ← readLenencString bytes
  let (length, bytes) ← readLenencString bytes
  guard (length.length = 3)
  let (type, _) ← readLenencString bytes
  guard (type.length = 1)
  some ⟨table, name⟩

def readDefinition (capabilities : UInt32) (payload : List UInt8) : Option Definition :=
  if has capabilities clientProtocol41 then readDefinition41 payload else readDefinition320 payload

/-- A cell is `0xFB` for NULL, or a string. -/
def readCell : List UInt8 → Option (Option (List UInt8) × List UInt8)
  | [] => none
  | b :: bytes => if b = 0xFB then some (none, bytes) else (readLenencString (b :: bytes)).map fun r => (some r.1, r.2)

/-- As many cells as there are columns, and nothing behind them. -/
def readRow : Nat → List UInt8 → Option (List (Option (List UInt8)))
  | 0, bytes => if bytes = [] then some [] else none
  | n + 1, bytes => do
    let (cell, bytes) ← readCell bytes
    let cells ← readRow n bytes
    some (cell :: cells)

/-! ## Integers and strings -/

/-- The bytes of a stored integer. -/
def lenencSize (n : Nat) : Nat := if n < 251 then 1 else if n < 2 ^ 17 then 3 else if n < 2 ^ 25 then 4 else 9

/-- No length takes more than nine bytes. -/
theorem lenencSize_le (n : Nat) : lenencSize n ≤ 9 := by
  unfold lenencSize
  split
  · omega
  · split
    · omega
    · split <;> omega

/-- The bytes of a stored string. -/
def lenencStringSize (s : Text) : Nat := lenencSize s.val.length + s.val.length

/-- The bounds of the code, which are not those of the protocol for two and three bytes. -/
theorem storeLenencInt_eq (value : UInt64) : storeLenencInt value
    = if value.toNat < 251 then [UInt8.ofNat value.toNat]
      else if value.toNat < 2 ^ 17 then 0xFC :: bytesOfNat 2 value.toNat
      else if value.toNat < 2 ^ 25 then 0xFD :: bytesOfNat 3 value.toNat
      else 0xFE :: bytesOfNat 8 value.toNat := by
  have h251 : value < 251 ↔ value.toNat < 251 := UInt64.lt_iff_toNat_lt
  have h17 : value < (2 : UInt64) <<< 16 ↔ value.toNat < 2 ^ 17 := UInt64.lt_iff_toNat_lt
  have h25 : value < (2 : UInt64) <<< 24 ↔ value.toNat < 2 ^ 25 := UInt64.lt_iff_toNat_lt
  unfold storeLenencInt
  rw [if_congr h251 rfl rfl, if_congr h17 rfl rfl, if_congr h25 rfl rfl]
  rfl

/-- A length takes as many bytes as it should. -/
theorem length_storeLenencInt (value : UInt64) : (storeLenencInt value).length = lenencSize value.toNat := by
  rw [storeLenencInt_eq, lenencSize]
  by_cases hone : value.toNat < 251
  · rw [if_pos hone, if_pos hone]
    rfl
  · rw [if_neg hone, if_neg hone]
    by_cases htwo : value.toNat < 2 ^ 17
    · rw [if_pos htwo, if_pos htwo, List.length_cons, length_bytesOfNat]
    · rw [if_neg htwo, if_neg htwo]
      by_cases hthree : value.toNat < 2 ^ 25
      · rw [if_pos hthree, if_pos hthree, List.length_cons, length_bytesOfNat]
      · rw [if_neg hthree, if_neg hthree, List.length_cons, length_bytesOfNat]

/-- The first byte is the value, or says how many bytes follow. -/
theorem storeLenencInt_cons (value : UInt64) : ∃ b bytes, storeLenencInt value = b :: bytes ∧
    b ≠ 0xFB ∧ b ≠ 0xFF ∧ (b = 0xFE → bytes.length = 8) ∧ (b = 0 → value.toNat = 0) := by
  rw [storeLenencInt_eq]
  split
  · rename_i hone
    have hb : (UInt8.ofNat value.toNat).toNat = value.toNat := by
      rw [UInt8.toNat_ofNat']
      omega
    have hne (b : UInt8) (h : UInt8.ofNat value.toNat = b) : value.toNat = b.toNat := by
      rw [← h, hb]
    refine ⟨_, [], rfl, ?_, ?_, ?_, ?_⟩
    · intro h
      have := hne _ h
      have : (0xFB : UInt8).toNat = 251 := rfl
      omega
    · intro h
      have := hne _ h
      have : (0xFF : UInt8).toNat = 255 := rfl
      omega
    · intro h
      have := hne _ h
      have : (0xFE : UInt8).toNat = 254 := rfl
      omega
    · intro h
      exact hne _ h
  · split
    · exact ⟨_, _, rfl, by decide, by decide, fun h => absurd h (by decide), fun h => absurd h (by decide)⟩
    · split
      · exact ⟨_, _, rfl, by decide, by decide, fun h => absurd h (by decide), fun h => absurd h (by decide)⟩
      · exact ⟨_, _, rfl, by decide, by decide, fun _ => length_bytesOfNat 8 _, fun h => absurd h (by decide)⟩

/-- A string within the bounds is stored as it is, and comes back. -/
theorem storeLenencString_spec {s : Text} (hlt : s.val.length < 2 ^ 31) (hhalf : ¬ UpperHalf s.val.length) :
    ∃ bytes, storeLenencString s = .ok bytes ∧ bytes.length = lenencStringSize s ∧
      ∀ rest, readLenencString (bytes ++ rest) = some (s.val, rest) := by
  obtain ⟨len, hlen, hstore⟩ := storeLenencString_of_lt hlt
  refine ⟨_, hstore, ?_, readLenencString_of_not_upperHalf hlen hhalf⟩
  rw [List.length_append, length_storeLenencInt, hlen]
  rfl

theorem not_upperHalf_of_lt {n : Nat} (h : n < 2 ^ 16) : ¬ UpperHalf n := by
  unfold UpperHalf
  omega

/-- An integer that is stored comes back unless it is in the upper half. -/
theorem readLenencInt_ofNat_iff {n : Nat} (hn : n < 2 ^ 64) (rest : List UInt8) :
    readLenencInt (storeLenencInt (UInt64.ofNat n) ++ rest) = some (n, rest) ↔ ¬ UpperHalf n := by
  have htoNat : (UInt64.ofNat n).toNat = n := UInt64.toNat_ofNat_of_lt' hn
  have h := readLenencInt_eq_iff (UInt64.ofNat n) rest
  rwa [htoNat] at h

/-! ## OK, EOF and ERR -/

def okSize (capabilities : UInt32) (affectedRows : Nat) (info : Text) : Nat :=
  2 + lenencSize affectedRows + (statusBytes capabilities).length
    + if has capabilities clientSessionTrack then lenencStringSize info else 0

/-- The text of an OK packet is read again. -/
theorem storeInfo_spec (capabilities : UInt32) {info : Text} (hinfo : info.val.length < 2 ^ 16) : ∃ infoBytes text,
    storeInfo capabilities info = .ok infoBytes ∧
    infoBytes.length = (if has capabilities clientSessionTrack then lenencStringSize info else 0) ∧
    readInfo capabilities infoBytes = some text := by
  obtain ⟨bytes, hstore, hsize, hread⟩ :=
    storeLenencString_spec (s := info) (by omega) (not_upperHalf_of_lt hinfo)
  unfold storeInfo readInfo
  cases has capabilities clientSessionTrack with
  | false => exact ⟨[], [], rfl, rfl, rfl⟩
  | true =>
    have hbytes := hread []
    rw [List.append_nil] at hbytes
    refine ⟨bytes, info.val, hstore, hsize, ?_⟩
    rw [if_pos rfl, hbytes]
    rfl

/-- An OK packet is read again, with its counter and text. -/
theorem okPayload_spec (capabilities : UInt32) {affectedRows : Nat} (info : Text) (hn : affectedRows < 2 ^ 31)
    (hinfo : info.val.length < 2 ^ 16) : ∃ payload, okPayload capabilities affectedRows info = .ok payload ∧
      payload.length = okSize capabilities affectedRows info ∧ payload.head? = some 0 ∧
      (readOk capabilities payload = some affectedRows ↔ ¬ UpperHalf affectedRows) := by
  have hlt : affectedRows < 2 ^ 64 := Nat.lt_trans hn (by decide)
  obtain ⟨infoBytes, text, hstore, hsize, hinfo⟩ := storeInfo_spec capabilities hinfo
  obtain ⟨m, hm⟩ : ∃ m, ∀ rest, readLenencInt (storeLenencInt (UInt64.ofNat affectedRows) ++ rest) = some (m, rest) :=
    ⟨_, readLenencInt_storeLenencInt _⟩
  have hiff : m = affectedRows ↔ ¬ UpperHalf affectedRows := by
    rw [← readLenencInt_ofNat_iff hlt [], hm, Option.some_inj, Prod.mk.injEq, and_iff_left rfl]
  have hstatus (rest : List UInt8) : readWidth (statusBytes capabilities).length (statusBytes capabilities ++ rest)
      = some (natOfBytes (statusBytes capabilities), rest) := by
    unfold readWidth
    rw [if_pos (by rw [List.length_append]; omega), List.take_left, List.drop_left]
  refine ⟨0 :: (storeLenencInt (UInt64.ofNat affectedRows) ++ (0 :: (statusBytes capabilities ++ infoBytes))),
    ?_, ?_, rfl, ?_⟩
  · unfold okPayload
    rw [bind_ok _ hstore, List.append_assoc, List.append_assoc, List.append_assoc]
    rfl
  · rw [List.length_cons, List.length_append, List.length_cons, List.length_append, length_storeLenencInt, hsize,
      UInt64.toNat_ofNat_of_lt' hlt, okSize]
    omega
  · have hread : readOk capabilities
        (0 :: (storeLenencInt (UInt64.ofNat affectedRows) ++ (0 :: (statusBytes capabilities ++ infoBytes))))
          = some m := by
      simp only [readOk, hm]
      show (readWidth _ (statusBytes capabilities ++ infoBytes)).bind _ = _
      rw [hstatus]
      show (readInfo capabilities infoBytes).bind _ = _
      rw [hinfo]
      rfl
    rw [hread, Option.some_inj, hiff]

def errSize (capabilities : UInt32) (errorMessage : Text) : Nat :=
  3 + (if has capabilities clientProtocol41 then 6 else 0) + errorMessage.val.length

theorem errPayload_spec (capabilities : UInt32) (errorCode : Int) (errorMessage : Text) :
    (errPayload capabilities errorCode errorMessage).length = errSize capabilities errorMessage ∧
    isErr (errPayload capabilities errorCode errorMessage) = true := by
  refine ⟨?_, rfl⟩
  unfold errPayload errSize
  rw [List.length_append, List.length_append, List.length_append, storeInt1, storeInt2, length_bytesOfInt,
    length_bytesOfInt]
  cases has capabilities clientProtocol41 <;> rfl

theorem eofPayload_spec (capabilities : UInt32) (statusFlags : Int) :
    (eofPayload capabilities statusFlags).length ≤ 5 ∧ isEof (eofPayload capabilities statusFlags) = true ∧
    isErr (eofPayload capabilities statusFlags) = false := by
  unfold eofPayload
  cases has capabilities clientProtocol41 with
  | false => exact ⟨Nat.le_add_right 1 4, rfl, rfl⟩
  | true => exact ⟨Nat.le_refl 5, rfl, rfl⟩

/-! ## The definitions -/

/-- The number of columns is read again, unless it is one of those that are written wrong. -/
theorem countPayload_spec (capabilities : UInt32) {n : Nat} (hpos : n ≠ 0) (hn : n < 2 ^ 31) :
    (countPayload capabilities n).length ≤ 10 ∧ (countPayload capabilities n).head? ≠ some 0 ∧
    isErr (countPayload capabilities n) = false ∧
    (readCount capabilities (countPayload capabilities n) = some n ↔ ¬ UpperHalf n) := by
  have hlt : n < 2 ^ 64 := Nat.lt_trans hn (by decide)
  obtain ⟨m, hm⟩ : ∃ m, readLenencInt (storeLenencInt (UInt64.ofNat n) ++ []) = some (m, []) :=
    ⟨_, readLenencInt_storeLenencInt _ _⟩
  have hiff : m = n ↔ ¬ UpperHalf n := by
    rw [← readLenencInt_ofNat_iff hlt [], hm, Option.some_inj, Prod.mk.injEq, and_iff_left rfl]
  rw [List.append_nil] at hm
  have hsize := length_storeLenencInt (UInt64.ofNat n)
  have hle := lenencSize_le (UInt64.ofNat n).toNat
  unfold countPayload readCount
  cases has capabilities clientOptionalResultsetMetadata with
  | false =>
    obtain ⟨b, bytes, hb, -, hff, -, hzero⟩ := storeLenencInt_cons (UInt64.ofNat n)
    simp only [Bool.false_eq_true, if_false, List.nil_append]
    refine ⟨by omega, ?_, ?_, ?_⟩
    · rw [hb]
      intro h
      apply hpos
      rw [← hzero (Option.some.inj h), UInt64.toNat_ofNat_of_lt' hlt]
    · rw [isErr, hb]
      exact beq_false_of_ne fun h => hff (Option.some.inj h)
    · rw [← hiff]
      show (readLenencInt (storeLenencInt (UInt64.ofNat n))).bind _ = _ ↔ _
      rw [hm]
      exact Option.some_inj
  | true =>
    simp only [if_true]
    refine ⟨?_, fun h => absurd (Option.some.inj h) (by decide), rfl, ?_⟩
    · show (storeLenencInt (UInt64.ofNat n)).length + 1 ≤ 10
      omega
    · rw [← hiff]
      show (readLenencInt (storeLenencInt (UInt64.ofNat n))).bind _ = _ ↔ _
      rw [hm]
      exact Option.some_inj

def definitionSize (column : Column) : Nat :=
  21 + 2 * lenencStringSize column.tableName + 2 * lenencStringSize column.aliasName

def Column.definition (column : Column) : Definition := ⟨column.tableName.val, column.aliasName.val⟩

/-- The text comes back as the protocol reads it. -/
def Readable (s : Text) : Prop := s.val.length < 2 ^ 31 ∧ ¬ UpperHalf s.val.length

theorem catalog_spec : ∃ bytes, storeLenencString catalog = .ok bytes ∧ bytes.length = 4 ∧
    ∀ rest, readLenencString (bytes ++ rest) = some (catalog.val, rest) :=
  storeLenencString_spec (by decide) (by decide)

theorem schema_spec : ∃ bytes, storeLenencString schema = .ok bytes ∧ bytes.length = 4 ∧
    ∀ rest, readLenencString (bytes ++ rest) = some (schema.val, rest) :=
  storeLenencString_spec (by decide) (by decide)

/-- A definition with readable names is read as the column it is about. -/
theorem definitionPayload_of_readable (column : Column) (htable : Readable column.tableName)
    (halias : Readable column.aliasName) : ∃ payload, definitionPayload column = .ok payload ∧
      payload.length = definitionSize column ∧ readDefinition41 payload = some column.definition := by
  obtain ⟨catalogBytes, hcatalog, hcatalogLen, hcatalogRead⟩ := catalog_spec
  obtain ⟨schemaBytes, hschema, hschemaLen, hschemaRead⟩ := schema_spec
  obtain ⟨table, htable, htableLen, htableRead⟩ := storeLenencString_spec htable.1 htable.2
  obtain ⟨name, hname, hnameLen, hnameRead⟩ := storeLenencString_spec halias.1 halias.2
  have hstore : definitionPayload column = .ok (catalogBytes ++ (schemaBytes ++ (table ++ (table ++ (name ++ (name ++
      (storeLenencInt 0x0C ++ fixedLenFields))))))) := by
    unfold definitionPayload
    rw [bind_ok _ hcatalog, bind_ok _ hschema, bind_ok _ htable, bind_ok _ htable, bind_ok _ hname, bind_ok _ hname]
  refine ⟨_, hstore, ?_, ?_⟩
  · have hfixed : (storeLenencInt 0x0C ++ fixedLenFields).length = 13 := rfl
    simp only [List.length_append, hcatalogLen, hschemaLen, htableLen, hnameLen, definitionSize] at hfixed ⊢
    omega
  · unfold readDefinition41
    simp only [hcatalogRead, hschemaRead, htableRead, hnameRead, Option.bind_eq_bind, Option.bind_some]
    rfl

/-- A client without CLIENT_PROTOCOL_41 takes the catalogue for the table, and its name is not one byte long. -/
theorem readDefinition320_ne {column : Column} {payload : List UInt8} (hstore : definitionPayload column = .ok payload) :
    readDefinition320 payload ≠ some column.definition := by
  intro hread
  obtain ⟨catalogBytes, hcatalog, -, hcatalogRead⟩ := catalog_spec
  obtain ⟨schemaBytes, hschema, -, hschemaRead⟩ := schema_spec
  unfold definitionPayload at hstore
  rw [bind_ok _ hcatalog, bind_ok _ hschema] at hstore
  obtain ⟨table, htable, hstore⟩ := ok_of_bind hstore
  rw [bind_ok _ htable] at hstore
  obtain ⟨name, hname, hstore⟩ := ok_of_bind hstore
  rw [bind_ok _ hname] at hstore
  obtain rfl := Except.ok.inj hstore
  unfold readDefinition320 at hread
  simp only [hcatalogRead, hschemaRead, Option.bind_eq_bind, Option.bind_some] at hread
  obtain ⟨⟨length, rest⟩, hlength, hread⟩ := Option.bind_eq_some_iff.mp hread
  obtain ⟨-, -, hread⟩ := Option.bind_eq_some_iff.mp hread
  obtain ⟨⟨type, rest'⟩, htype, hread⟩ := Option.bind_eq_some_iff.mp hread
  obtain ⟨u, hguard, hread⟩ := Option.bind_eq_some_iff.mp hread
  -- the table is the catalogue, so these two strings are read as well, and both have three bytes
  have hdef : catalog.val = column.tableName.val := congrArg Definition.table (Option.some.inj hread)
  rw [← Subtype.ext hdef, hcatalog] at htable
  obtain rfl := Except.ok.inj htable
  rw [hcatalogRead] at hlength
  obtain ⟨-, rfl⟩ := Prod.mk.inj (Option.some.inj hlength)
  rw [hcatalogRead] at htype
  obtain ⟨rfl, -⟩ := Prod.mk.inj (Option.some.inj htype)
  cases (show (none : Option Unit) = some u from hguard)

/-- And only then. -/
theorem readable_of_readDefinition41 {column : Column} {payload : List UInt8}
    (hstore : definitionPayload column = .ok payload) (hread : readDefinition41 payload = some column.definition) :
    Readable column.tableName ∧ Readable column.aliasName := by
  obtain ⟨catalogBytes, hcatalog, -, hcatalogRead⟩ := catalog_spec
  obtain ⟨schemaBytes, hschema, -, hschemaRead⟩ := schema_spec
  unfold definitionPayload at hstore
  rw [bind_ok _ hcatalog, bind_ok _ hschema] at hstore
  obtain ⟨table, htable, hstore⟩ := ok_of_bind hstore
  rw [bind_ok _ htable] at hstore
  obtain ⟨name, hname, hstore⟩ := ok_of_bind hstore
  rw [bind_ok _ hname] at hstore
  obtain rfl := Except.ok.inj hstore
  unfold readDefinition41 at hread
  simp only [hcatalogRead, hschemaRead, Option.bind_eq_bind, Option.bind_some] at hread
  obtain ⟨-, -, hread⟩ := Option.bind_eq_some_iff.mp hread
  obtain ⟨⟨readTable, rest⟩, htableRead, hread⟩ := Option.bind_eq_some_iff.mp hread
  obtain ⟨⟨readOrg, rest'⟩, horgRead, hread⟩ := Option.bind_eq_some_iff.mp hread
  obtain ⟨⟨readName, rest''⟩, hnameRead, hread⟩ := Option.bind_eq_some_iff.mp hread
  obtain ⟨_, -, hread⟩ := Option.bind_eq_some_iff.mp hread
  obtain ⟨_, -, hread⟩ := Option.bind_eq_some_iff.mp hread
  obtain ⟨-, -, hread⟩ := Option.bind_eq_some_iff.mp hread
  have hdef := Option.some.inj hread
  have htab : readTable = column.tableName.val := congrArg Definition.table hdef
  have hnam : readName = column.aliasName.val := congrArg Definition.name hdef
  subst htab hnam
  obtain ⟨htlt, hthalf, rfl⟩ := of_readLenencString htable htableRead
  obtain ⟨_, hsame, -, hagain⟩ := storeLenencString_spec htlt hthalf
  obtain rfl := Except.ok.inj (htable.symm.trans hsame)
  rw [hagain] at horgRead
  obtain ⟨-, rfl⟩ := Prod.mk.inj (Option.some.inj horgRead)
  obtain ⟨halt, hahalf, -⟩ := of_readLenencString hname hnameRead
  exact ⟨⟨htlt, hthalf⟩, halt, hahalf⟩

/-- A definition that fits into its buffer is read again by a client with CLIENT_PROTOCOL_41. -/
theorem definitionPayload_spec (capabilities : UInt32) (column : Column) :
    (∃ payload, definitionPayload column = .ok payload ∧ 4 + payload.length ≤ 1024 ∧
      readDefinition capabilities payload = some column.definition) ↔
    has capabilities clientProtocol41 = true ∧ 4 + definitionSize column ≤ 1024 := by
  unfold readDefinition
  cases has capabilities clientProtocol41 with
  | false =>
    constructor
    · rintro ⟨payload, hstore, -, hread⟩
      exact absurd hread (readDefinition320_ne hstore)
    · rintro ⟨h, -⟩
      cases h
  | true =>
    constructor
    · rintro ⟨payload, hstore, hfit, hread⟩
      obtain ⟨htable, halias⟩ := readable_of_readDefinition41 hstore hread
      obtain ⟨_, hsame, hlen, -⟩ := definitionPayload_of_readable column htable halias
      obtain rfl := Except.ok.inj (hstore.symm.trans hsame)
      exact ⟨rfl, hlen ▸ hfit⟩
    · rintro ⟨-, hfit⟩
      -- texts of less than 1024 bytes are below the upper halves
      have hreadable {s : Text} (hs : s.val.length < 1024) : Readable s :=
        ⟨by omega, not_upperHalf_of_lt (by omega)⟩
      unfold definitionSize lenencStringSize at hfit
      obtain ⟨payload, hstore, hlen, hread⟩ := definitionPayload_of_readable column
        (hreadable (by omega)) (hreadable (by omega))
      refine ⟨payload, hstore, ?_, hread⟩
      rw [hlen]
      unfold definitionSize lenencStringSize
      exact hfit

/-! ## The rows -/

/-- What the client is to read of a cell. -/
def Cell.value : Cell → Option (List UInt8)
  | .null => none
  | .text s => some s.val

/-- A cell that comes back. -/
def Cell.Kept : Cell → Prop
  | .null => False
  | .text s => Readable s

def rowSize (cells : List Cell) : Nat := (cells.map fun cell => lenencStringSize cell.toText).sum

/-- A string is not taken for NULL. -/
theorem readCell_append {s : Text} {bytes : List UInt8} (hstore : storeLenencString s = .ok bytes) (rest : List UInt8) :
    readCell (bytes ++ rest) = (readLenencString (bytes ++ rest)).map fun r => (some r.1, r.2) := by
  obtain ⟨len, -, -, rfl⟩ := storeLenencString_eq_ok hstore
  obtain ⟨b, tail, hb, hnull, -⟩ := storeLenencInt_cons len
  rw [hb, List.append_assoc, List.cons_append, readCell, if_neg hnull]

theorem readCell_null {bytes : List UInt8} (hstore : storeLenencString nullStr = .ok bytes) (rest : List UInt8) :
    readCell (bytes ++ rest) = some (some nullStr.val, rest) := by
  obtain ⟨_, hsame, -, hread⟩ := storeLenencString_spec (s := nullStr) (by decide) (by decide)
  obtain rfl := Except.ok.inj (hstore.symm.trans hsame)
  rw [readCell_append hstore, hread]
  rfl

/-- A row of cells that are kept is read as it was. -/
theorem rowPayload_of_kept (RC : Type) {cells : List Cell} (h : ∀ cell ∈ cells, cell.Kept) :
    ∃ payload, rowPayload (cells.map .ok : List (Except RC Cell)) = .ok payload ∧ payload.length = rowSize cells ∧
      readRow cells.length payload = some (cells.map Cell.value) := by
  induction cells with
  | nil => exact ⟨[], rfl, rfl, rfl⟩
  | cons cell cells ih =>
    obtain ⟨rest, hrest, hlen, hread⟩ := ih fun c hc => h c (List.mem_cons_of_mem _ hc)
    cases cell with
    | null => exact absurd (h .null List.mem_cons_self) id
    | text s =>
      obtain ⟨hlt, hhalf⟩ : Readable s := h (.text s) List.mem_cons_self
      obtain ⟨first, hfirst, hfirstLen, hfirstRead⟩ := storeLenencString_spec hlt hhalf
      refine ⟨first ++ rest, ?_, ?_, ?_⟩
      · rw [List.map_cons, rowPayload]
        show (storeLenencString s >>= _) = _
        rw [bind_ok _ hfirst, bind_ok _ hrest]
      · rw [List.length_append, hfirstLen, hlen]
        rfl
      · rw [List.length_cons, readRow, readCell_append hfirst, hfirstRead]
        show (readRow cells.length rest).bind _ = _
        rw [hread]
        rfl

/-- And only then: the first cell that is not kept spoils the row. -/
theorem kept_of_readRow {RC : Type} {cells : List Cell} {payload : List UInt8}
    (hstore : rowPayload (cells.map .ok : List (Except RC Cell)) = .ok payload)
    (hread : readRow cells.length payload = some (cells.map Cell.value)) : ∀ cell ∈ cells, cell.Kept := by
  induction cells generalizing payload with
  | nil => exact fun cell h => absurd h List.not_mem_nil
  | cons cell cells ih =>
    rw [List.map_cons, rowPayload] at hstore
    obtain ⟨first, hfirst, hstore⟩ := ok_of_bind hstore
    obtain ⟨rest, hrest, hstore⟩ := ok_of_bind hstore
    obtain rfl := Except.ok.inj hstore
    rw [List.length_cons, readRow] at hread
    obtain ⟨⟨value, bytes⟩, hcell, hread⟩ := Option.bind_eq_some_iff.mp hread
    obtain ⟨values, hvalues, hread⟩ := Option.bind_eq_some_iff.mp hread
    obtain ⟨hvalue, htail⟩ := List.cons.inj (Option.some.inj hread)
    subst hvalue htail
    cases cell with
    | null =>
      rw [readCell_null hfirst] at hcell
      cases (Prod.mk.inj (Option.some.inj hcell)).1
    | text s =>
      rw [readCell_append hfirst] at hcell
      obtain ⟨⟨text, bytes'⟩, htext, hcell⟩ := Option.map_eq_some_iff.mp hcell
      obtain ⟨hval, rfl⟩ := Prod.mk.inj hcell
      obtain rfl := Option.some.inj hval
      obtain ⟨hlt, hhalf, rfl⟩ := of_readLenencString hfirst htext
      intro c hc
      rcases List.mem_cons.mp hc with rfl | hc
      · exact ⟨hlt, hhalf⟩
      · exact ih hrest hvalues c hc

/-- The packet of a row is 4 megabytes at most. -/
def rowBufferSize : Nat := 4 * 1024 * 1024

/-- A row that fits into its buffer is read again exactly if each of its cells is. -/
theorem rowPayload_spec (RC : Type) (cells : List Cell) :
    (∃ payload, rowPayload (cells.map .ok : List (Except RC Cell)) = .ok payload ∧ 4 + payload.length ≤ rowBufferSize ∧
      readRow cells.length payload = some (cells.map Cell.value)) ↔
    (∀ cell ∈ cells, cell.Kept) ∧ 4 + rowSize cells ≤ rowBufferSize := by
  constructor
  · rintro ⟨payload, hstore, hfit, hread⟩
    have hkept := kept_of_readRow hstore hread
    obtain ⟨_, hsame, hlen, -⟩ := rowPayload_of_kept RC hkept
    obtain rfl := Except.ok.inj (hstore.symm.trans hsame)
    exact ⟨hkept, hlen ▸ hfit⟩
  · rintro ⟨hkept, hfit⟩
    obtain ⟨payload, hstore, hlen, hread⟩ := rowPayload_of_kept RC hkept
    exact ⟨payload, hstore, by rwa [hlen], hread⟩

/-- The packet of a row is not taken for an EOF packet. -/
theorem isEof_rowPayload {RC : Type} {cells : List (Except RC Cell)} {payload : List UInt8}
    (hstore : rowPayload cells = .ok payload) : isEof payload = false := by
  cases cells with
  | nil =>
    obtain rfl := Except.ok.inj hstore
    rfl
  | cons cell cells =>
    cases cell with
    | error rc =>
      obtain rfl := Except.ok.inj hstore
      rfl
    | ok cell =>
      rw [rowPayload] at hstore
      obtain ⟨first, hfirst, hstore⟩ := ok_of_bind hstore
      obtain ⟨rest, -, hstore⟩ := ok_of_bind hstore
      obtain rfl := Except.ok.inj hstore
      obtain ⟨len, -, -, rfl⟩ := storeLenencString_eq_ok hfirst
      obtain ⟨b, tail, hb, -, -, height, -⟩ := storeLenencInt_cons len
      rw [hb]
      by_cases heof : b = 0xFE
      · have htail := height heof
        unfold isEof
        rw [Bool.and_eq_false_iff]
        refine Or.inr (decide_eq_false ?_)
        simp only [List.length_append, List.length_cons]
        omega
      · unfold isEof
        rw [Bool.and_eq_false_iff]
        exact Or.inl (beq_false_of_ne fun h => heof (Option.some.inj h))

end Miniob.Net.Mysql
