/-
  The check sum of a page (`crc32` in src/deps/common/math/crc.cpp) and what `load_pages` does with it.

  1. `crc32` takes a byte at a time and looks up a table of 256 words.  The table is the one of the polynomial
     0xEDB88320, and the loop is the shift register of that polynomial (`toBitVec_crc32`).
  2. The bytes are `char`s, which are signed.  The upper bits of a negative one are masked out (`low_signExtend`).
  3. A page whose data has been damaged within 32 bits that lie next to one another no longer carries its check sum,
     so `recover` does not write it back (`recover_writes_undamaged`).

  Left out: nothing of `crc32`.  The data of a page has the size `size` here, which is `BP_PAGE_DATA_SIZE` there.
-/
import Miniob.Buffer.WriteAhead
import Miniob.Common.ShiftRegister

namespace Miniob.Buffer

open Miniob.Common Miniob.Common.ShiftRegister Miniob.Storage

/-! ## `crc32` -/

def crcTable : List UInt32 := [
  0x00000000, 0x77073096, 0xEE0E612C, 0x990951BA, 0x076DC419, 0x706AF48F, 0xE963A535, 0x9E6495A3,
  0x0EDB8832, 0x79DCB8A4, 0xE0D5E91E, 0x97D2D988, 0x09B64C2B, 0x7EB17CBD, 0xE7B82D07, 0x90BF1D91,
  0x1DB71064, 0x6AB020F2, 0xF3B97148, 0x84BE41DE, 0x1ADAD47D, 0x6DDDE4EB, 0xF4D4B551, 0x83D385C7,
  0x136C9856, 0x646BA8C0, 0xFD62F97A, 0x8A65C9EC, 0x14015C4F, 0x63066CD9, 0xFA0F3D63, 0x8D080DF5,
  0x3B6E20C8, 0x4C69105E, 0xD56041E4, 0xA2677172, 0x3C03E4D1, 0x4B04D447, 0xD20D85FD, 0xA50AB56B,
  0x35B5A8FA, 0x42B2986C, 0xDBBBC9D6, 0xACBCF940, 0x32D86CE3, 0x45DF5C75, 0xDCD60DCF, 0xABD13D59,
  0x26D930AC, 0x51DE003A, 0xC8D75180, 0xBFD06116, 0x21B4F4B5, 0x56B3C423, 0xCFBA9599, 0xB8BDA50F,
  0x2802B89E, 0x5F058808, 0xC60CD9B2, 0xB10BE924, 0x2F6F7C87, 0x58684C11, 0xC1611DAB, 0xB6662D3D,
  0x76DC4190, 0x01DB7106, 0x98D220BC, 0xEFD5102A, 0x71B18589, 0x06B6B51F, 0x9FBFE4A5, 0xE8B8D433,
  0x7807C9A2, 0x0F00F934, 0x9609A88E, 0xE10E9818, 0x7F6A0DBB, 0x086D3D2D, 0x91646C97, 0xE6635C01,
  0x6B6B51F4, 0x1C6C6162, 0x856530D8, 0xF262004E, 0x6C0695ED, 0x1B01A57B, 0x8208F4C1, 0xF50FC457,
  0x65B0D9C6, 0x12B7E950, 0x8BBEB8EA, 0xFCB9887C, 0x62DD1DDF, 0x15DA2D49, 0x8CD37CF3, 0xFBD44C65,
  0x4DB26158, 0x3AB551CE, 0xA3BC0074, 0xD4BB30E2, 0x4ADFA541, 0x3DD895D7, 0xA4D1C46D, 0xD3D6F4FB,
  0x4369E96A, 0x346ED9FC, 0xAD678846, 0xDA60B8D0, 0x44042D73, 0x33031DE5, 0xAA0A4C5F, 0xDD0D7CC9,
  0x5005713C, 0x270241AA, 0xBE0B1010, 0xC90C2086, 0x5768B525, 0x206F85B3, 0xB966D409, 0xCE61E49F,
  0x5EDEF90E, 0x29D9C998, 0xB0D09822, 0xC7D7A8B4, 0x59B33D17, 0x2EB40D81, 0xB7BD5C3B, 0xC0BA6CAD,
  0xEDB88320, 0x9ABFB3B6, 0x03B6E20C, 0x74B1D29A, 0xEAD54739, 0x9DD277AF, 0x04DB2615, 0x73DC1683,
  0xE3630B12, 0x94643B84, 0x0D6D6A3E, 0x7A6A5AA8, 0xE40ECF0B, 0x9309FF9D, 0x0A00AE27, 0x7D079EB1,
  0xF00F9344, 0x8708A3D2, 0x1E01F268, 0x6906C2FE, 0xF762575D, 0x806567CB, 0x196C3671, 0x6E6B06E7,
  0xFED41B76, 0x89D32BE0, 0x10DA7A5A, 0x67DD4ACC, 0xF9B9DF6F, 0x8EBEEFF9, 0x17B7BE43, 0x60B08ED5,
  0xD6D6A3E8, 0xA1D1937E, 0x38D8C2C4, 0x4FDFF252, 0xD1BB67F1, 0xA6BC5767, 0x3FB506DD, 0x48B2364B,
  0xD80D2BDA, 0xAF0A1B4C, 0x36034AF6, 0x41047A60, 0xDF60EFC3, 0xA867DF55, 0x316E8EEF, 0x4669BE79,
  0xCB61B38C, 0xBC66831A, 0x256FD2A0, 0x5268E236, 0xCC0C7795, 0xBB0B4703, 0x220216B9, 0x5505262F,
  0xC5BA3BBE, 0xB2BD0B28, 0x2BB45A92, 0x5CB36A04, 0xC2D7FFA7, 0xB5D0CF31, 0x2CD99E8B, 0x5BDEAE1D,
  0x9B64C2B0, 0xEC63F226, 0x756AA39C, 0x026D930A, 0x9C0906A9, 0xEB0E363F, 0x72076785, 0x05005713,
  0x95BF4A82, 0xE2B87A14, 0x7BB12BAE, 0x0CB61B38, 0x92D28E9B, 0xE5D5BE0D, 0x7CDCEFB7, 0x0BDBDF21,
  0x86D3D2D4, 0xF1D4E242, 0x68DDB3F8, 0x1FDA836E, 0x81BE16CD, 0xF6B9265B, 0x6FB077E1, 0x18B74777,
  0x88085AE6, 0xFF0F6A70, 0x66063BCA, 0x11010B5C, 0x8F659EFF, 0xF862AE69, 0x616BFFD3, 0x166CCF45,
  0xA00AE278, 0xD70DD2EE, 0x4E048354, 0x3903B3C2, 0xA7672661, 0xD06016F7, 0x4969474D, 0x3E6E77DB,
  0xAED16A4A, 0xD9D65ADC, 0x40DF0B66, 0x37D83BF0, 0xA9BCAE53, 0xDEBB9EC5, 0x47B2CF7F, 0x30B5FFE9,
  0xBDBDF21C, 0xCABAC28A, 0x53B39330, 0x24B4A3A6, 0xBAD03605, 0xCDD70693, 0x54DE5729, 0x23D967BF,
  0xB3667A2E, 0xC4614AB8, 0x5D681B02, 0x2A6F2B94, 0xB40BBE37, 0xC30C8EA1, 0x5A05DF1B, 0x2D02EF8D]

theorem length_crcTable : crcTable.length = 256 := by decide +kernel

/-- A `char` where an `unsigned int` is wanted. -/
def unsignedOfChar (c : UInt8) : UInt32 := UInt32.ofBitVec (c.toBitVec.signExtend 32)

/-- The index into the table. -/
def crcIndex (crc : UInt32) (c : UInt8) : Fin crcTable.length :=
  ⟨((crc ^^^ unsignedOfChar c) &&& 0xff).toNat, by
    rw [length_crcTable, UInt32.toNat_and]
    exact Nat.lt_of_le_of_lt Nat.and_le_right (by decide)⟩

def crcStep (crc : UInt32) (c : UInt8) : UInt32 := crcTable.get (crcIndex crc c) ^^^ (crc >>> 8)

def crc32 (buffer : List UInt8) : UInt32 := buffer.foldl crcStep 0xffffffff

/-! ## The table and the polynomial -/

def crcPoly : BitVec 32 := 0xEDB88320#32

theorem crcTable_get : ∀ i : Fin crcTable.length,
    (crcTable.get i).toBitVec = tableEntry crcPoly 8 (BitVec.ofNat 32 i) := by
  decide +kernel

/-- Only the lowest bits of a `char` matter. -/
theorem low_signExtend (crc : UInt32) (c : UInt8) :
    ((crc ^^^ unsignedOfChar c) &&& 0xff).toBitVec =
      (crc.toBitVec ^^^ c.toBitVec.setWidth 32) &&& lowMask 32 8 := by
  apply BitVec.eq_of_getLsbD_eq
  intro i hi
  rw [UInt32.toBitVec_and, UInt32.toBitVec_xor]
  show (((crc.toBitVec ^^^ c.toBitVec.signExtend 32) &&& lowMask 32 8).getLsbD i) = _
  rw [BitVec.getLsbD_and, BitVec.getLsbD_and, BitVec.getLsbD_xor, BitVec.getLsbD_xor, getLsbD_lowMask hi]
  by_cases hlow : i < 8
  · rw [BitVec.getLsbD_signExtend, BitVec.getLsbD_setWidth, if_pos hlow]
  · rw [decide_eq_false hlow, Bool.and_false, Bool.and_false]

/-- The bits of the data, in the order in which they go into the register. -/
def dataBits (buffer : List UInt8) : List Bool := buffer.flatMap fun c => lowBits 8 c.toBitVec

theorem dataBits_cons (c : UInt8) (buffer : List UInt8) :
    dataBits (c :: buffer) = lowBits 8 c.toBitVec ++ dataBits buffer := rfl

theorem lowBits_setWidth (c : UInt8) : lowBits 8 (c.toBitVec.setWidth 32) = lowBits 8 c.toBitVec := by
  refine List.map_congr_left fun i hi => ?_
  have hlt : i < 8 := List.mem_range.mp hi
  rw [BitVec.getLsbD_setWidth, decide_eq_true (show i < 32 by omega), Bool.true_and]

/-- A step of the loop is eight steps of the register. -/
theorem toBitVec_crcStep (crc : UInt32) (c : UInt8) :
    (crcStep crc c).toBitVec = register crcPoly crc.toBitVec (lowBits 8 c.toBitVec) := by
  have hnone : c.toBitVec.setWidth 32 >>> 8 = 0#32 := by
    apply BitVec.eq_of_getLsbD_eq
    intro i _
    rw [BitVec.getLsbD_ushiftRight, BitVec.getLsbD_setWidth, BitVec.getLsbD_of_ge c.toBitVec (8 + i) (by omega),
      Bool.and_false, BitVec.getLsbD_zero]
  have hindex : BitVec.ofNat 32 (crcIndex crc c) =
      (crc.toBitVec ^^^ c.toBitVec.setWidth 32) &&& lowMask 32 8 := by
    rw [← low_signExtend]
    show BitVec.ofNat 32 ((crc ^^^ unsignedOfChar c) &&& 0xff).toBitVec.toNat = _
    rw [BitVec.ofNat_toNat, BitVec.setWidth_eq]
  rw [← lowBits_setWidth, register_byte 8 hnone, ← hindex, ← crcTable_get]
  rfl

theorem toBitVec_foldl_crcStep (crc : UInt32) (buffer : List UInt8) :
    (buffer.foldl crcStep crc).toBitVec = register crcPoly crc.toBitVec (dataBits buffer) := by
  induction buffer generalizing crc with
  | nil => rfl
  | cons c buffer ih =>
    rw [List.foldl_cons, ih, toBitVec_crcStep, dataBits_cons, register_append]

/-- **The check sum** is what the register of the polynomial holds after the bits of the data. -/
theorem toBitVec_crc32 (buffer : List UInt8) :
    (crc32 buffer).toBitVec = register crcPoly (BitVec.allOnes 32) (dataBits buffer) :=
  toBitVec_foldl_crcStep _ buffer

/-! ## Damage -/

theorem lowBits_injective {c c' : UInt8} (h : lowBits 8 c.toBitVec = lowBits 8 c'.toBitVec) : c = c' := by
  refine UInt8.toBitVec_inj.mp (BitVec.eq_of_getLsbD_eq fun i hi => ?_)
  exact List.map_inj_left.mp h i (List.mem_range.mpr hi)

theorem dataBits_injective : ∀ {data data' : List UInt8}, dataBits data = dataBits data' → data = data'
  | [], [], _ => rfl
  | [], c :: data', h => by cases h
  | c :: data, [], h => by cases h
  | c :: data, c' :: data', h => by
    rw [dataBits_cons, dataBits_cons] at h
    obtain ⟨hfirst, hrest⟩ := List.append_inj h rfl
    rw [lowBits_injective hfirst, dataBits_injective hrest]

/-- The data differ at most in bits that lie next to one another, no more than the check sum has. -/
structure Burst (data data' : List UInt8) : Prop where
  window : ∃ before bits bits' behind : List Bool, dataBits data = before ++ bits ++ behind ∧
    dataBits data' = before ++ bits' ++ behind ∧ bits.length = bits'.length ∧ bits.length ≤ 32

/-- Damage of this kind changes the check sum. -/
theorem Burst.eq_of_crc32 {data data' : List UInt8} (h : Burst data data') (hsum : crc32 data = crc32 data') :
    data = data' := by
  obtain ⟨before, bits, bits', behind, hdata, hdata', hlength, hle⟩ := h.window
  have hregister : register crcPoly (BitVec.allOnes 32) (before ++ bits ++ behind) =
      register crcPoly (BitVec.allOnes 32) (before ++ bits' ++ behind) := by
    rw [← hdata, ← hdata', ← toBitVec_crc32, ← toBitVec_crc32, hsum]
  have hbits : bits = bits' := burst_detected (by decide) (by decide) hlength hle hregister
  exact dataBits_injective (by rw [hdata, hdata', hbits])

/-- **The table does not matter**: the loop is the shift register of the polynomial, bit after bit, and so it tells data
from any data that differ from them in a burst. -/
theorem crc32_bits (buffer : List UInt8) :
    (crc32 buffer).toBitVec = register crcPoly (BitVec.allOnes 32) (dataBits buffer) ∧
      ∀ buffer', Burst buffer buffer' → crc32 buffer = crc32 buffer' → buffer = buffer' :=
  ⟨toBitVec_crc32 buffer, fun _ hburst hsum => hburst.eq_of_crc32 hsum⟩

/-! ## Pages -/

/-- The data of a page. -/
structure PageBytes (size : Nat) where
  bytes : List UInt8
  length_bytes : bytes.length = size

def pageFormat (size : Nat) : PageFormat (PageBytes size) where
  crc32 data := crc32 data.bytes
  zero := ⟨List.replicate size 0, List.length_replicate⟩

variable {D : Type} {fmt : PageFormat D}

/-- `load_pages` takes the pages that carry their check sums. -/
theorem intact_loadSlots {slots : Nat → Option (DoubleWritePage D)} :
    ∀ {n : Nat} {pages : List (DoubleWritePage D)}, loadSlots fmt slots n = .ok pages →
      ∀ p ∈ pages, fmt.Intact p.page
  | 0, _, hload, p, hp => by
    obtain rfl := Except.ok.inj hload
    exact absurd hp List.not_mem_nil
  | n + 1, _, hload, p, hp => by
    obtain ⟨pages, hrest, hload⟩ := ok_of_bind hload
    have hpages := intact_loadSlots hrest
    cases hslot : slots n with
    | none =>
      rw [hslot] at hload
      cases hload
    | some q =>
      rw [hslot] at hload
      dsimp only at hload
      split at hload
      case isTrue hintact =>
        split at hload
        · obtain rfl := Except.ok.inj hload
          exact hpages p hp
        · obtain rfl := Except.ok.inj hload
          rcases List.mem_append.mp hp with hp | hp
          · exact hpages p hp
          · obtain rfl := List.mem_singleton.mp hp
            exact hintact
      case isFalse =>
        obtain rfl := Except.ok.inj hload
        exact hpages p hp

/-- What `recover` writes into the data files carries its check sum. -/
theorem intact_recover {files : Files D} {t : Traversal D} {b : DiskDoubleWriteBuffer D} {ws : List (Write D)}
    (h : recover fmt files t = .ok (b, ws)) : ∀ w ∈ ws, w.Carries fmt.Intact := by
  obtain ⟨b₀, hload, hflush⟩ := ok_of_bind h
  obtain ⟨pages, hpages, hok⟩ := ok_of_bind hload
  obtain rfl := Except.ok.inj hok
  obtain ⟨-, rfl⟩ := Prod.mk.inj (Except.ok.inj hflush)
  exact carries_flushWrites fun p hp => intact_loadSlots hpages p ((t.perm pages).mem_iff.mp hp)

/-- **Damaged pages are not restored.**  A page that `recover` writes carries a check sum that was made for some data.
If the page differs from these in a burst only, it is undamaged. -/
theorem recover_writes_undamaged {size : Nat} {files : Files (PageBytes size)} {t : Traversal (PageBytes size)}
    {b : DiskDoubleWriteBuffer (PageBytes size)} {ws : List (Write (PageBytes size))}
    (h : recover (pageFormat size) files t = .ok (b, ws)) {key : DoubleWritePageKey} {page : Page (PageBytes size)}
    (hw : .data key page ∈ ws) {data : PageBytes size} (hsum : crc32 data.bytes = page.checkSum)
    (hburst : Burst data.bytes page.data.bytes) : page.data.bytes = data.bytes := by
  have hintact : crc32 page.data.bytes = page.checkSum := intact_recover h _ hw
  exact (hburst.eq_of_crc32 (hsum.trans hintact.symm)).symm

theorem recover_writes_undamaged_single :
    let page : Page (PageBytes 1) := ⟨0, crc32 [7], ⟨[7], rfl⟩⟩
    let files : Files (PageBytes 1) := ⟨1, fun _ => some ⟨⟨1, 2⟩, 0, true, page⟩, fun _ => none⟩
    let ws : List (Write (PageBytes 1)) := [.data ⟨1, 2⟩ page, .slot ⟨⟨1, 2⟩, 0, false, page⟩]
    recover (pageFormat 1) files .inserted = .ok (.empty, ws) ∧ page.data.bytes = [7] := by
  intro page files ws
  have hrun : recover (pageFormat 1) files .inserted = .ok (.empty, ws) := rfl
  have hburst : Burst page.data.bytes page.data.bytes := ⟨[], [], [], dataBits [7], rfl, rfl, rfl, by decide⟩
  exact ⟨hrun, recover_writes_undamaged hrun List.mem_cons_self rfl hburst⟩

end Miniob.Buffer
