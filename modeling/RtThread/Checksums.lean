import RtThread.Lib.Crc
import RtThread.RtLinkDecode
import RtThread.Ymodem

/-!
# The checksums of ymodem and rt-link

`CRC16` of `ymodem.c` has a form with a table and one that goes bit by bit, and
`rt_link_sf_crc32` of rt-link has a table only. An entry of a table is what the eight steps for
the bits make of its byte, so the tables compute the checksums of the bits.
-/
namespace RtThread

open Crc

namespace Ymodem

def ccittTable : List (BitVec 16) :=
  [0x0000, 0x1021, 0x2042, 0x3063, 0x4084, 0x50A5, 0x60C6, 0x70E7,
   0x8108, 0x9129, 0xA14A, 0xB16B, 0xC18C, 0xD1AD, 0xE1CE, 0xF1EF,
   0x1231, 0x0210, 0x3273, 0x2252, 0x52B5, 0x4294, 0x72F7, 0x62D6,
   0x9339, 0x8318, 0xB37B, 0xA35A, 0xD3BD, 0xC39C, 0xF3FF, 0xE3DE,
   0x2462, 0x3443, 0x0420, 0x1401, 0x64E6, 0x74C7, 0x44A4, 0x5485,
   0xA56A, 0xB54B, 0x8528, 0x9509, 0xE5EE, 0xF5CF, 0xC5AC, 0xD58D,
   0x3653, 0x2672, 0x1611, 0x0630, 0x76D7, 0x66F6, 0x5695, 0x46B4,
   0xB75B, 0xA77A, 0x9719, 0x8738, 0xF7DF, 0xE7FE, 0xD79D, 0xC7BC,
   0x48C4, 0x58E5, 0x6886, 0x78A7, 0x0840, 0x1861, 0x2802, 0x3823,
   0xC9CC, 0xD9ED, 0xE98E, 0xF9AF, 0x8948, 0x9969, 0xA90A, 0xB92B,
   0x5AF5, 0x4AD4, 0x7AB7, 0x6A96, 0x1A71, 0x0A50, 0x3A33, 0x2A12,
   0xDBFD, 0xCBDC, 0xFBBF, 0xEB9E, 0x9B79, 0x8B58, 0xBB3B, 0xAB1A,
   0x6CA6, 0x7C87, 0x4CE4, 0x5CC5, 0x2C22, 0x3C03, 0x0C60, 0x1C41,
   0xEDAE, 0xFD8F, 0xCDEC, 0xDDCD, 0xAD2A, 0xBD0B, 0x8D68, 0x9D49,
   0x7E97, 0x6EB6, 0x5ED5, 0x4EF4, 0x3E13, 0x2E32, 0x1E51, 0x0E70,
   0xFF9F, 0xEFBE, 0xDFDD, 0xCFFC, 0xBF1B, 0xAF3A, 0x9F59, 0x8F78,
   0x9188, 0x81A9, 0xB1CA, 0xA1EB, 0xD10C, 0xC12D, 0xF14E, 0xE16F,
   0x1080, 0x00A1, 0x30C2, 0x20E3, 0x5004, 0x4025, 0x7046, 0x6067,
   0x83B9, 0x9398, 0xA3FB, 0xB3DA, 0xC33D, 0xD31C, 0xE37F, 0xF35E,
   0x02B1, 0x1290, 0x22F3, 0x32D2, 0x4235, 0x5214, 0x6277, 0x7256,
   0xB5EA, 0xA5CB, 0x95A8, 0x8589, 0xF56E, 0xE54F, 0xD52C, 0xC50D,
   0x34E2, 0x24C3, 0x14A0, 0x0481, 0x7466, 0x6447, 0x5424, 0x4405,
   0xA7DB, 0xB7FA, 0x8799, 0x97B8, 0xE75F, 0xF77E, 0xC71D, 0xD73C,
   0x26D3, 0x36F2, 0x0691, 0x16B0, 0x6657, 0x7676, 0x4615, 0x5634,
   0xD94C, 0xC96D, 0xF90E, 0xE92F, 0x99C8, 0x89E9, 0xB98A, 0xA9AB,
   0x5844, 0x4865, 0x7806, 0x6827, 0x18C0, 0x08E1, 0x3882, 0x28A3,
   0xCB7D, 0xDB5C, 0xEB3F, 0xFB1E, 0x8BF9, 0x9BD8, 0xABBB, 0xBB9A,
   0x4A75, 0x5A54, 0x6A37, 0x7A16, 0x0AF1, 0x1AD0, 0x2AB3, 0x3A92,
   0xFD2E, 0xED0F, 0xDD6C, 0xCD4D, 0xBDAA, 0xAD8B, 0x9DE8, 0x8DC9,
   0x7C26, 0x6C07, 0x5C64, 0x4C45, 0x3CA2, 0x2C83, 0x1CE0, 0x0CC1,
   0xEF1F, 0xFF3E, 0xCF5D, 0xDF7C, 0xAF9B, 0xBFBA, 0x8FD9, 0x9FF8,
   0x6E17, 0x7E36, 0x4E55, 0x5E74, 0x2E93, 0x3EB2, 0x0ED1, 0x1EF0]

/-- A turn of `CRC16` with `YMODEM_USING_CRC_TABLE`. -/
def crcTableByte (crc : BitVec 16) (q : Byte) : BitVec 16 :=
  crc <<< 8 ^^^ ccittTable.getD ((crc >>> 8 ^^^ q.setWidth 16) &&& 0xff).toNat 0

/-- `CRC16` with `YMODEM_USING_CRC_TABLE`. -/
def crc16Table (q : List Byte) : BitVec 16 := q.foldl crcTableByte 0

theorem crcBit_eq : crcBit = leftBit 0x1021 := by
  funext crc
  have hmask : (0x8000 : BitVec 16) = BitVec.twoPow 16 15 := by decide
  have hmsb : crc &&& 0x8000 ≠ 0 ↔ crc.msb = true := by
    rw [hmask, BitVec.and_twoPow, BitVec.msb_eq_getLsbD_last]
    cases crc.getLsbD 15 <;> simp [← hmask]
  simp only [crcBit, leftBit, hmsb]

theorem ccittTable_eq : ccittTable =
    (List.range 256).map fun b => (leftBit 0x1021)^[8] (BitVec.ofNat 16 b <<< 8) := by
  decide +kernel

theorem ccittTable_getD (b : Fin 256) :
    ccittTable.getD b 0 = (leftBit 0x1021)^[8] (BitVec.ofNat 16 b <<< 8) := by
  rw [ccittTable_eq, List.getD_eq_getElem?_getD, List.getElem?_map, List.getElem?_range b.isLt]
  rfl

theorem crcTableByte_eq : crcTableByte = crcByte := by
  funext crc q
  have hbyte : ∀ i, 8 ≤ i → q.getLsbD i = false := fun i hi => BitVec.getLsbD_of_ge q i hi
  have hleft : (crc ^^^ q.setWidth 16 <<< 8) <<< 8 = crc <<< 8 := by
    apply BitVec.eq_of_getLsbD_eq
    intro i hi
    by_cases h : i < 8
    · simp [h]
    · by_cases hq : i - 8 < 8
      · simp [hq]
      · simp [hq, hbyte (i - 8 - 8) (by omega)]
  have hright : (crc ^^^ q.setWidth 16 <<< 8) >>> 8 = (crc >>> 8 ^^^ q.setWidth 16) &&& 0xff := by
    have hmask : ∀ i < 16, (0xff : BitVec 16).getLsbD i = decide (i < 8) := by decide
    apply BitVec.eq_of_getLsbD_eq
    intro i hi
    simp only [BitVec.getLsbD_ushiftRight, BitVec.getLsbD_xor, BitVec.getLsbD_shiftLeft,
      BitVec.getLsbD_setWidth, BitVec.getLsbD_and, hmask i hi]
    by_cases h : i < 8
    · simp [h, hi, show 8 + i < 16 by omega]
    · simp [h, BitVec.getLsbD_of_ge crc (8 + i) (by omega), show ¬ 8 + i < 16 by omega]
  have hlt : ((crc >>> 8 ^^^ q.setWidth 16) &&& 0xff).toNat < 256 := by
    exact Nat.and_lt_two_pow _ (by decide : (0xff : BitVec 16).toNat < 2 ^ 8)
  rw [crcByte, crcBit_eq, leftBit_iterate _ _ (by decide : 8 ≤ 16), hleft,
    show 16 - 8 = 8 from rfl, hright, crcTableByte, ccittTable_getD ⟨_, hlt⟩,
    BitVec.ofNat_toNat, BitVec.setWidth_eq]

theorem crc16Table_eq (q : List Byte) : crc16Table q = crc16 q := by
  rw [crc16Table, crc16, crcTableByte_eq]

end Ymodem

namespace RtLink

open Ringbuffer

/-- The checksum of the bits, the lowest one first. -/
def reflectedCrc32 (bytes : List Byte) : BitVec 32 :=
  bytes.foldl (fun crc byte => (rightBit 0xedb88320)^[8] (crc ^^^ byte.setWidth 32)) 0xffffffff ^^^
    0xffffffff

theorem crcTable_eq : crcTable =
    (List.range 256).map fun b => (rightBit 0xedb88320)^[8] (BitVec.ofNat 32 b) := by
  decide +kernel

theorem crcTable_getD (b : Fin 256) :
    crcTable.getD b 0 = (rightBit 0xedb88320)^[8] (BitVec.ofNat 32 b) := by
  rw [crcTable_eq, List.getD_eq_getElem?_getD, List.getElem?_map, List.getElem?_range b.isLt]
  rfl

theorem crcByte_eq (crc : BitVec 32) (byte : Byte) :
    crcByte crc byte = (rightBit 0xedb88320)^[8] (crc ^^^ byte.setWidth 32) := by
  have hhigh : (crc ^^^ byte.setWidth 32) >>> 8 = crc >>> 8 := by
    apply BitVec.eq_of_getLsbD_eq
    intro i hi
    simp only [BitVec.getLsbD_ushiftRight, BitVec.getLsbD_xor, BitVec.getLsbD_setWidth]
    rw [BitVec.getLsbD_of_ge byte (8 + i) (by omega), Bool.and_false, Bool.xor_false]
  have hlow : (crc ^^^ byte.setWidth 32) &&& 0xff =
      ((crc ^^^ byte.setWidth 32).setWidth 8).setWidth 32 := by
    have hmask : ∀ i < 32, (0xff : BitVec 32).getLsbD i = decide (i < 8) := by decide
    apply BitVec.eq_of_getLsbD_eq
    intro i hi
    rw [BitVec.getLsbD_and, hmask i hi, BitVec.getLsbD_setWidth, BitVec.getLsbD_setWidth,
      decide_eq_true hi, Bool.and_comm, Bool.true_and]
  have hlt : ((crc ^^^ byte.setWidth 32) &&& 0xff).toNat < 256 := by
    exact Nat.and_lt_two_pow _ (by decide : (0xff : BitVec 32).toNat < 2 ^ 8)
  rw [crcByte, crcTable_getD ⟨_, hlt⟩, BitVec.ofNat_toNat, BitVec.setWidth_eq,
    rightBit_iterate _ (crc ^^^ byte.setWidth 32) 8, hhigh, hlow]

theorem crc32_eq (bytes : List Byte) : crc32 bytes = reflectedCrc32 bytes := by
  have hstep : crcByte = fun crc byte =>
      (rightBit 0xedb88320)^[8] (crc ^^^ byte.setWidth 32) := by
    funext crc byte
    exact crcByte_eq crc byte
  rw [crc32, rtLinkSfCrc32, reflectedCrc32, hstep]

/-- The checksum of two pieces is that of the bytes in a row. -/
theorem rtLinkSfCrc32_append (crc : BitVec 32) (bytes more : List Byte) :
    rtLinkSfCrc32 (rtLinkSfCrc32 crc bytes) more = rtLinkSfCrc32 crc (bytes ++ more) :=
  List.foldl_append.symm

theorem rtLinkGetCrc_eq (b : RxBuffer) {data size : Nat} (hdata : data ≤ receiveBufferLength)
    (hsize : size ≤ receiveBufferLength) :
    rtLinkGetCrc b data size = crc32 (Cyclic.window b.data receiveBufferLength data size) := by
  unfold rtLinkGetCrc crc32
  dsimp only
  split
  case isTrue hfits =>
    rw [Ringbuffer.copyFrom_eq_window (n := receiveBufferLength) (by omega)]
  case isFalse hwraps =>
    obtain ⟨rest, rfl⟩ := Nat.exists_eq_add_of_le (Nat.le_of_not_le hwraps)
    rw [Nat.add_sub_cancel_left, rtLinkSfCrc32_append, Cyclic.window_add,
      show data + (receiveBufferLength - data) = receiveBufferLength by omega,
      Ringbuffer.copyFrom_eq_window (n := receiveBufferLength) (by omega),
      Ringbuffer.copyFrom_eq_window (n := receiveBufferLength) (by omega),
      ← @Cyclic.window_mod _ _ _ receiveBufferLength _, Nat.mod_self]

/-- Messages that differ in at most four bytes in a row have different checksums. -/
theorem crc32_burst (before damage damage' after : List Byte)
    (hlen : damage.length = damage'.length) (hshort : damage.length ≤ 4) (hne : damage ≠ damage') :
    crc32 (before ++ damage ++ after) ≠ crc32 (before ++ damage' ++ after) := by
  intro heq
  have hstep : crcByte = rightItem 0xedb88320 8 fun byte : Byte => byte.setWidth 32 := by
    funext crc byte
    exact crcByte_eq crc byte
  have hinj : Function.Injective fun byte : Byte => byte.setWidth 32 := by
    intro b b' h
    have hback := congrArg (BitVec.setWidth 8) h
    simpa using hback
  have hlow : ∀ (b : Byte) i, 8 ≤ i → (b.setWidth 32).getLsbD i = false := by
    intro b i hi
    rw [BitVec.getLsbD_setWidth, BitVec.getLsbD_of_ge b i hi, Bool.and_false]
  have hfold := (BitVec.xor_left_inj 0xffffffff).mp heq
  simp only [rtLinkSfCrc32, List.foldl_append, hstep] at hfold
  have hdamage := foldl_rightItem_injective (by decide) (by decide) after hfold
  exact hne ((foldl_rightItem_burst (by decide) hinj hlow hlen (by omega) hdamage).2 rfl)

theorem crc32_burst_zeros :
    crc32 ([0x15] ++ [0x00, 0xff, 0x00, 0x01] ++ [0x41, 0x00]) ≠
      crc32 ([0x15] ++ [0x00, 0x00, 0x00, 0x00] ++ [0x41, 0x00]) :=
  crc32_burst [0x15] _ _ [0x41, 0x00] rfl (by decide) (by decide)

end RtLink

/-- The tables compute the checksums of the bits, and a frame that wraps round the receive buffer
has the checksum of its bytes in a row. -/
theorem checksums_bitwise :
    (∀ q, Ymodem.crc16Table q = Ymodem.crc16 q) ∧
    (∀ bytes, RtLink.crc32 bytes = RtLink.reflectedCrc32 bytes) ∧
    ∀ (b : RtLink.RxBuffer) (data size : Nat), data ≤ RtLink.receiveBufferLength →
      size ≤ RtLink.receiveBufferLength →
      RtLink.rtLinkGetCrc b data size =
        RtLink.crc32 (Cyclic.window b.data RtLink.receiveBufferLength data size) := by
  refine ⟨Ymodem.crc16Table_eq, RtLink.crc32_eq, ?_⟩
  intro b data size hdata hsize
  exact RtLink.rtLinkGetCrc_eq b hdata hsize

/-- The last byte of the buffer and the first three. -/
theorem checksums_bitwise_wrapped :
    RtLink.rtLinkGetCrc ⟨fun i => BitVec.ofNat 8 i, 3079, 3⟩ 3079 4 =
      RtLink.crc32 [0x07, 0x00, 0x01, 0x02] :=
  checksums_bitwise.2.2 _ 3079 4 (by decide) (by decide)

end RtThread
