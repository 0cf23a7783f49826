import Mathlib.Algebra.Group.Int.Defs
import CccUpgrade.Utils.Memory

/-! The frame codec of protocol_core.c: the additive checksum, the encoder
`create_protocol_packet` and the incremental parser `parse_packet2`, with the
constants of protocol_core.h and protocol_define.h they and their callers use. -/
namespace CccUpgrade

def protocolHeader : UInt8 := 0x7e
def protocolSegDataLen : Int := 4
def protocolSegChecksumLen : Int := 2

/-- The payload buffer size both callers of the parser request. -/
def protoDataLenMax : Nat := 4096

def protocolDataSizeMax : Nat := 4096

def protocolDataLenMax : Nat := protocolDataSizeMax - 16

def pcsDiscoverDevice : UInt8 := 0xE0
def pcsClientLogin : UInt8 := 0xE1
def pcsUploadFile : UInt8 := 0xE2
def pcsUpgrade : UInt8 := 0xE3

def pcsExOk : UInt8 := 0xFE
def pcsExErr : UInt8 := 0xFF
def pcsEx01 : UInt8 := 0x01
def pcsEx02 : UInt8 := 0x02
def pcsEx03 : UInt8 := 0x03
def pcsEx04 : UInt8 := 0x04
def pcsEx05 : UInt8 := 0x05

/-- `PDU`. The field `data` is the whole packet buffer the pointer refers to, of
which only the first `dataLen` bytes belong to the current frame; it is empty
for a packet without a buffer. -/
structure PDU where
  cmd : UInt8
  cmdEx : UInt8
  data : List UInt8
  dataLen : Int
  checksum1 : UInt8
  checksum2 : UInt8
  bEnable : Bool
deriving DecidableEq, Repr

/-- `calcu_data_length`: the four bytes at `p` as a signed length. -/
def calcuDataLength (data : List UInt8) (size : Int) : Int :=
  if size < 4 then 0 else fourBytesToInt data

/-- `calcu_checksum`. The 32-bit sum is masked with `0xFFFF`, which the
wrap-around of the sum itself does not affect. -/
def calcuChecksum (data : List UInt8) (size : Int) : Nat :=
  if size ≤ 0 then 0 else ((data.take size.toNat).map UInt8.toNat).sum % 2 ^ 16

/-- What `create_protocol_packet` returns and what it has stored: `body` from
`out_buffer[0]` on and the two checksum bytes from `out_buffer[trailerAt]` on. -/
structure PacketOut where
  result : Nat
  body : List UInt8
  trailerAt : Int
  trailer : List UInt8
deriving DecidableEq, Repr

/-- `create_protocol_packet`. `data` is `none` for a NULL pointer and
`outBuffer` says whether the output pointer is not NULL. The running length
`result` is a signed `int` to which the unsigned `data_len` is added. -/
def createProtocolPacket (cmd cmdEx : UInt8) (data : Option (List UInt8)) (dataLen : Nat)
    (outBuffer : Bool) (bufferSize : Nat) : PacketOut :=
  if outBuffer = false ∨ bufferSize ≤ 1 + 2 + 4 then ⟨0, [], 0, []⟩
  else
    let dataLen := if 0 < dataLen ∧ data.isSome then dataLen else 0
    let body := protocolHeader :: cmd :: cmdEx ::
      (toBigEndian32 dataLen ++ (data.getD []).take dataLen)
    let result : Int := ((1 + 2 + 4 + dataLen : Nat) : Int).bmod (2 ^ 32)
    let checksum := calcuChecksum body result
    { result := ((result + 2) % 2 ^ 32).toNat
      body := body
      trailerAt := result
      trailer := [UInt8.ofNat (checksum / 2 ^ 8), UInt8.ofNat checksum] }

/-- The first `result` bytes of `out_buffer`, which is what callers send: the
checksum bytes lie over the body where they were stored. -/
def PacketOut.packet (out : PacketOut) : List UInt8 :=
  let at' := out.trailerAt.toNat
  (out.body.take at' ++ out.trailer ++ out.body.drop (at' + 2)).take out.result

/-- `parse_packet2` on the `data_len` bytes `inBuffer`: the number of bytes used
and the updated PDU. Every early return that only waits for more bytes reports
the junk before the header as used. -/
def parsePacket2 (inBuffer : List UInt8) (lpPdu : PDU) : Except Fault (Int × PDU) := do
  let dataLen : Int := inBuffer.length
  if dataLen ≤ 0 then return (0, lpPdu)
  -- find header
  let some pStart := inBuffer.idxOf? protocolHeader | return (dataLen, lpPdu)
  let discardLen : Int := pStart
  let remainLen := dataLen - discardLen
  -- header
  if remainLen ≤ 1 then return (discardLen, lpPdu)
  let p := pStart + 1
  let remainLen := remainLen - 1
  -- cmd
  if remainLen ≤ 2 then return (discardLen, lpPdu)
  let cmd ← readByte inBuffer p
  let cmdEx ← readByte inBuffer (p + 1)
  let lpPdu := { lpPdu with cmd := cmd, cmdEx := cmdEx }
  let p := p + 2
  let remainLen := remainLen - 2
  -- length (valid data)
  if remainLen ≤ protocolSegDataLen then return (discardLen, lpPdu)
  let validDataLen := calcuDataLength (inBuffer.drop p) protocolSegDataLen
  if validDataLen > 0xFFFFF then return (discardLen + 1, lpPdu)
  let lpPdu := { lpPdu with dataLen := validDataLen }
  let p := p + 4
  let remainLen := remainLen - protocolSegDataLen
  -- valid data
  if remainLen ≤ validDataLen then return (discardLen, lpPdu)
  let data ← memcpy lpPdu.data (inBuffer.drop p) validDataLen
  let lpPdu := { lpPdu with data := data }
  let p := p + validDataLen.toNat
  let remainLen := remainLen - validDataLen
  -- checksum
  if remainLen < protocolSegChecksumLen then return (discardLen, lpPdu)
  let checksum := calcuChecksum (inBuffer.drop pStart)
    (1 + 2 + protocolSegDataLen + validDataLen)
  let lpPdu := { lpPdu with
    checksum1 := UInt8.ofNat (checksum / 2 ^ 8), checksum2 := UInt8.ofNat checksum }
  let p0 ← readByte inBuffer p
  let p1 ← readByte inBuffer (p + 1)
  if lpPdu.checksum1 ≠ p0 ∨ lpPdu.checksum2 ≠ p1 then return (discardLen + 1, lpPdu)
  let remainLen := remainLen - protocolSegChecksumLen
  return (dataLen - remainLen, { lpPdu with bEnable := true })

end CccUpgrade
