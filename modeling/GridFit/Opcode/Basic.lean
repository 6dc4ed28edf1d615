/-!
# The instruction set

An opcode is one of the 221 bytes that the instruction set assigns. Opcodes that
differ only in a few low bits are one constructor with those bits as argument:
one bit is a `Bool`, and more bits are a number.

## Implementation notes

`Opcode.toByte` is the encoding and `Opcode.ofByte?` its partial inverse, so a
byte without an opcode is exactly one on which `ofByte?` fails.
-/

namespace GridFit

/-- An assigned operation code. -/
inductive Opcode where
  | svtca (a : Bool)
  | spvtca (a : Bool)
  | sfvtca (a : Bool)
  | spvtl (a : Bool)
  | sfvtl (a : Bool)
  | spvfs
  | sfvfs
  | gpv
  | gfv
  | sfvtpv
  | isect
  | srp0
  | srp1
  | srp2
  | szp0
  | szp1
  | szp2
  | szps
  | sloop
  | rtg
  | rthg
  | smd
  | elseMark
  | jmpr
  | scvtci
  | sswci
  | ssw
  | dup
  | pop
  | clear
  | swap
  | depth
  | cindex
  | mindex
  | alignpts
  | utp
  | loopcall
  | call
  | fdef
  | endf
  | mdap (a : Bool)
  | iup (a : Bool)
  | shp (a : Bool)
  | shc (a : Bool)
  | shz (a : Bool)
  | shpix
  | ip
  | msirp (a : Bool)
  | alignrp
  | rtdg
  | miap (a : Bool)
  | npushb
  | npushw
  | ws
  | rs
  | wcvtp
  | rcvt
  | gc (a : Bool)
  | scfs
  | md (a : Bool)
  | mppem
  | mps
  | flipon
  | flipoff
  | debug
  | lt
  | lteq
  | gt
  | gteq
  | eq
  | neq
  | odd
  | even
  | ifTest
  | endIf
  | and
  | or
  | not
  | deltap1
  | sdb
  | sds
  | add
  | sub
  | div
  | mul
  | abs
  | neg
  | floor
  | ceiling
  | round (flags : Fin 4)
  | nround (flags : Fin 4)
  | wcvtf
  | deltap2
  | deltap3
  | deltac1
  | deltac2
  | deltac3
  | sround
  | s45round
  | jrot
  | jrof
  | roff
  | rutg
  | rdtg
  | sangw
  | aa
  | flippt
  | fliprgon
  | fliprgoff
  | scanctrl
  | sdpvtl (a : Bool)
  | getinfo
  | idef
  | roll
  | max
  | min
  | scantype
  | instctrl
  | getvariation
  | getdata
  | pushb (extra : Fin 8)
  | pushw (extra : Fin 8)
  | mdrp (flags : Fin 32)
  | mirp (flags : Fin 32)
deriving DecidableEq, Repr

namespace Opcode

/-- The low bit that a one-bit variant adds to its byte. -/
def flag (a : Bool) : UInt8 :=
  if a then 1 else 0

/-- The byte that encodes an opcode. -/
def toByte : Opcode → UInt8
  | svtca a => 0x00 + flag a
  | spvtca a => 0x02 + flag a
  | sfvtca a => 0x04 + flag a
  | spvtl a => 0x06 + flag a
  | sfvtl a => 0x08 + flag a
  | spvfs => 0x0A
  | sfvfs => 0x0B
  | gpv => 0x0C
  | gfv => 0x0D
  | sfvtpv => 0x0E
  | isect => 0x0F
  | srp0 => 0x10
  | srp1 => 0x11
  | srp2 => 0x12
  | szp0 => 0x13
  | szp1 => 0x14
  | szp2 => 0x15
  | szps => 0x16
  | sloop => 0x17
  | rtg => 0x18
  | rthg => 0x19
  | smd => 0x1A
  | elseMark => 0x1B
  | jmpr => 0x1C
  | scvtci => 0x1D
  | sswci => 0x1E
  | ssw => 0x1F
  | dup => 0x20
  | pop => 0x21
  | clear => 0x22
  | swap => 0x23
  | depth => 0x24
  | cindex => 0x25
  | mindex => 0x26
  | alignpts => 0x27
  | utp => 0x29
  | loopcall => 0x2A
  | call => 0x2B
  | fdef => 0x2C
  | endf => 0x2D
  | mdap a => 0x2E + flag a
  | iup a => 0x30 + flag a
  | shp a => 0x32 + flag a
  | shc a => 0x34 + flag a
  | shz a => 0x36 + flag a
  | shpix => 0x38
  | ip => 0x39
  | msirp a => 0x3A + flag a
  | alignrp => 0x3C
  | rtdg => 0x3D
  | miap a => 0x3E + flag a
  | npushb => 0x40
  | npushw => 0x41
  | ws => 0x42
  | rs => 0x43
  | wcvtp => 0x44
  | rcvt => 0x45
  | gc a => 0x46 + flag a
  | scfs => 0x48
  | md a => 0x49 + flag a
  | mppem => 0x4B
  | mps => 0x4C
  | flipon => 0x4D
  | flipoff => 0x4E
  | debug => 0x4F
  | lt => 0x50
  | lteq => 0x51
  | gt => 0x52
  | gteq => 0x53
  | eq => 0x54
  | neq => 0x55
  | odd => 0x56
  | even => 0x57
  | ifTest => 0x58
  | endIf => 0x59
  | and => 0x5A
  | or => 0x5B
  | not => 0x5C
  | deltap1 => 0x5D
  | sdb => 0x5E
  | sds => 0x5F
  | add => 0x60
  | sub => 0x61
  | div => 0x62
  | mul => 0x63
  | abs => 0x64
  | neg => 0x65
  | floor => 0x66
  | ceiling => 0x67
  | round n => 0x68 + UInt8.ofNat n.val
  | nround n => 0x6C + UInt8.ofNat n.val
  | wcvtf => 0x70
  | deltap2 => 0x71
  | deltap3 => 0x72
  | deltac1 => 0x73
  | deltac2 => 0x74
  | deltac3 => 0x75
  | sround => 0x76
  | s45round => 0x77
  | jrot => 0x78
  | jrof => 0x79
  | roff => 0x7A
  | rutg => 0x7C
  | rdtg => 0x7D
  | sangw => 0x7E
  | aa => 0x7F
  | flippt => 0x80
  | fliprgon => 0x81
  | fliprgoff => 0x82
  | scanctrl => 0x85
  | sdpvtl a => 0x86 + flag a
  | getinfo => 0x88
  | idef => 0x89
  | roll => 0x8A
  | max => 0x8B
  | min => 0x8C
  | scantype => 0x8D
  | instctrl => 0x8E
  | getvariation => 0x91
  | getdata => 0x92
  | pushb n => 0xB0 + UInt8.ofNat n.val
  | pushw n => 0xB8 + UInt8.ofNat n.val
  | mdrp n => 0xC0 + UInt8.ofNat n.val
  | mirp n => 0xE0 + UInt8.ofNat n.val

/-- The opcode that a byte encodes, if it is assigned. -/
def ofByte? (b : UInt8) : Option Opcode :=
  match b.toNat with
  | 0x00 => some (svtca false)
  | 0x01 => some (svtca true)
  | 0x02 => some (spvtca false)
  | 0x03 => some (spvtca true)
  | 0x04 => some (sfvtca false)
  | 0x05 => some (sfvtca true)
  | 0x06 => some (spvtl false)
  | 0x07 => some (spvtl true)
  | 0x08 => some (sfvtl false)
  | 0x09 => some (sfvtl true)
  | 0x0A => some spvfs
  | 0x0B => some sfvfs
  | 0x0C => some gpv
  | 0x0D => some gfv
  | 0x0E => some sfvtpv
  | 0x0F => some isect
  | 0x10 => some srp0
  | 0x11 => some srp1
  | 0x12 => some srp2
  | 0x13 => some szp0
  | 0x14 => some szp1
  | 0x15 => some szp2
  | 0x16 => some szps
  | 0x17 => some sloop
  | 0x18 => some rtg
  | 0x19 => some rthg
  | 0x1A => some smd
  | 0x1B => some elseMark
  | 0x1C => some jmpr
  | 0x1D => some scvtci
  | 0x1E => some sswci
  | 0x1F => some ssw
  | 0x20 => some dup
  | 0x21 => some pop
  | 0x22 => some clear
  | 0x23 => some swap
  | 0x24 => some depth
  | 0x25 => some cindex
  | 0x26 => some mindex
  | 0x27 => some alignpts
  | 0x29 => some utp
  | 0x2A => some loopcall
  | 0x2B => some call
  | 0x2C => some fdef
  | 0x2D => some endf
  | 0x2E => some (mdap false)
  | 0x2F => some (mdap true)
  | 0x30 => some (iup false)
  | 0x31 => some (iup true)
  | 0x32 => some (shp false)
  | 0x33 => some (shp true)
  | 0x34 => some (shc false)
  | 0x35 => some (shc true)
  | 0x36 => some (shz false)
  | 0x37 => some (shz true)
  | 0x38 => some shpix
  | 0x39 => some ip
  | 0x3A => some (msirp false)
  | 0x3B => some (msirp true)
  | 0x3C => some alignrp
  | 0x3D => some rtdg
  | 0x3E => some (miap false)
  | 0x3F => some (miap true)
  | 0x40 => some npushb
  | 0x41 => some npushw
  | 0x42 => some ws
  | 0x43 => some rs
  | 0x44 => some wcvtp
  | 0x45 => some rcvt
  | 0x46 => some (gc false)
  | 0x47 => some (gc true)
  | 0x48 => some scfs
  | 0x49 => some (md false)
  | 0x4A => some (md true)
  | 0x4B => some mppem
  | 0x4C => some mps
  | 0x4D => some flipon
  | 0x4E => some flipoff
  | 0x4F => some debug
  | 0x50 => some lt
  | 0x51 => some lteq
  | 0x52 => some gt
  | 0x53 => some gteq
  | 0x54 => some eq
  | 0x55 => some neq
  | 0x56 => some odd
  | 0x57 => some even
  | 0x58 => some ifTest
  | 0x59 => some endIf
  | 0x5A => some and
  | 0x5B => some or
  | 0x5C => some not
  | 0x5D => some deltap1
  | 0x5E => some sdb
  | 0x5F => some sds
  | 0x60 => some add
  | 0x61 => some sub
  | 0x62 => some div
  | 0x63 => some mul
  | 0x64 => some abs
  | 0x65 => some neg
  | 0x66 => some floor
  | 0x67 => some ceiling
  | 0x68 => some (round 0)
  | 0x69 => some (round 1)
  | 0x6A => some (round 2)
  | 0x6B => some (round 3)
  | 0x6C => some (nround 0)
  | 0x6D => some (nround 1)
  | 0x6E => some (nround 2)
  | 0x6F => some (nround 3)
  | 0x70 => some wcvtf
  | 0x71 => some deltap2
  | 0x72 => some deltap3
  | 0x73 => some deltac1
  | 0x74 => some deltac2
  | 0x75 => some deltac3
  | 0x76 => some sround
  | 0x77 => some s45round
  | 0x78 => some jrot
  | 0x79 => some jrof
  | 0x7A => some roff
  | 0x7C => some rutg
  | 0x7D => some rdtg
  | 0x7E => some sangw
  | 0x7F => some aa
  | 0x80 => some flippt
  | 0x81 => some fliprgon
  | 0x82 => some fliprgoff
  | 0x85 => some scanctrl
  | 0x86 => some (sdpvtl false)
  | 0x87 => some (sdpvtl true)
  | 0x88 => some getinfo
  | 0x89 => some idef
  | 0x8A => some roll
  | 0x8B => some max
  | 0x8C => some min
  | 0x8D => some scantype
  | 0x8E => some instctrl
  | 0x91 => some getvariation
  | 0x92 => some getdata
  | n =>
      if h : 0xE0 ≤ n ∧ n ≤ 0xFF then some (mirp ⟨n - 0xE0, by omega⟩)
      else if h : 0xC0 ≤ n ∧ n ≤ 0xDF then some (mdrp ⟨n - 0xC0, by omega⟩)
      else if h : 0xB8 ≤ n ∧ n ≤ 0xBF then some (pushw ⟨n - 0xB8, by omega⟩)
      else if h : 0xB0 ≤ n ∧ n ≤ 0xB7 then some (pushb ⟨n - 0xB0, by omega⟩)
      else none

/-- Every assigned opcode, by ascending byte. -/
def all : List Opcode :=
  (List.range 256).filterMap fun n => ofByte? (UInt8.ofNat n)

end Opcode

end GridFit
