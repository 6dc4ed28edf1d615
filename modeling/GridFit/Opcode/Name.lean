import GridFit.Opcode.Basic

/-!
# Mnemonics

The name of an opcode is the mnemonic of its family followed by its variant bits
in binary, as in `MDRP01011`.
-/

namespace GridFit.Opcode

/-- The binary digit of a variant bit. -/
def digit (a : Bool) : String :=
  if a then "1" else "0"

/-- The lowest bits of a number in binary, highest bit first. -/
def digits : Nat → Nat → String
  | 0, _ => ""
  | width + 1, n => digits width (n / 2) ++ digit (n % 2 == 1)

/-- The mnemonic of an opcode. -/
def name : Opcode → String
  | svtca a => "SVTCA" ++ digit a
  | spvtca a => "SPVTCA" ++ digit a
  | sfvtca a => "SFVTCA" ++ digit a
  | spvtl a => "SPVTL" ++ digit a
  | sfvtl a => "SFVTL" ++ digit a
  | spvfs => "SPVFS"
  | sfvfs => "SFVFS"
  | gpv => "GPV"
  | gfv => "GFV"
  | sfvtpv => "SFVTPV"
  | isect => "ISECT"
  | srp0 => "SRP0"
  | srp1 => "SRP1"
  | srp2 => "SRP2"
  | szp0 => "SZP0"
  | szp1 => "SZP1"
  | szp2 => "SZP2"
  | szps => "SZPS"
  | sloop => "SLOOP"
  | rtg => "RTG"
  | rthg => "RTHG"
  | smd => "SMD"
  | elseMark => "ELSE"
  | jmpr => "JMPR"
  | scvtci => "SCVTCI"
  | sswci => "SSWCI"
  | ssw => "SSW"
  | dup => "DUP"
  | pop => "POP"
  | clear => "CLEAR"
  | swap => "SWAP"
  | depth => "DEPTH"
  | cindex => "CINDEX"
  | mindex => "MINDEX"
  | alignpts => "ALIGNPTS"
  | utp => "UTP"
  | loopcall => "LOOPCALL"
  | call => "CALL"
  | fdef => "FDEF"
  | endf => "ENDF"
  | mdap a => "MDAP" ++ digit a
  | iup a => "IUP" ++ digit a
  | shp a => "SHP" ++ digit a
  | shc a => "SHC" ++ digit a
  | shz a => "SHZ" ++ digit a
  | shpix => "SHPIX"
  | ip => "IP"
  | msirp a => "MSIRP" ++ digit a
  | alignrp => "ALIGNRP"
  | rtdg => "RTDG"
  | miap a => "MIAP" ++ digit a
  | npushb => "NPUSHB"
  | npushw => "NPUSHW"
  | ws => "WS"
  | rs => "RS"
  | wcvtp => "WCVTP"
  | rcvt => "RCVT"
  | gc a => "GC" ++ digit a
  | scfs => "SCFS"
  | md a => "MD" ++ digit a
  | mppem => "MPPEM"
  | mps => "MPS"
  | flipon => "FLIPON"
  | flipoff => "FLIPOFF"
  | debug => "DEBUG"
  | lt => "LT"
  | lteq => "LTEQ"
  | gt => "GT"
  | gteq => "GTEQ"
  | eq => "EQ"
  | neq => "NEQ"
  | odd => "ODD"
  | even => "EVEN"
  | ifTest => "IF"
  | endIf => "EIF"
  | and => "AND"
  | or => "OR"
  | not => "NOT"
  | deltap1 => "DELTAP1"
  | sdb => "SDB"
  | sds => "SDS"
  | add => "ADD"
  | sub => "SUB"
  | div => "DIV"
  | mul => "MUL"
  | abs => "ABS"
  | neg => "NEG"
  | floor => "FLOOR"
  | ceiling => "CEILING"
  | round n => "ROUND" ++ digits 2 n.val
  | nround n => "NROUND" ++ digits 2 n.val
  | wcvtf => "WCVTF"
  | deltap2 => "DELTAP2"
  | deltap3 => "DELTAP3"
  | deltac1 => "DELTAC1"
  | deltac2 => "DELTAC2"
  | deltac3 => "DELTAC3"
  | sround => "SROUND"
  | s45round => "S45ROUND"
  | jrot => "JROT"
  | jrof => "JROF"
  | roff => "ROFF"
  | rutg => "RUTG"
  | rdtg => "RDTG"
  | sangw => "SANGW"
  | aa => "AA"
  | flippt => "FLIPPT"
  | fliprgon => "FLIPRGON"
  | fliprgoff => "FLIPRGOFF"
  | scanctrl => "SCANCTRL"
  | sdpvtl a => "SDPVTL" ++ digit a
  | getinfo => "GETINFO"
  | idef => "IDEF"
  | roll => "ROLL"
  | max => "MAX"
  | min => "MIN"
  | scantype => "SCANTYPE"
  | instctrl => "INSTCTRL"
  | getvariation => "GETVARIATION"
  | getdata => "GETDATA"
  | pushb n => "PUSHB" ++ digits 3 n.val
  | pushw n => "PUSHW" ++ digits 3 n.val
  | mdrp n => "MDRP" ++ digits 5 n.val
  | mirp n => "MIRP" ++ digits 5 n.val

/-- The opcode with the given mnemonic. -/
def ofName? (text : String) : Option Opcode :=
  all.find? fun op => op.name == text

end GridFit.Opcode
