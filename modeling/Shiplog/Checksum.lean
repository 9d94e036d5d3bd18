import Shiplog.Bytes

/-!
The 32-bit cyclic redundancy check in its reflected form: bits enter lowest
first, the register starts with all ones and is complemented at the end. The
register is shifted one bit at a time, so every law of the check is a law of one
shift.
-/
namespace Shiplog.Checksum

/-- The reflected generator. -/
def polynomial : UInt32 := 0xEDB88320

def shift (register : UInt32) : UInt32 :=
  if register &&& 1 = 1 then (register >>> 1) ^^^ polynomial else register >>> 1

def absorb (register : UInt32) (b : UInt8) : UInt32 :=
  shift (shift (shift (shift (shift (shift (shift (shift (register ^^^ b.toUInt32))))))))

def register (start : UInt32) (bs : Bytes) : UInt32 :=
  bs.foldl absorb start

def crc32 (bs : Bytes) : UInt32 :=
  ~~~ register 0xFFFFFFFF bs

theorem register_append (start : UInt32) (bs cs : Bytes) :
    register start (bs ++ cs) = register (register start bs) cs := by
  simp [register, List.foldl_append]

end Shiplog.Checksum
