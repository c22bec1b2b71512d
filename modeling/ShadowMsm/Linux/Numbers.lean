import Mathlib.Data.Nat.Notation

/-!
# Numbers of the kernel

The constants that several drivers use, and the arithmetic of `jiffies`.
-/

namespace ShadowMsm.Linux

abbrev U32 := BitVec 32

def EIO : Int := 5
def ENXIO : Int := 6
def EFAULT : Int := 14
def EINVAL : Int := 22
def ETIME : Int := 62
def EILSEQ : Int := 84
def ETIMEDOUT : Int := 110

/-- `CONFIG_HZ` of `k3765_probe.config` -/
def HZ : U32 := 100

/-- Milliseconds as ticks, rounded up. -/
def msecsToJiffies (m : U32) : U32 := (m + (1000 / HZ - 1)) / (1000 / HZ)

/-- `(long)(b - a) < 0` -/
def timeAfter (a b : U32) : Bool := (b - a).msb

end ShadowMsm.Linux
