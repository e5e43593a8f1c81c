import Bscope.CString
import Bscope.Memory

set_option autoImplicit false

namespace Bscope

open Memory

def RPS_N : Nat := 600

def SHMEM_SIZE : Nat := 8 * 1024 * 1024

def LOG_BUF_SIZE : Nat := 8192

/-- The offset of `data` in `status`: `pid`, `conn`, `rps`, `p`, `alive` and `life`
come before it. -/
def DATA_OFFSET : Nat := 4 + 4 + 16 * RPS_N + 4 + 1 + 1

structure TimeVPair where
  time : Nat
  value : Nat
deriving DecidableEq

/-- The shared segment; `data` is what lies behind the record in the mapping,
`life` a signed char. -/
structure Status where
  conn : Nat
  rps : Nat → TimeVPair
  p : Nat
  alive : Bool
  life : Int
  data : Mem

/-- The segment as `status_init` leaves it in the process that creates it. -/
def statusInit : Status where
  conn := 0
  rps := fun _ => ⟨0, 0⟩
  p := 0
  alive := true
  life := 0
  data := fun _ => 0

/-- Store a value in a signed char. -/
def toChar (v : Int) : Int := v.bmod 256

/-- `base` is where the caller's `p` points, as an offset into `data`. -/
def pushData (stat : Status) (base : Nat) (data : Bytes) (size : Nat) : Status :=
  { stat with
    data := storeBytes (storeBytes stat.data base (shortBytes size)) (base + 2) (data.take size)
    p := stat.p + size + 2 }

/-- `msg` is the whole buffer, its NUL included; the copied size is again an
unsigned short. -/
def statusLogpush (stat : Status) (msg : Bytes) (size : Nat) : Status :=
  if size + stat.p + 4 ≥ SHMEM_SIZE - DATA_OFFSET then
    pushData
      { stat with
        data := storeBytes stat.data stat.p (shortBytes 65535)
        p := 0
        life := toChar ((stat.life + 1).tmod 255) } 0 msg ((size + 1) % 65536)
  else pushData stat stat.p msg ((size + 1) % 65536)

/-- What one activation of `show_log` does: sleep and look again, follow the
segment's end of life, start over, or print a line; the last two go on at `(i, p)`. -/
inductive LogStep where
  | wait
  | shutdown
  | restart (i : Int) (p : Nat)
  | line (text : Bytes) (i : Int) (p : Nat)
deriving DecidableEq

def showLog (stat : Status) (i : Int) (p : Nat) : LogStep :=
  if i = stat.life ∧ p = stat.p then
    if stat.alive then .wait else .shutdown
  else
    let l := loadShort stat.data p
    if l > LOG_BUF_SIZE ∨ (i ≠ stat.life ∧ stat.p > p) then .restart stat.life 0
    else .line (loadString stat.data (SHMEM_SIZE - DATA_OFFSET - (p + 2)) (p + 2)) i (p + 2 + l)

end Bscope
