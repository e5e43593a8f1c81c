import Bscope.Tokens
import Bscope.Worker

set_option autoImplicit false

/- The settings, and the values of a configuration line that change them. -/
namespace Bscope

open Tokens

/-- `CFG_HOST_NAME` .. `CFG_CATCH_POST`. -/
inductive CfgType where
  | hostName | hostPort | hostIp | catchCode | catchReqHead | catchRspHead | catchCookie
  | catchGet | catchPost
deriving DecidableEq

/-- An array of the configuration and the unsigned short that counts it: `items` were
stored one after another, and the next one goes to index `len`. -/
structure Counted (α : Type) where
  items : List α
  len : UInt16
deriving DecidableEq

def Counted.push {α : Type} (a : Counted α) (item : α) : Counted α :=
  ⟨a.items ++ [item], a.len + 1⟩

structure AmqpMaster where
  host : Option CStr
  user : Option CStr
  password : Option CStr
  vhost : Option CStr
  exchange : Option CStr
  port : Int
deriving DecidableEq

/-- What a configuration file can set; `swapFd` is the file that was opened for it, and
`skipChecksum` belongs to the parameters of libnids. -/
structure Settings where
  pidFile : Option CStr
  netif : Option CStr
  node : Option CStr
  swapFd : Option CStr
  skipChecksum : Int
  daemonMode : Int
  master : AmqpMaster
  hostname : Counted CStr
  hostport : Counted UInt16
  hostip : Counted (UInt32 × UInt32)
  catchCode : StatusCode → Bool
  catchReqHead : Counted CStr
  catchRspHead : Counted CStr
  catchCookie : Counted CStr
  catchGet : Counted CStr
  catchPost : Counted CStr

/-- The record after `bzero` and the options of the command line. -/
def settingsInit (pidFile netif : Option CStr) (daemonMode : Int) : Settings where
  pidFile := pidFile
  netif := netif
  node := none
  swapFd := none
  skipChecksum := 0
  daemonMode := daemonMode
  master := ⟨none, none, none, none, none, 0⟩
  hostname := ⟨[], 0⟩
  hostport := ⟨[], 0⟩
  hostip := ⟨[], 0⟩
  catchCode := fun _ => false
  catchReqHead := ⟨[], 0⟩
  catchRspHead := ⟨[], 0⟩
  catchCookie := ⟨[], 0⟩
  catchGet := ⟨[], 0⟩
  catchPost := ⟨[], 0⟩

/-- What `test_in_service` reads. -/
def Settings.service (c : Settings) : Service where
  hostip := c.hostip.items.take c.hostip.len.toNat
  hostport := c.hostport.items.take c.hostport.len.toNat

def isspace (c : UInt8) : Bool := c = 32 || (9 ≤ c && c ≤ 13)

def isdigit (c : UInt8) : Bool := 48 ≤ c && c ≤ 57

def decimalValue (digits : Bytes) : Nat := digits.foldl (fun n c => 10 * n + (c.toNat - 48)) 0

/-- `strtol`, which stops at the ends of a long, cut down to an int. -/
def atoi (s : Bytes) : Int :=
  let s := s.dropWhile isspace
  let negative := s.head? = some 45
  let s := if s.head? = some 45 ∨ s.head? = some 43 then s.tail else s
  let n : Int := decimalValue (s.takeWhile isdigit)
  (if negative then max (-(2 ^ 63)) (-n) else min (2 ^ 63 - 1) n).bmod (2 ^ 32)

example : atoi (asc " -12a") = -12 ∧ atoi (asc "+0255.1") = 255 ∧ atoi (asc "x") = 0 := by decide

/-- The `test` of `prepare_catch_code`. -/
def codeTest (c : UInt8) : Bool := (48 ≤ c && c ≤ 57) || c = 120

def codeFits (c : UInt8) (digit : Nat) : Bool := (digit : Int) = c.toNat - 48 || c = 120

/-- Its three loops go over the digits of every code. -/
def prepareCatchCode (codes : StatusCode → Bool) (p : Bytes) : StatusCode → Bool :=
  if codeTest (p.getD 0 0) && codeTest (p.getD 1 0) && codeTest (p.getD 2 0) then
    fun code => codes code ||
      (codeFits (p.getD 0 0) (code.val / 100) && codeFits (p.getD 1 0) (code.val / 10 % 10) &&
        codeFits (p.getD 2 0) (code.val % 10))
  else codes

/-- The loop of `ip_parse` over the first three octets; `none` is its `exit(1)`. -/
def ipParseLoop : Nat → Bytes → UInt32 → Option (Bytes × UInt32)
  | 0, str, ip => some (str, ip)
  | i + 1, str, ip =>
      match strchr str 46 with
      | some p =>
          ipParseLoop i p.tail
            (ip + UInt32.ofInt (atoi (str.takeWhile (· ≠ 46))) <<< (8 * (i + 1)).toUInt32)
      | none => none

/-- The address under its mask, and the mask. The machine takes the count of a shift
modulo 32. -/
def ipParse (str : Bytes) : Option (UInt32 × UInt32) :=
  match ipParseLoop 3 str 0 with
  | some (str, ip) =>
      let (mask, str) : UInt32 × Bytes := match strchr str 47 with
        | some p =>
            (if atoi p.tail = 0 then 0 else 4294967295 <<< UInt32.ofInt (32 - atoi p.tail),
              str.takeWhile (· ≠ 47))
        | none => (4294967295, str)
      let ip := ip + UInt32.ofInt (atoi str)
      some (ip &&& mask, mask)
  | none => none

example : ipParse (asc "10.1.2.255/25") = some (167838336, 4294967168) ∧
    ipParse (asc "10.1.2") = none := by decide

/-- A store into the row `index` of an array. -/
structure Slot where
  list : CfgType
  index : Nat
deriving DecidableEq

/-- The settings while a file is read, with the stores made into the arrays so far. -/
structure Loading where
  config : Settings
  slots : List Slot

/-- The counter of an array; the codes have none. -/
def Settings.counter (c : Settings) : CfgType → Option UInt16
  | .hostName => some c.hostname.len
  | .hostPort => some c.hostport.len
  | .hostIp => some c.hostip.len
  | .catchCode => none
  | .catchReqHead => some c.catchReqHead.len
  | .catchRspHead => some c.catchRspHead.len
  | .catchCookie => some c.catchCookie.len
  | .catchGet => some c.catchGet.len
  | .catchPost => some c.catchPost.len

/-- The body of the loop of `split_list`; `none` is an exit. -/
def Settings.storeToken (c : Settings) (type : CfgType) (p : Bytes) : Option Settings :=
  match type with
  | .hostName => some { c with hostname := c.hostname.push (cstr p) }
  | .hostPort => some { c with hostport := c.hostport.push (UInt16.ofInt (atoi p)) }
  | .catchReqHead => some { c with catchReqHead := c.catchReqHead.push (cstr p) }
  | .catchRspHead => some { c with catchRspHead := c.catchRspHead.push (cstr p) }
  | .catchCookie => some { c with catchCookie := c.catchCookie.push (cstr p) }
  | .catchGet => some { c with catchGet := c.catchGet.push (cstr p) }
  | .catchPost => some { c with catchPost := c.catchPost.push (cstr p) }
  | .hostIp => (ipParse p).map fun ip => { c with hostip := c.hostip.push ip }
  | .catchCode => some { c with catchCode := prepareCatchCode c.catchCode p }

def Loading.storeToken (l : Loading) (type : CfgType) (p : Bytes) : Except Loading Loading :=
  match l.config.storeToken type p with
  | some c =>
      .ok ⟨c, l.slots ++ (l.config.counter type).toList.map fun len => ⟨type, len.toNat⟩⟩
  | none => .error l

/-- The separators `", "`. -/
def isSplit (c : UInt8) : Bool := c = 44 || c = 32

/-- The loop of `split_list`; an error is the state in which the process exits. -/
def splitLoop (type : CfgType) : Nat → Bytes → Loading → Except Loading Loading
  | 0, _, l => .ok l
  | fuel + 1, value, l =>
      match strtok isSplit value with
      | some (p, rest) => (l.storeToken type p).bind (splitLoop type fuel rest)
      | none => .ok l

def splitList (l : Loading) (value : Bytes) (type : CfgType) : Except Loading Loading :=
  splitLoop type (value.length + 1) value l

end Bscope
