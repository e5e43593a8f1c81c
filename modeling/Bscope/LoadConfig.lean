import Bscope.IniFile

set_option autoImplicit false

/- Reading the configuration file into the settings. -/
namespace Bscope

/-- What a pair of section and name sets. -/
inductive Setting where
  | host | user | password | vhost | exchange | port | swapFile | nodeName | list (type : CfgType)
  | daemonMode | packetChecksum | pidFile | networkInterface
deriving DecidableEq

def strcasecmp (p1 p2 : Bytes) : Int := strncasecmp p1 p2 (p1.length + 1)

/-- The macro `MATCH`. -/
def cfgMatch (sect name : CStr) (s n : String) : Bool :=
  strcasecmp sect.bytes (asc s) = 0 && strcasecmp name.bytes (asc n) = 0

/-- The tests of `handler_config`, in their order. -/
def settingOf (sect name : CStr) : Option Setting :=
  if cfgMatch sect name "master" "host" then some .host
  else if cfgMatch sect name "master" "user" then some .user
  else if cfgMatch sect name "master" "password" then some .password
  else if cfgMatch sect name "master" "vhost" then some .vhost
  else if cfgMatch sect name "master" "exchange" then some .exchange
  else if cfgMatch sect name "master" "port" then some .port
  else if cfgMatch sect name "master" "swap_file" then some .swapFile
  else if cfgMatch sect name "http-scope" "node-name" then some .nodeName
  else if cfgMatch sect name "http-scope" "host-name" then some (.list .hostName)
  else if cfgMatch sect name "http-scope" "catch-content-by-code" then some (.list .catchCode)
  else if cfgMatch sect name "http-scope" "catch-request-header" then some (.list .catchReqHead)
  else if cfgMatch sect name "http-scope" "catch-response-header" then some (.list .catchRspHead)
  else if cfgMatch sect name "http-scope" "catch-cookie" then some (.list .catchCookie)
  else if cfgMatch sect name "http-scope" "catch-get" then some (.list .catchGet)
  else if cfgMatch sect name "http-scope" "catch-post" then some (.list .catchPost)
  else if cfgMatch sect name "http-scope" "host-ip" then some (.list .hostIp)
  else if cfgMatch sect name "http-scope" "host-port" then some (.list .hostPort)
  else if cfgMatch sect name "http-scope" "daemon-mode" then some .daemonMode
  else if cfgMatch sect name "http-scope" "packet-checksum" then some .packetChecksum
  else if cfgMatch sect name "http-scope" "pid-file" then some .pidFile
  else if cfgMatch sect name "http-scope" "network_interface" then some .networkInterface
  else none

/-- The branches of `handler_config` that set one value. -/
def Setting.assign (key : Setting) (value : CStr) (c : Settings) : Settings :=
  match key with
  | .host => { c with master := { c.master with host := some value } }
  | .user => { c with master := { c.master with user := some value } }
  | .password => { c with master := { c.master with password := some value } }
  | .vhost => { c with master := { c.master with vhost := some value } }
  | .exchange => { c with master := { c.master with exchange := some value } }
  | .port => { c with master := { c.master with port := atoi value.bytes } }
  | .swapFile => { c with swapFd := some value }
  | .nodeName => { c with node := some value }
  | .list _ => c
  | .daemonMode =>
      if c.daemonMode = 0 then { c with daemonMode := if value = lit "yes" then 1 else -1 } else c
  | .packetChecksum => { c with skipChecksum := if value = lit "yes" then 0 else 1 }
  | .pidFile => if c.pidFile = none then { c with pidFile := some value } else c
  | .networkInterface => if c.netif = none then { c with netif := some value } else c

def handlerConfig (l : Loading) (sect name value : CStr) : Except Loading (Loading × Bool) :=
  match settingOf sect name with
  | some (.list type) => (splitList l value.bytes type).map fun l => (l, true)
  | some key => .ok ({ l with config := key.assign value l.config }, true)
  | none => .ok (l, false)

/-- The defaults that `loadconfig` begins with. -/
def Settings.defaults (c : Settings) : Settings :=
  { c with
    node := some (lit "unnamed")
    master := {
      host := some (lit "localhost")
      user := some (lit "guest")
      password := some (lit "guest")
      vhost := some (lit "/")
      exchange := some (lit "http-scope")
      port := 5672 } }

/-- `file` is what the file holds when it can be opened; else the process exits. -/
def loadconfig (l : Loading) (file : Option Bytes) : Except Loading (Loading × Nat) :=
  match file with
  | some content => iniParseFile handlerConfig content { l with config := l.config.defaults }
  | none => .error l

end Bscope
