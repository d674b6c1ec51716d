import ClientSynth.Duration
import ClientSynth.Environment

/-!
# `ClientSynth.Transport.Config` — settings of clients and their transports

Where relative addresses go, how long a transport may take, and how long a call waits for it. All of
it may come from environment variables.
-/

set_option autoImplicit false

namespace ClientSynth

/-- Settings of a transport over the network. -/
structure TransportConfig where
  baseUrl : Option String := none
  /-- How long a request may take. -/
  timeout : Duration := .ofSeconds 30
  /-- How long connecting may take. -/
  connectTimeout : Duration := .ofSeconds 10
  deriving DecidableEq

namespace TransportConfig

/-- The settings of an environment. -/
def ofEnvironment (env : Environment) : TransportConfig where
  baseUrl := env.nonBlank? "REST_SYNTH_BASE_URL"
  timeout := .ofSeconds (env.readOr Environment.word64? 30 "REST_SYNTH_TIMEOUT_SECS")
  connectTimeout := .ofSeconds (env.readOr Environment.word64? 10 "REST_SYNTH_CONNECT_TIMEOUT_SECS")

/-- Whether an address needs no base. -/
def isAbsolute (url : String) : Bool :=
  "http://".toList.isPrefixOf url.toList || "https://".toList.isPrefixOf url.toList

/-- A text without the slashes at its start. -/
def dropSlashes (cs : List Char) : List Char :=
  cs.dropWhile (· = '/')

def dropEndSlashes (cs : List Char) : List Char :=
  (cs.reverse.dropWhile (· = '/')).reverse

/-- The base and a relative address with one slash between them. -/
def join (base url : String) : String :=
  String.ofList (dropEndSlashes base.toList ++ '/' :: dropSlashes url.toList)

/-- Where a request for an address goes. -/
def resolveUrl (config : TransportConfig) (url : String) : String :=
  if isAbsolute url then url
  else
    match config.baseUrl with
    | some base => join base url
    | none => url

end TransportConfig

/-- Settings of a client. -/
structure ClientConfig where
  transport : TransportConfig := {}
  /-- How long a call waits for a response. -/
  callTimeout : Option Duration := none
  deriving DecidableEq

namespace ClientConfig

/-- The settings of an environment. A limit of zero milliseconds is none. -/
def ofEnvironment (env : Environment) : ClientConfig where
  transport := .ofEnvironment env
  callTimeout :=
    ((env.read? Environment.word64? "REST_SYNTH_CALL_TIMEOUT_MS").filter (· > 0)).map .ofMillis

/-- The settings with another base. -/
def withBaseUrl (config : ClientConfig) (base : String) : ClientConfig :=
  { config with transport := { config.transport with baseUrl := some base } }

end ClientConfig

end ClientSynth
