import CaptivoAccess.Spec.GuacProto
import CaptivoAccess.Spec.ProxyResponse
import CaptivoAccess.Spec.TunnelBody

/-! Where a body of the tunnel goes: to the upstream through the connector's HTTP client
(`handleDial`), and to the browser through `writeProxyResponse` and Go's server. Both
declare a length to the other side if they were given one. -/

namespace Captivo.Body

open Lib.Utf8 Lib.HttpHead Proxy

/-- `strconv.ParseInt` of a length, where there is no error and the length is not negative. -/
def parseLength (cl : Text) : Option ℕ :=
  match Guac.atoi (utf8 cl) with
  | (.ofNat n, true) => some n
  | _ => none

def contentLength (fs : List Field) : Option ℕ := parseLength ((valuesOf fs "Content-Length".toList).headD [])

/-- The upstream gets a complete request: the client's transport has read the body to its end, with as many
bytes as were declared. A length of zero counts as none. -/
def sentWhole (req : List Field) (data : Bytes) (err : ReadError) : Bool :=
  err = .EOF && (contentLength req).all fun n => n = 0 || n = data.length

/-- The browser gets a complete response: at least the bytes that are declared. With no length declared the
server ends the response itself, since `writeProxyResponse` drops the error of the read. -/
def receivedWhole (w : Written) : Bool := (contentLength w.fields).all (· ≤ w.body.length)

end Captivo.Body
